import EventMachines.Value.Codec
import Mathlib.Logic.Function.Basic

/-!
Alternatives on the wire, nested to any depth. At every level a value names its side, in an object
or in a pair, and what it carries is a value of that side; so whether a value is read, and as what,
is settled level by level, also where a leaf itself looks like an object with a side or like a pair.
What counts as an object or a pair that names a side is the representation that `Codec.sum` assumes.

* `Value.canonical_eq_of_beq`, `Value.lookup_canonicalFields`: the order of the fields of an object
  does not matter for what is found in it;
* `Value.Tags`, `Value.Untagged`: every value names exactly one side and carries one value, or it is
  no alternative for one of these reasons (`tags_or_untagged`);
* `Nesting.decode_eq_some_iff`, `Nesting.decode_eq_none_iff`: what is read, and what is refused;
* `Nesting.written_iff`, `Nesting.normal_of_written`: the one form that is written;
* `nested_alternatives_round_trip`: all of it, over leaves that read back what they write.
-/

namespace EventMachines

variable {α β : Type}

/-! ## Values up to the order of their fields -/

namespace Value

mutual

theorem eq_of_identical : ∀ {v w : Value}, v.identical w = true → v = w
  | null, w, h => by cases w <;> simp_all [identical]
  | bool a, w, h => by cases w <;> simp_all [identical]
  | int a, w, h => by cases w <;> simp_all [identical]
  | str a, w, h => by cases w <;> simp_all [identical]
  | arr as, w, h => by
    cases w with
    | arr bs => exact congrArg arr (eq_of_identicalItems h)
    | _ => simp [identical] at h
  | obj as, w, h => by
    cases w with
    | obj bs => exact congrArg obj (eq_of_identicalFields h)
    | _ => simp [identical] at h

theorem eq_of_identicalItems : ∀ {vs ws : List Value}, identicalItems vs ws = true → vs = ws
  | [], [], _ => rfl
  | [], _ :: _, h => by simp [identicalItems] at h
  | _ :: _, [], h => by simp [identicalItems] at h
  | v :: vs, w :: ws, h => by
    rw [identicalItems, Bool.and_eq_true] at h
    rw [eq_of_identical h.1, eq_of_identicalItems h.2]

theorem eq_of_identicalFields : ∀ {fs gs : Fields}, identicalFields fs gs = true → fs = gs
  | [], [], _ => rfl
  | [], _ :: _, h => by simp [identicalFields] at h
  | _ :: _, [], h => by simp [identicalFields] at h
  | (j, v) :: fs, (k, w) :: gs, h => by
    rw [identicalFields, Bool.and_eq_true, Bool.and_eq_true, beq_iff_eq] at h
    rw [h.1.1, eq_of_identical h.1.2, eq_of_identicalFields h.2]

end

/-- Equal values are the same once their fields are in order. -/
theorem canonical_eq_of_beq {v w : Value} (h : (v == w) = true) : v.canonical = w.canonical :=
  eq_of_identical h

theorem lookup_insertSorted (name key : String) (value : Value) (fields : Fields) :
    lookup name (insertSorted key value fields) =
      if key = name then some value else lookup name fields := by
  induction fields with
  | nil => rfl
  | cons field rest ih =>
    obtain ⟨k, v⟩ := field
    by_cases hle : key ≤ k
    · rw [insertSorted, if_pos hle]
      rfl
    · -- the names in front of the new field are smaller, so none of them is the same
      have hne : k ≠ key := fun h => hle (h ▸ String.le_refl key)
      rw [insertSorted, if_neg hle, lookup, ih, lookup]
      by_cases hk : k = name
      · subst hk
        simp [hne.symm]
      · simp [hk]

/-- Putting the fields in order changes nothing in what a name stands for. -/
theorem lookup_canonicalFields (name : String) (fields : Fields) :
    lookup name (canonicalFields fields) = (lookup name fields).map canonical := by
  induction fields with
  | nil => rfl
  | cons field rest ih =>
    obtain ⟨k, v⟩ := field
    rw [canonicalFields, lookup_insertSorted, ih, lookup]
    by_cases hk : k = name <;> simp [hk]

theorem str?_canonical (v : Value) : v.canonical.str? = v.str? := by
  cases v <;> rfl

/-! ## Values that name a side -/

/-- The value names the side and carries the other value: in two fields of an object, wherever they
stand and whatever else there is, or in a pair. -/
inductive Tags (name : String) (carried : Value) : Value → Prop
  | object {fields : Fields} (side : lookup "side" fields = some (.str name))
    (value : lookup "value" fields = some carried) : Tags name carried (.obj fields)
  | pair : Tags name carried (.arr [.str name, carried])

/-- Why a value names no side, or carries nothing. -/
inductive Untagged : Value → Prop
  | null : Untagged .null
  | bool (b : Bool) : Untagged (.bool b)
  | int (n : Int) : Untagged (.int n)
  | str (s : String) : Untagged (.str s)
  | sideless {fields : Fields} (h : lookup "side" fields = none) : Untagged (.obj fields)
  | unnamed {fields : Fields} {v : Value} (h : lookup "side" fields = some v)
    (hname : v.str? = none) : Untagged (.obj fields)
  | valueless {fields : Fields} (h : lookup "value" fields = none) : Untagged (.obj fields)
  | otherLength {items : List Value} (h : items.length ≠ 2) : Untagged (.arr items)
  | unnamedPair {v w : Value} (hname : v.str? = none) : Untagged (.arr [v, w])

theorem str?_eq_some {v : Value} {name : String} : v.str? = some name ↔ v = .str name := by
  cases v <;> simp [str?]

theorem tags_or_untagged (v : Value) : v.Untagged ∨ ∃ name carried, Tags name carried v := by
  cases v with
  | null => exact .inl .null
  | bool b => exact .inl (.bool b)
  | int n => exact .inl (.int n)
  | str s => exact .inl (.str s)
  | arr items =>
    rcases items with _ | ⟨v, _ | ⟨w, _ | ⟨x, rest⟩⟩⟩
    · exact .inl (.otherLength (by simp))
    · exact .inl (.otherLength (by simp))
    · rcases hname : v.str? with _ | name
      · exact .inl (.unnamedPair hname)
      · obtain rfl := str?_eq_some.mp hname
        exact .inr ⟨name, w, .pair⟩
    · exact .inl (.otherLength (by simp))
  | obj fields =>
    rcases hside : lookup "side" fields with _ | v
    · exact .inl (.sideless hside)
    · rcases hname : v.str? with _ | name
      · exact .inl (.unnamed hside hname)
      · obtain rfl := str?_eq_some.mp hname
        rcases hvalue : lookup "value" fields with _ | carried
        · exact .inl (.valueless hvalue)
        · exact .inr ⟨name, carried, .object hside hvalue⟩

theorem Tags.canonical {name : String} {carried v : Value} (h : Tags name carried v) :
    Tags name carried.canonical v.canonical := by
  cases h with
  | object hside hvalue =>
    refine .object ?_ ?_
    · rw [lookup_canonicalFields, hside]
      rfl
    · rw [lookup_canonicalFields, hvalue]
      rfl
  | pair => exact .pair

theorem Untagged.canonical {v : Value} (h : v.Untagged) : v.canonical.Untagged := by
  cases h with
  | null => exact .null
  | bool b => exact .bool b
  | int n => exact .int n
  | str s => exact .str s
  | sideless h => exact .sideless (by rw [lookup_canonicalFields, h]; rfl)
  | unnamed h hname =>
    exact .unnamed (by rw [lookup_canonicalFields, h]; rfl) ((str?_canonical _).trans hname)
  | valueless h => exact .valueless (by rw [lookup_canonicalFields, h]; rfl)
  | @otherLength items h =>
    refine .otherLength ?_
    rcases items with _ | ⟨v, _ | ⟨w, _ | ⟨x, rest⟩⟩⟩ <;> simp_all [canonicalItems]
  | unnamedPair hname => exact .unnamedPair ((str?_canonical _).trans hname)

end Value

namespace Codec

variable {c : Codec α} {d : Codec β} {name : String} {v carried : Value}

theorem decode_sum_of_tags (h : Value.Tags name carried v) :
    (sum c d).decode v = side c d name carried := by
  cases h with
  | object hside hvalue => simp [sum, hside, hvalue, Value.str?]
  | pair => rfl

theorem decode_sum_of_untagged (h : v.Untagged) : (sum c d).decode v = none := by
  cases h with
  | null | bool b | int n | str s => rfl
  | sideless h => simp [sum, h]
  | unnamed h hname => simp [sum, h, hname]
  | @valueless fields h =>
    simp only [sum, h]
    cases Value.lookup "side" fields <;> simp
  | @otherLength items h =>
    rcases items with _ | ⟨v, _ | ⟨w, _ | ⟨x, rest⟩⟩⟩
    · rfl
    · cases v <;> rfl
    · simp at h
    · cases v <;> rfl
  | @unnamedPair v w hname => cases v <;> first | rfl | cases hname

/-- Reads a value however its fields are ordered. -/
def Orderless (c : Codec α) : Prop := ∀ v : Value, c.decode v.canonical = c.decode v

/-- What is written for that which is read. -/
def normal (c : Codec α) (v : Value) : Option Value := (c.decode v).map c.encode

end Codec

/-! ## Nestings -/

/-- Alternatives nested to any depth, with a codec for every leaf. -/
inductive Nesting : Type → Type 1
  | leaf {α : Type} (c : Codec α) : Nesting α
  | sum {α β : Type} (left : Nesting α) (right : Nesting β) : Nesting (α ⊕ β)

namespace Nesting

def codec : {α : Type} → Nesting α → Codec α
  | _, leaf c => c
  | _, sum left right => .sum left.codec right.codec

/-- Every leaf has a codec of this kind. -/
def Leaves (p : (α : Type) → Codec α → Prop) : {α : Type} → Nesting α → Prop
  | _, leaf c => p _ c
  | _, sum left right => left.Leaves p ∧ right.Leaves p

/-- The value is one of the forms of that which is to be read. -/
def Reads : {α : Type} → Nesting α → Value → α → Prop
  | _, leaf c, v, a => c.decode v = some a
  | _, sum left _, v, .inl a => ∃ w, Value.Tags "Left" w v ∧ left.Reads w a
  | _, sum _ right, v, .inr b => ∃ w, Value.Tags "Right" w v ∧ right.Reads w b

/-- Why a value is not read: at some level it is no alternative or names another side, or it comes
to a leaf that does not read it. -/
def Refuses : {α : Type} → Nesting α → Value → Prop
  | _, leaf c, v => c.decode v = none
  | _, sum left right, v => v.Untagged ∨
    (∃ name w, Value.Tags name w v ∧ name ≠ "Left" ∧ name ≠ "Right") ∨
    (∃ w, Value.Tags "Left" w v ∧ left.Refuses w) ∨ ∃ w, Value.Tags "Right" w v ∧ right.Refuses w

/-- The value is the one form that is written. -/
def Written : {α : Type} → Nesting α → Value → Prop
  | _, leaf c, v => ∃ a, v = c.encode a
  | _, sum left right, v =>
    (∃ w, v = .obj [("side", .str "Left"), ("value", w)] ∧ left.Written w) ∨
    ∃ w, v = .obj [("side", .str "Right"), ("value", w)] ∧ right.Written w

theorem lawful (n : Nesting α) (h : n.Leaves fun _ c => c.Lawful) : n.codec.Lawful := by
  induction n with
  | leaf c => exact h
  | sum left right ihl ihr => exact Codec.lawful_sum (ihl h.1) (ihr h.2)

theorem decode_eq_some_iff (n : Nesting α) {v : Value} {a : α} :
    n.codec.decode v = some a ↔ n.Reads v a := by
  induction n generalizing v with
  | leaf c => exact Iff.rfl
  | sum left right ihl ihr =>
    constructor
    · intro h
      rcases v.tags_or_untagged with hno | ⟨name, w, htags⟩
      · cases (Codec.decode_sum_of_untagged hno).symm.trans h
      · have hside := (Codec.decode_sum_of_tags htags).symm.trans h
        by_cases hleft : name = "Left"
        · subst hleft
          obtain ⟨b, hb, rfl⟩ := Option.map_eq_some_iff.mp hside
          exact ⟨w, htags, ihl.mp hb⟩
        · by_cases hright : name = "Right"
          · subst hright
            obtain ⟨b, hb, rfl⟩ := Option.map_eq_some_iff.mp hside
            exact ⟨w, htags, ihr.mp hb⟩
          · simp [Codec.side, hleft, hright] at hside
    · intro h
      rcases a with a | b
      · obtain ⟨w, htags, hw⟩ := h
        exact (Codec.decode_sum_of_tags htags).trans (by simp [Codec.side, ihl.mpr hw])
      · obtain ⟨w, htags, hw⟩ := h
        exact (Codec.decode_sum_of_tags htags).trans (by simp [Codec.side, ihr.mpr hw])

theorem decode_eq_none_iff (n : Nesting α) {v : Value} :
    n.codec.decode v = none ↔ n.Refuses v := by
  induction n generalizing v with
  | leaf c => exact Iff.rfl
  | sum left right ihl ihr =>
    constructor
    · intro h
      rcases v.tags_or_untagged with hno | ⟨name, w, htags⟩
      · exact .inl hno
      · have hside := (Codec.decode_sum_of_tags htags).symm.trans h
        by_cases hleft : name = "Left"
        · subst hleft
          exact .inr (.inr (.inl ⟨w, htags, ihl.mp (Option.map_eq_none_iff.mp hside)⟩))
        · by_cases hright : name = "Right"
          · subst hright
            exact .inr (.inr (.inr ⟨w, htags, ihr.mp (Option.map_eq_none_iff.mp hside)⟩))
          · exact .inr (.inl ⟨name, w, htags, hleft, hright⟩)
    · rintro (hno | ⟨name, w, htags, hleft, hright⟩ | ⟨w, htags, hw⟩ | ⟨w, htags, hw⟩)
      · exact Codec.decode_sum_of_untagged hno
      · exact (Codec.decode_sum_of_tags htags).trans (by simp [Codec.side, hleft, hright])
      · exact (Codec.decode_sum_of_tags htags).trans (by simp [Codec.side, ihl.mpr hw])
      · exact (Codec.decode_sum_of_tags htags).trans (by simp [Codec.side, ihr.mpr hw])

theorem written_iff (n : Nesting α) {v : Value} : n.Written v ↔ ∃ a, v = n.codec.encode a := by
  induction n generalizing v with
  | leaf c => exact Iff.rfl
  | sum left right ihl ihr =>
    constructor
    · rintro (⟨w, rfl, hw⟩ | ⟨w, rfl, hw⟩)
      · obtain ⟨a, rfl⟩ := ihl.mp hw
        exact ⟨.inl a, rfl⟩
      · obtain ⟨b, rfl⟩ := ihr.mp hw
        exact ⟨.inr b, rfl⟩
    · rintro ⟨a | b, rfl⟩
      · exact .inl ⟨_, rfl, ihl.mpr ⟨a, rfl⟩⟩
      · exact .inr ⟨_, rfl, ihr.mpr ⟨b, rfl⟩⟩

/-- Where no leaf looks at the order of fields, no level does. -/
theorem orderless (n : Nesting α) (h : n.Leaves fun _ c => c.Orderless) : n.codec.Orderless := by
  induction n with
  | leaf c => exact h
  | sum left right ihl ihr =>
    intro v
    rcases v.tags_or_untagged with hno | ⟨name, w, htags⟩
    · exact (Codec.decode_sum_of_untagged hno.canonical).trans
        (Codec.decode_sum_of_untagged hno).symm
    · refine (Codec.decode_sum_of_tags htags.canonical).trans
        (Eq.trans ?_ (Codec.decode_sum_of_tags htags).symm)
      rw [Codec.side, ihl h.1 w, ihr h.2 w, Codec.side]

/-- What is written names its own side, also if both sides are of one type. -/
theorem encode_sides (left : Nesting α) (right : Nesting β) (a : α) (b : β) :
    ((left.sum right).codec.encode (.inl a) == (left.sum right).codec.encode (.inr b)) = false := by
  refine Bool.eq_false_iff.mpr fun hsame => ?_
  have hside := congrArg (Value.field? · "side") (Value.canonical_eq_of_beq hsame)
  have hsides : some (Value.str "Left") = some (Value.str "Right") :=
    (Value.lookup_canonicalFields _ _).symm.trans
      (hside.trans (Value.lookup_canonicalFields _ _))
  simp at hsides

/-- At every level the two sides are written differently. -/
def Apart : {α : Type} → Nesting α → Prop
  | _, leaf _ => True
  | _, sum left right =>
    (∀ a b, ((left.sum right).codec.encode (.inl a) ==
      (left.sum right).codec.encode (.inr b)) = false) ∧ left.Apart ∧ right.Apart

theorem apart (n : Nesting α) : n.Apart := by
  induction n with
  | leaf c => trivial
  | sum left right ihl ihr => exact ⟨left.encode_sides right, ihl, ihr⟩

theorem normal_of_written {n : Nesting α} (h : n.Leaves fun _ c => c.Lawful) {v : Value}
    (hv : n.Written v) : n.codec.normal v = some v := by
  obtain ⟨a, rfl⟩ := n.written_iff.mp hv
  rw [Codec.normal, n.lawful h a]
  rfl

/-- What is read and written again is the one form of the same. -/
theorem written_of_normal {n : Nesting α} (h : n.Leaves fun _ c => c.Lawful) {v w : Value}
    (hw : n.codec.normal v = some w) : n.Written w ∧ n.codec.decode w = n.codec.decode v := by
  obtain ⟨a, ha, rfl⟩ := Option.map_eq_some_iff.mp hw
  exact ⟨n.written_iff.mpr ⟨a, rfl⟩, (n.lawful h a).trans ha.symm⟩

/-- The forms of values of a nesting: which are read, as what, and which of them is written. -/
structure RoundTrips (n : Nesting α) : Prop where
  reads_back : ∀ a, n.codec.decode (n.codec.encode a) = some a
  injective : Function.Injective n.codec.encode
  apart : n.Apart
  reads : ∀ v a, n.codec.decode v = some a ↔ n.Reads v a
  refuses : ∀ v, n.codec.decode v = none ↔ n.Refuses v
  /-- A value is a form of one thing, or it is refused, but not both. -/
  one : ∀ v, Xor (∃! a, n.Reads v a) (n.Refuses v)
  writes : ∀ v, n.Written v ↔ ∃ a, v = n.codec.encode a
  normalizes : ∀ v w, n.codec.normal v = some w →
    n.Written w ∧ n.codec.decode w = n.codec.decode v ∧ n.codec.normal w = some w
  normal_iff : ∀ v, n.codec.normal v = some v ↔ n.Written v
  /-- The order of fields says nothing, and what differs is written differently up to that order. -/
  orderless : n.Leaves (fun _ c => c.Orderless) → ∀ v w, (v == w) = true →
    n.codec.decode v = n.codec.decode w
  injective_up_to_order : n.Leaves (fun _ c => c.Orderless) → ∀ a b,
    (n.codec.encode a == n.codec.encode b) = true → a = b

/-- A value is read as one thing, or it is refused. -/
theorem xor_reads_refuses (n : Nesting α) (v : Value) :
    Xor (∃! a, n.Reads v a) (n.Refuses v) := by
  rcases hv : n.codec.decode v with _ | a
  · refine .inr ⟨n.decode_eq_none_iff.mp hv, ?_⟩
    rintro ⟨b, hb, -⟩
    cases hv.symm.trans (n.decode_eq_some_iff.mpr hb)
  · refine .inl ⟨⟨a, n.decode_eq_some_iff.mp hv, fun b hb => ?_⟩, fun hno => ?_⟩
    · exact Option.some.inj ((n.decode_eq_some_iff.mpr hb).symm.trans hv)
    · cases hv.symm.trans (n.decode_eq_none_iff.mpr hno)

theorem decode_eq_of_beq {n : Nesting α} (h : n.Leaves fun _ c => c.Orderless) {v w : Value}
    (hsame : (v == w) = true) : n.codec.decode v = n.codec.decode w := by
  rw [← n.orderless h v, Value.canonical_eq_of_beq hsame, n.orderless h w]

theorem encode_injective {n : Nesting α} (h : n.Leaves fun _ c => c.Lawful) :
    Function.Injective n.codec.encode := fun a b hab =>
  Option.some.inj ((n.lawful h a).symm.trans ((congrArg _ hab).trans (n.lawful h b)))

end Nesting

/-- Alternatives nested to any depth are read as what was written, over leaves that do so; every
value is a form of one thing or is refused, at the level where it names no side of the two; and what
is read and written again has the one form that is written. -/
theorem nested_alternatives_round_trip (n : Nesting α) (h : n.Leaves fun _ c => c.Lawful) :
    n.RoundTrips where
  reads_back := n.lawful h
  injective := Nesting.encode_injective h
  apart := n.apart
  reads _ _ := n.decode_eq_some_iff
  refuses _ := n.decode_eq_none_iff
  one := n.xor_reads_refuses
  writes _ := n.written_iff
  normalizes v w hw := by
    obtain ⟨hwritten, hsame⟩ := Nesting.written_of_normal h hw
    exact ⟨hwritten, hsame, Nesting.normal_of_written h hwritten⟩
  normal_iff v := ⟨fun hv => (Nesting.written_of_normal h hv).1, Nesting.normal_of_written h⟩
  orderless hleaves _ _ hsame := Nesting.decode_eq_of_beq hleaves hsame
  injective_up_to_order hleaves a b hab := by
    have hread := Nesting.decode_eq_of_beq hleaves hab
    rw [n.lawful h a, n.lawful h b] at hread
    exact Option.some.inj hread

/-- Two levels over leaves that may themselves be objects with a side, or pairs: both forms are
read, with fields in any order and others among them, and the form that is written has the same
meaning. -/
theorem round_trip_of_tagged_leaves :
    let n : Nesting ((Value ⊕ (String × Value)) ⊕ Value) :=
      .sum (.sum (.leaf .value) (.leaf (.pair .string .value))) (.leaf .value)
    let pair : Value := .arr [.str "Right", .int 1]
    let form : Value := .arr [.str "Left",
      .obj [("more", .null), ("value", pair), ("side", .str "Right")]]
    let written : Value := .obj [("side", .str "Left"),
      ("value", .obj [("side", .str "Right"), ("value", pair)])]
    (n.Leaves fun _ c => c.Lawful) ∧ n.RoundTrips ∧
      n.codec.decode form = some (.inl (.inr ("Right", .int 1))) ∧
      n.codec.normal form = some written ∧ n.codec.normal written = some written ∧
      n.codec.decode pair = some (.inr (.int 1)) ∧
      n.codec.decode (.obj [("side", .str "Left"), ("value", .int 1)]) = none :=
  ⟨⟨⟨Codec.lawful_value, Codec.lawful_pair Codec.lawful_string Codec.lawful_value⟩,
      Codec.lawful_value⟩,
    nested_alternatives_round_trip _
      ⟨⟨Codec.lawful_value, Codec.lawful_pair Codec.lawful_string Codec.lawful_value⟩,
        Codec.lawful_value⟩,
    rfl, rfl, rfl, rfl, rfl⟩

end EventMachines
