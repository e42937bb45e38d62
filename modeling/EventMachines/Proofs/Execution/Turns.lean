import EventMachines.Execution.Handle
import Mathlib.Data.List.Forall2

/-!
Calls one after the other. Every call begins in the world that the one before it left, whatever came
of it, and they stop at the first one that does not come to an end.

* `Engine.inTurn`: how each item was handled, and the world after the last one;
* `Engine.GoesWith`, `goesWith_of_calls`: two engines that do the same call by call.
-/

namespace EventMachines

variable {P P' : Exchange} {ε ε' Item Item' Answer Answer' ω ω' : Type}

/-- One of several calls: its item, the world it began in, and its run. -/
structure Handling (P : Exchange) (ε Item Answer ω : Type) where
  item : Item
  before : ω
  run : Run P ε Answer ω

namespace Engine

/-- How each item was handled, and the world after the last one. -/
def inTurn (e : Engine P ε Item Answer) (b : Backend P ω) (fuel : Nat) :
    List Item → ω → List (Handling P ε Item Answer ω) × ω
  | [], w => ([], w)
  | item :: items, w =>
    match e.handle b fuel item w with
    | none => ([], w)
    | some r =>
      let rest := e.inTurn b fuel items r.world
      (⟨item, w, r⟩ :: rest.1, rest.2)

variable {e : Engine P ε Item Answer} {b : Backend P ω} {fuel : Nat} {w : ω}

theorem inTurn_of_none {item : Item} (h : e.handle b fuel item w = none) (items : List Item) :
    e.inTurn b fuel (item :: items) w = ([], w) := by
  rw [inTurn, h]

theorem inTurn_of_some {item : Item} {r : Run P ε Answer ω} (h : e.handle b fuel item w = some r)
    (items : List Item) :
    e.inTurn b fuel (item :: items) w =
      (⟨item, w, r⟩ :: (e.inTurn b fuel items r.world).1, (e.inTurn b fuel items r.world).2) := by
  rw [inTurn, h]

end Engine

/-- The same item handled twice: from related worlds, to the same end, and to related worlds. -/
structure Handling.Beside (item : Item' → Item) (related : ω → ω' → Prop)
    (same : Handling P ε Item Answer ω → Handling P' ε' Item' Answer' ω' → Prop)
    (t : Handling P ε Item Answer ω) (t' : Handling P' ε' Item' Answer' ω') : Prop where
  item : t.item = item t'.item
  before : related t.before t'.before
  same : same t t'
  after : related t.run.world t'.run.world

/-- The engines do the same with one item after the other, from related worlds, as long as their
handlings are good ones. -/
def Engine.GoesWith (e : Engine P ε Item Answer) (e' : Engine P' ε' Item' Answer')
    (b : Backend P ω) (b' : Backend P' ω') (fuel : Nat) (item : Item' → Item)
    (related : ω → ω' → Prop)
    (same : Handling P ε Item Answer ω → Handling P' ε' Item' Answer' ω' → Prop)
    (good : Handling P ε Item Answer ω → Prop) (good' : Handling P' ε' Item' Answer' ω' → Prop) :
    Prop :=
  ∀ (items : List Item') w w', related w w' →
    (∀ t ∈ (e.inTurn b fuel (items.map item) w).1, good t) →
    (∀ t' ∈ (e'.inTurn b' fuel items w').1, good' t') →
    List.Forall₂ (Handling.Beside item related same) (e.inTurn b fuel (items.map item) w).1
        (e'.inTurn b' fuel items w').1 ∧
      related (e.inTurn b fuel (items.map item) w).2 (e'.inTurn b' fuel items w').2

/-- **Call by call.** So they do if they do the same with a single item. -/
theorem Engine.goesWith_of_calls {e : Engine P ε Item Answer} {e' : Engine P' ε' Item' Answer'}
    {b : Backend P ω} {b' : Backend P' ω'} {fuel : Nat} {item : Item' → Item}
    {related : ω → ω' → Prop}
    {same : Handling P ε Item Answer ω → Handling P' ε' Item' Answer' ω' → Prop}
    {good : Handling P ε Item Answer ω → Prop} {good' : Handling P' ε' Item' Answer' ω' → Prop}
    (hcall : ∀ i w w', related w w' →
      (∀ r, e.handle b fuel (item i) w = some r → good ⟨item i, w, r⟩) →
      (∀ r', e'.handle b' fuel i w' = some r' → good' ⟨i, w', r'⟩) →
      Option.Rel (fun r r' => same ⟨item i, w, r⟩ ⟨i, w', r'⟩ ∧ related r.world r'.world)
        (e.handle b fuel (item i) w) (e'.handle b' fuel i w')) :
    e.GoesWith e' b b' fuel item related same good good' := by
  intro items
  induction items with
  | nil => exact fun w w' h _ _ => ⟨.nil, h⟩
  | cons i items ih =>
    intro w w' h hgood hgood'
    rw [List.map_cons] at hgood ⊢
    have hboth := hcall i w w' h (fun r hr => hgood _ (by simp [inTurn_of_some hr]))
      fun r' hr' => hgood' _ (by simp [inTurn_of_some hr'])
    rcases hr : e.handle b fuel (item i) w with _ | r <;>
      rcases hr' : e'.handle b' fuel i w' with _ | r' <;> rw [hr, hr'] at hboth
    · rw [inTurn_of_none hr, inTurn_of_none hr']
      exact ⟨.nil, h⟩
    · cases hboth
    · cases hboth
    · rw [inTurn_of_some hr] at hgood ⊢
      rw [inTurn_of_some hr'] at hgood' ⊢
      cases hboth with
      | some hboth =>
        obtain ⟨hrest, hlast⟩ := ih r.world r'.world hboth.2 (List.forall_mem_cons.mp hgood).2
          (List.forall_mem_cons.mp hgood').2
        exact ⟨.cons ⟨rfl, h, hboth.1, hboth.2⟩ hrest, hlast⟩

end EventMachines
