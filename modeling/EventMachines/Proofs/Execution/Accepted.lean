import EventMachines.Proofs.Concurrency.Contract
import EventMachines.Proofs.Execution.SoFar

/-!
The writes that a store has accepted in the run of one program or engine. What is kept by each of
them, and by calls that are not accepted writes, is kept by the run; and what a program promises of
its calls holds of every run.

* `Program.run_accumulates`, `Engine.handle_accumulates`: write by write, for a program and for all
  rounds of an engine;
* `Program.Keeps.run`, `Protocol.Kept.handle`: a contract that is kept holds at the end of a run,
  and so does a protocol at the end of all rounds;
* `Engine.CallsAs`, `Protocol.Kept.callsAs`: what may be said of all calls of an engine, whoever
  else is at work.
-/

namespace EventMachines

variable {P : Exchange} {ε Item A α ω : Type}

/-- The writes that were accepted, the oldest first, with what the store answered. -/
def accepted (transcript : List (Happening P)) : List (P.Write × P.Ack) :=
  transcript.filterMap Happening.save?

@[simp] theorem accepted_nil : accepted ([] : List (Happening P)) = [] := rfl

@[simp] theorem accepted_append (before after : List (Happening P)) :
    accepted (before ++ after) = accepted before ++ accepted after :=
  List.filterMap_append

theorem accepted_cons (h : Happening P) (later : List (Happening P)) :
    accepted (h :: later) = h.save?.toList ++ accepted later := by
  cases hsave : h.save? <;> simp [accepted, hsave]

/-- Notes are no writes. -/
@[simp] theorem accepted_calls (transcript : List (Happening P)) :
    accepted (calls transcript) = accepted transcript := by
  induction transcript with
  | nil => rfl
  | cons h later ih =>
    rw [accepted_cons, ← ih]
    cases h with
    | noted n => rfl
    | fetched i reply => exact accepted_cons _ _
    | wrote d reply => exact accepted_cons _ _
    | consulted i answer => exact accepted_cons _ _

theorem accepted_eq_nil {transcript : List (Happening P)}
    (h : ∀ happening ∈ transcript, happening.save? = none) : accepted transcript = [] :=
  List.filterMap_eq_nil_iff.mpr h

/-! ## Write by write -/

/-- What holds of a store and of the writes accepted so far, holds again after every call. -/
structure Backend.Accumulates (b : Backend P ω) (I : List (P.Write × P.Ack) → ω → Prop) : Prop where
  fetch : ∀ i w before, I before w → I before (b.fetch i w).2
  refused : ∀ d w before, (∀ ack, (b.write d w).1 ≠ .ok (.ok ack)) → I before w →
    I before (b.write d w).2
  accepted : ∀ d w ack before, (b.write d w).1 = .ok (.ok ack) → I before w →
    I (before ++ [(d, ack)]) (b.write d w).2

section

variable {b : Backend P ω} {I : List (P.Write × P.Ack) → ω → Prop}

theorem Program.run_accumulates (hb : b.Accumulates I) (p : Program P ε α) {w : ω}
    {before : List (P.Write × P.Ack)} (h : I before w) :
    I (before ++ EventMachines.accepted (p.run b w).transcript) (p.run b w).world := by
  induction p generalizing w before with
  | halt o =>
    rw [run, accepted_nil, List.append_nil]
    exact h
  | note n rest ih => exact ih h
  | fetch i rest ih =>
    have hkept := hb.fetch i w before h
    rcases hf : b.fetch i w with ⟨x | r, w'⟩ <;> rw [hf] at hkept <;> simp only [run, hf]
    · rw [accepted_cons, accepted_nil, List.append_nil]
      exact (List.append_nil before).symm ▸ hkept
    · exact ih r hkept
  | write d rest ih =>
    rcases hd : b.write d w with ⟨x | e | ack, w'⟩
    · have hkept := hb.refused d w before (by rw [hd]; simp) h
      rw [hd] at hkept
      simp only [run, hd]
      rw [accepted_cons, accepted_nil, List.append_nil]
      exact (List.append_nil before).symm ▸ hkept
    · have hkept := hb.refused d w before (by rw [hd]; simp) h
      rw [hd] at hkept
      simp only [run, hd]
      exact ih (.error e) hkept
    · have hkept := hb.accepted d w ack before (by rw [hd]) h
      rw [hd] at hkept
      simp only [run, hd, Run.after]
      have hrest := ih (.ok ack) hkept
      rw [List.append_assoc] at hrest
      rw [accepted_cons]
      exact hrest
  | consult i rest ih => exact ih _ h

theorem Engine.soFar_accumulates (e : Engine P ε Item A) (hb : b.Accumulates I) (rounds : Nat)
    {before : List (P.Write × P.Ack)} {r : Run P ε (Progress e.Pending A) ω}
    (h : I (before ++ EventMachines.accepted r.transcript) r.world) :
    I (before ++ EventMachines.accepted (e.soFar b rounds r).transcript)
      (e.soFar b rounds r).world := by
  induction rounds generalizing before r with
  | zero =>
    rw [soFar_zero]
    exact h
  | succ rounds ih =>
    rcases r with ⟨(a | rest) | x | x, w, hs⟩
    · exact h
    · have hround := (e.resume rest).run_accumulates hb h
      have hrest := ih hround
      rw [List.append_assoc, ← accepted_append] at hrest
      exact hrest
    · exact h
    · exact h

/-- **Write by write.** -/
theorem Engine.handle_accumulates (e : Engine P ε Item A) (hb : b.Accumulates I) {fuel : Nat}
    {item : Item} {w : ω} {r : Run P ε A ω} (hr : e.handle b fuel item w = some r) (h : I [] w) :
    I (EventMachines.accepted r.transcript) r.world := by
  have hstart := (e.start item).run_accumulates hb h
  rw [handle, goOn_eq_soFar] at hr
  obtain ⟨hworld, htranscript, -⟩ := Run.ended?_eq_some hr
  have hrounds : I ([] ++ EventMachines.accepted r.transcript) r.world := by
    rw [hworld, htranscript]
    exact e.soFar_accumulates hb fuel hstart
  exact hrounds

end

/-! ## Contracts -/

private theorem reverse_calls_cons {h : Happening P} (hcall : h.isCall = true)
    (later past : List (Happening P)) :
    (calls (h :: later)).reverse ++ past = (calls later).reverse ++ h :: past := by
  simp [calls, hcall]

/-- The end of a run is one that the program's contract allows after its calls. -/
theorem Program.Keeps.run {p : Program P ε α} {k : Contract P ε α} {past : List (Happening P)}
    (h : p.Keeps k past) (b : Backend P ω) (w : ω) :
    k.ends (p.run b w).outcome ((calls (p.run b w).transcript).reverse ++ past) := by
  induction p generalizing past w with
  | halt o => exact h
  | note n rest ih => exact ih h w
  | fetch i rest ih =>
    obtain ⟨-, hrest, hbroken⟩ := h
    rcases hf : b.fetch i w with ⟨x | r, w'⟩ <;> simp only [Program.run, hf]
    · exact hbroken x
    · have hends := ih r (hrest r) w'
      rw [← reverse_calls_cons rfl] at hends
      exact hends
  | write d rest ih =>
    obtain ⟨-, hrest, hbroken⟩ := h
    rcases hd : b.write d w with ⟨x | r, w'⟩ <;> simp only [Program.run, hd]
    · exact hbroken x
    · have hends := ih r (hrest r) w'
      rw [← reverse_calls_cons rfl] at hends
      exact hends
  | consult i rest ih =>
    obtain ⟨-, hrest⟩ := h
    have hends := ih _ (hrest (b.consult i w)) w
    rw [← reverse_calls_cons rfl] at hends
    exact hends

/-! ## Protocols -/

section

variable {e : Engine P ε Item A} {k : Protocol e}

theorem Protocol.Kept.goOn (hk : k.Kept) (b : Backend P ω) {item : Item} {fuel : Nat}
    {r : Run P ε (Progress e.Pending A) ω} {s : Run P ε A ω} {past : List (Happening P)}
    (h : (k.round item).ends r.outcome ((calls r.transcript).reverse ++ past))
    (hs : e.goOn b fuel r = some s) :
    k.ends item s.outcome ((calls s.transcript).reverse ++ past) := by
  induction fuel generalizing r s past with
  | zero =>
    rcases r with ⟨(a | rest) | x | x, w, transcript⟩
    · obtain rfl := Option.some.inj hs
      exact h
    · cases hs
    · obtain rfl := Option.some.inj hs
      exact h
    · obtain rfl := Option.some.inj hs
      exact h
  | succ fuel ih =>
    rcases r with ⟨(a | rest) | x | x, w, transcript⟩
    · obtain rfl := Option.some.inj hs
      exact h
    · simp only [Engine.goOn, bind, Option.bind_eq_some_iff] at hs
      obtain ⟨later, hlater, hs⟩ := hs
      obtain rfl := Option.some.inj hs
      have hround := (hk.resume item rest _ h).run b w
      have hends := ih hround hlater
      rw [← List.append_assoc, ← List.reverse_append, ← calls_append] at hends
      exact hends
    · obtain rfl := Option.some.inj hs
      exact h
    · obtain rfl := Option.some.inj hs
      exact h

/-- A run of an item ends as the protocol allows after its calls. -/
theorem Protocol.Kept.handle (hk : k.Kept) {b : Backend P ω} {item : Item} {fuel : Nat} {w : ω}
    {r : Run P ε A ω} (hr : e.handle b fuel item w = some r) :
    k.ends item r.outcome (calls r.transcript).reverse := by
  have hends := hk.goOn b ((hk.start item).run b w) hr
  rwa [List.append_nil] at hends

/-- So it is with the calls that the engine makes, the newest first: with all of a run that ends,
over every store, and with those made so far, if any, of an item that is worked on together with
others. -/
structure Engine.CallsAs (e : Engine P ε Item A) (calling : Item → List (Happening P) → Prop) :
    Prop where
  run : ∀ {ω : Type} (b : Backend P ω) (fuel : Nat) (item : Item) (w : ω) (r : Run P ε A ω),
    e.handle b fuel item w = some r → calling item (calls r.transcript).reverse
  task : ∀ {ω : Type} (b : Backend P ω) (items : List (Checked Item)) (w : ω)
    (schedule : List Nat) (i : Nat),
    let s := (System.start e items w).run b schedule
    past i s.transcript = [] ∨
      ∃ item, items[i]? = some (.ok item) ∧ calling item (past i s.transcript)

theorem Happening.exists_call {h : Happening P} (hcall : h.isCall = true) :
    ∃ c, h.call? = some c := by
  cases h with
  | noted n => cases hcall
  | fetched i reply => exact ⟨_, rfl⟩
  | wrote d reply => exact ⟨_, rfl⟩
  | consulted i answer => exact ⟨_, rfl⟩

section

variable {calling : Item → List (Happening P) → Prop}
  (hcalls : ∀ item h c past, Happening.call? h = some c → k.may item c past →
    past = [] ∨ calling item past → calling item (h :: past))
include hcalls

theorem Protocol.Allows.past {items : List (Checked Item)} {transcript : List (Nat × Happening P)}
    (h : k.Allows items transcript) (i : Nat) :
    EventMachines.past i transcript = [] ∨ ∃ item, items[i]? = some (.ok item) ∧
      calling item (EventMachines.past i transcript) := by
  induction transcript with
  | nil => exact .inl rfl
  | cons entry transcript ih =>
    have hearlier := ih (h.of_suffix (List.suffix_cons _ _))
    obtain ⟨j, happening⟩ := entry
    by_cases hj : j = i
    · subst hj
      rw [past_cons_self]
      by_cases hcall : happening.isCall = true
      · rw [if_pos hcall]
        obtain ⟨c, hc⟩ := Happening.exists_call hcall
        obtain ⟨item, hitem, hmay⟩ := h j happening c transcript List.suffix_rfl hc
        refine .inr ⟨item, hitem, hcalls item happening c _ hc hmay ?_⟩
        refine hearlier.imp_right ?_
        rintro ⟨other, hother, hcalling⟩
        obtain rfl := Except.ok.inj (Option.some.inj (hother.symm.trans hitem))
        exact hcalling
      · rw [if_neg hcall]
        exact hearlier
    · rw [past_cons_ne hj]
      exact hearlier

/-- What the calls of a protocol amount to. -/
theorem Protocol.Kept.callsAs (hk : k.Kept)
    (hends : ∀ item o past, k.ends item o past → calling item past) : e.CallsAs calling where
  run _ _ _ _ _ hr := hends _ _ _ (hk.handle hr)
  task b items w schedule i :=
    (System.run_keeps (b := b) hk items w schedule).calls.past hcalls i

end

end

end EventMachines
