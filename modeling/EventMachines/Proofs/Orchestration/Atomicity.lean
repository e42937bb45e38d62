import EventMachines.Proofs.Cascade.Rounds
import EventMachines.Proofs.Cascade.Steps
import EventMachines.Proofs.Execution.Computation
import EventMachines.Store.Failures

/-!
All or nothing. An engine over states works a whole cascade off in memory, between its only fetch
and its only save. So a command that is refused, wherever in the cascade, means that nothing is
saved, and what is saved is what all batches together make of the state fetched.

* `cascaded_of_drive`: every command of a cascade in memory is decided in the state that the batches
  before it lead to, and a command that is refused is the last;
* `Concludes.run`, `Concludes.locking`: what an engine does with the last state is one write;
* `orchestrations_all_or_nothing`: both engines, over every store;
* `Store.states_careful`, `Store.lockedStates_careful`, `Backend.Careful.failing`: the store in
  memory keeps its slots in every call but an accepted write, also with failures planned for it.
-/

namespace EventMachines

open Cascade
open Program hiding bind

variable {C S E R ω : Type}

/-! ## A cascade in memory -/

/-- A state that a command is tried in, in memory, changes only by what the command decides. -/
theorem Decider.inMemory_evolves (d : Decider C S E R) (c : C) (depth : Nat) (s : S) :
    d.evolveAll s (d.inMemory c depth s).1.outputs = .ok (d.inMemory c depth s).2 := by
  rw [inMemory]
  rcases d.attempt c s with x | e | events
  · rfl
  · rfl
  · rcases hevolve : d.evolveAll s events with x | s' <;> simp only [hevolve]
    · rfl
    · exact hevolve

theorem Decider.attempt_of_done {d : Decider C S E R} {c : C} {depth : Nat} {s : S}
    {events : List E} (h : (d.inMemory c depth s).1 = .done events) :
    d.attempt c s = .ok (.ok events) := by
  rcases hattempt : d.attempt c s with x | e | more <;> simp only [inMemory, hattempt] at h
  · cases h
  · cases h
  · rcases hevolve : d.evolveAll s more with x | s' <;> simp only [hevolve] at h
    · cases h
    · rw [Outcome.done.inj h]

theorem Decider.attempt_of_failed {d : Decider C S E R} {c : C} {depth : Nat} {s : S}
    {e : Failure C R} (h : (d.inMemory c depth s).1 = .failed e) :
    d.attempt c s = .ok (.error e) := by
  rcases hattempt : d.attempt c s with x | e' | more <;> simp only [inMemory, hattempt] at h
  · cases h
  · rw [Outcome.failed.inj h]
  · rcases hevolve : d.evolveAll s more with x | s' <;> simp only [hevolve] at h <;> cases h

/-- How the next command of a cascade is refused in a state. -/
def Decider.Refuses (d : Decider C S E R) (limit : DepthLimit) (c : C) (depth : Nat) (s : S)
    (e : Failure C R) : Prop :=
  ¬ limit.allows depth = true ∧ e = .depthExceeded c depth ∨
    limit.allows depth = true ∧ (d.isTerminal c s = .ok true ∧ e = .terminal c ∨
      d.isTerminal c s = .ok false ∧ ∃ reason, d.decide c s = .ok (.error reason) ∧
        e = .rejected c reason)

/-- What the cascade of a command comes to in memory, from a state. -/
structure Decider.Cascaded (d : Decider C S E R) (g : Saga E C) (limit : DepthLimit) (c : C) (s : S)
    (j : Journey C E R S) : Prop where
  explored : ∃ n, explore limit g.react d.inMemory n c 0 s = some j
  /-- Every batch is decided, by a command that finds the state not terminal, in the state that the
  batches before it lead to. -/
  decided : ∀ before c' depth batch after, j.visits = before ++ ⟨c', depth, .done batch⟩ :: after →
    ∃ t, d.evolveAll s (before.flatMap (·.outcome.outputs)) = .ok t ∧
      d.isTerminal c' t = .ok false ∧ d.decide c' t = .ok (.ok batch)
  /-- A command that is refused is the last one. -/
  stopped : ∀ v ∈ j.visits, (∀ batch, v.outcome ≠ .done batch) → j.outcome = v.outcome
  /-- A cascade fails because its next command is refused in the state it has led to. -/
  refused : ∀ e, j.outcome = .failed e → ∃ visits k c' depth derived rest t,
    Follows limit g.react (.start c) visits k ∧ visits <+: j.visits ∧
    d.evolveAll s (visits.flatMap (·.outcome.outputs)) = .ok t ∧
    k.next g.react = .ok (.command c' depth derived rest) ∧ d.Refuses limit c' depth t e
  folded : d.evolveAll s j.decided = .ok j.world

section

variable {d : Decider C S E R} {g : Saga E C} {limit : DepthLimit} {c : C} {s : S} {fuel : Nat}
  {k : Cascade C E} {j : Journey C E R S}

theorem evolveAll_of_drive (h : drive limit g.react d.inMemory fuel k s = some j) :
    d.evolveAll s j.decided = .ok j.world := by
  refine drive_visits (I := fun s visits s' =>
    d.evolveAll s (visits.flatMap (·.outcome.outputs)) = .ok s') limit g.react (fun _ => rfl) ?_ h
  intro c depth s visits s' hrest
  rw [List.flatMap_cons, Decider.evolveAll_append, d.inMemory_evolves c depth s]
  exact hrest

/-- Every command is tried in the state that the batches before it lead to. -/
theorem tried_of_drive (h : drive limit g.react d.inMemory fuel k s = some j) :
    ∀ before v after, j.visits = before ++ v :: after →
      ∃ t, d.evolveAll s (before.flatMap (·.outcome.outputs)) = .ok t ∧
        (d.inMemory v.command v.depth t).1 = v.outcome := by
  refine drive_visits (I := fun s visits _ => ∀ before v after, visits = before ++ v :: after →
    ∃ t, d.evolveAll s (before.flatMap (·.outcome.outputs)) = .ok t ∧
      (d.inMemory v.command v.depth t).1 = v.outcome) limit g.react ?_ ?_ h
  · intro s before v after hvisits
    simp at hvisits
  · intro c depth s visits _ hrest before v after hvisits
    rcases before with _ | ⟨first, before⟩
    · obtain ⟨rfl, -⟩ := List.cons.inj hvisits
      exact ⟨s, rfl, rfl⟩
    · obtain ⟨rfl, hlater⟩ := List.cons.inj hvisits
      obtain ⟨t, ht, htried⟩ := hrest before v after hlater
      refine ⟨t, ?_, htried⟩
      rw [List.flatMap_cons, Decider.evolveAll_append, d.inMemory_evolves c depth s]
      exact ht

/-- **Decided in turn.** -/
theorem cascaded_of_drive (h : drive limit g.react d.inMemory fuel (.start c) s = some j) :
    d.Cascaded g limit c s j := by
  obtain ⟨visits, last, k, hfollows, hends, hvisits⟩ := drive_follows h
  have htried := tried_of_drive h
  constructor
  case explored => exact (exists_drive_iff_explore limit g.react d.inMemory c s j).mp ⟨fuel, h⟩
  case decided =>
    intro before c' depth batch after hbefore
    obtain ⟨t, ht, hdone⟩ := htried before _ after hbefore
    exact ⟨t, ht, Decider.attempt_eq_ok.mp (Decider.attempt_of_done hdone)⟩
  case stopped =>
    intro v hv hnot
    rw [hvisits] at hv
    rcases List.mem_append.mp hv with hv | hv
    · obtain ⟨batch, hdone⟩ := hfollows.done v hv
      exact absurd hdone (hnot batch)
    · generalize j.outcome = o at hends
      cases hends with
      | ended => rw [List.mem_singleton.mp hv]
      | broken | finished | tooDeep => cases hv
  case refused =>
    intro e he
    rw [he] at hends
    have hprefix : visits <+: j.visits := ⟨last, hvisits.symm⟩
    cases hends with
    | tooDeep hnext hdeep =>
      refine ⟨visits, k, _, _, _, _, j.world, hfollows, hprefix, ?_, hnext, .inl ⟨hdeep, rfl⟩⟩
      rw [← List.append_nil visits, ← hvisits]
      exact evolveAll_of_drive h
    | ended hnext hallowed _ =>
      obtain ⟨t, ht, hfailed⟩ := htried visits _ [] hvisits
      refine ⟨visits, k, _, _, _, _, t, hfollows, hprefix, ht, hnext, .inr ⟨hallowed, ?_⟩⟩
      exact Decider.attempt_eq_error.mp (Decider.attempt_of_failed hfailed)
  case folded => exact evolveAll_of_drive h

end

/-! ## One fetch and one save -/

variable {P : Exchange}

namespace Happening

def isFetch : Happening P → Bool
  | fetched _ _ => true
  | _ => false

def isWrite : Happening P → Bool
  | wrote _ _ => true
  | _ => false

end Happening

def fetches (transcript : List (Happening P)) : List (Happening P) :=
  transcript.filter Happening.isFetch

def writes (transcript : List (Happening P)) : List (Happening P) :=
  transcript.filter Happening.isWrite

theorem fetches_calls (transcript : List (Happening P)) :
    fetches (calls transcript) = fetches transcript := by
  rw [fetches, calls, List.filter_filter]
  exact List.filter_congr fun h _ => by cases h <;> rfl

theorem writes_calls (transcript : List (Happening P)) :
    writes (calls transcript) = writes transcript := by
  rw [writes, calls, List.filter_filter]
  exact List.filter_congr fun h _ => by cases h <;> rfl

/-- A part of the store that stays as it is in a fetch and in a write that is not accepted. -/
structure Backend.Careful {α : Type} (b : Backend P ω) (view : ω → α) : Prop where
  fetch : ∀ i w, view (b.fetch i w).2 = view w
  refused : ∀ data w, (∀ ack, (b.write data w).1 ≠ .ok (.ok ack)) → view (b.write data w).2 = view w

/-- What came of handling a command. `begun` is the state a call begins with, given what it fetched,
and `state` is what it writes. -/
structure AllOrNothing (d : Decider C S E R) (g : Saga E C) (limit : DepthLimit)
    (begun : P.Read → Checked S) (state : P.Write → S) (b : Backend P ω) (c : C) (input : P.Input)
    (w : ω) (r : Run P (Failure C R) P.Ack ω) : Prop where
  fetched : ∃ reply, fetches r.transcript = [.fetched input reply]
  written : (writes r.transcript).length ≤ 1
  /-- Nothing is written without a state to begin with. -/
  started : writes r.transcript ≠ [] → ∃ stored s,
    fetches r.transcript = [.fetched input (.ok (.ok stored))] ∧ begun stored = .ok s
  /-- A success is a write that was accepted. -/
  saved : ∀ answer, r.outcome = .done answer ↔
    ∃ data, writes r.transcript = [.wrote data (.ok (.ok answer))]
  cascaded : ∀ stored s, fetches r.transcript = [.fetched input (.ok (.ok stored))] →
    begun stored = .ok s → ∃ j, d.Cascaded g limit c s j ∧
      (∀ events, j.outcome = .done events → ∃ data reply,
        writes r.transcript = [.wrote data reply] ∧ state data = j.world) ∧
      (∀ e, j.outcome = .failed e → r.outcome = .failed e ∧ writes r.transcript = []) ∧
      ∀ x, j.outcome = .broken x → r.outcome = .broken x ∧ writes r.transcript = []
  /-- Without a success everything is as it was. -/
  unchanged : ∀ {α : Type} (view : ω → α), b.Careful view → (∀ answer, r.outcome ≠ .done answer) →
    view r.world = view w

section

variable {d : Decider C S E R} {g : Saga E C} {limit : DepthLimit} {begun : P.Read → Checked S}
  {state : P.Write → S} {b : Backend P ω} {c : C} {input : P.Input} {w : ω}

/-- The notes of a run do not matter. -/
theorem AllOrNothing.of_quiet {r : Run P (Failure C R) P.Ack ω}
    (h : AllOrNothing d g limit begun state b c input w r.quiet) :
    AllOrNothing d g limit begun state b c input w r := by
  obtain ⟨hfetched, hwritten, hstarted, hsaved, hcascaded, hunchanged⟩ := h
  simp only [Run.quiet, fetches_calls, writes_calls] at hfetched hwritten hstarted hsaved hcascaded
  exact ⟨hfetched, hwritten, hstarted, hsaved, hcascaded, hunchanged⟩

/-- A call that ends without a write, and as its cascade ends if it has a state to begin with. -/
theorem allOrNothing_of_unwritten {o : Outcome (Failure C R) P.Ack}
    (ho : ∀ answer, o ≠ .done answer)
    (hcascaded : ∀ stored s, (b.fetch input w).1 = .ok (.ok stored) → begun stored = .ok s →
      ∃ j, d.Cascaded g limit c s j ∧ (∀ events, j.outcome ≠ .done events) ∧
        (∀ e, j.outcome = .failed e → o = .failed e) ∧ ∀ x, j.outcome = .broken x → o = .broken x) :
    AllOrNothing d g limit begun state b c input w
      ⟨o, (b.fetch input w).2, [.fetched input (b.fetch input w).1]⟩ where
  fetched := ⟨_, rfl⟩
  written := Nat.zero_le 1
  started hwrites := absurd rfl hwrites
  saved answer := by
    refine iff_of_false (ho answer) ?_
    rintro ⟨data, hwrites⟩
    cases hwrites
  cascaded stored s hfetches hbegun := by
    have hfetch := (Happening.fetched.inj (List.cons.inj hfetches).1).2
    obtain ⟨j, hj, hnot, hfailed, hbroken⟩ := hcascaded stored s hfetch hbegun
    exact ⟨j, hj, fun events hdone => absurd hdone (hnot events), fun e he => ⟨hfailed e he, rfl⟩,
      fun x hx => ⟨hbroken x hx, rfl⟩⟩
  unchanged view hcareful _ := hcareful.fetch input w

/-- What an engine does with the last state of a cascade is one write, whose answer it gives. -/
structure Concludes (state : P.Write → S) (b : Backend P ω) (s : S) (w : ω)
    (q : Run P (Failure C R) P.Ack ω) : Prop where
  unfetched : fetches q.transcript = []
  answered : ∃ data, state data = s ∧ writes q.transcript = [.wrote data (b.write data w).1] ∧
    q.world = (b.write data w).2 ∧
    ∀ answer, q.outcome = .done answer ↔ (b.write data w).1 = .ok (.ok answer)

/-- A call that has a state to begin with works its cascade off and writes where that ends. -/
theorem allOrNothing_of_read {stored : P.Read} {s : S}
    (hfetch : (b.fetch input w).1 = .ok (.ok stored)) (hbegun : begun stored = .ok s) {fuel : Nat}
    {j : Journey C E R S} (hj : drive limit g.react d.inMemory fuel (.start c) s = some j)
    {conclude : S → ω → Run P (Failure C R) P.Ack ω}
    (hconclude : ∀ s w, Concludes state b s w (conclude s w)) :
    AllOrNothing d g limit begun state b c input w
      ((⟨j.arrival, (b.fetch input w).2, [.fetched input (b.fetch input w).1]⟩ :
        Run P (Failure C R) S ω).andThen conclude) := by
  have hcascaded := cascaded_of_drive hj
  have hread : ∀ stored' s', (b.fetch input w).1 = .ok (.ok stored') → begun stored' = .ok s' →
      s' = s := by
    intro stored' s' hfetch' hbegun'
    obtain rfl : stored = stored' := Except.ok.inj (Except.ok.inj (hfetch.symm.trans hfetch'))
    exact Except.ok.inj (hbegun'.symm.trans hbegun)
  rcases hend : j.outcome with events | e | x <;> simp only [Journey.arrival, hend, Run.andThen]
  · -- the cascade ends, and its last state is written
    obtain ⟨hunfetched, data, hstate, hwrites, hworld, hanswers⟩ :=
      hconclude j.world (b.fetch input w).2
    have hall : writes ([.fetched input (b.fetch input w).1] ++
        (conclude j.world (b.fetch input w).2).transcript) =
        [.wrote data (b.write data (b.fetch input w).2).1] := by
      rw [writes, List.filter_append]
      exact hwrites
    have hone : fetches ([.fetched input (b.fetch input w).1] ++
        (conclude j.world (b.fetch input w).2).transcript) =
        [.fetched input (b.fetch input w).1] := by
      rw [fetches, List.filter_append]
      exact congrArg (_ :: ·) hunfetched
    constructor
    case fetched => exact ⟨_, hone⟩
    case written => exact Nat.le_of_eq (congrArg List.length hall)
    case started =>
      intro _
      exact ⟨stored, s, hone.trans (by rw [hfetch]), hbegun⟩
    case saved =>
      intro answer
      rw [hanswers answer]
      simp only [hall]
      constructor
      · intro haccepted
        exact ⟨data, by rw [haccepted]⟩
      · rintro ⟨data', hsame⟩
        obtain ⟨rfl, haccepted⟩ := Happening.wrote.inj (List.cons.inj hsame).1
        exact haccepted
    case cascaded =>
      intro stored' s' hfetches hbegun'
      have hfetch' := (Happening.fetched.inj (List.cons.inj (hone.symm.trans hfetches)).1).2
      obtain rfl := hread stored' s' hfetch' hbegun'
      refine ⟨j, hcascaded, fun _ _ => ⟨data, _, hall, hstate⟩, ?_, ?_⟩
      · intro e he
        cases hend.symm.trans he
      · intro x hx
        cases hend.symm.trans hx
    case unchanged =>
      intro α view hcareful hnot
      rw [hworld, hcareful.refused data _ fun ack hack => hnot ack ((hanswers ack).mpr hack)]
      exact hcareful.fetch input w
  · refine allOrNothing_of_unwritten (by simp) fun stored' s' hfetch' hbegun' => ?_
    obtain rfl := hread stored' s' hfetch' hbegun'
    refine ⟨j, hcascaded, by simp [hend], fun e' he => ?_, by simp [hend]⟩
    rw [Outcome.failed.inj (hend.symm.trans he)]
  · refine allOrNothing_of_unwritten (by simp) fun stored' s' hfetch' hbegun' => ?_
    obtain rfl := hread stored' s' hfetch' hbegun'
    refine ⟨j, hcascaded, by simp [hend], by simp [hend], fun x' hx => ?_⟩
    rw [Outcome.broken.inj (hend.symm.trans hx)]

/-- How a call begins: it fetches, and goes on if there is a state to go on with. -/
def opening {T X : Type} (began : Note) (input : P.Input) (failure : StoreError → Failure C R)
    (begin : P.Read → Checked T) (embed : T → X) :
    Program P (Failure C R) (Progress X P.Ack) := do
  tell began
  let stored ← read input failure
  let t ← ofChecked (begin stored)
  return .again (embed t)

/-- A call that has no state to begin with ends with its fetch, and fails only where that does. -/
theorem quiet_goOn_opening {T : Type} {e : Engine P (Failure C R) C P.Ack} (began : Note)
    (failure : StoreError → Failure C R) {begin : P.Read → Checked T} (embed : T → e.Pending)
    (hunread : ∀ stored t, (b.fetch input w).1 = .ok (.ok stored) → begin stored ≠ .ok t)
    (fuel : Nat) : ∃ o : Outcome (Failure C R) P.Ack, (∀ answer, o ≠ .done answer) ∧
      (∀ e, o = .failed e → ∃ error, e = failure error) ∧
      (e.goOn b fuel ((opening began input failure begin embed).run b w)).map Run.quiet =
        some ⟨o, (b.fetch input w).2, [.fetched input (b.fetch input w).1]⟩ := by
  rw [opening, tell_bind, read_bind]
  rcases hfetch : b.fetch input w with ⟨x | e | stored, w'⟩
  · exact ⟨.broken x, by simp, by simp, by simp [run, hfetch, Run.after, calls, Happening.isCall]⟩
  · refine ⟨.failed (failure e), by simp, ?_, ?_⟩
    · rintro _ ⟨⟩
      exact ⟨e, rfl⟩
    · simp [run, hfetch, Run.after, calls, Happening.isCall]
  · rcases hbegin : begin stored with x | t
    · refine ⟨.broken x, by simp, by simp, ?_⟩
      simp only [run, hfetch, hbegin, ofChecked_error, halt_broken_bind]
      simp [Run.after, calls, Happening.isCall]
    · exact absurd hbegin (hunread stored t (by rw [hfetch]))

/-- An engine that begins with a fetch, works its cascade off in memory and concludes with a write
does all or nothing. -/
theorem allOrNothing_of_handle {T : Type} (e : Engine P (Failure C R) C P.Ack) (began : Note)
    (failure : StoreError → Failure C R) (begin : P.Read → Checked T) (first : T → S)
    (embed : T → e.Pending) (hstart : e.start c = opening began input failure begin embed)
    {conclude : T → S → ω → Run P (Failure C R) P.Ack ω} {fuel : Nat}
    (hcascade : ∀ stored t, (b.fetch input w).1 = .ok (.ok stored) → begin stored = .ok t →
      (e.handle b fuel c w).map Run.quiet =
        (drive limit g.react d.inMemory fuel (.start c) (first t)).map fun j =>
          (⟨j.arrival, (b.fetch input w).2, [.fetched input (.ok (.ok stored))]⟩ :
            Run P (Failure C R) S ω).andThen (conclude t))
    (hconclude : ∀ t s w, Concludes state b s w (conclude t s w))
    {r : Run P (Failure C R) P.Ack ω} (h : e.handle b fuel c w = some r) :
    AllOrNothing d g limit (fun stored => first <$> begin stored) state b c input w r := by
  refine .of_quiet ?_
  have hr : (e.handle b fuel c w).map Run.quiet = some r.quiet := congrArg (Option.map Run.quiet) h
  by_cases hread : ∃ stored t, (b.fetch input w).1 = .ok (.ok stored) ∧ begin stored = .ok t
  · obtain ⟨stored, t, hfetch, hbegin⟩ := hread
    rw [hcascade stored t hfetch hbegin] at hr
    obtain ⟨j, hj, hquiet⟩ := Option.map_eq_some_iff.mp hr
    rw [← hquiet, ← hfetch]
    exact allOrNothing_of_read hfetch (Checked.map_eq_ok.mpr ⟨t, hbegin, rfl⟩) hj (hconclude t)
  · have hunread : ∀ stored t, (b.fetch input w).1 = .ok (.ok stored) → begin stored ≠ .ok t :=
      fun stored t hfetch hbegin => hread ⟨stored, t, hfetch, hbegin⟩
    obtain ⟨o, ho, -, hquiet⟩ := quiet_goOn_opening began failure embed hunread fuel
    rw [Engine.handle, hstart, hquiet] at hr
    rw [← Option.some.inj hr]
    refine allOrNothing_of_unwritten ho fun stored s hfetch hbegun => ?_
    obtain ⟨t, hbegin, -⟩ := Checked.map_eq_ok.mp hbegun
    exact absurd hbegin (hunread stored t hfetch)

end

/-! ## The two engines -/

/-- A write and then notes at most, as an end of a call. -/
theorem quiet_run_save {P : Exchange} (b : Backend P ω) (data : P.Write)
    (failure : StoreError → Failure C R) {last : P.Ack → Program P (Failure C R) P.Ack}
    (hlast : ∀ ack, (last ack).Computes (.done ack)) (w : ω) :
    ((save data failure >>= last).run b w).quiet =
      ⟨match (b.write data w).1 with
        | .ok (.ok ack) => .done ack
        | .ok (.error e) => .failed (failure e)
        | .error x => .broken x,
        (b.write data w).2, [.wrote data (b.write data w).1]⟩ := by
  rw [save_bind, run]
  rcases b.write data w with ⟨x | e | ack, w'⟩
  · rfl
  · rfl
  · obtain ⟨houtcome, hworld, hcalls⟩ := Run.mk.inj ((hlast ack).quiet_run b w')
    exact congr (congr (congrArg Run.mk houtcome) hworld) (congrArg (_ :: ·) hcalls)

theorem concludes_save {P : Exchange} (b : Backend P ω) (state : P.Write → S) (data : P.Write)
    (failure : StoreError → Failure C R) {last : P.Ack → Program P (Failure C R) P.Ack}
    (hlast : ∀ ack, (last ack).Computes (.done ack)) (w : ω) :
    Concludes state b (state data) w ((save data failure >>= last).run b w).quiet := by
  rw [quiet_run_save b data failure hlast]
  refine ⟨rfl, data, rfl, rfl, rfl, fun answer => ?_⟩
  rcases (b.write data w).1 with x | e | ack <;> simp

theorem Concludes.consulted {P : Exchange} {state : P.Write → S} {b : Backend P ω} {s : S} {w : ω}
    {r : Run P (Failure C R) P.Ack ω} (h : Concludes state b s w r.quiet) (input : P.Input)
    (answer : Option ExpectedVersion) :
    Concludes state b s w (r.after (.consulted input answer)).quiet :=
  ⟨h.unfetched, h.answered⟩

namespace StateStored

theorem conclude_concludes (b : Backend (Exchange.states C S) ω) (c : C) (s : S) (w : ω) :
    Concludes id b s w ((conclude c s : Program _ (Failure C R) S).run b w).quiet := by
  have hlast : ∀ saved, (note .stateSaved (pure saved) :
      Program (Exchange.states C S) (Failure C R) S).Computes (.done saved) := fun _ => rfl
  exact concludes_save b id s (.storeFailed c) hlast w

theorem concludeLocking_concludes (b : Backend (Exchange.lockedStates C S) ω) (c : C)
    (version : Option Version) (s : S) (w : ω) :
    Concludes Prod.fst b s w
      ((concludeLocking c version s : Program _ (Failure C R) _).run b w).quiet := by
  let expected := (b.consult c w).getD (.ofCurrent version)
  have hlast : ∀ saved, (note (.stateLocked expected saved.2) (pure saved) :
      Program (Exchange.lockedStates C S) (Failure C R) (S × Version)).Computes (.done saved) :=
    fun _ => rfl
  have hsave := concludes_save b Prod.fst (s, expected) (.storeFailed c) hlast w
  exact hsave.consulted c (b.consult c w)

end StateStored

theorem first_storedOr {T : Type} (d : Decider C S E R) (stored : Option (S × T)) :
    Prod.fst <$> storedOr d.initial stored = d.current (stored.map (·.1)) := by
  rcases stored with _ | stored
  · show Prod.fst <$> (do return (← d.initial, none) : Checked (S × Option T)) = d.initial
    cases d.initial <;> rfl
  · rfl

/-- **All or nothing.** A call that comes to an end has made one fetch, of its command, and one
write at most, however many commands its cascade ran. If one of them was refused, at whatever depth,
nothing is written and the failure is that of this command; otherwise what is written is what the
batches of all of them, in the order of their decisions, make of the state fetched. Where no write
is accepted, all that a careful store keeps is as it was. -/
theorem orchestrations_all_or_nothing (d : Decider C S E R) (g : Saga E C) (limit : DepthLimit)
    (c : C) (fuel : Nat) :
    (∀ (b : Backend (Exchange.states C S) ω) (w : ω) r,
      (StateStored.orchestrating d g limit).handle b fuel c w = some r →
      AllOrNothing d g limit d.current id b c c w r) ∧
    ∀ (b : Backend (Exchange.lockedStates C S) ω) (w : ω) r,
      (StateStored.lockingOrchestrating d g limit).handle b fuel c w = some r →
      AllOrNothing (P := Exchange.lockedStates C S) d g limit
        (fun stored => d.current (stored.map (·.1))) Prod.fst b c c w r := by
  refine ⟨fun b w r h => ?_, fun b w r h => ?_⟩
  · have hall := allOrNothing_of_handle (StateStored.orchestrating d g limit)
      (.began .stateStoredOrchestrating) (.fetchFailed c) d.current id
      (fun s => (⟨c, s, .start c⟩ : StateStored.Orchestration C S E)) rfl
      (fun stored s hfetch hcurrent => StateStored.quiet_handle_orchestrating d g limit b fuel
        (Prod.ext hfetch rfl) hcurrent)
      (fun _ s w => StateStored.conclude_concludes b c s w) h
    simpa only [id_map] using hall
  · have hall := allOrNothing_of_handle (StateStored.lockingOrchestrating d g limit)
      (.began .stateStoredLockingOrchestrating) (.fetchFailed c) (storedOr d.initial) Prod.fst
      (fun t => ((⟨c, t.1, .start c⟩ : StateStored.Orchestration C S E), t.2)) rfl
      (fun stored t hfetch hcurrent =>
        StateStored.quiet_handle_lockingOrchestrating d g limit b fuel (Prod.ext hfetch rfl)
          hcurrent)
      (fun t s w => StateStored.concludeLocking_concludes b c t.2 s w) h
    simpa only [first_storedOr] using hall

/-! ## Careful stores -/

theorem commit_refused {α σ : Type} {before : σ} {x : Checked (Except StoreError (α × σ))}
    (h : ∀ a, (commit before x).1 ≠ .ok (.ok a)) : (commit before x).2 = before := by
  rcases x with x | e | ⟨a, after⟩
  · rfl
  · rfl
  · exact absurd rfl (h a)

section

variable {K I T A α : Type} [DecidableEq K]

theorem Store.states_careful (layout : Layout K I T S) (intake : Intake T S A) :
    (Store.states layout intake).Careful fun st => st :=
  ⟨fun _ _ => rfl, fun _ _ h => commit_refused h⟩

theorem Store.lockedStates_careful (layout : Layout K I T S) (intake : Intake T S A)
    (latest : I → Store K T S A → Option ExpectedVersion) :
    (Store.lockedStates layout intake latest).Careful fun st => st :=
  ⟨fun _ _ => rfl, fun _ _ h => commit_refused h⟩

theorem Backend.Careful.failing {P : Exchange} {b : Backend P ω} {view : ω → α}
    (h : b.Careful view) (plan : List PlannedFailure) (writing : CallKind) :
    (b.failing plan writing).Careful fun w => view w.1 where
  fetch i w := by
    obtain ⟨w, tally⟩ := w
    simp only [Backend.failing, withPlan]
    split
    · rfl
    · exact h.fetch i w
  refused data w hrefused := by
    obtain ⟨w, tally⟩ := w
    simp only [Backend.failing, withPlan] at hrefused ⊢
    split at hrefused
    · rfl
    · exact h.refused data w hrefused

end

/-- A cascade whose end cannot be written, and one that goes too deep. -/
theorem countdown_all_or_nothing :
    (let b := (Store.states .single .faithful).failing [⟨.save, none, .io "disk full"⟩] .save
    let w : Store Unit Nat Nat Empty × Tally := (.empty, .zero)
    ∃ r, (StateStored.orchestrating .summing .countdown ⟨some 3⟩).handle b 30 3 w = some r ∧
      AllOrNothing .summing .countdown ⟨some 3⟩ Decider.summing.current id b 3 3 w r ∧
      r.outcome = .failed (.storeFailed 3 (.io "disk full")) ∧ r.world.1 = .empty) ∧
    let b := Store.lockedStates .single .faithful fun _ _ => none
    let st : Store Unit Nat Nat Empty := .empty
    ∃ r, (StateStored.lockingOrchestrating .summing .countdown ⟨some 1⟩).handle b 30 3 st = some r ∧
      AllOrNothing (P := Exchange.lockedStates Nat Nat) .summing .countdown ⟨some 1⟩
        (fun stored => Decider.summing.current (stored.map (·.1))) Prod.fst b 3 3 st r ∧
      r.outcome = .failed (.depthExceeded 1 2) ∧ r.world = .empty := by
  refine ⟨⟨_, rfl, ?_⟩, ⟨_, rfl, ?_⟩⟩
  · have hall := (orchestrations_all_or_nothing .summing .countdown ⟨some 3⟩ 3 30).1
      ((Store.states .single .faithful).failing [⟨.save, none, .io "disk full"⟩] .save)
      ((.empty : Store Unit Nat Nat Empty), .zero) _ rfl
    have hcareful := (Store.states_careful .single (.faithful : Intake Nat Nat Empty)).failing
      [⟨.save, none, .io "disk full"⟩] .save
    exact ⟨hall, rfl, hall.unchanged _ hcareful fun _ => by simp⟩
  · have hall := (orchestrations_all_or_nothing .summing .countdown ⟨some 1⟩ 3 30).2
      (Store.lockedStates .single .faithful fun _ _ => none)
      (.empty : Store Unit Nat Nat Empty) _ rfl
    have hcareful := Store.lockedStates_careful .single (.faithful : Intake Nat Nat Empty)
      fun _ _ => none
    exact ⟨hall, rfl, hall.unchanged _ hcareful fun _ => by simp⟩

end EventMachines
