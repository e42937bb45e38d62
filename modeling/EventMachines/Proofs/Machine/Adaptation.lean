import EventMachines.Proofs.Execution.Computation

/-!
Deciders in other terms. An adapter reads commands, states and events in the terms of a decider, and
writes its states and events in other terms. Only one thing is asked of it: what it writes reads
back as it was. There may be more terms than what is written, so many states and events may read
alike, and what was read need not be written as it was.

* `evolve_adapt`, `attempt_adapt`: what the adapted decider makes of terms that read as data is what
  the decider makes of that data, told in the other terms;
* `evolveAll_adapt`, `replay_adapt`: so a history leads to a state that reads as the state that the
  history read leads to;
* `becomes_adapt`: the same for what a command makes of a state.
-/

namespace EventMachines

variable {C C' S S' E E' R R' ε ε' α β : Type}

/-! ## Alike computations -/

/-- Both break off with the same fault, or both answer, and the answers are related. -/
inductive Checked.Alike (r : α → β → Prop) : Checked α → Checked β → Prop
  | ok {a : α} {b : β} (h : r a b) : Alike r (.ok a) (.ok b)
  | error (x : Fault) : Alike r (.error x) (.error x)

theorem Checked.Alike.bind {γ δ : Type} {r : α → β → Prop} {r' : γ → δ → Prop} {x : Checked α}
    {y : Checked β} {f : α → Checked γ} {g : β → Checked δ} (h : Alike r x y)
    (hnext : ∀ a b, r a b → Alike r' (f a) (g b)) : Alike r' (x >>= f) (y >>= g) := by
  cases h with
  | ok h => exact hnext _ _ h
  | error x => exact .error x

/-- Both come to a related answer, fail with a failure and what it is told as, or break off
alike. -/
inductive Outcome.Alike (tell : ε → ε') (r : α → β → Prop) : Outcome ε' α → Outcome ε β → Prop
  | done {a : α} {b : β} (h : r a b) : Alike tell r (.done a) (.done b)
  | failed (e : ε) : Alike tell r (.failed (tell e)) (.failed e)
  | broken (x : Fault) : Alike tell r (.broken x) (.broken x)

theorem Outcome.alike_ofChecked {tell : ε → ε'} {r : α → β → Prop} {x : Checked α} {y : Checked β}
    (h : Checked.Alike r x y) : Alike tell r (ofChecked x) (ofChecked y) := by
  cases h with
  | ok h => exact .done h
  | error x => exact .broken x

/-- The failure, told of another input and with another reason. -/
def Failure.retold (input : C') (reason : R → R') : Failure C R → Failure C' R'
  | fetchFailed _ error => .fetchFailed input error
  | rejected _ r => .rejected input (reason r)
  | storeFailed _ error => .storeFailed input error
  | terminal _ => .terminal input
  | publishingFailed i cause => .publishingFailed (i.map fun _ => input) cause
  | depthExceeded _ depth => .depthExceeded input depth

/-! ## Adapters -/

/-- How a decider is told in other terms. -/
structure Adapter (C' S' E' R' C S E R : Type) where
  command : C' → Checked C
  readState : S' → Checked S
  writeState : S → S'
  readEvent : E' → Checked E
  writeEvent : E → E'
  rejection : R → R'
  read_writeState : ∀ s, readState (writeState s) = .ok s
  read_writeEvent : ∀ e, readEvent (writeEvent e) = .ok e

namespace Adapter

variable (A : Adapter C' S' E' R' C S E R)

def readLog (log : List E') : Checked (List E) := log.mapM A.readEvent

def readSlot : Option S' → Checked (Option S)
  | none => .ok none
  | some s => some <$> A.readState s

/-- The events are these, written. -/
def Writes (written : List E') (events : List E) : Prop := written = events.map A.writeEvent

/-- What is decided, in the other terms; a refusal names the command as it was given. -/
def told (c : C') : Except (Failure C R) (List E) → Except (Failure C' R') (List E')
  | .ok events => .ok (events.map A.writeEvent)
  | .error e => .error (e.retold c A.rejection)

theorem readLog_write (events : List E) : A.readLog (events.map A.writeEvent) = .ok events := by
  induction events with
  | nil => rfl
  | cons e events ih =>
    rw [readLog, List.map_cons, List.mapM_cons, A.read_writeEvent]
    show (do let rest ← A.readLog (events.map A.writeEvent); pure (e :: rest)) = _
    rw [ih]
    rfl

theorem readLog_append {log : List E'} {read : List E} (h : A.readLog log = .ok read)
    (events : List E) : A.readLog (log ++ events.map A.writeEvent) = .ok (read ++ events) := by
  have hevents := A.readLog_write events
  rw [readLog] at h hevents ⊢
  rw [List.mapM_append, h, hevents]
  rfl

end Adapter

/-- The decider in the terms of an adapter. -/
def Decider.adapt (d : Decider C S E R) (A : Adapter C' S' E' R' C S E R) : Decider C' S' E' R' :=
  (((d.mapCommand A.command).mapEvent A.readEvent fun e => .ok (A.writeEvent e)).mapState
    A.readState fun s => .ok (A.writeState s)).mapError A.rejection

namespace Decider

variable {A : Adapter C' S' E' R' C S E R} {d : Decider C S E R}

theorem evolve_adapt {s' : S'} {s : S} (hs : A.readState s' = .ok s) {e' : E'} {e : E}
    (he : A.readEvent e' = .ok e) : (d.adapt A).evolve s' e' = A.writeState <$> d.evolve s e := by
  simp only [adapt, mapError, mapState, mapEvent, mapCommand, hs]
  show (do let e ← A.readEvent e'; d.evolve s e) >>= (fun s => .ok (A.writeState s)) = _
  rw [he]
  show d.evolve s e >>= (fun s => .ok (A.writeState s)) = _
  rcases d.evolve s e with x | next <;> rfl

theorem decide_adapt {c' : C'} {c : C} (hc : A.command c' = .ok c) {s' : S'} {s : S}
    (hs : A.readState s' = .ok s) : (d.adapt A).decide c' s' = (fun
      | .ok events => .ok (events.map A.writeEvent)
      | .error reason => .error (A.rejection reason)) <$> d.decide c s := by
  simp only [adapt, mapError, mapState, mapEvent, mapCommand, hc, hs, bind, Except.bind]
  rcases d.decide c s with x | reason | events
  · rfl
  · rfl
  · have hwritten : events.mapM (fun e => (.ok (A.writeEvent e) : Checked E')) =
        .ok (events.map A.writeEvent) := List.mapM_pure
    simp only [hwritten]
    rfl

theorem attempt_adapt {c' : C'} {c : C} (hc : A.command c' = .ok c) {s' : S'} {s : S}
    (hs : A.readState s' = .ok s) : (d.adapt A).attempt c' s' = A.told c' <$> d.attempt c s := by
  have hterminal : (d.adapt A).isTerminal c' s' = d.isTerminal c s := by
    simp only [adapt, mapError, mapState, mapEvent, mapCommand, hc, hs]
    rfl
  rw [attempt, attempt, hterminal, decide_adapt hc hs]
  rcases d.isTerminal c s with x | _ | _
  · rfl
  · rcases d.decide c s with x | reason | events <;> rfl
  · rfl

/-- A history that reads as another leads to a state that reads as the other's. -/
theorem evolveAll_adapt {history' : List E'} {history : List E}
    (hread : A.readLog history' = .ok history) {s' : S'} {s : S} (hs : A.readState s' = .ok s) :
    Checked.Alike (A.readState · = .ok ·) ((d.adapt A).evolveAll s' history')
      (d.evolveAll s history) := by
  induction history' generalizing history s' s with
  | nil =>
    obtain rfl := Except.ok.inj hread
    exact .ok hs
  | cons e' rest' ih =>
    rw [Adapter.readLog, List.mapM_cons] at hread
    obtain ⟨e, he, hread⟩ := Checked.bind_eq_ok.mp hread
    obtain ⟨rest, hrest, hread⟩ := Checked.bind_eq_ok.mp hread
    obtain rfl := Except.ok.inj hread
    rw [evolveAll_cons, evolveAll_cons, evolve_adapt hs he]
    rcases d.evolve s e with x | next
    · exact .error x
    · exact ih hrest (A.read_writeState next)

theorem initial_adapt (A : Adapter C' S' E' R' C S E R) (d : Decider C S E R) :
    Checked.Alike (A.readState · = .ok ·) (d.adapt A).initial d.initial := by
  simp only [adapt, mapError, mapState, mapEvent, mapCommand]
  rcases d.initial with x | s
  · exact .error x
  · exact .ok (A.read_writeState s)

theorem replay_adapt {log' : List E'} {log : List E} (hread : A.readLog log' = .ok log) :
    Checked.Alike (A.readState · = .ok ·) ((d.adapt A).replay log') (d.replay log) :=
  (initial_adapt A d).bind fun _ _ hs => evolveAll_adapt hread hs

theorem current_adapt {slot' : Option S'} {slot : Option S} (hread : A.readSlot slot' = .ok slot) :
    Checked.Alike (A.readState · = .ok ·) ((d.adapt A).current slot') (d.current slot) := by
  cases slot' with
  | none =>
    obtain rfl := Except.ok.inj hread
    exact initial_adapt A d
  | some s' =>
    obtain ⟨s, hs, rfl⟩ := Checked.map_eq_ok.mp hread
    exact .ok hs

theorem becomes_adapt {c' : C'} {c : C} (hc : A.command c' = .ok c) {s' : S'} {s : S}
    (hs : A.readState s' = .ok s) :
    Outcome.Alike (Failure.retold c' A.rejection) (A.readState · = .ok ·)
      ((d.adapt A).becomes c' s') (d.becomes c s) := by
  rw [becomes, becomes, attempt_adapt hc hs]
  rcases d.attempt c s with x | e | events
  · exact .broken x
  · exact .failed e
  · exact Outcome.alike_ofChecked (evolveAll_adapt (A.readLog_write events) hs)

end Decider

end EventMachines
