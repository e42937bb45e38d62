import EventMachines.Execution.Backend
import EventMachines.Machine.Decider

/-!
The two smallest stores: a log that a fetch returns in full and a write appends to, and a slot that
a fetch reads and a write replaces. Both give back what they were given and never fail. A slot
matches a log where the state in it is the one that the log leads to.
-/

namespace EventMachines

variable {C S E R I : Type}

namespace Backend

def log : Backend (Exchange.events I E) (List E) where
  fetch _ log := (.ok (.ok log), log)
  write batch log := (.ok (.ok batch), log ++ batch)
  consult _ _ := none

def slot : Backend (Exchange.states I S) (Option S) where
  fetch _ slot := (.ok (.ok slot), slot)
  write s _ := (.ok (.ok s), some s)
  consult _ _ := none

end Backend

namespace Decider

/-- The state in the slot, or the initial one where it is empty, is what the log leads to. -/
def Matches (d : Decider C S E R) (slot : Option S) (log : List E) : Prop :=
  ∃ s, d.current slot = .ok s ∧ d.replay log = .ok s

theorem matches_some {d : Decider C S E R} {s : S} {log : List E} (h : d.replay log = .ok s) :
    d.Matches (some s) log := ⟨s, rfl, h⟩

theorem replay_append {d : Decider C S E R} {s : S} {before : List E}
    (h : d.replay before = .ok s) (after : List E) :
    d.replay (before ++ after) = d.evolveAll s after := by
  rw [replay, Checked.bind_eq_ok] at h
  obtain ⟨initial, hinitial, hbefore⟩ := h
  rw [replay, hinitial]
  show d.evolveAll initial (before ++ after) = _
  rw [evolveAll_append, hbefore]
  rfl

/-- Where every event evolves every state, so does every list of events. -/
theorem exists_evolveAll {d : Decider C S E R} (hevolve : ∀ s e, ∃ s', d.evolve s e = .ok s')
    (s : S) (events : List E) : ∃ s', d.evolveAll s events = .ok s' := by
  induction events generalizing s with
  | nil => exact ⟨s, rfl⟩
  | cons e events ih =>
    obtain ⟨next, hnext⟩ := hevolve s e
    obtain ⟨s', hs'⟩ := ih next
    refine ⟨s', ?_⟩
    rw [evolveAll_cons, hnext]
    exact hs'

end Decider

end EventMachines
