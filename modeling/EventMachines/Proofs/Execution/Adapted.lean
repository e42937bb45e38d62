import EventMachines.Proofs.Execution.Once
import EventMachines.Proofs.Machine.Adaptation
import EventMachines.Proofs.Store.Single
import EventMachines.Sample.Countdown

/-!
Adapted deciders in the engines. Over a log and over a slot, one command after the other, an adapted
decider does with what is stored in its own terms what the decider does with that read.

* `Course.Alike`: two calls that end alike, or write alike; `course_adapt`, `update_adapt`: so are
  the calls of a decider and of the adapted one;
* `Engine.InStep`: two engines that agree at every command, from related stores to related stores;
* `adapted_decider_simulates`: so the adapted decider and the decider do.
-/

namespace EventMachines

open Program hiding bind

variable {P Q : Exchange} {C C' S S' E E' R R' I I' ε ε' α β Answer Answer' ω ω' : Type}

/-! ## Calls that are alike -/

/-- Both calls end alike, or they write related data. -/
inductive Course.Alike (tell : ε → ε') (acks : Q.Ack → P.Ack → Prop)
    (data : Q.Write → P.Write → Prop) : Course Q ε' → Course P ε → Prop
  | ends {o' : Outcome ε' Q.Ack} {o : Outcome ε P.Ack} (h : Outcome.Alike tell acks o' o) :
      Alike tell acks data (.ends o') (.ends o)
  | writes {d' : Q.Write} {d : P.Write} (h : data d' d) :
      Alike tell acks data (.writes d') (.writes d)

theorem Outcome.Alike.course {tell : ε → ε'} {r : α → β → Prop} {acks : Q.Ack → P.Ack → Prop}
    {data : Q.Write → P.Write → Prop} {o' : Outcome ε' α} {o : Outcome ε β}
    {next' : α → Course Q ε'} {next : β → Course P ε} (h : Alike tell r o' o)
    (hnext : ∀ a b, r a b → Course.Alike tell acks data (next' a) (next b)) :
    Course.Alike tell acks data (o'.course next') (o.course next) := by
  cases h with
  | done h => exact hnext _ _ h
  | failed e => exact .ends (.failed e)
  | broken x => exact .ends (.broken x)

section

variable {A : Adapter C' S' E' R' C S E R} {d : Decider C S E R} {c' : C'} {c : C}
  (hc : A.command c' = .ok c)
include hc

theorem Decider.decides_adapt {s' : S'} {s : S} (hs : A.readState s' = .ok s) :
    Outcome.Alike (Failure.retold c' A.rejection) A.Writes ((d.adapt A).decides c' s')
      (d.decides c s) := by
  rw [decides, decides, attempt_adapt hc hs]
  rcases d.attempt c s with x | e | events
  · exact .broken x
  · exact .failed e
  · exact .done rfl

theorem EventSourced.course_adapt {log' : List E'} {log : List E}
    (hlog : A.readLog log' = .ok log) :
    Course.Alike (Failure.retold c' A.rejection) A.Writes A.Writes (course (d.adapt A) c' log')
      (course d c log) := by
  refine (Outcome.alike_ofChecked (Decider.replay_adapt hlog)).course fun s' s hs => ?_
  refine (Decider.decides_adapt hc hs).course ?_
  rintro _ events rfl
  cases events with
  | nil => exact .ends (.done rfl)
  | cons e events => exact .writes rfl

theorem StateStored.update_adapt {slot' : Option S'} {slot : Option S}
    (hslot : A.readSlot slot' = .ok slot) :
    Course.Alike (Q := Exchange.states C' S') (P := Exchange.states C S)
      (Failure.retold c' A.rejection) (A.readState · = .ok ·) (A.readState · = .ok ·)
      (.update (d.adapt A).current ((d.adapt A).becomes c') slot')
      (.update d.current (d.becomes c) slot) :=
  (Outcome.alike_ofChecked (Decider.current_adapt hslot)).course fun _ _ hs =>
    (Decider.becomes_adapt hc hs).course fun _ _ h => .writes h

end

/-! ## One command -/

/-- Over a log or a slot every write is accepted: what comes of the call, and what is stored
then. -/
def Course.over (stored : ω) (store : P.Write → ω) (ack : P.Write → P.Ack) :
    Course P ε → Outcome ε P.Ack × ω
  | .ends o => (o, stored)
  | .writes data => (.done (ack data), store data)

/-- Calls that are alike come to ends that are alike and leave stores that are related, where
related data is stored so. -/
theorem Course.Alike.over {tell : ε → ε'} {acks : Q.Ack → P.Ack → Prop}
    {data : Q.Write → P.Write → Prop} {there : Course Q ε'} {here : Course P ε}
    (h : Course.Alike tell acks data there here) (stores : ω' → ω → Prop)
    {stored' : ω'} {stored : ω} (hstored : stores stored' stored)
    {store' : Q.Write → ω'} {store : P.Write → ω}
    {ack' : Q.Write → Q.Ack} {ack : P.Write → P.Ack} {last' : Outcome ε' Q.Ack × ω'}
    {last : Outcome ε P.Ack × ω} (hlast' : last' = there.over stored' store' ack')
    (hlast : last = here.over stored store ack)
    (hdata : ∀ d' d, data d' d → acks (ack' d') (ack d) ∧ stores (store' d') (store d)) :
    Outcome.Alike tell acks last'.1 last.1 ∧ stores last'.2 last.2 := by
  subst hlast' hlast
  cases h with
  | ends ho => exact ⟨ho, hstored⟩
  | writes hd => exact ⟨.done (hdata _ _ hd).1, (hdata _ _ hd).2⟩

theorem EventSourced.handle_over_log (d : Decider C S E R) (fuel : Nat) (c : C) (log : List E) :
    ∃ r, (plain d).handle Backend.log fuel c log = some r ∧
      (r.outcome, r.world) = (course d c log).over log (log ++ ·) id := by
  refine ⟨_, Engine.handle_ofProgram _ Backend.log fuel c log, ?_⟩
  have hrun : ((execute d c).run Backend.log log).quiet =
      (once c (.fetchFailed c) (.storeFailed c) (course d c)).run Backend.log log := by
    rw [← unnoted_execute, run_unnoted]
  refine (congrArg (fun r => (r.outcome, r.world)) hrun).trans ?_
  rw [once, read_bind]
  simp only [run, Backend.log]
  rcases course d c log with o | events <;> rfl

theorem StateStored.handle_over_slot (d : Decider C S E R) (fuel : Nat) (c : C) (slot : Option S) :
    ∃ r, (plain d).handle Backend.slot fuel c slot = some r ∧
      (r.outcome, r.world) =
        (Course.update (I := C) d.current (d.becomes c) slot).over slot some id := by
  refine ⟨_, Engine.handle_ofProgram _ Backend.slot fuel c slot, ?_⟩
  have hrun : ((do
      let stored ← read c (.fetchFailed c)
      let s ← compute d c (← ofChecked (d.current stored))
      let saved ← save s (.storeFailed c)
      tell .stateSaved
      return saved : Program (Exchange.states C S) (Failure C R) S).run Backend.slot slot).quiet =
      (once c (.fetchFailed c) (.storeFailed c) (.update d.current (d.becomes c))).run Backend.slot
        slot := by
    rw [← unnoted_plain, run_unnoted]
  refine (congrArg (fun r => (r.outcome, r.world)) hrun).trans ?_
  rw [once, read_bind]
  simp only [run, Backend.slot]
  rcases Course.update d.current (d.becomes c) slot with o | s <;> rfl

section

variable {A : Adapter C' S' E' R' C S E R} {d : Decider C S E R} {c' : C'} {c : C}
  (hc : A.command c' = .ok c)
include hc

/-- One command over a log, and over the log that it reads as. -/
theorem EventSourced.alike_over_log {log' : List E'} {log : List E}
    (hlog : A.readLog log' = .ok log) (fuel : Nat) :
    ∃ r' r, (plain (d.adapt A)).handle Backend.log fuel c' log' = some r' ∧
      (plain d).handle Backend.log fuel c log = some r ∧
      Outcome.Alike (Failure.retold c' A.rejection) A.Writes r'.outcome r.outcome ∧
      A.readLog r'.world = .ok r.world := by
  obtain ⟨r', hr', h'⟩ := handle_over_log (d.adapt A) fuel c' log'
  obtain ⟨r, hr, h⟩ := handle_over_log d fuel c log
  refine ⟨r', r, hr', hr, ?_⟩
  refine (course_adapt hc hlog).over (A.readLog · = .ok ·) hlog h' h fun written events hw => ?_
  exact ⟨hw, hw ▸ A.readLog_append hlog events⟩

/-- One command over a slot, and over the slot that it reads as. -/
theorem StateStored.alike_over_slot {slot' : Option S'} {slot : Option S}
    (hslot : A.readSlot slot' = .ok slot) (fuel : Nat) :
    ∃ r' r, (plain (d.adapt A)).handle Backend.slot fuel c' slot' = some r' ∧
      (plain d).handle Backend.slot fuel c slot = some r ∧
      Outcome.Alike (Failure.retold c' A.rejection) (A.readState · = .ok ·) r'.outcome r.outcome ∧
      A.readSlot r'.world = .ok r.world := by
  obtain ⟨r', hr', h'⟩ := handle_over_slot (d.adapt A) fuel c' slot'
  obtain ⟨r, hr, h⟩ := handle_over_slot d fuel c slot
  refine ⟨r', r, hr', hr, ?_⟩
  refine (update_adapt hc hslot).over (A.readSlot · = .ok ·) hslot h' h fun s' s hs => ?_
  exact ⟨hs, Checked.map_eq_ok.mpr ⟨s, hs, rfl⟩⟩

end

/-! ## All commands -/

/-- Two engines take their commands one after the other, each pair from stores that are related to
stores that are, with outcomes that agree. -/
def Engine.InStep (e' : Engine Q ε' C' Answer') (e : Engine P ε C Answer) (b' : Backend Q ω')
    (b : Backend P ω) (fuel : Nat) (stores : ω' → ω → Prop)
    (agree : C' → Outcome ε' Answer' → Outcome ε Answer → Prop) :
    List (C' × C) → ω' → ω → Prop
  | [], w', w => stores w' w
  | (c', c) :: commands, w', w => stores w' w ∧ ∃ r' r, e'.handle b' fuel c' w' = some r' ∧
    e.handle b fuel c w = some r ∧ agree c' r'.outcome r.outcome ∧
    e'.InStep e b' b fuel stores agree commands r'.world r.world

theorem Engine.inStep_of_commands {e' : Engine Q ε' C' Answer'} {e : Engine P ε C Answer}
    {b' : Backend Q ω'} {b : Backend P ω} {fuel : Nat} {stores : ω' → ω → Prop}
    {agree : C' → Outcome ε' Answer' → Outcome ε Answer → Prop} {reads : C' → C → Prop}
    (hstep : ∀ c' c, reads c' c → ∀ w' w, stores w' w → ∃ r' r, e'.handle b' fuel c' w' = some r' ∧
      e.handle b fuel c w = some r ∧ agree c' r'.outcome r.outcome ∧ stores r'.world r.world)
    {commands : List (C' × C)} (hreads : ∀ p ∈ commands, reads p.1 p.2) {w' : ω'} {w : ω}
    (h : stores w' w) : e'.InStep e b' b fuel stores agree commands w' w := by
  induction commands generalizing w' w with
  | nil => exact h
  | cons p commands ih =>
    obtain ⟨r', r, hr', hr, hagree, hstores⟩ := hstep p.1 p.2 (hreads p List.mem_cons_self) w' w h
    have hrest : ∀ q ∈ commands, reads q.1 q.2 := fun q hq => hreads q (List.mem_cons_of_mem p hq)
    exact ⟨h, r', r, hr', hr, hagree, ih hrest hstores⟩

/-- **In other terms.** Whatever the commands, and whatever is stored to begin with, the adapted
decider does over what is stored in its terms what the decider does over that read: it answers with
its events written and with states that read as the other's, refuses when the other one does, for
the reason told and in the name of the command as it was given, and leaves stores that read as the
other's. -/
theorem adapted_decider_simulates (A : Adapter C' S' E' R' C S E R) (d : Decider C S E R)
    (fuel : Nat) {commands : List (C' × C)} (hcommands : ∀ p ∈ commands, A.command p.1 = .ok p.2) :
    (∀ log' log, A.readLog log' = .ok log →
      (EventSourced.plain (d.adapt A)).InStep (EventSourced.plain d) Backend.log Backend.log fuel
        (A.readLog · = .ok ·) (fun c' => Outcome.Alike (Failure.retold c' A.rejection) A.Writes)
        commands log' log) ∧
    ∀ slot' slot, A.readSlot slot' = .ok slot →
      (StateStored.plain (d.adapt A)).InStep (StateStored.plain d) Backend.slot Backend.slot fuel
        (A.readSlot · = .ok ·)
        (fun c' => Outcome.Alike (Failure.retold c' A.rejection) (A.readState · = .ok ·))
        commands slot' slot := by
  constructor
  · intro log' log hlog
    exact Engine.inStep_of_commands
      (fun _ _ hc _ _ h => EventSourced.alike_over_log hc h fuel) hcommands hlog
  · intro slot' slot hslot
    exact Engine.inStep_of_commands
      (fun _ _ hc _ _ h => StateStored.alike_over_slot hc h fuel) hcommands hslot

/-- Events are told as twice their number and read as half of it, states as three times theirs, and
rejections by their length. -/
def Adapter.scaled : Adapter Nat Nat Nat Nat Nat Nat Nat String where
  command n := .ok n
  readState s := .ok (s / 3)
  writeState s := 3 * s
  readEvent e := .ok (e / 2)
  writeEvent e := 2 * e
  rejection := String.length
  read_writeState s := congrArg Except.ok (Nat.mul_div_cancel_left s (by decide))
  read_writeEvent e := congrArg Except.ok (Nat.mul_div_cancel_left e (by decide))

/-- A log with an odd number in it was never written, but reads as one that was. The sum takes
three, and not nine. -/
theorem summing_scaled :
    (∀ p ∈ [(3, 3), (9, 9)], Adapter.scaled.command p.1 = .ok p.2) ∧
    Adapter.scaled.readLog [5] = .ok [2] ∧
    (EventSourced.plain (Decider.summing.adapt .scaled)).InStep (EventSourced.plain .summing)
      Backend.log Backend.log 0 (Adapter.scaled.readLog · = .ok ·)
      (fun c' => Outcome.Alike (Failure.retold c' String.length) Adapter.scaled.Writes)
      [(3, 3), (9, 9)] [5] [2] ∧
    ((EventSourced.plain (Decider.summing.adapt .scaled)).handle Backend.log 0 3 [5]).map
      (fun r => (r.outcome, r.world)) = some (.done [6], [5, 6]) ∧
    ((EventSourced.plain (Decider.summing.adapt .scaled)).handle Backend.log 0 9 [5, 6]).map
      (fun r => (r.outcome, r.world)) = some (.failed (.rejected 9 9), [5, 6]) := by
  have hcommands : ∀ p ∈ [(3, 3), (9, 9)], Adapter.scaled.command p.1 = .ok p.2 := by
    simp [Adapter.scaled]
  exact ⟨hcommands, rfl, (adapted_decider_simulates .scaled .summing 0 hcommands).1 [5] [2] rfl,
    rfl, rfl⟩

end EventMachines
