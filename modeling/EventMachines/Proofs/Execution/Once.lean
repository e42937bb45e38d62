import EventMachines.Engine.EventSourced
import EventMachines.Proofs.Concurrency.Deliveries
import EventMachines.Proofs.Concurrency.Slots

/-!
Engines of one fetch and one write. Notes apart, the engines that do not orchestrate and are not a
saga's fetch once for their item, and what they fetched says how they go on: they end, or they write
once and answer what the store answers.

* `Program.once`: such a program, and `Course`, how it goes on; `call_of_once`: its calls;
* `Run.SavesUnder`, `Run.Breaks`: what can be said of the writes of a run;
* `run_unnoted`, `keeps_unnoted`, `unnoted_bind`: a program without its notes;
* `keeps_once`: what such a program keeps;
* `unnoted_execute`, `unnoted_updateLocked` and the like: the course of each engine;
* `runsOnce`: all eight engines are of this kind.
-/

namespace EventMachines

open Program hiding bind

variable {P : Exchange} {C I S E R T X K ε α β ω Item : Type}

/-! ## Programs without notes -/

namespace Program

def unnoted : Program P ε α → Program P ε α
  | halt o => halt o
  | note _ rest => rest.unnoted
  | fetch i rest => fetch i fun r => (rest r).unnoted
  | write d rest => write d fun r => (rest r).unnoted
  | consult i rest => consult i fun a => (rest a).unnoted

theorem run_unnoted (p : Program P ε α) (b : Backend P ω) (w : ω) :
    p.unnoted.run b w = (p.run b w).quiet := by
  induction p generalizing w with
  | halt o => rfl
  | note n rest ih => exact ih w
  | fetch i rest ih =>
    rcases hf : b.fetch i w with ⟨x | r, w'⟩ <;> simp only [unnoted, run, hf]
    · rfl
    · rw [ih]
      rfl
  | write d rest ih =>
    rcases hd : b.write d w with ⟨x | r, w'⟩ <;> simp only [unnoted, run, hd]
    · rfl
    · rw [ih]
      rfl
  | consult i rest ih =>
    simp only [unnoted, run, ih]
    rfl

/-- A contract is not about notes. -/
theorem keeps_unnoted {p : Program P ε α} {k : Contract P ε α} {past : List (Happening P)} :
    p.unnoted.Keeps k past ↔ p.Keeps k past := by
  induction p generalizing past with
  | halt o => rfl
  | note n rest ih => exact ih
  | fetch i rest ih => simp only [unnoted, Keeps, ih]
  | write d rest ih => simp only [unnoted, Keeps, ih]
  | consult i rest ih => simp only [unnoted, Keeps, ih]

theorem unnoted_bind (p : Program P ε α) (f : α → Program P ε β) :
    (p >>= f).unnoted = p.unnoted >>= fun a => (f a).unnoted := by
  show (p.bind f).unnoted = p.unnoted.bind _
  induction p with
  | halt o => cases o <;> rfl
  | note n rest ih => exact ih
  | fetch i rest ih => simp only [bind, unnoted, ih]
  | write d rest ih => simp only [bind, unnoted, ih]
  | consult i rest ih => simp only [bind, unnoted, ih]

theorem halt_computes (o : Outcome ε α) : (halt o : Program P ε α).Computes o := rfl

theorem Computes.unnoted {p : Program P ε α} {o : Outcome ε α} (h : p.Computes o) :
    p.unnoted = halt o := by
  induction p with
  | halt o' => exact congrArg halt h
  | note n rest ih => exact ih h
  | fetch i rest => exact h.elim
  | write d rest => exact h.elim
  | consult i rest => exact h.elim

end Program

/-! ## One fetch and one write -/

/-- How a call goes on after its fetch: it ends, or it writes and answers what the store answers. -/
inductive Course (P : Exchange) (ε : Type) where
  | ends (outcome : Outcome ε P.Ack)
  | writes (data : P.Write)

/-- The course that a computation leads to, unless it fails or breaks off. -/
def Outcome.course : Outcome ε S → (S → Course P ε) → Course P ε
  | done s, next => next s
  | failed e, _ => .ends (.failed e)
  | broken x, _ => .ends (.broken x)

theorem Outcome.course_eq_writes {o : Outcome ε S} {next : S → Course P ε} {data : P.Write} :
    o.course next = .writes data ↔ ∃ s, o = .done s ∧ next s = .writes data := by
  cases o <;> simp [course]

def Outcome.ofResult : Checked (Except ε α) → Outcome ε α
  | .ok (.ok a) => done a
  | .ok (.error e) => failed e
  | .error x => broken x

namespace Program

/-- Goes on as the course says. -/
def follow (onWrite : StoreError → ε) : Course P ε → Program P ε P.Ack
  | .ends o => halt o
  | .writes data => save data onWrite

/-- One fetch, and one write at most. -/
def once (input : P.Input) (onFetch onWrite : StoreError → ε) (course : P.Read → Course P ε) :
    Program P ε P.Ack := do
  follow onWrite (course (← read input onFetch))

/-- A computation without a call decides how a call goes on. -/
theorem follow_course {change : Program P ε S} {o : Outcome ε S} (hchange : change.Computes o)
    {next : S → Course P ε} {rest : S → Program P ε P.Ack} {onWrite : StoreError → ε}
    (hrest : ∀ s, (rest s).unnoted = follow onWrite (next s)) :
    (change >>= rest).unnoted = follow onWrite (o.course next) := by
  rw [unnoted_bind, hchange.unnoted]
  rcases o with s | e | x
  · exact hrest s
  · rfl
  · rfl

/-- So it is for what was fetched. -/
theorem unnoted_read_bind {input : P.Input} {onFetch onWrite : StoreError → ε}
    {rest : P.Read → Program P ε P.Ack} {course : P.Read → Course P ε}
    (hrest : ∀ stored, (rest stored).unnoted = follow onWrite (course stored)) :
    (read input onFetch >>= rest).unnoted = once input onFetch onWrite course := by
  have hread : (read input onFetch : Program P ε P.Read).unnoted = read input onFetch :=
    congrArg (fetch input) (funext fun r => by cases r <;> rfl)
  rw [unnoted_bind, hread]
  exact congrArg _ (funext hrest)

theorem unnoted_save {data : P.Write} {onWrite : StoreError → ε} (last : P.Ack → Note) :
    (save data onWrite >>= fun ack => do tell (last ack); return ack : Program P ε P.Ack).unnoted =
      save data onWrite := by
  refine congrArg (write data) (funext fun r => ?_)
  cases r <;> rfl

theorem unnoted_save_tell {data : P.Write} {onWrite : StoreError → ε} (last : Note) :
    (save data onWrite >>= fun ack => do tell last; return ack : Program P ε P.Ack).unnoted =
      save data onWrite :=
  unnoted_save fun _ => last

/-- What a program of one fetch and one write keeps, if it may make any call. -/
theorem keeps_once {input : P.Input} {onFetch onWrite : StoreError → ε}
    {course : P.Read → Course P ε} {k : Contract P ε P.Ack} {past : List (Happening P)}
    (hmay : ∀ c past, k.may c past)
    (hunread : ∀ e, k.ends (.failed (onFetch e)) (.fetched input (.ok (.error e)) :: past))
    (hbroken : ∀ x, k.ends (.broken x) (.fetched input (.error x) :: past))
    (hends : ∀ stored o, course stored = .ends o →
      k.ends o (.fetched input (.ok (.ok stored)) :: past))
    (hwrites : ∀ stored data reply, course stored = .writes data →
      k.ends (.ofResult ((·.mapError onWrite) <$> reply))
        (.wrote data reply :: .fetched input (.ok (.ok stored)) :: past)) :
    (once input onFetch onWrite course).Keeps k past := by
  refine keeps_read_bind (hmay _ _) (fun stored => ?_) hunread hbroken
  rcases hcourse : course stored with o | data
  · exact hends stored o hcourse
  · refine ⟨hmay _ _, fun r => ?_, fun x => hwrites stored data (.error x) hcourse⟩
    rcases r with e | ack
    · exact hwrites stored data (.ok (.error e)) hcourse
    · exact hwrites stored data (.ok (.ok ack)) hcourse

end Program

section

variable {b : Backend P ω} {w : ω}

/-- A program of one fetch and one write makes no other calls. -/
theorem call_of_once {input : P.Input} {onFetch onWrite : StoreError → ε}
    {course : P.Read → Course P ε} {h : Happening P}
    (hmem : h ∈ ((once input onFetch onWrite course).run b w).transcript) :
    (∃ reply, h = .fetched input reply) ∨
      ∃ stored data reply, course stored = .writes data ∧ h = .wrote data reply := by
  rw [once, read_bind] at hmem
  rcases hf : b.fetch input w with ⟨x | error | stored, w'⟩ <;> simp only [run, hf] at hmem
  · exact .inl ⟨_, List.mem_singleton.mp hmem⟩
  · exact .inl ⟨_, List.mem_singleton.mp hmem⟩
  · rcases List.mem_cons.mp hmem with rfl | hmem
    · exact .inl ⟨_, rfl⟩
    · rcases hcourse : course stored with o | data <;> rw [hcourse] at hmem
      · cases hmem
      · rcases hd : b.write data w' with ⟨x | error | ack, w''⟩ <;>
          simp only [follow, save, run, hd] at hmem <;>
          exact .inr ⟨stored, data, _, hcourse, List.mem_singleton.mp hmem⟩

/-- Once something was fetched, the run goes on as its course says. -/
theorem run_once (b : Backend P ω) (input : P.Input) (onFetch onWrite : StoreError → ε)
    (course : P.Read → Course P ε) (w : ω) :
    (once input onFetch onWrite course).run b w =
      match (b.fetch input w).1 with
      | .ok (.ok stored) => ((follow onWrite (course stored)).run b (b.fetch input w).2).after
        (.fetched input (.ok (.ok stored)))
      | .ok (.error e) =>
        ⟨.failed (onFetch e), (b.fetch input w).2, [.fetched input (.ok (.error e))]⟩
      | .error x => ⟨.broken x, (b.fetch input w).2, [.fetched input (.error x)]⟩ := by
  rw [once, read_bind]
  rcases hf : b.fetch input w with ⟨x | error | stored, w'⟩ <;> simp only [run, hf]
  rfl

theorem run_follow_writes (b : Backend P ω) (onWrite : StoreError → ε) (data : P.Write) (w : ω) :
    (follow onWrite (.writes data)).run b w =
      ⟨.ofResult ((·.mapError onWrite) <$> (b.write data w).1), (b.write data w).2,
        [.wrote data (b.write data w).1]⟩ := by
  simp only [follow, save, run]
  rcases b.write data w with ⟨x | e | ack, w'⟩ <;> rfl

/-- A program of one fetch and one write answers at once, or what the store answers to its write. -/
theorem done_of_once {input : P.Input} {onFetch onWrite : StoreError → ε}
    {course : P.Read → Course P ε} {ack : P.Ack}
    (h : ((once input onFetch onWrite course).run b w).outcome = .done ack) :
    ∃ stored, course stored = .ends (.done ack) ∨
      ∃ data w', course stored = .writes data ∧ (b.write data w').1 = .ok (.ok ack) := by
  rw [run_once] at h
  rcases hf : (b.fetch input w).1 with x | error | stored <;> simp only [hf] at h
  · cases h
  · cases h
  · refine ⟨stored, ?_⟩
    rcases hcourse : course stored with o | data <;> rw [hcourse] at h
    · exact .inl (congrArg Course.ends h)
    · rw [Run.after, run_follow_writes] at h
      rcases hd : (b.write data (b.fetch input w).2).1 with x | error | ack' <;> rw [hd] at h
      · cases h
      · cases h
      · cases h
        exact .inr ⟨data, _, rfl, hd⟩

/-- The calls of a program are those that it makes without its notes. -/
theorem mem_unnoted {p : Program P ε α} {h : Happening P}
    (hmem : h ∈ (p.run b w).transcript) (hcall : h.isCall = true) :
    h ∈ (p.unnoted.run b w).transcript := by
  rw [run_unnoted]
  exact List.mem_filter.mpr ⟨hmem, hcall⟩

end

/-! ## Writes -/

def Happening.write? : Happening P → Option (P.Write × Reply P.Ack)
  | wrote data reply => some (data, reply)
  | _ => none

namespace Run

variable {target : P.Write → Option K} {key : K} {r : Run P ε α ω}

/-- What was written, and what the store replied. -/
def writes (r : Run P ε α ω) : List (P.Write × Reply P.Ack) :=
  r.transcript.filterMap Happening.write?

theorem mem_writes {data : P.Write} {reply : Reply P.Ack} :
    (data, reply) ∈ r.writes ↔ .wrote data reply ∈ r.transcript := by
  rw [writes, List.mem_filterMap]
  constructor
  · rintro ⟨h, hmem, hwrite⟩
    cases h <;> cases hwrite
    exact hmem
  · exact fun hmem => ⟨_, hmem, rfl⟩

/-- Every write of the run goes to that key. -/
def SavesUnder (target : P.Write → Option K) (key : K) (r : Run P ε α ω) : Prop :=
  ∀ data reply, .wrote data reply ∈ r.transcript → target data = some key

theorem savesUnder_iff : r.SavesUnder target key ↔ ∀ p ∈ r.writes, target p.1 = some key :=
  ⟨fun h p hmem => h p.1 p.2 (mem_writes.mp hmem),
    fun h data reply hmem => h (data, reply) (mem_writes.mpr hmem)⟩

instance [DecidableEq K] : Decidable (r.SavesUnder target key) := decidable_of_iff' _ savesUnder_iff

/-- The store broke off in a write. -/
def Breaks (r : Run P ε α ω) : Prop := ∃ data x, .wrote data (.error x) ∈ r.transcript

theorem breaks_iff : r.Breaks ↔ ∃ p ∈ r.writes, p.2.isOk = false := by
  constructor
  · rintro ⟨data, x, hmem⟩
    exact ⟨(data, .error x), mem_writes.mpr hmem, rfl⟩
  · rintro ⟨⟨data, x | answer⟩, hmem, hreply⟩
    · exact ⟨data, x, mem_writes.mp hmem⟩
    · cases hreply

instance : Decidable r.Breaks := decidable_of_iff' _ breaks_iff

variable {Answer ε' υ : Type} {q : Run P ε' Answer υ}

theorem SavesUnder.of_writes (h : r.SavesUnder target key) (hsame : q.writes = r.writes) :
    q.SavesUnder target key := by
  rw [savesUnder_iff] at h ⊢
  rwa [hsame]

theorem Breaks.of_writes (h : r.Breaks) (hsame : q.writes = r.writes) : q.Breaks := by
  rw [breaks_iff] at h ⊢
  rwa [hsame]

theorem writes_quiet : r.quiet.writes = r.writes := by
  show (r.transcript.filter Happening.isCall).filterMap Happening.write? = _
  rw [List.filterMap_filter]
  refine congrArg (List.filterMap · r.transcript) (funext fun h => ?_)
  cases h <;> rfl

end Run

/-! ## The engines -/

/-- What a command decides in a state. -/
def Decider.decides (d : Decider C S E R) (c : C) (s : S) : Outcome (Failure C R) (List E) :=
  .ofResult (d.attempt c s)

theorem Program.attempt_computes (d : Decider C S E R) (c : C) (s : S) :
    (attempt d c s : Program P (Failure C R) (List E)).Computes (d.decides c s) := by
  rw [Program.attempt, Decider.decides]
  rcases d.attempt c s with x | e | events <;> rfl

theorem Decider.decides_eq_done {d : Decider C S E R} {c : C} {s : S} {events : List E} :
    d.decides c s = .done events ↔ d.attempt c s = .ok (.ok events) := by
  rw [decides]
  rcases d.attempt c s with x | e | events' <;> simp [Outcome.ofResult]

namespace EventSourced

/-- What a command decides after a history is written, if there is anything to write. -/
def course (d : Decider C S E R) (c : C) (history : List E) :
    Course (Exchange.events C E) (Failure C R) :=
  (Outcome.ofChecked (d.replay history)).course fun s => (d.decides c s).course fun events =>
    if events.isEmpty then .ends (.done []) else .writes events

theorem course_eq_writes {d : Decider C S E R} {c : C} {history events : List E} :
    course d c history = .writes events ↔
      events ≠ [] ∧ ∃ s, d.replay history = .ok s ∧ d.attempt c s = .ok (.ok events) := by
  simp only [course, Outcome.course_eq_writes, Outcome.ofChecked_eq_done, Decider.decides_eq_done]
  constructor
  · rintro ⟨s, hs, decided, hdecided, h⟩
    cases decided with
    | nil => cases h
    | cons e rest =>
      obtain rfl := Course.writes.inj h
      exact ⟨List.cons_ne_nil e rest, s, hs, hdecided⟩
  · rintro ⟨hne, s, hs, hdecided⟩
    exact ⟨s, hs, events, hdecided, if_neg (by simpa using hne)⟩

/-- The history also says at which version. -/
def courseLocking (d : Decider C S E R) (c : C) (history : List (E × Version)) :
    Course (Exchange.lockedEvents C E) (Failure C R) :=
  (Outcome.ofChecked (d.replay (history.map (·.1)))).course fun s =>
    (d.decides c s).course fun events =>
      if events.isEmpty then .ends (.done []) else .writes (events, .ofCurrent (lastVersion history))

theorem unnoted_execute (d : Decider C S E R) (c : C) :
    (execute d c).unnoted = once c (.fetchFailed c) (.storeFailed c) (course d c) := by
  refine unnoted_read_bind fun history => follow_course (ofChecked_computes _) fun s =>
    follow_course (attempt_computes d c s) fun events => ?_
  cases events with
  | nil => rfl
  | cons e events => exact unnoted_save _

/-- So it is where another version may be asked for. -/
def courseAsked (d : Decider C S E R) (c : C) (asked : Option ExpectedVersion)
    (history : List (E × Version)) : Course (Exchange.lockedEvents C E) (Failure C R) :=
  (Outcome.ofChecked (d.replay (history.map (·.1)))).course fun s =>
    (d.decides c s).course fun events =>
      if events.isEmpty then .ends (.done [])
      else .writes (events, asked.getD (.ofCurrent (lastVersion history)))

theorem unnoted_executeAsked (d : Decider C S E R) (c : C) (asked : Option ExpectedVersion) :
    (executeLocking d c asked).unnoted =
      once c (.fetchFailed c) (.storeFailed c) (courseAsked d c asked) := by
  refine unnoted_read_bind fun history => follow_course (ofChecked_computes _) fun s =>
    follow_course (attempt_computes d c s) fun events => ?_
  cases events with
  | nil => rfl
  | cons e events =>
    exact unnoted_save (P := Exchange.lockedEvents C E) fun saved =>
      .eventsLocked (asked.getD (.ofCurrent (lastVersion history))) saved.length (lastVersion saved)

theorem unnoted_executeLocking (d : Decider C S E R) (c : C) :
    (executeLocking d c none).unnoted =
      once c (.fetchFailed c) (.storeFailed c) (courseLocking d c) :=
  unnoted_executeAsked d c none

/-- What a command decides belongs to its stream, so it saves nothing anywhere else. -/
theorem execute_savesUnder {layout : Layout K C E T} {d : Decider C S E R}
    (hroutes : layout.Routes d) (b : Backend (Exchange.events C E) ω) (c : C) (w : ω) :
    ((execute d c).run b w).SavesUnder (fun batch : List E => batch.head?.map layout.ofEvent)
      (layout.ofInput c) := by
  intro data reply hmem
  have hcall := mem_unnoted hmem rfl
  rw [unnoted_execute] at hcall
  rcases call_of_once hcall with ⟨reply, h⟩ | ⟨history, data, reply, hcourse, h⟩
  · cases h
  · cases h
    obtain ⟨hne, s, -, hattempt⟩ := course_eq_writes.mp hcourse
    obtain ⟨e, rest, rfl⟩ := List.exists_cons_of_ne_nil hne
    exact congrArg some (hroutes c s e rest (Decider.attempt_eq_ok.mp hattempt).2)

end EventSourced

/-- What becomes of a stored state is written. -/
def Course.update (current : Option S → Checked S) (becomes : S → Outcome ε S) (stored : Option S) :
    Course (Exchange.states I S) ε :=
  (Outcome.ofChecked (current stored)).course fun s =>
    (becomes s).course fun s => .writes s

/-- The stored state comes with a token, which the call may be refused for, and which says what to
write the new state with. -/
def Course.updateMarked (initial : Checked S) (admits : Option T → Outcome ε Unit)
    (becomes : S → Outcome ε S) (mark : Option T → X) (stored : Option (S × T)) :
    Course ⟨I, Option (S × T), S × X, S × T⟩ ε :=
  (Outcome.ofChecked (storedOr initial stored)).course fun t =>
    (admits t.2).course fun _ => (becomes t.1).course fun s => .writes (s, mark t.2)

/-- Only the next delivery is admitted. -/
def SequenceNumber.admitted (i : I) (sequence : SequenceNumber) (last : Option SequenceNumber) :
    Outcome (Failure I R) Unit :=
  .ofResult ((·.mapError (.storeFailed i)) <$> sequence.check last)

theorem StateStored.unnoted_plain (d : Decider C S E R) (c : C) :
    (do
      let stored ← read c (.fetchFailed c)
      let s ← compute d c (← ofChecked (d.current stored))
      let saved ← save s (.storeFailed c)
      tell .stateSaved
      return saved : Program (Exchange.states C S) (Failure C R) S).unnoted =
      once c (.fetchFailed c) (.storeFailed c) (.update d.current (d.becomes c)) :=
  unnoted_read_bind fun _ => follow_course (ofChecked_computes _) fun s =>
    follow_course (compute_computes d c s) fun _ => unnoted_save_tell .stateSaved

theorem Projection.unnoted_plain (v : View S E) (e : E) :
    (do
      let stored ← read e (.fetchFailed e)
      let s ← ofChecked (v.newState stored [e])
      let saved ← save s (.storeFailed e)
      tell .viewSaved
      return saved : Program (Exchange.states E S) (Failure E Empty) S).unnoted =
      once e (.fetchFailed e) (.storeFailed e)
        (.update (fun stored => v.newState stored [e]) .done) :=
  unnoted_read_bind fun _ => follow_course (ofChecked_computes _) fun _ =>
    unnoted_save_tell .viewSaved

section

variable {initial : Checked S} {becomes : I → S → Outcome (Failure I R) S}

theorem unnoted_updateLocked (began : Note) (ended : ExpectedVersion → Version → Note)
    {change : I → S → Program (Exchange.lockedStates I S) (Failure I R) S}
    (hchange : ∀ i s, (change i s).Computes (becomes i s)) (i : I) :
    (updateLocked began ended initial change i).unnoted =
      once i (.fetchFailed i) (.storeFailed i)
        (.updateMarked initial (fun _ => .done ()) (becomes i) .ofCurrent) := by
  refine unnoted_read_bind fun stored => follow_course (ofChecked_computes _) fun t =>
    follow_course (hchange i t.1) fun s => ?_
  exact unnoted_save (P := Exchange.lockedStates I S) fun saved => ended (.ofCurrent t.2) saved.2

theorem unnoted_updateNumbered (began : SequenceNumber → Note)
    (skipped : Option SequenceNumber → Note) (ended : Note)
    {change : I → S → Program (Exchange.numberedStates I S) (Failure I R) S}
    (hchange : ∀ i s, (change i s).Computes (becomes i s)) (i : I) (sequence : SequenceNumber) :
    (updateNumbered began skipped ended initial change (i, sequence)).unnoted =
      once i (.fetchFailed i) (.storeFailed i)
        (.updateMarked initial (sequence.admitted i) (becomes i) fun _ => sequence) := by
  refine unnoted_read_bind fun stored => follow_course (ofChecked_computes _) fun t => ?_
  rw [SequenceNumber.admitted, unnoted_bind, (ofChecked_computes _).unnoted]
  rcases sequence.check t.2 with x | e | _
  · rfl
  · rfl
  · exact follow_course (hchange i t.1) fun s => unnoted_save_tell ended

end

/-! ## Engines that run once -/

/-- Every item is one round, of one fetch for its input and one write at most. -/
def Engine.RunsOnce (e : Engine P ε Item P.Ack) (input : Item → P.Input) : Prop :=
  ∃ body, e = .ofProgram body ∧ ∀ item, ∃ onFetch onWrite course,
    (body item).unnoted = once (input item) onFetch onWrite course

theorem EventSourced.plain_runsOnce (d : Decider C S E R) : (plain d).RunsOnce id :=
  ⟨_, rfl, fun c => ⟨_, _, _, unnoted_execute d c⟩⟩

theorem EventSourced.locking_runsOnce (d : Decider C S E R) : (locking d).RunsOnce id :=
  ⟨_, rfl, fun c => ⟨_, _, _, unnoted_executeLocking d c⟩⟩

theorem StateStored.plain_runsOnce (d : Decider C S E R) : (plain d).RunsOnce id :=
  ⟨_, rfl, fun c => ⟨_, _, _, unnoted_plain d c⟩⟩

theorem StateStored.locking_runsOnce (d : Decider C S E R) : (locking d).RunsOnce id :=
  ⟨_, locking_eq d, fun c => ⟨_, _, _, unnoted_updateLocked _ _ (compute_computes d) c⟩⟩

theorem StateStored.deduplicating_runsOnce (d : Decider C S E R) :
    (deduplicating d).RunsOnce Prod.fst :=
  ⟨_, deduplicating_eq d, fun (c, sequence) =>
    ⟨_, _, _, unnoted_updateNumbered _ _ _ (compute_computes d) c sequence⟩⟩

theorem Projection.plain_runsOnce (v : View S E) : (plain v).RunsOnce id :=
  ⟨_, rfl, fun e => ⟨_, _, _, unnoted_plain v e⟩⟩

theorem Projection.locking_runsOnce (v : View S E) : (locking v).RunsOnce id :=
  ⟨_, locking_eq v, fun e =>
    ⟨_, _, _, unnoted_updateLocked _ _ (fun _ _ => ofChecked_computes _) e⟩⟩

theorem Projection.deduplicating_runsOnce (v : View S E) : (deduplicating v).RunsOnce Prod.fst :=
  ⟨_, deduplicating_eq v, fun (e, sequence) =>
    ⟨_, _, _, unnoted_updateNumbered _ _ _ (fun _ _ => ofChecked_computes _) e sequence⟩⟩

end EventMachines
