import EventMachines.Engine.EventSourced
import EventMachines.Engine.StateStored
import EventMachines.Proofs.Concurrency.History

/-!
What a task promises whatever the others do. A contract says which calls a program makes and how it
ends, given the calls it has made so far and their replies; that it is kept is read off the program
alone, with every reply that could come.

* `keeps_bind`: a program in two parts keeps a contract if the first part keeps the one that asks
  the second part of its answers;
* `keeps_read_bind`, `keeps_save_bind`, `keeps_attempt_bind`, `keeps_advance_bind`: the same for the
  parts that engines are made of;
* `keeps_executeLocking_in_full`, `keeps_executeLocking`: the same for a command that is decided on
  a history;
* `StateStored.lockingOrchestrating_keeps`: the same for a whole cascade in memory;
* `run_keeps`: in every order of steps, the tasks of an engine that keeps a protocol keep it;
* `rests_or_saves`: so every step changes nothing, or is a save that the protocol allows.
-/

namespace EventMachines

variable {P : Exchange} {C S E R O ε Item Answer α β ω : Type}

/-- A call that a program is about to make. -/
inductive Call (P : Exchange) where
  | fetch (input : P.Input)
  | write (data : P.Write)
  | consult (input : P.Input)

def Happening.call? : Happening P → Option (Call P)
  | noted _ => none
  | fetched i _ => some (.fetch i)
  | wrote d _ => some (.write d)
  | consulted i _ => some (.consult i)

/-! ## Programs -/

/-- Which calls may be made and which ends there may be, after the calls made so far, the newest
first. -/
structure Contract (P : Exchange) (ε α : Type) where
  may : Call P → List (Happening P) → Prop
  ends : Outcome ε α → List (Happening P) → Prop

namespace Program

def Keeps (k : Contract P ε α) : Program P ε α → List (Happening P) → Prop
  | halt o, past => k.ends o past
  | note _ rest, past => rest.Keeps k past
  | fetch i rest, past => k.may (.fetch i) past ∧
    (∀ r, (rest r).Keeps k (.fetched i (.ok r) :: past)) ∧
    ∀ x, k.ends (.broken x) (.fetched i (.error x) :: past)
  | write d rest, past => k.may (.write d) past ∧
    (∀ r, (rest r).Keeps k (.wrote d (.ok r) :: past)) ∧
    ∀ x, k.ends (.broken x) (.wrote d (.error x) :: past)
  | consult i rest, past => k.may (.consult i) past ∧
    ∀ a, (rest a).Keeps k (.consulted i a :: past)

end Program

/-- What a contract asks of the first part of a program whose second part is given. -/
def Contract.before (k : Contract P ε β) (f : α → Program P ε β) : Contract P ε α where
  may := k.may
  ends
    | .done a, past => (f a).Keeps k past
    | .failed e, past => k.ends (.failed e) past
    | .broken x, past => k.ends (.broken x) past

namespace Program

variable {k : Contract P ε β} {past : List (Happening P)}

theorem keeps_bind {p : Program P ε α} {f : α → Program P ε β} :
    (p >>= f).Keeps k past ↔ p.Keeps (k.before f) past := by
  show (p.bind f).Keeps k past ↔ _
  induction p generalizing past with
  | halt o => cases o <;> rfl
  | note n rest ih => exact ih
  | fetch i rest ih => simp only [bind, Keeps, ih]; rfl
  | write d rest ih => simp only [bind, Keeps, ih]; rfl
  | consult i rest ih => simp only [bind, Keeps, ih]; rfl

/-- What keeps a contract keeps one that asks for less. -/
theorem Keeps.mono {k' : Contract P ε β} {p : Program P ε β} (h : p.Keeps k past)
    (hmay : ∀ c past, k.may c past → k'.may c past)
    (hends : ∀ o past, k.ends o past → k'.ends o past) : p.Keeps k' past := by
  induction p generalizing past with
  | halt o => exact hends o past h
  | note n rest ih => exact ih h
  | fetch i rest ih =>
    obtain ⟨hcall, hrest, hbroken⟩ := h
    exact ⟨hmay _ _ hcall, fun r => ih r (hrest r), fun x => hends _ _ (hbroken x)⟩
  | write d rest ih =>
    obtain ⟨hcall, hrest, hbroken⟩ := h
    exact ⟨hmay _ _ hcall, fun r => ih r (hrest r), fun x => hends _ _ (hbroken x)⟩
  | consult i rest ih =>
    obtain ⟨hcall, hrest⟩ := h
    exact ⟨hmay _ _ hcall, fun a => ih a (hrest a)⟩

theorem keeps_ofChecked_bind {x : Checked α} {f : α → Program P ε β}
    (hok : ∀ a, x = .ok a → (f a).Keeps k past)
    (hfault : ∀ fault, x = .error fault → k.ends (.broken fault) past) :
    (ofChecked x >>= f).Keeps k past := by
  cases x with
  | error fault => exact hfault fault rfl
  | ok a => exact hok a rfl

theorem keeps_read_bind {i : P.Input} {failure : StoreError → ε} {f : P.Read → Program P ε β}
    (hmay : k.may (.fetch i) past)
    (hdata : ∀ data, (f data).Keeps k (.fetched i (.ok (.ok data)) :: past))
    (hfailed : ∀ e, k.ends (.failed (failure e)) (.fetched i (.ok (.error e)) :: past))
    (hbroken : ∀ x, k.ends (.broken x) (.fetched i (.error x) :: past)) :
    (read i failure >>= f).Keeps k past := by
  rw [read_bind]
  refine ⟨hmay, fun r => ?_, hbroken⟩
  cases r with
  | error e => exact hfailed e
  | ok data => exact hdata data

theorem keeps_save_bind {d : P.Write} {failure : StoreError → ε} {f : P.Ack → Program P ε β}
    (hmay : k.may (.write d) past)
    (hack : ∀ ack, (f ack).Keeps k (.wrote d (.ok (.ok ack)) :: past))
    (hfailed : ∀ e, k.ends (.failed (failure e)) (.wrote d (.ok (.error e)) :: past))
    (hbroken : ∀ x, k.ends (.broken x) (.wrote d (.error x) :: past)) :
    (save d failure >>= f).Keeps k past := by
  rw [save_bind]
  refine ⟨hmay, fun r => ?_, hbroken⟩
  cases r with
  | error e => exact hfailed e
  | ok ack => exact hack ack

end Program

section

variable {k : Contract P (Failure C R) β} {past : List (Happening P)}

theorem keeps_attempt_bind {d : Decider C S E R} {c : C} {s : S}
    {f : List E → Program P (Failure C R) β}
    (hevents : ∀ events, d.attempt c s = .ok (.ok events) → (f events).Keeps k past)
    (hfailed : ∀ e, d.attempt c s = .ok (.error e) → k.ends (.failed e) past)
    (hbroken : ∀ x, d.attempt c s = .error x → k.ends (.broken x) past) :
    (Program.attempt d c s >>= f).Keeps k past := by
  rw [Program.attempt]
  rcases h : d.attempt c s with x | e | events
  · exact hbroken x h
  · exact hfailed e h
  · exact hevents events h

theorem keeps_advance_bind_in_full {limit : DepthLimit} {reaction : O → Checked (List C)}
    {cascade : Cascade C O} {f : Cascade.Next C O → Program P (Failure C R) β}
    (hfinished : ∀ outputs, cascade.next reaction = .ok (.finished outputs) →
      (f (.finished outputs)).Keeps k past)
    (hcommand : ∀ c depth derived rest,
      cascade.next reaction = .ok (.command c depth derived rest) → limit.allows depth = true →
      (f (.command c depth derived rest)).Keeps k past)
    (hdeep : ∀ c depth derived rest,
      cascade.next reaction = .ok (.command c depth derived rest) → ¬ limit.allows depth = true →
      k.ends (.failed (.depthExceeded c depth)) past)
    (hbroken : ∀ x, cascade.next reaction = .error x → k.ends (.broken x) past) :
    (Program.advance limit reaction cascade >>= f).Keeps k past := by
  rw [Program.keeps_bind, Program.advance]
  refine Program.keeps_ofChecked_bind (fun next hnext => ?_) hbroken
  cases next with
  | finished outputs => exact hfinished outputs hnext
  | command c depth derived rest =>
    have hend : (if limit.allows depth = true then pure (.command c depth derived rest) else do
        Program.tell (.depthExceeded depth)
        Program.fail (.depthExceeded c depth) : Program P (Failure C R) _).Keeps (k.before f)
        past := by
      by_cases hallowed : limit.allows depth = true
      · rw [if_pos hallowed]
        exact hcommand c depth derived rest hnext hallowed
      · rw [if_neg hallowed]
        exact hdeep c depth derived rest hnext hallowed
    by_cases hderived : derived ≠ 0
    · simp only [if_pos hderived]
      exact hend
    · simp only [if_neg hderived]
      exact hend

/-- So it is where nothing depends on why the search breaks off. -/
theorem keeps_advance_bind {limit : DepthLimit} {reaction : O → Checked (List C)}
    {cascade : Cascade C O} {f : Cascade.Next C O → Program P (Failure C R) β}
    (hfinished : ∀ outputs, cascade.next reaction = .ok (.finished outputs) →
      (f (.finished outputs)).Keeps k past)
    (hcommand : ∀ c depth derived rest,
      cascade.next reaction = .ok (.command c depth derived rest) → limit.allows depth = true →
      (f (.command c depth derived rest)).Keeps k past)
    (hdeep : ∀ c depth derived rest,
      cascade.next reaction = .ok (.command c depth derived rest) → ¬ limit.allows depth = true →
      k.ends (.failed (.depthExceeded c depth)) past)
    (hbroken : ∀ x, k.ends (.broken x) past) :
    (Program.advance limit reaction cascade >>= f).Keeps k past :=
  keeps_advance_bind_in_full hfinished hcommand hdeep fun x _ => hbroken x

end

/-! ## Commands over a history -/

/-- After the history the command decides on these events, of which there is at least one. -/
def Decider.Decides (d : Decider C S E R) (c : C) (history : List (E × Version))
    (events : List E) : Prop :=
  events ≠ [] ∧ ∃ s, d.replay (history.map (·.1)) = .ok s ∧ d.attempt c s = .ok (.ok events)

section

variable {d : Decider C S E R} {c : C} {asked : Option ExpectedVersion}
  {k : Contract (Exchange.lockedEvents C E) (Failure C R) (List (E × Version))}
  {past : List (Happening (Exchange.lockedEvents C E))}

/-- What deciding a command and appending what it decided keeps: it fetches, and it writes only what
it decided on the history fetched. So it ends after that fetch, with no event, or after that write,
with the events saved exactly where that was accepted. Where it fails, it does so with its command,
though not for its depth. -/
theorem keeps_executeLocking_in_full (hfetch : k.may (.fetch c) past)
    (hfetched : ∀ o reply, (∀ answer, o = .done answer → answer = []) →
      (∀ e, o = .failed e → e.input? = some c ∧ e.depth? = none) →
      k.ends o (.fetched c reply :: past))
    (hwrite : ∀ history events, d.Decides c history events →
      k.may (.write (events, asked.getD (.ofCurrent (EventSourced.lastVersion history))))
        (.fetched c (.ok (.ok history)) :: past))
    (hwrote : ∀ o history events reply, d.Decides c history events →
      (∀ saved, o = .done saved ↔ reply = .ok (.ok saved)) →
      (∀ e, o = .failed e → e.input? = some c ∧ e.depth? = none) →
      k.ends o (.wrote (events, asked.getD (.ofCurrent (EventSourced.lastVersion history))) reply ::
        .fetched c (.ok (.ok history)) :: past)) :
    (EventSourced.executeLocking d c asked).Keeps k past := by
  have hstopped : ∀ (e : Failure C R) reply, e.input? = some c ∧ e.depth? = none →
      k.ends (.failed e) (.fetched c reply :: past) := by
    intro e reply hown
    refine hfetched _ reply (by simp) ?_
    rintro _ ⟨⟩
    exact hown
  rw [EventSourced.executeLocking]
  refine Program.keeps_read_bind hfetch (fun history => ?_) ?_ ?_
  · refine Program.keeps_ofChecked_bind (fun s hs => ?_) ?_
    · refine keeps_attempt_bind (fun events hevents => ?_) ?_ ?_
      · cases events with
        | nil => exact hfetched (.done []) _ (by simp) (by simp)
        | cons e rest =>
          have hdecides : d.Decides c history (e :: rest) := ⟨by simp, s, hs, hevents⟩
          rw [if_neg (by simp)]
          refine Program.keeps_save_bind (hwrite history _ hdecides) (fun saved => ?_) ?_ ?_
          · exact hwrote (.done saved) history _ _ hdecides (by simp) (by simp)
          · intro error
            refine hwrote (.failed (.storeFailed c error)) history _ _ hdecides (by simp) ?_
            rintro _ ⟨⟩
            exact ⟨rfl, rfl⟩
          · intro x
            exact hwrote (.broken x) history _ _ hdecides (by simp) (by simp)
      · intro e he
        refine hstopped e _ ?_
        rcases Decider.attempt_eq_error.mp he with ⟨-, rfl⟩ | ⟨-, reason, -, rfl⟩ <;>
          exact ⟨rfl, rfl⟩
      · intro x _
        exact hfetched _ _ (by simp) (by simp)
    · intro x _
      exact hfetched _ _ (by simp) (by simp)
  · intro error
    exact hstopped (.fetchFailed c error) _ ⟨rfl, rfl⟩
  · intro x
    exact hfetched _ _ (by simp) (by simp)

/-- So it saves nothing, answers no event, and fails with its command, unless its write is
accepted. -/
theorem keeps_executeLocking (hfetch : k.may (.fetch c) past)
    (hwrite : ∀ history events, d.Decides c history events →
      k.may (.write (events, asked.getD (.ofCurrent (EventSourced.lastVersion history))))
        (.fetched c (.ok (.ok history)) :: past))
    (hsaved : ∀ data saved later, (∀ h ∈ later, h.save? = none) →
      k.ends (.done saved) (.wrote data (.ok (.ok saved)) :: (later ++ past)))
    (hother : ∀ o later, (∀ answer, o = .done answer → answer = []) →
      (∀ e, o = .failed e → e.input? = some c ∧ e.depth? = none) →
      (∀ h ∈ later, h.save? = none) → k.ends o (later ++ past)) :
    (EventSourced.executeLocking d c asked).Keeps k past := by
  have hunsaved : ∀ reply, ∀ h ∈ [Happening.fetched c reply],
      (h : Happening (Exchange.lockedEvents C E)).save? = none := by simp [Happening.save?]
  refine keeps_executeLocking_in_full hfetch ?_ hwrite ?_
  · intro o reply hnothing hown
    exact hother o _ hnothing hown (hunsaved reply)
  · intro o history events reply _ hanswer hown
    rcases reply with x | error | saved
    · refine hother o [_, _] ?_ hown (by simp [Happening.save?])
      intro answer hdone
      cases (hanswer answer).mp hdone
    · refine hother o [_, _] ?_ hown (by simp [Happening.save?])
      intro answer hdone
      cases (hanswer answer).mp hdone
    · obtain rfl := (hanswer saved).mpr rfl
      exact hsaved _ saved _ (hunsaved _)

end

/-! ## Engines -/

/-- Contracts for the rounds of an engine: between two rounds the work left stands in a relation to
the calls made so far. -/
structure Protocol (e : Engine P ε Item Answer) where
  may : Item → Call P → List (Happening P) → Prop
  ends : Item → Outcome ε Answer → List (Happening P) → Prop
  waits : Item → e.Pending → List (Happening P) → Prop

namespace Protocol

variable {e : Engine P ε Item Answer}

def round (k : Protocol e) (item : Item) : Contract P ε (Progress e.Pending Answer) where
  may := k.may item
  ends
    | .done (.answer a), past => k.ends item (.done a) past
    | .done (.again rest), past => k.waits item rest past
    | .failed x, past => k.ends item (.failed x) past
    | .broken x, past => k.ends item (.broken x) past

structure Kept (k : Protocol e) : Prop where
  start : ∀ item, (e.start item).Keeps (k.round item) []
  resume : ∀ item rest past, k.waits item rest past → (e.resume rest).Keeps (k.round item) past

/-- An engine of a single round keeps what its program keeps. -/
theorem kept_ofProgram {body : Item → Program P ε Answer} {k : Protocol (Engine.ofProgram body)}
    (h : ∀ item, (body item).Keeps ⟨k.may item, k.ends item⟩ []) : k.Kept where
  start item := by
    have hbefore : (k.round item).before (fun a => pure (.answer a)) =
        ⟨k.may item, k.ends item⟩ := by
      refine congrArg (Contract.mk (k.may item)) (funext fun o => ?_)
      cases o <;> rfl
    show (body item >>= fun a => pure (.answer a)).Keeps (k.round item) []
    rw [Program.keeps_bind, hbefore]
    exact h item
  resume _ rest := nomatch rest

end Protocol

/-- What the engine with a cascade in memory keeps: it fetches, works off its cascade without a
call, then asks for a version and writes the state it has come to. Where it ends without that write
being accepted it has no answer. -/
theorem StateStored.lockingOrchestrating_keeps {d : Decider C S E R} {g : Saga E C}
    {limit : DepthLimit} {k : Protocol (lockingOrchestrating d g limit)}
    (hfetch : ∀ c, k.may c (.fetch c) [])
    (hunread : ∀ c o reply, (∀ answer, o ≠ .done answer) → k.ends c o [.fetched c reply])
    (hbegin : ∀ c stored s version, storedOr d.initial stored = .ok (s, version) →
      k.waits c (⟨c, s, .start c⟩, version) [.fetched c (.ok (.ok stored))])
    (hnext : ∀ {root run version past c depth derived rest events s},
      k.waits root (run, version) past →
      run.cascade.next g.react = .ok (.command c depth derived rest) →
      limit.allows depth = true → d.attempt c run.state = .ok (.ok events) →
      d.evolveAll run.state events = .ok s →
      k.waits root ({ run with state := s, cascade := rest.push events depth }, version) past)
    (hstop : ∀ {root pending past} o, k.waits root pending past → (∀ answer, o ≠ .done answer) →
      k.ends root o past)
    (hconsult : ∀ {root run version past events}, k.waits root (run, version) past →
      run.cascade.next g.react = .ok (.finished events) → k.may root (.consult run.command) past)
    (hwrite : ∀ {root run version past events}, k.waits root (run, version) past →
      run.cascade.next g.react = .ok (.finished events) → ∀ asked,
      k.may root (.write (run.state, asked.getD (.ofCurrent version)))
        (.consulted run.command asked :: past))
    (hwrote : ∀ {root run version past}, k.waits root (run, version) past → ∀ asked o reply,
      (∀ answer, o = .done answer ↔ reply = .ok (.ok answer)) →
      k.ends root o (.wrote (run.state, asked.getD (.ofCurrent version)) reply ::
        .consulted run.command asked :: past)) : k.Kept where
  start c := by
    refine Program.keeps_read_bind (hfetch c) (fun stored => ?_) (fun e => ?_) fun x => ?_
    · refine Program.keeps_ofChecked_bind (fun current hcurrent => ?_) fun x _ => ?_
      · exact hbegin c stored current.1 current.2 hcurrent
      · exact hunread c _ _ (by simp)
    · exact hunread c _ _ (by simp)
    · exact hunread c _ _ (by simp)
  resume root pending past h := by
    obtain ⟨run, version⟩ := pending
    refine Program.keeps_bind.mpr ?_
    unfold Orchestration.advance
    refine keeps_advance_bind (fun events hend => ?_)
      (fun c depth derived rest hcommand hallowed => ?_)
      (fun c depth derived rest _ _ => hstop _ h (by simp)) fun x => hstop _ h (by simp)
    · refine ⟨hconsult h hend, fun asked => ?_⟩
      show (saveLocking run.command run.state (asked.getD (.ofCurrent version)) >>=
        fun saved => (pure (Progress.answer saved) : Program _ (Failure C R) _)).Keeps _ _
      refine Program.keeps_bind.mpr ?_
      refine Program.keeps_save_bind (hwrite h hend asked) (fun saved => ?_) (fun e => ?_)
        fun x => ?_
      · exact hwrote h asked (.done saved) _ (by simp)
      · exact hwrote h asked (.failed _) _ (by simp)
      · exact hwrote h asked (.broken x) _ (by simp)
    · refine keeps_attempt_bind (fun events hattempt => ?_) (fun e _ => hstop _ h (by simp))
        fun x _ => hstop _ h (by simp)
      refine Program.keeps_ofChecked_bind (fun s hevolve => ?_) fun x _ => hstop _ h (by simp)
      exact hnext h hcommand hallowed hattempt hevolve

namespace Task

variable {e : Engine P ε Item Answer} {k : Protocol e} {item : Item}

def Keeps (k : Protocol e) (item : Item) : Task e → List (Happening P) → Prop
  | running rest, past => rest.Keeps (k.round item) past
  | finished o, past => k.ends item o past

/-- What a step adds to the calls made so far. -/
def remember (h? : Option (Happening P)) (past : List (Happening P)) : List (Happening P) :=
  match h? with
  | none => past
  | some h => if h.isCall then h :: past else past

theorem step_keeps (hk : k.Kept) (b : Backend P ω) {t : Task e} {past : List (Happening P)}
    (h : t.Keeps k item past) (w : ω) :
    (t.step b w).2.1.Keeps k item (remember (t.step b w).1 past) ∧
      ∀ h' c, (t.step b w).1 = some h' → h'.call? = some c → k.may item c past := by
  rcases t with ⟨⟨(a | rest) | x | x⟩ | ⟨n, rest⟩ | ⟨i, rest⟩ | ⟨d, rest⟩ | ⟨i, rest⟩⟩ | o
  · exact ⟨h, by rintro _ _ ⟨⟩⟩
  · exact ⟨hk.resume item rest past h, by rintro _ _ ⟨⟩⟩
  · exact ⟨h, by rintro _ _ ⟨⟩⟩
  · exact ⟨h, by rintro _ _ ⟨⟩⟩
  · refine ⟨h, ?_⟩
    rintro _ _ ⟨⟩ ⟨⟩
  · obtain ⟨hmay, hrest, hbroken⟩ := h
    rcases hf : b.fetch i w with ⟨x | r, w'⟩
    · simp only [step, hf]
      refine ⟨hbroken x, ?_⟩
      rintro _ _ ⟨⟩ ⟨⟩
      exact hmay
    · simp only [step, hf]
      refine ⟨hrest r, ?_⟩
      rintro _ _ ⟨⟩ ⟨⟩
      exact hmay
  · obtain ⟨hmay, hrest, hbroken⟩ := h
    rcases hf : b.write d w with ⟨x | r, w'⟩
    · simp only [step, hf]
      refine ⟨hbroken x, ?_⟩
      rintro _ _ ⟨⟩ ⟨⟩
      exact hmay
    · simp only [step, hf]
      refine ⟨hrest r, ?_⟩
      rintro _ _ ⟨⟩ ⟨⟩
      exact hmay
  · obtain ⟨hmay, hrest⟩ := h
    refine ⟨hrest _, ?_⟩
    rintro _ _ ⟨⟩ ⟨⟩
    exact hmay
  · exact ⟨h, by rintro _ _ ⟨⟩⟩

end Task

/-! ## Systems -/

/-- Every call was one that the protocol allows for the item of its task. -/
def Protocol.Allows {e : Engine P ε Item Answer} (k : Protocol e) (items : List (Checked Item))
    (transcript : List (Nat × Happening P)) : Prop :=
  ∀ (i : Nat) (h : Happening P) (c : Call P) earlier, (i, h) :: earlier <:+ transcript →
    h.call? = some c → ∃ item, items[i]? = some (.ok item) ∧ k.may item c (past i earlier)

theorem Protocol.Allows.of_suffix {e : Engine P ε Item Answer} {k : Protocol e}
    {items : List (Checked Item)} {transcript earlier : List (Nat × Happening P)}
    (h : k.Allows items transcript) (hsuffix : earlier <:+ transcript) : k.Allows items earlier :=
  fun i h' c before hbefore => h i h' c before (hbefore.trans hsuffix)

namespace System

variable {e : Engine P ε Item Answer} {k : Protocol e} {b : Backend P ω}

/-- Every task keeps the protocol for its item, and so did every call made so far. -/
structure Keeps (k : Protocol e) (items : List (Checked Item)) (s : System e ω) : Prop where
  tasks : ∀ (i : Nat) (t : Task e), s.tasks[i]? = some t →
    (∃ item, items[i]? = some (.ok item) ∧ t.Keeps k item (past i s.transcript)) ∨
      ∃ x, items[i]? = some (.error x) ∧ t = .finished (.broken x)
  calls : k.Allows items s.transcript

theorem start_keeps (hk : k.Kept) (items : List (Checked Item)) (w : ω) :
    (start e items w).Keeps k items where
  tasks i t ht := by
    simp only [start, List.getElem?_map, Option.map_eq_some_iff] at ht
    obtain ⟨item, hitem, rfl⟩ := ht
    cases item with
    | error x => exact .inr ⟨x, hitem, rfl⟩
    | ok item => exact .inl ⟨item, hitem, hk.start item⟩
  calls i h c earlier hsuffix := by
    simp [start] at hsuffix

theorem step_keeps (hk : k.Kept) {items : List (Checked Item)} {s : System e ω}
    (h : s.Keeps k items) (i : Nat) : (s.step b i).Keeps k items := by
  cases ht : s.tasks[i]? with
  | none =>
    rw [step_of_none ht]
    exact h
  | some t =>
    rw [step_of_some ht]
    obtain ⟨hlt, hget⟩ := List.getElem?_eq_some_iff.mp ht
    rcases h.tasks i t ht with ⟨item, hitem, hkeeps⟩ | ⟨x, hitem, rfl⟩
    · obtain ⟨hnext, hmay⟩ := t.step_keeps hk b hkeeps s.world
      constructor
      · intro j u hu
        by_cases hij : i = j
        · subst hij
          rw [List.getElem?_set_self hlt] at hu
          obtain rfl := Option.some.inj hu
          refine .inl ⟨item, hitem, ?_⟩
          cases hh : (t.step b s.world).1 with
          | none => rwa [hh] at hnext
          | some happening =>
            rw [hh] at hnext
            simpa [past_cons_self, Task.remember] using hnext
        · rw [List.getElem?_set_ne hij] at hu
          cases hh : (t.step b s.world).1 with
          | none => exact h.tasks j u hu
          | some happening =>
            have hsame := past_cons_ne hij happening s.transcript
            simpa [hsame] using h.tasks j u hu
      · intro j h' c earlier hsuffix hcall
        cases hh : (t.step b s.world).1 with
        | none =>
          rw [hh] at hsuffix
          exact h.calls j h' c earlier hsuffix hcall
        | some happening =>
          rw [hh] at hsuffix
          rcases List.suffix_cons_iff.mp hsuffix with heq | hsuffix
          · obtain ⟨hentry, rfl⟩ := List.cons.inj heq
            obtain ⟨rfl, rfl⟩ := Prod.mk.inj hentry
            exact ⟨item, hitem, hmay _ c hh hcall⟩
          · exact h.calls j h' c earlier hsuffix hcall
    · -- a task that could not be begun only stands still
      have hsame : s.tasks.set i (Task.finished (.broken x)) = s.tasks := by
        rw [← hget, List.set_getElem_self]
      simp only [Task.step, hsame]
      exact h

theorem run_keeps (hk : k.Kept) (items : List (Checked Item)) (w : ω) (schedule : List Nat) :
    ((start e items w).run b schedule).Keeps k items :=
  run_invariant (I := fun s => s.Keeps k items) (fun _ i h => step_keeps hk h i) schedule
    (start_keeps hk items w)

/-- Where only accepted writes change a part of the store, every step is a save that the protocol
allows, or leaves that part as it is. -/
theorem rests_or_saves (hk : k.Kept) (view : ω → α)
    (hrests : ∀ (h : Happening P) w, h.Truthful b w → h.save? = none →
      view (h.effect b w) = view w)
    (items : List (Checked Item)) (w : ω) (schedule : List Nat) (i : Nat) :
    let s := (start e items w).run b schedule
    s.RestsAt b view i ∨ ∃ d ack w', s.SavesAt b i d ack w' ∧
      s.world = worldAfter b w s.transcript ∧
      Recorded b w ((i, .wrote d (.ok (.ok ack))) :: s.transcript) ∧
      k.Allows items ((i, .wrote d (.ok (.ok ack))) :: s.transcript) := by
  intro s
  refine (restsAt_or_savesAt view hrests items w schedule i).imp_right ?_
  rintro ⟨d, ack, w', hsaves⟩
  obtain ⟨hworld, -⟩ := run_recorded (e := e) (b := b) items w schedule
  obtain ⟨-, hrecorded⟩ := run_recorded (e := e) (b := b) items w (schedule ++ [i])
  have hallows := (run_keeps hk (b := b) items w (schedule ++ [i])).calls
  rw [run_concat, hsaves.2.2] at hrecorded hallows
  exact ⟨d, ack, w', hsaves, hworld, hrecorded, hallows⟩

end System

end EventMachines
