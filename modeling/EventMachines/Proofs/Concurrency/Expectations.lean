import EventMachines.Proofs.Cascade.Depth
import EventMachines.Proofs.Cascade.Rounds
import EventMachines.Proofs.Concurrency.Guards
import EventMachines.Proofs.Concurrency.Slots
import EventMachines.Proofs.Execution.Accepted
import EventMachines.Sample.Countdown

/-!
Which version a save in a cascade expects. The engine over events asks its provider once, for the
command that starts the cascade, and only the save of that command names the answer; every other
save names the last version that was fetched for its own command, however deep it lies. The engine
over states saves once, and names the answer or what it fetched.

* `EventSourced.Expects`, `StateStored.Expects`: the calls of one cascade, and the version that each
  save among them names;
* `pull_deep`, `push_deep`: after the first command of a work list all others lie deeper;
* `expectingProtocol_kept`, `lockingOrchestrating_callsAs`: so the engines call, whatever the
  replies;
* `exactSaves_of_allows`, `undisturbed_of_allows`: over a store that checks versions, the first save
  succeeds exactly at the version that was named, and every other one exactly at the version of its
  own fetch, which is if nobody saved since;
* `only_the_first_save_is_told`: both engines.
-/

namespace EventMachines

open Cascade

variable {C S E R K O ω : Type}

/-! ## Depths -/

namespace Cascade

/-- What waits in the frame lies below the first command. What outputs cause does so anyway. -/
def Deep : Frame C O → Prop
  | .commands waiting depth => waiting = [] ∨ 0 < depth
  | .outputs _ _ => True

theorem pull_deep {reaction : O → Checked (List C)} {stack : List (Frame C O)} {reacted : List O}
    {c : C} {depth derived : Nat} {rest : Cascade C O} (h : ∀ f ∈ stack, Deep f)
    (hpull : pull reaction stack reacted = .ok (.command c depth derived rest)) :
    0 < depth ∧ ∀ f ∈ rest.stack, Deep f := by
  rcases rest with ⟨rest, now⟩
  cases pull_comes hpull with
  | waited hframe hbelow =>
    have hdepth : 0 < depth := (h _ hframe).resolve_left (List.cons_ne_nil _ _)
    refine ⟨hdepth, List.forall_mem_cons.mpr ⟨.inr hdepth, ?_⟩⟩
    exact fun f hf => h f (hbelow hf)
  | caused hframe hmem hreacts hlater hbelow =>
    refine ⟨Nat.succ_pos _, List.forall_mem_cons.mpr ⟨.inr (Nat.succ_pos _), ?_⟩⟩
    exact List.forall_mem_cons.mpr ⟨trivial, fun f hf => h f (hbelow hf)⟩

theorem push_deep {k : Cascade C O} (h : ∀ f ∈ k.stack, Deep f) (outputs : List O) (depth : Nat) :
    ∀ f ∈ (k.push outputs depth).stack, Deep f := by
  cases outputs with
  | nil => exact h
  | cons o outputs => exact List.forall_mem_cons.mpr ⟨trivial, h⟩

/-- The first command of a cascade is never too deep. -/
theorem advance_start_bind {P : Exchange} {α : Type} (limit : DepthLimit)
    (reaction : O → Checked (List C)) (c : C) (f : Next C O → Program P (Failure C R) α) :
    (Program.advance limit reaction (start c) >>= f) =
      f (.command c 0 0 ⟨[.commands [] 0], []⟩) := by
  have hnext : (start c).next reaction = .ok (.command c 0 0 ⟨[.commands [] 0], []⟩) := rfl
  simp only [Program.advance, hnext, Program.ofChecked_ok, pure_bind, limit.allows_zero]
  rfl

end Cascade

/-! ## Over events -/

namespace EventSourced

variable {d : Decider C S E R} {g : Saga E C} {limit : DepthLimit} {root : C}
  {asked : Option ExpectedVersion} {past : List (Happening (Exchange.lockedEvents C E))}

/-- What may be written after those calls: what was decided on the history that was fetched right
before. The first save names the answer of the provider, if there is one, and every later save names
the last version of its own history. -/
inductive Expected (d : Decider C S E R) (root : C) (asked : Option ExpectedVersion) :
    List (Happening (Exchange.lockedEvents C E)) → List E × ExpectedVersion → Prop
  | first {history : List (E × Version)} {events : List E}
      (decides : d.Decides root history events) :
      Expected d root asked [.fetched root (.ok (.ok history)), .consulted root asked]
        (events, asked.getD (.ofCurrent (lastVersion history)))
  | later {c : C} {history : List (E × Version)} {events : List E}
      {older : List (Happening (Exchange.lockedEvents C E))} {data : List E × ExpectedVersion}
      {saved : List (E × Version)} (decides : d.Decides c history events)
      (after : .wrote data (.ok (.ok saved)) ∈ older) :
      Expected d root asked (.fetched c (.ok (.ok history)) :: older)
        (events, .ofCurrent (lastVersion history))

/-- The calls of a cascade, the newest first. The provider is asked once, first of all and for the
command that starts the cascade. -/
structure Expects (d : Decider C S E R) (root : C) (asked : Option ExpectedVersion)
    (past : List (Happening (Exchange.lockedEvents C E))) : Prop where
  consulted : ∃ later, past = later ++ [.consulted root asked] ∧
    ∀ h ∈ later, ∀ c answer, h ≠ .consulted c answer
  saves : ∀ data reply earlier, .wrote data reply :: earlier <:+ past →
    Expected d root asked earlier data

theorem expects_consulted : Expects d root asked [.consulted root asked] where
  consulted := ⟨[], rfl, by simp⟩
  saves data reply earlier h := by
    rcases List.suffix_cons_iff.mp h with h | h
    · cases h
    · cases List.suffix_nil.mp h

theorem Expects.fetched (h : Expects d root asked past) (c : C)
    (reply : Reply (List (E × Version))) : Expects d root asked (.fetched c reply :: past) where
  consulted := by
    obtain ⟨later, rfl, hnone⟩ := h.consulted
    exact ⟨.fetched c reply :: later, rfl, List.forall_mem_cons.mpr ⟨by simp, hnone⟩⟩
  saves data reply earlier hsuffix := by
    rcases List.suffix_cons_iff.mp hsuffix with hsame | hsuffix
    · cases hsame
    · exact h.saves data reply earlier hsuffix

theorem Expects.wrote (h : Expects d root asked past) {data : List E × ExpectedVersion}
    (hexpected : Expected d root asked past data) (reply : Reply (List (E × Version))) :
    Expects d root asked (.wrote data reply :: past) where
  consulted := by
    obtain ⟨later, rfl, hnone⟩ := h.consulted
    exact ⟨.wrote data reply :: later, rfl, List.forall_mem_cons.mpr ⟨by simp, hnone⟩⟩
  saves data' reply' earlier hsuffix := by
    rcases List.suffix_cons_iff.mp hsuffix with hsame | hsuffix
    · obtain ⟨hwrote, rfl⟩ := List.cons.inj hsame
      obtain ⟨rfl, -⟩ := Happening.wrote.inj hwrote
      exact hexpected
    · exact h.saves data' reply' earlier hsuffix

/-- After the first command either nothing is left to do, or it has saved something and whatever is
left lies deeper. -/
def Continues (k : Cascade C (E × Version))
    (past : List (Happening (Exchange.lockedEvents C E))) : Prop :=
  k.stack = [.commands [] 0] ∨
    (∀ f ∈ k.stack, Deep f) ∧ ∃ data saved, .wrote data (.ok (.ok saved)) ∈ past

theorem executeAt_of_pos (d : Decider C S E R) (c : C) {depth : Nat} (h : 0 < depth) :
    executeAt d c depth = executeLocking d c none := by
  rw [executeAt, if_neg (Nat.ne_of_gt h)]
  rfl

/-- When the first command is begun nothing has been called, and it alone is asked about. -/
def expectingProtocol (d : Decider C S E R) (g : Saga E C) (limit : DepthLimit) :
    Protocol (lockingOrchestrating d g limit) where
  may root
    | .consult c, past => c = root ∧ past = []
    | .fetch _, past => ∃ asked, Expects d root asked past
    | .write data, past => ∃ asked, Expects d root asked past ∧ Expected d root asked past data
  ends root _ past := ∃ asked, Expects d root asked past
  waits root k past := k = .start root ∧ past = [] ∨
    ∃ asked, Expects d root asked past ∧ Continues k past

/-- One command of a cascade, the first or a later one. -/
theorem executeLocking_expecting {c : C} {own : Option ExpectedVersion} {depth : Nat}
    {rest : Cascade C (E × Version)} (hpast : Expects d root asked past)
    (hown : ∀ history events, d.Decides c history events →
      Expected d root asked (.fetched c (.ok (.ok history)) :: past)
        (events, own.getD (.ofCurrent (lastVersion history))))
    (hrest : Continues rest past) (hdeep : ∀ f ∈ rest.stack, Deep f) :
    (executeLocking d c own >>= fun saved =>
      (pure (.again (rest.push saved depth)) : Program _ (Failure C R) _)).Keeps
      ((expectingProtocol d g limit).round root) past := by
  refine Program.keeps_bind.mpr ?_
  refine keeps_executeLocking_in_full ⟨asked, hpast⟩ (fun o reply hnothing _ => ?_) ?_ ?_
  · have hnow := hpast.fetched c reply
    cases o with
    | done answer =>
      obtain rfl := hnothing answer rfl
      refine .inr ⟨asked, hnow, hrest.imp_right ?_⟩
      rintro ⟨hdeep, data, saved, hsaved⟩
      exact ⟨hdeep, data, saved, List.mem_cons_of_mem _ hsaved⟩
    | failed e => exact ⟨asked, hnow⟩
    | broken x => exact ⟨asked, hnow⟩
  · intro history events hdecides
    exact ⟨asked, hpast.fetched c _, hown history events hdecides⟩
  · intro o history events reply hdecides hanswer _
    have hnow := (hpast.fetched c _).wrote (hown history events hdecides) reply
    cases o with
    | done answer =>
      obtain rfl := (hanswer answer).mp rfl
      exact .inr ⟨asked, hnow, .inr ⟨push_deep hdeep answer depth, _, answer, List.mem_cons_self⟩⟩
    | failed e => exact ⟨asked, hnow⟩
    | broken x => exact ⟨asked, hnow⟩

theorem expectingProtocol_kept (d : Decider C S E R) (g : Saga E C) (limit : DepthLimit) :
    (expectingProtocol d g limit).Kept where
  start root := .inl ⟨rfl, rfl⟩
  resume root k past h := by
    have hresume : (lockingOrchestrating d g limit).resume k = _ :=
      resume_lockingOrchestrating d g limit k
    rw [hresume]
    unfold Cascade.round
    rcases h with ⟨rfl, rfl⟩ | ⟨asked, hpast, hk⟩
    · -- the first command lies at depth zero: the provider is asked before all else
      rw [advance_start_bind]
      refine ⟨⟨rfl, rfl⟩, fun asked => ?_⟩
      refine executeLocking_expecting expects_consulted ?_ (.inl rfl) (by simp [Deep])
      intro history events hdecides
      exact .first hdecides
    · refine keeps_advance_bind (fun events _ => ⟨asked, hpast⟩)
        (fun c depth derived rest hnext _ => ?_) (fun _ _ _ _ _ _ => ⟨asked, hpast⟩)
        fun _ => ⟨asked, hpast⟩
      rcases k with ⟨stack, reacted⟩
      rcases hk with rfl | ⟨hdeep, data, saved, hsaved⟩
      · -- nothing is left, so there is no next command
        cases hnext
      · obtain ⟨hdepth, hrest⟩ := pull_deep hdeep hnext
        show (executeAt d c depth >>= fun saved =>
          (pure (Progress.again (rest.push saved depth)) : Program _ (Failure C R) _)).Keeps _ _
        rw [executeAt_of_pos d c hdepth]
        refine executeLocking_expecting hpast ?_ (.inr ⟨hrest, data, saved, hsaved⟩) hrest
        intro history events hdecides
        exact .later hdecides hsaved

/-- **The first save alone.** -/
theorem lockingOrchestrating_callsAs (d : Decider C S E R) (g : Saga E C) (limit : DepthLimit) :
    (lockingOrchestrating d g limit).CallsAs fun root past =>
      ∃ asked, Expects d root asked past := by
  refine (expectingProtocol_kept d g limit).callsAs ?_ fun _ _ _ hends => hends
  intro root h call past hcall hmay _
  rcases h with n | ⟨c, reply⟩ | ⟨data, reply⟩ | ⟨c, answer⟩
  · cases hcall
  · obtain rfl := Option.some.inj hcall
    obtain ⟨asked, hpast⟩ := hmay
    exact ⟨asked, hpast.fetched c reply⟩
  · obtain rfl := Option.some.inj hcall
    obtain ⟨asked, hpast, hexpected⟩ := hmay
    exact ⟨asked, hpast.wrote hexpected reply⟩
  · obtain rfl := Option.some.inj hcall
    obtain ⟨rfl, rfl⟩ := hmay
    exact ⟨answer, expects_consulted⟩

end EventSourced

/-! ## Over states -/

namespace StateStored

/-- The calls of a cascade in memory, the newest first. It saves once, and names the answer of the
provider for the command that started it or, without one, the version that it fetched. -/
inductive Expects (root : C) : List (Happening (Exchange.lockedStates C S)) → Prop
  | read (reply : Reply (Option (S × Version))) : Expects root [.fetched root reply]
  | asked (stored : Option (S × Version)) (asked : Option ExpectedVersion) :
      Expects root [.consulted root asked, .fetched root (.ok (.ok stored))]
  | saved (stored : Option (S × Version)) (asked : Option ExpectedVersion) (s : S)
      (reply : Reply (S × Version)) :
      Expects root [.wrote (s, asked.getD (.ofCurrent (stored.map (·.2)))) reply,
        .consulted root asked, .fetched root (.ok (.ok stored))]

def expectingProtocol (d : Decider C S E R) (g : Saga E C) (limit : DepthLimit) :
    Protocol (lockingOrchestrating d g limit) where
  may root
    | .fetch c, past => c = root ∧ past = []
    | .consult c, past => c = root ∧ ∃ stored, past = [.fetched root (.ok (.ok stored))]
    | .write (_, expected), past => ∃ stored asked,
      past = [.consulted root asked, .fetched root (.ok (.ok stored))] ∧
      expected = asked.getD (.ofCurrent (stored.map (·.2)))
  ends root _ past := Expects root past
  waits root
    | (run, version), past => run.command = root ∧
      ∃ stored, past = [.fetched root (.ok (.ok stored))] ∧ stored.map (·.2) = version

theorem expectingProtocol_kept (d : Decider C S E R) (g : Saga E C) (limit : DepthLimit) :
    (expectingProtocol d g limit).Kept := by
  refine lockingOrchestrating_keeps (fun _ => ⟨rfl, rfl⟩) (fun _ _ reply _ => .read reply) ?begin
    ?next ?stop ?consult ?write ?wrote
  case begin => exact fun c stored s version hstored => ⟨rfl, stored, rfl, storedOr_token hstored⟩
  case next => exact fun hwaits _ _ _ _ => hwaits
  case stop =>
    rintro root _ _ o ⟨-, stored, rfl, -⟩ -
    exact .read _
  case consult =>
    rintro root run version past events ⟨rfl, hstored, rfl, -⟩ -
    exact ⟨rfl, hstored, rfl⟩
  case write =>
    rintro root run version past events ⟨rfl, stored, rfl, rfl⟩ - asked
    exact ⟨stored, asked, rfl, rfl⟩
  case wrote =>
    rintro root run version past ⟨rfl, stored, rfl, rfl⟩ asked o reply -
    exact .saved stored asked run.state reply

theorem lockingOrchestrating_callsAs (d : Decider C S E R) (g : Saga E C) (limit : DepthLimit) :
    (lockingOrchestrating d g limit).CallsAs Expects := by
  refine (expectingProtocol_kept d g limit).callsAs ?_ fun _ _ _ hends => hends
  intro root h call past hcall hmay _
  rcases h with n | ⟨c, reply⟩ | ⟨⟨s, expected⟩, reply⟩ | ⟨c, answer⟩
  · cases hcall
  · obtain rfl := Option.some.inj hcall
    obtain ⟨rfl, rfl⟩ := hmay
    exact .read reply
  · obtain rfl := Option.some.inj hcall
    obtain ⟨stored, asked, rfl, rfl⟩ := hmay
    exact .saved stored asked s reply
  · obtain rfl := Option.some.inj hcall
    obtain ⟨rfl, stored, rfl⟩ := hmay
    exact .asked stored answer

end StateStored

/-! ## Stores that check versions -/

namespace VersionCheck

variable {P : Exchange} {b : Backend P ω} {V : Versioned P}

/-- A write under a key that has versions left for it, and the reply. -/
structure Writes (check : VersionCheck b V K) (w : ω) (transcript : List (Nat × Happening P))
    (i : Nat) (d : P.Write) (reply : Reply P.Ack) (earlier : List (Nat × Happening P)) (key : K) :
    Prop where
  suffix : (i, .wrote d reply) :: earlier <:+ transcript
  target : check.target d = some key
  room : Version.count (check.version (worldAfter b w earlier) key) + check.takes d < UInt64.size

theorem Writes.accepted_iff {check : VersionCheck b V K} {w : ω}
    {transcript earlier : List (Nat × Happening P)} {i : Nat} {d : P.Write} {reply : Reply P.Ack}
    {key : K} (h : check.Writes w transcript i d reply earlier key)
    (hrecorded : Recorded b w transcript) :
    (∃ ack, reply = .ok (.ok ack)) ↔
      V.expected d = .ofCurrent (check.version (worldAfter b w earlier) key) := by
  obtain rfl : (b.write d (worldAfter b w earlier)).1 = reply := (hrecorded.of_suffix h.suffix).1
  exact check.accepted_iff h.target h.room

end VersionCheck

namespace EventSourced

/-- The command has only its own history to go by: no version was named for it, or something has
been saved already. -/
def Untold (c : C) (older : List (Happening (Exchange.lockedEvents C E))) : Prop :=
  older = [.consulted c none] ∨ ∃ data saved, .wrote data (.ok (.ok saved)) ∈ older

/-- When the saves of cascades succeed over a store that checks versions. -/
structure ExactSaves {b : Backend (Exchange.lockedEvents C E) ω} (check : VersionCheck b .events K)
    (w : ω) (transcript : List (Nat × Happening (Exchange.lockedEvents C E))) : Prop where
  /-- Where the provider named a version, the first save succeeds exactly at that version. -/
  told : ∀ {i data reply earlier key}, check.Writes w transcript i data reply earlier key →
    ∀ {root history x},
      past i earlier = [.fetched root (.ok (.ok history)), .consulted root (some x)] →
      ((∃ saved, reply = .ok (.ok saved)) ↔
        x = .ofCurrent (check.version (worldAfter b w earlier) key))
  /-- Every other save succeeds exactly at the version that was fetched for its command. -/
  own : ∀ {i data reply earlier key}, check.Writes w transcript i data reply earlier key →
    ∀ {c history older}, past i earlier = .fetched c (.ok (.ok history)) :: older → Untold c older →
      ((∃ saved, reply = .ok (.ok saved)) ↔
        lastVersion history = check.version (worldAfter b w earlier) key)

/-- Where only saves change a stream, that is exactly if nobody saved under the key of the command
since its fetch. -/
def Undisturbed {b : Backend (Exchange.lockedEvents C E) ω} (guard : Guard b .events K) (w : ω)
    (transcript : List (Nat × Happening (Exchange.lockedEvents C E))) : Prop :=
  ∀ i data reply between before c history,
    guard.check.Writes w transcript i data reply
      (between ++ (i, .fetched c (.ok (.ok history))) :: before) (guard.source c) →
    past i between = [] → Untold c (past i before) →
      ((∃ saved, reply = .ok (.ok saved)) ↔
        ∀ entry ∈ between, ¬ guard.SavedUnder (guard.source c) entry.2)

section

variable {d : Decider C S E R} {root c : C} {asked : Option ExpectedVersion}
  {history : List (E × Version)} {data : List E × ExpectedVersion}
  {older : List (Happening (Exchange.lockedEvents C E))}

theorem Expected.told {x : ExpectedVersion}
    (h : Expected d root asked [.fetched c (.ok (.ok history)), .consulted c (some x)] data) :
    data.2 = x := by
  cases h with
  | first hdecides => rfl
  | later hdecides hafter => simp at hafter

theorem Expected.own (h : Expected d root asked (.fetched c (.ok (.ok history)) :: older) data)
    (huntold : Untold c older) : data.2 = .ofCurrent (lastVersion history) := by
  cases h with
  | first hdecides =>
    rcases huntold with hnone | ⟨data, saved, hsaved⟩
    · cases hnone
      rfl
    · simp at hsaved
  | later hdecides hafter => rfl

end

section

variable {d : Decider C S E R} {g : Saga E C} {limit : DepthLimit}
  {b : Backend (Exchange.lockedEvents C E) ω} {items : List (Checked C)} {w : ω}
  {transcript : List (Nat × Happening (Exchange.lockedEvents C E))}
  (hallows : (expectingProtocol d g limit).Allows items transcript)
  (hrecorded : Recorded b w transcript)
include hallows hrecorded

theorem exactSaves_of_allows (check : VersionCheck b .events K) :
    ExactSaves check w transcript where
  told := by
    intro i data reply earlier key hwrites root history x hpast
    obtain ⟨root', -, asked, -, hexpected⟩ := hallows i _ _ earlier hwrites.suffix rfl
    rw [hpast] at hexpected
    rw [hwrites.accepted_iff hrecorded, ← hexpected.told]
    rfl
  own := by
    intro i data reply earlier key hwrites c history older hpast huntold
    obtain ⟨root, -, asked, -, hexpected⟩ := hallows i _ _ earlier hwrites.suffix rfl
    rw [hpast] at hexpected
    rw [hwrites.accepted_iff hrecorded, ← ExpectedVersion.ofCurrent_inj, ← hexpected.own huntold]
    rfl

theorem undisturbed_of_allows (guard : Guard b .events K) : Undisturbed guard w transcript := by
  intro i data reply between before c history hwrites hidle huntold
  have hpast : past i (between ++ (i, .fetched c (.ok (.ok history))) :: before) =
      .fetched c (.ok (.ok history)) :: past i before := by
    rw [past_append, hidle, past_cons_self]
    rfl
  rw [(exactSaves_of_allows hallows hrecorded guard.check).own hwrites hpast huntold]
  have hearlier := hrecorded.of_suffix ((List.suffix_cons _ _).trans hwrites.suffix)
  rcases guard.since_fetched hearlier with ⟨hnone, hkept⟩ | ⟨⟨entry, hmem, hsaved⟩, hraised⟩
  · exact iff_of_true hkept.symm hnone
  · refine iff_of_false ?_ fun hnone => hnone entry hmem hsaved
    intro hsame
    exact Nat.ne_of_lt hraised (congrArg Version.count hsame)

end

end EventSourced

/-- **The first save alone is told.** Whatever the replies and whoever else is at work, the engine
over events asks its provider exactly once, before all else and for the command that starts the
cascade. Its first save names the answer, if there is one, and every other save the last version
that was fetched for its own command. So over a store that checks versions, and that may change by
itself, the first save succeeds exactly at the version named, and every other one exactly at the
version of its own fetch; where only saves change a stream, that is if nobody saved since. The
engine over states saves once, and names the answer or else the version it fetched;
it answers exactly where that save was accepted. -/
theorem only_the_first_save_is_told (d : Decider C S E R) (g : Saga E C) (limit : DepthLimit) :
    ((EventSourced.lockingOrchestrating d g limit).CallsAs fun root past =>
      ∃ asked, EventSourced.Expects d root asked past) ∧
    (∀ (ω K : Type) (b : Backend (Exchange.lockedEvents C E) ω) (items : List (Checked C)) (w : ω)
      (schedule : List Nat),
      let s := (System.start (EventSourced.lockingOrchestrating d g limit) items w).run b schedule
      (∀ check : VersionCheck b .events K, EventSourced.ExactSaves check w s.transcript) ∧
      ∀ guard : Guard b .events K, EventSourced.Undisturbed guard w s.transcript) ∧
    (StateStored.lockingOrchestrating d g limit).CallsAs StateStored.Expects ∧
    ∀ (ω : Type) (b : Backend (Exchange.lockedStates C S) ω) (fuel : Nat) (c : C) (w : ω)
      (r : Run (Exchange.lockedStates C S) (Failure C R) (S × Version) ω),
      (StateStored.lockingOrchestrating d g limit).handle b fuel c w = some r →
      Answers r.outcome (calls r.transcript).reverse := by
  refine ⟨EventSourced.lockingOrchestrating_callsAs d g limit, ?_,
    StateStored.lockingOrchestrating_callsAs d g limit, ?_⟩
  · intro ω K b items w schedule s
    have hallows := (System.run_keeps (b := b) (EventSourced.expectingProtocol_kept d g limit)
      items w schedule).calls
    obtain ⟨-, hrecorded⟩ := System.run_recorded (b := b)
      (e := EventSourced.lockingOrchestrating d g limit) items w schedule
    exact ⟨EventSourced.exactSaves_of_allows hallows hrecorded,
      EventSourced.undisturbed_of_allows hallows hrecorded⟩
  · intro ω b fuel c w r hr
    exact (StateStored.lockingOrchestrating_answers d g limit).handle hr

/-- A number that is taken up again and again, by a provider that expects no stream. Alone, its
first save is told so and goes through, and the same command further below expects what it fetched.
Next to another such call that saves first, its first save is refused. -/
theorem taken_up_again_untold :
    let nothing := fun (_ : Nat) (_ : Store Unit Nat Nat Empty) => some ExpectedVersion.noStream
    let b := Store.lockedEvents Layout.single .faithful nothing
    let e := EventSourced.lockingOrchestrating Decider.summing Saga.again .unlimited
    let s := (System.start e [.ok 8, .ok 8] .empty).run b ([0, 0, 0, 0] ++ List.replicate 6 1 ++ [0])
    (∃ r, e.handle b 30 8 .empty = some r ∧
      (∃ asked, EventSourced.Expects .summing 8 asked (calls r.transcript).reverse) ∧
      (accepted r.transcript).map Prod.fst =
        [([8], .noStream), ([8], .exact ⟨1⟩), ([8], .exact ⟨2⟩)]) ∧
    (EventSourced.ExactSaves (Store.guardsEvents Layout.single nothing).check .empty s.transcript ∧
      EventSourced.Undisturbed (Store.guardsEvents Layout.single nothing) .empty s.transcript ∧
      past 0 s.transcript = [.wrote ([8], .noStream)
          (.ok (.error (.versionMismatch .noStream (some ⟨1⟩)))),
        .fetched 8 (.ok (.ok [])), .consulted 8 (some .noStream)]) ∧
    ∃ r, (StateStored.lockingOrchestrating .summing .countdown .unlimited).handle
        (Store.lockedStates Layout.single .faithful nothing) 30 3 .empty = some r ∧
      StateStored.Expects 3 (calls r.transcript).reverse := by
  obtain ⟨hcalls, hsaves, -⟩ :=
    only_the_first_save_is_told Decider.summing Saga.again .unlimited
  obtain ⟨-, -, hstates, -⟩ :=
    only_the_first_save_is_told Decider.summing Saga.countdown .unlimited
  obtain ⟨r, hr, haccepted⟩ : ∃ r,
      (EventSourced.lockingOrchestrating Decider.summing Saga.again .unlimited).handle
        (Store.lockedEvents Layout.single .faithful fun (_ : Nat) (_ : Store Unit Nat Nat Empty) =>
          some .noStream) 30 8 .empty = some r ∧
      (accepted r.transcript).map Prod.fst =
        [([8], .noStream), ([8], .exact ⟨1⟩), ([8], .exact ⟨2⟩)] := ⟨_, rfl, rfl⟩
  obtain ⟨q, hq⟩ : ∃ q,
      (StateStored.lockingOrchestrating Decider.summing Saga.countdown .unlimited).handle
        (Store.lockedStates Layout.single .faithful fun (_ : Nat) (_ : Store Unit Nat Nat Empty) =>
          some .noStream) 30 3 .empty = some q := ⟨_, rfl⟩
  refine ⟨⟨r, hr, hcalls.run _ _ _ _ _ hr, haccepted⟩, ⟨?_, ?_, rfl⟩, q, hq, ?_⟩
  · exact (hsaves _ _ _ [.ok 8, .ok 8] _ _).1 _
  · exact (hsaves _ _ _ [.ok 8, .ok 8] _ _).2 _
  · exact hstates.run _ _ _ _ _ hq

end EventMachines
