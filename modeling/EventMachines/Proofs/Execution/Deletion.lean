import EventMachines.Engine.Dispatch
import EventMachines.Proofs.Execution.Batches
import EventMachines.Proofs.Execution.Determinism
import EventMachines.Proofs.Execution.Once
import EventMachines.Proofs.Orchestration.Atomicity

/-!
A batch is its items one after the other, and an item that fails leaves nothing behind. So a batch
may be cut in two, and where the store keeps its contents in whatever it refuses, items that failed
might as well not have been there: without them the others have the same results and the contents
end the same. An engine that saves several times for one item is not like that.

* `oneByOne_iff_handleAll`: the batch as a sequence, for every engine;
* `Engine.FailsClean`: a failure leaves the contents as they were, `RunsOnce.failsClean` and
  `AllOrNothing.failsClean` say which engines fail like that;
* `handles_thinned`: failed items may be deleted;
* `batches_in_turn_without_traces`: both for the engines there are.
-/

namespace EventMachines

open Program hiding bind

variable {P : Exchange} {C S E F I R T Item Answer ε ι α ω κ : Type}

theorem Outcome.result_eq_error {o : Outcome ε α} {e : ε} :
    o.result = .ok (.error e) ↔ o = .failed e := by
  cases o <;> simp [result]

/-! ## One after the other -/

namespace Engine

/-- The items in order, with their results and all calls that were made. An item that could not be
read has its failure, without a call; every other one is handled where the one before it ended. -/
inductive OneByOne (e : Engine P (Failure I R) Item Answer) (b : Backend P ω) (fuel : Nat) :
    List (Except String Item) → ω → List (Except (Failure I R) Answer) → ω → List (Happening P) →
      Prop
  | nil (w : ω) : OneByOne e b fuel [] w [] w []
  | unreadable {items : List (Except String Item)} {w w' : ω}
    {results : List (Except (Failure I R) Answer)} {made : List (Happening P)} (reason : String)
    (rest : OneByOne e b fuel items w results w' made) :
    OneByOne e b fuel (.error reason :: items) w
      (.error (.publishingFailed none (.text reason)) :: results) w' made
  | handled {item : Item} {items : List (Except String Item)} {w w' : ω}
    {r : Run P (Failure I R) Answer ω} {x : Except (Failure I R) Answer}
    {results : List (Except (Failure I R) Answer)} {made : List (Happening P)}
    (hr : e.handle b fuel item w = some r) (hx : r.outcome.result = .ok x)
    (rest : OneByOne e b fuel items r.world results w' made) :
    OneByOne e b fuel (.ok item :: items) w (x :: results) w' (calls r.transcript ++ made)

variable {e : Engine P (Failure I R) Item Answer} {b : Backend P ω} {fuel : Nat}
  {items : List (Except String Item)} {w w' : ω} {results : List (Except (Failure I R) Answer)}
  {made : List (Happening P)}

theorem OneByOne.length (h : e.OneByOne b fuel items w results w' made) :
    results.length = items.length := by
  induction h with
  | nil => rfl
  | unreadable reason rest ih => exact congrArg (· + 1) ih
  | handled hr hx rest ih => exact congrArg (· + 1) ih

/-- Handling the items gives each of them its result, leads from one world to the other and makes
these calls. -/
def Makes (e : Engine P (Failure I R) Item Answer) (b : Backend P ω) (fuel : Nat)
    (items : List (Except String Item)) (w : ω) (results : List (Except (Failure I R) Answer))
    (w' : ω) (made : List (Happening P)) : Prop :=
  ∃ batch, e.handleAll b fuel items w = some batch ∧ batch.results = .ok results ∧
    batch.world = w' ∧ calls batch.transcript = made

theorem oneByOne_of_handleAll (h : e.Makes b fuel items w results w' made) :
    e.OneByOne b fuel items w results w' made := by
  obtain ⟨batch, hbatch, hresults, rfl, rfl⟩ := h
  induction items generalizing w results batch with
  | nil =>
    obtain rfl := Option.some.inj hbatch
    obtain rfl := Except.ok.inj hresults
    exact .nil w
  | cons item items ih =>
    cases item with
    | error reason =>
      obtain ⟨others, hothers, hbatch⟩ := Option.bind_eq_some_iff.mp hbatch
      obtain rfl := Option.some.inj hbatch
      obtain ⟨rest, hrest, rfl⟩ := Checked.map_eq_ok.mp hresults
      exact .unreadable reason (ih others hothers hrest)
    | ok item =>
      obtain ⟨r, hr, -⟩ := Option.bind_eq_some_iff.mp hbatch
      rw [handleAll_cons hr] at hbatch
      rcases hx : r.outcome.result with fault | x <;> rw [hx] at hbatch
      · obtain rfl := Option.some.inj hbatch
        cases hresults
      · obtain ⟨others, hothers, rfl⟩ := Option.map_eq_some_iff.mp hbatch
        obtain ⟨rest, hrest, rfl⟩ := Checked.map_eq_ok.mp hresults
        rw [calls_append]
        exact .handled hr hx (ih others hothers hrest)

theorem OneByOne.handleAll (h : e.OneByOne b fuel items w results w' made) :
    e.Makes b fuel items w results w' made := by
  induction h with
  | nil w => exact ⟨_, rfl, rfl, rfl, rfl⟩
  | unreadable reason rest ih =>
    obtain ⟨others, hothers, hresults, hworld, hmade⟩ := ih
    exact ⟨_, Option.bind_eq_some_iff.mpr ⟨others, hothers, rfl⟩,
      Checked.map_eq_ok.mpr ⟨_, hresults, rfl⟩, hworld, hmade⟩
  | @handled item items w w' r x results made hr hx rest ih =>
    obtain ⟨others, hothers, hresults, hworld, hmade⟩ := ih
    refine ⟨⟨(x :: ·) <$> others.results, others.world, r.transcript ++ others.transcript⟩, ?_,
      Checked.map_eq_ok.mpr ⟨_, hresults, rfl⟩, hworld, ?_⟩
    · rw [handleAll_cons hr, hx, hothers]
      rfl
    · rw [calls_append, hmade]

theorem oneByOne_iff_handleAll :
    e.Makes b fuel items w results w' made ↔ e.OneByOne b fuel items w results w' made :=
  ⟨oneByOne_of_handleAll, OneByOne.handleAll⟩

end Engine

/-! ## Failures that leave nothing behind -/

/-- A failure leaves the contents of a careful store as they were. -/
structure Engine.FailsClean (e : Engine P ε Item Answer) : Prop where
  unchanged : ∀ {ω κ : Type} {b : Backend P ω} {content : ω → κ}, b.Careful content →
    ∀ {fuel item w r x}, e.handle b fuel item w = some r → r.outcome = .failed x →
      content r.world = content w

/-- So does the failure of a single program. -/
def Program.FailsClean (p : Program P ε α) : Prop :=
  ∀ {ω κ : Type} {b : Backend P ω} {content : ω → κ}, b.Careful content → ∀ {w x},
    (p.run b w).outcome = .failed x → content (p.run b w).world = content w

theorem follow_failsClean (onWrite : StoreError → ε) (course : Course P ε) :
    (follow onWrite course).FailsClean := by
  intro ω κ b content hb w x h
  rcases course with o | data
  · rfl
  · have hrefused := hb.refused data w
    simp only [follow, save, run] at h ⊢
    rcases hd : b.write data w with ⟨fault | error | ack, w'⟩ <;> rw [hd] at h hrefused
    · cases h
    · exact hrefused (by simp)
    · cases h

theorem once_failsClean (input : P.Input) (onFetch onWrite : StoreError → ε)
    (course : P.Read → Course P ε) : (once input onFetch onWrite course).FailsClean := by
  intro ω κ b content hb w x h
  have hfetch := hb.fetch input w
  rw [once, read_bind] at h ⊢
  simp only [run] at h ⊢
  rcases hf : b.fetch input w with ⟨fault | error | stored, w'⟩ <;> rw [hf] at h hfetch
  · exact hfetch
  · exact hfetch
  · exact (follow_failsClean onWrite (course stored) hb h).trans hfetch

/-- A single round fails as its program does without its notes. -/
theorem failsClean_of_unnoted {body : Item → Program P ε α}
    (h : ∀ item, (body item).unnoted.FailsClean) : (Engine.ofProgram body).FailsClean := by
  refine ⟨fun {ω κ b content} hb {fuel item w r x} hr hfailed => ?_⟩
  rw [Engine.handle_ofProgram] at hr
  obtain rfl := Option.some.inj hr
  have hclean := h item hb (w := w) (x := x)
  rw [run_unnoted] at hclean
  exact hclean hfailed

theorem Engine.RunsOnce.failsClean {e : Engine P ε Item P.Ack} {input : Item → P.Input}
    (h : e.RunsOnce input) : e.FailsClean := by
  obtain ⟨body, rfl, hbody⟩ := h
  refine failsClean_of_unnoted fun item => ?_
  obtain ⟨onFetch, onWrite, course, hcourse⟩ := hbody item
  rw [hcourse]
  exact once_failsClean _ onFetch onWrite course

theorem unnoted_dispatch (g : Saga E T) (e : E) :
    (do
      tell (.began .dispatch)
      let actions ← ofChecked (g.react e)
      let published ← save actions fun error => .publishingFailed (some e) (.store error)
      tell (.published published.length)
      return published : Program (Exchange.actions E T) (Failure E Empty) (List T)).unnoted =
      follow (fun error => .publishingFailed (some e) (.store error))
        ((Outcome.ofChecked (g.react e)).course fun actions => .writes actions) :=
  follow_course (ofChecked_computes _) fun _ =>
    unnoted_save (P := Exchange.actions E T) fun published => .published published.length

theorem dispatch_failsClean (g : Saga E T) : (dispatch g).FailsClean := by
  refine failsClean_of_unnoted fun e => ?_
  rw [unnoted_dispatch]
  exact follow_failsClean _ _

theorem StateStored.orchestrating_failsClean (d : Decider C S E R) (g : Saga E C)
    (limit : DepthLimit) : (orchestrating d g limit).FailsClean := by
  refine ⟨fun {ω κ b content} hb {fuel c w r x} hr hfailed => ?_⟩
  have hall := (orchestrations_all_or_nothing d g limit c fuel).1 b w r hr
  exact hall.unchanged content hb (by simp [hfailed])

theorem StateStored.lockingOrchestrating_failsClean (d : Decider C S E R) (g : Saga E C)
    (limit : DepthLimit) : (lockingOrchestrating d g limit).FailsClean := by
  refine ⟨fun {ω κ b content} hb {fuel c w r x} hr hfailed => ?_⟩
  have hall := (orchestrations_all_or_nothing d g limit c fuel).2 b w r hr
  exact hall.unchanged content hb (by simp [hfailed])

/-! ## Without the items that failed -/

/-- The first list is the second one without some of the items whose result was an error. -/
inductive Thinned : List (ι × Except ε α) → List (ι × Except ε α) → Prop
  | nil : Thinned [] []
  | keep (p : ι × Except ε α) {kept all : List (ι × Except ε α)} (rest : Thinned kept all) :
    Thinned (p :: kept) (p :: all)
  | drop (item : ι) (e : ε) {kept all : List (ι × Except ε α)} (rest : Thinned kept all) :
    Thinned kept ((item, .error e) :: all)

namespace Engine

/-- Over stores that are a function of their contents and keep them in whatever they refuse, items
that failed may be deleted from a batch: the others have the same results, and the contents end the
same. -/
structure ForgetsFailures (e : Engine P (Failure I R) Item Answer) : Prop where
  thinned : ∀ {ω κ : Type} {b : Backend P ω} {content : ω → κ}, b.Determined content →
    b.Careful content → ∀ {fuel kept all w w'}, Thinned kept all →
    e.Handles b fuel (all.map Prod.fst) w (all.map Prod.snd) w' →
    ∃ w'', e.Handles b fuel (kept.map Prod.fst) w (kept.map Prod.snd) w'' ∧
      content w'' = content w'

/-- **Deletion.** -/
theorem FailsClean.forgetsFailures {e : Engine P (Failure I R) Item Answer} (he : e.FailsClean) :
    e.ForgetsFailures := by
  refine ⟨fun {ω κ b content} hb hcareful {fuel kept all w w'} hthinned h => ?_⟩
  suffices hany : ∀ v, content w = content v → ∃ w'',
      e.Handles b fuel (kept.map Prod.fst) v (kept.map Prod.snd) w'' ∧ content w'' = content w' from
    hany w rfl
  induction hthinned generalizing w with
  | nil =>
    intro v hv
    obtain ⟨-, rfl⟩ := handles_nil.mp h
    exact ⟨v, handles_nil.mpr ⟨rfl, rfl⟩, hv.symm⟩
  | keep p rest ih =>
    intro v hv
    obtain ⟨item, x⟩ := p
    cases item with
    | error reason =>
      obtain ⟨results, hrest, hresults⟩ := handles_unreadable.mp h
      obtain ⟨rfl, rfl⟩ := List.cons.inj hresults
      obtain ⟨w'', hkept, hcontent⟩ := ih hrest v hv
      exact ⟨w'', handles_unreadable.mpr ⟨_, hkept, rfl⟩, hcontent⟩
    | ok item =>
      obtain ⟨r, y, results, hr, hy, hrest, hresults⟩ := handles_cons.mp h
      obtain ⟨rfl, rfl⟩ := List.cons.inj hresults
      obtain ⟨s, hs, hagrees⟩ := exists_handle_of_content hb hr hv
      obtain ⟨w'', hkept, hcontent⟩ := ih hrest s.world hagrees.world
      rw [hagrees.outcome] at hy
      exact ⟨w'', handles_cons.mpr ⟨s, _, _, hs, hy, hkept, rfl⟩, hcontent⟩
  | drop item x rest ih =>
    intro v hv
    cases item with
    | error reason =>
      obtain ⟨results, hrest, hresults⟩ := handles_unreadable.mp h
      obtain ⟨-, rfl⟩ := List.cons.inj hresults
      exact ih hrest v hv
    | ok item =>
      obtain ⟨r, y, results, hr, hy, hrest, hresults⟩ := handles_cons.mp h
      obtain ⟨rfl, rfl⟩ := List.cons.inj hresults
      have hfailed : r.outcome = .failed x := Outcome.result_eq_error.mp hy
      exact ih hrest v ((he.unchanged hcareful hr hfailed).trans hv)

end Engine

/-- **Batches.** For every engine a batch is its items in order, each with its result, and a batch
in two parts is one after the other. For all but the two engines that orchestrate over events, items
that failed might as well not have been there. -/
theorem batches_in_turn_without_traces (d : Decider C S E R) (g : Saga E C) (limit : DepthLimit)
    (v : View T F) (publisher : Saga E F) :
    (∀ {P : Exchange} {I R Item Answer ω : Type} (e : Engine P (Failure I R) Item Answer)
      (b : Backend P ω) (fuel : Nat),
      (∀ items w results w' made,
        e.Makes b fuel items w results w' made ↔ e.OneByOne b fuel items w results w' made) ∧
      (∀ items w results w' made, e.OneByOne b fuel items w results w' made →
        results.length = items.length) ∧
      ∀ xs ys w, e.handleAll b fuel (xs ++ ys) w =
        (e.handleAll b fuel xs w).bind fun first => first.andThen (e.handleAll b fuel ys)) ∧
    (EventSourced.plain d).ForgetsFailures ∧
    (EventSourced.locking d).ForgetsFailures ∧
    (StateStored.plain d).ForgetsFailures ∧
    (StateStored.locking d).ForgetsFailures ∧
    (StateStored.deduplicating d).ForgetsFailures ∧
    (StateStored.orchestrating d g limit).ForgetsFailures ∧
    (StateStored.lockingOrchestrating d g limit).ForgetsFailures ∧
    (Projection.plain v).ForgetsFailures ∧
    (Projection.locking v).ForgetsFailures ∧
    (Projection.deduplicating v).ForgetsFailures ∧
    (dispatch publisher).ForgetsFailures :=
  ⟨fun e b fuel => ⟨fun _ _ _ _ _ => Engine.oneByOne_iff_handleAll,
      fun _ _ _ _ _ => Engine.OneByOne.length, e.handleAll_append b fuel⟩,
    (EventSourced.plain_runsOnce d).failsClean.forgetsFailures,
    (EventSourced.locking_runsOnce d).failsClean.forgetsFailures,
    (StateStored.plain_runsOnce d).failsClean.forgetsFailures,
    (StateStored.locking_runsOnce d).failsClean.forgetsFailures,
    (StateStored.deduplicating_runsOnce d).failsClean.forgetsFailures,
    (StateStored.orchestrating_failsClean d g limit).forgetsFailures,
    (StateStored.lockingOrchestrating_failsClean d g limit).forgetsFailures,
    (Projection.plain_runsOnce v).failsClean.forgetsFailures,
    (Projection.locking_runsOnce v).failsClean.forgetsFailures,
    (Projection.deduplicating_runsOnce v).failsClean.forgetsFailures,
    (dispatch_failsClean publisher).forgetsFailures⟩

/-- Deliveries of which one came twice, one could not be read and one was refused. -/
theorem deliveries_without_failures :
    let b := Store.numberedStates Account.layout .faithful
    let st : Store Nat Account.Entry Account.Entry Empty := .empty
    let first : Except String (Account.Entry × SequenceNumber) ×
        Except (Failure Account.Entry String) (Account.Entry × SequenceNumber) :=
      (.ok ((1, 5), ⟨1⟩), .ok ((1, 5), ⟨1⟩))
    let again := (.ok ((1, 5), ⟨1⟩), .error (.storeFailed (1, 5) (.sequenceMismatch ⟨2⟩ ⟨1⟩)))
    let unread := (.error "cut off", .error (.publishingFailed none (.text "cut off")))
    let refused := (.ok ((2, 2000), ⟨1⟩), .error (.rejected (2, 2000) "too much"))
    let second := (.ok ((1, 7), ⟨2⟩), .ok ((1, 12), ⟨2⟩))
    let all := [first, again, unread, refused, second]
    let last := (st.putSlot 1 (1, 5) 1).putSlot 1 (1, 12) 2
    Thinned [first, second] all ∧
    (StateStored.deduplicating Account.decider).Handles b 0 (all.map Prod.fst) st
      (all.map Prod.snd) last ∧
    ∃ w', (StateStored.deduplicating Account.decider).Handles b 0 ([first, second].map Prod.fst) st
      ([first, second].map Prod.snd) w' ∧ w' = last := by
  intro b st first again unread refused second all last
  have hthinned : Thinned [first, second] all :=
    .keep first (.drop _ _ (.drop _ _ (.drop _ _ (.keep second .nil))))
  have hdetermined : b.Determined fun st : Store Nat Account.Entry Account.Entry Empty => st :=
    ⟨fun _ _ _ h => by rw [h]; exact ⟨rfl, rfl⟩, fun _ _ _ h => by rw [h]; exact ⟨rfl, rfl⟩,
      fun _ _ _ _ => rfl⟩
  have hcareful : b.Careful fun st : Store Nat Account.Entry Account.Entry Empty => st :=
    ⟨fun _ _ => rfl, fun _ _ h => commit_refused h⟩
  have h : (StateStored.deduplicating Account.decider).Handles b 0 (all.map Prod.fst) st
      (all.map Prod.snd) last := by
    let between := st.putSlot 1 (1, 5) 1
    let e := StateStored.deduplicating Account.decider
    have hlast : e.Handles b 0 [second.1] between [second.2] last :=
      Engine.handles_cons_of_world ⟨_, rfl, rfl, rfl⟩ (Engine.handles_nil.mpr ⟨rfl, rfl⟩)
    have hrefused : e.Handles b 0 [refused.1, second.1] between [refused.2, second.2] last :=
      Engine.handles_cons_of_world ⟨_, rfl, rfl, rfl⟩ hlast
    have hagain : e.Handles b 0 ([again, unread, refused, second].map Prod.fst) between
        ([again, unread, refused, second].map Prod.snd) last :=
      Engine.handles_cons_of_world ⟨_, rfl, rfl, rfl⟩
        (Engine.handles_unreadable.mpr ⟨_, hrefused, rfl⟩)
    exact Engine.handles_cons_of_world ⟨_, rfl, rfl, rfl⟩ hagain
  obtain ⟨-, -, -, -, -, hdeduplicating, -⟩ := batches_in_turn_without_traces Account.decider .empty
    .unlimited Account.view (.empty : Saga Account.Entry Account.Entry)
  exact ⟨hthinned, h, hdeduplicating.thinned hdetermined hcareful hthinned h⟩

end EventMachines
