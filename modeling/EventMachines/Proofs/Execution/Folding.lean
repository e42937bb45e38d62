import EventMachines.Proofs.Execution.Batches
import EventMachines.Proofs.Execution.Independence
import EventMachines.Proofs.Execution.Marked
import EventMachines.Sample.Account

/-!
Views kept up to date one event at a time. Whatever a store marks its states with, the engine of a
view answers each event with the fold of all events so far, and in the end the fold of all of them
is stored.

* `View.newState_cons`: folding a list in one go is folding its first event and then the others;
* `TakesInTurn`: an engine that takes the next event where it stands; `TakesInTurn.folds`: so it
  takes any number of them;
* `plain_folds`, `locking_folds`, `deduplicating_folds`: the three engines;
* `projections_compute_the_fold`: so the state of a projection is that of the log.
-/

namespace EventMachines

open Program hiding bind

variable {P : Exchange} {C I S E E' R T X K A Item ε ω : Type}

namespace View

variable {v : View S E} {stored : Option S} {e : E} {events : List E} {x : Fault} {s : S}

theorem newState_cons (v : View S E) (stored : Option S) (e : E) (events : List E) :
    v.newState stored (e :: events) =
      (do v.newState (some (← v.newState stored [e])) events) := by
  rw [newState, newState]
  rcases v.current stored with x | s
  · rfl
  · show v.evolveAll s (e :: events) = (do v.evolveAll (← v.evolveAll s [e]) events)
    rw [evolveAll_cons, evolveAll_cons]
    rcases v.evolve s e with x | s' <;> rfl

theorem newState_cons_of_ok (h : v.newState stored [e] = .ok s) (events : List E) :
    v.newState stored (e :: events) = v.newState (some s) events := by
  rw [newState_cons, h]
  rfl

theorem newState_cons_of_error (h : v.newState stored [e] = .error x) (events : List E) :
    v.newState stored (e :: events) = .error x := by
  rw [newState_cons, h]
  rfl

theorem newState_single (v : View S E) (stored : Option S) (e : E) :
    v.newState stored [e] = (do v.evolve (← v.current stored) e) :=
  congrArg (v.current stored >>= ·) (funext fun s => (v.evolveAll_cons s e []).trans (bind_pure _))

/-- A stored state with its mark is begun with like the state alone. -/
theorem storedOr_eq (v : View S E) (stored : Option (S × T)) :
    storedOr v.initial stored =
      (do return (← v.current (stored.map (·.1)), stored.map (·.2))) := by
  cases stored <;> rfl

/-- The marked state that an event leads to, where the mark admits it. -/
theorem updateMarked_eq (v : View S E) (e : E) {stored : Option (S × T)}
    {admits : Option T → Outcome ε Unit} (hadmits : admits (stored.map (·.2)) = .done ())
    (mark : Option T → X) :
    (Course.updateMarked v.initial admits (fun s => .ofChecked (v.evolve s e)) mark stored :
      Course ⟨I, Option (S × T), S × X, S × T⟩ ε) =
      (Outcome.ofChecked (v.newState (stored.map (·.1)) [e])).course fun s =>
        .writes (s, mark (stored.map (·.2))) := by
  rw [Course.updateMarked, storedOr_eq, newState_single]
  cases v.current (stored.map (·.1)) with
  | error x => rfl
  | ok s =>
    show (admits (stored.map (·.2))).course _ = _
    rw [hadmits]
    rfl

end View

/-! ## One key -/

/-- The inputs belong to the key, and so do the states that the events lead to. -/
structure UnderKey (layout : Layout K E E' S) (v : View S E) (key : K) (stored : Option S)
    (events : List E) : Prop where
  inputs : ∀ e ∈ events, layout.ofInput e = key
  states : ∀ i s, i < events.length → v.newState stored (events.take (i + 1)) = .ok s →
    layout.ofState s = key

section

variable {layout : Layout K E E' S} {v : View S E} {key : K} {stored : Option S} {e : E}
  {events : List E} {s : S}

theorem UnderKey.first (h : UnderKey layout v key stored (e :: events))
    (hs : v.newState stored [e] = .ok s) : layout.ofState s = key :=
  h.states 0 s (Nat.zero_lt_succ _) hs

theorem UnderKey.rest (h : UnderKey layout v key stored (e :: events))
    (hs : v.newState stored [e] = .ok s) : UnderKey layout v key (some s) events where
  inputs e' hmem := h.inputs e' (List.mem_cons_of_mem e hmem)
  states i t hi ht := by
    refine h.states (i + 1) t (Nat.succ_lt_succ hi) ?_
    rw [List.take_succ_cons, View.newState_cons_of_ok hs, ht]

end

/-! ## Event after event -/

/-- Wherever the engine stands in front of an item, it answers with the state that the event leads
to and stands in front of the next one; where the view breaks off, so does the engine. The number of
the item says what else holds of its answer. -/
def TakesInTurn (e : Engine P (Failure I R) Item A) (b : Backend P ω) (v : View S E) (state : A → S)
    (event : Item → E) (tells : Nat → A → Prop)
    (stands : Nat → Option A → List Item → ω → Prop) : Prop :=
  ∀ fuel n held item items w, stands n held (item :: items) w →
    ∃ r, e.handle b fuel item w = some r ∧
      match v.newState (held.map state) [event item] with
      | .error x => r.outcome = .broken x
      | .ok s => ∃ a, r.outcome = .done a ∧ state a = s ∧ tells n a ∧
        stands (n + 1) (some a) items r.world

/-- Items handled one by one come to the fold of their events: each answer has the state that the
events so far lead to, the last answer is what is held, and where the fold breaks off the batch
does. -/
structure Folds (e : Engine P (Failure I R) Item A) (b : Backend P ω) (v : View S E) (state : A → S)
    (event : Item → E) (tells : Nat → A → Prop) (held : ω → Option A) (items : List Item) (w : ω) :
    Prop where
  completes : ∀ fuel last, v.newState ((held w).map state) (items.map event) = .ok last →
    ∃ answers w', e.Completes b fuel items w answers w' ∧ answers.length = items.length ∧
      (∀ i a, answers[i]? = some a → tells i a ∧
        v.newState ((held w).map state) ((items.map event).take (i + 1)) = .ok (state a)) ∧
      held w' = answers.getLast?.or (held w) ∧ v.current ((held w').map state) = .ok last
  breaks : ∀ fuel x, items ≠ [] → v.newState ((held w).map state) (items.map event) = .error x →
    ∃ batch, e.handleAll b fuel (items.map .ok) w = some batch ∧ batch.results = .error x

section

variable {e : Engine P (Failure I R) Item A} {b : Backend P ω} {v : View S E} {state : A → S}
  {event : Item → E} {tells : Nat → A → Prop} {stands : Nat → Option A → List Item → ω → Prop}
  {n : Nat} {held : Option A} {items : List Item} {w : ω}

/-- By induction on the items, from wherever the engine stands. -/
theorem TakesInTurn.completes (h : TakesInTurn e b v state event tells stands)
    (hw : stands n held items w) (fuel : Nat) {last : S}
    (hlast : v.newState (held.map state) (items.map event) = .ok last) :
    ∃ answers w', e.Completes b fuel items w answers w' ∧ answers.length = items.length ∧
      (∀ i a, answers[i]? = some a → tells (n + i) a ∧
        v.newState (held.map state) ((items.map event).take (i + 1)) = .ok (state a)) ∧
      stands (n + items.length) (answers.getLast?.or held) [] w' ∧
      v.current ((answers.getLast?.or held).map state) = .ok last := by
  induction items generalizing n held w with
  | nil =>
    refine ⟨[], w, Engine.completes_nil.mpr ⟨rfl, rfl⟩, rfl, by simp, hw, ?_⟩
    obtain ⟨s, hs, hdone⟩ := Checked.bind_eq_ok.mp hlast
    obtain rfl := Except.ok.inj hdone
    exact hs
  | cons item items ih =>
    obtain ⟨r, hr, hstep⟩ := h fuel n held item items w hw
    rcases hone : v.newState (held.map state) [event item] with x | s <;> rw [hone] at hstep
    · rw [List.map_cons, View.newState_cons_of_error hone] at hlast
      cases hlast
    · obtain ⟨a, ha, rfl, htells, hstands⟩ := hstep
      rw [List.map_cons, View.newState_cons_of_ok hone] at hlast
      obtain ⟨answers, w', hcompletes, hlength, heach, hend, hcurrent⟩ := ih hstands hlast
      have hheld : (a :: answers).getLast?.or held = answers.getLast?.or (some a) := by
        cases answers with
        | nil => rfl
        | cons a' rest => simp [List.getLast?_cons]
      refine ⟨a :: answers, w', Engine.completes_cons.mpr ⟨r, a, answers, hr, ha, hcompletes, rfl⟩,
        congrArg (· + 1) hlength, fun i a' hi => ?_, ?_, hheld ▸ hcurrent⟩
      · cases i with
        | zero =>
          obtain rfl := Option.some.inj hi
          exact ⟨htells, hone⟩
        | succ i =>
          obtain ⟨htells', hstate⟩ := heach i a' hi
          refine ⟨?_, ?_⟩
          · rwa [show n + (i + 1) = n + 1 + i by omega]
          · rw [List.map_cons, List.take_succ_cons, View.newState_cons_of_ok hone]
            exact hstate
      · rw [hheld, List.length_cons, show n + (items.length + 1) = n + 1 + items.length by omega]
        exact hend

theorem TakesInTurn.breaks (h : TakesInTurn e b v state event tells stands)
    (hw : stands n held items w) (fuel : Nat) {x : Fault} (hne : items ≠ [])
    (hx : v.newState (held.map state) (items.map event) = .error x) :
    ∃ batch, e.handleAll b fuel (items.map .ok) w = some batch ∧ batch.results = .error x := by
  induction items generalizing n held w with
  | nil => exact absurd rfl hne
  | cons item items ih =>
    obtain ⟨r, hr, hstep⟩ := h fuel n held item items w hw
    rw [List.map_cons] at hx ⊢
    rw [Engine.handleAll_cons hr]
    rcases hone : v.newState (held.map state) [event item] with y | s <;> rw [hone] at hstep
    · rw [View.newState_cons_of_error hone] at hx
      cases hx
      rw [hstep]
      exact ⟨_, rfl, rfl⟩
    · obtain ⟨a, ha, rfl, -, hstands⟩ := hstep
      rw [View.newState_cons_of_ok hone] at hx
      have hnext : items ≠ [] := by
        rintro rfl
        cases hx
      obtain ⟨batch, hbatch, hresults⟩ := ih hstands hnext hx
      rw [ha]
      refine ⟨_, congrArg (Option.map _) hbatch, ?_⟩
      show (_ <$> batch.results : Checked _) = _
      rw [hresults]
      rfl

theorem TakesInTurn.folds (h : TakesInTurn e b v state event tells stands) {at_ : ω → Option A}
    (hat : ∀ n held w, stands n held [] w → at_ w = held) (hw : stands 0 (at_ w) items w) :
    Folds e b v state event tells at_ items w where
  completes fuel last hlast := by
    obtain ⟨answers, w', hcompletes, hlength, heach, hend, hcurrent⟩ := h.completes hw fuel hlast
    have hheld := hat _ _ _ hend
    refine ⟨answers, w', hcompletes, hlength, fun i a hi => ?_, hheld, hheld ▸ hcurrent⟩
    simpa only [Nat.zero_add] using heach i a hi
  breaks fuel x := h.breaks hw fuel

end

/-! ## The engines -/

/-- The store holds the last answer under the key and has room for the items, which belong there. -/
structure StandsAt (layout : Layout K E E' S) (v : View S E) (key : K) (held : ω → K → Option A)
    (room : ω → K → Nat → Prop) (state : A → S) (event : Item → E) (last : Option A)
    (items : List Item) (w : ω) : Prop where
  held : held w key = last
  room : room w key items.length
  home : UnderKey layout v key (last.map state) (items.map event)

section

variable {layout : Layout K E E' S} {v : View S E} {key : K} {room : ω → K → Nat → Prop} {w v' : ω}
  {n : Nat} {e : E} (onFetch onWrite : StoreError → Failure I R)

theorem run_update_view {b : Backend (Exchange.states E S) ω} {held : ω → K → Option S}
    (hb : b.KeepsStates layout held) (hroom : b.HasRoom layout.ofState room)
    (hkey : layout.ofInput e = key)
    (hhome : ∀ s, v.newState (held w key) [e] = .ok s → layout.ofState s = key)
    (hn : room w key (n + 1)) :
    let run := (once e onFetch onWrite
      (.update (fun stored => v.newState stored [e]) .done)).run b w
    match v.newState (held w key) [e] with
    | .error x => run.outcome = .broken x
    | .ok s => run.outcome = .done s ∧ held run.world key = some s ∧ room run.world key n := by
  subst hkey
  obtain ⟨w', hfetch, hheld⟩ := hb.fetch e w
  rcases hs : v.newState (held w (layout.ofInput e)) [e] with x | s
  · rw [run_once_ends hfetch (o := .broken x) (by simp [Course.update, hs, Outcome.ofChecked,
      Outcome.course])]
  · have hcourse : (Course.update (fun stored => v.newState stored [e]) .done
        (held w (layout.ofInput e)) : Course (Exchange.states E S) (Failure I R)) = .writes s := by
      simp [Course.update, hs, Outcome.ofChecked, Outcome.course]
    have hn' : room w' (layout.ofState s) (n + 1) := by
      have := hroom.fetch e w _ _ hn
      rwa [hfetch, ← hhome s hs] at this
    obtain ⟨hanswers, hrest⟩ := hroom.write s w' n hn'
    rcases hb.write s w' with hbreaks | ⟨w'', hwrite, hchanged⟩
    · exact absurd hbreaks hanswers
    · rw [hwrite, hhome s hs] at hrest
      rw [hhome s hs] at hchanged
      rw [run_once_writes hfetch hcourse hwrite]
      exact ⟨rfl, hchanged.here, hrest⟩

theorem run_updateMarked_view {b : Backend ⟨E, Option (S × T), S × X, S × T⟩ ω}
    {count : Option T → Nat} {due : Option T → X → Prop} {held : ω → K → Option (S × T)}
    (hb : b.KeepsMarks layout count due held)
    (hroom : b.HasRoom (fun data : S × X => layout.ofState data.1) room)
    (hkey : layout.ofInput e = key)
    (hhome : ∀ s, v.newState ((held w key).map (·.1)) [e] = .ok s → layout.ofState s = key)
    (hn : room w key (n + 1)) {admits : Option T → Outcome (Failure I R) Unit}
    {mark : Option T → X} (hadmits : admits ((held w key).map (·.2)) = .done ())
    (hdue : due ((held w key).map (·.2)) (mark ((held w key).map (·.2)))) :
    let run := (once e onFetch onWrite
      (.updateMarked v.initial admits (fun s => .ofChecked (v.evolve s e)) mark)).run b w
    match v.newState ((held w key).map (·.1)) [e] with
    | .error x => run.outcome = .broken x
    | .ok s => ∃ token, run.outcome = .done (s, token) ∧
      count (some token) = count ((held w key).map (·.2)) + 1 ∧
      held run.world key = some (s, token) ∧ room run.world key n := by
  subst hkey
  obtain ⟨w', hfetch, hheld⟩ := hb.fetch e w
  have hcourse := v.updateMarked_eq (I := E) e hadmits mark
  rcases hs : v.newState ((held w (layout.ofInput e)).map (·.1)) [e] with x | s <;>
    rw [hs] at hcourse <;> simp only [hs]
  · rw [run_once_ends hfetch hcourse]
  · have hn' : room w' (layout.ofState s) (n + 1) := by
      have := hroom.fetch e w _ _ hn
      rwa [hfetch, ← hhome s hs] at this
    obtain ⟨hanswers, hrest⟩ := hroom.write (s, _) w' n hn'
    have hwrite := hb.write s (mark ((held w (layout.ofInput e)).map (·.2))) w'
    simp only [hheld, hhome s hs] at hwrite
    rcases hwrite hdue with hbreaks | ⟨token, w'', hwrite, hcount, hchanged⟩
    · exact absurd hbreaks hanswers
    · rw [hwrite, hhome s hs] at hrest
      rw [run_once_writes hfetch hcourse hwrite]
      exact ⟨token, rfl, hcount, hchanged.here, hrest⟩

end

section

variable {layout : Layout K E E' S} {v : View S E} {key : K} {room : ω → K → Nat → Prop}

theorem plain_takes {b : Backend (Exchange.states E S) ω} {held : ω → K → Option S}
    (hb : b.KeepsStates layout held) (hroom : b.HasRoom layout.ofState room) :
    TakesInTurn (Projection.plain v) b v id id (fun _ _ => True) fun _ =>
      StandsAt layout v key held room id id := by
  intro fuel n last e events w hw
  obtain ⟨rfl, hn, hhome⟩ := hw
  rw [List.map_cons] at hhome
  simp only [Option.map_id_fun, id] at hhome ⊢
  have hstep := run_update_view (R := Empty) (.fetchFailed e) (.storeFailed e) hb hroom
    (hhome.inputs e List.mem_cons_self) (fun s => hhome.first) hn
  rw [← Projection.unnoted_plain, run_unnoted] at hstep
  refine ⟨_, Engine.handle_ofProgram _ b fuel e w, ?_⟩
  rcases hs : v.newState (held w key) [e] with x | s <;> simp only [hs] at hstep
  · exact hstep
  · obtain ⟨houtcome, hheld, hrest⟩ := hstep
    exact ⟨s, houtcome, rfl, trivial, hheld, hrest, by simpa using hhome.rest hs⟩

/-- The marks count on from `first`, and every item fits where it comes. -/
theorem marked_takes (fits : Nat → Item → Prop)
    {e : Engine ⟨E, Option (S × T), S × X, S × T⟩ (Failure E Empty) Item (S × T)}
    {body : Item → Program ⟨E, Option (S × T), S × X, S × T⟩ (Failure E Empty) (S × T)}
    (he : e = .ofProgram body) {event : Item → E}
    {admits : Item → Option T → Outcome (Failure E Empty) Unit} {mark : Item → Option T → X}
    (hbody : ∀ item, (body item).unnoted =
      once (event item) (.fetchFailed (event item)) (.storeFailed (event item))
        (.updateMarked v.initial (admits item) (fun s => .ofChecked (v.evolve s (event item)))
          (mark item)))
    {b : Backend ⟨E, Option (S × T), S × X, S × T⟩ ω} {count : Option T → Nat}
    {due : Option T → X → Prop} {held : ω → K → Option (S × T)}
    (hb : b.KeepsMarks layout count due held)
    (hroom : b.HasRoom (fun data : S × X => layout.ofState data.1) room)
    (hfits : ∀ item last, fits (count last) item →
      admits item last = .done () ∧ due last (mark item last)) (first : Nat) :
    TakesInTurn e b v Prod.fst event (fun n a => count (some a.2) = first + n + 1)
      fun n last items w => StandsAt layout v key held room Prod.fst event last items w ∧
        count (last.map (·.2)) = first + n ∧
        ∀ i item, items[i]? = some item → fits (first + n + i) item := by
  subst he
  intro fuel n last item items w ⟨hw, hcount, hitems⟩
  obtain ⟨rfl, hn, hhome⟩ := hw
  rw [List.map_cons] at hhome
  obtain ⟨hadmits, hdue⟩ := hfits item _ (hcount ▸ hitems 0 item rfl)
  have hstep := run_updateMarked_view (.fetchFailed (event item)) (.storeFailed (event item)) hb
    hroom (hhome.inputs _ List.mem_cons_self) (fun s => hhome.first) hn hadmits hdue
  rw [← hbody, run_unnoted] at hstep
  refine ⟨_, Engine.handle_ofProgram _ b fuel item w, ?_⟩
  rcases hs : v.newState ((held w key).map Prod.fst) [event item] with x | s <;>
    simp only [hs] at hstep ⊢
  · exact hstep
  · obtain ⟨token, houtcome, htoken, hheld, hrest⟩ := hstep
    have hnext : count (some token) = first + (n + 1) := by omega
    refine ⟨(s, token), houtcome, rfl, by omega, ⟨hheld, hrest, hhome.rest hs⟩, hnext,
      fun i item' hi => ?_⟩
    have hthere := hitems (i + 1) item' hi
    rwa [show first + n + (i + 1) = first + (n + 1) + i by omega] at hthere

variable {w : ω}

theorem plain_folds {b : Backend (Exchange.states E S) ω} {held : ω → K → Option S}
    (hb : b.KeepsStates layout held) (hroom : b.HasRoom layout.ofState room) {events : List E}
    (hw : room w key events.length) (hhome : UnderKey layout v key (held w key) events) :
    Folds (Projection.plain v) b v id id (fun _ _ => True) (held · key) events w :=
  (plain_takes hb hroom).folds (fun _ _ _ h => h.held) ⟨rfl, hw, by simpa using hhome⟩

theorem locking_folds {b : Backend (Exchange.lockedStates E S) ω}
    {held : ω → K → Option (S × Version)}
    (hb : b.KeepsMarks layout Version.count Version.Due held)
    (hroom : b.HasRoom (fun data => layout.ofState data.1) room) {events : List E}
    (hw : room w key events.length)
    (hhome : UnderKey layout v key ((held w key).map (·.1)) events) :
    Folds (Projection.locking v) b v Prod.fst id
      (fun i a => Version.count (some a.2) = Version.count ((held w key).map (·.2)) + i + 1)
      (held · key) events w := by
  refine (marked_takes (fun _ _ => True) (Projection.locking_eq v)
    (fun e => unnoted_updateLocked _ _ (fun _ _ => ofChecked_computes _) e) hb hroom
    (fun e last _ => ⟨rfl, ExpectedVersion.toCurrent_ofCurrent last⟩) _).folds
    (fun _ _ _ h => h.1.held) ?_
  exact ⟨⟨rfl, hw, by simpa using hhome⟩, rfl, fun _ _ _ => trivial⟩

/-- The events are numbered on from the stored number. -/
theorem deduplicating_folds {b : Backend (Exchange.numberedStates E S) ω}
    {held : ω → K → Option (S × SequenceNumber)}
    (hb : b.KeepsMarks layout SequenceNumber.count SequenceNumber.Due held)
    (hroom : b.HasRoom (fun data => layout.ofState data.1) room)
    {items : List (E × SequenceNumber)} (hw : room w key items.length)
    (hhome : UnderKey layout v key ((held w key).map (·.1)) (items.map (·.1)))
    (hitems : ∀ i item, items[i]? = some item →
      item.2.number.toNat = SequenceNumber.count ((held w key).map (·.2)) + i + 1) :
    Folds (Projection.deduplicating v) b v Prod.fst Prod.fst
      (fun i a => SequenceNumber.count (some a.2) =
        SequenceNumber.count ((held w key).map (·.2)) + i + 1)
      (held · key) items w := by
  have hfits : ∀ (item : E × SequenceNumber) last,
      item.2.number.toNat = SequenceNumber.count last + 1 →
      item.2.admitted item.1 last = (.done () : Outcome (Failure E Empty) Unit) ∧
        SequenceNumber.Due last item.2 := by
    intro item last hnext
    rw [SequenceNumber.admitted, SequenceNumber.check_eq_ok.mpr hnext]
    exact ⟨rfl, hnext⟩
  exact (marked_takes (fun n item => item.2.number.toNat = n + 1) (Projection.deduplicating_eq v)
    (fun item => unnoted_updateNumbered _ _ _ (fun _ _ => ofChecked_computes _) item.1 item.2)
    hb hroom hfits _).folds (fun _ _ _ h => h.1.held) ⟨⟨rfl, hw, hhome⟩, rfl, hitems⟩

end

/-! ## Logs -/

/-- What the engine of a view makes of events, among them the log of a decider that the view folds
like. Then it holds the state that the log is replayed to, event by event, and the decider goes on
from there. -/
structure Projects (e : Engine P (Failure I R) Item A) (b : Backend P ω) (v : View S E)
    (state : A → S) (event : Item → E) (tells : Nat → A → Prop) (held : ω → Option A)
    (items : List Item) (w : ω) : Prop extends Folds e b v state event tells held items w where
  replays : ∀ {C R : Type} (d : Decider C S E R), v = ⟨d.evolve, d.initial⟩ → held w = none →
    ∀ fuel s, d.replay (items.map event) = .ok s →
      ∃ answers w', e.Completes b fuel items w answers w' ∧ answers.length = items.length ∧
        (∀ i a, answers[i]? = some a → d.replay ((items.map event).take (i + 1)) = .ok (state a)) ∧
        d.current ((held w').map state) = .ok s ∧
        ∀ c, ∃ r, (EventSourced.plain d).handle Backend.log fuel c (items.map event) = some r ∧
          r.outcome.result = d.attempt c s

theorem Folds.projects {e : Engine P (Failure I R) Item A} {b : Backend P ω} {v : View S E}
    {state : A → S} {event : Item → E} {tells : Nat → A → Prop} {held : ω → Option A}
    {items : List Item} {w : ω} (h : Folds e b v state event tells held items w) :
    Projects e b v state event tells held items w where
  toFolds := h
  replays d hv hw fuel s hs := by
    subst hv
    have hlast : (⟨d.evolve, d.initial⟩ : View S E).newState ((held w).map state)
        (items.map event) = .ok s := by
      rw [hw]
      exact hs
    obtain ⟨answers, w', hcompletes, hlength, heach, -, hcurrent⟩ := h.completes fuel s hlast
    refine ⟨answers, w', hcompletes, hlength, fun i a hi => ?_, ?_, fun c => ?_⟩
    · have hstate := (heach i a hi).2
      rw [hw] at hstate
      exact hstate
    · rw [← hcurrent]
      cases (held w').map state <;> rfl
    · obtain ⟨r, hr, hresult, -⟩ := result_over_log d fuel c (items.map event)
      refine ⟨r, hr, hresult.trans ?_⟩
      rw [hs]
      rfl

/-- **One event at a time.** Over stores that do what they are for and have room for the events, all
three engines of a view answer each event with the fold of all so far, as versions or numbers count
on by one, and hold the fold of all of them in the end; so a projection of a log holds the state
that the log is replayed to. -/
theorem projections_compute_the_fold (layout : Layout K E E' S) (v : View S E) (key : K) :
    (∀ {ω : Type} {b : Backend (Exchange.states E S) ω} {held : ω → K → Option S}
      {room : ω → K → Nat → Prop} {w : ω} {events : List E},
      b.KeepsStates layout held → b.HasRoom layout.ofState room → room w key events.length →
      UnderKey layout v key (held w key) events →
      Projects (Projection.plain v) b v id id (fun _ _ => True) (held · key) events w) ∧
    (∀ {ω : Type} {b : Backend (Exchange.lockedStates E S) ω} {held : ω → K → Option (S × Version)}
      {room : ω → K → Nat → Prop} {w : ω} {events : List E},
      b.KeepsMarks layout Version.count Version.Due held →
      b.HasRoom (fun data => layout.ofState data.1) room → room w key events.length →
      UnderKey layout v key ((held w key).map (·.1)) events →
      Projects (Projection.locking v) b v Prod.fst id
        (fun i a => Version.count (some a.2) = Version.count ((held w key).map (·.2)) + i + 1)
        (held · key) events w) ∧
    ∀ {ω : Type} {b : Backend (Exchange.numberedStates E S) ω}
      {held : ω → K → Option (S × SequenceNumber)} {room : ω → K → Nat → Prop} {w : ω}
      {items : List (E × SequenceNumber)},
      b.KeepsMarks layout SequenceNumber.count SequenceNumber.Due held →
      b.HasRoom (fun data => layout.ofState data.1) room → room w key items.length →
      UnderKey layout v key ((held w key).map (·.1)) (items.map (·.1)) →
      (∀ i item, items[i]? = some item →
        item.2.number.toNat = SequenceNumber.count ((held w key).map (·.2)) + i + 1) →
      Projects (Projection.deduplicating v) b v Prod.fst Prod.fst
        (fun i a => SequenceNumber.count (some a.2) =
          SequenceNumber.count ((held w key).map (·.2)) + i + 1)
        (held · key) items w :=
  ⟨fun hb hroom hw hhome => (plain_folds hb hroom hw hhome).projects,
    fun hb hroom hw hhome => (locking_folds hb hroom hw hhome).projects,
    fun hb hroom hw hhome hitems => (deduplicating_folds hb hroom hw hhome hitems).projects⟩

namespace Account

/-- Bookings on one account lead to balances of that account. -/
theorem underKey (key : Nat) (stored : Option Entry) {events : List Entry}
    (h : ∀ e ∈ events, e.1 = key) : UnderKey layout view key stored events where
  inputs := h
  states i s hi hs := by
    induction events generalizing stored i with
    | nil => simp at hi
    | cons e events ih =>
      obtain ⟨first, hfirst⟩ : ∃ s, view.newState stored [e] = .ok s := by
        cases stored <;> exact ⟨_, rfl⟩
      rw [List.take_succ_cons, View.newState_cons_of_ok hfirst] at hs
      cases i with
      | zero =>
        obtain rfl := Except.ok.inj hs
        cases stored <;> (obtain rfl := Except.ok.inj hfirst; exact h e List.mem_cons_self)
      | succ i =>
        exact ih (some first) (fun e he => h e (List.mem_cons_of_mem _ he)) i
          (Nat.lt_of_succ_lt_succ hi) hs

end Account

/-- Two bookings on an account that was written three times, over the store in memory; and the same
two as a log, over an empty one. -/
theorem two_bookings_projected :
    let st : Store Nat Account.Entry Account.Entry Unit := Store.empty.putSlot 1 (1, 10) 3
    let events : List Account.Entry := [(1, 5), (1, 3)]
    Projects (Projection.plain Account.view) (Store.states Account.layout .faithful) Account.view id
        id (fun _ _ => True) (fun st => (st.slot 1).map (·.1)) events st ∧
      Projects (Projection.locking Account.view)
        (Store.lockedStates Account.layout .faithful fun _ _ => none) Account.view Prod.fst id
        (fun i a => Version.count (some a.2) = 3 + i + 1) (fun st => Store.held (st.slot 1)) events
        st ∧
      Projects (Projection.deduplicating Account.view)
        (Store.numberedStates Account.layout .faithful) Account.view Prod.fst Prod.fst
        (fun i a => SequenceNumber.count (some a.2) = 3 + i + 1)
        (fun st => (st.slot 1).map fun p => (p.1, ⟨p.2⟩)) [((1, 5), ⟨4⟩), ((1, 3), ⟨5⟩)] st ∧
      Account.view.newState (some (1, 10)) events = .ok (1, 18) ∧
      ∃ answers st', (Projection.plain Account.view).Completes
        (Store.states Account.layout .faithful) 0 events (Store.empty : Store Nat _ _ Unit) answers
        st' ∧ answers.length = 2 ∧
        Account.decider.current ((st'.slot 1).map (·.1)) = .ok (1, 8) := by
  intro st events
  have hkeys : ∀ e ∈ events, e.1 = 1 := by decide
  have hroom : st.Room 1 2 := show 3 + 2 < UInt64.size by decide
  have hempty : (Store.empty : Store Nat Account.Entry Account.Entry Unit).Room 1 2 :=
    show 0 + 2 < UInt64.size by decide
  have hnumbers : ∀ i item, ([((1, 5), ⟨4⟩), ((1, 3), ⟨5⟩)] : List (Account.Entry ×
      SequenceNumber))[i]? = some item → item.2.number.toNat = 3 + i + 1
    | 0, _, rfl => rfl
    | 1, _, rfl => rfl
  obtain ⟨hplain, hlocking, hnumbered⟩ :=
    projections_compute_the_fold Account.layout Account.view 1
  refine ⟨?_, ?_, ?_, rfl, ?_⟩
  · exact hplain (Store.states_keepsStates _) (Store.states_hasRoom _) hroom
      (Account.underKey 1 _ hkeys)
  · exact hlocking (Store.lockedStates_keepsMarks _) (Store.lockedStates_hasRoom _ _) hroom
      (Account.underKey 1 _ hkeys)
  · exact hnumbered (w := st) (Store.numberedStates_keepsMarks _) (Store.numberedStates_hasRoom _)
      hroom (Account.underKey 1 _ hkeys) hnumbers
  · obtain ⟨answers, st', hcompletes, hlength, -, hcurrent, -⟩ :=
      (hplain (Store.states_keepsStates _) (Store.states_hasRoom _) hempty
        (Account.underKey 1 _ hkeys)).replays Account.decider rfl rfl 0 (1, 8) rfl
    rw [Option.map_id] at hcurrent
    exact ⟨answers, st', hcompletes, hlength, hcurrent⟩

end EventMachines
