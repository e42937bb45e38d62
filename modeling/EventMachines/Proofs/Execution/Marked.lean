import EventMachines.Proofs.Execution.Once
import EventMachines.Proofs.Store.Conforming

/-!
The same call over stores with and without marks. A version or a number tells a store whether a
write is still wanted. A single client always writes what is wanted, so the mark makes no difference
to what a call comes to, unless a store breaks off.

* `Outcome.Unconflicted`: an end that is no conflict; `broken_of_breaks`: what may come in between;
* `EventsAlike`, `executions_alike`: one command over streams of events;
* `StatesAlike`, `updates_alike`: one fetch of a state and one save.
-/

namespace EventMachines

open EventSourced
open Program hiding bind

variable {P Q : Exchange} {C I S E R T X K V ε α β ω υ : Type}

/-! ## Answers with marks -/

/-- The same end with another answer. -/
def Outcome.map (f : α → β) : Outcome ε α → Outcome ε β
  | done a => done (f a)
  | failed e => failed e
  | broken x => broken x

/-- It is no failure of the kind that a store reports which found other data than was expected. -/
def Outcome.Unconflicted (o : Outcome (Failure I R) α) : Prop :=
  ∀ e, o = .failed e → e.isVersionConflict = false ∧ e.isDuplicate = false

theorem Outcome.unconflicted_done (a : α) : (.done a : Outcome (Failure I R) α).Unconflicted :=
  nofun

theorem Outcome.unconflicted_broken (x : Fault) :
    (.broken x : Outcome (Failure I R) α).Unconflicted := nofun

theorem Outcome.unconflicted_iff {f : α → β} {o : Outcome (Failure I R) α}
    {o' : Outcome (Failure I R) β} (h : o.map f = o') : o.Unconflicted ↔ o'.Unconflicted := by
  subst h
  rcases o with a | e | x <;> simp [Unconflicted, map]

theorem Decider.unconflicted_of_attempt {d : Decider C S E R} {c : C} {s : S} {e : Failure C R}
    (h : d.attempt c s = .ok (.error e)) : (.failed e : Outcome (Failure C R) α).Unconflicted := by
  rintro _ ⟨⟩
  rcases attempt_eq_error.mp h with ⟨-, rfl⟩ | ⟨-, reason, -, rfl⟩
  · exact ⟨rfl, rfl⟩
  · exact ⟨rfl, rfl⟩

/-- A store that breaks off in a write ends the run. -/
theorem broken_of_breaks {b : Backend P ω} (p : Program P ε α) {w : ω} (h : (p.run b w).Breaks) :
    ∃ x, (p.run b w).outcome = .broken x := by
  obtain ⟨data, x, hmem⟩ := h
  induction p generalizing w with
  | halt o => cases hmem
  | note n rest ih => exact ih (List.mem_of_ne_of_mem (by simp) hmem)
  | fetch i rest ih =>
    rcases hf : b.fetch i w with ⟨y | r, w'⟩ <;> simp only [run, hf] at hmem ⊢
    · exact ⟨y, rfl⟩
    · exact ih r (List.mem_of_ne_of_mem (by simp) hmem)
  | write d rest ih =>
    rcases hd : b.write d w with ⟨y | r, w'⟩ <;> simp only [run, hd] at hmem ⊢
    · exact ⟨y, rfl⟩
    · exact ih r (List.mem_of_ne_of_mem (by simp) hmem)
  | consult i rest ih => exact ih _ (List.mem_of_ne_of_mem (by simp) hmem)

/-! ## Calls that run once -/

section

variable {b : Backend P ω} {input : P.Input} {onFetch onWrite : StoreError → ε}
  {course : P.Read → Course P ε} {w v : ω} {stored : P.Read}

theorem run_once_ends (hfetch : b.fetch input w = (.ok (.ok stored), v)) {o : Outcome ε P.Ack}
    (hcourse : course stored = .ends o) :
    (once input onFetch onWrite course).run b w = ⟨o, v, [.fetched input (.ok (.ok stored))]⟩ := by
  rw [once, read_bind]
  simp only [run, hfetch, hcourse, follow]
  rfl

theorem run_once_writes (hfetch : b.fetch input w = (.ok (.ok stored), v)) {data : P.Write}
    (hcourse : course stored = .writes data) {ack : P.Ack} {v' : ω}
    (hwrite : b.write data v = (.ok (.ok ack), v')) :
    (once input onFetch onWrite course).run b w =
      ⟨.done ack, v', [.fetched input (.ok (.ok stored)), .wrote data (.ok (.ok ack))]⟩ := by
  rw [once, read_bind]
  simp only [run, hfetch, hcourse, follow, save, hwrite]
  rfl

theorem run_once_breaks (hfetch : b.fetch input w = (.ok (.ok stored), v)) {data : P.Write}
    (hcourse : course stored = .writes data) (hbreaks : Reply.Breaks (b.write data v).1) :
    ((once input onFetch onWrite course).run b w).Breaks := by
  obtain ⟨x, hx⟩ := hbreaks
  refine ⟨data, x, ?_⟩
  rw [once, read_bind]
  rcases hwrite : b.write data v with ⟨reply, v'⟩
  rw [hwrite] at hx
  obtain rfl : reply = .error x := hx
  simp only [run, hfetch, hcourse, follow, save, hwrite]
  exact List.mem_cons_of_mem _ (List.mem_singleton.mpr rfl)

end

/-! ## Events -/

/-- What came of a command over streams without and with versions: the same but for the versions of
its answer. A success has added its answer to the stream of the command, where the versions go
on. -/
structure EventsAlike (held : ω → K → List E) (held' : υ → K → List (E × Version)) (key : K)
    (before : υ) (r : Run P (Failure C R) (List E) ω)
    (q : Run Q (Failure C R) (List (E × Version)) υ) : Prop where
  outcome : q.outcome.map (List.map (·.1)) = r.outcome
  streams : ∀ k, (held' q.world k).map (·.1) = held r.world k
  grown : ∀ saved, q.outcome = .done saved → ∃ log, Grown (held' before key) saved log ∧
    ChangedAt (held' before) (held' q.world) key log
  kept : (∀ saved, q.outcome ≠ .done saved) → held' q.world = held' before
  unconflicted : q.outcome.Unconflicted

theorem EventsAlike.exists_grown {held : ω → K → List E} {held' : υ → K → List (E × Version)}
    {key : K} {before : υ} {r : Run P (Failure C R) (List E) ω}
    {q : Run Q (Failure C R) (List (E × Version)) υ} (h : EventsAlike held held' key before r q)
    (k : K) : ∃ added, Grown (held' before k) added (held' q.world k) := by
  by_cases hdone : ∃ saved, q.outcome = .done saved
  · obtain ⟨saved, hsaved⟩ := hdone
    obtain ⟨log, hgrown, hchanged⟩ := h.grown saved hsaved
    by_cases hk : key = k
    · subst hk
      exact ⟨saved, hchanged.here ▸ hgrown⟩
    · rw [hchanged.elsewhere k hk]
      exact ⟨[], .refl _⟩
  · rw [h.kept fun saved hsaved => hdone ⟨saved, hsaved⟩]
    exact ⟨[], .refl _⟩

/-- Versions do not matter to what a command decides: it ends alike, or writes the same. -/
theorem courses_alike (d : Decider C S E R) (c : C) {history : List E}
    {versioned : List (E × Version)} (h : versioned.map (·.1) = history) :
    (∃ o o', course d c history = .ends o ∧ courseLocking d c versioned = .ends o' ∧
      o'.map (List.map (·.1)) = o ∧ (∀ saved, o' = .done saved → saved = []) ∧ o.Unconflicted) ∨
    ∃ e rest, course d c history = .writes (e :: rest) ∧
      courseLocking d c versioned = .writes (e :: rest, .ofCurrent (lastVersion versioned)) := by
  rw [course, courseLocking, h]
  rcases d.replay history with x | s
  · exact .inl ⟨.broken x, .broken x, rfl, rfl, rfl, by simp, Outcome.unconflicted_broken x⟩
  · have hdecides : d.decides c s = .ofResult (d.attempt c s) := rfl
    simp only [Outcome.ofChecked, Outcome.course, hdecides]
    rcases hattempt : d.attempt c s with x | e | events
    · exact .inl ⟨.broken x, .broken x, rfl, rfl, rfl, by simp, Outcome.unconflicted_broken x⟩
    · exact .inl ⟨.failed e, .failed e, rfl, rfl, rfl, by simp,
        Decider.unconflicted_of_attempt hattempt⟩
    · cases events with
      | nil => exact .inl ⟨.done [], .done [], rfl, rfl, rfl, by simp, Outcome.unconflicted_done []⟩
      | cons e rest => exact .inr ⟨e, rest, rfl, rfl⟩

section

variable {b : Backend (Exchange.events C E) ω} {b' : Backend (Exchange.lockedEvents C E) υ}
  {layout : Layout K C E T} {held : ω → K → List E} {held' : υ → K → List (E × Version)}

/-- **One command.** -/
theorem executions_alike {d : Decider C S E R} (hb : b.KeepsStreams layout held)
    (hb' : b'.KeepsVersions layout held') (c : C) {w : ω} {w' : υ}
    (hsame : ∀ k, (held' w' k).map (·.1) = held w k)
    (hhome : ((execute d c).run b w).SavesUnder
      (fun batch : List E => batch.head?.map layout.ofEvent) (layout.ofInput c)) :
    ((execute d c).run b w).Breaks ∨ ((executeLocking d c none).run b' w').Breaks ∨
      EventsAlike held held' (layout.ofInput c) w' ((execute d c).run b w)
        ((executeLocking d c none).run b' w') := by
  replace hhome := hhome.of_writes Run.writes_quiet
  suffices halike : ((execute d c).run b w).quiet.Breaks ∨
      ((executeLocking d c none).run b' w').quiet.Breaks ∨
      EventsAlike held held' (layout.ofInput c) w' ((execute d c).run b w).quiet
        ((executeLocking d c none).run b' w').quiet by
    rcases halike with h | h | h
    · exact .inl (h.of_writes Run.writes_quiet.symm)
    · exact .inr (.inl (h.of_writes Run.writes_quiet.symm))
    · exact .inr (.inr ⟨h.outcome, h.streams, h.grown, h.kept, h.unconflicted⟩)
  obtain ⟨v, hfetch, hv⟩ := hb.fetch c w
  obtain ⟨v', hfetch', hv'⟩ := hb'.fetch c w'
  rw [← run_unnoted, unnoted_execute] at hhome ⊢
  rw [← run_unnoted, unnoted_executeLocking]
  rcases courses_alike d c (hsame (layout.ofInput c)) with
    ⟨o, o', hcourse, hcourse', houtcome, hnil, ho⟩ | ⟨e, rest, hcourse, hcourse'⟩
  · rw [run_once_ends hfetch hcourse, run_once_ends hfetch' hcourse']
    refine .inr (.inr ⟨houtcome, fun k => ?_, fun saved hsaved => ?_, fun _ => hv',
      (Outcome.unconflicted_iff houtcome).mpr ho⟩)
    · rw [hv, hv', hsame]
    · obtain rfl := hnil saved hsaved
      exact ⟨_, .refl _, congrFun hv' _, fun other _ => congrFun hv' other⟩
  · rcases hb.write e rest v with hbreaks | ⟨u, hwrite, hchanged⟩
    · exact .inl (run_once_breaks hfetch hcourse hbreaks)
    · rw [run_once_writes hfetch hcourse hwrite] at hhome ⊢
      have hkey : layout.ofEvent e = layout.ofInput c :=
        Option.some.inj (hhome (e :: rest) _ (List.mem_cons_of_mem _ List.mem_cons_self))
      have hwrite' := hb'.write e rest v'
      simp only [hkey, hv, hv'] at hchanged hwrite'
      rcases hwrite' with hbreaks | ⟨added, log, u', hwrite', hadded, hgrown, hchanged'⟩
      · exact .inr (.inl (run_once_breaks hfetch' hcourse' hbreaks))
      · rw [run_once_writes hfetch' hcourse' hwrite']
        refine .inr (.inr ⟨congrArg Outcome.done hadded, fun k => ?_, ?_, ?_,
          Outcome.unconflicted_done _⟩)
        · by_cases hk : layout.ofInput c = k
          · subst hk
            rw [hchanged'.here, hchanged.here, hgrown.appended, List.map_append, hadded, hsame]
          · rw [hchanged'.elsewhere k hk, hchanged.elsewhere k hk, hsame]
        · rintro _ ⟨⟩
          exact ⟨log, hgrown, hchanged'⟩
        · exact fun hfailed => absurd rfl (hfailed added)

end

/-! ## States -/

/-- What came of an input over states without and with marks: the same but for the mark of its
answer. A success has put its answer under the key of the input, and its mark counts one more. -/
structure StatesAlike (held : ω → K → Option S) (held' : υ → K → Option (S × T))
    (count : Option T → Nat) (key : K) (before : υ) (r : Run P (Failure I R) S ω)
    (q : Run Q (Failure I R) (S × T) υ) : Prop where
  outcome : q.outcome.map (·.1) = r.outcome
  states : ∀ k, (held' q.world k).map (·.1) = held r.world k
  saved : ∀ s mark, q.outcome = .done (s, mark) →
    count (some mark) = count ((held' before key).map (·.2)) + 1 ∧
    ChangedAt (held' before) (held' q.world) key (some (s, mark))
  kept : (∀ answer, q.outcome ≠ .done answer) → held' q.world = held' before
  unconflicted : q.outcome.Unconflicted

section

variable {current : Option S → Checked S} {initial : Checked S}
  {becomes : S → Outcome (Failure I R) S} {admits : Option T → Outcome (Failure I R) Unit}
  {mark : Option T → X} {stored : Option (S × T)}

/-- Marks do not matter to what becomes of a state: it ends alike, or the same state is written. -/
theorem updates_courses_alike (mark : Option T → X)
    (hcurrent : current (stored.map (·.1)) = (·.1) <$> storedOr initial stored)
    (hbecomes : ∀ s, (becomes s).Unconflicted) (hadmits : admits (stored.map (·.2)) = .done ()) :
    (∃ o o',
      (.update current becomes (stored.map (·.1)) : Course (Exchange.states I S) _) = .ends o ∧
      (.updateMarked initial admits becomes mark stored : Course ⟨I, _, _, _⟩ _) = .ends o' ∧
      o'.map (·.1) = o ∧ (∀ answer, o' ≠ .done answer) ∧ o.Unconflicted) ∨
    ∃ s, (.update current becomes (stored.map (·.1)) : Course (Exchange.states I S) _) = .writes s ∧
      (.updateMarked initial admits becomes mark stored : Course ⟨I, _, _, _⟩ _) =
        .writes (s, mark (stored.map (·.2))) := by
  rw [Course.update, Course.updateMarked, hcurrent]
  rcases hbegun : storedOr initial stored with x | ⟨s, token⟩
  · exact .inl ⟨.broken x, .broken x, rfl, rfl, rfl, by simp, Outcome.unconflicted_broken x⟩
  · obtain rfl := storedOr_token hbegun
    have hone := hbecomes s
    show (∃ o o', (becomes s).course _ = .ends o ∧ (admits (stored.map (·.2))).course _ = .ends o' ∧
      _) ∨ ∃ s', (becomes s).course _ = .writes s' ∧ (admits (stored.map (·.2))).course _ = _
    rw [hadmits]
    rcases hbecome : becomes s with s' | e | x
    · exact .inr ⟨s', rfl, by simp only [Outcome.course]⟩
    · rw [hbecome] at hone
      exact .inl ⟨.failed e, .failed e, rfl, by simp only [Outcome.course], rfl, by simp,
        hone⟩
    · exact .inl ⟨.broken x, .broken x, rfl, by simp only [Outcome.course], rfl, by simp,
        Outcome.unconflicted_broken x⟩

variable {b : Backend (Exchange.states I S) ω} {b' : Backend ⟨I, Option (S × T), S × X, S × T⟩ υ}
  {layout : Layout K I E S} {held : ω → K → Option S} {held' : υ → K → Option (S × T)}
  {count : Option T → Nat} {due : Option T → X → Prop} {i : I}
  {onFetch onWrite onFetch' onWrite' : StoreError → Failure I R}

/-- **One state.** -/
theorem updates_alike (hb : b.KeepsStates layout held) (hb' : b'.KeepsMarks layout count due held')
    {w : ω} {w' : υ} (hsame : ∀ k, (held' w' k).map (·.1) = held w k)
    (hcurrent : current (held w (layout.ofInput i)) =
      (·.1) <$> storedOr initial (held' w' (layout.ofInput i)))
    (hbecomes : ∀ s, (becomes s).Unconflicted)
    (hadmits : admits ((held' w' (layout.ofInput i)).map (·.2)) = .done ())
    (hdue : due ((held' w' (layout.ofInput i)).map (·.2))
      (mark ((held' w' (layout.ofInput i)).map (·.2))))
    (hhome : ((once i onFetch onWrite (.update current becomes)).run b w).SavesUnder
      (fun s => some (layout.ofState s)) (layout.ofInput i)) :
    ((once i onFetch onWrite (.update current becomes)).run b w).Breaks ∨
      ((once i onFetch' onWrite' (.updateMarked initial admits becomes mark)).run b' w').Breaks ∨
      StatesAlike held held' count (layout.ofInput i) w'
        ((once i onFetch onWrite (.update current becomes)).run b w)
        ((once i onFetch' onWrite' (.updateMarked initial admits becomes mark)).run b' w') := by
  obtain ⟨v, hfetch, hv⟩ := hb.fetch i w
  obtain ⟨v', hfetch', hv'⟩ := hb'.fetch i w'
  rw [← hsame] at hcurrent hfetch
  rcases updates_courses_alike mark hcurrent hbecomes hadmits with
    ⟨o, o', hcourse, hcourse', houtcome, hnone, ho⟩ | ⟨s, hcourse, hcourse'⟩
  · rw [run_once_ends hfetch hcourse, run_once_ends hfetch' hcourse']
    refine .inr (.inr ⟨houtcome, fun k => ?_, fun s mark hdone => ?_, fun _ => hv',
      (Outcome.unconflicted_iff houtcome).mpr ho⟩)
    · rw [hv, hv', hsame]
    · exact absurd hdone (hnone _)
  · rcases hb.write s v with hbreaks | ⟨u, hwrite, hchanged⟩
    · exact .inl (run_once_breaks hfetch hcourse hbreaks)
    · rw [run_once_writes hfetch hcourse hwrite] at hhome ⊢
      have hkey : layout.ofState s = layout.ofInput i :=
        Option.some.inj (hhome s _ (List.mem_cons_of_mem _ List.mem_cons_self))
      have hwrite' := hb'.write s (mark ((held' w' (layout.ofInput i)).map (·.2))) v'
      simp only [hkey, hv'] at hwrite'
      rcases hwrite' hdue with hbreaks | ⟨token, u', hwrite', hcount, hchanged'⟩
      · exact .inr (.inl (run_once_breaks hfetch' hcourse' hbreaks))
      · rw [run_once_writes hfetch' hcourse' hwrite']
        refine .inr (.inr ⟨rfl, fun k => ?_, ?_, ?_, Outcome.unconflicted_done _⟩)
        · rw [hkey, hv] at hchanged
          by_cases hk : layout.ofInput i = k
          · subst hk
            rw [hchanged'.here, hchanged.here]
            rfl
          · rw [hchanged'.elsewhere k hk, hchanged.elsewhere k hk, hsame]
        · rintro _ _ ⟨⟩
          exact ⟨hcount, hchanged'⟩
        · exact fun hfailed => absurd rfl (hfailed (s, token))

end

end EventMachines
