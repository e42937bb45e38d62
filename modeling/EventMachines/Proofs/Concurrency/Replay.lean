import EventMachines.Proofs.Concurrency.Contract

/-!
What was saved, one save after the other. Where only accepted writes change a store, all that the
calls did to it is their saves in order, and what one save keeps they all keep.

* `saves_induction`: the induction over the saves;
* `saves_nodup_of_fresh`: a call that has saved nothing yet when it writes saves once at most;
* `acks_past`: what a call knows of its saves is what was saved;
* `answers_of_none`, `answers_of_save`: when a call answers exactly what it saved;
* `answered_of_ends`: what the ends of all calls say of their saves, the finished calls say;
* `savesOnce_of_kept`: calls that answer what they save, and save only if they have saved nothing
  yet, save once at most;
* `exists_finished`: a call of a single round comes to an end by its own steps.
-/

namespace EventMachines

variable {P : Exchange} {ε Item Answer ω : Type} {b : Backend P ω}

/-- **Save by save.** What holds of no saves and the first store, and is kept by each save, holds of
all saves and the store as it is. -/
theorem saves_induction {w : ω} {motive : List (Saved P) → ω → Prop}
    (hidle : ∀ (h : Happening P) w, h.Truthful b w → h.save? = none → h.effect b w = w)
    (nil : motive [] w) {transcript : List (Nat × Happening P)}
    (hrecorded : Recorded b w transcript)
    (save : ∀ i d ack earlier, (i, .wrote d (.ok (.ok ack))) :: earlier <:+ transcript →
      motive (saves earlier) (worldAfter b w earlier) →
      motive (saves earlier ++ [⟨i, d, ack⟩]) (b.write d (worldAfter b w earlier)).2) :
    motive (saves transcript) (worldAfter b w transcript) := by
  induction transcript with
  | nil => exact nil
  | cons entry transcript ih =>
    obtain ⟨i, h⟩ := entry
    have hearlier := ih hrecorded.2 fun j d ack earlier hsuffix =>
      save j d ack earlier (hsuffix.trans (List.suffix_cons _ _))
    rcases hsave : h.save? with _ | ⟨d, ack⟩
    · rw [saves_cons_none hsave, worldAfter, hidle h _ hrecorded.1 hsave]
      exact hearlier
    · obtain rfl := Happening.save?_eq_some.mp hsave
      rw [saves_cons_save]
      exact save i d ack transcript List.suffix_rfl hearlier

section

variable {e : Engine P ε Item Answer} {k : Protocol e} {items : List (Checked Item)}

theorem saves_nodup_of_fresh {transcript : List (Nat × Happening P)}
    (hfresh : ∀ item d past, k.may item (.write d) past → ∀ h ∈ past, h.save? = none)
    (hallows : k.Allows items transcript) : ((saves transcript).map (·.task)).Nodup := by
  induction transcript with
  | nil => exact List.nodup_nil
  | cons entry transcript ih =>
    obtain ⟨i, h⟩ := entry
    have hearlier := ih (hallows.of_suffix (List.suffix_cons _ _))
    rcases hsave : h.save? with _ | ⟨d, ack⟩
    · rw [saves_cons_none hsave]
      exact hearlier
    · obtain rfl := Happening.save?_eq_some.mp hsave
      obtain ⟨item, -, hmay⟩ := hallows i _ _ transcript List.suffix_rfl rfl
      rw [saves_cons_save, List.map_append, List.nodup_append]
      refine ⟨hearlier, by simp, ?_⟩
      rintro j hj k hk rfl
      obtain ⟨save, hmem, rfl⟩ := List.mem_map.mp hj
      obtain rfl := List.mem_singleton.mp hk
      have hnone := hfresh item d _ hmay _ (mem_saves.mp hmem)
      simp [Happening.save?] at hnone

/-- A task that has saved something has an item. -/
theorem item_of_mem_saves {transcript : List (Nat × Happening P)}
    (hallows : k.Allows items transcript) {save : Saved P} (hsave : save ∈ saves transcript) :
    ∃ item, items[save.task]? = some (.ok item) := by
  obtain ⟨hmem, -⟩ := mem_past.mp (mem_saves.mp hsave)
  obtain ⟨later, earlier, hsplit⟩ := List.append_of_mem hmem
  obtain ⟨item, hitem, -⟩ := hallows save.task _ (.write save.data) earlier ⟨later, hsplit.symm⟩ rfl
  exact ⟨item, hitem⟩

end

/-! ## The saves of one call -/

/-- What the store answered to the writes it accepted, the oldest first. -/
def acks (past : List (Happening P)) : List P.Ack :=
  (past.filterMap fun h => h.save?.map (·.2)).reverse

theorem acks_cons_save (d : P.Write) (ack : P.Ack) (past : List (Happening P)) :
    acks (.wrote d (.ok (.ok ack)) :: past) = acks past ++ [ack] := by
  simp [acks, Happening.save?]

theorem acks_append (later : List (Happening P)) (hlater : ∀ h ∈ later, h.save? = none)
    (past : List (Happening P)) : acks (later ++ past) = acks past := by
  have hnone : later.filterMap (fun h => h.save?.map (·.2)) = [] :=
    List.filterMap_eq_nil_iff.mpr fun h hmem => by rw [hlater h hmem, Option.map_none]
  rw [acks, acks, List.filterMap_append, hnone, List.nil_append]

/-- What a call knows of its saves is what was saved. -/
theorem acks_past (i : Nat) (transcript : List (Nat × Happening P)) :
    acks (past i transcript) = ((saves transcript).filter (·.task = i)).map (·.ack) := by
  induction transcript with
  | nil => rfl
  | cons entry transcript ih =>
    obtain ⟨j, h⟩ := entry
    rcases hsave : h.save? with _ | ⟨d, ack⟩
    · rw [saves_cons_none hsave, ← ih]
      by_cases hj : j = i
      · subst hj
        rw [past_cons_self]
        by_cases hcall : h.isCall = true
        · rw [if_pos hcall]
          exact acks_append [h] (by simpa using hsave) _
        · rw [if_neg hcall]
      · rw [past_cons_ne hj]
    · obtain rfl := Happening.save?_eq_some.mp hsave
      rw [saves_cons_save, List.filter_append, List.map_append, ← ih]
      by_cases hj : j = i
      · subst hj
        have hself : past j ((j, .wrote d (.ok (.ok ack))) :: transcript) =
            .wrote d (.ok (.ok ack)) :: past j transcript := past_cons_self _ _ _
        rw [hself, acks_cons_save]
        simp
      · rw [past_cons_ne hj]
        simp [hj]

/-- The call answers exactly what it saved, and fails or breaks off where it saved nothing. -/
def Answers (o : Outcome ε P.Ack) (past : List (Happening P)) : Prop :=
  ∀ answer, o = .done answer ↔ ∃ data, .wrote data (.ok (.ok answer)) ∈ past

theorem answers_of_none {o : Outcome ε P.Ack} {past : List (Happening P)}
    (ho : ∀ answer, o ≠ .done answer) (hpast : ∀ h ∈ past, h.save? = none) : Answers o past := by
  intro answer
  refine iff_of_false (ho answer) ?_
  rintro ⟨data, hmem⟩
  cases hpast _ hmem

theorem answers_of_save {data : P.Write} {ack : P.Ack} {past : List (Happening P)}
    (hpast : ∀ h ∈ past, h.save? = none) :
    Answers (.done ack : Outcome ε P.Ack) (.wrote data (.ok (.ok ack)) :: past) := by
  intro answer
  constructor
  · rintro ⟨⟩
    exact ⟨data, List.mem_cons_self⟩
  · rintro ⟨data', hmem⟩
    rcases List.mem_cons.mp hmem with hsame | hmem
    · cases hsame
      rfl
    · cases hpast _ hmem

namespace System

theorem tasks_length {e : Engine P ε Item Answer} (items : List (Checked Item)) (w : ω)
    (schedule : List Nat) : ((start e items w).run b schedule).tasks.length = items.length := by
  refine run_invariant (I := fun s => s.tasks.length = items.length) (fun s i h => ?_) schedule
    (List.length_map _)
  cases ht : s.tasks[i]? with
  | none => rwa [step_of_none ht]
  | some t =>
    rw [step_of_some ht]
    exact List.length_set.trans h

/-- If a call ends with the answers of a kind exactly where it saved them, then so have the finished
calls. -/
theorem answered_of_ends {e : Engine P ε Item P.Ack} {k : Protocol e} (hk : k.Kept)
    (counts : P.Ack → Prop)
    (hends : ∀ item o past, k.ends item o past → ∀ answer, counts answer →
      (o = .done answer ↔ ∃ data, .wrote data (.ok (.ok answer)) ∈ past))
    (items : List (Checked Item)) (w : ω) (schedule : List Nat) {i : Nat} {o : Outcome ε P.Ack} :
    let s := (start e items w).run b schedule
    s.tasks[i]? = some (.finished o) → ∀ answer, counts answer →
      (o = .done answer ↔ ∃ save ∈ saves s.transcript, save.task = i ∧ save.ack = answer) := by
  intro s hfinished answer hcounts
  have hkeeps : s.Keeps k items := run_keeps hk items w schedule
  rcases hkeeps.tasks i _ hfinished with ⟨item, -, hend⟩ | ⟨x, hitem, ho⟩
  · rw [hends item o _ hend answer hcounts]
    constructor
    · rintro ⟨data, hdata⟩
      exact ⟨⟨i, data, answer⟩, mem_saves.mpr hdata, rfl, rfl⟩
    · rintro ⟨save, hsave, rfl, rfl⟩
      exact ⟨save.data, mem_saves.mp hsave⟩
  · -- a task that could not be begun has made no call
    obtain rfl := Task.finished.inj ho
    refine iff_of_false (by simp) ?_
    rintro ⟨save, hsave, rfl, -⟩
    obtain ⟨item, hbegun⟩ := item_of_mem_saves hkeeps.calls hsave
    rw [hitem] at hbegun
    cases hbegun

/-- No call saves twice, one that has ended answers exactly what it saved, and no step but a save
changes the store. -/
structure SavesOnce {e : Engine P ε Item P.Ack} (b : Backend P ω) (s : System e ω) : Prop where
  once : ((saves s.transcript).map (·.task)).Nodup
  answered : ∀ (i : Nat) o, s.tasks[i]? = some (.finished o) → ∀ answer,
    o = .done answer ↔ ∃ save ∈ saves s.transcript, save.task = i ∧ save.ack = answer
  failed : ∀ (i : Nat) o, s.tasks[i]? = some (.finished o) → (∀ answer, o ≠ .done answer) →
    ∀ save ∈ saves s.transcript, save.task ≠ i
  idle : ∀ i, s.IdlesAt b i ∨ ∃ d ack w, s.SavesAt b i d ack w

theorem savesOnce_of_kept {e : Engine P ε Item P.Ack} {k k' : Protocol e}
    (hidle : ∀ (h : Happening P) w, h.Truthful b w → h.save? = none → h.effect b w = w)
    (hk : k.Kept)
    (hfresh : ∀ item d past, k.may item (.write d) past → ∀ h ∈ past, h.save? = none)
    (hk' : k'.Kept) (hends : ∀ item o past, k'.ends item o past → Answers o past)
    (items : List (Checked Item)) (w : ω) (schedule : List Nat) :
    ((start e items w).run b schedule).SavesOnce b := by
  have hanswered : ∀ (i : Nat) o,
      ((start e items w).run b schedule).tasks[i]? = some (.finished o) →
      ∀ answer, o = .done answer ↔ ∃ save ∈ saves ((start e items w).run b schedule).transcript,
        save.task = i ∧ save.ack = answer :=
    fun i o hfinished answer => answered_of_ends hk' (fun _ => True)
      (fun item o past h answer _ => hends item o past h answer) items w schedule hfinished answer
      trivial
  refine ⟨?_, hanswered, ?_, idlesAt_or_savesAt hidle items w schedule⟩
  · exact saves_nodup_of_fresh hfresh (run_keeps hk items w schedule).calls
  · rintro i o hfinished hfailed save hsave rfl
    exact hfailed _ ((hanswered _ o hfinished save.ack).mpr ⟨save, hsave, rfl, rfl⟩)

theorem exists_finished {body : Item → Program P ε Answer} (b : Backend P ω)
    {s : System (Engine.ofProgram body) ω} {i : Nat} {t : Task (Engine.ofProgram body)}
    (ht : s.tasks[i]? = some t) :
    ∃ n o, (s.run b (List.replicate n i)).tasks[i]? = some (.finished o) := by
  have hnext : ∀ (s : System (Engine.ofProgram body) ω) (t : Task (Engine.ofProgram body)),
      s.tasks[i]? = some t → (s.step b i).tasks[i]? = some (t.step b s.world).2.1 := by
    intro s t ht
    obtain ⟨hlt, -⟩ := List.getElem?_eq_some_iff.mp ht
    rw [step_of_some ht, List.getElem?_set_self hlt]
  -- one more step of the task in front
  have hmore : ∀ s : System (Engine.ofProgram body) ω,
      (∃ n o, ((s.step b i).run b (List.replicate n i)).tasks[i]? = some (.finished o)) →
      ∃ n o, (s.run b (List.replicate n i)).tasks[i]? = some (.finished o) := by
    rintro s ⟨n, o, h⟩
    exact ⟨n + 1, o, h⟩
  cases t with
  | finished o => exact ⟨0, o, ht⟩
  | running rest =>
    induction rest generalizing s with
    | halt o =>
      refine hmore s ⟨0, ?_⟩
      have hstep := hnext s _ ht
      rcases o with (a | rest) | x | x
      · exact ⟨.done a, hstep⟩
      · exact Empty.elim rest
      · exact ⟨.failed x, hstep⟩
      · exact ⟨.broken x, hstep⟩
    | note n rest ih => exact hmore s (ih (hnext s _ ht))
    | fetch input rest ih =>
      have hstep := hnext s _ ht
      rcases hf : b.fetch input s.world with ⟨x | r, w⟩
      · simp only [Task.step, hf] at hstep
        exact hmore s ⟨0, _, hstep⟩
      · simp only [Task.step, hf] at hstep
        exact hmore s (ih r hstep)
    | write d rest ih =>
      have hstep := hnext s _ ht
      rcases hf : b.write d s.world with ⟨x | r, w⟩
      · simp only [Task.step, hf] at hstep
        exact hmore s ⟨0, _, hstep⟩
      · simp only [Task.step, hf] at hstep
        exact hmore s (ih r hstep)
    | consult input rest ih => exact hmore s (ih _ (hnext s _ ht))

end System

end EventMachines
