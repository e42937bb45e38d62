import EventMachines.Execution.Concurrent
import EventMachines.Proofs.Execution.Calls

/-!
The transcript of a system as its history. A store answers and changes by the calls made of it, so
the transcript alone tells how the store stood before each of them and what each task knows.

* `run_recorded`: at every time the store is what the transcript makes of the first one, and every
  reply in it is the one the store gave then;
* `exists_of_past`: what a task knows happened at some time;
* `mem_saves`: what was saved, each task knows of itself;
* `run_from`: what every step keeps once it holds, holds from then on;
* `restsAt_or_savesAt`, `idlesAt_or_savesAt`: every step is a save or leaves the store, or the part
  of it that only saves change, as it is;
* `view_eq_of_measure_eq`: a part of the store that changes only while some number goes up has not
  changed where the number has not.
-/

namespace EventMachines

variable {P : Exchange} {ε Item Answer ω α : Type}

namespace Happening

/-- What happened to the store. -/
def effect (b : Backend P ω) : Happening P → ω → ω
  | fetched i _, w => (b.fetch i w).2
  | wrote d _, w => (b.write d w).2
  | noted _, w => w
  | consulted _ _, w => w

/-- The store gave that reply. -/
def Truthful (b : Backend P ω) : Happening P → ω → Prop
  | fetched i reply, w => (b.fetch i w).1 = reply
  | wrote d reply, w => (b.write d w).1 = reply
  | consulted i answer, w => b.consult i w = answer
  | noted _, _ => True

end Happening

/-! ## What the transcript makes of a store -/

section

variable (b : Backend P ω) (w : ω)

/-- The store after what happened, the newest first. -/
def worldAfter : List (Nat × Happening P) → ω
  | [] => w
  | (_, h) :: earlier => h.effect b (worldAfter earlier)

/-- Every reply is the one that the store gave at its time. -/
def Recorded : List (Nat × Happening P) → Prop
  | [] => True
  | (_, h) :: earlier => h.Truthful b (worldAfter b w earlier) ∧ Recorded earlier

variable {b w}

theorem Recorded.of_suffix {transcript earlier : List (Nat × Happening P)}
    (h : Recorded b w transcript) (hsuffix : earlier <:+ transcript) : Recorded b w earlier := by
  induction transcript with
  | nil =>
    rw [List.suffix_nil.mp hsuffix]
    exact trivial
  | cons entry transcript ih =>
    rcases List.suffix_cons_iff.mp hsuffix with rfl | hsuffix
    · exact h
    · exact ih h.2 hsuffix

end

/-- A step makes of the store what its happening does, and its reply is the one the store gives. -/
theorem Task.step_happening (b : Backend P ω) {e : Engine P ε Item Answer} (t : Task e) (w : ω) :
    match (t.step b w).1 with
    | none => (t.step b w).2.2 = w
    | some h => (t.step b w).2.2 = h.effect b w ∧ h.Truthful b w := by
  rcases t with ⟨⟨(a | rest) | x | x⟩ | ⟨n, rest⟩ | ⟨i, rest⟩ | ⟨d, rest⟩ | ⟨i, rest⟩⟩ | o
  · rfl
  · rfl
  · rfl
  · rfl
  · exact ⟨rfl, trivial⟩
  · rcases h : b.fetch i w with ⟨x | r, w'⟩ <;>
      simp [Task.step, Happening.effect, Happening.Truthful, h]
  · rcases h : b.write d w with ⟨x | r, w'⟩ <;>
      simp [Task.step, Happening.effect, Happening.Truthful, h]
  · exact ⟨rfl, rfl⟩
  · rfl

namespace System

variable {e : Engine P ε Item Answer} {b : Backend P ω}

theorem step_of_none {s : System e ω} {i : Nat} (h : s.tasks[i]? = none) : s.step b i = s := by
  rw [step, h]

theorem step_of_some {s : System e ω} {i : Nat} {t : Task e} (h : s.tasks[i]? = some t) :
    s.step b i = ⟨s.tasks.set i (t.step b s.world).2.1, (t.step b s.world).2.2,
      ((t.step b s.world).1.map (i, ·)).toList ++ s.transcript⟩ := by
  rw [step, h]

theorem step_recorded {s : System e ω} {w : ω}
    (h : s.world = worldAfter b w s.transcript ∧ Recorded b w s.transcript) (i : Nat) :
    (s.step b i).world = worldAfter b w (s.step b i).transcript ∧
      Recorded b w (s.step b i).transcript := by
  cases ht : s.tasks[i]? with
  | none =>
    rw [step_of_none ht]
    exact h
  | some t =>
    rw [step_of_some ht]
    have hstep := t.step_happening b s.world
    cases hh : (t.step b s.world).1 with
    | none =>
      rw [hh] at hstep
      exact ⟨hstep.trans h.1, h.2⟩
    | some happening =>
      rw [hh] at hstep
      rw [h.1] at hstep ⊢
      exact ⟨hstep.1, hstep.2, h.2⟩

/-- A step adds at most one happening, and without one the store stays as it is. -/
theorem step_transcript (s : System e ω) (i : Nat) :
    (s.step b i).transcript = s.transcript ∧ (s.step b i).world = s.world ∨
      ∃ h, (s.step b i).transcript = (i, h) :: s.transcript := by
  cases ht : s.tasks[i]? with
  | none =>
    rw [step_of_none ht]
    exact .inl ⟨rfl, rfl⟩
  | some t =>
    rw [step_of_some ht]
    have hstep := t.step_happening b s.world
    cases hh : (t.step b s.world).1 with
    | none =>
      rw [hh] at hstep
      exact .inl ⟨rfl, hstep⟩
    | some h => exact .inr ⟨h, rfl⟩

theorem run_concat (s : System e ω) (schedule : List Nat) (i : Nat) :
    s.run b (schedule ++ [i]) = (s.run b schedule).step b i := by
  rw [run, List.foldl_append]
  rfl

/-- What every step keeps, a run keeps. -/
theorem run_invariant {I : System e ω → Prop} (hstep : ∀ s i, I s → I (s.step b i))
    (schedule : List Nat) {s : System e ω} (h : I s) : I (s.run b schedule) := by
  induction schedule generalizing s with
  | nil => exact h
  | cons i schedule ih => exact ih (hstep s i h)

/-- What every step of a run keeps, once it holds, holds from then on. -/
theorem run_from {I : System e ω → Prop} {first : System e ω}
    (hstep : ∀ schedule i, I (first.run b schedule) → I ((first.run b schedule).step b i))
    (schedule later : List Nat) (h : I (first.run b schedule)) :
    I ((first.run b schedule).run b later) := by
  induction later generalizing schedule with
  | nil => exact h
  | cons i later ih =>
    have hrest := ih (schedule ++ [i])
    rw [run_concat] at hrest
    exact hrest (hstep schedule i h)

/-- **History.** Whatever the order of the steps, the transcript accounts for the store. -/
theorem run_recorded (items : List (Checked Item)) (w : ω) (schedule : List Nat) :
    ((start e items w).run b schedule).world =
        worldAfter b w ((start e items w).run b schedule).transcript ∧
      Recorded b w ((start e items w).run b schedule).transcript :=
  run_invariant (I := fun s => s.world = worldAfter b w s.transcript ∧ Recorded b w s.transcript)
    (fun _ i h => step_recorded h i) schedule ⟨rfl, trivial⟩

end System

/-! ## What a task knows -/

/-- The calls that the `i`-th task made, the newest first. -/
def past (i : Nat) (transcript : List (Nat × Happening P)) : List (Happening P) :=
  calls ((transcript.filter fun entry => entry.1 = i).map (·.2))

@[simp] theorem past_nil (i : Nat) : past i ([] : List (Nat × Happening P)) = [] := rfl

theorem past_cons_ne {i j : Nat} (hne : j ≠ i) (h : Happening P)
    (transcript : List (Nat × Happening P)) :
    past i ((j, h) :: transcript) = past i transcript := by
  simp [past, hne]

theorem past_cons_self (i : Nat) (h : Happening P) (transcript : List (Nat × Happening P)) :
    past i ((i, h) :: transcript) = if h.isCall then h :: past i transcript
      else past i transcript := by
  by_cases hcall : h.isCall = true <;> simp [past, calls, hcall]

theorem past_append (i : Nat) (later earlier : List (Nat × Happening P)) :
    past i (later ++ earlier) = past i later ++ past i earlier := by
  simp [past, calls]

theorem mem_past {i : Nat} {transcript : List (Nat × Happening P)} {h : Happening P} :
    h ∈ past i transcript ↔ (i, h) ∈ transcript ∧ h.isCall = true := by
  simp [past, calls]

/-- The last thing a task learned happened at some time, after all else that it knows. -/
theorem exists_of_past {i : Nat} {transcript : List (Nat × Happening P)} {h : Happening P}
    {before : List (Happening P)} (hpast : past i transcript = h :: before) :
    ∃ earlier, (i, h) :: earlier <:+ transcript ∧ past i earlier = before := by
  induction transcript with
  | nil => simp at hpast
  | cons entry transcript ih =>
    obtain ⟨j, h'⟩ := entry
    have hlater : past i transcript = h :: before →
        ∃ earlier, (i, h) :: earlier <:+ (j, h') :: transcript ∧ past i earlier = before := by
      intro hpast
      obtain ⟨earlier, hsuffix, hbefore⟩ := ih hpast
      exact ⟨earlier, hsuffix.trans (List.suffix_cons _ _), hbefore⟩
    by_cases hj : j = i
    · subst hj
      rw [past_cons_self] at hpast
      by_cases hcall : h'.isCall = true
      · rw [if_pos hcall] at hpast
        obtain ⟨rfl, hbefore⟩ := List.cons.inj hpast
        exact ⟨transcript, List.suffix_rfl, hbefore⟩
      · rw [if_neg hcall] at hpast
        exact hlater hpast
    · rw [past_cons_ne hj] at hpast
      exact hlater hpast

/-! ## Saves -/

/-- What was written and what the store answered, where it accepted a write. -/
def Happening.save? : Happening P → Option (P.Write × P.Ack)
  | wrote d (.ok (.ok ack)) => some (d, ack)
  | _ => none

theorem Happening.save?_eq_some {h : Happening P} {d : P.Write} {ack : P.Ack} :
    h.save? = some (d, ack) ↔ h = .wrote d (.ok (.ok ack)) := by
  rcases h with n | ⟨i, reply⟩ | ⟨d', x | e | ack'⟩ | ⟨i, answer⟩ <;> simp [save?]

/-- A write that the store accepted, and the task that made it. -/
structure Saved (P : Exchange) where
  task : Nat
  data : P.Write
  ack : P.Ack

/-- All that was saved, the oldest first. -/
def saves (transcript : List (Nat × Happening P)) : List (Saved P) :=
  transcript.reverse.filterMap fun entry =>
    entry.2.save?.map fun (d, ack) => ⟨entry.1, d, ack⟩

theorem saves_cons_none {i : Nat} {h : Happening P} (hnone : h.save? = none)
    (earlier : List (Nat × Happening P)) : saves ((i, h) :: earlier) = saves earlier := by
  simp [saves, hnone]

theorem saves_cons_save (i : Nat) (d : P.Write) (ack : P.Ack)
    (earlier : List (Nat × Happening P)) :
    saves ((i, .wrote d (.ok (.ok ack))) :: earlier) = saves earlier ++ [⟨i, d, ack⟩] := by
  simp [saves, Happening.save?]

theorem mem_saves {transcript : List (Nat × Happening P)} {save : Saved P} :
    save ∈ saves transcript ↔
      .wrote save.data (.ok (.ok save.ack)) ∈ past save.task transcript := by
  rw [mem_past]
  constructor
  · intro h
    obtain ⟨⟨i, happening⟩, hmem, hsave⟩ := List.mem_filterMap.mp h
    obtain ⟨⟨d, ack⟩, hsome, rfl⟩ := Option.map_eq_some_iff.mp hsave
    obtain rfl := Happening.save?_eq_some.mp hsome
    exact ⟨List.mem_reverse.mp hmem, rfl⟩
  · rintro ⟨hmem, -⟩
    exact List.mem_filterMap.mpr ⟨_, List.mem_reverse.mpr hmem, rfl⟩

namespace System

variable {e : Engine P ε Item Answer} {b : Backend P ω}

/-- The next step of the task changes and saves nothing. -/
def IdlesAt (b : Backend P ω) (s : System e ω) (i : Nat) : Prop :=
  (s.step b i).world = s.world ∧ saves (s.step b i).transcript = saves s.transcript

/-- The next step of the task is a save, which leads to that world. -/
def SavesAt (b : Backend P ω) (s : System e ω) (i : Nat) (d : P.Write) (ack : P.Ack) (w : ω) :
    Prop :=
  b.write d s.world = (.ok (.ok ack), w) ∧ (s.step b i).world = w ∧
    (s.step b i).transcript = (i, .wrote d (.ok (.ok ack))) :: s.transcript

/-- The next step of the task changes nothing of that part of the store, and saves nothing. -/
def RestsAt (b : Backend P ω) (view : ω → α) (s : System e ω) (i : Nat) : Prop :=
  view (s.step b i).world = view s.world ∧ saves (s.step b i).transcript = saves s.transcript

/-- Where only accepted writes change a part of the store, every step is a save or leaves that part
as it is. -/
theorem restsAt_or_savesAt (view : ω → α)
    (hrests : ∀ (h : Happening P) w, h.Truthful b w → h.save? = none →
      view (h.effect b w) = view w)
    (items : List (Checked Item)) (w : ω) (schedule : List Nat) (i : Nat) :
    let s := (start e items w).run b schedule
    s.RestsAt b view i ∨ ∃ d ack w', s.SavesAt b i d ack w' := by
  intro s
  obtain ⟨hworld, -⟩ := run_recorded (e := e) (b := b) items w schedule
  have hnext := run_recorded (e := e) (b := b) items w (schedule ++ [i])
  rw [run_concat] at hnext
  rcases s.step_transcript (b := b) i with ⟨htranscript, hsame⟩ | ⟨h, htranscript⟩
  · exact .inl ⟨congrArg view hsame, by rw [htranscript]⟩
  · obtain ⟨hafter, hrecorded⟩ := hnext
    rw [htranscript] at hafter hrecorded
    obtain ⟨htruthful, -⟩ := hrecorded
    rw [worldAfter, ← hworld] at hafter
    rw [← hworld] at htruthful
    rcases hsave : h.save? with _ | ⟨d, ack⟩
    · refine .inl ⟨(congrArg view hafter).trans (hrests h _ htruthful hsave), ?_⟩
      rw [htranscript, saves_cons_none hsave]
    · obtain rfl := Happening.save?_eq_some.mp hsave
      exact .inr ⟨d, ack, _, Prod.ext htruthful rfl, hafter, htranscript⟩

/-- Where only accepted writes change a store, every step is a save or changes nothing. -/
theorem idlesAt_or_savesAt
    (hidle : ∀ (h : Happening P) w, h.Truthful b w → h.save? = none → h.effect b w = w)
    (items : List (Checked Item)) (w : ω) (schedule : List Nat) (i : Nat) :
    let s := (start e items w).run b schedule
    s.IdlesAt b i ∨ ∃ d ack w', s.SavesAt b i d ack w' :=
  restsAt_or_savesAt id hidle items w schedule i

end System

/-! ## Parts of the store that only move forward -/

section

variable {b : Backend P ω} {w : ω} {view : ω → α} {measure : α → Nat}

/-- The part of the store changes only while its measure goes up. -/
def Backend.Advances (b : Backend P ω) (view : ω → α) (measure : α → Nat) : Prop :=
  ∀ h w, view (Happening.effect b h w) = view w ∨
    measure (view w) < measure (view (Happening.effect b h w))

theorem view_eq_or_lt (hadvances : b.Advances view measure)
    {earlier later : List (Nat × Happening P)} (hsuffix : earlier <:+ later) :
    view (worldAfter b w later) = view (worldAfter b w earlier) ∨
      measure (view (worldAfter b w earlier)) < measure (view (worldAfter b w later)) := by
  induction later with
  | nil =>
    rw [List.suffix_nil.mp hsuffix]
    exact .inl rfl
  | cons entry later ih =>
    rcases List.suffix_cons_iff.mp hsuffix with rfl | hsuffix
    · exact .inl rfl
    · rcases hadvances entry.2 (worldAfter b w later) with hstep | hstep <;>
        rcases ih hsuffix with hearlier | hearlier
      · exact .inl (hstep.trans hearlier)
      · exact .inr (by rwa [worldAfter, hstep])
      · exact .inr (by rwa [worldAfter, ← hearlier])
      · exact .inr (Nat.lt_trans hearlier hstep)

theorem view_eq_of_measure_eq (hadvances : b.Advances view measure)
    {earlier later : List (Nat × Happening P)} (hsuffix : earlier <:+ later)
    (hmeasure : measure (view (worldAfter b w earlier)) = measure (view (worldAfter b w later))) :
    view (worldAfter b w earlier) = view (worldAfter b w later) := by
  rcases view_eq_or_lt (w := w) hadvances hsuffix with h | h
  · exact h.symm
  · omega

/-- Between two times with the same measure nothing has changed. -/
theorem view_eq_between (hadvances : b.Advances view measure)
    {first middle last : List (Nat × Happening P)} (hfirst : first <:+ middle)
    (hlast : middle <:+ last)
    (hmeasure : measure (view (worldAfter b w first)) = measure (view (worldAfter b w last))) :
    view (worldAfter b w middle) = view (worldAfter b w last) := by
  rcases view_eq_or_lt (w := w) hadvances hfirst with h | h
  · exact h.trans (view_eq_of_measure_eq hadvances (hfirst.trans hlast) hmeasure)
  · rcases view_eq_or_lt (w := w) hadvances hlast with h' | h'
    · exact h'.symm
    · omega

end

end EventMachines
