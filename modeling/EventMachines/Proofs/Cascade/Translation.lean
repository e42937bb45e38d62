import EventMachines.Proofs.Cascade.Exploration
import EventMachines.Proofs.Cascade.Search
import EventMachines.Proofs.Execution.Marked

/-!
Cascades with translated outputs. A cascade whose reactions see only a part of its outputs, such as
events without their versions, works its list off just as one that has only that part.

* `next_translated`, `push_translated`: one round of the work list;
* `drive_translated`: loops whose executions answer alike come to the same, unless one of them loses
  its store on the way.
-/

namespace EventMachines

variable {C O D R ω υ : Type}

/-! ## The work list -/

def Frame.translate (f : O → D) : Frame C O → Frame C D
  | commands waiting depth => commands waiting depth
  | outputs waiting depth => outputs (waiting.map f) depth

namespace Cascade

def translate (f : O → D) (k : Cascade C O) : Cascade C D :=
  ⟨k.stack.map (.translate f), k.reacted.map f⟩

def Next.translate (f : O → D) : Next C O → Next C D
  | finished outputs => finished (outputs.map f)
  | command c depth derived rest => command c depth derived (rest.translate f)

variable (f : O → D) (reaction : D → Checked (List C))

theorem frame_translate_eq : (Frame.translate f : Frame C O → Frame C D) = .rename id f := by
  funext frame
  cases frame <;> simp [Frame.translate, Frame.rename]

theorem next_translate_eq : (Next.translate f : Next C O → Next C D) = .rename id f := by
  funext next
  cases next with
  | finished outputs => rfl
  | command c depth derived rest =>
    rw [Next.translate, Next.rename, translate, rename, frame_translate_eq]
    rfl

theorem pull_translated (stack : List (Frame C O)) (reacted : List O) :
    pull reaction (stack.map (.translate f)) (reacted.map f) =
      Next.translate f <$> pull (fun o => reaction (f o)) stack reacted := by
  rw [frame_translate_eq, next_translate_eq]
  refine pull_renamed (fun o => ?_) stack reacted
  rw [List.map_id_fun, id_map]

theorem next_translated (k : Cascade C O) :
    (k.translate f).next reaction = Next.translate f <$> k.next (fun o => reaction (f o)) :=
  pull_translated f reaction k.stack k.reacted

theorem push_translated (k : Cascade C O) (outputs : List O) (depth : Nat) :
    (k.translate f).push (outputs.map f) depth = (k.push outputs depth).translate f := by
  cases outputs <;> rfl

/-! ## The loop -/

open Trip

/-- What two loops came to: the same but for the translation, and related worlds. -/
structure Translated (f : O → D) (related : ω → υ → Prop) (j : Journey C D R ω)
    (i : Journey C O R υ) : Prop where
  outcome : i.outcome.map (List.map f) = j.outcome
  world : related j.world i.world
  unconflicted : j.outcome.Unconflicted

theorem Translated.after {f : O → D} {related : ω → υ → Prop} {j : Journey C D R ω}
    {i : Journey C O R υ} (h : Translated f related j i) (visits : List (Visit C D R))
    (visits' : List (Visit C O R)) :
    Translated f related (j.after [] visits) (i.after [] visits') := by
  obtain ⟨houtcome, hworld, hunconflicted⟩ := h
  rcases j with ⟨o, w, vs⟩
  rcases i with ⟨o', v, vs'⟩
  cases houtcome
  cases o' <;> exact ⟨rfl, hworld, hunconflicted⟩

/-- **Related worlds.** Executions that answer alike in related worlds, and keep them related, make
the loops come to the same; unless an execution breaks off in a world that is lost. -/
theorem drive_translated (limit : DepthLimit) {related : ω → υ → Prop} {lost : ω → Prop}
    {lost' : υ → Prop} {exec : C → Nat → ω → Outcome (Failure C R) (List D) × ω}
    {exec' : C → Nat → υ → Outcome (Failure C R) (List O) × υ}
    (hexec : ∀ c depth w v, related w v →
      (∃ x w', exec c depth w = (.broken x, w') ∧ lost w') ∨
      (∃ x v', exec' c depth v = (.broken x, v') ∧ lost' v') ∨
      ((exec' c depth v).1.map (List.map f) = (exec c depth w).1 ∧
        (exec c depth w).1.Unconflicted ∧ related (exec c depth w).2 (exec' c depth v).2))
    (fuel : Nat) (k : Cascade C O) {w : ω} {v : υ} (h : related w v) :
    (∃ j, drive limit reaction exec fuel (k.translate f) w = some j ∧ lost j.world) ∨
    (∃ i, drive limit (fun o => reaction (f o)) exec' fuel k v = some i ∧ lost' i.world) ∨
    Option.Rel (Translated f related) (drive limit reaction exec fuel (k.translate f) w)
      (drive limit (fun o => reaction (f o)) exec' fuel k v) := by
  induction fuel generalizing k w v with
  | zero => exact .inr (.inr .none)
  | succ fuel ih =>
    have hboth := next_translated f reaction k
    rcases hnext : k.next (fun o => reaction (f o)) with
      x | ⟨outputs⟩ | ⟨c, depth, derived, rest⟩ <;> rw [hnext] at hboth
    · rw [drive, drive, hboth, hnext]
      exact .inr (.inr (.some ⟨rfl, h, Outcome.unconflicted_broken x⟩))
    · rw [drive, drive, hboth, hnext]
      exact .inr (.inr (.some ⟨rfl, h, Outcome.unconflicted_done _⟩))
    · by_cases hallowed : limit.allows depth = true
      · rw [drive_allowed limit reaction exec fuel hboth hallowed,
          drive_allowed limit _ exec' fuel hnext hallowed]
        rcases hexec c depth w v h with ⟨x, w', he, hlost⟩ | ⟨x, v', he, hlost⟩ |
          ⟨hsame, hunconflicted, hrelated⟩
        · exact .inl ⟨_, execute_broken _ he, hlost⟩
        · exact .inr (.inl ⟨_, execute_broken _ he, hlost⟩)
        · rcases he : exec c depth w with ⟨o, w'⟩
          rcases he' : exec' c depth v with ⟨o', v'⟩
          rw [he, he'] at hsame hrelated
          rw [he] at hunconflicted
          simp only at hsame hrelated hunconflicted
          subst hsame
          rcases o' with outputs | e | x
          · rw [execute_done _ he, execute_done _ he']
            rw [push_translated]
            rcases ih (rest.push outputs depth) hrelated with
              ⟨j, hj, hlost⟩ | ⟨i, hi, hlost⟩ | hrest
            · exact .inl ⟨_, Option.map_eq_some_iff.mpr ⟨j, hj, rfl⟩, hlost⟩
            · exact .inr (.inl ⟨_, Option.map_eq_some_iff.mpr ⟨i, hi, rfl⟩, hlost⟩)
            · generalize drive limit reaction exec fuel _ w' = p at hrest ⊢
              generalize drive limit _ exec' fuel _ v' = q at hrest ⊢
              cases hrest with
              | none => exact .inr (.inr .none)
              | some hj => exact .inr (.inr (.some (hj.after _ _)))
          · rw [execute_failed _ he, execute_failed _ he']
            exact .inr (.inr (.some ⟨rfl, hrelated, hunconflicted⟩))
          · rw [execute_broken _ he, execute_broken _ he']
            exact .inr (.inr (.some ⟨rfl, hrelated, hunconflicted⟩))
      · rw [drive_tooDeep limit reaction exec fuel hboth hallowed,
          drive_tooDeep limit _ exec' fuel hnext hallowed]
        refine .inr (.inr (.some ⟨rfl, h, ?_⟩))
        rintro _ ⟨⟩
        exact ⟨rfl, rfl⟩

end Cascade

end EventMachines
