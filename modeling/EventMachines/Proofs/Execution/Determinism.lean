import EventMachines.Proofs.Execution.Batches

/-!
Stores whose contents say everything. The world of a store may hold more than its contents, such as
a count of its calls; where the replies depend on the contents only, so does every run.

* `Program.run_determined`, `Engine.handle_determined`: runs from equal contents agree, and end with
  equal contents;
* `exists_handles_of_content`: so do batches.
-/

namespace EventMachines

variable {P : Exchange} {ε Item Answer α ω κ : Type}

/-- A store is a function of its contents and the request: its replies, and its contents
afterwards. -/
structure Backend.Determined (b : Backend P ω) (content : ω → κ) : Prop where
  fetch : ∀ i w v, content w = content v →
    (b.fetch i w).1 = (b.fetch i v).1 ∧ content (b.fetch i w).2 = content (b.fetch i v).2
  write : ∀ data w v, content w = content v →
    (b.write data w).1 = (b.write data v).1 ∧ content (b.write data w).2 = content (b.write data v).2
  consult : ∀ i w v, content w = content v → b.consult i w = b.consult i v

/-- The same end, by the same happenings, with the same contents. -/
structure Run.Agrees (content : ω → κ) (r s : Run P ε α ω) : Prop where
  outcome : r.outcome = s.outcome
  transcript : r.transcript = s.transcript
  world : content r.world = content s.world

theorem Run.Agrees.after {content : ω → κ} {r s : Run P ε α ω} (h : r.Agrees content s)
    (happening : Happening P) : (r.after happening).Agrees content (s.after happening) :=
  ⟨h.outcome, congrArg (happening :: ·) h.transcript, h.world⟩

section

variable {b : Backend P ω} {content : ω → κ} (hb : b.Determined content)
include hb

theorem Program.run_determined (p : Program P ε α) {w v : ω} (h : content w = content v) :
    (p.run b w).Agrees content (p.run b v) := by
  induction p generalizing w v with
  | halt o => exact ⟨rfl, rfl, h⟩
  | note n rest ih => exact (ih h).after _
  | fetch i rest ih =>
    obtain ⟨hreply, hafter⟩ := hb.fetch i w v h
    rcases hw : b.fetch i w with ⟨x | r, w'⟩ <;> rcases hv : b.fetch i v with ⟨y | r', v'⟩ <;>
      rw [hw, hv] at hreply hafter <;> cases hreply <;> simp only [run, hw, hv]
    · exact ⟨rfl, rfl, hafter⟩
    · exact (ih r hafter).after _
  | write data rest ih =>
    obtain ⟨hreply, hafter⟩ := hb.write data w v h
    rcases hw : b.write data w with ⟨x | r, w'⟩ <;> rcases hv : b.write data v with ⟨y | r', v'⟩ <;>
      rw [hw, hv] at hreply hafter <;> cases hreply <;> simp only [run, hw, hv]
    · exact ⟨rfl, rfl, hafter⟩
    · exact (ih r hafter).after _
  | consult i rest ih =>
    simp only [run, hb.consult i w v h]
    exact (ih _ h).after _

namespace Engine

variable (e : Engine P ε Item Answer)

/-- Rounds that begin alike end alike, or neither has come to an end. -/
theorem goOn_determined (fuel : Nat) {r s : Run P ε (Progress e.Pending Answer) ω}
    (h : r.Agrees content s) :
    Option.Rel (Run.Agrees content) (e.goOn b fuel r) (e.goOn b fuel s) := by
  induction fuel generalizing r s with
  | zero =>
    rcases r with ⟨(a | rest) | x | x, w, hs⟩ <;> rcases s with ⟨o, v, hs'⟩ <;>
      obtain ⟨rfl, rfl, hworld⟩ := h
    · exact .some ⟨rfl, rfl, hworld⟩
    · exact .none
    · exact .some ⟨rfl, rfl, hworld⟩
    · exact .some ⟨rfl, rfl, hworld⟩
  | succ fuel ih =>
    rcases r with ⟨(a | rest) | x | x, w, hs⟩ <;> rcases s with ⟨o, v, hs'⟩ <;>
      obtain ⟨rfl, rfl, hworld⟩ := h
    · exact .some ⟨rfl, rfl, hworld⟩
    · have hrest := ih ((e.resume rest).run_determined hb hworld)
      simp only [goOn, bind]
      generalize e.goOn b fuel ((e.resume rest).run b w) = p at hrest ⊢
      generalize e.goOn b fuel ((e.resume rest).run b v) = q at hrest ⊢
      cases hrest with
      | none => exact .none
      | some hagrees =>
        exact .some ⟨hagrees.outcome, congrArg (hs ++ ·) hagrees.transcript, hagrees.world⟩
    · exact .some ⟨rfl, rfl, hworld⟩
    · exact .some ⟨rfl, rfl, hworld⟩

theorem handle_determined (fuel : Nat) (item : Item) {w v : ω} (h : content w = content v) :
    Option.Rel (Run.Agrees content) (e.handle b fuel item w) (e.handle b fuel item v) :=
  e.goOn_determined hb fuel ((e.start item).run_determined hb h)

variable {e}

/-- Equal contents are as good as equal worlds. -/
theorem exists_handle_of_content {fuel : Nat} {item : Item} {w v : ω} {r : Run P ε Answer ω}
    (hr : e.handle b fuel item w = some r) (h : content w = content v) :
    ∃ s, e.handle b fuel item v = some s ∧ r.Agrees content s := by
  have hrel := e.handle_determined hb fuel item h
  rw [hr] at hrel
  generalize e.handle b fuel item v = q at hrel ⊢
  cases hrel with
  | some hagrees => exact ⟨_, rfl, hagrees⟩

/-- So they are for a batch. -/
theorem exists_handles_of_content {I R : Type} {e : Engine P (Failure I R) Item Answer} {fuel : Nat}
    {items : List (Except String Item)} {w v w' : ω} {results : List (Except (Failure I R) Answer)}
    (hitems : e.Handles b fuel items w results w') (h : content w = content v) :
    ∃ v', e.Handles b fuel items v results v' ∧ content v' = content w' := by
  induction items generalizing w v results with
  | nil =>
    obtain ⟨rfl, rfl⟩ := handles_nil.mp hitems
    exact ⟨v, handles_nil.mpr ⟨rfl, rfl⟩, h.symm⟩
  | cons item items ih =>
    cases item with
    | error reason =>
      obtain ⟨rest, hrest, rfl⟩ := handles_unreadable.mp hitems
      obtain ⟨v', hafter, hcontent⟩ := ih hrest h
      exact ⟨v', handles_unreadable.mpr ⟨rest, hafter, rfl⟩, hcontent⟩
    | ok item =>
      obtain ⟨r, x, rest, hr, hx, hrest, rfl⟩ := handles_cons.mp hitems
      obtain ⟨s, hs, hagrees⟩ := exists_handle_of_content hb hr h
      obtain ⟨v', hafter, hcontent⟩ := ih hrest hagrees.world
      exact ⟨v', handles_cons.mpr ⟨s, x, rest, hs, hagrees.outcome ▸ hx, hafter, rfl⟩, hcontent⟩

end Engine

end

end EventMachines
