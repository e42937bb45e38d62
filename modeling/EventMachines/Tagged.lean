/-!
Re-association of nested alternatives. The two directions undo each other.
-/

namespace EventMachines.Tagged

variable {α β γ : Type}

def assocLeft : α ⊕ (β ⊕ γ) → (α ⊕ β) ⊕ γ
  | .inl a => .inl (.inl a)
  | .inr (.inl b) => .inl (.inr b)
  | .inr (.inr c) => .inr c

def assocRight : (α ⊕ β) ⊕ γ → α ⊕ (β ⊕ γ)
  | .inl (.inl a) => .inl a
  | .inl (.inr b) => .inr (.inl b)
  | .inr c => .inr (.inr c)

@[simp] theorem assocRight_assocLeft (x : α ⊕ (β ⊕ γ)) : assocRight (assocLeft x) = x := by
  rcases x with a | b | c <;> rfl

@[simp] theorem assocLeft_assocRight (x : (α ⊕ β) ⊕ γ) : assocLeft (assocRight x) = x := by
  rcases x with (a | b) | c <;> rfl

end EventMachines.Tagged
