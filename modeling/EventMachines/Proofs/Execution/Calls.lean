import EventMachines.Engine.Basic
import EventMachines.Execution.Handle

/-!
What a run asks of its store. A transcript also holds the notes of an engine, which no store sees;
`Run.quiet` is a run without them. The statements say that leaving the notes out commutes with
composing programs and with going on to the next round, and that looking for the next command of a
cascade makes no call at all.
-/

namespace EventMachines

variable {P : Exchange} {C R O Item ε α β ω A : Type}

def Happening.isCall : Happening P → Bool
  | .noted _ => false
  | _ => true

/-- The calls made of the store, in their order. -/
def calls (transcript : List (Happening P)) : List (Happening P) :=
  transcript.filter Happening.isCall

@[simp] theorem calls_nil : calls ([] : List (Happening P)) = [] := rfl

@[simp] theorem calls_append (before after : List (Happening P)) :
    calls (before ++ after) = calls before ++ calls after :=
  List.filter_append before after

@[simp] theorem calls_calls (transcript : List (Happening P)) :
    calls (calls transcript) = calls transcript := by
  simp [calls]

namespace Run

def quiet (r : Run P ε α ω) : Run P ε α ω := { r with transcript := calls r.transcript }

@[simp] theorem quiet_mk (o : Outcome ε α) (w : ω) (transcript : List (Happening P)) :
    (⟨o, w, transcript⟩ : Run P ε α ω).quiet = ⟨o, w, calls transcript⟩ := rfl

theorem quiet_andThen (r : Run P ε α ω) (f : α → ω → Run P ε β ω) :
    (r.andThen f).quiet = r.quiet.andThen fun a w => (f a w).quiet := by
  rcases r with ⟨a | e | x, w, transcript⟩
  · simp [quiet, andThen]
  · rfl
  · rfl

@[simp] theorem done_andThen (a : α) (w : ω) (f : α → ω → Run P ε β ω) :
    (⟨.done a, w, []⟩ : Run P ε α ω).andThen f = f a w := by
  simp [andThen]

end Run

/-- Runs a program and adds its calls to those made before. -/
def Program.exec (b : Backend P ω) (p : Program P ε α) (s : ω × List (Happening P)) :
    Outcome ε α × (ω × List (Happening P)) :=
  let r := p.run b s.1
  (r.outcome, (r.world, s.2 ++ calls r.transcript))

theorem Engine.goOn_quiet (e : Engine P ε Item A) (b : Backend P ω) (fuel : Nat)
    (r : Run P ε (Progress e.Pending A) ω) :
    (e.goOn b fuel r).map Run.quiet = (e.goOn b fuel r.quiet).map Run.quiet := by
  rcases r with ⟨(a | rest) | x | x, w, transcript⟩
  · simp
  · cases fuel with
    | zero => rfl
    | succ fuel =>
      simp only [goOn, Run.quiet_mk, bind]
      cases e.goOn b fuel ((e.resume rest).run b w) <;> simp [Run.quiet]
  · simp
  · simp

/-- The run of `advance`, without its notes: it looks at the work list only. -/
theorem Program.quiet_run_advance (b : Backend P ω) (limit : DepthLimit)
    (reaction : O → Checked (List C)) (k : Cascade C O) (w : ω) :
    ((advance limit reaction k : Program P (Failure C R) _).run b w).quiet =
      match k.next reaction with
      | .error x => ⟨.broken x, w, []⟩
      | .ok (.finished outputs) => ⟨.done (.finished outputs), w, []⟩
      | .ok (.command c depth derived rest) =>
        if limit.allows depth then ⟨.done (.command c depth derived rest), w, []⟩
        else ⟨.failed (.depthExceeded c depth), w, []⟩ := by
  rw [advance]
  rcases k.next reaction with x | ⟨outputs⟩ | ⟨c, depth, derived, rest⟩
  · rfl
  · rfl
  · simp only [ofChecked_ok, pure_bind]
    by_cases hderived : derived ≠ 0 <;> by_cases hallowed : limit.allows depth = true
    · rw [if_pos hderived, if_pos hallowed, if_pos hallowed]
      rfl
    · rw [if_pos hderived, if_neg hallowed, if_neg hallowed]
      rfl
    · rw [if_neg hderived, if_pos hallowed, if_pos hallowed]
      rfl
    · rw [if_neg hderived, if_neg hallowed, if_neg hallowed]
      rfl

end EventMachines
