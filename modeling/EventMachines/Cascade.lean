import EventMachines.Fault

/-!
The work list of an orchestration. A command has outputs, each output may cause further commands,
and these are worked off depth first: the commands an output causes come before the next output. The
statement says that no limit refuses the first command.
-/

namespace EventMachines

/-- Commands still to run, or outputs still to react to; both stand at a depth, the number of
reactions between them and the command that started the cascade. -/
inductive Frame (C O : Type) where
  | commands (waiting : List C) (depth : Nat)
  | outputs (waiting : List O) (depth : Nat)

/-- The innermost frame comes first, and so does the newest of the outputs already reacted to. -/
structure Cascade (C O : Type) where
  stack : List (Frame C O)
  reacted : List O

namespace Cascade

variable {C O : Type}

def start (c : C) : Cascade C O := ⟨[.commands [c] 0], []⟩

/-- The outputs reacted to, in the order of the reactions. -/
def produced (k : Cascade C O) : List O := k.reacted.reverse

/-- Queues the outputs of a command that ran at the given depth. -/
def push (k : Cascade C O) (outputs : List O) (depth : Nat) : Cascade C O :=
  if outputs.isEmpty then k else { k with stack := .outputs outputs depth :: k.stack }

/-- What to do next. `derived` is the number of commands the last reaction caused, zero where the
command waited already. -/
inductive Next (C O : Type) where
  | finished (outputs : List O)
  | command (c : C) (depth derived : Nat) (rest : Cascade C O)

/-- Reacts to outputs until one causes a command. -/
def react (reaction : O → Checked (List C)) :
    List O → List O → Checked (List O × Option (C × List C × List O))
  | [], reacted => .ok (reacted, none)
  | o :: waiting, reacted => do
    match ← reaction o with
    | [] => react reaction waiting (o :: reacted)
    | c :: commands => return (o :: reacted, some (c, commands, waiting))

/-- Works on the innermost frame and drops it when nothing is left of it. -/
def pull (reaction : O → Checked (List C)) : List (Frame C O) → List O → Checked (Next C O)
  | [], reacted => .ok (.finished reacted.reverse)
  | .commands [] _ :: stack, reacted => pull reaction stack reacted
  | .commands (c :: waiting) depth :: stack, reacted =>
    .ok (.command c depth 0 ⟨.commands waiting depth :: stack, reacted⟩)
  | .outputs waiting depth :: stack, reacted => do
    match ← react reaction waiting reacted with
    | (reacted, none) => pull reaction stack reacted
    | (reacted, some (c, commands, waiting)) =>
      return .command c (depth + 1) (commands.length + 1)
        ⟨.commands commands (depth + 1) :: .outputs waiting depth :: stack, reacted⟩

def next (k : Cascade C O) (reaction : O → Checked (List C)) : Checked (Next C O) :=
  pull reaction k.stack k.reacted

end Cascade

/-- How deep a cascade may go; without a maximum, to any depth. -/
structure DepthLimit where
  max? : Option Nat
  deriving DecidableEq

namespace DepthLimit

def unlimited : DepthLimit := ⟨none⟩

/-- The last maximum that is set counts. -/
def upTo (limit : DepthLimit) (n : Nat) : DepthLimit := { limit with max? := some n }

def allows (limit : DepthLimit) (depth : Nat) : Bool :=
  match limit.max? with
  | none => true
  | some max => depth ≤ max

theorem allows_zero (limit : DepthLimit) : limit.allows 0 = true := by
  rcases limit with ⟨_ | max⟩
  · rfl
  · exact decide_eq_true (Nat.zero_le max)

end DepthLimit

end EventMachines
