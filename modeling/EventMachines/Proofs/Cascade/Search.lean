import EventMachines.Cascade

/-!
The search for the next command of a work list, and the reactions it takes on its way. The search
does not look at what taking a reaction is, so it is a search in any monad, and in one that writes
down every reaction it leaves a record of them. Nor does it look at what commands and outputs are.

* `pullIn_checked`: in the monad of checked answers it is the search that runs;
* `recorded_of_searches`: in the monad with a record it comes to the same, and writes down one
  reaction after the other;
* `searches_of_next`: all that a search can do, frame by frame; other statements are read off it;
* `Searches.produced_left`, `Searches.takenFrom`: the outputs it reacts to, and the frame it takes
  the command from;
* `next_renamed`, `asked_renamed`: a search under other names.
-/

namespace EventMachines

variable {C D O Q : Type}

namespace Cascade

/-! ## Searches in any monad -/

section

variable {m : Type → Type} [Monad m] (ask : O → m (List C))

/-- `react`, where a reaction is taken in any monad. -/
def reactIn : List O → List O → m (List O × Option (C × List C × List O))
  | [], reacted => pure (reacted, none)
  | o :: waiting, reacted => do
    match ← ask o with
    | [] => reactIn waiting (o :: reacted)
    | c :: commands => return (o :: reacted, some (c, commands, waiting))

/-- `pull`, where reactions are taken in any monad. -/
def pullIn : List (Frame C O) → List O → m (Next C O)
  | [], reacted => return .finished reacted.reverse
  | .commands [] _ :: stack, reacted => pullIn stack reacted
  | .commands (c :: waiting) depth :: stack, reacted =>
    return .command c depth 0 ⟨.commands waiting depth :: stack, reacted⟩
  | .outputs waiting depth :: stack, reacted => do
    match ← reactIn ask waiting reacted with
    | (reacted, none) => pullIn stack reacted
    | (reacted, some (c, commands, waiting)) =>
      return .command c (depth + 1) (commands.length + 1)
        ⟨.commands commands (depth + 1) :: .outputs waiting depth :: stack, reacted⟩

/-- Output by output. -/
theorem pullIn_outputs_cons [LawfulMonad m] (o : O) (waiting : List O) (depth : Nat)
    (stack : List (Frame C O)) (reacted : List O) :
    pullIn ask (.outputs (o :: waiting) depth :: stack) reacted = (do
      match ← ask o with
      | [] => pullIn ask (.outputs waiting depth :: stack) (o :: reacted)
      | c :: commands =>
        return .command c (depth + 1) (commands.length + 1)
          ⟨.commands commands (depth + 1) :: .outputs waiting depth :: stack, o :: reacted⟩) := by
  rw [pullIn, reactIn, bind_assoc]
  refine congrArg (ask o >>= ·) (funext fun caused => ?_)
  cases caused with
  | nil => rfl
  | cons c commands => exact pure_bind _ _

end

variable (reaction : O → Checked (List C))

theorem reactIn_checked (waiting reacted : List O) :
    reactIn reaction waiting reacted = react reaction waiting reacted := by
  induction waiting generalizing reacted with
  | nil => rfl
  | cons o waiting ih =>
    rw [reactIn, react]
    refine congrArg (reaction o >>= ·) (funext fun caused => ?_)
    cases caused with
    | nil => exact ih (o :: reacted)
    | cons c commands => rfl

theorem pullIn_checked (stack : List (Frame C O)) (reacted : List O) :
    pullIn reaction stack reacted = pull reaction stack reacted := by
  induction stack generalizing reacted with
  | nil => rfl
  | cons frame stack ih =>
    rcases frame with ⟨_ | ⟨c, waiting⟩, depth⟩ | ⟨waiting, depth⟩
    · exact ih reacted
    · rfl
    · rw [pullIn, pull, reactIn_checked]
      refine congrArg (react reaction waiting reacted >>= ·) (funext fun ⟨now, found⟩ => ?_)
      cases found with
      | none => exact ih now
      | some found => rfl

/-! ## Reactions on the way -/

/-- Takes the reaction and writes down the output it was taken of, and its answer. -/
def recording (o : O) : StateT (List (O × List C)) Checked (List C) := fun record => do
  let commands ← reaction o
  return (commands, record ++ [(o, commands)])

/-- The reactions that the search for the next command takes, in their order. A search that breaks
off leaves none. -/
def asked (k : Cascade C O) (reaction : O → Checked (List C)) : List (O × List C) :=
  match pullIn (recording reaction) k.stack k.reacted [] with
  | .error _ => []
  | .ok (_, record) => record

/-- All that a search can do with the innermost frame: it drops the frame if nothing is left in it,
takes its first command, or reacts to its first output. -/
inductive Searches (reaction : O → Checked (List C)) :
    List (Frame C O) → List O → List (O × List C) → Next C O → Prop
  | finished {reacted : List O} : Searches reaction [] reacted [] (.finished reacted.reverse)
  | noCommand {stack : List (Frame C O)} {reacted : List O} {record : List (O × List C)}
      {next : Next C O} {depth : Nat} (further : Searches reaction stack reacted record next) :
      Searches reaction (.commands [] depth :: stack) reacted record next
  | noOutput {stack : List (Frame C O)} {reacted : List O} {record : List (O × List C)}
      {next : Next C O} {depth : Nat} (further : Searches reaction stack reacted record next) :
      Searches reaction (.outputs [] depth :: stack) reacted record next
  | waited {stack : List (Frame C O)} {reacted : List O} {c : C} {waiting : List C} {depth : Nat} :
      Searches reaction (.commands (c :: waiting) depth :: stack) reacted []
        (.command c depth 0 ⟨.commands waiting depth :: stack, reacted⟩)
  | silent {stack : List (Frame C O)} {reacted : List O} {record : List (O × List C)}
      {next : Next C O} {o : O} {waiting : List O} {depth : Nat} (answer : reaction o = .ok [])
      (further : Searches reaction (.outputs waiting depth :: stack) (o :: reacted) record next) :
      Searches reaction (.outputs (o :: waiting) depth :: stack) reacted ((o, []) :: record) next
  | caused {stack : List (Frame C O)} {reacted : List O} {o : O} {waiting : List O} {depth : Nat}
      {c : C} {commands : List C} (answer : reaction o = .ok (c :: commands)) :
      Searches reaction (.outputs (o :: waiting) depth :: stack) reacted [(o, c :: commands)]
        (.command c (depth + 1) (commands.length + 1)
          ⟨.commands commands (depth + 1) :: .outputs waiting depth :: stack, o :: reacted⟩)

variable {reaction} {stack : List (Frame C O)} {reacted : List O} {record : List (O × List C)}
  {next : Next C O}

theorem exists_searches (h : pull reaction stack reacted = .ok next) :
    ∃ record, Searches reaction stack reacted record next := by
  rw [← pullIn_checked] at h
  induction stack generalizing reacted with
  | nil =>
    cases h
    exact ⟨_, .finished⟩
  | cons frame stack ih =>
    rcases frame with ⟨_ | ⟨c, waiting⟩, depth⟩ | ⟨waiting, depth⟩
    · obtain ⟨record, hfurther⟩ := ih h
      exact ⟨record, .noCommand hfurther⟩
    · cases h
      exact ⟨_, .waited⟩
    -- The frames below have their turn only where no output of this one causes a command.
    · induction waiting generalizing reacted with
      | nil =>
        obtain ⟨record, hfurther⟩ := ih h
        exact ⟨record, .noOutput hfurther⟩
      | cons o waiting ihOutputs =>
        rw [pullIn_outputs_cons] at h
        obtain ⟨caused, hcaused, h⟩ := Checked.bind_eq_ok.mp h
        cases caused with
        | nil =>
          obtain ⟨record, hfurther⟩ := ihOutputs h
          exact ⟨_, .silent hcaused hfurther⟩
        | cons c commands =>
          cases h
          exact ⟨_, .caused hcaused⟩

/-- **The record.** A search writes down the reactions that it takes, behind those that stand in the
record already. -/
theorem recorded_of_searches (h : Searches reaction stack reacted record next)
    (before : List (O × List C)) :
    pullIn (recording reaction) stack reacted before = .ok (next, before ++ record) := by
  induction h generalizing before with
  | finished => rw [List.append_nil]; rfl
  | noCommand _ ih => exact ih before
  | noOutput _ ih => exact ih before
  | waited => rw [List.append_nil]; rfl
  | silent answer _ ih =>
    rw [pullIn_outputs_cons]
    simp only [recording, answer, bind, StateT.bind, Except.bind, pure, Except.pure]
    rw [ih, List.append_assoc]
    rfl
  | caused answer =>
    rw [pullIn_outputs_cons]
    simp only [recording, answer, bind, StateT.bind, Except.bind, pure, Except.pure]
    rfl

theorem asked_of_searches {k : Cascade C O} (h : Searches reaction k.stack k.reacted record next) :
    k.asked reaction = record := by
  rw [asked, recorded_of_searches h]
  rfl

theorem searches_of_next {k : Cascade C O} (h : k.next reaction = .ok next) :
    Searches reaction k.stack k.reacted (k.asked reaction) next := by
  obtain ⟨record, hsearches⟩ := exists_searches h
  rw [asked_of_searches hsearches]
  exact hsearches

/-- The record tells what the outputs caused. -/
theorem Searches.answers (h : Searches reaction stack reacted record next) :
    ∀ q ∈ record, reaction q.1 = .ok q.2 := by
  induction h with
  | finished => exact List.forall_mem_nil _
  | noCommand _ ih => exact ih
  | noOutput _ ih => exact ih
  | waited => exact List.forall_mem_nil _
  | silent answer _ ih => exact List.forall_mem_cons.mpr ⟨answer, ih⟩
  | caused answer => exact List.forall_mem_singleton.mpr answer

/-! ## What a search leaves -/

/-- The work list that a search leaves. -/
def Next.left : Next C O → Cascade C O
  | finished outputs => ⟨[], outputs.reverse⟩
  | command _ _ _ rest => rest

/-- The outputs of the record, in its order, are those that have been reacted to in the search. -/
theorem Searches.produced_left (h : Searches reaction stack reacted record next) :
    next.left.produced = reacted.reverse ++ record.map Prod.fst := by
  induction h with
  | finished => simp [Next.left, produced]
  | noCommand _ ih => exact ih
  | noOutput _ ih => exact ih
  | waited => simp [Next.left, produced]
  | silent _ _ ih => simpa using ih
  | caused _ => simp [Next.left, produced]

/-- Where a search has taken a command from, and which frames it leaves: a frame of commands stood
in the stack with the command in front, or the output that was reacted to last caused it, and so the
frame was put on that of the output. -/
inductive TakenFrom (stack : List (Frame C O)) (record : List (O × List C)) (c : C) :
    Nat → List (Frame C O) → Prop
  | waited {waiting : List C} {depth : Nat} {below : List (Frame C O)}
      (stood : .commands (c :: waiting) depth :: below <:+ stack) :
      TakenFrom stack record c depth (.commands waiting depth :: below)
  | caused {o : O} {commands : List C} {depth : Nat} {earlier later : List O}
      {before : List (O × List C)} {below : List (Frame C O)}
      (stood : .outputs (earlier ++ o :: later) depth :: below <:+ stack)
      (last : record = before ++ [(o, c :: commands)]) :
      TakenFrom stack record c (depth + 1)
        (.commands commands (depth + 1) :: .outputs later depth :: below)

namespace TakenFrom

variable {c : C} {depth : Nat} {rest : List (Frame C O)}

theorem of_cons (h : TakenFrom stack record c depth rest) (frame : Frame C O) :
    TakenFrom (frame :: stack) record c depth rest := by
  cases h with
  | waited stood => exact .waited (stood.trans (List.suffix_cons frame stack))
  | caused stood last => exact .caused (stood.trans (List.suffix_cons frame stack)) last

/-- An output more, which caused nothing. -/
theorem of_silent {o : O} {waiting : List O} {level : Nat}
    (h : TakenFrom (.outputs waiting level :: stack) record c depth rest) :
    TakenFrom (.outputs (o :: waiting) level :: stack) ((o, []) :: record) c depth rest := by
  cases h with
  | waited stood =>
    have hbelow := (List.suffix_cons_iff.mp stood).resolve_left (by simp)
    exact .waited (hbelow.trans (List.suffix_cons _ _))
  | @caused o' commands depth earlier later before below stood last =>
    have hlast : (o, []) :: record = ((o, []) :: before) ++ [(o', c :: commands)] :=
      congrArg ((o, []) :: ·) last
    rcases List.suffix_cons_iff.mp stood with hhere | hbelow
    · cases hhere
      exact .caused (List.suffix_refl (.outputs ((o :: earlier) ++ o' :: later) level :: stack))
        hlast
    · exact .caused (hbelow.trans (List.suffix_cons _ _)) hlast

end TakenFrom

theorem Searches.takenFrom {c : C} {depth derived : Nat} {rest : Cascade C O}
    (h : Searches reaction stack reacted record (.command c depth derived rest)) :
    TakenFrom stack record c depth rest.stack := by
  generalize hnext : Next.command c depth derived rest = next at h
  induction h with
  | finished => cases hnext
  | noCommand _ ih => exact (ih hnext).of_cons _
  | noOutput _ ih => exact (ih hnext).of_cons _
  | waited =>
    cases hnext
    exact .waited (List.suffix_refl _)
  | silent _ _ ih => exact (ih hnext).of_silent
  | @caused stack _ o waiting level _ commands _ =>
    cases hnext
    exact .caused (List.suffix_refl (.outputs ([] ++ o :: waiting) level :: stack))
      (List.nil_append _).symm

end Cascade

/-! ## Other names -/

def Frame.rename (f : C → D) (g : O → Q) : Frame C O → Frame D Q
  | commands waiting depth => commands (waiting.map f) depth
  | outputs waiting depth => outputs (waiting.map g) depth

namespace Cascade

def rename (f : C → D) (g : O → Q) (k : Cascade C O) : Cascade D Q :=
  ⟨k.stack.map (.rename f g), k.reacted.map g⟩

def Next.rename (f : C → D) (g : O → Q) : Next C O → Next D Q
  | finished outputs => finished (outputs.map g)
  | command c depth derived rest => command (f c) depth derived (rest.rename f g)

theorem push_renamed (f : C → D) (g : O → Q) (k : Cascade C O) (outputs : List O) (depth : Nat) :
    (k.rename f g).push (outputs.map g) depth = (k.push outputs depth).rename f g := by
  cases outputs <;> rfl

section

variable {f : C → D} {g : O → Q} {reaction : O → Checked (List C)}
  {reaction' : Q → Checked (List D)} (h : ∀ o, reaction' (g o) = List.map f <$> reaction o)
include h

theorem react_renamed (waiting reacted : List O) :
    react reaction' (waiting.map g) (reacted.map g) =
      Prod.map (List.map g) (Option.map (Prod.map f (Prod.map (List.map f) (List.map g)))) <$>
        react reaction waiting reacted := by
  induction waiting generalizing reacted with
  | nil => rfl
  | cons o waiting ih =>
    rw [List.map_cons, react, react, h]
    rcases reaction o with x | _ | ⟨c, commands⟩
    · rfl
    · exact ih (o :: reacted)
    · rfl

theorem pull_renamed (stack : List (Frame C O)) (reacted : List O) :
    pull reaction' (stack.map (.rename f g)) (reacted.map g) =
      Next.rename f g <$> pull reaction stack reacted := by
  induction stack generalizing reacted with
  | nil => exact congrArg (Except.ok ∘ Next.finished) List.map_reverse.symm
  | cons frame stack ih =>
    rcases frame with ⟨_ | ⟨c, waiting⟩, depth⟩ | ⟨waiting, depth⟩
    · exact ih reacted
    · rfl
    · rw [List.map_cons, Frame.rename, pull, pull, react_renamed h]
      rcases react reaction waiting reacted with x | ⟨now, _ | ⟨c, commands, later⟩⟩
      · rfl
      · exact ih now
      · simp [Functor.map, Except.map, bind, Except.bind, pure, Except.pure, Next.rename, rename,
          Frame.rename]

theorem next_renamed (k : Cascade C O) :
    (k.rename f g).next reaction' = Next.rename f g <$> k.next reaction :=
  pull_renamed h k.stack k.reacted

theorem Searches.renamed {stack : List (Frame C O)} {reacted : List O}
    {record : List (O × List C)} {next : Next C O}
    (hsearches : Searches reaction stack reacted record next) :
    Searches reaction' (stack.map (.rename f g)) (reacted.map g)
      (record.map (Prod.map g (List.map f))) (next.rename f g) := by
  induction hsearches with
  | finished =>
    rw [Next.rename, List.map_reverse]
    exact .finished
  | noCommand _ ih => exact .noCommand ih
  | noOutput _ ih => exact .noOutput ih
  | waited => exact .waited
  | @silent _ _ _ _ o _ _ answer _ ih =>
    have hanswer : reaction' (g o) = .ok [] := by
      rw [h, answer]
      rfl
    exact .silent hanswer ih
  | @caused _ _ o _ depth c commands answer =>
    have hanswer : reaction' (g o) = .ok (f c :: commands.map f) := by
      rw [h, answer]
      rfl
    -- The search tells the number of new commands, which other names do not change.
    have hlength : (commands.map f).length = commands.length := List.length_map f
    show Searches _ _ _ _ (.command (f c) (depth + 1) (commands.length + 1) _)
    rw [← hlength]
    exact .caused hanswer

/-- Under other names a search takes the same reactions. -/
theorem asked_renamed {k : Cascade C O} {next : Next C O} (hnext : k.next reaction = .ok next) :
    (k.rename f g).asked reaction' = (k.asked reaction).map (Prod.map g (List.map f)) :=
  asked_of_searches ((searches_of_next hnext).renamed h)

end

end Cascade

end EventMachines
