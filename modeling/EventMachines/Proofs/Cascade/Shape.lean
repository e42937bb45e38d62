import EventMachines.Proofs.Cascade.Lineage
import EventMachines.Proofs.Cascade.Steps
import EventMachines.Sample.Countdown

/-!
The shape of a work list. Whatever was put out and however it was reacted to, the frames of the
stack alternate, one of commands and one of outputs at each depth; what was put out has been reacted
to or waits; and a command lies as deep as the reactions that led to it are many.

* `Searches.alternates`, `alternates_push`: the stack in one round;
* `After.held_perm`, `After.asked_outputs`: the outputs, and the reactions taken of them;
* `Follows.after`: the loop over a work list works in such rounds;
* `work_list_in_shape`: all of it, after any number of rounds.
-/

namespace EventMachines

variable {C O R : Type}

/-! ## Alternation -/

/-- The kind of a frame and its depth. -/
inductive Place where
  | commands (depth : Nat)
  | outputs (depth : Nat)
  deriving DecidableEq

namespace Place

/-- Outputs stand on the commands of their depth, and deeper commands on the outputs. -/
def next : Place → Place
  | commands depth => outputs depth
  | outputs depth => commands (depth + 1)

/-- Commands and outputs at depth nought, commands and outputs at depth one, and so on. -/
def nth : Nat → Place
  | 0 => commands 0
  | n + 1 => (nth n).next

end Place

def Frame.place : Frame C O → Place
  | commands _ depth => .commands depth
  | outputs _ depth => .outputs depth

namespace Cascade

/-- Read from the bottom, the frames stand at the first places, in turn. -/
def Alternates (stack : List (Frame C O)) : Prop :=
  stack.reverse.map Frame.place = (List.range stack.length).map Place.nth

theorem alternates_nil : Alternates ([] : List (Frame C O)) := rfl

/-- The number of frames below tells where a frame stands. -/
theorem alternates_cons {frame : Frame C O} {stack : List (Frame C O)} :
    Alternates (frame :: stack) ↔ frame.place = Place.nth stack.length ∧ Alternates stack := by
  have hleft : (frame :: stack).reverse.map Frame.place =
      stack.reverse.map Frame.place ++ [frame.place] := by
    rw [List.reverse_cons, List.map_append, List.map_singleton]
  have hright : (List.range (frame :: stack).length).map Place.nth =
      (List.range stack.length).map Place.nth ++ [Place.nth stack.length] := by
    rw [List.length_cons, List.range_succ, List.map_append, List.map_singleton]
  rw [Alternates, hleft, hright]
  constructor
  · intro h
    obtain ⟨hbelow, hhere⟩ := List.append_inj' h rfl
    exact ⟨List.singleton_inj.mp hhere, hbelow⟩
  · rintro ⟨hhere, hbelow⟩
    rw [hhere, hbelow]

/-- A frame may stand where another one of its place does. -/
theorem Alternates.replace {frame frame' : Frame C O} {below : List (Frame C O)}
    (h : Alternates (frame :: below)) (hplace : frame'.place = frame.place) :
    Alternates (frame' :: below) := by
  obtain ⟨hhere, hbelow⟩ := alternates_cons.mp h
  exact alternates_cons.mpr ⟨hplace.trans hhere, hbelow⟩

/-- A frame may stand on one whose place comes right before its own. -/
theorem Alternates.cons {frame top : Frame C O} {below : List (Frame C O)}
    (h : Alternates (top :: below)) (hplace : frame.place = top.place.next) :
    Alternates (frame :: top :: below) := by
  obtain ⟨htop, -⟩ := alternates_cons.mp h
  refine alternates_cons.mpr ⟨?_, h⟩
  rw [hplace, htop]
  rfl

theorem Alternates.below {frame : Frame C O} {below : List (Frame C O)}
    (h : Alternates (frame :: below)) : Alternates below := (alternates_cons.mp h).2

theorem Searches.alternates {reaction : O → Checked (List C)} {stack : List (Frame C O)}
    {reacted : List O} {record : List (O × List C)} {next : Next C O}
    (h : Searches reaction stack reacted record next) (hstack : Alternates stack) :
    Alternates next.left.stack := by
  induction h with
  | finished => exact alternates_nil
  | noCommand _ ih => exact ih hstack.below
  | noOutput _ ih => exact ih hstack.below
  | waited => exact hstack.replace rfl
  | silent _ _ ih => exact ih (hstack.replace rfl)
  | @caused stack _ o waiting depth _ _ _ =>
    have houtputs : Alternates (.outputs waiting depth :: stack) := hstack.replace rfl
    exact houtputs.cons rfl

theorem TakenFrom.top {stack rest : List (Frame C O)} {record : List (O × List C)} {c : C}
    {depth : Nat} (h : TakenFrom stack record c depth rest) :
    ∃ waiting below, rest = .commands waiting depth :: below := by
  cases h with
  | waited _ => exact ⟨_, _, rfl⟩
  | caused _ _ => exact ⟨_, _, rfl⟩

/-- Outputs are pushed on the frame that their command was taken from. -/
theorem alternates_push {k : Cascade C O} {waiting : List C} {depth : Nat}
    {below : List (Frame C O)} (htop : k.stack = .commands waiting depth :: below)
    (h : Alternates k.stack) (outputs : List O) : Alternates (k.push outputs depth).stack := by
  cases outputs with
  | nil => exact h
  | cons o outputs =>
    show Alternates (.outputs (o :: outputs) depth :: k.stack)
    rw [htop] at h ⊢
    exact h.cons rfl

section

variable {root : C} {rounds : List (Round C O)} {k : Cascade C O}

theorem After.alternates (h : After root rounds k) : Alternates k.stack := by
  induction h with
  | start => rfl
  | command _ _ hnext outputs ih =>
    have hsearches := searches_of_next hnext
    obtain ⟨waiting, below, htop⟩ := hsearches.takenFrom.top
    exact alternates_push htop (hsearches.alternates ih) outputs
  | finished _ _ _ _ => exact alternates_nil

/-! ## Outputs -/

theorem After.held_perm (h : After root rounds k) : k.held.Perm (rounds.flatMap Round.outputs) := by
  induction h with
  | start => exact .refl _
  | command _ _ hnext outputs ih =>
    have hrest := (pull_held hnext).trans ih
    rw [List.flatMap_append, List.flatMap_singleton]
    exact (held_push _ outputs _).trans (hrest.append_right outputs)
  | @finished rounds _ outputs _ _ hnext ih =>
    rw [List.flatMap_append, List.flatMap_singleton]
    show (outputs.reverse ++ []).Perm (rounds.flatMap Round.outputs ++ [])
    rw [List.append_nil, List.append_nil]
    exact (List.reverse_perm outputs).trans ((pull_held hnext).trans ih)

/-- Reactions have been taken of the outputs that count as reacted to, of one after the other. -/
theorem After.asked_outputs (h : After root rounds k) :
    (rounds.flatMap Round.asked).map Prod.fst = k.produced := by
  induction h with
  | start => rfl
  | @command rounds k rest c depth _ _ reaction hnext outputs ih =>
    have hrest : rest.produced = k.produced ++ (k.asked reaction).map Prod.fst :=
      (searches_of_next hnext).produced_left
    rw [List.flatMap_append, List.flatMap_singleton, List.map_append, ih, produced_push]
    exact hrest.symm
  | @finished rounds k outputs _ reaction hnext ih =>
    have hrest := (searches_of_next hnext).produced_left
    rw [List.flatMap_append, List.flatMap_singleton, List.map_append, ih]
    exact hrest.symm

end

/-- The loop works in such rounds, whatever its limit: in each of them it pushes what the execution
of the command put out. -/
theorem Follows.after {limit : DepthLimit} {reaction : O → Checked (List C)} {root : C}
    {visits : List (Visit C O R)} {k : Cascade C O}
    (h : Follows limit reaction (start root) visits k) :
    ∃ rounds, After root rounds k ∧
      rounds.map Round.outputs = visits.map fun v => v.outcome.outputs := by
  induction h with
  | refl => exact ⟨[], .start, rfl⟩
  | step _ next _ outputs ih =>
    obtain ⟨rounds, hafter, hsame⟩ := ih
    refine ⟨_, hafter.command reaction next outputs, ?_⟩
    rw [List.map_append, List.map_append, hsame]
    rfl

/-! ## The whole shape -/

/-- What holds of a work list after some rounds. -/
structure InShape (root : C) (rounds : List (Round C O)) (k : Cascade C O) : Prop where
  /-- From the bottom: commands at depth nought, outputs at depth nought, commands at depth one, and
  so on, whether anything is left in the frames or not. -/
  alternates : Alternates k.stack
  /-- The frame on top, where a search comes to a command, is the one that the command was taken
  from, and lies as deep. -/
  onTop : ∀ (reaction : O → Checked (List C)) (c : C) (depth derived : Nat) (rest : Cascade C O),
    k.next reaction = .ok (.command c depth derived rest) →
    TakenFrom k.stack (k.asked reaction) c depth rest.stack
  /-- What has been pushed has been reacted to or waits, and nothing else. -/
  conserved : (k.produced ++ pending k.stack).Perm (rounds.flatMap Round.outputs)
  /-- Reactions have been taken of the outputs that count as reacted to, once each and in their
  order. -/
  reacted : (rounds.flatMap Round.asked).map Prod.fst = k.produced
  /-- Commands lie as deep as their lineage has hops, which the rounds tell one by one. -/
  hops : ∃ (rounds' : List (TracedRound C O)) (k' : Traced C O),
    TracedAfter root rounds' k' ∧ rounds'.map TracedRound.untraced = rounds ∧ k'.untraced = k ∧
    ∀ asked l depth outputs, .command asked l depth outputs ∈ rounds' →
      l.hops = depth ∧ Derived root rounds' l

/-- **In shape.** After any number of rounds, with any reactions and any outputs. -/
theorem work_list_in_shape {root : C} {rounds : List (Round C O)} {k : Cascade C O}
    (h : After root rounds k) : InShape root rounds k where
  alternates := h.alternates
  onTop _ _ _ _ _ hnext := (searches_of_next hnext).takenFrom
  conserved := ((List.reverse_perm k.reacted).append_right _).trans h.held_perm
  reacted := h.asked_outputs
  hops := by
    obtain ⟨rounds', k', hafter, hrounds, hk⟩ := exists_traced h
    exact ⟨rounds', k', hafter, hrounds, hk, hafter.descends.2⟩

/-- Three is followed by two, which puts out nought and two; nought causes nothing, and two is
followed by one, which puts out nothing. -/
theorem countdown_in_shape :
    let rounds : List (Round Nat Nat) := [.command [] 3 0 [3], .command [(3, [2, 1])] 2 1 [0, 2],
      .command [(0, []), (2, [1, 0])] 1 2 []]
    let k : Cascade Nat Nat := ⟨[.commands [0] 2, .outputs [] 1, .commands [1] 1, .outputs [] 0,
      .commands [] 0], [2, 0, 3]⟩
    After 3 rounds k ∧ InShape 3 rounds k := by
  have hfirst : After 3 [.command [] 3 0 [3]] ⟨[.outputs [3] 0, .commands [] 0], []⟩ :=
    After.start.command Saga.countdown.react rfl [3]
  have hsecond := hfirst.command Saga.countdown.react rfl [0, 2]
  have hthird := hsecond.command Saga.countdown.react rfl []
  exact ⟨hthird, work_list_in_shape hthird⟩

end Cascade

end EventMachines
