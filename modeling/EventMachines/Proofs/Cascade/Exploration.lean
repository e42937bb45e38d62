import EventMachines.Cascade
import EventMachines.Failure
import EventMachines.Program

/-!
The work list against the recursion it stands for. `drive` is the loop over the work list: take the
next command, execute it, push its outputs. `explore` is the recursion: execute a command, and for
each output from left to right emit it and explore the commands it causes, one level deeper.

Proved here, for every limit, every reaction and every way of executing commands:

* `andThen_assoc`: journeys compose like lists;
* `explore_mono`: more fuel does not change a journey that has ended;
* `emitted_andThen_remaining`: what a stack still stands for is the next command it yields,
  followed by what is then left of it;
* `exists_drive_iff_remaining`: a stack is driven to an end exactly when exploring what it stands
  for comes to one, and it is the same;
* `exists_drive_iff_explore`: the same for the cascade of a single command.
-/

namespace EventMachines

/-! ## Journeys -/

/-- One execution of a command. -/
structure Visit (C O R : Type) where
  command : C
  depth : Nat
  outcome : Outcome (Failure C R) (List O)

/-- What came of working off a cascade: the outputs emitted or the first failure, the world
afterwards, and the executions in their order. -/
structure Journey (C O R ω : Type) where
  outcome : Outcome (Failure C R) (List O)
  world : ω
  visits : List (Visit C O R)

variable {C O R ω α : Type}

def Outcome.prepend {ε : Type} (outputs : List O) : Outcome ε (List O) → Outcome ε (List O)
  | done more => done (outputs ++ more)
  | failed e => failed e
  | broken x => broken x

def Journey.after (outputs : List O) (visits : List (Visit C O R)) (j : Journey C O R ω) :
    Journey C O R ω :=
  ⟨j.outcome.prepend outputs, j.world, visits ++ j.visits⟩

theorem Journey.after_after (j : Journey C O R ω) (outputs before : List O)
    (visits earlier : List (Visit C O R)) :
    (j.after outputs visits).after before earlier =
      j.after (before ++ outputs) (earlier ++ visits) := by
  rcases j with ⟨more | e | x, w, later⟩ <;> simp [Journey.after, Outcome.prepend]

/-- A part of a cascade, as a function of the world it starts in; `none` where it has not come to
an end yet. -/
abbrev Trip (C O R ω : Type) := ω → Option (Journey C O R ω)

namespace Trip

/-- Ends at once, and leaves the world as it is. -/
def stop (o : Outcome (Failure C R) (List O)) : Trip C O R ω := fun w => some ⟨o, w, []⟩

def emitted (outputs : List O) : Trip C O R ω := stop (.done outputs)

/-- The second trip goes on where the first one ends, unless that failed or broke off. -/
def andThen (p q : Trip C O R ω) : Trip C O R ω := fun w =>
  (p w).bind fun j => match j.outcome with
    | .done outputs => (q j.world).map (·.after outputs j.visits)
    | _ => some j

def each (f : α → Trip C O R ω) : List α → Trip C O R ω
  | [] => emitted []
  | a :: rest => (f a).andThen (each f rest)

/-- Executes a command and goes on with its outputs. -/
def execute (exec : C → Nat → ω → Outcome (Failure C R) (List O) × ω) (c : C) (depth : Nat)
    (onOutputs : List O → Trip C O R ω) : Trip C O R ω := fun w =>
  match exec c depth w with
  | (.done outputs, w) => (onOutputs outputs w).map (·.after [] [⟨c, depth, .done outputs⟩])
  | (.failed e, w) => some ⟨.failed e, w, [⟨c, depth, .failed e⟩]⟩
  | (.broken x, w) => some ⟨.broken x, w, [⟨c, depth, .broken x⟩]⟩

/-- Emits an output, then runs the commands it causes. -/
def reactTo (reaction : O → Checked (List C)) (run : C → Trip C O R ω) (o : O) : Trip C O R ω :=
  match reaction o with
  | .error x => stop (.broken x)
  | .ok commands => (emitted [o]).andThen (each run commands)

@[simp] theorem emitted_andThen (outputs : List O) (p : Trip C O R ω) (w : ω) :
    (emitted outputs).andThen p w = (p w).map (·.after outputs []) := rfl

@[simp] theorem broken_andThen (x : Fault) (p : Trip C O R ω) :
    andThen (stop (.broken x)) p = stop (.broken x) := rfl

theorem emitted_nil_andThen (p : Trip C O R ω) : (emitted []).andThen p = p := by
  funext w
  cases h : p w with
  | none => simp [h]
  | some j =>
    rcases j with ⟨o, w', visits⟩
    cases o <;> simp [h, Journey.after, Outcome.prepend]

theorem andThen_emitted_nil (p : Trip C O R ω) : p.andThen (emitted []) = p := by
  funext w
  cases h : p w with
  | none => simp [andThen, h]
  | some j =>
    rcases j with ⟨o, w', visits⟩
    cases o <;> simp [andThen, h, emitted, stop, Journey.after, Outcome.prepend]

theorem andThen_assoc (p q r : Trip C O R ω) :
    (p.andThen q).andThen r = p.andThen (q.andThen r) := by
  funext w
  cases hp : p w with
  | none => simp [andThen, hp]
  | some j =>
    rcases j with ⟨outputs | e | x, w', visits⟩
    · cases hq : q w' with
      | none => simp [andThen, hp, hq]
      | some k =>
        rcases k with ⟨more | e | x, w'', visits'⟩
        · cases hr : r w'' <;>
            simp [andThen, hp, hq, hr, Journey.after, Outcome.prepend]
          rename_i l
          rcases l with ⟨o, _, _⟩
          cases o <;> simp
        · simp [andThen, hp, hq, Journey.after, Outcome.prepend]
        · simp [andThen, hp, hq, Journey.after, Outcome.prepend]
    · simp [andThen, hp]
    · simp [andThen, hp]

section

variable {exec : C → Nat → ω → Outcome (Failure C R) (List O) × ω} {c : C} {depth : Nat} {w w' : ω}

theorem execute_done (onOutputs : List O → Trip C O R ω) {outputs : List O}
    (h : exec c depth w = (.done outputs, w')) :
    execute exec c depth onOutputs w =
      (onOutputs outputs w').map (·.after [] [⟨c, depth, .done outputs⟩]) := by
  rw [execute, h]

theorem execute_failed (onOutputs : List O → Trip C O R ω) {e : Failure C R}
    (h : exec c depth w = (.failed e, w')) :
    execute exec c depth onOutputs w = some ⟨.failed e, w', [⟨c, depth, .failed e⟩]⟩ := by
  rw [execute, h]

theorem execute_broken (onOutputs : List O → Trip C O R ω) {x : Fault}
    (h : exec c depth w = (.broken x, w')) :
    execute exec c depth onOutputs w = some ⟨.broken x, w', [⟨c, depth, .broken x⟩]⟩ := by
  rw [execute, h]

theorem execute_ended (onOutputs : List O → Trip C O R ω) {o : Outcome (Failure C R) (List O)}
    (h : exec c depth w = (o, w')) (hended : ∀ outputs, o ≠ .done outputs) :
    execute exec c depth onOutputs w = some ⟨o, w', [⟨c, depth, o⟩]⟩ := by
  cases o with
  | done outputs => exact absurd rfl (hended outputs)
  | failed e => exact execute_failed onOutputs h
  | broken x => exact execute_broken onOutputs h

end

theorem emitted_andThen_execute (exec : C → Nat → ω → Outcome (Failure C R) (List O) × ω) (c : C)
    (depth : Nat) (outputs : List O) (onOutputs : List O → Trip C O R ω) :
    (emitted outputs).andThen (execute exec c depth onOutputs) =
      execute exec c depth fun more => (emitted outputs).andThen (onOutputs more) := by
  funext w
  rw [emitted_andThen]
  rcases he : exec c depth w with ⟨more | e | x, w'⟩
  · rw [execute_done _ he, execute_done _ he, emitted_andThen, Option.map_map, Option.map_map]
    congr 1
    funext j
    simp [Journey.after_after]
  · rw [execute_failed _ he, execute_failed _ he]
    rfl
  · rw [execute_broken _ he, execute_broken _ he]
    rfl

theorem execute_andThen (exec : C → Nat → ω → Outcome (Failure C R) (List O) × ω) (c : C)
    (depth : Nat) (onOutputs : List O → Trip C O R ω) (q : Trip C O R ω) :
    (execute exec c depth onOutputs).andThen q =
      execute exec c depth fun outputs => (onOutputs outputs).andThen q := by
  funext w
  rcases he : exec c depth w with ⟨outputs | e | x, w'⟩
  · rw [execute_done _ he, andThen, execute_done _ he]
    cases hk : onOutputs outputs w' with
    | none => simp [andThen, hk]
    | some k =>
      rcases k with ⟨more | e | x, w'', visits⟩
      · simp only [andThen, hk, Option.map_some, Option.bind_some, Option.map_map]
        exact congrArg (Option.map · (q w''))
          (funext fun j => (j.after_after more [] visits _).symm)
      · simp [andThen, hk, Journey.after, Outcome.prepend]
      · simp [andThen, hk, Journey.after, Outcome.prepend]
  · rw [execute_failed _ he, andThen, execute_failed _ he]
    rfl
  · rw [execute_broken _ he, andThen, execute_broken _ he]
    rfl

theorem emitted_append (outputs more : List O) :
    (emitted outputs).andThen (emitted more) = (emitted (outputs ++ more) : Trip C O R ω) := rfl

/-! ## Trips that have come further -/

/-- Where the first trip has ended, the second has ended in the same way. -/
def Extends (p q : Trip C O R ω) : Prop := ∀ w j, p w = some j → q w = some j

theorem Extends.refl (p : Trip C O R ω) : Extends p p := fun _ _ h => h

theorem Extends.andThen {p p' q q' : Trip C O R ω} (hp : Extends p p') (hq : Extends q q') :
    Extends (p.andThen q) (p'.andThen q') := by
  intro w j h
  obtain ⟨k, hk, hj⟩ := Option.bind_eq_some_iff.mp h
  refine Option.bind_eq_some_iff.mpr ⟨k, hp w k hk, ?_⟩
  rcases k with ⟨outputs | e | x, w', visits⟩
  · obtain ⟨l, hl, rfl⟩ := Option.map_eq_some_iff.mp hj
    exact Option.map_eq_some_iff.mpr ⟨l, hq w' l hl, rfl⟩
  · exact hj
  · exact hj

theorem Extends.each {f f' : α → Trip C O R ω} (hf : ∀ a, Extends (f a) (f' a)) (items : List α) :
    Extends (Trip.each f items) (Trip.each f' items) := by
  induction items with
  | nil => exact Extends.refl _
  | cons a items ih => exact (hf a).andThen ih

theorem Extends.reactTo (reaction : O → Checked (List C)) {run run' : C → Trip C O R ω}
    (h : ∀ c, Extends (run c) (run' c)) (o : O) :
    Extends (Trip.reactTo reaction run o) (Trip.reactTo reaction run' o) := by
  unfold Trip.reactTo
  cases reaction o with
  | error x => exact Extends.refl _
  | ok commands => exact (Extends.refl _).andThen (Extends.each h commands)

theorem Extends.execute (exec : C → Nat → ω → Outcome (Failure C R) (List O) × ω) (c : C)
    (depth : Nat) {onOutputs onOutputs' : List O → Trip C O R ω}
    (h : ∀ outputs, Extends (onOutputs outputs) (onOutputs' outputs)) :
    Extends (Trip.execute exec c depth onOutputs) (Trip.execute exec c depth onOutputs') := by
  intro w j hj
  rcases he : exec c depth w with ⟨outputs | e | x, w'⟩
  · rw [execute_done _ he] at hj ⊢
    obtain ⟨k, hk, rfl⟩ := Option.map_eq_some_iff.mp hj
    exact Option.map_eq_some_iff.mpr ⟨k, h outputs w' k hk, rfl⟩
  · rwa [execute_failed _ he] at hj ⊢
  · rwa [execute_broken _ he] at hj ⊢

end Trip

namespace Cascade

open Trip

section

variable (limit : DepthLimit) (reaction : O → Checked (List C))
  (exec : C → Nat → ω → Outcome (Failure C R) (List O) × ω)

/-! ## The loop and the recursion -/

/-- At most `fuel` rounds of the loop over the work list. -/
def drive : Nat → Cascade C O → Trip C O R ω
  | 0, _ => fun _ => none
  | fuel + 1, k =>
    match k.next reaction with
    | .error x => stop (.broken x)
    | .ok (.finished outputs) => emitted outputs
    | .ok (.command c depth _ rest) =>
      if limit.allows depth then
        execute exec c depth fun outputs => drive fuel (rest.push outputs depth)
      else stop (.failed (.depthExceeded c depth))

/-- The recursion, with at most `fuel` commands inside one another. -/
def explore : Nat → C → Nat → Trip C O R ω
  | 0, _, _ => fun _ => none
  | fuel + 1, c, depth =>
    if limit.allows depth then
      execute exec c depth (each (reactTo reaction fun c => explore fuel c (depth + 1)))
    else stop (.failed (.depthExceeded c depth))

theorem drive_allowed (fuel : Nat) {k rest : Cascade C O} {c : C} {depth derived : Nat}
    (hnext : k.next reaction = .ok (.command c depth derived rest))
    (hallowed : limit.allows depth = true) :
    drive limit reaction exec (fuel + 1) k =
      execute exec c depth fun outputs =>
        drive limit reaction exec fuel (rest.push outputs depth) := by
  rw [drive, hnext]
  exact if_pos hallowed

theorem drive_tooDeep (fuel : Nat) {k rest : Cascade C O} {c : C} {depth derived : Nat}
    (hnext : k.next reaction = .ok (.command c depth derived rest))
    (hdeep : ¬ limit.allows depth = true) :
    drive limit reaction exec (fuel + 1) k = stop (.failed (.depthExceeded c depth)) := by
  rw [drive, hnext]
  exact if_neg hdeep

/-- What holds where the loop ends at once, and of one more round if it holds of the rest, holds of
every loop that comes to an end. -/
theorem drive_induction {motive : Cascade C O → ω → Journey C O R ω → Prop}
    (broken : ∀ k w x, k.next reaction = .error x → motive k w ⟨.broken x, w, []⟩)
    (finished : ∀ k w outputs, k.next reaction = .ok (.finished outputs) →
      motive k w ⟨.done outputs, w, []⟩)
    (tooDeep : ∀ k w c depth derived rest,
      k.next reaction = .ok (.command c depth derived rest) → ¬ limit.allows depth = true →
      motive k w ⟨.failed (.depthExceeded c depth), w, []⟩)
    (executed : ∀ k w c depth derived rest outputs w' j,
      k.next reaction = .ok (.command c depth derived rest) → limit.allows depth = true →
      exec c depth w = (.done outputs, w') → motive (rest.push outputs depth) w' j →
      motive k w (j.after [] [⟨c, depth, .done outputs⟩]))
    (ended : ∀ k w c depth derived rest o w',
      k.next reaction = .ok (.command c depth derived rest) → limit.allows depth = true →
      exec c depth w = (o, w') → (∀ outputs, o ≠ .done outputs) →
      motive k w ⟨o, w', [⟨c, depth, o⟩]⟩)
    {fuel : Nat} {k : Cascade C O} {w : ω} {j : Journey C O R ω}
    (h : drive limit reaction exec fuel k w = some j) : motive k w j := by
  induction fuel generalizing k w j with
  | zero => simp [drive] at h
  | succ fuel ih =>
    rcases hnext : k.next reaction with x | ⟨outputs⟩ | ⟨c, depth, derived, rest⟩
    · rw [drive, hnext] at h
      obtain rfl := Option.some.inj h
      exact broken k w x hnext
    · rw [drive, hnext] at h
      obtain rfl := Option.some.inj h
      exact finished k w outputs hnext
    · by_cases hallowed : limit.allows depth = true
      · rw [drive_allowed limit reaction exec fuel hnext hallowed] at h
        rcases he : exec c depth w with ⟨outputs | e | x, w'⟩
        · rw [execute_done _ he] at h
          obtain ⟨i, hi, rfl⟩ := Option.map_eq_some_iff.mp h
          exact executed k w c depth derived rest outputs w' i hnext hallowed he (ih hi)
        · rw [execute_failed _ he] at h
          obtain rfl := Option.some.inj h
          exact ended k w c depth derived rest _ w' hnext hallowed he (by simp)
        · rw [execute_broken _ he] at h
          obtain rfl := Option.some.inj h
          exact ended k w c depth derived rest _ w' hnext hallowed he (by simp)
      · rw [drive_tooDeep limit reaction exec fuel hnext hallowed] at h
        obtain rfl := Option.some.inj h
        exact tooDeep k w c depth derived rest hnext hallowed

theorem explore_succ (fuel : Nat) (c : C) (depth : Nat) :
    Extends (explore limit reaction exec fuel c depth)
      (explore limit reaction exec (fuel + 1) c depth) := by
  induction fuel generalizing c depth with
  | zero => intro w j h; simp [explore] at h
  | succ fuel ih =>
    rw [explore, explore]
    split
    · exact Extends.execute exec c depth
        (Extends.each (Extends.reactTo reaction fun c => ih c (depth + 1)))
    · exact Extends.refl _

theorem explore_mono {fuel more : Nat} (hle : fuel ≤ more) (c : C) (depth : Nat) :
    Extends (explore limit reaction exec fuel c depth)
      (explore limit reaction exec more c depth) := by
  induction hle with
  | refl => exact Extends.refl _
  | step _ ih => exact fun w j h => explore_succ limit reaction exec _ c depth w j (ih w j h)

end

/-! ## What a stack stands for -/

/-- What is left to do of a stack, given how to run a command at a depth. -/
def remaining (reaction : O → Checked (List C)) (run : C → Nat → Trip C O R ω) :
    List (Frame C O) → Trip C O R ω
  | [] => emitted []
  | .commands waiting depth :: stack =>
    (each (fun c => run c depth) waiting).andThen (remaining reaction run stack)
  | .outputs waiting depth :: stack =>
    (each (reactTo reaction fun c => run c (depth + 1)) waiting).andThen
      (remaining reaction run stack)

/-- What is left to do where the work list has come to its next command. -/
def afterNext (reaction : O → Checked (List C)) (run : C → Nat → Trip C O R ω) :
    Checked (Next C O) → Trip C O R ω
  | .error x => stop (.broken x)
  | .ok (.finished outputs) => emitted outputs
  | .ok (.command c depth _ rest) =>
    (emitted rest.produced).andThen ((run c depth).andThen (remaining reaction run rest.stack))

section

variable (reaction : O → Checked (List C)) (run : C → Nat → Trip C O R ω)

theorem remaining_push (k : Cascade C O) (outputs : List O) (depth : Nat) :
    remaining reaction run (k.push outputs depth).stack =
      (each (reactTo reaction fun c => run c (depth + 1)) outputs).andThen
        (remaining reaction run k.stack) := by
  cases outputs with
  | nil => exact (emitted_nil_andThen _).symm
  | cons o outputs => rfl

@[simp] theorem produced_push (k : Cascade C O) (outputs : List O) (depth : Nat) :
    (k.push outputs depth).produced = k.produced := by
  cases outputs <;> rfl

/-- Reacting to outputs one after the other emits them up to the first that causes a command. -/
private theorem emitted_andThen_outputs (stack : List (Frame C O)) (depth : Nat)
    (waiting reacted : List O) :
    (emitted reacted.reverse).andThen
        ((each (reactTo reaction fun c => run c (depth + 1)) waiting).andThen
          (remaining reaction run stack)) =
      match react reaction waiting reacted with
      | .error x => stop (.broken x)
      | .ok (reacted, none) => (emitted reacted.reverse).andThen (remaining reaction run stack)
      | .ok (reacted, some (c, commands, waiting)) =>
        (emitted reacted.reverse).andThen ((run c (depth + 1)).andThen
          (remaining reaction run
            (.commands commands (depth + 1) :: .outputs waiting depth :: stack))) := by
  induction waiting generalizing reacted with
  | nil => simp only [each, emitted_nil_andThen, react]
  | cons o waiting ih =>
    cases h : reaction o with
    | error x =>
      simp only [each, reactTo, h, react, bind, Except.bind, broken_andThen]
      rfl
    | ok commands =>
      have hemit : (emitted reacted.reverse).andThen (emitted [o]) =
          (emitted (o :: reacted).reverse : Trip C O R ω) := by
        rw [emitted_append, List.reverse_cons]
      cases commands with
      | nil =>
        simp only [each, reactTo, h, react, bind, Except.bind, andThen_emitted_nil]
        rw [andThen_assoc, ← andThen_assoc (emitted reacted.reverse), hemit]
        exact ih (o :: reacted)
      | cons c commands =>
        simp only [each, reactTo, h, react, bind, Except.bind, pure, Except.pure]
        rw [andThen_assoc, andThen_assoc, ← andThen_assoc (emitted reacted.reverse), hemit,
          andThen_assoc]
        rfl

/-- **Next command.** A stack stands for the next command it yields, followed by what is then left
of it. -/
theorem emitted_andThen_remaining (stack : List (Frame C O)) (reacted : List O) :
    (emitted reacted.reverse).andThen (remaining reaction run stack) =
      afterNext reaction run (pull reaction stack reacted) := by
  induction stack generalizing reacted with
  | nil => exact andThen_emitted_nil _
  | cons frame stack ih =>
    cases frame with
    | commands waiting depth =>
      cases waiting with
      | nil =>
        rw [remaining, each, emitted_nil_andThen]
        exact ih reacted
      | cons c waiting =>
        simp only [remaining, each, andThen_assoc]
        rfl
    | outputs waiting depth =>
      rw [remaining, emitted_andThen_outputs]
      simp only [pull]
      rcases react reaction waiting reacted with x | ⟨reacted, _ | ⟨c, commands, waiting⟩⟩
      · rfl
      · exact ih reacted
      · rfl

end

/-! ## The loop is the recursion -/

section

variable (limit : DepthLimit) (reaction : O → Checked (List C))
  (exec : C → Nat → ω → Outcome (Failure C R) (List O) × ω)

theorem remaining_mono {run run' : C → Nat → Trip C O R ω}
    (h : ∀ c depth, Extends (run c depth) (run' c depth)) (stack : List (Frame C O)) :
    Extends (remaining reaction run stack) (remaining reaction run' stack) := by
  induction stack with
  | nil => exact Extends.refl _
  | cons frame stack ih =>
    cases frame with
    | commands waiting depth => exact (Extends.each (fun c => h c depth) waiting).andThen ih
    | outputs waiting depth =>
      exact (Extends.each (Extends.reactTo reaction fun c => h c (depth + 1)) waiting).andThen ih

theorem remaining_explore_succ (fuel : Nat) (stack : List (Frame C O)) :
    Extends (remaining reaction (explore limit reaction exec fuel) stack)
      (remaining reaction (explore limit reaction exec (fuel + 1)) stack) :=
  remaining_mono reaction (explore_succ limit reaction exec fuel) stack

/-- Executing the next command and pushing its outputs leaves what the outputs stand for in front
of the rest. -/
private theorem execute_push (run : C → Nat → Trip C O R ω) (k : Cascade C O) (c : C)
    (depth : Nat) :
    (emitted k.produced).andThen
        ((execute exec c depth (each (reactTo reaction fun c => run c (depth + 1)))).andThen
          (remaining reaction run k.stack)) =
      execute exec c depth fun outputs =>
        (emitted k.produced).andThen (remaining reaction run (k.push outputs depth).stack) := by
  rw [execute_andThen, emitted_andThen_execute]
  simp only [remaining_push]

/-- Running the next command one level deeper only. -/
private theorem execute_extends {c : C} {depth : Nat} (hallowed : limit.allows depth = true)
    (n : Nat) (k : Cascade C O) :
    Extends
      (execute exec c depth fun outputs => (emitted k.produced).andThen
        (remaining reaction (explore limit reaction exec n) (k.push outputs depth).stack))
      (afterNext reaction (explore limit reaction exec (n + 1)) (.ok (.command c depth 0 k))) := by
  rw [← execute_push, afterNext, explore, if_pos hallowed]
  exact (Extends.refl _).andThen
    ((Extends.refl _).andThen (remaining_explore_succ limit reaction exec n k.stack))

private theorem extends_execute {c : C} {depth : Nat} (hallowed : limit.allows depth = true)
    (n : Nat) (k : Cascade C O) :
    Extends
      (afterNext reaction (explore limit reaction exec n) (.ok (.command c depth 0 k)))
      (execute exec c depth fun outputs => (emitted k.produced).andThen
        (remaining reaction (explore limit reaction exec n) (k.push outputs depth).stack)) := by
  rw [← execute_push, afterNext]
  refine (Extends.refl _).andThen (Extends.andThen ?_ (Extends.refl _))
  have hsucc := explore_succ limit reaction exec n c depth
  rwa [explore, if_pos hallowed] at hsucc

private theorem remaining_of_drive {fuel : Nat} {k : Cascade C O} {w : ω} {j : Journey C O R ω}
    (h : drive limit reaction exec fuel k w = some j) :
    ∃ n, (emitted k.produced).andThen
      (remaining reaction (explore limit reaction exec n) k.stack) w = some j := by
  have hpull : ∀ (k : Cascade C O) n, (emitted k.produced).andThen
      (remaining reaction (explore limit reaction exec n) k.stack) =
        afterNext reaction (explore limit reaction exec n) (k.next reaction) :=
    fun k n => emitted_andThen_remaining reaction _ k.stack k.reacted
  refine drive_induction limit reaction exec (motive := fun k w j => ∃ n,
    (emitted k.produced).andThen (remaining reaction (explore limit reaction exec n) k.stack) w =
      some j) ?broken ?finished ?tooDeep ?executed ?ended h
  case broken =>
    intro k w x hnext
    exact ⟨0, by rw [hpull, hnext]; rfl⟩
  case finished =>
    intro k w outputs hnext
    exact ⟨0, by rw [hpull, hnext]; simp [afterNext, emitted, stop]⟩
  case tooDeep =>
    intro k w c depth derived rest hnext hdeep
    refine ⟨1, ?_⟩
    rw [hpull, hnext, afterNext, explore, if_neg hdeep]
    rfl
  case executed =>
    intro k w c depth derived rest outputs w' j hnext hallowed he ⟨n, hn⟩
    refine ⟨n + 1, ?_⟩
    rw [hpull, hnext]
    refine execute_extends limit reaction exec hallowed n rest w _ ?_
    rw [execute_done _ he, ← produced_push rest outputs depth, hn]
    rfl
  case ended =>
    intro k w c depth derived rest o w' hnext hallowed he hended
    refine ⟨1, ?_⟩
    rw [hpull, hnext]
    refine execute_extends limit reaction exec hallowed 0 rest w _ ?_
    exact execute_ended _ he hended

private theorem drive_of_remaining {n : Nat} {k : Cascade C O} {w : ω} {j : Journey C O R ω}
    (h : (emitted k.produced).andThen
      (remaining reaction (explore limit reaction exec n) k.stack) w = some j) :
    ∃ fuel, drive limit reaction exec fuel k w = some j := by
  -- every round executes a command, so the visits count the rounds
  generalize hv : j.visits.length = rounds
  induction rounds using Nat.strongRecOn generalizing k w j with
  | ind rounds ih =>
    simp only [produced, emitted_andThen_remaining] at h
    rcases hnext : pull reaction k.stack k.reacted with x | ⟨outputs⟩ | ⟨c, depth, derived, rest⟩
    · rw [hnext] at h
      exact ⟨1, by rw [drive, next, hnext]; exact h⟩
    · rw [hnext] at h
      exact ⟨1, by rw [drive, next, hnext]; exact h⟩
    · rw [hnext] at h
      by_cases hallowed : limit.allows depth = true
      · have hstep := extends_execute limit reaction exec hallowed n rest w j h
        rcases he : exec c depth w with ⟨outputs | e | x, w'⟩
        · rw [execute_done _ he] at hstep
          obtain ⟨i, hi, rfl⟩ := Option.map_eq_some_iff.mp hstep
          have hfewer : i.visits.length < rounds := by
            rw [← hv]
            simp [Journey.after]
          rw [← produced_push rest outputs depth] at hi
          obtain ⟨fuel, hfuel⟩ := ih _ hfewer hi rfl
          refine ⟨fuel + 1, ?_⟩
          rw [drive_allowed limit reaction exec fuel hnext hallowed, execute_done _ he, hfuel]
          rfl
        · refine ⟨1, ?_⟩
          rw [drive_allowed limit reaction exec 0 hnext hallowed]
          rw [execute_failed _ he] at hstep ⊢
          exact hstep
        · refine ⟨1, ?_⟩
          rw [drive_allowed limit reaction exec 0 hnext hallowed]
          rw [execute_broken _ he] at hstep ⊢
          exact hstep
      · refine ⟨1, ?_⟩
        rw [drive_tooDeep limit reaction exec 0 hnext hallowed]
        cases n with
        | zero => simp [afterNext, explore, andThen, emitted, stop] at h
        | succ n =>
          rw [afterNext, explore, if_neg hallowed] at h
          exact h

/-- **Work list and recursion.** A work list is driven to an end exactly when exploring what it
stands for comes to one, and both come to the same. -/
theorem exists_drive_iff_remaining (k : Cascade C O) (w : ω) (j : Journey C O R ω) :
    (∃ fuel, drive limit reaction exec fuel k w = some j) ↔
      ∃ n, (emitted k.produced).andThen
        (remaining reaction (explore limit reaction exec n) k.stack) w = some j :=
  ⟨fun ⟨_, h⟩ => remaining_of_drive limit reaction exec h,
    fun ⟨_, h⟩ => drive_of_remaining limit reaction exec h⟩

theorem exists_drive_iff_explore (c : C) (w : ω) (j : Journey C O R ω) :
    (∃ fuel, drive limit reaction exec fuel (start c) w = some j) ↔
      ∃ n, explore limit reaction exec n c 0 w = some j := by
  rw [exists_drive_iff_remaining]
  have hstart : ∀ n, (emitted (start c : Cascade C O).produced).andThen
      (remaining reaction (explore limit reaction exec n) (start c).stack) =
        explore limit reaction exec n c 0 := by
    intro n
    simp only [start, remaining, each, andThen_emitted_nil]
    exact emitted_nil_andThen _
  simp only [hstart]

end

end Cascade

end EventMachines
