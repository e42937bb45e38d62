import EventMachines.Engine.Basic
import EventMachines.Execution.Backend

/-!
Several items at once. Each item is a task, tasks take steps one at a time in any order, and a step
is at most one call of the store. The round robin is one such order: every task runs on until it has
fetched data or has finished, then it is the next one's turn. The statements say that a system that
settled is finished and that a finished task stays as it is.
-/

namespace EventMachines

variable {P : Exchange} {ε Item Answer ω : Type}

inductive Task (e : Engine P ε Item Answer) where
  | running (rest : Program P ε (Progress e.Pending Answer))
  | finished (outcome : Outcome ε Answer)

namespace Task

variable {e : Engine P ε Item Answer}

/-- The task of an item; one that cannot be begun has finished with its fault. -/
def start (e : Engine P ε Item Answer) : Checked Item → Task e
  | .ok item => running (e.start item)
  | .error x => finished (.broken x)

def outcome? : Task e → Option (Outcome ε Answer)
  | running _ => none
  | finished o => some o

/-- One step: what happens in it, the task afterwards and the store afterwards. -/
def step (b : Backend P ω) : Task e → ω → Option (Happening P) × Task e × ω
  | finished o, w => (none, finished o, w)
  | running (.halt (.done (.answer a))), w => (none, finished (.done a), w)
  | running (.halt (.done (.again rest))), w => (none, running (e.resume rest), w)
  | running (.halt (.failed x)), w => (none, finished (.failed x), w)
  | running (.halt (.broken x)), w => (none, finished (.broken x), w)
  | running (.note n rest), w => (some (.noted n), running rest, w)
  | running (.fetch i rest), w =>
    match b.fetch i w with
    | (.ok r, w) => (some (.fetched i (.ok r)), running (rest r), w)
    | (.error x, w) => (some (.fetched i (.error x)), finished (.broken x), w)
  | running (.write d rest), w =>
    match b.write d w with
    | (.ok r, w) => (some (.wrote d (.ok r)), running (rest r), w)
    | (.error x, w) => (some (.wrote d (.error x)), finished (.broken x), w)
  | running (.consult i rest), w =>
    (some (.consulted i (b.consult i w)), running (rest (b.consult i w)), w)

end Task

/-- Tasks that share a store, and what each of them did so far, the newest first. -/
structure System (e : Engine P ε Item Answer) (ω : Type) where
  tasks : List (Task e)
  world : ω
  transcript : List (Nat × Happening P)

namespace System

variable {e : Engine P ε Item Answer}

def start (e : Engine P ε Item Answer) (items : List (Checked Item)) (w : ω) : System e ω :=
  ⟨items.map (Task.start e), w, []⟩

def isFinished (s : System e ω) : Bool :=
  s.tasks.all fun t => t.outcome?.isSome

/-- The `i`-th task takes a step. -/
def step (b : Backend P ω) (s : System e ω) (i : Nat) : System e ω :=
  match s.tasks[i]? with
  | none => s
  | some t =>
    let (h, t, w) := t.step b s.world
    ⟨s.tasks.set i t, w, (h.map (i, ·)).toList ++ s.transcript⟩

/-- The tasks take steps in the order of the schedule. -/
def run (b : Backend P ω) (s : System e ω) (schedule : List Nat) : System e ω :=
  schedule.foldl (step b) s

/-- Whether the newest happening is that the `i`-th task fetched data. -/
def fetchedLast (i : Nat) (s : System e ω) : Bool :=
  match s.transcript with
  | (j, .fetched _ (.ok (.ok _))) :: _ => i == j
  | _ => false

/-- The `i`-th task runs until it has fetched data or has finished. -/
def turn (b : Backend P ω) (i : Nat) : Nat → System e ω → Option (System e ω)
  | 0, _ => none
  | fuel + 1, s =>
    match s.tasks[i]? with
    | some (.running rest) =>
      let next := s.step b i
      match rest with
      | .fetch _ _ => if next.fetchedLast i then some next else turn b i fuel next
      | _ => turn b i fuel next
    | _ => some s

/-- Every task has one turn, in order. -/
def round (b : Backend P ω) (fuel : Nat) (s : System e ω) : Option (System e ω) :=
  (List.range s.tasks.length).foldlM (fun s i => turn b i fuel s) s

/-- Rounds until all tasks have finished. -/
def settle (b : Backend P ω) (fuel : Nat) : Nat → System e ω → Option (System e ω)
  | 0, _ => none
  | rounds + 1, s =>
    if s.isFinished then some s else (s.round b fuel).bind (settle b fuel rounds)

def outcomes (s : System e ω) : List (Outcome ε Answer) :=
  s.tasks.filterMap (·.outcome?)

theorem step_finished (b : Backend P ω) (s : System e ω) (i : Nat) {j : Nat}
    {o : Outcome ε Answer} (h : s.tasks[j]? = some (.finished o)) :
    (s.step b i).tasks[j]? = some (.finished o) := by
  unfold step
  cases hi : s.tasks[i]? with
  | none => exact h
  | some t =>
    simp only
    by_cases hij : i = j
    · subst hij
      obtain rfl : t = .finished o := Option.some.inj (hi.symm.trans h)
      obtain ⟨hlt, -⟩ := List.getElem?_eq_some_iff.mp hi
      simp [Task.step, hlt]
    · rw [List.getElem?_set_ne hij]
      exact h

theorem run_finished (b : Backend P ω) (s : System e ω) (schedule : List Nat) {j : Nat}
    {o : Outcome ε Answer} (h : s.tasks[j]? = some (.finished o)) :
    (s.run b schedule).tasks[j]? = some (.finished o) := by
  induction schedule generalizing s with
  | nil => exact h
  | cons i schedule ih => exact ih (s.step b i) (step_finished b s i h)

theorem isFinished_of_settle (b : Backend P ω) {fuel rounds : Nat} {s t : System e ω}
    (h : s.settle b fuel rounds = some t) : t.isFinished = true := by
  induction rounds generalizing s with
  | zero => simp [settle] at h
  | succ rounds ih =>
    unfold settle at h
    split at h
    next hs =>
      obtain rfl := Option.some.inj h
      exact hs
    next =>
      obtain ⟨u, -, hu⟩ := Option.bind_eq_some_iff.mp h
      exact ih hu

end System

end EventMachines
