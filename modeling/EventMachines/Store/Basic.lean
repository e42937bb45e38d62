import EventMachines.Execution.Backend
import EventMachines.Store.Table

/-!
A store in memory: streams of versioned events and slots with one state each, both by key, and the
list of the actions published. A `Layout` says under which key things belong, an `Intake` what the
store makes of the data it is given.
-/

namespace EventMachines

/-- A slot's state comes with the number of its last write: its version, or the sequence number of
the last delivery. -/
structure Store (K E S A : Type) where
  streams : Table K (List (E × Version))
  slots : Table K (S × UInt64)
  published : List A

structure Layout (K I E S : Type) where
  ofInput : I → K
  ofEvent : E → K
  ofState : S → K

/-- How much of a list of written data the store gives back. -/
inductive Echo where
  | all
  | first
  | none
  deriving DecidableEq

def Echo.of {α : Type} : Echo → List α → List α
  | all, items => items
  | first, items => items.take 1
  | none, _ => []

structure Intake (E S A : Type) where
  onEvent : E → Checked E
  onState : S → Checked S
  onAction : A → Checked A
  echo : Echo

/-- Stores and gives back exactly what it was given. -/
def Intake.faithful {E S A : Type} : Intake E S A := ⟨.ok, .ok, .ok, .all⟩

/-- What is stored for a batch of events on top of `current`: one event after the other gets the
next version and is then taken in. -/
def Intake.take {E S A : Type} (intake : Intake E S A) (current : Option Version) :
    List E → Checked (List (E × Version))
  | [] => return []
  | e :: rest => do
    let v ← Version.after current
    let e ← intake.onEvent e
    return (e, v) :: (← intake.take (some v) rest)

/-- A write that fails or breaks off leaves the store as it was. -/
def commit {α σ : Type} (before : σ) : Checked (Except StoreError (α × σ)) → Reply α × σ
  | .ok (.ok (a, after)) => (.ok (.ok a), after)
  | .ok (.error e) => (.ok (.error e), before)
  | .error x => (.error x, before)

namespace Store

variable {K I E S A : Type} [DecidableEq K]

def empty : Store K E S A := ⟨.empty, .empty, []⟩

/-- The events of a stream; a stream never written to has none. -/
def stream (st : Store K E S A) (key : K) : List (E × Version) := (st.streams.get? key).getD []

def slot (st : Store K E S A) (key : K) : Option (S × UInt64) := st.slots.get? key

def streamVersion (st : Store K E S A) (key : K) : Option Version :=
  (st.stream key).getLast?.map (·.2)

def slotNumber (st : Store K E S A) (key : K) : Option UInt64 := (st.slot key).map (·.2)

/-- The versions go up from the last one of the stream. -/
def append (intake : Intake E S A) (st : Store K E S A) (key : K) (events : List E) :
    Checked (List (E × Version) × Store K E S A) := do
  let added ← intake.take (st.streamVersion key) events
  return (added, { st with streams := st.streams.set key (st.stream key ++ added) })

def replace (intake : Intake E S A) (st : Store K E S A) (key : K) (s : S) (number : UInt64) :
    Checked (S × Store K E S A) := do
  let s ← intake.onState s
  return (s, { st with slots := st.slots.set key (s, number) })

/-- The number of the next write to a slot. -/
def nextNumber (st : Store K E S A) (key : K) : Checked Version :=
  Version.after ((st.slotNumber key).map (⟨·⟩))

/-- Streams without a check of versions. A batch belongs to the stream of its first event. -/
def events (layout : Layout K I E S) (intake : Intake E S A) :
    Backend (Exchange.events I E) (Store K E S A) where
  fetch i st := (.ok (.ok ((st.stream (layout.ofInput i)).map (·.1))), st)
  write batch st := commit st <| match batch with
    | [] => .ok (.ok ([], st))
    | e :: _ => do
      let (added, st) ← st.append intake (layout.ofEvent e) batch
      return .ok (intake.echo.of (added.map (·.1)), st)
  consult _ _ := none

/-- Streams that accept a batch only at the expected version. -/
def lockedEvents (layout : Layout K I E S) (intake : Intake E S A)
    (latest : I → Store K E S A → Option ExpectedVersion) :
    Backend (Exchange.lockedEvents I E) (Store K E S A) where
  fetch i st := (.ok (.ok (st.stream (layout.ofInput i))), st)
  write := fun (batch, expected) st => commit st <| match batch with
    | [] => .ok (.ok ([], st))
    | e :: _ => match expected.check (st.streamVersion (layout.ofEvent e)) with
      | .error error => .ok (.error error)
      | .ok () => do
        let (added, st) ← st.append intake (layout.ofEvent e) batch
        return .ok (intake.echo.of added, st)
  consult i st := latest i st

def states (layout : Layout K I E S) (intake : Intake E S A) :
    Backend (Exchange.states I S) (Store K E S A) where
  fetch i st := (.ok (.ok ((st.slot (layout.ofInput i)).map (·.1))), st)
  write s st := commit st do
    let key := layout.ofState s
    let version ← st.nextNumber key
    return .ok (← st.replace intake key s version.number)
  consult _ _ := none

/-- Slots that accept a state only at the expected version. -/
def lockedStates (layout : Layout K I E S) (intake : Intake E S A)
    (latest : I → Store K E S A → Option ExpectedVersion) :
    Backend (Exchange.lockedStates I S) (Store K E S A) where
  fetch i st := (.ok (.ok ((st.slot (layout.ofInput i)).map fun (s, n) => (s, ⟨n⟩))), st)
  write := fun (s, expected) st => commit st <|
    let key := layout.ofState s
    match expected.check ((st.slotNumber key).map (⟨·⟩)) with
    | .error error => .ok (.error error)
    | .ok () => do
      let version ← st.nextNumber key
      let (s, st) ← st.replace intake key s version.number
      return .ok ((s, version), st)
  consult i st := latest i st

/-- Slots that accept a state only with the next sequence number. -/
def numberedStates (layout : Layout K I E S) (intake : Intake E S A) :
    Backend (Exchange.numberedStates I S) (Store K E S A) where
  fetch i st := (.ok (.ok ((st.slot (layout.ofInput i)).map fun (s, n) => (s, ⟨n⟩))), st)
  write := fun (s, sequence) st => commit st do
    let key := layout.ofState s
    match ← sequence.check ((st.slotNumber key).map (⟨·⟩)) with
    | .error error => return .error error
    | .ok () =>
      let (s, st) ← st.replace intake key s sequence.number
      return .ok ((s, sequence), st)
  consult _ _ := none

/-- The list of the actions published. -/
def actions (intake : Intake E S A) : Backend (Exchange.actions I A) (Store K E S A) where
  fetch _ st := (.error .malformed, st)
  write batch st := commit st do
    let added ← batch.mapM intake.onAction
    return .ok (intake.echo.of added, { st with published := st.published ++ added })
  consult _ _ := none

end Store

end EventMachines
