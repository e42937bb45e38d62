import EventMachines.Blueprint.Machine
import EventMachines.Blueprint.Storage
import EventMachines.Engine.Dispatch
import EventMachines.Engine.EventSourced
import EventMachines.Engine.Projection
import EventMachines.Engine.StateStored
import EventMachines.Execution.Session
import EventMachines.Scenario
import EventMachines.Value.Text
import EventMachines.Proofs.Cascade.Depth
import EventMachines.Proofs.Cascade.Executions
import EventMachines.Proofs.Cascade.Order
import EventMachines.Proofs.Cascade.Rounds
import EventMachines.Proofs.Cascade.Shape
import EventMachines.Proofs.Cascade.Termination
import EventMachines.Proofs.Concurrency.Cascades
import EventMachines.Proofs.Concurrency.Conflicts
import EventMachines.Proofs.Concurrency.Deliveries
import EventMachines.Proofs.Concurrency.Expectations
import EventMachines.Proofs.Concurrency.Provider
import EventMachines.Proofs.Concurrency.Terminal
import EventMachines.Proofs.Execution.Accepted
import EventMachines.Proofs.Execution.Lockstep
import EventMachines.Proofs.Machine.Combination
import EventMachines.Proofs.Orchestration.Agreement
import EventMachines.Proofs.Orchestration.Atomicity
import EventMachines.Proofs.Orchestration.Conservation
import EventMachines.Proofs.Orchestration.Termination
import EventMachines.Proofs.Orchestration.Truncation
import EventMachines.Proofs.Orchestration.Silence
import EventMachines.Proofs.Execution.Deletion
import EventMachines.Proofs.Concurrency.Keys
import EventMachines.Proofs.Orchestration.Transparency
import EventMachines.Proofs.Execution.Numbering
import EventMachines.Proofs.Execution.Adapted
import EventMachines.Proofs.Orchestration.Descent
import EventMachines.Proofs.Value.Nesting
import EventMachines.Proofs.Execution.Folding
import EventMachines.Proofs.Execution.Scenarios
import EventMachines.Proofs.Orchestration.Attribution
