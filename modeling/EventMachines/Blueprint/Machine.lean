import EventMachines.Blueprint.Transform
import EventMachines.Sample.Ledger
import EventMachines.Sample.Parity

/-!
Machines over values, as data: the sample machines and what can be made of them. Building one takes
the machine of its parts and lets codecs carry values into the types the machine speaks and back.
-/

namespace EventMachines

variable {C S E A R : Type}

def Decider.untyped (d : Decider C S E R) (commands : Codec C) (states : Codec S)
    (events : Codec E) : Decider Value Value Value R :=
  ((d.mapCommand commands.read).mapEvent events.read fun e => .ok (events.encode e)).mapState
    states.read fun s => .ok (states.encode s)

def View.untyped (v : View S E) (states : Codec S) (events : Codec E) : View Value Value :=
  (v.mapEvent events.read).mapState states.read fun s => .ok (states.encode s)

def Saga.untyped (g : Saga E A) (results : Codec E) (actions : Codec A) : Saga Value Value :=
  (g.mapResult results.read).mapAction fun a => .ok (actions.encode a)

/-- When a state is terminal. -/
inductive Ending where
  | always
  | never
  | atLeast (n : Int)
  | equals (v : Value)

def Ending.holds : Ending → Value → Checked Bool
  | always, _ => return true
  | never, _ => return false
  | atLeast n, s => return n ≤ (← s.amount)
  | equals v, s => return s == v

inductive DeciderPlan where
  | parity (p : Parity)
  | empty
  | ledger (sum : Int)
  | combine (left right : DeciderPlan)
  | terminal (d : DeciderPlan) (ending : Ending)
  | mapCommand (d : DeciderPlan) (f : Transform)
  | mapEvent (d : DeciderPlan) (into back : Transform)
  | mapState (d : DeciderPlan) (into back : Transform)
  | mapError (d : DeciderPlan) (heading : String)

def DeciderPlan.build : DeciderPlan → Decider Value Value Value String
  | parity p =>
    (p.decider.mapError Parity.Refusal.message).untyped Parity.commandCodec Parity.totalCodec
      Parity.eventCodec
  | empty => Decider.empty.untyped .value .unit .value
  | ledger sum => Ledger.decider sum
  | combine left right =>
    (left.build.combine right.build).untyped Transform.alternatives Transform.pairs
      Transform.alternatives
  | terminal d ending => d.build.withTerminal ending.holds
  | mapCommand d f => d.build.mapCommand f.apply
  | mapEvent d into back => d.build.mapEvent into.apply back.apply
  | mapState d into back => d.build.mapState into.apply back.apply
  | mapError d heading => d.build.mapError (heading ++ ·)

inductive ViewPlan where
  | parity
  | empty
  | ledger (sum : Int)
  | combine (left right : ViewPlan)
  | mapEvent (v : ViewPlan) (f : Transform)
  | mapState (v : ViewPlan) (into back : Transform)

def ViewPlan.build : ViewPlan → View Value Value
  | parity => Parity.view.untyped Parity.totalCodec Parity.eventCodec
  | empty => View.empty.untyped .unit .value
  | ledger sum => Ledger.view sum
  | combine left right =>
    (left.build.combine right.build).untyped Transform.pairs Transform.alternatives
  | mapEvent v f => v.build.mapEvent f.apply
  | mapState v into back => v.build.mapState into.apply back.apply

inductive SagaPlan where
  | evenToOdd
  | oddToEven
  | empty
  | rules (list : List (Value × List Value))
  | countdown (key? : Option String)
  | split
  | combine (left right : SagaPlan)
  | merge (first second : SagaPlan)
  | mapAction (g : SagaPlan) (f : Transform)
  | mapResult (g : SagaPlan) (f : Transform)

def SagaPlan.build : SagaPlan → Saga Value Value
  | evenToOdd => Parity.evenToOdd.untyped Parity.eventCodec Parity.commandCodec
  | oddToEven => Parity.oddToEven.untyped Parity.eventCodec Parity.commandCodec
  | empty => Saga.empty
  | rules list => .total fun event => (list.filter (·.1 == event)).flatMap (·.2)
  | countdown key? => Ledger.countdown key?
  | split => Ledger.split
  | combine left right =>
    (left.build.combine right.build).untyped Transform.alternatives Transform.alternatives
  | merge first second => first.build.merge second.build
  | mapAction g f => g.build.mapAction f.apply
  | mapResult g f => g.build.mapResult f.apply

end EventMachines
