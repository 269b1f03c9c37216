/-!
# Event queues

A queue has two ends that never mix: events received during the current cycle, and events staged
here that wait to be sent.
-/

namespace EntitySchema.Replica

/-- The events of one kind attached to a component. -/
structure EventQueue (α : Type) where
  /-- Events received during the current cycle, oldest first. -/
  received : List α := []
  /-- Events waiting to be sent, oldest first. -/
  staged : List α := []
deriving Repr, DecidableEq, Inhabited

namespace EventQueue

variable {α : Type}

/-- The queue without events. -/
def empty : EventQueue α := {}

/-- Stages an event. -/
def trigger (q : EventQueue α) (e : α) : EventQueue α := { q with staged := q.staged ++ [e] }

/-- Receives an event. -/
def receive (q : EventQueue α) (e : α) : EventQueue α := { q with received := q.received ++ [e] }

/-- Receives several events in order. -/
def receiveAll (q : EventQueue α) (es : List α) : EventQueue α :=
  { q with received := q.received ++ es }

/-- Drops the staged events. -/
def clearStaged (q : EventQueue α) : EventQueue α := { q with staged := [] }

/-- Drops the received events. -/
def clearReceived (q : EventQueue α) : EventQueue α := { q with received := [] }

/-- Whether an event waits to be sent. -/
def hasStaged (q : EventQueue α) : Bool := !q.staged.isEmpty

/-- Whether no event was received. -/
def isEmpty (q : EventQueue α) : Bool := q.received.isEmpty

/-- Whether two queues hold agreeing events. -/
def agrees (eq : α → α → Bool) (p q : EventQueue α) : Bool :=
  p.received.isEqv q.received eq && p.staged.isEqv q.staged eq

end EventQueue

end EntitySchema.Replica
