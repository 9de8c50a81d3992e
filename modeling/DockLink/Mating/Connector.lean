import DockLink.BoundedQueue
import DockLink.Mating.Flags
import DockLink.Mating.Lifecycle

/-!
# Connectors

A connector feeds inputs to the machine of its connection, keeps a bounded queue of events for the
application and counts the changes of the timer, so that a wait for an old deadline can be told from
a wait for the current one. What a step asks of the link is left to the owner of the link.
-/

namespace DockLink

/-- What a connector reports about its connection. -/
structure ConnectorStatus where
  state : Mating.State
  contact : Bool
  orientation : Option Orientation
deriving DecidableEq, Repr

namespace ConnectorStatus

def isConnected (s : ConnectorStatus) : Bool := s.state = .connected

/-- The connection as the bits of a status word. -/
def flags (s : ConnectorStatus) : StatusFlags :=
  if s.isConnected then Flags.none.withOrientation s.orientation else Flags.none

end ConnectorStatus

/-- A connection with a queue of at most `depth` events. -/
structure Connector (depth : Nat) where
  machine : Mating.Machine
  events : BoundedQueue Mating.Event depth
  /-- The number of timer changes, in thirty-two bits. -/
  generation : UInt32
  /-- The number of events that met a full queue, in thirty-two bits. -/
  droppedEvents : UInt32

namespace Connector

variable {depth : Nat}

def ofConfig (config : Mating.Config) : Connector depth :=
  { machine := { config }, events := BoundedQueue.empty, generation := 0, droppedEvents := 0 }

def status (c : Connector depth) : ConnectorStatus :=
  { state := c.machine.state, contact := c.machine.contact, orientation := c.machine.orientation }

def deadline (c : Connector depth) : Option Tick := c.machine.deadline

/-- Queues an event, or counts it as dropped. -/
def publish (c : Connector depth) (event : Mating.Event) : Connector depth :=
  match c.events.push event with
  | .ok events => { c with events }
  | .error _ => { c with droppedEvents := c.droppedEvents + 1 }

/-- Handles an input at a time. -/
def handle (c : Connector depth) (input : Mating.Input) (now : Tick) :
    Connector depth × Mating.Step :=
  let (machine, step) := c.machine.handle input now
  let generation := if step.timer = .keep then c.generation else c.generation + 1
  let c := { c with machine, generation }
  (step.event.elim c c.publish, step)

/-- Handles a timeout, unless the timer changed since `generation`. -/
def expire (c : Connector depth) (generation : UInt32) (now : Tick) :
    Connector depth × Option Mating.Step :=
  if c.generation = generation then
    let (c, step) := c.handle .timeout now
    (c, some step)
  else (c, none)

end Connector

end DockLink
