import DockLink.Mating.Connector
import DockLink.Transfer.Framer
import DockLink.Wire.Station

/-!
# Supervised links

A connector opens a framer when a connection is made and closes it when the connection ends. In turn
the application passes the framer's events by the connector, which takes receive faults as link
faults.
-/

namespace DockLink

/-- The connector input that an event amounts to. -/
def LinkEvent.input? : LinkEvent → Option Mating.Input
  | .receiveFailed _ consecutive => some (.linkFault consecutive)
  | _ => none

/-- Passes an event by a connector. -/
def Connector.observe {depth : Nat} (c : Connector depth) (event : LinkEvent) (now : Tick) :
    Connector depth × Option Mating.Step :=
  match event.input? with
  | none => (c, none)
  | some input =>
    let (c, step) := c.handle input now
    (c, some step)

namespace Framer

variable {queueDepth eventDepth : Nat}

instance : Endpoint (Framer queueDepth eventDepth) where
  pool f := f.pool
  withPool f pool := { f with pool }
  takeOrders := takeOrders
  received := received
  transactionEnd := transactionEnd
  writeComplete := writeComplete

/-- Opens or closes a framer as a connector asks. -/
def apply (f : Framer queueDepth eventDepth) :
    Option Mating.GateAction → Framer queueDepth eventDepth
  | some .enable => f.enable
  | some .disable => f.disable
  | none => f

end Framer

/-- A station whose framer is opened and closed by a connector. -/
structure Supervised (queueDepth eventDepth connectorDepth : Nat) where
  station : Station (Framer queueDepth eventDepth)
  connector : Connector connectorDepth

namespace Supervised

variable {queueDepth eventDepth connectorDepth : Nat}

def apply (s : Supervised queueDepth eventDepth connectorDepth) (step : Mating.Step) :
    Supervised queueDepth eventDepth connectorDepth :=
  { s with station := s.station.act (·.apply step.gate) }

def handle (s : Supervised queueDepth eventDepth connectorDepth) (input : Mating.Input)
    (now : Tick) : Supervised queueDepth eventDepth connectorDepth × Mating.Step :=
  let (connector, step) := s.connector.handle input now
  ({ s with connector }.apply step, step)

def observe (s : Supervised queueDepth eventDepth connectorDepth) (event : LinkEvent) (now : Tick) :
    Supervised queueDepth eventDepth connectorDepth × Option Mating.Step :=
  let (connector, step) := s.connector.observe event now
  let s := { s with connector }
  (step.elim s s.apply, step)

end Supervised

end DockLink
