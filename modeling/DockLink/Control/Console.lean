import DockLink.Control.Responder
import DockLink.Wire.Station

/-!
# Responders at work

A responder with its channel and its application.
-/

namespace DockLink

namespace Responder

variable {depth : Nat}

instance : Endpoint (Responder depth) where
  pool r := r.pool
  withPool r pool := { r with pool }
  takeOrders := takeOrders
  received := received
  transactionEnd := transactionEnd
  writeComplete r block _ := (r.writeComplete block, none)

end Responder

/-- Lets the responder of a station answer. -/
def Station.answer {depth : Nat} (s : Station (Responder depth))
    (f : Responder depth → Responder depth × Responder.Answer) :
    Station (Responder depth) × Responder.Answer :=
  let (endpoint, answer) := f s.endpoint
  ({ s with endpoint }.settle, answer)

end DockLink
