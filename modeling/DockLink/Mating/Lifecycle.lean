import DockLink.Mating.Orientation

/-!
# Lifecycle of a connection

A connection is made in three steps: contact is sensed, the partner shows up, and the two sides
agree, which needs the orientation and the partner's acknowledgement. It ends when contact is lost,
on command, or after too many link faults in a row. The machine here only computes transitions. What
has to be done about the link and about the timer is part of the step it answers with.
-/

namespace DockLink

/-- A point in time or a duration, in microseconds. -/
abbrev Tick := UInt64

/-- The time `d` after `t`, at most the last one that can be expressed. -/
def Tick.after (t d : Tick) : Tick :=
  if d ≤ 0xFFFFFFFFFFFFFFFF - t then t + d else 0xFFFFFFFFFFFFFFFF

namespace Mating

inductive State where
  | idle
  /-- Contact is sensed, and the partner has to show up. -/
  | detecting
  /-- The partner is there, and orientation and acknowledgement are awaited. -/
  | negotiating
  | connected
  /-- The link is closed, and the partner has to acknowledge. -/
  | disconnecting
deriving DecidableEq, Repr

/-- The display name. -/
def State.name : State → String
  | .idle => "Idle"
  | .detecting => "Detecting"
  | .negotiating => "Negotiating"
  | .connected => "Connected"
  | .disconnecting => "Disconnecting"

inductive Input where
  | contactMade
  | contactLost
  | partnerPresent
  | orientationDetected (orientation : Orientation)
  | partnerAcknowledged
  | timeout
  /-- Asks for another detection while contact is sensed. -/
  | connect
  | disconnect
  /-- Reports how many receive faults there were in a row. -/
  | linkFault (consecutive : UInt8)
deriving DecidableEq, Repr

/-- Why a connection ended. -/
inductive Reason where
  | contactLost
  | command
  | linkFault
deriving DecidableEq, Repr

/-- The display name. -/
def Reason.name : Reason → String
  | .contactLost => "ContactLost"
  | .command => "Command"
  | .linkFault => "LinkFault"

/-- What the application is told. -/
inductive Event where
  | connected (orientation : Orientation)
  | disconnected (reason : Reason)
  /-- No partner showed up. -/
  | detectionFailed
  | negotiationTimeout
deriving DecidableEq, Repr

/-- What a step does to the link. -/
inductive GateAction where
  | enable
  | disable
deriving DecidableEq, Repr

/-- The display name. -/
def GateAction.name : GateAction → String
  | .enable => "Enable"
  | .disable => "Disable"

/-- What a step does to the timer. -/
inductive TimerAction where
  | keep
  | arm (deadline : Tick)
  | cancel
deriving DecidableEq, Repr

structure Config where
  presenceTimeout : Tick := 100000
  negotiationTimeout : Tick := 500000
  teardownTimeout : Tick := 50000
  /-- How often detection starts over before it fails. -/
  detectRetries : UInt8 := 3
  /-- How many link faults in a row end a connection. -/
  faultThreshold : UInt8 := 3
deriving DecidableEq, Repr

/-- What a transition asks for. -/
structure Effect where
  gate : Option GateAction := none
  timer : TimerAction := .keep
  event : Option Event := none
deriving DecidableEq, Repr

/-- The answer to one input. -/
structure Step extends Effect where
  origin : State
  target : State
deriving DecidableEq, Repr

/-- A connection in the making, made or unmade. -/
structure Machine where
  config : Config
  state : State := .idle
  contact : Bool := false
  linkEnabled : Bool := false
  /-- How often the current detection started over. -/
  retries : UInt8 := 0
  /-- The orientation seen in the current negotiation. -/
  detected : Option Orientation := none
  acknowledged : Bool := false
  /-- The orientation of the connection. -/
  orientation : Option Orientation := none
  deadline : Option Tick := none
deriving DecidableEq, Repr

namespace Machine

def isConnected (m : Machine) : Bool := m.state = .connected

/-- The gate action that closes the link. -/
def closing (m : Machine) : Option GateAction := if m.linkEnabled then some .disable else none

/-- Waits for the partner, for one more presence window. -/
def awaitPartner (m : Machine) (retries : UInt8) (now : Tick) : Machine × Effect :=
  let deadline := now.after m.config.presenceTimeout
  ({ m with state := .detecting, retries, deadline := some deadline }, { timer := .arm deadline })

/-- Starts over with the negotiation's findings. -/
def negotiate (m : Machine) (now : Tick) : Machine × Effect :=
  let deadline := now.after m.config.negotiationTimeout
  ({ m with
      state := .negotiating, detected := none, acknowledged := false
      deadline := some deadline },
    { timer := .arm deadline })

/-- Connects once orientation and acknowledgement are there. -/
def agree (m : Machine) : Machine × Effect :=
  match m.detected, m.acknowledged with
  | some o, true =>
    ({ m with state := .connected, orientation := some o, linkEnabled := true, deadline := none },
      { gate := some .enable, timer := .cancel, event := some (.connected o) })
  | _, _ => (m, {})

/-- Closes the link and waits for the partner to let go. -/
def tearDown (m : Machine) (reason : Reason) (now : Tick) : Machine × Effect :=
  let deadline := now.after m.config.teardownTimeout
  ({ m with
      state := .disconnecting, orientation := none, linkEnabled := false
      deadline := some deadline },
    { gate := m.closing, timer := .arm deadline, event := some (.disconnected reason) })

/-- Forgets the attempt or the connection. -/
def rest (m : Machine) (event : Option Event) : Machine × Effect :=
  ({ m with
      state := .idle, retries := 0, detected := none, acknowledged := false, orientation := none
      linkEnabled := false, deadline := none },
    { gate := m.closing, timer := if m.deadline.isSome then .cancel else .keep, event })

/-- The end of an attempt or a connection because contact is lost. -/
def loseContact (m : Machine) : Machine × Effect :=
  let m := { m with contact := false }
  match m.state with
  | .idle => (m, {})
  | .connected => m.rest (some (.disconnected .contactLost))
  | _ => m.rest none

/-- The end of a wait. -/
def expire (m : Machine) (now : Tick) : Machine × Effect :=
  match m.state with
  | .detecting =>
    if m.retries < m.config.detectRetries then m.awaitPartner (m.retries + 1) now
    else m.rest (some .detectionFailed)
  | .negotiating => m.rest (some .negotiationTimeout)
  | .disconnecting => m.rest none
  | _ => (m, {})

/-- The transition that an input makes. Inputs that mean nothing in a state leave the machine as it
is. -/
def transition (m : Machine) (input : Input) (now : Tick) : Machine × Effect :=
  match input, m.state with
  | .contactLost, _ => m.loseContact
  | .contactMade, .idle => { m with contact := true }.awaitPartner 0 now
  | .contactMade, _ => ({ m with contact := true }, {})
  | .connect, .idle => if m.contact then m.awaitPartner 0 now else (m, {})
  | .partnerPresent, .detecting => m.negotiate now
  | .orientationDetected o, .negotiating => { m with detected := some o }.agree
  | .partnerAcknowledged, .negotiating => { m with acknowledged := true }.agree
  | .partnerAcknowledged, .disconnecting => m.rest none
  | .timeout, _ => if m.deadline.isSome then m.expire now else (m, {})
  | .disconnect, .detecting => m.rest none
  | .disconnect, .negotiating => m.rest none
  | .disconnect, .connected => m.tearDown .command now
  | .linkFault n, .connected =>
    if m.config.faultThreshold ≤ n then m.tearDown .linkFault now else (m, {})
  | _, _ => (m, {})

/-- Handles an input at a time. -/
def handle (m : Machine) (input : Input) (now : Tick) : Machine × Step :=
  let (m', effect) := m.transition input now
  (m', { effect with origin := m.state, target := m'.state })

end Machine

end Mating

end DockLink
