import DockLink.Proofs.Mating.Timer
import DockLink.Proofs.Transfer.Gate

/-!
# Links guarded by a connector

In a guarded session the application leaves it to a connector to open and close the framer. What
the connector is told, when deadlines pass and which events it is shown is up to the application; so
is the traffic, as long as the channel completes its writes in order. The link is known to the
connector, the framer and the channel, each with a flag of its own, and these agree at every moment
(`Coupled`).
-/

namespace DockLink

open Mating

variable {queueDepth eventDepth connectorDepth : Nat}

namespace Session

variable {s s' : Session queueDepth eventDepth} {a : Action}

/-- What holds of a session between two actions, its gate included. -/
structure Regular (s : Session queueDepth eventDepth) : Prop where
  sound : s.Sound
  orderly : s.course.outline.Orderly
  gated : s.Gated

theorem Regular.step (h : s.Regular) (a : Action) :
    ∃ s', s.step a = .ok s' ∧ s'.Regular ∧ Course.Step s.course a s'.course := by
  obtain ⟨s', hstep, hs', hcourse⟩ := h.sound.follows a
  exact ⟨s', hstep, ⟨hs', hcourse.orderly h.orderly, h.gated.step h.sound hstep⟩, hcourse⟩

theorem regular_start {f : Framer queueDepth eventDepth} {config : Framer.Config} {pool : Pool}
    (hpool : pool.Sound 0) (hf : Framer.ofConfig config pool = .ok f) : (start f).Regular where
  sound := sound_start hpool hf
  orderly := by
    rw [course_start hf]
    exact Outline.Orderly.fresh config eventDepth
  gated := by
    obtain ⟨-, rfl⟩ := Framer.ofConfig_eq_ok hf
    exact ⟨rfl, fun _ => ⟨rfl, rfl⟩⟩

/-- The session whose framer is opened or closed as a connector asks. -/
def gate (s : Session queueDepth eventDepth) (action : Option GateAction) :
    Session queueDepth eventDepth :=
  { s with station := s.station.act (·.apply action) }

theorem Sound.gate_none (hs : s.Sound) : s.gate none = s := by
  have hstation : s.station.act (Framer.apply · none) = s.station := hs.settle_eq
  rw [gate, hstation]

theorem Regular.gate (h : s.Regular) (action : Option GateAction) : (s.gate action).Regular := by
  cases action with
  | none =>
      rw [h.sound.gate_none]
      exact h
  | some action =>
      cases action with
      | enable =>
          obtain ⟨s', hstep, hs', -⟩ := h.step .enable
          cases hstep
          exact hs'
      | disable =>
          obtain ⟨s', hstep, hs', -⟩ := h.step .disable
          cases hstep
          exact hs'

/-- The gate actions of a connector take the framer where the connection is. -/
theorem Sound.enabled_gate (hs : s.Sound) (after : Bool) :
    (s.gate (Machine.gateOf s.framer.enabled after)).framer.enabled = after := by
  cases henabled : s.framer.enabled with
  | true =>
      cases after with
      | true =>
          rw [Machine.gateOf_self, hs.gate_none]
          exact henabled
      | false => exact (Framer.sends_disable henabled).enabled_eq
  | false =>
      cases after with
      | true =>
          have hclosed : ¬s.framer.enabled := by rw [henabled]; nofun
          exact congrArg Framer.enabled (if_neg hclosed : s.framer.enable = _)
      | false =>
          rw [Machine.gateOf_self, hs.gate_none]
          exact henabled

end Session

/-- A session whose framer is opened and closed by a connector. -/
structure Guarded (queueDepth eventDepth connectorDepth : Nat) where
  session : Session queueDepth eventDepth
  connector : Connector connectorDepth

/-- What happens at a guarded session. -/
inductive GuardedAction where
  | traffic (action : Action) (isTraffic : action.isTraffic)
  | tell (input : Input) (now : Tick)
  /-- The connector is shown an event of the framer. -/
  | observe (event : LinkEvent) (now : Tick)
  /-- The wait for the deadline ends that was set when the timer had changed `generation` times. -/
  | expire (generation : UInt32) (now : Tick)
  /-- The application takes an event of the connector. -/
  | takeEvent

/-- What an action may tell the connector. -/
def GuardedAction.input? : GuardedAction → Option Input
  | .tell input _ => some input
  | .observe event _ => event.input?
  | .expire _ _ => some .timeout
  | _ => none

namespace Guarded

/-- A session that begins with a framer and a connector of its own. -/
def start (connectorDepth : Nat) (f : Framer queueDepth eventDepth) (config : Mating.Config) :
    Guarded queueDepth eventDepth connectorDepth :=
  { session := .start f, connector := .ofConfig config }

def supervised (g : Guarded queueDepth eventDepth connectorDepth) :
    Supervised queueDepth eventDepth connectorDepth :=
  { station := g.session.station, connector := g.connector }

/-- Goes on with another station and another connector. -/
def resume (g : Guarded queueDepth eventDepth connectorDepth)
    (s : Supervised queueDepth eventDepth connectorDepth) :
    Guarded queueDepth eventDepth connectorDepth :=
  { session := { g.session with station := s.station }, connector := s.connector }

/-- What happens next. The connector's answer comes with it, if there is one. -/
def step (g : Guarded queueDepth eventDepth connectorDepth) :
    GuardedAction → Except Fault (Guarded queueDepth eventDepth connectorDepth × Option Mating.Step)
  | .traffic action _ => (g.session.step action).map fun session => ({ g with session }, none)
  | .tell input now =>
    let (s, answer) := g.supervised.handle input now
    .ok (g.resume s, some answer)
  | .observe event now =>
    let (s, answer) := g.supervised.observe event now
    .ok (g.resume s, answer)
  | .expire generation now =>
    let (connector, answer) := g.connector.expire generation now
    let s := { g.supervised with connector }
    .ok (g.resume (answer.elim s s.apply), answer)
  | .takeEvent =>
    let events := (g.connector.events.pop?.map Prod.snd).getD g.connector.events
    .ok ({ g with connector := { g.connector with events } }, none)

def run (g : Guarded queueDepth eventDepth connectorDepth) :
    List GuardedAction → Except Fault (Guarded queueDepth eventDepth connectorDepth)
  | [] => .ok g
  | a :: rest => do
    let (g, _) ← g.step a
    run g rest

variable {g : Guarded queueDepth eventDepth connectorDepth} {a : GuardedAction}
  {result : Guarded queueDepth eventDepth connectorDepth × Option Mating.Step}

/-- What an action comes to: the session goes on, or the connector makes a transition and the framer
is opened or closed as it asks. -/
inductive Moves (g : Guarded queueDepth eventDepth connectorDepth) :
    GuardedAction → Guarded queueDepth eventDepth connectorDepth × Option Mating.Step → Prop where
  | traffic {action : Action} {isTraffic : action.isTraffic}
      {session : Session queueDepth eventDepth} (first : g.session.step action = .ok session) :
      Moves g (.traffic action isTraffic) ({ g with session }, none)
  | idle (a : GuardedAction) {connector : Connector connectorDepth}
      (machine_eq : connector.machine = g.connector.machine) :
      Moves g a ({ g with connector }, none)
  | turn {a : GuardedAction} {input : Input} (cause : a.input? = some input) (now : Tick)
      {connector : Connector connectorDepth}
      (machine_eq : connector.machine = (g.connector.machine.handle input now).1) :
      Moves g a
        ({ session := g.session.gate (g.connector.machine.handle input now).2.gate, connector },
          some (g.connector.machine.handle input now).2)

theorem moves_handle (cause : a.input? = some input) (now : Tick) :
    g.Moves a (g.resume (g.supervised.handle input now).1,
      some (g.supervised.handle input now).2) :=
  .turn cause now (g.connector.machine_handle input now)

theorem moves_step (hs : g.session.Sound) (a : GuardedAction) :
    ∃ result, g.step a = .ok result ∧ g.Moves a result := by
  cases a with
  | traffic action isTraffic =>
      obtain ⟨session, hstep, -⟩ := hs.follows action
      refine ⟨_, ?_, .traffic hstep⟩
      rw [step, hstep]
      rfl
  | tell input now => exact ⟨_, rfl, moves_handle rfl now⟩
  | observe event now =>
      cases hinput : event.input? with
      | none =>
          refine ⟨(g, none), ?_, .idle _ rfl⟩
          simp only [step, Supervised.observe, Connector.observe, hinput]
          rfl
      | some input =>
          have hcause : (GuardedAction.observe event now).input? = some input := hinput
          refine ⟨_, ?_, moves_handle hcause now⟩
          simp only [step, Supervised.observe, Connector.observe, hinput]
          rfl
  | expire generation now =>
      by_cases hcurrent : g.connector.generation = generation
      · have hcause : (GuardedAction.expire generation now).input? = some .timeout := rfl
        refine ⟨_, ?_, moves_handle hcause now⟩
        simp only [step, Connector.expire, if_pos hcurrent]
        rfl
      · refine ⟨(g, none), ?_, .idle _ rfl⟩
        simp only [step, Connector.expire, if_neg hcurrent]
        rfl
  | takeEvent => exact ⟨_, rfl, .idle _ rfl⟩

/-- The session is in order, and its framer is open exactly while the connector is connected. -/
structure Coupled (g : Guarded queueDepth eventDepth connectorDepth) : Prop where
  regular : g.session.Regular
  coherent : g.connector.machine.Coherent
  enabled_eq : g.session.framer.enabled = g.connector.machine.isConnected

/-- What a transition asks of the framer is told by the connection before and after it. -/
theorem Coupled.gate_eq (h : g.Coupled) (input : Input) (now : Tick)
    {connector : Connector connectorDepth}
    (machine_eq : connector.machine = (g.connector.machine.handle input now).1) :
    (g.connector.machine.handle input now).2.gate =
      Machine.gateOf g.connector.machine.isConnected connector.machine.isConnected := by
  rw [machine_eq]
  exact h.coherent.gate_turns (g.connector.machine.turns_transition input now)

theorem Coupled.turn (h : g.Coupled) (input : Input) (now : Tick)
    {connector : Connector connectorDepth}
    (machine_eq : connector.machine = (g.connector.machine.handle input now).1) :
    Coupled { session := g.session.gate (g.connector.machine.handle input now).2.gate,
              connector } where
  regular := h.regular.gate _
  coherent := by
    rw [machine_eq]
    exact h.coherent.handle input now
  enabled_eq := by
    rw [h.gate_eq input now machine_eq, ← h.enabled_eq]
    exact h.regular.sound.enabled_gate _

theorem Coupled.moves (h : g.Coupled) (hmoves : g.Moves a result) : result.1.Coupled := by
  cases hmoves with
  | @traffic action isTraffic session first =>
      obtain ⟨session', hstep, hregular, hcourse⟩ := h.regular.step action
      obtain rfl := Except.ok.inj (first.symm.trans hstep)
      exact ⟨hregular, h.coherent, (hcourse.enabled_eq isTraffic).trans h.enabled_eq⟩
  | idle a machine_eq =>
      refine ⟨h.regular, ?_, ?_⟩
      · rw [machine_eq]
        exact h.coherent
      · rw [machine_eq]
        exact h.enabled_eq
  | turn cause now machine_eq => exact h.turn _ now machine_eq

/-- The end of a connection fails the pending packets. -/
theorem Coupled.record_of_leaving (h : g.Coupled) (hmoves : g.Moves a result)
    (hbefore : g.connector.machine.isConnected)
    (hafter : result.1.connector.machine.isConnected = false) :
    result.1.session.framer.reporter.record =
      (g.session.framer.pendingTickets.map Framer.Outgoing.disconnected).reverse ++
        g.session.framer.reporter.record := by
  cases hmoves with
  | traffic first => exact absurd (hbefore.symm.trans hafter) nofun
  | idle a machine_eq =>
      rw [machine_eq] at hafter
      exact absurd (hbefore.symm.trans hafter) nofun
  | @turn a input cause now connector machine_eq =>
      -- A connection was left, so the transition asks for the framer to be closed.
      have hgate : (g.connector.machine.handle input now).2.gate = some .disable := by
        rw [h.gate_eq input now machine_eq, hbefore, hafter]
        rfl
      rw [hgate]
      exact Framer.record_disable (h.enabled_eq.trans hbefore)

theorem Coupled.run (actions : List GuardedAction)
    {g : Guarded queueDepth eventDepth connectorDepth} (h : g.Coupled) :
    ∃ g', g.run actions = .ok g' ∧ g'.Coupled := by
  induction actions generalizing g with
  | nil => exact ⟨g, rfl, h⟩
  | cons a rest ih =>
      obtain ⟨⟨g₁, answer⟩, hstep, hmoves⟩ := moves_step h.regular.sound a
      obtain ⟨g', hrun, hcoupled⟩ := ih (h.moves hmoves)
      refine ⟨g', ?_, hcoupled⟩
      rw [Guarded.run, hstep]
      exact hrun

theorem coupled_start (connectorDepth : Nat) {f : Framer queueDepth eventDepth}
    {config : Framer.Config} {pool : Pool}
    (hpool : pool.Sound 0) (hf : Framer.ofConfig config pool = .ok f) (lifecycle : Mating.Config) :
    (start connectorDepth f lifecycle).Coupled where
  regular := Session.regular_start hpool hf
  coherent := Machine.Coherent.fresh lifecycle
  enabled_eq := by
    obtain ⟨-, rfl⟩ := Framer.ofConfig_eq_ok hf
    rfl

/-- A framer that is not open has nothing pending and nothing received in part. -/
theorem Coupled.at_rest (h : g.Coupled) (hclosed : g.connector.machine.isConnected = false) :
    g.session.framer.pending = 0 ∧ g.session.framer.receiver.IsClear := by
  have hclosed' : g.session.framer.enabled = false := h.enabled_eq.trans hclosed
  refine ⟨?_, h.regular.gated.clear hclosed'⟩
  have hpending : g.session.course.outline.pending = [] := by
    obtain ⟨hwaiting, hflight⟩ := h.regular.orderly.closed hclosed'
    rw [Outline.pending, hflight, hwaiting]
    rfl
  rw [← Framer.length_pendingTickets, ← Framer.pending_outline]
  exact congrArg List.length hpending

/-- However a guarded session came about: the framer and its channel are open exactly while the
connector is connected. Out of a connection nothing is pending and nothing received in part, and the
step that ends a connection fails every packet that is pending. -/
theorem run_start_coupled {config : Framer.Config} {classes : List (Nat × Nat)} {pool : Pool}
    {f : Framer queueDepth eventDepth}
    (hpool : Pool.ofClasses classes = .ok pool) (hclasses : ∀ c ∈ classes, 1 ≤ c.1 ∧ c.2 ≤ 255)
    (hf : Framer.ofConfig config pool = .ok f) (connectorDepth : Nat) (lifecycle : Mating.Config)
    (actions : List GuardedAction) :
    ∃ g, (start connectorDepth f lifecycle).run actions = .ok g ∧
      (g.session.framer.enabled ↔ g.connector.machine.state = .connected) ∧
      (g.session.station.channel.enabled ↔ g.connector.machine.state = .connected) ∧
      (g.connector.machine.state ≠ .connected →
        g.session.framer.pending = 0 ∧ g.session.framer.receiver.IsClear) ∧
      ∀ a, ∃ g' answer, g.step a = .ok (g', answer) ∧
        (g.connector.machine.state = .connected → g'.connector.machine.state ≠ .connected →
          g'.session.framer.reporter.record =
            (g.session.framer.pendingTickets.map Framer.Outgoing.disconnected).reverse ++
              g.session.framer.reporter.record) := by
  obtain ⟨g, hrun, hcoupled⟩ :=
    (coupled_start connectorDepth (Pool.sound_of_ofClasses hpool hclasses) hf lifecycle).run actions
  have hopen : g.session.framer.enabled ↔ g.connector.machine.state = .connected := by
    rw [hcoupled.enabled_eq]
    exact decide_eq_true_iff
  refine ⟨g, hrun, hopen, ?_, fun hstate => hcoupled.at_rest (decide_eq_false hstate), fun a => ?_⟩
  · rw [hcoupled.regular.gated.channel_eq]
    exact hopen
  · obtain ⟨⟨g', answer⟩, hstep, hmoves⟩ := moves_step hcoupled.regular.sound a
    refine ⟨g', answer, hstep, fun hbefore hafter => ?_⟩
    exact hcoupled.record_of_leaving hmoves (decide_eq_true hbefore) (decide_eq_false hafter)

/-- A connection is made. -/
def connecting : List GuardedAction :=
  [.tell .contactMade 0, .tell .partnerPresent 1, .tell (.orientationDetected .north) 2,
    .tell .partnerAcknowledged 3]

/-- Two packets without content are pending and a header is there in part when the connection is
ended on command. -/
theorem connecting_coupled : ∃ g g' answer,
    (start 4 Session.smallFramer {}).run (connecting ++ [.traffic (.send {} .empty) rfl,
      .traffic (.send {} .empty) rfl, .traffic (.receive [1]) rfl]) = .ok g ∧
    g.session.framer.enabled ∧ g.session.framer.pendingTickets = [⟨0⟩, ⟨1⟩] ∧
    g.step (.tell .disconnect 4) = .ok (g', answer) ∧
    g'.connector.machine.state = .disconnecting ∧
    g'.session.framer.reporter.record =
      [.sendFailed ⟨1⟩ .disconnected, .sendFailed ⟨0⟩ .disconnected] := by
  have hpool : Pool.ofClasses [(16, 2)] = .ok ⟨#[.fresh 16 2]⟩ := rfl
  have hf : Framer.ofConfig { maxPayload := 4, maxPacket := 8 } ⟨#[.fresh 16 2]⟩ =
      .ok Session.smallFramer := rfl
  obtain ⟨g, hrun, hopen, -, -, hleave⟩ := run_start_coupled hpool (by decide) hf 4 {}
    (connecting ++ [.traffic (.send {} .empty) rfl, .traffic (.send {} .empty) rfl,
      .traffic (.receive [1]) rfl])
  obtain ⟨g', answer, hstep, hrecord⟩ := hleave (.tell .disconnect 4)
  have hvalue : ((start 4 Session.smallFramer {}).run (connecting ++
      [.traffic (.send {} .empty) rfl, .traffic (.send {} .empty) rfl,
        .traffic (.receive [1]) rfl])).toOption.bind (fun g =>
      (g.step (.tell .disconnect 4)).toOption.map fun r => decide
        (g.connector.machine.state = .connected ∧ g.session.framer.reporter.record = [] ∧
          g.session.framer.pendingTickets = [⟨0⟩, ⟨1⟩] ∧
          r.1.connector.machine.state = .disconnecting)) = some true := by
    decide +kernel
  rw [hrun, Except.toOption, Option.bind_some, hstep] at hvalue
  obtain ⟨hstate, hnone, hpending, hstate'⟩ := of_decide_eq_true (Option.some.inj hvalue)
  refine ⟨g, g', answer, hrun, hopen.2 hstate, hpending, hstep, hstate', ?_⟩
  have hleft : g'.connector.machine.state ≠ .connected := by rw [hstate']; nofun
  rw [hrecord hstate hleft, hpending, hnone]
  rfl

end Guarded

end DockLink
