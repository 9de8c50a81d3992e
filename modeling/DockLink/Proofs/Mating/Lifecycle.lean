import DockLink.Mating.Lifecycle

/-!
# The transitions of a connection

`Turns` lists what an input can do to a machine, each transition with its guard; what holds of
transitions is read off this list. The fields of a machine hang together (`Coherent`): the link is
open and has an orientation exactly while connected, a deadline runs exactly while something is
awaited, and a machine at rest has forgotten its last attempt. So no wait lasts for ever.
-/

namespace DockLink.Mating

/-- Whether a state lasts until a deadline at most. -/
def State.isWaiting : State → Bool
  | .detecting | .negotiating | .disconnecting => true
  | .idle | .connected => false

/-- What is reported when a wait is over for good. -/
def State.expiry : State → Option Event
  | .detecting => some .detectionFailed
  | .negotiating => some .negotiationTimeout
  | _ => none

/-- The reason for which an input closes a link. -/
def Input.reason? (config : Config) : Input → Option Reason
  | .disconnect => some .command
  | .linkFault n => if config.faultThreshold ≤ n then some .linkFault else none
  | _ => none

namespace Machine

/-- What an input can do. -/
inductive Turns (m : Machine) (now : Tick) : Input → Machine × Effect → Prop where
  /-- The input means nothing here. -/
  | ignore (input : Input) : Turns m now input (m, {})
  | sense (busy : m.state ≠ .idle) : Turns m now .contactMade ({ m with contact := true }, {})
  | unsense (idle : m.state = .idle) : Turns m now .contactLost ({ m with contact := false }, {})
  | detect (idle : m.state = .idle) :
      Turns m now .contactMade ({ m with contact := true }.awaitPartner 0 now)
  | detectAgain (idle : m.state = .idle) (contact : m.contact) :
      Turns m now .connect (m.awaitPartner 0 now)
  | retry (detecting : m.state = .detecting) (more : m.retries < m.config.detectRetries) :
      Turns m now .timeout (m.awaitPartner (m.retries + 1) now)
  | negotiate (detecting : m.state = .detecting) : Turns m now .partnerPresent (m.negotiate now)
  | learn (negotiating : m.state = .negotiating) (o : Orientation) :
      Turns m now (.orientationDetected o) { m with detected := some o }.agree
  | hear (negotiating : m.state = .negotiating) :
      Turns m now .partnerAcknowledged { m with acknowledged := true }.agree
  | tearDown {input : Input} {reason : Reason} (connected : m.state = .connected)
      (cause : input.reason? m.config = some reason) : Turns m now input (m.tearDown reason now)
  | cut (connected : m.state = .connected) :
      Turns m now .contactLost
        ({ m with contact := false }.rest (some (.disconnected .contactLost)))
  | miss (waiting : m.state.isWaiting) :
      Turns m now .contactLost ({ m with contact := false }.rest none)
  /-- The last wait is over. -/
  | expire (waiting : m.state.isWaiting) : Turns m now .timeout (m.rest m.state.expiry)
  | letGo (disconnecting : m.state = .disconnecting) :
      Turns m now .partnerAcknowledged (m.rest none)
  | abandon (waiting : m.state.isWaiting) : Turns m now .disconnect (m.rest none)

variable {m : Machine} {input : Input} {now : Tick} {result : Machine × Effect}

theorem expire_of_waiting (h : m.state.isWaiting) (now : Tick) :
    m.expire now =
      if m.state = .detecting ∧ m.retries < m.config.detectRetries then
        m.awaitPartner (m.retries + 1) now
      else m.rest m.state.expiry := by
  cases hstate : m.state with
  | idle =>
      rw [hstate] at h
      cases h
  | connected =>
      rw [hstate] at h
      cases h
  | detecting => simp [Machine.expire, hstate, State.expiry]
  | negotiating => simp [Machine.expire, hstate, State.expiry]
  | disconnecting => simp [Machine.expire, hstate, State.expiry]

theorem turns_timeout (m : Machine) (now : Tick) :
    m.Turns now .timeout (m.transition .timeout now) := by
  by_cases hdeadline : m.deadline.isSome
  · have hexpire : m.transition .timeout now = m.expire now := if_pos hdeadline
    rw [hexpire]
    cases hwaiting : m.state.isWaiting with
    | true =>
        rw [expire_of_waiting hwaiting]
        split
        · rename_i hmore
          exact .retry hmore.1 hmore.2
        · exact .expire hwaiting
    | false =>
        have hidle : m.expire now = (m, {}) := by
          cases hstate : m.state <;> simp_all [Machine.expire, State.isWaiting]
        rw [hidle]
        exact .ignore _
  · have hnone : m.transition .timeout now = (m, {}) := if_neg hdeadline
    rw [hnone]
    exact .ignore _

theorem turns_linkFault (m : Machine) (now : Tick) (n : UInt8) :
    m.Turns now (.linkFault n) (m.transition (.linkFault n) now) := by
  by_cases hstate : m.state = .connected
  · have hfault : m.transition (.linkFault n) now =
        if m.config.faultThreshold ≤ n then m.tearDown .linkFault now else (m, {}) := by
      simp only [transition, hstate]
    rw [hfault]
    split
    · rename_i hthreshold
      exact .tearDown hstate (if_pos hthreshold)
    · exact .ignore _
  · have hnone : m.transition (.linkFault n) now = (m, {}) := by
      cases h : m.state <;> simp_all [transition]
    rw [hnone]
    exact .ignore _

/-- Every transition is on the list. -/
theorem turns_transition (m : Machine) (input : Input) (now : Tick) :
    m.Turns now input (m.transition input now) := by
  obtain ⟨config, state, contact, linkEnabled, retries, detected, acknowledged, orientation,
    deadline⟩ := m
  cases input with
  | timeout => exact turns_timeout _ now
  | linkFault n => exact turns_linkFault _ now n
  | contactMade =>
      cases state
      case idle => exact .detect rfl
      all_goals exact .sense nofun
  | contactLost =>
      cases state
      case idle => exact .unsense rfl
      case connected => exact .cut rfl
      all_goals exact .miss rfl
  | partnerPresent =>
      cases state
      case detecting => exact .negotiate rfl
      all_goals exact .ignore _
  | orientationDetected o =>
      cases state
      case negotiating => exact .learn rfl o
      all_goals exact .ignore _
  | partnerAcknowledged =>
      cases state
      case negotiating => exact .hear rfl
      case disconnecting => exact .letGo rfl
      all_goals exact .ignore _
  | connect =>
      cases state
      case idle =>
        cases contact with
        | true => exact .detectAgain rfl rfl
        | false => exact .ignore _
      all_goals exact .ignore _
  | disconnect =>
      cases state
      case detecting => exact .abandon rfl
      case negotiating => exact .abandon rfl
      case connected => exact .tearDown rfl rfl
      all_goals exact .ignore _

/-- An agreement takes both findings. -/
theorem agree_cases (m : Machine) :
    m.agree = (m, {}) ∨ ∃ o, m.detected = some o ∧ m.acknowledged ∧ m.agree =
      ({ m with state := .connected, orientation := some o, linkEnabled := true, deadline := none },
        { gate := some .enable, timer := .cancel, event := some (.connected o) }) := by
  unfold agree
  split
  · rename_i o hdetected hacknowledged
    exact Or.inr ⟨o, hdetected, hacknowledged, rfl⟩
  · exact Or.inl rfl

theorem handle_fst (m : Machine) (input : Input) (now : Tick) :
    (m.handle input now).1 = (m.transition input now).1 := rfl

/-- No transition changes the configuration. -/
theorem Turns.config_eq (hturns : m.Turns now input result) : result.1.config = m.config := by
  cases hturns with
  | learn =>
      rename_i o
      obtain hagree | ⟨_, -, -, hagree⟩ := agree_cases { m with detected := some o }
      · rw [hagree]
      · rw [hagree]
  | hear =>
      obtain hagree | ⟨_, -, -, hagree⟩ := agree_cases { m with acknowledged := true }
      · rw [hagree]
      · rw [hagree]
  | _ => rfl

/-! ## What the fields of a machine have to do with each other -/

structure Coherent (m : Machine) : Prop where
  linkEnabled_iff : m.linkEnabled ↔ m.state = .connected
  orientation_iff : m.orientation.isSome ↔ m.state = .connected
  deadline_iff : m.deadline.isSome ↔ m.state.isWaiting
  contact : m.state ≠ .idle → m.contact
  retries_le : m.retries ≤ m.config.detectRetries
  rested : m.state = .idle → m.retries = 0 ∧ m.detected = none ∧ m.acknowledged = false

theorem Coherent.fresh (config : Config) : Coherent { config } where
  linkEnabled_iff := ⟨nofun, nofun⟩
  orientation_iff := ⟨nofun, nofun⟩
  deadline_iff := ⟨nofun, nofun⟩
  contact h := absurd rfl h
  retries_le := UInt8.zero_le
  rested _ := ⟨rfl, rfl, rfl⟩

theorem Coherent.closed (h : m.Coherent) (hstate : m.state ≠ .connected) :
    m.linkEnabled = false ∧ m.orientation = none :=
  ⟨Bool.eq_false_iff.2 (hstate ∘ h.linkEnabled_iff.1),
    Option.not_isSome_iff_eq_none.1 (hstate ∘ h.orientation_iff.1)⟩

/-- A machine at rest is coherent, whatever it was before. -/
theorem coherent_rest (m : Machine) (event : Option Event) : (m.rest event).1.Coherent where
  linkEnabled_iff := ⟨nofun, nofun⟩
  orientation_iff := ⟨nofun, nofun⟩
  deadline_iff := ⟨nofun, nofun⟩
  contact h := absurd rfl h
  retries_le := UInt8.zero_le
  rested _ := ⟨rfl, rfl, rfl⟩

theorem Coherent.awaitPartner (h : m.Coherent) (hstate : m.state ≠ .connected) {retries : UInt8}
    (hretries : retries ≤ m.config.detectRetries) (now : Tick) :
    ({ m with contact := true }.awaitPartner retries now).1.Coherent := by
  obtain ⟨hlink, horientation⟩ := h.closed hstate
  exact {
    linkEnabled_iff := ⟨fun hopen => absurd (hlink.symm.trans hopen) nofun, nofun⟩
    orientation_iff := ⟨fun hsome => absurd (horientation ▸ hsome) nofun, nofun⟩
    deadline_iff := ⟨fun _ => rfl, fun _ => rfl⟩
    contact := fun _ => rfl
    retries_le := hretries
    rested := nofun }

theorem Coherent.negotiate (h : m.Coherent) (hstate : m.state = .detecting) (now : Tick) :
    (m.negotiate now).1.Coherent := by
  obtain ⟨hlink, horientation⟩ := h.closed (by rw [hstate]; nofun)
  exact {
    linkEnabled_iff := ⟨fun hopen => absurd (hlink.symm.trans hopen) nofun, nofun⟩
    orientation_iff := ⟨fun hsome => absurd (horientation ▸ hsome) nofun, nofun⟩
    deadline_iff := ⟨fun _ => rfl, fun _ => rfl⟩
    contact := fun _ => h.contact (by rw [hstate]; nofun)
    retries_le := h.retries_le
    rested := nofun }

/-- What was found in a negotiation makes no difference outside of it. -/
theorem Coherent.agree (h : m.Coherent) (hstate : m.state = .negotiating)
    (detected : Option Orientation) (acknowledged : Bool) :
    ({ m with detected, acknowledged }.agree).1.Coherent := by
  have hidle : m.state ≠ .idle := by rw [hstate]; nofun
  obtain hnone | ⟨o, -, -, hagree⟩ := agree_cases { m with detected, acknowledged }
  · rw [hnone]
    exact ⟨h.linkEnabled_iff, h.orientation_iff, h.deadline_iff, h.contact, h.retries_le,
      fun hrest => absurd hrest hidle⟩
  · rw [hagree]
    exact {
      linkEnabled_iff := ⟨fun _ => rfl, fun _ => rfl⟩
      orientation_iff := ⟨fun _ => rfl, fun _ => rfl⟩
      deadline_iff := ⟨nofun, nofun⟩
      contact := fun _ => h.contact hidle
      retries_le := h.retries_le
      rested := nofun }

theorem Coherent.tearDown (h : m.Coherent) (hstate : m.state = .connected) (reason : Reason)
    (now : Tick) : (m.tearDown reason now).1.Coherent where
  linkEnabled_iff := ⟨nofun, nofun⟩
  orientation_iff := ⟨nofun, nofun⟩
  deadline_iff := ⟨fun _ => rfl, fun _ => rfl⟩
  contact _ := h.contact (by rw [hstate]; nofun)
  retries_le := h.retries_le
  rested := nofun

theorem toNat_succ_of_lt {a b : UInt8} (h : a < b) : (a + 1).toNat = a.toNat + 1 := by
  have hlt := UInt8.lt_iff_toNat_lt.1 h
  have hb := b.toNat_lt
  rw [UInt8.toNat_add]
  exact Nat.mod_eq_of_lt (Nat.lt_of_le_of_lt hlt hb)

theorem succ_le_of_lt {a b : UInt8} (h : a < b) : a + 1 ≤ b := by
  rw [UInt8.le_iff_toNat_le, toNat_succ_of_lt h]
  exact UInt8.lt_iff_toNat_lt.1 h

theorem Coherent.turns (h : m.Coherent) (hturns : m.Turns now input result) :
    result.1.Coherent := by
  cases hturns with
  | ignore => exact h
  | sense busy =>
      exact ⟨h.linkEnabled_iff, h.orientation_iff, h.deadline_iff, fun _ => rfl, h.retries_le,
        h.rested⟩
  | unsense idle =>
      exact ⟨h.linkEnabled_iff, h.orientation_iff, h.deadline_iff, fun hbusy => absurd idle hbusy,
        h.retries_le, h.rested⟩
  | detect idle => exact h.awaitPartner (by rw [idle]; nofun) UInt8.zero_le now
  | detectAgain idle contact =>
      have hwait := h.awaitPartner (by rw [idle]; nofun) UInt8.zero_le now
      rwa [← contact] at hwait
  | retry detecting more =>
      have hwait := h.awaitPartner (by rw [detecting]; nofun) (succ_le_of_lt more) now
      rwa [← h.contact (by rw [detecting]; nofun)] at hwait
  | negotiate detecting => exact h.negotiate detecting now
  | learn negotiating o => exact h.agree negotiating (some o) m.acknowledged
  | hear negotiating => exact h.agree negotiating m.detected true
  | tearDown connected cause => exact h.tearDown connected _ now
  | cut => exact coherent_rest _ _
  | miss => exact coherent_rest _ _
  | expire => exact coherent_rest _ _
  | letGo => exact coherent_rest _ _
  | abandon => exact coherent_rest _ _

theorem Coherent.handle (h : m.Coherent) (input : Input) (now : Tick) :
    (m.handle input now).1.Coherent :=
  h.turns (m.turns_transition input now)

/-! ## What a step asks for -/

theorem Coherent.linkEnabled_eq (h : m.Coherent) : m.linkEnabled = m.isConnected := by
  rw [Bool.eq_iff_iff, isConnected, decide_eq_true_iff]
  exact h.linkEnabled_iff

/-- The gate action that takes a link from one state to the other. -/
def gateOf (before after : Bool) : Option GateAction :=
  if after = before then none else if after then some .enable else some .disable

@[simp]
theorem gateOf_self (isOpen : Bool) : gateOf isOpen isOpen = none := if_pos rfl

theorem Coherent.closing_eq (h : m.Coherent) : m.closing = gateOf m.isConnected false := by
  rw [closing, h.linkEnabled_eq, gateOf]
  cases m.isConnected with
  | true => rfl
  | false => rfl

theorem gate_agree (hstate : m.state = .negotiating) (detected : Option Orientation)
    (acknowledged : Bool) :
    { m with detected, acknowledged }.agree.2.gate =
      gateOf m.isConnected { m with detected, acknowledged }.agree.1.isConnected := by
  have hclosed : m.isConnected = false := decide_eq_false (by rw [hstate]; nofun)
  obtain hnone | ⟨o, -, -, hagree⟩ := agree_cases { m with detected, acknowledged }
  · rw [hnone]
    exact (gateOf_self _).symm
  · rw [hagree, hclosed]
    rfl

/-- The link is opened by the steps that connect, closed by those that disconnect, and left alone by
the others. -/
theorem Coherent.gate_turns (h : m.Coherent) (hturns : m.Turns now input result) :
    result.2.gate = gateOf m.isConnected result.1.isConnected := by
  have hclosed : m.state ≠ .connected → m.isConnected = false := decide_eq_false
  cases hturns with
  | ignore => exact (gateOf_self _).symm
  | sense busy => exact (gateOf_self _).symm
  | unsense idle => exact (gateOf_self _).symm
  | detect idle =>
      rw [hclosed (by rw [idle]; nofun)]
      rfl
  | detectAgain idle contact =>
      rw [hclosed (by rw [idle]; nofun)]
      rfl
  | retry detecting more =>
      rw [hclosed (by rw [detecting]; nofun)]
      rfl
  | negotiate detecting =>
      rw [hclosed (by rw [detecting]; nofun)]
      rfl
  | learn negotiating o => exact gate_agree negotiating (some o) m.acknowledged
  | hear negotiating => exact gate_agree negotiating m.detected true
  | tearDown connected cause => exact h.closing_eq
  | cut => exact h.closing_eq
  | miss => exact h.closing_eq
  | expire => exact h.closing_eq
  | letGo => exact h.closing_eq
  | abandon => exact h.closing_eq

theorem reason?_eq_linkFault {config : Config} (h : input.reason? config = some .linkFault) :
    ∃ n, input = .linkFault n ∧ config.faultThreshold ≤ n := by
  cases input with
  | linkFault n =>
      by_cases hthreshold : config.faultThreshold ≤ n
      · exact ⟨n, rfl, hthreshold⟩
      · rw [Input.reason?, if_neg hthreshold] at h
        cases h
  | _ => cases h

/-- Only enough link faults in a row end a connection as faulty. -/
theorem Turns.linkFault_of_event (hturns : m.Turns now input result)
    (hevent : result.2.event = some (.disconnected .linkFault)) :
    ∃ n, input = .linkFault n ∧ m.config.faultThreshold ≤ n := by
  cases hturns with
  | tearDown connected cause =>
      obtain rfl := Event.disconnected.inj (Option.some.inj hevent)
      exact reason?_eq_linkFault cause
  | learn negotiating o =>
      obtain hagree | ⟨_, -, -, hagree⟩ := agree_cases { m with detected := some o }
      · rw [hagree] at hevent
        cases hevent
      · rw [hagree] at hevent
        cases hevent
  | hear negotiating =>
      obtain hagree | ⟨_, -, -, hagree⟩ := agree_cases { m with acknowledged := true }
      · rw [hagree] at hevent
        cases hevent
      · rw [hagree] at hevent
        cases hevent
  | expire waiting =>
      have hexpiry : m.state.expiry = some (.disconnected .linkFault) := hevent
      cases hstate : m.state <;> rw [hstate] at hexpiry <;> cases hexpiry
  | _ => cases hevent

/-! ## Runs -/

/-- Handles inputs at their times, one after another. -/
def run (m : Machine) : List (Input × Tick) → Machine
  | [] => m
  | (input, now) :: rest => (m.handle input now).1.run rest

/-- A machine that came about from a new one. -/
def Reachable (config : Config) (m : Machine) : Prop := ∃ inputs, run { config } inputs = m

theorem config_run (inputs : List (Input × Tick)) (m : Machine) :
    (m.run inputs).config = m.config := by
  induction inputs generalizing m with
  | nil => rfl
  | cons i rest ih => exact (ih _).trans (m.turns_transition i.1 i.2).config_eq

theorem Coherent.run (inputs : List (Input × Tick)) {m : Machine} (h : m.Coherent) :
    (m.run inputs).Coherent := by
  induction inputs generalizing m with
  | nil => exact h
  | cons i rest ih => exact ih (h.handle i.1 i.2)

/-- The number of deadlines that a wait has left. -/
def windows (m : Machine) : Nat :=
  if m.state = .detecting then m.config.detectRetries.toNat - m.retries.toNat + 1 else 1

theorem windows_le (m : Machine) : m.windows ≤ m.config.detectRetries.toNat + 1 := by
  unfold windows
  split
  · omega
  · omega

/-- A deadline ends the wait or uses up one of its windows. -/
theorem Coherent.handle_timeout (h : m.Coherent) (hwaiting : m.state.isWaiting) (now : Tick) :
    m.windows = 1 ∧ (m.handle .timeout now).1.state = .idle ∨
      (m.handle .timeout now).1.state.isWaiting ∧
        m.windows = (m.handle .timeout now).1.windows + 1 := by
  have hexpire : m.transition .timeout now = m.expire now := if_pos (h.deadline_iff.2 hwaiting)
  rw [handle_fst, hexpire, expire_of_waiting hwaiting]
  split
  · rename_i hmore
    obtain ⟨hdetecting, hlt⟩ := hmore
    refine Or.inr ⟨rfl, ?_⟩
    have hlt' := UInt8.lt_iff_toNat_lt.1 hlt
    have hsucc := toNat_succ_of_lt hlt
    have hwindows : (m.awaitPartner (m.retries + 1) now).1.windows =
        m.config.detectRetries.toNat - (m.retries + 1).toNat + 1 := rfl
    rw [hwindows, windows, if_pos hdetecting]
    omega
  · rename_i hlast
    refine Or.inl ⟨?_, rfl⟩
    unfold windows
    split
    · rename_i hdetecting
      have hle : ¬m.retries < m.config.detectRetries := fun hlt => hlast ⟨hdetecting, hlt⟩
      have := UInt8.le_iff_toNat_le.1 (UInt8.not_lt.1 hle)
      omega
    · rfl

/-- Deadlines end a wait, at whatever times they pass. -/
theorem Coherent.run_timeouts (times : List Tick) {m : Machine} (h : m.Coherent)
    (hwaiting : m.state.isWaiting) (hlength : times.length = m.windows) :
    (m.run (times.map (.timeout, ·))).state = .idle := by
  induction times generalizing m with
  | nil =>
      have hpos : 0 < m.windows := by
        unfold windows
        split
        · exact Nat.succ_pos _
        · exact Nat.one_pos
      rw [← hlength] at hpos
      exact absurd hpos (Nat.lt_irrefl 0)
  | cons now rest ih =>
      rw [List.length_cons] at hlength
      obtain ⟨hlast, hidle⟩ | ⟨hwaiting', hwindows⟩ := h.handle_timeout hwaiting now
      · obtain rfl : rest = [] := List.length_eq_zero_iff.1 (by omega)
        exact hidle
      · exact ih (h.handle _ _) hwaiting' (by omega)

/-- However it came about, a machine is coherent. So a connection has no deadline, and a machine
that waits has one and comes to rest when its last window is over. -/
theorem coherent_of_reachable {config : Config} (h : Reachable config m) :
    m.Coherent ∧ m.config = config ∧ (m.state = .connected → m.deadline = none) ∧
      (m.state.isWaiting → m.deadline.isSome ∧ ∀ times : List Tick, times.length = m.windows →
        (m.run (times.map (.timeout, ·))).state = .idle) := by
  obtain ⟨inputs, rfl⟩ := h
  have hcoherent := (Coherent.fresh config).run inputs
  refine ⟨hcoherent, config_run inputs _, fun hconnected => ?_,
    fun hwaiting => ⟨hcoherent.deadline_iff.2 hwaiting, ?_⟩⟩
  · refine Option.not_isSome_iff_eq_none.1 fun hsome => ?_
    have hwaiting := hcoherent.deadline_iff.1 hsome
    rw [hconnected] at hwaiting
    cases hwaiting
  · exact fun times => hcoherent.run_timeouts times hwaiting

/-- Contact was made and one presence window is over: three are left. -/
theorem coherent_of_reachable_detecting :
    ∃ m, Reachable {} m ∧ m.Coherent ∧ m.state = .detecting ∧ m.retries = 1 ∧
      (m.run [(.timeout, 7), (.timeout, 0), (.timeout, 9)]).state = .idle := by
  have hreach : Reachable {} (run { config := {} } [(.contactMade, 0), (.timeout, 100000)]) :=
    ⟨_, rfl⟩
  obtain ⟨hcoherent, -, -, hwaits⟩ := coherent_of_reachable hreach
  exact ⟨_, hreach, hcoherent, rfl, rfl, (hwaits rfl).2 [7, 0, 9] rfl⟩

end Machine

end DockLink.Mating
