import DockLink.Proofs.Control.Layout
import DockLink.Proofs.Mating.Handshake
import DockLink.Proofs.Mating.Timer
import DockLink.Proofs.Mating.Words
import DockLink.Transfer.Supervision

/-!
# What the status word says of the connection

While a machine is connected, the orientation it knows is the one of the last connection that it
reported. It goes through the status of the connector into the status word, where it takes the place
of whatever the flags of the device said before.
-/

namespace DockLink

open Mating

namespace Mating

/-- The orientation that an event reports a connection with. -/
def Event.orientation? : Event → Option Orientation
  | .connected o => some o
  | _ => none

/-- The orientation of the last connection that steps report. -/
def lastConnection? (steps : List Step) : Option Orientation :=
  (steps.filterMap fun step => step.event.bind Event.orientation?).getLast?

namespace Machine

variable {m : Machine} {input : Input} {now : Tick} {result : Machine × Effect}

theorem agree_orientation (hstate : m.state = .negotiating) (detected : Option Orientation)
    (acknowledged : Bool)
    (hconnected : { m with detected, acknowledged }.agree.1.state = .connected) :
    ∃ o, { m with detected, acknowledged }.agree.2.event = some (.connected o) ∧
      { m with detected, acknowledged }.agree.1.orientation = some o := by
  obtain hagree | ⟨o, -, -, hagree⟩ := agree_cases { m with detected, acknowledged }
  · rw [hagree] at hconnected
    cases hstate.symm.trans hconnected
  · rw [hagree]
    exact ⟨o, rfl, rfl⟩

/-- A machine is connected because it reports a connection just now, or because it was connected
before and nothing is reported. -/
theorem Turns.orientation_cases (hturns : m.Turns now input result)
    (hconnected : result.1.state = .connected) :
    (∃ o, result.2.event = some (.connected o) ∧ result.1.orientation = some o) ∨
      m.state = .connected ∧ result.2.event = none ∧ result.1.orientation = m.orientation := by
  cases hturns with
  | ignore => exact .inr ⟨hconnected, rfl, rfl⟩
  | sense => exact .inr ⟨hconnected, rfl, rfl⟩
  | unsense => exact .inr ⟨hconnected, rfl, rfl⟩
  | learn negotiating o => exact .inl (agree_orientation negotiating (some o) _ hconnected)
  | hear negotiating => exact .inl (agree_orientation negotiating _ true hconnected)
  | _ => cases hconnected

theorem lastConnection?_concat (h : History) (i : Input × Tick) (m : Machine) :
    lastConnection? (m.trace (h ++ [i])) =
      (((m.run h).transition i.1 i.2).2.event.bind Event.orientation?).or
        (lastConnection? (m.trace h)) := by
  rw [trace_append]
  exact History.getLast?_filterMap_concat _ (m.trace h) ((m.run h).handle i.1 i.2).2

theorem orientation_run (config : Config) (h : History)
    (hconnected : (run { config } h).state = .connected) :
    (run { config } h).orientation = lastConnection? (trace { config } h) := by
  induction h using List.reverseRecOn with
  | nil => cases hconnected
  | append_singleton h i ih =>
      rw [run_concat] at hconnected ⊢
      rw [lastConnection?_concat]
      have hturns := (run { config } h).turns_transition i.1 i.2
      obtain ⟨o, hevent, horientation⟩ | ⟨hbefore, hevent, horientation⟩ :=
        hturns.orientation_cases hconnected
      · rw [horientation, hevent]
        rfl
      · rw [horientation, hevent, ih hbefore]
        rfl

end Machine

end Mating

namespace Connector

variable {depth : Nat}

/-- What can be done with a connector. -/
inductive Use where
  | handle (input : Input) (now : Tick)
  /-- Passes an event of the link by it. -/
  | observe (event : LinkEvent) (now : Tick)
  /-- Ends the wait for a deadline, unless the timer changed since. -/
  | expire (generation : UInt32) (now : Tick)
  | takeEvent

def use (c : Connector depth) : Use → Connector depth × Option Step
  | .handle input now => let (c, step) := c.handle input now; (c, some step)
  | .observe event now => c.observe event now
  | .expire generation now => c.expire generation now
  | .takeEvent => (c.events.pop?.elim c fun (_, events) => { c with events }, none)

/-- Does one thing after another, and gathers the steps that were made. -/
def useAll (c : Connector depth) : List Use → Connector depth × List Step
  | [] => (c, [])
  | u :: uses =>
    let (c, step) := c.use u
    let (c, steps) := c.useAll uses
    (c, step.toList ++ steps)

theorem useAll_cons (c : Connector depth) (u : Use) (uses : List Use) :
    c.useAll (u :: uses) = (((c.use u).1.useAll uses).1,
      (c.use u).2.toList ++ ((c.use u).1.useAll uses).2) := rfl

/-- What is done with a connector is an input to its machine, or nothing to it. -/
theorem use_cases (c : Connector depth) (u : Use) :
    (c.use u).1.machine = c.machine ∧ (c.use u).2 = none ∨
      ∃ i : Input × Tick, (c.use u).1.machine = (c.machine.handle i.1 i.2).1 ∧
        (c.use u).2 = some (c.machine.handle i.1 i.2).2 := by
  cases u with
  | handle input now => exact .inr ⟨(input, now), machine_handle c input now, rfl⟩
  | observe event now =>
      simp only [use, observe]
      cases event.input? with
      | none => exact .inl ⟨rfl, rfl⟩
      | some input => exact .inr ⟨(input, now), machine_handle c input now, rfl⟩
  | expire generation now =>
      simp only [use, expire]
      split
      · exact .inr ⟨(.timeout, now), machine_handle c .timeout now, rfl⟩
      · exact .inl ⟨rfl, rfl⟩
  | takeEvent =>
      refine .inl ⟨?_, rfl⟩
      simp only [use]
      cases c.events.pop? with
      | none => rfl
      | some _ => rfl

theorem exists_history (uses : List Use) (c : Connector depth) :
    ∃ h : History, (c.useAll uses).1.machine = c.machine.run h ∧
      (c.useAll uses).2 = c.machine.trace h := by
  induction uses generalizing c with
  | nil => exact ⟨[], rfl, rfl⟩
  | cons u uses ih =>
      obtain ⟨h, hmachine, hsteps⟩ := ih (c.use u).1
      obtain ⟨hkept, hnone⟩ | ⟨i, hturned, hstep⟩ := c.use_cases u
      · refine ⟨h, hmachine.trans (congrArg (Machine.run · h) hkept), ?_⟩
        rw [useAll_cons, hnone]
        exact hsteps.trans (congrArg (Machine.trace · h) hkept)
      · refine ⟨i :: h, hmachine.trans (congrArg (Machine.run · h) hturned), ?_⟩
        rw [useAll_cons, hstep]
        exact congrArg _ (hsteps.trans (congrArg (Machine.trace · h) hturned))

/-- While connected, a connector knows the orientation it reported last. Otherwise it knows none. -/
theorem orientation_useAll (config : Config) (uses : List Use) {c : Connector depth}
    {steps : List Step} (huses : (ofConfig config).useAll uses = (c, steps)) :
    (c.status.isConnected → ∃ o, c.status.orientation = some o ∧ lastConnection? steps = some o) ∧
      (¬ c.status.isConnected → c.status.orientation = none) := by
  obtain ⟨h, hmachine, hsteps⟩ := exists_history uses (ofConfig config : Connector depth)
  rw [huses] at hmachine hsteps
  have hcoherent : c.machine.Coherent := hmachine ▸ (Machine.Coherent.fresh config).run h
  have hiff : c.status.isConnected ↔ c.machine.state = .connected := decide_eq_true_iff
  rw [hiff]
  constructor
  · intro hconnected
    obtain ⟨o, ho⟩ := Option.isSome_iff_exists.1 (hcoherent.orientation_iff.2 hconnected)
    refine ⟨o, ho, ?_⟩
    have hlast := Machine.orientation_run config h (by rw [← hconnected, hmachine]; rfl)
    exact (congrArg lastConnection? hsteps).trans (hlast.symm.trans (hmachine ▸ ho))
  · exact fun hstate => (hcoherent.closed hstate).2

end Connector

/-- The orientation in the flags of a connector is the one that it knows. -/
theorem ConnectorStatus.orientation_flags (s : ConnectorStatus) :
    s.flags.orientation = if s.isConnected then s.orientation else none := by
  unfold flags
  split
  · exact Flags.orientation_withOrientation _ _
  · exact Flags.orientation_of_bit _ (Flags.bit_none 8)

namespace StatusResponse

theorem toNat_clampCount (n : Nat) : (clampCount n).toNat = min n 254 := by
  have hmod : (clampCount n).toNat = min n 254 % 256 := UInt8.toNat_ofNat'
  rw [hmod, Nat.mod_eq_of_lt (by omega)]

/-- Whether a response tells the truth: about a connector with the steps that it made, about what is
known locally, and about the counts and the readings. -/
structure Truthful {depth : Nat} (r : StatusResponse) (c : Connector depth) (steps : List Step)
    (known : StatusFlags) (pendingSend pendingReceive : Nat) (measurements : Measurements) :
    Prop where
  connected_iff : c.status.isConnected ↔
    ∃ o, lastConnection? steps = some o ∧ r.flags.orientation = some o
  orientation_eq_none : ¬ c.status.isConnected → r.flags.orientation = none
  /-- Nothing in the word speaks of a connection that there is not. -/
  bit_eq_false : ¬ c.status.isConnected → ∀ i, 8 ≤ i → i ≤ 10 → r.flags.bit i = false
  bit_eq : ∀ i, i < 8 ∨ 10 < i → r.flags.bit i = known.bit i
  pendingSend_eq : r.pendingSend.toNat = min pendingSend 254
  pendingReceive_eq : r.pendingReceive.toNat = min pendingReceive 254
  /-- A count of 255 would be read as an invalid one. -/
  count_ne : r.pendingSend ≠ 255 ∧ r.pendingReceive ≠ 255
  measurements_eq : r.measurements = measurements

theorem clampCount_ne (n : Nat) : clampCount n ≠ 255 := by
  intro h
  have hcount := congrArg UInt8.toNat h
  rw [toNat_clampCount] at hcount
  have h255 : (255 : UInt8).toNat = 255 := rfl
  omega

variable {depth : Nat}

theorem truthful_ofStatus (config : Config) (uses : List Connector.Use) {c : Connector depth}
    {steps : List Step} (huses : (Connector.ofConfig config).useAll uses = (c, steps))
    (known : StatusFlags) (pendingSend pendingReceive : Nat) (measurements : Measurements) :
    (ofStatus known c.status pendingSend pendingReceive measurements).Truthful c steps known
      pendingSend pendingReceive measurements := by
  obtain ⟨hconnected, hclosed⟩ := Connector.orientation_useAll config uses huses
  have hflags : (ofStatus known c.status pendingSend pendingReceive measurements).flags =
      known.withOrientation (if c.status.isConnected then c.status.orientation else none) :=
    congrArg known.withOrientation c.status.orientation_flags
  have horientation : (ofStatus known c.status pendingSend pendingReceive
      measurements).flags.orientation =
      if c.status.isConnected then c.status.orientation else none := by
    rw [hflags, Flags.orientation_withOrientation]
  exact {
    connected_iff := by
      rw [horientation]
      constructor
      · intro h
        obtain ⟨o, ho, hlast⟩ := hconnected h
        exact ⟨o, hlast, by rw [if_pos h, ho]⟩
      · rintro ⟨o, -, ho⟩
        by_contra h
        rw [if_neg h] at ho
        cases ho
    orientation_eq_none := fun h => by rw [horientation, if_neg h]
    bit_eq_false := fun h i hlow hhigh => by
      rw [hflags, if_neg h, Flags.bit_withOrientation_none, if_pos (by omega)]
    bit_eq := fun i hi => by
      rw [hflags]
      cases (if c.status.isConnected then c.status.orientation else none) with
      | none => rw [Flags.bit_withOrientation_none, if_neg (by omega)]
      | some o => rw [Flags.bit_withOrientation_some, if_neg (by omega), if_neg (by omega)]
    pendingSend_eq := toNat_clampCount _
    pendingReceive_eq := toNat_clampCount _
    count_ne := ⟨clampCount_ne _, clampCount_ne _⟩
    measurements_eq := rfl }

/-- Whatever a connector went through, the response made of its status is written and read as one
that tells the truth. -/
theorem truthful_of_encode (config : Config) (uses : List Connector.Use) {c : Connector depth}
    {steps : List Step} (huses : (Connector.ofConfig config).useAll uses = (c, steps))
    (known : StatusFlags) (pendingSend pendingReceive : Nat) (measurements : Measurements)
    {buffer : Bytes} {offset : Nat} (hroom : offset + byteLength ≤ buffer.length) :
    ∃ written r,
      (ofStatus known c.status pendingSend pendingReceive measurements).encode buffer offset =
        .ok written ∧
      ofBytes (written.drop offset) = .ok r ∧
      r.Truthful c steps known pendingSend pendingReceive measurements := by
  have hencode := roundTrips.encode_eq
    (ofStatus known c.status pendingSend pendingReceive measurements) buffer offset hroom
  exact ⟨_, _, hencode, roundTrips.ofBytes_encode _ _ _ _ hencode,
    truthful_ofStatus config uses huses known pendingSend pendingReceive measurements⟩

/-- A connection, and another one after it in a different orientation. -/
def reconnection : List Connector.Use :=
  [.handle .contactMade 0, .handle .partnerPresent 10, .handle (.orientationDetected .north) 20,
    .handle .partnerAcknowledged 30, .takeEvent, .observe (.receiveFailed .crcMismatch 3) 40,
    .handle .contactLost 50, .handle .contactMade 60, .handle .partnerPresent 70,
    .handle .partnerAcknowledged 80, .handle (.orientationDetected .west) 90]

theorem reconnection_truthful :
    let (c, steps) := (Connector.ofConfig {} : Connector 4).useAll reconnection
    c.status.isConnected ∧ lastConnection? steps = some .west ∧
      3 + byteLength ≤ (List.replicate 20 (0x55 : UInt8)).length ∧
      ∃ written r,
        (ofStatus ⟨0xFFFF⟩ c.status 300 7 { externalCurrent := -2 }).encode
          (List.replicate 20 0x55) 3 = .ok written ∧
        ofBytes (written.drop 3) = .ok r ∧
        r.Truthful c steps ⟨0xFFFF⟩ 300 7 { externalCurrent := -2 } :=
  ⟨by decide, by decide, by decide,
    truthful_of_encode {} reconnection rfl ⟨0xFFFF⟩ 300 7 _ (by decide)⟩

end StatusResponse

end DockLink
