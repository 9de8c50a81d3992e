import DockLink.Proofs.Mating.Handshake

/-!
# The windows of a detection

A detection gives the partner a first window and `detectRetries` more. Each window ends with a
timeout that starts the next one at its own time, and the last one ends the detection. Whatever else
comes in neither lengthens nor shortens a window, and takes none of them away.
-/

namespace DockLink

/-- A point in time that cannot be expressed gives way to the last one that can. -/
theorem Tick.toNat_after (t d : Tick) :
    (t.after d).toNat = min (t.toNat + d.toNat) (UInt64.size - 1) := by
  have hsize : UInt64.size = 18446744073709551616 := rfl
  have ht := t.toNat_lt
  have hd := d.toNat_lt
  have hlast : (0xFFFFFFFFFFFFFFFF : UInt64).toNat = UInt64.size - 1 := rfl
  have hle : t ≤ 0xFFFFFFFFFFFFFFFF := UInt64.le_iff_toNat_le.2 (by rw [hlast]; omega)
  have hleft : ((0xFFFFFFFFFFFFFFFF : UInt64) - t).toNat = UInt64.size - 1 - t.toNat := by
    rw [UInt64.toNat_sub_of_le _ _ hle, hlast]
  unfold after
  split
  · rename_i hfits
    have hfits := UInt64.le_iff_toNat_le.1 hfits
    rw [UInt64.toNat_add]
    omega
  · rename_i hlate
    have hlate := mt UInt64.le_iff_toNat_le.2 hlate
    rw [hlast]
    omega

namespace Mating

/-- How often a deadline passed. -/
def History.timeouts (h : History) : Nat := h.countP fun i => i.1 = .timeout

theorem History.timeouts_concat (h : History) (i : Input × Tick) :
    History.timeouts (h ++ [i]) = h.timeouts + if i.1 = .timeout then 1 else 0 := by
  simp [timeouts, List.countP_append, List.countP_singleton]

namespace Machine

variable {m : Machine} {config : Config} {input : Input} {now : Tick} {result : Machine × Effect}
  {k : Nat} {entry : Input × Tick} {since part : History}

/-- A machine waits for the partner, and has started over so many times. -/
structure Awaits (config : Config) (k : Nat) (m : Machine) : Prop where
  config_eq : m.config = config
  detecting : m.state = .detecting
  retries_eq : m.retries.toNat = k
  deadline_isSome : m.deadline.isSome

theorem agree_undetecting (m : Machine) :
    (m.agree.1.state = .detecting → m.state = .detecting) ∧
      m.agree.2.event ≠ some .detectionFailed := by
  obtain hagree | ⟨_, -, -, hagree⟩ := agree_cases m
  · rw [hagree]
    exact ⟨id, nofun⟩
  · rw [hagree]
    exact ⟨nofun, nofun⟩

/-- A detection begins with a window. -/
theorem Turns.awaits_entry (hturns : m.Turns now input result) (hbefore : m.state ≠ .detecting)
    (hafter : result.1.state = .detecting) : result.1.Awaits m.config 0 := by
  cases hturns with
  | detect => exact ⟨rfl, rfl, rfl, rfl⟩
  | detectAgain => exact ⟨rfl, rfl, rfl, rfl⟩
  | retry detecting => exact absurd detecting hbefore
  | ignore => exact absurd hafter hbefore
  | sense => exact absurd hafter hbefore
  | unsense => exact absurd hafter hbefore
  | learn => exact absurd ((agree_undetecting _).1 hafter) hbefore
  | hear => exact absurd ((agree_undetecting _).1 hafter) hbefore
  | _ => cases hafter

/-- Only a timeout ends a window. -/
theorem Awaits.turns (h : m.Awaits config k) (hinput : input ≠ .timeout)
    (hturns : m.Turns now input result) (hafter : result.1.state = .detecting) :
    result.1.Awaits config k := by
  have hdetecting := h.detecting
  cases hturns with
  | ignore => exact h
  | sense => exact ⟨h.config_eq, hdetecting, h.retries_eq, h.deadline_isSome⟩
  | unsense idle => simp [hdetecting] at idle
  | detect idle => simp [hdetecting] at idle
  | detectAgain idle => simp [hdetecting] at idle
  | learn negotiating => simp [hdetecting] at negotiating
  | hear negotiating => simp [hdetecting] at negotiating
  | retry => exact absurd rfl hinput
  | _ => cases hafter

theorem Awaits.timeout_of_more (h : m.Awaits config k) (hmore : k < config.detectRetries.toNat)
    (now : Tick) : m.transition .timeout now = m.awaitPartner (m.retries + 1) now := by
  have hlt : m.retries < m.config.detectRetries := by
    rw [UInt8.lt_iff_toNat_lt, h.retries_eq, h.config_eq]
    exact hmore
  simp [transition, expire, h.deadline_isSome, h.detecting, hlt]

theorem Awaits.timeout_of_last (h : m.Awaits config k) (hlast : config.detectRetries.toNat ≤ k)
    (now : Tick) : m.transition .timeout now = m.rest (some .detectionFailed) := by
  have hle : ¬m.retries < m.config.detectRetries := by
    rw [UInt8.lt_iff_toNat_lt, h.retries_eq, h.config_eq]
    exact Nat.not_lt.2 hlast
  simp [transition, expire, h.deadline_isSome, h.detecting, hle]

theorem Awaits.retry (h : m.Awaits config k) (hmore : k < config.detectRetries.toNat)
    (now : Tick) : (m.awaitPartner (m.retries + 1) now).1.Awaits config (k + 1) where
  config_eq := h.config_eq
  detecting := rfl
  retries_eq := by
    have hlt : m.retries < config.detectRetries := by
      rwa [UInt8.lt_iff_toNat_lt, h.retries_eq]
    exact (toNat_succ_of_lt hlt).trans (congrArg (· + 1) h.retries_eq)
  deadline_isSome := rfl

theorem Turns.timeout_of_failed (hturns : m.Turns now input result)
    (hevent : result.2.event = some .detectionFailed) : input = .timeout := by
  cases hturns with
  | expire => rfl
  | learn => exact absurd hevent (agree_undetecting _).2
  | hear => exact absurd hevent (agree_undetecting _).2
  | _ => cases hevent

/-- How the window ends that comes after `k` others. -/
structure Window (config : Config) (k : Nat) (m : Machine) : Prop where
  le : k ≤ config.detectRetries.toNat
  /-- If windows are left, the next one is as long as the first, from the time of the timeout on. -/
  again : k < config.detectRetries.toNat → ∀ now, ∃ deadline : Tick,
    deadline.toNat = min (now.toNat + config.presenceTimeout.toNat) (UInt64.size - 1) ∧
      (m.handle .timeout now).1.state = .detecting ∧
      (m.handle .timeout now).1.deadline = some deadline ∧
      (m.handle .timeout now).2.timer = .arm deadline
  last : k = config.detectRetries.toNat → ∀ now, (m.handle .timeout now).1.state = .idle
  failed_iff : ∀ input now, (m.handle input now).2.event = some .detectionFailed ↔
    input = .timeout ∧ k = config.detectRetries.toNat

theorem Awaits.window (h : m.Awaits config k) (hk : k ≤ config.detectRetries.toNat) :
    m.Window config k where
  le := hk
  again hmore now := by
    refine ⟨now.after config.presenceTimeout, Tick.toNat_after _ _, ?_⟩
    rw [handle, h.timeout_of_more hmore, awaitPartner, h.config_eq]
    exact ⟨rfl, rfl, rfl⟩
  last hlast now := by
    rw [handle, h.timeout_of_last (Nat.le_of_eq hlast.symm)]
    rfl
  failed_iff input now := by
    have hstep : (m.handle input now).2.event = (m.transition input now).2.event := rfl
    rw [hstep]
    constructor
    · intro hevent
      obtain rfl := (m.turns_transition input now).timeout_of_failed hevent
      refine ⟨rfl, Nat.le_antisymm hk (Nat.not_lt.1 fun hmore => ?_)⟩
      rw [h.timeout_of_more hmore] at hevent
      cases hevent
    · rintro ⟨rfl, hlast⟩
      rw [h.timeout_of_last (Nat.le_of_eq hlast.symm)]
      rfl

/-! ## Runs -/

/-- The first input entered a detection, which lasted while the others came in. -/
structure Detects (m : Machine) (entry : Input × Tick) (since : History) : Prop where
  entered : m.state ≠ .detecting
  lasts : ∀ part, part <+: since → (m.run (entry :: part)).state = .detecting

theorem Detects.mono (h : m.Detects entry since) (hpart : part <+: since) :
    m.Detects entry part :=
  ⟨h.entered, fun earlier hearlier => h.lasts earlier (hearlier.trans hpart)⟩

/-- Each timeout of a detection was the end of a window, and nothing else was. -/
theorem Detects.awaits (h : m.Detects entry since) :
    (m.run (entry :: since)).Awaits m.config since.timeouts ∧
      since.timeouts ≤ m.config.detectRetries.toNat := by
  induction since using List.reverseRecOn with
  | nil =>
      have hentry := h.lasts [] (List.prefix_refl _)
      exact ⟨(m.turns_transition entry.1 entry.2).awaits_entry h.entered hentry, Nat.zero_le _⟩
  | append_singleton since i ih =>
      obtain ⟨hawaits, hle⟩ := ih (h.mono (List.prefix_append _ _))
      have hafter := h.lasts _ (List.prefix_refl _)
      rw [← List.cons_append, run_concat] at hafter ⊢
      rw [History.timeouts_concat]
      split
      · rename_i hinput
        rw [hinput] at hafter ⊢
        have hmore : History.timeouts since < m.config.detectRetries.toNat := by
          refine Nat.not_le.1 fun hlast => ?_
          rw [hawaits.timeout_of_last hlast] at hafter
          cases hafter
        rw [hawaits.timeout_of_more hmore]
        exact ⟨hawaits.retry hmore _, hmore⟩
      · rename_i hinput
        exact ⟨hawaits.turns hinput (turns_transition _ _ _) hafter, hle⟩

/-- A machine at rest does not wait for anything. -/
theorem Coherent.run_timeouts_idle (times : List Tick) (h : m.Coherent) (hidle : m.state = .idle) :
    m.run (times.map (.timeout, ·)) = m := by
  induction times with
  | nil => rfl
  | cons now rest ih =>
      have hnone : ¬m.deadline.isSome := by
        rw [h.deadline_iff, hidle]
        exact Bool.false_ne_true
      have hignore : (m.handle .timeout now).1 = m := by
        simp [Machine.handle, transition, hnone]
      rw [List.map_cons, Machine.run, hignore, ih]

theorem Coherent.run_more_timeouts (h : m.Coherent) (hstate : m.state ≠ .connected)
    {times : List Tick} (hlength : m.config.detectRetries.toNat < times.length) :
    (m.run (times.map (.timeout, ·))).state = .idle := by
  by_cases hidle : m.state = .idle
  · rw [h.run_timeouts_idle times hidle, hidle]
  · have hwaiting : m.state.isWaiting := by
      cases hs : m.state with
      | idle => exact absurd hs hidle
      | connected => exact absurd hs hstate
      | _ => rfl
    have hwindows : m.windows ≤ times.length := m.windows_le.trans hlength
    have hrest := h.run_timeouts (times.take m.windows) hwaiting (List.length_take_of_le hwindows)
    rw [← List.take_append_drop m.windows times, List.map_append, run_append,
      (h.run _).run_timeouts_idle _ hrest]
    exact hrest

/-- A detection has `detectRetries + 1` windows, whoever entered it and whatever else came in: each
timeout but the last one starts another window at its own time, and the last one, and nothing else,
lets the detection fail. Unless it is connected, a machine is at rest after so many timeouts in a
row. -/
theorem detection_windows (config : Config) :
    (∀ m entry since, m.config = config → Detects m entry since →
      (m.run (entry :: since)).Window config since.timeouts) ∧
    ∀ m, Reachable config m → m.state ≠ .connected → ∀ times : List Tick,
      config.detectRetries.toNat + 1 = times.length →
        (m.run (times.map (.timeout, ·))).state = .idle := by
  refine ⟨?_, ?_⟩
  · rintro m entry since rfl hdetects
    obtain ⟨hawaits, hle⟩ := hdetects.awaits
    exact hawaits.window hle
  · rintro m ⟨inputs, rfl⟩ hstate times hlength
    have hcoherent := (Coherent.fresh config).run inputs
    refine hcoherent.run_more_timeouts hstate ?_
    rw [config_run]
    exact Nat.lt_of_succ_le (Nat.le_of_eq hlength)

/-- Three windows of a detection, with inputs between their ends that mean nothing to it. -/
def noisyDetection : History :=
  [(.timeout, 100000), (.connect, 150000), (.contactMade, 160000), (.timeout, 7),
    (.linkFault 255, 8), (.orientationDetected .north, 9), (.timeout, 0xFFFFFFFFFFFFFFFF)]

/-- The fourth window is the last one, of the detection and of any four timeouts in a row. -/
theorem noisyDetection_windows :
    ∃ m, run { config := {} } ((.contactMade, 0) :: noisyDetection) = m ∧ m.Window {} 3 ∧
      (m.handle .timeout 5).2.event = some .detectionFailed ∧
      (m.run [(.timeout, 5), (.timeout, 0), (.timeout, 6), (.timeout, 6)]).state = .idle := by
  obtain ⟨hwindows, hrest⟩ := detection_windows {}
  have hlasts : ∀ n < 8,
      (run { config := {} } ((.contactMade, 0) :: noisyDetection.take n)).state = .detecting := by
    decide
  have hdetects : Detects { config := {} } (.contactMade, 0) noisyDetection := by
    refine ⟨State.noConfusion, fun part hpart => ?_⟩
    rw [List.prefix_iff_eq_take.1 hpart]
    exact hlasts _ (Nat.lt_succ_of_le hpart.length_le)
  have hwindow := hwindows _ _ _ rfl hdetects
  refine ⟨_, rfl, hwindow, (hwindow.failed_iff _ _).2 ⟨rfl, rfl⟩, ?_⟩
  exact hrest _ ⟨_, rfl⟩ (by decide) [5, 0, 6, 6] rfl

end Machine

end Mating

end DockLink
