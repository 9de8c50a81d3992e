import DockLink.Proofs.Mating.Vigil

/-!
# Punctual watches

When a watch is let go on at one time, each timeout that it feeds may set another deadline at once,
and that may be due already. But each uses up one of the windows that the wait has left, and between
two timeouts the watch only reads the timer again (`patience`). So it comes to a halt, and then no
deadline that has passed is left.
-/

namespace DockLink

open Mating

variable {depth : Nat}

namespace Vigil

variable {config : Config} {v v' : Vigil depth} {n : Nat} {steps : List Mating.Step}
  {r : Watch × Connector depth × Option Mating.Step}

/-- The number of deadlines that can pass before the connection is at rest or made. -/
def windows (v : Vigil depth) : Nat :=
  if v.connector.machine.state.isWaiting then v.connector.machine.windows else 0

/-- The number of turns until the watch waits for what the timer says. -/
def lag (v : Vigil depth) : Nat :=
  if v.watch.generation? = some v.connector.generation then 0
  else if v.watch.time?.isSome then 2 else 1

/-- The number of turns that a watch can take at one time. -/
def patience (v : Vigil depth) : Nat := 2 * v.windows + v.lag

theorem windows_feed (h : v.connector.machine.Coherent)
    (hwaiting : v.connector.machine.state.isWaiting) (now : Tick) :
    v.windows = 1 + (v.tell .timeout now).windows := by
  have hmachine : (v.tell .timeout now).connector.machine =
      (v.connector.machine.handle .timeout now).1 := v.connector.machine_handle .timeout now
  rw [windows, windows, hmachine, if_pos hwaiting]
  obtain ⟨hlast, hidle⟩ | ⟨hwaiting', hwindows⟩ := h.handle_timeout hwaiting now
  · have hrest : ¬(v.connector.machine.handle .timeout now).1.state.isWaiting := by
      rw [hidle]
      nofun
    rw [if_neg hrest, hlast]
  · rw [if_pos hwaiting', hwindows, Nat.add_comm]

theorem windows_le (h : v.Kept config) : v.windows ≤ config.detectRetries.toNat + 1 := by
  unfold windows
  split
  · rw [← h.config_eq]
    exact v.connector.machine.windows_le
  · exact Nat.zero_le _

theorem lag_le (v : Vigil depth) : v.lag ≤ 2 := by
  unfold lag
  split
  · exact Nat.zero_le _
  · split
    · exact Nat.le_refl _
    · exact Nat.le_succ _

/-- What becomes of the numbers of a vigil in a turn that feeds so many timeouts. -/
structure Spends (v : Vigil depth) (fed : Nat) (v' : Vigil depth) : Prop where
  fresh : v'.unseen < UInt32.size
  windows_eq : v.windows = fed + v'.windows
  lag_eq : 2 * fed + v.lag = v'.lag + 1

theorem spends_read (c : Connector depth) (now : Tick) (timers : List TimerAction) (seen : Nat)
    {known : Option UInt32} (news : known ≠ some c.generation) :
    Spends ⟨c, .change known, now, timers, seen⟩ 0 ⟨c, .reading c, now, timers, timers.length⟩ where
  fresh := by
    rw [unseen_of_generation? (Watch.generation?_reading c), Nat.sub_self]
    decide
  windows_eq := (Nat.zero_add _).symm
  lag_eq := by
    have hlag : lag (⟨c, .change known, now, timers, seen⟩ : Vigil depth) = 1 := if_neg news
    have hlag' : lag (⟨c, .reading c, now, timers, timers.length⟩ : Vigil depth) = 0 :=
      if_pos (Watch.generation?_reading c)
    rw [hlag, hlag']

theorem spends_notice (c : Connector depth) (now : Tick) (timers : List TimerAction) (seen : Nat)
    {generation : UInt32} {time : Tick} (news : c.generation ≠ generation) {known : Option UInt32}
    (hknown : known = some generation ∨ known = none)
    (fresh : timers.length - seen < UInt32.size) :
    Spends ⟨c, .deadline generation time, now, timers, seen⟩ 0
      ⟨c, .change known, now, timers, seen⟩ where
  fresh := by
    rcases hknown with rfl | rfl
    · exact fresh
    · exact (by decide : 0 < UInt32.size)
  windows_eq := (Nat.zero_add _).symm
  lag_eq := by
    have hstale : some generation ≠ some c.generation := fun h => news (Option.some.inj h).symm
    have hknown' : known ≠ some c.generation := by
      rcases hknown with rfl | rfl
      · exact hstale
      · nofun
    have hlag : lag (⟨c, .deadline generation time, now, timers, seen⟩ : Vigil depth) = 2 :=
      if_neg hstale
    have hlag' : lag (⟨c, .change known, now, timers, seen⟩ : Vigil depth) = 1 :=
      if_neg hknown'
    rw [hlag, hlag']

theorem Kept.spends_feed {c : Connector depth} {now time : Tick} {timers : List TimerAction}
    {seen : Nat}
    (h : Kept config (⟨c, .deadline c.generation time, now, timers, seen⟩ : Vigil depth))
    (fresh : unseen (⟨c, .deadline c.generation time, now, timers, seen⟩ : Vigil depth) <
      UInt32.size) :
    Spends ⟨c, .deadline c.generation time, now, timers, seen⟩ 1
      ⟨(c.handle .timeout now).1, .change (some c.generation), now,
        (c.handle .timeout now).2.timer.log timers, seen⟩ := by
  obtain ⟨hseen, hdeadline⟩ := h.current fresh rfl
  have hlog := h.timer_fed hdeadline
  have hchange : (c.handle .timeout now).2.timer ≠ .keep :=
    h.coherent.timer_timeout (h.waiting hdeadline) now
  have hgeneration : (c.handle .timeout now).1.generation = c.generation + 1 :=
    (c.generation_handle .timeout now).trans (if_neg hchange)
  exact {
    fresh := by
      have hunseen : ((c.handle .timeout now).2.timer.log timers).length - seen < UInt32.size := by
        have hseen' : seen = timers.length := hseen
        rw [hlog, List.length_cons, hseen', Nat.add_sub_cancel_left]
        decide
      exact hunseen
    windows_eq := windows_feed h.coherent (h.waiting hdeadline) now
    lag_eq := by
      have hstale : some c.generation ≠ some (c.handle .timeout now).1.generation := by
        rw [hgeneration]
        exact fun heq => absurd (Option.some.inj heq) (by grind)
      have hlag : lag (⟨c, .deadline c.generation time, now, timers, seen⟩ : Vigil depth) = 0 :=
        if_pos rfl
      have hlag' : lag (⟨(c.handle .timeout now).1, .change (some c.generation), now,
          (c.handle .timeout now).2.timer.log timers, seen⟩ : Vigil depth) = 1 := if_neg hstale
      rw [hlag, hlag'] }

theorem Kept.spends (h : v.Kept config) (fresh : v.unseen < UInt32.size)
    (hturns : v.watch.Turns v.connector v.now r) :
    v.Spends r.2.2.toList.length (v.turn r) := by
  obtain ⟨c, w, now, timers, seen⟩ := v
  change w.Turns c now r at hturns
  cases hturns with
  | read news => exact spends_read c now timers seen news
  | feed due => exact h.spends_feed fresh
  | hold news due => exact spends_notice c now timers seen news (.inl rfl) fresh
  | giveUp news => exact spends_notice c now timers seen news (.inr rfl) fresh

/-! ## Turns at one time -/

/-- So many turns at one time, one after another, and the steps of the timeouts that are fed. -/
inductive Passes : Vigil depth → List Mating.Step → Nat → Vigil depth → Prop where
  | stay (v : Vigil depth) : Passes v [] 0 v
  | turn {v v' : Vigil depth} {r : Watch × Connector depth × Option Mating.Step}
      {steps : List Mating.Step} {n : Nat} (turns : v.watch.Turns v.connector v.now r)
      (rest : Passes (v.turn r) steps n v') : Passes v (r.2.2.toList ++ steps) (n + 1) v'

/-- The watch waits, and the wait is not over. -/
def Halted (v : Vigil depth) : Prop := ∀ r, ¬v.watch.Turns v.connector v.now r

theorem halted_iff : v.Halted ↔ v.watch.step? v.connector v.now = none := by
  constructor
  · intro h
    refine Option.eq_none_iff_forall_not_mem.2 fun r hr => h r (Watch.turns_iff.2 (.inl hr))
  · rintro h r hturns
    rcases Watch.turns_iff.1 hturns with hstep | ⟨generation, time, hwatch, news, -⟩
    · rw [h] at hstep
      cases hstep
    · rw [hwatch, Watch.step?] at h
      split at h
      · cases h
      · cases h

/-- A watch that waits knows the timer's last change, and its time has not come. -/
theorem Halted.watch (halted : v.Halted) :
    v.watch.generation? = some v.connector.generation ∧
      ∀ time, v.watch.time? = some time → v.now < time := by
  have hstep := halted_iff.1 halted
  cases hwatch : v.watch with
  | change known =>
      rw [hwatch, Watch.step?_change] at hstep
      split at hstep
      · rename_i hknown
        exact ⟨hknown, nofun⟩
      · cases hstep
  | deadline generation time =>
      rw [hwatch, Watch.step?] at hstep
      split at hstep
      · cases hstep
      · rename_i early
        split at hstep
        · rename_i hgeneration
          refine ⟨congrArg some hgeneration.symm, fun time' htime => ?_⟩
          cases htime
          exact UInt64.not_le.1 early
        · cases hstep

/-- A watch that waits has seen every change and left no deadline behind. -/
theorem Kept.caught_up (h : v.Kept config) (fresh : v.unseen < UInt32.size) (halted : v.Halted) :
    v.unseen = 0 ∧ ∀ deadline, v.connector.deadline = some deadline → v.now < deadline := by
  obtain ⟨hgeneration, htime⟩ := halted.watch
  have hseen := (h.generation_eq_iff fresh hgeneration).1 rfl
  refine ⟨?_, fun deadline hdeadline => htime deadline ?_⟩
  · rw [unseen_of_generation? hgeneration, hseen, Nat.sub_self]
  · rw [← h.deadline_eq (Option.isSome_of_eq_some hgeneration) hseen]
    exact hdeadline

/-- What holds of a vigil after turns at one time. -/
structure Passed (config : Config) (v : Vigil depth) (steps : List Mating.Step) (n : Nat)
    (v' : Vigil depth) : Prop where
  reachable : v'.Reachable config
  fresh : v'.unseen < UInt32.size
  now_eq : v'.now = v.now
  windows_eq : v.windows = steps.length + v'.windows
  patience_eq : v.patience = n + v'.patience

theorem Passes.passed (h : Passes v steps n v') (hv : v.Reachable config)
    (fresh : v.unseen < UInt32.size) : Passed config v steps n v' := by
  induction h with
  | stay v =>
      exact ⟨hv, fresh, rfl, (Nat.zero_add _).symm, (Nat.zero_add _).symm⟩
  | turn turns rest ih =>
      have hspends := hv.kept.spends fresh turns
      have hrest := ih (hv.turn fresh turns) hspends.fresh
      have hwindows := hspends.windows_eq
      have hlag := hspends.lag_eq
      have hwindows' := hrest.windows_eq
      have hpatience' := hrest.patience_eq
      -- A turn lowers the patience by one: a timeout takes two for its window and gives one back
      -- as lag.
      refine ⟨hrest.reachable, hrest.fresh, hrest.now_eq, ?_, ?_⟩
      · rw [List.length_append]
        omega
      · unfold patience at *
        omega

theorem Kept.patience_le (h : v.Kept config) :
    v.patience ≤ 2 * (config.detectRetries.toNat + 1) + 2 := by
  have hwindows := windows_le h
  have hlag := v.lag_le
  unfold patience
  omega

/-- A watch that is let go on for so many waits takes so many turns, or halts before. -/
theorem passes_runUpTo (bound : Nat) (v : Vigil depth) :
    ∃ steps n v', v.Passes steps n v' ∧ (n = bound ∨ v'.Halted) ∧
      v.watch.runUpTo bound v.connector v.now = (v'.watch, v'.connector, steps) := by
  induction bound generalizing v with
  | zero => exact ⟨[], 0, v, .stay v, .inl rfl, rfl⟩
  | succ bound ih =>
      cases hstep : v.watch.step? v.connector v.now with
      | none =>
          refine ⟨[], 0, v, .stay v, .inr (halted_iff.2 hstep), ?_⟩
          rw [Watch.runUpTo, hstep]
      | some r =>
          obtain ⟨steps, n, v', hpasses, hend, hrun⟩ := ih (v.turn r)
          have hrest : r.1.runUpTo bound r.2.1 v.now = (v'.watch, v'.connector, steps) := hrun
          refine ⟨_, n + 1, v', .turn (Watch.turns_iff.2 (.inl hstep)) hpasses, ?_, ?_⟩
          · exact hend.imp_left (congrArg Nat.succ)
          · simp only [Watch.runUpTo, hstep, hrest]

/-- At any time, a watch feeds at most as many timeouts as there are presence windows, and comes to
a halt. When it has halted, however it got there, it has seen every change, and every deadline that
is left lies ahead. -/
theorem punctual_of_reachable (h : Reachable config v) (fresh : v.unseen < UInt32.size) :
    (∀ steps n v', v.Passes steps n v' →
      Reachable config v' ∧ n ≤ 2 * (config.detectRetries.toNat + 1) + 2 ∧
      steps.length ≤ config.detectRetries.toNat + 1 ∧
      (v'.Halted → v'.unseen = 0 ∧
        ∀ deadline, v'.connector.deadline = some deadline → v.now < deadline)) ∧
    ∃ steps n v', v.Passes steps n v' ∧ v'.Halted ∧
      v.watch.run v.connector v.now = (v'.watch, v'.connector, steps) := by
  have hpatience := h.kept.patience_le
  have hwindows := windows_le h.kept
  refine ⟨fun steps n v' hpasses => ?_, ?_⟩
  · have hpassed := hpasses.passed h fresh
    have hn := hpassed.patience_eq
    have hlength := hpassed.windows_eq
    refine ⟨hpassed.reachable, by omega, by omega, fun halted => ?_⟩
    rw [← hpassed.now_eq]
    exact hpassed.reachable.kept.caught_up hpassed.fresh halted
  · obtain ⟨steps, n, v', hpasses, hend, hrun⟩ := passes_runUpTo (Watch.bound v.connector) v
    refine ⟨steps, n, v', hpasses, hend.resolve_left fun hn => ?_, hrun⟩
    -- The run may take more turns than there is patience for.
    have hn' := (hpasses.passed h fresh).patience_eq
    rw [Watch.bound, h.kept.config_eq] at hn
    omega

/-- Contact is sensed when there is no time to wait for a partner. -/
def hurried : Vigil 4 :=
  ({ connector := .ofConfig { presenceTimeout := 0 } } : Vigil 4).tell .contactMade 5 |>.wait 5

/-- All four windows pass at once, and nothing is left to wait for. -/
theorem punctual_hurried : ∃ steps n v', hurried.Passes steps n v' ∧ v'.Halted ∧ v'.unseen = 0 ∧
    steps.length = 4 ∧ v'.connector.deadline = none := by
  have hreach : Reachable { presenceTimeout := 0 } hurried :=
    .wait (.tell .start .contactMade 5) (by decide)
  obtain ⟨hevery, steps, n, v', hpasses, halted, hrun⟩ := punctual_of_reachable hreach (by decide)
  obtain ⟨-, -, -, hend⟩ := hevery steps n v' hpasses
  have hlength : (hurried.watch.run hurried.connector hurried.now).2.2.length = 4 := by
    decide +kernel
  have hdeadline : (hurried.watch.run hurried.connector hurried.now).2.1.deadline = none := by
    decide +kernel
  rw [hrun] at hlength hdeadline
  exact ⟨steps, n, v', hpasses, halted, (hend halted).1, hlength, hdeadline⟩

end Vigil

end DockLink
