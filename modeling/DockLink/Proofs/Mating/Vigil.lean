import DockLink.Mating.Watch
import DockLink.Proofs.Mating.Timer

/-!
# A watch over its connector

A watch reads the timer at one moment and feeds the timeout at another. In between anything may be
told to the connector, with any time stamp, and any time may pass. What keeps the watch from feeding
a timeout for a deadline that is gone is the number of timer changes, as long as it does not come
round: as long as fewer than 2 ^ 32 changes go unseen.
-/

namespace DockLink

open Mating

variable {depth : Nat}

namespace Watch

/-- The number of timer changes that a watch remembers. -/
def generation? : Watch → Option UInt32
  | .change seen => seen
  | .deadline generation _ => some generation

/-- The deadline that a watch waits for. -/
def time? : Watch → Option Tick
  | .change _ => none
  | .deadline _ time => some time

/-- What a watch waits for after it has read the timer of a connector. -/
def reading (c : Connector depth) : Watch :=
  match c.deadline with
  | none => .change (some c.generation)
  | some time => .deadline c.generation time

@[simp]
theorem generation?_reading (c : Connector depth) :
    (reading c).generation? = some c.generation := by
  unfold reading
  split
  · rfl
  · rfl

@[simp]
theorem time?_reading (c : Connector depth) : (reading c).time? = c.deadline := by
  unfold reading
  split
  · rename_i hnone
    exact hnone.symm
  · rename_i time htime
    exact htime.symm

/-- The end of a wait, and what becomes of the watch and the connector. When the time has come and
the timer has changed as well, either of the two may be noticed. -/
inductive Turns (c : Connector depth) (now : Tick) :
    Watch → Watch × Connector depth × Option Mating.Step → Prop where
  | read {seen : Option UInt32} (news : seen ≠ some c.generation) :
      Turns c now (.change seen) (reading c, c, none)
  | feed {time : Tick} (due : time ≤ now) :
      Turns c now (.deadline c.generation time)
        (.change (some c.generation), (c.handle .timeout now).1,
          some (c.handle .timeout now).2)
  /-- The timeout is held back, since the timer has changed. -/
  | hold {generation : UInt32} {time : Tick} (news : c.generation ≠ generation)
      (due : time ≤ now) :
      Turns c now (.deadline generation time) (.change (some generation), c, none)
  | giveUp {generation : UInt32} {time : Tick} (news : c.generation ≠ generation) :
      Turns c now (.deadline generation time) (.change none, c, none)

variable {c : Connector depth} {now : Tick} {w : Watch}
  {r : Watch × Connector depth × Option Mating.Step}

theorem step?_change (seen : Option UInt32) (c : Connector depth) (now : Tick) :
    (Watch.change seen).step? c now =
      if seen = some c.generation then none else some (reading c, c, none) := by
  rw [step?, reading]
  cases c.deadline with
  | none => rfl
  | some time => rfl

/-- A watch takes a turn when it goes on, or when it could and notices the other thing. -/
theorem turns_iff : Turns c now w r ↔
    w.step? c now = some r ∨ ∃ generation time, w = .deadline generation time ∧
      c.generation ≠ generation ∧ r = (.change none, c, none) := by
  constructor
  · intro hturns
    cases hturns with
    | read news =>
        rw [step?_change, if_neg news]
        exact .inl rfl
    | feed due =>
        rw [step?, if_pos due, Connector.expire, if_pos rfl]
        exact .inl rfl
    | hold news due =>
        rw [step?, if_pos due, Connector.expire, if_neg news]
        exact .inl rfl
    | giveUp news => exact .inr ⟨_, _, rfl, news, rfl⟩
  · rintro (hstep | ⟨generation, time, rfl, news, rfl⟩)
    · cases w with
      | change seen =>
          rw [step?_change] at hstep
          split at hstep
          · cases hstep
          · rename_i news
            cases hstep
            exact .read news
      | deadline generation time =>
          by_cases hgeneration : c.generation = generation
          · subst hgeneration
            by_cases due : time ≤ now
            · rw [step?, if_pos due, Connector.expire, if_pos rfl] at hstep
              cases hstep
              exact .feed due
            · rw [step?, if_neg due, if_pos rfl] at hstep
              cases hstep
          · by_cases due : time ≤ now
            · rw [step?, if_pos due, Connector.expire, if_neg hgeneration] at hstep
              cases hstep
              exact .hold hgeneration due
            · rw [step?, if_neg due, if_neg hgeneration] at hstep
              cases hstep
              exact .giveUp hgeneration
    · exact .giveUp news

end Watch

/-- A connector and its watch over time. The timer changes there were are noted, the last one
first. -/
structure Vigil (depth : Nat) where
  connector : Connector depth
  watch : Watch := .start
  now : Tick := 0
  timers : List TimerAction := []
  /-- The number of timer changes there were when the watch last read the timer. -/
  seen : Nat := 0

namespace Vigil

/-- The number of timer changes since the watch read what it remembers. -/
def unseen (v : Vigil depth) : Nat :=
  if v.watch.generation?.isSome then v.timers.length - v.seen else 0

/-- Tells the connector something, with any time stamp. -/
def tell (v : Vigil depth) (input : Input) (stamp : Tick) : Vigil depth :=
  let (connector, step) := v.connector.handle input stamp
  { v with connector, timers := step.timer.log v.timers }

/-- Lets time pass. -/
def wait (v : Vigil depth) (now : Tick) : Vigil depth := { v with now }

/-- Goes on with the watch after a wait that is over. -/
def turn (v : Vigil depth) (r : Watch × Connector depth × Option Mating.Step) : Vigil depth :=
  { v with
    watch := r.1
    connector := r.2.1
    timers := r.2.2.elim v.timers (·.timer.log v.timers)
    seen := if v.watch.time?.isSome then v.seen else v.timers.length }

/-- What can come about, from a new connector on, in any order. The watch goes on whenever its wait
is over, but not before too many timer changes went unseen. -/
inductive Reachable (config : Config) : Vigil depth → Prop where
  | start : Reachable config { connector := .ofConfig config }
  | tell {v : Vigil depth} (h : Reachable config v) (input : Input) (stamp : Tick) :
      Reachable config (v.tell input stamp)
  | wait {v : Vigil depth} (h : Reachable config v) {now : Tick} (later : v.now ≤ now) :
      Reachable config (v.wait now)
  | turn {v : Vigil depth} (h : Reachable config v) (fresh : v.unseen < UInt32.size)
      {r : Watch × Connector depth × Option Mating.Step}
      (turns : v.watch.Turns v.connector v.now r) : Reachable config (v.turn r)

/-- What holds of a connector and its watch at every moment. -/
structure Kept (config : Config) (v : Vigil depth) : Prop where
  coherent : v.connector.machine.Coherent
  config_eq : v.connector.machine.config = config
  timed : v.connector.Timed v.timers
  seen_le : v.seen ≤ v.timers.length
  generation_eq : ∀ generation, v.watch.generation? = some generation →
    generation = UInt32.ofNat v.seen
  /-- As long as nothing changes, the watch knows the deadline. -/
  deadline_eq : v.watch.generation?.isSome → v.seen = v.timers.length →
    v.connector.deadline = v.watch.time?

variable {config : Config} {v : Vigil depth} {generation : UInt32}

theorem unseen_of_generation? (h : v.watch.generation? = some generation) :
    v.unseen = v.timers.length - v.seen := by
  rw [unseen, h]
  rfl

/-- The count of timer changes has not come round. -/
theorem Kept.generation_eq_iff (h : v.Kept config) (fresh : v.unseen < UInt32.size)
    (hwatch : v.watch.generation? = some generation) :
    v.connector.generation = generation ↔ v.seen = v.timers.length := by
  have hseen := h.seen_le
  rw [unseen_of_generation? hwatch] at fresh
  rw [h.timed.generation_eq, h.generation_eq _ hwatch]
  constructor
  · intro heq
    -- The two counts agree in thirty-two bits and differ by less than these can hold.
    have hmod : v.timers.length % UInt32.size = v.seen % UInt32.size := by
      simpa only [UInt32.toNat_ofNat'] using congrArg UInt32.toNat heq
    unfold UInt32.size at fresh hmod
    omega
  · intro heq
    rw [heq]

theorem Kept.start (config : Config) :
    Kept config ({ connector := .ofConfig config } : Vigil depth) where
  coherent := .fresh config
  config_eq := rfl
  timed := .ofConfig config
  seen_le := Nat.le_refl _
  generation_eq _ h := by cases h
  deadline_eq h := by cases h

theorem Kept.tell (h : v.Kept config) (input : Input) (stamp : Tick) :
    (v.tell input stamp).Kept config where
  coherent := by
    rw [Vigil.tell, Connector.machine_handle]
    exact h.coherent.handle input stamp
  config_eq := by
    rw [Vigil.tell, Connector.machine_handle]
    exact (v.connector.machine.turns_transition input stamp).config_eq.trans h.config_eq
  timed := h.timed.handle input stamp
  seen_le := Nat.le_trans h.seen_le (TimerAction.length_log_le _ _)
  generation_eq := h.generation_eq
  deadline_eq hsome hseen := by
    have hlog : v.seen = ((v.connector.handle input stamp).2.timer.log v.timers).length := hseen
    have hle := h.seen_le
    have hlength := TimerAction.length_log_le (v.connector.handle input stamp).2.timer v.timers
    have hkeep := TimerAction.eq_keep_of_length_log (hlog.symm.trans (by omega))
    exact (v.connector.deadline_of_keep hkeep).trans (h.deadline_eq hsome (by omega))

theorem Kept.wait (h : v.Kept config) (now : Tick) : (v.wait now).Kept config where
  coherent := h.coherent
  config_eq := h.config_eq
  timed := h.timed
  seen_le := h.seen_le
  generation_eq := h.generation_eq
  deadline_eq := h.deadline_eq

/-- A watch that could feed the timeout has read the timer since its last change. -/
theorem Kept.current (h : v.Kept config) (fresh : v.unseen < UInt32.size) {time : Tick}
    (hwatch : v.watch = .deadline v.connector.generation time) :
    v.seen = v.timers.length ∧ v.connector.deadline = some time := by
  have hgeneration : v.watch.generation? = some v.connector.generation := by
    rw [hwatch]
    rfl
  have hseen := (h.generation_eq_iff fresh hgeneration).1 rfl
  refine ⟨hseen, (h.deadline_eq ?_ hseen).trans ?_⟩
  · rw [hgeneration]
    rfl
  · rw [hwatch]
    rfl

theorem Kept.waiting (h : v.Kept config) {time : Tick}
    (hdeadline : v.connector.deadline = some time) : v.connector.machine.state.isWaiting :=
  h.coherent.deadline_iff.1 (Option.isSome_of_eq_some hdeadline)

theorem Kept.timer_fed (h : v.Kept config) {time : Tick}
    (hdeadline : v.connector.deadline = some time) :
    (v.connector.handle .timeout v.now).2.timer.log v.timers =
      (v.connector.handle .timeout v.now).2.timer :: v.timers :=
  TimerAction.log_of_ne (h.coherent.timer_timeout (h.waiting hdeadline) v.now) _

theorem Kept.turn (h : v.Kept config) (fresh : v.unseen < UInt32.size)
    {r : Watch × Connector depth × Option Mating.Step}
    (hturns : v.watch.Turns v.connector v.now r) : (v.turn r).Kept config := by
  obtain ⟨c, w, now, timers, seen⟩ := v
  change w.Turns c now r at hturns
  cases hturns with
  | read news =>
      exact {
        coherent := h.coherent
        config_eq := h.config_eq
        timed := h.timed
        seen_le := Nat.le_refl _
        generation_eq := fun generation hwatch => by
          cases (Watch.generation?_reading c).symm.trans hwatch
          exact h.timed.generation_eq
        deadline_eq := fun _ _ => (Watch.time?_reading c).symm }
  | feed due =>
      obtain ⟨hseen, hdeadline⟩ := h.current fresh rfl
      have htold := h.tell .timeout now
      exact {
        coherent := htold.coherent
        config_eq := htold.config_eq
        timed := htold.timed
        seen_le := htold.seen_le
        generation_eq := h.generation_eq
        -- The watch still remembers the count from before the timeout.
        deadline_eq := fun _ hlength =>
          have hlog : seen = timers.length + 1 :=
            hlength.trans (congrArg List.length (h.timer_fed hdeadline))
          absurd (hseen.symm.trans hlog) (Nat.succ_ne_self _).symm }
  | hold news due =>
      exact {
        coherent := h.coherent
        config_eq := h.config_eq
        timed := h.timed
        seen_le := h.seen_le
        generation_eq := h.generation_eq
        deadline_eq := fun _ hlength =>
          absurd ((h.generation_eq_iff fresh rfl).2 hlength) news }
  | giveUp news =>
      exact {
        coherent := h.coherent
        config_eq := h.config_eq
        timed := h.timed
        seen_le := h.seen_le
        generation_eq := nofun
        deadline_eq := nofun }

theorem Reachable.kept (h : Reachable config v) : v.Kept config := by
  induction h with
  | start => exact .start config
  | tell _ input stamp ih => exact ih.tell input stamp
  | wait _ _ ih => exact ih.wait _
  | turn _ fresh turns ih => exact ih.turn fresh turns

/-- A timeout that is fed is neither early nor stale: the deadline that the watch waited for is the
one that was set last, the timer did not change since the watch read it, and its time has come. -/
theorem timely_of_reachable (h : Reachable config v) (fresh : v.unseen < UInt32.size)
    {w : Watch} {c : Connector depth} {step : Mating.Step}
    (turns : v.watch.Turns v.connector v.now (w, c, some step)) :
    ∃ deadline earlier, v.watch = .deadline v.connector.generation deadline ∧
      v.connector.deadline = some deadline ∧ v.timers = .arm deadline :: earlier ∧
      v.seen = v.timers.length ∧ deadline ≤ v.now ∧
      (c, step) = v.connector.handle .timeout v.now := by
  have hkept := h.kept
  cases hwatch : v.watch with
  | change seen =>
      rw [hwatch] at turns
      cases turns
  | deadline generation deadline =>
      rw [hwatch] at turns
      cases turns with
      | feed due =>
          obtain ⟨hseen, hdeadline⟩ := hkept.current fresh hwatch
          obtain ⟨earlier, htimers⟩ :=
            TimerAction.armed_eq_some (hkept.timed.deadline_eq.symm.trans hdeadline)
          exact ⟨deadline, earlier, rfl, hdeadline, htimers, hseen, due, rfl⟩

/-- The partner shows up while the watch waits for it, and the first deadline passes. -/
def overtaken : Vigil 4 :=
  let v := tell { connector := .ofConfig {} } .contactMade 0
  let v := v.turn (.reading v.connector, v.connector, none)
  (v.tell .partnerPresent 60000).wait 100000

/-- The watch has noticed, and the second deadline passes. -/
def caughtUp : Vigil 4 :=
  let v := overtaken.turn (.change none, overtaken.connector, none)
  let v := v.turn (.reading v.connector, v.connector, none)
  v.wait 560000

theorem reachable_overtaken : Reachable {} overtaken :=
  have read := Reachable.turn (.tell .start .contactMade 0) (by decide) (.read nofun)
  .wait (.tell read .partnerPresent 60000) (by decide)

theorem reachable_caughtUp : Reachable {} caughtUp :=
  have gaveUp :=
    Reachable.turn reachable_overtaken (by decide +kernel) (.giveUp (by decide +kernel))
  .wait (.turn gaveUp (by decide +kernel) (.read nofun)) (by decide +kernel)

/-- Only the second deadline is fed. -/
theorem timely_caughtUp : ∃ w c step earlier,
    caughtUp.watch.Turns caughtUp.connector caughtUp.now (w, c, some step) ∧
      caughtUp.timers = .arm 560000 :: earlier := by
  have turns : caughtUp.watch.Turns caughtUp.connector caughtUp.now _ := .feed (by decide +kernel)
  obtain ⟨deadline, earlier, -, hdeadline, htimers, -, -, -⟩ :=
    timely_of_reachable reachable_caughtUp (by decide +kernel) turns
  have h560 : caughtUp.connector.deadline = some 560000 := by decide +kernel
  cases h560.symm.trans hdeadline
  exact ⟨_, _, _, earlier, turns, htimers⟩

end Vigil

end DockLink
