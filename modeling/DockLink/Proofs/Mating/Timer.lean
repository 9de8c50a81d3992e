import DockLink.Mating.Connector
import DockLink.Proofs.Mating.Lifecycle

/-!
# The timer of a connector

A step keeps the deadline of a connection, sets it or takes it away, and says which. A connector
counts the steps that did not keep it, in thirty-two bits. The list of these changes, the last one
first, is what both the deadline and the count are read from.
-/

namespace DockLink

namespace Mating

namespace TimerAction

/-- The deadline after a timer action. -/
def apply : TimerAction → Option Tick → Option Tick
  | .keep, deadline => deadline
  | .arm deadline, _ => some deadline
  | .cancel, _ => none

/-- Notes a timer action, if it is a change. -/
def log (a : TimerAction) (timers : List TimerAction) : List TimerAction :=
  if a = .keep then timers else a :: timers

/-- The deadline that the last timer change left behind. -/
def armed : List TimerAction → Option Tick
  | .arm deadline :: _ => some deadline
  | _ => none

theorem log_of_ne {a : TimerAction} (h : a ≠ .keep) (timers : List TimerAction) :
    a.log timers = a :: timers := if_neg h

theorem length_log_le (a : TimerAction) (timers : List TimerAction) :
    timers.length ≤ (a.log timers).length := by
  unfold log
  split
  · exact Nat.le_refl _
  · exact Nat.le_succ _

theorem eq_keep_of_length_log {a : TimerAction} {timers : List TimerAction}
    (h : (a.log timers).length = timers.length) : a = .keep := by
  refine Decidable.byContradiction fun hne => ?_
  rw [log_of_ne hne, List.length_cons] at h
  omega

theorem armed_log (a : TimerAction) (timers : List TimerAction) :
    armed (a.log timers) = a.apply (armed timers) := by
  cases a with
  | keep => rfl
  | arm deadline => rfl
  | cancel => rfl

theorem armed_eq_some {timers : List TimerAction} {deadline : Tick}
    (h : armed timers = some deadline) : ∃ rest, timers = .arm deadline :: rest := by
  unfold armed at h
  split at h
  · rename_i rest
    cases h
    exact ⟨rest, rfl⟩
  · cases h

end TimerAction

namespace Machine

variable {m : Machine} {input : Input} {now : Tick} {result : Machine × Effect}

theorem deadline_rest (m : Machine) (event : Option Event) :
    (m.rest event).1.deadline = (m.rest event).2.timer.apply m.deadline := by
  have htimer : (m.rest event).2.timer = if m.deadline.isSome then .cancel else .keep := rfl
  rw [htimer]
  split
  · rfl
  · rename_i hnone
    exact (Option.not_isSome_iff_eq_none.1 hnone).symm

theorem deadline_agree (m : Machine) : m.agree.1.deadline = m.agree.2.timer.apply m.deadline := by
  obtain hagree | ⟨_, -, -, hagree⟩ := agree_cases m
  · rw [hagree]
    rfl
  · rw [hagree]
    rfl

/-- The deadline changes only in the way that the step says. -/
theorem Turns.deadline_eq (hturns : m.Turns now input result) :
    result.1.deadline = result.2.timer.apply m.deadline := by
  cases hturns with
  | learn => exact deadline_agree _
  | hear => exact deadline_agree _
  | cut => exact deadline_rest _ _
  | miss => exact deadline_rest _ _
  | expire => exact deadline_rest _ _
  | letGo => exact deadline_rest _ _
  | abandon => exact deadline_rest _ _
  | _ => rfl

/-- A deadline that passes is never kept. -/
theorem Coherent.timer_timeout (h : m.Coherent) (hwaiting : m.state.isWaiting) (now : Tick) :
    (m.handle .timeout now).2.timer ≠ .keep := by
  have hsome := h.deadline_iff.2 hwaiting
  have hexpire : m.transition .timeout now = m.expire now := if_pos hsome
  have hstep : (m.handle .timeout now).2.timer = (m.transition .timeout now).2.timer := rfl
  rw [hstep, hexpire, expire_of_waiting hwaiting]
  split
  · nofun
  · have hrest : (m.rest m.state.expiry).2.timer = .cancel := if_pos hsome
    rw [hrest]
    nofun

end Machine

end Mating

namespace Connector

open Mating

variable {depth : Nat} (c : Connector depth)

@[simp]
theorem machine_publish (event : Event) : (c.publish event).machine = c.machine := by
  unfold publish
  split
  · rfl
  · rfl

@[simp]
theorem generation_publish (event : Event) : (c.publish event).generation = c.generation := by
  unfold publish
  split
  · rfl
  · rfl

@[simp]
theorem machine_handle (input : Input) (now : Tick) :
    (c.handle input now).1.machine = (c.machine.handle input now).1 := by
  cases hevent : (c.machine.handle input now).2.event with
  | none => simp only [handle, hevent, Option.elim_none]
  | some event => simp only [handle, hevent, Option.elim_some, machine_publish]

theorem generation_handle (input : Input) (now : Tick) :
    (c.handle input now).1.generation =
      if (c.handle input now).2.timer = .keep then c.generation else c.generation + 1 := by
  cases hevent : (c.machine.handle input now).2.event with
  | none => simp only [handle, hevent, Option.elim_none]
  | some event => simp only [handle, hevent, Option.elim_some, generation_publish]

theorem deadline_handle (input : Input) (now : Tick) :
    (c.handle input now).1.deadline = (c.handle input now).2.timer.apply c.deadline := by
  rw [deadline, machine_handle]
  exact (c.machine.turns_transition input now).deadline_eq

theorem deadline_of_keep {input : Input} {now : Tick} (h : (c.handle input now).2.timer = .keep) :
    (c.handle input now).1.deadline = c.deadline := by
  rw [deadline_handle, h]
  rfl

/-- A connector has gone through the timer changes of a list, and through no others. -/
structure Timed (timers : List TimerAction) : Prop where
  generation_eq : c.generation = UInt32.ofNat timers.length
  deadline_eq : c.deadline = TimerAction.armed timers

variable {c} {timers : List TimerAction}

theorem Timed.ofConfig (config : Config) : (ofConfig config : Connector depth).Timed [] where
  generation_eq := rfl
  deadline_eq := rfl

theorem Timed.handle (h : c.Timed timers) (input : Input) (now : Tick) :
    (c.handle input now).1.Timed ((c.handle input now).2.timer.log timers) where
  generation_eq := by
    rw [generation_handle, TimerAction.log]
    split
    · exact h.generation_eq
    · rw [List.length_cons, UInt32.ofNat_add, ← h.generation_eq]
      rfl
  deadline_eq := by
    rw [deadline_handle, TimerAction.armed_log, h.deadline_eq]

end Connector

end DockLink
