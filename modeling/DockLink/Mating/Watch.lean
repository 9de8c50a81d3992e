import DockLink.Mating.Connector

/-!
# Watching the deadline

A watch is the task that waits for a connector's deadline and then feeds the timeout. It reads the
deadline together with the number of timer changes. When the time has come, the timeout is fed only
if the timer did not change in between.
-/

namespace DockLink

/-- What a watch waits for. -/
inductive Watch where
  /-- The timer to change, since the number of changes was `seen`. -/
  | change (seen : Option UInt32)
  /-- The deadline that the timer had when the number of changes was `generation`. -/
  | deadline (generation : UInt32) (time : Tick)
deriving DecidableEq, Repr

namespace Watch

variable {depth : Nat}

/-- A watch that did not look at its connector yet. -/
def start : Watch := .change none

/-- Goes on from one wait to the next. The answer is none while the wait is not over, and holds the
step of a timeout that was fed. -/
def step? (w : Watch) (c : Connector depth) (now : Tick) :
    Option (Watch × Connector depth × Option Mating.Step) :=
  match w with
  | .change seen =>
    if seen = some c.generation then none
    else
      match c.deadline with
      | none => some (.change (some c.generation), c, none)
      | some time => some (.deadline c.generation time, c, none)
  | .deadline generation time =>
    if time ≤ now then
      let (c, step) := c.expire generation now
      some (.change (some generation), c, step)
    else if c.generation = generation then none
    else some (.change none, c, none)

/-- Goes on until the wait is not over, for at most `n` waits. The steps of the timeouts that were
fed come with it, first to last. -/
def runUpTo :
    Nat → Watch → Connector depth → Tick → Watch × Connector depth × List Mating.Step
  | 0, w, c, _ => (w, c, [])
  | n + 1, w, c, now =>
    match w.step? c now with
    | none => (w, c, [])
    | some (w, c, step) =>
      let (w, c, steps) := runUpTo n w c now
      (w, c, step.toList ++ steps)

/-- More waits than can end at one time: a deadline is reached once per presence window, and each
takes two waits. -/
def bound (c : Connector depth) : Nat := 2 * (c.machine.config.detectRetries.toNat + 1) + 4

/-- Goes on until the wait is not over. -/
def run (w : Watch) (c : Connector depth) (now : Tick) :
    Watch × Connector depth × List Mating.Step :=
  w.runUpTo (bound c) c now

end Watch

end DockLink
