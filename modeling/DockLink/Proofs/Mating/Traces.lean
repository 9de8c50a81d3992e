import DockLink.Proofs.Mating.Timer
import Mathlib.Data.List.Chain

/-!
# The trace of a connection

A machine answers each input with a step, and its owner acts on the steps alone. So what the steps
say has to be what became of the machine: a trace goes from state to state without a gap, opens and
closes the link in turn, reports every opening and every closing with its reason, and its timer
actions rebuild the deadline.
-/

namespace DockLink.Mating

/-- The reason with which an input ends a connection, if it ends one. -/
def Input.parting? : Input → Option Reason
  | .contactLost => some .contactLost
  | .disconnect => some .command
  | .linkFault _ => some .linkFault
  | _ => none

def GateAction.other : GateAction → GateAction
  | .enable => .disable
  | .disable => .enable

/-- Gate actions that take turns, the first one given. -/
def GateAction.Alternate : GateAction → List GateAction → Prop
  | _, [] => True
  | next, action :: rest => action = next ∧ Alternate next.other rest

/-- What an input may do to a connection, and the event that reports it. -/
inductive Passes : State → Input → State → Option Event → Prop where
  | opens {origin : State} {input : Input} (o : Orientation) (closed : origin ≠ .connected) :
      Passes origin input .connected (some (.connected o))
  | closes {input : Input} {target : State} {reason : Reason} (closed : target ≠ .connected)
      (cause : input.parting? = some reason) :
      Passes .connected input target (some (.disconnected reason))
  | stays {origin target : State} {input : Input} {event : Option Event}
      (same : origin = .connected ↔ target = .connected)
      (opened : ∀ o, event ≠ some (.connected o))
      (closed : ∀ reason, event ≠ some (.disconnected reason)) :
      Passes origin input target event

namespace Passes

variable {origin target : State} {input : Input} {event : Option Event}

/-- An event that does not speak of a connection, with a step outside of one. -/
theorem quiet (horigin : origin ≠ .connected) (htarget : target ≠ .connected)
    (hevent : event = none ∨ event = some .detectionFailed ∨ event = some .negotiationTimeout) :
    Passes origin input target event := by
  refine .stays (iff_of_false horigin htarget) ?_ ?_
  · rintro o rfl
    simp at hevent
  · rintro reason rfl
    simp at hevent

theorem connected_iff (h : Passes origin input target event) :
    (∃ o, event = some (.connected o)) ↔ origin ≠ .connected ∧ target = .connected := by
  cases h with
  | opens o closed => exact ⟨fun _ => ⟨closed, rfl⟩, fun _ => ⟨o, rfl⟩⟩
  | closes closed cause => exact ⟨nofun, fun h => absurd rfl h.1⟩
  | stays same opened closed =>
      constructor
      · rintro ⟨o, ho⟩
        exact absurd ho (opened o)
      · rintro ⟨horigin, htarget⟩
        exact absurd (same.2 htarget) horigin

theorem disconnected_iff (h : Passes origin input target event) :
    (∃ reason, event = some (.disconnected reason)) ↔
      origin = .connected ∧ target ≠ .connected := by
  cases h with
  | opens o closed => exact ⟨nofun, fun h => absurd rfl h.2⟩
  | closes closed cause => exact ⟨fun _ => ⟨rfl, closed⟩, fun _ => ⟨_, rfl⟩⟩
  | stays same opened closed =>
      constructor
      · rintro ⟨reason, hreason⟩
        exact absurd hreason (closed reason)
      · rintro ⟨horigin, htarget⟩
        exact absurd (same.1 horigin) htarget

theorem parting (h : Passes origin input target event) {reason : Reason}
    (hevent : event = some (.disconnected reason)) : input.parting? = some reason := by
  cases h with
  | opens o closed => cases hevent
  | closes closed cause =>
      cases hevent
      exact cause
  | stays same opened closed => exact absurd hevent (closed reason)

end Passes

namespace Machine

variable {m : Machine} {input : Input} {now : Tick} {result : Machine × Effect}

/-! ## One step -/

theorem ne_connected_of_isWaiting {state : State} (h : state.isWaiting) : state ≠ .connected := by
  rintro rfl
  cases h

theorem passes_agree (hstate : m.state = .negotiating) (detected : Option Orientation)
    (acknowledged : Bool) :
    Passes m.state input { m with detected, acknowledged }.agree.1.state
      { m with detected, acknowledged }.agree.2.event := by
  have hclosed : m.state ≠ .connected := by rw [hstate]; nofun
  obtain hagree | ⟨o, -, -, hagree⟩ := agree_cases { m with detected, acknowledged }
  · rw [hagree]
    exact .quiet hclosed hclosed (Or.inl rfl)
  · rw [hagree]
    exact .opens o hclosed

theorem parting_of_reason {config : Config} {reason : Reason}
    (h : input.reason? config = some reason) : input.parting? = some reason := by
  cases input with
  | disconnect => exact h
  | linkFault n =>
      simp only [Input.reason?] at h
      split at h
      · exact h
      · cases h
  | _ => cases h

/-- Each transition opens the connection, ends it for the reason that its input stands for, or
leaves it as it was, and its event says which. -/
theorem Turns.passes (hturns : m.Turns now input result) :
    Passes m.state input result.1.state result.2.event := by
  cases hturns with
  | ignore input => exact .stays Iff.rfl nofun nofun
  | sense busy => exact .stays Iff.rfl nofun nofun
  | unsense idle => exact .stays Iff.rfl nofun nofun
  | detect idle => exact .quiet (by rw [idle]; nofun) nofun (Or.inl rfl)
  | detectAgain idle contact => exact .quiet (by rw [idle]; nofun) nofun (Or.inl rfl)
  | retry detecting more => exact .quiet (by rw [detecting]; nofun) nofun (Or.inl rfl)
  | negotiate detecting => exact .quiet (by rw [detecting]; nofun) nofun (Or.inl rfl)
  | learn negotiating o => exact passes_agree negotiating (some o) m.acknowledged
  | hear negotiating => exact passes_agree negotiating m.detected true
  | tearDown connected cause =>
      rw [connected]
      exact .closes nofun (parting_of_reason cause)
  | cut connected =>
      rw [connected]
      exact .closes nofun rfl
  | miss waiting => exact .quiet (ne_connected_of_isWaiting waiting) nofun (Or.inl rfl)
  | expire waiting =>
      refine .quiet (ne_connected_of_isWaiting waiting) nofun ?_
      show m.state.expiry = _ ∨ _
      cases m.state with
      | detecting => exact Or.inr (Or.inl rfl)
      | negotiating => exact Or.inr (Or.inr rfl)
      | _ => exact Or.inl rfl
  | letGo disconnecting => exact .quiet (by rw [disconnecting]; nofun) nofun (Or.inl rfl)
  | abandon waiting => exact .quiet (ne_connected_of_isWaiting waiting) nofun (Or.inl rfl)

theorem cancel_rest {event : Option Event} (h : (m.rest event).2.timer = .cancel) :
    m.deadline.isSome := by
  have htimer : (m.rest event).2.timer = if m.deadline.isSome then .cancel else .keep := rfl
  rw [htimer] at h
  split at h
  · assumption
  · cases h

/-- Only a deadline that runs is taken away. -/
theorem Coherent.cancel_turns (h : m.Coherent) (hturns : m.Turns now input result)
    (hcancel : result.2.timer = .cancel) : m.deadline.isSome := by
  have hnegotiating : m.state = .negotiating → m.deadline.isSome := by
    intro hstate
    exact h.deadline_iff.2 (by rw [hstate]; rfl)
  cases hturns with
  | learn negotiating o => exact hnegotiating negotiating
  | hear negotiating => exact hnegotiating negotiating
  | cut connected => exact cancel_rest hcancel
  | miss waiting => exact cancel_rest hcancel
  | expire waiting => exact cancel_rest hcancel
  | letGo disconnecting => exact cancel_rest hcancel
  | abandon waiting => exact cancel_rest hcancel
  | _ => cases hcancel

theorem gateOf_eq_enable_iff {before after : Bool} :
    gateOf before after = some .enable ↔ before = false ∧ after = true := by
  cases before <;> cases after <;> simp [gateOf]

theorem gateOf_eq_disable_iff {before after : Bool} :
    gateOf before after = some .disable ↔ before = true ∧ after = false := by
  cases before <;> cases after <;> simp [gateOf]

/-- What a step says is what becomes of the machine. -/
structure Accords (m : Machine) (input : Input) (m' : Machine) (step : Step) : Prop where
  origin_eq : step.origin = m.state
  target_eq : step.target = m'.state
  enable_iff : step.gate = some .enable ↔ step.origin ≠ .connected ∧ step.target = .connected
  connected_iff :
    (∃ o, step.event = some (.connected o)) ↔ step.origin ≠ .connected ∧ step.target = .connected
  disable_iff : step.gate = some .disable ↔ step.origin = .connected ∧ step.target ≠ .connected
  disconnected_iff : (∃ reason, step.event = some (.disconnected reason)) ↔
    step.origin = .connected ∧ step.target ≠ .connected
  /-- The reason is the one that the input stands for. -/
  reason : ∀ reason, step.event = some (.disconnected reason) → input.parting? = some reason
  keep : step.timer = .keep → m'.deadline = m.deadline
  arm : ∀ deadline, step.timer = .arm deadline → m'.deadline = some deadline
  cancel : step.timer = .cancel → m.deadline.isSome ∧ m'.deadline = none

theorem isConnected_eq_true : m.isConnected = true ↔ m.state = .connected := decide_eq_true_iff

theorem isConnected_eq_false : m.isConnected = false ↔ m.state ≠ .connected :=
  decide_eq_false_iff_not

theorem Coherent.accords (h : m.Coherent) (input : Input) (now : Tick) :
    m.Accords input (m.handle input now).1 (m.handle input now).2 := by
  have hturns := m.turns_transition input now
  have hgate := h.gate_turns hturns
  have hdeadline := hturns.deadline_eq
  exact {
    origin_eq := rfl
    target_eq := rfl
    enable_iff := by
      show (m.transition input now).2.gate = _ ↔ _
      rw [hgate, gateOf_eq_enable_iff, isConnected_eq_false, isConnected_eq_true]
      exact Iff.rfl
    connected_iff := hturns.passes.connected_iff
    disable_iff := by
      show (m.transition input now).2.gate = _ ↔ _
      rw [hgate, gateOf_eq_disable_iff, isConnected_eq_true, isConnected_eq_false]
      exact Iff.rfl
    disconnected_iff := hturns.passes.disconnected_iff
    reason := fun _ => hturns.passes.parting
    keep := by
      intro hkeep
      have htimer : (m.transition input now).2.timer = .keep := hkeep
      rw [htimer] at hdeadline
      exact hdeadline
    arm := by
      intro deadline harm
      have htimer : (m.transition input now).2.timer = .arm deadline := harm
      rw [htimer] at hdeadline
      exact hdeadline
    cancel := by
      intro hcancel
      have htimer : (m.transition input now).2.timer = .cancel := hcancel
      refine ⟨h.cancel_turns hturns htimer, ?_⟩
      rw [htimer] at hdeadline
      exact hdeadline }

/-! ## All steps -/

/-- The steps with which a machine answers inputs, one after another. -/
def trace (m : Machine) : List (Input × Tick) → List Step
  | [] => []
  | (input, now) :: rest => (m.handle input now).2 :: (m.handle input now).1.trace rest

theorem run_append (earlier later : List (Input × Tick)) (m : Machine) :
    m.run (earlier ++ later) = (m.run earlier).run later := by
  induction earlier generalizing m with
  | nil => rfl
  | cons i rest ih => exact ih _

theorem trace_append (earlier later : List (Input × Tick)) (m : Machine) :
    m.trace (earlier ++ later) = m.trace earlier ++ (m.run earlier).trace later := by
  induction earlier generalizing m with
  | nil => rfl
  | cons i rest ih => exact congrArg _ (ih _)

theorem length_trace (inputs : List (Input × Tick)) (m : Machine) :
    (m.trace inputs).length = inputs.length := by
  induction inputs generalizing m with
  | nil => rfl
  | cons i rest ih => exact congrArg Nat.succ (ih _)

theorem origin_head_trace (m : Machine) (inputs : List (Input × Tick)) :
    ∀ step ∈ (m.trace inputs).head?, step.origin = m.state := by
  cases inputs with
  | nil => exact nofun
  | cons i rest =>
      rintro step hstep
      cases hstep
      rfl

theorem isChain_trace (inputs : List (Input × Tick)) (m : Machine) :
    (m.trace inputs).IsChain fun step next => next.origin = step.target := by
  induction inputs generalizing m with
  | nil => exact .nil
  | cons i rest ih => exact (ih _).cons (origin_head_trace _ rest)

/-- The gate action that is due. -/
def due (m : Machine) : GateAction := if m.isConnected then .disable else .enable

theorem Coherent.alternate_trace (inputs : List (Input × Tick)) {m : Machine} (h : m.Coherent) :
    m.due.Alternate ((m.trace inputs).filterMap fun step => step.gate) := by
  induction inputs generalizing m with
  | nil => trivial
  | cons i rest ih =>
      have hrest := ih (h.handle i.1 i.2)
      have hgate : (m.handle i.1 i.2).2.gate =
          gateOf m.isConnected (m.handle i.1 i.2).1.isConnected :=
        h.gate_turns (m.turns_transition i.1 i.2)
      show m.due.Alternate ((_ :: (m.handle i.1 i.2).1.trace rest).filterMap _)
      rw [List.filterMap_cons, hgate]
      rw [due] at hrest ⊢
      cases hbefore : m.isConnected <;> cases hafter : (m.handle i.1 i.2).1.isConnected <;>
        rw [hafter] at hrest
      case false.false => exact hrest
      case true.true => exact hrest
      case false.true => exact ⟨rfl, hrest⟩
      case true.false => exact ⟨rfl, hrest⟩

/-- The timer actions of a trace lead from the first deadline to the last. -/
theorem deadline_run (inputs : List (Input × Tick)) (m : Machine) :
    (m.run inputs).deadline =
      (m.trace inputs).foldl (fun deadline step => step.timer.apply deadline) m.deadline := by
  induction inputs generalizing m with
  | nil => rfl
  | cons i rest ih =>
      have hfirst : (m.handle i.1 i.2).1.deadline = (m.handle i.1 i.2).2.timer.apply m.deadline :=
        (m.turns_transition i.1 i.2).deadline_eq
      refine (ih _).trans ?_
      rw [hfirst]
      rfl

/-- Whatever is fed to a new machine, its steps follow on each other, open and close the link in
turn, and accord with the machine one by one. Their timer actions, replayed up to any step, give the
deadline after it. -/
theorem trace_accords (config : Config) (inputs : List (Input × Tick)) :
    (∀ step ∈ (trace { config } inputs).head?, step.origin = .idle) ∧
      ((trace { config } inputs).IsChain fun step next => next.origin = step.target) ∧
      GateAction.enable.Alternate ((trace { config } inputs).filterMap fun step => step.gate) ∧
      ∀ earlier input now later, inputs = earlier ++ (input, now) :: later →
        ∃ step, (trace { config } inputs)[earlier.length]? = some step ∧
          (run { config } earlier).Accords input (run { config } (earlier ++ [(input, now)])) step ∧
          (run { config } (earlier ++ [(input, now)])).deadline =
            ((trace { config } inputs).take (earlier.length + 1)).foldl
              (fun deadline step => step.timer.apply deadline) none := by
  refine ⟨origin_head_trace _ _, isChain_trace _ _, (Coherent.fresh config).alternate_trace _, ?_⟩
  rintro earlier input now later rfl
  have hcoherent := (Coherent.fresh config).run earlier
  have hlength := length_trace earlier { config }
  have htrace : trace { config } (earlier ++ (input, now) :: later) =
      trace { config } (earlier ++ [(input, now)]) ++
        (run { config } (earlier ++ [(input, now)])).trace later := by
    rw [← trace_append, List.append_assoc, List.singleton_append]
  have hrun : run { config } (earlier ++ [(input, now)]) =
      ((run { config } earlier).handle input now).1 := by
    rw [run_append]
    rfl
  refine ⟨((run { config } earlier).handle input now).2, ?_, ?_, ?_⟩
  · rw [trace_append, List.getElem?_append_right (Nat.le_of_eq hlength), hlength, Nat.sub_self]
    rfl
  · rw [hrun]
    exact hcoherent.accords input now
  · have htake : (trace { config } (earlier ++ (input, now) :: later)).take (earlier.length + 1) =
        trace { config } (earlier ++ [(input, now)]) := by
      rw [htrace]
      exact List.take_left' (by rw [length_trace, List.length_append, List.length_singleton])
    rw [htake]
    exact deadline_run _ _

/-- A connection that three link faults in a row end, up to the last of them. -/
def faultyInputs : List (Input × Tick) :=
  [(.contactMade, 0), (.partnerPresent, 10), (.partnerAcknowledged, 20),
    (.orientationDetected .east, 30), (.linkFault 3, 40)]

theorem faultyInputs_accord :
    (trace { config := {} } faultyInputs).filterMap (fun step => step.gate) = [.enable, .disable] ∧
      GateAction.enable.Alternate
        ((trace { config := {} } faultyInputs).filterMap fun step => step.gate) ∧
      ∃ step, (trace { config := {} } faultyInputs)[4]? = some step ∧
        step.event = some (.disconnected .linkFault) ∧
        (run { config := {} } (faultyInputs.take 4)).Accords (.linkFault 3)
          (run { config := {} } faultyInputs) step ∧
        (run { config := {} } faultyInputs).deadline = some 50040 := by
  obtain ⟨-, -, halternate, haccords⟩ := trace_accords {} faultyInputs
  obtain ⟨step, hstep, haccord, -⟩ := haccords (faultyInputs.take 4) (.linkFault 3) 40 [] rfl
  refine ⟨rfl, halternate, step, hstep, ?_, haccord, rfl⟩
  cases hstep
  rfl

end Machine

end DockLink.Mating
