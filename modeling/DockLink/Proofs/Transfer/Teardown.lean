import DockLink.Proofs.Transfer.Guarding

/-!
# Connections that end on link faults

An application passes the framer's events by the connector, each one and in order, whenever it
likes. A receive failure says how many there were in a row. The count starts over with each
connection, so that a failure which was reported within a connection never counts more of them than
the connection has seen (`Since`). The event queue does not start over: a failure that waits in it
from the last connection counts against the next one.
-/

namespace DockLink

open Mating

def LinkEvent.isFailure : LinkEvent → Bool
  | .receiveFailed _ _ => true
  | _ => false

def Report.isFailure (r : Report) : Bool := r.bare.isFailure

/-- An outcome is no receive failure. -/
theorem Report.isFailure_of_not_reception {r : Report} (h : r.isReception = false) :
    r.isFailure = false := by
  cases r with
  | sent ticket => rfl
  | sendFailed ticket error => rfl
  | received contentType content => cases h
  | receiveFailed error consecutive => cases h

@[simp]
theorem LinkEvent.isFailure_bare (event : LinkEvent) : event.bare.isFailure = event.isFailure := by
  cases event with
  | received contentType packet => rfl
  | sent ticket => rfl
  | sendFailed ticket error => rfl
  | receiveFailed error consecutive => rfl

theorem toNat_saturatingSucc (n : UInt8) :
    (saturatingSucc n).toNat = min 255 (n.toNat + 1) := by
  have hlt := n.toNat_lt
  unfold saturatingSucc
  split
  · rename_i hfull
    rw [hfull]
    rfl
  · rename_i hroom
    have hne : n.toNat ≠ 255 := fun h => hroom (UInt8.toNat_inj.1 h)
    have hone : (1 : UInt8).toNat = 1 := rfl
    rw [UInt8.toNat_add, hone]
    omega

theorem toNat_saturatingSucc_le (n : UInt8) : (saturatingSucc n).toNat ≤ n.toNat + 1 := by
  rw [toNat_saturatingSucc]
  exact Nat.min_le_right _ _

namespace Board

variable {b b₁ b₂ : Board} {reports reports₁ reports₂ : List Report}

/-- The number of receive failures that were reported, the dropped ones included. -/
def failures (b : Board) : Nat := b.record.countP LinkEvent.isFailure

theorem Gains.failures (h : b.Gains reports b₁) :
    b₁.failures = b.failures + reports.countP Report.isFailure := by
  obtain ⟨kept, -, hrecord, -⟩ := h
  rw [Board.failures, hrecord, List.countP_append, List.countP_reverse, List.countP_map,
    Nat.add_comm]
  rfl

/-- A board is given reports, and counts no more faults in a row than there were before and are
among these. -/
structure Tallies (b : Board) (reports : List Report) (b' : Board) : Prop where
  gains : b.Gains reports b'
  faults_le : b'.faults.toNat ≤ b.faults.toNat + reports.countP Report.isFailure
  consecutive_le : ∀ error n, .receiveFailed error n ∈ reports →
    n.toNat ≤ b.faults.toNat + reports.countP Report.isFailure

theorem Tallies.trans (h₁ : b.Tallies reports₁ b₁) (h₂ : b₁.Tallies reports₂ b₂) :
    b.Tallies (reports₁ ++ reports₂) b₂ where
  gains := h₁.gains.trans h₂.gains
  faults_le := by
    have hfaults₁ := h₁.faults_le
    have hfaults₂ := h₂.faults_le
    rw [List.countP_append]
    omega
  consecutive_le error n hmem := by
    have hfaults₁ := h₁.faults_le
    rw [List.countP_append]
    rcases List.mem_append.1 hmem with hmem | hmem
    · have hn := h₁.consecutive_le error n hmem
      omega
    · have hn := h₂.consecutive_le error n hmem
      omega

/-- Reports of which none is a failure. -/
theorem tallies_of_faults (hgains : b.Gains reports b₁) (hfaults : b₁.faults.toNat ≤ b.faults.toNat)
    (hnone : ∀ r ∈ reports, r.isFailure = false) : b.Tallies reports b₁ where
  gains := hgains
  faults_le := Nat.le_add_right_of_le hfaults
  consecutive_le error n hmem := by cases hnone _ hmem

theorem emit_faults (b : Board) (report : Report) : (b.emit report).faults = b.faults := by
  unfold emit
  split
  · rfl
  · rfl

theorem tallies_receiveFailed (b : Board) (error : LinkError) :
    b.Tallies [.receiveFailed error (saturatingSucc b.faults)] (b.receiveFailed error) where
  gains := (gains_nil rfl rfl).trans (gains_emit _ _)
  faults_le := by
    rw [receiveFailed, emit_faults]
    exact toNat_saturatingSucc_le _
  consecutive_le error n hmem := by
    cases List.mem_singleton.1 hmem
    exact toNat_saturatingSucc_le _

theorem tallies_absorb (config : Framer.Config) (b : Board) (x : Decoder.Seen) :
    ∃ reports, b.Tallies reports (b.absorb config x) := by
  cases x with
  | blob =>
      exact ⟨[], tallies_of_faults (gains_nil rfl rfl) (Nat.zero_le _) (List.forall_mem_nil _)⟩
  | fault error => exact ⟨_, b.tallies_receiveFailed error⟩
  | packet content =>
      simp only [absorb]
      split
      · exact ⟨_, b.tallies_receiveFailed .lengthOutOfRange⟩
      · refine ⟨_, tallies_of_faults ((gains_nil rfl rfl).trans (gains_emit _ _)) ?_
          (List.forall_mem_singleton.2 rfl)⟩
        rw [emit_faults]
        exact Nat.le_refl _

theorem tallies_absorbAll (config : Framer.Config) (seen : List Decoder.Seen) (b : Board) :
    ∃ reports, b.Tallies reports (seen.foldl (Board.absorb config) b) := by
  induction seen generalizing b with
  | nil =>
      exact ⟨[], tallies_of_faults (gains_nil rfl rfl) (Nat.le_refl _) (List.forall_mem_nil _)⟩
  | cons x rest ih =>
      obtain ⟨reports₁, h₁⟩ := b.tallies_absorb config x
      obtain ⟨reports₂, h₂⟩ := ih (b.absorb config x)
      exact ⟨_, h₁.trans h₂⟩

end Board

theorem Outline.tallies_transactionEnd (o : Outline) :
    ∃ reports, o.board.Tallies reports o.transactionEnd.board := by
  have hsame : o.board.Tallies [] o.board :=
    Board.tallies_of_faults (Board.gains_nil rfl rfl) (Nat.le_refl _) (List.forall_mem_nil _)
  unfold transactionEnd
  split
  · exact ⟨[], hsame⟩
  · split
    · exact ⟨_, o.board.tallies_receiveFailed .channelAborted⟩
    · exact ⟨[], hsame⟩

namespace Course

variable {c c' : Course} {a : Action} {reported failed : Nat}

/-- What holds since the time when the framer was opened, with so many events reported and so many
failures: no failure that was reported since then counts more in a row than there were since. -/
structure Since (reported failed : Nat) (c : Course) : Prop where
  reported_le : reported ≤ c.reports.length
  faults_le : failed + c.outline.board.faults.toNat ≤ c.outline.board.failures
  consecutive_le : ∀ error n, .receiveFailed error n ∈ c.reports.drop reported →
    failed + n.toNat ≤ c.outline.board.failures

theorem since_opened (hfaults : c.outline.board.faults = 0) :
    c.Since c.reports.length c.outline.board.failures where
  reported_le := Nat.le_refl _
  faults_le := by
    rw [hfaults]
    exact Nat.le_refl _
  consecutive_le error n hmem := by
    rw [List.drop_length] at hmem
    cases hmem

theorem Since.tallies (h : c.Since reported failed) {reports : List Report}
    (hpopped : c'.popped = c.popped)
    (htallies : c.outline.board.Tallies reports c'.outline.board) : c'.Since reported failed := by
  obtain ⟨kept, hkept, -, hring⟩ := htallies.gains
  have hfailures := htallies.gains.failures
  have hfaults := h.faults_le
  have hreports : c'.reports = c.reports ++ kept := by
    rw [Course.reports, hpopped, hring, ← List.append_assoc]
    rfl
  refine ⟨?_, ?_, fun error n hmem => ?_⟩
  · rw [hreports, List.length_append]
    exact Nat.le_add_right_of_le h.reported_le
  · have hfaults' := htallies.faults_le
    omega
  · rw [hreports, List.drop_append_of_le_length h.reported_le] at hmem
    rcases List.mem_append.1 hmem with hmem | hmem
    · have hn := h.consecutive_le error n hmem
      omega
    · have hn := htallies.consecutive_le error n (hkept.subset hmem)
      omega

theorem Step.since (hstep : Step c a c') (ha : a.isTraffic)
    (hfaults : a.isOptional → c'.outline.board.faults = c.outline.board.faults)
    (h : c.Since reported failed) : c'.Since reported failed := by
  have hcount : a.isOptional → c'.outline.board.faults.toNat ≤ c.outline.board.faults.toNat :=
    fun hoptional => Nat.le_of_eq (congrArg UInt8.toNat (hfaults hoptional))
  cases hstep with
  | enable => cases ha
  | disable => cases ha
  | accept misses =>
      obtain ⟨missed, hends⟩ := Outline.ends_fill misses (c.outline.accept _)
      refine h.tallies rfl (Board.tallies_of_faults hends.gains (hcount rfl) fun r hr => ?_)
      exact Report.isFailure_of_not_reception (Report.failed_not_reception _ _ r hr)
  | receive =>
      obtain ⟨reports, htallies⟩ := c.outline.board.tallies_absorbAll c.outline.config _
      exact h.tallies rfl htallies
  | transactionEnd =>
      obtain ⟨reports, htallies⟩ := c.outline.tallies_transactionEnd
      exact h.tallies rfl htallies
  | pop next =>
      -- An event that is taken moves from the queue to the taken ones.
      have hreports := reports_pop next
      refine ⟨?_, h.faults_le, fun error n hmem => ?_⟩
      · rw [reports, hreports]
        exact h.reported_le
      · rw [reports, hreports] at hmem
        exact h.consecutive_le error n hmem
  | complete misses result =>
      obtain ⟨reports, hends, houtcomes, -⟩ := Outline.ends_complete misses c.outline result
      refine h.tallies rfl (Board.tallies_of_faults hends.gains (hcount rfl) fun r hr => ?_)
      exact Report.isFailure_of_not_reception (houtcomes r hr)
  | deaf => exact h
  | stay => exact h

end Course

variable {queueDepth eventDepth connectorDepth : Nat}

namespace Session

variable {s s' : Session queueDepth eventDepth} {a : Action} {reported failed : Nat}

/-- The number of receive failures that were reported, the dropped ones included. -/
def failures (s : Session queueDepth eventDepth) : Nat :=
  s.framer.reporter.record.countP LinkEvent.isFailure

theorem failures_outline (s : Session queueDepth eventDepth) :
    s.framer.outline.board.failures = s.failures := by
  show (s.framer.reporter.record.map LinkEvent.bare).countP _ = _
  rw [List.countP_map, failures]
  congr 1
  funext event
  exact event.isFailure_bare

theorem Sound.since (hs : s.Sound) (ha : a.isTraffic) (hstep : s.step a = .ok s')
    (h : s.course.Since reported failed) : s'.course.Since reported failed := by
  obtain ⟨s₁, hstep₁, -, hcourse⟩ := hs.follows a
  obtain rfl := Except.ok.inj (hstep.symm.trans hstep₁)
  exact hcourse.since ha (fun hoptional => (hs.sends_step hoptional hstep).1.faults_eq) h

/-- A framer that is opened has counted no fault. -/
theorem faults_gate_enable (hclosed : s.framer.enabled = false) :
    (s.gate (some .enable)).framer.reporter.faults = 0 := by
  have hopen : ¬s.framer.enabled := by rw [hclosed]; nofun
  exact congrArg (fun f => f.reporter.faults) (if_neg hopen : s.framer.enable = _)

end Session

namespace Guarded

variable {g : Guarded queueDepth eventDepth connectorDepth} {a : GuardedAction}
  {result : Guarded queueDepth eventDepth connectorDepth × Option Mating.Step}
  {reported failed : Nat}

theorem Moves.config_eq (hmoves : g.Moves a result) :
    result.1.connector.machine.config = g.connector.machine.config := by
  cases hmoves with
  | traffic => rfl
  | idle a machine_eq => exact congrArg Machine.config machine_eq
  | turn cause now machine_eq =>
      exact (congrArg Machine.config machine_eq).trans
        (g.connector.machine.turns_transition _ now).config_eq

/-- A step that makes a connection opens the framer. -/
theorem Coupled.since_opening (h : g.Coupled) (hmoves : g.Moves a result)
    (hbefore : g.connector.machine.isConnected = false)
    (hafter : result.1.connector.machine.isConnected) :
    result.1.session.course.Since result.1.session.reports.length result.1.session.failures := by
  have hfaults : result.1.session.framer.reporter.faults = 0 := by
    cases hmoves with
    | traffic first => exact absurd (hbefore.symm.trans hafter) nofun
    | idle a machine_eq =>
        rw [machine_eq] at hafter
        exact absurd (hbefore.symm.trans hafter) nofun
    | @turn a input cause now connector machine_eq =>
        have hgate : (g.connector.machine.handle input now).2.gate = some .enable := by
          rw [h.gate_eq input now machine_eq, hbefore, hafter]
          rfl
        rw [hgate]
        exact Session.faults_gate_enable (h.enabled_eq.trans hbefore)
  have hsince := Course.since_opened (c := result.1.session.course) hfaults
  rw [← Session.failures_outline]
  exact hsince

/-- While the connection lasts only traffic matters. -/
theorem Coupled.since (h : g.Coupled) (hmoves : g.Moves a result)
    (hbefore : g.connector.machine.isConnected) (hafter : result.1.connector.machine.isConnected)
    (hsince : g.session.course.Since reported failed) :
    result.1.session.course.Since reported failed := by
  cases hmoves with
  | @traffic action isTraffic session first =>
      exact h.regular.sound.since isTraffic first hsince
  | idle => exact hsince
  | @turn a input cause now connector machine_eq =>
      have hgate : (g.connector.machine.handle input now).2.gate = none := by
        rw [h.gate_eq input now machine_eq, hbefore, hafter, Machine.gateOf_self]
      rw [hgate, h.regular.sound.gate_none]
      exact hsince

/-- Only the input of enough faults in a row ends a connection as faulty. -/
theorem Moves.linkFault_of_event (hmoves : g.Moves a result)
    (hevent : result.2.bind (fun step => step.event) = some (.disconnected .linkFault)) :
    ∃ n, a.input? = some (.linkFault n) ∧ g.connector.machine.config.faultThreshold ≤ n := by
  cases hmoves with
  | traffic => cases hevent
  | idle => cases hevent
  | @turn a input cause now connector machine_eq =>
      obtain ⟨n, rfl, hthreshold⟩ :=
        (g.connector.machine.turns_transition input now).linkFault_of_event hevent
      exact ⟨n, cause, hthreshold⟩

end Guarded

/-- Whether an action shows the connector no fault. -/
def GuardedAction.isPlain : GuardedAction → Bool
  | .observe _ _ | .tell (.linkFault _) _ => false
  | _ => true

theorem GuardedAction.input?_of_isPlain {a : GuardedAction} (h : a.isPlain) (n : UInt8) :
    a.input? ≠ some (.linkFault n) := by
  intro hinput
  cases a with
  | tell input now =>
      cases hinput
      cases h
  | observe event now => cases h
  | traffic action isTraffic => cases hinput
  | expire generation now => cases hinput
  | takeEvent => cases hinput

/-- A guarded session whose application passes the events that it took by the connector. -/
structure Monitored (queueDepth eventDepth connectorDepth : Nat) where
  guarded : Guarded queueDepth eventDepth connectorDepth
  /-- The number of events that were passed by the connector. -/
  passed : Nat := 0

/-- What happens at a monitored session. -/
inductive MonitoredAction where
  | other (action : GuardedAction) (isPlain : action.isPlain)
  /-- The oldest event that was not passed by the connector yet is. -/
  | pass (now : Tick)

namespace Monitored

def start (connectorDepth : Nat) (f : Framer queueDepth eventDepth) (config : Mating.Config) :
    Monitored queueDepth eventDepth connectorDepth :=
  { guarded := .start connectorDepth f config }

/-- What happens next, with the connector's answer. -/
def step (m : Monitored queueDepth eventDepth connectorDepth) : MonitoredAction →
    Except Fault (Monitored queueDepth eventDepth connectorDepth × Option Mating.Step)
  | .other action _ =>
    (m.guarded.step action).map fun (guarded, answer) => ({ m with guarded }, answer)
  | .pass now =>
    match m.guarded.session.popped[m.passed]? with
    | none => .ok (m, none)
    | some report =>
      (m.guarded.step (.observe report.bare now)).map fun (guarded, answer) =>
        ({ guarded, passed := m.passed + 1 }, answer)

def run (m : Monitored queueDepth eventDepth connectorDepth) :
    List MonitoredAction → Except Fault (Monitored queueDepth eventDepth connectorDepth)
  | [] => .ok m
  | a :: rest => do
    let (m, _) ← m.step a
    run m rest

def isConnected (m : Monitored queueDepth eventDepth connectorDepth) : Bool :=
  m.guarded.connector.machine.isConnected

/-- Whether the connection lasts through all of the actions. -/
def lasts (m : Monitored queueDepth eventDepth connectorDepth) : List MonitoredAction → Bool
  | [] => m.isConnected
  | a :: rest => m.isConnected && match m.step a with
    | .ok (m, _) => m.lasts rest
    | .error _ => false

variable {m : Monitored queueDepth eventDepth connectorDepth} {a : MonitoredAction}
  {result : Monitored queueDepth eventDepth connectorDepth × Option Mating.Step}
  {lifecycle : Mating.Config} {reported failed : Nat}

theorem isConnected_of_lasts {actions : List MonitoredAction} (h : m.lasts actions) :
    m.isConnected := by
  cases actions with
  | nil => exact h
  | cons a rest => exact (Bool.and_eq_true_iff.1 h).1

theorem lasts_of_step {rest : List MonitoredAction} (h : m.lasts (a :: rest))
    (hstep : m.step a = .ok result) : result.1.lasts rest := by
  have hrest := (Bool.and_eq_true_iff.1 h).2
  rw [hstep] at hrest
  exact hrest

/-- What an action comes to. -/
inductive Moves (m : Monitored queueDepth eventDepth connectorDepth) : MonitoredAction →
    Monitored queueDepth eventDepth connectorDepth × Option Mating.Step → Prop where
  | other {action : GuardedAction} {isPlain : action.isPlain}
      {guarded : Guarded queueDepth eventDepth connectorDepth} {answer : Option Mating.Step}
      (first : m.guarded.Moves action (guarded, answer)) :
      Moves m (.other action isPlain) ({ m with guarded }, answer)
  /-- There is no event to be passed. -/
  | wait (now : Tick) : Moves m (.pass now) (m, none)
  | pass {now : Tick} {report : Report} {guarded : Guarded queueDepth eventDepth connectorDepth}
      {answer : Option Mating.Step} (next : m.guarded.session.popped[m.passed]? = some report)
      (first : m.guarded.Moves (.observe report.bare now) (guarded, answer)) :
      Moves m (.pass now) ({ guarded, passed := m.passed + 1 }, answer)

theorem moves_step (hs : m.guarded.session.Sound) (a : MonitoredAction) :
    ∃ result, m.step a = .ok result ∧ m.Moves a result := by
  cases a with
  | other action isPlain =>
      obtain ⟨⟨guarded, answer⟩, hstep, hmoves⟩ := Guarded.moves_step hs action
      refine ⟨_, ?_, .other hmoves⟩
      rw [step, hstep]
      rfl
  | pass now =>
      cases hnext : m.guarded.session.popped[m.passed]? with
      | none => exact ⟨_, by simp only [step, hnext], .wait now⟩
      | some report =>
          obtain ⟨⟨guarded, answer⟩, hstep, hmoves⟩ :=
            Guarded.moves_step hs (.observe report.bare now)
          refine ⟨_, ?_, .pass hnext hmoves⟩
          simp only [step, hnext, hstep]
          rfl

/-- What the guarded session makes of it. -/
theorem Moves.guarded (hmoves : m.Moves a result) :
    ∃ action answer, m.guarded.Moves action (result.1.guarded, answer) := by
  cases hmoves with
  | other first => exact ⟨_, _, first⟩
  | wait now => exact ⟨.takeEvent, none, .idle _ rfl⟩
  | pass next first => exact ⟨_, _, first⟩

/-- What holds between two actions. -/
structure Kept (lifecycle : Mating.Config)
    (m : Monitored queueDepth eventDepth connectorDepth) : Prop where
  coupled : m.guarded.Coupled
  config_eq : m.guarded.connector.machine.config = lifecycle

theorem Kept.moves (h : m.Kept lifecycle) (hmoves : m.Moves a result) :
    result.1.Kept lifecycle := by
  obtain ⟨action, answer, hguarded⟩ := hmoves.guarded
  exact ⟨h.coupled.moves hguarded, hguarded.config_eq.trans h.config_eq⟩

theorem Kept.run (actions : List MonitoredAction)
    {m : Monitored queueDepth eventDepth connectorDepth} (h : m.Kept lifecycle) :
    ∃ m', m.run actions = .ok m' ∧ m'.Kept lifecycle := by
  induction actions generalizing m with
  | nil => exact ⟨m, rfl, h⟩
  | cons a rest ih =>
      obtain ⟨⟨m₁, answer⟩, hstep, hmoves⟩ := moves_step h.coupled.regular.sound a
      obtain ⟨m', hrun, hkept⟩ := ih (h.moves hmoves)
      refine ⟨m', ?_, hkept⟩
      rw [Monitored.run, hstep]
      exact hrun

/-- While the connection lasts, no failure counts more in a row than there were. -/
theorem Kept.run_since (actions : List MonitoredAction)
    {m : Monitored queueDepth eventDepth connectorDepth} (h : m.Kept lifecycle)
    (hlasts : m.lasts actions) (hsince : m.guarded.session.course.Since reported failed) :
    ∃ m', m.run actions = .ok m' ∧ m'.Kept lifecycle ∧
      m'.guarded.session.course.Since reported failed := by
  induction actions generalizing m with
  | nil => exact ⟨m, rfl, h, hsince⟩
  | cons a rest ih =>
      obtain ⟨⟨m₁, answer⟩, hstep, hmoves⟩ := moves_step h.coupled.regular.sound a
      obtain ⟨action, answer', hguarded⟩ := hmoves.guarded
      have hlasts₁ := lasts_of_step hlasts hstep
      have hsince₁ := h.coupled.since hguarded (isConnected_of_lasts hlasts)
        (isConnected_of_lasts hlasts₁) hsince
      obtain ⟨m', hrun, hkept, hsince'⟩ := ih (h.moves hmoves) hlasts₁ hsince₁
      refine ⟨m', ?_, hkept, hsince'⟩
      rw [Monitored.run, hstep]
      exact hrun

theorem eq_receiveFailed_of_input? {report : Report} {n : UInt8}
    (h : report.bare.input? = some (.linkFault n)) : ∃ error, report = .receiveFailed error n := by
  cases report with
  | receiveFailed error consecutive =>
      cases h
      exact ⟨error, rfl⟩
  | received contentType content => cases h
  | sent ticket => cases h
  | sendFailed ticket error => cases h

/-- A connection that ends as faulty has seen enough failures, if the last event was of its time. -/
theorem Kept.failures_of_linkFault (h : m.Kept lifecycle) (hmoves : m.Moves a result)
    (hsince : m.guarded.session.course.Since reported failed) (hrecent : reported ≤ m.passed)
    (hevent : result.2.bind (fun step => step.event) = some (.disconnected .linkFault)) :
    failed + lifecycle.faultThreshold.toNat ≤ m.guarded.session.failures := by
  cases hmoves with
  | @other action isPlain guarded answer first =>
      obtain ⟨n, hinput, -⟩ := first.linkFault_of_event hevent
      exact absurd hinput (GuardedAction.input?_of_isPlain isPlain n)
  | wait => cases hevent
  | @pass now report guarded answer next first =>
      obtain ⟨n, hinput, hthreshold⟩ := first.linkFault_of_event hevent
      obtain ⟨error, rfl⟩ := eq_receiveFailed_of_input? hinput
      -- The event has a place behind those that were reported before the opening.
      have hmem : .receiveFailed error n ∈ m.guarded.session.course.reports.drop reported := by
        have hlt := (List.getElem?_eq_some_iff.1 next).1
        refine List.mem_of_getElem? (i := m.passed - reported) ?_
        rw [List.getElem?_drop, Nat.add_sub_cancel' hrecent, Course.reports]
        exact (List.getElem?_append_left hlt).trans next
      have hn := hsince.consecutive_le error n hmem
      have hle := UInt8.le_iff_toNat_le.1 hthreshold
      rw [h.config_eq] at hle
      rw [← Session.failures_outline]
      exact (Nat.add_le_add_left hle failed).trans hn

/-- However a monitored session came about: if a connection that was made by one step is ended as
faulty by another, and the event that was passed then was reported within the connection, then there
were as many receive failures within the connection as it takes. -/
theorem run_start_tears_down {config : Framer.Config} {classes : List (Nat × Nat)} {pool : Pool}
    {f : Framer queueDepth eventDepth}
    (hpool : Pool.ofClasses classes = .ok pool) (hclasses : ∀ c ∈ classes, 1 ≤ c.1 ∧ c.2 ≤ 255)
    (hf : Framer.ofConfig config pool = .ok f) (connectorDepth : Nat) (lifecycle : Mating.Config)
    (before : List MonitoredAction) (opening : MonitoredAction) (within : List MonitoredAction)
    (last : MonitoredAction) :
    ∃ m₀ m₁ answer₁, (start connectorDepth f lifecycle).run before = .ok m₀ ∧
      m₀.step opening = .ok (m₁, answer₁) ∧
      (m₀.isConnected = false → m₁.lasts within →
        ∃ m₂ m₃ answer₃, m₁.run within = .ok m₂ ∧ m₂.step last = .ok (m₃, answer₃) ∧
          (answer₃.bind (fun step => step.event) = some (.disconnected .linkFault) →
            m₁.guarded.session.reports.length ≤ m₂.passed →
            m₁.guarded.session.failures + lifecycle.faultThreshold.toNat ≤
              m₂.guarded.session.failures)) := by
  have hsound := Pool.sound_of_ofClasses hpool hclasses
  have hstart : (start connectorDepth f lifecycle).Kept lifecycle :=
    ⟨Guarded.coupled_start connectorDepth hsound hf lifecycle, rfl⟩
  obtain ⟨m₀, hrun₀, hkept₀⟩ := hstart.run before
  obtain ⟨⟨m₁, answer₁⟩, hstep₁, hmoves₁⟩ := moves_step hkept₀.coupled.regular.sound opening
  refine ⟨m₀, m₁, answer₁, hrun₀, hstep₁, fun hclosed hlasts => ?_⟩
  obtain ⟨action, answer, hguarded⟩ := hmoves₁.guarded
  have hsince := hkept₀.coupled.since_opening hguarded hclosed (isConnected_of_lasts hlasts)
  obtain ⟨m₂, hrun₂, hkept₂, hsince₂⟩ := (hkept₀.moves hmoves₁).run_since within hlasts hsince
  obtain ⟨⟨m₃, answer₃⟩, hstep₃, hmoves₃⟩ := moves_step hkept₂.coupled.regular.sound last
  refine ⟨m₂, m₃, answer₃, hrun₂, hstep₃, fun hevent hrecent => ?_⟩
  exact hkept₂.failures_of_linkFault hmoves₃ hsince₂ hrecent hevent

/-- A framer with room for fifteen events. -/
def watchedFramer : Framer 3 15 :=
  { config := { maxPayload := 4, maxPacket := 8 }, pool := ⟨#[.fresh 16 8]⟩
    receiver := { maxPayload := 4, maxLength := 8 } }

/-- All but the last step towards a connection. -/
def approach : List MonitoredAction :=
  [.other (.tell .contactMade 0) rfl, .other (.tell .partnerPresent 1) rfl,
    .other (.tell (.orientationDetected .north) 2) rfl]

def acknowledge : MonitoredAction := .other (.tell .partnerAcknowledged 3) rfl

/-- Three transactions, each with a header that announces too much. -/
def faults : List MonitoredAction :=
  (List.replicate 3 [.other (.traffic (.receive [5, 0]) rfl) rfl,
    .other (.traffic .transactionEnd rfl) rfl]).flatten

/-- Three events are taken, and two of them passed. -/
def drain : List MonitoredAction :=
  List.replicate 3 (.other (.traffic .pop rfl) rfl) ++ [.pass 5, .pass 6]

/-- Three failures within a connection end it. -/
theorem faults_tear_down : ∃ m₀ m₁ answer₁ m₂ m₃ answer₃,
    (start 4 watchedFramer {}).run approach = .ok m₀ ∧
    m₀.step acknowledge = .ok (m₁, answer₁) ∧ m₁.run (faults ++ drain) = .ok m₂ ∧
    m₂.step (.pass 7) = .ok (m₃, answer₃) ∧
    answer₃.bind (fun step => step.event) = some (.disconnected .linkFault) ∧
    m₁.guarded.session.failures + 3 ≤ m₂.guarded.session.failures := by
  have hpool : Pool.ofClasses [(16, 8)] = .ok ⟨#[.fresh 16 8]⟩ := rfl
  have hf : Framer.ofConfig { maxPayload := 4, maxPacket := 8 } ⟨#[.fresh 16 8]⟩ =
      .ok watchedFramer := rfl
  obtain ⟨m₀, m₁, answer₁, hrun₀, hstep₁, htears⟩ := run_start_tears_down hpool (by decide) hf 4 {}
    approach acknowledge (faults ++ drain) (.pass 7)
  have hvalue : ((start 4 watchedFramer {}).run approach).toOption.bind (fun m₀ =>
      (m₀.step acknowledge).toOption.bind fun r₁ =>
        (r₁.1.run (faults ++ drain)).toOption.bind fun m₂ =>
          (m₂.step (.pass 7)).toOption.map fun r₃ => decide
            (m₀.isConnected = false ∧ r₁.1.lasts (faults ++ drain) = true ∧
              r₃.2.bind (fun step => step.event) = some (.disconnected .linkFault) ∧
              r₁.1.guarded.session.reports.length ≤ m₂.passed)) = some true := by
    decide +kernel
  obtain ⟨_, hrun, hvalue⟩ := Option.bind_eq_some_iff.1 hvalue
  cases hrun₀.symm.trans (eq_ok_of_toOption hrun)
  obtain ⟨_, hstep, hvalue⟩ := Option.bind_eq_some_iff.1 hvalue
  cases hstep₁.symm.trans (eq_ok_of_toOption hstep)
  obtain ⟨m₂, hrun₂, hvalue⟩ := Option.bind_eq_some_iff.1 hvalue
  obtain ⟨⟨m₃, answer₃⟩, hstep₃, hvalue⟩ := Option.map_eq_some_iff.1 hvalue
  obtain ⟨hclosed, hlasts, hevent, hrecent⟩ := of_decide_eq_true hvalue
  obtain ⟨_, _, _, hrun, hstep, hfailures⟩ := htears hclosed hlasts
  cases hrun.symm.trans (eq_ok_of_toOption hrun₂)
  cases hstep.symm.trans (eq_ok_of_toOption hstep₃)
  exact ⟨m₀, m₁, answer₁, m₂, m₃, answer₃, hrun₀, hstep₁, hrun, hstep, hevent,
    hfailures hevent hrecent⟩

/-- Three failures that wait in the queue when a connection is lost end the next one. -/
theorem staleFaults_tear_down : ∃ m₀ m₁ answer₁ m₂ m₃ answer₃,
    (start 4 watchedFramer {}).run (approach ++ acknowledge :: faults ++
      .other (.tell .contactLost 4) rfl :: approach) = .ok m₀ ∧ m₀.isConnected = false ∧
    m₀.step acknowledge = .ok (m₁, answer₁) ∧ m₁.lasts drain = true ∧ m₁.run drain = .ok m₂ ∧
    m₂.step (.pass 7) = .ok (m₃, answer₃) ∧
    answer₃.bind (fun step => step.event) = some (.disconnected .linkFault) ∧
    m₂.guarded.session.failures = m₁.guarded.session.failures := by
  have hvalue : ((start 4 watchedFramer {}).run (approach ++ acknowledge :: faults ++
      .other (.tell .contactLost 4) rfl :: approach)).toOption.bind (fun m₀ =>
      (m₀.step acknowledge).toOption.bind fun r₁ => (r₁.1.run drain).toOption.bind fun m₂ =>
        (m₂.step (.pass 7)).toOption.map fun r₃ => decide
          (m₀.isConnected = false ∧ r₁.1.lasts drain = true ∧
            r₃.2.bind (fun step => step.event) = some (.disconnected .linkFault) ∧
            m₂.guarded.session.failures = r₁.1.guarded.session.failures)) = some true := by
    decide +kernel
  obtain ⟨m₀, hrun₀, hvalue⟩ := Option.bind_eq_some_iff.1 hvalue
  obtain ⟨⟨m₁, answer₁⟩, hstep₁, hvalue⟩ := Option.bind_eq_some_iff.1 hvalue
  obtain ⟨m₂, hrun₂, hvalue⟩ := Option.bind_eq_some_iff.1 hvalue
  obtain ⟨⟨m₃, answer₃⟩, hstep₃, hvalue⟩ := Option.map_eq_some_iff.1 hvalue
  obtain ⟨hclosed, hlasts, hevent, hfailures⟩ := of_decide_eq_true hvalue
  exact ⟨m₀, m₁, answer₁, m₂, m₃, answer₃, eq_ok_of_toOption hrun₀, hclosed,
    eq_ok_of_toOption hstep₁, hlasts, eq_ok_of_toOption hrun₂, eq_ok_of_toOption hstep₃, hevent,
    hfailures⟩

end Monitored

end DockLink
