import DockLink.Proofs.Transfer.Chronicle
import DockLink.Proofs.Transfer.Teardown

/-!
# Faults in a row

A receive failure says how many there were in a row. A row starts over with each good blob, even if
the packet that it completes is at fault, and with each opening of a closed framer. Nothing else
touches it: not what is sent, not whether an event was dropped, and not what comes in while the
framer is closed.
-/

namespace DockLink

open Reassembly

/-! ## Histories -/

/-- What a row of faults depends on. -/
inductive Mark where
  /-- A closed framer was opened. -/
  | opened
  /-- A blob was accepted. -/
  | blob
  | fault (error : LinkError)
deriving DecidableEq, Repr

namespace Mark

def isFault : Mark → Bool
  | .fault _ => true
  | _ => false

/-- A packet that is too short for its content type is at fault, once its blobs are good. -/
def ofOutput (config : Framer.Config) : Output → Option Mark
  | .blob => some .blob
  | .fault error => some (.fault error)
  | .packet packet =>
    if config.tagged ∧ packet.length < Framer.Config.contentTypeLength then
      some (.fault .lengthOutOfRange)
    else none

/-- The number of faults since the last mark that is none. The last mark is the first here. -/
def inRow (history : List Mark) : Nat := (history.takeWhile isFault).length

/-- The failures that a history gives cause to report, the last first. -/
def failures : List Mark → List LinkEvent
  | [] => []
  | .fault error :: earlier =>
    .receiveFailed error (UInt8.ofNat (min 255 (inRow (.fault error :: earlier)))) ::
      failures earlier
  | .opened :: earlier => failures earlier
  | .blob :: earlier => failures earlier

theorem inRow_fault (error : LinkError) (earlier : List Mark) :
    inRow (.fault error :: earlier) = inRow earlier + 1 := by
  rw [inRow, List.takeWhile_cons_of_pos rfl]
  rfl

end Mark

namespace Framer

variable {queueDepth eventDepth : Nat} {f f' : Framer queueDepth eventDepth}

/-- What the receive path of a framer puts out when bytes come in, the last first. -/
def outputs (f : Framer queueDepth eventDepth) (data : Bytes) : List Output :=
  if f.enabled then
    match f.receiver.push f.pool (noting (deliver f.config)) (f.reporter, []) data with
    | .ok (_, _, _, noted) => noted
    | .error _ => []
  else []

def marks (f : Framer queueDepth eventDepth) : Use → List Mark
  | .enable => if f.enabled then [] else [.opened]
  | .receive data => (f.outputs data).filterMap (Mark.ofOutput f.config)
  | .transactionEnd => if f.enabled ∧ f.receiver.isCut then [.fault .channelAborted] else []
  | _ => []

def history (f : Framer queueDepth eventDepth) (uses : List Use) : List Mark :=
  f.chronicle marks [] uses

end Framer

/-! ## Counting -/

namespace Reporter

variable {depth : Nat} {r r' : Reporter depth} {pool q : Pool} {history : List Mark}

/-- A reporter reported the failures of a history, and counts the faults of its last row. -/
structure Follows (history : List Mark) (r : Reporter depth) : Prop where
  failures_eq : r.record.filter LinkEvent.isFailure = Mark.failures history
  faults_eq : r.faults.toNat = min 255 (Mark.inRow history)

theorem Follows.of_eq (h : r.Follows history)
    (hfailures : r'.record.filter LinkEvent.isFailure = r.record.filter LinkEvent.isFailure)
    (hfaults : r'.faults = r.faults) : r'.Follows history :=
  ⟨hfailures.trans h.failures_eq, by rw [hfaults, h.faults_eq]⟩

theorem Follows.emit (h : r.Follows history) (pool : Pool) {event : LinkEvent}
    (hevent : event.isFailure = false) : (r.emit pool event).1.Follows history := by
  obtain ⟨hrecord, hfaults, -⟩ := r.emit_spares pool event
  refine h.of_eq ?_ hfaults
  rw [hrecord, List.filter_cons, hevent]
  rfl

theorem Follows.receiveFailed (h : r.Follows history) (pool : Pool) (error : LinkError) :
    (r.receiveFailed pool error).1.Follows (.fault error :: history) := by
  have hsucc : (saturatingSucc r.faults).toNat = min 255 (Mark.inRow (.fault error :: history)) := by
    rw [toNat_saturatingSucc, h.faults_eq, Mark.inRow_fault]
    omega
  obtain ⟨hrecord, hfaults, -⟩ := Reporter.emit_spares
    { r.count (·.countReceiveFault error) with faults := saturatingSucc r.faults } pool
    (.receiveFailed error (saturatingSucc r.faults))
  constructor
  · rw [Mark.failures, ← hsucc, UInt8.ofNat_toNat, ← h.failures_eq]
    exact congrArg (List.filter LinkEvent.isFailure) hrecord
  · exact (congrArg UInt8.toNat hfaults).trans hsucc

/-- A row starts over. -/
theorem Follows.cleared (h : r.Follows history) {mark : Mark} (hmark : mark.isFault = false)
    (hrecord : r'.record = r.record) (hfaults : r'.faults = 0) :
    r'.Follows (mark :: history) := by
  constructor
  · rw [hrecord, h.failures_eq]
    cases mark with
    | opened => rfl
    | blob => rfl
    | fault error => cases hmark
  · rw [hfaults, Mark.inRow, List.takeWhile_cons_of_neg (by rw [hmark]; exact Bool.false_ne_true)]
    rfl

end Reporter

namespace Framer

variable {queueDepth eventDepth : Nat} {f f' f₁ : Framer queueDepth eventDepth}
  {pool q : Pool} {earlier : List Mark}

theorem untag_eq_none_iff {config : Config} {packet : Packet}
    {answer : Option (ContentType × Packet)} (h : untag config pool packet = .ok (answer, q)) :
    answer = none ↔ config.tagged ∧ packet.length < Config.contentTypeLength := by
  unfold untag at h
  split at h
  · cases h
    simp_all
  · split at h
    · cases h
      simp_all
    · obtain ⟨code, -, h⟩ := exists_of_bind_eq_ok h
      obtain ⟨⟨packet', q'⟩, -, h⟩ := exists_of_bind_eq_ok h
      cases h
      simp_all

/-- What is made of an output is what it marks. -/
theorem follows_deliver {config : Config} {r r' : Reporter eventDepth} {output : Output}
    {noted : List Output} (h : r.Follows (noted.filterMap (Mark.ofOutput config) ++ earlier))
    (hd : deliver config r pool output = .ok (r', q)) :
    r'.Follows ((output :: noted).filterMap (Mark.ofOutput config) ++ earlier) := by
  cases output with
  | blob =>
      cases hd
      exact h.cleared rfl rfl rfl
  | fault error =>
      have hfailed := h.receiveFailed pool error
      rwa [Except.ok.inj hd] at hfailed
  | packet packet =>
      obtain ⟨⟨answer, q₁⟩, huntag, hd⟩ := exists_of_bind_eq_ok hd
      have hanswer := untag_eq_none_iff huntag
      cases answer with
      | none =>
          have hmark : Mark.ofOutput config (.packet packet) = some (.fault .lengthOutOfRange) :=
            if_pos (hanswer.1 rfl)
          have hfailed := h.receiveFailed q₁ .lengthOutOfRange
          rw [Except.ok.inj hd] at hfailed
          rwa [List.filterMap_cons_some hmark]
      | some content =>
          have hmark : Mark.ofOutput config (.packet packet) = none :=
            if_neg fun hshort => Option.some_ne_none _ (hanswer.2 hshort)
          have hcounted : (r.count fun s =>
              { s with packetsReceived := s.packetsReceived + 1 }).Follows _ := h.of_eq rfl rfl
          have hevent : (LinkEvent.received content.1 content.2).isFailure = false := rfl
          have htold := hcounted.emit q₁ hevent
          rw [Except.ok.inj hd] at htold
          rwa [List.filterMap_cons_none hmark]

theorem follows_received {data : Bytes} (h : f.reporter.Follows earlier)
    (hr : f.received data = .ok f') :
    f'.reporter.Follows (f.marks (.receive data) ++ earlier) := by
  unfold received at hr
  split at hr
  · rename_i henabled
    obtain ⟨⟨receiver, q, reporter⟩, hpush, hr⟩ := exists_of_bind_eq_ok hr
    cases hr
    obtain ⟨noted, hnoted, hfollows⟩ := Receiver.pushRuns_noting
      (fun noted r => r.Follows (noted.filterMap (Mark.ofOutput f.config) ++ earlier))
      (fun h _ hd => follows_deliver h hd) _ [] h hpush
    have houtputs : f.outputs data = noted := by
      rw [outputs, if_pos henabled, Receiver.push, hnoted]
    rwa [marks, houtputs]
  · rename_i hclosed
    cases hr
    rw [marks, outputs, if_neg hclosed]
    exact h

theorem follows_transactionEnd (h : f.reporter.Follows earlier) :
    f.transactionEnd.reporter.Follows (f.marks .transactionEnd ++ earlier) := by
  unfold transactionEnd Receiver.transactionEnd marks
  by_cases hcut : f.receiver.isCut
  · by_cases henabled : f.enabled
    · simp only [hcut, henabled, ↓reduceIte, and_self]
      exact h.receiveFailed _ _
    · simp only [hcut, henabled, ↓reduceIte, Bool.false_eq_true, false_and]
      exact h
  · simp only [hcut, ↓reduceIte, Bool.false_eq_true, and_false]
    exact h

theorem follows_enable (h : f.reporter.Follows earlier) :
    f.enable.reporter.Follows (f.marks .enable ++ earlier) := by
  rw [enable, marks]
  split
  · exact h
  · exact h.cleared rfl rfl rfl

theorem Sends.follows (hsends : f.Sends f') (h : f.reporter.Follows earlier) :
    f'.reporter.Follows earlier := by
  obtain ⟨told, hrecord, houtcomes⟩ := hsends.told
  refine h.of_eq ?_ hsends.faults_eq
  have hnone : told.filter LinkEvent.isFailure = [] := by
    refine List.filter_eq_nil_iff.2 fun event hevent => ?_
    have hticket := houtcomes event hevent
    cases event with
    | receiveFailed error n => cases hticket
    | _ => exact Bool.false_ne_true
  rw [hrecord, List.filter_append, hnone, List.nil_append]

theorem follows_use {u : Use} (h : f.reporter.Follows earlier) (hu : f.use u = .ok f') :
    f'.reporter.Follows (f.marks u ++ earlier) := by
  obtain ⟨hu, -⟩ := use_eq_ok_iff.1 hu
  cases u with
  | enable =>
      cases hu
      exact follows_enable h
  | disable =>
      cases hu
      unfold disable
      split
      · exact (sends_flushUpTo _ _).follows ((sends_cancel _).follows h)
      · exact h
  | send contentType packet =>
      obtain ⟨⟨answer, f₁⟩, hsend, heq⟩ := exists_of_map_eq_ok hu
      cases heq
      exact (sends_send hsend).follows h
  | receive data => exact follows_received h hu
  | transactionEnd =>
      cases hu
      exact follows_transactionEnd h
  | pop =>
      cases hu
      cases hpop : f.popEvent? with
      | none => exact h
      | some popped => exact (Session.sends_popEvent hpop).follows h
  | complete block result =>
      cases hu
      exact (sends_writeComplete f block result).follows h
  | takeOrders =>
      cases hu
      exact h
  | deed held deed =>
      simp only [perform] at hu
      split at hu
      · cases hu
        exact h
      · cases hu
        exact h

/-- What has nothing to do with faults: sending, completions and whatever else is not about the
receive path, input and cuts of a closed framer, and transactions that end between two blobs. -/
def Spares (f : Framer queueDepth eventDepth) : Use → Prop
  | .enable => f.enabled = true
  | .receive _ => f.enabled = false
  | .transactionEnd => f.enabled = false ∨ f.receiver.isCut = false
  | _ => True

theorem marks_of_spares {u : Use} (h : f.Spares u) : f.marks u = [] := by
  cases u with
  | enable => exact if_pos h
  | receive data =>
      have hclosed : f.enabled = false := h
      simp [marks, outputs, hclosed]
  | transactionEnd =>
      have hwhole : f.enabled = false ∨ f.receiver.isCut = false := h
      rcases hwhole with hwhole | hwhole <;> simp [marks, hwhole]
  | _ => rfl

variable {config : Config} {classes : List (Nat × Nat)}

/-- However a framer is used, each receive failure that it reports, whether or not the application
gets to see it, says how many faults there were since the last good blob or since the framer was
opened, itself included, and says no more than 255. Uses that have nothing to do with faults leave
the count as it is. A session is the run of its uses, and never faults. -/
theorem useAll_counts_streaks (hpool : Pool.ofClasses classes = .ok pool)
    (hclasses : ∀ c ∈ classes, 1 ≤ c.1 ∧ c.2 ≤ 255) (hf : ofConfig config pool = .ok f) :
    (∀ uses f₁, f.useAll uses = .ok f₁ →
      f₁.reporter.record.filter LinkEvent.isFailure = Mark.failures (f.history uses) ∧
      f₁.reporter.faults.toNat = min 255 (Mark.inRow (f.history uses)) ∧
      ∀ u f', f₁.Spares u → f₁.use u = .ok f' →
        f.history (uses ++ [u]) = f.history uses ∧ f'.reporter.faults = f₁.reporter.faults) ∧
    ∀ actions, ∃ s, (Session.start f).run actions = .ok s ∧
      f.useAll ((Session.start f).uses actions) = .ok s.framer := by
  have hfresh : f.reporter.Follows [] := by
    obtain ⟨-, -, rfl⟩ := exists_of_map_eq_ok hf
    exact ⟨rfl, rfl⟩
  have hfollows : ∀ uses {f₁}, f.useAll uses = .ok f₁ → f₁.reporter.Follows (f.history uses) :=
    fun uses _ hrun => chronicle_induction (fun history g => g.reporter.Follows history)
      follows_use uses hfresh hrun
  refine ⟨fun uses f₁ hrun => ⟨(hfollows uses hrun).failures_eq, (hfollows uses hrun).faults_eq,
    fun u f' hspares hu => ?_⟩,
    Session.run_start_uses (Pool.sound_of_ofClasses hpool hclasses) hf⟩
  have hhistory : f.history (uses ++ [u]) = f.history uses := by
    rw [history, chronicle_append uses [u] hrun, chronicle_cons hu, marks_of_spares hspares]
    rfl
  refine ⟨hhistory, UInt8.toNat_inj.1 ?_⟩
  have hlast : f.useAll (uses ++ [u]) = .ok f' := by
    rw [useAll_append uses [u] hrun, useAll_cons hu]
    rfl
  have hafter := (hfollows _ hlast).faults_eq
  rw [hhistory] at hafter
  exact hafter.trans (hfollows uses hrun).faults_eq.symm

/-- Two headers announce too much, the second of them while the queue of events is full. The blob
that comes next is good, but a packet without bytes has no content type. -/
def faultyUses : List Use :=
  [.enable, .receive [5, 0], .transactionEnd, .receive [5, 0], .transactionEnd, .send {} .empty,
    .receive (Blob.encode [] false)]

theorem faultyUses_counted : ∃ f₁, taggedFramer.useAll faultyUses = .ok f₁ ∧
    taggedFramer.history faultyUses =
      [.fault .lengthOutOfRange, .blob, .fault .lengthOutOfRange, .fault .lengthOutOfRange,
        .opened] ∧
    f₁.reporter.record.filter LinkEvent.isFailure =
      [.receiveFailed .lengthOutOfRange 1, .receiveFailed .lengthOutOfRange 2,
        .receiveFailed .lengthOutOfRange 1] ∧
    f₁.reporter.faults = 1 ∧ f₁.statistics.droppedEvents = 2 := by
  have hpool : Pool.ofClasses [(16, 8)] = .ok ⟨#[.fresh 16 8]⟩ := rfl
  have hf : ofConfig taggedFramer.config ⟨#[.fresh 16 8]⟩ = .ok taggedFramer := rfl
  obtain ⟨hcounted, -⟩ := useAll_counts_streaks hpool (by decide) hf
  have hhistory : taggedFramer.history faultyUses =
      [.fault .lengthOutOfRange, .blob, .fault .lengthOutOfRange, .fault .lengthOutOfRange,
        .opened] := by
    decide +kernel
  have hdropped : (taggedFramer.useAll faultyUses).toOption.map
      (fun f => f.statistics.droppedEvents) = some 2 := by
    decide +kernel
  obtain ⟨f₁, hsome, hdropped⟩ := Option.map_eq_some_iff.1 hdropped
  obtain ⟨hfailures, hfaults, -⟩ := hcounted faultyUses f₁ (eq_ok_of_toOption hsome)
  rw [hhistory] at hfailures hfaults
  exact ⟨f₁, eq_ok_of_toOption hsome, hhistory, hfailures, UInt8.toNat_inj.1 hfaults, hdropped⟩

end Framer

end DockLink
