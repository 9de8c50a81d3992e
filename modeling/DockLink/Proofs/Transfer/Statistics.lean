import DockLink.Proofs.Transfer.Chronicle

/-!
# Statistics and the events they count

Each counter but those of the blobs counts the reported events of certain kinds, whether or not the
application gets to see them. What it took and what it can still take are the reported events
without those that met a full queue, of which there is a counter too.
-/

namespace DockLink

open Reassembly

/-! ## Counters -/

/-- The counters of events. -/
inductive Counter where
  | packetsSent
  | packetsReceived
  | sendFailures
  | crcErrors
  | lengthErrors
  | allocationFailures
  | aborts
deriving DecidableEq, Repr

namespace Counter

def value : Counter → Statistics → UInt32
  | .packetsSent, s => s.packetsSent
  | .packetsReceived, s => s.packetsReceived
  | .sendFailures, s => s.sendFailures
  | .crcErrors, s => s.crcErrors
  | .lengthErrors, s => s.lengthErrors
  | .allocationFailures, s => s.allocationFailures
  | .aborts, s => s.aborts

/-- The events that a counter is about. Want of memory and what the channel cut are counted in both
directions. -/
def counts : Counter → LinkEvent → Bool
  | .packetsSent, .sent _ => true
  | .packetsReceived, .received _ _ => true
  | .sendFailures, .sendFailed _ _ => true
  | .crcErrors, .receiveFailed .crcMismatch _ => true
  | .lengthErrors, .receiveFailed .lengthOutOfRange _ => true
  | .allocationFailures, .sendFailed _ .outOfMemory => true
  | .allocationFailures, .receiveFailed .outOfMemory _ => true
  | .aborts, .sendFailed _ .channelAborted => true
  | .aborts, .receiveFailed .channelAborted _ => true
  | _, _ => false

end Counter

namespace Statistics

variable {s s' : Statistics}

/-- An event was counted, and nothing else. -/
structure Counted (s : Statistics) (event : LinkEvent) (s' : Statistics) : Prop where
  value_eq : ∀ counter : Counter,
    counter.value s' = counter.value s + UInt32.ofNat ([event].countP counter.counts)
  blobs_eq : s'.blobsSent = s.blobsSent
  dropped_eq : s'.droppedEvents = s.droppedEvents

theorem counted_sent (s : Statistics) (ticket : Ticket) :
    s.Counted (.sent ticket) { s with packetsSent := s.packetsSent + 1 } where
  value_eq counter := by cases counter <;> simp [Counter.value, Counter.counts]
  blobs_eq := rfl
  dropped_eq := rfl

theorem counted_received (s : Statistics) (contentType : ContentType) (packet : Packet) :
    s.Counted (.received contentType packet)
      { s with packetsReceived := s.packetsReceived + 1 } where
  value_eq counter := by cases counter <;> simp [Counter.value, Counter.counts]
  blobs_eq := rfl
  dropped_eq := rfl

/-- What a failed packet adds, besides the failure. -/
def countSendFault (s : Statistics) : LinkError → Statistics
  | .outOfMemory => { s with allocationFailures := s.allocationFailures + 1 }
  | .channelAborted => { s with aborts := s.aborts + 1 }
  | _ => s

theorem counted_sendFault (s : Statistics) (ticket : Ticket) (error : LinkError) :
    s.Counted (.sendFailed ticket error)
      { s.countSendFault error with sendFailures := (s.countSendFault error).sendFailures + 1 } := by
  constructor
  · intro counter
    cases error <;> cases counter <;> simp [Counter.value, Counter.counts, countSendFault]
  · cases error <;> rfl
  · cases error <;> rfl

/-- That the framer was closed is no fault of the receive path. -/
theorem counted_receiveFault (s : Statistics) {error : LinkError} (herror : error ≠ .disconnected)
    (n : UInt8) : s.Counted (.receiveFailed error n) (s.countReceiveFault error) := by
  constructor
  · intro counter
    cases error <;> cases counter <;> simp_all [Counter.value, Counter.counts, countReceiveFault]
  · cases error <;> rfl
  · cases error <;> rfl

end Statistics

/-! ## Accounts -/

/-- What the statistics and the queue of events are accounts of. -/
inductive Entry where
  /-- An event was reported, and kept if the queue had room for it. -/
  | told (event : LinkEvent) (kept : Bool)
  /-- The application took an event. -/
  | taken (event : LinkEvent)
  /-- The channel wrote all of a blob. -/
  | written
deriving DecidableEq, Repr

namespace Entry

def told? : Entry → Option LinkEvent
  | .told event _ => some event
  | _ => none

def kept? : Entry → Option LinkEvent
  | .told event true => some event
  | _ => none

def taken? : Entry → Option LinkEvent
  | .taken event => some event
  | _ => none

def isMissed : Entry → Bool
  | .told _ false => true
  | _ => false

/-- Events that are reported while the queue holds `held` others, the last first. -/
def offered (capacity held : Nat) : List LinkEvent → List Entry
  | [] => []
  | event :: earlier =>
    let entries := offered capacity held earlier
    .told event (held + (entries.filterMap kept?).length < capacity) :: entries

theorem told?_offered (capacity held : Nat) (told : List LinkEvent) :
    (offered capacity held told).filterMap told? = told := by
  induction told with
  | nil => rfl
  | cons event earlier ih => exact congrArg (event :: ·) ih

theorem taken?_offered (capacity held : Nat) (told : List LinkEvent) :
    (offered capacity held told).filterMap taken? = [] := by
  induction told with
  | nil => rfl
  | cons event earlier ih => exact ih

theorem written_offered (capacity held : Nat) (told : List LinkEvent) :
    (offered capacity held told).count .written = 0 := by
  induction told with
  | nil => rfl
  | cons event earlier ih => rwa [offered, List.count_cons_of_ne Entry.noConfusion]

theorem offered_append (capacity held : Nat) (later told : List LinkEvent) :
    offered capacity held (later ++ told) =
      offered capacity (held + ((offered capacity held told).filterMap kept?).length) later ++
        offered capacity held told := by
  induction later with
  | nil => rfl
  | cons event earlier ih =>
      simp only [List.cons_append, offered, ih, List.filterMap_append, List.length_append]
      rw [Nat.add_right_comm, Nat.add_assoc held, Nat.add_comm (List.length _)]

end Entry

namespace Reporter

variable {depth : Nat} {r r' r₁ r₂ : Reporter depth} {told told₁ told₂ : List LinkEvent}

/-- The entries for events that are reported in this state. -/
def entries (r : Reporter depth) (told : List LinkEvent) : List Entry :=
  Entry.offered depth r.events.toList.length told

/-- Events were reported, the last first, and are accounted for. -/
structure Reports (r : Reporter depth) (told : List LinkEvent) (r' : Reporter depth) : Prop where
  record_eq : r'.record = told ++ r.record
  value_eq : ∀ counter : Counter, counter.value r'.statistics =
    counter.value r.statistics + UInt32.ofNat (told.countP counter.counts)
  blobs_eq : r'.statistics.blobsSent = r.statistics.blobsSent
  ring_eq : r'.events.toList =
    r.events.toList ++ ((r.entries told).filterMap Entry.kept?).reverse
  dropped_eq : r'.statistics.droppedEvents =
    r.statistics.droppedEvents + UInt32.ofNat ((r.entries told).countP Entry.isMissed)

theorem reports_of_eq (hrecord : r'.record = r.record) (hevents : r'.events = r.events)
    (hvalue : ∀ counter : Counter, counter.value r'.statistics = counter.value r.statistics)
    (hblobs : r'.statistics.blobsSent = r.statistics.blobsSent)
    (hdropped : r'.statistics.droppedEvents = r.statistics.droppedEvents) : r.Reports [] r' := by
  constructor
  · exact hrecord
  · simp [hvalue]
  · exact hblobs
  · simp [hevents, entries, Entry.offered]
  · simp [hdropped, entries, Entry.offered]

theorem Reports.entries_append (h₁ : r.Reports told₁ r₁) (told₂ : List LinkEvent) :
    r.entries (told₂ ++ told₁) = r₁.entries told₂ ++ r.entries told₁ := by
  rw [entries, Entry.offered_append, entries, h₁.ring_eq, List.length_append, List.length_reverse]
  rfl

theorem Reports.trans (h₁ : r.Reports told₁ r₁) (h₂ : r₁.Reports told₂ r₂) :
    r.Reports (told₂ ++ told₁) r₂ where
  record_eq := by rw [h₂.record_eq, h₁.record_eq, List.append_assoc]
  value_eq counter := by
    rw [h₂.value_eq, h₁.value_eq, List.countP_append, Nat.add_comm, UInt32.ofNat_add,
      UInt32.add_assoc]
  blobs_eq := h₂.blobs_eq.trans h₁.blobs_eq
  ring_eq := by
    rw [h₂.ring_eq, h₁.ring_eq, h₁.entries_append, List.filterMap_append, List.reverse_append,
      List.append_assoc]
  dropped_eq := by
    rw [h₂.dropped_eq, h₁.dropped_eq, h₁.entries_append, List.countP_append, Nat.add_comm,
      UInt32.ofNat_add, UInt32.add_assoc]

/-- An event is kept unless the queue is full. It is counted first. -/
theorem reports_emit (r r' : Reporter depth) (pool : Pool) {event : LinkEvent}
    (hcounted : r.statistics.Counted event r'.statistics) (hrecord : r'.record = r.record)
    (hevents : r'.events = r.events) : r.Reports [event] (r'.emit pool event).1 := by
  have hentries : r.entries [event] =
      [.told event (decide (r.events.toList.length < depth))] := rfl
  unfold emit
  simp only [hevents]
  split
  · rename_i events hpush
    have hroom := BoundedQueue.length_lt_of_push hpush
    constructor
    · exact congrArg (event :: ·) hrecord
    · exact hcounted.value_eq
    · exact hcounted.blobs_eq
    · rw [hentries, BoundedQueue.toList_of_push hpush, decide_eq_true hroom]
      rfl
    · rw [hentries, decide_eq_true hroom]
      exact hcounted.dropped_eq.trans (UInt32.add_zero _).symm
  · rename_i rejected hpush
    have hfull : r.events.toList.length = depth := ((BoundedQueue.push_eq_error_iff _ _ _).1 hpush).1
    constructor
    · exact congrArg (event :: ·) hrecord
    · intro counter
      rw [← hcounted.value_eq]
      cases counter <;> rfl
    · exact hcounted.blobs_eq
    · rw [hentries, hfull, decide_eq_false (Nat.lt_irrefl _)]
      exact (List.append_nil _).symm
    · rw [hentries, hfull, decide_eq_false (Nat.lt_irrefl _)]
      exact congrArg (· + 1) hcounted.dropped_eq

theorem reports_sendFailed (r : Reporter depth) (pool : Pool) (ticket : Ticket)
    (error : LinkError) : r.Reports [.sendFailed ticket error]
      ((r.count (·.countSendFault error)).sendFailed pool ticket error).1 :=
  r.reports_emit _ pool (r.statistics.counted_sendFault ticket error) rfl rfl

theorem reports_receiveFailed (r : Reporter depth) (pool : Pool) {error : LinkError}
    (herror : error ≠ .disconnected) :
    r.Reports [.receiveFailed error (saturatingSucc r.faults)] (r.receiveFailed pool error).1 :=
  r.reports_emit { r.count (·.countReceiveFault error) with faults := saturatingSucc r.faults } pool
    (r.statistics.counted_receiveFault herror _) rfl rfl

end Reporter

namespace Framer

variable {queueDepth eventDepth : Nat} {f f' f₁ f₂ : Framer queueDepth eventDepth}

/-- Some events were reported, and are accounted for. -/
def Reports (f f' : Framer queueDepth eventDepth) : Prop :=
  ∃ told, f.reporter.Reports told f'.reporter

theorem Reports.trans (h₁ : f.Reports f₁) (h₂ : f₁.Reports f₂) : f.Reports f₂ := by
  obtain ⟨told₁, h₁⟩ := h₁
  obtain ⟨told₂, h₂⟩ := h₂
  exact ⟨told₂ ++ told₁, h₁.trans h₂⟩

theorem reports_of_eq (h : f'.reporter = f.reporter) : f.Reports f' :=
  ⟨[], h ▸ Reporter.reports_of_eq rfl rfl (fun _ => rfl) rfl rfl⟩

theorem Reports.refl (f : Framer queueDepth eventDepth) : f.Reports f := reports_of_eq rfl

/-! ## What is sent -/

theorem reports_giveUp (f : Framer queueDepth eventDepth) (o : Outgoing) (error : LinkError) :
    f.Reports ((f.count (·.countSendFault error)).giveUp o error) :=
  ⟨_, f.reporter.reports_sendFailed f.pool o.ticket error⟩

theorem reports_start {o : Outgoing} (h : f.start o = .ok f₁) : f.Reports f₁ := by
  unfold start at h
  simp only at h
  split at h
  · cases h
    exact f.reports_giveUp o .outOfMemory
  · obtain ⟨⟨next, q⟩, -, h⟩ := exists_of_bind_eq_ok h
    cases next with
    | none => cases h
    | some next =>
        cases h
        exact reports_of_eq rfl

theorem reports_startUpTo (n : Nat) {f : Framer queueDepth eventDepth}
    (h : startUpTo n f = .ok f₁) : f.Reports f₁ := by
  induction n generalizing f with
  | zero =>
      cases h
      exact .refl _
  | succ n ih =>
      simp only [startUpTo] at h
      split at h
      · rename_i queue _ _
        obtain ⟨f₂, hstart, hrest⟩ := exists_of_bind_eq_ok h
        have hqueue : f.Reports { f with queue } := reports_of_eq rfl
        exact (hqueue.trans (reports_start hstart)).trans (ih hrest)
      · cases h
        exact .refl _

theorem reports_takeBack (f : Framer queueDepth eventDepth) (block : Block) :
    f.Reports (f.takeBack block).1 := by
  have hrelease : f.Reports (f.releaseBlock block) := reports_of_eq rfl
  unfold takeBack
  simp only
  split
  · rename_i hnext
    exact hrelease.trans (reports_startUpTo _ hnext)
  · exact hrelease

/-- That the blob is through is counted before anything else. -/
theorem reports_proceed (f : Framer queueDepth eventDepth) (o : Outgoing) (segments : Segments)
    (block : Block) : (f.count fun s => { s with blobsSent := s.blobsSent + 1 }).Reports
      (f.proceed o segments block).1 := by
  let g := f.count fun s => { s with blobsSent := s.blobsSent + 1 }
  unfold proceed
  simp only
  split
  · exact reports_of_eq rfl
  · exact reports_of_eq rfl
  · rename_i q _
    let sent := (Framer.count { g with pool := q } fun s =>
      { s with packetsSent := s.packetsSent + 1 }).emit (.sent o.ticket)
    have htold : g.reporter.Reports [.sent o.ticket] sent.reporter :=
      g.reporter.reports_emit _ q (g.statistics.counted_sent o.ticket) rfl rfl
    have hsent : g.Reports (sent.releasePacket o.packet) := ⟨_, htold⟩
    exact hsent.trans (reports_takeBack _ block)

/-- Whether the result says that all of the blob on the channel was written. -/
def isThrough (f : Framer queueDepth eventDepth) (result : WriteResult) : Bool :=
  match f.transmission with
  | .sending _ _ expected => result = .written expected
  | _ => false

/-- A framer that counted a blob, if the result says that one is through. -/
def countThrough (f : Framer queueDepth eventDepth) (result : WriteResult) :
    Framer queueDepth eventDepth :=
  if f.isThrough result then f.count fun s => { s with blobsSent := s.blobsSent + 1 } else f

theorem reports_writeComplete (f : Framer queueDepth eventDepth) (block : Block)
    (result : WriteResult) : (f.countThrough result).Reports (f.writeComplete block result).1 := by
  have hidle : f.Reports { f with transmission := .idle } := reports_of_eq rfl
  cases hsending : f.transmission with
  | sending o segments expected =>
      by_cases hwritten : result = .written expected
      · simp only [writeComplete, countThrough, isThrough, hsending, hwritten, decide_true,
          ↓reduceIte]
        exact reports_proceed { f with transmission := .idle } o segments block
      · simp only [writeComplete, countThrough, isThrough, hsending, hwritten, decide_false,
          ↓reduceIte, Bool.false_eq_true]
        have hgive := reports_giveUp { f with transmission := .idle } o .channelAborted
        exact (hidle.trans hgive).trans (reports_takeBack _ block)
  | idle =>
      simp only [writeComplete, countThrough, isThrough, hsending, ↓reduceIte, Bool.false_eq_true]
      exact hidle.trans (reports_takeBack _ block)
  | cancelled =>
      simp only [writeComplete, countThrough, isThrough, hsending, ↓reduceIte, Bool.false_eq_true]
      exact hidle.trans (reports_takeBack _ block)

theorem reports_send {contentType : ContentType} {packet : Packet}
    {answer : Except (SendError × Packet) Ticket}
    (h : f.send contentType packet = .ok (answer, f₁)) : f.Reports f₁ := by
  unfold send at h
  split at h
  · cases h
    exact .refl _
  · split at h
    · cases h
      exact .refl _
    · obtain ⟨⟨tagged, q⟩, -, h⟩ := exists_of_bind_eq_ok h
      cases tagged with
      | error e =>
          cases h
          exact reports_of_eq rfl
      | ok tagged =>
          obtain ⟨packet', q', -, -, rfl⟩ | ⟨queue, -, hnext, -⟩ := enqueue_cases h
          · exact reports_of_eq rfl
          · have hqueue : f.Reports
                { f with pool := q, queue, nextTicket := ⟨f.nextTicket.number + 1⟩ } :=
              reports_of_eq rfl
            exact hqueue.trans (reports_startUpTo _ hnext)

theorem reports_cancel (f : Framer queueDepth eventDepth) : f.Reports f.cancel := by
  unfold cancel
  split
  · rename_i o _ _ _
    have hcancelled : f.Reports { f with transmission := .cancelled } := reports_of_eq rfl
    exact hcancelled.trans (reports_giveUp _ o .disconnected)
  · exact .refl f

theorem reports_flushUpTo (n : Nat) (f : Framer queueDepth eventDepth) :
    f.Reports (flushUpTo n f) := by
  induction n generalizing f with
  | zero => exact .refl f
  | succ n ih =>
      unfold flushUpTo
      split
      · exact .refl f
      · rename_i o queue _
        have hqueue : f.Reports { f with queue } := reports_of_eq rfl
        exact (hqueue.trans (reports_giveUp _ o .disconnected)).trans (ih _)

theorem reports_disable (f : Framer queueDepth eventDepth) : f.Reports f.disable := by
  unfold disable
  split
  · have hreset : f.Reports
        ((({ f with enabled := false }.order .abortRx).order .abortTx).order .disable).resetReceiver :=
      reports_of_eq rfl
    exact (hreset.trans (reports_cancel _)).trans (reports_flushUpTo _ _)
  · exact .refl f

/-! ## What is received -/

theorem reports_deliver {config : Config} {r r' : Reporter eventDepth} {pool q : Pool}
    {output : Output} (houtput : output ≠ .fault .disconnected)
    (hd : deliver config r pool output = .ok (r', q)) : ∃ told, r.Reports told r' := by
  cases output with
  | blob =>
      cases hd
      exact ⟨[], Reporter.reports_of_eq rfl rfl (fun counter => by cases counter <;> rfl) rfl rfl⟩
  | fault error =>
      have herror : error ≠ .disconnected := fun h => houtput (h ▸ rfl)
      have hfailed := r.reports_receiveFailed pool herror
      rw [Except.ok.inj hd] at hfailed
      exact ⟨_, hfailed⟩
  | packet packet =>
      obtain ⟨⟨answer, q₁⟩, -, hd⟩ := exists_of_bind_eq_ok hd
      cases answer with
      | none =>
          have herror : LinkError.lengthOutOfRange ≠ .disconnected := LinkError.noConfusion
          have hfailed := r.reports_receiveFailed q₁ herror
          rw [Except.ok.inj hd] at hfailed
          exact ⟨_, hfailed⟩
      | some content =>
          have hreceived : r.Reports [.received content.1 content.2]
              ((r.count fun s => { s with packetsReceived := s.packetsReceived + 1 }).emit q₁
                (.received content.1 content.2)).1 :=
            r.reports_emit _ q₁ (r.statistics.counted_received content.1 content.2) rfl rfl
          rw [Except.ok.inj hd] at hreceived
          exact ⟨_, hreceived⟩

theorem reports_received {data : Bytes} (h : f.received data = .ok f') : f.Reports f' := by
  unfold received at h
  split at h
  · obtain ⟨⟨receiver, q, reporter⟩, hpush, h⟩ := exists_of_bind_eq_ok h
    cases h
    have hdeliver : ∀ {r r' : Reporter eventDepth} {pool q output},
        (∃ told, f.reporter.Reports told r) → output ≠ .fault .disconnected →
        deliver f.config r pool output = .ok (r', q) → ∃ told, f.reporter.Reports told r' := by
      rintro r r' pool q output ⟨told₁, h₁⟩ houtput hd
      obtain ⟨told₂, h₂⟩ := reports_deliver houtput hd
      exact ⟨told₂ ++ told₁, h₁.trans h₂⟩
    obtain ⟨-, -, hreports⟩ := Receiver.pushRuns_noting
      (fun _ r => ∃ told, f.reporter.Reports told r)
      (fun h houtput hd => hdeliver h houtput hd) _ [] (Reports.refl f) hpush
    exact hreports
  · cases h
    exact .refl f

theorem reports_transactionEnd (f : Framer queueDepth eventDepth) : f.Reports f.transactionEnd := by
  unfold transactionEnd Receiver.transactionEnd
  by_cases hcut : f.receiver.isCut
  · simp only [hcut, ↓reduceIte]
    split
    · have herror : LinkError.channelAborted ≠ .disconnected := LinkError.noConfusion
      exact ⟨_, f.reporter.reports_receiveFailed _ herror⟩
    · exact reports_of_eq rfl
  · simp only [hcut]
    exact reports_of_eq rfl

theorem reports_enable (f : Framer queueDepth eventDepth) : f.Reports f.enable := by
  unfold enable
  split
  · exact .refl f
  · exact ⟨[], Reporter.reports_of_eq rfl rfl (fun _ => rfl) rfl rfl⟩

/-! ## Runs -/

/-- The entries for the events that were reported between two states of a framer. -/
def tellings (f f' : Framer queueDepth eventDepth) : List Entry :=
  f.reporter.entries
    (f'.reporter.record.take (f'.reporter.record.length - f.reporter.record.length))

/-- What a use is about, besides the events that it reports. -/
def occasion (f : Framer queueDepth eventDepth) : Use → List Entry
  | .pop => (f.popEvent?.map fun popped => Entry.taken popped.1).toList
  | .complete _ result => if f.isThrough result then [.written] else []
  | _ => []

def entries (f : Framer queueDepth eventDepth) (u : Use) : List Entry :=
  match f.use u with
  | .ok f' => f.tellings f' ++ f.occasion u
  | .error _ => []

/-- The account of a run, the last entry first. -/
def account (f : Framer queueDepth eventDepth) (uses : List Use) : List Entry :=
  f.chronicle entries [] uses

/-- How a framer agrees with an account: with the events, with the counters of them, with the blobs
that are through, and with what the application took and can still take. -/
structure Accounts (account : List Entry) (f : Framer queueDepth eventDepth) : Prop where
  record_eq : f.reporter.record = account.filterMap Entry.told?
  value_eq : ∀ counter : Counter,
    counter.value f.statistics = UInt32.ofNat (f.reporter.record.countP counter.counts)
  blobs_eq : f.statistics.blobsSent = UInt32.ofNat (account.count .written)
  ring_eq : (account.filterMap Entry.taken?).reverse ++ f.reporter.events.toList =
    (account.filterMap Entry.kept?).reverse
  dropped_eq : f.statistics.droppedEvents = UInt32.ofNat (account.countP Entry.isMissed)

variable {account : List Entry}

theorem accounts_fresh {config : Config} {pool : Pool} (hf : ofConfig config pool = .ok f) :
    Accounts [] f := by
  obtain ⟨-, -, rfl⟩ := exists_of_map_eq_ok hf
  exact ⟨rfl, fun counter => by cases counter <;> rfl, rfl, BoundedQueue.toList_empty, rfl⟩

theorem tellings_of_reports {told : List LinkEvent} (h : f.reporter.Reports told f'.reporter) :
    f.tellings f' = f.reporter.entries told := by
  rw [tellings, h.record_eq, List.length_append, Nat.add_sub_cancel, List.take_left]

theorem Accounts.reports (h : Accounts account f) (hreports : f.Reports f') :
    Accounts (f.tellings f' ++ account) f' := by
  obtain ⟨told, hreports⟩ := hreports
  rw [tellings_of_reports hreports]
  constructor
  · rw [hreports.record_eq, h.record_eq, List.filterMap_append, Reporter.entries,
      Entry.told?_offered]
  · intro counter
    rw [statistics, hreports.value_eq, hreports.record_eq, List.countP_append, Nat.add_comm,
      UInt32.ofNat_add, ← h.value_eq]
    rfl
  · rw [statistics, hreports.blobs_eq, List.count_append, Reporter.entries, Entry.written_offered,
      Nat.zero_add, ← h.blobs_eq]
    rfl
  · rw [hreports.ring_eq, List.filterMap_append, Reporter.entries, Entry.taken?_offered,
      List.nil_append, ← List.append_assoc, h.ring_eq, List.filterMap_append, List.reverse_append]
  · rw [statistics, hreports.dropped_eq, List.countP_append, Nat.add_comm, UInt32.ofNat_add,
      ← h.dropped_eq]
    rfl

/-- The application takes the oldest event. -/
theorem Accounts.popEvent {event : LinkEvent} (h : Accounts account f)
    (hpop : f.popEvent? = some (event, f')) : Accounts (.taken event :: account) f' := by
  obtain ⟨⟨event, events⟩, htake, heq⟩ := Option.map_eq_some_iff.1 hpop
  cases heq
  have hring := h.ring_eq
  rw [(BoundedQueue.toList_of_pop? htake).1] at hring
  exact {
    record_eq := h.record_eq
    value_eq := h.value_eq
    blobs_eq := h.blobs_eq
    ring_eq := by
      change (event :: account.filterMap Entry.taken?).reverse ++ events.toList = _
      rw [List.reverse_cons, List.append_assoc]
      exact hring
    dropped_eq := h.dropped_eq }

theorem tellings_popEvent {event : LinkEvent} (hpop : f.popEvent? = some (event, f')) :
    f.tellings f' = [] := by
  obtain ⟨⟨event, events⟩, -, heq⟩ := Option.map_eq_some_iff.1 hpop
  cases heq
  rw [tellings, Nat.sub_self, List.take_zero]
  rfl

theorem Accounts.countThrough (h : Accounts account f) {block : Block} (result : WriteResult) :
    Accounts (f.occasion (.complete block result) ++ account) (f.countThrough result) := by
  rw [occasion, Framer.countThrough]
  split
  · exact {
      record_eq := h.record_eq
      value_eq := fun counter => by
        refine Eq.trans ?_ (h.value_eq counter)
        cases counter <;> rfl
      blobs_eq := by
        rw [List.singleton_append, List.count_cons_self, UInt32.ofNat_add, ← h.blobs_eq]
        rfl
      ring_eq := h.ring_eq
      dropped_eq := h.dropped_eq }
  · exact h

theorem tellings_countThrough (f f' : Framer queueDepth eventDepth) (result : WriteResult) :
    (f.countThrough result).tellings f' = f.tellings f' := by
  unfold countThrough
  split
  · rfl
  · rfl

theorem Accounts.use (h : Accounts account f) {u : Use} (hu : f.use u = .ok f') :
    Accounts (f.entries u ++ account) f' := by
  have hentries : f.entries u = f.tellings f' ++ f.occasion u := by
    rw [entries, hu]
  rw [hentries, List.append_assoc]
  obtain ⟨hu, -⟩ := use_eq_ok_iff.1 hu
  cases u with
  | enable =>
      cases hu
      exact h.reports f.reports_enable
  | disable =>
      cases hu
      exact h.reports f.reports_disable
  | send contentType packet =>
      obtain ⟨⟨answer, f₁⟩, hsend, heq⟩ := exists_of_map_eq_ok hu
      cases heq
      exact h.reports (reports_send hsend)
  | receive data => exact h.reports (reports_received hu)
  | transactionEnd =>
      cases hu
      exact h.reports f.reports_transactionEnd
  | pop =>
      cases hpop : f.popEvent? with
      | none =>
          cases hu
          rw [occasion, hpop]
          exact h.reports (.refl f)
      | some popped =>
          obtain ⟨event, f₁⟩ := popped
          rw [perform, hpop] at hu
          obtain rfl : f₁ = f' := Except.ok.inj hu
          rw [occasion, hpop, tellings_popEvent hpop]
          exact h.popEvent hpop
  | complete block result =>
      cases hu
      rw [← tellings_countThrough]
      exact (h.countThrough result).reports (f.reports_writeComplete block result)
  | takeOrders =>
      cases hu
      exact h.reports (reports_of_eq rfl)
  | deed held deed =>
      simp only [perform] at hu
      split at hu
      · cases hu
        exact h.reports (reports_of_eq rfl)
      · cases hu
        exact h.reports (.refl f)

variable {config : Config} {pool : Pool} {classes : List (Nat × Nat)}

/-- However a framer is used, its statistics and its queue of events agree with the account of the
run: each counter of events with the reported ones of its kinds, the blobs that were sent with the
completions of the blob on the channel, and what the application took, and then what is still
queued, with the reported events that did not meet a full queue, in their order. A session is the
run of its uses, and never faults. -/
theorem useAll_accounts (hpool : Pool.ofClasses classes = .ok pool)
    (hclasses : ∀ c ∈ classes, 1 ≤ c.1 ∧ c.2 ≤ 255) (hf : ofConfig config pool = .ok f) :
    (∀ uses f₁, f.useAll uses = .ok f₁ → Accounts (f.account uses) f₁) ∧
    ∀ actions, ∃ s, (Session.start f).run actions = .ok s ∧
      f.useAll ((Session.start f).uses actions) = .ok s.framer :=
  ⟨fun uses _ hrun =>
      chronicle_induction Accounts (fun h hu => h.use hu) uses (accounts_fresh hf) hrun,
    Session.run_start_uses (Pool.sound_of_ofClasses hpool hclasses) hf⟩

/-- The first packet is sent, and its event is all that the queue has room for. The second one is
cut, which the application does not get to hear of. -/
def crowdedUses : List Use :=
  [.enable, .send {} .empty, .send {} .empty, .complete ⟨0, 0⟩ (.written 6),
    .complete ⟨0, 0⟩ .aborted, .pop, .receive [5, 0]]

theorem crowdedUses_accounted : ∃ f₁, Session.smallFramer.useAll crowdedUses = .ok f₁ ∧
    Session.smallFramer.account crowdedUses =
      [.told (.receiveFailed .lengthOutOfRange 1) true, .taken (.sent ⟨0⟩),
        .told (.sendFailed ⟨1⟩ .channelAborted) false, .told (.sent ⟨0⟩) true, .written] ∧
    f₁.reporter.events.toList = [.receiveFailed .lengthOutOfRange 1] ∧
    f₁.statistics.droppedEvents = 1 ∧ f₁.statistics.blobsSent = 1 ∧
    ∀ counter, Counter.value counter f₁.statistics =
      if counter = .packetsSent ∨ counter = .sendFailures ∨ counter = .aborts ∨
        counter = .lengthErrors then 1 else 0 := by
  have hpool : Pool.ofClasses [(16, 2)] = .ok ⟨#[.fresh 16 2]⟩ := rfl
  have hf : ofConfig { maxPayload := 4, maxPacket := 8 } ⟨#[.fresh 16 2]⟩ =
      .ok Session.smallFramer := rfl
  obtain ⟨haccounts, -⟩ := useAll_accounts hpool (by decide) hf
  have haccount : Session.smallFramer.account crowdedUses =
      [.told (.receiveFailed .lengthOutOfRange 1) true, .taken (.sent ⟨0⟩),
        .told (.sendFailed ⟨1⟩ .channelAborted) false, .told (.sent ⟨0⟩) true, .written] := by
    decide +kernel
  have hends : (Session.smallFramer.useAll crowdedUses).toOption.isSome := by
    decide +kernel
  obtain ⟨f₁, hsome⟩ := Option.isSome_iff_exists.1 hends
  have h := haccounts crowdedUses f₁ (eq_ok_of_toOption hsome)
  rw [haccount] at h
  refine ⟨f₁, eq_ok_of_toOption hsome, haccount, ?_, h.dropped_eq, h.blobs_eq, fun counter => ?_⟩
  · exact (List.cons.inj h.ring_eq).2
  · rw [h.value_eq, h.record_eq]
    cases counter <;> rfl

end Framer

end DockLink
