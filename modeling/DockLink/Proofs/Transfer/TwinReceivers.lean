import DockLink.Proofs.Memory.Alike
import DockLink.Proofs.Transfer.Board
import DockLink.Proofs.Wire.Format

/-!
# Receivers of two pools

Two receive paths that read the same bytes, each over a pool of its own. If they are alike at the
beginning they are alike at the end, and so are the queues of the events that they report. How many
events were counted so far does not matter, and neither does the number that the tickets began with.
-/

namespace DockLink

open Reassembly

/-- The ticket that is given out `k` numbers later. -/
def Ticket.later (k : UInt16) (t : Ticket) : Ticket := ⟨t.number + k⟩

/-- Two packets, with the bonds of their chunks. -/
def Packet.Bonded (bonds : Multiset Bond) (p p' : Packet) : Prop :=
  ∃ l : List Bond, bonds = l ∧ Packet.Alike l p p'

/-- Two events, the first of them about a ticket `k` numbers later. -/
inductive LinkEvent.Alike (k : UInt16) : Multiset Bond → LinkEvent → LinkEvent → Prop where
  | received {bonds : Multiset Bond} {packet packet' : Packet} (contentType : ContentType)
      (alike : packet.Bonded bonds packet') :
      Alike k bonds (.received contentType packet) (.received contentType packet')
  | sent (ticket : Ticket) : Alike k 0 (.sent (ticket.later k)) (.sent ticket)
  | sendFailed (ticket : Ticket) (error : LinkError) :
      Alike k 0 (.sendFailed (ticket.later k) error) (.sendFailed ticket error)
  | receiveFailed (error : LinkError) (consecutive : UInt8) :
      Alike k 0 (.receiveFailed error consecutive) (.receiveFailed error consecutive)

/-- Two reporters with the same events in the queue and the same faults in a row. -/
structure Reporter.Alike {depth : Nat} (k : UInt16) (bonds : Multiset Bond) (r r' : Reporter depth) :
    Prop where
  events : AllAlike (LinkEvent.Alike k) bonds r.events.toList r'.events.toList
  faults_eq : r.faults = r'.faults

variable {depth : Nat} {k : UInt16} {own own' : Multiset Block} {pool pool' : Pool}
  {bonds rest : Multiset Bond}

theorem Packet.Bonded.release {p p' : Packet} (h : p.Bonded bonds p')
    (ht : Pool.Twins own own' pool pool' (bonds + rest)) :
    Pool.Twins own own' (p.release pool) (p'.release pool') rest := by
  obtain ⟨l, rfl, halike⟩ := h
  exact halike.release ht

/-! ## Reporting -/

namespace Reporter.Alike

variable {r r' : Reporter depth}

theorem count (h : Reporter.Alike k bonds r r') (g g' : Statistics → Statistics) :
    Reporter.Alike k bonds (r.count g) (r'.count g') := ⟨h.events, h.faults_eq⟩

theorem withFaults (h : Reporter.Alike k bonds r r') (faults : UInt8) :
    Reporter.Alike k bonds { r with faults } { r' with faults } := ⟨h.events, rfl⟩

theorem emit (h : Reporter.Alike k bonds r r') {event event' : LinkEvent} {fresh : Multiset Bond}
    (he : LinkEvent.Alike k fresh event event')
    (ht : Pool.Twins own own' pool pool' (fresh + (bonds + rest))) :
    Together (Reporter.Alike k) own own' rest (r.emit pool event) (r'.emit pool' event') := by
  rcases h.events.push he with ⟨hfull, hfull'⟩ | ⟨events, events', hp, hp', hevents⟩
  · rw [emit_of_full hfull, emit_of_full hfull']
    refine ⟨bonds, ⟨h.events, h.faults_eq⟩, ?_⟩
    cases he with
    | received contentType alike => exact alike.release ht
    | sent ticket => exact ht.cast (zero_add _)
    | sendFailed ticket error => exact ht.cast (zero_add _)
    | receiveFailed error consecutive => exact ht.cast (zero_add _)
  · rw [emit_of_push hp, emit_of_push hp']
    exact ⟨bonds + fresh, ⟨hevents, h.faults_eq⟩, ht.cast (by abel)⟩

theorem sendFailed (h : Reporter.Alike k bonds r r') (ticket : Ticket) (error : LinkError)
    (ht : Pool.Twins own own' pool pool' (bonds + rest)) :
    Together (Reporter.Alike k) own own' rest (r.sendFailed pool (ticket.later k) error)
      (r'.sendFailed pool' ticket error) :=
  (h.count _ _).emit (.sendFailed ticket error) (ht.cast (zero_add _).symm)

theorem receiveFailed (h : Reporter.Alike k bonds r r') (error : LinkError)
    (ht : Pool.Twins own own' pool pool' (bonds + rest)) :
    Together (Reporter.Alike k) own own' rest (r.receiveFailed pool error)
      (r'.receiveFailed pool' error) := by
  unfold Reporter.receiveFailed
  rw [h.faults_eq]
  exact ((h.count _ _).withFaults _).emit (.receiveFailed error _) (ht.cast (zero_add _).symm)

end Reporter.Alike

/-! ## Putting packets together -/

namespace Reassembly

/-- The same part of the same blob. -/
inductive Phase.Alike : Multiset Bond → Phase → Phase → Prop where
  | header (received : Bytes) : Alike 0 (.header received) (.header received)
  | payload (block block' : Block) (header : Header) (filled : Nat) :
      Alike {⟨block, block', 0, filled⟩} (.payload block header filled) (.payload block' header filled)
  | discard : Alike 0 .discard .discard

inductive Output.Alike : Multiset Bond → Output → Output → Prop where
  | blob : Alike 0 .blob .blob
  | packet {bonds : Multiset Bond} {packet packet' : Packet} (alike : packet.Bonded bonds packet') :
      Alike bonds (.packet packet) (.packet packet')
  | fault (error : LinkError) : Alike 0 (.fault error) (.fault error)

end Reassembly

namespace Receiver

/-- Two receive paths that are equally far. -/
inductive Alike : Multiset Bond → Receiver → Receiver → Prop where
  | intro {bonds more : Multiset Bond} {phase phase' : Phase} {packet packet' : Option Packet}
      (maxPayload maxLength : Nat) (phases : Phase.Alike bonds phase phase')
      (packets : SomeAlike Packet.Bonded more packet packet') :
      Alike (bonds + more) ⟨maxPayload, maxLength, phase, packet⟩
        ⟨maxPayload, maxLength, phase', packet'⟩

/-- What a step of two receive paths comes to. -/
def Stepped (own own' : Multiset Block) (rest : Multiset Bond)
    (x x' : Receiver × Pool × List Output) : Prop :=
  ∃ bonds out, Alike bonds x.1 x'.1 ∧ AllAlike Output.Alike out x.2.2 x'.2.2 ∧
    Pool.Twins own own' x.2.1 x'.2.1 (bonds + out + rest)

variable {maxPayload maxLength : Nat} {phase phase' : Phase} {packet packet' : Option Packet}
  {block block' : Block} {r r' : Receiver}

theorem releasePacket_alike (hp : SomeAlike Packet.Bonded bonds packet packet')
    (ht : Pool.Twins own own' pool pool' (bonds + rest)) :
    Pool.Twins own own' (releasePacket ⟨maxPayload, maxLength, phase, packet⟩ pool)
      (releasePacket ⟨maxPayload, maxLength, phase', packet'⟩ pool') rest := by
  cases hp with
  | none => exact ht.cast (zero_add rest)
  | some alike => exact alike.release ht

theorem releaseBlob_alike (hp : Phase.Alike bonds phase phase')
    (ht : Pool.Twins own own' pool pool' (bonds + rest)) :
    Pool.Twins own own' (releaseBlob ⟨maxPayload, maxLength, phase, packet⟩ pool)
      (releaseBlob ⟨maxPayload, maxLength, phase', packet'⟩ pool') rest := by
  cases hp with
  | header received => exact ht.cast (zero_add rest)
  | payload block block' header filled =>
      exact (ht.cast (Multiset.singleton_add _ _)).release
  | discard => exact ht.cast (zero_add rest)

theorem Alike.state_eq (h : Alike bonds r r') : r.state = r'.state := by
  obtain ⟨_, _, phases, _⟩ := h
  cases phases with
  | header received => rfl
  | payload block block' header filled => rfl
  | discard => rfl

theorem Alike.wanted_eq (h : Alike bonds r r') (data : Bytes) : r.wanted data = r'.wanted data := by
  obtain ⟨_, _, phases, _⟩ := h
  cases phases with
  | header received => rfl
  | payload block block' header filled => rfl
  | discard => rfl

/-- Two paths between two blobs, without a packet. -/
theorem Alike.idle (maxPayload maxLength : Nat) :
    Alike 0 ⟨maxPayload, maxLength, .idle, none⟩ ⟨maxPayload, maxLength, .idle, none⟩ :=
  add_zero (0 : Multiset Bond) ▸ .intro maxPayload maxLength (.header []) .none

theorem Alike.reset (h : Alike bonds r r') (ht : Pool.Twins own own' pool pool' (bonds + rest)) :
    Together Alike own own' rest (r.reset pool) (r'.reset pool') := by
  obtain ⟨maxPayload, maxLength, phases, packets⟩ := h
  refine ⟨0, .idle maxPayload maxLength, ?_⟩
  exact (releasePacket_alike packets (releaseBlob_alike phases (ht.cast (add_assoc _ _ _)))).cast
    (zero_add rest).symm

theorem fail_alike (maxPayload maxLength : Nat) (phase phase' : Phase)
    (hp : SomeAlike Packet.Bonded bonds packet packet') (error : LinkError)
    (ht : Pool.Twins own own' pool pool' (bonds + rest)) :
    Stepped own own' rest (fail ⟨maxPayload, maxLength, phase, packet⟩ pool error)
      (fail ⟨maxPayload, maxLength, phase', packet'⟩ pool' error) :=
  ⟨0 + 0, 0, .intro maxPayload maxLength .discard .none, .singleton (.fault error),
    (releasePacket_alike hp ht).cast (by abel)⟩

theorem startBlob_alike (hp : SomeAlike Packet.Bonded bonds packet packet') (header : Header)
    (ht : Pool.Twins own own' pool pool' (bonds + rest)) :
    Agree (Stepped own own' rest) (startBlob ⟨maxPayload, maxLength, phase, packet⟩ pool header)
      (startBlob ⟨maxPayload, maxLength, phase', packet'⟩ pool' header) := by
  unfold startBlob
  split
  · exact .ok (fail_alike _ _ _ _ hp .lengthOutOfRange ht)
  · rcases ht.allocate header.blobLength with ⟨e, ha, ha'⟩ | ⟨b, b', q, q', ha, ha', hq⟩
    · rw [ha, ha']
      exact .ok (fail_alike _ _ _ _ hp .outOfMemory ht)
    · rw [ha, ha']
      rcases hq.write 0 header.toBytes with ⟨fault, hw, hw'⟩ | ⟨p, p', hw, hw', hp'⟩
      · simp only [hw, hw']
        exact .error fault
      · simp only [hw, hw']
        refine .ok ⟨_, 0, .intro maxPayload maxLength (.payload b b' header Header.byteLength) hp, .nil,
          ?_⟩
        have hknown : Pool.Twins own own' p p' (⟨b, b', 0, Header.byteLength⟩ ::ₘ (bonds + rest)) :=
          hp' fun i _ hi => Or.inr ⟨Nat.zero_le i, (Nat.zero_add header.toBytes.length).symm ▸ hi⟩
        exact hknown.cast (by rw [← Multiset.singleton_add]; abel)

/-- The packet under reassembly, or an empty one. -/
theorem bonded_getD (hp : SomeAlike Packet.Bonded bonds packet packet') :
    (packet.getD .empty).Bonded bonds (packet'.getD .empty) := by
  cases hp with
  | none => exact ⟨[], rfl, .empty⟩
  | some alike => exact alike

theorem acceptBlob_alike (hp : SomeAlike Packet.Bonded bonds packet packet') {header : Header}
    (ht : Pool.Twins own own' pool pool'
      (⟨block, block', 0, header.blobLength⟩ ::ₘ (bonds + rest))) :
    Agree (Stepped own own' rest)
      (acceptBlob ⟨maxPayload, maxLength, phase, packet⟩ pool block header)
      (acceptBlob ⟨maxPayload, maxLength, phase', packet'⟩ pool' block' header) := by
  have hwhole := bonded_getD hp
  obtain ⟨l, rfl, halike⟩ := hwhole
  unfold acceptBlob
  simp only [← halike.length_eq]
  split
  · -- The packet would be too long: it is dropped, and then the block is given back.
    obtain ⟨kept, out, hr, hout, ht'⟩ := fail_alike maxPayload maxLength phase phase'
      (.some ⟨l, rfl, halike⟩) .lengthOutOfRange (ht.cast (Multiset.add_cons _ _ _).symm)
    refine .ok ⟨kept, out, hr, hout, ?_⟩
    exact (ht'.cast (Multiset.add_cons _ _ _)).release
  · refine (Chunk.of_agree ht Header.byteLength header.covered).bind ?_
    rintro c c' ⟨rfl, rfl⟩
    have hchunk : Pool.Twins own own' pool pool'
        (⟨block, block', Header.byteLength, header.covered⟩ ::ₘ ((l : Multiset Bond) + rest)) :=
      ht.narrow (Nat.zero_le _) (by rw [Header.blobLength_eq]; exact Nat.le_add_right _ _)
    rcases halike.push hchunk with ⟨hpush, hpush'⟩ | ⟨p, p', q, q', l', hpush, hpush', halike', hq⟩
    · simp only [Bond.leftChunk, Bond.rightChunk] at hpush hpush'
      simp only [hpush, hpush']
      exact .ok (fail_alike _ _ _ _ (.some ⟨l, rfl, halike⟩) .lengthOutOfRange hchunk.release)
    · simp only [Bond.leftChunk, Bond.rightChunk] at hpush hpush'
      simp only [hpush, hpush']
      split
      · exact .ok ⟨_, _, .intro maxPayload maxLength (.header []) (.some ⟨l', rfl, halike'⟩),
          .singleton .blob, hq.cast (by abel)⟩
      · exact .ok ⟨_, _, .idle maxPayload maxLength,
          .cons .blob (.singleton (.packet ⟨l', rfl, halike'⟩)), hq.cast (by abel)⟩

theorem finishBlob_alike (hp : SomeAlike Packet.Bonded bonds packet packet') {header : Header}
    (ht : Pool.Twins own own' pool pool'
      (⟨block, block', 0, header.blobLength⟩ ::ₘ (bonds + rest))) :
    Agree (Stepped own own' rest)
      (finishBlob ⟨maxPayload, maxLength, phase, packet⟩ pool block header)
      (finishBlob ⟨maxPayload, maxLength, phase', packet'⟩ pool' block' header) := by
  have hread : pool.read block 0 header.blobLength = pool'.read block' 0 header.blobLength :=
    ht.read_eq (Multiset.mem_cons_self _ _) (Nat.le_refl 0) (Nat.le_refl _)
  unfold finishBlob
  rw [hread]
  refine (Agree.of_eq rfl).bind ?_
  rintro good _ rfl
  split
  · exact acceptBlob_alike hp ht
  · obtain ⟨kept, out, hr, hout, ht'⟩ := fail_alike maxPayload maxLength phase phase' hp .crcMismatch
      (ht.cast (Multiset.add_cons _ _ _).symm)
    exact .ok ⟨kept, out, hr, hout, (ht'.cast (Multiset.add_cons _ _ _)).release⟩

theorem takeHeader_alike (hp : SomeAlike Packet.Bonded bonds packet packet') (received : Bytes)
    (ht : Pool.Twins own own' pool pool' (bonds + rest)) :
    Agree (Stepped own own' rest) (takeHeader ⟨maxPayload, maxLength, phase, packet⟩ pool received)
      (takeHeader ⟨maxPayload, maxLength, phase', packet'⟩ pool' received) := by
  unfold takeHeader
  split
  · exact startBlob_alike hp _ ht
  · exact .ok ⟨_, 0, .intro maxPayload maxLength (.header received) hp, .nil, ht.cast (by abel)⟩

theorem takePayload_alike (hp : SomeAlike Packet.Bonded bonds packet packet') (header : Header)
    (filled : Nat) (data : Bytes)
    (ht : Pool.Twins own own' pool pool' (⟨block, block', 0, filled⟩ ::ₘ (bonds + rest))) :
    Agree (Stepped own own' rest)
      (takePayload ⟨maxPayload, maxLength, phase, packet⟩ pool block header filled data)
      (takePayload ⟨maxPayload, maxLength, phase', packet'⟩ pool' block' header filled data) := by
  unfold takePayload
  rcases ht.write filled data with ⟨fault, hw, hw'⟩ | ⟨p, p', hw, hw', hp'⟩
  · rw [hw, hw']
    exact .error fault
  · rw [hw, hw']
    have hknown : Pool.Twins own own' p p'
        (⟨block, block', 0, filled + data.length⟩ ::ₘ (bonds + rest)) :=
      hp' fun i hlow hhigh => (Nat.lt_or_ge i filled).imp (fun hi => ⟨hlow, hi⟩) fun hi => ⟨hi, hhigh⟩
    simp only [bind, Except.bind]
    split
    · rename_i hwhole
      rw [hwhole] at hknown
      exact finishBlob_alike hp hknown
    · refine .ok ⟨_, 0, .intro maxPayload maxLength
        (.payload block block' header (filled + data.length)) hp, .nil, hknown.cast ?_⟩
      rw [← Multiset.singleton_add]
      abel

theorem Alike.take (h : Alike bonds r r') (run : Bytes)
    (ht : Pool.Twins own own' pool pool' (bonds + rest)) :
    Agree (Stepped own own' rest) (r.take pool run) (r'.take pool' run) := by
  obtain ⟨maxPayload, maxLength, phases, packets⟩ := h
  cases phases with
  | header received => exact takeHeader_alike packets _ (ht.cast (by abel))
  | payload block block' header filled =>
      exact takePayload_alike packets header filled run (ht.cast (by
        rw [← Multiset.singleton_add]
        abel))
  | discard =>
      exact .ok ⟨_, 0, .intro maxPayload maxLength .discard packets, .nil, ht.cast (by abel)⟩

theorem Alike.transactionEnd (h : Alike bonds r r')
    (ht : Pool.Twins own own' pool pool' (bonds + rest)) :
    (r.transactionEnd pool).1 = (r'.transactionEnd pool').1 ∧
      Together Alike own own' rest (r.transactionEnd pool).2 (r'.transactionEnd pool').2 := by
  have hreset := h.reset ht
  obtain ⟨maxPayload, maxLength, phases, packets⟩ := h
  cases phases with
  | header received =>
      cases received with
      | nil => exact ⟨rfl, _, .intro maxPayload maxLength (.header []) packets, ht⟩
      | cons b more => exact ⟨rfl, hreset⟩
  | payload block block' header filled => exact ⟨rfl, hreset⟩
  | discard => exact ⟨rfl, _, .intro maxPayload maxLength (.header []) packets, ht⟩

end Receiver

/-! ## Reading and reporting -/

namespace Framer

variable {config : Config} {r r' : Reporter depth} {more : Multiset Bond}

theorem untag_alike {packet packet' : Packet} (hp : packet.Bonded bonds packet')
    (ht : Pool.Twins own own' pool pool' (bonds + rest)) :
    Agree (Together (SomeAlike fun kept x x' => x.1 = x'.1 ∧ x.2.Bonded kept x'.2) own own' rest)
      (untag config pool packet) (untag config pool' packet') := by
  obtain ⟨l, rfl, halike⟩ := hp
  unfold untag
  rw [← halike.length_eq, halike.copy_eq 0 Config.contentTypeLength ht]
  split
  · exact .ok ⟨_, .some ⟨rfl, l, rfl, halike⟩, ht⟩
  · split
    · exact .ok ⟨0, .none, (halike.release ht).cast (zero_add rest).symm⟩
    · refine (Agree.of_eq rfl).bind ?_
      rintro code _ rfl
      refine (halike.advance Config.contentTypeLength ht).bind ?_
      rintro ⟨p, q⟩ ⟨p', q'⟩ ⟨kept, hkept, hq⟩
      exact .ok ⟨kept, .some ⟨rfl, kept, rfl, hkept⟩, hq⟩

theorem deliver_alike (hr : Reporter.Alike k bonds r r') {output output' : Output}
    (ho : Output.Alike more output output')
    (ht : Pool.Twins own own' pool pool' (more + (bonds + rest))) :
    Agree (Together (Reporter.Alike k) own own' rest) (deliver config r pool output)
      (deliver config r' pool' output') := by
  cases ho with
  | blob =>
      exact .ok ⟨bonds, (hr.count _ _).withFaults 0, ht.cast (zero_add _)⟩
  | fault error => exact .ok (hr.receiveFailed error (ht.cast (zero_add _)))
  | packet alike =>
      refine (untag_alike alike ht).bind ?_
      rintro ⟨found, q⟩ ⟨found', q'⟩ ⟨kept, hfound, hq⟩
      cases hfound with
      | none => exact .ok (hr.receiveFailed .lengthOutOfRange (hq.cast (zero_add _)))
      | @some _ found found' hsome =>
          obtain ⟨contentType, packet⟩ := found
          obtain ⟨contentType', packet'⟩ := found'
          obtain ⟨rfl, hkept⟩ := hsome
          exact .ok ((hr.count _ _).emit (.received contentType hkept) hq)

theorem deliverAll_alike {outputs outputs' : List Output}
    (ho : AllAlike Output.Alike more outputs outputs') (hr : Reporter.Alike k bonds r r')
    (ht : Pool.Twins own own' pool pool' (more + (bonds + rest))) :
    Agree (Together (Reporter.Alike k) own own' rest)
      (Receiver.deliverAll (deliver config) r pool outputs)
      (Receiver.deliverAll (deliver config) r' pool' outputs') := by
  induction ho generalizing r r' pool pool' bonds with
  | nil => exact .ok ⟨bonds, hr, ht.cast (zero_add _)⟩
  | @cons now later output output' outputs outputs' first others ih =>
      have hfirst : Pool.Twins own own' pool pool' (now + (bonds + (later + rest))) :=
        ht.cast (by abel)
      refine (deliver_alike hr first hfirst).bind ?_
      rintro ⟨r₁, q⟩ ⟨r₁', q'⟩ ⟨kept, hr₁, hq⟩
      exact ih hr₁ (hq.cast (by abel))

/-- Two receive paths with their reporters, after the same bytes. -/
def Read (k : UInt16) (own own' : Multiset Block) (rest : Multiset Bond)
    (x x' : Receiver × Pool × Reporter depth) : Prop :=
  ∃ bonds more, Receiver.Alike bonds x.1 x'.1 ∧ Reporter.Alike k more x.2.2 x'.2.2 ∧
    Pool.Twins own own' x.2.1 x'.2.1 (bonds + more + rest)

theorem pushRuns_alike (n : Nat) {receiver receiver' : Receiver}
    (hreceiver : Receiver.Alike bonds receiver receiver') (hr : Reporter.Alike k more r r')
    (data : Bytes) (ht : Pool.Twins own own' pool pool' (bonds + more + rest)) :
    Agree (Read k own own' rest) (Receiver.pushRuns (deliver config) n receiver pool r data)
      (Receiver.pushRuns (deliver config) n receiver' pool' r' data) := by
  induction n generalizing receiver receiver' r r' pool pool' bonds more data with
  | zero => exact .ok ⟨bonds, more, hreceiver, hr, ht⟩
  | succ n ih =>
      unfold Receiver.pushRuns
      rw [← hreceiver.wanted_eq data]
      split
      · exact .ok ⟨bonds, more, hreceiver, hr, ht⟩
      · refine (hreceiver.take _ (ht.cast (add_assoc _ _ _))).bind ?_
        rintro ⟨receiver₁, q, outputs⟩ ⟨receiver₁', q', outputs'⟩ ⟨kept, out, hreceiver₁, hout, hq⟩
        have hout' : Pool.Twins own own' q q' (out + (more + (kept + rest))) := hq.cast (by abel)
        refine (deliverAll_alike hout hr hout').bind ?_
        rintro ⟨r₁, q₁⟩ ⟨r₁', q₁'⟩ ⟨posted, hr₁, hq₁⟩
        exact ih hreceiver₁ hr₁ _ (hq₁.cast (by abel))

theorem push_alike (config : Config) {receiver receiver' : Receiver}
    (hreceiver : Receiver.Alike bonds receiver receiver') (hr : Reporter.Alike k more r r') (data : Bytes)
    (ht : Pool.Twins own own' pool pool' (bonds + more + rest)) :
    Agree (Read k own own' rest) (receiver.push pool (deliver config) r data)
      (receiver'.push pool' (deliver config) r' data) :=
  pushRuns_alike data.length hreceiver hr data ht

end Framer

end DockLink
