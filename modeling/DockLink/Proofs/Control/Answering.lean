import DockLink.Proofs.Control.Reading
import DockLink.Proofs.Memory.Allocation

/-!
# Answering with a blob

An answer is refused if the blob is beyond the limit, or if no block is free that holds it behind
its envelope. Else one write goes out, and its bytes are the envelope and the content, whatever the
block held before.
-/

namespace DockLink

/-! ## The bytes of an answer -/

/-- The two bytes of a number, the lower one first. -/
def Bytes.ofNat16 (n : Nat) : Bytes := [UInt8.ofNat (n % 256), UInt8.ofNat (n / 256)]

/-- The bytes of a blob: its content type, its length, its content. -/
def blobBytes (contentType : ContentType) (content : Bytes) : Bytes :=
  Bytes.ofNat16 contentType.code.toNat ++ Bytes.ofNat16 content.length ++ content

/-- The bytes that answer with a blob, four zeros if none waits. -/
def answerBytes : Option (ContentType × Bytes) → Bytes
  | none => [0, 0, 0, 0]
  | some (contentType, content) => blobBytes contentType content

theorem Bytes.ofNat16_toNat (w : UInt16) : ofNat16 w.toNat = ofWord16 w := by
  have hlt := w.toNat_lt
  have hhigh : (w >>> 8).toUInt8.toNat = w.toNat / 2 ^ 8 % 2 ^ 8 := toNat_byte w.toNat 8
  have hlow : UInt8.ofNat (w.toNat % 256) = w.toUInt8 := UInt8.toNat_inj.1 (Nat.mod_mod _ _)
  have hhigh' : UInt8.ofNat (w.toNat / 256) = (w >>> 8).toUInt8 :=
    UInt8.toNat_inj.1 hhigh.symm
  rw [ofNat16, ofWord16, hlow, hhigh']

@[simp]
theorem length_blobBytes (contentType : ContentType) (content : Bytes) :
    (blobBytes contentType content).length = Envelope.byteLength + content.length := by
  rw [blobBytes, List.length_append]
  rfl

/-- The envelope of a blob, if its length is one that an envelope can announce. -/
theorem blobBytes_eq {e : Envelope} {content : Bytes} (h : content.length = e.length.toNat) :
    blobBytes e.contentType content = e.toBytes ++ content := by
  rw [blobBytes, h, Bytes.ofNat16_toNat, Bytes.ofNat16_toNat, Envelope.toBytes]

/-- What is answered with four zeros. -/
def LooksEmpty (blob : Option (ContentType × Bytes)) : Prop := blob = none ∨ blob = some (⟨0⟩, [])

theorem Bytes.ofNat16_inj {m n : Nat} (hm : m < 65536) (hn : n < 65536)
    (h : ofNat16 m = ofNat16 n) : m = n := by
  obtain ⟨hlow, hhigh⟩ := List.cons.inj h
  have hlow' : m % 256 % 256 = n % 256 % 256 := congrArg UInt8.toNat hlow
  have hhigh' : m / 256 % 256 = n / 256 % 256 := congrArg UInt8.toNat (List.cons.inj hhigh).1
  omega

theorem blobBytes_inj {t u : ContentType} {a b : Bytes} (h : blobBytes t a = blobBytes u b) :
    t = u ∧ a = b := by
  rw [blobBytes, blobBytes, List.append_assoc, List.append_assoc] at h
  obtain ⟨htype, hrest⟩ := List.append_inj h rfl
  obtain ⟨-, hcontent⟩ := List.append_inj hrest rfl
  have hcode : t.code = u.code :=
    UInt16.toNat_inj.1 (Bytes.ofNat16_inj t.code.toNat_lt u.code.toNat_lt htype)
  obtain ⟨t⟩ := t
  obtain ⟨u⟩ := u
  exact ⟨congrArg ContentType.mk hcode, hcontent⟩

/-- No blob is answered as the empty one of content type zero. -/
theorem answerBytes_eq (x : Option (ContentType × Bytes)) :
    answerBytes x = blobBytes (x.getD (⟨0⟩, [])).1 (x.getD (⟨0⟩, [])).2 := by
  cases x with
  | none => decide
  | some blob => rfl

theorem looksEmpty_iff (x : Option (ContentType × Bytes)) :
    LooksEmpty x ↔ x.getD (⟨0⟩, []) = (⟨0⟩, []) := by
  cases x with
  | none => exact iff_of_true (Or.inl rfl) rfl
  | some blob => simp only [LooksEmpty, reduceCtorEq, false_or, Option.some.injEq, Option.getD_some]

theorem answerBytes_eq_iff (x y : Option (ContentType × Bytes)) :
    answerBytes x = answerBytes y ↔ x = y ∨ LooksEmpty x ∧ LooksEmpty y := by
  rw [looksEmpty_iff, looksEmpty_iff]
  constructor
  · intro h
    rw [answerBytes_eq, answerBytes_eq] at h
    obtain ⟨htype, hcontent⟩ := blobBytes_inj h
    have hsame : x.getD (⟨0⟩, []) = y.getD (⟨0⟩, []) := Prod.ext htype hcontent
    cases x with
    | none => exact Or.inr ⟨rfl, hsame.symm⟩
    | some blob =>
        cases y with
        | none => exact Or.inr ⟨hsame, rfl⟩
        | some other => exact Or.inl (congrArg some hsame)
  · rintro (rfl | ⟨hx, hy⟩)
    · rfl
    · rw [answerBytes_eq x, answerBytes_eq y, hx, hy]

namespace Responder

variable {depth : Nat} {r : Responder depth} {owed : List Write} {rest : Multiset Block}

/-! ## The responder -/

/-- The envelope and the content come over the whole of the old bytes. -/
theorem fillBlob_eq {pool : Pool} {packet : Packet} (hp : packet.Valid pool) {e : Envelope}
    (he : packet.length = e.length.toNat) {old : Bytes}
    (hold : old.length = Envelope.byteLength + packet.length) :
    fillBlob pool e packet old = .ok (blobBytes e.contentType (packet.content pool)) := by
  have henvelope : e.toBytes.length = Envelope.byteLength := rfl
  have hput : old.put 0 e.toBytes = .ok (e.toBytes ++ old.drop Envelope.byteLength) := by
    rw [Bytes.put, if_pos (by omega), List.take_zero, List.nil_append, henvelope, Nat.zero_add]
  have hdrop : (e.toBytes ++ old.drop Envelope.byteLength).drop Envelope.byteLength =
      old.drop Envelope.byteLength := List.drop_left' henvelope
  have htake : (e.toBytes ++ old.drop Envelope.byteLength).take Envelope.byteLength = e.toBytes :=
    List.take_left' henvelope
  have hroom : (old.drop Envelope.byteLength).length = packet.length := by
    rw [List.length_drop]
    omega
  have hcontent := hp.length_content
  have hcopy : packet.copy pool 0 packet.length = packet.content pool := by
    rw [hp.copy_eq, List.drop_zero, List.take_of_length_le hcontent.le]
  rw [blobBytes_eq (hcontent.trans he)]
  simp only [fillBlob, hput, bind, Except.bind, pure, Except.pure, hdrop, htake, Packet.copyTo,
    hroom, hcopy, hcontent]
  rw [List.drop_of_length_le hroom.le, List.append_nil]

/-- A response that does not depend on the old bytes of its block is refused with the block, or goes
out as it is. -/
theorem Sound.respond_cases (h : r.Sound owed rest) {fill : Bytes → Except Fault Bytes}
    {bytes : Bytes} (hfill : ∀ old, old.length = bytes.length → fill old = .ok bytes) :
    (∃ e, r.pool.allocate bytes.length = .error e ∧
      r.respond bytes.length fill = (r, .refused e)) ∨
    ∃ block q, r.pool.HasRoom bytes.length ∧ q.read block 0 bytes.length = bytes ∧
      r.respond bytes.length fill = ({ r with pool := q }.write block bytes.length, .sent) := by
  unfold Responder.respond
  cases hallocate : r.pool.allocate bytes.length with
  | error e => exact Or.inl ⟨e, rfl, rfl⟩
  | ok granted =>
      obtain ⟨block, q⟩ := granted
      obtain ⟨hnot, hsound, -, hcapacity⟩ := h.pool.allocate hallocate
      have hold : (q.read block 0 bytes.length).length = bytes.length := by
        rw [Pool.read_eq, List.drop_zero, List.length_take, Pool.length_bytes]
        exact Nat.min_eq_left hcapacity
      have hfits : 0 + bytes.length ≤ q.capacity block := (Nat.zero_add _).trans_le hcapacity
      obtain ⟨q', hwrite, -, -, hbytes⟩ := hsound.write hnot hfits
      have hread : q'.read block 0 bytes.length = bytes := by
        rw [Pool.read_eq, hbytes, List.take_zero, List.nil_append, List.drop_zero, List.take_left]
      refine Or.inr ⟨block, q', (h.pool.allocate_isOk_iff _).1 ⟨block, q, hallocate⟩, hread, ?_⟩
      simp only [hfill _ hold, bind, Except.bind, hwrite]

/-- The content that a blob has in a pool. -/
def offered (pool : Pool) (blob : Option (ContentType × Packet)) : Option (ContentType × Bytes) :=
  blob.map fun (contentType, packet) => (contentType, packet.content pool)

theorem offered_some (pool : Pool) (contentType : ContentType) (packet : Packet) :
    offered pool (some (contentType, packet)) = some (contentType, packet.content pool) := rfl

def blobLength : Option (ContentType × Packet) → Nat
  | none => 0
  | some (_, packet) => packet.length

/-- The packet of a blob, if there is one, is of the pool. -/
def OfPool (pool : Pool) (blob : Option (ContentType × Packet)) : Prop :=
  ∀ contentType packet, blob = some (contentType, packet) → packet.Valid pool

theorem length_answerBytes {pool : Pool} {blob : Option (ContentType × Packet)}
    (hblob : OfPool pool blob) :
    (answerBytes (offered pool blob)).length = Envelope.byteLength + blobLength blob := by
  cases blob with
  | none => rfl
  | some blob =>
      obtain ⟨contentType, packet⟩ := blob
      rw [offered_some, answerBytes, length_blobBytes,
        (hblob contentType packet rfl).length_content, blobLength]

/-- A blob within the limit is answered as any response is. -/
theorem Sound.respondBlob_cases (h : r.Sound owed rest) {blob : Option (ContentType × Packet)}
    (hblob : OfPool r.pool blob) (hlimit : blobLength blob ≤ r.decoder.blobLimit)
    (hmax : r.decoder.blobLimit ≤ maxEnvelopeLength) {bytes : Bytes}
    (hbytes : answerBytes (offered r.pool blob) = bytes) :
    (∃ e, r.pool.allocate bytes.length = .error e ∧ r.respondBlob blob = (r, .refused e)) ∨
    ∃ block q, r.pool.HasRoom bytes.length ∧ q.read block 0 bytes.length = bytes ∧
      r.respondBlob blob = ({ r with pool := q }.write block bytes.length, .sent) := by
  have hlength := length_answerBytes hblob
  rw [hbytes] at hlength
  cases blob with
  | none =>
      have hzeros : Envelope.empty.toBytes = [0, 0, 0, 0] := by decide
      have hempty : Envelope.empty.toBytes = bytes := hzeros.trans hbytes
      rw [Responder.respondBlob, respondBytes, hempty]
      refine h.respond_cases fun old hold => ?_
      rw [Bytes.put, Nat.zero_add, if_pos hold.ge, List.take_zero, List.nil_append,
        List.drop_of_length_le hold.le, List.append_nil]
  | some blob =>
      obtain ⟨contentType, packet⟩ := blob
      have hlength' : bytes.length = Envelope.byteLength + packet.length := hlength
      have hannounced : (UInt16.ofNat packet.length).toNat = packet.length :=
        UInt16.toNat_ofNat_of_lt' (Nat.lt_succ_of_le (hlimit.trans hmax))
      have hfits : ¬packet.length > r.decoder.blobLimit := Nat.not_lt.2 hlimit
      simp only [Responder.respondBlob, hfits, if_false, hannounced, ← hlength']
      refine h.respond_cases fun old hold => ?_
      rw [← hbytes]
      exact fillBlob_eq (hblob contentType packet rfl) hannounced.symm (hold.trans hlength')

end Responder

namespace Service

open Responder (offered blobLength OfPool)

variable {depth limit : Nat} {s s' : Service depth} {blob : Option (ContentType × Packet)}

/-! ## Services at work -/

/-- What the responder was made for: it keeps account of a pool whose largest blocks hold a blob of
the limit behind its envelope, which can announce it. -/
structure Equipped (s : Service depth) (limit : Nat) : Prop where
  sound : s.Sound
  graded : s.responder.pool.Graded
  limit_eq : s.docket.limit = limit
  fits : Envelope.byteLength + limit ≤ s.responder.pool.maxBlockSize
  announced : limit ≤ Responder.maxEnvelopeLength

/-- No action changes the size classes of the pool. -/
theorem Sound.keeps_step (hs : s.Sound) {a : ServiceAction} (hstep : s.step a = .ok s') :
    s.responder.pool.Keeps s'.responder.pool 0 := by
  cases a with
  | enable => cases hstep; exact hs.responder.enable.keeps.sizes
  | disable => cases hstep; exact hs.responder.disable.keeps.sizes
  | receive data =>
      cases hheard : s.docket.heard with
      | none =>
          cases hstep.symm.trans (step_receive (Responder.received_of_done hheard data))
          exact Pool.Keeps.refl _ _
      | some heard =>
          obtain ⟨r, hreceived, ⟨-, hgoes⟩ | ⟨_, _, -, -, hgoes⟩⟩ :=
            hs.responder.received_open hheard data
          · cases hstep.symm.trans (step_receive hreceived)
            exact hgoes.keeps.sizes
          · cases hstep.symm.trans (step_receive hreceived)
            exact hgoes.keeps.sizes
  | transactionEnd => cases hstep; exact hs.responder.transactionEnd.keeps.sizes
  | pop =>
      simp only [step] at hstep
      split at hstep
      · cases hstep
        exact Pool.Keeps.refl _ _
      · rename_i result r hpop
        cases hstep
        obtain ⟨-, -, hpool, -⟩ := hs.responder.popRequest hpop
        show s.responder.pool.Keeps r.pool 0
        rw [hpool]
        exact Pool.Keeps.refl _ _
  | complete result =>
      cases hout : s.station.channel.outstanding with
      | nil =>
          cases hstep.symm.trans (step_complete_nil hout result)
          exact Pool.Keeps.refl _ _
      | cons w owed =>
          cases hstep.symm.trans (step_complete_cons hout result)
          have hresponder := hs.responder
          rw [hout] at hresponder
          exact hresponder.writeComplete.keeps.sizes
  | respond length fill => cases hstep; exact (hs.responder.respond length fill).keeps.sizes
  | respondBlob blob => cases hstep; exact (hs.responder.respondBlob blob).keeps.sizes
  | deed deed => cases hstep; exact (deed.apply_spec hs.pool_held).2.sizes

theorem Equipped.step (h : s.Equipped limit) (a : ServiceAction) :
    ∃ s', s.step a = .ok s' ∧ s'.Equipped limit := by
  obtain ⟨s', hstep, hs', hlimit⟩ := h.sound.goesOn a
  have hkeeps := h.sound.keeps_step hstep
  exact ⟨s', hstep, hs', h.graded.of_capacity_eq h.sound.responder.pool hs'.responder.pool
    hkeeps.capacity_eq, hlimit.trans h.limit_eq, h.fits.trans_eq hkeeps.maxBlockSize_eq.symm,
    h.announced⟩

theorem Equipped.run (actions : List ServiceAction) {s : Service depth} (h : s.Equipped limit) :
    ∃ s', s.run actions = .ok s' ∧ s'.Equipped limit := by
  induction actions generalizing s with
  | nil => exact ⟨s, rfl, h⟩
  | cons a rest ih =>
      obtain ⟨s₁, hstep, h₁⟩ := h.step a
      obtain ⟨s', hrun, h'⟩ := ih h₁
      exact ⟨s', (run_cons hstep rest).trans hrun, h'⟩

theorem equipped_start {classes : List (Nat × Nat)} {pool : Pool} {r : Responder depth}
    (hpool : Pool.ofClasses classes = .ok pool) (hclasses : ∀ c ∈ classes, 1 ≤ c.1 ∧ c.2 ≤ 255)
    (hr : Responder.ofPool pool limit = .ok r) : (start r).Equipped limit := by
  obtain ⟨hsound, hlimit⟩ := sound_start (Pool.sound_of_ofClasses hpool hclasses) hr
  unfold Responder.ofPool at hr
  simp only at hr
  split at hr
  · cases hr
  · split at hr
    · cases hr
    · rename_i hfits
      split at hr
      · cases hr
      · rename_i hannounced
        cases hr
        exact ⟨hsound, Pool.graded_of_ofClasses hpool, hlimit, Nat.not_lt.1 hfits,
          Nat.not_lt.1 hannounced⟩

/-! ## Answers -/

/-- The service after its step for an answer, and how the answer went. -/
def answerBlob (s : Service depth) (blob : Option (ContentType × Packet)) :
    Service depth × Responder.Answer :=
  let (station, answer) := s.station.answer fun r => r.respondBlob blob
  ({ s with station }, answer)

/-- One write of `bytes` goes out, and is counted. -/
structure Sends (s s' : Service depth) (bytes : Bytes) : Prop where
  write : ∃ w, s'.station.channel.outstanding = s.station.channel.outstanding ++ [w] ∧
    w.length = bytes.length ∧ w.bytes s'.responder.pool = bytes
  issued_eq : s'.station.issued = bytes :: s.station.issued
  responses_eq : s'.responder.responses = s.responder.responses + 1

theorem Sound.answerBlob_refused (hs : s.Sound) {e : AllocError}
    (hrefused : s.responder.respondBlob blob = (s.responder, .refused e)) :
    s.answerBlob blob = (s, .refused e) := by
  have hanswer : s.station.answer (fun r => r.respondBlob blob) =
      (s.station.settle, .refused e) := by
    rw [Station.answer, show s.station.endpoint.respondBlob blob = _ from hrefused]
    rfl
  rw [answerBlob, hanswer, hs.settle_eq]

theorem Sound.answerBlob_sent (hs : s.Sound) {bytes : Bytes} {block : Block} {q : Pool}
    (hread : q.read block 0 bytes.length = bytes)
    (hsent : s.responder.respondBlob blob =
      (Responder.write { s.responder with pool := q } block bytes.length, .sent)) :
    ∃ s', s.answerBlob blob = (s', .sent) ∧ s.Sends s' bytes := by
  let r := Responder.write { s.responder with pool := q } block bytes.length
  have horders : r.orders = [.write { block, offset := 0, length := bytes.length }] :=
    congrArg _ hs.settled
  have hread' : q.read block 0 (0 + bytes.length) = bytes := by rwa [Nat.zero_add]
  refine ⟨{ s with station := { s.station with endpoint := r }.settle }, ?_,
    ⟨{ block, offset := 0, length := bytes.length }, ?_, rfl, ?_⟩, ?_, ?_⟩
  · rw [answerBlob, Station.answer, show s.station.endpoint.respondBlob blob = _ from hsent]
  · show (s.station.channel.obeyAll r.orders.reverse).outstanding = _
    rw [horders]
    rfl
  · exact hread'
  · show (r.orders.reverse.filterMap (Station.bytesOf? q)).reverse ++ s.station.issued = _
    rw [horders]
    show q.read block 0 (0 + bytes.length) :: s.station.issued = _
    rw [hread']
  · rfl

/-- An answer is beyond the limit, or finds no block, or goes out. -/
theorem Equipped.answer_cases (h : s.Equipped limit) (hblob : OfPool s.responder.pool blob) :
    (limit < blobLength blob ∧ s.answerBlob blob = (s, .refused .tooLarge)) ∨
    (blobLength blob ≤ limit ∧ ¬s.responder.pool.HasRoom (4 + blobLength blob) ∧
      s.answerBlob blob = (s, .refused .outOfMemory)) ∨
    (blobLength blob ≤ limit ∧ s.responder.pool.HasRoom (4 + blobLength blob) ∧
      ∃ s', s.answerBlob blob = (s', .sent) ∧
        s.Sends s' (answerBytes (offered s.responder.pool blob))) := by
  have hlimit : s.responder.decoder.blobLimit = limit := h.limit_eq
  have hlength : (answerBytes (offered s.responder.pool blob)).length = 4 + blobLength blob :=
    Responder.length_answerBytes hblob
  by_cases hlarge : limit < blobLength blob
  · refine Or.inl ⟨hlarge, h.sound.answerBlob_refused ?_⟩
    cases blob with
    | none => cases hlarge
    | some blob => exact if_pos (hlimit.trans_lt hlarge)
  · have hle := Nat.not_lt.1 hlarge
    have hfits : 4 + blobLength blob ≤ s.responder.pool.maxBlockSize :=
      (Nat.add_le_add_left hle 4).trans h.fits
    rcases h.sound.responder.respondBlob_cases hblob (hle.trans_eq hlimit.symm)
      (hlimit.trans_le h.announced) rfl with ⟨e, hallocate, hrefused⟩ | ⟨block, q, hroom, hread, hsent⟩
    · rw [hlength] at hallocate
      cases e with
      | tooLarge =>
          exact absurd (h.graded.allocate_eq_tooLarge_iff.1 hallocate) (Nat.not_lt.2 hfits)
      | outOfMemory =>
          exact Or.inr (Or.inl ⟨hle, ((h.sound.responder.pool.allocate_eq_outOfMemory_iff
            h.graded).1 hallocate).2, h.sound.answerBlob_refused hrefused⟩)
    · rw [hlength] at hroom
      exact Or.inr (Or.inr ⟨hle, hroom, h.sound.answerBlob_sent hread hsent⟩)

/-- What comes of an answer at a service with a limit. -/
structure Answers (s : Service depth) (limit : Nat) (blob : Option (ContentType × Packet)) :
    Prop where
  tooLarge : (s.answerBlob blob).2 = .refused .tooLarge ↔ limit < blobLength blob
  outOfMemory : (s.answerBlob blob).2 = .refused .outOfMemory ↔ blobLength blob ≤ limit ∧
    ∀ bucket ∈ s.responder.pool.classes, 4 + blobLength blob ≤ bucket.capacity →
      bucket.freeCount = 0
  /-- An answer that is refused changes nothing. -/
  refused : ∀ {e}, (s.answerBlob blob).2 = .refused e → (s.answerBlob blob).1 = s
  sent : (∀ e, (s.answerBlob blob).2 ≠ .refused e) → (s.answerBlob blob).2 = .sent ∧
    s.Sends (s.answerBlob blob).1 (answerBytes (offered s.responder.pool blob))
  length_eq : (answerBytes (offered s.responder.pool blob)).length = 4 + blobLength blob

theorem Equipped.answers (h : s.Equipped limit) (hblob : OfPool s.responder.pool blob) :
    s.Answers limit blob := by
  have hlength : (answerBytes (offered s.responder.pool blob)).length = 4 + blobLength blob :=
    Responder.length_answerBytes hblob
  rcases h.answer_cases hblob with ⟨hlarge, hanswer⟩ | ⟨hle, hfull, hanswer⟩ |
    ⟨hle, hroom, s', hanswer, hsends⟩
  · refine ⟨?_, ?_, ?_, ?_, hlength⟩
    · rw [hanswer]; exact iff_of_true rfl hlarge
    · rw [hanswer]; exact iff_of_false nofun fun hle => Nat.not_lt.2 hle.1 hlarge
    · rw [hanswer]; exact fun _ => rfl
    · rw [hanswer]; exact fun hrefused => absurd rfl (hrefused _)
  · refine ⟨?_, ?_, ?_, ?_, hlength⟩
    · rw [hanswer]; exact iff_of_false nofun (Nat.not_lt.2 hle)
    · rw [hanswer]; exact iff_of_true rfl ⟨hle, Pool.not_hasRoom_iff.1 hfull⟩
    · rw [hanswer]; exact fun _ => rfl
    · rw [hanswer]; exact fun hrefused => absurd rfl (hrefused _)
  · refine ⟨?_, ?_, ?_, ?_, hlength⟩
    · rw [hanswer]; exact iff_of_false nofun (Nat.not_lt.2 hle)
    · rw [hanswer]; exact iff_of_false nofun fun hfull => Pool.not_hasRoom_iff.2 hfull.2 hroom
    · rw [hanswer]; exact fun hrefused => by cases hrefused
    · rw [hanswer]; exact fun _ => ⟨rfl, hsends⟩

/-! ## What the answers tell apart -/

/-- Of two answers that went out, at any time, the bytes are the same exactly if the blobs are, but
for the empty blob of content type zero, which looks like none. -/
theorem run_start_tellsApart {classes : List (Nat × Nat)} {pool : Pool} {r : Responder depth}
    (hpool : Pool.ofClasses classes = .ok pool) (hclasses : ∀ c ∈ classes, 1 ≤ c.1 ∧ c.2 ≤ 255)
    (hr : Responder.ofPool pool limit = .ok r) (history history' : List ServiceAction) :
    ∃ s s', (start r).run history = .ok s ∧ (start r).run history' = .ok s' ∧
      ∀ x y, OfPool s.responder.pool x → OfPool s'.responder.pool y →
        (s.answerBlob x).2 = .sent → (s'.answerBlob y).2 = .sent →
        ∃ b c, s.Sends (s.answerBlob x).1 b ∧ s'.Sends (s'.answerBlob y).1 c ∧
          (b = c ↔ offered s.responder.pool x = offered s'.responder.pool y ∨
            LooksEmpty (offered s.responder.pool x) ∧
              LooksEmpty (offered s'.responder.pool y)) := by
  have hstart := equipped_start hpool hclasses hr
  obtain ⟨s, hrun, hs⟩ := hstart.run history
  obtain ⟨s', hrun', hs'⟩ := hstart.run history'
  refine ⟨s, s', hrun, hrun', fun x y hx hy hsent hsent' => ⟨_, _, ?_, ?_, answerBytes_eq_iff _ _⟩⟩
  · exact ((hs.answers hx).sent (by rw [hsent]; nofun)).2
  · exact ((hs'.answers hy).sent (by rw [hsent']; nofun)).2

/-- Empty blobs of two content types are told apart. -/
theorem smallResponder_tellsApart :
    ∃ b c, (start smallResponder).Sends
        ((start smallResponder).answerBlob (some (⟨0⟩, .empty))).1 b ∧
      (start smallResponder).Sends
        ((start smallResponder).answerBlob (some (⟨1⟩, .empty))).1 c ∧ b ≠ c := by
  have hpool : Pool.ofClasses [(16, 2)] = .ok ⟨#[.fresh 16 2]⟩ := rfl
  have hr : Responder.ofPool ⟨#[.fresh 16 2]⟩ 8 = .ok smallResponder := rfl
  obtain ⟨s, s', hrun, hrun', htells⟩ := run_start_tellsApart hpool (by decide) hr [] []
  obtain rfl : start smallResponder = s := Except.ok.inj hrun
  obtain rfl : start smallResponder = s' := Except.ok.inj hrun'
  have hempty : ∀ t : ContentType, OfPool (start smallResponder).responder.pool
      (some (t, .empty)) := by
    rintro t - - ⟨⟩
    exact Packet.Valid.empty _
  obtain ⟨b, c, hb, hc, hiff⟩ := htells (some (⟨0⟩, .empty)) (some (⟨1⟩, .empty)) (hempty _)
    (hempty _) (by decide +kernel) (by decide +kernel)
  refine ⟨b, c, hb, hc, fun hsame => ?_⟩
  rcases hiff.1 hsame with htypes | ⟨-, hlooks⟩
  · exact absurd htypes (by decide +kernel)
  · rcases hlooks with hnone | hzero
    · cases hnone
    · exact absurd hzero (by decide +kernel)

/-- The empty blob of content type zero and no blob are both answered with four zeros. -/
theorem emptyBlob_looksLikeNone :
    ∃ x y, offered (start smallResponder).responder.pool x ≠
        offered (start smallResponder).responder.pool y ∧
      OfPool (start smallResponder).responder.pool x ∧
      OfPool (start smallResponder).responder.pool y ∧ blobLength x ≤ 8 ∧ blobLength y ≤ 8 ∧
      ((start smallResponder).answerBlob x).2 = .sent ∧
      ((start smallResponder).answerBlob y).2 = .sent ∧
      ((start smallResponder).answerBlob x).1.station.issued = [[0, 0, 0, 0]] ∧
      ((start smallResponder).answerBlob y).1.station.issued = [[0, 0, 0, 0]] := by
  refine ⟨none, some (⟨0⟩, .empty), nofun, nofun, ?_, by decide, by decide, by decide +kernel,
    by decide +kernel, by decide +kernel, by decide +kernel⟩
  rintro - - ⟨⟩
  exact Packet.Valid.empty _

end Service

end DockLink
