import DockLink.Proofs.Control.Answering

/-!
# Blobs in both directions

The bytes that answer with a blob are those that send it. Behind the code of the command, and cut
anywhere, they become one request with the content type and the content of the blob, if it is within
the limit and the pool has a block for it when its envelope is complete.
-/

namespace DockLink

namespace Transaction

variable {limit : Nat} {contentType : ContentType} {content : Bytes}

/-- What begins a blob that is announced, and has the envelope, announces it. -/
theorem announced?_of_append {bytes more : Bytes} {n : Nat}
    (h : announced? (bytes ++ more) = some n) (hlength : 5 ≤ bytes.length) :
    announced? bytes = some n := by
  match bytes, hlength with
  | _ :: _ :: _ :: _ :: _ :: _, _ => exact h

theorem announced?_of_length {bytes : Bytes} (h : bytes.length < 5) : announced? bytes = none := by
  match bytes, h with
  | [], _ | [_], _ | [_, _], _ | [_, _, _], _ | [_, _, _, _], _ => rfl

theorem exists_envelope (contentType : ContentType)
    (h : content.length ≤ Responder.maxEnvelopeLength) :
    ∃ e : Envelope, e.contentType = contentType ∧ e.length.toNat = content.length ∧
      blobBytes contentType content = e.toBytes ++ content := by
  have hlength : (UInt16.ofNat content.length).toNat = content.length :=
    UInt16.toNat_ofNat_of_lt' (Nat.lt_succ_of_le h)
  let e : Envelope := { contentType, length := UInt16.ofNat content.length }
  exact ⟨e, rfl, hlength, blobBytes_eq (e := e) hlength.symm⟩

theorem announced?_blobBytes (contentType : ContentType)
    (h : content.length ≤ Responder.maxEnvelopeLength) :
    announced? (Command.sendBlob.code :: blobBytes contentType content) = some content.length := by
  obtain ⟨e, -, hlength, hbytes⟩ := exists_envelope contentType h
  rw [hbytes, Decoder.announced?_toBytes, hlength]

/-- A blob within the limit is the request that its bytes tell. -/
theorem read_blobBytes (contentType : ContentType) {room : Bool} (hlimit : content.length ≤ limit)
    (hmax : limit ≤ Responder.maxEnvelopeLength) (hroom : content ≠ [] → room = true) :
    read limit room (Command.sendBlob.code :: blobBytes contentType content) =
      some (.ok (.sendBlob contentType content)) := by
  obtain ⟨e, rfl, hlength, hbytes⟩ := exists_envelope contentType (hlimit.trans hmax)
  have hsupplied : ¬(e.length.toNat ≠ 0 ∧ room = false) := by
    rintro ⟨hsome, hnone⟩
    rw [hlength, ne_eq, List.length_eq_zero_iff] at hsome
    rw [hroom hsome] at hnone
    cases hnone
  rw [read, verdict?_sendBlob, hbytes, Decoder.blobVerdict?_toBytes, if_neg (by omega),
    if_neg hsupplied, if_neg (by omega), List.take_of_length_le hlength.ge, Option.some_or]

end Transaction

namespace ServiceAction

theorem dataAll_split (before : List ServiceAction) (data : Bytes) (after : List ServiceAction) :
    dataAll (before ++ .receive data :: after) = dataAll before ++ data ++ dataAll after := by
  rw [dataAll, List.flatMap_append]
  exact append_dataAll_receive _ _ _

/-- One of the slices brings a byte of given number. -/
theorem exists_slice (actions : List ServiceAction) {k : Nat} (hpos : 0 < k)
    (hk : k ≤ (dataAll actions).length) :
    ∃ before data after, actions = before ++ .receive data :: after ∧
      (dataAll before).length < k ∧ k ≤ (dataAll before ++ data).length := by
  induction actions generalizing k with
  | nil => exact absurd hk (Nat.not_le.2 hpos)
  | cons a rest ih =>
      have hall : (dataAll (a :: rest)).length = a.data.length + (dataAll rest).length :=
        List.length_append
      by_cases hfirst : k ≤ a.data.length
      · cases a with
        | receive data => exact ⟨[], data, rest, rfl, hpos, hfirst⟩
        | _ => exact absurd hfirst (Nat.not_le.2 hpos)
      · obtain ⟨before, data, after, rfl, hlt, hle⟩ :=
          ih (k := k - a.data.length) (by omega) (by omega)
        have hbefore : (dataAll (a :: before)).length = a.data.length + (dataAll before).length :=
          List.length_append
        rw [List.length_append] at hle
        refine ⟨a :: before, data, after, rfl, by omega, ?_⟩
        rw [List.length_append]
        omega

end ServiceAction

namespace Service

open ServiceAction (dataAll dataAll_split exists_slice)
open Responder (OfPool blobLength offered)

variable {depth limit : Nat} {s s' : Service depth}

/-- Whether the pool has a block of `n` bytes when the slice comes in that completes the code and
the envelope. -/
def Supplies (s : Service depth) (n : Nat) (actions : List ServiceAction) : Prop :=
  ∀ before data after s₁, actions = before ++ .receive data :: after →
    (dataAll before).length < 5 → 5 ≤ (dataAll before ++ data).length →
    s.run before = .ok s₁ → s₁.responder.pool.HasRoom n

/-- A transaction that sends a blob is told as that, however it is cut and whatever else happens
meanwhile. -/
def TakesBlob (s : Service depth) (contentType : ContentType) (content : Bytes) : Prop :=
  ∀ actions, (∀ a ∈ actions, a.isWithin) →
    dataAll actions = Command.sendBlob.code :: blobBytes contentType content →
    (content ≠ [] → s.Supplies content.length actions) →
    ∃ s', s.run (actions ++ [.transactionEnd]) = .ok s' ∧ s'.responder.decoder.phase = .code ∧
      s.Tells [.ok (.sendBlob contentType content)] s' ∧
      (s.docket.queued.length < depth →
        s'.notices = s.notices ++ [.ok (.sendBlob contentType content)] ∧
        s'.docket.dropped = s.docket.dropped)

/-- A result that does not find the queue full is told. -/
theorem Tells.of_room {results : List Notice} (h : s.Tells results s')
    (hroom : s.docket.queued.length < depth) :
    s'.notices = s.notices ++ results ∧ s'.docket.dropped = s.docket.dropped :=
  h.told.resolve_right fun hfull => Nat.not_lt.2 hfull.1 hroom

theorem Equipped.takesBlob (h : s.Equipped limit) (hphase : s.responder.decoder.phase = .code)
    (contentType : ContentType) {content : Bytes} (hlimit : content.length ≤ limit) :
    s.TakesBlob contentType content := by
  intro actions hwithin hdata hsupplies
  obtain ⟨s', room, hrun, -, hheard, hfinds, htells⟩ :=
    h.sound.reads actions hwithin ((heard_eq_nil_iff s).2 hphase)
  have hannounced : Transaction.announced? (dataAll actions) = some content.length := by
    rw [hdata]
    exact Transaction.announced?_blobBytes contentType (hlimit.trans h.announced)
  have hroom : content ≠ [] → room = true := by
    intro hcontent
    have hlong : 5 ≤ (dataAll actions).length := by
      rw [hdata, List.length_cons, length_blobBytes, Envelope.byteLength]
      omega
    obtain ⟨before, data, after, hsplit, hshort, henvelope⟩ := exists_slice actions (by decide) hlong
    obtain ⟨s₁, hbefore, -⟩ := h.run before
    rw [hsplit, dataAll_split] at hannounced
    have hpool := hsupplies hcontent before data after s₁ hsplit hshort henvelope hbefore
    exact (hfinds.within before data after s₁ _ hsplit hbefore
      (Transaction.announced?_of_length hshort)
      (Transaction.announced?_of_append hannounced henvelope)).2 hpool
  rw [List.nil_append, hdata, h.limit_eq,
    Transaction.read_blobBytes contentType hlimit h.announced hroom] at htells
  exact ⟨s', hrun, (heard_eq_nil_iff s').1 hheard, htells, htells.of_room⟩

/-- Whatever happened at a port before: an answer with a blob is refused as too large, or for want
of a block, or it is one write of the envelope and the content; and these bytes, behind the code of
the command, send a blob to any port with a limit that admits it. -/
theorem run_start_exchanges {classes : List (Nat × Nat)} {pool : Pool} {r : Responder depth}
    (hpool : Pool.ofClasses classes = .ok pool) (hclasses : ∀ c ∈ classes, 1 ≤ c.1 ∧ c.2 ≤ 255)
    (hr : Responder.ofPool pool limit = .ok r) (history : List ServiceAction) :
    ∃ s, (start r).run history = .ok s ∧
      (∀ blob, OfPool s.responder.pool blob → s.Answers limit blob) ∧
      (s.responder.decoder.phase = .code → ∀ contentType content,
        content.length ≤ limit → s.TakesBlob contentType content) := by
  obtain ⟨s, hrun, hs⟩ := (equipped_start hpool hclasses hr).run history
  exact ⟨s, hrun, fun _ => hs.answers, fun hphase contentType _ => hs.takesBlob hphase contentType⟩

/-- Both slots are used and given back, and then one of them is taken for two bytes. -/
def wornActions : List ServiceAction :=
  [.respond 16 fun _ => .ok (List.replicate 16 255), .respond 16 fun _ => .ok (List.replicate 16 255),
    .complete (.written 16), .complete (.written 16), .deed (.allocate 2),
    .deed (.write ⟨0, 1⟩ 0 [8, 7])]

/-- The two bytes in chunks of their own, the second one first. -/
def swappedPacket : Packet := { chunks := [⟨⟨0, 1⟩, 1, 2⟩, ⟨⟨0, 1⟩, 0, 1⟩], length := 2 }

/-- The answer with these bytes, sent back in slices. -/
def swappedBlob : List ServiceAction :=
  [.receive [3, 0x34], .pop, .receive [0x12, 2, 0, 7], .receive [8]]

theorem wornActions_exchanges :
    ∃ s, (start smallResponder).run wornActions = .ok s ∧
      (s.answerBlob (some (⟨0x1234⟩, swappedPacket))).2 = .sent ∧
      s.Sends (s.answerBlob (some (⟨0x1234⟩, swappedPacket))).1 [0x34, 0x12, 2, 0, 7, 8] ∧
      ∃ s', s.run (swappedBlob ++ [.transactionEnd]) = .ok s' ∧
        s'.notices = s.notices ++ [.ok (.sendBlob ⟨0x1234⟩ [7, 8])] := by
  have hpool : Pool.ofClasses [(16, 2)] = .ok ⟨#[.fresh 16 2]⟩ := rfl
  have hr : Responder.ofPool ⟨#[.fresh 16 2]⟩ 8 = .ok smallResponder := rfl
  obtain ⟨s, hrun, hanswers, htakes⟩ := run_start_exchanges hpool (by decide) hr wornActions
  have hvalue : ((start smallResponder).run wornActions).toOption.map (fun s =>
      decide (s.responder.decoder.phase = .code ∧ s.docket.queued.length < 1 ∧
        swappedPacket.Valid s.responder.pool ∧ swappedPacket.content s.responder.pool = [7, 8] ∧
        (s.answerBlob (some (⟨0x1234⟩, swappedPacket))).2 = .sent ∧
        (s.run [.receive [3, 0x34], .pop]).toOption.map (fun s₁ =>
          decide (s₁.responder.pool.HasRoom 2)) = some true)) = some true := by
    decide +kernel
  rw [hrun] at hvalue
  obtain ⟨hphase, hqueue, hvalid, hcontent, hsent, hroom⟩ := of_decide_eq_true (Option.some.inj hvalue)
  have hof : OfPool s.responder.pool (some (⟨0x1234⟩, swappedPacket)) := by
    rintro - - ⟨⟩
    exact hvalid
  obtain ⟨-, hsends⟩ := (hanswers _ hof).sent (by rw [hsent]; nofun)
  have hbytes : answerBytes (offered s.responder.pool (some (⟨0x1234⟩, swappedPacket))) =
      [0x34, 0x12, 2, 0, 7, 8] := by
    rw [Responder.offered_some, hcontent]
    decide
  rw [hbytes] at hsends
  have hsupplies : s.Supplies 2 swappedBlob := by
    intro before data after s₁ hsplit hshort hlong hrun₁
    match before with
    | [] =>
        cases hsplit
        exact absurd hlong (by decide)
    | [_] => cases hsplit
    | [_, _] =>
        cases hsplit
        rw [hrun₁] at hroom
        exact of_decide_eq_true (Option.some.inj hroom)
    | _ :: _ :: _ :: rest =>
        simp only [swappedBlob, List.cons_append, List.cons.injEq] at hsplit
        obtain ⟨rfl, rfl, rfl, -⟩ := hsplit
        exact absurd hshort (Nat.not_lt.2 (Nat.le_add_left 5 _))
  obtain ⟨s', hrun', -, -, htold⟩ := htakes hphase ⟨0x1234⟩ [7, 8] (by decide) swappedBlob
    (by decide) (by decide) fun _ => hsupplies
  exact ⟨s, hrun, hsent, hsends, s', hrun', (htold hqueue).1⟩

end Service

end DockLink
