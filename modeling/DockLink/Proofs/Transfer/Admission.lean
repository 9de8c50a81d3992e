import DockLink.Proofs.Memory.Copies
import DockLink.Proofs.Memory.Packing
import DockLink.Proofs.Transfer.Gate
import DockLink.Proofs.Transfer.Misuse

/-!
# Packets that count as too long

There are two limits for a packet: one for its bytes, and one for its chunks, among which the
content type needs one of its own. A packet that is within the first limit may well be at the
second, as one that was received in eight blobs is, and then it can be sent without its content type
only.
-/

namespace DockLink

namespace Framer

variable {queueDepth eventDepth : Nat} {f f' f₁ : Framer queueDepth eventDepth} {pool q : Pool}
  {handles : Multiset Block} {config : Config} {classes : List (Nat × Nat)}

/-! ## The content type -/

/-- The content type has a block, and the packet no room for it. -/
theorem tag_eq_tooLong_iff (hs : pool.Sound handles) (config : Config) (contentType : ContentType)
    (packet : Packet) : (∃ q, tag config pool contentType packet = .ok (.error .tooLong, q)) ↔
      config.tagged ∧ Packet.maxChunks ≤ packet.chunks.length ∧
        pool.HasRoom Config.contentTypeLength := by
  by_cases htagged : config.tagged
  · have htwo : config.tagLength = Config.contentTypeLength := if_pos htagged
    rw [tag, htwo, if_neg (by decide), ← hs.allocate_isOk_iff]
    cases hallocate : pool.allocate Config.contentTypeLength with
    | error e =>
        refine iff_of_false ?_ ?_
        · rintro ⟨q, h⟩
          cases h
        · rintro ⟨-, -, b, q, h⟩
          cases h
    | ok granted =>
        obtain ⟨block, q₀⟩ := granted
        obtain ⟨hnew, hsound, -, hfits⟩ := hs.allocate hallocate
        have hcode : 0 + (Bytes.ofWord16 contentType.code).length ≤ q₀.capacity block := hfits
        obtain ⟨q₁, hwrite, -, hkeeps, -⟩ := hsound.write hnew hcode
        have hof : Chunk.of q₁ block 0 Config.contentTypeLength =
            .ok ⟨block, 0, Config.contentTypeLength⟩ :=
          if_pos ⟨Nat.zero_le _, hfits.trans_eq (hkeeps.capacity_eq block).symm⟩
        have hchunk : (⟨block, 0, Config.contentTypeLength⟩ : Chunk).length ≠ 0 :=
          Nat.succ_ne_zero 1
        simp only [hwrite, hof, bind, Except.bind, htagged, true_and]
        cases hpush : packet.pushFront q₁ ⟨block, 0, Config.contentTypeLength⟩ with
        | error c =>
            obtain ⟨rfl, hfull⟩ := Packet.full_of_pushFront_error hpush
            exact iff_of_true ⟨_, rfl⟩ ⟨hfull, block, q₀, rfl⟩
        | ok tagged =>
            refine iff_of_false ?_ ?_
            · rintro ⟨q, h⟩
              cases h
            · rintro ⟨hfull, -⟩
              cases hpush.symm.trans (Packet.pushFront_eq_error hchunk hfull)
  · have hzero : config.tagLength = 0 := if_neg htagged
    rw [tag, if_pos hzero]
    refine iff_of_false ?_ fun h => htagged h.1
    rintro ⟨q, h⟩
    cases h

/-! ## Long packets -/

/-- A packet that is handed in is not accepted because it is too long. -/
def FindsTooLong (f : Framer queueDepth eventDepth) (contentType : ContentType) (packet : Packet) :
    Prop :=
  ∃ returned f', f.send contentType packet = .ok (.error (.tooLong, returned), f')

theorem findsTooLong_iff (hs : f.pool.Sound handles) (contentType : ContentType)
    (packet : Packet) : f.FindsTooLong contentType packet ↔
      f.config.maxPacket < packet.length ∨
        f.enabled ∧ f.config.tagged ∧ Packet.maxChunks ≤ packet.chunks.length ∧
          f.pool.HasRoom Config.contentTypeLength := by
  constructor
  · rintro ⟨returned, f', h⟩
    unfold send at h
    split at h
    · rename_i hlong
      exact Or.inl hlong
    · split at h
      · cases h
      · rename_i hopen
        obtain ⟨⟨result, q⟩, htag, h⟩ := exists_of_bind_eq_ok h
        cases result with
        | error e =>
            cases h
            have henabled : f.enabled := by simpa using hopen
            exact Or.inr ⟨henabled, (tag_eq_tooLong_iff hs _ _ _).1 ⟨q, htag⟩⟩
        | ok tagged =>
            -- The queue may be full, but it does not measure a packet.
            obtain ⟨packet', q', -, hanswer, -⟩ | ⟨queue, -, -, hanswer⟩ := enqueue_cases h
            · split at hanswer
              · cases hanswer
              · cases hanswer
            · cases hanswer
  · intro h
    by_cases hlong : f.config.maxPacket < packet.length
    · refine ⟨packet, f, ?_⟩
      rw [send, if_pos hlong]
      rfl
    · obtain ⟨henabled, hfull⟩ := h.resolve_left hlong
      obtain ⟨q, htag⟩ := (tag_eq_tooLong_iff hs _ contentType packet).2 hfull
      refine ⟨packet, { f with pool := q }, ?_⟩
      rw [send, if_neg hlong, henabled, htag]
      rfl

/-- However a framer was used, it finds a packet too long if the packet has more bytes than the
limit, and else if its content type would be its ninth chunk. A packet that bytes were put into meets
the latter if it takes eight of the largest blocks. -/
theorem useAll_finds_too_long (hpool : Pool.ofClasses classes = .ok pool)
    (hclasses : ∀ c ∈ classes, 1 ≤ c.1 ∧ c.2 ≤ 255) (hf : ofConfig config pool = .ok f)
    (uses : List Use) (hrun : f.useAll uses = .ok f₁) (contentType : ContentType) :
    (∀ packet, f₁.FindsTooLong contentType packet ↔ config.maxPacket < packet.length ∨
      f₁.enabled ∧ config.tagged ∧ Packet.maxChunks ≤ packet.chunks.length ∧
        f₁.pool.HasRoom Config.contentTypeLength) ∧
    ∀ data packet q, Packet.ofBytes f₁.pool data = .ok (.ok packet, q) →
      ({ f₁ with pool := q }.FindsTooLong contentType packet ↔ config.maxPacket < packet.length ∨
        f₁.enabled ∧ config.tagged ∧
          Packet.maxChunks ≤ ceilDiv data.length f₁.pool.maxBlockSize ∧
          q.HasRoom Config.contentTypeLength) := by
  obtain ⟨handles, hs⟩ :=
    sound_of_useAll (Pool.sound_of_ofClasses hpool hclasses) hf uses hrun
  have hconfig : f₁.config = config := by
    obtain ⟨-, rfl⟩ := ofConfig_eq_ok hf
    exact config_useAll uses hrun
  constructor
  · intro packet
    rw [findsTooLong_iff hs, hconfig]
  · intro data packet q hmade
    have hsound : ∃ handles, q.Sound handles := by
      rcases Packet.sound_ofBytes hs data with ⟨e, q', hmade', -⟩ | ⟨p, q', hmade', -, hsound, -⟩
      · cases hmade.symm.trans hmade'
      · cases hmade.symm.trans hmade'
        exact ⟨_, hsound⟩
    obtain ⟨handles', hs'⟩ := hsound
    rw [findsTooLong_iff (f := { f₁ with pool := q }) hs', hconfig,
      Packet.length_chunks_of_ofBytes hmade]

/-- A framer with tagged packets of twenty-two bytes, in blobs of three. -/
def relay : Framer 3 15 :=
  { config := { maxPayload := 3, maxPacket := 22, tagged := true }, pool := ⟨#[.fresh 64 16]⟩
    receiver := { maxPayload := 3, maxLength := 24 } }

/-- A packet of twenty-two bytes with its content type, in eight blobs. -/
def relayedBlobs : Bytes :=
  let stream := [7, 0] ++ (List.range 22).map UInt8.ofNat
  (List.range 8).flatMap fun i => Blob.encode ((stream.drop (3 * i)).take 3) (i ≠ 7)

/-- The content type of the packet was in the block of its first byte. -/
def relayedPacket : Packet :=
  { chunks := ⟨⟨0, 0⟩, 4, 5⟩ :: (List.range' 1 7).map fun i => ⟨⟨0, UInt8.ofNat i⟩, 2, 5⟩
    length := 22 }

/-- A packet of the largest length that was received can only be sent on without its content
type. -/
theorem relayedPacket_too_long :
    ∃ f₀ f₁, relay.useAll [.enable, .receive relayedBlobs] = .ok f₀ ∧
      f₀.popEvent? = some (.received ⟨7⟩ relayedPacket, f₁) ∧
      relayedPacket.length ≤ relay.config.maxPacket ∧ f₁.FindsTooLong ⟨7⟩ relayedPacket := by
  have hpool : Pool.ofClasses [(64, 16)] = .ok ⟨#[.fresh 64 16]⟩ := rfl
  have hf : ofConfig relay.config ⟨#[.fresh 64 16]⟩ = .ok relay := rfl
  have hvalue : (relay.useAll [.enable, .receive relayedBlobs]).toOption.bind (fun f₀ =>
      f₀.popEvent?.map fun popped => (popped.1, popped.2.enabled, popped.2.pool.fault?,
        decide (popped.2.pool.HasRoom Config.contentTypeLength))) =
        some (.received ⟨7⟩ relayedPacket, true, none, true) := by
    decide +kernel
  obtain ⟨f₀, hsome, hpopped⟩ := Option.bind_eq_some_iff.1 hvalue
  obtain ⟨⟨event, f₁⟩, hpop, heq⟩ := Option.map_eq_some_iff.1 hpopped
  have hrun : relay.useAll [.enable, .receive relayedBlobs] = .ok f₀ := eq_ok_of_toOption hsome
  obtain ⟨rfl, henabled, hfaultless, hroom⟩ : event = .received ⟨7⟩ relayedPacket ∧
      f₁.enabled = true ∧ f₁.pool.fault? = none ∧
      decide (f₁.pool.HasRoom Config.contentTypeLength) = true := by
    simpa only [Prod.mk.injEq] using heq
  have hrun' : relay.useAll [.enable, .receive relayedBlobs, .pop] = .ok f₁ := by
    have hperform : f₀.perform .pop = .ok f₁ := by
      rw [perform, hpop]
      rfl
    exact (useAll_append [.enable, .receive relayedBlobs] [.pop] hrun).trans
      (useAll_one hperform hfaultless)
  obtain ⟨hiff, -⟩ := useAll_finds_too_long hpool (by decide) hf _ hrun' ⟨7⟩
  refine ⟨f₀, f₁, hrun, hpop, Nat.le_refl 22, (hiff relayedPacket).2 (Or.inr ?_)⟩
  exact ⟨henabled, rfl, Nat.le_refl 8, of_decide_eq_true hroom⟩

/-- An open framer with tagged packets of four hundred and sixty-two bytes, in blobs of fifty-eight.
Eight of them hold a packet and its content type. -/
def ampleFramer : Framer 3 15 :=
  { config := { maxPayload := 58, maxPacket := 462, tagged := true }, pool := ⟨#[.fresh 64 16]⟩
    enabled := true, receiver := { maxPayload := 58, maxLength := 464 }, orders := [.enable] }

def ampleData : Bytes := (List.range 462).map fun i => UInt8.ofNat (i + 1)

/-- Seven blocks do not hold the bytes. -/
def amplePacket : Packet :=
  { chunks := (List.range 8).map fun i => ⟨⟨0, UInt8.ofNat i⟩, 0, min 64 (462 - 64 * i)⟩
    length := 462 }

/-- A packet of the largest length is not accepted, although there are blocks enough. -/
theorem amplePacket_too_long :
    ∃ f q, ofConfig ampleFramer.config ampleFramer.pool = .ok f ∧
      f.useAll [.enable] = .ok ampleFramer ∧
      Packet.ofBytes ampleFramer.pool ampleData = .ok (.ok amplePacket, q) ∧
      amplePacket.length ≤ ampleFramer.config.maxPacket ∧
      FindsTooLong { ampleFramer with pool := q } ⟨7⟩ amplePacket := by
  have hvalue : (Packet.ofBytes ampleFramer.pool ampleData).toOption.bind (fun made =>
      (send { ampleFramer with pool := made.2 } ⟨7⟩ amplePacket).toOption.map fun sent =>
        (made.1, sent.1)) = some (.ok amplePacket, .error (.tooLong, amplePacket)) := by
    decide +kernel
  obtain ⟨⟨answer, q⟩, hmade, hsent⟩ := Option.bind_eq_some_iff.1 hvalue
  obtain ⟨⟨result, f'⟩, hsend, heq⟩ := Option.map_eq_some_iff.1 hsent
  obtain ⟨rfl, rfl⟩ : answer = .ok amplePacket ∧ result = .error (.tooLong, amplePacket) := by
    simpa only [Prod.mk.injEq] using heq
  exact ⟨{ ampleFramer with enabled := false, orders := [] }, q, rfl, rfl,
    eq_ok_of_toOption hmade, Nat.le_refl 462, amplePacket, f', eq_ok_of_toOption hsend⟩

end Framer

end DockLink
