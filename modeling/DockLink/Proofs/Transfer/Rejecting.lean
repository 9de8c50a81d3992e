import DockLink.Proofs.Transfer.Misuse

/-!
# Packets that are not accepted

A packet that is not accepted comes back chunk by chunk, and the framer is as it was. Where the
content type was put in front of the packet already, it is taken off again and its block given back,
whichever check the packet fails. The last checks are made when the packet is queued, and the framer
may have gone on since the packet got its content type: it may be closed by then.
-/

namespace DockLink

namespace Framer

variable {queueDepth eventDepth : Nat} {f f' f₁ : Framer queueDepth eventDepth} {pool q : Pool}
  {handles : Multiset Block} {config : Config} {classes : List (Nat × Nat)}
  {contentType : ContentType} {packet packet' tagged : Packet} {error : SendError}

/-- What putting a content type in front of a packet comes to: nothing if packets carry none, else
a block that holds it, if there is one and the packet has room. -/
theorem tag_cases {result : Except SendError Packet} (hs : pool.Sound handles)
    (h : tag config pool contentType packet = .ok (result, q)) :
    config.tagLength = 0 ∧ result = .ok packet ∧ q = pool ∨
      result = .error .outOfMemory ∧ q = pool ∨
      config.tagLength ≠ 0 ∧ ∃ block q₁, q₁.Sound (block ::ₘ handles) ∧ pool.Keeps q₁ handles ∧
        q₁.slotCounts = pool.slotCounts ∧
        (result = .error .tooLong ∧ q = q₁.release block ∨
          result = .ok { chunks := ⟨block, 0, config.tagLength⟩ :: packet.chunks,
                         length := packet.length + config.tagLength } ∧ q = q₁) := by
  unfold tag at h
  split at h
  · rename_i hzero
    cases h
    exact Or.inl ⟨hzero, rfl, rfl⟩
  · rename_i hne
    split at h
    · cases h
      exact Or.inr (Or.inl ⟨rfl, rfl⟩)
    · rename_i block q₀ hallocate
      obtain ⟨hnew, hsound₀, hkeeps₀, -⟩ := hs.allocate hallocate
      obtain ⟨q₁, hwrite, h⟩ := exists_of_bind_eq_ok h
      obtain ⟨chunk, hchunk, h⟩ := exists_of_bind_eq_ok h
      obtain ⟨-, hfits⟩ := hsound₀.of_write hwrite
      obtain ⟨q₁', hwrite', hsound₁, hkeeps₁, -⟩ := hsound₀.write hnew hfits
      cases hwrite.symm.trans hwrite'
      obtain rfl := Chunk.eq_of_of_eq_ok hchunk
      refine Or.inr (Or.inr ⟨hne, block, q₁, hsound₁, hkeeps₀.trans hkeeps₁,
        (Pool.slotCounts_of_write hwrite).trans (Pool.slotCounts_of_allocate hallocate), ?_⟩)
      split at h
      · rename_i rejected hpush
        obtain ⟨rfl, -⟩ := Packet.full_of_pushFront_error hpush
        cases h
        exact Or.inl ⟨rfl, rfl⟩
      · rename_i tagged q₂ hpush
        have hlength : (⟨block, 0, config.tagLength⟩ : Chunk).length ≠ 0 := hne
        obtain ⟨htagged, hq⟩ := Packet.eq_of_pushFront_ok hlength hpush
        cases h
        exact Or.inr ⟨congrArg Except.ok htagged, hq⟩

theorem restored_of_tag_error (hs : pool.Sound handles)
    (h : tag config pool contentType packet = .ok (.error error, q)) : pool.Restored q handles := by
  obtain ⟨-, hresult, -⟩ | ⟨-, rfl⟩ |
    ⟨-, block, q₁, hsound, hkeeps, hslots, ⟨-, rfl⟩ | ⟨hresult, -⟩⟩ := tag_cases hs h
  · cases hresult
  · exact .refl hs
  · exact .of_release hsound hkeeps hslots
  · cases hresult

/-- The content type comes off again, whatever became of the pool, and leaves the packet that was
handed in. With the blocks that this gives back, the pool is restored. -/
theorem advance_of_tag_ok (hs : pool.Sound handles)
    (h : tag config pool contentType packet = .ok (.ok tagged, q)) :
    ∃ taken, pool.Restored (q.releaseAll taken) handles ∧
      ∀ q', tagged.advance q' config.tagLength = .ok (packet, q'.releaseAll taken) := by
  obtain ⟨hzero, hresult, rfl⟩ | ⟨hresult, -⟩ |
    ⟨hne, block, q₁, hsound, hkeeps, hslots, ⟨hresult, -⟩ | ⟨hresult, rfl⟩⟩ := tag_cases hs h
  · cases hresult
    exact ⟨[], .refl hs, fun q' => by rw [hzero, Packet.advance_zero]; rfl⟩
  · cases hresult
  · cases hresult
  · cases hresult
    exact ⟨[block], .of_release hsound hkeeps hslots, fun q' =>
      Packet.advance_pushFront (c := ⟨block, 0, config.tagLength⟩) hne⟩

/-- A packet that carries its content type is not queued exactly if the framer is closed by then or
its queue is full. -/
theorem enqueue_eq_error_iff {rejection : SendError × Packet}
    (hback : tagged.advance f.pool f.config.tagLength = .ok (packet, q)) :
    f.enqueue tagged = .ok (.error rejection, f') ↔
      (f.enabled → f.queue.toList.length = queueDepth) ∧
        rejection = (if f.enabled then .queueFull else .disconnected, packet) ∧
        f' = { f with pool := q } := by
  have hturn : ∀ error, f.turnBack error tagged =
      .ok (.error (error, packet), { f with pool := q }) := by
    intro error
    rw [turnBack, hback]
    rfl
  constructor
  · intro h
    obtain ⟨packet', q', hadvance, hanswer, rfl⟩ | ⟨queue, -, -, hanswer⟩ := enqueue_cases h
    · cases hback.symm.trans hadvance
      refine ⟨fun henabled => ?_, Except.error.inj hanswer, rfl⟩
      by_contra hroom
      cases hpush : f.queue.push { ticket := f.nextTicket, packet := tagged } with
      | error rejected => exact hroom ((BoundedQueue.push_eq_error_iff _ _ _).1 hpush).1
      | ok queue =>
          rw [enqueue_of_push henabled hpush] at h
          obtain ⟨f₂, -, h⟩ := exists_of_bind_eq_ok h
          cases h
    · cases hanswer
  · rintro ⟨hfull, rfl, rfl⟩
    by_cases henabled : f.enabled
    · rw [if_pos henabled, enqueue_of_full henabled (hfull henabled), hturn]
    · rw [if_neg henabled, enqueue_of_closed (by simpa using henabled), hturn]

/-- A packet that is not accepted comes back as it was, and nothing changes but the order in which
free slots are handed out. -/
theorem send_rejects (hs : f.pool.Sound handles)
    (h : f.send contentType packet = .ok (.error (error, packet'), f')) :
    packet' = packet ∧ f' = { f with pool := f'.pool } ∧ f.pool.Restored f'.pool handles := by
  unfold send at h
  split at h
  · cases h
    exact ⟨rfl, rfl, .refl hs⟩
  · split at h
    · cases h
      exact ⟨rfl, rfl, .refl hs⟩
    · obtain ⟨⟨result, q⟩, htag, h⟩ := exists_of_bind_eq_ok h
      cases result with
      | error e =>
          cases h
          exact ⟨rfl, rfl, restored_of_tag_error hs htag⟩
      | ok tagged =>
          obtain ⟨taken, hrestored, hback⟩ := advance_of_tag_ok hs htag
          obtain ⟨-, hrejection, rfl⟩ :=
            (enqueue_eq_error_iff (f := { f with pool := q }) (hback q)).1 h
          exact ⟨congrArg Prod.snd hrejection, rfl, hrestored⟩

/-! ## Runs -/

/-- However a framer was used, a packet that it does not accept comes back with the chunks that it
had, whatever the reason, and nothing has changed: the framer is the same but for the order of the
free slots of its pool, and each slot has as many handles and each class as many free slots.

This does not hang on the packet being queued at once. The content type is put in front of it first,
which takes nothing if it fails. If it does not, whatever is done to the framer before the packet is
queued, the framer not accepting it then means that it is closed by then or that its queue is full,
and the packet loses its content type again: it has the chunks that it had, and of the framer only
the pool changes, which gets back exactly the blocks that the content type took. -/
theorem useAll_rejects (hpool : Pool.ofClasses classes = .ok pool)
    (hclasses : ∀ c ∈ classes, 1 ≤ c.1 ∧ c.2 ≤ 255) (hf : ofConfig config pool = .ok f)
    (uses : List Use) (hrun : f.useAll uses = .ok f₁) (contentType : ContentType)
    (packet : Packet) :
    (∀ error packet' f', f₁.send contentType packet = .ok (.error (error, packet'), f') →
      packet' = packet ∧ f' = { f₁ with pool := f'.pool } ∧ f₁.pool.SameCounts f'.pool) ∧
    (∀ error q, tag f₁.config f₁.pool contentType packet = .ok (.error error, q) →
      f₁.pool.SameCounts q) ∧
    ∀ tagged q, tag f₁.config f₁.pool contentType packet = .ok (.ok tagged, q) →
      ∃ taken, f₁.pool.SameCounts (q.releaseAll taken) ∧
        ∀ later f₂, useAll { f₁ with pool := q } later = .ok f₂ → ∀ rejection f',
          f₂.enqueue tagged = .ok (.error rejection, f') ↔
            (f₂.enabled → f₂.queue.toList.length = queueDepth) ∧
              rejection = (if f₂.enabled then .queueFull else .disconnected, packet) ∧
              f' = { f₂ with pool := f₂.pool.releaseAll taken } := by
  obtain ⟨handles, hs⟩ :=
    sound_of_useAll (Pool.sound_of_ofClasses hpool hclasses) hf uses hrun
  refine ⟨fun error packet' f' hsend => ?_, fun error q htag => ?_, fun tagged q htag => ?_⟩
  · obtain ⟨hpacket, hframer, hrestored⟩ := send_rejects hs hsend
    exact ⟨hpacket, hframer, hrestored.sameCounts hs⟩
  · exact (restored_of_tag_error hs htag).sameCounts hs
  · obtain ⟨taken, hrestored, hback⟩ := advance_of_tag_ok hs htag
    refine ⟨taken, hrestored.sameCounts hs, fun later f₂ hlater rejection f' => ?_⟩
    have hconfig : f₂.config = f₁.config :=
      config_useAll later (f := { f₁ with pool := q }) hlater
    exact enqueue_eq_error_iff (hconfig ▸ hback f₂.pool)

/-- Of two packets, one is on the channel and one waits. -/
def waitingUses : List Use :=
  [.enable, .deed [] (.allocate 2), .send {} { chunks := [⟨⟨0, 0⟩, 0, 2⟩], length := 2 },
    .deed [] (.allocate 2), .send {} { chunks := [⟨⟨0, 3⟩, 0, 2⟩], length := 2 },
    .deed [] (.allocate 2)]

/-- A packet that is not accepted comes back, and the framer counts what it counted. -/
def Rejects (f : Framer queueDepth eventDepth) (error : SendError) (packet : Packet) : Prop :=
  ∃ f', f.send {} packet = .ok (.error (error, packet), f') ∧ f' = { f with pool := f'.pool } ∧
    f.pool.SameCounts f'.pool

/-- A third packet gets its content type, and loses it again to the full queue, or to a framer that
is closed meanwhile. With eight chunks it has no room for it, and with all blocks taken there is none
for it. -/
theorem waitingUses_rejects :
    let packet : Packet := { chunks := [⟨⟨0, 5⟩, 0, 2⟩], length := 2 }
    let scattered : Packet := { chunks := List.replicate 8 ⟨⟨0, 5⟩, 0, 1⟩, length := 8 }
    ∃ f₁, taggedFramer.useAll waitingUses = .ok f₁ ∧ f₁.Rejects .queueFull packet ∧
      f₁.Rejects .tooLong scattered ∧
      (∃ f₂, f₁.useAll [.deed [] (.allocate 2), .deed [] (.allocate 2)] = .ok f₂ ∧
        f₂.Rejects .outOfMemory packet) ∧
      ∃ tagged q taken f₂, tag f₁.config f₁.pool {} packet = .ok (.ok tagged, q) ∧
        tagged.chunks = ⟨⟨0, 6⟩, 0, 2⟩ :: packet.chunks ∧
        f₁.pool.SameCounts (q.releaseAll taken) ∧
        useAll { f₁ with pool := q } [.disable] = .ok f₂ ∧
        f₂.enqueue tagged = .ok (.error (.disconnected, packet),
          { f₂ with pool := f₂.pool.releaseAll taken }) := by
  intro packet scattered
  have hpool : Pool.ofClasses [(16, 8)] = .ok ⟨#[.fresh 16 8]⟩ := rfl
  have hf : ofConfig taggedFramer.config ⟨#[.fresh 16 8]⟩ = .ok taggedFramer := rfl
  have hrejects : ∀ {uses f₁} error packet, taggedFramer.useAll uses = .ok f₁ →
      (taggedFramer.useAll uses).toOption.bind (fun f₁ =>
        (f₁.send {} packet).toOption.map Prod.fst) = some (.error (error, packet)) →
      f₁.Rejects error packet := by
    intro uses f₁ error packet hrun hvalue
    rw [hrun] at hvalue
    obtain ⟨⟨answer, f'⟩, hsome, hanswer⟩ := Option.map_eq_some_iff.1 hvalue
    have hsend : f₁.send {} packet = .ok (.error (error, packet), f') := by
      rw [eq_ok_of_toOption hsome, ← hanswer]
    obtain ⟨hall, -⟩ := useAll_rejects hpool (by decide) hf uses hrun {} packet
    exact ⟨f', hsend, (hall _ _ _ hsend).2⟩
  have hvalue : (taggedFramer.useAll waitingUses).toOption.bind (fun f₁ =>
      (tag f₁.config f₁.pool {} packet).toOption.bind fun result =>
        result.1.toOption.bind fun tagged =>
          (useAll { f₁ with pool := result.2 } [.disable]).toOption.map fun f₂ =>
            (tagged.chunks, f₂.enabled)) = some (⟨⟨0, 6⟩, 0, 2⟩ :: packet.chunks, false) := by
    decide +kernel
  obtain ⟨f₁, hsome, hvalue⟩ := Option.bind_eq_some_iff.1 hvalue
  obtain ⟨⟨result, q⟩, htag, hvalue⟩ := Option.bind_eq_some_iff.1 hvalue
  obtain ⟨tagged, hresult, hvalue⟩ := Option.bind_eq_some_iff.1 hvalue
  obtain ⟨f₃, hclose, hvalue⟩ := Option.map_eq_some_iff.1 hvalue
  obtain ⟨hchunks, hclosed⟩ := Prod.mk.inj hvalue
  obtain rfl : result = .ok tagged := eq_ok_of_toOption hresult
  have hrun := eq_ok_of_toOption hsome
  have hfull : (taggedFramer.useAll (waitingUses ++
      [.deed [] (.allocate 2), .deed [] (.allocate 2)])).toOption.isSome := by decide +kernel
  obtain ⟨f₂, hsome₂⟩ := Option.isSome_iff_exists.1 hfull
  have hrun₂ := eq_ok_of_toOption hsome₂
  refine ⟨f₁, hrun, hrejects _ _ hrun (by decide +kernel), hrejects _ _ hrun (by decide +kernel),
    ⟨f₂, (useAll_append _ _ hrun).symm.trans hrun₂, hrejects _ _ hrun₂ (by decide +kernel)⟩, ?_⟩
  obtain ⟨-, -, hlocked⟩ := useAll_rejects hpool (by decide) hf waitingUses hrun {} packet
  obtain ⟨taken, hcounts, hiff⟩ := hlocked tagged q (eq_ok_of_toOption htag)
  refine ⟨tagged, q, taken, f₃, eq_ok_of_toOption htag, hchunks, hcounts,
    eq_ok_of_toOption hclose, (hiff _ f₃ (eq_ok_of_toOption hclose) _ _).2 ⟨?_, ?_, rfl⟩⟩
  · intro henabled
    cases hclosed.symm.trans henabled
  · rw [if_neg (by rw [hclosed]; decide)]

end Framer

end DockLink
