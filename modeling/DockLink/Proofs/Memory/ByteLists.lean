import DockLink.Proofs.Memory.Isolation

/-!
# Packets as lists of bytes

A packet is read as the bytes of its chunks, one after another. To the application it behaves as that
list does, whatever the chunks are, up to the bound on their number.
-/

namespace DockLink

namespace Packet

variable {pool : Pool} {p : Packet}

theorem sameBytes_eq {chunks : List Chunk} (h : ∀ c ∈ chunks, c.Valid pool) {data : Bytes}
    (hlength : data.length = (chunks.map Chunk.length).sum) :
    sameBytes pool chunks data =
      .ok (decide ((chunks.map (Chunk.bytes pool)).flatten = data)) := by
  induction chunks generalizing data with
  | nil =>
      rw [List.eq_nil_of_length_eq_zero hlength]
      rfl
  | cons c rest ih =>
      have hc : (c.bytes pool).length = c.length := Chunk.length_bytes (h c (by simp)).2
      rw [List.map_cons, List.sum_cons] at hlength
      have hdrop : (data.drop c.length).length = (rest.map Chunk.length).sum := by
        rw [List.length_drop]
        omega
      have hrest := ih (fun d hd => h d (by simp [hd])) hdrop
      simp only [sameBytes, List.map_cons, List.flatten_cons]
      rw [if_neg (by omega)]
      split
      · rename_i hsame
        rw [hrest]
        congr 2
        refine propext ⟨fun he => ?_, fun he => ?_⟩
        · rw [hsame, he, List.take_append_drop]
        · rw [← he, ← hc, List.drop_left]
      · rename_i hdiffers
        congr 1
        refine (decide_eq_false fun he => hdiffers ?_).symm
        rw [← he, ← hc, List.take_left]

/-- A packet is compared with bytes without going past their end. -/
theorem Valid.hasContent_eq (h : p.Valid pool) (data : Bytes) :
    p.hasContent pool data = .ok (decide (p.content pool = data)) := by
  unfold hasContent
  split
  · rename_i hne
    congr 1
    refine (decide_eq_false fun he => hne ?_).symm
    rw [← he, h.length_content]
  · rename_i heq
    exact sameBytes_eq h.chunk ((not_ne_iff.1 heq).symm.trans h.length_eq)

theorem Valid.isEmpty_iff (h : p.Valid pool) : p.isEmpty = true ↔ p.content pool = [] := by
  rw [isEmpty, decide_eq_true_iff, ← h.length_content, List.length_eq_zero_iff]

end Packet

namespace Holdings

variable {h h' : Holdings} {id : Nat} {p : Packet} {loose : Multiset Block}

/-- The bytes of the packet under a number. -/
def content? (h : Holdings) (id : Nat) : Option Bytes :=
  match h.get id with
  | .packet p => some (p.content h.pool)
  | _ => none

theorem content?_of_get (hget : h.get id = .packet p) : h.content? id = some (p.content h.pool) := by
  rw [content?, hget]

/-- A packet that is there before and after a step has the same content. -/
theorem Serves.content_eq {i : Nat} (hs : Serves loose h h') (hget : h.get id = .packet p)
    (hget' : h'.get i = .packet p) : p.content h'.pool = p.content h.pool := by
  rw [Packet.content_eq, Packet.content_eq]
  congr 1
  refine List.map_congr_left fun c hc => ?_
  have hbefore : c.block ∈ h.handles := mem_handles id (hget ▸ Packet.mem_handles hc)
  have hafter : c.block ∈ h'.handles := mem_handles i (hget' ▸ Packet.mem_handles hc)
  rw [Chunk.bytes_eq, Chunk.bytes_eq, hs.shows.bytes_eq _
    (Multiset.mem_inter.2 ⟨hbefore, Multiset.mem_add.2 (Or.inr hafter)⟩)]

theorem Sound.of_chunk (hs : h.Sound 0) {request : ChunkRequest} {c : Chunk}
    (hc : h.chunk request = (.ok c, h')) :
    c.start ≤ c.stop ∧ c.stop ≤ h'.pool.capacity c.block ∧ Serves {c.block} h h' := by
  rcases hs.chunk request with ⟨e, h₁, hc', -⟩ | ⟨c', h₁, hc', hle, hcap, hserves⟩
  · rw [hc] at hc'; cases hc'
  · rw [hc] at hc'
    cases hc'
    exact ⟨hle, hcap, hserves⟩

/-! ## What becomes of the content -/

/-- The packet `p` under `id` takes chunks by `add`, which puts their bytes where `join` says. A
chunk with bytes is rejected exactly if there is no room, and the packet is then as it was. -/
structure TakesChunks (add : Pool → Packet → Chunk → Except Chunk (Packet × Pool))
    (join : Bytes → Bytes → Bytes) (h : Holdings) (id : Nat) (p : Packet) : Prop where
  taken : ∀ {request c h₁}, h.chunk request = (.ok c, h₁) →
    c.length = 0 ∨ p.chunks.length < Packet.maxChunks →
    (h.addChunk add id request).1 = .ok none ∧
      (h.addChunk add id request).2.content? id =
        some (join (p.content h.pool) (c.bytes h₁.pool))
  rejected : ∀ {request c h₁}, h.chunk request = (.ok c, h₁) →
    c.length ≠ 0 → p.chunks.length = Packet.maxChunks →
    add h₁.pool p c = .error c ∧
      (h.addChunk add id request).1 = .ok (some (c.bytes h₁.pool)) ∧
      (h.addChunk add id request).2.get id = .packet p ∧
      (h.addChunk add id request).2.content? id = some (p.content h.pool)

section Adding

variable {add : Pool → Packet → Chunk → Except Chunk (Packet × Pool)} {join : Bytes → Bytes → Bytes}
  {request : ChunkRequest} {c : Chunk} {h₁ : Holdings}

/-- What a granted chunk and a packet are like when they are put together. -/
theorem Sound.granted (hs : h.Sound 0) (hget : h.get id = .packet p)
    (hc : h.chunk request = (.ok c, h₁)) :
    h₁.get id = .packet p ∧ p.content h₁.pool = p.content h.pool ∧ p.Valid h₁.pool ∧
      c.start ≤ c.stop ∧ c.stop ≤ h₁.pool.capacity c.block := by
  obtain ⟨hle, hcap, hserves⟩ := hs.of_chunk hc
  have hget₁ : h₁.get id = .packet p := by
    have hsame := get_chunk_of_packet hget request
    rwa [hc] at hsame
  exact ⟨hget₁, hserves.content_eq hget hget₁, hserves.sound.packet hget₁, hle, hcap⟩

theorem Sound.takesChunk (hs : h.Sound 0) (hadd : Packet.Adds add join)
    (hjoin : ∀ content, join content [] = content) (hget : h.get id = .packet p)
    (hc : h.chunk request = (.ok c, h₁))
    (hroom : c.length = 0 ∨ p.chunks.length < Packet.maxChunks) :
    (h.addChunk add id request).1 = .ok none ∧
      (h.addChunk add id request).2.content? id =
        some (join (p.content h.pool) (c.bytes h₁.pool)) := by
  have hpacket : h.packet? id = .ok p := by rw [packet?, hget]
  obtain ⟨hget₁, hcontent, hvalid, hrange⟩ := hs.granted hget hc
  have hid : id < h₁.table.size := lt_size_of_get (by rw [hget₁]; nofun)
  have hserves := hs.addChunk hadd id request
  rcases hadd.cases hvalid hrange with ⟨hlen, ha⟩ | ⟨hlen, hfull, -⟩ | ⟨-, -, p', ha, -, -, hc'⟩
  · have hresult : h.addChunk add id request =
        (.ok none, set { h₁ with pool := h₁.pool.release c.block } id (.packet p)) := by
      simp only [Holdings.addChunk, hpacket, hc, ha]
    rw [hresult] at hserves ⊢
    have hget₂ := get_set_self (h := { h₁ with pool := h₁.pool.release c.block })
      (x := .packet p) hid
    have hbytes : c.bytes h₁.pool = [] := by
      rw [← List.length_eq_zero_iff, Chunk.length_bytes hrange.2, hlen]
    refine ⟨rfl, ?_⟩
    rw [content?_of_get hget₂, hbytes, hjoin]
    exact congrArg some (hserves.content_eq hget hget₂)
  · omega
  · have hresult : h.addChunk add id request = (.ok none, h₁.set id (.packet p')) := by
      simp only [Holdings.addChunk, hpacket, hc, ha]
    rw [hresult]
    refine ⟨rfl, ?_⟩
    rw [content?_of_get (get_set_self hid), ← hcontent]
    exact congrArg some hc'

theorem Sound.rejectsChunk (hs : h.Sound 0) (hadd : Packet.Adds add join)
    (hget : h.get id = .packet p) (hc : h.chunk request = (.ok c, h₁)) (hlen : c.length ≠ 0)
    (hfull : p.chunks.length = Packet.maxChunks) :
    add h₁.pool p c = .error c ∧
      (h.addChunk add id request).1 = .ok (some (c.bytes h₁.pool)) ∧
      (h.addChunk add id request).2.get id = .packet p ∧
      (h.addChunk add id request).2.content? id = some (p.content h.pool) := by
  have hpacket : h.packet? id = .ok p := by rw [packet?, hget]
  have ha : add h₁.pool p c = .error c := hadd.full hlen hfull.ge
  have hserves := hs.addChunk hadd id request
  have hresult : h.addChunk add id request =
      (.ok (some (c.bytes h₁.pool)), h₁.releaseChunk c) := by
    simp only [Holdings.addChunk, hpacket, hc, ha]
  rw [hresult] at hserves ⊢
  have hget₂ : (h₁.releaseChunk c).get id = .packet p := (hs.granted hget hc).1
  refine ⟨ha, rfl, hget₂, ?_⟩
  rw [content?_of_get hget₂]
  exact congrArg some (hserves.content_eq hget hget₂)

theorem Sound.takesChunks (hs : h.Sound 0) (hadd : Packet.Adds add join)
    (hjoin : ∀ content, join content [] = content) (hget : h.get id = .packet p) :
    h.TakesChunks add join id p where
  taken := hs.takesChunk hadd hjoin hget
  rejected := hs.rejectsChunk hadd hget

end Adding

theorem Sound.advance_content (hs : h.Sound 0) (hget : h.get id = .packet p) {count : Nat}
    (hcount : count ≤ p.length) :
    ∃ h', h.advance id count = .ok h' ∧ h'.content? id = some ((p.content h.pool).drop count) := by
  have hid : id < h.table.size := lt_size_of_get (by rw [hget]; nofun)
  have hpacket : h.packet? id = .ok p := by rw [packet?, hget]
  have hrest : h.pool.Sound (p.handles + (h.set id .nothing).handles) := by
    have hall := h.handles_eq id
    rw [hget] at hall
    exact hs.pool_handles.cast hall
  obtain ⟨p', q, hq, -, -, -, hcontent, -⟩ := (hs.packet hget).advance hcount hrest
  refine ⟨set { h with pool := q } id (.packet p'), ?_, ?_⟩
  · simp only [Holdings.advance, hpacket, bind, Except.bind, hq, pure, Except.pure]
  · rw [content?_of_get (get_set_self (h := { h with pool := q }) hid)]
    exact congrArg some hcontent

theorem advance_past_end (hget : h.get id = .packet p) {count : Nat} (hcount : p.length < count) :
    h.advance id count = .error (.fault .advancePastEnd) := by
  have hpacket : h.packet? id = .ok p := by rw [packet?, hget]
  simp only [Holdings.advance, hpacket, bind, Except.bind, Packet.advance,
    if_neg (Nat.not_le.2 hcount), throw, throwThe, MonadExceptOf.throw]

theorem Sound.duplicate_content (hs : h.Sound 0) (hget : h.get id = .packet p) :
    ((∀ b, (p.handles + h.handles).count b ≤ 255) ∧ (h.duplicate id).1 = .ok h.table.size ∧
      (h.duplicate id).2.content? h.table.size = some (p.content h.pool) ∧
      (h.duplicate id).2.content? id = some (p.content h.pool)) ∨
    ((∃ b, 255 < (p.handles + h.handles).count b) ∧
      (h.duplicate id).1 = .error (.fault .refCountOverflow) ∧
      (h.duplicate id).2.content? id = some (p.content h.pool)) := by
  have hserves := hs.duplicate id
  have hkept : (h.duplicate id).2.get id = .packet p := by
    rw [← hget]
    exact get_handle (.duplicate id) (by rw [hget]; nofun) nofun
  have hcontent : (h.duplicate id).2.content? id = some (p.content h.pool) := by
    rw [content?_of_get hkept]
    exact congrArg some (hserves.content_eq hget hkept)
  have hp : ∀ b ∈ p.handles, b ∈ h.handles := fun b hb => mem_handles id (hget ▸ hb)
  rcases Packet.sound_duplicate hs.pool_handles hp with
    ⟨q, hq, hsound, -⟩ | ⟨q, hq, -, -, hfull⟩
  · have hresult : h.duplicate id =
        (.ok h.table.size, (record { h with pool := q } (.packet p)).2) := by
      simp only [Holdings.duplicate, hget, hq]
      rfl
    have hnew : (h.duplicate id).2.get h.table.size = .packet p := by
      rw [hresult, get_record, if_pos rfl]
    refine Or.inl ⟨hsound.count_le, by rw [hresult], ?_, hcontent⟩
    rw [content?_of_get hnew]
    exact congrArg some (hserves.content_eq hget hnew)
  · refine Or.inr ⟨hfull, ?_, hcontent⟩
    simp only [Holdings.duplicate, hget, hq]

/-! ## New packets -/

theorem newPacket_content (h : Holdings) :
    h.newPacket.2.content? h.newPacket.1 = some [] := by
  have hget : h.newPacket.2.get h.newPacket.1 = .packet .empty := by
    rw [newPacket, get_record, record, if_pos rfl]
  rw [content?_of_get hget]
  rfl

theorem Sound.packetOfChunk_content (hs : h.Sound 0) {request : ChunkRequest} {c : Chunk}
    {h₁ : Holdings} (hc : h.chunk request = (.ok c, h₁)) :
    (h.packetOfChunk request).1 = .ok h₁.table.size ∧
      (h.packetOfChunk request).2.content? h₁.table.size = some (c.bytes h₁.pool) := by
  obtain ⟨hle, hcap, hserves⟩ := hs.of_chunk hc
  by_cases hlen : c.length = 0
  · have hresult : h.packetOfChunk request = (.ok h₁.table.size,
        (record { h₁ with pool := h₁.pool.release c.block } (.packet .empty)).2) := by
      simp only [Holdings.packetOfChunk, hc, Packet.ofChunk, if_pos hlen]
      rfl
    have hbytes : c.bytes h₁.pool = [] := by
      rw [← List.length_eq_zero_iff, Chunk.length_bytes hcap, hlen]
    rw [hresult, hbytes]
    refine ⟨rfl, content?_of_get (p := .empty) ?_⟩
    rw [get_record, if_pos rfl]
  · have hvalid : c.Valid h₁.pool := ⟨by unfold Chunk.length at hlen; omega, hcap⟩
    obtain ⟨p, hp, -, -, hcontent⟩ := Packet.Valid.ofChunk hvalid
    have hresult : h.packetOfChunk request =
        (.ok h₁.table.size, (h₁.record (.packet p)).2) := by
      simp only [Holdings.packetOfChunk, hc, hp]
      rfl
    rw [hresult, ← hcontent]
    refine ⟨rfl, content?_of_get ?_⟩
    rw [get_record, if_pos rfl]

/-- A packet under a number behaves as the list of its bytes. -/
structure ActsAsBytes (h : Holdings) (id : Nat) (p : Packet) : Prop where
  /-- At most eight chunks, none of them empty and all within their blocks, and their lengths add up
  to the packet's. -/
  valid : p.Valid h.pool
  isEmpty : p.isEmpty = true ↔ p.content h.pool = []
  /-- A comparison gives the answer, and does not run past the end of what is compared. -/
  hasContent : ∀ data, p.hasContent h.pool data = .ok (decide (p.content h.pool = data))
  push : h.TakesChunks Packet.push (fun content bytes => content ++ bytes) id p
  pushFront : h.TakesChunks Packet.pushFront (fun content bytes => bytes ++ content) id p
  advance : ∀ {count}, count ≤ p.length → ∃ h', h.advance id count = .ok h' ∧
    h'.content? id = some ((p.content h.pool).drop count)
  past_end : ∀ {count}, p.length < count → h.advance id count = .error (.fault .advancePastEnd)
  /-- A second packet has the same bytes, if no block gets more handles than can be counted. -/
  duplicate : (∀ b, (p.handles + h.handles).count b ≤ 255) →
    (h.duplicate id).1 = .ok h.table.size ∧
      (h.duplicate id).2.content? h.table.size = some (p.content h.pool) ∧
      (h.duplicate id).2.content? id = some (p.content h.pool)
  overflow : (∃ b, 255 < (p.handles + h.handles).count b) →
    (h.duplicate id).1 = .error (.fault .refCountOverflow) ∧
      (h.duplicate id).2.content? id = some (p.content h.pool)

theorem Sound.actsAsBytes (hs : h.Sound 0) (hget : h.get id = .packet p) : h.ActsAsBytes id p where
  valid := hs.packet hget
  isEmpty := (hs.packet hget).isEmpty_iff
  hasContent := (hs.packet hget).hasContent_eq
  push := hs.takesChunks Packet.adds_push List.append_nil hget
  pushFront := hs.takesChunks Packet.adds_pushFront (fun _ => rfl) hget
  advance := hs.advance_content hget
  past_end := advance_past_end hget
  duplicate := by
    intro hroom
    rcases hs.duplicate_content hget with ⟨-, hresult⟩ | ⟨⟨b, hb⟩, -⟩
    · exact hresult
    · exact absurd (hroom b) (Nat.not_le.2 hb)
  overflow := by
    rintro ⟨b, hb⟩
    rcases hs.duplicate_content hget with ⟨hroom, -⟩ | ⟨-, hresult⟩
    · exact absurd (hroom b) (Nat.not_le.2 hb)
    · exact hresult

/-- Whatever an application asks of a pool, a new packet has the bytes it was made for, and every
packet behaves as the list of its bytes. -/
theorem run_actsAsBytes {classes : List (Nat × Nat)} {pool : Pool}
    (hpool : Pool.ofClasses classes = .ok pool) (hclasses : ∀ c ∈ classes, 1 ≤ c.1 ∧ c.2 ≤ 255)
    (requests : List MemoryRequest) {h : Holdings} (hrun : run { pool } requests = h) :
    h.newPacket.2.content? h.newPacket.1 = some [] ∧
      (∀ request c h₁, h.chunk request = (.ok c, h₁) →
        (h.packetOfChunk request).1 = .ok h₁.table.size ∧
          (h.packetOfChunk request).2.content? h₁.table.size = some (c.bytes h₁.pool)) ∧
      ∀ id p, h.get id = .packet p → h.ActsAsBytes id p := by
  subst hrun
  have hs := (sound_of_ofClasses hpool hclasses).run requests
  exact ⟨newPacket_content _, fun _ _ _ => hs.packetOfChunk_content, fun _ _ => hs.actsAsBytes⟩

/-- A packet in two chunks of one block, the last bytes first. -/
def chaining : List MemoryRequest :=
  [.allocate 4, .write 0 0 [1, 2, 3, 4], .packetOfChunk ⟨0, 2, 4, true⟩, .push 1 ⟨0, 0, 2, false⟩]

theorem chaining_actsAsBytes :
    Pool.ofClasses [(4, 2)] = .ok ⟨#[.fresh 4 2]⟩ ∧ (∀ c ∈ [(4, 2)], 1 ≤ c.1 ∧ c.2 ≤ 255) ∧
      (run { pool := ⟨#[.fresh 4 2]⟩ } chaining).get 1 =
        .packet ⟨[⟨⟨0, 0⟩, 2, 4⟩, ⟨⟨0, 0⟩, 0, 2⟩], 4⟩ ∧
      (run { pool := ⟨#[.fresh 4 2]⟩ } chaining).ActsAsBytes 1
        ⟨[⟨⟨0, 0⟩, 2, 4⟩, ⟨⟨0, 0⟩, 0, 2⟩], 4⟩ ∧
      (run { pool := ⟨#[.fresh 4 2]⟩ } chaining).content? 1 = some [3, 4, 1, 2] := by
  have hpool : Pool.ofClasses [(4, 2)] = .ok ⟨#[.fresh 4 2]⟩ := rfl
  have hget : (run { pool := ⟨#[.fresh 4 2]⟩ } chaining).get 1 =
      .packet ⟨[⟨⟨0, 0⟩, 2, 4⟩, ⟨⟨0, 0⟩, 0, 2⟩], 4⟩ := by decide +kernel
  exact ⟨hpool, by decide, hget,
    (run_actsAsBytes hpool (by decide) chaining rfl).2.2 1 _ hget, by decide +kernel⟩

end Holdings

end DockLink
