import DockLink.Proofs.Memory.Allocation
import DockLink.Proofs.Memory.Restoring

/-!
# Bytes put into a packet

Bytes are cut into pieces of the largest block's size, and each piece gets a block of its own that
nobody had a handle to. If a block is missing, even after some were taken, nothing is left of the
attempt.
-/

namespace DockLink

variable {pool q : Pool} {others : Multiset Block}

namespace Pool

/-! ## The largest class -/

/-- The number of free slots of the largest class. -/
def lastFree (p : Pool) : Nat := (p.bucket (p.classes.size - 1)).freeCount

/-- A request that is not too large is refused only when the largest class is used up. -/
theorem Sound.lastFree_of_refused (hs : pool.Sound others) (hg : pool.Graded) {size : Nat}
    (hsize : size ≤ pool.maxBlockSize) {e : AllocError} (ha : pool.allocate size = .error e) :
    e = .outOfMemory ∧ pool.lastFree = 0 := by
  have hnone : ¬pool.HasRoom size := fun hroom => by
    obtain ⟨b, q, hok⟩ := (hs.allocate_isOk_iff size).2 hroom
    rw [ha] at hok
    cases hok
  have hout := (hs.allocate_eq_outOfMemory_iff hg).2 ⟨hsize, hnone⟩
  refine ⟨Except.error.inj (ha.symm.trans hout), ?_⟩
  by_contra hfree
  refine hnone ((hasRoom_iff _ _).2 ⟨pool.classes.size - 1, Nat.sub_one_lt_of_lt hg.size_pos, ?_,
    Nat.pos_of_ne_zero hfree⟩)
  rwa [← maxBlockSize_eq]

theorem Sound.lastFree_of_write {b : Block} (hs : pool.Sound (b ::ₘ others)) {offset : Nat}
    {data : Bytes} (hw : pool.write b offset data = .ok q) : q.lastFree = pool.lastFree := by
  obtain ⟨hnot, hfits⟩ := hs.of_write hw
  obtain ⟨q', hw', -, hkeeps, -⟩ := hs.write hnot hfits
  cases hw.symm.trans hw'
  rw [lastFree, hkeeps.size_eq]
  exact hs.freeCount_of_write hw _

theorem Grants.lastFree_le {size : Nat} {b : Block} (h : pool.Grants q others size b)
    (hsize : q.classes.size = pool.classes.size) : pool.lastFree ≤ q.lastFree + 1 := by
  have hfree := h.freeCount (pool.classes.size - 1)
  rw [lastFree, lastFree, hsize]
  split at hfree
  · omega
  · omega

end Pool

namespace Packet

variable {p p' : Packet} {b : Block} {size : Nat} {data piece : Bytes}

/-! ## Pieces -/

theorem flatten_slices (size n : Nat) (data : Bytes) :
    ((List.range n).map fun i => (data.drop (i * size)).take size).flatten =
      data.take (n * size) := by
  induction n with
  | zero => rw [Nat.zero_mul]; rfl
  | succ n ih =>
      rw [List.range_succ, List.map_append, List.flatten_append, ih, List.map_singleton,
        List.flatten_singleton, Nat.succ_mul, List.take_add]

theorem flatten_pieces (hsize : 0 < size) (data : Bytes) : (pieces size data).flatten = data := by
  rw [pieces, flatten_slices]
  exact List.take_of_length_le (le_mul_of_ceilDiv_le hsize (Nat.le_refl _))

theorem length_le_of_mem_pieces (h : piece ∈ pieces size data) : piece.length ≤ size := by
  obtain ⟨i, -, rfl⟩ := List.mem_map.1 h
  exact List.length_take_le _ _

/-! ## Slots -/

theorem slotCounts_release (pool : Pool) (p : Packet) :
    (p.release pool).slotCounts = pool.slotCounts := by
  rw [Packet.release]
  generalize p.chunks.map Chunk.block = blocks
  induction blocks generalizing pool with
  | nil => rfl
  | cons b rest ih => exact (ih (pool.release b)).trans (Pool.slotCounts_release pool b)

theorem slotCounts_of_push {c : Chunk} (h : p.push pool c = .ok (p', q)) :
    q.slotCounts = pool.slotCounts := by
  unfold push add at h
  split at h
  · cases h
    exact Pool.slotCounts_release pool c.block
  · split at h
    · cases h
      rfl
    · cases h

/-- Whatever comes of an attempt, the classes have the slots that they had. -/
theorem slotCounts_of_appendPieces {answer : Except AllocError Packet} (data : List Bytes)
    {p : Packet} {pool : Pool} (h : appendPieces pool p data = .ok (answer, q)) :
    q.slotCounts = pool.slotCounts := by
  induction data generalizing p pool with
  | nil =>
      cases h
      rfl
  | cons piece rest ih =>
      simp only [appendPieces] at h
      split at h
      · cases h
        exact slotCounts_release pool p
      · rename_i b q₁ hallocate
        obtain ⟨q₂, hwrite, h⟩ := exists_of_bind_eq_ok h
        obtain ⟨c, -, h⟩ := exists_of_bind_eq_ok h
        split at h
        · cases h
        · rename_i p₁ q₃ hpush
          exact (ih h).trans ((slotCounts_of_push hpush).trans
            ((Pool.slotCounts_of_write hwrite).trans (Pool.slotCounts_of_allocate hallocate)))

/-! ## Chunks -/

theorem chunks_of_push {c : Chunk} (hc : c.length ≠ 0) (h : p.push pool c = .ok (p', q)) :
    p'.chunks = p.chunks ++ [c] := by
  unfold push add at h
  rw [if_neg hc] at h
  split at h
  · cases h
    rfl
  · cases h

/-- Every piece has a chunk of its own. -/
theorem length_chunks_of_appendPieces {data : List Bytes} (hdata : ∀ piece ∈ data, piece ≠ [])
    {p : Packet} {pool : Pool} (h : appendPieces pool p data = .ok (.ok p', q)) :
    p'.chunks.length = p.chunks.length + data.length := by
  induction data generalizing p pool with
  | nil =>
      cases h
      rfl
  | cons piece rest ih =>
      simp only [appendPieces] at h
      split at h
      · cases h
      · rename_i block q₀ _
        obtain ⟨q₁, -, h⟩ := exists_of_bind_eq_ok h
        obtain ⟨c, hof, h⟩ := exists_of_bind_eq_ok h
        split at h
        · cases h
        · rename_i p₁ q₂ hpush
          obtain rfl := Chunk.eq_of_of_eq_ok hof
          have hpiece : (⟨block, 0, piece.length⟩ : Chunk).length ≠ 0 :=
            mt List.length_eq_zero_iff.1 (hdata piece List.mem_cons_self)
          have hlen : p₁.chunks.length = p.chunks.length + 1 := by
            rw [chunks_of_push hpiece hpush, List.length_append, List.length_singleton]
          rw [ih (fun piece hpiece => hdata piece (List.mem_cons_of_mem _ hpiece)) h, hlen,
            List.length_cons, Nat.add_assoc, Nat.add_comm 1]

theorem length_chunks_of_ofBytes {data : Bytes} (h : ofBytes pool data = .ok (.ok p, q)) :
    p.chunks.length = ceilDiv data.length pool.maxBlockSize := by
  unfold ofBytes at h
  split at h
  · cases h
  · rw [length_chunks_of_appendPieces (fun _ => pos_of_mem_pieces) h, length_pieces]
    exact Nat.zero_add _

/-! ## Blocks of their own -/

/-- The chunks of a packet are on different blocks, and nobody else has a handle to one of them. -/
structure Exclusive (others : Multiset Block) (p : Packet) : Prop where
  nodup : (p.chunks.map Chunk.block).Nodup
  unheld : ∀ c ∈ p.chunks, c.block ∉ others

theorem Exclusive.refCount (h : p.Exclusive others) (hs : pool.Sound (p.handles + others))
    {c : Chunk} (hc : c ∈ p.chunks) : pool.refCount c.block = 1 := by
  refine UInt8.toNat_inj.1 ((hs.refCount_eq c.block).trans ?_)
  rw [Multiset.count_add, Multiset.count_eq_zero_of_notMem (h.unheld c hc), Nat.add_zero,
    handles, Multiset.coe_count]
  exact List.count_eq_one_of_mem h.nodup (List.mem_map_of_mem hc)

theorem Exclusive.push {c : Chunk} (h : p.Exclusive others) (hc : c.length ≠ 0)
    (hnew : c.block ∉ p.handles + others) (hpush : p.push pool c = .ok (p', q)) :
    p'.Exclusive others := by
  rw [Multiset.mem_add, not_or] at hnew
  have hchunks := chunks_of_push hc hpush
  constructor
  · rw [hchunks, List.map_append, List.map_singleton, List.nodup_append_comm]
    exact List.nodup_cons.2 ⟨hnew.1, h.nodup⟩
  · intro d hd
    rw [hchunks, List.mem_append, List.mem_singleton] at hd
    rcases hd with hd | rfl
    · exact h.unheld d hd
    · exact hnew.2

/-- The pieces get blocks of their own, or there are not enough. The largest class suffices if it
has a slot for each. -/
theorem appendPieces_cases {data : List Bytes} (hdata : ∀ piece ∈ data, piece ≠ []) :
    ∀ {p : Packet} {pool : Pool}, p.Valid pool → pool.Sound (p.handles + others) →
      p.Exclusive others → pool.Graded → (∀ piece ∈ data, piece.length ≤ pool.maxBlockSize) →
      p.chunks.length + data.length ≤ maxChunks →
      (pool.lastFree < data.length ∧
        ∃ q, appendPieces pool p data = .ok (.error .outOfMemory, q)) ∨
      ∃ p' q, appendPieces pool p data = .ok (.ok p', q) ∧ p'.Exclusive others := by
  induction data with
  | nil =>
      intro p pool _ _ hexclusive _ _ _
      exact Or.inr ⟨p, pool, rfl, hexclusive⟩
  | cons piece rest ih =>
      intro p pool h hs hexclusive hg hsize hroom
      rw [List.length_cons] at hroom
      simp only [appendPieces]
      cases ha : pool.allocate piece.length with
      | error e =>
          obtain ⟨rfl, hfree⟩ := hs.lastFree_of_refused hg (hsize piece List.mem_cons_self) ha
          exact Or.inl ⟨hfree.trans_lt (Nat.succ_pos _), _, rfl⟩
      | ok granted =>
          obtain ⟨b, q⟩ := granted
          have hpiece := hdata piece List.mem_cons_self
          obtain ⟨p', q', hw, hof, hpush, hvalid, hsound, hkeeps, -, hlen⟩ :=
            h.append_piece hs hpiece (by omega) ha
          have hgrants := hs.allocate_grants hg ha
          have hexclusive' : p'.Exclusive others :=
            hexclusive.push (c := ⟨b, 0, piece.length⟩) (mt List.length_eq_zero_iff.1 hpiece)
              hgrants.unheld hpush
          have hg' : q'.Graded := hg.of_capacity_eq hs hsound hkeeps.capacity_eq
          have hsize' : ∀ piece ∈ rest, piece.length ≤ q'.maxBlockSize := fun piece hpiece => by
            rw [hkeeps.maxBlockSize_eq]
            exact hsize piece (List.mem_cons_of_mem _ hpiece)
          simp only [hw, hof, hpush, bind, Except.bind]
          rcases ih (fun piece hpiece => hdata piece (List.mem_cons_of_mem _ hpiece)) hvalid hsound
            hexclusive' hg' hsize' (by omega) with ⟨hfew, hout⟩ | ⟨p'', r, hr, hown⟩
          · -- The piece took at most one slot of the largest class.
            have hfree := hgrants.lastFree_le (hs.allocate ha).2.2.1.size_eq
            rw [← (hs.allocate ha).2.1.lastFree_of_write hw] at hfree
            exact Or.inl ⟨by rw [List.length_cons]; omega, hout⟩
          · exact Or.inr ⟨p'', r, hr, hown⟩

/-- What comes of putting bytes into a packet. -/
theorem ofBytes_cases (hs : pool.Sound others) (hg : pool.Graded) (data : Bytes) :
    (maxChunks < ceilDiv data.length pool.maxBlockSize ∧
      ofBytes pool data = .ok (.error .tooLarge, pool)) ∨
    (ceilDiv data.length pool.maxBlockSize ≤ maxChunks ∧
      pool.lastFree < ceilDiv data.length pool.maxBlockSize ∧
      ∃ q, ofBytes pool data = .ok (.error .outOfMemory, q) ∧ pool.Restored q others) ∨
    (ceilDiv data.length pool.maxBlockSize ≤ maxChunks ∧
      ∃ p q, ofBytes pool data = .ok (.ok p, q) ∧ p.Valid q ∧ q.Sound (p.handles + others) ∧
        pool.Keeps q others ∧ p.content q = data ∧ p.Exclusive others ∧
        p.chunks.length = ceilDiv data.length pool.maxBlockSize) := by
  by_cases hlong : maxChunks < ceilDiv data.length pool.maxBlockSize
  · exact Or.inl ⟨hlong, if_pos hlong⟩
  · have hle := Nat.le_of_not_lt hlong
    have hof : ofBytes pool data = appendPieces pool empty (pieces pool.maxBlockSize data) :=
      if_neg hlong
    have hpos : 0 < pool.maxBlockSize := by
      rw [Pool.maxBlockSize_eq, ← hs.lt_size_iff]
      exact Nat.sub_one_lt_of_lt hg.size_pos
    have hroom : empty.chunks.length + (pieces pool.maxBlockSize data).length ≤ maxChunks := by
      rw [length_pieces]
      exact (Nat.zero_add _).trans_le hle
    have hs' : pool.Sound (empty.handles + others) := hs.cast (zero_add _).symm
    have hfresh : empty.Exclusive others := ⟨List.nodup_nil, fun c hc => absurd hc List.not_mem_nil⟩
    have hcases := appendPieces_cases (fun _ => pos_of_mem_pieces) (Valid.empty pool) hs' hfresh hg
      (fun _ => length_le_of_mem_pieces) hroom
    rw [length_pieces, ← hof] at hcases
    rcases hcases with ⟨hfew, q, hq⟩ | ⟨p, q, hq, hexclusive⟩
    · have hslots := slotCounts_of_appendPieces _ (hof ▸ hq)
      refine Or.inr (Or.inl ⟨hle, hfew, q, hq, ?_⟩)
      rcases sound_ofBytes hs data with ⟨e, q', hq', hsound, hkeeps⟩ | ⟨p, q', hq', -⟩
      · cases hq.symm.trans hq'
        exact ⟨hsound, hkeeps, hslots⟩
      · cases hq.symm.trans hq'
    · refine Or.inr (Or.inr ⟨hle, p, q, hq, ?_⟩)
      rcases sound_ofBytes hs data with ⟨e, q', hq', -⟩ | ⟨p', q', hq', hvalid, hsound, hkeeps, hc⟩
      · cases hq.symm.trans hq'
      · cases hq.symm.trans hq'
        rw [flatten_pieces hpos] at hc
        exact ⟨hvalid, hsound, hkeeps, hc, hexclusive, length_chunks_of_ofBytes hq⟩

end Packet

namespace Holdings

variable {h : Holdings}

/-- What comes of putting bytes into a packet, next to what is held already. -/
structure Packs (h : Holdings) (data : Bytes) : Prop where
  /-- There is always an answer. -/
  answers : ∃ answer q, Packet.ofBytes h.pool data = .ok (answer, q)
  tooLarge : (∃ q, Packet.ofBytes h.pool data = .ok (.error .tooLarge, q)) ↔
    Packet.maxChunks < ceilDiv data.length h.pool.maxBlockSize
  /-- The bytes are in a packet if the largest class has a slot for each piece. -/
  room : ceilDiv data.length h.pool.maxBlockSize ≤ Packet.maxChunks →
    ceilDiv data.length h.pool.maxBlockSize ≤ h.pool.lastFree →
    ∃ p q, Packet.ofBytes h.pool data = .ok (.ok p, q)
  packed : ∀ {p q}, Packet.ofBytes h.pool data = .ok (.ok p, q) →
    p.content q = data ∧ p.length = data.length ∧
      p.chunks.length = ceilDiv data.length h.pool.maxBlockSize ∧
      (p.chunks.map Chunk.block).Nodup ∧
      (∀ c ∈ p.chunks, c.block ∉ h.handles ∧ q.refCount c.block = 1) ∧
      ∀ b ∈ h.handles, q.refCount b = h.pool.refCount b ∧ q.bytes b = h.pool.bytes b
  /-- Whatever was taken is given back, also when the last piece has no block. -/
  refused : ∀ {e q}, Packet.ofBytes h.pool data = .ok (.error e, q) →
    q.freeCounts = h.pool.freeCounts ∧ (∀ b, q.refCount b = h.pool.refCount b) ∧
      ∀ b ∈ h.handles, q.bytes b = h.pool.bytes b

theorem Sound.packs (hs : h.Sound 0) (hg : h.pool.Graded) (data : Bytes) : h.Packs data := by
  have hpool := hs.pool_handles
  rcases Packet.ofBytes_cases hpool hg data with
    ⟨hlong, hof⟩ | ⟨hle, hfew, q, hof, hrestored⟩ |
    ⟨hle, p, q, hof, hvalid, hsound, hkeeps, hcontent, hexclusive, hcount⟩
  · exact {
      answers := ⟨_, _, hof⟩
      tooLarge := iff_of_true ⟨_, hof⟩ hlong
      room := fun hle => absurd hlong (Nat.not_lt.2 hle)
      packed := fun hok => by cases hof.symm.trans hok
      refused := fun hrefused => by
        cases hof.symm.trans hrefused
        exact ⟨rfl, fun _ => rfl, fun _ _ => rfl⟩ }
  · exact {
      answers := ⟨_, _, hof⟩
      tooLarge := iff_of_false (fun ⟨_, hlarge⟩ => by cases hof.symm.trans hlarge)
        (Nat.not_lt.2 hle)
      room := fun _ hmany => absurd hfew (Nat.not_lt.2 hmany)
      packed := fun hok => by cases hof.symm.trans hok
      refused := fun hrefused => by
        cases hof.symm.trans hrefused
        exact ⟨hrestored.freeCounts_eq hpool, hrestored.refCount_eq hpool,
          hrestored.keeps.bytes_eq⟩ }
  · exact {
      answers := ⟨_, _, hof⟩
      tooLarge := iff_of_false (fun ⟨_, hlarge⟩ => by cases hof.symm.trans hlarge)
        (Nat.not_lt.2 hle)
      room := fun _ _ => ⟨p, q, hof⟩
      packed := fun hok => by
        cases hof.symm.trans hok
        refine ⟨hcontent, ?_, hcount, hexclusive.nodup, fun c hc =>
          ⟨hexclusive.unheld c hc, hexclusive.refCount hsound hc⟩, fun b hb => ⟨?_,
            hkeeps.bytes_eq b hb⟩⟩
        · rw [← hvalid.length_content, hcontent]
        · -- A block that was held before is none of the packet's.
          have hnot : b ∉ p.handles := fun hmem => by
            obtain ⟨c, hc, rfl⟩ := List.mem_map.1 (Multiset.mem_coe.1 hmem)
            exact hexclusive.unheld c hc hb
          refine UInt8.toNat_inj.1 ?_
          rw [hsound.refCount_eq, hpool.refCount_eq, Multiset.count_add,
            Multiset.count_eq_zero_of_notMem hnot, Nat.zero_add]
      refused := fun hrefused => by cases hof.symm.trans hrefused }

/-- Whatever was asked of a pool before, bytes are put into a packet of as many new blocks as it
takes, or it would take more than eight, or there are not enough of them and nothing has changed. -/
theorem run_packs {classes : List (Nat × Nat)} {pool : Pool}
    (hpool : Pool.ofClasses classes = .ok pool) (hclasses : ∀ c ∈ classes, 1 ≤ c.1 ∧ c.2 ≤ 255)
    (requests : List MemoryRequest) (data : Bytes) : (run { pool } requests).Packs data := by
  have hs := sound_of_ofClasses hpool hclasses
  exact (hs.run requests).packs
    (Sound.graded_run requests hs (Pool.graded_of_ofClasses hpool)) data

/-- One of three slots is in use. -/
def crowding : List MemoryRequest := [.allocate 2, .write 0 0 [7, 7]]

/-- The third piece of five bytes has no slot, and the slots of the others are free again. -/
theorem crowding_packs :
    Pool.ofClasses [(2, 3)] = .ok ⟨#[.fresh 2 3]⟩ ∧ (∀ c ∈ [(2, 3)], 1 ≤ c.1 ∧ c.2 ≤ 255) ∧
      (run { pool := ⟨#[.fresh 2 3]⟩ } crowding).Packs [1, 2, 3, 4, 5] ∧
      ∃ q, Packet.ofBytes (run { pool := ⟨#[.fresh 2 3]⟩ } crowding).pool [1, 2, 3, 4, 5] =
        .ok (.error .outOfMemory, q) ∧ q.freeCounts = [2] := by
  have hpool : Pool.ofClasses [(2, 3)] = .ok ⟨#[.fresh 2 3]⟩ := rfl
  have hpacks := run_packs hpool (by decide) crowding [1, 2, 3, 4, 5]
  have hfree : (run { pool := ⟨#[.fresh 2 3]⟩ } crowding).pool.freeCounts = [2] := by
    decide +kernel
  have hvalue : ((Packet.ofBytes (run { pool := ⟨#[.fresh 2 3]⟩ } crowding).pool
      [1, 2, 3, 4, 5]).toOption.map Prod.fst) = some (.error .outOfMemory) := by decide +kernel
  obtain ⟨⟨answer, q⟩, hsome, hanswer⟩ := Option.map_eq_some_iff.1 hvalue
  have hout : Packet.ofBytes (run { pool := ⟨#[.fresh 2 3]⟩ } crowding).pool [1, 2, 3, 4, 5] =
      .ok (.error .outOfMemory, q) := by
    rw [eq_ok_of_toOption hsome, ← hanswer]
  exact ⟨hpool, by decide, hpacks, q, hout, (hpacks.refused hout).1.trans hfree⟩

end Holdings

end DockLink
