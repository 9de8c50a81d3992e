import DockLink.Proofs.Memory.Contents

/-!
# Packets made from bytes and from packets

Either the new packet is there, with handles of its own and the bytes it was made for, or no handle
is left of it. The other holders read the same bytes as before in both cases.
-/

namespace DockLink

variable {pool q : Pool} {others : Multiset Block}

namespace Pool

/-- The pool `q` has the blocks of `p`, and through `handles` the same bytes. Other than with
`Keeps`, the blocks may have got new handles. -/
structure Shows (p q : Pool) (handles : Multiset Block) : Prop where
  capacity_eq : ∀ b, q.capacity b = p.capacity b
  bytes_eq : ∀ b ∈ handles, q.bytes b = p.bytes b

theorem Keeps.shows {p q : Pool} {handles : Multiset Block} (h : p.Keeps q handles) :
    p.Shows q handles := ⟨h.capacity_eq, h.bytes_eq⟩

namespace Shows

variable {p q r : Pool} {handles : Multiset Block}

theorem refl (p : Pool) (handles : Multiset Block) : p.Shows p handles :=
  (Keeps.refl p handles).shows

theorem trans (h₁ : p.Shows q handles) (h₂ : q.Shows r handles) : p.Shows r handles :=
  ⟨fun b => (h₂.capacity_eq b).trans (h₁.capacity_eq b),
    fun b hb => (h₂.bytes_eq b hb).trans (h₁.bytes_eq b hb)⟩

theorem mono {fewer : Multiset Block} (h : p.Shows q handles) (hle : ∀ b ∈ fewer, b ∈ handles) :
    p.Shows q fewer := ⟨h.capacity_eq, fun b hb => h.bytes_eq b (hle b hb)⟩

end Shows

/-- A block that has a handle is refused a further one for their number only. -/
theorem Sound.fault_of_retain (h : pool.Sound others) {b : Block} (hb : b ∈ others)
    {fault : Fault} (hr : pool.retain b = .error fault) : fault = .refCountOverflow := by
  have hcount := h.refCount_eq b
  have hpos : 0 < others.count b := Multiset.count_pos.2 hb
  have hlive : (pool.bucket b.sizeClass).refs b.slot ≠ 0 := by
    intro hzero
    rw [refCount, hzero] at hcount
    exact absurd hcount (Nat.ne_of_lt hpos)
  unfold Pool.retain Bucket.retain at hr
  rw [if_neg hlive] at hr
  split at hr
  · cases hr; rfl
  · cases hr

/-- A handle that is refused would have been one too many. -/
theorem Sound.le_count_of_retain (h : pool.Sound others) {b : Block} (hb : b ∈ others)
    {fault : Fault} (hr : pool.retain b = .error fault) : 255 ≤ others.count b := by
  obtain ⟨rest, rfl⟩ := Multiset.exists_cons_of_mem hb
  by_contra hlt
  obtain ⟨q, hq, -⟩ := h.retain (Nat.lt_of_not_le hlt)
  rw [hq] at hr
  cases hr

/-- A second handle to a block, next to all the handles there are. -/
theorem Sound.retain_mem (h : pool.Sound others) {b : Block} (hb : b ∈ others)
    (hr : pool.retain b = .ok q) : q.Sound (b ::ₘ others) ∧ pool.Shows q others := by
  obtain ⟨rest, rfl⟩ := Multiset.exists_cons_of_mem hb
  obtain ⟨q', hq', hsound, hkeeps, hbytes⟩ := h.retain (h.count_lt_of_retain hr)
  cases hr.symm.trans hq'
  refine ⟨hsound, hkeeps.capacity_eq, ?_⟩
  intro c hc
  rcases Multiset.mem_cons.1 hc with rfl | hc
  · exact hbytes
  · exact hkeeps.bytes_eq c hc

theorem Sound.count_le (h : pool.Sound others) (b : Block) : others.count b ≤ 255 := by
  rw [← h.refCount_eq b]
  exact Nat.le_of_lt_succ (pool.refCount b).toNat_lt

end Pool

namespace Packet

variable {p : Packet}

/-! ## A packet for bytes -/

theorem ceilDiv_mul_lt {n size i : Nat} (hi : i < ceilDiv n size) : i * size < n := by
  rcases Nat.eq_zero_or_pos size with rfl | hpos
  · simp [ceilDiv] at hi
  · have hle := (Nat.le_div_iff_mul_le hpos).1 (Nat.succ_le_of_lt hi)
    rw [Nat.succ_mul] at hle
    omega

theorem length_pieces (size : Nat) (data : Bytes) :
    (pieces size data).length = ceilDiv data.length size := by
  simp [pieces]

theorem pos_of_mem_pieces {size : Nat} {data piece : Bytes} (h : piece ∈ pieces size data) :
    piece ≠ [] := by
  obtain ⟨i, hi, rfl⟩ := List.mem_map.1 h
  have hlt := ceilDiv_mul_lt (List.mem_range.1 hi)
  have hsize : size ≠ 0 := by
    rintro rfl
    simp [ceilDiv] at hi
  rw [← List.length_pos_iff, List.length_take, List.length_drop]
  omega

/-- Writes a piece into a new block, and puts the block behind a packet. -/
theorem Valid.append_piece (h : p.Valid pool) (hs : pool.Sound (p.handles + others))
    {piece : Bytes} (hpiece : piece ≠ []) (hroom : p.chunks.length < maxChunks) {b : Block}
    {q : Pool} (ha : pool.allocate piece.length = .ok (b, q)) :
    ∃ p' q', q.write b 0 piece = .ok q' ∧
      Chunk.of q' b 0 piece.length = .ok ⟨b, 0, piece.length⟩ ∧
      p.push q' ⟨b, 0, piece.length⟩ = .ok (p', q') ∧ p'.Valid q' ∧
      q'.Sound (p'.handles + others) ∧ pool.Keeps q' others ∧
      p'.content q' = p.content pool ++ piece ∧ p'.chunks.length = p.chunks.length + 1 := by
  obtain ⟨hnot, hsound, hkeeps, hfits⟩ := hs.allocate ha
  have hroom' : 0 + piece.length ≤ q.capacity b := by omega
  obtain ⟨q', hw, hsound', hkeeps', hbytes⟩ := hsound.write hnot hroom'
  have hcap : piece.length ≤ q'.capacity b := hfits.trans_eq (hkeeps'.capacity_eq b).symm
  have hchunk : Chunk.Valid q' ⟨b, 0, piece.length⟩ := ⟨List.length_pos_iff.2 hpiece, hcap⟩
  have hall := hkeeps.trans hkeeps'
  obtain ⟨p', hpush, hvalid, hhandles, hcontent, -, hlen⟩ := (h.keeps hall).push hchunk hroom
  refine ⟨p', q', hw, if_pos ⟨Nat.zero_le _, hcap⟩, hpush, hvalid, ?_, ?_, ?_, hlen⟩
  · rw [hhandles, Multiset.cons_add]
    exact hsound'
  · exact hall.mono fun c hc => Multiset.mem_add.2 (Or.inr hc)
  · have hpiece' : Chunk.bytes q' ⟨b, 0, piece.length⟩ = piece := by
      rw [Chunk.bytes_eq, hbytes]
      simp
    rw [hcontent, hpiece', content_keeps hall fun c hc => Multiset.mem_add.2 (Or.inl hc)]

theorem sound_appendPieces {data : List Bytes} (hdata : ∀ piece ∈ data, piece ≠ []) :
    ∀ {p : Packet} {pool : Pool}, p.Valid pool → pool.Sound (p.handles + others) →
      p.chunks.length + data.length ≤ maxChunks →
      (∃ e q, appendPieces pool p data = .ok (.error e, q) ∧ q.Sound others ∧
        pool.Keeps q others) ∨
      ∃ p' q, appendPieces pool p data = .ok (.ok p', q) ∧ p'.Valid q ∧
        q.Sound (p'.handles + others) ∧ pool.Keeps q others ∧
        p'.content q = p.content pool ++ data.flatten := by
  induction data with
  | nil =>
      intro p pool h hs _
      exact Or.inr ⟨p, pool, rfl, h, hs, Pool.Keeps.refl _ _, (List.append_nil _).symm⟩
  | cons piece rest ih =>
      intro p pool h hs hroom
      rw [List.length_cons] at hroom
      simp only [appendPieces]
      cases ha : pool.allocate piece.length with
      | error e =>
          obtain ⟨hsound, hkeeps⟩ := sound_release hs
          exact Or.inl ⟨e, p.release pool, rfl, hsound, hkeeps⟩
      | ok found =>
          obtain ⟨b, q⟩ := found
          obtain ⟨p', q', hw, hof, hpush, hvalid, hsound, hkeeps, hcontent, hlen⟩ :=
            h.append_piece hs (hdata piece (by simp)) (by omega) ha
          simp only [hw, hof, hpush, bind, Except.bind]
          rcases ih (fun piece hpiece => hdata piece (by simp [hpiece])) hvalid hsound
            (by omega) with ⟨e, r, hr, hr', hk⟩ | ⟨p'', r, hr, hv, hr', hk, hc⟩
          · exact Or.inl ⟨e, r, hr, hr', hkeeps.trans hk⟩
          · refine Or.inr ⟨p'', r, hr, hv, hr', hkeeps.trans hk, ?_⟩
            rw [hc, hcontent, List.flatten_cons, List.append_assoc]

/-- Bytes become a packet, or all blocks taken for it are given back. -/
theorem sound_ofBytes (hs : pool.Sound others) (data : Bytes) :
    (∃ e q, ofBytes pool data = .ok (.error e, q) ∧ q.Sound others ∧ pool.Keeps q others) ∨
      ∃ p q, ofBytes pool data = .ok (.ok p, q) ∧ p.Valid q ∧ q.Sound (p.handles + others) ∧
        pool.Keeps q others ∧ p.content q = (pieces pool.maxBlockSize data).flatten := by
  unfold ofBytes
  split
  · exact Or.inl ⟨.tooLarge, pool, rfl, hs, Pool.Keeps.refl _ _⟩
  · rename_i hle
    have hroom : empty.chunks.length + (pieces pool.maxBlockSize data).length ≤ maxChunks := by
      rw [length_pieces]
      simpa [empty] using hle
    have hs' : pool.Sound (empty.handles + others) := hs.cast (zero_add _).symm
    exact sound_appendPieces (fun _ => pos_of_mem_pieces) (Valid.empty pool) hs' hroom

/-! ## A second packet over the same bytes -/

theorem sound_retainChunks {rest : List Chunk} : ∀ {pool : Pool} {done : List Chunk},
    pool.Sound ((done.map Chunk.block : List Block) + others) →
    (∀ c ∈ rest, c.block ∈ others) →
    (∃ q, retainChunks pool done rest = (none, q) ∧
      q.Sound (((done ++ rest).map Chunk.block : List Block) + others) ∧ pool.Shows q others) ∨
    ∃ q, retainChunks pool done rest = (some .refCountOverflow, q) ∧ q.Sound others ∧
      pool.Shows q others ∧
      ∃ b, 255 < (((done ++ rest).map Chunk.block : List Block) + others).count b := by
  induction rest with
  | nil =>
      intro pool done hs _
      refine Or.inl ⟨pool, rfl, ?_, Pool.Shows.refl _ _⟩
      rwa [List.append_nil]
  | cons c rest ih =>
      intro pool done hs hrest
      have hc : c.block ∈ ((done.map Chunk.block : List Block) : Multiset Block) + others :=
        Multiset.mem_add.2 (Or.inr (hrest c (by simp)))
      simp only [retainChunks]
      cases hr : pool.retain c.block with
      | error fault =>
          obtain ⟨hsound, hkeeps⟩ := hs.releaseAll (done.map Chunk.block)
          refine Or.inr ⟨_, by rw [hs.fault_of_retain hc hr], hsound, hkeeps.shows, c.block, ?_⟩
          have hfull := hs.le_count_of_retain hc hr
          simp only [Multiset.count_add, Multiset.coe_count, List.map_append, List.map_cons,
            List.count_append, List.count_cons_self] at hfull ⊢
          omega
      | ok q =>
          obtain ⟨hsound, hshows⟩ := hs.retain_mem hc hr
          have hsound' : q.Sound (((done ++ [c]).map Chunk.block : List Block) + others) := by
            refine hsound.cast ?_
            rw [List.map_append, List.map_singleton, ← Multiset.coe_add, Multiset.coe_singleton,
              add_right_comm, ← Multiset.singleton_add, add_comm]
          have hshows' : pool.Shows q others :=
            hshows.mono fun b hb => Multiset.mem_add.2 (Or.inr hb)
          have hmore := ih hsound' fun d hd => hrest d (by simp [hd])
          rw [List.append_assoc, List.singleton_append] at hmore
          rcases hmore with ⟨r, hr, hs, hk⟩ | ⟨r, hr, hs, hk, hfull⟩
          · exact Or.inl ⟨r, hr, hs, hshows'.trans hk⟩
          · exact Or.inr ⟨r, hr, hs, hshows'.trans hk, hfull⟩

/-- There is a second packet over the same bytes, unless some block would get too many handles. -/
theorem sound_duplicate (hs : pool.Sound others) (hp : ∀ b ∈ p.handles, b ∈ others) :
    (∃ q, p.duplicate pool = (.ok p, q) ∧ q.Sound (p.handles + others) ∧ pool.Shows q others) ∨
      ∃ q, p.duplicate pool = (.error .refCountOverflow, q) ∧ q.Sound others ∧
        pool.Shows q others ∧ ∃ b, 255 < (p.handles + others).count b := by
  have hs' : pool.Sound ((([] : List Chunk).map Chunk.block : List Block) + others) :=
    hs.cast (zero_add _).symm
  rcases sound_retainChunks hs' fun c hc => hp _ (mem_handles hc) with
    ⟨q, hq, hsound, hshows⟩ | ⟨q, hq, hsound, hshows, hfull⟩
  · exact Or.inl ⟨q, by rw [duplicate, hq], hsound, hshows⟩
  · exact Or.inr ⟨q, by rw [duplicate, hq], hsound, hshows, hfull⟩

end Packet

end DockLink
