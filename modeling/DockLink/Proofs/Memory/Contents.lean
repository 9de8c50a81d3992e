import DockLink.Memory.Packet
import DockLink.Proofs.Memory.Ownership

/-!
# The contents of packets

A valid packet has at most eight chunks, none of them empty and all within their blocks. Its content
is then as long as it says, and each operation does to the content what its name tells. The content
stays the same as long as the pool keeps the bytes of its blocks.
-/

namespace DockLink

variable {pool q : Pool} {others : Multiset Block}

/-- A number of bytes fits into as many pieces as it is cut into. -/
theorem le_mul_of_ceilDiv_le {m n k : Nat} (hpos : 0 < n) (h : ceilDiv m n ≤ k) : m ≤ k * n := by
  have hlt : m + n - 1 < (k + 1) * n := Nat.lt_mul_of_div_lt (Nat.lt_succ_of_le h) hpos
  rw [Nat.succ_mul] at hlt
  omega

namespace Chunk

/-- A range with at least one byte, all of it in the block. -/
def Valid (pool : Pool) (c : Chunk) : Prop := c.start < c.stop ∧ c.stop ≤ pool.capacity c.block

instance (pool : Pool) (c : Chunk) : Decidable (c.Valid pool) :=
  inferInstanceAs (Decidable (_ ∧ _))

theorem eq_of_of_eq_ok {b : Block} {start stop : Nat} {c : Chunk}
    (h : Chunk.of pool b start stop = .ok c) : c = ⟨b, start, stop⟩ := by
  unfold Chunk.of at h
  split at h
  · exact (Except.ok.inj h).symm
  · cases h

theorem bytes_eq (pool : Pool) (c : Chunk) :
    c.bytes pool = ((pool.bytes c.block).take c.stop).drop c.start := pool.read_eq _ _ _

theorem length_bytes {c : Chunk} (h : c.stop ≤ pool.capacity c.block) :
    (c.bytes pool).length = c.length := by
  simp only [bytes_eq, List.length_drop, List.length_take, Pool.length_bytes, length]
  omega

theorem Valid.length_pos {c : Chunk} (h : c.Valid pool) : 0 < c.length := Nat.sub_pos_of_lt h.1

theorem Valid.keeps {c : Chunk} (h : c.Valid pool) (hk : pool.Keeps q others) : c.Valid q :=
  ⟨h.1, h.2.trans_eq (hk.capacity_eq c.block).symm⟩

theorem bytes_keeps {c : Chunk} (hk : pool.Keeps q others) (hc : c.block ∈ others) :
    c.bytes q = c.bytes pool := by
  rw [bytes_eq, bytes_eq, hk.bytes_eq _ hc]

theorem part_eq (pool : Pool) (c : Chunk) (skip room : Nat) :
    c.part pool skip room = ((c.bytes pool).drop skip).take room := by
  rw [part, Pool.read_eq, bytes_eq, List.drop_drop, List.take_drop, List.take_take, Nat.min_comm]

end Chunk

namespace Packet

variable {p : Packet}

/-- The handles that a packet owns, one for each chunk. -/
def handles (p : Packet) : Multiset Block := (p.chunks.map Chunk.block : List Block)

/-- A packet as its operations build it. -/
structure Valid (pool : Pool) (p : Packet) : Prop where
  chunks_le : p.chunks.length ≤ maxChunks
  chunk : ∀ c ∈ p.chunks, c.Valid pool
  length_eq : p.length = (p.chunks.map Chunk.length).sum

instance (pool : Pool) (p : Packet) : Decidable (p.Valid pool) :=
  decidable_of_iff (p.chunks.length ≤ maxChunks ∧ (∀ c ∈ p.chunks, c.Valid pool) ∧
      p.length = (p.chunks.map Chunk.length).sum)
    ⟨fun h => ⟨h.1, h.2.1, h.2.2⟩, fun h => ⟨h.chunks_le, h.chunk, h.length_eq⟩⟩

theorem mem_handles {c : Chunk} (hc : c ∈ p.chunks) : c.block ∈ p.handles :=
  Multiset.mem_coe.2 (List.mem_map_of_mem hc)

theorem content_eq (pool : Pool) (p : Packet) :
    p.content pool = (p.chunks.map (Chunk.bytes pool)).flatten := rfl

theorem Valid.keeps (h : p.Valid pool) (hk : pool.Keeps q others) :
    p.Valid q :=
  ⟨h.chunks_le, fun c hc => (h.chunk c hc).keeps hk, h.length_eq⟩

theorem content_keeps (hk : pool.Keeps q others)
    (hp : ∀ b ∈ p.handles, b ∈ others) : p.content q = p.content pool := by
  rw [content_eq, content_eq]
  congr 1
  refine List.map_congr_left ?_
  intro c hc
  exact Chunk.bytes_keeps hk (hp _ (mem_handles hc))

theorem length_flatten_bytes {chunks : List Chunk} (h : ∀ c ∈ chunks, c.Valid pool) :
    (chunks.map (Chunk.bytes pool)).flatten.length = (chunks.map Chunk.length).sum := by
  rw [List.length_flatten, List.map_map]
  congr 1
  refine List.map_congr_left ?_
  intro c hc
  exact Chunk.length_bytes (h c hc).2

theorem Valid.length_content (h : p.Valid pool) : (p.content pool).length = p.length :=
  (length_flatten_bytes h.chunk).trans h.length_eq.symm

/-! ## The packet without bytes -/

theorem Valid.empty (pool : Pool) : Packet.empty.Valid pool :=
  ⟨Nat.zero_le _, by simp [Packet.empty], rfl⟩

@[simp]
theorem handles_empty : Packet.empty.handles = 0 := rfl

/-! ## Adding a chunk -/

theorem Valid.push (h : p.Valid pool) {c : Chunk} (hc : c.Valid pool)
    (hroom : p.chunks.length < maxChunks) :
    ∃ p', p.push pool c = .ok (p', pool) ∧ p'.Valid pool ∧ p'.handles = c.block ::ₘ p.handles ∧
      p'.content pool = p.content pool ++ c.bytes pool ∧ p'.length = p.length + c.length ∧
      p'.chunks.length = p.chunks.length + 1 := by
  have hne : c.length ≠ 0 := Nat.pos_iff_ne_zero.1 hc.length_pos
  refine ⟨{ chunks := p.chunks ++ [c], length := p.length + c.length },
    by simp [Packet.push, add, hne, hroom], ⟨?_, ?_, ?_⟩, ?_, ?_, rfl, by simp⟩
  · rw [List.length_append]; exact hroom
  · intro d hd
    rcases List.mem_append.1 hd with hd | hd
    · exact h.chunk d hd
    · rw [List.mem_singleton.1 hd]; exact hc
  · simp [h.length_eq]
  · simp only [Packet.handles, List.map_append, List.map_cons, List.map_nil]
    rw [← Multiset.coe_add, Multiset.coe_singleton, add_comm, Multiset.singleton_add]
  · simp [content_eq]

theorem Valid.ofChunk {c : Chunk} (hc : c.Valid pool) :
    ∃ p, ofChunk pool c = (p, pool) ∧ p.Valid pool ∧ p.handles = {c.block} ∧
      p.content pool = c.bytes pool := by
  refine ⟨{ chunks := [c], length := c.length }, if_neg (Nat.pos_iff_ne_zero.1 hc.length_pos),
    ⟨(by decide : 1 ≤ maxChunks), ?_, ?_⟩, rfl, List.append_nil _⟩
  · exact List.forall_mem_singleton.2 hc
  · exact (Nat.add_zero _).symm

theorem Valid.pushFront (h : p.Valid pool) {c : Chunk} (hc : c.Valid pool)
    (hroom : p.chunks.length < maxChunks) :
    ∃ p', p.pushFront pool c = .ok (p', pool) ∧ p'.Valid pool ∧
      p'.handles = c.block ::ₘ p.handles ∧ p'.content pool = c.bytes pool ++ p.content pool ∧
      p' = { chunks := c :: p.chunks, length := p.length + c.length } := by
  have hne : c.length ≠ 0 := Nat.pos_iff_ne_zero.1 hc.length_pos
  refine ⟨{ chunks := c :: p.chunks, length := p.length + c.length },
    by simp [Packet.pushFront, add, hne, hroom], ⟨?_, ?_, ?_⟩, rfl, ?_, rfl⟩
  · exact hroom
  · intro d hd
    rcases List.mem_cons.1 hd with rfl | hd
    · exact hc
    · exact h.chunk d hd
  · simp [h.length_eq, Nat.add_comm]
  · simp [content_eq]

/-- A chunk without bytes is given back at once. -/
theorem push_of_length_zero {c : Chunk} (hc : c.length = 0) :
    p.push pool c = .ok (p, pool.release c.block) := by
  simp [Packet.push, add, hc]

theorem push_eq_error {c : Chunk} (hc : c.length ≠ 0) (hfull : maxChunks ≤ p.chunks.length) :
    p.push pool c = .error c := by
  simp [Packet.push, add, hc, Nat.not_lt.2 hfull]

theorem pushFront_eq_error {c : Chunk} (hc : c.length ≠ 0) (hfull : maxChunks ≤ p.chunks.length) :
    p.pushFront pool c = .error c := by
  simp [Packet.pushFront, add, hc, Nat.not_lt.2 hfull]

/-! ## Giving a packet back -/

theorem sound_release (h : pool.Sound (p.handles + others)) :
    (p.release pool).Sound others ∧ pool.Keeps (p.release pool) others :=
  h.releaseAll _

/-! ## Reading -/

theorem copyFrom_eq {chunks : List Chunk} (h : ∀ c ∈ chunks, c.Valid pool) (skip room : Nat) :
    copyFrom pool chunks skip room =
      ((chunks.map (Chunk.bytes pool)).flatten.drop skip).take room := by
  induction chunks generalizing skip room with
  | nil => simp [copyFrom]
  | cons c rest ih =>
      have hlen : (c.bytes pool).length = c.length := Chunk.length_bytes (h c (by simp)).2
      have ih' := fun skip room => ih (fun d hd => h d (by simp [hd])) skip room
      simp only [copyFrom, List.map_cons, List.flatten_cons, ih']
      split
      · rename_i hroom; simp [hroom]
      · split
        · rename_i hskip
          have hle : (c.bytes pool).length ≤ skip := by omega
          rw [List.drop_append, List.drop_of_length_le hle, hlen, List.nil_append]
        · rename_i hskip
          have hle : skip ≤ (c.bytes pool).length := by omega
          rw [Chunk.part_eq, List.drop_append_of_le_length hle, List.take_append, List.drop_zero,
            List.length_take]
          congr 2
          omega

/-- Copying reads from the content, as far as it goes. -/
theorem Valid.copy_eq (h : p.Valid pool) (offset room : Nat) :
    p.copy pool offset room = ((p.content pool).drop offset).take room :=
  copyFrom_eq h.chunk offset room

/-! ## Dropping bytes -/

theorem sound_dropBytes {chunks : List Chunk} (h : ∀ c ∈ chunks, c.Valid pool) {count : Nat}
    (hcount : count ≤ (chunks.map Chunk.length).sum)
    (hs : pool.Sound ((chunks.map Chunk.block : List Block) + others)) :
    ∃ left q, dropBytes pool chunks count = .ok (left, q) ∧
      q.Sound ((left.map Chunk.block : List Block) + others) ∧
      pool.Keeps q ((left.map Chunk.block : List Block) + others) ∧
      (∀ c ∈ left, c.Valid q) ∧ left.map Chunk.block <:+ chunks.map Chunk.block ∧
      (left.map Chunk.length).sum + count = (chunks.map Chunk.length).sum ∧
      (left.map (Chunk.bytes q)).flatten = (chunks.map (Chunk.bytes pool)).flatten.drop count := by
  induction chunks generalizing pool count with
  | nil =>
      obtain rfl : count = 0 := by simpa using hcount
      exact ⟨[], pool, rfl, hs, Pool.Keeps.refl _ _, by simp, List.suffix_refl _, rfl, rfl⟩
  | cons c rest ih =>
      have hc := h c (by simp)
      have hrest : ∀ d ∈ rest, d.Valid pool := fun d hd => h d (by simp [hd])
      have hlen : (c.bytes pool).length = c.length := Chunk.length_bytes hc.2
      simp only [List.map_cons, List.sum_cons] at hcount
      cases count with
      | zero =>
          exact ⟨c :: rest, pool, rfl, hs, Pool.Keeps.refl _ _, h, List.suffix_refl _, rfl, rfl⟩
      | succ n =>
          simp only [dropBytes]
          split
          · rename_i hle
            have hs' : pool.Sound (c.block ::ₘ ((rest.map Chunk.block : List Block) + others)) :=
              hs.cast (by rw [List.map_cons, ← Multiset.cons_coe, Multiset.cons_add])
            obtain ⟨hsound, hkeep⟩ := hs'.release
            have hleft : n + 1 - c.length ≤ (rest.map Chunk.length).sum := by omega
            obtain ⟨left, q, hq, hq', hkeep', hvalid, hsuffix, hsum, hcontent⟩ :=
              ih (fun d hd => (hrest d hd).keeps hkeep) hleft hsound
            refine ⟨left, q, hq, hq', ?_, hvalid, ?_, ?_, ?_⟩
            · refine (hkeep.mono ?_).trans hkeep'
              intro d hd
              rcases Multiset.mem_add.1 hd with hd | hd
              · exact Multiset.mem_add.2 (Or.inl (hsuffix.subset hd))
              · exact Multiset.mem_add.2 (Or.inr hd)
            · exact hsuffix.trans (List.suffix_cons _ _)
            · simp only [List.map_cons, List.sum_cons]; omega
            · have hsame : rest.map (Chunk.bytes (pool.release c.block)) =
                  rest.map (Chunk.bytes pool) := by
                refine List.map_congr_left ?_
                intro d hd
                exact Chunk.bytes_keeps hkeep
                  (Multiset.mem_add.2 (Or.inl (Multiset.mem_coe.2 (List.mem_map_of_mem hd))))
              have hle' : (c.bytes pool).length ≤ n + 1 := by omega
              rw [hcontent, hsame, List.map_cons, List.flatten_cons, List.drop_append,
                List.drop_of_length_le hle', hlen, List.nil_append]
          · rename_i hgt
            have hvalid : Chunk.Valid pool { c with start := c.start + (n + 1) } := by
              simp only [Chunk.length] at hgt
              exact ⟨by simp only; omega, hc.2⟩
            refine ⟨{ c with start := c.start + (n + 1) } :: rest, pool, rfl, hs,
              Pool.Keeps.refl _ _, ?_, List.suffix_refl _, ?_, ?_⟩
            · intro d hd
              rcases List.mem_cons.1 hd with rfl | hd
              · exact hvalid
              · exact hrest d hd
            · simp only [List.map_cons, List.sum_cons, Chunk.length] at hgt ⊢
              omega
            · have hle : n + 1 ≤ (c.bytes pool).length := by omega
              rw [List.map_cons, List.map_cons, List.flatten_cons, List.flatten_cons,
                List.drop_append_of_le_length hle, Chunk.bytes_eq, Chunk.bytes_eq, List.drop_drop]

theorem dropBytes_zero (pool : Pool) (chunks : List Chunk) :
    dropBytes pool chunks 0 = .ok (chunks, pool) := by
  cases chunks with
  | nil => rfl
  | cons c rest => rfl

theorem advance_zero (pool : Pool) (p : Packet) : p.advance pool 0 = .ok (p, pool) := by
  rw [Packet.advance, if_pos (Nat.zero_le _), dropBytes_zero]
  rfl

theorem eq_of_pushFront_ok {p' : Packet} {c : Chunk} {q : Pool} (hc : c.length ≠ 0)
    (h : p.pushFront pool c = .ok (p', q)) :
    p' = { chunks := c :: p.chunks, length := p.length + c.length } ∧ q = pool := by
  unfold pushFront add at h
  rw [if_neg hc] at h
  split at h
  · cases h
    exact ⟨rfl, rfl⟩
  · cases h

theorem full_of_pushFront_error {c c' : Chunk} (h : p.pushFront pool c = .error c') :
    c' = c ∧ maxChunks ≤ p.chunks.length := by
  unfold pushFront add at h
  split at h
  · cases h
  · split at h
    · cases h
    · rename_i hfull
      cases h
      exact ⟨rfl, Nat.not_lt.1 hfull⟩

/-- Dropping a whole chunk at the front undoes its addition. -/
theorem advance_pushFront {c : Chunk} (hc : c.length ≠ 0) :
    Packet.advance pool { chunks := c :: p.chunks, length := p.length + c.length } c.length =
      .ok (p, pool.release c.block) := by
  obtain ⟨n, hn⟩ := Nat.exists_eq_succ_of_ne_zero hc
  have hdrop : dropBytes pool (c :: p.chunks) c.length = .ok (p.chunks, pool.release c.block) := by
    rw [hn]
    simp only [dropBytes]
    rw [if_pos (Nat.le_of_eq hn), hn, Nat.sub_self, dropBytes_zero]
  rw [Packet.advance, if_pos (Nat.le_add_left _ _), hdrop]
  simp only [Except.map, Nat.add_sub_cancel]

/-- Dropping bytes drops them from the content, and gives back what is used up. -/
theorem Valid.advance (h : p.Valid pool) {count : Nat} (hcount : count ≤ p.length)
    (hs : pool.Sound (p.handles + others)) :
    ∃ p' q, p.advance pool count = .ok (p', q) ∧ q.Sound (p'.handles + others) ∧
      pool.Keeps q (p'.handles + others) ∧ p'.Valid q ∧
      p'.content q = (p.content pool).drop count ∧ p'.length = p.length - count := by
  have hsum := h.length_eq
  have hcount' : count ≤ (p.chunks.map Chunk.length).sum := hsum ▸ hcount
  obtain ⟨left, q, hq, hsound, hkeep, hvalid, hsuffix, hleft, hcontent⟩ :=
    sound_dropBytes h.chunk hcount' hs
  refine ⟨{ chunks := left, length := p.length - count }, q, ?_, hsound, hkeep,
    ⟨?_, hvalid, ?_⟩, hcontent, rfl⟩
  · simp [Packet.advance, hcount, hq, Except.map]
  · have hlen := hsuffix.length_le
    simp only [List.length_map] at hlen
    exact hlen.trans h.chunks_le
  · simp only
    omega

end Packet

end DockLink
