import DockLink.Proofs.Memory.Requests
import DockLink.Proofs.Memory.Restoring

/-!
# A second packet or none

For a second packet over the same bytes, one more handle is counted for each chunk, and several
chunks may be on one block. Either all of them can be counted, or those counted so far are taken off
again, and the pool is the one from before, down to the bytes of its free slots.
-/

namespace DockLink

theorem ne_zero_of_toNat_le {m n : UInt8} (hm : m ≠ 0) (h : m.toNat ≤ n.toNat) : n ≠ 0 := by
  rintro rfl
  exact hm (UInt8.toNat_inj.1 (Nat.le_zero.1 h))

namespace Bucket

variable {f g : UInt8 → UInt8}

/-- Changes the number of handles that is counted for a slot. -/
def recount (b : Bucket) (s : UInt8) (f : UInt8 → UInt8) : Bucket :=
  b.onSlot s fun slot => { slot with refs := f slot.refs }

theorem recount_comm (b : Bucket) (s t : UInt8) (h : ∀ n, g (f n) = f (g n)) :
    (b.recount s f).recount t g = (b.recount t g).recount s f := by
  have hslots := modify_modify_comm b.slots
    (f := fun slot => { slot with refs := f slot.refs })
    (g := fun slot => { slot with refs := g slot.refs })
    (fun slot => congrArg (fun refs => { slot with refs }) (h slot.refs)) s.toNat t.toNat
  exact congrArg (fun slots => { b with slots }) hslots

theorem recount_inverse (b : Bucket) (s : UInt8) (h : ∀ n, g (f n) = n) :
    (b.recount s f).recount s g = b := by
  have hslots := modify_modify_inverse b.slots
    (f := fun slot => { slot with refs := f slot.refs })
    (g := fun slot => { slot with refs := g slot.refs })
    (fun slot => congrArg (fun refs => { slot with refs }) (h slot.refs)) s.toNat
  exact congrArg (fun slots => { b with slots }) hslots

theorem bytesAt_recount (b : Bucket) (s t : UInt8) (f : UInt8 → UInt8) :
    (b.recount s f).bytesAt t = b.bytesAt t := by
  rw [recount, bytesAt_onSlot]
  split
  · rfl
  · rfl

theorem freeCount_recount (b : Bucket) (s : UInt8) (f : UInt8 → UInt8) :
    (b.recount s f).freeCount = b.freeCount := by
  rw [freeCount, recount, size_onSlot]
  rfl

end Bucket

namespace Pool

variable {p : Pool} {b c : Block} {blocks : List Block} {f g : UInt8 → UInt8}

/-- Changes the number of handles that is counted for a block. -/
def recount (p : Pool) (b : Block) (f : UInt8 → UInt8) : Pool :=
  p.onBucket b.sizeClass fun bucket => bucket.recount b.slot f

theorem recount_comm (p : Pool) (b c : Block) (h : ∀ n, g (f n) = f (g n)) :
    (p.recount b f).recount c g = (p.recount c g).recount b f := by
  have hclasses := modify_modify_comm p.classes
    (f := fun bucket => bucket.recount b.slot f) (g := fun bucket => bucket.recount c.slot g)
    (fun bucket => bucket.recount_comm _ _ h) b.sizeClass c.sizeClass
  exact congrArg Pool.mk hclasses

theorem recount_inverse (p : Pool) (b : Block) (h : ∀ n, g (f n) = n) :
    (p.recount b f).recount b g = p := by
  have hclasses := modify_modify_inverse p.classes
    (f := fun bucket => bucket.recount b.slot f) (g := fun bucket => bucket.recount b.slot g)
    (fun bucket => bucket.recount_inverse _ h) b.sizeClass
  exact congrArg Pool.mk hclasses

theorem bytes_recount (p : Pool) (b : Block) (f : UInt8 → UInt8) (c : Block) :
    (p.recount b f).bytes c = p.bytes c := by
  rw [bytes_eq_bytesAt, recount, bucket_onBucket, bytes_eq_bytesAt]
  split
  · exact Bucket.bytesAt_recount _ _ _ _
  · rfl

theorem freeCounts_recount (p : Pool) (b : Block) (f : UInt8 → UInt8) :
    (p.recount b f).freeCounts = p.freeCounts :=
  map_classes_onBucket p b.sizeClass fun bucket => bucket.freeCount_recount b.slot f

/-! ## Blocks with a handle -/

theorem slot_lt_of_refCount (h : p.refCount b ≠ 0) :
    b.slot.toNat < (p.bucket b.sizeClass).slots.size := by
  by_contra hslot
  refine h ?_
  rw [refCount, Bucket.refs, Bucket.slot, Array.getD_eq_getD_getElem?,
    Array.getElem?_eq_none (Nat.not_lt.1 hslot)]
  rfl

theorem refCount_recount (h : p.refCount b ≠ 0) (f : UInt8 → UInt8) (c : Block) :
    (p.recount b f).refCount c = if c = b then f (p.refCount b) else p.refCount c := by
  have hclass := class_lt_of_refCount h
  have hslot := slot_lt_of_refCount h
  rw [refCount, recount, bucket_onBucket]
  by_cases hc : c.sizeClass = b.sizeClass
  · rw [if_pos ⟨hc.symm, hclass⟩, Bucket.recount, Bucket.refs_onSlot]
    by_cases hs : c.slot = b.slot
    · obtain rfl : c = b := by cases c; cases b; simp_all
      rw [if_pos ⟨rfl, hslot⟩, if_pos rfl]
      rfl
    · rw [if_neg fun he => hs he.1.symm, if_neg fun he => hs (congrArg Block.slot he)]
      rfl
  · rw [if_neg fun he => hc he.1.symm, if_neg fun he => hc (congrArg Block.sizeClass he)]
    rfl

theorem retain_eq_recount (h : p.refCount b ≠ 0) (hfull : p.refCount b ≠ 255) :
    p.retain b = .ok (p.recount b (· + 1)) := by
  have hlive : (p.bucket b.sizeClass).refs b.slot ≠ 0 := h
  have hrefs : (p.bucket b.sizeClass).refs b.slot ≠ 255 := hfull
  rw [recount, onBucket_eq p _ _ (class_lt_of_refCount h), retain, Bucket.retain, if_neg hlive,
    if_neg hrefs]
  rfl

/-- A handle that is not the last one is only taken off the count. -/
theorem release_eq_recount (h : 1 < (p.refCount b).toNat) :
    p.release b = p.recount b (· - 1) := by
  have hzero : (p.bucket b.sizeClass).refs b.slot ≠ 0 := fun he =>
    absurd (h.trans_eq (congrArg UInt8.toNat he)) (by decide)
  have hone : (p.bucket b.sizeClass).refs b.slot ≠ 1 := fun he =>
    absurd (h.trans_eq (congrArg UInt8.toNat he)) (by decide)
  have hclass := class_lt_of_refCount hzero
  rw [recount, release, onBucket_eq p _ _ hclass, onBucket_eq p _ _ hclass, Bucket.release,
    if_neg hzero, if_neg hone]
  rfl

/-! ## Several handles -/

/-- Every block can count one more handle for each time that it is listed. -/
def CanCount (p : Pool) (blocks : List Block) : Prop :=
  ∀ b, (p.refCount b).toNat + blocks.count b ≤ 255

/-- Counts one more handle for each block. -/
def countAll (p : Pool) (blocks : List Block) : Pool :=
  blocks.foldl (fun p b => p.recount b (· + 1)) p

theorem countAll_concat (p : Pool) (blocks : List Block) (b : Block) :
    p.countAll (blocks ++ [b]) = (p.countAll blocks).recount b (· + 1) := by
  rw [countAll, List.foldl_append]
  rfl

/-- The block counted first may as well be counted last. -/
theorem countAll_cons (p : Pool) (b : Block) (blocks : List Block) :
    p.countAll (b :: blocks) = (p.countAll blocks).recount b (· + 1) := by
  induction blocks generalizing p with
  | nil => rfl
  | cons c rest ih =>
      have hcomm : (p.recount b (· + 1)).recount c (· + 1) =
          (p.recount c (· + 1)).recount b (· + 1) := p.recount_comm b c fun _ => rfl
      show ((p.recount b (· + 1)).recount c (· + 1)).countAll rest = _
      rw [hcomm]
      exact ih (p.recount c (· + 1))

theorem bytes_countAll (p : Pool) (blocks : List Block) (c : Block) :
    (p.countAll blocks).bytes c = p.bytes c := by
  induction blocks with
  | nil => rfl
  | cons b rest ih => rw [countAll_cons, bytes_recount, ih]

theorem freeCounts_countAll (p : Pool) (blocks : List Block) :
    (p.countAll blocks).freeCounts = p.freeCounts := by
  induction blocks with
  | nil => rfl
  | cons b rest ih => rw [countAll_cons, freeCounts_recount, ih]

theorem CanCount.sublist {listed : List Block} (h : p.CanCount listed)
    (hlisted : blocks.Sublist listed) : p.CanCount blocks := fun c =>
  (Nat.add_le_add_left (hlisted.count_le c) _).trans (h c)

theorem refCount_countAll (hlive : ∀ b ∈ blocks, p.refCount b ≠ 0) (h : p.CanCount blocks)
    (c : Block) :
    ((p.countAll blocks).refCount c).toNat = (p.refCount c).toNat + blocks.count c := by
  induction blocks generalizing c with
  | nil => rfl
  | cons b rest ih =>
      have hrest := ih (fun d hd => hlive d (List.mem_cons_of_mem _ hd))
        (h.sublist (List.sublist_cons_self b rest))
      have hb : (p.countAll rest).refCount b ≠ 0 :=
        ne_zero_of_toNat_le (hlive b List.mem_cons_self) (by rw [hrest b]; exact Nat.le_add_right _ _)
      rw [countAll_cons, refCount_recount hb]
      by_cases hc : c = b
      · subst hc
        have hle := h c
        rw [List.count_cons_self] at hle ⊢
        rw [if_pos rfl, UInt8.toNat_add, hrest c, UInt8.toNat_one]
        omega
      · rw [if_neg hc, hrest c, List.count_cons_of_ne (Ne.symm hc)]

/-- The handles are taken off again in the order in which they were counted. None of them is the
last one of its block. -/
theorem releaseAll_countAll (hlive : ∀ b ∈ blocks, p.refCount b ≠ 0) (h : p.CanCount blocks) :
    (p.countAll blocks).releaseAll blocks = p := by
  induction blocks with
  | nil => rfl
  | cons b rest ih =>
      have hcount := refCount_countAll hlive h b
      have hpos : (p.refCount b).toNat ≠ 0 := fun hzero =>
        hlive b List.mem_cons_self (UInt8.toNat_inj.1 hzero)
      rw [List.count_cons_self] at hcount
      have hmany : 1 < ((p.countAll (b :: rest)).refCount b).toNat := by omega
      have hundo : (p.countAll (b :: rest)).release b = p.countAll rest := by
        rw [release_eq_recount hmany, countAll_cons]
        exact recount_inverse _ b fun n => UInt8.add_sub_cancel n 1
      show ((p.countAll (b :: rest)).release b).releaseAll rest = p
      rw [hundo]
      exact ih (fun d hd => hlive d (List.mem_cons_of_mem _ hd))
        (h.sublist (List.sublist_cons_self b rest))

/-- A handle more can be counted after others, or the counter is full after these. -/
theorem retain_countAll_cases (hlive : ∀ c ∈ blocks, p.refCount c ≠ 0) (hb : p.refCount b ≠ 0)
    (h : p.CanCount blocks) :
    (p.CanCount (blocks ++ [b]) ∧ (p.countAll blocks).retain b = .ok (p.countAll (blocks ++ [b]))) ∨
    (¬p.CanCount (blocks ++ [b]) ∧ (p.countAll blocks).retain b = .error .refCountOverflow) := by
  have hcount := refCount_countAll hlive h b
  have hpos : (p.countAll blocks).refCount b ≠ 0 :=
    ne_zero_of_toNat_le hb (by rw [hcount]; exact Nat.le_add_right _ _)
  by_cases hfull : (p.countAll blocks).refCount b = 255
  · have hrefs : ((p.countAll blocks).bucket b.sizeClass).refs b.slot = 255 := hfull
    have hone : ((p.countAll blocks).bucket b.sizeClass).refs b.slot ≠ 0 := hpos
    refine Or.inr ⟨fun hcan => ?_, ?_⟩
    · have hle := hcan b
      rw [List.count_append, List.count_singleton_self, ← Nat.add_assoc, ← hcount, hfull] at hle
      exact absurd hle (by decide)
    · rw [retain, Bucket.retain, if_neg hone, if_pos hrefs]
      rfl
  · refine Or.inl ⟨fun c => ?_, by rw [retain_eq_recount hpos hfull, countAll_concat]⟩
    rw [List.count_append]
    by_cases hc : c = b
    · subst hc
      have hlt := ((p.countAll blocks).refCount c).toNat_lt
      have hne : ((p.countAll blocks).refCount c).toNat ≠ 255 :=
        fun he => hfull (UInt8.toNat_inj.1 he)
      rw [List.count_singleton_self]
      omega
    · rw [List.count_singleton, if_neg (by simpa using Ne.symm hc), Nat.add_zero]
      exact h c

end Pool

namespace Packet

variable {pool : Pool} {p : Packet}

/-- All chunks are counted, or the first one that cannot be has those before it taken off again. -/
theorem retainChunks_cases {rest : List Chunk} : ∀ done : List Chunk,
    (∀ b ∈ (done ++ rest).map Chunk.block, pool.refCount b ≠ 0) →
    pool.CanCount (done.map Chunk.block) →
    (pool.CanCount ((done ++ rest).map Chunk.block) ∧
      retainChunks (pool.countAll (done.map Chunk.block)) done rest =
        (none, pool.countAll ((done ++ rest).map Chunk.block))) ∨
    (¬pool.CanCount ((done ++ rest).map Chunk.block) ∧
      retainChunks (pool.countAll (done.map Chunk.block)) done rest =
        (some .refCountOverflow, pool)) := by
  induction rest with
  | nil =>
      intro done _ hdone
      rw [List.append_nil]
      exact Or.inl ⟨hdone, rfl⟩
  | cons c rest ih =>
      intro done hlive hdone
      have hnext : done ++ c :: rest = done ++ [c] ++ rest := List.append_cons done c rest
      have hblocks : (done ++ [c]).map Chunk.block = done.map Chunk.block ++ [c.block] :=
        List.map_append
      have hdoneLive : ∀ b ∈ done.map Chunk.block, pool.refCount b ≠ 0 := fun b hb =>
        hlive b (by rw [List.map_append]; exact List.mem_append_left _ hb)
      have hc : pool.refCount c.block ≠ 0 := hlive c.block (by simp)
      rcases Pool.retain_countAll_cases hdoneLive hc hdone with ⟨hcan, hretain⟩ | ⟨hnot, hretain⟩
      · rw [← hblocks] at hcan hretain
        rw [retainChunks, hretain, hnext]
        exact ih (done ++ [c]) (hnext ▸ hlive) hcan
      · rw [← hblocks] at hnot
        refine Or.inr ⟨fun hall => hnot (hall.sublist ?_), ?_⟩
        · rw [hnext]
          exact (List.sublist_append_left (done ++ [c]) rest).map Chunk.block
        · rw [retainChunks, hretain]
          simp only
          rw [Pool.releaseAll_countAll hdoneLive hdone]

/-- A second packet over the same bytes is made exactly if every block can count a handle more for
each chunk on it. It then does, and nothing else changes. Otherwise nothing changes at all. -/
theorem duplicate_all_or_nothing (hlive : ∀ c ∈ p.chunks, pool.refCount c.block ≠ 0) :
    ((p.duplicate pool).1 = .ok p ↔
      ∀ b, (pool.refCount b).toNat + (p.chunks.map Chunk.block).count b ≤ 255) ∧
    (∀ p' q, p.duplicate pool = (.ok p', q) → p' = p ∧
      (∀ b, (q.refCount b).toNat =
        (pool.refCount b).toNat + (p.chunks.map Chunk.block).count b) ∧
      q.freeCounts = pool.freeCounts ∧ ∀ b, q.bytes b = pool.bytes b) ∧
    (∀ fault q, p.duplicate pool = (.error fault, q) → fault = .refCountOverflow ∧ q = pool) := by
  have hnone : pool.CanCount (([] : List Chunk).map Chunk.block) := fun b =>
    Nat.le_of_lt_succ (pool.refCount b).toNat_lt
  have hlive' : ∀ b ∈ p.chunks.map Chunk.block, pool.refCount b ≠ 0 := by
    intro b hb
    obtain ⟨c, hc, rfl⟩ := List.mem_map.1 hb
    exact hlive c hc
  have hcases := retainChunks_cases [] hlive' hnone
  rw [List.nil_append] at hcases
  rcases hcases with ⟨hcan, hretain⟩ | ⟨hcannot, hretain⟩
  · have hall : retainChunks pool [] p.chunks =
        (none, pool.countAll (p.chunks.map Chunk.block)) := hretain
    have hresult : p.duplicate pool = (.ok p, pool.countAll (p.chunks.map Chunk.block)) := by
      rw [duplicate, hall]
    refine ⟨iff_of_true (by rw [hresult]) hcan, fun p' q hq => ?_, fun fault q hq => ?_⟩
    · cases hresult.symm.trans hq
      exact ⟨rfl, Pool.refCount_countAll hlive' hcan, Pool.freeCounts_countAll _ _,
        Pool.bytes_countAll _ _⟩
    · cases hresult.symm.trans hq
  · have hundone : retainChunks pool [] p.chunks = (some .refCountOverflow, pool) := hretain
    have hresult : p.duplicate pool = (.error .refCountOverflow, pool) := by
      rw [duplicate, hundone]
    have hnot : (p.duplicate pool).1 ≠ .ok p := fun hok => by
      rw [hresult] at hok
      cases hok
    refine ⟨iff_of_false hnot hcannot, fun p' q hq => ?_, fun fault q hq => ?_⟩
    · cases hresult.symm.trans hq
    · cases hresult.symm.trans hq
      exact ⟨rfl, rfl⟩

/-- A slot is in use, and `refs` handles are counted for it. -/
def sharingPool (refs : UInt8) : Pool :=
  { classes := #[{
      capacity := 6
      slots := #[{ bytes := Vector.replicate 6 7, refs }, .fresh 6]
      freeHead := Bucket.noSlot
      watermark := 1
      used := 1 }] }

/-- Two chunks are on one block. -/
def sharingPacket : Packet :=
  { chunks := [⟨⟨0, 0⟩, 0, 1⟩, ⟨⟨0, 0⟩, 3, 4⟩], length := 2 }

/-- At two hundred and fifty-four handles the first chunk can be counted and the second one
cannot. -/
theorem duplicate_full_counter :
    (∀ c ∈ sharingPacket.chunks, (sharingPool 254).refCount c.block ≠ 0) ∧
    sharingPacket.duplicate (sharingPool 254) = (.error .refCountOverflow, sharingPool 254) := by
  have hlive : ∀ c ∈ sharingPacket.chunks, (sharingPool 254).refCount c.block ≠ 0 := by decide
  refine ⟨hlive, ?_⟩
  obtain ⟨hiff, hok, herror⟩ := duplicate_all_or_nothing hlive
  cases hresult : sharingPacket.duplicate (sharingPool 254) with
  | mk answer pool =>
    cases answer with
    | ok p' =>
        obtain ⟨rfl, -⟩ := hok p' pool hresult
        have hroom := hiff.1 (congrArg Prod.fst hresult) ⟨0, 0⟩
        exact absurd hroom (by decide)
    | error fault =>
        obtain ⟨rfl, rfl⟩ := herror fault pool hresult
        rfl

end Packet

end DockLink
