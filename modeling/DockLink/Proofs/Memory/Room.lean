import DockLink.Proofs.Memory.Ownership

/-!
# What a pool has left

A request is served exactly if some class that is large enough has a free slot, and every slot is
free if nobody holds a block. That no request fails is said of the pool at the moments of the
requests.
-/

namespace DockLink

namespace Bucket

variable {b : Bucket} {count : UInt8 → Nat} {free : List UInt8}

theorem Sound.acquire_eq_none_iff_freeCount (h : b.Sound count free) :
    b.acquire = none ↔ b.freeCount = 0 := by
  have hused := h.used_eq
  have hle := h.watermark_le
  rw [h.acquire_eq_none_iff, freeCount, ← List.length_eq_zero_iff]
  omega

end Bucket

namespace Pool

variable {p : Pool} {handles : Multiset Block}

/-- Some class has a free slot of at least `size` bytes. -/
def HasRoom (p : Pool) (size : Nat) : Prop :=
  ∃ bucket ∈ p.classes, size ≤ bucket.capacity ∧ 0 < bucket.freeCount

instance (p : Pool) (size : Nat) : Decidable (p.HasRoom size) :=
  inferInstanceAs (Decidable (∃ _ ∈ _, _))

theorem hasRoom_iff (p : Pool) (size : Nat) : p.HasRoom size ↔
    ∃ i < p.classes.size, size ≤ (p.bucket i).capacity ∧ 0 < (p.bucket i).freeCount := by
  constructor
  · rintro ⟨bucket, hmem, hroom⟩
    obtain ⟨i, hi, rfl⟩ := Array.mem_iff_getElem.1 hmem
    exact ⟨i, hi, (bucket_eq_getElem hi).symm ▸ hroom⟩
  · rintro ⟨i, hi, hroom⟩
    exact ⟨p.bucket i, (bucket_eq_getElem hi).symm ▸ Array.getElem_mem hi, hroom⟩

theorem Sound.allocateIn_isSome_iff (h : p.Sound handles) (size : Nat) {i : Nat}
    (hi : i < p.classes.size) : (p.allocateIn size i).isSome ↔
      size ≤ (p.bucket i).capacity ∧ 0 < (p.bucket i).freeCount := by
  obtain ⟨free, hfree⟩ := h.bucket i hi
  unfold Pool.allocateIn
  split
  · rename_i hsize
    rw [Option.isSome_map, Option.isSome_iff_ne_none, ne_eq, hfree.acquire_eq_none_iff_freeCount,
      Nat.pos_iff_ne_zero]
    exact (and_iff_right hsize).symm
  · rename_i hsize
    exact iff_of_false nofun fun h => hsize h.1

/-- A pool serves the requests that it has room for. -/
theorem Sound.allocate_isOk_iff (h : p.Sound handles) (size : Nat) :
    (∃ b q, p.allocate size = .ok (b, q)) ↔ p.HasRoom size := by
  rw [hasRoom_iff]
  constructor
  · rintro ⟨b, q, hallocate⟩
    unfold Pool.allocate at hallocate
    split at hallocate
    · split at hallocate
      · rename_i found
        obtain ⟨i, hi, hin⟩ := List.exists_of_findSome?_eq_some found
        have hi' := List.mem_range.1 hi
        exact ⟨i, hi', (h.allocateIn_isSome_iff size hi').1 (by rw [hin]; rfl)⟩
      · cases hallocate
    · cases hallocate
  · rintro ⟨i, hi, hroom⟩
    have hlarge : p.classes.any (fun b => size ≤ b.capacity) = true := by
      refine Array.any_eq_true.2 ⟨i, hi, decide_eq_true ?_⟩
      exact bucket_eq_getElem hi ▸ hroom.1
    have hfound : (List.range p.classes.size).findSome? (p.allocateIn size) ≠ none := by
      intro hnone
      have hin := List.findSome?_eq_none_iff.1 hnone i (List.mem_range.2 hi)
      have hsome := (h.allocateIn_isSome_iff size hi).2 hroom
      rw [hin] at hsome
      cases hsome
    obtain ⟨⟨b, q⟩, hsome⟩ := Option.ne_none_iff_exists'.1 hfound
    refine ⟨b, q, ?_⟩
    rw [Pool.allocate, if_pos hlarge, hsome]

theorem Sound.not_hasRoom_of_error (h : p.Sound handles) {size : Nat} {e : AllocError}
    (ha : p.allocate size = .error e) : ¬p.HasRoom size := by
  intro hroom
  obtain ⟨b, q, hok⟩ := (h.allocate_isOk_iff size).2 hroom
  cases ha.symm.trans hok

/-- A pool of which nobody holds a block has all its slots free. -/
theorem Sound.freeCount_of_unheld (h : p.Sound 0) {bucket : Bucket} (hclass : bucket ∈ p.classes) :
    bucket.freeCount = bucket.slots.size := by
  obtain ⟨i, hi, rfl⟩ := Array.mem_iff_getElem.1 hclass
  obtain ⟨free, hfree⟩ := h.bucket i hi
  rw [← bucket_eq_getElem hi]
  exact hfree.freeCount_of_unused fun s => Multiset.count_zero _

end Pool

/-- A block that is asked for, with the pool at that moment. -/
structure Demand where
  pool : Pool
  size : Nat

namespace Demand

/-- The pool has room for the block. -/
def Met (d : Demand) : Prop := d.pool.HasRoom d.size

instance (d : Demand) : Decidable d.Met := inferInstanceAs (Decidable (d.pool.HasRoom d.size))

variable {P Q : Prop} {demands : List Demand} {demand? : Option Demand}

theorem forall_mem_toList : (∀ d ∈ demand?.toList, d.Met) ↔ ∀ d ∈ demand?, d.Met := by
  simp only [Option.mem_toList, Option.mem_def]

theorem iff_of_nil (hnone : demands = []) (h : P ↔ Q) : P ↔ Q ∧ ∀ d ∈ demands, d.Met := by
  rw [hnone, and_iff_left nofun]
  exact h

theorem iff_of_none (hnone : demand? = none) (h : P ↔ Q) : P ↔ Q ∧ ∀ d ∈ demand?, d.Met := by
  rw [← forall_mem_toList]
  exact iff_of_nil (congrArg Option.toList hnone) h

end Demand

end DockLink
