import DockLink.Proofs.Memory.FreeList
import Mathlib.Data.List.Dedup

/-!
# Slots in use

A tenancy is a size class together with what its users know: the handles they hold, and the slots
they gave back. Whatever they do, the free list is the list of the slots given back, and the
counters count the handles.
-/

namespace DockLink

/-- A size class and its users. -/
structure Tenancy where
  bucket : Bucket
  /-- The slots of the live handles, one entry for each handle. -/
  handles : List UInt8 := []
  /-- The slots that were given back and not handed out again, the last one first. -/
  returned : List UInt8 := []

/-- What users do with a size class. They retain, release and write through live handles only. -/
inductive SlotUse where
  | acquire
  | retain (slot : UInt8)
  | release (slot : UInt8)
  | store (slot : UInt8) (offset : Nat) (data : Bytes)

namespace Tenancy

open Bucket

def acquire (t : Tenancy) : Tenancy :=
  match t.bucket.acquire with
  | some (s, bucket) =>
    { bucket, handles := s :: t.handles, returned := t.returned.erase s }
  | none => t

/-- A handle that cannot be counted is not made. -/
def retain (t : Tenancy) (s : UInt8) : Tenancy :=
  match t.bucket.retain s with
  | .ok bucket => { t with bucket, handles := s :: t.handles }
  | .error _ => t

def release (t : Tenancy) (s : UInt8) : Tenancy :=
  let handles := t.handles.erase s
  { bucket := t.bucket.release s
    handles
    returned := if s ∈ handles then t.returned else s :: t.returned }

/-- One use. What would need a handle that nobody holds is not done. -/
def step (t : Tenancy) : SlotUse → Tenancy
  | .acquire => t.acquire
  | .retain s => if s ∈ t.handles then t.retain s else t
  | .release s => if s ∈ t.handles then t.release s else t
  | .store s offset data =>
    if s ∈ t.handles then { t with bucket := t.bucket.store s offset data } else t

/-- Any number of uses, first to last. -/
def run (t : Tenancy) (uses : List SlotUse) : Tenancy := uses.foldl step t

/-- A size class that nobody used yet. -/
def fresh (capacity size : Nat) : Tenancy := { bucket := Bucket.fresh capacity size }

/-- The links, counters and users of a size class of `size` slots agree. -/
structure Consistent (size : Nat) (t : Tenancy) : Prop where
  /-- The links lead through the slots given back, the last one first. -/
  chain : t.bucket.Chain t.bucket.freeHead t.returned
  /-- Each slot was given back, or has a handle, or was never handed out. -/
  partition : ((t.returned ++ t.handles.dedup).map UInt8.toNat ++
    List.range' t.bucket.watermark.toNat (size - t.bucket.watermark.toNat)).Perm (List.range size)
  refs : ∀ s, (t.bucket.refs s).toNat = t.handles.count s
  used : t.bucket.used.toNat = t.handles.dedup.length
  /-- A slot is handed out without a handle, the one given back last before an untouched one, and
  the counters go up by one. -/
  acquire : ∀ s b, t.bucket.acquire = some (s, b) →
    s ∉ t.handles ∧ s = t.returned.head?.getD t.bucket.watermark ∧ s.toNat < size ∧
      (b.refs s).toNat = 1 ∧ b.used.toNat = t.bucket.used.toNat + 1 ∧
      b.watermark.toNat = t.bucket.watermark.toNat + if t.returned = [] then 1 else 0
  /-- No slot is handed out only when each of them has a handle. -/
  exhausted : t.bucket.acquire = none ↔ ∀ s : UInt8, s.toNat < size → s ∈ t.handles
  /-- One more handle is counted, or refused because the counter is full. -/
  retain : ∀ s ∈ t.handles,
    (t.bucket.retain s = .error .refCountOverflow ∧ t.handles.count s = 255) ∨
      ∃ b, t.bucket.retain s = .ok b ∧ t.handles.count s < 255 ∧
        (b.refs s).toNat = (t.bucket.refs s).toNat + 1
  /-- One handle less is counted, and one slot in use less if it was the last. -/
  release : ∀ s ∈ t.handles,
    ((t.bucket.release s).refs s).toNat + 1 = (t.bucket.refs s).toNat ∧
      (t.bucket.release s).used.toNat + (if t.handles.count s = 1 then 1 else 0) =
        t.bucket.used.toNat

/-- The size class of a tenancy has `size` slots and is sound for its handles and free slots. -/
structure Sound (size : Nat) (t : Tenancy) : Prop where
  size_eq : t.bucket.slots.size = size
  bucket : t.bucket.Sound (fun s => t.handles.count s) t.returned

/-! ## One use -/

theorem count_cons_eq_update (s : UInt8) (handles : List UInt8) :
    (fun r => (s :: handles).count r) =
      Function.update (fun r => handles.count r) s (handles.count s + 1) := by
  funext r
  rw [Function.update_apply]
  split
  · rename_i hr; subst hr; exact List.count_cons_self
  · rename_i hr; exact List.count_cons_of_ne (Ne.symm hr)

theorem count_erase_eq_update (s : UInt8) (handles : List UInt8) :
    (fun r => (handles.erase s).count r) =
      Function.update (fun r => handles.count r) s (handles.count s - 1) := by
  funext r
  rw [Function.update_apply]
  split
  · rename_i hr; subst hr; exact List.count_erase_self
  · rename_i hr; exact List.count_erase_of_ne hr

namespace Sound

variable {t : Tenancy} {size : Nat}

theorem acquire (h : t.Sound size) : t.acquire.Sound size := by
  cases ha : t.bucket.acquire with
  | none =>
      simp only [Tenancy.acquire, ha]
      exact h
  | some r =>
      obtain ⟨s, b⟩ := r
      obtain ⟨h0, hb⟩ := h.bucket.acquire ha
      have hhead : t.returned.erase s = t.returned.tail := by
        have hbucket := h.bucket
        cases hr : t.returned with
        | nil => rfl
        | cons r rest =>
            rw [hr] at hbucket
            obtain ⟨b', hb', -⟩ := hbucket.acquire_cons
            rw [ha] at hb'
            cases hb'
            simp
      simp only [Tenancy.acquire, ha]
      refine ⟨(size_of_acquire ha).trans h.size_eq, ?_⟩
      simp only [count_cons_eq_update, h0, hhead]
      exact hb

theorem retain (h : t.Sound size) {s : UInt8} (hs : s ∈ t.handles) : (t.retain s).Sound size := by
  cases hr : t.bucket.retain s with
  | error e =>
      simp only [Tenancy.retain, hr]
      exact h
  | ok b =>
      have hpos : 0 < t.handles.count s := List.count_pos_iff.2 hs
      obtain ⟨b', hr', hb⟩ := h.bucket.retain hpos (h.bucket.count_lt_of_retain hr)
      rw [hr] at hr'
      cases hr'
      simp only [Tenancy.retain, hr]
      refine ⟨(size_of_retain hr).trans h.size_eq, ?_⟩
      simp only [count_cons_eq_update]
      exact hb

theorem release (h : t.Sound size) {s : UInt8} (hs : s ∈ t.handles) :
    (t.release s).Sound size := by
  have hpos : 0 < t.handles.count s := List.count_pos_iff.2 hs
  have hmem : s ∈ t.handles.erase s ↔ 1 < t.handles.count s := by
    rw [← List.count_pos_iff, List.count_erase_self]
    omega
  simp only [Tenancy.release]
  refine ⟨(size_release _ _).trans h.size_eq, ?_⟩
  simp only [count_erase_eq_update]
  by_cases h1 : 1 < t.handles.count s
  · rw [if_pos (hmem.2 h1)]
    exact (h.bucket.release_shared h1).1
  · have h1' : t.handles.count s = 1 := by omega
    rw [if_neg (fun hm => h1 (hmem.1 hm)), h1']
    exact (h.bucket.release_last h1').1

theorem step (h : t.Sound size) (use : SlotUse) : (t.step use).Sound size := by
  cases use with
  | acquire => exact h.acquire
  | retain s =>
      simp only [Tenancy.step]
      split
      · rename_i hs; exact h.retain hs
      · exact h
  | release s =>
      simp only [Tenancy.step]
      split
      · rename_i hs; exact h.release hs
      · exact h
  | store s offset data =>
      simp only [Tenancy.step]
      split
      · rename_i hs
        exact ⟨(size_store _ _ _ _).trans h.size_eq,
          h.bucket.store (List.count_pos_iff.2 hs) offset data⟩
      · exact h

/-! ## Any run -/

theorem fresh {capacity size : Nat} (hc : 0 < capacity) (hs : size ≤ maxSlots) :
    (fresh capacity size).Sound size where
  size_eq := by simp [Tenancy.fresh, Bucket.fresh]
  bucket := Bucket.Sound.fresh capacity size hc hs

theorem run (h : t.Sound size) (uses : List SlotUse) : (t.run uses).Sound size := by
  induction uses generalizing t with
  | nil => exact h
  | cons use rest ih => exact ih (h.step use)

/-! ## Consistency -/

theorem mem_live (t : Tenancy) (s : UInt8) :
    s ∈ t.handles.dedup ↔ 0 < t.handles.count s := by
  rw [List.mem_dedup, List.count_pos_iff]

theorem perm_touched (h : t.Sound size) :
    ((t.returned ++ t.handles.dedup).map UInt8.toNat).Perm
      (List.range t.bucket.watermark.toNat) :=
  h.bucket.perm_touched (List.nodup_dedup _) (mem_live t)

theorem used_eq_live (h : t.Sound size) : t.bucket.used.toNat = t.handles.dedup.length :=
  h.bucket.used_eq_length (List.nodup_dedup _) (mem_live t)

theorem partition (h : t.Sound size) : ((t.returned ++ t.handles.dedup).map UInt8.toNat ++
    List.range' t.bucket.watermark.toNat (size - t.bucket.watermark.toNat)).Perm
      (List.range size) := by
  have hle := h.bucket.watermark_le
  rw [h.size_eq] at hle
  have hrange : List.range size = List.range t.bucket.watermark.toNat ++
      List.range' t.bucket.watermark.toNat (size - t.bucket.watermark.toNat) := by
    have happ := List.range'_append_1 (s := 0) (m := t.bucket.watermark.toNat)
      (n := size - t.bucket.watermark.toNat)
    rw [Nat.zero_add] at happ
    rw [List.range_eq_range', List.range_eq_range', happ]
    congr 1
    omega
  rw [hrange]
  exact h.perm_touched.append_right _

theorem next_issued (h : t.Sound size) {s : UInt8} {b : Bucket}
    (ha : t.bucket.acquire = some (s, b)) :
    s = t.returned.head?.getD t.bucket.watermark ∧
      b.watermark.toNat = t.bucket.watermark.toNat + if t.returned = [] then 1 else 0 := by
  have hbucket := h.bucket
  cases hr : t.returned with
  | nil =>
      rw [hr] at hbucket
      have hlt : t.bucket.watermark.toNat < t.bucket.slots.size := by
        by_contra hlt
        rw [hbucket.acquire_eq_none_iff.2 ⟨rfl, by have := hbucket.watermark_le; omega⟩] at ha
        cases ha
      obtain ⟨b', ha', -, hw⟩ := hbucket.acquire_nil hlt
      rw [ha] at ha'
      cases ha'
      exact ⟨rfl, by simpa using hw⟩
  | cons r rest =>
      rw [hr] at hbucket
      obtain ⟨b', ha', -, hw⟩ := hbucket.acquire_cons
      rw [ha] at ha'
      cases ha'
      exact ⟨rfl, by simp [hw]⟩

theorem exhausted_iff (h : t.Sound size) :
    t.bucket.acquire = none ↔ ∀ s : UInt8, s.toNat < size → s ∈ t.handles := by
  have htouched := h.bucket.touched
  simp only [List.count_pos_iff] at htouched
  rw [h.bucket.acquire_eq_none_iff, h.size_eq]
  constructor
  · rintro ⟨hr, hw⟩ s hs
    rw [← hw, htouched, hr] at hs
    simpa using hs
  · intro hall
    have hle := h.bucket.watermark_le
    have hmax := h.bucket.size_le
    rw [h.size_eq] at hle hmax
    simp only [maxSlots, noSlot, UInt8.reduceToNat] at hmax
    refine ⟨List.eq_nil_iff_forall_not_mem.2 ?_, ?_⟩
    · intro s hs
      have hlt := (htouched s).2 (Or.inl hs)
      exact h.bucket.not_free_of_live (List.count_pos_iff.2 (hall s (by omega))) hs
    · by_contra hne
      -- The slot at the watermark would be live, and so below the watermark.
      have hlt := (htouched t.bucket.watermark).2 (Or.inr (hall _ (by omega)))
      exact Nat.lt_irrefl _ hlt

theorem consistent (h : t.Sound size) : t.Consistent size where
  chain := h.bucket.chain
  partition := h.partition
  refs := h.bucket.refs_eq
  used := h.used_eq_live
  acquire := by
    intro s b ha
    obtain ⟨h0, hb⟩ := h.bucket.acquire ha
    obtain ⟨hs, hw⟩ := h.next_issued ha
    have hsize := hb.lt_size_of_live (s := s) (by simp)
    rw [size_of_acquire ha, h.size_eq] at hsize
    refine ⟨List.count_eq_zero.1 h0, hs, hsize, by simpa using hb.refs_eq s, ?_, hw⟩
    have hused := h.bucket.used_eq
    have hused' := hb.used_eq
    rw [hw] at hused'
    cases hr : t.returned with
    | nil => simp [hr] at hused hused' ⊢; omega
    | cons r rest => simp [hr] at hused hused' ⊢; omega
  exhausted := h.exhausted_iff
  retain := by
    intro s hs
    by_cases hfull : t.handles.count s = 255
    · exact Or.inl ⟨h.bucket.retain_eq_error_iff.2 hfull, hfull⟩
    · right
      have hmax := (t.bucket.refs s).toNat_lt
      rw [h.bucket.refs_eq s] at hmax
      have hlt : t.handles.count s < 255 := by omega
      obtain ⟨b, hr, hb⟩ := h.bucket.retain (List.count_pos_iff.2 hs) hlt
      refine ⟨b, hr, hlt, ?_⟩
      rw [hb.refs_eq, h.bucket.refs_eq, Function.update_self]
  release := by
    intro s hs
    have hpos : 0 < t.handles.count s := List.count_pos_iff.2 hs
    have hused := h.bucket.used_eq
    rw [← watermark_release t.bucket s] at hused
    by_cases h1 : t.handles.count s = 1
    · have hb := (h.bucket.release_last h1).1
      have hused' := hb.used_eq
      refine ⟨by rw [hb.refs_eq, h.bucket.refs_eq]; simp [h1], ?_⟩
      simp only [List.length_cons] at hused'
      simp only [h1, ↓reduceIte]
      omega
    · have hmany : 1 < t.handles.count s := by omega
      have hb := (h.bucket.release_shared hmany).1
      have hused' := hb.used_eq
      refine ⟨by rw [hb.refs_eq, h.bucket.refs_eq, Function.update_self]; omega, ?_⟩
      simp only [h1, ↓reduceIte]
      omega

end Sound

/-- Whatever the users of a size class do, its free list holds the slots they gave back, its
counters count their handles, and none of its operations goes wrong. -/
theorem run_fresh_consistent {capacity size : Nat} (hc : 1 ≤ capacity) (hs : size ≤ 255)
    (uses : List SlotUse) : ((fresh capacity size).run uses).Consistent size := by
  have hfresh : (fresh capacity size).Sound size := Sound.fresh hc hs
  exact (hfresh.run uses).consistent

/-- Slots given back out of order, one of them shared, and one written before it is given back. -/
def reuse : List SlotUse :=
  [.acquire, .acquire, .retain 1, .release 0, .store 1 0 [7, 7], .release 1, .release 1, .acquire,
    .release 2]

theorem consistent_after_reuse :
    1 ≤ 2 ∧ 3 ≤ 255 ∧ ((fresh 2 3).run reuse).Consistent 3 ∧
      ((fresh 2 3).run reuse).returned = [0] ∧ ((fresh 2 3).run reuse).handles = [1] :=
  ⟨by decide, by decide, run_fresh_consistent (by decide) (by decide) reuse, by decide, by decide⟩

end Tenancy

end DockLink
