import DockLink.Proofs.Memory.Twins

/-!
# Pools as they were

The free slots of a class are those that nobody has a handle to. So a pool in which a block was
taken and given back counts what it counted before, although its list of free slots may have
another order.
-/

namespace DockLink

namespace Bucket

variable {b b' : Bucket} {count : UInt8 → Nat} {free free' : List UInt8}

/-- Classes of the same size with the same handles have as many free slots. -/
theorem Sound.freeCount_eq (h : b.Sound count free) (h' : b'.Sound count free')
    (hsize : b'.slots.size = b.slots.size) : b'.freeCount = b.freeCount := by
  let live := ((List.range 256).map UInt8.ofNat).filter fun s => 0 < count s
  have hnodup : live.Nodup := by
    refine List.Nodup.filter _ (List.Nodup.map_on ?_ List.nodup_range)
    intro i hi j hj he
    have hval := congrArg UInt8.toNat he
    rwa [UInt8.toNat_ofNat_of_lt' (List.mem_range.1 hi),
      UInt8.toNat_ofNat_of_lt' (List.mem_range.1 hj)] at hval
  have hlive : ∀ s, s ∈ live ↔ 0 < count s := by
    intro s
    rw [List.mem_filter, decide_eq_true_iff]
    refine and_iff_right (List.mem_map.2 ⟨s.toNat, List.mem_range.2 s.toNat_lt, ?_⟩)
    exact UInt8.ofNat_toNat
  rw [freeCount, freeCount, hsize, h.used_eq_length hnodup hlive, h'.used_eq_length hnodup hlive]

end Bucket

namespace Pool

variable {p q r : Pool} {b : Block} {handles : Multiset Block}

/-- The number of slots of each class. -/
def slotCounts (p : Pool) : List Nat := p.classes.toList.map fun bucket => bucket.slots.size

theorem getD_slotCounts (p : Pool) {i : Nat} (hi : i < p.classes.size) :
    p.slotCounts.getD i 0 = (p.bucket i).slots.size := by
  rw [slotCounts, bucket_eq_getElem hi, List.getD_eq_getElem?_getD, List.getElem?_map,
    Array.getElem?_toList, Array.getElem?_eq_getElem hi]
  rfl

/-! ## What an operation leaves alone

What an operation on a size class leaves alone is, of the whole pool, the same for each class. -/

section Unchanged

variable {α : Type} {g : Bucket → α}

theorem map_classes_set {i : Nat} {bucket : Bucket} (h : g bucket = g (p.bucket i)) :
    (p.classes.setIfInBounds i bucket).toList.map g = p.classes.toList.map g := by
  refine List.ext_getElem? fun j => ?_
  simp only [List.getElem?_map, Array.getElem?_toList, Array.getElem?_setIfInBounds]
  by_cases hij : i = j
  · subst hij
    by_cases hi : i < p.classes.size
    · rw [if_pos rfl, if_pos hi, Array.getElem?_eq_getElem hi, Option.map_some, Option.map_some, h,
        bucket_eq_getElem hi]
    · rw [if_pos rfl, if_neg hi, Array.getElem?_eq_none (Nat.not_lt.1 hi)]
  · rw [if_neg hij]

theorem map_classes_onBucket (p : Pool) (i : Nat) {f : Bucket → Bucket}
    (h : ∀ bucket, g (f bucket) = g bucket) :
    (p.onBucket i f).classes.toList.map g = p.classes.toList.map g := by
  refine List.ext_getElem? fun j => ?_
  simp only [onBucket, List.getElem?_map, Array.getElem?_toList, Array.getElem?_modify]
  split
  · rw [Option.map_map]
    congr 1
    funext bucket
    exact h bucket
  · rfl

theorem map_classes_of_allocate {size : Nat}
    (h : ∀ {bucket bucket' s}, bucket.acquire = some (s, bucket') → g bucket' = g bucket)
    (ha : p.allocate size = .ok (b, q)) :
    q.classes.toList.map g = p.classes.toList.map g := by
  unfold allocate at ha
  split at ha
  · split at ha
    · rename_i found
      cases ha
      obtain ⟨i, -, hin⟩ := List.exists_of_findSome?_eq_some found
      unfold allocateIn at hin
      split at hin
      · obtain ⟨⟨s, bucket⟩, hacquire, he⟩ := Option.map_eq_some_iff.1 hin
        cases he
        exact map_classes_set (h hacquire)
      · cases hin
    · cases ha
  · cases ha

theorem map_classes_of_retain
    (h : ∀ {bucket bucket' s}, bucket.retain s = .ok bucket' → g bucket' = g bucket)
    (hr : p.retain b = .ok q) : q.classes.toList.map g = p.classes.toList.map g := by
  obtain ⟨bucket, hretain, rfl⟩ := exists_of_map_eq_ok hr
  exact map_classes_set (h hretain)

theorem map_classes_of_write {offset : Nat} {data : Bytes}
    (h : ∀ bucket s, g (bucket.store s offset data) = g bucket)
    (hw : p.write b offset data = .ok q) : q.classes.toList.map g = p.classes.toList.map g := by
  unfold write at hw
  split at hw
  · cases hw
  · split at hw
    · cases hw
      exact map_classes_onBucket _ _ fun bucket => h bucket _
    · cases hw

end Unchanged

theorem slotCounts_of_allocate {size : Nat} (ha : p.allocate size = .ok (b, q)) :
    q.slotCounts = p.slotCounts := map_classes_of_allocate Bucket.size_of_acquire ha

theorem slotCounts_of_write {offset : Nat} {data : Bytes} (hw : p.write b offset data = .ok q) :
    q.slotCounts = p.slotCounts :=
  map_classes_of_write (fun bucket s => bucket.size_store s offset data) hw

theorem slotCounts_release (p : Pool) (b : Block) : (p.release b).slotCounts = p.slotCounts :=
  map_classes_onBucket _ _ fun bucket => Bucket.size_release bucket _

/-! ## Noted faults -/

theorem fault?_eq_findSome? (p : Pool) :
    p.fault? = (p.classes.toList.map Bucket.fault?).findSome? id := by
  rw [List.findSome?_map, fault?, Function.id_comp]

theorem fault?_of_allocate {size : Nat} (ha : p.allocate size = .ok (b, q)) :
    q.fault? = p.fault? := by
  rw [fault?_eq_findSome?, fault?_eq_findSome?, map_classes_of_allocate Bucket.fault?_of_acquire ha]

theorem fault?_of_retain (hr : p.retain b = .ok q) : q.fault? = p.fault? := by
  rw [fault?_eq_findSome?, fault?_eq_findSome?, map_classes_of_retain Bucket.fault?_of_retain hr]

theorem fault?_of_write {offset : Nat} {data : Bytes} (hw : p.write b offset data = .ok q) :
    q.fault? = p.fault? := by
  rw [fault?_eq_findSome?, fault?_eq_findSome?, map_classes_of_write (fun _ _ => rfl) hw]

/-- A pool without a class has no handle to it, and nothing to give back. -/
theorem release_of_size_le (h : p.classes.size ≤ b.sizeClass) : p.release b = p := by
  obtain ⟨classes⟩ := p
  simp only [release, onBucket, Pool.mk.injEq]
  refine Array.ext_getElem? fun i => ?_
  rw [Array.getElem?_modify]
  split
  · rename_i hi
    rw [← hi, Array.getElem?_eq_none h]
    rfl
  · rfl

/-- A fault stays noted, and a handle that was not there is noted as a fault. -/
theorem of_fault?_release (h : (p.release b).fault? = none) :
    p.fault? = none ∧ (p.refCount b ≠ 0 ∨ p.release b = p) := by
  have hall := (p.release b).fault?_eq_none_iff.1 h
  constructor
  · refine p.fault?_eq_none_iff.2 fun i => ?_
    have hbucket := hall i
    rw [release, bucket_onBucket] at hbucket
    split at hbucket
    · exact ((Bucket.fault?_release_eq_none_iff _ _).1 hbucket).2
    · exact hbucket
  · by_cases hclass : b.sizeClass < p.classes.size
    · have hbucket := hall b.sizeClass
      rw [release, bucket_onBucket, if_pos ⟨rfl, hclass⟩] at hbucket
      exact Or.inl ((Bucket.fault?_release_eq_none_iff _ _).1 hbucket).1
    · exact Or.inr (release_of_size_le (Nat.not_lt.1 hclass))

/-! ## The same pool again -/

/-- A pool that has the slots and the handles of another one, and shows the same bytes through
them. -/
structure Restored (p q : Pool) (handles : Multiset Block) : Prop where
  sound : q.Sound handles
  keeps : p.Keeps q handles
  slotCounts_eq : q.slotCounts = p.slotCounts

/-- Each slot has as many handles, and each class as many free slots. -/
structure SameCounts (p q : Pool) : Prop where
  refCount_eq : ∀ b, q.refCount b = p.refCount b
  freeCounts_eq : q.freeCounts = p.freeCounts

namespace Restored

theorem refl (h : p.Sound handles) : p.Restored p handles := ⟨h, Keeps.refl _ _, rfl⟩

theorem refCount_eq (h : p.Restored q handles) (hp : p.Sound handles) (b : Block) :
    q.refCount b = p.refCount b :=
  UInt8.toNat_inj.1 ((h.sound.refCount_eq b).trans (hp.refCount_eq b).symm)

theorem freeCounts_eq (h : p.Restored q handles) (hp : p.Sound handles) :
    q.freeCounts = p.freeCounts := by
  rw [freeCounts, freeCounts]
  refine List.ext_getElem (by simpa using h.keeps.size_eq) fun i hi hi' => ?_
  have hbound : i < q.classes.size := by simpa using hi
  have hbound' : i < p.classes.size := by simpa using hi'
  obtain ⟨free, hfree⟩ := hp.bucket i hbound'
  obtain ⟨free', hfree'⟩ := h.sound.bucket i hbound
  have hsize : (q.bucket i).slots.size = (p.bucket i).slots.size := by
    rw [← getD_slotCounts q hbound, h.slotCounts_eq, getD_slotCounts p hbound']
  have hbucket := hfree.freeCount_eq hfree' hsize
  rw [bucket_eq_getElem hbound, bucket_eq_getElem hbound'] at hbucket
  simpa using hbucket

theorem sameCounts (h : p.Restored q handles) (hp : p.Sound handles) : p.SameCounts q :=
  ⟨h.refCount_eq hp, h.freeCounts_eq hp⟩

/-- A block that was taken, and that nobody else got a handle to, is given back. -/
theorem of_release (hq : q.Sound (b ::ₘ handles)) (hkeeps : p.Keeps q handles)
    (hslots : q.slotCounts = p.slotCounts) : p.Restored (q.release b) handles := by
  obtain ⟨hsound, hkeeps'⟩ := hq.release
  exact ⟨hsound, hkeeps.trans hkeeps', (slotCounts_release q b).trans hslots⟩

end Restored

end Pool

end DockLink
