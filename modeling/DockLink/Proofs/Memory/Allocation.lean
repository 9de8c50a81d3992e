import DockLink.Proofs.Memory.Isolation
import DockLink.Proofs.Memory.Twins

/-!
# Which class serves a request

The size classes of a pool go up in capacity, whatever is asked of it. A request is refused as too
large for the last of them, or because those that are large enough have no free slot. Else the
smallest one of these serves it, with a slot that nobody has a handle to.
-/

namespace DockLink

/-- A search through the first numbers ends at the first of them that has something. -/
theorem findSome?_range {α : Type} {f : Nat → Option α} {x : α} {n : Nat}
    (h : (List.range n).findSome? f = some x) :
    ∃ i < n, f i = some x ∧ ∀ j < i, f j = none := by
  induction n with
  | zero => cases h
  | succ n ih =>
      rw [List.range_succ, List.findSome?_append] at h
      cases hbefore : (List.range n).findSome? f with
      | some y =>
          rw [hbefore, Option.some_or] at h
          cases h
          obtain ⟨i, hi, hfound⟩ := ih hbefore
          exact ⟨i, Nat.lt_succ_of_lt hi, hfound⟩
      | none =>
          rw [hbefore, Option.none_or, List.findSome?_singleton] at h
          have hnone := List.findSome?_eq_none_iff.1 hbefore
          exact ⟨n, Nat.lt_succ_self n, h, fun j hj => hnone j (List.mem_range.2 hj)⟩

namespace Pool

variable {p q : Pool} {b : Block} {handles others : Multiset Block} {size : Nat}

/-! ## Capacities -/

/-- There is a size class, and each one has more capacity than those before it. -/
structure Graded (p : Pool) : Prop where
  size_pos : 0 < p.classes.size
  ascending : ∀ {i j}, i < j → j < p.classes.size → (p.bucket i).capacity < (p.bucket j).capacity

/-- The capacities of a pool are those that it was asked for. -/
theorem capacity_bucket_of_ofClasses {classes : List (Nat × Nat)} (hp : ofClasses classes = .ok p)
    (i : Nat) : (p.bucket i).capacity = (classes.map Prod.fst).getD i 0 := by
  unfold ofClasses at hp
  split at hp
  · cases hp
  · split at hp
    · cases hp
      rw [bucket, Array.getD_eq_getD_getElem?, List.getElem?_toArray, List.getElem?_map,
        List.getD_eq_getElem?_getD, List.getElem?_map]
      cases classes[i]? with
      | none => rfl
      | some c => rfl
    · cases hp

theorem graded_of_ofClasses {classes : List (Nat × Nat)} (hp : ofClasses classes = .ok p) :
    p.Graded := by
  have hcapacity := capacity_bucket_of_ofClasses hp
  unfold ofClasses at hp
  split at hp
  · cases hp
  · rename_i hsome
    split at hp
    · rename_i hpairs
      cases hp
      constructor
      · rw [List.isEmpty_iff] at hsome
        simpa using List.length_pos_iff.2 hsome
      · intro i j hij hj
        have hj' : j < (classes.map Prod.fst).length := by simpa using hj
        rw [hcapacity, hcapacity, ← List.getElem_eq_getD (h := hij.trans hj'),
          ← List.getElem_eq_getD (h := hj')]
        exact List.pairwise_iff_getElem.1 hpairs i j (hij.trans hj') hj' hij
    · cases hp

/-- The classes that there are have slots with bytes. -/
theorem Sound.lt_size_iff (h : p.Sound handles) (i : Nat) :
    i < p.classes.size ↔ 0 < (p.bucket i).capacity := by
  constructor
  · intro hi
    obtain ⟨free, hfree⟩ := h.bucket i hi
    exact hfree.capacity_pos
  · intro hpos
    by_contra hi
    rw [Pool.bucket, Array.getD_eq_getD_getElem?, Array.getElem?_eq_none (Nat.not_lt.1 hi)] at hpos
    exact Nat.lt_irrefl 0 hpos

theorem Graded.of_capacity_eq (h : p.Graded) (hp : p.Sound handles) (hq : q.Sound others)
    (hcap : ∀ b, q.capacity b = p.capacity b) : q.Graded := by
  have hbucket : ∀ i, (q.bucket i).capacity = (p.bucket i).capacity := fun i => hcap ⟨i, 0⟩
  have hsize : q.classes.size = p.classes.size := eq_of_forall_lt_iff fun i => by
    rw [hp.lt_size_iff, hq.lt_size_iff, hbucket]
  constructor
  · rw [hsize]
    exact h.size_pos
  · intro i j hij hj
    rw [hbucket, hbucket]
    exact h.ascending hij (hsize ▸ hj)

theorem Graded.capacity_le (h : p.Graded) {i : Nat} (hi : i < p.classes.size) :
    (p.bucket i).capacity ≤ p.maxBlockSize := by
  rw [maxBlockSize_eq]
  rcases (Nat.le_sub_one_of_lt hi).eq_or_lt with rfl | hlt
  · exact Nat.le_refl _
  · exact (h.ascending hlt (Nat.sub_one_lt_of_lt hi)).le

/-! ## Refused requests -/

theorem Graded.any_capacity_iff (h : p.Graded) :
    (p.classes.any fun b => size ≤ b.capacity) = true ↔ size ≤ p.maxBlockSize := by
  rw [Array.any_eq_true]
  constructor
  · rintro ⟨i, hi, hsize⟩
    rw [← bucket_eq_getElem hi] at hsize
    exact (of_decide_eq_true hsize).trans (h.capacity_le hi)
  · intro hsize
    have hlast : p.classes.size - 1 < p.classes.size := Nat.sub_one_lt_of_lt h.size_pos
    refine ⟨_, hlast, decide_eq_true ?_⟩
    rwa [← bucket_eq_getElem hlast, ← maxBlockSize_eq]

theorem Graded.allocate_eq_tooLarge_iff (h : p.Graded) :
    p.allocate size = .error .tooLarge ↔ p.maxBlockSize < size := by
  rw [← Nat.not_le, ← h.any_capacity_iff]
  unfold allocate
  split
  · rename_i hlarge
    refine iff_of_false ?_ (not_not_intro hlarge)
    split
    · nofun
    · nofun
  · rename_i hsmall
    exact iff_of_true rfl hsmall

theorem not_hasRoom_iff : ¬p.HasRoom size ↔
    ∀ bucket ∈ p.classes, size ≤ bucket.capacity → bucket.freeCount = 0 := by
  simp only [HasRoom, not_exists, not_and, Nat.not_lt, Nat.le_zero]

theorem Sound.allocate_eq_outOfMemory_iff (hs : p.Sound handles) (hg : p.Graded) :
    p.allocate size = .error .outOfMemory ↔ size ≤ p.maxBlockSize ∧ ¬p.HasRoom size := by
  rw [← Nat.not_lt, ← hg.allocate_eq_tooLarge_iff, ← hs.allocate_isOk_iff]
  cases p.allocate size with
  | ok granted => exact iff_of_false nofun fun h => h.2 ⟨granted.1, granted.2, rfl⟩
  | error e =>
      cases e with
      | outOfMemory => exact iff_of_true rfl ⟨nofun, nofun⟩
      | tooLarge => exact iff_of_false nofun fun h => h.1 rfl

/-! ## Granted requests -/

/-- The pool `q` comes from `p` when a request for `size` bytes gets the block `b`, and the handles
so far were `handles`. -/
structure Grants (p q : Pool) (handles : Multiset Block) (size : Nat) (b : Block) : Prop where
  class_lt : b.sizeClass < p.classes.size
  size_le : size ≤ (p.bucket b.sizeClass).capacity
  free : 0 < (p.bucket b.sizeClass).freeCount
  /-- No other class that could serve the request is as small. -/
  smallest : ∀ i < p.classes.size, i ≠ b.sizeClass → size ≤ (p.bucket i).capacity →
    0 < (p.bucket i).freeCount → (p.bucket b.sizeClass).capacity < (p.bucket i).capacity
  unheld : b ∉ handles
  refCount : q.refCount b = 1
  refCount_of_ne : ∀ c ≠ b, q.refCount c = p.refCount c
  /-- The class has one free slot less, and every other class as many as before. -/
  freeCount : ∀ i,
    (q.bucket i).freeCount + (if i = b.sizeClass then 1 else 0) = (p.bucket i).freeCount

theorem Sound.allocate_grants (hs : p.Sound handles) (hg : p.Graded)
    (ha : p.allocate size = .ok (b, q)) : p.Grants q handles size b := by
  obtain ⟨hnot, hq, -, -⟩ := hs.allocate ha
  unfold Pool.allocate at ha
  split at ha
  · split at ha
    · rename_i found
      cases ha
      obtain ⟨i, hi, hin, hbefore⟩ := findSome?_range found
      obtain ⟨rfl, hfree⟩ := hs.freeCount_of_allocateIn hi hin
      obtain ⟨hsize, hroom⟩ := (hs.allocateIn_isSome_iff size hi).1 (by rw [hin]; rfl)
      refine ⟨hi, hsize, hroom, ?_, hnot, ?_, ?_, hfree⟩
      · intro j hj hne hsize' hroom'
        -- An earlier class with room would have been found first.
        have hle : ¬j < b.sizeClass := fun hlt => by
          have hsome := (hs.allocateIn_isSome_iff size hj).2 ⟨hsize', hroom'⟩
          rw [hbefore j hlt] at hsome
          cases hsome
        exact hg.ascending (by omega) hj
      · refine UInt8.toNat_inj.1 ((hq.refCount_eq b).trans ?_)
        rw [Multiset.count_cons_self, Multiset.count_eq_zero_of_notMem hnot]
        rfl
      · intro c hc
        refine UInt8.toNat_inj.1 ?_
        rw [hq.refCount_eq, hs.refCount_eq, Multiset.count_cons_of_ne hc]
    · cases ha
  · cases ha

end Pool

namespace Holdings

variable {h : Holdings}

/-! ## Any run -/

theorem Sound.capacity_handle (hs : h.Sound 0) (request : MemoryRequest) (b : Block) :
    (h.handle request).pool.capacity b = h.pool.capacity b := by
  by_cases hr : ∃ id offset data, request = .write id offset data
  · obtain ⟨id, offset, data, rfl⟩ := hr
    rw [Holdings.handle]
    cases hget : h.block? id with
    | error e => rw [Holdings.write, hget]; rfl
    | ok c =>
        rcases hs.write_cases (get_of_block? hget) offset data with
          ⟨-, hw⟩ | ⟨-, -, hw⟩ | ⟨-, -, q, hw, -, hcap, -, -⟩
        · rw [hw]; rfl
        · rw [hw]; rfl
        · rw [hw]; exact hcap b
  · push Not at hr
    exact (hs.serves hr).shows.capacity_eq b

theorem Sound.graded_run (requests : List MemoryRequest) {h : Holdings} (hs : h.Sound 0)
    (hg : h.pool.Graded) : (h.run requests).pool.Graded := by
  induction requests generalizing h with
  | nil => exact hg
  | cons request rest ih =>
      have hs' := hs.handle request
      exact ih hs' (hg.of_capacity_eq hs.pool_handles hs'.pool_handles (hs.capacity_handle request))

/-- What comes of a request for `size` bytes. -/
structure Allocates (h : Holdings) (size : Nat) : Prop where
  tooLarge : h.pool.allocate size = .error .tooLarge ↔ h.pool.maxBlockSize < size
  outOfMemory : h.pool.allocate size = .error .outOfMemory ↔ size ≤ h.pool.maxBlockSize ∧
    ∀ bucket ∈ h.pool.classes, size ≤ bucket.capacity → bucket.freeCount = 0
  granted : (∃ bucket ∈ h.pool.classes, size ≤ bucket.capacity ∧ 0 < bucket.freeCount) →
    ∃ b q, h.pool.allocate size = .ok (b, q) ∧ h.pool.Grants q h.handles size b ∧
      (h.allocate size).1 = .ok (h.table.size, b) ∧ (h.allocate size).2.pool = q
  /-- A request that is refused changes nothing. -/
  refused : ∀ {e}, h.pool.allocate size = .error e → (h.allocate size).1 = .error (.alloc e) ∧
    (h.allocate size).2.pool = h.pool ∧ ∀ id, (h.allocate size).2.get id = h.get id

theorem get_recordNothing (h : Holdings) (id : Nat) : h.recordNothing.get id = h.get id := by
  rw [recordNothing, get_record]
  split
  · rename_i hid
    rw [get_of_size_le (Nat.le_of_eq hid.symm)]
  · rfl

theorem Sound.allocates (hs : h.Sound 0) (hg : h.pool.Graded) (size : Nat) : h.Allocates size where
  tooLarge := hg.allocate_eq_tooLarge_iff
  outOfMemory := by
    rw [← Pool.not_hasRoom_iff]
    exact hs.pool_handles.allocate_eq_outOfMemory_iff hg
  granted := by
    intro hroom
    obtain ⟨b, q, ha⟩ := (hs.pool_handles.allocate_isOk_iff size).2 hroom
    refine ⟨b, q, ha, hs.pool_handles.allocate_grants hg ha, ?_, ?_⟩
    · rw [Holdings.allocate, ha]
      rfl
    · rw [Holdings.allocate, ha]
      rfl
  refused := by
    intro e ha
    have hresult : h.allocate size = (.error (.alloc e), h.recordNothing) := by
      rw [Holdings.allocate, ha]
    rw [hresult]
    exact ⟨rfl, rfl, get_recordNothing h⟩

/-- Whatever was asked of a pool before, a request is too large exactly if it exceeds the last
class, and otherwise gets a slot without handles from the smallest class that has one and is large enough,
if there is such a class. -/
theorem run_allocates {classes : List (Nat × Nat)} {pool : Pool}
    (hpool : Pool.ofClasses classes = .ok pool) (hclasses : ∀ c ∈ classes, 1 ≤ c.1 ∧ c.2 ≤ 255)
    (requests : List MemoryRequest) (size : Nat) : (run { pool } requests).Allocates size := by
  have hs := sound_of_ofClasses hpool hclasses
  exact (hs.run requests).allocates
    (Sound.graded_run requests hs (Pool.graded_of_ofClasses hpool)) size

/-- The small slot is given back and taken again, and has two handles in the end. -/
def spilling : List MemoryRequest := [.allocate 1, .drop 0, .allocate 2, .duplicate 1]

/-- The small class is used up, and a slot of the larger one serves the request. -/
theorem spilling_allocates :
    Pool.ofClasses [(2, 1), (4, 2)] = .ok ⟨#[.fresh 2 1, .fresh 4 2]⟩ ∧
      (∀ c ∈ [(2, 1), (4, 2)], 1 ≤ c.1 ∧ c.2 ≤ 255) ∧
      (run { pool := ⟨#[.fresh 2 1, .fresh 4 2]⟩ } spilling).Allocates 2 ∧
      (run { pool := ⟨#[.fresh 2 1, .fresh 4 2]⟩ } spilling).pool.freeCounts = [0, 2] ∧
      ((run { pool := ⟨#[.fresh 2 1, .fresh 4 2]⟩ } spilling).allocate 2).1 = .ok (3, ⟨1, 0⟩) ∧
      ((run { pool := ⟨#[.fresh 2 1, .fresh 4 2]⟩ } spilling).allocate 2).2.pool.freeCounts =
        [0, 1] := by
  have hpool : Pool.ofClasses [(2, 1), (4, 2)] = .ok ⟨#[.fresh 2 1, .fresh 4 2]⟩ := rfl
  exact ⟨hpool, by decide, run_allocates hpool (by decide) spilling 2, by decide +kernel,
    by decide +kernel, by decide +kernel⟩

end Holdings

end DockLink
