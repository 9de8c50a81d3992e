import DockLink.Memory.Pool
import DockLink.Proofs.Memory.FreeList
import Mathlib.Algebra.Order.Group.Multiset
import Mathlib.Tactic.Abel

/-!
# The handles to a pool

`Sound` says that a pool counts exactly the handles there are, each to a slot of its own class.
`Keeps` says that a later pool shows the same bytes through given handles. Every operation of the
pool is described by the two: how it changes the handles, and that it keeps what the others see.
-/

namespace DockLink.Pool

variable {p q r : Pool} {b : Block} {handles : Multiset Block}

/-- The handles to the blocks of a pool are `handles`. -/
structure Sound (p : Pool) (handles : Multiset Block) : Prop where
  bucket : ∀ i < p.classes.size, ∃ free, (p.bucket i).Sound (fun s => handles.count ⟨i, s⟩) free
  class_lt : ∀ b ∈ handles, b.sizeClass < p.classes.size

/-- The pool `q` has the classes of `p`, and through `handles` the same bytes. A handle that was the
only one to its block is still that. -/
structure Keeps (p q : Pool) (handles : Multiset Block) : Prop where
  size_eq : q.classes.size = p.classes.size
  capacity_eq : ∀ b, q.capacity b = p.capacity b
  bytes_eq : ∀ b ∈ handles, q.bytes b = p.bytes b
  unshared : ∀ b ∈ handles, p.refCount b = 1 → q.refCount b = 1

namespace Keeps

theorem refl (p : Pool) (handles : Multiset Block) : p.Keeps p handles :=
  ⟨rfl, fun _ => rfl, fun _ _ => rfl, fun _ _ h => h⟩

theorem trans (h₁ : p.Keeps q handles) (h₂ : q.Keeps r handles) : p.Keeps r handles :=
  ⟨h₂.size_eq.trans h₁.size_eq, fun b => (h₂.capacity_eq b).trans (h₁.capacity_eq b),
    fun b hb => (h₂.bytes_eq b hb).trans (h₁.bytes_eq b hb),
    fun b hb h => h₂.unshared b hb (h₁.unshared b hb h)⟩

theorem mono {fewer : Multiset Block} (h : p.Keeps q handles) (hle : ∀ b ∈ fewer, b ∈ handles) :
    p.Keeps q fewer :=
  ⟨h.size_eq, h.capacity_eq, fun b hb => h.bytes_eq b (hle b hb),
    fun b hb => h.unshared b (hle b hb)⟩

theorem cast {others : Multiset Block} (h : p.Keeps q handles) (he : handles = others) :
    p.Keeps q others := he ▸ h

/-- The size classes are kept, if nothing else. -/
theorem sizes (h : p.Keeps q handles) : p.Keeps q 0 :=
  h.mono fun b hb => absurd hb (Multiset.notMem_zero b)

end Keeps

theorem bytes_eq_bytesAt (p : Pool) (b : Block) :
    p.bytes b = (p.bucket b.sizeClass).bytesAt b.slot := rfl

@[simp]
theorem length_bytes (p : Pool) (b : Block) : (p.bytes b).length = p.capacity b :=
  Bucket.length_bytesAt _ _

theorem read_eq (p : Pool) (b : Block) (start stop : Nat) :
    p.read b start stop = ((p.bytes b).take stop).drop start := by
  rw [read, Array.toList_extract, List.extract_eq_take_drop, List.drop_take]
  rfl

theorem maxBlockSize_eq (p : Pool) : p.maxBlockSize = (p.bucket (p.classes.size - 1)).capacity := by
  simp only [maxBlockSize, bucket, Array.back?_eq_getElem?, Array.getD_eq_getD_getElem?]
  cases p.classes[p.classes.size - 1]? with
  | none => rfl
  | some b => rfl

theorem Keeps.maxBlockSize_eq (h : p.Keeps q handles) : q.maxBlockSize = p.maxBlockSize := by
  rw [Pool.maxBlockSize_eq, Pool.maxBlockSize_eq, h.size_eq]
  exact h.capacity_eq ⟨_, 0⟩

theorem mem_sum_handles {α : Type} {f : α → Multiset Block} {owners : List α} {a : α}
    (ha : a ∈ owners) (hb : b ∈ f a) : b ∈ (owners.map f).sum := by
  induction owners with
  | nil => cases ha
  | cons c rest ih =>
      rw [List.map_cons, List.sum_cons, Multiset.mem_add]
      rcases List.mem_cons.1 ha with rfl | ha
      · exact Or.inl hb
      · exact Or.inr (ih ha)

/-! ## Changing one class -/

theorem bucket_eq_getElem {p : Pool} {i : Nat} (hi : i < p.classes.size) :
    p.bucket i = p.classes[i] := by
  rw [bucket, Array.getD_eq_getD_getElem?, Array.getElem?_eq_getElem hi, Option.getD_some]

theorem bucket_eq_default {p : Pool} {i : Nat} (hi : p.classes.size ≤ i) :
    p.bucket i = default := by
  rw [bucket, Array.getD_eq_getD_getElem?, Array.getElem?_eq_none hi, Option.getD_none]

theorem bucket_setIfInBounds (p : Pool) (i j : Nat) (b : Bucket) :
    bucket { p with classes := p.classes.setIfInBounds i b } j =
      if i = j ∧ i < p.classes.size then b else p.bucket j := by
  simp only [bucket, Array.getD_eq_getD_getElem?, Array.getElem?_setIfInBounds]
  by_cases hij : i = j
  · subst hij
    by_cases hi : i < p.classes.size
    · simp [hi]
    · simp [hi]
  · simp [hij]

theorem onBucket_eq (p : Pool) (i : Nat) (f : Bucket → Bucket) (hi : i < p.classes.size) :
    p.onBucket i f = { p with classes := p.classes.setIfInBounds i (f (p.bucket i)) } := by
  simp only [onBucket, Pool.mk.injEq]
  apply Array.ext_getElem?
  intro j
  simp only [bucket, Array.getElem?_modify, Array.getElem?_setIfInBounds,
    Array.getD_eq_getD_getElem?]
  by_cases hij : i = j
  · subst hij; simp [hi]
  · simp [hij]

theorem bucket_onBucket (p : Pool) (i : Nat) (f : Bucket → Bucket) (j : Nat) :
    (p.onBucket i f).bucket j =
      if i = j ∧ i < p.classes.size then f (p.bucket j) else p.bucket j := by
  simp only [bucket, onBucket, Array.getD_eq_getD_getElem?, Array.getElem?_modify]
  by_cases hij : i = j
  · subst hij
    by_cases hi : i < p.classes.size
    · simp [hi]
    · simp [hi]
  · simp [hij]

/-- A block that somebody has a handle to is in one of the classes. -/
theorem class_lt_of_refCount {p : Pool} {b : Block} (h : p.refCount b ≠ 0) :
    b.sizeClass < p.classes.size := by
  by_contra hlt
  refine h ?_
  rw [refCount, bucket_eq_default (Nat.not_lt.1 hlt)]
  rfl

theorem fault?_eq_none_iff (p : Pool) : p.fault? = none ↔ ∀ i, (p.bucket i).fault? = none := by
  rw [fault?, List.findSome?_eq_none_iff]
  constructor
  · intro h i
    by_cases hi : i < p.classes.size
    · rw [bucket_eq_getElem hi]
      exact h _ (Array.getElem_mem_toList hi)
    · rw [bucket_eq_default (Nat.not_lt.1 hi)]
      rfl
  · intro h bucket hmem
    obtain ⟨i, hi, rfl⟩ := List.mem_iff_getElem.1 hmem
    have hi' : i < p.classes.size := by simpa using hi
    have hbucket := h i
    rw [bucket_eq_getElem hi'] at hbucket
    exact hbucket

/-- A change to one class and to its handles. -/
theorem Sound.set {changed : Multiset Block} {i : Nat} {bucket : Bucket} {free : List UInt8}
    (h : p.Sound handles) (hi : i < p.classes.size)
    (hb : bucket.Sound (fun s => changed.count ⟨i, s⟩) free)
    (hother : ∀ c : Block, c.sizeClass ≠ i → changed.count c = handles.count c) :
    Sound { p with classes := p.classes.setIfInBounds i bucket } changed where
  bucket := by
    intro j hj
    rw [bucket_setIfInBounds]
    by_cases hij : i = j
    · subst hij
      exact ⟨free, by simpa [hi] using hb⟩
    · obtain ⟨free', hfree⟩ := h.bucket j (by simpa using hj)
      refine ⟨free', ?_⟩
      simp only [hij, false_and, ↓reduceIte]
      have : (fun s => changed.count ⟨j, s⟩) = fun s => handles.count ⟨j, s⟩ := by
        funext s
        exact hother ⟨j, s⟩ (Ne.symm hij)
      rw [this]
      exact hfree
  class_lt := by
    intro c hc
    by_cases hci : c.sizeClass = i
    · simpa [hci] using hi
    · rw [← Multiset.count_pos, hother c hci, Multiset.count_pos] at hc
      simpa using h.class_lt c hc

theorem Keeps.set {before after : Multiset Block} {i : Nat} {bucket : Bucket} {free : List UInt8}
    (h : p.Sound before) (hi : i < p.classes.size)
    (hb : bucket.Sound (fun s => after.count ⟨i, s⟩) free)
    (hcap : bucket.capacity = (p.bucket i).capacity)
    (hbytes : ∀ c ∈ handles, c.sizeClass = i → bucket.bytesAt c.slot = p.bytes c)
    (hcount : ∀ c ∈ handles, c.sizeClass = i → before.count c = 1 → after.count c = 1) :
    p.Keeps { p with classes := p.classes.setIfInBounds i bucket } handles where
  size_eq := by simp
  capacity_eq := by
    intro c
    simp only [capacity, bucket_setIfInBounds]
    split
    · rename_i hc; rw [hcap, hc.1]
    · rfl
  bytes_eq := by
    intro c hc
    rw [bytes_eq_bytesAt, bucket_setIfInBounds]
    split
    · rename_i hci; exact hbytes c hc hci.1.symm
    · rfl
  unshared := by
    intro c hc h1
    rw [refCount, bucket_setIfInBounds]
    split
    · rename_i hci
      obtain ⟨rfl, -⟩ := hci
      obtain ⟨free', hfree⟩ := h.bucket c.sizeClass hi
      have hbefore : before.count c = 1 := by
        rw [← hfree.refs_eq c.slot, ← refCount, h1]
        rfl
      refine UInt8.toNat_inj.1 ((hb.refs_eq c.slot).trans ?_)
      exact hcount c hc rfl hbefore
    · exact h1

theorem count_cons_eq_update (b : Block) (handles : Multiset Block) :
    (fun s => (b ::ₘ handles).count ⟨b.sizeClass, s⟩) =
      Function.update (fun s => handles.count ⟨b.sizeClass, s⟩) b.slot (handles.count b + 1) := by
  funext s
  rw [Function.update_apply]
  split
  · rename_i hs; subst hs; exact Multiset.count_cons_self b handles
  · rename_i hs
    exact Multiset.count_cons_of_ne (fun e => hs (congrArg Block.slot e)) handles

theorem count_cons_of_class_ne {c : Block} (h : c.sizeClass ≠ b.sizeClass) :
    (b ::ₘ handles).count c = handles.count c :=
  Multiset.count_cons_of_ne (fun e => h (congrArg Block.sizeClass e)) handles

/-! ## Handles -/

namespace Sound

theorem refCount_eq (h : p.Sound handles) (b : Block) :
    (p.refCount b).toNat = handles.count b := by
  by_cases hclass : b.sizeClass < p.classes.size
  · obtain ⟨free, hfree⟩ := h.bucket b.sizeClass hclass
    exact hfree.refs_eq b.slot
  · -- A class that does not exist has no slot with a handle.
    have hb : b ∉ handles := fun hb => hclass (h.class_lt b hb)
    rw [Multiset.count_eq_zero_of_notMem hb, refCount, bucket_eq_default (Nat.not_lt.1 hclass)]
    rfl

theorem cast {others : Multiset Block} (h : p.Sound handles) (he : handles = others) :
    p.Sound others := he ▸ h

/-- Every handle that was given back was there. -/
theorem faultless (h : p.Sound handles) : p.fault? = none := by
  refine p.fault?_eq_none_iff.2 fun i => ?_
  by_cases hi : i < p.classes.size
  · obtain ⟨free, hfree⟩ := h.bucket i hi
    exact hfree.faultless
  · rw [bucket_eq_default (Nat.not_lt.1 hi)]
    rfl

theorem unshared_iff (h : p.Sound (b ::ₘ handles)) : p.refCount b = 1 ↔ b ∉ handles := by
  have hcount := h.refCount_eq b
  rw [Multiset.count_cons_self] at hcount
  rw [← Multiset.count_eq_zero]
  constructor
  · intro h1
    rw [h1] at hcount
    exact (Nat.succ.inj hcount).symm
  · intro h0
    rw [h0] at hcount
    exact UInt8.toNat_inj.1 hcount

theorem retain (h : p.Sound (b ::ₘ handles)) (hlt : (b ::ₘ handles).count b < 255) :
    ∃ q, p.retain b = .ok q ∧ q.Sound (b ::ₘ b ::ₘ handles) ∧ p.Keeps q handles ∧
      q.bytes b = p.bytes b := by
  have hb := Multiset.mem_cons_self b handles
  have hi := h.class_lt b hb
  obtain ⟨free, hfree⟩ := h.bucket b.sizeClass hi
  obtain ⟨bucket, hr, hbucket⟩ := hfree.retain (Multiset.count_pos.2 hb) hlt
  rw [← count_cons_eq_update] at hbucket
  refine ⟨{ p with classes := p.classes.setIfInBounds b.sizeClass bucket }, ?_, ?_, ?_, ?_⟩
  · simp [Pool.retain, hr, Except.map]
  · exact h.set hi hbucket fun c hc => count_cons_of_class_ne hc
  · refine Keeps.set h hi hbucket (Bucket.capacity_of_retain hr) ?_ ?_
    · intro c _ hc
      rw [Bucket.bytesAt_of_retain hr, bytes_eq_bytesAt, hc]
    · intro c hc _ h1
      have hne : c ≠ b := by
        rintro rfl
        rw [Multiset.count_cons_self] at h1
        have := Multiset.count_pos.2 hc
        omega
      rwa [Multiset.count_cons_of_ne hne]
  · rw [bytes_eq_bytesAt, bucket_setIfInBounds, if_pos ⟨rfl, hi⟩, Bucket.bytesAt_of_retain hr]
    rfl

theorem count_lt_of_retain (h : p.Sound (b ::ₘ handles)) (hr : p.retain b = .ok q) :
    (b ::ₘ handles).count b < 255 := by
  have hmem := Multiset.mem_cons_self b handles
  obtain ⟨free, hfree⟩ := h.bucket b.sizeClass (h.class_lt b hmem)
  unfold Pool.retain at hr
  cases hbucket : (p.bucket b.sizeClass).retain b.slot with
  | error fault => rw [hbucket] at hr; cases hr
  | ok bucket => exact hfree.count_lt_of_retain hbucket

theorem release (h : p.Sound (b ::ₘ handles)) :
    (p.release b).Sound handles ∧ p.Keeps (p.release b) handles := by
  have hi := h.class_lt b (Multiset.mem_cons_self b handles)
  obtain ⟨free, hfree⟩ := h.bucket b.sizeClass hi
  rw [count_cons_eq_update] at hfree
  obtain ⟨free', hbucket, hbytes⟩ := hfree.release (s := b.slot) (by simp)
  have hcount : (fun s => handles.count ⟨b.sizeClass, s⟩) =
      Function.update (Function.update (fun s => handles.count ⟨b.sizeClass, s⟩) b.slot
        (handles.count b + 1)) b.slot (handles.count b) := by
    rw [Function.update_idem]
    exact (Function.update_eq_self b.slot _).symm
  simp only [Function.update_self, Nat.add_sub_cancel] at hbucket hbytes
  rw [← hcount] at hbucket hbytes
  rw [Pool.release, onBucket_eq p _ _ hi]
  refine ⟨h.set hi hbucket fun c hc => (count_cons_of_class_ne hc).symm, ?_⟩
  refine Keeps.set h hi hbucket (Bucket.capacity_release _ _) ?_ ?_
  · intro c hc hci
    rw [bytes_eq_bytesAt, hci]
    refine hbytes c.slot ?_
    rw [← hci]
    exact Multiset.count_pos.2 hc
  · intro c hc _ h1
    have hpos := Multiset.count_pos.2 hc
    have hle := Multiset.count_le_of_le c (Multiset.le_cons_self handles b)
    omega

theorem releaseAll (blocks : List Block) : ∀ {p : Pool}, p.Sound ((blocks : Multiset Block) + handles) →
    (p.releaseAll blocks).Sound handles ∧ p.Keeps (p.releaseAll blocks) handles := by
  induction blocks with
  | nil =>
      intro p h
      exact ⟨h.cast (zero_add handles), Keeps.refl p handles⟩
  | cons b rest ih =>
      intro p h
      have hcons : p.Sound (b ::ₘ ((rest : Multiset Block) + handles)) := h.cast (by
        rw [← Multiset.cons_coe, Multiset.cons_add])
      obtain ⟨hrest, hkeep⟩ := hcons.release
      obtain ⟨hdone, hkeep'⟩ := ih hrest
      exact ⟨hdone, (hkeep.mono fun c hc => Multiset.mem_add.2 (Or.inr hc)).trans hkeep'⟩

/-- The only handle to a block writes it. -/
theorem write (h : p.Sound (b ::ₘ handles)) (hb : b ∉ handles) {offset : Nat} {data : Bytes}
    (hfits : offset + data.length ≤ p.capacity b) :
    ∃ q, p.write b offset data = .ok q ∧ q.Sound (b ::ₘ handles) ∧ p.Keeps q handles ∧
      q.bytes b =
        (p.bytes b).take offset ++ data ++ (p.bytes b).drop (offset + data.length) := by
  have hmem := Multiset.mem_cons_self b handles
  have hi := h.class_lt b hmem
  have hcount : (b ::ₘ handles).count b = 1 := by
    rw [Multiset.count_cons_self, Multiset.count_eq_zero_of_notMem hb]
  have hunique : p.refCount b = 1 := UInt8.toNat_inj.1 ((h.refCount_eq b).trans hcount)
  obtain ⟨free, hfree⟩ := h.bucket b.sizeClass hi
  have hpos : 0 < (b ::ₘ handles).count ⟨b.sizeClass, b.slot⟩ := by
    show 0 < (b ::ₘ handles).count b
    omega
  refine ⟨p.onBucket b.sizeClass fun bucket => bucket.store b.slot offset data,
    by simp [Pool.write, hunique, hfits], ?_⟩
  rw [onBucket_eq p _ _ hi]
  refine ⟨h.set hi (hfree.store hpos offset data) fun c _ => rfl, ?_, ?_⟩
  · refine Keeps.set h hi (hfree.store hpos offset data) rfl ?_ fun c _ _ h1 => h1
    intro c hc hci
    rw [bytes_eq_bytesAt, hci]
    refine Bucket.bytesAt_store_of_ne offset data fun e => hb ?_
    have : c = b := by cases c; cases b; simp_all
    exact this ▸ hc
  · rw [bytes_eq_bytesAt, bucket_setIfInBounds, if_pos ⟨rfl, hi⟩]
    exact Bucket.bytesAt_store offset data (hfree.lt_size_of_live hpos) hfits

theorem of_write (h : p.Sound (b ::ₘ handles)) {offset : Nat} {data : Bytes}
    (hw : p.write b offset data = .ok q) :
    b ∉ handles ∧ offset + data.length ≤ p.capacity b := by
  unfold Pool.write at hw
  split at hw
  · cases hw
  · rename_i hone
    split at hw
    · rename_i hfits
      exact ⟨h.unshared_iff.1 (not_ne_iff.1 hone), hfits⟩
    · cases hw

theorem allocateIn (h : p.Sound handles) {size i : Nat} (hi : i < p.classes.size)
    (ha : p.allocateIn size i = some (b, q)) :
    b ∉ handles ∧ q.Sound (b ::ₘ handles) ∧ p.Keeps q handles ∧ size ≤ p.capacity b := by
  unfold Pool.allocateIn at ha
  split at ha
  · rename_i hsize
    obtain ⟨⟨s, bucket⟩, hacq, he⟩ := Option.map_eq_some_iff.1 ha
    cases he
    obtain ⟨free, hfree⟩ := h.bucket i hi
    obtain ⟨h0, hbucket⟩ := hfree.acquire hacq
    have hcount := count_cons_eq_update ⟨i, s⟩ handles
    simp only [h0, Nat.zero_add] at hcount
    rw [← hcount] at hbucket
    have hnot := Multiset.count_eq_zero.1 h0
    refine ⟨hnot, h.set hi hbucket fun c hc => count_cons_of_class_ne hc, ?_, hsize⟩
    refine Keeps.set h hi hbucket (Bucket.capacity_of_acquire hacq) ?_ ?_
    · intro c _ hc
      rw [Bucket.bytesAt_of_acquire hacq, bytes_eq_bytesAt, hc]
    · intro c hc _ h1
      rwa [Multiset.count_cons_of_ne (ne_of_mem_of_not_mem hc hnot)]
  · cases ha

theorem allocate (h : p.Sound handles) {size : Nat} (ha : p.allocate size = .ok (b, q)) :
    b ∉ handles ∧ q.Sound (b ::ₘ handles) ∧ p.Keeps q handles ∧ size ≤ q.capacity b := by
  unfold Pool.allocate at ha
  split at ha
  · split at ha
    · rename_i found
      cases ha
      obtain ⟨i, hi, hai⟩ := List.exists_of_findSome?_eq_some found
      obtain ⟨hb, hq, hkeep, hsize⟩ := h.allocateIn (List.mem_range.1 hi) hai
      exact ⟨hb, hq, hkeep, hsize.trans_eq (hkeep.capacity_eq b).symm⟩
    · cases ha
  · cases ha

end Sound

/-- A pool whose classes have slots with bytes, and no more of them than can be numbered. -/
theorem sound_of_ofClasses {classes : List (Nat × Nat)} (hp : ofClasses classes = .ok p)
    (hclasses : ∀ c ∈ classes, 1 ≤ c.1 ∧ c.2 ≤ 255) : p.Sound 0 := by
  unfold ofClasses at hp
  split at hp
  · cases hp
  · split at hp
    · cases hp
      constructor
      · intro i hi
        refine ⟨[], ?_⟩
        have hlt : i < classes.length := by simpa using hi
        obtain ⟨hcap, hsize⟩ := hclasses classes[i] (List.getElem_mem hlt)
        rw [bucket, Array.getD_eq_getD_getElem?]
        simp only [List.getElem?_toArray, List.getElem?_map, List.getElem?_eq_getElem hlt,
          Option.map_some, Option.getD_some]
        exact Bucket.Sound.fresh _ _ hcap hsize
      · intro b hb
        exact absurd hb (Multiset.notMem_zero b)
    · cases hp

end DockLink.Pool
