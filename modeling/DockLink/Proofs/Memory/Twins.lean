import DockLink.Proofs.Memory.Room
import DockLink.Proofs.Memory.Copies

/-!
# Two pools that behave alike

Two pools with the same size classes and as many free slots in each serve the same requests, from
the same classes, but not from the same slots. A bond ties a handle of the one to its counterpart of
the other. As long as whatever is done is done to both ends of a bond, all answers are the same, and
so are the bytes that were written.
-/

namespace DockLink

namespace Bucket

variable {b b' : Bucket} {count : UInt8 → Nat} {free : List UInt8} {s : UInt8}

theorem used_of_acquire (ha : b.acquire = some (s, b')) : b'.used = b.used + 1 := by
  unfold acquire at ha
  split at ha
  · cases ha; rfl
  · split at ha
    · cases ha; rfl
    · cases ha

theorem Sound.freeCount_of_acquire (h : b.Sound count free) (ha : b.acquire = some (s, b')) :
    b'.freeCount + 1 = b.freeCount := by
  have hsome : b.freeCount ≠ 0 := by
    intro hnone
    rw [h.acquire_eq_none_iff_freeCount.2 hnone] at ha
    cases ha
  have hsize := h.size_le
  simp only [freeCount, maxSlots, noSlot, UInt8.reduceToNat] at hsome hsize ⊢
  rw [used_of_acquire ha, size_of_acquire ha, UInt8.toNat_add, UInt8.toNat_one]
  omega

theorem freeCount_of_retain (hr : b.retain s = .ok b') : b'.freeCount = b.freeCount := by
  obtain ⟨-, -, rfl⟩ := retain_eq_ok hr
  rw [freeCount, size_onSlot]
  rfl

theorem freeCount_store (b : Bucket) (s : UInt8) (offset : Nat) (data : Bytes) :
    (b.store s offset data).freeCount = b.freeCount := by
  rw [freeCount, size_store]
  rfl

/-- A slot is free again when its last handle is given back. -/
theorem Sound.freeCount_release (h : b.Sound count free) (hs : 0 < count s) :
    (b.release s).freeCount = b.freeCount + if count s = 1 then 1 else 0 := by
  have hwatermark := watermark_release b s
  have hused := h.used_eq
  have hle := h.watermark_le
  have hfree := h.length_lt_of_live hs
  by_cases h1 : count s = 1
  · have hused' := (h.release_last h1).1.used_eq
    rw [hwatermark, List.length_cons] at hused'
    rw [freeCount, freeCount, size_release, if_pos h1]
    omega
  · have hmany : 1 < count s := by omega
    have hused' := (h.release_shared hmany).1.used_eq
    rw [hwatermark] at hused'
    rw [freeCount, freeCount, size_release, if_neg h1]
    omega

end Bucket

namespace Pool

variable {p q : Pool} {b : Block} {handles : Multiset Block}

/-! ## Free slots -/

theorem capacity_bucket_of_shows (h : p.Shows q handles) (i : Nat) :
    (q.bucket i).capacity = (p.bucket i).capacity := h.capacity_eq ⟨i, 0⟩

theorem getD_freeCounts (p : Pool) (i : Nat) : p.freeCounts.getD i 0 = (p.bucket i).freeCount := by
  rw [freeCounts, bucket, List.getD_eq_getElem?_getD, Array.getD_eq_getD_getElem?, List.getElem?_map,
    Array.getElem?_toList]
  cases p.classes[i]? with
  | none => rfl
  | some bucket => rfl

theorem Sound.freeCount_of_allocateIn (h : p.Sound handles) {n i : Nat} (hi : i < p.classes.size)
    (ha : p.allocateIn n i = some (b, q)) :
    b.sizeClass = i ∧ ∀ j, (q.bucket j).freeCount + (if j = i then 1 else 0) =
      (p.bucket j).freeCount := by
  unfold Pool.allocateIn at ha
  split at ha
  · obtain ⟨⟨s, bucket⟩, hacquire, he⟩ := Option.map_eq_some_iff.1 ha
    cases he
    obtain ⟨free, hfree⟩ := h.bucket i hi
    refine ⟨rfl, fun j => ?_⟩
    rw [bucket_setIfInBounds]
    by_cases hj : j = i
    · subst hj
      rw [if_pos ⟨rfl, hi⟩, if_pos rfl, hfree.freeCount_of_acquire hacquire]
    · rw [if_neg fun he => hj he.1.symm, if_neg hj, Nat.add_zero]
  · cases ha

theorem freeCount_of_retain (hr : p.retain b = .ok q) (i : Nat) :
    (q.bucket i).freeCount = (p.bucket i).freeCount := by
  unfold retain at hr
  cases hb : (p.bucket b.sizeClass).retain b.slot with
  | error fault => rw [hb] at hr; cases hr
  | ok bucket =>
      rw [hb] at hr
      cases hr
      rw [bucket_setIfInBounds]
      split
      · rename_i hi
        rw [Bucket.freeCount_of_retain hb, hi.1]
      · rfl

theorem size_of_retain (hr : p.retain b = .ok q) : q.classes.size = p.classes.size := by
  unfold retain at hr
  cases hb : (p.bucket b.sizeClass).retain b.slot with
  | error fault => rw [hb] at hr; cases hr
  | ok bucket =>
      rw [hb] at hr
      cases hr
      exact Array.size_setIfInBounds

theorem Sound.freeCount_of_write (h : p.Sound (b ::ₘ handles)) {offset : Nat} {data : Bytes}
    (hw : p.write b offset data = .ok q) (i : Nat) :
    (q.bucket i).freeCount = (p.bucket i).freeCount := by
  have hclass := h.class_lt b (Multiset.mem_cons_self b handles)
  unfold Pool.write at hw
  split at hw
  · cases hw
  · split at hw
    · cases hw
      rw [onBucket_eq p _ _ hclass, bucket_setIfInBounds]
      split
      · rename_i hi
        rw [Bucket.freeCount_store, hi.1]
      · rfl
    · cases hw

theorem Sound.freeCount_release (h : p.Sound (b ::ₘ handles)) (i : Nat) :
    ((p.release b).bucket i).freeCount =
      (p.bucket i).freeCount + if i = b.sizeClass ∧ b ∉ handles then 1 else 0 := by
  have hclass := h.class_lt b (Multiset.mem_cons_self b handles)
  obtain ⟨free, hfree⟩ := h.bucket b.sizeClass hclass
  rw [Pool.release, onBucket_eq p _ _ hclass, bucket_setIfInBounds]
  by_cases hi : i = b.sizeClass
  · subst hi
    have hcount : (b ::ₘ handles).count ⟨b.sizeClass, b.slot⟩ = handles.count b + 1 :=
      Multiset.count_cons_self b handles
    rw [if_pos ⟨rfl, hclass⟩, hfree.freeCount_release (by omega), hcount]
    simp only [Nat.add_eq_right, Multiset.count_eq_zero, true_and]
  · rw [if_neg fun he => hi he.1.symm, if_neg fun he => hi he.1, Nat.add_zero]

end Pool

/-- A handle of a pool and its counterpart of another one. The bytes from `start` up to `stop` are
known to be the same. -/
structure Bond where
  left : Block
  right : Block
  start : Nat
  stop : Nat
deriving DecidableEq

namespace Pool

/-- The bonds tie slots to slots, one to one and within a size class, and none to a slot that others
have handles to: `own` on the one side, `own'` on the other. -/
structure Matched (own own' : Multiset Block) (p q : Pool) (bonds : Multiset Bond) : Prop where
  sizeClass : ∀ x ∈ bonds, x.left.sizeClass = x.right.sizeClass
  matched : ∀ x ∈ bonds, ∀ y ∈ bonds, x.left = y.left ↔ x.right = y.right
  apart_left : ∀ x ∈ bonds, x.left ∉ own
  apart_right : ∀ x ∈ bonds, x.right ∉ own'
  bytes : ∀ x ∈ bonds, ∀ i, x.start ≤ i → i < x.stop →
    (p.bytes x.left)[i]? = (q.bytes x.right)[i]?

/-- Two pools that serve the same requests. All handles are those in the bonds and those of the
others. -/
structure Twins (own own' : Multiset Block) (p q : Pool) (bonds : Multiset Bond) : Prop where
  left : p.Sound (bonds.map Bond.left + own)
  right : q.Sound (bonds.map Bond.right + own')
  size_eq : p.classes.size = q.classes.size
  capacity_eq : ∀ i, (p.bucket i).capacity = (q.bucket i).capacity
  freeCount_eq : ∀ i, (p.bucket i).freeCount = (q.bucket i).freeCount
  bonds : Matched own own' p q bonds

variable {own own' : Multiset Block} {p p' q q' : Pool} {x : Bond} {bonds fewer : Multiset Bond}

namespace Matched

theorem mono (h : Matched own own' p q bonds) (hle : ∀ x ∈ fewer, x ∈ bonds) :
    Matched own own' p q fewer where
  sizeClass x hx := h.sizeClass x (hle x hx)
  matched x hx y hy := h.matched x (hle x hx) y (hle y hy)
  apart_left x hx := h.apart_left x (hle x hx)
  apart_right x hx := h.apart_right x (hle x hx)
  bytes x hx := h.bytes x (hle x hx)

theorem shows (h : Matched own own' p q bonds)
    (hp : ∀ x ∈ bonds, p'.bytes x.left = p.bytes x.left)
    (hq : ∀ x ∈ bonds, q'.bytes x.right = q.bytes x.right) : Matched own own' p' q' bonds := by
  refine ⟨h.sizeClass, h.matched, h.apart_left, h.apart_right, fun x hx i hlow hhigh => ?_⟩
  rw [hp x hx, hq x hx]
  exact h.bytes x hx i hlow hhigh

/-- A bond between two new slots, of which no byte is known yet. -/
theorem cons (h : Matched own own' p q bonds) {b b' : Block} (hclass : b.sizeClass = b'.sizeClass)
    (hb : b ∉ bonds.map Bond.left + own) (hb' : b' ∉ bonds.map Bond.right + own') (n : Nat) :
    Matched own own' p q (⟨b, b', n, n⟩ ::ₘ bonds) := by
  rw [Multiset.mem_add, not_or] at hb hb'
  have hnew : ∀ y ∈ bonds, b ≠ y.left ∧ b' ≠ y.right := fun y hy =>
    ⟨fun he => hb.1 (he ▸ Multiset.mem_map_of_mem _ hy),
      fun he => hb'.1 (he ▸ Multiset.mem_map_of_mem _ hy)⟩
  constructor
  · intro x hx
    rcases Multiset.mem_cons.1 hx with rfl | hx
    · exact hclass
    · exact h.sizeClass x hx
  · intro x hx y hy
    rcases Multiset.mem_cons.1 hx with rfl | hx
    · rcases Multiset.mem_cons.1 hy with rfl | hy
      · exact iff_of_true rfl rfl
      · exact iff_of_false (hnew y hy).1 (hnew y hy).2
    · rcases Multiset.mem_cons.1 hy with rfl | hy
      · exact iff_of_false (hnew x hx).1.symm (hnew x hx).2.symm
      · exact h.matched x hx y hy
  · intro x hx
    rcases Multiset.mem_cons.1 hx with rfl | hx
    · exact hb.2
    · exact h.apart_left x hx
  · intro x hx
    rcases Multiset.mem_cons.1 hx with rfl | hx
    · exact hb'.2
    · exact h.apart_right x hx
  · intro x hx i hlow hhigh
    rcases Multiset.mem_cons.1 hx with rfl | hx
    · exact absurd hlow (Nat.not_le.2 hhigh)
    · exact h.bytes x hx i hlow hhigh

/-- A bond between the slots of another one. -/
theorem between (h : Matched own own' p q (x ::ₘ bonds)) {start stop : Nat}
    (hbytes : ∀ i, start ≤ i → i < stop → (p.bytes x.left)[i]? = (q.bytes x.right)[i]?) :
    Matched own own' p q (⟨x.left, x.right, start, stop⟩ ::ₘ x ::ₘ bonds) := by
  have hx := Multiset.mem_cons_self x bonds
  -- Each of the bonds has the ends of one that is there already.
  have hends : ∀ y ∈ (⟨x.left, x.right, start, stop⟩ : Bond) ::ₘ x ::ₘ bonds,
      ∃ z ∈ x ::ₘ bonds, z.left = y.left ∧ z.right = y.right := by
    intro y hy
    rcases Multiset.mem_cons.1 hy with rfl | hy
    · exact ⟨x, hx, rfl, rfl⟩
    · exact ⟨y, hy, rfl, rfl⟩
  constructor
  · intro y hy
    obtain ⟨z, hz, hl, hr⟩ := hends y hy
    rw [← hl, ← hr]
    exact h.sizeClass z hz
  · intro y hy w hw
    obtain ⟨z, hz, hl, hr⟩ := hends y hy
    obtain ⟨v, hv, hl', hr'⟩ := hends w hw
    rw [← hl, ← hr, ← hl', ← hr']
    exact h.matched z hz v hv
  · intro y hy
    obtain ⟨z, hz, hl, -⟩ := hends y hy
    exact hl ▸ h.apart_left z hz
  · intro y hy
    obtain ⟨z, hz, -, hr⟩ := hends y hy
    exact hr ▸ h.apart_right z hz
  · intro y hy i hlow hhigh
    rcases Multiset.mem_cons.1 hy with rfl | hy
    · exact hbytes i hlow hhigh
    · exact h.bytes y hy i hlow hhigh

/-- Both ends of a bond have as many handles. -/
theorem count_eq (h : Matched own own' p q bonds) (hx : x ∈ bonds) :
    (bonds.map Bond.left + own).count x.left = (bonds.map Bond.right + own').count x.right := by
  rw [Multiset.count_add, Multiset.count_add,
    Multiset.count_eq_zero_of_notMem (h.apart_left x hx),
    Multiset.count_eq_zero_of_notMem (h.apart_right x hx), Multiset.count_map, Multiset.count_map]
  congr 2
  exact Multiset.filter_congr fun y hy => h.matched x hx y hy

end Matched

/-- Two searches that find something in the same places find it in the same place. -/
theorem findSome?_agree {α β γ : Type} {f : α → Option β} {g : α → Option γ} {l : List α}
    (h : ∀ a ∈ l, (f a).isSome = (g a).isSome) :
    (l.findSome? f = none ∧ l.findSome? g = none) ∨
      ∃ a ∈ l, ∃ x y, l.findSome? f = some x ∧ l.findSome? g = some y ∧ f a = some x ∧
        g a = some y := by
  induction l with
  | nil => exact Or.inl ⟨rfl, rfl⟩
  | cons a rest ih =>
      have ha := h a List.mem_cons_self
      cases hf : f a with
      | none =>
          have hg : g a = none := by rwa [hf, Option.isSome_none, eq_comm, Option.isSome_eq_false_iff,
            Option.isNone_iff_eq_none] at ha
          simp only [List.findSome?_cons, hf, hg]
          rcases ih fun a ha => h a (List.mem_cons_of_mem _ ha) with hnone | ⟨c, hc, hsome⟩
          · exact Or.inl hnone
          · exact Or.inr ⟨c, List.mem_cons_of_mem _ hc, hsome⟩
      | some x =>
          obtain ⟨y, hg⟩ := Option.isSome_iff_exists.1 (ha.symm.trans (by rw [hf]; rfl))
          simp only [List.findSome?_cons, hf, hg]
          exact Or.inr ⟨a, List.mem_cons_self, x, y, rfl, rfl, hf, hg⟩

namespace Twins

theorem mem_left (hx : x ∈ bonds) : x.left ∈ bonds.map Bond.left + own :=
  Multiset.mem_add.2 (Or.inl (Multiset.mem_map_of_mem _ hx))

theorem mem_right (hx : x ∈ bonds) : x.right ∈ bonds.map Bond.right + own' :=
  Multiset.mem_add.2 (Or.inl (Multiset.mem_map_of_mem _ hx))

theorem cast {others : Multiset Bond} (h : Twins own own' p q bonds) (he : bonds = others) :
    Twins own own' p q others := he ▸ h

theorem capacity_block (h : Twins own own' p q bonds) (hx : x ∈ bonds) :
    p.capacity x.left = q.capacity x.right := by
  rw [capacity, capacity, h.bonds.sizeClass x hx]
  exact h.capacity_eq _

theorem refCount_eq (h : Twins own own' p q bonds) (hx : x ∈ bonds) :
    p.refCount x.left = q.refCount x.right := by
  refine UInt8.toNat_inj.1 ?_
  rw [h.left.refCount_eq, h.right.refCount_eq]
  exact h.bonds.count_eq hx

theorem freeCounts_eq (h : Twins own own' p q bonds) : p.freeCounts = q.freeCounts := by
  rw [freeCounts, freeCounts]
  refine List.ext_getElem (by simpa using h.size_eq) fun i hi hi' => ?_
  have hbound : i < p.classes.size := by simpa using hi
  have hbound' : i < q.classes.size := by simpa using hi'
  have hbucket := h.freeCount_eq i
  rw [bucket_eq_getElem hbound, bucket_eq_getElem hbound'] at hbucket
  simpa using hbucket

/-- Pools of the same capacities are twins as soon as they have as many free slots in each class. -/
theorem of_freeCounts (hp : p.Sound (bonds.map Bond.left + own))
    (hq : q.Sound (bonds.map Bond.right + own'))
    (hcapacity : ∀ i, (p.bucket i).capacity = (q.bucket i).capacity)
    (hfree : p.freeCounts = q.freeCounts) (hbonds : Matched own own' p q bonds) :
    Twins own own' p q bonds where
  left := hp
  right := hq
  size_eq := by
    have hlength := congrArg List.length hfree
    simpa only [freeCounts, List.length_map, Array.length_toList] using hlength
  capacity_eq := hcapacity
  freeCount_eq i := by
    rw [← getD_freeCounts, ← getD_freeCounts, hfree]
  bonds := hbonds

/-- Both pools change. They stay twins if both show what they did, and have as many free slots. -/
theorem change {handles handles' : Multiset Block} {others : Multiset Bond}
    (h : Twins own own' p q bonds) (hp : p.Shows p' handles) (hq : q.Shows q' handles')
    (hsize : p'.classes.size = p.classes.size) (hsize' : q'.classes.size = q.classes.size)
    (hleft : p'.Sound (others.map Bond.left + own))
    (hright : q'.Sound (others.map Bond.right + own'))
    (hfree : ∀ i, (p'.bucket i).freeCount = (q'.bucket i).freeCount)
    (hbonds : Matched own own' p' q' others) : Twins own own' p' q' others where
  left := hleft
  right := hright
  size_eq := (hsize.trans h.size_eq).trans hsize'.symm
  capacity_eq i := by
    rw [capacity_bucket_of_shows hp, capacity_bucket_of_shows hq]
    exact h.capacity_eq i
  freeCount_eq := hfree
  bonds := hbonds

theorem isLarge_eq (h : Twins own own' p q bonds) (n : Nat) :
    (p.classes.any fun b => n ≤ b.capacity) = q.classes.any fun b => n ≤ b.capacity := by
  have hside : ∀ {p q : Pool}, p.classes.size = q.classes.size →
      (∀ i, (p.bucket i).capacity = (q.bucket i).capacity) →
      (p.classes.any fun b => n ≤ b.capacity) = true →
      (q.classes.any fun b => n ≤ b.capacity) = true := by
    intro p q hsize hcapacity hany
    obtain ⟨i, hi, hn⟩ := Array.any_eq_true.1 hany
    have hi' : i < q.classes.size := hsize ▸ hi
    refine Array.any_eq_true.2 ⟨i, hi', ?_⟩
    rw [← bucket_eq_getElem hi', ← hcapacity i, bucket_eq_getElem hi]
    exact hn
  exact Bool.eq_iff_iff.2 ⟨hside h.size_eq h.capacity_eq,
    hside h.size_eq.symm fun i => (h.capacity_eq i).symm⟩

/-- A request is refused by both pools, or served by both from the same class. -/
theorem allocate (h : Twins own own' p q bonds) (n : Nat) :
    (∃ e, p.allocate n = .error e ∧ q.allocate n = .error e) ∨
      ∃ b b' p' q', p.allocate n = .ok (b, p') ∧ q.allocate n = .ok (b', q') ∧
        Twins own own' p' q' (⟨b, b', 0, 0⟩ ::ₘ bonds) := by
  have hroom : ∀ i ∈ List.range p.classes.size,
      (p.allocateIn n i).isSome = (q.allocateIn n i).isSome := by
    intro i hi
    have hi' := List.mem_range.1 hi
    rw [Bool.eq_iff_iff, h.left.allocateIn_isSome_iff n hi',
      h.right.allocateIn_isSome_iff n (h.size_eq ▸ hi'), h.capacity_eq, h.freeCount_eq]
  unfold Pool.allocate
  rw [← h.isLarge_eq n, ← h.size_eq]
  cases hlarge : p.classes.any fun b => n ≤ b.capacity with
  | false => exact Or.inl ⟨.tooLarge, rfl, rfl⟩
  | true =>
      simp only [if_true]
      rcases findSome?_agree hroom with ⟨hf, hg⟩ | ⟨i, hi, ⟨b, p'⟩, ⟨b', q'⟩, hf, hg, hb, hb'⟩
      · rw [hf, hg]
        exact Or.inl ⟨.outOfMemory, rfl, rfl⟩
      · rw [hf, hg]
        have hi' := List.mem_range.1 hi
        have hi'' : i < q.classes.size := h.size_eq ▸ hi'
        obtain ⟨hnew, hsound, hkeeps, -⟩ := h.left.allocateIn hi' hb
        obtain ⟨hnew', hsound', hkeeps', -⟩ := h.right.allocateIn hi'' hb'
        obtain ⟨hclass, hfree⟩ := h.left.freeCount_of_allocateIn hi' hb
        obtain ⟨hclass', hfree'⟩ := h.right.freeCount_of_allocateIn hi'' hb'
        have hmatched : Matched own own' p' q' (⟨b, b', 0, 0⟩ ::ₘ bonds) :=
          (h.bonds.shows (fun y hy => hkeeps.bytes_eq _ (mem_left hy))
            fun y hy => hkeeps'.bytes_eq _ (mem_right hy)).cons (hclass.trans hclass'.symm) hnew hnew' 0
        have hcounts (j : Nat) : (p'.bucket j).freeCount = (q'.bucket j).freeCount := by
          have := hfree j
          have := hfree' j
          have := h.freeCount_eq j
          omega
        exact Or.inr ⟨b, b', p', q', rfl, rfl, h.change hkeeps.shows hkeeps'.shows hkeeps.size_eq
          hkeeps'.size_eq (hsound.cast (by rw [Multiset.map_cons, Multiset.cons_add]))
          (hsound'.cast (by rw [Multiset.map_cons, Multiset.cons_add])) hcounts hmatched⟩

theorem left_cons (h : Twins own own' p q (x ::ₘ bonds)) :
    p.Sound (x.left ::ₘ (bonds.map Bond.left + own)) :=
  h.left.cast (by rw [Multiset.map_cons, Multiset.cons_add])

theorem right_cons (h : Twins own own' p q (x ::ₘ bonds)) :
    q.Sound (x.right ::ₘ (bonds.map Bond.right + own')) :=
  h.right.cast (by rw [Multiset.map_cons, Multiset.cons_add])

/-- The slots at the ends of a bond have further handles on both sides or on none. -/
theorem shared_iff (h : Twins own own' p q (x ::ₘ bonds)) :
    x.left ∈ bonds.map Bond.left + own ↔ x.right ∈ bonds.map Bond.right + own' := by
  have hx := Multiset.mem_cons_self x bonds
  rw [Multiset.mem_add, Multiset.mem_add, or_iff_left (h.bonds.apart_left x hx),
    or_iff_left (h.bonds.apart_right x hx), Multiset.mem_map, Multiset.mem_map]
  exact exists_congr fun y => and_congr_right fun hy =>
    h.bonds.matched y (Multiset.mem_cons_of_mem hy) x hx

/-- The handles of a bond are given back. -/
theorem release (h : Twins own own' p q (x ::ₘ bonds)) :
    Twins own own' (p.release x.left) (q.release x.right) bonds := by
  obtain ⟨hsound, hkeeps⟩ := h.left_cons.release
  obtain ⟨hsound', hkeeps'⟩ := h.right_cons.release
  have hcounts (i : Nat) :
      ((p.release x.left).bucket i).freeCount = ((q.release x.right).bucket i).freeCount := by
    rw [h.left_cons.freeCount_release, h.right_cons.freeCount_release, h.freeCount_eq,
      h.bonds.sizeClass x (Multiset.mem_cons_self x bonds)]
    simp only [h.shared_iff]
  exact h.change hkeeps.shows hkeeps'.shows hkeeps.size_eq hkeeps'.size_eq hsound hsound' hcounts
    ((h.bonds.mono fun y hy => Multiset.mem_cons_of_mem hy).shows
      (fun y hy => hkeeps.bytes_eq _ (mem_left hy)) fun y hy => hkeeps'.bytes_eq _ (mem_right hy))

/-- A second handle is made on both sides, or refused because too many are there. -/
theorem retain (h : Twins own own' p q (x ::ₘ bonds)) :
    (∃ fault, p.retain x.left = .error fault ∧ q.retain x.right = .error fault) ∨
      ∃ p' q', p.retain x.left = .ok p' ∧ q.retain x.right = .ok q' ∧
        Twins own own' p' q' (x ::ₘ x ::ₘ bonds) := by
  have hx := Multiset.mem_cons_self x bonds
  cases hp : p.retain x.left with
  | error fault =>
      cases hq : q.retain x.right with
      | error fault' =>
          refine Or.inl ⟨fault, rfl, ?_⟩
          rw [h.left.fault_of_retain (mem_left hx) hp, h.right.fault_of_retain (mem_right hx) hq]
      | ok q' =>
          have hlt := h.right_cons.count_lt_of_retain hq
          rw [← Multiset.cons_add, ← Multiset.map_cons Bond.right, ← h.bonds.count_eq hx] at hlt
          exact absurd (h.left.le_count_of_retain (mem_left hx) hp) (Nat.not_le.2 hlt)
  | ok p' =>
      cases hq : q.retain x.right with
      | error fault =>
          have hlt := h.left_cons.count_lt_of_retain hp
          rw [← Multiset.cons_add, ← Multiset.map_cons Bond.left, h.bonds.count_eq hx] at hlt
          exact absurd (h.right.le_count_of_retain (mem_right hx) hq) (Nat.not_le.2 hlt)
      | ok q' =>
          obtain ⟨hsound, hshows⟩ := h.left.retain_mem (mem_left hx) hp
          obtain ⟨hsound', hshows'⟩ := h.right.retain_mem (mem_right hx) hq
          have hmore : ∀ y ∈ x ::ₘ x ::ₘ bonds, y ∈ x ::ₘ bonds := fun y hy =>
            (Multiset.mem_cons.1 hy).elim (fun he => he ▸ hx) id
          have hcounts (i : Nat) : (p'.bucket i).freeCount = (q'.bucket i).freeCount := by
            rw [freeCount_of_retain hp, freeCount_of_retain hq]
            exact h.freeCount_eq i
          exact Or.inr ⟨p', q', rfl, rfl, h.change hshows hshows' (size_of_retain hp)
            (size_of_retain hq) (hsound.cast (by simp only [Multiset.map_cons, Multiset.cons_add]))
            (hsound'.cast (by simp only [Multiset.map_cons, Multiset.cons_add])) hcounts
            ((h.bonds.mono hmore).shows (fun y hy => hshows.bytes_eq _ (mem_left (hmore y hy)))
              fun y hy => hshows'.bytes_eq _ (mem_right (hmore y hy)))⟩

/-- A bond with fewer known bytes, or with others that are the same as well. -/
theorem reach (h : Twins own own' p q (x ::ₘ bonds)) {start stop : Nat}
    (hbytes : ∀ i, start ≤ i → i < stop → (p.bytes x.left)[i]? = (q.bytes x.right)[i]?) :
    Twins own own' p q (⟨x.left, x.right, start, stop⟩ ::ₘ bonds) where
  left := h.left_cons.cast (by rw [Multiset.map_cons, Multiset.cons_add])
  right := h.right_cons.cast (by rw [Multiset.map_cons, Multiset.cons_add])
  size_eq := h.size_eq
  capacity_eq := h.capacity_eq
  freeCount_eq := h.freeCount_eq
  bonds := (h.bonds.between hbytes).mono fun y hy => by
    rcases Multiset.mem_cons.1 hy with rfl | hy
    · exact Multiset.mem_cons_self _ _
    · exact Multiset.mem_cons_of_mem (Multiset.mem_cons_of_mem hy)

theorem narrow (h : Twins own own' p q (x ::ₘ bonds)) {start stop : Nat} (hlow : x.start ≤ start)
    (hhigh : stop ≤ x.stop) : Twins own own' p q (⟨x.left, x.right, start, stop⟩ ::ₘ bonds) :=
  h.reach fun i hi hi' => h.bonds.bytes x (Multiset.mem_cons_self x bonds) i (hlow.trans hi)
    (Nat.lt_of_lt_of_le hi' hhigh)

/-- The known bytes are read alike. -/
theorem read_eq (h : Twins own own' p q bonds) (hx : x ∈ bonds) {start stop : Nat}
    (hlow : x.start ≤ start) (hhigh : stop ≤ x.stop) :
    p.read x.left start stop = q.read x.right start stop := by
  rw [Pool.read_eq, Pool.read_eq]
  refine List.ext_getElem? fun i => ?_
  rw [List.getElem?_drop, List.getElem?_drop, List.getElem?_take, List.getElem?_take]
  split
  · rename_i hi
    exact h.bonds.bytes x hx _ (by omega) (by omega)
  · rfl

/-- The bytes of a block after a write. -/
theorem getElem?_written {bytes bytes' data : Bytes} {offset i : Nat}
    (hbytes : bytes' = bytes.take offset ++ data ++ bytes.drop (offset + data.length))
    (hfits : offset + data.length ≤ bytes.length) :
    bytes'[i]? = if offset ≤ i ∧ i < offset + data.length then data[i - offset]? else bytes[i]? := by
  have htake : (bytes.take offset).length = offset := by
    rw [List.length_take]
    omega
  rw [hbytes, List.append_assoc, List.getElem?_append, htake, List.getElem?_append]
  split
  · rename_i hlow
    rw [if_neg (by omega), List.getElem?_take_of_lt hlow]
  · split
    · rw [if_pos (by omega)]
    · rw [if_neg (by omega), List.getElem?_drop]
      congr 1
      omega

/-- A write is refused on both sides or done on both sides. Afterwards the bytes it covers are known
too. -/
theorem write (h : Twins own own' p q (x ::ₘ bonds)) (offset : Nat) (data : Bytes) :
    (∃ fault, p.write x.left offset data = .error fault ∧
        q.write x.right offset data = .error fault) ∨
      ∃ p' q', p.write x.left offset data = .ok p' ∧ q.write x.right offset data = .ok q' ∧
        ∀ {start stop}, (∀ i, start ≤ i → i < stop → (x.start ≤ i ∧ i < x.stop) ∨
          (offset ≤ i ∧ i < offset + data.length)) →
          Twins own own' p' q' (⟨x.left, x.right, start, stop⟩ ::ₘ bonds) := by
  have hx := Multiset.mem_cons_self x bonds
  have hrefs := h.refCount_eq hx
  have hcapacity := h.capacity_block hx
  by_cases hone : p.refCount x.left = 1
  · have hone' : q.refCount x.right = 1 := hrefs.symm.trans hone
    by_cases hfits : offset + data.length ≤ p.capacity x.left
    · have hfits' : offset + data.length ≤ q.capacity x.right := hcapacity ▸ hfits
      have hnew := h.left_cons.unshared_iff.1 hone
      have hnew' := h.right_cons.unshared_iff.1 hone'
      obtain ⟨p', hp, hsound, hkeeps, hbytes⟩ := h.left_cons.write hnew hfits
      obtain ⟨q', hq, hsound', hkeeps', hbytes'⟩ := h.right_cons.write hnew' hfits'
      refine Or.inr ⟨p', q', hp, hq, fun {start stop} hknown => ?_⟩
      -- The other bonds tie other slots, so that their bytes are as before.
      have hrest := (h.bonds.mono fun y hy => Multiset.mem_cons_of_mem hy).shows
        (fun y hy => hkeeps.bytes_eq _ (mem_left hy)) fun y hy => hkeeps'.bytes_eq _ (mem_right hy)
      have hcounts (i : Nat) : (p'.bucket i).freeCount = (q'.bucket i).freeCount := by
        rw [h.left_cons.freeCount_of_write hp, h.right_cons.freeCount_of_write hq]
        exact h.freeCount_eq i
      have htwins : Twins own own' p' q' (⟨x.left, x.right, start, start⟩ ::ₘ bonds) :=
        h.change hkeeps.shows hkeeps'.shows hkeeps.size_eq hkeeps'.size_eq
          (hsound.cast (by rw [Multiset.map_cons, Multiset.cons_add]))
          (hsound'.cast (by rw [Multiset.map_cons, Multiset.cons_add])) hcounts
          (hrest.cons (h.bonds.sizeClass x hx) hnew hnew' start)
      refine htwins.reach fun i hlow hhigh => ?_
      rw [getElem?_written hbytes (by rwa [length_bytes]),
        getElem?_written hbytes' (by rwa [length_bytes])]
      split
      · rfl
      · rename_i hout
        rcases hknown i hlow hhigh with hold | hwritten
        · exact h.bonds.bytes x hx i hold.1 hold.2
        · exact absurd hwritten hout
    · refine Or.inl ⟨.outOfRange, ?_, ?_⟩
      · rw [Pool.write, if_neg (not_ne_iff.2 hone), if_neg hfits]
      · rw [Pool.write, if_neg (not_ne_iff.2 hone'), if_neg (hcapacity ▸ hfits)]
  · refine Or.inl ⟨.sharedBlock, ?_, ?_⟩
    · rw [Pool.write, if_pos hone]
    · rw [Pool.write, if_pos (hrefs ▸ hone)]

/-- Bytes are put into a new block on both sides, or on neither. -/
theorem load (h : Twins own own' p q bonds) (data : Bytes) :
    (∃ e, p.allocate data.length = .error e ∧ q.allocate data.length = .error e) ∨
      ∃ b b' p₁ q₁ p₂ q₂, p.allocate data.length = .ok (b, p₁) ∧
        q.allocate data.length = .ok (b', q₁) ∧ p₁.write b 0 data = .ok p₂ ∧
        q₁.write b' 0 data = .ok q₂ ∧ Twins own own' p₂ q₂ (⟨b, b', 0, data.length⟩ ::ₘ bonds) := by
  rcases h.allocate data.length with hnone | ⟨b, b', p₁, q₁, ha, ha', hnew⟩
  · exact Or.inl hnone
  · obtain ⟨hunshared, hsound, -, hroom⟩ := h.left.allocate ha
    obtain ⟨p₂, hw, -⟩ := hsound.write hunshared ((Nat.zero_add data.length).trans_le hroom)
    rcases hnew.write 0 data with ⟨fault, hnot, -⟩ | ⟨p₂', q₂, hw', hwrite, hknown⟩
    · cases hw.symm.trans hnot
    · refine Or.inr ⟨b, b', p₁, q₁, p₂', q₂, ha, ha', hw', hwrite, hknown fun i _ hi => Or.inr ?_⟩
      exact ⟨Nat.zero_le i, hi.trans_eq (Nat.zero_add data.length).symm⟩

end Twins

end Pool

end DockLink
