import DockLink.Memory.Bucket
import Mathlib.Data.List.Nodup
import Mathlib.Data.List.Perm.Subperm
import Mathlib.Logic.Function.Basic

/-!
# The free list of a size class

`Sound` says how the bytes and counters of a size class hang together: the links in the free slots
lead through the slots that were given back, each once, the counters count the handles, and no handle
was given back that was not there. Every operation keeps it, and none touches the bytes of a slot
that still has a handle.
-/

namespace DockLink

/-! ## Changed entries -/

theorem modify_modify {α : Type} (xs : Array α) (i : Nat) (f g : α → α) :
    (xs.modify i f).modify i g = xs.modify i (g ∘ f) := by
  refine Array.ext_getElem? fun k => ?_
  simp only [Array.getElem?_modify]
  split
  · rw [Option.map_map]
  · rfl

/-- A change to an entry is undone by its inverse. -/
theorem modify_modify_inverse {α : Type} (xs : Array α) {f g : α → α} (h : ∀ x, g (f x) = x)
    (i : Nat) : (xs.modify i f).modify i g = xs := by
  rw [modify_modify, show g ∘ f = id from funext h]
  refine Array.ext_getElem? fun k => ?_
  rw [Array.getElem?_modify, Option.map_id, id, ite_self]

/-- Changes that commute may be made in either order, to one entry or to two. -/
theorem modify_modify_comm {α : Type} (xs : Array α) {f g : α → α} (h : ∀ x, g (f x) = f (g x))
    (i j : Nat) : (xs.modify i f).modify j g = (xs.modify j g).modify i f := by
  by_cases hij : i = j
  · subst hij
    rw [modify_modify, modify_modify, show g ∘ f = f ∘ g from funext h]
  · refine Array.ext_getElem? fun k => ?_
    simp only [Array.getElem?_modify]
    split
    · rename_i hj
      have hi : ¬i = k := fun hi => hij (hi.trans hj.symm)
      rw [if_neg hi, if_neg hi]
    · rfl

namespace Slot

theorem toList_storeFrom {size : Nat} (data : Bytes) :
    ∀ (bytes : Vector UInt8 size) (offset : Nat), offset + data.length ≤ size →
      (storeFrom bytes offset data).toList =
        bytes.toList.take offset ++ data ++ bytes.toList.drop (offset + data.length) := by
  induction data with
  | nil => intro bytes offset _; simp [storeFrom]
  | cons b rest ih =>
      intro bytes offset h
      simp only [List.length_cons] at h
      rw [storeFrom, ih _ _ (by omega)]
      apply List.ext_getElem
      · simp; omega
      · intro i h₁ h₂
        simp only [List.getElem_append, List.getElem_take, List.getElem_drop, List.length_append,
          List.length_take, Vector.getElem_toList, Vector.length_toList, List.length_cons,
          Vector.getElem_setIfInBounds]
        grind

end Slot

namespace Bucket

variable {b : Bucket} {count : UInt8 → Nat} {free : List UInt8} {s t : UInt8}

/-- The bytes of a slot. -/
def bytesAt (b : Bucket) (s : UInt8) : Bytes := (b.slot s).bytes.toList

/-- The links lead from `head` through `free`, and the last one ends the list. -/
def Chain (b : Bucket) : UInt8 → List UInt8 → Prop
  | head, [] => head = noSlot
  | head, s :: rest => head = s ∧ s ≠ noSlot ∧ b.Chain (b.link s) rest

/-- A size class whose slots have `count` handles each, with the free slots `free`. -/
structure Sound (b : Bucket) (count : UInt8 → Nat) (free : List UInt8) : Prop where
  capacity_pos : 0 < b.capacity
  size_le : b.slots.size ≤ maxSlots
  watermark_le : b.watermark.toNat ≤ b.slots.size
  refs_eq : ∀ s, (b.refs s).toNat = count s
  chain : b.Chain b.freeHead free
  nodup : free.Nodup
  free_count : ∀ s ∈ free, count s = 0
  touched : ∀ s : UInt8, s.toNat < b.watermark.toNat ↔ s ∈ free ∨ 0 < count s
  used_eq : b.used.toNat + free.length = b.watermark.toNat
  faultless : b.fault? = none

/-! ## Slots -/

theorem slot_onSlot (b : Bucket) (s t : UInt8) (f : Slot b.capacity → Slot b.capacity) :
    (b.onSlot s f).slot t =
      if s = t ∧ t.toNat < b.slots.size then f (b.slot t) else b.slot t := by
  simp only [slot, onSlot, Array.getD_eq_getD_getElem?, Array.getElem?_modify]
  by_cases h : s = t
  · subst h
    by_cases hlt : s.toNat < b.slots.size <;> simp [hlt]
  · have : s.toNat ≠ t.toNat := fun e => h (UInt8.toNat_inj.1 e)
    simp [h, this]

@[simp]
theorem refs_onSlot (b : Bucket) (s t : UInt8) (f : Slot b.capacity → Slot b.capacity) :
    (b.onSlot s f).refs t =
      if s = t ∧ t.toNat < b.slots.size then (f (b.slot t)).refs else b.refs t := by
  simp only [refs, slot_onSlot]
  split <;> rfl

@[simp]
theorem bytesAt_onSlot (b : Bucket) (s t : UInt8) (f : Slot b.capacity → Slot b.capacity) :
    (b.onSlot s f).bytesAt t =
      if s = t ∧ t.toNat < b.slots.size then (f (b.slot t)).bytes.toList else b.bytesAt t := by
  simp only [bytesAt, slot_onSlot]
  split <;> rfl

@[simp]
theorem size_onSlot (b : Bucket) (s : UInt8) (f : Slot b.capacity → Slot b.capacity) :
    (b.onSlot s f).slots.size = b.slots.size := by
  simp [onSlot]

@[simp]
theorem watermark_onSlot (b : Bucket) (s : UInt8) (f : Slot b.capacity → Slot b.capacity) :
    (b.onSlot s f).watermark = b.watermark := rfl

@[simp]
theorem fault?_onSlot (b : Bucket) (s : UInt8) (f : Slot b.capacity → Slot b.capacity) :
    (b.onSlot s f).fault? = b.fault? := rfl

@[simp]
theorem length_bytesAt (b : Bucket) (s : UInt8) : (b.bytesAt s).length = b.capacity := by
  simp [bytesAt]

theorem link_eq (b : Bucket) (s : UInt8) : b.link s = (b.bytesAt s)[0]?.getD noSlot := by
  simp [link, bytesAt]

/-- The chain depends on the bytes of the free slots only. -/
theorem Chain.congr {b' : Bucket} {free : List UInt8} (hb : ∀ s ∈ free, b'.bytesAt s = b.bytesAt s) :
    ∀ {head : UInt8}, b.Chain head free → b'.Chain head free := by
  induction free with
  | nil => intro head h; exact h
  | cons s rest ih =>
      rintro head ⟨rfl, hne, h⟩
      refine ⟨rfl, hne, ?_⟩
      rw [link_eq, hb head (by simp), ← link_eq]
      exact ih (fun t ht => hb t (by simp [ht])) h

/-! ## What holds of the slots -/

namespace Sound

theorem lt_watermark_of_free (h : b.Sound count free) (hs : s ∈ free) :
    s.toNat < b.watermark.toNat := (h.touched s).2 (Or.inl hs)

theorem lt_watermark_of_live (h : b.Sound count free) (hs : 0 < count s) :
    s.toNat < b.watermark.toNat := (h.touched s).2 (Or.inr hs)

theorem lt_size_of_live (h : b.Sound count free) (hs : 0 < count s) : s.toNat < b.slots.size :=
  Nat.lt_of_lt_of_le (h.lt_watermark_of_live hs) h.watermark_le

theorem watermark_le_max (h : b.Sound count free) : b.watermark.toNat ≤ 255 := by
  have := h.watermark_le
  have := h.size_le
  simp only [maxSlots, noSlot, UInt8.reduceToNat] at this
  omega

theorem ne_noSlot (h : b.Sound count free) (hs : s.toNat < b.slots.size) : s ≠ noSlot := by
  rintro rfl
  have := h.size_le
  simp only [maxSlots] at this
  omega

/-- Distinct slots below a bound are no more than the bound. -/
theorem length_le_of_nodup {slots : List UInt8} {n : Nat} (hnd : slots.Nodup)
    (hlt : ∀ s ∈ slots, s.toNat < n) : slots.length ≤ n := by
  have hnd' : (slots.map UInt8.toNat).Nodup := hnd.map fun _ _ e => UInt8.toNat_inj.1 e
  have hsub : slots.map UInt8.toNat ⊆ List.range n := by
    intro i hi
    obtain ⟨s, hs, rfl⟩ := List.mem_map.1 hi
    exact List.mem_range.2 (hlt s hs)
  simpa using (List.Nodup.subperm hnd' hsub).length_le

theorem not_free_of_live (h : b.Sound count free) (hs : 0 < count s) : s ∉ free := by
  intro hf
  rw [h.free_count s hf] at hs
  exact Nat.lt_irrefl 0 hs

theorem length_lt_of_live (h : b.Sound count free) (hs : 0 < count s) :
    free.length < b.watermark.toNat := by
  refine length_le_of_nodup (List.nodup_cons.2 ⟨h.not_free_of_live hs, h.nodup⟩) ?_
  intro t ht
  rcases List.mem_cons.1 ht with rfl | ht
  · exact h.lt_watermark_of_live hs
  · exact h.lt_watermark_of_free ht

/-- The free slots and the live ones are those that were ever handed out. -/
theorem perm_touched (h : b.Sound count free) {live : List UInt8} (hnodup : live.Nodup)
    (hlive : ∀ s, s ∈ live ↔ 0 < count s) :
    ((free ++ live).map UInt8.toNat).Perm (List.range b.watermark.toNat) := by
  have hnodup' : (free ++ live).Nodup := by
    refine List.nodup_append.2 ⟨h.nodup, hnodup, ?_⟩
    rintro s hs r hr rfl
    exact h.not_free_of_live ((hlive s).1 hr) hs
  have htouched : ∀ s : UInt8, s.toNat < b.watermark.toNat ↔ s ∈ free ++ live := fun s => by
    rw [h.touched s, List.mem_append, hlive]
  refine (List.perm_ext_iff_of_nodup ?_ List.nodup_range).2 fun i => ?_
  · exact hnodup'.map fun _ _ e => UInt8.toNat_inj.1 e
  · rw [List.mem_map, List.mem_range]
    constructor
    · rintro ⟨s, hs, rfl⟩
      exact (htouched s).2 hs
    · intro hi
      have hlt : i < 256 := by have := b.watermark.toNat_lt; omega
      have hval : (UInt8.ofNat i).toNat = i := UInt8.toNat_ofNat_of_lt' hlt
      exact ⟨UInt8.ofNat i, (htouched _).1 (by rwa [hval]), hval⟩

theorem used_eq_length (h : b.Sound count free) {live : List UInt8} (hnodup : live.Nodup)
    (hlive : ∀ s, s ∈ live ↔ 0 < count s) : b.used.toNat = live.length := by
  have hlen := (h.perm_touched hnodup hlive).length_eq
  have hused := h.used_eq
  simp only [List.length_map, List.length_append, List.length_range] at hlen
  omega

theorem freeCount_of_unused (h : b.Sound count free) (hunused : ∀ s, count s = 0) :
    b.freeCount = b.slots.size := by
  have hlive : ∀ s, s ∈ ([] : List UInt8) ↔ 0 < count s := fun s => by simp [hunused s]
  have hused : b.used.toNat = 0 := h.used_eq_length List.nodup_nil hlive
  rw [freeCount, hused, Nat.sub_zero]

end Sound

/-! ## Operations -/

theorem Sound.fresh (capacity size : Nat) (hc : 0 < capacity) (hs : size ≤ maxSlots) :
    (fresh capacity size).Sound (fun _ => 0) [] where
  capacity_pos := hc
  size_le := by simpa [Bucket.fresh] using hs
  watermark_le := by simp [Bucket.fresh]
  refs_eq := by
    intro s
    simp only [refs, slot, Bucket.fresh, Array.getD_eq_getD_getElem?, Array.getElem?_replicate]
    split <;> rfl
  chain := rfl
  nodup := List.nodup_nil
  free_count := by simp
  touched := by simp [Bucket.fresh]
  used_eq := by simp [Bucket.fresh]
  faultless := rfl

/-- A class has a slot to hand out unless every slot has a handle. -/
theorem Sound.acquire_eq_none_iff (h : b.Sound count free) :
    b.acquire = none ↔ free = [] ∧ b.watermark.toNat = b.slots.size := by
  have hw := h.watermark_le
  cases hf : free with
  | nil =>
      subst hf
      have hh : b.freeHead = noSlot := h.chain
      simp only [acquire, hh, ne_eq, not_true_eq_false, ↓reduceIte, true_and]
      split
      · simp only [reduceCtorEq, false_iff]; omega
      · simp only [true_iff]; omega
  | cons s rest =>
      subst hf
      obtain ⟨hh, hne, -⟩ := h.chain
      simp [acquire, hh, hne]

@[simp]
theorem watermark_claim (b : Bucket) (s : UInt8) : (b.claim s).watermark = b.watermark := rfl

@[simp]
theorem used_claim (b : Bucket) (s : UInt8) : (b.claim s).used = b.used + 1 := rfl

@[simp]
theorem size_claim (b : Bucket) (s : UInt8) : (b.claim s).slots.size = b.slots.size := by
  simp [claim]

@[simp]
theorem bytesAt_claim (b : Bucket) (s t : UInt8) : (b.claim s).bytesAt t = b.bytesAt t := by
  show (b.onSlot s _).bytesAt t = _
  rw [bytesAt_onSlot]
  split <;> rfl

theorem refs_claim (b : Bucket) (hs : s.toNat < b.slots.size) (t : UInt8) :
    (b.claim s).refs t = Function.update b.refs s 1 t := by
  show (b.onSlot s _).refs t = _
  rw [refs_onSlot, Function.update_apply]
  by_cases hts : t = s
  · subst hts; simp [hs]
  · simp [hts, Ne.symm hts]

/-- The slot given back last is handed out first. -/
theorem Sound.acquire_cons (h : b.Sound count (s :: free)) :
    ∃ b', b.acquire = some (s, b') ∧ b'.Sound (Function.update count s 1) free ∧
      b'.watermark = b.watermark := by
  obtain ⟨rfl, hne, hchain⟩ := h.chain
  have hw := h.lt_watermark_of_free (List.mem_cons_self (l := free))
  have hlt := Nat.lt_of_lt_of_le hw h.watermark_le
  have hu := h.used_eq
  have hnd := List.nodup_cons.1 h.nodup
  refine ⟨{ b.claim b.freeHead with freeHead := b.link b.freeHead }, by simp [acquire, hne], ?_,
    rfl⟩
  constructor
  case capacity_pos => exact h.capacity_pos
  case size_le => simpa using h.size_le
  case watermark_le => simpa using h.watermark_le
  case refs_eq =>
    intro t
    refine (congrArg UInt8.toNat (refs_claim b hlt t)).trans ?_
    simp only [Function.update_apply]
    split
    · rfl
    · exact h.refs_eq t
  case chain =>
    refine Chain.congr ?_ hchain
    intro t _
    exact bytesAt_claim b _ t
  case nodup => exact hnd.2
  case free_count =>
    intro t ht
    rw [Function.update_of_ne (by rintro rfl; exact hnd.1 ht)]
    exact h.free_count t (List.mem_cons_of_mem _ ht)
  case touched =>
    intro t
    have := h.touched t
    by_cases hts : t = b.freeHead
    · subst hts; simpa using hw
    · rw [Function.update_of_ne hts]
      simpa [hts] using this
  case used_eq =>
    have hle := h.watermark_le_max
    simp only [List.length_cons] at hu
    simp only [used_claim, watermark_claim, UInt8.toNat_add, UInt8.toNat_one]
    omega
  case faultless => exact h.faultless

/-- With no slot given back, the next one that was never used is handed out. -/
theorem Sound.acquire_nil (h : b.Sound count []) (hlt : b.watermark.toNat < b.slots.size) :
    ∃ b', b.acquire = some (b.watermark, b') ∧
      b'.Sound (Function.update count b.watermark 1) [] ∧
      b'.watermark.toNat = b.watermark.toNat + 1 := by
  have hh : b.freeHead = noSlot := h.chain
  have hu := h.used_eq
  have hs := h.size_le
  have hnext : (b.watermark + 1).toNat = b.watermark.toNat + 1 := by
    simp only [maxSlots, noSlot, UInt8.reduceToNat] at hs
    simp only [UInt8.toNat_add, UInt8.toNat_one]
    omega
  refine ⟨{ b.claim b.watermark with watermark := b.watermark + 1 }, by simp [acquire, hh, hlt], ?_,
    hnext⟩
  constructor
  case capacity_pos => exact h.capacity_pos
  case size_le => simpa using h.size_le
  case watermark_le =>
    simp only [size_claim, hnext]
    exact hlt
  case refs_eq =>
    intro t
    refine (congrArg UInt8.toNat (refs_claim b hlt t)).trans ?_
    simp only [Function.update_apply]
    split
    · rfl
    · exact h.refs_eq t
  case chain => exact h.chain
  case nodup => exact h.nodup
  case free_count => simp
  case touched =>
    intro t
    have := h.touched t
    by_cases hts : t = b.watermark
    · subst hts; simp [hnext]
    · have hne : t.toNat ≠ b.watermark.toNat := fun e => hts (UInt8.toNat_inj.1 e)
      rw [Function.update_of_ne hts, hnext, ← this]
      omega
  case used_eq =>
    have hle := h.watermark_le_max
    simp only [List.length_nil] at hu ⊢
    simp only [used_claim, hnext, UInt8.toNat_add, UInt8.toNat_one]
    simp only [maxSlots, noSlot, UInt8.reduceToNat] at hs
    omega
  case faultless => exact h.faultless

/-- Acquiring gives a slot without handles its first one, and changes no byte. -/
theorem Sound.acquire (h : b.Sound count free) {b' : Bucket} (ha : b.acquire = some (s, b')) :
    count s = 0 ∧ b'.Sound (Function.update count s 1) free.tail := by
  cases free with
  | nil =>
      have hlt : b.watermark.toNat < b.slots.size := by
        by_contra hlt
        have : b.acquire = none :=
          h.acquire_eq_none_iff.2 ⟨rfl, Nat.le_antisymm h.watermark_le (Nat.le_of_not_lt hlt)⟩
        simp [this] at ha
      obtain ⟨b'', ha', hb, -⟩ := h.acquire_nil hlt
      rw [ha] at ha'
      cases ha'
      refine ⟨?_, hb⟩
      by_contra hc
      exact Nat.lt_irrefl _ (h.lt_watermark_of_live (Nat.pos_of_ne_zero hc))
  | cons t rest =>
      obtain ⟨b'', ha', hb, -⟩ := h.acquire_cons
      rw [ha] at ha'
      cases ha'
      exact ⟨h.free_count s (by simp), hb⟩

theorem bytesAt_of_acquire {b' : Bucket} (ha : b.acquire = some (s, b')) (t : UInt8) :
    b'.bytesAt t = b.bytesAt t := by
  unfold Bucket.acquire at ha
  split at ha
  · cases ha; exact bytesAt_claim b _ t
  · split at ha
    · cases ha; exact bytesAt_claim b _ t
    · cases ha

theorem capacity_of_acquire {b' : Bucket} (ha : b.acquire = some (s, b')) :
    b'.capacity = b.capacity := by
  unfold Bucket.acquire at ha
  split at ha
  · cases ha; rfl
  · split at ha
    · cases ha; rfl
    · cases ha

theorem size_of_acquire {b' : Bucket} (ha : b.acquire = some (s, b')) :
    b'.slots.size = b.slots.size := by
  unfold Bucket.acquire at ha
  split at ha
  · cases ha; exact size_claim b _
  · split at ha
    · cases ha; exact size_claim b _
    · cases ha

theorem fault?_of_acquire {b' : Bucket} (ha : b.acquire = some (s, b')) :
    b'.fault? = b.fault? := by
  unfold Bucket.acquire at ha
  split at ha
  · cases ha; rfl
  · split at ha
    · cases ha; rfl
    · cases ha

theorem retain_eq_ok {b' : Bucket} (hr : b.retain s = .ok b') :
    b.refs s ≠ 0 ∧ b.refs s ≠ 255 ∧
      b' = b.onSlot s fun slot => { slot with refs := slot.refs + 1 } := by
  unfold Bucket.retain at hr
  split at hr
  · cases hr
  · rename_i hlive
    split at hr
    · cases hr
    · rename_i hfull
      exact ⟨hlive, hfull, (Except.ok.inj hr).symm⟩

/-- A further handle is refused only when the counter is full. -/
theorem Sound.retain_eq_error_iff (h : b.Sound count free) :
    b.retain s = .error .refCountOverflow ↔ count s = 255 := by
  rw [← h.refs_eq s, Bucket.retain]
  split
  · rename_i hs; simp [hs]
  · split
    · rename_i hs; simp [hs]
    · rename_i hs
      simp only [reduceCtorEq, false_iff]
      intro e
      exact hs (UInt8.toNat_inj.1 e)

theorem Sound.retain (h : b.Sound count free) (hs : 0 < count s) (hlt : count s < 255) :
    ∃ b', b.retain s = .ok b' ∧ b'.Sound (Function.update count s (count s + 1)) free := by
  have hlive : b.refs s ≠ 0 := by
    intro e
    rw [← h.refs_eq s, e] at hs
    exact Nat.lt_irrefl _ hs
  have hne : b.refs s ≠ 255 := by
    intro e
    rw [← h.refs_eq s, e] at hlt
    exact Nat.lt_irrefl _ hlt
  have hsize := h.lt_size_of_live hs
  refine ⟨b.onSlot s fun slot => { slot with refs := slot.refs + 1 },
    by simp [Bucket.retain, hlive, hne], ?_⟩
  constructor
  case capacity_pos => exact h.capacity_pos
  case size_le => simpa using h.size_le
  case watermark_le => simpa using h.watermark_le
  case refs_eq =>
    intro t
    rw [refs_onSlot, Function.update_apply]
    by_cases hts : t = s
    · subst hts
      have := h.refs_eq t
      simp only [hsize, and_self, ↓reduceIte, UInt8.toNat_add, UInt8.toNat_one]
      simp only [refs] at this
      omega
    · simpa [hts, Ne.symm hts] using h.refs_eq t
  case chain =>
    refine Chain.congr ?_ h.chain
    intro t _
    rw [bytesAt_onSlot]
    split <;> rfl
  case nodup => exact h.nodup
  case free_count =>
    intro t ht
    rw [Function.update_of_ne (by rintro rfl; exact h.not_free_of_live hs ht)]
    exact h.free_count t ht
  case touched =>
    intro t
    have := h.touched t
    rw [Function.update_apply]
    split
    · rename_i hts; subst hts; simpa [hs] using this
    · exact this
  case used_eq => exact h.used_eq
  case faultless => exact h.faultless

theorem Sound.count_lt_of_retain (h : b.Sound count free) {b' : Bucket}
    (hr : b.retain s = .ok b') : count s < 255 := by
  have hlt := (b.refs s).toNat_lt
  rw [h.refs_eq s] at hlt
  by_contra hge
  rw [h.retain_eq_error_iff.2 (by omega)] at hr
  cases hr

theorem bytesAt_of_retain {b' : Bucket} (hr : b.retain s = .ok b') (t : UInt8) :
    b'.bytesAt t = b.bytesAt t := by
  obtain ⟨-, -, rfl⟩ := retain_eq_ok hr
  rw [bytesAt_onSlot]
  split <;> rfl

theorem capacity_of_retain {b' : Bucket} (hr : b.retain s = .ok b') : b'.capacity = b.capacity := by
  obtain ⟨-, -, rfl⟩ := retain_eq_ok hr
  rfl

theorem size_of_retain {b' : Bucket} (hr : b.retain s = .ok b') :
    b'.slots.size = b.slots.size := by
  obtain ⟨-, -, rfl⟩ := retain_eq_ok hr
  exact size_onSlot b s _

theorem fault?_of_retain {b' : Bucket} (hr : b.retain s = .ok b') : b'.fault? = b.fault? := by
  obtain ⟨-, -, rfl⟩ := retain_eq_ok hr
  rfl

theorem Sound.release_shared (h : b.Sound count free) (hs : 1 < count s) :
    (b.release s).Sound (Function.update count s (count s - 1)) free ∧
      ∀ t, (b.release s).bytesAt t = b.bytesAt t := by
  have hsize := h.lt_size_of_live (Nat.lt_of_succ_lt hs)
  have hrefs := h.refs_eq s
  have h0 : b.refs s ≠ 0 := by intro e; rw [e] at hrefs; simp at hrefs; omega
  have h1 : b.refs s ≠ 1 := by intro e; rw [e] at hrefs; simp at hrefs; omega
  have hb : b.release s = b.onSlot s fun slot => { slot with refs := slot.refs - 1 } := by
    simp [release, h0, h1]
  have hbytes : ∀ t, (b.release s).bytesAt t = b.bytesAt t := by
    intro t
    rw [hb, bytesAt_onSlot]
    split <;> rfl
  refine ⟨?_, hbytes⟩
  constructor
  case capacity_pos => rw [hb]; exact h.capacity_pos
  case size_le => rw [hb]; simpa using h.size_le
  case watermark_le => rw [hb]; simpa using h.watermark_le
  case refs_eq =>
    intro t
    rw [hb, refs_onSlot, Function.update_apply]
    by_cases hts : t = s
    · subst hts
      have hlt := (b.refs t).toNat_lt
      simp only [refs] at hrefs hlt
      simp only [hsize, and_self, ↓reduceIte, UInt8.toNat_sub, UInt8.toNat_one]
      omega
    · simpa [hts, Ne.symm hts] using h.refs_eq t
  case chain =>
    have : (b.release s).freeHead = b.freeHead := by rw [hb]; rfl
    rw [this]
    exact Chain.congr (fun t _ => hbytes t) h.chain
  case nodup => exact h.nodup
  case free_count =>
    intro t ht
    rw [Function.update_of_ne (by rintro rfl; rw [h.free_count _ ht] at hs; omega)]
    exact h.free_count t ht
  case touched =>
    intro t
    have := h.touched t
    rw [hb, Function.update_apply, watermark_onSlot]
    split
    · rename_i hts; subst hts; rw [this]; omega
    · exact this
  case used_eq => rw [hb]; exact h.used_eq
  case faultless => rw [hb]; exact h.faultless

/-- The last handle given back: the slot becomes the head of the list. -/
theorem Sound.release_last (h : b.Sound count free) (hs : count s = 1) :
    (b.release s).Sound (Function.update count s 0) (s :: free) ∧
      ∀ t, t ≠ s → (b.release s).bytesAt t = b.bytesAt t := by
  have hpos : 0 < count s := by omega
  have hsize := h.lt_size_of_live hpos
  have hfree := h.not_free_of_live hpos
  have h1 : b.refs s = 1 := UInt8.toNat_inj.1 ((h.refs_eq s).trans hs)
  have hb : b.release s =
      { b.onSlot s (fun slot =>
          { bytes := slot.bytes.setIfInBounds 0 b.freeHead, refs := 0 }) with
        freeHead := s, used := b.used - 1 } := by
    simp [release, h1]
  have hbytes : ∀ t, (b.release s).bytesAt t = if s = t then
      ((b.slot t).bytes.setIfInBounds 0 b.freeHead).toList else b.bytesAt t := by
    intro t
    rw [hb]
    refine (bytesAt_onSlot b s t _).trans ?_
    by_cases hts : s = t
    · subst hts; simp [hsize]
    · simp [hts]
  have hother : ∀ t, t ≠ s → (b.release s).bytesAt t = b.bytesAt t := by
    intro t ht
    rw [hbytes, if_neg (Ne.symm ht)]
  have hlink : (b.release s).link s = b.freeHead := by
    have := h.capacity_pos
    rw [link_eq, hbytes, if_pos rfl]
    simp [this]
  refine ⟨?_, hother⟩
  constructor
  case capacity_pos => rw [hb]; exact h.capacity_pos
  case size_le => rw [hb]; simpa using h.size_le
  case watermark_le => rw [hb]; simpa using h.watermark_le
  case refs_eq =>
    intro t
    have hrefs : (b.release s).refs t = if s = t then 0 else b.refs t := by
      rw [hb]
      refine (refs_onSlot b s t _).trans ?_
      by_cases hts : s = t
      · subst hts; simp [hsize]
      · simp [hts]
    rw [hrefs, Function.update_apply]
    by_cases hts : t = s
    · simp [hts]
    · simpa [hts, Ne.symm hts] using h.refs_eq t
  case chain =>
    have : (b.release s).freeHead = s := by rw [hb]
    refine ⟨this, h.ne_noSlot hsize, ?_⟩
    rw [hlink]
    -- The link is written into `s` only, and `s` is not on the old chain.
    refine Chain.congr ?_ h.chain
    intro t ht
    exact hother t (by rintro rfl; exact hfree ht)
  case nodup => exact List.nodup_cons.2 ⟨hfree, h.nodup⟩
  case free_count =>
    intro t ht
    rw [Function.update_apply]
    split
    · rfl
    · rename_i hts
      exact h.free_count t ((List.mem_cons.1 ht).resolve_left hts)
  case touched =>
    intro t
    have := h.touched t
    rw [hb, Function.update_apply]
    show t.toNat < b.watermark.toNat ↔ _
    by_cases hts : t = s
    · subst hts; simpa [hpos] using this
    · simpa [hts] using this
  case used_eq =>
    have hu := h.used_eq
    have hw := h.lt_watermark_of_live hpos
    have hlen : free.length < b.watermark.toNat := h.length_lt_of_live hpos
    rw [hb]
    show (b.used - 1).toNat + (s :: free).length = b.watermark.toNat
    simp only [List.length_cons, UInt8.toNat_sub, UInt8.toNat_one]
    have := b.used.toNat_lt
    omega
  case faultless => rw [hb]; exact h.faultless

/-- A handle given back leaves the bytes of every slot alone that has one still. -/
theorem Sound.release (h : b.Sound count free) (hs : 0 < count s) :
    ∃ free', (b.release s).Sound (Function.update count s (count s - 1)) free' ∧
      ∀ t, 0 < Function.update count s (count s - 1) t →
        (b.release s).bytesAt t = b.bytesAt t := by
  by_cases h1 : count s = 1
  · obtain ⟨hb, hbytes⟩ := h.release_last h1
    refine ⟨s :: free, by simpa [h1] using hb, ?_⟩
    intro t ht
    refine hbytes t ?_
    rintro rfl
    simp [h1] at ht
  · obtain ⟨hb, hbytes⟩ := h.release_shared (by omega : 1 < count s)
    exact ⟨free, hb, fun t _ => hbytes t⟩

theorem capacity_release (b : Bucket) (s : UInt8) : (b.release s).capacity = b.capacity := by
  unfold Bucket.release
  split
  · rfl
  · split <;> rfl

theorem watermark_release (b : Bucket) (s : UInt8) :
    (b.release s).watermark = b.watermark := by
  unfold Bucket.release
  split
  · rfl
  · split <;> rfl

theorem size_release (b : Bucket) (s : UInt8) : (b.release s).slots.size = b.slots.size := by
  by_cases h0 : b.refs s = 0
  · rw [Bucket.release, if_pos h0]
  · by_cases h1 : b.refs s = 1
    · rw [Bucket.release, if_neg h0, if_pos h1]; exact size_onSlot b s _
    · rw [Bucket.release, if_neg h0, if_neg h1]; exact size_onSlot b s _

/-- A handle that was not there is noted, and so is every fault that was noted before. -/
theorem fault?_release_eq_none_iff (b : Bucket) (s : UInt8) :
    (b.release s).fault? = none ↔ b.refs s ≠ 0 ∧ b.fault? = none := by
  by_cases h0 : b.refs s = 0
  · simp [Bucket.release, h0]
  · by_cases h1 : b.refs s = 1
    · simp [Bucket.release, h1]
    · simp [Bucket.release, h0, h1]

theorem size_store (b : Bucket) (s : UInt8) (offset : Nat) (data : Bytes) :
    (b.store s offset data).slots.size = b.slots.size := size_onSlot b s _

theorem bytesAt_store_of_ne (offset : Nat) (data : Bytes) (hts : t ≠ s) :
    (b.store s offset data).bytesAt t = b.bytesAt t := by
  rw [store, bytesAt_onSlot, if_neg (fun e => hts e.1.symm)]

theorem bytesAt_store (offset : Nat) (data : Bytes) (hs : s.toNat < b.slots.size)
    (hfits : offset + data.length ≤ b.capacity) :
    (b.store s offset data).bytesAt s =
      (b.bytesAt s).take offset ++ data ++ (b.bytesAt s).drop (offset + data.length) := by
  rw [store, bytesAt_onSlot, if_pos ⟨rfl, hs⟩]
  exact Slot.toList_storeFrom data _ offset hfits

/-- What the holder of a slot writes into it does not disturb the free list. -/
theorem Sound.store (h : b.Sound count free) (hs : 0 < count s) (offset : Nat) (data : Bytes) :
    (b.store s offset data).Sound count free := by
  constructor
  case capacity_pos => exact h.capacity_pos
  case size_le => simpa [Bucket.store] using h.size_le
  case watermark_le => simpa [Bucket.store] using h.watermark_le
  case refs_eq =>
    intro t
    rw [Bucket.store, refs_onSlot]
    split
    · exact h.refs_eq t
    · exact h.refs_eq t
  case chain =>
    refine Chain.congr ?_ h.chain
    intro t ht
    exact bytesAt_store_of_ne offset data (by rintro rfl; exact h.not_free_of_live hs ht)
  case nodup => exact h.nodup
  case free_count => exact h.free_count
  case touched => exact h.touched
  case used_eq => exact h.used_eq
  case faultless => exact h.faultless

end Bucket

end DockLink
