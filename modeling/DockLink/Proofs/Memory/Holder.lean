import DockLink.Proofs.Memory.Ownership

/-!
# An owner of handles

What an application may do with the handles that it holds, and with no others. Whatever it does, the
pool goes on to count every handle, and the other holders do not notice.
-/

namespace DockLink

/-- What an owner of handles may do with them. -/
inductive Deed where
  | allocate (size : Nat)
  | retain (block : Block)
  | release (block : Block)
  | write (block : Block) (offset : Nat) (data : Bytes)
deriving DecidableEq

namespace Deed

/-- The handles and the pool after a deed. One with a handle that is not there, or that the pool
refuses, does nothing. -/
def apply (held : List Block) (pool : Pool) : Deed → List Block × Pool
  | .allocate size =>
    match pool.allocate size with
    | .ok (block, pool) => (block :: held, pool)
    | .error _ => (held, pool)
  | .retain block =>
    if block ∈ held then
      match pool.retain block with
      | .ok pool => (block :: held, pool)
      | .error _ => (held, pool)
    else (held, pool)
  | .release block =>
    if block ∈ held then (held.erase block, pool.release block) else (held, pool)
  | .write block offset data =>
    if block ∈ held then
      match pool.write block offset data with
      | .ok pool => (held, pool)
      | .error _ => (held, pool)
    else (held, pool)

def applyAll : List Block → Pool → List Deed → List Block × Pool
  | held, pool, [] => (held, pool)
  | held, pool, deed :: rest => applyAll (deed.apply held pool).1 (deed.apply held pool).2 rest

variable {pool : Pool} {held : List Block} {others : Multiset Block}

theorem split_held {b : Block} (hb : b ∈ held) (others : Multiset Block) :
    (held : Multiset Block) + others = b ::ₘ ((held.erase b : List Block) + others) := by
  rw [← Multiset.cons_add, ← Multiset.coe_erase, Multiset.cons_erase (Multiset.mem_coe.2 hb)]

theorem apply_spec (h : pool.Sound (held + others)) (deed : Deed) :
    (deed.apply held pool).2.Sound ((deed.apply held pool).1 + others) ∧
      pool.Keeps (deed.apply held pool).2 others := by
  have hothers : ∀ {c : Block} {more : Multiset Block}, c ∈ others → c ∈ more + others :=
    fun hc => Multiset.mem_add.2 (Or.inr hc)
  cases deed with
  | allocate size =>
      simp only [apply]
      cases ha : pool.allocate size with
      | error e => exact ⟨h, Pool.Keeps.refl _ _⟩
      | ok found =>
          obtain ⟨b, q⟩ := found
          obtain ⟨-, hsound, hkeeps, -⟩ := h.allocate ha
          exact ⟨hsound.cast (Multiset.cons_add _ _ _).symm, hkeeps.mono fun c hc => hothers hc⟩
  | retain b =>
      simp only [apply]
      split
      · rename_i hb
        have hcast := h.cast (split_held hb others)
        by_cases hlt : (b ::ₘ ((held.erase b : List Block) + others)).count b < 255
        · obtain ⟨q, hok, hsound, hkeeps, -⟩ := hcast.retain hlt
          rw [hok]
          refine ⟨hsound.cast ?_, hkeeps.mono fun c hc => hothers hc⟩
          rw [← split_held hb]
          exact (Multiset.cons_add _ _ _).symm
        · cases hr : pool.retain b with
          | ok q => exact absurd (hcast.count_lt_of_retain hr) hlt
          | error fault => exact ⟨h, Pool.Keeps.refl _ _⟩
      · exact ⟨h, Pool.Keeps.refl _ _⟩
  | release b =>
      simp only [apply]
      split
      · rename_i hb
        obtain ⟨hsound, hkeeps⟩ := (h.cast (split_held hb others)).release
        exact ⟨hsound, hkeeps.mono fun c hc => hothers hc⟩
      · exact ⟨h, Pool.Keeps.refl _ _⟩
  | write b offset data =>
      simp only [apply]
      split
      · rename_i hb
        have hcast := h.cast (split_held hb others)
        cases hw : pool.write b offset data with
        | error fault => exact ⟨h, Pool.Keeps.refl _ _⟩
        | ok q =>
            obtain ⟨hnot, hfits⟩ := hcast.of_write hw
            obtain ⟨q', hw', hsound, hkeeps, -⟩ := hcast.write hnot hfits
            cases hw.symm.trans hw'
            exact ⟨hsound.cast (split_held hb others).symm, hkeeps.mono fun c hc => hothers hc⟩
      · exact ⟨h, Pool.Keeps.refl _ _⟩

/-- Whatever the owner of some handles does, the pool counts all handles, and the others keep what
they show. -/
theorem applyAll_spec (deeds : List Deed) {held : List Block} {pool : Pool}
    (h : pool.Sound (held + others)) :
    (applyAll held pool deeds).2.Sound ((applyAll held pool deeds).1 + others) ∧
      pool.Keeps (applyAll held pool deeds).2 others := by
  induction deeds generalizing held pool with
  | nil => exact ⟨h, Pool.Keeps.refl _ _⟩
  | cons deed rest ih =>
      obtain ⟨hsound, hkeeps⟩ := apply_spec h deed
      obtain ⟨hsound', hkeeps'⟩ := ih hsound
      exact ⟨hsound', hkeeps.trans hkeeps'⟩

end Deed

end DockLink
