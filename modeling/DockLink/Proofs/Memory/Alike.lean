import DockLink.BoundedQueue
import DockLink.Proofs.Memory.Twins

/-!
# Packets of two pools

Two packets are alike if they have the same ranges of blocks that are tied by bonds. Whatever is done
to both gives packets that are alike again, or goes wrong in the same way, and what is copied from
them is the same.
-/

namespace DockLink

/-- Two computations fail alike, or give results that are related. -/
inductive Agree {ε α β : Type} (R : α → β → Prop) : Except ε α → Except ε β → Prop where
  | error (e : ε) : Agree R (.error e) (.error e)
  | ok {a : α} {b : β} (h : R a b) : Agree R (.ok a) (.ok b)

namespace Agree

variable {ε α β γ δ : Type} {R S : α → β → Prop} {T : γ → δ → Prop} {x : Except ε α}
  {y : Except ε β}

theorem mono (h : Agree R x y) (hle : ∀ a b, R a b → S a b) : Agree S x y := by
  cases h with
  | error e => exact .error e
  | ok h => exact .ok (hle _ _ h)

theorem bind {f : α → Except ε γ} {g : β → Except ε δ} (h : Agree R x y)
    (hf : ∀ a b, R a b → Agree T (f a) (g b)) : Agree T (x >>= f) (y >>= g) := by
  cases h with
  | error e => exact .error e
  | ok h => exact hf _ _ h

theorem map {f : α → γ} {g : β → δ} (h : Agree R x y) (hf : ∀ a b, R a b → T (f a) (g b)) :
    Agree T (x.map f) (y.map g) := by
  cases h with
  | error e => exact .error e
  | ok h => exact .ok (hf _ _ h)

theorem exists_ok {a : α} (h : Agree R (.ok a) y) : ∃ b, y = .ok b ∧ R a b := by
  cases h with
  | ok h => exact ⟨_, rfl, h⟩

/-- Computations on plain data that are the same. -/
theorem of_eq {x y : Except ε α} (h : x = y) : Agree (· = ·) x y := by
  subst h
  cases x with
  | error e => exact .error e
  | ok a => exact .ok rfl

end Agree

/-- Two choices that fall out the same way, between things that are related. -/
theorem related_ite {α β : Type} {R : α → β → Prop} {c c' : Prop} [Decidable c] [Decidable c']
    {a b : α} {a' b' : β} (hc : c ↔ c') (hyes : R a a') (hno : R b b') :
    R (if c then a else b) (if c' then a' else b') := by
  by_cases h : c
  · rw [if_pos h, if_pos (hc.1 h)]
    exact hyes
  · rw [if_neg h, if_neg fun h' => h (hc.2 h')]
    exact hno

namespace Bond

def leftChunk (x : Bond) : Chunk := ⟨x.left, x.start, x.stop⟩

def rightChunk (x : Bond) : Chunk := ⟨x.right, x.start, x.stop⟩

end Bond

/-- Two packets with the same ranges, of blocks that the bonds tie. -/
structure Packet.Alike (bonds : List Bond) (p p' : Packet) : Prop where
  left : p.chunks = bonds.map Bond.leftChunk
  right : p'.chunks = bonds.map Bond.rightChunk
  length_eq : p.length = p'.length

variable {own own' : Multiset Block} {pool pool' : Pool} {rest : Multiset Bond}

namespace Chunk

theorem of_agree {x : Bond} (h : Pool.Twins own own' pool pool' (x ::ₘ rest)) (start stop : Nat) :
    Agree (fun c c' => c = ⟨x.left, start, stop⟩ ∧ c' = ⟨x.right, start, stop⟩)
      (Chunk.of pool x.left start stop) (Chunk.of pool' x.right start stop) := by
  unfold Chunk.of
  rw [h.capacity_block (Multiset.mem_cons_self x rest)]
  split
  · exact .ok ⟨rfl, rfl⟩
  · exact .error _

end Chunk

namespace Packet

variable {bonds : List Bond} {p p' : Packet}

theorem Alike.empty : Alike [] Packet.empty Packet.empty := ⟨rfl, rfl, rfl⟩

theorem Alike.count_eq (h : Alike bonds p p') : p.chunks.length = p'.chunks.length := by
  rw [h.left, h.right, List.length_map, List.length_map]

/-! ## Giving packets back -/

theorem Alike.release (h : Alike bonds p p')
    (ht : Pool.Twins own own' pool pool' ((bonds : Multiset Bond) + rest)) :
    Pool.Twins own own' (p.release pool) (p'.release pool') rest := by
  unfold Packet.release
  rw [h.left, h.right, List.map_map, List.map_map]
  clear h
  induction bonds generalizing pool pool' with
  | nil => exact ht.cast (zero_add rest)
  | cons x more ih =>
      have hcons : Pool.Twins own own' pool pool' (x ::ₘ ((more : Multiset Bond) + rest)) :=
        ht.cast (by rw [← Multiset.cons_coe, Multiset.cons_add])
      exact ih hcons.release

/-! ## Adding a chunk -/

/-- Chunks are added alike, by a way that does not look at them. -/
theorem Alike.add {place : Chunk → List Chunk → List Chunk} (placed : Bond → List Bond → List Bond)
    (hleft : ∀ x l, place x.leftChunk (l.map Bond.leftChunk) = (placed x l).map Bond.leftChunk)
    (hright : ∀ x l, place x.rightChunk (l.map Bond.rightChunk) = (placed x l).map Bond.rightChunk)
    (hperm : ∀ x l, (placed x l).Perm (x :: l)) (h : Alike bonds p p') {x : Bond}
    (ht : Pool.Twins own own' pool pool' (x ::ₘ ((bonds : Multiset Bond) + rest))) :
    (add place pool p x.leftChunk = .error x.leftChunk ∧
        add place pool' p' x.rightChunk = .error x.rightChunk) ∨
      ∃ p₁ p₁' q q' bonds₁, add place pool p x.leftChunk = .ok (p₁, q) ∧
        add place pool' p' x.rightChunk = .ok (p₁', q') ∧ Alike bonds₁ p₁ p₁' ∧
        Pool.Twins own own' q q' ((bonds₁ : Multiset Bond) + rest) := by
  have hlength : x.rightChunk.length = x.leftChunk.length := rfl
  unfold Packet.add
  rw [hlength, ← h.count_eq]
  split
  · exact Or.inr ⟨p, p', _, _, bonds, rfl, rfl, h, ht.release⟩
  · split
    · refine Or.inr ⟨_, _, pool, pool', placed x bonds, rfl, rfl, ⟨?_, ?_, ?_⟩, ht.cast ?_⟩
      · rw [h.left, hleft]
      · rw [h.right, hright]
      · rw [h.length_eq]
      · rw [Multiset.coe_eq_coe.2 (hperm x bonds), ← Multiset.cons_coe, Multiset.cons_add]
    · exact Or.inl ⟨rfl, rfl⟩

theorem Alike.push (h : Alike bonds p p') {x : Bond}
    (ht : Pool.Twins own own' pool pool' (x ::ₘ ((bonds : Multiset Bond) + rest))) :
    (p.push pool x.leftChunk = .error x.leftChunk ∧
        p'.push pool' x.rightChunk = .error x.rightChunk) ∨
      ∃ p₁ p₁' q q' bonds₁, p.push pool x.leftChunk = .ok (p₁, q) ∧
        p'.push pool' x.rightChunk = .ok (p₁', q') ∧ Alike bonds₁ p₁ p₁' ∧
        Pool.Twins own own' q q' ((bonds₁ : Multiset Bond) + rest) :=
  h.add (fun x l => l ++ [x]) (fun _ _ => by rw [List.map_append, List.map_singleton])
    (fun _ _ => by rw [List.map_append, List.map_singleton])
    (fun x l => List.perm_append_singleton x l) ht

theorem Alike.pushFront (h : Alike bonds p p') {x : Bond}
    (ht : Pool.Twins own own' pool pool' (x ::ₘ ((bonds : Multiset Bond) + rest))) :
    (p.pushFront pool x.leftChunk = .error x.leftChunk ∧
        p'.pushFront pool' x.rightChunk = .error x.rightChunk) ∨
      ∃ p₁ p₁' q q' bonds₁, p.pushFront pool x.leftChunk = .ok (p₁, q) ∧
        p'.pushFront pool' x.rightChunk = .ok (p₁', q') ∧ Alike bonds₁ p₁ p₁' ∧
        Pool.Twins own own' q q' ((bonds₁ : Multiset Bond) + rest) :=
  h.add List.cons (fun _ _ => rfl) (fun _ _ => rfl) (fun _ _ => List.Perm.refl _) ht

/-! ## Dropping bytes -/

theorem dropBytes_agree (bonds : List Bond) (count : Nat)
    (ht : Pool.Twins own own' pool pool' ((bonds : Multiset Bond) + rest)) :
    Agree (fun r r' => ∃ kept : List Bond, r.1 = kept.map Bond.leftChunk ∧
        r'.1 = kept.map Bond.rightChunk ∧
        Pool.Twins own own' r.2 r'.2 ((kept : Multiset Bond) + rest))
      (dropBytes pool (bonds.map Bond.leftChunk) count)
      (dropBytes pool' (bonds.map Bond.rightChunk) count) := by
  induction bonds generalizing pool pool' count with
  | nil =>
      cases count with
      | zero => exact .ok ⟨[], rfl, rfl, ht⟩
      | succ n => exact .error _
  | cons x more ih =>
      cases count with
      | zero => exact .ok ⟨x :: more, rfl, rfl, ht⟩
      | succ n =>
          have hcons : Pool.Twins own own' pool pool' (x ::ₘ ((more : Multiset Bond) + rest)) :=
            ht.cast (by rw [← Multiset.cons_coe, Multiset.cons_add])
          have hlength : x.rightChunk.length = x.leftChunk.length := rfl
          simp only [List.map_cons, dropBytes, hlength]
          split
          · exact ih _ hcons.release
          · refine .ok ⟨⟨x.left, x.right, x.start + (n + 1), x.stop⟩ :: more, rfl, rfl, ?_⟩
            exact (hcons.narrow (Nat.le_add_right _ _) (Nat.le_refl _)).cast (by
              rw [← Multiset.cons_coe, Multiset.cons_add])

theorem Alike.advance (h : Alike bonds p p') (count : Nat)
    (ht : Pool.Twins own own' pool pool' ((bonds : Multiset Bond) + rest)) :
    Agree (fun r r' => ∃ kept, Alike kept r.1 r'.1 ∧
        Pool.Twins own own' r.2 r'.2 ((kept : Multiset Bond) + rest))
      (p.advance pool count) (p'.advance pool' count) := by
  unfold Packet.advance
  rw [← h.length_eq, h.left, h.right]
  split
  · refine (dropBytes_agree bonds count ht).map ?_
    rintro ⟨chunks, q⟩ ⟨chunks', q'⟩ ⟨kept, hleft, hright, ht'⟩
    exact ⟨kept, ⟨hleft, hright, rfl⟩, ht'⟩
  · exact .error _

/-! ## Reading -/

theorem copyFrom_eq_of_twins (bonds : List Bond) (skip room : Nat)
    (ht : Pool.Twins own own' pool pool' ((bonds : Multiset Bond) + rest)) :
    copyFrom pool (bonds.map Bond.leftChunk) skip room =
      copyFrom pool' (bonds.map Bond.rightChunk) skip room := by
  induction bonds generalizing skip room rest with
  | nil => rfl
  | cons x more ih =>
      have hmore : Pool.Twins own own' pool pool' ((more : Multiset Bond) + x ::ₘ rest) :=
        ht.cast (by rw [← Multiset.cons_coe, Multiset.cons_add, Multiset.add_cons])
      have hpart : x.rightChunk.part pool' skip room = x.leftChunk.part pool skip room := by
        refine (ht.read_eq (x := x) ?_ (Nat.le_add_right _ _) (Nat.min_le_left _ _)).symm
        exact Multiset.mem_add.2 (Or.inl (Multiset.mem_coe.2 List.mem_cons_self))
      have hlength : x.rightChunk.length = x.leftChunk.length := rfl
      simp only [List.map_cons, copyFrom, hlength, hpart, ih _ _ hmore]

theorem Alike.copy_eq (h : Alike bonds p p') (offset room : Nat)
    (ht : Pool.Twins own own' pool pool' ((bonds : Multiset Bond) + rest)) :
    p.copy pool offset room = p'.copy pool' offset room := by
  rw [copy, copy, h.left, h.right]
  exact copyFrom_eq_of_twins bonds offset room ht

theorem Alike.content_eq (h : Alike bonds p p')
    (ht : Pool.Twins own own' pool pool' ((bonds : Multiset Bond) + rest)) :
    p.content pool = p'.content pool' := by
  rw [content, chunkBytes, h.left, content, chunkBytes, h.right, List.map_map, List.map_map]
  congr 1
  refine List.map_congr_left fun x hx => ?_
  exact ht.read_eq (Multiset.mem_add.2 (Or.inl (Multiset.mem_coe.2 hx))) (Nat.le_refl _)
    (Nat.le_refl _)

theorem Alike.valid_iff (h : Alike bonds p p')
    (ht : Pool.Twins own own' pool pool' ((bonds : Multiset Bond) + rest)) :
    p.Valid pool ↔ p'.Valid pool' := by
  have hchunk : (∀ c ∈ p.chunks, c.Valid pool) ↔ ∀ c ∈ p'.chunks, c.Valid pool' := by
    rw [h.left, h.right, List.forall_mem_map, List.forall_mem_map]
    refine forall₂_congr fun x hx => ?_
    show _ ∧ x.stop ≤ pool.capacity x.left ↔ _ ∧ x.stop ≤ pool'.capacity x.right
    rw [ht.capacity_block (Multiset.mem_add.2 (Or.inl (Multiset.mem_coe.2 hx)))]
    rfl
  have hsum : (p.chunks.map Chunk.length).sum = (p'.chunks.map Chunk.length).sum := by
    rw [h.left, h.right, List.map_map, List.map_map]
    rfl
  constructor
  · intro hv
    exact ⟨h.count_eq ▸ hv.chunks_le, hchunk.1 hv.chunk, by
      rw [← h.length_eq, hv.length_eq, hsum]⟩
  · intro hv
    exact ⟨h.count_eq.symm ▸ hv.chunks_le, hchunk.2 hv.chunk, by
      rw [h.length_eq, hv.length_eq, hsum]⟩

end Packet

/-! ## Many at once -/

/-- Two lists whose items are related in pairs, each pair with bonds of its own. -/
inductive AllAlike {α β : Type} (R : Multiset Bond → α → β → Prop) :
    Multiset Bond → List α → List β → Prop where
  | nil : AllAlike R 0 [] []
  | cons {bonds more : Multiset Bond} {a : α} {b : β} {l : List α} {m : List β} (first : R bonds a b)
      (others : AllAlike R more l m) : AllAlike R (bonds + more) (a :: l) (b :: m)

/-- Two options that are related if there is something. -/
inductive SomeAlike {α β : Type} (R : Multiset Bond → α → β → Prop) :
    Multiset Bond → Option α → Option β → Prop where
  | none : SomeAlike R 0 none none
  | some {bonds : Multiset Bond} {a : α} {b : β} (alike : R bonds a b) :
      SomeAlike R bonds (some a) (some b)

/-- Two results, each with its pool. They are related by bonds that stand next to those of the rest.
-/
def Together {α β : Type} (R : Multiset Bond → α → β → Prop) (own own' : Multiset Block)
    (rest : Multiset Bond) (x : α × Pool) (y : β × Pool) : Prop :=
  ∃ bonds, R bonds x.1 y.1 ∧ Pool.Twins own own' x.2 y.2 (bonds + rest)

namespace AllAlike

variable {α β γ : Type} {R : Multiset Bond → α → β → Prop} {bonds more : Multiset Bond} {l l₁ : List α}
  {m m₁ : List β}

theorem length_eq (h : AllAlike R bonds l m) : l.length = m.length := by
  induction h with
  | nil => rfl
  | cons first others ih => exact congrArg Nat.succ ih

theorem append (h : AllAlike R bonds l m) (h₁ : AllAlike R more l₁ m₁) :
    AllAlike R (bonds + more) (l ++ l₁) (m ++ m₁) := by
  induction h with
  | nil => exact (zero_add more).symm ▸ h₁
  | cons first others ih =>
      rw [add_assoc]
      exact .cons first ih

theorem singleton {a : α} {b : β} (h : R bonds a b) : AllAlike R bonds [a] [b] :=
  add_zero bonds ▸ .cons h .nil

theorem reverse (h : AllAlike R bonds l m) : AllAlike R bonds l.reverse m.reverse := by
  induction h with
  | nil => exact .nil
  | cons first others ih =>
      rw [List.reverse_cons, List.reverse_cons, add_comm]
      exact ih.append (singleton first)

/-- What is read of the items is the same, if that is so for each pair. -/
theorem map_eq {f : α → γ} {g : β → γ} (h : AllAlike R bonds l m)
    (ht : Pool.Twins own own' pool pool' (bonds + rest))
    (hpair : ∀ {bonds rest : Multiset Bond} {a b}, R bonds a b →
      Pool.Twins own own' pool pool' (bonds + rest) → f a = g b) : l.map f = m.map g := by
  induction h generalizing rest with
  | nil => rfl
  | cons first others ih =>
      rw [List.map_cons, List.map_cons, hpair first (ht.cast (add_assoc _ _ _)),
        ih (ht.cast (by rw [add_assoc, add_left_comm]))]

/-! ### Queues -/

variable {depth : Nat} {q : BoundedQueue α depth} {q' : BoundedQueue β depth}

/-- The oldest items are taken, or both queues are empty. -/
theorem pop (h : AllAlike R bonds q.toList q'.toList) :
    (q.pop? = none ∧ q'.pop? = none) ∨
      ∃ a b r r' first others, bonds = first + others ∧ q.pop? = some (a, r) ∧
        q'.pop? = some (b, r') ∧ R first a b ∧ AllAlike R others r.toList r'.toList := by
  cases hp : q.pop? with
  | none =>
      rw [q.pop?_eq_none_iff_toList.1 hp] at h
      have hnil : q'.toList = [] := List.eq_nil_of_length_eq_zero h.length_eq.symm
      exact Or.inl ⟨rfl, q'.pop?_eq_none_iff_toList.2 hnil⟩
  | some popped =>
      obtain ⟨a, r⟩ := popped
      rw [(BoundedQueue.toList_of_pop? hp).1] at h
      cases hp' : q'.pop? with
      | none =>
          rw [q'.pop?_eq_none_iff_toList.1 hp'] at h
          cases h
      | some popped' =>
          obtain ⟨b, r'⟩ := popped'
          rw [(BoundedQueue.toList_of_pop? hp').1] at h
          cases h with
          | cons first others => exact Or.inr ⟨a, b, r, r', _, _, rfl, rfl, rfl, first, others⟩

/-- The one queue is full exactly when the other is. -/
theorem push (h : AllAlike R bonds q.toList q'.toList) {a : α} {b : β} (hab : R more a b) :
    (q.push a = .error a ∧ q'.push b = .error b) ∨
      ∃ r r', q.push a = .ok r ∧ q'.push b = .ok r' ∧
        AllAlike R (bonds + more) r.toList r'.toList := by
  have hlength := h.length_eq
  cases hp : q.push a with
  | error rejected =>
      obtain ⟨hfull, rfl⟩ := (BoundedQueue.push_eq_error_iff _ _ _).1 hp
      exact Or.inl ⟨rfl, (BoundedQueue.push_eq_error_iff _ _ _).2 ⟨hlength.symm.trans hfull, rfl⟩⟩
  | ok r =>
      cases hp' : q'.push b with
      | error rejected =>
          have hfull := ((BoundedQueue.push_eq_error_iff _ _ _).1 hp').1
          cases hp.symm.trans ((BoundedQueue.push_eq_error_iff _ _ _).2 ⟨hlength.trans hfull, rfl⟩)
      | ok r' =>
          refine Or.inr ⟨r, r', rfl, rfl, ?_⟩
          rw [BoundedQueue.toList_of_push hp, BoundedQueue.toList_of_push hp']
          exact h.append (singleton hab)

end AllAlike

end DockLink
