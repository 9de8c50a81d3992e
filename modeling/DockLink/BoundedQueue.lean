/-!
# Bounded queues

A first-in first-out queue over a circular array of fixed length. One place of the array always
stays free, so that the indices tell a full queue from an empty one: `capacity` items need `capacity
+ 1` places. `toList` is the view in which the lemmas describe the operations: a push appends, a pop
takes the head off, and a push is rejected only when there are `capacity` items.
-/

namespace DockLink

/-- A queue of at most `capacity` items. They lie from `head` up to `tail`, `tail` not included,
around the end of the array if need be. -/
structure BoundedQueue (α : Type) (capacity : Nat) where
  places : Vector (Option α) (capacity + 1)
  head : Fin (capacity + 1)
  tail : Fin (capacity + 1)
  filled : ∀ i : Fin (capacity + 1), i - head < tail - head → places[i].isSome

namespace BoundedQueue

variable {α σ : Type} {capacity : Nat}

/-! ## Distances around the array -/

theorem sub_val (a b : Fin (capacity + 1)) :
    (a - b).val = if b.val ≤ a.val then a.val - b.val else capacity + 1 + a.val - b.val := by
  have : (a - b).val = (capacity + 1 - b.val + a.val) % (capacity + 1) := by rw [Fin.sub_def]
  rw [this]
  split
  · rw [show capacity + 1 - b.val + a.val = (a.val - b.val) + (capacity + 1) by omega,
      Nat.add_mod_right, Nat.mod_eq_of_lt (by omega)]
  · rw [Nat.mod_eq_of_lt (by omega)]
    omega

theorem succ_val (a : Fin (capacity + 1)) :
    (a + 1).val = if a.val = capacity then 0 else a.val + 1 := by
  rw [Fin.val_add_one]
  simp [Fin.ext_iff]

theorem sub_succ_val {i t : Fin (capacity + 1)} (h : i ≠ t) :
    (t - i).val = (t - (i + 1)).val + 1 := by
  simp only [ne_eq, Fin.ext_iff, succ_val, sub_val] at *
  have := i.isLt; have := t.isLt
  grind

theorem sub_lt_of_push {i head tail : Fin (capacity + 1)} (full : tail + 1 ≠ head)
    (hne : i ≠ tail) (h : i - head < tail + 1 - head) : i - head < tail - head := by
  simp only [ne_eq, Fin.ext_iff, succ_val, Fin.lt_def, sub_val] at *
  have := i.isLt; have := head.isLt; have := tail.isLt
  grind

theorem sub_lt_of_pop {i head tail : Fin (capacity + 1)} (items : head ≠ tail)
    (h : i - (head + 1) < tail - (head + 1)) : head ≠ i ∧ i - head < tail - head := by
  simp only [ne_eq, Fin.ext_iff, succ_val, Fin.lt_def, sub_val] at *
  have := i.isLt; have := head.isLt; have := tail.isLt
  grind

theorem zero_lt_sub {head tail : Fin (capacity + 1)} (items : head ≠ tail) :
    head - head < tail - head := by
  simp only [ne_eq, Fin.ext_iff, Fin.lt_def, sub_val] at *
  have := head.isLt; have := tail.isLt
  grind

/-! ## Operations -/

def empty : BoundedQueue α capacity :=
  { places := Vector.replicate (capacity + 1) none, head := 0, tail := 0, filled := by simp }

instance : Inhabited (BoundedQueue α capacity) := ⟨empty⟩

/-- The number of items: the distance from `head` to `tail`. -/
def length (q : BoundedQueue α capacity) : Nat := (q.tail - q.head).val

def isEmpty (q : BoundedQueue α capacity) : Bool := q.head = q.tail

/-- Full with one place left: one more item would make the indices meet. -/
def isFull (q : BoundedQueue α capacity) : Bool := q.tail + 1 = q.head

/-- The items of the `n` places from place `i` on. -/
def itemsFrom (places : Vector (Option α) (capacity + 1)) : Nat → Fin (capacity + 1) → List α
  | 0, _ => []
  | n + 1, i => places[i].toList ++ itemsFrom places n (i + 1)

/-- The items, oldest first. -/
def toList (q : BoundedQueue α capacity) : List α := itemsFrom q.places q.length q.head

/-- Appends an item. A full queue gives it back. -/
def push (q : BoundedQueue α capacity) (item : α) : Except α (BoundedQueue α capacity) :=
  if full : q.tail + 1 = q.head then .error item
  else .ok {
    places := q.places.set q.tail.val (some item) q.tail.isLt
    head := q.head
    tail := q.tail + 1
    filled := by
      intro i hi
      by_cases hit : i = q.tail
      · simp [hit]
      · have : q.tail.val ≠ i.val := fun e => hit (Fin.ext e.symm)
        simpa [Vector.getElem_set, this] using q.filled i (sub_lt_of_push full hit hi) }

def front? (q : BoundedQueue α capacity) : Option α :=
  if q.head = q.tail then none else q.places[q.head]

/-- Takes the oldest item out. -/
def pop? (q : BoundedQueue α capacity) : Option (α × BoundedQueue α capacity) :=
  if items : q.head = q.tail then none
  else some (q.places[q.head].get (q.filled q.head (zero_lt_sub items)), {
    places := q.places.set q.head.val none q.head.isLt
    head := q.head + 1
    tail := q.tail
    filled := by
      intro i hi
      have ⟨hne, hi⟩ := sub_lt_of_pop items hi
      have : q.head.val ≠ i.val := fun e => hne (Fin.ext e)
      simpa [Vector.getElem_set, this] using q.filled i hi })

/-- Takes up to `n` items out. -/
def dropFront : Nat → BoundedQueue α capacity → BoundedQueue α capacity
  | 0, q => q
  | n + 1, q =>
    match q.pop? with
    | none => q
    | some (_, q) => dropFront n q

/-- Takes every item out. The indices stay where they met. -/
def clear (q : BoundedQueue α capacity) : BoundedQueue α capacity := dropFront q.length q

/-- Takes the oldest item out and passes it to `job`. The answer tells whether there was one. -/
def runOnce (job : σ → α → σ) (s : σ) (q : BoundedQueue α capacity) :
    Bool × σ × BoundedQueue α capacity :=
  match q.pop? with
  | none => (false, s, q)
  | some (item, q) => (true, job s item, q)

/-- Runs `job` on up to `n` items, oldest first, and counts them. -/
def runUpTo (job : σ → α → σ) :
    Nat → σ → BoundedQueue α capacity → Nat × σ × BoundedQueue α capacity
  | 0, s, q => (0, s, q)
  | n + 1, s, q =>
    match q.runOnce job s with
    | (false, s, q) => (0, s, q)
    | (true, s, q) =>
      let (count, s, q) := runUpTo job n s q
      (count + 1, s, q)

/-- Runs `job` on every item, oldest first, and counts them. -/
def runAll (job : σ → α → σ) (s : σ) (q : BoundedQueue α capacity) :
    Nat × σ × BoundedQueue α capacity :=
  runUpTo job q.length s q

/-! ## Occupancy -/

/-- What a queue, or the end of it that pushes, tells about itself. -/
structure Occupancy where
  length : Nat
  isEmpty : Bool
  isFull : Bool
  capacity : Nat
deriving DecidableEq, Repr

def occupancy (q : BoundedQueue α capacity) : Occupancy :=
  { length := q.length, isEmpty := q.isEmpty, isFull := q.isFull, capacity }

/-- A queue can be split into an end that pushes and an end that pops. The ends work on the queue
itself, but the pushing one tells that it is empty by the number of items. -/
def pushingOccupancy (q : BoundedQueue α capacity) : Occupancy :=
  { length := q.length, isEmpty := q.length = 0, isFull := q.isFull, capacity }

/-- The popping end tells the number of items, and whether there are none. -/
def poppingOccupancy (q : BoundedQueue α capacity) : Nat × Bool := (q.length, q.isEmpty)

/-! ## The list of items -/

theorem itemsFrom_set {places : Vector (Option α) (capacity + 1)} {t : Fin (capacity + 1)}
    {x : Option α} (n : Nat) (i : Fin (capacity + 1)) (h : n ≤ (t - i).val) :
    itemsFrom (places.set t.val x t.isLt) n i = itemsFrom places n i := by
  induction n generalizing i with
  | zero => rfl
  | succ n ih =>
    have hne : i ≠ t := by
      rintro rfl
      simp at h
    have := sub_succ_val hne
    have hv : t.val ≠ i.val := fun e => hne (Fin.ext e.symm)
    simp [itemsFrom, ih (i + 1) (by omega), hv]

theorem itemsFrom_succ {places : Vector (Option α) (capacity + 1)} {t : Fin (capacity + 1)}
    (n : Nat) (i : Fin (capacity + 1)) (h : (t - i).val = n) :
    itemsFrom places (n + 1) i = itemsFrom places n i ++ places[t].toList := by
  induction n generalizing i with
  | zero =>
    have : i = t := by
      simp only [sub_val, Fin.ext_iff] at *
      have := i.isLt
      grind
    simp [itemsFrom, this]
  | succ n ih =>
    have hne : i ≠ t := by
      rintro rfl
      simp at h
    have := sub_succ_val hne
    rw [itemsFrom, ih (i + 1) (by omega), itemsFrom, List.append_assoc]

@[simp]
theorem toList_empty : (empty : BoundedQueue α capacity).toList = [] := by
  simp [toList, length, empty, itemsFrom]

theorem isEmpty_iff (q : BoundedQueue α capacity) : q.isEmpty ↔ q.length = 0 := by
  simp only [isEmpty, length, decide_eq_true_eq, Fin.ext_iff, sub_val]
  have := q.head.isLt
  grind

theorem isFull_iff (q : BoundedQueue α capacity) : q.isFull ↔ q.length = capacity := by
  simp only [isFull, length, decide_eq_true_eq, Fin.ext_iff, sub_val, succ_val]
  have := q.head.isLt; have := q.tail.isLt
  grind

theorem toList_of_pop? {q q' : BoundedQueue α capacity} {item : α}
    (h : q.pop? = some (item, q')) :
    q.toList = item :: q'.toList ∧ q.length = q'.length + 1 := by
  unfold pop? at h
  split at h
  · simp at h
  · rename_i items
    obtain ⟨rfl, rfl⟩ := by simpa using h
    have hlen := sub_succ_val items
    refine ⟨?_, hlen⟩
    have : itemsFrom (q.places.set q.head.val none q.head.isLt) (q.tail - (q.head + 1)).val
        (q.head + 1) = itemsFrom q.places (q.tail - (q.head + 1)).val (q.head + 1) := by
      apply itemsFrom_set
      simp only [sub_val, succ_val]
      have := q.head.isLt; have := q.tail.isLt
      grind
    have hfront : ∀ (o : Option α) (h : o.isSome), o.toList = [o.get h] := by
      rintro (_ | x) h
      · simp at h
      · rfl
    simp only [toList, length, this]
    rw [hlen, itemsFrom, hfront _ (q.filled q.head (zero_lt_sub items)), List.singleton_append]
    rfl

theorem pop?_eq_none_iff (q : BoundedQueue α capacity) : q.pop? = none ↔ q.isEmpty := by
  simp [pop?, isEmpty]

theorem length_toList (q : BoundedQueue α capacity) : q.toList.length = q.length := by
  generalize hn : q.length = n
  induction n generalizing q with
  | zero => simp [toList, hn, itemsFrom]
  | succ n ih =>
    cases hp : q.pop? with
    | none =>
      rw [pop?_eq_none_iff, isEmpty_iff] at hp
      omega
    | some r =>
      obtain ⟨item, q'⟩ := r
      have ⟨hl, hlen⟩ := toList_of_pop? hp
      simp [hl, ih q' (by omega)]

/-- A pop fails only on the queue without items. -/
theorem pop?_eq_none_iff_toList (q : BoundedQueue α capacity) :
    q.pop? = none ↔ q.toList = [] := by
  rw [pop?_eq_none_iff, isEmpty_iff, ← length_toList, List.length_eq_zero_iff]

theorem toList_of_push {q q' : BoundedQueue α capacity} {item : α} (h : q.push item = .ok q') :
    q'.toList = q.toList ++ [item] := by
  unfold push at h
  split at h
  · simp at h
  · rename_i full
    obtain rfl := by simpa using h
    have hlen : (q.tail + 1 - q.head).val = (q.tail - q.head).val + 1 := by
      have hne : (q.tail + 1).val ≠ q.head.val := fun e => full (Fin.ext e)
      simp only [sub_val, succ_val] at *
      have := q.head.isLt; have := q.tail.isLt
      grind
    simp only [toList, length, hlen]
    rw [itemsFrom_succ (t := q.tail) _ _ rfl, itemsFrom_set _ _ (Nat.le_refl _)]
    simp

theorem length_lt_of_push {q q' : BoundedQueue α capacity} {item : α} (h : q.push item = .ok q') :
    q.toList.length < capacity := by
  have hlength := congrArg List.length (toList_of_push h)
  have hlt : q'.toList.length < capacity + 1 := q'.length_toList ▸ (q'.tail - q'.head).isLt
  rw [List.length_append, List.length_singleton] at hlength
  omega

/-- A push is rejected only when there are `capacity` items, and gives its own item back. -/
theorem push_eq_error_iff (q : BoundedQueue α capacity) (item rejected : α) :
    q.push item = .error rejected ↔ q.toList.length = capacity ∧ rejected = item := by
  rw [length_toList, ← isFull_iff, isFull, decide_eq_true_eq, push]
  split
  · rename_i full
    simp only [Except.error.injEq, full, true_and]
    exact eq_comm
  · rename_i full
    simp only [reduceCtorEq, full, false_and]

theorem front?_eq (q : BoundedQueue α capacity) : q.front? = q.toList.head? := by
  by_cases items : q.head = q.tail
  · have : q.length = 0 := by rw [← isEmpty_iff]; simp [isEmpty, items]
    simp [front?, items, toList, this, itemsFrom]
  · obtain ⟨x, hx⟩ := Option.isSome_iff_exists.1 (q.filled q.head (zero_lt_sub items))
    simp only [front?, items, ↓reduceIte, toList, length, sub_succ_val items, itemsFrom, hx]
    simp

end BoundedQueue

end DockLink
