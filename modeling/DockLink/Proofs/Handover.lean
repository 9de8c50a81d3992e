import DockLink.BoundedQueue

/-!
# Handing items over

Two contexts hand items over through a bounded queue: the one pushes them, the other pops them or
runs a job on them. However the two take turns, the items come out in the order in which they went
in, none is lost, and none comes out twice. The one may also push while the other is running all
items, between any two rounds.
-/

namespace DockLink

variable {α σ : Type} {capacity : Nat}

namespace BoundedQueue

/-! ## One item -/

theorem push_cases (q : BoundedQueue α capacity) (item : α) :
    (q.push item = .error item ∧ q.toList.length = capacity) ∨
      ∃ q', q.push item = .ok q' ∧ q'.toList = q.toList ++ [item] := by
  cases hpush : q.push item with
  | error rejected =>
      obtain ⟨hfull, rfl⟩ := (q.push_eq_error_iff item rejected).1 hpush
      exact .inl ⟨rfl, hfull⟩
  | ok q' => exact .inr ⟨q', rfl, toList_of_push hpush⟩

theorem pop?_cases (q : BoundedQueue α capacity) :
    (q.pop? = none ∧ q.toList = []) ∨
      ∃ item q', q.pop? = some (item, q') ∧ q.toList = item :: q'.toList := by
  cases hpop : q.pop? with
  | none => exact .inl ⟨rfl, q.pop?_eq_none_iff_toList.1 hpop⟩
  | some popped => exact .inr ⟨popped.1, popped.2, rfl, (toList_of_pop? hpop).1⟩

theorem runOnce_cases (job : σ → α → σ) (s : σ) (q : BoundedQueue α capacity) :
    (q.runOnce job s = (false, s, q) ∧ q.toList = []) ∨
      ∃ item q', q.runOnce job s = (true, job s item, q') ∧ q.toList = item :: q'.toList := by
  obtain ⟨hpop, hnil⟩ | ⟨item, q', hpop, hcons⟩ := q.pop?_cases
  · exact .inl ⟨by rw [runOnce, hpop], hnil⟩
  · exact .inr ⟨item, q', by rw [runOnce, hpop], hcons⟩

/-! ## All items -/

/-- The items that `dropFront` takes out, oldest first. -/
def dropped : Nat → BoundedQueue α capacity → List α
  | 0, _ => []
  | n + 1, q =>
    match q.pop? with
    | none => []
    | some (item, q) => item :: dropped n q

theorem dropped_append (n : Nat) (q : BoundedQueue α capacity) :
    q.dropped n ++ (q.dropFront n).toList = q.toList := by
  induction n generalizing q with
  | zero => rfl
  | succ n ih =>
      obtain ⟨hpop, -⟩ | ⟨item, q', hpop, hcons⟩ := q.pop?_cases
      · rw [dropped, dropFront, hpop]
        rfl
      · rw [dropped, dropFront, hpop, hcons]
        exact congrArg (item :: ·) (ih q')

theorem toList_dropFront (n : Nat) (q : BoundedQueue α capacity) :
    (q.dropFront n).toList = q.toList.drop n := by
  induction n generalizing q with
  | zero => rfl
  | succ n ih =>
      obtain ⟨hpop, hnil⟩ | ⟨item, q', hpop, hcons⟩ := q.pop?_cases
      · rw [dropFront, hpop, hnil, List.drop_nil]
      · rw [dropFront, hpop, hcons]
        exact ih q'

theorem toList_clear (q : BoundedQueue α capacity) : q.clear.toList = [] := by
  rw [clear, toList_dropFront, ← length_toList, List.drop_length]

theorem runUpTo_eq (job : σ → α → σ) (n : Nat) (s : σ) (q : BoundedQueue α capacity)
    (h : q.toList.length ≤ n) :
    ∃ q', q.runUpTo job n s = (q.toList.length, q.toList.foldl job s, q') ∧ q'.toList = [] := by
  induction n generalizing s q with
  | zero =>
      have hnil := List.eq_nil_of_length_eq_zero (Nat.le_zero.1 h)
      refine ⟨q, ?_, hnil⟩
      rw [hnil]
      rfl
  | succ n ih =>
      obtain ⟨hrun, hnil⟩ | ⟨item, rest, hrun, hcons⟩ := q.runOnce_cases job s
      · refine ⟨q, ?_, hnil⟩
        rw [runUpTo, hrun, hnil]
        rfl
      · rw [hcons] at h ⊢
        obtain ⟨q', hrest, hnil⟩ := ih (job s item) rest (Nat.le_of_succ_le_succ h)
        refine ⟨q', ?_, hnil⟩
        rw [runUpTo, hrun]
        simp only [hrest]
        rfl

theorem runUpTo_succ (job : σ → α → σ) (n : Nat) (s : σ) (q : BoundedQueue α capacity)
    (h : q.toList.length ≤ n) : q.runUpTo job (n + 1) s = q.runUpTo job n s := by
  -- One round takes one item off both sides. The first that finds none is the last one of both.
  induction n generalizing s q with
  | zero =>
      obtain ⟨hrun, -⟩ | ⟨item, rest, -, hcons⟩ := q.runOnce_cases job s
      · rw [runUpTo, runUpTo, hrun]
      · rw [hcons] at h
        cases h
  | succ n ih =>
      obtain ⟨hrun, -⟩ | ⟨item, rest, hrun, hcons⟩ := q.runOnce_cases job s
      · rw [runUpTo, runUpTo, hrun]
      · rw [hcons] at h
        rw [runUpTo, hrun, runUpTo, hrun]
        simp only [ih (job s item) rest (Nat.le_of_succ_le_succ h)]

/-- Running all items ends by itself, however many rounds it may take. -/
theorem runUpTo_of_length_le (job : σ → α → σ) {n : Nat} (s : σ) (q : BoundedQueue α capacity)
    (h : q.toList.length ≤ n) : q.runUpTo job n s = q.runAll job s := by
  induction h with
  | refl => rw [runAll, length_toList]
  | step h ih => rw [runUpTo_succ job _ s q h, ih]

theorem runAll_eq (job : σ → α → σ) (s : σ) (q : BoundedQueue α capacity) :
    ∃ q', q.runAll job s = (q.toList.length, q.toList.foldl job s, q') ∧ q'.toList = [] :=
  q.runUpTo_eq job q.length s (Nat.le_of_eq q.length_toList)

/-! ## Pushing while the items are run -/

/-- Pushes items one after another. Returns those that were not rejected as well. -/
def pushAll : List α → BoundedQueue α capacity → List α × BoundedQueue α capacity
  | [], q => ([], q)
  | item :: rest, q =>
    match q.push item with
    | .error _ => pushAll rest q
    | .ok q =>
      let (accepted, q) := pushAll rest q
      (item :: accepted, q)

theorem toList_pushAll (items : List α) (q : BoundedQueue α capacity) :
    (q.pushAll items).2.toList = q.toList ++ (q.pushAll items).1 := by
  induction items generalizing q with
  | nil => exact (List.append_nil _).symm
  | cons item rest ih =>
      obtain ⟨hpush, -⟩ | ⟨q', hpush, htoList⟩ := q.push_cases item
      · rw [pushAll, hpush]
        exact ih q
      · rw [pushAll, hpush]
        refine (ih q').trans ?_
        rw [htoList, List.append_assoc]
        rfl

/-- Runs `job` on every item while items are pushed: those of the first list before the first round,
and so on, until a round finds the queue empty. Returns the pushed items that were not rejected as
well. -/
def runAllAmid (job : σ → α → σ) :
    List (List α) → σ → BoundedQueue α capacity → List α × Nat × σ × BoundedQueue α capacity
  | [], s, q => ([], q.runAll job s)
  | items :: later, s, q =>
    let (accepted, q) := q.pushAll items
    match q.runOnce job s with
    | (false, s, q) => (accepted, 0, s, q)
    | (true, s, q) =>
      let (more, count, s, q) := runAllAmid job later s q
      (accepted ++ more, count + 1, s, q)

theorem runAllAmid_eq (job : σ → α → σ) (meanwhile : List (List α)) (s : σ)
    (q : BoundedQueue α capacity) :
    ∃ accepted q', q.runAllAmid job meanwhile s =
      (accepted, (q.toList ++ accepted).length, (q.toList ++ accepted).foldl job s, q') ∧
        q'.toList = [] := by
  induction meanwhile generalizing s q with
  | nil =>
      obtain ⟨q', hrun, hnil⟩ := q.runAll_eq job s
      refine ⟨[], q', ?_, hnil⟩
      rw [runAllAmid, hrun, List.append_nil]
  | cons items later ih =>
      have hpushed := q.toList_pushAll items
      obtain ⟨hrun, hnil⟩ | ⟨item, rest, hrun, hcons⟩ :=
        (q.pushAll items).2.runOnce_cases job s
      · refine ⟨(q.pushAll items).1, (q.pushAll items).2, ?_, hnil⟩
        rw [← hpushed, hnil, runAllAmid]
        simp only [hrun]
        rfl
      -- What was queued, then what came in before this round: the item of this round is its head,
      -- and what the other rounds meet is its tail.
      · obtain ⟨more, q', hmore, hnil⟩ := ih (job s item) rest
        refine ⟨(q.pushAll items).1 ++ more, q', ?_, hnil⟩
        rw [← List.append_assoc, ← hpushed, hcons, runAllAmid]
        simp only [hrun, hmore]
        rfl

/-! ## What a queue answers -/

def Occupancy.ofItems (capacity : Nat) (items : List α) : Occupancy :=
  { length := items.length, isEmpty := items.isEmpty, isFull := items.length = capacity, capacity }

/-- The queue is the bounded first-in first-out queue of these items: they decide what it and its
ends answer. -/
structure Fifo (q : BoundedQueue α capacity) (items : List α) : Prop where
  toList_eq : q.toList = items
  front_eq : q.front? = items.head?
  occupancy_eq : q.occupancy = .ofItems capacity items
  pushing_eq : q.pushingOccupancy = .ofItems capacity items
  popping_eq : q.poppingOccupancy = (items.length, items.isEmpty)
  /-- Only a full queue rejects an item, and it gives that item back. -/
  rejects_iff : ∀ item rejected, q.push item = .error rejected ↔
    items.length = capacity ∧ rejected = item
  accepts : ∀ item q', q.push item = .ok q' → q'.toList = items ++ [item]
  pop_eq : (q.pop?.map fun (item, q') => (item, q'.toList)) =
    items.head?.map fun item => (item, items.tail)
  clear_eq : q.clear.toList = []
  /-- A job is called with the oldest item, if there is one. -/
  runOnce_eq : ∀ {σ : Type} (job : σ → α → σ) (s : σ), ∃ q', q.runOnce job s =
    (!items.isEmpty, (items.take 1).foldl job s, q') ∧ q'.toList = items.drop 1
  /-- A job is called once with every item, in order. -/
  runAll_eq : ∀ {σ : Type} (job : σ → α → σ) (s : σ), ∃ q', q.runAll job s =
    (items.length, items.foldl job s, q') ∧ q'.toList = []
  /-- A loop that may take more rounds takes no more. -/
  ends : ∀ {σ : Type} (job : σ → α → σ) (s : σ) (rounds : Nat), items.length ≤ rounds →
    q.runUpTo job rounds s = q.runAll job s
  /-- What comes in while the items are run is run behind them, and counted. -/
  amid_eq : ∀ {σ : Type} (job : σ → α → σ) (s : σ) (meanwhile : List (List α)),
    ∃ accepted q', q.runAllAmid job meanwhile s =
      (accepted, (items ++ accepted).length, (items ++ accepted).foldl job s, q') ∧ q'.toList = []

theorem isEmpty_eq (q : BoundedQueue α capacity) : q.isEmpty = q.toList.isEmpty := by
  rw [Bool.eq_iff_iff, isEmpty_iff, List.isEmpty_iff_length_eq_zero, length_toList]

theorem occupancy_eq (q : BoundedQueue α capacity) :
    q.occupancy = .ofItems capacity q.toList := by
  have hfull : q.isFull = decide (q.toList.length = capacity) := by
    rw [Bool.eq_iff_iff, isFull_iff, decide_eq_true_eq, length_toList]
  rw [occupancy, Occupancy.ofItems, hfull, isEmpty_eq, length_toList]

theorem pushingOccupancy_eq (q : BoundedQueue α capacity) : q.pushingOccupancy = q.occupancy := by
  have hempty : q.isEmpty = decide (q.length = 0) := by
    rw [Bool.eq_iff_iff, isEmpty_iff, decide_eq_true_eq]
  rw [pushingOccupancy, occupancy, hempty]

theorem fifo (q : BoundedQueue α capacity) : q.Fifo q.toList where
  toList_eq := rfl
  front_eq := q.front?_eq
  occupancy_eq := q.occupancy_eq
  pushing_eq := q.pushingOccupancy_eq.trans q.occupancy_eq
  popping_eq := by rw [poppingOccupancy, isEmpty_eq, length_toList]
  rejects_iff := q.push_eq_error_iff
  accepts _ _ := toList_of_push
  pop_eq := by
    obtain ⟨hpop, hnil⟩ | ⟨item, q', hpop, hcons⟩ := q.pop?_cases
    · rw [hpop, hnil]
      rfl
    · rw [hpop, hcons]
      rfl
  clear_eq := q.toList_clear
  runOnce_eq job s := by
    obtain ⟨hrun, hnil⟩ | ⟨item, q', hrun, hcons⟩ := q.runOnce_cases job s
    · exact ⟨q, by rw [hrun, hnil]; rfl, by rw [hnil]; rfl⟩
    · exact ⟨q', by rw [hrun, hcons]; rfl, by rw [hcons]; rfl⟩
  runAll_eq job s := q.runAll_eq job s
  ends job s _ h := q.runUpTo_of_length_le job s h
  amid_eq job s meanwhile := q.runAllAmid_eq job meanwhile s

end BoundedQueue

/-! ## Runs -/

/-- A queue between two contexts. -/
structure Handover (α : Type) (capacity : Nat) where
  queue : BoundedQueue α capacity := .empty
  /-- The items whose push was not rejected, in the order of the pushes. -/
  accepted : List α := []
  /-- The items that were popped, cleared or run, in that order. -/
  released : List α := []

namespace Handover

/-- What the two contexts do with the queue, or with the two ends that it is split into. A split
lends the queue to its ends and is nothing that happens to it. -/
inductive Action (α : Type) where
  | push (item : α)
  | pop
  /-- The front, the items or the occupancy. -/
  | look
  | clear
  | runOnce
  /-- Runs all items, while the other context pushes some: the first of the lists before the first
  round, and so on. A round is a `runOnce`, so a run that stops after rounds is in the midst of
  this. -/
  | runAll (meanwhile : List (List α))

/-- The job of a run notes the items that it is called with. -/
def note (released : List α) (item : α) : List α := released ++ [item]

def step (h : Handover α capacity) : Action α → Handover α capacity
  | .push item =>
    match h.queue.push item with
    | .error _ => h
    | .ok queue => { h with queue, accepted := h.accepted ++ [item] }
  | .pop =>
    match h.queue.pop? with
    | none => h
    | some (item, queue) => { h with queue, released := h.released ++ [item] }
  | .look => h
  | .clear =>
    { h with
      queue := h.queue.clear
      released := h.released ++ h.queue.dropped h.queue.length }
  | .runOnce =>
    let (_, released, queue) := h.queue.runOnce note h.released
    { h with queue, released }
  | .runAll meanwhile =>
    let (accepted, _, released, queue) := h.queue.runAllAmid note meanwhile h.released
    { queue, accepted := h.accepted ++ accepted, released }

def run (h : Handover α capacity) : List (Action α) → Handover α capacity :=
  List.foldl step h

/-- What went in is what came out, followed by what is in the queue. -/
def InOrder (h : Handover α capacity) : Prop := h.released ++ h.queue.toList = h.accepted

theorem foldl_note (released items : List α) : items.foldl note released = released ++ items := by
  induction items generalizing released with
  | nil => exact (List.append_nil _).symm
  | cons item rest ih =>
      rw [List.foldl_cons, ih, note, List.append_assoc]
      rfl

theorem InOrder.step {h : Handover α capacity} (horder : h.InOrder) (action : Action α) :
    (h.step action).InOrder := by
  cases action with
  | push item =>
      obtain ⟨hpush, -⟩ | ⟨q', hpush, htoList⟩ := h.queue.push_cases item
      · rw [Handover.step, hpush]
        exact horder
      · rw [Handover.step, hpush, InOrder, htoList, ← List.append_assoc, horder]
  | pop =>
      obtain ⟨hpop, -⟩ | ⟨item, q', hpop, hcons⟩ := h.queue.pop?_cases
      · rw [Handover.step, hpop]
        exact horder
      · rw [Handover.step, hpop, InOrder, List.append_assoc, List.singleton_append, ← hcons]
        exact horder
  | look => exact horder
  | clear =>
      rw [Handover.step, InOrder, List.append_assoc]
      exact (congrArg (h.released ++ ·) (h.queue.dropped_append _)).trans horder
  | runOnce =>
      obtain ⟨hrun, -⟩ | ⟨item, q', hrun, hcons⟩ := h.queue.runOnce_cases note h.released
      · rw [Handover.step, hrun]
        exact horder
      · rw [Handover.step, hrun, InOrder, note, List.append_assoc, List.singleton_append, ← hcons]
        exact horder
  | runAll meanwhile =>
      obtain ⟨accepted, q', hrun, hnil⟩ := h.queue.runAllAmid_eq note meanwhile h.released
      rw [Handover.step, hrun, InOrder, hnil, List.append_nil, foldl_note, ← List.append_assoc,
        horder]

theorem InOrder.run {h : Handover α capacity} (horder : h.InOrder) (actions : List (Action α)) :
    (h.run actions).InOrder := by
  induction actions generalizing h with
  | nil => exact horder
  | cons action rest ih => exact ih (horder.step action)

/-- However two contexts take turns at a new queue, what came out, followed by what is in the queue,
is what went in, in order, and what is in the queue decides what it and its ends answer. -/
theorem run_new_fifo (capacity : Nat) (actions : List (Action α)) :
    ∃ items, (({} : Handover α capacity).run actions).released ++ items =
        (({} : Handover α capacity).run actions).accepted ∧
      (({} : Handover α capacity).run actions).queue.Fifo items := by
  have hnew : ({} : Handover α capacity).InOrder := BoundedQueue.toList_empty
  exact ⟨_, hnew.run actions, BoundedQueue.fifo _⟩

/-- Three places for two items. The end of the array lies behind when the items are run, and of the
three that come in meanwhile one finds room. -/
example : (({} : Handover Nat 2).run [.push 1, .push 2, .push 3, .pop, .push 4,
    .runAll [[5], [6, 7]], .push 8]).accepted = [1, 2, 4, 6, 8] := by
  decide

end Handover

end DockLink
