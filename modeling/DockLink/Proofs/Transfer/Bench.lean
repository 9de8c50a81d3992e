import DockLink.Proofs.Transfer.TwinSessions

/-!
# Applications that work with what they have

Of two sessions over different pools one cannot say that their applications do the same as long as
they name slots. On a bench the application names the chunks that it got or made since the bench was
set up, by their place in a list; so a list of tasks makes sense on any pool. If two benches are
alike, the same tasks lead to the same answers.
-/

namespace DockLink

variable {queueDepth eventDepth : Nat}

/-- The part of a chunk from `start` up to `stop`, both counted from its first byte. -/
def Chunk.cut (c : Chunk) (start stop : Nat) : Chunk :=
  { c with start := c.start + start, stop := min c.stop (c.start + stop) }

/-- A packet of the given chunks. -/
def Packet.gather (chunks : List Chunk) : Packet :=
  { chunks, length := (chunks.map Chunk.length).sum }

def LinkEvent.chunks : LinkEvent → List Chunk
  | .received _ packet => packet.chunks
  | _ => []

/-- A session, and the chunks that its application works with, newest first. -/
structure Bench (queueDepth eventDepth : Nat) where
  session : Session queueDepth eventDepth
  goods : List Chunk := []

/-- What happens at a bench. The numbers `i` are places among the goods. -/
inductive Task where
  | enable
  | disable
  | receive (data : Bytes)
  | transactionEnd
  | complete (result : WriteResult)
  /-- Takes an event. The chunks of its packet are goods. -/
  | pop
  /-- Puts bytes into a new block. -/
  | load (data : Bytes)
  /-- Makes a second handle to a block. -/
  | share (i : Nat)
  /-- Goes on with a part of a chunk. -/
  | cut (i start stop : Nat)
  | drop (i : Nat)
  | overwrite (i offset : Nat) (data : Bytes)
  /-- Hands in a packet of the newest goods. What is not accepted comes back. -/
  | send (contentType : ContentType) (count : Nat)
deriving DecidableEq

namespace Bench

/-- What is planned for a good, if there is one in this place. -/
def planFor (b : Bench queueDepth eventDepth) (i : Nat) (f : Chunk → List Action × List Chunk) :
    List Action × List Chunk :=
  match b.goods[i]? with
  | some c => f c
  | none => ([], b.goods)

/-- The actions that a task amounts to, and the goods after them. -/
def plan (b : Bench queueDepth eventDepth) : Task → List Action × List Chunk
  | .enable => ([.enable], b.goods)
  | .disable => ([.disable], b.goods)
  | .receive data => ([.receive data], b.goods)
  | .transactionEnd => ([.transactionEnd], b.goods)
  | .complete result => ([.complete result], b.goods)
  | .pop =>
    match b.session.framer.popEvent? with
    | some (event, _) => ([.pop], event.chunks ++ b.goods)
    | none => ([.pop], b.goods)
  | .load data =>
    match b.session.framer.pool.allocate data.length with
    | .ok (block, _) =>
      ([.deed (.allocate data.length), .deed (.write block 0 data)], ⟨block, 0, data.length⟩ :: b.goods)
    | .error _ => ([], b.goods)
  | .share i => b.planFor i fun c =>
    match b.session.framer.pool.retain c.block with
    | .ok _ => ([.deed (.retain c.block)], c :: b.goods)
    | .error _ => ([], b.goods)
  | .cut i start stop => b.planFor i fun c => ([], c.cut start stop :: b.goods.eraseIdx i)
  | .drop i => b.planFor i fun c => ([.deed (.release c.block)], b.goods.eraseIdx i)
  | .overwrite i offset data => b.planFor i fun c => ([.deed (.write c.block offset data)], b.goods)
  | .send contentType count =>
    let packet := Packet.gather (b.goods.take count)
    ([.send contentType packet],
      ((b.session.comesBack? contentType packet).map Packet.chunks).getD [] ++ b.goods.drop count)

def step (b : Bench queueDepth eventDepth) (task : Task) :
    Except Fault (Bench queueDepth eventDepth) :=
  (b.session.run (b.plan task).1).map fun session => { session, goods := (b.plan task).2 }

def run (b : Bench queueDepth eventDepth) : List Task → Except Fault (Bench queueDepth eventDepth)
  | [] => .ok b
  | task :: rest => do run (← b.step task) rest

/-- The bytes of the goods. -/
def wares (b : Bench queueDepth eventDepth) : List Bytes :=
  b.goods.map (Chunk.bytes b.session.framer.pool)

/-- Two benches that were told the same, but for the tickets: those of the first are `k` numbers
later. -/
structure Tells (k : UInt16) (b b' : Bench queueDepth eventDepth) : Prop where
  /-- The bytes of every write. -/
  issued_eq : b.session.station.issued = b'.session.station.issued
  /-- The packets that were accepted. -/
  accepted_eq : b.session.accepted = b'.session.accepted.map (Acceptance.later k)
  /-- The events that were taken. -/
  popped_eq : b.session.popped = b'.session.popped.map (Report.later k)
  rxState_eq : b.session.framer.rxState = b'.session.framer.rxState
  pending_eq : b.session.framer.pending = b'.session.framer.pending
  enabled_eq : b.session.framer.enabled = b'.session.framer.enabled
  channel_eq : b.session.station.channel.enabled = b'.session.station.channel.enabled
  wares_eq : b.wares = b'.wares
  freeCounts_eq : b.session.framer.pool.freeCounts = b'.session.framer.pool.freeCounts

variable {b b' : Bench queueDepth eventDepth} {k : UInt16} {own own' : Multiset Block}

/-- Whatever the tasks are, the session takes them. -/
theorem sound_run (tasks : List Task) {b : Bench queueDepth eventDepth} (hs : b.session.Sound) :
    ∃ b₁, b.run tasks = .ok b₁ ∧ b₁.session.Sound := by
  induction tasks generalizing b with
  | nil => exact ⟨b, rfl, hs⟩
  | cons task rest ih =>
      obtain ⟨session, hrun, hs', -⟩ := hs.run_follows (b.plan task).1
      have hstep : b.step task = .ok { session, goods := (b.plan task).2 } := by
        rw [step, hrun]
        rfl
      obtain ⟨b₁, hrest, hs₁⟩ := ih (b := { session, goods := (b.plan task).2 }) hs'
      refine ⟨b₁, ?_, hs₁⟩
      rw [run, hstep]
      exact hrest

/-- Two benches in the same state. The goods in the same places are the ends of one bond. -/
def Paired (k : UInt16) (own own' : Multiset Block) (b b' : Bench queueDepth eventDepth) : Prop :=
  ∃ l : List Bond, b.goods = l.map Bond.leftChunk ∧ b'.goods = l.map Bond.rightChunk ∧
    Session.Paired k own own' l b.session b'.session

/-- Two plans that lead on in the same way. -/
def Planned (k : UInt16) (own own' : Multiset Block) (b b' : Bench queueDepth eventDepth)
    (x x' : List Action × List Chunk) : Prop :=
  ∃ l : List Bond, x.2 = l.map Bond.leftChunk ∧ x'.2 = l.map Bond.rightChunk ∧
    Agree (Session.Paired k own own' l) (b.session.run x.1) (b'.session.run x'.1)

namespace Paired

variable {l : List Bond} {s s' : Session queueDepth eventDepth} {x : Bond}

/-- A good in its place, next to the others. -/
theorem coe_eq_cons {i : Nat} (hi : l[i]? = some x) :
    (l : Multiset Bond) = x ::ₘ (l.eraseIdx i : List Bond) := by
  obtain ⟨hlt, rfl⟩ := List.getElem?_eq_some_iff.1 hi
  rw [Multiset.cons_coe]
  exact Multiset.coe_eq_coe.2 (List.getElem_cons_eraseIdx_perm hlt).symm

/-- Less is known of a chunk that was cut. -/
theorem narrow {rest : Multiset Bond} (h : Session.Paired k own own' (x ::ₘ rest) s s')
    (start stop : Nat) :
    Session.Paired k own own'
      (⟨x.left, x.right, x.start + start, min x.stop (x.start + stop)⟩ ::ₘ rest) s s' := by
  obtain ⟨others, ht, hnext⟩ := h.pools
  have ht' := ht.cast (Multiset.add_cons _ _ _)
  have hless := ht'.narrow (Nat.le_add_right x.start start) (Nat.min_le_left x.stop (x.start + stop))
  have hheld := h.held_left
  have hheld' := h.held_right
  rw [Multiset.map_cons] at hheld hheld'
  exact hnext (hless.cast (Multiset.add_cons _ _ _).symm)
    (hheld.trans (by rw [Multiset.map_cons])) (hheld'.trans (by rw [Multiset.map_cons]))

theorem bonded_gather (l : List Bond) :
    (Packet.gather (l.map Bond.leftChunk)).Bonded l (Packet.gather (l.map Bond.rightChunk)) := by
  refine ⟨l, rfl, rfl, rfl, ?_⟩
  simp only [Packet.gather, List.map_map]
  rfl

/-- The actions of a channel need no goods. -/
theorem planned_action (hg : b.goods = l.map Bond.leftChunk) (hg' : b'.goods = l.map Bond.rightChunk)
    {a : Action}
    (h : Agree (Session.Paired k own own' l) (b.session.step a) (b'.session.step a)) :
    Planned k own own' b b' ([a], b.goods) ([a], b'.goods) :=
  ⟨l, hg, hg', by rw [Session.run_singleton, Session.run_singleton]; exact h⟩

theorem planned_nothing (hg : b.goods = l.map Bond.leftChunk)
    (hg' : b'.goods = l.map Bond.rightChunk)
    (hs : Session.Paired k own own' l b.session b'.session) :
    Planned k own own' b b' ([], b.goods) ([], b'.goods) := ⟨l, hg, hg', .ok hs⟩

theorem plan_pop (hg : b.goods = l.map Bond.leftChunk) (hg' : b'.goods = l.map Bond.rightChunk)
    (hs : Session.Paired k own own' l b.session b'.session) :
    Planned k own own' b b' (b.plan .pop) (b'.plan .pop) := by
  rcases hs.pop with ⟨hp, hp'⟩ | ⟨event, event', f, f', bonds, hp, hp', he, hpaired⟩
  · simp only [plan, hp, hp']
    refine planned_action hg hg' ?_
    simp only [Session.step, hp, hp']
    exact .ok hs
  · have hstep : Agree (Session.Paired k own own' (bonds + l)) (b.session.step .pop)
        (b'.session.step .pop) := by
      simp only [Session.step, hp, hp']
      exact .ok hpaired
    obtain ⟨m, rfl, hm, hm'⟩ : ∃ m : List Bond, bonds = m ∧ event.chunks = m.map Bond.leftChunk ∧
        event'.chunks = m.map Bond.rightChunk := by
      cases he with
      | received contentType alike =>
          obtain ⟨m, rfl, halike⟩ := alike
          exact ⟨m, rfl, halike.left, halike.right⟩
      | sent ticket => exact ⟨[], rfl, rfl, rfl⟩
      | sendFailed ticket error => exact ⟨[], rfl, rfl, rfl⟩
      | receiveFailed error consecutive => exact ⟨[], rfl, rfl, rfl⟩
    simp only [plan, hp, hp']
    refine ⟨m ++ l, ?_, ?_, ?_⟩
    · rw [hm, hg, List.map_append]
    · rw [hm', hg', List.map_append]
    · rw [Session.run_singleton, Session.run_singleton, ← Multiset.coe_add]
      exact hstep

theorem plan_load (hg : b.goods = l.map Bond.leftChunk) (hg' : b'.goods = l.map Bond.rightChunk)
    (hs : Session.Paired k own own' l b.session b'.session) (data : Bytes) :
    Planned k own own' b b' (b.plan (.load data)) (b'.plan (.load data)) := by
  rcases hs.load data with ⟨e, ha, ha'⟩ | ⟨c, c', q, q', ha, ha', hloaded⟩
  · simp only [plan, ha, ha']
    exact planned_nothing hg hg' hs
  · simp only [plan, ha, ha']
    exact ⟨⟨c, c', 0, data.length⟩ :: l, congrArg _ hg, congrArg _ hg', hloaded⟩

theorem plan_send (hg : b.goods = l.map Bond.leftChunk) (hg' : b'.goods = l.map Bond.rightChunk)
    (hs : Session.Paired k own own' l b.session b'.session) (contentType : ContentType)
    (count : Nat) :
    Planned k own own' b b' (b.plan (.send contentType count)) (b'.plan (.send contentType count)) := by
  have hsplit : (l : Multiset Bond) = (l.take count : List Bond) + (l.drop count : List Bond) := by
    rw [Multiset.coe_add, List.take_append_drop]
  obtain ⟨kept, hback, hstep⟩ :=
    (hs.cast hsplit).send contentType (bonded_gather (l.take count))
  obtain ⟨m, rfl, hm, hm'⟩ : ∃ m : List Bond, kept = m ∧
      ((b.session.comesBack? contentType (Packet.gather ((l.take count).map Bond.leftChunk))).map
        Packet.chunks).getD [] = m.map Bond.leftChunk ∧
      ((b'.session.comesBack? contentType (Packet.gather ((l.take count).map Bond.rightChunk))).map
        Packet.chunks).getD [] = m.map Bond.rightChunk := by
    generalize b.session.comesBack? contentType _ = back at hback ⊢
    generalize b'.session.comesBack? contentType _ = back' at hback ⊢
    cases hback with
    | none => exact ⟨[], rfl, rfl, rfl⟩
    | some alike =>
        obtain ⟨m, rfl, halike⟩ := alike
        exact ⟨m, rfl, halike.left, halike.right⟩
  simp only [plan, hg, hg', ← List.map_take, ← List.map_drop, hm, hm']
  refine ⟨m ++ l.drop count, List.map_append.symm, List.map_append.symm, ?_⟩
  rw [Session.run_singleton, Session.run_singleton, ← Multiset.coe_add]
  exact hstep

/-! ## Tasks with a good -/

theorem planFor {i : Nat} {f g : Chunk → List Action × List Chunk}
    (hg : b.goods = l.map Bond.leftChunk) (hg' : b'.goods = l.map Bond.rightChunk)
    (hs : Session.Paired k own own' l b.session b'.session)
    (hplan : ∀ x, Session.Paired k own own' (x ::ₘ (l.eraseIdx i : List Bond)) b.session b'.session →
      (l : Multiset Bond) = x ::ₘ (l.eraseIdx i : List Bond) →
        Planned k own own' b b' (f x.leftChunk) (g x.rightChunk)) :
    Planned k own own' b b' (b.planFor i f) (b'.planFor i g) := by
  cases hi : l[i]? with
  | none =>
      simp only [Bench.planFor, hg, hg', List.getElem?_map, hi, Option.map_none]
      exact ⟨l, rfl, rfl, .ok hs⟩
  | some x =>
      have hcons := coe_eq_cons hi
      simp only [Bench.planFor, hg, hg', List.getElem?_map, hi, Option.map_some]
      exact hplan x (hs.cast hcons) hcons

theorem plan_share (hg : b.goods = l.map Bond.leftChunk) (hg' : b'.goods = l.map Bond.rightChunk)
    (hs : Session.Paired k own own' l b.session b'.session) (i : Nat) :
    Planned k own own' b b' (b.plan (.share i)) (b'.plan (.share i)) := by
  refine planFor hg hg' hs fun x hx hcons => ?_
  simp only [Bond.leftChunk, Bond.rightChunk]
  rcases hx.retain with ⟨fault, hr, hr'⟩ | ⟨q, q', hr, hr', hretained⟩
  · simp only [hr, hr']
    exact planned_nothing hg hg' hs
  · simp only [hr, hr']
    refine ⟨x :: l, congrArg _ hg, congrArg _ hg', ?_⟩
    rw [Session.run_singleton, Session.run_singleton, ← Multiset.cons_coe, hcons]
    exact hretained

theorem plan_cut (hg : b.goods = l.map Bond.leftChunk) (hg' : b'.goods = l.map Bond.rightChunk)
    (hs : Session.Paired k own own' l b.session b'.session) (i start stop : Nat) :
    Planned k own own' b b' (b.plan (.cut i start stop)) (b'.plan (.cut i start stop)) := by
  refine planFor hg hg' hs fun x hx _ => ?_
  rw [hg, hg', List.eraseIdx_map, List.eraseIdx_map]
  exact ⟨⟨x.left, x.right, x.start + start, min x.stop (x.start + stop)⟩ :: l.eraseIdx i, rfl, rfl,
    .ok (narrow hx start stop)⟩

theorem plan_drop (hg : b.goods = l.map Bond.leftChunk) (hg' : b'.goods = l.map Bond.rightChunk)
    (hs : Session.Paired k own own' l b.session b'.session) (i : Nat) :
    Planned k own own' b b' (b.plan (.drop i)) (b'.plan (.drop i)) := by
  refine planFor hg hg' hs fun x hx _ => ?_
  rw [hg, hg', List.eraseIdx_map, List.eraseIdx_map]
  refine ⟨l.eraseIdx i, rfl, rfl, ?_⟩
  rw [Session.run_singleton, Session.run_singleton]
  exact hx.release

theorem plan_overwrite (hg : b.goods = l.map Bond.leftChunk)
    (hg' : b'.goods = l.map Bond.rightChunk)
    (hs : Session.Paired k own own' l b.session b'.session) (i offset : Nat) (data : Bytes) :
    Planned k own own' b b' (b.plan (.overwrite i offset data))
      (b'.plan (.overwrite i offset data)) := by
  refine planFor hg hg' hs fun x hx hcons => ?_
  refine ⟨l, hg, hg', ?_⟩
  rw [Session.run_singleton, Session.run_singleton, hcons]
  exact hx.write offset data

/-! ## Any tasks -/

theorem step (h : Paired k own own' b b') (task : Task) :
    Agree (Paired k own own') (b.step task) (b'.step task) := by
  obtain ⟨l, hg, hg', hs⟩ := h
  have hplan : Planned k own own' b b' (b.plan task) (b'.plan task) := by
    cases task with
    | enable => exact planned_action hg hg' hs.enable
    | disable => exact planned_action hg hg' hs.disable
    | receive data => exact planned_action hg hg' (hs.receive data)
    | transactionEnd => exact planned_action hg hg' hs.transactionEnd
    | complete result => exact planned_action hg hg' (hs.complete result)
    | pop => exact plan_pop hg hg' hs
    | load data => exact plan_load hg hg' hs data
    | share i => exact plan_share hg hg' hs i
    | cut i start stop => exact plan_cut hg hg' hs i start stop
    | drop i => exact plan_drop hg hg' hs i
    | overwrite i offset data => exact plan_overwrite hg hg' hs i offset data
    | send contentType count => exact plan_send hg hg' hs contentType count
  obtain ⟨m, hm, hm', hrun⟩ := hplan
  exact hrun.map fun _ _ hpaired => ⟨m, hm, hm', hpaired⟩

theorem run (tasks : List Task) {b b' : Bench queueDepth eventDepth} (h : Paired k own own' b b') :
    Agree (Paired k own own') (b.run tasks) (b'.run tasks) := by
  induction tasks generalizing b b' with
  | nil => exact .ok h
  | cons task rest ih => exact (h.step task).bind fun _ _ hnext => ih hnext

/-- Benches in the same state were told the same. -/
theorem tells (h : Paired k own own' b b') : b.Tells k b' := by
  obtain ⟨l, hg, hg', hs⟩ := h
  obtain ⟨others, ht, -⟩ := hs.pools
  obtain ⟨lent, -, queued, sent, held, posted, told, halike, -⟩ := hs.framers
  refine ⟨hs.issued_eq, hs.accepted_eq, hs.popped_eq, halike.receiver.state_eq, ?_, halike.enabled_eq,
    hs.channel_eq, ?_, ?_⟩
  · have hqueue := halike.queue.length_eq
    rw [BoundedQueue.length_toList, BoundedQueue.length_toList] at hqueue
    have hsent := halike.transmission
    rw [Framer.pending, Framer.pending, hqueue]
    generalize b.session.framer.transmission = t at hsent
    generalize b'.session.framer.transmission = t' at hsent
    cases hsent with
    | idle => rfl
    | sending alike segments expected => rfl
    | cancelled => rfl
  · rw [wares, wares, hg, hg', List.map_map, List.map_map]
    refine List.map_congr_left fun x hx => ?_
    exact ht.read_eq (Multiset.mem_add.2 (Or.inr (Multiset.mem_coe.2 hx))) (Nat.le_refl _)
      (Nat.le_refl _)
  · exact ht.freeCounts_eq

end Paired

end Bench

end DockLink
