import DockLink.Memory.Holdings
import DockLink.Proofs.Memory.Copies

/-!
# What an application asks of its holdings

`Sound` says that the pool counts the handles of an application's blocks and packets, and that the
packets are valid. Between the steps of a request some handles are on their way from one holding to
another. They are kept apart as `loose`, and `Serves` says what is left unchanged meanwhile.
-/

namespace DockLink

/-- What an application may ask for. -/
inductive MemoryRequest where
  | allocate (size : Nat)
  | duplicate (id : Nat)
  | drop (id : Nat)
  | write (id offset : Nat) (data : Bytes)
  | newPacket
  | packetOfChunk (chunk : ChunkRequest)
  | packetOfBytes (data : Bytes)
  | push (id : Nat) (chunk : ChunkRequest)
  | pushFront (id : Nat) (chunk : ChunkRequest)
  | advance (id count : Nat)
deriving DecidableEq, Repr

/-- The handles of a holding. -/
def Holding.handles : Holding → Multiset Block
  | .nothing => 0
  | .block b => {b}
  | .packet p => p.handles

namespace Packet

theorem Valid.shows {pool q : Pool} {handles : Multiset Block} {p : Packet} (h : p.Valid pool)
    (hshows : pool.Shows q handles) : p.Valid q :=
  ⟨h.chunks_le, fun c hc => ⟨(h.chunk c hc).1,
    (h.chunk c hc).2.trans_eq (hshows.capacity_eq c.block).symm⟩, h.length_eq⟩

/-- A way to add a chunk to a packet. A chunk without bytes is given back at once, one without room
is left to the caller, and `join` tells where the bytes of any other go. -/
structure Adds (add : Pool → Packet → Chunk → Except Chunk (Packet × Pool))
    (join : Bytes → Bytes → Bytes) : Prop where
  empty : ∀ {pool p c}, c.length = 0 → add pool p c = .ok (p, pool.release c.block)
  full : ∀ {pool p c}, c.length ≠ 0 → maxChunks ≤ p.chunks.length → add pool p c = .error c
  room : ∀ {pool p c}, p.Valid pool → c.Valid pool → p.chunks.length < maxChunks →
    ∃ p', add pool p c = .ok (p', pool) ∧ p'.Valid pool ∧ p'.handles = c.block ::ₘ p.handles ∧
      p'.content pool = join (p.content pool) (c.bytes pool)

theorem adds_push : Adds push fun content bytes => content ++ bytes where
  empty := push_of_length_zero
  full := push_eq_error
  room := by
    intro pool p c hp hc hroom
    obtain ⟨p', hpush, hvalid, hhandles, hcontent, -⟩ := hp.push hc hroom
    exact ⟨p', hpush, hvalid, hhandles, hcontent⟩

theorem adds_pushFront : Adds pushFront fun content bytes => bytes ++ content where
  empty := by
    intro pool p c hc
    simp [pushFront, add, hc]
  full := pushFront_eq_error
  room := by
    intro pool p c hp hc hroom
    obtain ⟨p', hpush, hvalid, hhandles, hcontent, -⟩ := hp.pushFront hc hroom
    exact ⟨p', hpush, hvalid, hhandles, hcontent⟩

theorem Adds.cases {add : Pool → Packet → Chunk → Except Chunk (Packet × Pool)}
    {join : Bytes → Bytes → Bytes} (hadd : Adds add join) {pool : Pool} {p : Packet} {c : Chunk}
    (hp : p.Valid pool) (hc : c.start ≤ c.stop ∧ c.stop ≤ pool.capacity c.block) :
    (c.length = 0 ∧ add pool p c = .ok (p, pool.release c.block)) ∨
      (c.length ≠ 0 ∧ p.chunks.length = maxChunks ∧ add pool p c = .error c) ∨
      (c.length ≠ 0 ∧ p.chunks.length < maxChunks ∧ ∃ p', add pool p c = .ok (p', pool) ∧
        p'.Valid pool ∧ p'.handles = c.block ::ₘ p.handles ∧
        p'.content pool = join (p.content pool) (c.bytes pool)) := by
  by_cases hlen : c.length = 0
  · exact Or.inl ⟨hlen, hadd.empty hlen⟩
  · have hvalid : c.Valid pool := ⟨by unfold Chunk.length at hlen; omega, hc.2⟩
    rcases hp.chunks_le.eq_or_lt with hfull | hroom
    · exact Or.inr (Or.inl ⟨hlen, hfull, hadd.full hlen hfull.ge⟩)
    · exact Or.inr (Or.inr ⟨hlen, hroom, hadd.room hp hvalid hroom⟩)

end Packet

namespace Holdings

/-- The holdings after a request. One that is refused without effect leaves them as they are. -/
def handle (h : Holdings) : MemoryRequest → Holdings
  | .allocate size => (h.allocate size).2
  | .duplicate id => (h.duplicate id).2
  | .drop id => h.drop id
  | .write id offset data => (h.write id offset data).toOption.getD h
  | .newPacket => h.newPacket.2
  | .packetOfChunk chunk => (h.packetOfChunk chunk).2
  | .packetOfBytes data => (h.packetOfBytes data).2
  | .push id chunk => (h.push id chunk).2
  | .pushFront id chunk => (h.pushFront id chunk).2
  | .advance id count => (h.advance id count).toOption.getD h

/-- The holdings after any number of requests, first to last. -/
def run (h : Holdings) (requests : List MemoryRequest) : Holdings := requests.foldl handle h

/-- All handles that are held, one entry for each. -/
def handles (h : Holdings) : Multiset Block := (h.table.toList.map Holding.handles).sum

/-- The handles of a pool are those of the table and the loose ones, and all packets are valid. -/
structure Sound (loose : Multiset Block) (h : Holdings) : Prop where
  pool : h.pool.Sound (loose + h.handles)
  packet : ∀ {id p}, h.get id = .packet p → p.Valid h.pool

/-- From `h` the holdings came to `h'`, with some loose handles. Whoever still has a handle that was
there before reads the same bytes through it. -/
structure Serves (loose : Multiset Block) (h h' : Holdings) : Prop where
  sound : h'.Sound loose
  shows : h.pool.Shows h'.pool (h.handles ∩ (loose + h'.handles))

variable {h h' : Holdings} {id : Nat} {x : Holding} {loose : Multiset Block} {q : Pool}

/-! ## The table -/

theorem sum_handles_set (table : List Holding) (x : Holding) {i : Nat} (hi : i < table.length) :
    ((table.set i x).map Holding.handles).sum + (table[i]).handles =
      (table.map Holding.handles).sum + x.handles := by
  induction table generalizing i with
  | nil => exact absurd hi (Nat.not_lt_zero i)
  | cons y rest ih =>
      cases i with
      | zero =>
          simp only [List.set_cons_zero, List.map_cons, List.sum_cons, List.getElem_cons_zero]
          abel
      | succ i =>
          have hrest := ih (i := i) (Nat.lt_of_succ_lt_succ hi)
          simp only [List.set_cons_succ, List.map_cons, List.sum_cons, List.getElem_cons_succ]
          rw [add_assoc, hrest, add_assoc]

theorem get_eq_getElem (hid : id < h.table.size) : h.get id = h.table[id] := by
  rw [get, Array.getD_eq_getD_getElem?, Array.getElem?_eq_getElem hid, Option.getD_some]

theorem get_of_size_le (hid : h.table.size ≤ id) : h.get id = .nothing := by
  rw [get, Array.getD_eq_getD_getElem?, Array.getElem?_eq_none hid, Option.getD_none]

theorem lt_size_of_get (hx : h.get id ≠ .nothing) : id < h.table.size :=
  Nat.lt_of_not_le fun hle => hx (get_of_size_le hle)

theorem get_set (h : Holdings) (x : Holding) (id i : Nat) :
    (h.set id x).get i = if id = i ∧ id < h.table.size then x else h.get i := by
  simp only [get, set, Array.getD_eq_getD_getElem?, Array.getElem?_setIfInBounds]
  by_cases hi : id = i
  · subst hi
    by_cases hlt : id < h.table.size
    · simp [hlt]
    · simp [hlt]
  · simp [hi]

theorem get_set_of_ne {i : Nat} (hi : id ≠ i) : (h.set id x).get i = h.get i := by
  rw [get_set, if_neg fun he => hi he.1]

theorem get_set_self (hid : id < h.table.size) : (h.set id x).get id = x := by
  rw [get_set, if_pos ⟨rfl, hid⟩]

theorem get_record (h : Holdings) (x : Holding) (i : Nat) :
    (h.record x).2.get i = if i = h.table.size then x else h.get i := by
  simp only [get, record, Array.getD_eq_getD_getElem?, Array.getElem?_push]
  split
  · rfl
  · rfl

theorem handles_set_add (hid : id < h.table.size) (x : Holding) :
    (h.set id x).handles + (h.get id).handles = h.handles + x.handles := by
  rw [get_eq_getElem hid, handles, set, Array.toList_setIfInBounds, handles]
  exact sum_handles_set h.table.toList x (by simpa using hid)

/-- What is held under a number, and everything else. -/
theorem handles_eq (h : Holdings) (id : Nat) :
    h.handles = (h.get id).handles + (h.set id .nothing).handles := by
  by_cases hid : id < h.table.size
  · rw [add_comm, handles_set_add hid .nothing]
    exact (add_zero _).symm
  · have hset : h.set id .nothing = h := by
      rw [set, Array.setIfInBounds_eq_of_size_le (Nat.not_lt.1 hid)]
    rw [hset, get_of_size_le (Nat.not_lt.1 hid)]
    exact (zero_add _).symm

theorem handles_set (hget : h.get id = .nothing) (hid : id < h.table.size) (x : Holding) :
    (h.set id x).handles = x.handles + h.handles := by
  have hadd := handles_set_add hid x
  rw [hget, add_comm h.handles] at hadd
  exact (add_zero _).symm.trans hadd

theorem handles_record (h : Holdings) (x : Holding) :
    (h.record x).2.handles = x.handles + h.handles := by
  simp [handles, record, add_comm]

theorem mem_handles (id : Nat) {b : Block} (hb : b ∈ (h.get id).handles) : b ∈ h.handles := by
  rw [h.handles_eq id]
  exact Multiset.mem_add.2 (Or.inl hb)

/-! ## The steps of a request -/

namespace Serves

theorem refl (hs : h.Sound loose) : Serves loose h h := ⟨hs, Pool.Shows.refl _ _⟩

/-- The handles of a holding become loose. -/
theorem take (hs : Serves loose h h') (id : Nat) :
    Serves ((h'.get id).handles + loose) h (h'.set id .nothing) := by
  have he : (h'.get id).handles + loose + (h'.set id .nothing).handles = loose + h'.handles := by
    rw [h'.handles_eq id]
    abel
  refine ⟨⟨hs.sound.pool.cast he.symm, ?_⟩, he ▸ hs.shows⟩
  intro i p hp
  rw [get_set] at hp
  split at hp
  · cases hp
  · exact hs.sound.packet hp

theorem cast {others : Multiset Block} (hs : Serves loose h h') (he : loose = others) :
    Serves others h h' := he ▸ hs

/-- The loose handles go to a number under which nothing is held. -/
theorem put (hs : Serves x.handles h h') (hget : h'.get id = .nothing)
    (hid : id < h'.table.size) (hx : ∀ p, x = .packet p → p.Valid h'.pool) :
    Serves 0 h (h'.set id x) := by
  have he : 0 + (h'.set id x).handles = x.handles + h'.handles := by
    rw [handles_set hget hid, zero_add]
  refine ⟨⟨hs.sound.pool.cast he.symm, ?_⟩, he ▸ hs.shows⟩
  intro i p hp
  rw [get_set] at hp
  split at hp
  · exact hx p hp
  · exact hs.sound.packet hp

/-- The loose handles go to a new number. -/
theorem record (hs : Serves x.handles h h') (hx : ∀ p, x = .packet p → p.Valid h'.pool) :
    Serves 0 h (h'.record x).2 := by
  have he : 0 + (h'.record x).2.handles = x.handles + h'.handles := by
    rw [handles_record, zero_add]
  refine ⟨⟨hs.sound.pool.cast he.symm, ?_⟩, he ▸ hs.shows⟩
  intro i p hp
  rw [get_record] at hp
  split at hp
  · exact hx p hp
  · exact hs.sound.packet hp

theorem recordNothing (hs : Serves 0 h h') : Serves 0 h h'.recordNothing :=
  hs.record (x := .nothing) nofun

/-- The pool changes, and with it the loose handles. Those that appear are not old ones. -/
theorem work {left : Multiset Block} (hs : Serves loose h h') (hq : q.Sound (left + h'.handles))
    (hshows : h'.pool.Shows q ((loose + h'.handles) ∩ (left + h'.handles)))
    (hleft : ∀ b ∈ left, b ∈ h.handles → b ∈ loose + h'.handles) :
    Serves left h { h' with pool := q } := by
  refine ⟨⟨hq, ?_⟩, ?_⟩
  · intro i p hp
    exact (hs.sound.packet hp).shows hshows
  · refine ⟨fun b => (hshows.capacity_eq b).trans (hs.shows.capacity_eq b), ?_⟩
    intro b hb
    obtain ⟨hbefore, hafter⟩ := Multiset.mem_inter.1 hb
    have hmid : b ∈ loose + h'.handles := by
      rcases Multiset.mem_add.1 hafter with hb | hb
      · exact hleft b hb hbefore
      · exact Multiset.mem_add.2 (Or.inr hb)
    exact (hshows.bytes_eq b (Multiset.mem_inter.2 ⟨hmid, hafter⟩)).trans
      (hs.shows.bytes_eq b (Multiset.mem_inter.2 ⟨hbefore, hmid⟩))

/-- The pool changes, and nobody loses a handle. -/
theorem ofPool {left : Multiset Block} (hs : h.Sound 0) (hq : q.Sound (left + h.handles))
    (hshows : h.pool.Shows q h.handles) : Serves left h { h with pool := q } := by
  refine (refl hs).work hq ?_ fun c _ hc => Multiset.mem_add.2 (Or.inr hc)
  rw [zero_add]
  exact hshows.mono fun c hc => (Multiset.mem_inter.1 hc).1

/-- A holding gives way to another one, which has the loose handles. -/
theorem swap (hs : Serves x.handles h { h'.set id .nothing with pool := q })
    (hid : id < h'.table.size) (hx : ∀ p, x = .packet p → p.Valid q) :
    Serves 0 h (set { h' with pool := q } id x) := by
  have hget : get { h'.set id .nothing with pool := q } id = .nothing := get_set_self hid
  have hput := hs.put hget (by simpa [set] using hid) hx
  have hset : set { h'.set id .nothing with pool := q } id x = set { h' with pool := q } id x := by
    simp [set]
  exact hset ▸ hput

/-- A loose handle is given back. -/
theorem release {b : Block} (hs : Serves (b ::ₘ loose) h h') :
    Serves loose h { h' with pool := h'.pool.release b } := by
  obtain ⟨hsound, hkeeps⟩ := (hs.sound.pool.cast (Multiset.cons_add _ _ _)).release
  refine hs.work hsound (hkeeps.shows.mono fun c hc => (Multiset.mem_inter.1 hc).2) ?_
  intro c hc _
  exact Multiset.mem_add.2 (Or.inl (Multiset.mem_cons_of_mem hc))

end Serves

/-! ## Chunks -/

theorem get_of_block? {b : Block} (hb : h.block? id = .ok b) : h.get id = .block b := by
  unfold block? at hb
  split at hb
  · cases hb; assumption
  · cases hb

theorem get_of_packet? {p : Packet} (hp : h.packet? id = .ok p) : h.get id = .packet p := by
  unfold packet? at hp
  split at hp
  · cases hp; assumption
  · cases hp

/-- A handle to a block is loose after it was taken, and also after a second one was made. -/
theorem Sound.detach (hs : h.Sound 0) {b : Block} (hget : h.get id = .block b) {clone : Bool}
    (hd : (if clone then (h.pool.retain b).map fun pool => { h with pool }
      else .ok (h.set id .nothing)) = Except.ok h') : Serves {b} h h' := by
  cases clone with
  | false =>
      cases hd
      have htake := (Serves.refl hs).take id
      rw [hget] at htake
      exact htake
  | true =>
      have hb : b ∈ h.handles := mem_handles id (hget ▸ Multiset.mem_singleton_self b)
      have hpool := hs.pool.cast (zero_add _)
      cases hr : h.pool.retain b with
      | error fault => rw [hr] at hd; cases hd
      | ok q =>
          rw [hr] at hd
          cases hd
          obtain ⟨hsound, hshows⟩ := hpool.retain_mem hb hr
          exact .ofPool hs (hsound.cast (Multiset.singleton_add _ _).symm) hshows

/-- A request for a chunk is refused, or its handle is loose and its range within the block. -/
theorem Sound.chunk (hs : h.Sound 0) (request : ChunkRequest) :
    (∃ e h', h.chunk request = (.error e, h') ∧ Serves 0 h h') ∨
      ∃ c h', h.chunk request = (.ok c, h') ∧ c.start ≤ c.stop ∧
        c.stop ≤ h'.pool.capacity c.block ∧ Serves {c.block} h h' := by
  unfold Holdings.chunk
  cases hb : h.block? request.block with
  | error e => exact Or.inl ⟨e, h, rfl, .refl hs⟩
  | ok b =>
      simp only
      split
      · exact Or.inl ⟨_, h, rfl, .refl hs⟩
      · rename_i h₁ hd
        have hserves := hs.detach (get_of_block? hb) hd
        cases hof : Chunk.of h₁.pool b request.start request.stop with
        | error fault =>
            refine Or.inl ⟨_, _, rfl, ?_⟩
            have hloose : Serves (b ::ₘ 0) h h₁ := hserves
            exact hloose.release
        | ok c =>
            unfold Chunk.of at hof
            split at hof
            · rename_i hrange
              cases hof
              exact Or.inr ⟨_, h₁, rfl, hrange.1, hrange.2, hserves⟩
            · cases hof

/-- A chunk of a block leaves the other holdings where they are. -/
theorem get_chunk (h : Holdings) (request : ChunkRequest) (hid : id ≠ request.block) :
    (h.chunk request).2.get id = h.get id := by
  unfold Holdings.chunk
  cases hb : h.block? request.block with
  | error e => rfl
  | ok b =>
      simp only
      split
      · rfl
      · rename_i h₁ hd
        have hget : h₁.get id = h.get id := by
          split at hd
          · cases hr : h.pool.retain b with
            | error fault => rw [hr] at hd; cases hd
            | ok q => rw [hr] at hd; cases hd; rfl
          · cases hd
            exact get_set_of_ne hid.symm
        split
        · exact hget
        · exact hget

theorem get_chunk_of_packet {p : Packet} (hget : h.get id = .packet p) (request : ChunkRequest) :
    (h.chunk request).2.get id = .packet p := by
  by_cases hid : id = request.block
  · -- The number is not one of a block, and the request is refused.
    have hb : h.block? request.block = .error .noHandle := by rw [block?, ← hid, hget]
    rw [Holdings.chunk, hb]
    exact hget
  · rw [get_chunk h request hid, hget]

/-! ## Requests -/

namespace Sound

theorem pool_handles (hs : h.Sound 0) : h.pool.Sound h.handles := hs.pool.cast (zero_add _)

theorem allocate (hs : h.Sound 0) (size : Nat) : Serves 0 h (h.allocate size).2 := by
  unfold Holdings.allocate
  split
  · exact (Serves.refl hs).recordNothing
  · rename_i b q ha
    obtain ⟨-, hsound, hkeeps, -⟩ := hs.pool_handles.allocate ha
    have hwork : Serves {b} h { h with pool := q } :=
      .ofPool hs (hsound.cast (Multiset.singleton_add _ _).symm) hkeeps.shows
    exact hwork.record (x := .block b) nofun

theorem duplicate (hs : h.Sound 0) (id : Nat) : Serves 0 h (h.duplicate id).2 := by
  unfold Holdings.duplicate
  cases hget : h.get id with
  | nothing => exact (Serves.refl hs).recordNothing
  | block b =>
      have hb : b ∈ h.handles := mem_handles id (hget ▸ Multiset.mem_singleton_self b)
      simp only
      cases hr : h.pool.retain b with
      | error fault => exact (Serves.refl hs).recordNothing
      | ok q =>
          obtain ⟨hsound, hshows⟩ := hs.pool_handles.retain_mem hb hr
          have hwork : Serves {b} h { h with pool := q } :=
            .ofPool hs (hsound.cast (Multiset.singleton_add _ _).symm) hshows
          exact hwork.record (x := .block b) nofun
  | packet p =>
      have hp : ∀ b ∈ p.handles, b ∈ h.handles := fun b hb => mem_handles id (hget ▸ hb)
      simp only
      rcases Packet.sound_duplicate hs.pool_handles hp with
        ⟨q, hq, hsound, hshows⟩ | ⟨q, hq, hsound, hshows, -⟩
      · rw [hq]
        have hwork : Serves p.handles h { h with pool := q } := .ofPool hs hsound hshows
        refine hwork.record (x := .packet p) ?_
        rintro p' ⟨⟩
        exact hwork.sound.packet hget
      · rw [hq]
        have hwork : Serves 0 h { h with pool := q } :=
          .ofPool hs (hsound.cast (zero_add _).symm) hshows
        exact hwork.recordNothing

theorem drop (hs : h.Sound 0) (id : Nat) : Serves 0 h (h.drop id) := by
  unfold Holdings.drop
  have htake := (Serves.refl hs).take id
  cases hget : h.get id with
  | nothing => exact .refl hs
  | block b =>
      rw [hget] at htake
      have hloose : Serves (b ::ₘ 0) h (h.set id .nothing) := htake
      exact hloose.release
  | packet p =>
      rw [hget] at htake
      obtain ⟨hsound, hkeeps⟩ := Packet.sound_release (htake.sound.pool.cast (add_assoc _ _ _))
      refine htake.work hsound (hkeeps.shows.mono fun c hc => (Multiset.mem_inter.1 hc).2) ?_
      exact fun c hc _ => absurd hc (Multiset.notMem_zero c)

theorem packetOfChunk (hs : h.Sound 0) (request : ChunkRequest) :
    Serves 0 h (h.packetOfChunk request).2 := by
  unfold Holdings.packetOfChunk
  rcases hs.chunk request with ⟨e, h', hc, hserves⟩ | ⟨c, h', hc, hle, hcap, hserves⟩
  · rw [hc]
    exact hserves.recordNothing
  · rw [hc]
    by_cases hlen : c.length = 0
    · simp only [Packet.ofChunk, if_pos hlen]
      refine Serves.record (x := .packet .empty) (Serves.release (b := c.block) hserves) ?_
      rintro p ⟨⟩
      exact Packet.Valid.empty _
    · have hvalid : c.Valid h'.pool := ⟨by unfold Chunk.length at hlen; omega, hcap⟩
      obtain ⟨p, hp, hp', hhandles, -⟩ := Packet.Valid.ofChunk hvalid
      simp only [hp]
      refine Serves.record (x := .packet p) ?_ ?_
      · rw [Holding.handles, hhandles]
        exact hserves
      · rintro p' ⟨⟩
        exact hp'

theorem packetOfBytes (hs : h.Sound 0) (data : Bytes) :
    Serves 0 h (h.packetOfBytes data).2 := by
  unfold Holdings.packetOfBytes
  rcases Packet.sound_ofBytes hs.pool_handles data with
    ⟨e, q, hq, hsound, hkeeps⟩ | ⟨p, q, hq, hp, hsound, hkeeps, -⟩
  · rw [hq]
    have hwork : Serves 0 h { h with pool := q } :=
      .ofPool hs (hsound.cast (zero_add _).symm) hkeeps.shows
    exact hwork.recordNothing
  · rw [hq]
    have hwork : Serves p.handles h { h with pool := q } := .ofPool hs hsound hkeeps.shows
    refine hwork.record (x := .packet p) ?_
    rintro p' ⟨⟩
    exact hp

theorem addChunk {add : Pool → Packet → Chunk → Except Chunk (Packet × Pool)}
    {join : Bytes → Bytes → Bytes} (hadd : Packet.Adds add join) (hs : h.Sound 0) (id : Nat)
    (request : ChunkRequest) : Serves 0 h (h.addChunk add id request).2 := by
  unfold Holdings.addChunk
  cases hp : h.packet? id with
  | error e => exact .refl hs
  | ok p =>
      have hget := get_of_packet? hp
      rcases hs.chunk request with ⟨e, h', hc, hserves⟩ | ⟨c, h', hc, hle, hcap, hserves⟩
      · rw [hc]
        exact hserves
      · rw [hc]
        have hget' : h'.get id = .packet p := by
          have hsame := get_chunk_of_packet hget request
          rwa [hc] at hsame
        have hid : id < h'.table.size := lt_size_of_get (by rw [hget']; nofun)
        have hvalid := hserves.sound.packet hget'
        have htake := hserves.take id
        rw [hget'] at htake
        have hboth : (Holding.packet p).handles + {c.block} = c.block ::ₘ p.handles := by
          rw [add_comm, Multiset.singleton_add, Holding.handles]
        rcases hadd.cases hvalid ⟨hle, hcap⟩ with
          ⟨-, ha⟩ | ⟨-, -, ha⟩ | ⟨-, -, p', ha, hvalid', hhandles, -⟩
        · simp only [ha]
          have hrelease := (htake.cast hboth).release
          refine Serves.swap (x := .packet p) hrelease hid ?_
          rintro p' ⟨⟩
          exact (hs.packet hget).shows hrelease.shows
        · simp only [ha]
          have hloose : Serves (c.block ::ₘ 0) h _ := hserves
          exact hloose.release
        · simp only [ha]
          refine Serves.swap (x := .packet p') (htake.cast (hboth.trans hhandles.symm)) hid ?_
          rintro p'' ⟨⟩
          exact hvalid'

theorem advance (hs : h.Sound 0) (id count : Nat) :
    Serves 0 h ((h.advance id count).toOption.getD h) := by
  unfold Holdings.advance
  cases hp : h.packet? id with
  | error e => exact .refl hs
  | ok p =>
      have hget := get_of_packet? hp
      have hid : id < h.table.size := lt_size_of_get (by rw [hget]; nofun)
      have htake := (Serves.refl hs).take id
      rw [hget] at htake
      simp only [bind, Except.bind]
      by_cases hcount : count ≤ p.length
      · obtain ⟨p', q, hq, hsound, hkeeps, hvalid, -, -⟩ := (hs.packet hget).advance hcount
          (htake.sound.pool.cast (add_assoc _ _ _))
        rw [zero_add] at hsound hkeeps
        simp only [hq]
        refine Serves.swap (x := .packet p') ?_ hid ?_
        · refine htake.work hsound (hkeeps.shows.mono fun c hc => (Multiset.mem_inter.1 hc).2) ?_
          intro b _ hb
          rw [add_zero, ← hget, ← h.handles_eq id]
          exact hb
        · rintro p'' ⟨⟩
          exact hvalid
      · rw [Packet.advance, if_neg hcount]
        exact .refl hs

/-- A block is written through its only handle, within its bounds, and not otherwise. -/
theorem write_cases (hs : h.Sound 0) {b : Block} (hget : h.get id = .block b) (offset : Nat)
    (data : Bytes) :
    (1 < h.handles.count b ∧ h.write id offset data = .error (.fault .sharedBlock)) ∨
      (h.handles.count b = 1 ∧ h.pool.capacity b < offset + data.length ∧
        h.write id offset data = .error (.fault .outOfRange)) ∨
      (h.handles.count b = 1 ∧ offset + data.length ≤ h.pool.capacity b ∧
        ∃ q, h.write id offset data = .ok { h with pool := q } ∧ q.Sound h.handles ∧
          (∀ c, q.capacity c = h.pool.capacity c) ∧
          (∀ c ∈ h.handles, c ≠ b → q.bytes c = h.pool.bytes c) ∧
          q.bytes b = (h.pool.bytes b).take offset ++ data ++
            (h.pool.bytes b).drop (offset + data.length)) := by
  have hb : b ∈ h.handles := mem_handles id (hget ▸ Multiset.mem_singleton_self b)
  have hpos : 0 < h.handles.count b := Multiset.count_pos.2 hb
  have hrefs := hs.pool_handles.refCount_eq b
  have hblock : h.block? id = .ok b := by rw [block?, hget]
  by_cases hcount : h.handles.count b = 1
  · have hone : h.pool.refCount b = 1 := UInt8.toNat_inj.1 (hrefs.trans hcount)
    by_cases hfits : offset + data.length ≤ h.pool.capacity b
    · obtain ⟨rest, hrest⟩ := Multiset.exists_cons_of_mem hb
      have hnot : b ∉ rest := by
        rw [hrest, Multiset.count_cons_self] at hcount
        exact Multiset.count_eq_zero.1 (Nat.succ.inj hcount)
      obtain ⟨q, hw, hsound, hkeeps, hbytes⟩ := (hs.pool_handles.cast hrest).write hnot hfits
      refine Or.inr (Or.inr ⟨hcount, hfits, q, ?_, hsound.cast hrest.symm, hkeeps.capacity_eq,
        ?_, hbytes⟩)
      · simp only [Holdings.write, hblock, hw, bind, Except.bind, pure, Except.pure]
      · intro c hc hne
        rw [hrest] at hc
        exact hkeeps.bytes_eq c ((Multiset.mem_cons.1 hc).resolve_left hne)
    · refine Or.inr (Or.inl ⟨hcount, Nat.lt_of_not_le hfits, ?_⟩)
      simp [Holdings.write, hblock, Pool.write, hone, hfits, bind, Except.bind, throw, throwThe,
        MonadExceptOf.throw]
  · have hne : h.pool.refCount b ≠ 1 := fun h1 => hcount (by rw [← hrefs, h1]; rfl)
    refine Or.inl ⟨by omega, ?_⟩
    simp [Holdings.write, hblock, Pool.write, hne, bind, Except.bind, throw, throwThe,
      MonadExceptOf.throw]

theorem write (hs : h.Sound 0) (id offset : Nat) (data : Bytes) :
    ((h.write id offset data).toOption.getD h).Sound 0 := by
  cases hget : h.block? id with
  | error e =>
      have hrefused : h.write id offset data = .error e := by rw [Holdings.write, hget]; rfl
      rw [hrefused]
      exact hs
  | ok b =>
      rcases hs.write_cases (get_of_block? hget) offset data with
        ⟨-, hw⟩ | ⟨-, -, hw⟩ | ⟨-, -, q, hw, hsound, hcap, -, -⟩
      · rw [hw]; exact hs
      · rw [hw]; exact hs
      · rw [hw]
        refine ⟨hsound.cast (zero_add _).symm, ?_⟩
        intro i p hp
        have hshows : h.pool.Shows q 0 := ⟨hcap, nofun⟩
        exact (hs.packet hp).shows hshows

/-! ## Any run -/

/-- Other than a write, a request changes no bytes under a handle that stays. -/
theorem serves (hs : h.Sound 0) {request : MemoryRequest}
    (hr : ∀ id offset data, request ≠ .write id offset data) :
    Serves 0 h (h.handle request) := by
  cases request with
  | allocate size => exact hs.allocate size
  | duplicate id => exact hs.duplicate id
  | drop id => exact hs.drop id
  | write id offset data => exact absurd rfl (hr id offset data)
  | newPacket =>
      refine (Serves.refl hs).record (x := .packet .empty) ?_
      rintro p ⟨⟩
      exact Packet.Valid.empty _
  | packetOfChunk chunk => exact hs.packetOfChunk chunk
  | packetOfBytes data => exact hs.packetOfBytes data
  | push id chunk => exact hs.addChunk Packet.adds_push id chunk
  | pushFront id chunk => exact hs.addChunk Packet.adds_pushFront id chunk
  | advance id count => exact hs.advance id count

theorem handle (hs : h.Sound 0) (request : MemoryRequest) : (h.handle request).Sound 0 := by
  by_cases hr : ∃ id offset data, request = .write id offset data
  · obtain ⟨id, offset, data, rfl⟩ := hr
    exact hs.write id offset data
  · push Not at hr
    exact (hs.serves hr).sound

theorem run (hs : h.Sound 0) (requests : List MemoryRequest) : (h.run requests).Sound 0 := by
  induction requests generalizing h with
  | nil => exact hs
  | cons request rest ih => exact ih (hs.handle request)

end Sound

theorem sound_of_ofClasses {classes : List (Nat × Nat)} {pool : Pool}
    (hpool : Pool.ofClasses classes = .ok pool) (hclasses : ∀ c ∈ classes, 1 ≤ c.1 ∧ c.2 ≤ 255) :
    Sound 0 { pool } where
  pool := Pool.sound_of_ofClasses hpool hclasses
  packet := fun hp => by cases hp

end Holdings

end DockLink
