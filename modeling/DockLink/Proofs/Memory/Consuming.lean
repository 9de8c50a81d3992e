import DockLink.Proofs.Memory.ByteLists
import DockLink.Proofs.Memory.Twins
import Mathlib.Data.List.Dedup

/-!
# Consuming bytes of a packet

Bytes that are consumed at the front of a packet use up the leading chunks that end within them.
Each of these gives one handle back, the next chunk loses its first bytes, and all others stay. What
is consumed in two steps may as well be consumed in one.
-/

namespace DockLink

/-- A chunk without its first `count` bytes. -/
def Chunk.trim (c : Chunk) (count : Nat) : Chunk := { c with start := c.start + count }

theorem Chunk.length_trim (c : Chunk) (count : Nat) : (c.trim count).length = c.length - count := by
  simp only [Chunk.length, Chunk.trim]
  omega

theorem Chunk.trim_trim (c : Chunk) (a b : Nat) : (c.trim a).trim b = c.trim (a + b) := by
  rw [trim, trim, trim, Nat.add_assoc]

namespace Pool

variable {p : Pool} {handles : Multiset Block} {blocks : List Block}

/-- A handle that is given back is one less to its block, and nothing else. -/
theorem Sound.refCount_releaseAll (h : p.Sound ((blocks : Multiset Block) + handles)) (b : Block) :
    ((p.releaseAll blocks).refCount b).toNat + blocks.count b = (p.refCount b).toNat := by
  rw [h.refCount_eq, (h.releaseAll blocks).1.refCount_eq, Multiset.count_add, Multiset.coe_count,
    Nat.add_comm]

/-- A slot is free again if all its handles were among those given back. -/
theorem Sound.freeCount_releaseAll (h : p.Sound ((blocks : Multiset Block) + handles)) (i : Nat) :
    ((p.releaseAll blocks).bucket i).freeCount = (p.bucket i).freeCount +
      blocks.dedup.countP fun b => b.sizeClass = i ∧ (p.releaseAll blocks).refCount b = 0 := by
  have hunheld : ∀ b, (p.releaseAll blocks).refCount b = 0 ↔ b ∉ handles := by
    intro b
    rw [← Multiset.count_eq_zero, ← (h.releaseAll blocks).1.refCount_eq b, ← UInt8.toNat_inj]
    rfl
  simp only [hunheld]
  clear hunheld
  induction blocks generalizing p with
  | nil => rfl
  | cons b rest ih =>
      have hcons : p.Sound (b ::ₘ ((rest : Multiset Block) + handles)) := h.cast (by
        rw [← Multiset.cons_coe, Multiset.cons_add])
      have hrest := ih hcons.release.1
      rw [hcons.freeCount_release] at hrest
      -- A block whose handle comes again later in the list is counted there.
      by_cases hb : b ∈ rest
      · rw [List.dedup_cons_of_mem hb]
        rw [if_neg (by simp [hb])] at hrest
        exact hrest
      · rw [List.dedup_cons_of_notMem hb, List.countP_cons]
        simp only [Multiset.mem_add, Multiset.mem_coe, hb, false_or, eq_comm (a := i)] at hrest
        simp only [decide_eq_true_eq]
        rw [Nat.add_comm (List.countP _ _), ← Nat.add_assoc]
        exact hrest

end Pool

namespace Packet

variable {pool : Pool} {p : Packet} {c : Chunk} {rest chunks : List Chunk} {count : Nat}

/-- The number of bytes in the first `n` chunks. -/
def reach (chunks : List Chunk) (n : Nat) : Nat := ((chunks.take n).map Chunk.length).sum

/-- The blocks of the first `n` chunks, one entry for each chunk. -/
def leading (chunks : List Chunk) (n : Nat) : List Block := (chunks.take n).map Chunk.block

theorem handles_eq_leading (p : Packet) (n : Nat) :
    p.handles = (leading p.chunks n : Multiset Block) +
      ((p.chunks.drop n).map Chunk.block : List Block) := by
  rw [leading, Multiset.coe_add, ← List.map_append, List.take_append_drop, handles]

/-- The first `n` chunks are those that end within the first `count` bytes. -/
structure UsesUp (chunks : List Chunk) (count n : Nat) : Prop where
  le : n ≤ chunks.length
  lt_iff : ∀ i < chunks.length, i < n ↔ reach chunks (i + 1) ≤ count

@[simp]
theorem reach_zero (chunks : List Chunk) : reach chunks 0 = 0 := rfl

@[simp]
theorem reach_cons (c : Chunk) (rest : List Chunk) (n : Nat) :
    reach (c :: rest) (n + 1) = c.length + reach rest n := rfl

/-- Of a chain that does not begin with an empty chunk, the first chunk goes or loses bytes. -/
theorem dropBytes_cons (pool : Pool) (rest : List Chunk) (count : Nat) (hc : c.length ≠ 0) :
    dropBytes pool (c :: rest) count =
      if c.length ≤ count then dropBytes (pool.release c.block) rest (count - c.length)
      else .ok (c.trim count :: rest, pool) := by
  cases count with
  | zero => rw [dropBytes_zero, if_neg (by omega)]; rfl
  | succ n => rfl

theorem UsesUp.none (h : count < c.length) : UsesUp (c :: rest) count 0 where
  le := Nat.zero_le _
  lt_iff := by
    intro i _
    rw [reach_cons]
    omega

theorem UsesUp.next {n : Nat} (hc : c.length ≤ count) (h : UsesUp rest (count - c.length) n) :
    UsesUp (c :: rest) count (n + 1) where
  le := Nat.succ_le_succ h.le
  lt_iff := by
    intro i hi
    rw [reach_cons]
    cases i with
    | zero => rw [reach_zero]; omega
    | succ j =>
        have hj := h.lt_iff j (Nat.lt_of_succ_lt_succ hi)
        omega

/-- The chunks that are used up give their handles back, and the next one loses the bytes that are
left to consume. -/
theorem dropBytes_eq (hne : ∀ c ∈ chunks, c.length ≠ 0)
    (hcount : count ≤ (chunks.map Chunk.length).sum) (pool : Pool) :
    ∃ n, UsesUp chunks count n ∧ dropBytes pool chunks count =
      .ok ((chunks.drop n).modifyHead (·.trim (count - reach chunks n)),
        pool.releaseAll (leading chunks n)) := by
  induction chunks generalizing pool count with
  | nil =>
      obtain rfl : count = 0 := Nat.le_zero.1 hcount
      exact ⟨0, ⟨Nat.le_refl _, nofun⟩, rfl⟩
  | cons c rest ih =>
      rw [dropBytes_cons _ _ _ (hne c List.mem_cons_self)]
      split
      · rename_i hle
        rw [List.map_cons, List.sum_cons] at hcount
        obtain ⟨n, hn, hdrop⟩ := ih (fun d hd => hne d (List.mem_cons_of_mem _ hd))
          (Nat.sub_le_of_le_add (Nat.add_comm _ _ ▸ hcount)) (pool.release c.block)
        refine ⟨n + 1, hn.next hle, ?_⟩
        rw [hdrop, reach_cons, Nat.sub_sub]
        rfl
      · rename_i hlt
        exact ⟨0, .none (Nat.lt_of_not_le hlt), rfl⟩

/-- To drop bytes twice is to drop them at once. -/
theorem dropBytes_add (hne : ∀ c ∈ chunks, c.length ≠ 0) (pool : Pool) (a b : Nat) :
    (dropBytes pool chunks a >>= fun (left, q) => dropBytes q left b) =
      dropBytes pool chunks (a + b) := by
  induction chunks generalizing pool a with
  | nil =>
      cases a with
      | zero => rw [Nat.zero_add]; rfl
      | succ n => rw [Nat.succ_add]; rfl
  | cons c rest ih =>
      have hc := hne c List.mem_cons_self
      rw [dropBytes_cons _ _ _ hc, dropBytes_cons _ _ _ hc]
      by_cases ha : c.length ≤ a
      · rw [if_pos ha, if_pos (by omega), ih fun d hd => hne d (List.mem_cons_of_mem _ hd),
          Nat.sub_add_comm ha]
      · -- The second step begins within the chunk that the first one trimmed.
        have htrim := c.length_trim a
        rw [if_neg ha]
        show dropBytes pool (c.trim a :: rest) b = _
        rw [dropBytes_cons _ _ _ (by omega), htrim, Chunk.trim_trim]
        by_cases hb : c.length ≤ a + b
        · rw [if_pos hb, if_pos (by omega)]
          congr 1
          omega
        · rw [if_neg hb, if_neg (by omega)]

theorem Valid.length_ne_zero (h : p.Valid pool) : ∀ c ∈ p.chunks, c.length ≠ 0 :=
  fun c hc => Nat.pos_iff_ne_zero.1 (h.chunk c hc).length_pos

theorem Valid.advance_eq (h : p.Valid pool) (hcount : count ≤ p.length) :
    ∃ n, UsesUp p.chunks count n ∧ p.advance pool count =
      .ok (⟨(p.chunks.drop n).modifyHead (·.trim (count - reach p.chunks n)), p.length - count⟩,
        pool.releaseAll (leading p.chunks n)) := by
  obtain ⟨n, hn, hdrop⟩ := dropBytes_eq h.length_ne_zero (h.length_eq ▸ hcount) pool
  refine ⟨n, hn, ?_⟩
  rw [Packet.advance, if_pos hcount, hdrop]
  rfl

/-- To consume bytes twice is to consume them at once, also where they are more than there are. -/
theorem Valid.advance_add (h : p.Valid pool) (a b : Nat) :
    (p.advance pool a >>= fun (left, q) => left.advance q b) = p.advance pool (a + b) := by
  by_cases ha : a ≤ p.length
  · obtain ⟨n, -, hdrop⟩ := dropBytes_eq h.length_ne_zero (h.length_eq ▸ ha) pool
    have hadd := dropBytes_add h.length_ne_zero pool a b
    rw [hdrop] at hadd
    rw [Packet.advance, if_pos ha, hdrop]
    show Packet.advance _ ⟨_, p.length - a⟩ b = _
    rw [Packet.advance, Packet.advance, ← hadd]
    by_cases hb : a + b ≤ p.length
    · rw [if_pos hb, if_pos (Nat.le_sub_of_add_le' hb), Nat.sub_add_eq]
      rfl
    · rw [if_neg hb, if_neg fun h => hb (Nat.add_comm _ _ ▸ Nat.add_le_of_le_sub ha h)]
  · rw [Packet.advance, if_neg ha, Packet.advance, if_neg (by omega)]
    rfl

end Packet

namespace Holdings

variable {h h' : Holdings} {id : Nat} {p : Packet}

/-- From `h` to `h'`, the first `count` bytes of a packet are consumed, and with them its first `n`
chunks. -/
structure Consumes (h h' : Holdings) (id : Nat) (p : Packet) (count n : Nat) : Prop where
  usesUp : Packet.UsesUp p.chunks count n
  /-- The next chunk loses its bytes that are consumed, and those behind it stay. -/
  packet : h'.get id = .packet
    ⟨(p.chunks.drop n).modifyHead (·.trim (count - Packet.reach p.chunks n)), p.length - count⟩
  others : ∀ i ≠ id, h'.get i = h.get i
  /-- Each chunk that is used up takes one from the handles of its block, and no block loses more. -/
  refCount : ∀ b, (h'.pool.refCount b).toNat + (Packet.leading p.chunks n).count b =
    (h.pool.refCount b).toNat
  capacity : ∀ b, h'.pool.capacity b = h.pool.capacity b
  /-- The bytes of a block stay as long as it has a handle. -/
  bytes : ∀ b, h'.pool.refCount b ≠ 0 → h'.pool.bytes b = h.pool.bytes b
  /-- The slots that are free again are those that had no other handles. -/
  freeCount : ∀ i, (h'.pool.bucket i).freeCount = (h.pool.bucket i).freeCount +
    (Packet.leading p.chunks n).dedup.countP fun b =>
      b.sizeClass = i ∧ h'.pool.refCount b = 0

/-- Puts a packet in the place of another one, with the pool it belongs to. -/
def putPacket (h : Holdings) (id : Nat) (x : Packet × Pool) : Holdings :=
  set { h with pool := x.2 } id (.packet x.1)

theorem get_putPacket (hid : id < h.table.size) (x : Packet × Pool) :
    (h.putPacket id x).get id = .packet x.1 := get_set_self hid

theorem putPacket_putPacket (h : Holdings) (id : Nat) (x : Packet × Pool) :
    (h.putPacket id x).putPacket id = h.putPacket id := by
  funext y
  simp only [putPacket, Holdings.set, Array.setIfInBounds_setIfInBounds]

theorem advance_eq (hget : h.get id = .packet p) (count : Nat) :
    h.advance id count = ((p.advance h.pool count).mapError .fault).map (h.putPacket id) := by
  rw [Holdings.advance, packet?, hget]
  cases hadvance : p.advance h.pool count with
  | error fault => simp only [bind, Except.bind, hadvance]; rfl
  | ok x => simp only [bind, Except.bind, hadvance]; rfl

theorem Sound.consumes (hs : h.Sound 0) (hget : h.get id = .packet p) {count : Nat}
    (hcount : count ≤ p.length) :
    ∃ h' n, h.advance id count = .ok h' ∧ Consumes h h' id p count n := by
  have hid : id < h.table.size := lt_size_of_get (by rw [hget]; nofun)
  obtain ⟨n, hn, hadvance⟩ := (hs.packet hget).advance_eq hcount
  have hheld : h.handles = (Packet.leading p.chunks n : Multiset Block) +
      (((p.chunks.drop n).map Chunk.block : List Block) + (h.set id .nothing).handles) := by
    have hall := h.handles_eq id
    rwa [hget, Holding.handles, p.handles_eq_leading n, add_assoc] at hall
  have hsound := hs.pool_handles.cast hheld
  obtain ⟨hleft, hkeeps⟩ := hsound.releaseAll _
  have hstep := advance_eq hget count
  rw [hadvance] at hstep
  refine ⟨_, n, hstep, hn, get_putPacket hid _, ?_, hsound.refCount_releaseAll,
    hkeeps.capacity_eq, ?_, hsound.freeCount_releaseAll⟩
  · intro i hi
    exact get_set_of_ne hi.symm
  · intro b hb
    refine hkeeps.bytes_eq b (Multiset.count_pos.1 ?_)
    rw [← hleft.refCount_eq b]
    exact Nat.pos_of_ne_zero fun h0 => hb (UInt8.toNat_inj.1 h0)

theorem Sound.advance_add (hs : h.Sound 0) (hget : h.get id = .packet p) (a b : Nat) :
    (h.advance id a >>= fun h' => h'.advance id b) = h.advance id (a + b) := by
  have hid : id < h.table.size := lt_size_of_get (by rw [hget]; nofun)
  rw [advance_eq hget, advance_eq hget, ← (hs.packet hget).advance_add]
  cases p.advance h.pool a with
  | error fault => rfl
  | ok x =>
      show (h.putPacket id x).advance id b = _
      rw [advance_eq (get_putPacket hid x), putPacket_putPacket]
      rfl

/-- Whatever an application asks of a pool: bytes that a packet has are consumed, and the handles
of the chunks that are used up are given back with them. More bytes than it has are refused, and
nothing changes. Either way, to consume bytes in two steps is to consume them in one. -/
theorem run_consumes {classes : List (Nat × Nat)} {pool : Pool}
    (hpool : Pool.ofClasses classes = .ok pool) (hclasses : ∀ c ∈ classes, 1 ≤ c.1 ∧ c.2 ≤ 255)
    (requests : List MemoryRequest) {h : Holdings} (hrun : run { pool } requests = h) {id : Nat}
    {p : Packet} (hget : h.get id = .packet p) (count : Nat) :
    (count ≤ p.length → ∃ h' n, h.advance id count = .ok h' ∧ h.Consumes h' id p count n) ∧
      (p.length < count → h.advance id count = .error (.fault .advancePastEnd) ∧
        h.handle (.advance id count) = h) ∧
      ∀ more, (h.advance id count >>= fun h' => h'.advance id more) =
        h.advance id (count + more) := by
  subst hrun
  have hs := (sound_of_ofClasses hpool hclasses).run requests
  refine ⟨hs.consumes hget, ?_, hs.advance_add hget count⟩
  intro hlt
  have hrefused := advance_past_end hget hlt
  exact ⟨hrefused, by rw [handle, hrefused]; rfl⟩

/-- A packet that holds both handles to one block and the only one to another. -/
def lending : List MemoryRequest :=
  [.allocate 4, .packetOfChunk ⟨0, 2, 4, true⟩, .push 1 ⟨0, 0, 2, false⟩, .allocate 1,
    .push 1 ⟨2, 0, 1, false⟩]

/-- Three bytes take one handle of the shared block, and the fourth byte takes the other one. -/
theorem lending_consumes :
    Pool.ofClasses [(4, 2)] = .ok ⟨#[.fresh 4 2]⟩ ∧ (∀ c ∈ [(4, 2)], 1 ≤ c.1 ∧ c.2 ≤ 255) ∧
      ∃ h p, run { pool := ⟨#[.fresh 4 2]⟩ } lending = h ∧ h.get 1 = .packet p ∧
        p.chunks = [⟨⟨0, 0⟩, 2, 4⟩, ⟨⟨0, 0⟩, 0, 2⟩, ⟨⟨0, 1⟩, 0, 1⟩] ∧
        (∃ h' n, h.advance 1 3 = .ok h' ∧ h.Consumes h' 1 p 3 n ∧ n = 1) ∧
        (h.advance 1 3 >>= fun h' => h'.advance 1 1) = h.advance 1 4 ∧
        h.advance 1 6 = .error (.fault .advancePastEnd) := by
  have hpool : Pool.ofClasses [(4, 2)] = .ok ⟨#[.fresh 4 2]⟩ := rfl
  have hget : (run { pool := ⟨#[.fresh 4 2]⟩ } lending).get 1 =
      .packet ⟨[⟨⟨0, 0⟩, 2, 4⟩, ⟨⟨0, 0⟩, 0, 2⟩, ⟨⟨0, 1⟩, 0, 1⟩], 5⟩ := by decide +kernel
  obtain ⟨hconsumes, -, hsplit⟩ := run_consumes hpool (by decide) lending rfl hget 3
  obtain ⟨-, hpast, -⟩ := run_consumes hpool (by decide) lending rfl hget 6
  obtain ⟨h', n, hadvance, hn⟩ := hconsumes (by decide)
  -- The first chunk ends within the three bytes, and the second one does not.
  have hfirst := (hn.usesUp.lt_iff 0 (by decide)).2 (by decide)
  have hsecond := mt (hn.usesUp.lt_iff 1 (by decide)).1 (by decide)
  exact ⟨hpool, by decide, _, _, rfl, hget, rfl, ⟨h', n, hadvance, hn, by omega⟩, hsplit 1,
    (hpast (by decide)).1⟩

end Holdings

end DockLink
