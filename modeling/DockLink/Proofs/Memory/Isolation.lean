import DockLink.Proofs.Memory.Requests

/-!
# What a handle shows

Bytes are written through the only handle of a slot, and change in no other way while the slot has a
handle. So a packet, or a block that is not written, shows the same bytes as long as it is held.
-/

namespace DockLink

/-- A request that takes what is held under a number, or changes it. A write is not one: it leaves
the handle as it is. -/
def MemoryRequest.Touches (id : Nat) : MemoryRequest → Prop
  | .drop i => i = id
  | .packetOfChunk chunk => chunk.block = id ∧ chunk.clone = false
  | .push i chunk | .pushFront i chunk => i = id ∨ (chunk.block = id ∧ chunk.clone = false)
  | .advance i _ => i = id
  | _ => False

instance (id : Nat) : (request : MemoryRequest) → Decidable (request.Touches id)
  | .drop i | .advance i _ => inferInstanceAs (Decidable (i = id))
  | .packetOfChunk chunk => inferInstanceAs (Decidable (chunk.block = id ∧ chunk.clone = false))
  | .push i chunk | .pushFront i chunk =>
    inferInstanceAs (Decidable (i = id ∨ (chunk.block = id ∧ chunk.clone = false)))
  | .allocate _ | .duplicate _ | .write _ _ _ | .newPacket | .packetOfBytes _ =>
    inferInstanceAs (Decidable False)

namespace Holdings

/-- What is read from a slot with a handle after a request, if it was `bytes` before. -/
def shown (h : Holdings) (b : Block) (bytes : Bytes) : MemoryRequest → Bytes
  | .write id offset data =>
    if h.get id = .block b ∧ h.handles.count b = 1 ∧ offset + data.length ≤ bytes.length then
      bytes.take offset ++ data ++ bytes.drop (offset + data.length)
    else bytes
  | _ => bytes

/-- What is read after any number of requests, first to last. -/
def shownAfter (b : Block) : Holdings → Bytes → List MemoryRequest → Bytes
  | _, bytes, [] => bytes
  | h, bytes, request :: rest => shownAfter b (h.handle request) (h.shown b bytes request) rest

variable {h : Holdings} {id : Nat} {b : Block} {request : MemoryRequest}

/-! ## What stays in the table -/

theorem get_record_of_held (hx : h.get id ≠ .nothing) (x : Holding) :
    (h.record x).2.get id = h.get id := by
  rw [get_record, if_neg (Nat.ne_of_lt (lt_size_of_get hx))]

theorem get_chunk_of_untouched {chunk : ChunkRequest}
    (hid : ¬(chunk.block = id ∧ chunk.clone = false)) : (h.chunk chunk).2.get id = h.get id := by
  by_cases hblock : id = chunk.block
  · have hclone : chunk.clone = true := by
      rw [← Bool.not_eq_false]
      exact fun hc => hid ⟨hblock.symm, hc⟩
    -- A second handle is made, and the number keeps its own.
    unfold Holdings.chunk
    cases h.block? chunk.block with
    | error e => rfl
    | ok b =>
        simp only [hclone, if_true]
        cases h.pool.retain b with
        | error fault => rfl
        | ok q =>
            simp only [Except.map]
            cases Chunk.of q b chunk.start chunk.stop with
            | error fault => rfl
            | ok c => rfl
  · exact get_chunk h chunk hblock

theorem get_addChunk {add : Pool → Packet → Chunk → Except Chunk (Packet × Pool)} {i : Nat}
    {chunk : ChunkRequest} (hid : ¬(i = id ∨ (chunk.block = id ∧ chunk.clone = false))) :
    (h.addChunk add i chunk).2.get id = h.get id := by
  have hi : i ≠ id := fun hi => hid (Or.inl hi)
  have hchunk := get_chunk_of_untouched (h := h) fun hc => hid (Or.inr hc)
  unfold Holdings.addChunk
  cases h.packet? i with
  | error e => rfl
  | ok p =>
      simp only
      cases hc : h.chunk chunk with
      | mk result h' =>
          rw [hc] at hchunk
          cases result with
          | error e => exact hchunk
          | ok c =>
              simp only
              cases add h'.pool p c with
              | error c => exact hchunk
              | ok added => exact (get_set_of_ne hi).trans hchunk

theorem get_handle (request : MemoryRequest) (hx : h.get id ≠ .nothing) (hr : ¬request.Touches id) :
    (h.handle request).get id = h.get id := by
  cases request with
  | allocate size =>
      simp only [handle, Holdings.allocate]
      split
      · exact get_record_of_held hx _
      · exact get_record_of_held (h := { h with pool := _ }) hx _
  | duplicate i =>
      simp only [handle, Holdings.duplicate]
      split
      · exact get_record_of_held hx _
      · split
        · exact get_record_of_held hx _
        · exact get_record_of_held (h := { h with pool := _ }) hx _
      · split
        · exact get_record_of_held (h := { h with pool := _ }) hx _
        · exact get_record_of_held (h := { h with pool := _ }) hx _
  | drop i =>
      simp only [handle, Holdings.drop]
      split
      · rfl
      · exact get_set_of_ne hr
      · exact get_set_of_ne hr
  | write i offset data =>
      simp only [handle, Holdings.write, bind, Except.bind]
      cases h.block? i with
      | error e => rfl
      | ok b =>
          cases hw : h.pool.write b offset data with
          | error fault => simp only [hw]; rfl
          | ok q => simp only [hw]; rfl
  | newPacket => exact get_record_of_held hx _
  | packetOfChunk chunk =>
      have hchunk := get_chunk_of_untouched (h := h) hr
      simp only [handle, Holdings.packetOfChunk]
      cases hc : h.chunk chunk with
      | mk result h' =>
          rw [hc] at hchunk
          have hx' : h'.get id ≠ .nothing := hchunk ▸ hx
          cases result with
          | error e => exact (get_record_of_held hx' _).trans hchunk
          | ok c => exact (get_record_of_held (h := { h' with pool := _ }) hx' _).trans hchunk
  | packetOfBytes data =>
      simp only [handle, Holdings.packetOfBytes]
      split
      · exact get_record_of_held hx _
      · exact get_record_of_held (h := { h with pool := _ }) hx _
      · exact get_record_of_held (h := { h with pool := _ }) hx _
  | push i chunk => exact get_addChunk hr
  | pushFront i chunk => exact get_addChunk hr
  | advance i count =>
      simp only [handle, Holdings.advance, bind, Except.bind]
      cases h.packet? i with
      | error e => rfl
      | ok p =>
          cases hp : p.advance h.pool count with
          | error fault => simp only [hp]; rfl
          | ok result => simp only [hp]; exact get_set_of_ne hr

/-! ## Who else has a handle -/

theorem exists_of_mem_sum {table : List Holding} (hb : b ∈ (table.map Holding.handles).sum) :
    ∃ x ∈ table, b ∈ x.handles := by
  induction table with
  | nil => exact absurd hb (Multiset.notMem_zero b)
  | cons x rest ih =>
      rw [List.map_cons, List.sum_cons, Multiset.mem_add] at hb
      rcases hb with hb | hb
      · exact ⟨x, List.mem_cons_self, hb⟩
      · obtain ⟨y, hy, hb⟩ := ih hb
        exact ⟨y, List.mem_cons_of_mem x hy, hb⟩

theorem mem_handles_iff : b ∈ h.handles ↔ ∃ id, b ∈ (h.get id).handles := by
  constructor
  · intro hb
    obtain ⟨x, hx, hbx⟩ := exists_of_mem_sum hb
    obtain ⟨id, hid, rfl⟩ := List.getElem_of_mem hx
    refine ⟨id, ?_⟩
    rw [get_eq_getElem (by simpa using hid)]
    exact hbx
  · rintro ⟨id, hb⟩
    exact mem_handles _ hb

/-- A block has its only handle under a number exactly if nothing under another number has one. -/
theorem count_eq_one_iff (hget : h.get id = .block b) :
    h.handles.count b = 1 ↔ ∀ i ≠ id, b ∉ (h.get i).handles := by
  have hid : id < h.table.size := lt_size_of_get (by rw [hget]; nofun)
  rw [h.handles_eq id, hget, Holding.handles, Multiset.count_add, Multiset.count_singleton_self,
    Nat.add_eq_left, Multiset.count_eq_zero, mem_handles_iff]
  constructor
  · intro hnone i hi hb
    exact hnone ⟨i, by rwa [get_set_of_ne hi.symm]⟩
  · rintro hnone ⟨i, hb⟩
    by_cases hi : i = id
    · subst hi
      rw [get_set_self hid] at hb
      exact Multiset.notMem_zero b hb
    · rw [get_set_of_ne (Ne.symm hi)] at hb
      exact hnone i hi hb

/-! ## What a request does to the bytes -/

theorem write_eq_error_of_get (hget : ∀ b, h.get id ≠ .block b) (offset : Nat) (data : Bytes) :
    h.write id offset data = .error .noHandle := by
  have hblock : h.block? id = .error .noHandle := by
    unfold block?
    split
    · rename_i b hb; exact absurd hb (hget b)
    · rfl
  rw [Holdings.write, hblock]
  rfl

theorem Sound.bytes_write (hs : h.Sound 0) (hb : b ∈ h.handles) (id offset : Nat) (data : Bytes) :
    (h.handle (.write id offset data)).pool.bytes b =
      h.shown b (h.pool.bytes b) (.write id offset data) := by
  by_cases hget : ∃ c, h.get id = .block c
  · obtain ⟨c, hc⟩ := hget
    have hshown : h.shown b (h.pool.bytes b) (.write id offset data) =
        if c = b ∧ h.handles.count b = 1 ∧ offset + data.length ≤ h.pool.capacity b then
          (h.pool.bytes b).take offset ++ data ++ (h.pool.bytes b).drop (offset + data.length)
        else h.pool.bytes b := by
      simp [shown, hc]
    rw [hshown, Holdings.handle]
    rcases hs.write_cases hc offset data with
      ⟨hcount, hw⟩ | ⟨-, hcap, hw⟩ | ⟨hcount, hcap, q, hw, -, -, hsame, hbytes⟩
    · rw [hw, if_neg fun ⟨he, h1, _⟩ => by rw [he] at hcount; omega]
      rfl
    · rw [hw, if_neg fun ⟨he, _, hle⟩ => by rw [he] at hcap; omega]
      rfl
    · rw [hw]
      by_cases he : c = b
      · subst he
        rw [if_pos ⟨rfl, hcount, hcap⟩]
        exact hbytes
      · rw [if_neg fun hcond => he hcond.1]
        exact hsame b hb (Ne.symm he)
  · push Not at hget
    rw [Holdings.handle, write_eq_error_of_get hget]
    simp [shown, hget, Except.toOption]

theorem Sound.bytes_handle (hs : h.Sound 0) (hb : b ∈ h.handles)
    (hb' : b ∈ (h.handle request).handles) :
    (h.handle request).pool.bytes b = h.shown b (h.pool.bytes b) request := by
  have hother : (∀ id offset data, request ≠ .write id offset data) →
      (h.handle request).pool.bytes b = h.pool.bytes b := by
    intro hr
    refine (hs.serves hr).shows.bytes_eq b (Multiset.mem_inter.2 ⟨hb, ?_⟩)
    rwa [zero_add]
  cases request with
  | write id offset data => exact hs.bytes_write hb id offset data
  | allocate size => exact hother nofun
  | duplicate id => exact hother nofun
  | drop id => exact hother nofun
  | newPacket => exact hother nofun
  | packetOfChunk chunk => exact hother nofun
  | packetOfBytes data => exact hother nofun
  | push id chunk => exact hother nofun
  | pushFront id chunk => exact hother nofun
  | advance id count => exact hother nofun

/-- A write under one number does not reach what is held under another one. -/
theorem shown_of_held (hb : b ∈ (h.get id).handles) (bytes : Bytes)
    (hr : ∀ offset data, h.get id = .block b → request ≠ .write id offset data) :
    h.shown b bytes request = bytes := by
  cases request with
  | write i offset data =>
      refine if_neg ?_
      rintro ⟨hget, hcount, -⟩
      by_cases hi : id = i
      · subst hi
        exact hr offset data hget rfl
      · exact (count_eq_one_iff hget).1 hcount id hi hb
  | allocate size => rfl
  | duplicate i => rfl
  | drop i => rfl
  | newPacket => rfl
  | packetOfChunk chunk => rfl
  | packetOfBytes data => rfl
  | push i chunk => rfl
  | pushFront i chunk => rfl
  | advance i count => rfl

/-! ## What a run does to the bytes -/

/-- As long as a slot has a handle, what is read from it changes by the writes through its only
handle. -/
theorem Sound.bytes_run {later : List MemoryRequest} (hs : h.Sound 0)
    (hlive : ∀ n ≤ later.length, b ∈ (h.run (later.take n)).handles) :
    (h.run later).pool.bytes b = h.shownAfter b (h.pool.bytes b) later := by
  induction later generalizing h with
  | nil => rfl
  | cons request rest ih =>
      have hnow := hlive 0 (Nat.zero_le _)
      have hnext := hlive 1 (by simp)
      have hbytes := hs.bytes_handle hnow hnext
      show ((h.handle request).run rest).pool.bytes b = _
      rw [shownAfter, ← hbytes]
      refine ih (hs.handle request) fun n hn => ?_
      exact hlive (n + 1) (Nat.succ_le_succ hn)

/-- What is under a number that no request touches stays there. Its bytes stay the same if it is a
packet, or a block that is not written. -/
theorem Sound.held_run {later : List MemoryRequest} (hs : h.Sound 0) (hx : h.get id ≠ .nothing)
    (htouch : ∀ request ∈ later, ¬request.Touches id)
    (hwrite : ∀ b, h.get id = .block b → ∀ offset data, .write id offset data ∉ later) :
    (h.run later).get id = h.get id ∧
      ∀ b ∈ (h.get id).handles, (h.run later).pool.bytes b = h.pool.bytes b := by
  induction later generalizing h with
  | nil => exact ⟨rfl, fun _ _ => rfl⟩
  | cons request rest ih =>
      have hget := get_handle request hx (htouch request List.mem_cons_self)
      obtain ⟨hrun, hbytes⟩ := ih (hs.handle request) (hget ▸ hx)
        (fun r hr => htouch r (List.mem_cons_of_mem _ hr))
        (fun b hb offset data hmem =>
          hwrite b (hget ▸ hb) offset data (List.mem_cons_of_mem _ hmem))
      refine ⟨hrun.trans hget, ?_⟩
      intro b hb
      have hb' : b ∈ ((h.handle request).get id).handles := hget ▸ hb
      have hstep := hs.bytes_handle (mem_handles _ hb) (mem_handles _ hb')
      rw [shown_of_held hb _ fun offset data hblock he =>
        hwrite b hblock offset data (he ▸ List.mem_cons_self)] at hstep
      exact (hbytes b hb').trans hstep

/-- What the holdings show now, and while further requests are served. -/
structure Isolated (h : Holdings) (later : List MemoryRequest) : Prop where
  /-- A block is written exactly through its only handle, and within its bounds. -/
  writable : ∀ {id b}, h.get id = .block b → ∀ offset data,
    ((∃ h', h.write id offset data = .ok h') ↔
      h.handles.count b = 1 ∧ offset + data.length ≤ h.pool.capacity b) ∧
    (h.write id offset data = .error (.fault .sharedBlock) ↔ 1 < h.handles.count b)
  /-- The only handle is one that nothing else shares, no other block and no chunk of a packet. -/
  unshared : ∀ {id b}, h.get id = .block b →
    (h.handles.count b = 1 ↔ ∀ i ≠ id, b ∉ (h.get i).handles)
  /-- As long as a slot has a handle, its bytes are those it had and what was written meanwhile
  through its only handle. -/
  bytes : ∀ {b}, (∀ n ≤ later.length, b ∈ (h.run (later.take n)).handles) →
    (h.run later).pool.bytes b = h.shownAfter b (h.pool.bytes b) later
  /-- A block that stays under its number shows the same bytes until it is written there. -/
  block : ∀ {id b}, h.get id = .block b → (∀ request ∈ later, ¬request.Touches id) →
    (∀ offset data, .write id offset data ∉ later) →
    (h.run later).get id = .block b ∧ (h.run later).pool.bytes b = h.pool.bytes b
  /-- A packet that is not changed itself shows the same bytes, chunk by chunk. -/
  packet : ∀ {id p}, h.get id = .packet p → (∀ request ∈ later, ¬request.Touches id) →
    (h.run later).get id = .packet p ∧
      p.chunkBytes (h.run later).pool = p.chunkBytes h.pool

theorem Sound.isolated (hs : h.Sound 0) (later : List MemoryRequest) : h.Isolated later where
  writable := by
    intro id b hget offset data
    rcases hs.write_cases hget offset data with
      ⟨hcount, hw⟩ | ⟨hcount, hcap, hw⟩ | ⟨hcount, hcap, q, hw, -⟩
    · exact ⟨⟨fun ⟨_, he⟩ => (by rw [hw] at he; cases he), fun he => by omega⟩,
        fun _ => hcount, fun _ => hw⟩
    · exact ⟨⟨fun ⟨_, he⟩ => (by rw [hw] at he; cases he), fun he => by omega⟩,
        fun he => (by rw [hw] at he; cases he), fun he => by omega⟩
    · exact ⟨⟨fun _ => ⟨hcount, hcap⟩, fun _ => ⟨_, hw⟩⟩,
        fun he => (by rw [hw] at he; cases he), fun he => by omega⟩
  unshared := count_eq_one_iff
  bytes := hs.bytes_run
  block := by
    intro id b hget htouch hwrite
    obtain ⟨hrun, hbytes⟩ := hs.held_run (by rw [hget]; nofun) htouch fun _ _ => hwrite
    rw [hget] at hrun hbytes
    exact ⟨hrun, hbytes b (Multiset.mem_singleton_self b)⟩
  packet := by
    intro id p hget htouch
    obtain ⟨hrun, hbytes⟩ := hs.held_run (by rw [hget]; nofun) htouch fun b hb => by
      rw [hget] at hb; cases hb
    rw [hget] at hrun hbytes
    refine ⟨hrun, List.map_congr_left fun c hc => ?_⟩
    rw [Chunk.bytes_eq, Chunk.bytes_eq, hbytes _ (Packet.mem_handles hc)]

/-- Whatever an application asks of a pool, before and after a moment, its handles are isolated from
each other. -/
theorem run_isolated {classes : List (Nat × Nat)} {pool : Pool}
    (hpool : Pool.ofClasses classes = .ok pool) (hclasses : ∀ c ∈ classes, 1 ≤ c.1 ∧ c.2 ≤ 255)
    (earlier later : List MemoryRequest) :
    (run { pool } earlier).Isolated later :=
  ((sound_of_ofClasses hpool hclasses).run earlier).isolated later

/-- A block is filled, and becomes a packet through a second handle. -/
def filling : List MemoryRequest :=
  [.allocate 2, .write 0 0 [1, 2], .duplicate 0, .packetOfChunk ⟨1, 0, 2, false⟩]

/-- A refused write to the block, another block that comes and goes, and the first block given
back. -/
def bustle : List MemoryRequest :=
  [.write 0 0 [9], .allocate 2, .write 3 0 [7, 7], .drop 3, .drop 0]

theorem bustle_isolated :
    Pool.ofClasses [(2, 2)] = .ok ⟨#[.fresh 2 2]⟩ ∧ (∀ c ∈ [(2, 2)], 1 ≤ c.1 ∧ c.2 ≤ 255) ∧
      (run { pool := ⟨#[.fresh 2 2]⟩ } filling).Isolated bustle ∧
      (run { pool := ⟨#[.fresh 2 2]⟩ } filling).get 2 = .packet ⟨[⟨⟨0, 0⟩, 0, 2⟩], 2⟩ ∧
      (∀ request ∈ bustle, ¬request.Touches 2) ∧
      Packet.chunkBytes (run { pool := ⟨#[.fresh 2 2]⟩ } (filling ++ bustle)).pool
        ⟨[⟨⟨0, 0⟩, 0, 2⟩], 2⟩ = [[1, 2]] := by
  have hpool : Pool.ofClasses [(2, 2)] = .ok ⟨#[.fresh 2 2]⟩ := rfl
  exact ⟨hpool, by decide, run_isolated hpool (by decide) filling bustle, by decide +kernel,
    by decide, by decide +kernel⟩

end Holdings

end DockLink
