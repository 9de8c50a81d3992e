import DockLink.Proofs.Memory.ByteLists

/-!
# Copying out of a packet

Bytes of a packet are copied chunk by chunk over the start of a destination, after some bytes of the
chain were skipped. `copyOver` does so in place and looks at every range before it uses it. It finds
none out of bounds, and what it leaves in the destination is what `copyTo` says.
-/

namespace DockLink

namespace Bytes

/-- The bytes of a range, if it lies within the buffer. -/
def slice (buffer : Bytes) (start stop : Nat) : Except Fault Bytes :=
  if start ≤ stop ∧ stop ≤ buffer.length then .ok ((buffer.take stop).drop start)
  else .error .outOfRange

theorem slice_to_end {buffer : Bytes} {start : Nat} (h : start ≤ buffer.length) :
    buffer.slice start buffer.length = .ok (buffer.drop start) := by
  rw [slice, if_pos ⟨h, Nat.le_refl _⟩, List.take_length]

theorem slice_from_start {buffer : Bytes} {stop : Nat} (h : stop ≤ buffer.length) :
    buffer.slice 0 stop = .ok (buffer.take stop) := by
  rw [slice, if_pos ⟨Nat.zero_le _, h⟩, List.drop_zero]

/-- What is in place stays, and the bytes after it are replaced. -/
theorem put_behind (done rest : Bytes) {data : Bytes} (h : data.length ≤ rest.length) :
    Bytes.put (done ++ rest) done.length data = .ok (done ++ data ++ rest.drop data.length) := by
  rw [put, if_pos (by rw [List.length_append]; omega), List.take_left, List.drop_append,
    List.drop_of_length_le (Nat.le_add_right _ _), List.nil_append, Nat.add_sub_cancel_left]

end Bytes

namespace Packet

variable {pool : Pool} {p : Packet}

/-- Copies what fits of a chunk, after its first `skip` bytes, over a destination in which `copied`
bytes are in place. -/
def copyPart (chunk : Bytes) (skip copied : Nat) (target : Bytes) : Except Fault (Nat × Bytes) := do
  let part ← Bytes.slice chunk skip chunk.length
  let room ← Bytes.slice target copied target.length
  let taken ← Bytes.slice part 0 (min part.length room.length)
  return (copied + taken.length, ← Bytes.put target copied taken)

/-- Copies a chain over a destination in which `copied` bytes are in place, after the first `skip`
bytes of the chain. Every range is checked before it is used. -/
def copyOver (pool : Pool) :
    List Chunk → (skip copied : Nat) → (target : Bytes) → Except Fault (Nat × Bytes)
  | [], _, copied, target => .ok (copied, target)
  | c :: rest, skip, copied, target => do
    let chunk ← Bytes.slice (pool.bytes c.block) c.start c.stop
    if copied = target.length then return (copied, target)
    else if chunk.length ≤ skip then copyOver pool rest (skip - chunk.length) copied target
    else
      let (copied, target) ← copyPart chunk skip copied target
      copyOver pool rest 0 copied target

theorem copyPart_eq {chunk : Bytes} {skip : Nat} (h : skip ≤ chunk.length) (done rest : Bytes) :
    copyPart chunk skip done.length (done ++ rest) =
      .ok ((done ++ (chunk.drop skip).take rest.length).length,
        done ++ (chunk.drop skip).take rest.length ++
          rest.drop ((chunk.drop skip).take rest.length).length) := by
  have hroom : Bytes.slice (done ++ rest) done.length (done ++ rest).length = .ok rest := by
    rw [Bytes.slice_to_end (by rw [List.length_append]; omega), List.drop_left]
  have htaken : Bytes.slice (chunk.drop skip) 0 (min (chunk.drop skip).length rest.length) =
      .ok ((chunk.drop skip).take rest.length) := by
    rw [Bytes.slice_from_start (Nat.min_le_left _ _), Nat.min_comm, ← List.take_eq_take_min]
  have hput := Bytes.put_behind done rest (List.length_take_le rest.length (chunk.drop skip))
  simp only [copyPart, Bytes.slice_to_end h, hroom, htaken, hput, bind, Except.bind, pure,
    Except.pure]
  rw [List.length_append]

/-- A chunk within its block is read as a whole. -/
theorem slice_chunk {c : Chunk} (h : c.start ≤ c.stop ∧ c.stop ≤ pool.capacity c.block) :
    Bytes.slice (pool.bytes c.block) c.start c.stop = .ok (c.bytes pool) := by
  rw [Bytes.slice, if_pos (by rwa [Pool.length_bytes]), Chunk.bytes_eq]

/-- The bytes that are in place stay, and those of the chain come behind them as far as the
destination reaches. -/
theorem copyOver_eq {chunks : List Chunk}
    (h : ∀ c ∈ chunks, c.start ≤ c.stop ∧ c.stop ≤ pool.capacity c.block) (skip : Nat)
    (done rest : Bytes) :
    copyOver pool chunks skip done.length (done ++ rest) =
      .ok ((done ++ copyFrom pool chunks skip rest.length).length,
        done ++ copyFrom pool chunks skip rest.length ++
          rest.drop (copyFrom pool chunks skip rest.length).length) := by
  -- What is in place grows by the part of a chunk, and what is open behind it shrinks by as much.
  induction chunks generalizing skip done rest with
  | nil => simp [copyOver, copyFrom]
  | cons c chunks ih =>
      have hc := h c List.mem_cons_self
      have hlength : (c.bytes pool).length = c.length := Chunk.length_bytes hc.2
      have ih' := ih fun d hd => h d (List.mem_cons_of_mem _ hd)
      have hfull : done.length = (done ++ rest).length ↔ rest.length = 0 := by
        rw [List.length_append]
        omega
      simp only [copyOver, slice_chunk hc, bind, Except.bind, copyFrom, hfull, hlength]
      split
      · simp [pure, Except.pure]
      · split
        · exact ih' _ done rest
        · rename_i hskip
          have hwithin : skip ≤ (c.bytes pool).length := by omega
          have hpart := copyPart_eq hwithin done rest
          have hnext := ih' 0 (done ++ c.part pool skip rest.length)
            (rest.drop (c.part pool skip rest.length).length)
          rw [← Chunk.part_eq] at hpart
          rw [hpart]
          simp only [List.length_drop, List.append_assoc, List.drop_drop, List.length_append]
            at hnext ⊢
          rw [hnext]

/-- How many bytes there are to copy from a place in the packet to a destination. -/
def copyCount (p : Packet) (offset size : Nat) : Nat := min size (p.length - min offset p.length)

theorem Valid.copyTo_eq (h : p.Valid pool) (offset : Nat) (target : Bytes) :
    p.copyTo pool offset target =
      (p.copyCount offset target.length,
        ((p.content pool).drop offset).take (p.copyCount offset target.length) ++
          target.drop (p.copyCount offset target.length)) := by
  have hcount : (((p.content pool).drop offset).take target.length).length =
      p.copyCount offset target.length := by
    rw [List.length_take, List.length_drop, h.length_content, copyCount]
    omega
  rw [copyTo, h.copy_eq, ← hcount, List.length_take, ← List.take_eq_take_min]

/-- The copy with all checks is the copy. -/
theorem Valid.copyOver_eq_copyTo (h : p.Valid pool) (offset : Nat) (target : Bytes) :
    copyOver pool p.chunks offset 0 target = .ok (p.copyTo pool offset target) :=
  copyOver_eq (fun c hc => ⟨(h.chunk c hc).1.le, (h.chunk c hc).2⟩) offset [] target

end Packet

namespace Holdings

/-- Whatever an application asks of a pool, and however a packet is divided: as many bytes are
copied as the packet has from the offset on and as the destination holds. They are those of the
packet, the rest of the destination stays, and no range is out of bounds. -/
theorem run_copies {classes : List (Nat × Nat)} {pool : Pool}
    (hpool : Pool.ofClasses classes = .ok pool) (hclasses : ∀ c ∈ classes, 1 ≤ c.1 ∧ c.2 ≤ 255)
    (requests : List MemoryRequest) {h : Holdings} (hrun : run { pool } requests = h) {id : Nat}
    {p : Packet} (hget : h.get id = .packet p) (offset : Nat) (target : Bytes) :
    ∃ n, n = min target.length
        ((p.content h.pool).length - min offset (p.content h.pool).length) ∧
      p.copyTo h.pool offset target =
        (n, ((p.content h.pool).drop offset).take n ++ target.drop n) ∧
      Packet.copyOver h.pool p.chunks offset 0 target = .ok (p.copyTo h.pool offset target) := by
  subst hrun
  have hvalid := ((sound_of_ofClasses hpool hclasses).run requests).packet hget
  refine ⟨p.copyCount offset target.length, ?_, hvalid.copyTo_eq offset target,
    hvalid.copyOver_eq_copyTo offset target⟩
  rw [hvalid.length_content, Packet.copyCount]

/-- A packet in three chunks of two blocks. -/
def braiding : List MemoryRequest :=
  [.allocate 4, .write 0 0 [1, 2, 3, 4], .packetOfChunk ⟨0, 2, 4, true⟩, .push 1 ⟨0, 0, 2, false⟩,
    .allocate 1, .write 2 0 [5], .push 1 ⟨2, 0, 1, false⟩]

/-- The copy begins within a chunk and runs over the two that follow. -/
theorem braiding_copies :
    Pool.ofClasses [(4, 2)] = .ok ⟨#[.fresh 4 2]⟩ ∧ (∀ c ∈ [(4, 2)], 1 ≤ c.1 ∧ c.2 ≤ 255) ∧
      ∃ p, (run { pool := ⟨#[.fresh 4 2]⟩ } braiding).get 1 = .packet p ∧
        p.content (run { pool := ⟨#[.fresh 4 2]⟩ } braiding).pool = [3, 4, 1, 2, 5] ∧
        p.copyTo (run { pool := ⟨#[.fresh 4 2]⟩ } braiding).pool 1 [9, 9, 9, 9, 9, 9] =
          (4, [4, 1, 2, 5, 9, 9]) := by
  have hpool : Pool.ofClasses [(4, 2)] = .ok ⟨#[.fresh 4 2]⟩ := rfl
  have hget : (run { pool := ⟨#[.fresh 4 2]⟩ } braiding).get 1 =
      .packet ⟨[⟨⟨0, 0⟩, 2, 4⟩, ⟨⟨0, 0⟩, 0, 2⟩, ⟨⟨0, 1⟩, 0, 1⟩], 5⟩ := by decide +kernel
  have hcontent : Packet.content (run { pool := ⟨#[.fresh 4 2]⟩ } braiding).pool
      ⟨[⟨⟨0, 0⟩, 2, 4⟩, ⟨⟨0, 0⟩, 0, 2⟩, ⟨⟨0, 1⟩, 0, 1⟩], 5⟩ = [3, 4, 1, 2, 5] := by
    decide +kernel
  obtain ⟨n, hn, hcopy, -⟩ :=
    run_copies hpool (by decide) braiding rfl hget 1 [9, 9, 9, 9, 9, 9]
  rw [hcontent] at hn hcopy
  obtain rfl : n = 4 := hn
  exact ⟨hpool, by decide, _, hget, hcontent, hcopy⟩

end Holdings

end DockLink
