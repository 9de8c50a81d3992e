import DockLink.Proofs.Transfer.Script

/-!
# The bytes of a packet on the wire

A stream is cut into as many blobs as it takes, each full but the last. `nth` says byte for byte
what the blob at a place of this sequence holds, so nothing but the stream has to do with it.
-/

namespace DockLink.Blob

variable {maxPayload : Nat} {stream : Bytes}

/-- The number of blobs of a stream. One without bytes has a blob as well. -/
def count (maxPayload : Nat) (stream : Bytes) : Nat := max 1 (ceilDiv stream.length maxPayload)

/-- The blob at a place of a stream: the header with the payload length and the mark that another
blob follows, the payload and the checksum of both, each number with its lowest byte first. -/
def nth (maxPayload : Nat) (stream : Bytes) (k : Nat) : Bytes :=
  let length := min maxPayload (stream.length - k * maxPayload)
  let mark : UInt16 := if k + 1 < count maxPayload stream then 0x8000 else 0
  let covered :=
    Bytes.ofWord16 (UInt16.ofNat length ||| mark) ++ (stream.drop (k * maxPayload)).take length
  covered ++ Bytes.ofWord32 (Crc.ofBytes covered)

theorem toBytes_announce (n : Nat) (more : Bool) : (Header.announce n more).toBytes =
    Bytes.ofWord16 (UInt16.ofNat n ||| if more then 0x8000 else 0) := by
  cases more with
  | false => exact congrArg Bytes.ofWord16 UInt16.or_zero.symm
  | true => rfl

theorem nth_eq_encode (maxPayload : Nat) (stream : Bytes) (k : Nat) :
    nth maxPayload stream k = encode ((stream.drop (k * maxPayload)).take maxPayload)
      (k + 1 < count maxPayload stream) := by
  have hlength : ((stream.drop (k * maxPayload)).take maxPayload).length =
      min maxPayload (stream.length - k * maxPayload) := by
    rw [List.length_take, List.length_drop]
  have htake : (stream.drop (k * maxPayload)).take
      (min maxPayload (stream.length - k * maxPayload)) =
      (stream.drop (k * maxPayload)).take maxPayload := by
    rw [← List.length_drop, ← List.take_eq_take_min]
  simp only [nth, encode, hlength, htake, toBytes_announce, decide_eq_true_eq]

theorem ceilDiv_add (m : Nat) {n : Nat} (hpos : 0 < n) : ceilDiv (m + n) n = ceilDiv m n + 1 := by
  have hsum : m + n + n - 1 = m + n - 1 + n := by omega
  rw [ceilDiv, ceilDiv, hsum, Nat.add_div_right _ hpos]

theorem ceilDiv_le_one {m n : Nat} (hpos : 0 < n) (h : m ≤ n) : ceilDiv m n ≤ 1 := by
  refine Nat.lt_succ_iff.1 ((Nat.div_lt_iff_lt_mul hpos).2 ?_)
  omega

theorem ceilDiv_pos {m n : Nat} (hpos : 0 < n) (h : 0 < m) : 0 < ceilDiv m n :=
  Nat.div_pos (by omega) hpos

theorem count_of_le (hpos : 0 < maxPayload) (h : stream.length ≤ maxPayload) :
    count maxPayload stream = 1 :=
  Nat.max_eq_left (ceilDiv_le_one hpos h)

theorem count_of_gt (hpos : 0 < maxPayload) (h : maxPayload < stream.length) :
    count maxPayload stream = count maxPayload (stream.drop maxPayload) + 1 := by
  have hlength : stream.length = (stream.drop maxPayload).length + maxPayload := by
    rw [List.length_drop]
    omega
  have hrest : 0 < ceilDiv (stream.drop maxPayload).length maxPayload := by
    refine ceilDiv_pos hpos ?_
    rw [List.length_drop]
    omega
  rw [count, count, hlength, ceilDiv_add _ hpos]
  omega

theorem nth_succ (hpos : 0 < maxPayload) (h : maxPayload < stream.length) (k : Nat) :
    nth maxPayload stream (k + 1) = nth maxPayload (stream.drop maxPayload) k := by
  have hplace : (k + 1) * maxPayload = maxPayload + k * maxPayload := by
    rw [Nat.succ_mul, Nat.add_comm]
  rw [nth_eq_encode, nth_eq_encode, List.drop_drop, hplace, count_of_gt hpos h]
  simp only [Nat.add_lt_add_iff_right]

/-- Cutting a stream makes the blobs at its places. -/
theorem cut_eq_map (hpos : 0 < maxPayload) (stream : Bytes) : cut maxPayload stream =
    (List.range (count maxPayload stream)).map (nth maxPayload stream) := by
  -- What is behind the first blob is a shorter stream, cut in the same way.
  induction hn : stream.length using Nat.strong_induction_on generalizing stream with
  | _ n ih =>
      by_cases hle : stream.length ≤ maxPayload
      · have hlast : nth maxPayload stream 0 = encode stream false := by
          rw [nth_eq_encode, count_of_le hpos hle, Nat.zero_mul, List.drop_zero,
            List.take_of_length_le hle]
          rfl
        rw [cut_of_le hle, count_of_le hpos hle, List.range_one, List.map_singleton, hlast]
      · have hgt := Nat.lt_of_not_le hle
        have hmore : 0 + 1 < count maxPayload stream := by
          rw [count_of_gt hpos hgt]
          exact Nat.succ_lt_succ (Nat.lt_of_lt_of_le Nat.one_pos (Nat.le_max_left _ _))
        have hfirst : nth maxPayload stream 0 = encode (stream.take maxPayload) true := by
          rw [nth_eq_encode, decide_eq_true hmore, Nat.zero_mul, List.drop_zero]
        have hrest := ih (stream.drop maxPayload).length (by rw [List.length_drop]; omega) _ rfl
        rw [cut_of_gt hpos hgt, hrest, count_of_gt hpos hgt, List.range_succ_eq_map, List.map_cons,
          List.map_map, hfirst]
        congr 1
        exact List.map_congr_left fun k _ => (nth_succ hpos hgt k).symm

end DockLink.Blob
