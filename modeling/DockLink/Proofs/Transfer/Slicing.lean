import DockLink.Proofs.Transfer.Silence

/-!
# Bytes in slices

A receiver does not see where its input was sliced: bytes that come in at once do what they do in
two slices. Where the first slice ends within a header or a blob, the receiver holds what it has and
goes on from there; everywhere else the runs that it takes are the same ones.
-/

namespace DockLink

/-- Two ways to go on are the same if they are the same after every result. -/
theorem bind_congr_of_ok {ε α β : Type} {x : Except ε α} {g g' : α → Except ε β}
    (h : ∀ a, x = .ok a → g a = g' a) : x >>= g = x >>= g' := by
  cases x with
  | error e => rfl
  | ok a => exact h a rfl

/-! ## A write in two pieces -/

theorem Slot.storeFrom_append {size : Nat} (x y : Bytes) (bytes : Vector UInt8 size)
    (offset : Nat) :
    storeFrom bytes offset (x ++ y) =
      storeFrom (storeFrom bytes offset x) (offset + x.length) y := by
  induction x generalizing bytes offset with
  | nil => rfl
  | cons b rest ih =>
      rw [List.cons_append, storeFrom, storeFrom, ih, List.length_cons]
      congr 1
      omega

theorem Bucket.store_append (bucket : Bucket) (s : UInt8) (offset : Nat) (x y : Bytes) :
    bucket.store s offset (x ++ y) =
      (bucket.store s offset x).store s (offset + x.length) y := by
  simp only [store, onSlot, Slot.storeFrom_append, modify_modify]
  rfl

theorem Bucket.refs_store (bucket : Bucket) (s t : UInt8) (offset : Nat) (data : Bytes) :
    (bucket.store s offset data).refs t = bucket.refs t := by
  rw [store, refs_onSlot]
  split
  · rfl
  · rfl

namespace Pool

theorem onBucket_onBucket (p : Pool) (i : Nat) (f g : Bucket → Bucket) :
    (p.onBucket i f).onBucket i g = p.onBucket i (g ∘ f) := by
  simp only [onBucket, modify_modify]

/-- What is written in one piece may be written in two. -/
theorem write_append (p : Pool) (b : Block) (offset : Nat) (x y : Bytes) :
    p.write b offset (x ++ y) =
      p.write b offset x >>= fun p => p.write b (offset + x.length) y := by
  by_cases hone : p.refCount b = 1
  · have hclass : b.sizeClass < p.classes.size := class_lt_of_refCount (by rw [hone]; decide)
    let q := p.onBucket b.sizeClass fun bucket => bucket.store b.slot offset x
    have hbucket : q.bucket b.sizeClass = (p.bucket b.sizeClass).store b.slot offset x := by
      rw [bucket_onBucket, if_pos ⟨rfl, hclass⟩]
    have hrefs : q.refCount b = 1 := by
      rw [refCount, hbucket, Bucket.refs_store]
      exact hone
    have hcapacity : q.capacity b = p.capacity b := by
      rw [capacity, hbucket]
      rfl
    have hstored : (q.onBucket b.sizeClass fun bucket =>
        bucket.store b.slot (offset + x.length) y) =
          p.onBucket b.sizeClass fun bucket => bucket.store b.slot offset (x ++ y) := by
      rw [onBucket_onBucket]
      simp only [Bucket.store_append]
      rfl
    rw [write, if_neg (not_not.2 hone), List.length_append, ← Nat.add_assoc]
    by_cases hfits : offset + x.length ≤ p.capacity b
    · have hfirst : p.write b offset x = .ok q := by
        rw [write, if_neg (not_not.2 hone), if_pos hfits]
      rw [hfirst]
      show _ = q.write b (offset + x.length) y
      rw [write, if_neg (not_not.2 hrefs), hcapacity, hstored]
    · have hfirst : p.write b offset x = .error .outOfRange := by
        rw [write, if_neg (not_not.2 hone), if_neg hfits]
      rw [hfirst, if_neg fun h => hfits ((Nat.le_add_right _ _).trans h)]
      rfl
  · rw [write, write, if_pos hone, if_pos hone]
    rfl

end Pool

/-! ## A slice that ends within a header or a blob -/

open Reassembly

namespace Receiver

variable {r r' : Receiver} {pool pool' : Pool} {outputs : List Output} {x y data : Bytes}

/-- What is there of a header or a blob is not all of it. -/
def Unfilled (r : Receiver) : Prop :=
  match r.phase with
  | .header received => received.length < Header.byteLength
  | .payload _ header filled => filled < header.blobLength
  | .discard => True

/-- Keeps bytes that do not complete a header or a blob. -/
def hold (r : Receiver) (pool : Pool) (run : Bytes) : Except Fault (Receiver × Pool) :=
  match r.phase with
  | .header received => .ok ({ r with phase := .header (received ++ run) }, pool)
  | .payload block header filled =>
    (pool.write block filled run).map fun pool =>
      ({ r with phase := .payload block header (filled + run.length) }, pool)
  | .discard => .ok (r, pool)

theorem Valid.unfilled (h : r.Valid pool) : r.Unfilled := by
  obtain ⟨maxPayload, maxLength, phase, packet⟩ := r
  cases phase with
  | header received => exact h.phase
  | payload block header filled => exact h.phase.2.2.1
  | discard => trivial

theorem Unfilled.wanted_pos (h : r.Unfilled) (hdata : data ≠ []) : 0 < r.wanted data := by
  obtain ⟨maxPayload, maxLength, phase, packet⟩ := r
  cases phase with
  | header received => exact Nat.sub_pos_of_lt h
  | payload block header filled => exact Nat.sub_pos_of_lt h
  | discard => exact List.length_pos_of_ne_nil hdata

/-- Each run makes the input shorter. -/
theorem Unfilled.length_drop_lt (h : r.Unfilled) (hdata : data ≠ []) :
    (data.drop (r.wanted data)).length < data.length := by
  have hpos := h.wanted_pos hdata
  have hlength := List.length_pos_of_ne_nil hdata
  rw [List.length_drop]
  omega

theorem takeHeader_of_short {received : Bytes} (h : received.length < Header.byteLength) :
    r.takeHeader pool received = .ok ({ r with phase := .header received }, pool, []) := by
  match received, h with
  | [], _ => rfl
  | [_], _ => rfl
  | _ :: _ :: _, h => exact absurd h (by simp [Header.byteLength])

/-- A run that does not complete what is there is kept. -/
theorem take_of_short (hshort : x.length < r.wanted x) :
    r.take pool x = (r.hold pool x).map fun (r, pool) => (r, pool, []) := by
  obtain ⟨maxPayload, maxLength, phase, packet⟩ := r
  cases phase with
  | header received =>
      refine takeHeader_of_short ?_
      rw [List.length_append]
      exact Nat.add_lt_of_lt_sub' hshort
  | payload block header filled =>
      have hopen : filled + x.length ≠ header.blobLength :=
        Nat.ne_of_lt (Nat.add_lt_of_lt_sub' hshort)
      simp only [take, hold, takePayload, if_neg hopen]
      cases pool.write block filled x with
      | error fault => rfl
      | ok q => rfl
  | discard => exact absurd hshort (Nat.lt_irrefl _)

/-- What follows on bytes that were kept is taken together with them. -/
theorem take_append (hshort : x.length < r.wanted x) (y : Bytes) :
    r.take pool (x ++ y) = r.hold pool x >>= fun (r, pool) => r.take pool y := by
  obtain ⟨maxPayload, maxLength, phase, packet⟩ := r
  cases phase with
  | header received =>
      simp only [take, hold, ← List.append_assoc]
      rfl
  | payload block header filled =>
      simp only [take, hold, takePayload, Pool.write_append, List.length_append, ← Nat.add_assoc]
      cases pool.write block filled x with
      | error fault => rfl
      | ok q => rfl
  | discard => exact absurd hshort (Nat.lt_irrefl _)

/-- Bytes that were kept are not asked for again. -/
theorem of_hold (hshort : x.length < r.wanted x) (hhold : r.hold pool x = .ok (r', pool')) :
    r'.Unfilled ∧ ∀ y, r'.wanted y = r.wanted y - x.length := by
  obtain ⟨maxPayload, maxLength, phase, packet⟩ := r
  cases phase with
  | header received =>
      cases hhold
      refine ⟨?_, fun y => ?_⟩
      · show (received ++ x).length < Header.byteLength
        rw [List.length_append]
        exact Nat.add_lt_of_lt_sub' hshort
      · show Header.byteLength - (received ++ x).length = _
        rw [List.length_append, Nat.sub_add_eq]
        rfl
  | payload block header filled =>
      obtain ⟨q, -, heq⟩ := exists_of_map_eq_ok hhold
      cases heq
      exact ⟨Nat.add_lt_of_lt_sub' hshort, fun y => Nat.sub_add_eq _ _ _⟩
  | discard => exact absurd hshort (Nat.lt_irrefl _)

theorem unfilled_of_fail {p : Receiver} {error : LinkError}
    (h : p.fail pool error = (r', pool', outputs)) : r'.Unfilled := by
  cases h
  trivial

theorem unfilled_of_startBlob {header : Header}
    (h : r.startBlob pool header = .ok (r', pool', outputs)) : r'.Unfilled := by
  unfold startBlob at h
  split at h
  · exact unfilled_of_fail (Except.ok.inj h)
  · split at h
    · exact unfilled_of_fail (Except.ok.inj h)
    · obtain ⟨q, -, heq⟩ := exists_of_bind_eq_ok h
      cases heq
      show Header.byteLength < header.blobLength
      rw [Header.blobLength, Header.overhead, Header.byteLength, Header.crcLength]
      omega

theorem unfilled_of_acceptBlob {block : Block} {header : Header}
    (h : r.acceptBlob pool block header = .ok (r', pool', outputs)) : r'.Unfilled := by
  unfold acceptBlob at h
  simp only at h
  split at h
  · cases h
    trivial
  · obtain ⟨chunk, -, h⟩ := exists_of_bind_eq_ok h
    split at h
    · exact unfilled_of_fail (Except.ok.inj h)
    · split at h
      · cases h
        exact Nat.zero_lt_two
      · cases h
        exact Nat.zero_lt_two

theorem unfilled_of_finishBlob {block : Block} {header : Header}
    (h : r.finishBlob pool block header = .ok (r', pool', outputs)) : r'.Unfilled := by
  unfold finishBlob at h
  obtain ⟨good, -, h⟩ := exists_of_bind_eq_ok h
  split at h
  · exact unfilled_of_acceptBlob h
  · cases h
    trivial

/-- A step leaves nothing behind that is complete. -/
theorem Unfilled.take (hr : r.Unfilled) (hle : x.length ≤ r.wanted x)
    (htake : r.take pool x = .ok (r', pool', outputs)) : r'.Unfilled := by
  obtain ⟨maxPayload, maxLength, phase, packet⟩ := r
  cases phase with
  | header received =>
      have hlength : (received ++ x).length ≤ Header.byteLength := by
        rw [List.length_append]
        exact Nat.add_le_of_le_sub' hr.le hle
      unfold Receiver.take takeHeader at htake
      simp only at htake
      split at htake
      · exact unfilled_of_startBlob htake
      · rename_i hother
        cases htake
        refine lt_of_le_of_ne hlength fun htwo => ?_
        obtain ⟨b₀, b₁, hall⟩ := List.length_eq_two.1 htwo
        exact hother b₀ b₁ hall
  | payload block header filled =>
      obtain ⟨q, -, h⟩ := exists_of_bind_eq_ok htake
      simp only at h
      split at h
      · exact unfilled_of_finishBlob h
      · rename_i hopen
        cases h
        exact lt_of_le_of_ne (Nat.add_le_of_le_sub' hr.le hle) hopen
  | discard =>
      cases htake
      trivial

/-! ## Runs -/

section Push

variable {σ : Type} {deliver : σ → Pool → Output → Except Fault (σ × Pool)} {s : σ}

theorem length_run_le (r : Receiver) (data : Bytes) :
    (data.take (r.wanted data)).length ≤ r.wanted (data.take (r.wanted data)) := by
  obtain ⟨maxPayload, maxLength, phase, packet⟩ := r
  cases phase with
  | header received => exact List.length_take_le _ _
  | payload block header filled => exact List.length_take_le _ _
  | discard => exact Nat.le_refl _

/-- More runs than there are bytes are not needed. -/
theorem pushRuns_eq_push (n : Nat) (hn : data.length ≤ n) (hr : r.Unfilled) :
    pushRuns deliver n r pool s data = r.push pool deliver s data := by
  suffices h : ∀ n m, data.length ≤ n → data.length ≤ m →
      pushRuns deliver n r pool s data = pushRuns deliver m r pool s data from
    h n data.length hn (Nat.le_refl _)
  intro n
  clear hn
  induction n generalizing r pool s data with
  | zero =>
      intro m hn _
      obtain rfl : data = [] := List.length_eq_zero_iff.1 (Nat.le_zero.1 hn)
      cases m with
      | zero => rfl
      | succ m => rfl
  | succ n ih =>
      intro m hn hm
      cases m with
      | zero =>
          obtain rfl : data = [] := List.length_eq_zero_iff.1 (Nat.le_zero.1 hm)
          rfl
      | succ m =>
          by_cases hdata : data = []
          · subst hdata
            rfl
          · have hlt := hr.length_drop_lt hdata
            rw [pushRuns, pushRuns, if_neg (by simpa using hdata), if_neg (by simpa using hdata)]
            refine bind_congr_of_ok ?_
            rintro ⟨r₁, pool₁, outputs⟩ htake
            refine bind_congr_of_ok ?_
            rintro ⟨s₁, pool₂⟩ -
            exact ih (hr.take (length_run_le r data) htake) m (by omega) (by omega)

/-- Bytes are taken run by run. -/
theorem push_eq_run (hr : r.Unfilled) (hdata : data ≠ []) :
    r.push pool deliver s data = (do
      let (r₁, pool, outputs) ← r.take pool (data.take (r.wanted data))
      let (s, pool) ← deliverAll deliver s pool outputs
      r₁.push pool deliver s (data.drop (r.wanted data))) := by
  have hlt := hr.length_drop_lt hdata
  obtain ⟨n, hn⟩ : ∃ n, data.length = n + 1 :=
    Nat.exists_eq_succ_of_ne_zero (Nat.ne_of_gt (List.length_pos_of_ne_nil hdata))
  rw [push, hn, pushRuns, if_neg (by simpa using hdata)]
  refine bind_congr_of_ok ?_
  rintro ⟨r₁, pool₁, outputs⟩ htake
  refine bind_congr_of_ok ?_
  rintro ⟨s₁, pool₂⟩ -
  exact pushRuns_eq_push n (by omega) (hr.take (length_run_le r data) htake)

theorem wanted_eq (hopen : r.phase ≠ .discard) (x y : Bytes) : r.wanted x = r.wanted y := by
  obtain ⟨maxPayload, maxLength, phase, packet⟩ := r
  cases phase with
  | header received => rfl
  | payload block header filled => rfl
  | discard => exact absurd rfl hopen

theorem push_of_short (hr : r.Unfilled) (hx : x ≠ []) (hshort : x.length < r.wanted x) :
    r.push pool deliver s x = (r.hold pool x).map fun (r, pool) => (r, pool, s) := by
  rw [push_eq_run hr hx, List.take_of_length_le hshort.le, List.drop_of_length_le hshort.le,
    take_of_short hshort]
  cases r.hold pool x with
  | error fault => rfl
  | ok held => rfl

/-- A first slice that ends within a header or a blob. -/
theorem push_append_of_short (hr : r.Unfilled) (hx : x ≠ []) (hshort : x.length < r.wanted x)
    (y : Bytes) :
    r.push pool deliver s (x ++ y) = (do
      let (r, pool, s) ← r.push pool deliver s x
      r.push pool deliver s y) := by
  by_cases hy : y = []
  · subst hy
    rw [List.append_nil, push_of_short hr hx hshort]
    cases r.hold pool x with
    | error fault => rfl
    | ok held => rfl
  · have hopen : r.phase ≠ .discard := fun hphase => by
      rw [wanted, hphase] at hshort
      exact Nat.lt_irrefl _ hshort
    have hwanted : r.wanted (x ++ y) = r.wanted x := wanted_eq hopen _ _
    rw [push_eq_run hr (List.append_ne_nil_of_left_ne_nil hx y), push_of_short hr hx hshort,
      hwanted, List.take_append, List.drop_append, List.take_of_length_le hshort.le,
      List.drop_of_length_le hshort.le, List.nil_append, take_append hshort]
    cases hhold : r.hold pool x with
    | error fault => rfl
    | ok held =>
        obtain ⟨hr', hwanted'⟩ := of_hold hshort hhold
        show _ = held.1.push held.2 deliver s y
        rw [push_eq_run hr' hy, hwanted' y, wanted_eq hopen y x]
        rfl

/-- Bytes that come in at once do what they do in two slices. -/
theorem push_append (hr : r.Unfilled) (x y : Bytes) :
    r.push pool deliver s (x ++ y) = (do
      let (r, pool, s) ← r.push pool deliver s x
      r.push pool deliver s y) := by
  -- Each run of the first slice shortens it, until what is left does not complete what is there.
  induction hn : x.length using Nat.strong_induction_on generalizing r pool s x with
  | _ n ih =>
      by_cases hx : x = []
      · subst hx
        rfl
      · by_cases hdiscard : r.phase = .discard
        · rw [push_of_discard hdiscard, push_of_discard hdiscard]
          exact (push_of_discard hdiscard pool deliver s y).symm
        · by_cases hshort : x.length < r.wanted x
          · exact push_append_of_short hr hx hshort y
          · have hle := Nat.not_lt.1 hshort
            have hlength : (x.drop (r.wanted x)).length < n := hn ▸ hr.length_drop_lt hx
            rw [push_eq_run hr (List.append_ne_nil_of_left_ne_nil hx y), push_eq_run hr hx,
              wanted_eq hdiscard (x ++ y) x, List.take_append_of_le_length hle,
              List.drop_append_of_le_length hle, bind_assoc]
            refine bind_congr_of_ok ?_
            rintro ⟨r₁, pool₁, outputs⟩ htake
            rw [bind_assoc]
            refine bind_congr_of_ok ?_
            rintro ⟨s₁, pool₂⟩ -
            exact ih _ hlength (hr.take (length_run_le r x) htake) _ rfl

end Push

end Receiver

namespace Framer

variable {queueDepth eventDepth : Nat} {f : Framer queueDepth eventDepth}

/-- A framer does not see where its input was sliced. -/
theorem received_append (h : f.receiver.Unfilled) (x y : Bytes) :
    f.received (x ++ y) = f.received x >>= fun f => f.received y := by
  unfold received
  by_cases hopen : f.enabled
  · rw [if_pos hopen, if_pos hopen, Receiver.push_append h, bind_assoc, bind_assoc]
    refine bind_congr_of_ok ?_
    rintro ⟨receiver, pool, reporter⟩ -
    show _ = if f.enabled then _ else _
    rw [if_pos hopen]
  · rw [if_neg hopen, if_neg hopen]
    show _ = if f.enabled then _ else _
    rw [if_neg hopen]

end Framer

end DockLink
