import DockLink.Proofs.Memory.Holder
import DockLink.Proofs.Transfer.Pushing

/-!
# Whole runs of the receive path

A listener is a receiver with its pool and the application that gets what it puts out. The
application keeps or drops each packet as it likes, and uses the pool between two slices of the
input. As long as the pool has room for the blobs, what it sees is what the decoder reads of the
whole transactions.
-/

namespace DockLink

open Reassembly

/-- What an application got from a receiver. -/
structure Inbox where
  held : List Block := []
  seen : List Decoder.Seen := []
deriving DecidableEq

namespace Inbox

/-- Looks at an output. A packet is kept or dropped as `keep` tells. -/
def take (keep : List Decoder.Seen → Bool) (inbox : Inbox) (pool : Pool) (output : Output) :
    Except Fault (Inbox × Pool) :=
  let inbox := { inbox with seen := inbox.seen ++ [output.seen pool] }
  match output with
  | .packet p =>
    if keep inbox.seen then .ok ({ inbox with held := p.chunks.map Chunk.block ++ inbox.held }, pool)
    else .ok (inbox, p.release pool)
  | _ => .ok (inbox, pool)

def sink (keep : List Decoder.Seen → Bool) : Sink (V := List Decoder.Seen) (take keep) where
  handles inbox := inbox.held
  Valid _ _ := True
  view inbox _ := inbox.seen
  absorb seen x := seen ++ [x]
  keeps _ _ := ⟨trivial, rfl⟩
  spec := by
    intro inbox pool output others _ _ hpool
    cases output with
    | blob => exact ⟨_, _, rfl, hpool.cast (zero_add _), Pool.Keeps.refl _ _, trivial, rfl⟩
    | fault error => exact ⟨_, _, rfl, hpool.cast (zero_add _), Pool.Keeps.refl _ _, trivial, rfl⟩
    | packet p =>
        by_cases hkeep : keep (inbox.seen ++ [Output.seen pool (.packet p)])
        · refine ⟨_, _, if_pos hkeep, hpool.cast ?_, Pool.Keeps.refl _ _, trivial, rfl⟩
          exact (add_assoc _ _ _).symm
        · obtain ⟨hsound, hkeeps⟩ := Packet.sound_release hpool
          exact ⟨_, _, if_neg hkeep, hsound, hkeeps.mono fun b hb => Multiset.mem_add.2 (Or.inr hb),
            trivial, rfl⟩

end Inbox

/-- Bytes that come in together, and what the application does before the next ones come. -/
structure Slice where
  data : Bytes
  deeds : List Deed := []

/-- A receiver with its pool and its application. -/
structure Listener where
  receiver : Receiver
  pool : Pool
  inbox : Inbox := {}

namespace Listener

variable {t : Listener} (keep : List Decoder.Seen → Bool)

def fresh (limits : Decoder.Limits) (pool : Pool) : Listener :=
  { receiver := { maxPayload := limits.maxPayload, maxLength := limits.maxLength }, pool }

def receive (t : Listener) (slice : Slice) : Except Fault Listener := do
  let (receiver, pool, inbox) ← t.receiver.push t.pool (Inbox.take keep) t.inbox slice.data
  let (held, pool) := Deed.applyAll inbox.held pool slice.deeds
  return { receiver, pool, inbox := { inbox with held } }

def receiveAll (t : Listener) : List Slice → Except Fault Listener
  | [] => .ok t
  | slice :: rest => do receiveAll (← t.receive keep slice) rest

def transactionEnd (t : Listener) : Listener :=
  let (error, receiver, pool) := t.receiver.transactionEnd t.pool
  { receiver, pool, inbox := { t.inbox with seen := t.inbox.seen ++ error.toList.map .fault } }

/-- Takes transactions, each cut into slices. -/
def run (t : Listener) : List (List Slice) → Except Fault Listener
  | [] => .ok t
  | slices :: rest => do run (← t.receiveAll keep slices).transactionEnd rest

/-- The blocks that the receiver asks for while it takes a slice. -/
def demandsOf (t : Listener) (slice : Slice) : List Demand :=
  Receiver.demands (Inbox.take keep) slice.data.length t.receiver t.pool t.inbox slice.data

def demandsOfAll (t : Listener) : List Slice → List Demand
  | [] => []
  | slice :: rest =>
    t.demandsOf keep slice ++
      match t.receive keep slice with
      | .error _ => []
      | .ok t => t.demandsOfAll rest

/-- The blocks that the receiver asks for in a run, each with the pool at that moment. -/
def demands (t : Listener) : List (List Slice) → List Demand
  | [] => []
  | slices :: rest =>
    t.demandsOfAll keep slices ++
      match t.receiveAll keep slices with
      | .error _ => []
      | .ok t => t.transactionEnd.demands rest

structure Sound (t : Listener) : Prop where
  receiver : t.receiver.Valid t.pool
  pool : t.pool.Sound (t.receiver.handles + t.inbox.held)

def reading (t : Listener) : Decoder.State := t.receiver.reading t.pool

theorem foldl_append_seen (seen more : List Decoder.Seen) :
    more.foldl (Inbox.sink keep).absorb seen = seen ++ more := by
  induction more generalizing seen with
  | nil => exact (List.append_nil seen).symm
  | cons x rest ih =>
      rw [List.foldl_cons, ih]
      exact List.append_assoc seen [x] rest

theorem Sound.forSink (h : t.Sound) :
    t.pool.Sound (t.receiver.handles + ((Inbox.sink keep).handles t.inbox + 0)) :=
  h.pool.cast (by
    rw [add_zero]
    rfl)

theorem receive_spec (ht : t.Sound) (slice : Slice) :
    ∃ t', t.receive keep slice = .ok t' ∧ t'.Sound ∧ t'.receiver.limits = t.receiver.limits ∧
      ∃ seen, t'.inbox.seen = t.inbox.seen ++ seen ∧
        t.reading.Takes t.receiver.limits slice.data seen t'.reading ∧
        (.fault .outOfMemory ∉ seen ↔ ∀ d ∈ t.demandsOf keep slice, d.Met) := by
  obtain ⟨r, q, inbox, hpush, hsound, -, hvalid, -, hlimits, seen, htakes, hview, hspares⟩ :=
    Receiver.push_spec (Inbox.sink keep) slice.data ht.receiver trivial (ht.forSink keep)
  have hcast : q.Sound (inbox.held + r.handles) := hsound.cast (by
    rw [add_zero]
    exact add_comm _ _)
  obtain ⟨hsound', hkeeps'⟩ := Deed.applyAll_spec slice.deeds hcast
  have hkeeps'' : q.Keeps (Deed.applyAll inbox.held q slice.deeds).2 (r.handles + 0) :=
    hkeeps'.cast (add_zero _).symm
  refine ⟨{
    receiver := r
    pool := (Deed.applyAll inbox.held q slice.deeds).2
    inbox := { inbox with held := (Deed.applyAll inbox.held q slice.deeds).1 } }, ?_, ?_, hlimits,
    seen, ?_, ?_, hspares⟩
  · rw [receive, hpush]
    rfl
  · exact ⟨hvalid.keeps hkeeps'', hsound'.cast (add_comm _ _)⟩
  · exact hview.trans (foldl_append_seen keep _ _)
  · rw [reading, reading, Receiver.reading_keeps hkeeps'']
    exact htakes

theorem receiveAll_spec (slices : List Slice) {t : Listener} (ht : t.Sound) :
    ∃ t', t.receiveAll keep slices = .ok t' ∧ t'.Sound ∧
      t'.receiver.limits = t.receiver.limits ∧ ∃ seen, t'.inbox.seen = t.inbox.seen ++ seen ∧
        t.reading.Takes t.receiver.limits (slices.map Slice.data).flatten seen t'.reading ∧
        (.fault .outOfMemory ∉ seen ↔ ∀ d ∈ t.demandsOfAll keep slices, d.Met) := by
  induction slices generalizing t with
  | nil =>
      exact ⟨t, rfl, ht, rfl, [], (List.append_nil _).symm,
        Or.inl (Receiver.reading_settled ht.receiver), iff_of_true List.not_mem_nil nofun⟩
  | cons slice rest ih =>
      obtain ⟨t₁, hone, ht₁, hlimits₁, seen₁, hseen₁, htakes₁, hspares₁⟩ := receive_spec keep ht slice
      obtain ⟨t₂, hall, ht₂, hlimits₂, seen₂, hseen₂, htakes₂, hspares₂⟩ := ih ht₁
      refine ⟨t₂, ?_, ht₂, hlimits₂.trans hlimits₁, seen₁ ++ seen₂, ?_, ?_, ?_⟩
      · rw [receiveAll, hone]
        exact hall
      · rw [hseen₂, hseen₁, List.append_assoc]
      · rw [hlimits₁] at htakes₂
        exact htakes₁.append htakes₂
      · rw [demandsOfAll, hone, List.forall_mem_append, List.mem_append, not_or, hspares₁, hspares₂]

theorem transactionEnd_spec (ht : t.Sound) :
    t.transactionEnd.Sound ∧ t.transactionEnd.receiver.limits = t.receiver.limits ∧
      ∃ seen p, t.transactionEnd.inbox.seen = t.inbox.seen ++ seen ∧
        t.reading.finish = (seen, p) ∧ t.transactionEnd.reading = .expect p [] := by
  obtain ⟨error, r, q, hend, hsound, hkeeps, hvalid, hlimits, hfinish, hreading⟩ :=
    Receiver.transactionEnd_spec ht.receiver ht.pool
  have heq : t.transactionEnd = {
      receiver := r
      pool := q
      inbox := { t.inbox with seen := t.inbox.seen ++ error.toList.map .fault } } := by
    rw [transactionEnd, hend]
  rw [heq]
  exact ⟨⟨hvalid, hsound⟩, hlimits, error.toList.map .fault, r.soFar q, rfl, hfinish, hreading⟩

/-- What is seen of a run, when the pool has room for every blob. -/
theorem run_spec (transactions : List (List Slice)) {t : Listener} {p : Decoder.Partial}
    (ht : t.Sound) (hp : t.reading = .expect p []) :
    ∃ t', t.run keep transactions = .ok t' ∧ ∃ seen, t'.inbox.seen = t.inbox.seen ++ seen ∧
      (.fault .outOfMemory ∉ seen ↔ ∀ d ∈ t.demands keep transactions, d.Met) ∧
      (.fault .outOfMemory ∉ seen →
        seen = Decoder.transactions t.receiver.limits p
          (transactions.map fun slices => (slices.map Slice.data).flatten)) := by
  induction transactions generalizing t p with
  | nil =>
      exact ⟨t, rfl, [], (List.append_nil _).symm, iff_of_true List.not_mem_nil nofun, fun _ => rfl⟩
  | cons slices rest ih =>
      obtain ⟨t₁, hall, ht₁, hlimits₁, seen₁, hseen₁, htakes₁, hspares₁⟩ :=
        receiveAll_spec keep slices ht
      obtain ⟨ht₂, hlimits₂, last, p', hlast, hfinish, hp'⟩ := transactionEnd_spec ht₁
      obtain ⟨t₃, hrun, seen₃, hseen₃, hspares₃, hrest⟩ := ih ht₂ hp'
      have hend : .fault .outOfMemory ∉ last := by
        have hspares := t₁.reading.spares_finish
        rwa [hfinish] at hspares
      refine ⟨t₃, ?_, seen₁ ++ last ++ seen₃, ?_, ?_, ?_⟩
      · rw [run, hall]
        exact hrun
      · rw [hseen₃, hlast, hseen₁]
        simp only [List.append_assoc]
      · rw [demands, hall, List.forall_mem_append, List.mem_append, List.mem_append, not_or, not_or,
          hspares₁, hspares₃, and_iff_left hend]
      · intro hmem
        simp only [List.mem_append, not_or] at hmem
        have hpush := htakes₁.push_eq hmem.1.1
        rw [hp] at hpush
        have hscan : Decoder.scan t.receiver.limits p (slices.map Slice.data).flatten =
            (seen₁, t₁.reading) := hpush
        rw [hrest hmem.2, List.map_cons, Decoder.transactions, Decoder.transaction, hscan,
          hlimits₂, hlimits₁]
        simp only [hfinish]

theorem sound_fresh {limits : Decoder.Limits} {pool : Pool} (h : pool.Sound 0) :
    (fresh limits pool).Sound :=
  ⟨Receiver.Valid.idle limits pool, h⟩

/-- A receiver never faults. As long as the pool has room for each blob when its header is complete,
what it puts out is what the decoder reads of the whole transactions, however they are cut. -/
theorem run_fresh_eq_transactions (limits : Decoder.Limits) {classes : List (Nat × Nat)}
    {pool : Pool} (hpool : Pool.ofClasses classes = .ok pool)
    (hclasses : ∀ c ∈ classes, 1 ≤ c.1 ∧ c.2 ≤ 255) (transactions : List (List Slice)) :
    ∃ t, (fresh limits pool).run keep transactions = .ok t ∧
      ((∀ d ∈ (fresh limits pool).demands keep transactions, d.Met) →
        t.inbox.seen = Decoder.transactions limits {}
          (transactions.map fun slices => (slices.map Slice.data).flatten)) := by
  have hsound : (fresh limits pool).Sound := sound_fresh (Pool.sound_of_ofClasses hpool hclasses)
  obtain ⟨t, hrun, seen, hseen, hspares, heq⟩ := run_spec keep transactions hsound rfl
  have hseen' : t.inbox.seen = seen := hseen
  refine ⟨t, hrun, fun hmet => ?_⟩
  rw [hseen']
  exact heq (hspares.2 hmet)

/-- A packet over two transactions, of which the second ends within a header; then a header that
announces too much, a blob with a wrong checksum behind a good one, a packet that gets too long, one
of too many blobs, a blob that is cut, and a packet in one piece. -/
def mixedInput : List (List Slice) :=
  [[{ data := (Blob.encode [1, 2] true).take 3 }, { data := (Blob.encode [1, 2] true).drop 3 }],
    [{ data := Blob.encode [3] false, deeds := [.allocate 4] }, { data := [0] }],
    [{ data := [5, 0, 1, 2, 3] }, { data := Blob.encode [4] false }],
    [{ data := Blob.encode [4] true ++ [1, 0, 5, 0, 0] }, { data := [0, 0, 6] }],
    List.replicate 4 { data := Blob.encode [4, 4, 4, 4] true },
    [{ data := (List.replicate 9 (Blob.encode [7] true)).flatten }],
    [{ data := (Blob.encode [8, 8] false).take 5 }],
    [{ data := Blob.encode [9] false }]]

def mixedSeen : List Decoder.Seen :=
  [.blob, .blob, .packet [1, 2, 3], .fault .channelAborted, .fault .lengthOutOfRange, .blob,
    .fault .crcMismatch, .blob, .blob, .blob, .fault .lengthOutOfRange, .blob, .blob, .blob, .blob,
    .blob, .blob, .blob, .blob, .fault .lengthOutOfRange, .fault .channelAborted, .blob, .packet [9]]

theorem mixedInput_seen : ∃ t, (fresh { maxPayload := 4, maxLength := 12 } ⟨#[.fresh 16 10]⟩).run
      (fun _ => false) mixedInput = .ok t ∧
    t.inbox.seen = mixedSeen ∧
    t.inbox.seen = Decoder.transactions { maxPayload := 4, maxLength := 12 } {}
      (mixedInput.map fun slices => (slices.map Slice.data).flatten) := by
  have hpool : Pool.ofClasses [(16, 10)] = .ok ⟨#[.fresh 16 10]⟩ := rfl
  obtain ⟨t, hrun, heq⟩ := run_fresh_eq_transactions (fun _ => false)
    { maxPayload := 4, maxLength := 12 } hpool (by decide) mixedInput
  have hmet : ∀ d ∈ (fresh { maxPayload := 4, maxLength := 12 } ⟨#[.fresh 16 10]⟩).demands
      (fun _ => false) mixedInput, d.Met := by
    decide +kernel
  have hvalue : ((fresh { maxPayload := 4, maxLength := 12 } ⟨#[.fresh 16 10]⟩).run
      (fun _ => false) mixedInput).toOption.map (fun t => t.inbox.seen) = some mixedSeen := by
    decide +kernel
  rw [hrun] at hvalue
  exact ⟨t, hrun, Option.some.inj hvalue, heq hmet⟩

end Listener

end DockLink
