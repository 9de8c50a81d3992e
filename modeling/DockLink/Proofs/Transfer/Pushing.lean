import DockLink.Proofs.Memory.Room
import DockLink.Proofs.Transfer.Receiving

/-!
# Bytes pushed through a receiver

Pushing takes run after run and passes the outputs on to a sink. A sink that accounts for the
handles it gets sees what the decoder sees, however the bytes are cut. A packet is given up for want
of memory only where a block is asked for that the pool has no room for.
-/

namespace DockLink

open Reassembly

variable {pool q : Pool} {others : Multiset Block}

/-- A taker of outputs that accounts for the handles it gets. What it makes of an output depends on
its own view and on what the output shows. -/
structure Reassembly.Sink {σ V : Type} (deliver : σ → Pool → Output → Except Fault (σ × Pool)) where
  handles : σ → Multiset Block
  Valid : σ → Pool → Prop
  view : σ → Pool → V
  absorb : V → Decoder.Seen → V
  keeps : ∀ {s pool q others}, Valid s pool → pool.Keeps q (handles s + others) →
    Valid s q ∧ view s q = view s pool
  spec : ∀ {s pool output others}, Valid s pool → output.Valid pool →
    pool.Sound (output.handles + (handles s + others)) →
    ∃ s' q, deliver s pool output = .ok (s', q) ∧ q.Sound (handles s' + others) ∧
      pool.Keeps q others ∧ Valid s' q ∧ view s' q = absorb (view s pool) (output.seen pool)

namespace Receiver

variable {σ V : Type} {deliver : σ → Pool → Output → Except Fault (σ × Pool)}

theorem Output.valid_keeps {o : Output} (h : o.Valid pool) (hk : pool.Keeps q others) :
    o.Valid q := by
  cases o with
  | packet p => exact Packet.Valid.keeps h hk
  | blob => trivial
  | fault error => trivial

theorem Output.seen_keeps {o : Output} (hk : pool.Keeps q others) (ho : ∀ b ∈ o.handles, b ∈ others) :
    o.seen q = o.seen pool := by
  cases o with
  | packet p => exact congrArg Decoder.Seen.packet (Packet.content_keeps hk ho)
  | blob => rfl
  | fault error => rfl

theorem deliverAll_spec (sink : Reassembly.Sink (V := V) deliver) {outputs : List Output} {s : σ}
    (hs : sink.Valid s pool) (houtputs : ∀ o ∈ outputs, o.Valid pool)
    (hpool : pool.Sound (outgoing outputs + (sink.handles s + others))) :
    ∃ s' q, deliverAll deliver s pool outputs = .ok (s', q) ∧ q.Sound (sink.handles s' + others) ∧
      pool.Keeps q others ∧ sink.Valid s' q ∧
      sink.view s' q = (outputs.map (Output.seen pool)).foldl sink.absorb (sink.view s pool) := by
  induction outputs generalizing s pool with
  | nil =>
      exact ⟨s, pool, rfl, hpool.cast (zero_add _), Pool.Keeps.refl _ _, hs, rfl⟩
  | cons o rest ih =>
      have hcast : pool.Sound (o.handles + (sink.handles s + (outgoing rest + others))) :=
        hpool.cast (by simp only [outgoing, List.map_cons, List.sum_cons]; abel)
      obtain ⟨s₁, q₁, hok, hsound, hkeeps, hvalid, hview⟩ :=
        sink.spec hs (houtputs o (List.mem_cons_self ..)) hcast
      have hrest : ∀ o' ∈ rest, o'.Valid q₁ := fun o' ho' =>
        Output.valid_keeps (houtputs o' (List.mem_cons_of_mem _ ho')) hkeeps
      obtain ⟨s₂, q₂, hok', hsound', hkeeps', hvalid', hview'⟩ :=
        ih hvalid hrest (hsound.cast (add_left_comm _ _ _))
      refine ⟨s₂, q₂, ?_, hsound', ?_, hvalid', ?_⟩
      · rw [deliverAll, hok]
        exact hok'
      · exact (hkeeps.mono fun b hb => Multiset.mem_add.2 (Or.inr hb)).trans hkeeps'
      · have hseen : rest.map (Output.seen q₁) = rest.map (Output.seen pool) := by
          refine List.map_congr_left ?_
          intro o' ho'
          exact Output.seen_keeps hkeeps fun b hb =>
            Multiset.mem_add.2 (Or.inl (Pool.mem_sum_handles ho' hb))
        rw [hview', hview, hseen]
        rfl

/-! ## Blocks that are asked for -/

section Demands

variable {r r' : Receiver} {outputs : List Output} {block : Block} {header : Header} {run : Bytes}

/-- The block for a blob, once its header is complete and in range. -/
def demand? (r : Receiver) (pool : Pool) (run : Bytes) : Option Demand :=
  match r.phase with
  | .header received =>
    match received ++ run with
    | [b₀, b₁] =>
      let header := Header.ofBytes b₀ b₁
      if header.length > r.maxPayload ∨ (header.more ∧ header.length = 0) then none
      else some { pool, size := header.blobLength }
    | _ => none
  | _ => none

/-- The blocks that are asked for as bytes are taken, run by run. -/
def demands (deliver : σ → Pool → Output → Except Fault (σ × Pool)) :
    Nat → Receiver → Pool → σ → Bytes → List Demand
  | 0, _, _, _, _ => []
  | n + 1, r, pool, s, data =>
    if data.isEmpty then []
    else
      let count := r.wanted data
      (r.demand? pool (data.take count)).toList ++
        match r.take pool (data.take count) with
        | .error _ => []
        | .ok (r, pool, outputs) =>
          match deliverAll deliver s pool outputs with
          | .error _ => []
          | .ok (s, pool) => demands deliver n r pool s (data.drop count)

theorem spares_fault {error : LinkError} (he : error ≠ .outOfMemory) :
    .fault .outOfMemory ∉ [Output.fault error] := by
  intro hmem
  cases List.mem_singleton.1 hmem
  exact he rfl

theorem spares_acceptBlob (h : r.acceptBlob pool block header = .ok (r', q, outputs)) :
    .fault .outOfMemory ∉ outputs := by
  unfold acceptBlob at h
  simp only at h
  split at h
  · cases h
    exact spares_fault (by decide)
  · obtain ⟨chunk, -, h⟩ := exists_of_bind_eq_ok h
    split at h
    · cases h
      exact spares_fault (by decide)
    · split at h
      · cases h
        decide
      · cases h
        simp

theorem spares_finishBlob (h : r.finishBlob pool block header = .ok (r', q, outputs)) :
    .fault .outOfMemory ∉ outputs := by
  unfold finishBlob at h
  obtain ⟨good, -, h⟩ := exists_of_bind_eq_ok h
  split at h
  · exact spares_acceptBlob h
  · cases h
    exact spares_fault (by decide)

theorem spares_takePayload {filled : Nat}
    (h : r.takePayload pool block header filled run = .ok (r', q, outputs)) :
    .fault .outOfMemory ∉ outputs := by
  unfold takePayload at h
  obtain ⟨q₁, -, h⟩ := exists_of_bind_eq_ok h
  simp only at h
  split at h
  · exact spares_finishBlob h
  · cases h
    exact List.not_mem_nil

/-- A blob is given up for want of memory exactly if the pool has no room for it. -/
theorem spares_startBlob_iff (hpool : pool.Sound others)
    (hhead : ¬(header.length > r.maxPayload ∨ (header.more ∧ header.length = 0)))
    (h : r.startBlob pool header = .ok (r', q, outputs)) :
    .fault .outOfMemory ∉ outputs ↔ pool.HasRoom header.blobLength := by
  rw [startBlob, if_neg hhead] at h
  split at h
  · rename_i e ha
    cases h
    exact iff_of_false (fun hnot => hnot (List.mem_singleton_self _)) (hpool.not_hasRoom_of_error ha)
  · rename_i fresh q₁ ha
    obtain ⟨q₂, -, h⟩ := exists_of_bind_eq_ok h
    cases h
    exact iff_of_true List.not_mem_nil ((hpool.allocate_isOk_iff _).1 ⟨_, _, ha⟩)

/-- Want of memory shows exactly if a block was asked for that the pool had no room for. -/
theorem spares_take_iff (hpool : pool.Sound others) (h : r.take pool run = .ok (r', q, outputs)) :
    .fault .outOfMemory ∉ outputs ↔ ∀ d ∈ r.demand? pool run, d.Met := by
  have hnone : r.demand? pool run = none → .fault .outOfMemory ∉ outputs →
      (.fault .outOfMemory ∉ outputs ↔ ∀ d ∈ r.demand? pool run, d.Met) := by
    intro hdemand hspares
    simpa [hdemand] using hspares
  unfold take at h
  split at h
  · rename_i hphase
    cases h
    exact hnone (by simp only [demand?, hphase]) List.not_mem_nil
  · rename_i received hphase
    unfold takeHeader at h
    split at h
    · rename_i b₀ b₁ hbytes
      by_cases hhead : (Header.ofBytes b₀ b₁).length > r.maxPayload ∨
          ((Header.ofBytes b₀ b₁).more ∧ (Header.ofBytes b₀ b₁).length = 0)
      · rw [startBlob, if_pos hhead] at h
        cases h
        exact hnone (by simp only [demand?, hphase, hbytes, if_pos hhead]) (spares_fault (by decide))
      · have hdemand : r.demand? pool run =
            some { pool, size := (Header.ofBytes b₀ b₁).blobLength } := by
          simp only [demand?, hphase, hbytes, if_neg hhead]
        rw [hdemand, spares_startBlob_iff hpool hhead h]
        exact ⟨fun hroom d hd => Option.some.inj hd ▸ hroom, fun hall => hall _ rfl⟩
    · rename_i hother
      cases h
      exact hnone (by simp only [demand?, hphase]) List.not_mem_nil
  · rename_i fresh header filled hphase
    exact hnone (by simp only [demand?, hphase]) (spares_takePayload h)

end Demands

theorem mem_map_seen_fault {outputs : List Output} {error : LinkError} :
    .fault error ∈ outputs.map (Output.seen pool) ↔ .fault error ∈ outputs := by
  rw [List.mem_map]
  constructor
  · rintro ⟨o, ho, hseen⟩
    cases o with
    | fault e =>
        cases hseen
        exact ho
    | blob => cases hseen
    | packet p => cases hseen
  · exact fun h => ⟨_, h, rfl⟩

/-- A run of bytes is read as the decoder reads it, and the sink sees what it puts out. -/
theorem run_spec (sink : Reassembly.Sink (V := V) deliver) {r : Receiver} {s : σ} (data : Bytes)
    (hv : r.Valid pool) (hs : sink.Valid s pool)
    (hpool : pool.Sound (r.handles + (sink.handles s + others))) :
    ∃ r' q₁ outputs s' q, r.take pool (data.take (r.wanted data)) = .ok (r', q₁, outputs) ∧
      deliverAll deliver s q₁ outputs = .ok (s', q) ∧
      q.Sound (r'.handles + (sink.handles s' + others)) ∧ pool.Keeps q others ∧ r'.Valid q ∧
      sink.Valid s' q ∧ r'.limits = r.limits ∧
      ∃ seen, (r.reading pool).Takes r.limits (data.take (r.wanted data)) seen (r'.reading q) ∧
        sink.view s' q = seen.foldl sink.absorb (sink.view s pool) ∧
        (.fault .outOfMemory ∉ seen ↔ ∀ d ∈ r.demand? pool (data.take (r.wanted data)), d.Met) := by
  have hrun : (data.take (r.wanted data)).length ≤ r.wanted (data.take (r.wanted data)) := by
    rw [List.length_take]
    cases hp : r.phase with
    | header received => simp only [wanted, hp]; exact Nat.min_le_left _ _
    | payload block h filled => simp only [wanted, hp]; exact Nat.min_le_left _ _
    | discard => simp only [wanted, hp, List.length_take]; exact Nat.le_refl _
  obtain ⟨r', q₁, outputs, htake, hreads⟩ := take_reads hv hpool hrun
  obtain ⟨hs₁, hview₁⟩ := sink.keeps hs hreads.keeps
  have hsound₁ : q₁.Sound (outgoing outputs + (sink.handles s + (r'.handles + others))) :=
    hreads.sound.cast (by abel)
  obtain ⟨s', q, hdeliver, hsound, hkeeps, hs', hview⟩ :=
    deliverAll_spec sink hs₁ hreads.valid_outputs hsound₁
  refine ⟨r', q₁, outputs, s', q, htake, hdeliver, hsound.cast (add_left_comm _ _ _), ?_,
    hreads.valid.keeps hkeeps, hs', hreads.limits_eq, outputs.map (Output.seen q₁), ?_, ?_, ?_⟩
  · exact (hreads.keeps.mono fun b hb => Multiset.mem_add.2 (Or.inr hb)).trans
      (hkeeps.mono fun b hb => Multiset.mem_add.2 (Or.inr hb))
  · rw [reading_keeps hkeeps]
    rcases hreads.read with hread | hread
    · exact Or.inl hread
    · exact Or.inr ⟨_, le_refl _, by rwa [List.take_length]⟩
  · rw [hview, hview₁]
  · rw [mem_map_seen_fault]
    exact spares_take_iff hpool htake

theorem demands_succ {n : Nat} {r r₁ : Receiver} {q₁ q₂ : Pool} {outputs : List Output} {s s₁ : σ}
    {data : Bytes} (hdata : data ≠ [])
    (htake : r.take pool (data.take (r.wanted data)) = .ok (r₁, q₁, outputs))
    (hdeliver : deliverAll deliver s q₁ outputs = .ok (s₁, q₂)) :
    demands deliver (n + 1) r pool s data =
      (r.demand? pool (data.take (r.wanted data))).toList ++
        demands deliver n r₁ q₂ s₁ (data.drop (r.wanted data)) := by
  rw [demands, if_neg (by simpa using hdata)]
  simp only [htake, hdeliver]

theorem pushRuns_spec (sink : Reassembly.Sink (V := V) deliver) (n : Nat) {r : Receiver} {s : σ}
    {data : Bytes} (hn : data.length ≤ n) (hv : r.Valid pool) (hs : sink.Valid s pool)
    (hpool : pool.Sound (r.handles + (sink.handles s + others))) :
    ∃ r' q s', pushRuns deliver n r pool s data = .ok (r', q, s') ∧
      q.Sound (r'.handles + (sink.handles s' + others)) ∧ pool.Keeps q others ∧ r'.Valid q ∧
      sink.Valid s' q ∧ r'.limits = r.limits ∧
      ∃ seen, (r.reading pool).Takes r.limits data seen (r'.reading q) ∧
        sink.view s' q = seen.foldl sink.absorb (sink.view s pool) ∧
        (.fault .outOfMemory ∉ seen ↔ ∀ d ∈ demands deliver n r pool s data, d.Met) := by
  -- A run takes at least one byte off the data, so the data bound the number of runs.
  induction n generalizing r pool s data with
  | zero =>
      obtain rfl : data = [] := List.length_eq_zero_iff.1 (Nat.le_zero.1 hn)
      exact ⟨r, pool, s, rfl, hpool, Pool.Keeps.refl _ _, hv, hs, rfl, [],
        Or.inl (reading_settled hv), rfl, iff_of_true List.not_mem_nil nofun⟩
  | succ n ih =>
      by_cases hdata : data = []
      · subst hdata
        exact ⟨r, pool, s, rfl, hpool, Pool.Keeps.refl _ _, hv, hs, rfl, [],
          Or.inl (reading_settled hv), rfl, iff_of_true List.not_mem_nil nofun⟩
      · have hpos := wanted_pos hv hdata
        have hdatapos := List.length_pos_of_ne_nil hdata
        obtain ⟨r₁, q₁, outputs, s₁, q₂, htake, hdeliver, hsound₁, hkeeps₁, hv₁, hs₁, hlimits₁,
          seen₁, htakes₁, hview₁, hspares₁⟩ := run_spec sink data hv hs hpool
        have hrest : (data.drop (r.wanted data)).length ≤ n := by
          rw [List.length_drop]
          omega
        obtain ⟨r', q, s', hpush, hsound, hkeeps, hv', hs', hlimits, seen, htakes, hview, hspares⟩ :=
          ih hrest hv₁ hs₁ hsound₁
        refine ⟨r', q, s', ?_, hsound, hkeeps₁.trans hkeeps, hv', hs', hlimits.trans hlimits₁,
          seen₁ ++ seen, ?_, ?_, ?_⟩
        · rw [pushRuns, if_neg (by simpa using hdata)]
          simp only [htake, bind, Except.bind, hdeliver]
          exact hpush
        · rw [hlimits₁] at htakes
          rw [← List.take_append_drop (r.wanted data) data]
          exact Decoder.State.Takes.append htakes₁ htakes
        · rw [hview, hview₁, List.foldl_append]
        · rw [demands_succ hdata htake hdeliver, List.forall_mem_append, List.mem_append, not_or,
            hspares₁, hspares, Demand.forall_mem_toList]

/-- Pushing bytes never faults, whatever they are. The sink sees what the decoder sees, up to the
point where memory is missing; and it is missing exactly if the pool had no room for a block when it
was asked for. -/
theorem push_spec (sink : Reassembly.Sink (V := V) deliver) {r : Receiver} {s : σ}
    (data : Bytes) (hv : r.Valid pool) (hs : sink.Valid s pool)
    (hpool : pool.Sound (r.handles + (sink.handles s + others))) :
    ∃ r' q s', r.push pool deliver s data = .ok (r', q, s') ∧
      q.Sound (r'.handles + (sink.handles s' + others)) ∧ pool.Keeps q others ∧ r'.Valid q ∧
      sink.Valid s' q ∧ r'.limits = r.limits ∧
      ∃ seen, (r.reading pool).Takes r.limits data seen (r'.reading q) ∧
        sink.view s' q = seen.foldl sink.absorb (sink.view s pool) ∧
        (.fault .outOfMemory ∉ seen ↔ ∀ d ∈ demands deliver data.length r pool s data, d.Met) :=
  pushRuns_spec sink data.length (Nat.le_refl _) hv hs hpool

end Receiver

end DockLink
