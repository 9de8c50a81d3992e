import DockLink.Control.Console
import DockLink.Proofs.Control.Decoding
import DockLink.Proofs.Transfer.Session

/-!
# What a responder comes to

A docket is a responder without its memory: what it heard of the transaction, and the results that
wait. Every operation keeps account of the blocks that the responder holds or lent to the channel,
and shows on the docket as plain data.
-/

namespace DockLink

open Transaction

/-- A responder without its memory. -/
structure Docket where
  limit : Nat
  depth : Nat
  /-- The bytes of the transaction so far. None if its result is there. -/
  heard : Option Bytes
  /-- The results that wait, oldest first. -/
  queued : List Notice
  dropped : UInt32

namespace Docket

/-- Queues a result, or drops it. -/
def post (c : Docket) (notice : Notice) : Docket :=
  if c.queued.length < c.depth then { c with queued := c.queued ++ [notice] }
  else { c with dropped := c.dropped + 1 }

def reset (c : Docket) : Docket := { c with heard := some [] }

/-- Ends the transaction, and reports the command that this cuts. -/
def close (c : Docket) : Docket :=
  match c.heard.bind cutNotice? with
  | some notice => c.reset.post notice
  | none => c.reset

end Docket

namespace Responder

open Framer (lent)

variable {depth : Nat} {r r' : Responder depth} {owed : List Write} {rest rest₁ : Multiset Block}
  {q : Pool} {result : Received}

/-- The writes that the channel was not told of yet, oldest first. -/
def ordered (r : Responder depth) : List Write := r.orders.reverse.filterMap Order.write?

/-- The handles of the blob that is coming in and of the results that wait. -/
def handles (r : Responder depth) : Multiset Block :=
  r.decoder.handles + (r.requests.toList.map Received.handles).sum

/-- What holds of a responder when the channel owes `owed` and the others hold `rest`. -/
structure Sound (r : Responder depth) (owed : List Write) (rest : Multiset Block) : Prop where
  pool : r.pool.Sound (r.handles + lent (owed ++ r.ordered) + rest)
  decoder : r.decoder.Valid r.pool
  requests : ∀ result ∈ r.requests.toList, Received.Valid r.pool result
  responses : r.responses = (owed ++ r.ordered).length

/-- What a responder comes to. -/
def docket (r : Responder depth) : Docket where
  limit := r.decoder.blobLimit
  depth := depth
  heard := if r.decoder.phase = .done then none else some (r.decoder.heard r.pool)
  queued := r.requests.toList.map (Received.notice r.pool)
  dropped := r.droppedRequests

/-- What an operation does, from one sound responder to the next. -/
structure Goes (r : Responder depth) (owed : List Write) (rest : Multiset Block) (c : Docket)
    (r' : Responder depth) : Prop where
  sound : r'.Sound owed rest
  keeps : r.pool.Keeps r'.pool rest
  docket_eq : r'.docket = c

theorem Goes.trans {c₁ c₂ : Docket} {r₁ : Responder depth} (h₁ : r.Goes owed rest₁ c₁ r₁)
    (h₂ : r₁.Goes owed rest c₂ r') (hle : ∀ b ∈ rest, b ∈ rest₁) : r.Goes owed rest c₂ r' :=
  ⟨h₂.sound, (h₁.keeps.mono hle).trans h₂.keeps, h₂.docket_eq⟩

theorem Goes.refl (h : r.Sound owed rest) : r.Goes owed rest r.docket r :=
  ⟨h, Pool.Keeps.refl _ _, rfl⟩

theorem Sound.cast (h : r.Sound owed rest) (he : rest = rest₁) : r.Sound owed rest₁ := he ▸ h

/-! ## Another pool -/

theorem queued_keeps (hk : r.pool.Keeps q ((r.requests.toList.map Received.handles).sum)) :
    r.requests.toList.map (Received.notice q) = r.requests.toList.map (Received.notice r.pool) := by
  refine List.map_congr_left fun result hresult => ?_
  exact Received.notice_keeps hk fun b hb => Pool.mem_sum_handles hresult hb

theorem Sound.withDecoder (h : r.Sound owed rest) {d : Decoder} (hd : d.Valid q)
    (hlimit : d.blobLimit = r.decoder.blobLimit)
    (hq : q.Sound (d.handles +
      ((r.requests.toList.map Received.handles).sum + lent (owed ++ r.ordered) + rest₁)))
    (hk : r.pool.Keeps q
      ((r.requests.toList.map Received.handles).sum + lent (owed ++ r.ordered) + rest)) :
    Sound { r with decoder := d, pool := q } owed rest₁ ∧ r.pool.Keeps q rest ∧
      docket { r with decoder := d, pool := q } =
        { r.docket with heard := if d.phase = .done then none else some (d.heard q) } := by
  refine ⟨?_, hk.mono fun b hb => Multiset.mem_add.2 (Or.inr hb), ?_⟩
  · exact {
      pool := hq.cast (by
        rw [handles, add_assoc, add_assoc, add_assoc]
        rfl)
      decoder := hd
      requests := fun result hresult => (h.requests result hresult).keeps hk
      responses := h.responses }
  · have hqueued := queued_keeps (hk.mono fun b hb =>
      Multiset.mem_add.2 (Or.inl (Multiset.mem_add.2 (Or.inl hb))))
    simp only [docket, hqueued, hlimit]

/-- What the responder has is as it was, if the pool keeps what its handles show. -/
theorem Sound.kept (h : r.Sound owed rest) (hk : r.pool.Keeps q r.handles) :
    r.decoder.Valid q ∧ (∀ result ∈ r.requests.toList, Received.Valid q result) ∧
      docket { r with pool := q } = r.docket := by
  have hdecoder : r.pool.Keeps q (r.decoder.handles + 0) := hk.mono fun b hb => by
    rw [add_zero] at hb
    exact Multiset.mem_add.2 (Or.inl hb)
  have hqueued := queued_keeps (hk.mono fun b hb => Multiset.mem_add.2 (Or.inr hb))
  refine ⟨h.decoder.keeps hdecoder, fun result hresult => (h.requests result hresult).keeps hk, ?_⟩
  simp only [docket, hqueued, Decoder.heard_keeps hdecoder]

theorem Sound.withPool (h : r.Sound owed rest)
    (hq : q.Sound (r.handles + lent (owed ++ r.ordered) + rest₁)) (hk : r.pool.Keeps q r.handles) :
    Sound { r with pool := q } owed rest₁ ∧ docket { r with pool := q } = r.docket := by
  obtain ⟨hdecoder, hrequests, hdocket⟩ := h.kept hk
  exact ⟨⟨hq, hdecoder, hrequests, h.responses⟩, hdocket⟩

/-! ## Results -/

theorem Sound.post (h : r.Sound owed (Received.handles result + rest))
    (hvalid : Received.Valid r.pool result) :
    r.Goes owed rest (r.docket.post (Received.notice r.pool result)) (r.post result) := by
  unfold Responder.post
  cases hpush : r.requests.push result with
  | ok requests =>
      have hlist := BoundedQueue.toList_of_push hpush
      have hroom : r.docket.queued.length < r.docket.depth := by
        simpa only [docket, List.length_map] using BoundedQueue.length_lt_of_push hpush
      rw [Docket.post, if_pos hroom]
      exact {
        sound := {
          pool := h.pool.cast (by
            simp only [handles, hlist, List.map_append, List.sum_append, List.map_cons,
              List.map_nil, List.sum_cons, List.sum_nil]
            show _ + lent (owed ++ r.ordered) + _ = _ + lent (owed ++ r.ordered) + _
            abel)
          decoder := h.decoder
          requests := fun x hx => by
            rw [hlist, List.mem_append, List.mem_singleton] at hx
            rcases hx with hx | rfl
            · exact h.requests x hx
            · exact hvalid
          responses := h.responses }
        keeps := Pool.Keeps.refl _ _
        docket_eq := by simp only [docket, hlist, List.map_append, List.map_cons, List.map_nil] }
  | error rejected =>
      obtain ⟨hlength, rfl⟩ := (BoundedQueue.push_eq_error_iff _ _ _).1 hpush
      have hfull : ¬r.docket.queued.length < r.docket.depth := by
        simp only [docket, List.length_map, hlength]
        exact Nat.lt_irrefl _
      rw [Docket.post, if_neg hfull]
      have hrejected : r.pool.Sound (Received.handles rejected +
          (r.handles + lent (owed ++ r.ordered) + rest)) := h.pool.cast (by abel)
      obtain ⟨hsound, hkeeps⟩ := Received.sound_release hrejected
      obtain ⟨hsound', hdocket⟩ :=
        h.withPool hsound (hkeeps.mono fun b hb =>
          Multiset.mem_add.2 (Or.inl (Multiset.mem_add.2 (Or.inl hb))))
      refine ⟨⟨hsound'.pool, hsound'.decoder, hsound'.requests, hsound'.responses⟩,
        hkeeps.mono fun b hb => Multiset.mem_add.2 (Or.inr hb), ?_⟩
      exact congrArg (fun c : Docket => { c with dropped := r.droppedRequests + 1 }) hdocket

theorem Sound.popRequest (h : r.Sound owed rest) (hp : r.popRequest? = some (result, r')) :
    r'.Sound owed (Received.handles result + rest) ∧ r'.orders = r.orders ∧
      r'.pool = r.pool ∧ ∃ queued, r.docket.queued = Received.notice r.pool result :: queued ∧
        r'.docket = { r.docket with queued } := by
  obtain ⟨⟨popped, requests⟩, hpop, heq⟩ := Option.map_eq_some_iff.1 hp
  cases heq
  obtain ⟨hlist, -⟩ := BoundedQueue.toList_of_pop? hpop
  refine ⟨?_, rfl, rfl, requests.toList.map (Received.notice r.pool), ?_, rfl⟩
  · exact {
      pool := h.pool.cast (by
        simp only [handles, hlist, List.map_cons, List.sum_cons]
        show _ + lent (owed ++ r.ordered) + _ = _ + lent (owed ++ r.ordered) + _
        abel)
      decoder := h.decoder
      requests := fun x hx => h.requests x (hlist ▸ List.mem_cons_of_mem _ hx)
      responses := h.responses }
  · simp only [docket, hlist, List.map_cons]

/-! ## Transactions -/

theorem Sound.decoding (h : r.Sound owed rest) : r.pool.Sound (r.decoder.handles +
    ((r.requests.toList.map Received.handles).sum + lent (owed ++ r.ordered) + rest)) :=
  h.pool.cast (by
    rw [handles]
    abel)

theorem Sound.received_open (h : r.Sound owed rest) {heard : Bytes}
    (hheard : r.docket.heard = some heard) (data : Bytes) :
    ∃ r', r.received data = .ok r' ∧
      ((Decoder.Timely r.pool true heard data ∧
        r.Goes owed rest { r.docket with heard := some (heard ++ data) } r') ∨
      ∃ room notice, Decoder.Timely r.pool room heard data ∧
        verdict? r.docket.limit room (heard ++ data) = some notice ∧
        r.Goes owed rest ({ r.docket with heard := none }.post notice) r') := by
  have hopen : r.decoder.phase ≠ .done := fun hdone => by
    rw [docket, if_pos hdone] at hheard
    cases hheard
  obtain rfl : r.decoder.heard r.pool = heard := by
    rw [docket, if_neg hopen] at hheard
    exact Option.some.inj hheard
  obtain ⟨d, q, result, hpush, hhears⟩ := Decoder.push_hears h.decoder hopen h.decoding data
  cases result with
  | none =>
      obtain ⟨hopen', hheard', hroom, -⟩ := hhears.goesOn rfl
      obtain ⟨hsound, hkeeps, hdocket⟩ := h.withDecoder hhears.valid hhears.limit_eq
        (hhears.sound.cast (congrArg (· + _) (add_zero _))) hhears.keeps
      rw [if_neg hopen', hheard'] at hdocket
      refine ⟨{ r with decoder := d, pool := q }, ?_, Or.inl ⟨hroom, hsound, hkeeps, hdocket⟩⟩
      rw [received, hpush]
      rfl
  | some result =>
      obtain ⟨hdone, hvalid, room, hroom, hverdict⟩ := hhears.settled result rfl
      have hpool : q.Sound (d.handles + ((r.requests.toList.map Received.handles).sum +
          lent (owed ++ r.ordered) + (Received.handles result + rest))) :=
        hhears.sound.cast (by
          show _ + Received.handles result + _ = _
          abel)
      obtain ⟨hsound, hkeeps, hdocket⟩ :=
        h.withDecoder hhears.valid hhears.limit_eq hpool hhears.keeps
      have hpost := hsound.post hvalid
      rw [hdocket, if_pos hdone] at hpost
      refine ⟨Responder.post { r with decoder := d, pool := q } result, ?_,
        Or.inr ⟨room, _, hroom, hverdict, hpost.sound, hkeeps.trans hpost.keeps, hpost.docket_eq⟩⟩
      rw [received, hpush]
      rfl

theorem received_of_done (hheard : r.docket.heard = none) (data : Bytes) :
    r.received data = .ok r := by
  have hdone : r.decoder.phase = .done := by
    by_contra hopen
    rw [docket, if_neg hopen] at hheard
    cases hheard
  rw [received, Decoder.push_of_done hdone]
  rfl

theorem Sound.order (h : r.Sound owed rest) {o : Order} (ho : o.write? = none) :
    (r.order o).Sound owed rest ∧ (r.order o).docket = r.docket := by
  have hordered : (r.order o).ordered = r.ordered := by simp [ordered, Responder.order, ho]
  refine ⟨⟨?_, h.decoder, h.requests, ?_⟩, rfl⟩
  · rw [hordered]
    exact h.pool
  · rw [hordered]
    exact h.responses

theorem Sound.ordered_goes (h : r.Sound owed rest) {o : Order} (ho : o.write? = none) :
    r.Goes owed rest r.docket (r.order o) :=
  ⟨(h.order ho).1, Pool.Keeps.refl _ _, (h.order ho).2⟩

theorem Sound.forget (h : r.Sound owed rest) :
    ∃ error q, r.decoder.transactionEnd r.pool = (error, { r.decoder with phase := .code }, q) ∧
      r.Goes owed rest r.docket.reset
        { r with decoder := { r.decoder with phase := .code }, pool := q } ∧
      error.map Except.error = r.docket.heard.bind cutNotice? := by
  obtain ⟨error, q, hend, hsound, hkeeps, herror⟩ :=
    Decoder.transactionEnd_spec h.decoder h.decoding
  obtain ⟨hsound', hkeeps', hdocket⟩ := h.withDecoder (d := { r.decoder with phase := .code })
    trivial rfl (hsound.cast (zero_add _).symm) hkeeps
  refine ⟨error, q, hend, ⟨hsound', hkeeps', hdocket⟩, ?_⟩
  rw [herror, docket]
  split
  · rfl
  · rfl

theorem Sound.transactionEnd (h : r.Sound owed rest) :
    r.Goes owed rest r.docket.close r.transactionEnd := by
  have habort : ∃ r₁, r₁ = (if r.responses > 0 then r.order .abortTx else r) ∧
      r.Goes owed rest r.docket r₁ := by
    split
    · exact ⟨_, rfl, h.ordered_goes rfl⟩
    · exact ⟨_, rfl, Goes.refl h⟩
  obtain ⟨r₁, hr₁, hgoes₁⟩ := habort
  obtain ⟨error, q, hend, hgoes₂, herror⟩ := hgoes₁.sound.forget
  rw [hgoes₁.docket_eq] at hgoes₂ herror
  unfold Responder.transactionEnd Docket.close
  simp only [← hr₁, hend]
  rw [← herror]
  cases error with
  | none => exact hgoes₁.trans hgoes₂ fun _ hb => hb
  | some e =>
      have hsound : Sound _ owed (Received.handles (.error e) + rest) :=
        hgoes₂.sound.cast (zero_add _).symm
      have hpost := hsound.post trivial
      rw [hgoes₂.docket_eq] at hpost
      exact (hgoes₁.trans hgoes₂ fun _ hb => hb).trans hpost fun _ hb => hb

/-! ## The channel -/

theorem Sound.enable (h : r.Sound owed rest) : r.Goes owed rest r.docket r.enable :=
  h.ordered_goes rfl

theorem Sound.disable (h : r.Sound owed rest) : r.Goes owed rest r.docket.reset r.disable := by
  have hgoes₁ := h.ordered_goes (o := .abortRx) rfl
  have hgoes₂ := hgoes₁.sound.ordered_goes (o := .abortTx) rfl
  have hgoes₃ := hgoes₂.sound.ordered_goes (o := .disable) rfl
  obtain ⟨error, q, hend, hgoes₄, -⟩ := hgoes₃.sound.forget
  unfold Responder.disable
  simp only [hend]
  have hgoes := (hgoes₁.trans hgoes₂ fun _ hb => hb).trans hgoes₃ fun _ hb => hb
  exact hgoes.trans hgoes₄ fun _ hb => hb

theorem Sound.writeComplete {w : Write} (h : r.Sound (w :: owed) rest) :
    r.Goes owed rest r.docket (r.writeComplete w.block) := by
  have hpool : r.pool.Sound (w.block ::ₘ (r.handles + lent (owed ++ r.ordered) + rest)) :=
    h.pool.cast (by
      rw [List.cons_append, lent, List.map_cons, ← Multiset.cons_coe, Multiset.add_cons,
        Multiset.cons_add]
      rfl)
  obtain ⟨hsound, hkeeps⟩ := hpool.release
  obtain ⟨hdecoder, hrequests, hdocket⟩ := h.kept (hkeeps.mono fun b hb =>
    Multiset.mem_add.2 (Or.inl (Multiset.mem_add.2 (Or.inl hb))))
  refine ⟨⟨hsound, hdecoder, hrequests, ?_⟩,
    hkeeps.mono fun b hb => Multiset.mem_add.2 (Or.inr hb), hdocket⟩
  show r.responses - 1 = (owed ++ r.ordered).length
  rw [h.responses, List.cons_append, List.length_cons, Nat.add_sub_cancel]

/-- A response takes a block of its own to the channel, or none. -/
theorem Sound.respond (h : r.Sound owed rest) (length : Nat) (fill : Bytes → Except Fault Bytes) :
    r.Goes owed rest r.docket (r.respond length fill).1 := by
  unfold Responder.respond
  split
  · exact Goes.refl h
  · rename_i block q hallocate
    obtain ⟨-, hsound, hkeeps, -⟩ := h.pool.allocate hallocate
    have hhandles : ∀ b ∈ r.handles, b ∈ r.handles + lent (owed ++ r.ordered) + rest := fun b hb =>
      Multiset.mem_add.2 (Or.inl (Multiset.mem_add.2 (Or.inl hb)))
    split
    · rename_i q' hfill
      obtain ⟨bytes, hwrite⟩ : ∃ bytes, q.write block 0 bytes = .ok q' := by
        cases hbytes : fill (q.read block 0 length) with
        | error fault => rw [hbytes] at hfill; cases hfill
        | ok bytes => rw [hbytes] at hfill; exact ⟨bytes, hfill⟩
      obtain ⟨hnot, hfits⟩ := hsound.of_write hwrite
      obtain ⟨q'', hwrite', hsound', hkeeps', -⟩ := hsound.write hnot hfits
      cases hwrite.symm.trans hwrite'
      have hkept := hkeeps.trans hkeeps'
      have hmore : q'.Sound (r.handles + lent (owed ++ r.ordered) + block ::ₘ rest) :=
        hsound'.cast (Multiset.add_cons _ _ _).symm
      obtain ⟨hless, hdocket⟩ := h.withPool hmore (hkept.mono hhandles)
      have hordered : (write { r with pool := q' } block length).ordered =
          r.ordered ++ [{ block, offset := 0, length }] := by
        simp [ordered, write, Responder.order, Order.write?]
      refine ⟨⟨?_, hless.decoder, hless.requests, ?_⟩,
        hkept.mono fun b hb => Multiset.mem_add.2 (Or.inr hb), hdocket⟩
      · rw [hordered, ← List.append_assoc, lent, List.map_append, ← Multiset.coe_add]
        refine hless.pool.cast ?_
        show r.handles + lent (owed ++ r.ordered) + _ = r.handles + (_ + {block}) + rest
        rw [← Multiset.singleton_add]
        show _ = r.handles + (lent (owed ++ r.ordered) + {block}) + rest
        abel
      · rw [hordered, ← List.append_assoc, List.length_append, ← h.responses]
        rfl
    · obtain ⟨hsound', hkeeps'⟩ := hsound.release
      have hkept := hkeeps.trans hkeeps'
      obtain ⟨hless, hdocket⟩ :=
        h.withPool hsound' (hkept.mono hhandles)
      exact ⟨hless, hkept.mono fun b hb => Multiset.mem_add.2 (Or.inr hb), hdocket⟩

theorem Sound.respondBlob (h : r.Sound owed rest) (blob : Option (ContentType × Packet)) :
    r.Goes owed rest r.docket (r.respondBlob blob).1 := by
  unfold Responder.respondBlob
  split
  · split
    · exact Goes.refl h
    · exact h.respond _ _
  · exact h.respond _ _

end Responder

end DockLink
