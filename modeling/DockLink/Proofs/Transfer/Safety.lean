import DockLink.Proofs.Transfer.Outcomes

/-!
# Nothing out of bounds

What a step demands of its buffers is checked where it happens, and a session never meets a fault.
A handle that is given back without being there is noted in its size class, and no operation takes
the note away: a session comes without one. Differences of lengths and the ranges of chunks are not
checked: they would only come out too small. They are in bounds all the same, between two actions
and at every moment of a reception.
-/

namespace DockLink

open Reassembly

variable {pool q : Pool} {others : Multiset Block}

/-- What is wanted of a blob has its place in the block, and the handle to the block is the only
one. -/
def Reassembly.Phase.InBounds (pool : Pool) : Phase → Prop
  | .header received => received.length < Header.byteLength
  | .payload block h filled =>
    filled < h.blobLength ∧ h.blobLength ≤ pool.capacity block ∧ pool.refCount block = 1
  | .discard => True

namespace Receiver

variable {σ V : Type} {deliver : σ → Pool → Output → Except Fault (σ × Pool)} {r r' : Receiver}
  {s : σ} {data left : Bytes}

theorem Valid.inBounds (h : r.Valid pool) : r.phase.InBounds pool := by
  have hphase := h.phase
  cases hp : r.phase with
  | header received =>
      rw [hp] at hphase
      exact hphase
  | payload block header filled =>
      rw [hp] at hphase
      obtain ⟨-, -, hfilled, hcapacity, hunshared, -⟩ := hphase
      exact ⟨hfilled, hcapacity, hunshared⟩
  | discard => trivial

/-- The moments at which a push looks what to do with the bytes that are left. -/
inductive Visits (deliver : σ → Pool → Output → Except Fault (σ × Pool)) :
    Receiver → Pool → σ → Bytes → Receiver → Pool → Bytes → Prop where
  | here (r : Receiver) (pool : Pool) (s : σ) (data : Bytes) :
      Visits deliver r pool s data r pool data
  | later {r r₁ r' : Receiver} {pool q₁ q₂ q : Pool} {outputs : List Output} {s s₁ : σ}
      {data left : Bytes} (more : data ≠ [])
      (takes : r.take pool (data.take (r.wanted data)) = .ok (r₁, q₁, outputs))
      (delivers : deliverAll deliver s q₁ outputs = .ok (s₁, q₂))
      (rest : Visits deliver r₁ q₂ s₁ (data.drop (r.wanted data)) r' q left) :
      Visits deliver r pool s data r' q left

/-- What each run keeps holds at every visit. -/
theorem Visits.preserves {P : Receiver → Prop} (h : Visits deliver r pool s data r' q left)
    (sink : Reassembly.Sink (V := V) deliver) (hv : r.Valid pool) (hs : sink.Valid s pool)
    (hpool : pool.Sound (r.handles + (sink.handles s + others))) (hr : P r)
    (step : ∀ {r r₁ : Receiver} {pool q : Pool} {run : Bytes} {outputs : List Output},
      r.Valid pool → P r → r.take pool run = .ok (r₁, q, outputs) → P r₁) :
    r'.Valid q ∧ P r' := by
  induction h with
  | here => exact ⟨hv, hr⟩
  | @later r _ _ _ _ _ _ _ _ _ data _ more takes delivers rest ih =>
      obtain ⟨r₁, q₁, outputs, s₁, q₂, htake, hdeliver, hsound, -, hv₁, hs₁, -⟩ :=
        run_spec sink data hv hs hpool
      -- Both have no choice, so this is the run of the visit.
      cases takes.symm.trans htake
      cases delivers.symm.trans hdeliver
      exact ih hv₁ hs₁ hsound (step hv hr takes)

theorem Visits.valid (h : Visits deliver r pool s data r' q left)
    (sink : Reassembly.Sink (V := V) deliver) (hv : r.Valid pool) (hs : sink.Valid s pool)
    (hpool : pool.Sound (r.handles + (sink.handles s + others))) : r'.Valid q :=
  (h.preserves sink hv hs hpool trivial fun _ _ _ => trivial).1

end Receiver

namespace Session

variable {queueDepth eventDepth : Nat} {s : Session queueDepth eventDepth}
  {f : Framer queueDepth eventDepth}

/-- What is done next at a session finds its ranges and differences in bounds. -/
structure Bounded (s : Session queueDepth eventDepth) : Prop where
  /-- Every handle that was given back was there. -/
  faultless : s.framer.pool.fault? = none
  queued : ∀ o ∈ s.framer.queue.toList, o.packet.Valid s.framer.pool
  /-- The packet on the channel is as long as it is cut, and the block that comes back has room for
  every blob of it. -/
  sending : ∀ o segments expected, s.framer.transmission = .sending o segments expected →
    o.packet.Valid s.framer.pool ∧ segments.Valid o.packet ∧
      ∃ w, s.station.channel.outstanding = [w] ∧
        Framer.Carries s.framer.pool segments expected w
  receiving : ∀ data r q left,
    s.framer.receiver.Visits (Framer.deliver s.framer.config) s.framer.pool s.framer.reporter data
      r q left →
    r.phase.InBounds q ∧ r.assembled.Valid q ∧ (left ≠ [] → 0 < r.wanted left)
  /-- A packet that got its content type can lose it again. -/
  tagging : ∀ contentType packet tagged q, packet.Valid s.framer.pool →
    packet.handles ≤ (s.station.held : Multiset Block) →
    Framer.tag s.framer.config s.framer.pool contentType packet = .ok (.ok tagged, q) →
    tagged.Valid q ∧ s.framer.config.tagLength ≤ tagged.length

theorem Sound.bounded (hs : s.Sound) : s.Bounded where
  faultless := hs.framer.pool.faultless
  queued o ho := (hs.framer.queue o ho).packet
  sending o segments expected ht := by
    have hvalid := hs.framer.transmission
    rw [hs.ordered_nil, List.append_nil, ht] at hvalid
    obtain ⟨ho, hsegments, -, hwrite⟩ := hvalid
    exact ⟨ho.packet, hsegments, hwrite⟩
  receiving data r q left h := by
    have hvalid := h.valid (Framer.sink s.framer.config) hs.framer.receiver hs.framer.reporter
      hs.framer.forSink
    exact ⟨hvalid.inBounds, hvalid.assembled, Receiver.wanted_pos hvalid⟩
  tagging contentType packet tagged q hpacket hle htag := by
    obtain ⟨others, hothers⟩ := Multiset.le_iff_exists_add.1 hle
    have hpool : s.framer.pool.Sound (packet.handles + (s.framer.handles +
        Framer.lent (s.station.channel.outstanding ++ s.framer.ordered) + others)) :=
      hs.framer.pool.cast (by
        rw [hothers]
        abel)
    obtain ⟨error, q', herror, -⟩ | ⟨tagged', q', hok, htagged⟩ :=
      Framer.tag_spec s.framer.config contentType hpacket hpool
    · cases htag.symm.trans herror
    · cases htag.symm.trans hok
      exact ⟨htagged.valid, htagged.length_eq ▸ Nat.le_add_left _ _⟩

/-- Whatever is sent, however it is chunked and whoever else holds its blocks, and whatever bytes
come in: with a channel that gives back the block of each write, no action meets a fault, gives back
a handle that is not there or leaves the bounds of a buffer. -/
theorem run_start_bounded {config : Framer.Config} {classes : List (Nat × Nat)} {pool : Pool}
    (hpool : Pool.ofClasses classes = .ok pool) (hclasses : ∀ c ∈ classes, 1 ≤ c.1 ∧ c.2 ≤ 255)
    (hf : Framer.ofConfig config pool = .ok f) (actions : List Action) :
    ∃ s, (start f).run actions = .ok s ∧ s.Bounded := by
  obtain ⟨s, hrun, hs, -⟩ :=
    (sound_start (Pool.sound_of_ofClasses hpool hclasses) hf).run_follows actions
  exact ⟨s, hrun, hs.bounded⟩

/-- A packet whose block the application still holds is sent, between a header that promises too
much and a blob that stops short. -/
def hostileActions : List Action :=
  [.enable, .deed (.allocate 6), .deed (.retain ⟨0, 0⟩), .deed (.retain ⟨0, 0⟩),
    .send {} { chunks := [⟨⟨0, 0⟩, 0, 1⟩, ⟨⟨0, 0⟩, 1, 6⟩], length := 6 },
    .receive [0xFF, 0xFF, 0x01], .transactionEnd, .complete (.written 10),
    .complete (.written 8), .receive [0x04, 0x80, 0x01]]

theorem hostileActions_bounded : ∃ s, (start smallFramer).run hostileActions = .ok s ∧ s.Bounded ∧
    s.station.held = [⟨0, 0⟩] ∧ s.framer.receiver.phase = .payload ⟨0, 1⟩ ⟨0x8004⟩ 3 ∧
    3 < Header.blobLength ⟨0x8004⟩ ∧ Header.blobLength ⟨0x8004⟩ ≤ s.framer.pool.capacity ⟨0, 1⟩ ∧
    s.framer.pool.refCount ⟨0, 1⟩ = 1 := by
  have hpool : Pool.ofClasses [(16, 2)] = .ok ⟨#[.fresh 16 2]⟩ := rfl
  have hf : Framer.ofConfig smallFramer.config ⟨#[.fresh 16 2]⟩ = .ok smallFramer := rfl
  obtain ⟨s, hrun, hbounded⟩ := run_start_bounded hpool (by decide) hf hostileActions
  have hvalue : ((start smallFramer).run hostileActions).toOption.map (fun s => decide
      (s.station.held = [⟨0, 0⟩] ∧ s.framer.receiver.phase = .payload ⟨0, 1⟩ ⟨0x8004⟩ 3)) =
      some true := by
    decide +kernel
  rw [hrun] at hvalue
  obtain ⟨hheld, hphase⟩ := of_decide_eq_true (Option.some.inj hvalue)
  have hbounds := (hbounded.receiving [] _ _ _ (.here ..)).1
  rw [hphase] at hbounds
  exact ⟨s, hrun, hbounded, hheld, hphase, hbounds⟩

end Session

end DockLink
