import DockLink.Proofs.Control.Transaction
import DockLink.Proofs.Memory.Contents
import DockLink.Proofs.Memory.Room
import DockLink.Proofs.Wire.Format

/-!
# The decoder follows the transaction

What a decoder has in its phase and its block are the bytes that it heard. Each run of bytes either
adds to them, or settles the result of the transaction as its bytes tell it. The decoder holds one
block at most, and accounts for it.
-/

namespace DockLink

open Transaction

variable {pool q : Pool} {others : Multiset Block}

theorem Command.code_of_ofCode? {code : UInt8} {command : Command}
    (h : Command.ofCode? code = some command) : command.code = code := by
  have hfound := List.find?_some h
  exact of_decide_eq_true hfound

namespace Request

def handles : Request → Multiset Block
  | .sendBlob _ packet => packet.handles
  | _ => 0

def Valid (pool : Pool) : Request → Prop
  | .sendBlob _ packet => packet.Valid pool
  | _ => True

def message (pool : Pool) : Request → Message
  | .version => .version
  | .status request => .status request
  | .interrupt request => .interrupt request
  | .receiveBlob => .receiveBlob
  | .sendBlob contentType packet => .sendBlob contentType (packet.content pool)

theorem Valid.keeps {request : Request} (h : request.Valid pool) (hk : pool.Keeps q others) :
    request.Valid q := by
  cases request with
  | sendBlob contentType packet => exact Packet.Valid.keeps h hk
  | _ => trivial

theorem message_keeps {request : Request} (hk : pool.Keeps q others)
    (hr : ∀ b ∈ request.handles, b ∈ others) : request.message q = request.message pool := by
  cases request with
  | sendBlob contentType packet =>
      exact congrArg (Message.sendBlob contentType) (Packet.content_keeps hk hr)
  | _ => rfl

end Request

namespace Received

def handles : Received → Multiset Block
  | .ok request => request.handles
  | .error _ => 0

def Valid (pool : Pool) : Received → Prop
  | .ok request => request.Valid pool
  | .error _ => True

def notice (pool : Pool) : Received → Notice
  | .ok request => .ok (request.message pool)
  | .error e => .error e

theorem Valid.keeps {result : Received} (h : Valid pool result) (hk : pool.Keeps q others) :
    Valid q result := by
  cases result with
  | ok request => exact Request.Valid.keeps h hk
  | error e => trivial

theorem notice_keeps {result : Received} (hk : pool.Keeps q others)
    (hr : ∀ b ∈ handles result, b ∈ others) : notice q result = notice pool result := by
  cases result with
  | ok request => exact congrArg Except.ok (Request.message_keeps hk hr)
  | error e => rfl

theorem sound_release {result : Received} (h : pool.Sound (handles result + others)) :
    (release pool result).Sound others ∧ pool.Keeps (release pool result) others := by
  cases result with
  | error e => exact ⟨h.cast (zero_add _), Pool.Keeps.refl _ _⟩
  | ok request =>
      cases request with
      | sendBlob contentType packet => exact Packet.sound_release h
      | _ => exact ⟨h.cast (zero_add _), Pool.Keeps.refl _ _⟩

end Received

namespace Decoder

variable {d : Decoder} {run : Bytes}

def Phase.handles : Phase → Multiset Block
  | .payload _ block _ => {block}
  | _ => 0

/-- What is in a phase is not complete yet, and a blob that is coming in has a block of its own. -/
def Phase.Valid (limit : Nat) (pool : Pool) : Phase → Prop
  | .arguments command received =>
    (command = .status ∨ command = .interrupt) ∧ received.length < command.argumentLength
  | .envelope received => received.length < Envelope.byteLength
  | .payload e block transferred =>
    e.length.toNat ≤ limit ∧ Envelope.byteLength ≤ transferred ∧
      transferred < Envelope.byteLength + e.length.toNat ∧
      e.length.toNat ≤ pool.capacity block ∧ pool.refCount block = 1
  | _ => True

/-- The bytes of the transaction so far, unless its result is there. -/
def Phase.heard (pool : Pool) : Phase → Bytes
  | .arguments command received => command.code :: received
  | .envelope received => Command.sendBlob.code :: received
  | .payload e block transferred =>
    Command.sendBlob.code ::
      (e.toBytes ++ (pool.bytes block).take (transferred - Envelope.byteLength))
  | _ => []

def handles (d : Decoder) : Multiset Block := d.phase.handles

def Valid (d : Decoder) (pool : Pool) : Prop := d.phase.Valid d.blobLimit pool

def heard (d : Decoder) (pool : Pool) : Bytes := d.phase.heard pool

theorem Valid.keeps (h : d.Valid pool) (hk : pool.Keeps q (d.handles + others)) : d.Valid q := by
  obtain ⟨limit, phase⟩ := d
  cases phase with
  | payload envelope block transferred =>
      obtain ⟨hlimit, hle, hlt, hcapacity, hone⟩ := h
      have hmem : block ∈ Phase.handles (.payload envelope block transferred) + others :=
        Multiset.mem_add.2 (Or.inl (Multiset.mem_singleton_self _))
      exact ⟨hlimit, hle, hlt, hcapacity.trans_eq (hk.capacity_eq block).symm,
        hk.unshared _ hmem hone⟩
  | _ => exact h

theorem heard_keeps (hk : pool.Keeps q (d.handles + others)) : d.heard q = d.heard pool := by
  obtain ⟨limit, phase⟩ := d
  cases phase with
  | payload envelope block transferred =>
      have hmem : block ∈ Phase.handles (.payload envelope block transferred) + others :=
        Multiset.mem_add.2 (Or.inl (Multiset.mem_singleton_self _))
      show Command.sendBlob.code :: (envelope.toBytes ++ (q.bytes block).take _) = _
      rw [hk.bytes_eq _ hmem]
      rfl
  | _ => rfl

/-- Whether there is a block for the blob of a transaction, when its envelope becomes complete. -/
structure Timely (pool : Pool) (room : Bool) (heard data : Bytes) : Prop where
  before : announced? heard ≠ none → room = true
  within : ∀ n, announced? heard = none → announced? (heard ++ data) = some n →
    (room = true ↔ pool.HasRoom n)

/-- Bytes that come in are added to what was heard, or settle the result. -/
structure Hears (d : Decoder) (pool : Pool) (others : Multiset Block) (data : Bytes) (d' : Decoder)
    (q : Pool) (result : Option Received) : Prop where
  sound : q.Sound (d'.handles + result.elim 0 Received.handles + others)
  keeps : pool.Keeps q others
  valid : d'.Valid q
  limit_eq : d'.blobLimit = d.blobLimit
  goesOn : result = none → d'.phase ≠ .done ∧ d'.heard q = d.heard pool ++ data ∧
    Timely pool true (d.heard pool) data ∧ (announced? (d'.heard q) = none → q = pool)
  settled : ∀ r, result = some r → d'.phase = .done ∧ Received.Valid q r ∧
    ∃ room, Timely pool room (d.heard pool) data ∧
      verdict? d.blobLimit room (d.heard pool ++ data) = some (Received.notice q r)

theorem timely_of_unannounced {room : Bool} {heard data : Bytes}
    (h : announced? (heard ++ data) = none) : Timely pool room heard data where
  before hheard := absurd (announced?_eq_none_of_append h) hheard
  within n _ hdata := by
    rw [h] at hdata
    cases hdata

theorem timely_of_announced {heard data : Bytes} (h : announced? heard ≠ none) :
    Timely pool true heard data where
  before _ := rfl
  within _ hnone := absurd hnone h

theorem Timely.after {room : Bool} {heard data more : Bytes} (h₁ : Timely pool true heard data)
    (h₂ : Timely q room (heard ++ data) more)
    (hpool : announced? (heard ++ data) = none → q = pool) :
    Timely pool room heard (data ++ more) where
  before hheard := h₂.before fun hnone => hheard (announced?_eq_none_of_append hnone)
  within n hheard hall := by
    rw [← List.append_assoc] at hall
    cases hdata : announced? (heard ++ data) with
    | none => exact hpool hdata ▸ h₂.within n hdata hall
    | some m =>
        rw [announced?_append hdata] at hall
        cases hall
        have hroom : room = true := h₂.before (by rw [hdata]; nofun)
        exact iff_of_true hroom ((h₁.within n hheard hdata).1 rfl)

/-! ## The steps of the decoder -/

theorem finish_hears {result : Received} {room : Bool}
    (hs : q.Sound (Received.handles result + others)) (hk : pool.Keeps q others)
    (hvalid : Received.Valid q result)
    (hroom : Timely pool room (d.heard pool) run)
    (hverdict : verdict? d.blobLimit room (d.heard pool ++ run) = some (Received.notice q result)) :
    Hears d pool others run (d.finish q result).1 q (some result) where
  sound := hs.cast (by
    rw [show handles (d.finish q result).1 = 0 from rfl, zero_add]
    rfl)
  keeps := hk
  valid := trivial
  limit_eq := rfl
  goesOn h := by cases h
  settled r hr := by
    obtain rfl := Option.some.inj hr
    exact ⟨rfl, hvalid, room, hroom, hverdict⟩

theorem verdict?_unknown {code : UInt8} (h : Command.ofCode? code = none) (limit : Nat)
    (room : Bool) : verdict? limit room [code] = some (.error (.unknown code)) := by
  have hnone := List.find?_eq_none.1 h
  have hcode : ∀ command ∈ Command.all, command.code ≠ code := fun command hmem heq =>
    hnone command hmem (decide_eq_true heq)
  rw [verdict?]
  · rintro rfl; exact hcode .version (by decide) rfl
  · rintro rfl; exact hcode .status (by decide) rfl
  · rintro rfl; exact hcode .interrupt (by decide) rfl
  · rintro rfl; exact hcode .sendBlob (by decide) rfl
  · rintro rfl; exact hcode .receiveBlob (by decide) rfl

theorem wait_hears {phase : Phase} (hopen : phase ≠ .done) (hs : q.Sound (phase.handles + others))
    (hk : pool.Keeps q others) (hvalid : phase.Valid d.blobLimit q)
    (hheard : phase.heard q = d.heard pool ++ run) (hroom : Timely pool true (d.heard pool) run)
    (hpool : announced? (phase.heard q) = none → q = pool) :
    Hears d pool others run { d with phase } q none where
  sound := hs.cast (congrArg (· + others) (add_zero phase.handles).symm)
  keeps := hk
  valid := hvalid
  limit_eq := rfl
  goesOn _ := ⟨hopen, hheard, hroom, hpool⟩
  settled := nofun

theorem takeCode_hears (hphase : d.phase = .code) (hs : pool.Sound others) (code : UInt8) :
    ∃ d' result, d.takeCode pool code = (d', pool, result) ∧
      Hears d pool others [code] d' pool result := by
  have hheard : d.heard pool = [] := by rw [heard, hphase]; rfl
  have hroom : Timely pool true (d.heard pool) [code] := timely_of_unannounced (by rw [hheard]; rfl)
  have hfinish : ∀ result : Received, Received.handles result = 0 → Received.Valid pool result →
      verdict? d.blobLimit true [code] = some (Received.notice pool result) →
      Hears d pool others [code] (d.finish pool result).1 pool (some result) :=
    fun result hnone hvalid hverdict =>
      finish_hears (hs.cast (by rw [hnone, zero_add])) (Pool.Keeps.refl _ _) hvalid hroom
        (by rwa [hheard])
  have hwait : ∀ phase : Phase, phase ≠ .done → phase.handles = 0 → phase.Valid d.blobLimit pool →
      phase.heard pool = [code] → Hears d pool others [code] { d with phase } pool none :=
    fun phase hopen hnone hvalid hphase' =>
      wait_hears hopen (hs.cast (by rw [hnone, zero_add])) (Pool.Keeps.refl _ _) hvalid
        (by rw [hheard, hphase', List.nil_append]) hroom fun _ => rfl
  unfold takeCode
  cases hcode : Command.ofCode? code with
  | none => exact ⟨_, _, rfl, hfinish _ rfl trivial (verdict?_unknown hcode _ _)⟩
  | some command =>
      obtain rfl := Command.code_of_ofCode? hcode
      cases command with
      | version => exact ⟨_, _, rfl, hfinish _ rfl trivial rfl⟩
      | receiveBlob => exact ⟨_, _, rfl, hfinish _ rfl trivial rfl⟩
      | sendBlob => exact ⟨_, _, rfl, hwait _ nofun rfl (by decide : 0 < 4) rfl⟩
      | status => exact ⟨_, _, rfl, hwait _ nofun rfl ⟨Or.inl rfl, by decide⟩ rfl⟩
      | interrupt => exact ⟨_, _, rfl, hwait _ nofun rfl ⟨Or.inr rfl, by decide⟩ rfl⟩

theorem requestOf_eq (pool : Pool) {command : Command} {arguments : Bytes}
    (hcommand : command = .status ∨ command = .interrupt)
    (hlength : arguments.length = command.argumentLength) :
    ∃ request, requestOf command arguments = .ok request ∧ request.handles = 0 ∧
      request.Valid pool ∧ announced? (command.code :: arguments) = none ∧
      ∀ limit room, verdict? limit room (command.code :: arguments) =
        some (.ok (request.message pool)) := by
  rcases hcommand with rfl | rfl
  · match arguments, hlength with
    | [f₀, f₁, m₀, m₁], _ => exact ⟨_, rfl, rfl, trivial, rfl, fun _ _ => rfl⟩
  · match arguments, hlength with
    | [m₀, m₁], _ => exact ⟨_, rfl, rfl, trivial, rfl, fun _ _ => rfl⟩

theorem announced?_of_short {code : UInt8} {rest : Bytes} (h : rest.length < Envelope.byteLength) :
    announced? (code :: rest) = none := by
  match rest with
  | [] | [_] | [_, _] | [_, _, _] => rfl
  | _ :: _ :: _ :: _ :: _ => exact absurd h (by simp [Envelope.byteLength])

theorem takeArguments_hears {command : Command} {received : Bytes} (hv : d.Valid pool)
    (hphase : d.phase = .arguments command received) (hs : pool.Sound others)
    (hrun : run.length ≤ command.argumentLength - received.length) :
    ∃ d' result, d.takeArguments pool command (received ++ run) = .ok (d', pool, result) ∧
      Hears d pool others run d' pool result := by
  have hheard : d.heard pool = command.code :: received := by rw [heard, hphase]; rfl
  rw [Valid, hphase] at hv
  obtain ⟨hcommand, hshort⟩ := hv
  have hall : (received ++ run).length ≤ command.argumentLength := by
    rw [List.length_append]
    omega
  unfold takeArguments
  split
  · rename_i hlength
    obtain ⟨request, hrequest, hnone, hvalid, hannounced, hverdict⟩ :=
      requestOf_eq pool hcommand hlength
    have hroom : Timely pool true (d.heard pool) run := timely_of_unannounced (by
      rw [hheard]
      exact hannounced)
    refine ⟨(d.finish pool (.ok request)).1, some (.ok request), by rw [hrequest]; rfl,
      finish_hears (hs.cast ?_) (Pool.Keeps.refl _ _) hvalid hroom ?_⟩
    · rw [show Received.handles (.ok request) = request.handles from rfl, hnone, zero_add]
    · rw [hheard]
      exact hverdict _ _
  · rename_i hlength
    have hshort' : (received ++ run).length < command.argumentLength := by omega
    have hannounced : announced? (command.code :: (received ++ run)) = none := by
      refine announced?_of_short (hshort'.trans_le ?_)
      rcases hcommand with rfl | rfl
      · decide
      · decide
    refine ⟨_, none, rfl, wait_hears nofun (hs.cast (zero_add _).symm) (Pool.Keeps.refl _ _)
      ⟨hcommand, hshort'⟩ ?_ (timely_of_unannounced ?_) fun _ => rfl⟩
    · rw [hheard]
      rfl
    · rw [hheard]
      exact hannounced

section Envelope

variable {received : Bytes} {t₀ t₁ l₀ l₁ : UInt8}

def envelopeOf (t₀ t₁ l₀ l₁ : UInt8) : Envelope :=
  { contentType := ⟨Bytes.word16 t₀ t₁⟩, length := Bytes.word16 l₀ l₁ }

theorem toBytes_envelopeOf (t₀ t₁ l₀ l₁ : UInt8) :
    (envelopeOf t₀ t₁ l₀ l₁).toBytes = [t₀, t₁, l₀, l₁] := by
  rw [envelopeOf, Envelope.toBytes, Bytes.ofWord16_word16, Bytes.ofWord16_word16]
  rfl

theorem timely_of_envelope {heard : Bytes} (hnone : announced? heard = none)
    (hbytes : heard ++ run = Command.sendBlob.code :: [t₀, t₁, l₀, l₁]) {room : Bool}
    (hroom : room = true ↔ pool.HasRoom (envelopeOf t₀ t₁ l₀ l₁).length.toNat) :
    Timely pool room heard run where
  before hheard := absurd hnone hheard
  within n _ hn := by
    rw [hbytes] at hn
    exact Option.some.inj hn ▸ hroom

theorem refuse_hears {result : Received} (hs : pool.Sound others)
    (hnone : announced? (d.heard pool) = none)
    (hbytes : d.heard pool ++ run = Command.sendBlob.code :: [t₀, t₁, l₀, l₁])
    (hunheld : Received.handles result = 0) (hvalid : Received.Valid pool result)
    (hverdict : ∀ room : Bool, (room = true → pool.HasRoom (envelopeOf t₀ t₁ l₀ l₁).length.toNat) →
      blobVerdict? d.blobLimit room [t₀, t₁, l₀, l₁] = some (Received.notice pool result)) :
    Hears d pool others run (d.finish pool result).1 pool (some result) := by
  have hroom : decide (pool.HasRoom (envelopeOf t₀ t₁ l₀ l₁).length.toNat) = true ↔ _ :=
    decide_eq_true_iff
  refine finish_hears (hs.cast (by rw [hunheld, zero_add])) (Pool.Keeps.refl _ _) hvalid
    (timely_of_envelope hnone hbytes hroom) ?_
  rw [hbytes]
  exact hverdict _ hroom.1

theorem await_hears {block : Block} (hs : pool.Sound others)
    (hnone : announced? (d.heard pool) = none)
    (hbytes : d.heard pool ++ run = Command.sendBlob.code :: [t₀, t₁, l₀, l₁])
    (hlimit : (envelopeOf t₀ t₁ l₀ l₁).length.toNat ≤ d.blobLimit)
    (hpos : 0 < (envelopeOf t₀ t₁ l₀ l₁).length.toNat)
    (hallocate : pool.allocate (envelopeOf t₀ t₁ l₀ l₁).length.toNat = .ok (block, q)) :
    Hears d pool others run
      { d with phase := .payload (envelopeOf t₀ t₁ l₀ l₁) block Envelope.byteLength } q none := by
  obtain ⟨hnot, hsound, hkeeps, hcapacity⟩ := hs.allocate hallocate
  have hroom : pool.HasRoom (envelopeOf t₀ t₁ l₀ l₁).length.toNat :=
    (hs.allocate_isOk_iff _).1 ⟨block, q, hallocate⟩
  have hheard : Phase.heard q (.payload (envelopeOf t₀ t₁ l₀ l₁) block Envelope.byteLength) =
      d.heard pool ++ run := by
    rw [Phase.heard, Nat.sub_self, List.take_zero, List.append_nil, toBytes_envelopeOf, hbytes]
  refine wait_hears nofun (hsound.cast (Multiset.singleton_add _ _).symm) hkeeps
    ⟨hlimit, Nat.le_refl _, Nat.lt_add_of_pos_right hpos, hcapacity, hsound.unshared_iff.2 hnot⟩
    hheard (timely_of_envelope hnone hbytes (iff_of_true rfl hroom)) fun hunannounced => ?_
  rw [hheard, hbytes] at hunannounced
  cases hunannounced

theorem startPayload_hears (hs : pool.Sound others) (hnone : announced? (d.heard pool) = none)
    (hbytes : d.heard pool ++ run = Command.sendBlob.code :: [t₀, t₁, l₀, l₁]) :
    ∃ d' q result, d.startPayload pool (envelopeOf t₀ t₁ l₀ l₁) = (d', q, result) ∧
      Hears d pool others run d' q result := by
  unfold startPayload
  split
  · rename_i hlong
    refine ⟨_, pool, _, rfl, refuse_hears hs hnone hbytes rfl trivial fun room _ => ?_⟩
    exact if_pos hlong
  · rename_i hlong
    split
    · rename_i hempty
      have hzero : (Bytes.word16 l₀ l₁).toNat = 0 := congrArg UInt16.toNat hempty
      refine ⟨_, pool, _, rfl,
        refuse_hears hs hnone hbytes rfl (Packet.Valid.empty pool) fun room _ => ?_⟩
      simp only [blobVerdict?, hzero]
      rfl
    · rename_i hsome
      have hpos : (Bytes.word16 l₀ l₁).toNat ≠ 0 := fun hzero => hsome (UInt16.toNat_inj.1 hzero)
      split
      · rename_i e hallocate
        refine ⟨_, pool, _, rfl, refuse_hears hs hnone hbytes rfl trivial fun room hroom => ?_⟩
        have hfull : room = false := Bool.eq_false_iff.2 fun htrue => by
          obtain ⟨b, q, hok⟩ := (hs.allocate_isOk_iff _).2 (hroom htrue)
          cases hallocate.symm.trans hok
        exact (if_neg hlong).trans (if_pos ⟨hpos, hfull⟩)
      · rename_i block q hallocate
        exact ⟨_, q, none, rfl, await_hears hs hnone hbytes (Nat.not_lt.1 hlong)
          (Nat.pos_iff_ne_zero.2 hpos) hallocate⟩

end Envelope

theorem takeEnvelope_hears {received : Bytes} (hv : d.Valid pool)
    (hphase : d.phase = .envelope received) (hs : pool.Sound others)
    (hrun : run.length ≤ Envelope.byteLength - received.length) :
    ∃ d' q result, d.takeEnvelope pool (received ++ run) = .ok (d', q, result) ∧
      Hears d pool others run d' q result := by
  have hheard : d.heard pool = Command.sendBlob.code :: received := by rw [heard, hphase]; rfl
  rw [Valid, hphase] at hv
  have hshort : received.length < Envelope.byteLength := hv
  unfold takeEnvelope
  split
  · rename_i hlength
    match henvelope : received ++ run, hlength with
    | [t₀, t₁, l₀, l₁], _ =>
        have hnone : announced? (d.heard pool) = none := hheard ▸ announced?_of_short hshort
        have hbytes : d.heard pool ++ run = Command.sendBlob.code :: [t₀, t₁, l₀, l₁] := by
          rw [hheard, List.cons_append, henvelope]
        obtain ⟨d', q, result, hstart, hhears⟩ := startPayload_hears hs hnone hbytes
        exact ⟨d', q, result, congrArg Except.ok hstart, hhears⟩
  · rename_i hlength
    have hshort' : (received ++ run).length < Envelope.byteLength := by
      rw [List.length_append] at hlength ⊢
      omega
    refine ⟨_, pool, none, rfl, wait_hears nofun (hs.cast (zero_add _).symm) (Pool.Keeps.refl _ _)
      hshort' ?_ (timely_of_unannounced ?_) fun _ => rfl⟩
    · rw [hheard]
      rfl
    · rw [hheard]
      exact announced?_of_short hshort'

/-! ## The blob -/

theorem blobVerdict?_toBytes (limit : Nat) (room : Bool) (e : Envelope) (body : Bytes) :
    blobVerdict? limit room (e.toBytes ++ body) =
      if e.length.toNat > limit then some (.error .blobTooLong)
      else if e.length.toNat ≠ 0 ∧ room = false then some (.error .outOfMemory)
      else if body.length < e.length.toNat then none
      else some (.ok (.sendBlob e.contentType (body.take e.length.toNat))) := by
  simp only [Envelope.toBytes, Bytes.ofWord16, List.cons_append, List.nil_append, blobVerdict?,
    Bytes.word16_ofWord16]

theorem announced?_toBytes (e : Envelope) (body : Bytes) :
    announced? (Command.sendBlob.code :: (e.toBytes ++ body)) = some e.length.toNat := by
  simp only [Envelope.toBytes, Bytes.ofWord16, List.cons_append, List.nil_append, announced?,
    Bytes.word16_ofWord16, if_pos]

/-- A blob whose bytes are all in its block. -/
theorem finishBlob_hears {e : Envelope} {block : Block} {content : Bytes}
    (hs : q.Sound (block ::ₘ others)) (hk : pool.Keeps q others) (hpos : 0 < e.length.toNat)
    (hcapacity : e.length.toNat ≤ q.capacity block) (hlimit : e.length.toNat ≤ d.blobLimit)
    (hcontent : (q.bytes block).take e.length.toNat = content)
    (hheard : d.heard pool ++ run = Command.sendBlob.code :: (e.toBytes ++ content))
    (hroom : Timely pool true (d.heard pool) run) :
    ∃ packet, Chunk.of q block 0 e.length.toNat = .ok ⟨block, 0, e.length.toNat⟩ ∧
      Packet.ofChunk q ⟨block, 0, e.length.toNat⟩ = (packet, q) ∧
      Hears d pool others run (d.finish q (.ok (.sendBlob e.contentType packet))).1 q
        (some (.ok (.sendBlob e.contentType packet))) := by
  have hchunk : Chunk.Valid q ⟨block, 0, e.length.toNat⟩ := ⟨hpos, hcapacity⟩
  obtain ⟨packet, hpacket, hvalid, hhandles, hbytes⟩ := Packet.Valid.ofChunk hchunk
  have hpacketContent : packet.content q = content := by
    rw [hbytes, Chunk.bytes_eq, List.drop_zero]
    exact hcontent
  have hlength : content.length = e.length.toNat := by
    rw [← hcontent, List.length_take, Pool.length_bytes]
    exact Nat.min_eq_left hcapacity
  refine ⟨packet, if_pos ⟨Nat.zero_le _, hcapacity⟩, hpacket,
    finish_hears (hs.cast ?_) hk hvalid hroom ?_⟩
  · rw [show Received.handles (.ok (.sendBlob e.contentType packet)) = packet.handles from rfl,
      hhandles, Multiset.singleton_add]
  · rw [hheard, verdict?_sendBlob, blobVerdict?_toBytes, if_neg (Nat.not_lt.2 hlimit),
      if_neg (fun h => by cases h.2), if_neg (Nat.not_lt.2 (Nat.le_of_eq hlength.symm)),
      List.take_of_length_le (Nat.le_of_eq hlength), ← hpacketContent]
    rfl

theorem takePayload_hears {e : Envelope} {block : Block} {transferred : Nat} (hv : d.Valid pool)
    (hphase : d.phase = .payload e block transferred) (hs : pool.Sound (block ::ₘ others))
    (hrun : run.length ≤ Envelope.byteLength + e.length.toNat - transferred) :
    ∃ d' q result, d.takePayload pool e block transferred run = .ok (d', q, result) ∧
      Hears d pool others run d' q result := by
  let body := (pool.bytes block).take (transferred - Envelope.byteLength)
  have hheard : d.heard pool = Command.sendBlob.code :: (e.toBytes ++ body) := by
    rw [heard, hphase]
    rfl
  have hbytes : d.heard pool ++ run = Command.sendBlob.code :: (e.toBytes ++ (body ++ run)) := by
    rw [hheard, List.cons_append, List.append_assoc]
  have hroom : Timely pool true (d.heard pool) run := timely_of_announced (by
    rw [hheard, announced?_toBytes]
    nofun)
  rw [Valid, hphase] at hv
  obtain ⟨hlimit, hle, hlt, hcapacity, hone⟩ := hv
  have hbody : body.length = transferred - Envelope.byteLength := by
    rw [List.length_take, Pool.length_bytes]
    omega
  have hfits : transferred - Envelope.byteLength + run.length ≤ pool.capacity block := by omega
  obtain ⟨q, hwrite, hsound, hkeeps, hfilled⟩ := hs.write (hs.unshared_iff.1 hone) hfits
  -- The block begins with the bytes before and the new ones.
  have hfilled' : (q.bytes block).take (transferred + run.length - Envelope.byteLength) =
      body ++ run := by
    rw [hfilled, List.take_append_of_le_length (by rw [List.length_append, hbody]; omega),
      List.take_of_length_le (by rw [List.length_append, hbody]; omega)]
  have hcapacity' : e.length.toNat ≤ q.capacity block :=
    hcapacity.trans_eq (hkeeps.capacity_eq block).symm
  by_cases hcomplete : transferred + run.length = Envelope.byteLength + e.length.toNat
  · rw [hcomplete, Nat.add_sub_cancel_left] at hfilled'
    obtain ⟨packet, hof, hpacket, hhears⟩ :=
      finishBlob_hears hsound hkeeps (by omega) hcapacity' hlimit hfilled' hbytes hroom
    refine ⟨_, q, some (.ok (.sendBlob e.contentType packet)), ?_, hhears⟩
    simp only [takePayload, hwrite, bind, Except.bind, Envelope.isComplete, hcomplete, decide_true,
      if_true, hof, hpacket]
    rfl
  · refine ⟨{ d with phase := .payload e block (transferred + run.length) }, q, none, ?_,
      wait_hears nofun (hsound.cast (Multiset.singleton_add _ _).symm) hkeeps
        ⟨hlimit, by omega, by omega, hcapacity', hsound.unshared_iff.2 (hs.unshared_iff.1 hone)⟩ ?_
        hroom fun hunannounced => ?_⟩
    · simp only [takePayload, hwrite, bind, Except.bind, Envelope.isComplete, hcomplete,
        decide_false]
      rfl
    · rw [hbytes, Phase.heard, hfilled']
    · rw [Phase.heard, announced?_toBytes] at hunannounced
      cases hunannounced

/-! ## Any bytes -/

theorem wanted_pos (hv : d.Valid pool) (hopen : d.phase ≠ .done) : 0 < d.wanted := by
  rw [Valid] at hv
  unfold wanted
  split
  · exact Nat.one_pos
  · rename_i command received hphase
    rw [hphase] at hv
    exact Nat.sub_pos_of_lt hv.2
  · rename_i received hphase
    rw [hphase] at hv
    exact Nat.sub_pos_of_lt hv
  · rename_i e block transferred hphase
    rw [hphase] at hv
    exact Nat.sub_pos_of_lt hv.2.2.1
  · rename_i hphase
    exact absurd hphase hopen

theorem take_hears (hv : d.Valid pool) (hopen : d.phase ≠ .done)
    (hs : pool.Sound (d.handles + others)) (hpos : run ≠ []) (hrun : run.length ≤ d.wanted) :
    ∃ d' q result, d.take pool run = .ok (d', q, result) ∧ Hears d pool others run d' q result := by
  rw [handles] at hs
  unfold take wanted at *
  cases hphase : d.phase with
  | code =>
      rw [hphase] at hs hrun
      match run, hpos with
      | [b], _ =>
          obtain ⟨d', result, htake, hhears⟩ :=
            takeCode_hears hphase (hs.cast (zero_add _)) b
          exact ⟨d', pool, result, congrArg Except.ok htake, hhears⟩
      | _ :: _ :: _, _ => exact absurd hrun (by simp)
  | arguments command received =>
      rw [hphase] at hs hrun
      obtain ⟨d', result, htake, hhears⟩ :=
        takeArguments_hears hv hphase (hs.cast (zero_add _)) hrun
      exact ⟨d', pool, result, htake, hhears⟩
  | envelope received =>
      rw [hphase] at hs hrun
      exact takeEnvelope_hears hv hphase (hs.cast (zero_add _)) hrun
  | payload e block transferred =>
      rw [hphase] at hs hrun
      exact takePayload_hears hv hphase (hs.cast (Multiset.singleton_add _ _)) hrun
  | done => exact absurd hphase hopen

theorem Hears.nil (hv : d.Valid pool) (hopen : d.phase ≠ .done)
    (hs : pool.Sound (d.handles + others)) : Hears d pool others [] d pool none where
  sound := hs.cast (congrArg (· + others) (add_zero d.handles).symm)
  keeps := Pool.Keeps.refl _ _
  valid := hv
  limit_eq := rfl
  goesOn _ := ⟨hopen, (List.append_nil _).symm, ⟨fun _ => rfl, fun n hnone hsome => by
    rw [List.append_nil, hnone] at hsome
    cases hsome⟩, fun _ => rfl⟩
  settled := nofun

theorem Hears.after {d₁ d₂ : Decoder} {q₁ q₂ : Pool} {more : Bytes} {result : Option Received}
    (h₁ : Hears d pool others run d₁ q₁ none) (h₂ : Hears d₁ q₁ others more d₂ q₂ result) :
    Hears d pool others (run ++ more) d₂ q₂ result := by
  obtain ⟨-, hheard₁, hroom₁, hpool₁⟩ := h₁.goesOn rfl
  have hroom : ∀ room, Timely q₁ room (d₁.heard q₁) more →
      Timely pool room (d.heard pool) (run ++ more) := fun room hroom =>
    hroom₁.after (hheard₁ ▸ hroom) (hheard₁ ▸ hpool₁)
  exact {
    sound := h₂.sound
    keeps := h₁.keeps.trans h₂.keeps
    valid := h₂.valid
    limit_eq := h₂.limit_eq.trans h₁.limit_eq
    goesOn := fun hnone => by
      obtain ⟨hopen₂, hheard₂, hroom₂, hpool₂⟩ := h₂.goesOn hnone
      refine ⟨hopen₂, by rw [hheard₂, hheard₁, List.append_assoc], hroom true hroom₂, fun hq => ?_⟩
      have hq₁ : announced? (d₁.heard q₁) = none := announced?_eq_none_of_append (hheard₂ ▸ hq)
      exact (hpool₂ hq).trans (hpool₁ hq₁)
    settled := fun r hr => by
      obtain ⟨hdone, hvalid, room, hroom₂, hverdict⟩ := h₂.settled r hr
      rw [hheard₁, h₁.limit_eq, List.append_assoc] at hverdict
      exact ⟨hdone, hvalid, room, hroom room hroom₂, hverdict⟩ }

theorem Hears.ignore {d' : Decoder} {r : Received} (h : Hears d pool others run d' q (some r))
    (more : Bytes) : Hears d pool others (run ++ more) d' q (some r) where
  sound := h.sound
  keeps := h.keeps
  valid := h.valid
  limit_eq := h.limit_eq
  goesOn := nofun
  settled r' hr' := by
    obtain ⟨hdone, hvalid, room, hroom, hverdict⟩ := h.settled r' hr'
    refine ⟨hdone, hvalid, room, ⟨hroom.before, fun n hnone hn => ?_⟩, ?_⟩
    · rw [← List.append_assoc, announced?_of_verdict? hverdict] at hn
      exact hroom.within n hnone hn
    · rw [← List.append_assoc]
      exact verdict?_append hverdict more

theorem pushRuns_hears (n : Nat) {data : Bytes} (hn : data.length ≤ n) {d : Decoder} {pool : Pool}
    (hv : d.Valid pool) (hopen : d.phase ≠ .done) (hs : pool.Sound (d.handles + others)) :
    ∃ d' q result, pushRuns n d pool data = .ok (d', q, result) ∧
      Hears d pool others data d' q result := by
  -- Each run takes a byte at least, so that `n` runs take all of them.
  induction n generalizing data d pool with
  | zero =>
      obtain rfl := List.length_eq_zero_iff.1 (Nat.le_zero.1 hn)
      exact ⟨d, pool, none, rfl, Hears.nil hv hopen hs⟩
  | succ n ih =>
      by_cases hempty : data = []
      · subst hempty
        exact ⟨d, pool, none, rfl, Hears.nil hv hopen hs⟩
      · have hwanted := wanted_pos hv hopen
        have hpos := List.length_pos_iff.2 hempty
        have hrun : data.take d.wanted ≠ [] :=
          List.length_pos_iff.1 (by rw [List.length_take]; omega)
        obtain ⟨d₁, q₁, result, htake, hhears⟩ :=
          take_hears hv hopen hs hrun (List.length_take_le _ _)
        have hgo : ¬(data.isEmpty = true ∨ d.phase = .done) := by
          rw [List.isEmpty_iff]
          exact not_or.2 ⟨hempty, hopen⟩
        cases result with
        | some r =>
            refine ⟨d₁, q₁, some r, ?_, ?_⟩
            · rw [pushRuns, if_neg hgo, htake]
              rfl
            · rw [← List.take_append_drop d.wanted data]
              exact hhears.ignore _
        | none =>
            obtain ⟨hopen₁, -⟩ := hhears.goesOn rfl
            have hs₁ : q₁.Sound (d₁.handles + others) :=
              hhears.sound.cast (congrArg (· + others) (add_zero _))
            have hdrop : (data.drop d.wanted).length ≤ n := by
              rw [List.length_drop]
              omega
            obtain ⟨d₂, q₂, result, hpush, hhears₂⟩ := ih hdrop hhears.valid hopen₁ hs₁
            refine ⟨d₂, q₂, result, ?_, ?_⟩
            · rw [pushRuns, if_neg hgo, htake]
              exact hpush
            · rw [← List.take_append_drop d.wanted data]
              exact hhears.after hhears₂

/-- However bytes come in, the decoder adds them to what it heard, or has the result that the bytes
settle. -/
theorem push_hears (hv : d.Valid pool) (hopen : d.phase ≠ .done)
    (hs : pool.Sound (d.handles + others)) (data : Bytes) :
    ∃ d' q result, d.push pool data = .ok (d', q, result) ∧
      Hears d pool others data d' q result :=
  pushRuns_hears data.length (Nat.le_refl _) hv hopen hs

theorem push_of_done (hdone : d.phase = .done) (pool : Pool) (data : Bytes) :
    d.push pool data = .ok (d, pool, none) := by
  unfold push
  cases data with
  | nil => rfl
  | cons b rest =>
      rw [List.length_cons, pushRuns, if_pos (Or.inr hdone)]

/-! ## The end of a transaction -/

/-- The end gives the block back, and reports the command that it cuts. -/
theorem transactionEnd_spec (hv : d.Valid pool) (hs : pool.Sound (d.handles + others)) :
    ∃ error q, d.transactionEnd pool = (error, { d with phase := .code }, q) ∧ q.Sound others ∧
      pool.Keeps q others ∧
      error.map Except.error = if d.phase = .done then none else cutNotice? (d.heard pool) := by
  rw [handles] at hs
  rw [Valid] at hv
  unfold transactionEnd cut? releaseBlob heard
  cases hphase : d.phase with
  | code =>
      rw [hphase] at hs
      exact ⟨_, pool, rfl, hs.cast (zero_add _), Pool.Keeps.refl _ _, rfl⟩
  | arguments command received =>
      rw [hphase] at hs hv
      refine ⟨_, pool, rfl, hs.cast (zero_add _), Pool.Keeps.refl _ _, ?_⟩
      rcases hv.1 with rfl | rfl
      · rfl
      · rfl
  | envelope received =>
      rw [hphase] at hs
      exact ⟨_, pool, rfl, hs.cast (zero_add _), Pool.Keeps.refl _ _, rfl⟩
  | payload e block transferred =>
      rw [hphase] at hs
      obtain ⟨hsound, hkeeps⟩ := (hs.cast (Multiset.singleton_add _ _)).release
      exact ⟨_, _, rfl, hsound, hkeeps, rfl⟩
  | done =>
      rw [hphase] at hs
      exact ⟨_, pool, rfl, hs.cast (zero_add _), Pool.Keeps.refl _ _, rfl⟩

/-- Nothing is settled while the decoder waits. -/
theorem verdict?_heard (hv : d.Valid pool) : verdict? d.blobLimit true (d.heard pool) = none := by
  rw [Valid] at hv
  rw [heard]
  cases hphase : d.phase with
  | code => rfl
  | done => rfl
  | arguments command received =>
      rw [hphase] at hv
      obtain ⟨rfl | rfl, hshort⟩ := hv
      · match received, hshort with
        | [], _ => rfl
        | [_], _ => rfl
        | [_, _], _ => rfl
        | [_, _, _], _ => rfl
        | _ :: _ :: _ :: _ :: _, h => exact absurd h (by simp [Command.argumentLength])
      · match received, hshort with
        | [], _ => rfl
        | [_], _ => rfl
        | _ :: _ :: _, h => exact absurd h (by simp [Command.argumentLength])
  | envelope received =>
      rw [hphase] at hv
      match received, hv with
      | [], _ => rfl
      | [_], _ => rfl
      | [_, _], _ => rfl
      | [_, _, _], _ => rfl
      | _ :: _ :: _ :: _ :: _, h => exact absurd h (by simp [Phase.Valid, Envelope.byteLength])
  | payload e block transferred =>
      rw [hphase] at hv
      obtain ⟨hlimit, hle, hlt, hcapacity, -⟩ := hv
      rw [Phase.heard, verdict?_sendBlob, blobVerdict?_toBytes, if_neg (Nat.not_lt.2 hlimit),
        if_neg (fun h => by cases h.2), if_pos]
      rw [List.length_take, Pool.length_bytes]
      omega

end Decoder

end DockLink
