import DockLink.Proofs.Transfer.Losses
import DockLink.Proofs.Transfer.Unpacking

/-!
# Reading what a channel leaves of packets

A lost blob ends its transaction. If the packet had blobs before it, they have come in, and the end
of a transaction between two blobs does not drop them, so they stand at the front of the packet that
comes next. A packet that is read is therefore a whole one behind such beginnings, in the order in
which the packets were accepted, unless the limits put an end to it.
-/

namespace DockLink

/-- What a channel tells a receiver. -/
inductive Signal where
  | byte (b : UInt8)
  | transactionEnd
deriving DecidableEq

namespace Losses

variable {lost : Losses} {number : Nat}

/-- What the receiver is told of blobs, of which the first has the given number. -/
def signals (lost : Losses) : Nat → List Bytes → List Signal
  | _, [] => []
  | number, blob :: rest =>
    (if lost number then [.transactionEnd] else blob.map .byte) ++ signals lost (number + 1) rest

theorem signals_append (lost : Losses) (number : Nat) (blobs₁ blobs₂ : List Bytes) :
    lost.signals number (blobs₁ ++ blobs₂) =
      lost.signals number blobs₁ ++ lost.signals (number + blobs₁.length) blobs₂ := by
  induction blobs₁ generalizing number with
  | nil => rfl
  | cons blob rest ih =>
      rw [List.cons_append, signals, signals, ih, List.append_assoc, List.length_cons,
        Nat.add_right_comm]
      rfl

theorem signals_take {k : Nat} {blobs : List Bytes} (hk : k ≤ lost.arrivals number blobs.length) :
    lost.signals number (blobs.take k) = (blobs.take k).flatten.map .byte := by
  induction blobs generalizing number k with
  | nil =>
      rw [List.take_nil]
      rfl
  | cons blob rest ih =>
      cases k with
      | zero => rfl
      | succ k =>
          rw [List.length_cons, arrivals] at hk
          cases hlost : lost number with
          | true =>
              rw [hlost, if_pos rfl] at hk
              omega
          | false =>
              rw [hlost, if_neg Bool.false_ne_true] at hk
              rw [List.take_succ_cons, signals, hlost, if_neg Bool.false_ne_true,
                ih (Nat.le_of_succ_le_succ hk), List.flatten_cons, List.map_append]

/-- What is told of a packet ends with its first blob that is lost. -/
theorem signals_through (lost : Losses) (number : Nat) (blobs : List Bytes) :
    lost.signals number (lost.through number blobs) =
      (blobs.take (lost.arrivals number blobs.length)).flatten.map .byte ++
        if lost.arrivals number blobs.length < blobs.length then [.transactionEnd] else [] := by
  induction blobs generalizing number with
  | nil => rfl
  | cons blob rest ih =>
      rw [through_cons, signals, List.length_cons, arrivals]
      cases hlost : lost number with
      | true => rfl
      | false =>
          rw [if_neg Bool.false_ne_true, if_neg Bool.false_ne_true, if_neg Bool.false_ne_true, ih,
            List.take_succ_cons, List.flatten_cons, List.map_append, List.append_assoc]
          simp only [Nat.add_lt_add_iff_right]

end Losses

namespace Decoder

variable {limits : Limits} {s : State} {p : Partial}

/-- The packets among what is read. -/
def Seen.content? : Seen → Option Bytes
  | .packet content => some content
  | _ => none

def packets (seen : List Seen) : List Bytes := seen.filterMap Seen.content?

theorem packets_append (seen₁ seen₂ : List Seen) :
    packets (seen₁ ++ seen₂) = packets seen₁ ++ packets seen₂ := List.filterMap_append

/-! ## Listening -/

/-- What a reader makes of a signal. -/
def State.hear (limits : Limits) (s : State) : Signal → List Seen × State
  | .byte b => s.push limits [b]
  | .transactionEnd => (s.finish.1, .expect s.finish.2 [])

def State.listen (limits : Limits) : State → List Signal → List Seen × State
  | s, [] => ([], s)
  | s, signal :: rest =>
    ((s.hear limits signal).1 ++ ((s.hear limits signal).2.listen limits rest).1,
      ((s.hear limits signal).2.listen limits rest).2)

namespace State

theorem listen_append (s : State) (signals₁ signals₂ : List Signal) :
    s.listen limits (signals₁ ++ signals₂) =
      ((s.listen limits signals₁).1 ++ ((s.listen limits signals₁).2.listen limits signals₂).1,
        ((s.listen limits signals₁).2.listen limits signals₂).2) := by
  induction signals₁ generalizing s with
  | nil => rfl
  | cons signal rest ih =>
      rw [List.cons_append, listen, listen, ih, List.append_assoc]

/-- Nothing is left to be read. -/
def Settled (limits : Limits) (s : State) : Prop := s.push limits [] = ([], s)

theorem settled_push (s : State) (data : Bytes) : (s.push limits data).2.Settled limits := by
  have h : s.push limits (data ++ []) = _ := push_append s data []
  rw [List.append_nil] at h
  obtain ⟨hseen, hstate⟩ := Prod.mk.inj h
  have hnil : ((s.push limits data).2.push limits []).1 = [] :=
    List.append_right_eq_self.1 hseen.symm
  exact Prod.ext hnil hstate.symm

theorem settled_expect (p : Partial) : (State.expect p []).Settled limits := scan_nil p

theorem settled_listen (hs : s.Settled limits) (signals : List Signal) :
    (s.listen limits signals).2.Settled limits := by
  induction signals generalizing s with
  | nil => exact hs
  | cons signal rest ih =>
      cases signal with
      | byte b => exact ih (settled_push s [b])
      | transactionEnd => exact ih (settled_expect s.finish.2)

theorem listen_bytes (hs : s.Settled limits) (data : Bytes) :
    s.listen limits (data.map .byte) = s.push limits data := by
  induction data generalizing s with
  | nil => exact hs.symm
  | cons b rest ih =>
      have h : s.push limits ([b] ++ rest) = _ := push_append s [b] rest
      rw [List.map_cons, listen, hear, ih (settled_push s [b])]
      exact h.symm

end State

/-! ## The front of a packet -/

theorem Partial.content_add {whole : Partial} {payload : Bytes}
    (h : p.add limits payload = some whole) : whole.content = p.content ++ payload := by
  unfold add at h
  split at h
  · cases h
  · split at h
    · rename_i hempty
      rw [List.isEmpty_iff.1 hempty, List.append_nil]
      cases h
      rfl
    · split at h
      · cases h
        rfl
      · cases h

/-- A reading that gives packets and keeps the content of a part of one, or faults without a packet.
-/
def Gives (contents : List Bytes) (content : Bytes) (r : List Seen × State) : Prop :=
  packets r.1 = [] ∧ r.2 = .discard ∨
    ∃ p, packets r.1 = contents ∧ r.2 = .expect p [] ∧ p.content = content

theorem gives_encode {payload : Bytes} (more : Bool) (hm : limits.maxPayload ≤ Header.maxPayload)
    (hle : payload.length ≤ limits.maxPayload) (hmore : more = true → payload ≠ []) :
    Gives (if more then [] else [p.content ++ payload]) (if more then p.content ++ payload else [])
      (scan limits p (Blob.encode payload more)) := by
  rw [scan_encode hm hle hmore, accept]
  cases hadd : p.add limits payload with
  | none => exact Or.inl ⟨rfl, rfl⟩
  | some whole =>
      have hwhole := Partial.content_add hadd
      cases more with
      | true => exact Or.inr ⟨whole, rfl, rfl, hwhole⟩
      | false => exact Or.inr ⟨{}, congrArg (fun content => [content]) hwhole, rfl, rfl⟩

theorem Gives.append {a b content content' : Bytes} {contents : List Bytes}
    (h : Gives [] content (scan limits p a))
    (hrest : ∀ p₁ : Partial, p₁.content = content → Gives contents content' (scan limits p₁ b)) :
    Gives contents content' (scan limits p (a ++ b)) := by
  rw [scan_append]
  rcases h with ⟨hnone, hdiscard⟩ | ⟨p₁, hnone, hexpect, hcontent⟩
  · rw [hdiscard]
    refine Or.inl ⟨?_, rfl⟩
    rw [packets_append, hnone]
    rfl
  · have hb := hrest p₁ hcontent
    rw [hexpect]
    show Gives _ _ (_ ++ (scan limits p₁ ([] ++ b)).1, (scan limits p₁ ([] ++ b)).2)
    rw [List.nil_append, Gives, packets_append, hnone]
    exact hb

theorem gives_take (hm : limits.maxPayload ≤ Header.maxPayload) (hpos : 0 < limits.maxPayload)
    (k : Nat) {stream : Bytes} (hk : k ≤ (Blob.cut limits.maxPayload stream).length) :
    Gives (if k < (Blob.cut limits.maxPayload stream).length then [] else [p.content ++ stream])
      (if k < (Blob.cut limits.maxPayload stream).length then
        p.content ++ stream.take (k * limits.maxPayload) else [])
      (scan limits p ((Blob.cut limits.maxPayload stream).take k).flatten) := by
  induction k generalizing p stream with
  | zero =>
      have hcount : 0 < (Blob.cut limits.maxPayload stream).length :=
        List.length_pos_of_ne_nil (Blob.cut_ne_nil _ _)
      rw [if_pos hcount, if_pos hcount, Nat.zero_mul, List.take_zero, List.take_zero,
        List.append_nil, List.flatten_nil, scan_nil]
      exact Or.inr ⟨p, rfl, rfl, rfl⟩
  | succ k ih =>
      by_cases hle : stream.length ≤ limits.maxPayload
      · rw [Blob.cut_of_le hle] at hk ⊢
        obtain rfl : k = 0 := by
          rw [List.length_singleton] at hk
          omega
        have hlast := gives_encode (p := p) false hm hle nofun
        simpa using hlast
      · have hgt : limits.maxPayload < stream.length := Nat.not_le.1 hle
        have htake : (stream.take limits.maxPayload).length = limits.maxPayload := by
          rw [List.length_take]
          omega
        have hfront : stream.take limits.maxPayload ≠ [] := by
          intro hnil
          rw [hnil, List.length_nil] at htake
          omega
        have hfirst := gives_encode (p := p) true hm (Nat.le_of_eq htake) fun _ => hfront
        rw [Blob.cut_of_gt hpos hgt, List.length_cons] at hk ⊢
        rw [List.take_succ_cons, List.flatten_cons]
        refine hfirst.append fun p₁ hp₁ => ?_
        have hrest := ih (p := p₁) (Nat.le_of_succ_le_succ hk)
        rw [if_pos rfl] at hp₁
        rw [hp₁, List.append_assoc, List.take_append_drop, List.append_assoc,
          ← List.take_add] at hrest
        rw [Nat.succ_mul, Nat.add_comm (k * _)]
        simpa only [Nat.add_lt_add_iff_right] using hrest

theorem packets_finish (s : State) : packets s.finish.1 = [] := by
  cases s with
  | discard => rfl
  | expect p rest =>
      cases rest with
      | nil => rfl
      | cons b rest => rfl

end Decoder

open Decoder

/-! ## Packets on their way -/

/-- What the receiver reads by. -/
def Framer.Config.limits (config : Framer.Config) : Limits :=
  { maxPayload := config.maxPayload, maxLength := config.maxStream }

/-- A packet on its way over a channel that loses blobs. -/
structure Trip where
  packet : Acceptance
  /-- The number of its blobs that come through before one is lost. -/
  arrived : Nat

namespace Trip

def stream (config : Framer.Config) (t : Trip) : Bytes := (t.packet.parcel config).stream

/-- The blobs that are written. -/
def written (config : Framer.Config) (t : Trip) : List Bytes :=
  (t.packet.blobs config).take (t.arrived + 1)

/-- All its blobs come through. -/
def Complete (config : Framer.Config) (t : Trip) : Prop :=
  t.arrived = (t.packet.blobs config).length

/-- The bytes of the blobs that come through. -/
def beginning (config : Framer.Config) (t : Trip) : Bytes :=
  (t.stream config).take (t.arrived * config.maxPayload)

end Trip

/-- What becomes of packets on a channel, of which the next write has the given number. -/
def Losses.trips (lost : Losses) (config : Framer.Config) : Nat → List Acceptance → List Trip
  | _, [] => []
  | number, a :: rest =>
    { packet := a, arrived := lost.arrivals number (a.blobs config).length } ::
      trips lost config (number + (lost.through number (a.blobs config)).length) rest

theorem Losses.mem_of_trips {lost : Losses} {config : Framer.Config} {number : Nat}
    {accepted : List Acceptance} {t : Trip} (h : t ∈ lost.trips config number accepted) :
    t.packet ∈ accepted := by
  induction accepted generalizing number with
  | nil => cases h
  | cons a rest ih =>
      rcases List.mem_cons.1 h with rfl | h
      · exact List.mem_cons_self ..
      · exact List.mem_cons_of_mem a (ih h)

/-- A packet that is read when a packet is through: that one, behind what came in of packets before
it that lost a blob. -/
structure Splices (config : Framer.Config) (before : List Trip) (t : Trip) (content : Bytes) :
    Prop where
  complete : t.Complete config
  splice : ∃ old cut, before = old ++ cut ∧ (∀ c ∈ cut, ¬c.Complete config) ∧
    content = cut.flatMap (Trip.beginning config) ++ t.stream config

/-- Where a reader stands after some packets. -/
def Stands (config : Framer.Config) (before : List Trip) (s : State) : Prop :=
  s = .discard ∨ ∃ old cut p, before = old ++ cut ∧ (∀ c ∈ cut, ¬c.Complete config) ∧
    s = .expect p [] ∧ p.content = cut.flatMap (Trip.beginning config)

section Reading

variable {config : Framer.Config} {lost : Losses} {before : List Trip} {s : State} {number : Nat}
  {a : Acceptance}

theorem stands_fresh (config : Framer.Config) (before : List Trip) :
    Stands config before (.expect {} []) :=
  Or.inr ⟨before, [], {}, (List.append_nil _).symm, nofun, rfl, rfl⟩

theorem Stands.settled (h : Stands config before s) : s.Settled config.limits := by
  rcases h with rfl | ⟨old, cut, p, -, -, rfl, -⟩
  · rfl
  · exact State.settled_expect p

theorem gives_blobs (p : Partial) (hm : config.maxPayload ≤ Header.maxPayload)
    (hpos : 0 < config.maxPayload) (t : Trip) (ht : t.arrived ≤ (t.packet.blobs config).length) :
    Gives
      (if t.arrived < (t.packet.blobs config).length then [] else [p.content ++ t.stream config])
      (if t.arrived < (t.packet.blobs config).length then p.content ++ t.beginning config else [])
      (scan config.limits p ((t.packet.blobs config).take t.arrived).flatten) :=
  gives_take hm hpos t.arrived ht

theorem Stands.front (h : Stands config before s) (hm : config.maxPayload ≤ Header.maxPayload)
    (hpos : 0 < config.maxPayload) {t : Trip} (ht : t.arrived < (t.packet.blobs config).length) :
    packets (s.push config.limits ((t.packet.blobs config).take t.arrived).flatten).1 = [] ∧
      Stands config (before ++ [t])
        (s.push config.limits ((t.packet.blobs config).take t.arrived).flatten).2 := by
  rcases h with rfl | ⟨old, cut, p, rfl, hcut, rfl, hcontent⟩
  · exact ⟨rfl, Or.inl rfl⟩
  · have hgives := gives_blobs p hm hpos t (Nat.le_of_lt ht)
    rw [if_pos ht, if_pos ht] at hgives
    rcases hgives with ⟨hnone, hdiscard⟩ | ⟨p', hnone, hexpect, hcontent'⟩
    · exact ⟨hnone, Or.inl hdiscard⟩
    · refine ⟨hnone, Or.inr ⟨old, cut ++ [t], p', List.append_assoc _ _ _, ?_, hexpect, ?_⟩⟩
      · intro c hc
        rcases List.mem_append.1 hc with hc | hc
        · exact hcut c hc
        · obtain rfl := List.mem_singleton.1 hc
          exact Nat.ne_of_lt ht
      · rw [hcontent', hcontent, List.flatMap_append, List.flatMap_singleton]

theorem Stands.whole (h : Stands config before s) (hm : config.maxPayload ≤ Header.maxPayload)
    (hpos : 0 < config.maxPayload) {t : Trip} (ht : t.Complete config) :
    (∀ content ∈ packets (s.push config.limits ((t.packet.blobs config).take t.arrived).flatten).1,
      Splices config before t content) ∧
      Stands config (before ++ [t])
        (s.push config.limits ((t.packet.blobs config).take t.arrived).flatten).2 := by
  rcases h with rfl | ⟨old, cut, p, rfl, hcut, rfl, hcontent⟩
  · exact ⟨nofun, Or.inl rfl⟩
  · have hgives := gives_blobs p hm hpos t (Nat.le_of_eq ht)
    have hlt : ¬t.arrived < (t.packet.blobs config).length := Nat.not_lt.2 (Nat.le_of_eq ht.symm)
    rw [if_neg hlt, if_neg hlt, hcontent] at hgives
    rcases hgives with ⟨hnone, hdiscard⟩ | ⟨p', hone, hexpect, hcontent'⟩
    · refine ⟨?_, Or.inl hdiscard⟩
      show ∀ content ∈ packets (scan config.limits p _).1, _
      rw [List.nil_append, hnone]
      exact nofun
    · refine ⟨?_, Or.inr ⟨old ++ cut ++ [t], [], p', (List.append_nil _).symm, nofun, hexpect,
        hcontent'⟩⟩
      show ∀ content ∈ packets (scan config.limits p _).1, _
      rw [List.nil_append, hone]
      intro content hmem
      exact ⟨ht, old, cut, rfl, hcut, List.mem_singleton.1 hmem⟩

theorem Stands.transactionEnd (h : Stands config before s) :
    Stands config before (s.hear config.limits .transactionEnd).2 := by
  rcases h with rfl | ⟨old, cut, p, hbefore, hcut, rfl, hcontent⟩
  · exact stands_fresh config before
  · exact Or.inr ⟨old, cut, p, hbefore, hcut, rfl, hcontent⟩

theorem Stands.trip (h : Stands config before s) (hm : config.maxPayload ≤ Header.maxPayload)
    (hpos : 0 < config.maxPayload) (lost : Losses) (number : Nat) {t : Trip}
    (ht : t.arrived = lost.arrivals number (t.packet.blobs config).length) :
    (∀ content ∈ packets (s.listen config.limits (lost.signals number (t.written config))).1,
      Splices config before t content) ∧
      Stands config (before ++ [t])
        (s.listen config.limits (lost.signals number (t.written config))).2 := by
  have hsignals := lost.signals_through number (t.packet.blobs config)
  rw [Losses.through, ← ht] at hsignals
  rw [Trip.written, hsignals, State.listen_append, State.listen_bytes h.settled, packets_append]
  by_cases hlost : t.arrived < (t.packet.blobs config).length
  · obtain ⟨hnone, hstands⟩ := h.front hm hpos hlost
    rw [if_pos hlost, hnone, State.listen, State.listen, List.append_nil]
    refine ⟨?_, hstands.transactionEnd⟩
    show ∀ content ∈ [] ++ packets (State.finish _).1, _
    rw [packets_finish]
    exact fun _ hmem => absurd hmem List.not_mem_nil
  · have hcomplete : t.Complete config :=
      Nat.le_antisymm (ht ▸ lost.arrivals_le _ _) (Nat.not_lt.1 hlost)
    rw [if_neg hlost, State.listen]
    show (∀ content ∈ _ ++ [], _) ∧ _
    rw [List.append_nil]
    exact h.whole hm hpos hcomplete

theorem Stands.part (h : Stands config before s) (hm : config.maxPayload ≤ Header.maxPayload)
    (hpos : 0 < config.maxPayload) {k : Nat}
    (harrived : k ≤ lost.arrivals number (a.blobs config).length)
    (hk : k < (a.blobs config).length) :
    packets (s.listen config.limits (lost.signals number ((a.blobs config).take k))).1 = [] := by
  rw [Losses.signals_take harrived, State.listen_bytes h.settled]
  exact (h.front hm hpos (t := { packet := a, arrived := k }) hk).1

theorem Trip.eq_take_of_prefix {t : Trip} {blobs more : List Bytes}
    (h : blobs <+: t.written config ++ more) (hshort : blobs.length < (t.written config).length) :
    blobs.length ≤ t.arrived ∧ blobs.length < (t.packet.blobs config).length ∧
      blobs = (t.packet.blobs config).take blobs.length := by
  have hlength : (t.written config).length = min (t.arrived + 1) (t.packet.blobs config).length :=
    List.length_take
  have hfront : blobs <+: t.written config :=
    List.prefix_of_prefix_length_le h (List.prefix_append _ _) (Nat.le_of_lt hshort)
  refine ⟨by omega, by omega, (List.prefix_iff_eq_take.1 hfront).trans ?_⟩
  rw [Trip.written, List.take_take, Nat.min_eq_left (by omega)]

/-- A packet that is read, somewhere among the packets whose blobs were written. -/
def Spliced (config : Framer.Config) (trips : List Trip) (blobs : List Bytes) (content : Bytes) :
    Prop :=
  ∃ before t rest, trips = before ++ t :: rest ∧
    (before ++ [t]).flatMap (Trip.written config) <+: blobs ∧ Splices config before t content

/-- What is read of the blobs that were written, and of which some are lost. -/
theorem Stands.trips (accepted : List Acceptance) {before : List Trip} {s : State} {number : Nat}
    (h : Stands config before s) (hm : config.maxPayload ≤ Header.maxPayload)
    (hpos : 0 < config.maxPayload) (lost : Losses) {blobs : List Bytes}
    (hblobs : blobs <+: lost.plan number (accepted.map (Acceptance.blobs config))) {content : Bytes}
    (hcontent : content ∈ packets (s.listen config.limits (lost.signals number blobs)).1) :
    Spliced config (before ++ lost.trips config number accepted)
      (before.flatMap (Trip.written config) ++ blobs) content := by
  -- Packet by packet; the reader stands behind those before.
  induction accepted generalizing before s number blobs with
  | nil =>
      obtain rfl := List.prefix_nil.1 hblobs
      cases hcontent
  | cons a rest ih =>
      let t : Trip := { packet := a, arrived := lost.arrivals number (a.blobs config).length }
      let number' := number + (t.written config).length
      have hplan : blobs <+:
          t.written config ++ lost.plan number' (rest.map (Acceptance.blobs config)) := hblobs
      have htrips :
          lost.trips config number (a :: rest) = t :: lost.trips config number' rest := rfl
      by_cases hlength : (t.written config).length ≤ blobs.length
      · obtain ⟨blobs', rfl⟩ :=
          List.prefix_of_prefix_length_le (List.prefix_append _ _) hplan hlength
        obtain ⟨hsplices, hstands⟩ := h.trip hm hpos lost number (t := t) rfl
        rw [Losses.signals_append, State.listen_append, packets_append] at hcontent
        rcases List.mem_append.1 hcontent with hhere | hlater
        · refine ⟨before, t, _, congrArg (before ++ ·) htrips, ?_, hsplices content hhere⟩
          rw [List.flatMap_append, List.flatMap_singleton, ← List.append_assoc]
          exact List.prefix_append _ _
        · have hspliced := ih hstands ((List.prefix_append_right_inj _).1 hplan) hlater
          rw [List.append_assoc, List.flatMap_append, List.flatMap_singleton,
            List.append_assoc] at hspliced
          exact hspliced
      · -- The packet is still being written.
        obtain ⟨harrived, hlt, htake⟩ := Trip.eq_take_of_prefix hplan (Nat.not_le.1 hlength)
        rw [htake, h.part hm hpos harrived hlt] at hcontent
        cases hcontent

end Reading

end DockLink
