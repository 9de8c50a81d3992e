import DockLink.Proofs.Transfer.Script

/-!
# Sending over a channel that loses blobs

The channel loses some of the writes and aborts them. A packet of which it loses a blob is given up,
so what is written is a front part of the blobs of each packet, up to the first that is lost.
-/

namespace DockLink

/-- Which writes the channel loses, by their number. -/
abbrev Losses := Nat → Bool

namespace Losses

/-- The number of writes, out of `count` from the given one on, before the first that is lost. -/
def arrivals (lost : Losses) : Nat → Nat → Nat
  | _, 0 => 0
  | number, count + 1 => if lost number then 0 else arrivals lost (number + 1) count + 1

/-- The blobs of a packet that are written, if the first of them has the given number. -/
def through (lost : Losses) (number : Nat) (blobs : List Bytes) : List Bytes :=
  blobs.take (lost.arrivals number blobs.length + 1)

/-- The blobs that are written of packets, from the given number on. -/
def plan (lost : Losses) : Nat → List (List Bytes) → List Bytes
  | _, [] => []
  | number, blobs :: rest =>
    lost.through number blobs ++ plan lost (number + (lost.through number blobs).length) rest

/-- The blobs that are written from the given number on, if the write before it was of a packet of
which some blobs are left. -/
def ahead (lost : Losses) (number : Nat) (left : List Bytes) (packets : List (List Bytes)) :
    List Bytes :=
  if lost (number - 1) then lost.plan number packets
  else lost.through number left ++ lost.plan (number + (lost.through number left).length) packets

/-- How a write ends. -/
def result (lost : Losses) (number length : Nat) : WriteResult :=
  if lost number then .aborted else .written length

variable {lost : Losses} {number : Nat} {left : List Bytes} {packets : List (List Bytes)}

theorem arrivals_le (lost : Losses) (number count : Nat) : lost.arrivals number count ≤ count := by
  induction count generalizing number with
  | zero => exact Nat.le_refl 0
  | succ count ih =>
      rw [arrivals]
      split
      · exact Nat.zero_le _
      · exact Nat.succ_le_succ (ih (number + 1))

theorem ahead_of_lost (h : lost (number - 1) = true) :
    lost.ahead number left packets = lost.plan number packets := if_pos h

theorem ahead_nil (lost : Losses) (number : Nat) (packets : List (List Bytes)) :
    lost.ahead number [] packets = lost.plan number packets := by
  rw [ahead]
  split
  · rfl
  · rfl

theorem through_cons (lost : Losses) (number : Nat) (blob : Bytes) (left : List Bytes) :
    lost.through number (blob :: left) =
      blob :: if lost number then [] else lost.through (number + 1) left := by
  rw [through, List.length_cons, arrivals]
  split
  · rfl
  · rfl

theorem plan_cons (lost : Losses) (number : Nat) (blob : Bytes) (left : List Bytes)
    (packets : List (List Bytes)) :
    lost.plan number ((blob :: left) :: packets) =
      blob :: lost.ahead (number + 1) left packets := by
  rw [plan, through_cons, ahead, Nat.add_sub_cancel]
  split
  · rfl
  · rw [List.length_cons, Nat.add_right_comm]
    rfl

theorem ahead_cons (h : lost (number - 1) = false) (blob : Bytes) :
    lost.ahead number (blob :: left) packets = blob :: lost.ahead (number + 1) left packets := by
  have hkept : ¬lost (number - 1) = true := by
    rw [h]
    nofun
  rw [ahead, if_neg hkept, ← plan_cons, plan]

theorem plan_append (lost : Losses) (number : Nat) (packets : List (List Bytes))
    (blobs : List Bytes) :
    lost.plan number (packets ++ [blobs]) = lost.plan number packets ++
      lost.through (number + (lost.plan number packets).length) blobs := by
  induction packets generalizing number with
  | nil => exact List.append_nil _
  | cons packet rest ih =>
      rw [List.cons_append, plan, plan, ih, List.append_assoc, List.length_append, Nat.add_assoc]

theorem ahead_append (lost : Losses) (number : Nat) (left : List Bytes)
    (packets : List (List Bytes)) (blobs : List Bytes) :
    lost.ahead number left (packets ++ [blobs]) = lost.ahead number left packets ++
      lost.through (number + (lost.ahead number left packets).length) blobs := by
  rw [ahead, ahead]
  split
  · exact plan_append lost number packets blobs
  · rw [plan_append, List.append_assoc, List.length_append, Nat.add_assoc]

end Losses

namespace Outline

variable {lost : Losses} {number : Nat} {o : Outline} {p : Parcel} {rest : List Parcel}
  {result : WriteResult}

/-- The blobs that the channel is still to be told of. The next write has the given number. -/
def prospect (lost : Losses) (number : Nat) (o : Outline) : List Bytes :=
  o.writes ++ lost.ahead (number + o.writes.length) o.flight.left (o.waiting.map (blobs o.config))

/-- The result is that of the last write, which is the one on the channel. -/
def Meets (lost : Losses) (number : Nat) (o : Outline) (result : WriteResult) : Prop :=
  ∀ p left expected, o.flight = .sending p left expected →
    result = lost.result (number + o.writes.length - 1) expected

theorem prospect_of_left (hleft : o.flight.left = []) :
    o.prospect lost number = o.writes ++
      lost.plan (number + o.writes.length) (o.waiting.map (blobs o.config)) := by
  rw [prospect, hleft, Losses.ahead_nil]

theorem prospect_put (p : Parcel) (blob : Bytes) (left : List Bytes) (o : Outline) :
    (o.put p blob left).prospect lost number = o.writes ++ blob ::
      lost.ahead (number + o.writes.length + 1) left (o.waiting.map (blobs o.config)) := by
  rw [prospect, put, List.length_append, List.append_assoc, ← Nat.add_assoc]
  rfl

theorem prospect_start (hidle : o.flight = .idle) (hwaiting : o.waiting = p :: rest) :
    ({ o with waiting := rest }.start p).prospect lost number = o.prospect lost number := by
  have hleft : o.flight.left = [] := by
    rw [hidle]
    rfl
  unfold start
  split
  · rename_i hcut
    exact absurd hcut (Blob.cut_ne_nil _ _)
  · rename_i blob left hcut
    have hblobs : blobs o.config p = blob :: left := hcut
    rw [prospect_put, prospect_of_left hleft, hwaiting, List.map_cons, hblobs, Losses.plan_cons]

theorem prospect_fill (misses : Nat) (hmem : (o.fill misses).board.InMemory) :
    (o.fill misses).prospect lost number = o.prospect lost number := by
  by_cases hidle : o.flight = .idle
  · cases hwaiting : o.waiting with
    | nil => rw [fill_of_empty hwaiting]
    | cons p rest =>
        cases misses with
        | zero =>
            rw [fill_zero_cons hidle hwaiting]
            exact prospect_start hidle hwaiting
        | succ misses =>
            exact absurd hmem (not_inMemory_fill hidle hwaiting misses)
  · rw [fill_of_busy hidle]

theorem prospect_accept (lost : Losses) (number : Nat) (o : Outline) (stream : Bytes) :
    (o.accept stream).prospect lost number = o.prospect lost number ++
      lost.through (number + (o.prospect lost number).length)
        (Blob.cut o.config.maxPayload stream) := by
  show o.writes ++ lost.ahead _ o.flight.left ((o.waiting ++ [_]).map (blobs o.config)) = _
  rw [List.map_append, List.map_singleton, Losses.ahead_append, prospect, List.length_append,
    List.append_assoc, ← Nat.add_assoc]
  rfl

/-- A packet of which a blob is lost has no others; one of which a blob is through goes on. -/
theorem prospect_land (hmeets : o.Meets lost number result) :
    (o.land result).prospect lost number = o.prospect lost number := by
  cases hflight : o.flight with
  | idle =>
      simp only [land, hflight]
      rw [prospect, prospect, hflight]
  | cancelled =>
      simp only [land, hflight]
      rw [prospect, prospect, hflight]
      rfl
  | sending p left expected =>
      have hresult := hmeets p left expected hflight
      cases hlost : lost (number + o.writes.length - 1) with
      | true =>
          have haborted : result ≠ .written expected := by
            rw [hresult, Losses.result, hlost]
            intro h
            cases h
          simp only [land, hflight, if_neg haborted]
          refine (prospect_of_left rfl).trans ?_
          rw [prospect, Losses.ahead_of_lost hlost]
          rfl
      | false =>
          have hwritten : result = .written expected := by
            rw [hresult, Losses.result, hlost]
            rfl
          simp only [land, hflight, if_pos hwritten]
          cases left with
          | cons blob left =>
              rw [prospect_put, prospect, hflight]
              exact congrArg (o.writes ++ ·) (Losses.ahead_cons hlost blob).symm
          | nil =>
              rw [prospect, prospect, hflight]
              rfl

theorem prospect_complete (misses : Nat) (hmeets : o.Meets lost number result)
    (hmem : (o.complete misses result).board.InMemory) :
    (o.complete misses result).prospect lost number = o.prospect lost number := by
  rw [complete_eq_fill] at hmem ⊢
  exact (prospect_fill misses hmem).trans (prospect_land hmeets)

end Outline

namespace Course

variable {c c' : Course} {a : Action} {config : Framer.Config} {lost : Losses} {o : Outline}
  {reports : List Report}

/-- The actions with which a sender goes on over such a channel: all but closing, and of the
completions those that the channel makes. -/
def GoesOnOver (lost : Losses) (c : Course) : Action → Prop
  | .disable => False
  | .complete result => c.outline.Meets lost c.issued.length result
  | _ => True

structure SendingOver (config : Framer.Config) (lost : Losses) (c : Course) : Prop where
  config_eq : c.outline.config = config
  plan_eq : c.outline.board.InMemory → c.issued ++ c.outline.prospect lost c.issued.length =
    lost.plan 0 (c.accepted.map (Acceptance.blobs config))

theorem SendingOver.settle (h : c.SendingOver config lost) : c.settle.SendingOver config lost where
  config_eq := h.config_eq
  plan_eq hmem := by
    refine Eq.trans ?_ (h.plan_eq hmem)
    show c.issued ++ c.outline.writes ++
      ([] ++ lost.ahead ((c.issued ++ c.outline.writes).length + 0) c.outline.flight.left _) = _
    rw [List.length_append, List.nil_append, List.append_assoc]
    rfl

theorem SendingOver.ends (h : c.SendingOver config lost) (hends : c.outline.Ends reports o)
    (hprospect : o.board.InMemory →
      o.prospect lost c.issued.length = c.outline.prospect lost c.issued.length) :
    SendingOver config lost { c with outline := o } where
  config_eq := hends.config_eq.trans h.config_eq
  plan_eq hmem := by
    have hmem' : o.board.InMemory := hmem
    show c.issued ++ o.prospect lost c.issued.length = _
    rw [hprospect hmem', h.plan_eq (hmem'.before hends.gains)]

theorem SendingOver.spares (h : c.SendingOver config lost) (hends : c.outline.Ends reports o)
    (hspares : c.outline.Spares o) : SendingOver config lost { c with outline := o } := by
  refine h.ends hends fun _ => ?_
  rw [Outline.prospect, Outline.prospect, hspares.writes_eq, hspares.flight_eq, hspares.waiting_eq,
    hends.config_eq]

theorem SendingOver.accept (h : c.SendingOver config lost) (a : Acceptance) (misses : Nat) :
    SendingOver config lost { c with
      outline := (c.outline.accept (a.parcel c.outline.config).stream).fill misses
      accepted := c.accepted ++ [a] } := by
  obtain ⟨missed, hends⟩ := Outline.ends_fill misses
    (c.outline.accept (a.parcel c.outline.config).stream)
  refine ⟨hends.config_eq.trans h.config_eq, fun hmem => ?_⟩
  have hold := h.plan_eq (Board.InMemory.before hmem hends.gains)
  show c.issued ++ (Outline.fill misses _).prospect lost c.issued.length =
    lost.plan 0 ((c.accepted ++ [a]).map _)
  rw [Outline.prospect_fill misses hmem, Outline.prospect_accept, ← List.append_assoc,
    ← List.length_append, hold, List.map_append, List.map_singleton, Losses.plan_append,
    Nat.zero_add, h.config_eq]
  rfl

/-- What is written stays the front part of the plan. -/
theorem Step.sendingOver (hstep : Step c a c') (hgoes : c.GoesOnOver lost a)
    (h : c.SendingOver config lost) : c'.SendingOver config lost := by
  cases hstep with
  | enable => exact h.spares (Outline.ends_enable _) (Outline.spares_enable _)
  | disable => exact hgoes.elim
  | accept misses enabled ticket length_le => exact (h.accept _ misses).settle
  | receive enabled takes =>
      obtain ⟨reports, -, hends⟩ := Outline.ends_absorb c.outline _ _
      exact h.spares hends ⟨rfl, rfl, rfl⟩
  | transactionEnd =>
      obtain ⟨reports, -, hends⟩ := Outline.ends_transactionEnd c.outline
      exact h.spares hends (Outline.spares_transactionEnd _)
  | pop next => exact ⟨h.config_eq, h.plan_eq⟩
  | complete misses result busy =>
      obtain ⟨reports, hends, -, -⟩ := Outline.ends_complete misses c.outline result
      exact (h.ends hends (Outline.prospect_complete misses hgoes)).settle
  | deaf => exact h
  | stay => exact h

end Course

end DockLink
