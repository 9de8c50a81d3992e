import DockLink.Proofs.Transfer.Framing
import DockLink.Proofs.Transfer.Separation

/-!
# Whose writes these are

Every write is one of a packet that was accepted. The packets have their turn in the order in which
they were accepted, and each writes its blobs from the first one on: all of them if it is sent, and
the first few, or none, if it fails. The ledger of a course is the list of the packets that have an
outcome, each with what it wrote.
-/

namespace DockLink

/-- A packet that has its outcome, an error if it was not sent, and the bytes of its writes. -/
structure Ending where
  parcel : Parcel
  error : Option LinkError
  writes : List Bytes
deriving DecidableEq

namespace Ending

def report (e : Ending) : Report :=
  match e.error with
  | none => .sent e.parcel.ticket
  | some error => .sendFailed e.parcel.ticket error

/-- A packet wrote its blobs in order, and all of them if it was sent. -/
structure Fair (config : Framer.Config) (e : Ending) : Prop where
  isPrefix : e.writes <+: Outline.blobs config e.parcel
  whole : e.error = none → e.writes = Outline.blobs config e.parcel

/-- A packet that wrote nothing. -/
def unwritten (error : LinkError) (p : Parcel) : Ending :=
  { parcel := p, error := some error, writes := [] }

theorem fair_unwritten (config : Framer.Config) (error : LinkError) (p : Parcel) :
    (unwritten error p).Fair config :=
  ⟨List.nil_prefix, nofun⟩

theorem isOutcome_report (e : Ending) : e.report.isOutcome := by
  unfold report
  split
  · rfl
  · rfl

end Ending

namespace Flight

def parcels : Flight → List Parcel
  | .sending p _ _ => [p]
  | _ => []

/-- The blobs of the packet on the channel that were written. -/
def begun (config : Framer.Config) : Flight → List Bytes
  | .sending p left _ =>
    (Outline.blobs config p).take ((Outline.blobs config p).length - left.length)
  | _ => []

/-- The blob on the channel is the one before those that are left. -/
def OnTrack (config : Framer.Config) : Flight → Prop
  | .sending p left expected => ∃ before blob,
    Outline.blobs config p = before ++ blob :: left ∧ expected = blob.length
  | _ => True

theorem begun_of_blobs {config : Framer.Config} {p : Parcel} {before left : List Bytes}
    (h : Outline.blobs config p = before ++ left) (expected : Nat) :
    (Flight.sending p left expected).begun config = before := by
  rw [begun, h, List.length_append, Nat.add_sub_cancel]
  exact List.take_left

theorem begun_of_free {flight : Flight} (h : flight.parcels = []) (config : Framer.Config) :
    flight.begun config = [] ∧ flight.OnTrack config := by
  cases flight with
  | sending p left expected => cases h
  | idle => exact ⟨rfl, trivial⟩
  | cancelled => exact ⟨rfl, trivial⟩

end Flight

namespace Board

variable {b b' : Board} {reports : List Report}

/-- The outcomes that were reported, oldest first. -/
def verdicts (b : Board) : List LinkEvent := b.record.reverse.filter (·.ticket?.isSome)

theorem Gains.verdicts (h : b.Gains reports b') :
    b'.verdicts = b.verdicts ++ (reports.filter Report.isOutcome).map Report.bare := by
  obtain ⟨kept, -, hrecord, -⟩ := h
  rw [Board.verdicts, hrecord, List.reverse_append, List.reverse_reverse, List.filter_append,
    List.filter_map]
  rfl

end Board

namespace Outline

variable {o o₁ o₂ o' : Outline} {p : Parcel} {rest : List Parcel} {result : WriteResult}
  {ended ended₁ ended₂ : List Ending} {reports : List Report}

/-- The packets that are not through yet, oldest first. -/
def parcels (o : Outline) : List Parcel := o.flight.parcels ++ o.waiting

def begun (o : Outline) : List Bytes := o.flight.begun o.config

/-- A step that ends packets, oldest first, and writes what belongs to these and to the packet that
is on the channel then. -/
structure Works (o : Outline) (ended : List Ending) (o' : Outline) : Prop where
  config_eq : o'.config = o.config
  tracked : o'.flight.OnTrack o.config
  fair : ∀ e ∈ ended, e.Fair o.config
  parcels_eq : o.parcels = ended.map Ending.parcel ++ o'.parcels
  writes_eq : ∃ fresh, o'.writes = o.writes ++ fresh ∧
    o.begun ++ fresh = ended.flatMap Ending.writes ++ o'.begun
  gains : ∃ reports, o.board.Gains reports o'.board ∧
    reports.filter Report.isOutcome = ended.map Ending.report

theorem Works.trans (h₁ : o.Works ended₁ o₁) (h₂ : o₁.Works ended₂ o₂) :
    o.Works (ended₁ ++ ended₂) o₂ where
  config_eq := h₂.config_eq.trans h₁.config_eq
  tracked := h₁.config_eq ▸ h₂.tracked
  fair := List.forall_mem_append.2 ⟨h₁.fair, h₁.config_eq ▸ h₂.fair⟩
  parcels_eq := by rw [h₁.parcels_eq, h₂.parcels_eq, List.map_append, List.append_assoc]
  writes_eq := by
    obtain ⟨fresh₁, hwrites₁, hbegun₁⟩ := h₁.writes_eq
    obtain ⟨fresh₂, hwrites₂, hbegun₂⟩ := h₂.writes_eq
    refine ⟨fresh₁ ++ fresh₂, by rw [hwrites₂, hwrites₁, List.append_assoc], ?_⟩
    rw [← List.append_assoc, hbegun₁, List.append_assoc, hbegun₂, List.flatMap_append,
      List.append_assoc]
  gains := by
    obtain ⟨reports₁, hgains₁, hreports₁⟩ := h₁.gains
    obtain ⟨reports₂, hgains₂, hreports₂⟩ := h₂.gains
    refine ⟨_, hgains₁.trans hgains₂, ?_⟩
    rw [List.filter_append, hreports₁, hreports₂, List.map_append]

/-- A step that sends nothing and reports no outcomes. -/
theorem works_of_spares (tracked : o.flight.OnTrack o.config) (hspares : o.Spares o')
    (hends : o.Ends reports o') (hnone : reports.filterMap Report.ticket? = []) :
    o.Works [] o' where
  config_eq := hends.config_eq
  tracked := hspares.flight_eq ▸ tracked
  fair := List.forall_mem_nil _
  parcels_eq := by
    rw [parcels, parcels, hspares.flight_eq, hspares.waiting_eq]
    rfl
  writes_eq := by
    refine ⟨[], by rw [hspares.writes_eq, List.append_nil], ?_⟩
    rw [begun, begun, hspares.flight_eq, hends.config_eq, List.append_nil]
    rfl
  gains := by
    refine ⟨reports, hends.gains, List.filter_eq_nil_iff.2 fun r hr => ?_⟩
    rw [Report.isOutcome, List.filterMap_eq_nil_iff.1 hnone r hr]
    nofun

theorem works_refl (tracked : o.flight.OnTrack o.config) : o.Works [] o :=
  works_of_spares tracked ⟨rfl, rfl, rfl⟩ (Ends.refl o) rfl

/-! ## Starting packets -/

/-- A queued packet is given up while no other is on the channel. -/
theorem works_giveUp (hfree : o.flight.parcels = []) (hwaiting : o.waiting = p :: rest)
    (error : LinkError) :
    o.Works [.unwritten error p] ({ o with waiting := rest }.giveUp p error) where
  config_eq := rfl
  tracked := (Flight.begun_of_free hfree _).2
  fair := List.forall_mem_singleton.2 (Ending.fair_unwritten _ error p)
  parcels_eq := by
    rw [parcels, hfree, hwaiting]
    show p :: rest = p :: (o.flight.parcels ++ rest)
    rw [hfree, List.nil_append]
  writes_eq := ⟨[], (List.append_nil _).symm, List.append_nil _⟩
  gains := ⟨_, Board.gains_sendFailed _ _ _, rfl⟩

theorem works_miss (hidle : o.flight = .idle) (hwaiting : o.waiting = p :: rest) :
    o.Works [.unwritten .outOfMemory p] ({ o with waiting := rest }.miss p) := by
  have hfree : o.flight.parcels = [] := by
    rw [hidle]
    rfl
  have h := works_giveUp (o := o.count fun s =>
    { s with allocationFailures := s.allocationFailures + 1 }) hfree hwaiting .outOfMemory
  obtain ⟨reports, hgains, hreports⟩ := h.gains
  exact ⟨h.config_eq, h.tracked, h.fair, h.parcels_eq, h.writes_eq, reports,
    (Board.gains_nil rfl rfl).trans hgains, hreports⟩

/-- A blob of a packet is written, when those before it were. -/
theorem works_put {blob : Bytes} (before : List Bytes) {left : List Bytes} {board : Board}
    (hblobs : blobs o.config p = before ++ blob :: left)
    (hparcels : o.parcels = p :: rest) (hbegun : o.begun = before)
    (hboard : o.board.Gains [] board) :
    o.Works [] ({ o with waiting := rest, board }.put p blob left) where
  config_eq := rfl
  tracked := ⟨before, blob, hblobs, rfl⟩
  fair := List.forall_mem_nil _
  parcels_eq := hparcels
  writes_eq := by
    -- The first blob that was left becomes the last one that is begun.
    refine ⟨[blob], rfl, ?_⟩
    have hcut : blobs o.config p = (before ++ [blob]) ++ left := by
      rw [hblobs, List.append_assoc]
      rfl
    rw [hbegun]
    exact (Flight.begun_of_blobs hcut blob.length).symm
  gains := ⟨[], hboard, rfl⟩

theorem works_start (hidle : o.flight = .idle) (hwaiting : o.waiting = p :: rest) :
    o.Works [] ({ o with waiting := rest }.start p) := by
  have hparcels : o.parcels = p :: rest := by
    rw [parcels, hidle, hwaiting]
    rfl
  have hbegun : o.begun = [] := by
    rw [begun, hidle]
    rfl
  unfold start
  split
  · rename_i hcut
    exact absurd hcut (Blob.cut_ne_nil _ _)
  · rename_i blob left hcut
    exact works_put [] hcut hparcels hbegun (Board.gains_nil rfl rfl)

/-- The packets that find no memory write nothing, and the next one is on the channel. -/
theorem works_fill (misses : Nat) (tracked : o.flight.OnTrack o.config) :
    ∃ missed : List Parcel,
      o.Works (missed.map (Ending.unwritten .outOfMemory)) (o.fill misses) := by
  induction misses generalizing o with
  | zero =>
      refine ⟨[], ?_⟩
      by_cases hidle : o.flight = .idle
      · cases hwaiting : o.waiting with
        | nil =>
            rw [fill_of_empty hwaiting]
            exact works_refl tracked
        | cons p rest =>
            rw [fill_zero_cons hidle hwaiting]
            exact works_start hidle hwaiting
      · rw [fill_of_busy hidle]
        exact works_refl tracked
  | succ misses ih =>
      by_cases hidle : o.flight = .idle
      · cases hwaiting : o.waiting with
        | nil =>
            rw [fill_of_empty hwaiting]
            exact ⟨[], works_refl tracked⟩
        | cons p rest =>
            -- A miss leaves the channel free, so the next packet has its turn in the same step.
            have hmiss := works_miss hidle hwaiting
            obtain ⟨missed, hfill⟩ :=
              ih (o := Outline.miss { o with waiting := rest } p) hmiss.tracked
            rw [fill_succ_cons hidle hwaiting]
            exact ⟨p :: missed, hmiss.trans hfill⟩
      · rw [fill_of_busy hidle]
        exact ⟨[], works_refl tracked⟩

/-! ## Completions and closing -/

/-- The packet on the channel has its outcome. -/
theorem works_end {left : List Bytes} {expected : Nat}
    (hflight : o.flight = .sending p left expected) (error : Option LinkError)
    (hwhole : error = none → left = []) {flight : Flight}
    (hfree : flight.parcels = []) {board : Board}
    (hboard : o.board.Gains [Ending.report ⟨p, error, o.begun⟩] board) :
    o.Works [⟨p, error, o.begun⟩] { o with flight, board } where
  config_eq := rfl
  tracked := (Flight.begun_of_free hfree _).2
  fair := by
    refine List.forall_mem_singleton.2 ⟨?_, fun hsent => ?_⟩
    · rw [begun, hflight]
      exact List.take_prefix _ _
    · rw [begun, hflight, hwhole hsent]
      exact List.take_length
  parcels_eq := by
    rw [parcels, parcels, hflight, hfree]
    rfl
  writes_eq := by
    refine ⟨[], (List.append_nil _).symm, ?_⟩
    have hnone : begun { o with flight, board } = [] := (Flight.begun_of_free hfree _).1
    rw [hnone, List.flatMap_singleton]
  gains := by
    refine ⟨_, hboard, ?_⟩
    rw [List.filter_cons_of_pos (Ending.isOutcome_report _)]
    rfl

theorem works_land_last {expected : Nat} (hflight : o.flight = .sending p [] expected) :
    o.Works [⟨p, none, o.begun⟩] (o.land (.written expected)) := by
  simp only [land, hflight, if_true]
  exact works_end hflight none (fun _ => rfl) rfl
    ((Board.gains_nil rfl rfl).trans (Board.gains_emit _ _))

theorem works_land_next {blob : Bytes} {left : List Bytes} {expected : Nat}
    (tracked : o.flight.OnTrack o.config)
    (hflight : o.flight = .sending p (blob :: left) expected) :
    o.Works [] (o.land (.written expected)) := by
  rw [hflight] at tracked
  obtain ⟨before, last, hblobs, -⟩ := tracked
  have hcut : blobs o.config p = (before ++ [last]) ++ blob :: left := by
    rw [hblobs, List.append_assoc]
    rfl
  have hparcels : o.parcels = p :: o.waiting := by
    rw [parcels, hflight]
    rfl
  have hbegun : o.begun = before ++ [last] := by
    rw [begun, hflight]
    exact Flight.begun_of_blobs hcut expected
  simp only [land, hflight, if_true]
  exact works_put _ hcut hparcels hbegun (Board.gains_nil rfl rfl)

/-- A block comes back that belongs to no packet. -/
theorem works_free (hfree : o.flight.parcels = []) : o.Works [] { o with flight := .idle } where
  config_eq := rfl
  tracked := trivial
  fair := List.forall_mem_nil _
  parcels_eq := by
    rw [parcels, hfree]
    rfl
  writes_eq := by
    refine ⟨[], (List.append_nil _).symm, ?_⟩
    rw [begun, (Flight.begun_of_free hfree _).1]
    rfl
  gains := ⟨[], Board.gains_nil rfl rfl, rfl⟩

theorem works_land (tracked : o.flight.OnTrack o.config) (result : WriteResult) :
    ∃ ended, o.Works ended (o.land result) := by
  cases hflight : o.flight with
  | sending p left expected =>
      by_cases hresult : result = .written expected
      · subst hresult
        cases left with
        | nil => exact ⟨_, works_land_last hflight⟩
        | cons blob left => exact ⟨_, works_land_next tracked hflight⟩
      · simp only [land, hflight, if_neg hresult]
        exact ⟨_, works_end hflight (some .channelAborted) (fun h => by cases h) rfl
          ((Board.gains_nil rfl rfl).trans (Board.gains_sendFailed _ _ _))⟩
  | idle =>
      simp only [land, hflight]
      exact ⟨[], works_free (by rw [hflight]; rfl)⟩
  | cancelled =>
      simp only [land, hflight]
      exact ⟨[], works_free (by rw [hflight]; rfl)⟩

theorem works_complete (tracked : o.flight.OnTrack o.config) (misses : Nat) (result : WriteResult) :
    ∃ ended, o.Works ended (o.complete misses result) := by
  obtain ⟨ended, hland⟩ := works_land tracked result
  obtain ⟨missed, hfill⟩ := works_fill (o := o.land result) misses (hland.config_eq ▸ hland.tracked)
  rw [complete_eq_fill]
  exact ⟨_, hland.trans hfill⟩

theorem works_cancel (tracked : o.flight.OnTrack o.config) :
    ∃ ended, o.Works ended o.cancel ∧ o.cancel.flight.parcels = [] := by
  cases hflight : o.flight with
  | sending p left expected =>
      simp only [cancel, hflight]
      exact ⟨_, works_end hflight (some .disconnected) (fun h => by cases h) rfl
        (Board.gains_sendFailed _ _ _), rfl⟩
  | idle =>
      simp only [cancel, hflight]
      exact ⟨[], works_refl tracked, rfl⟩
  | cancelled =>
      simp only [cancel, hflight]
      exact ⟨[], works_refl tracked, rfl⟩

theorem works_flush (hfree : o.flight.parcels = []) : ∃ ended, o.Works ended o.flush := by
  induction hwaiting : o.waiting generalizing o with
  | nil =>
      have hflush : o.flush = o := by
        obtain ⟨config, enabled, nextTicket, waiting, flight, reading, board, writes⟩ := o
        obtain rfl : waiting = [] := hwaiting
        rfl
      rw [hflush]
      exact ⟨[], works_refl (Flight.begun_of_free hfree _).2⟩
  | cons p rest ih =>
      have hgiveUp := works_giveUp hfree hwaiting .disconnected
      obtain ⟨ended, hflush⟩ :=
        ih (o := Outline.giveUp { o with waiting := rest } p .disconnected) hfree rfl
      rw [flush_cons hwaiting]
      exact ⟨_, hgiveUp.trans hflush⟩

theorem works_disable (tracked : o.flight.OnTrack o.config) : ∃ ended, o.Works ended o.disable := by
  unfold disable
  split
  · obtain ⟨ended₁, hcancel, hfree⟩ :=
      works_cancel (o := { o with enabled := false, reading := .expect {} [] }) tracked
    obtain ⟨ended₂, hflush⟩ := works_flush hfree
    -- Neither the switch nor what was received in part has to do with packets to be sent.
    have h := hcancel.trans hflush
    exact ⟨_, h.config_eq, h.tracked, h.fair, h.parcels_eq, h.writes_eq, h.gains⟩
  · exact ⟨[], works_refl tracked⟩

/-! ## Whose turn it is -/

/-- What is written belongs to the packet that is on the channel then. -/
theorem writes_fill (misses : Nat) (o : Outline) :
    (o.fill misses).writes = o.writes ∨ ∃ p left expected,
      (o.fill misses).flight = .sending p left expected := by
  induction misses generalizing o with
  | zero =>
      simp only [fill]
      split
      · unfold start
        split
        · exact .inl rfl
        · exact .inr ⟨_, _, _, rfl⟩
      · exact .inl rfl
  | succ misses ih =>
      simp only [fill]
      split
      · exact ih _
      · exact .inl rfl

theorem writes_land (o : Outline) (result : WriteResult) :
    (o.land result).writes = o.writes ∨ ∃ p left expected,
      (o.land result).flight = .sending p left expected := by
  unfold land
  split
  · split
    · split
      · exact .inr ⟨_, _, _, rfl⟩
      · exact .inl rfl
    · exact .inl rfl
  · exact .inl rfl

theorem writes_complete (misses : Nat) (o : Outline) (result : WriteResult) :
    (o.complete misses result).writes = o.writes ∨ ∃ p left expected,
      (o.complete misses result).flight = .sending p left expected := by
  rw [complete_eq_fill]
  -- A packet that goes on keeps the channel busy, so no other one is started.
  obtain hland | ⟨p, left, expected, hland⟩ := o.writes_land result
  · rw [← hland]
    exact writes_fill misses _
  · rw [fill_of_busy (by rw [hland]; nofun)]
    exact .inr ⟨p, left, expected, hland⟩

end Outline

end DockLink
