import DockLink.Proofs.Transfer.Separation

/-!
# Silence after a receive fault

A fault is the last thing that is read of a transaction. From then on the receive path ignores what
comes in, and the application hears only of the packets it sends, until the transaction ends or the
framer is closed. There is one exception: that a packet is too short for its content type is found
out behind the receive path, which goes on.
-/

namespace DockLink

namespace Decoder

variable {limits : Limits} {seen good : List Seen} {s s' : State} {data : Bytes}

def Seen.isFault : Seen → Bool
  | .fault _ => true
  | _ => false

/-- Whether a packet is too short for the content type that it should begin with. -/
def Seen.isShort (config : Framer.Config) : Seen → Bool
  | .packet content => config.tagged ∧ content.length < Framer.Config.contentTypeLength
  | _ => false

/-- Without content types no packet is too short. -/
theorem Seen.tagged_of_isShort {config : Framer.Config} {x : Seen} (h : x.isShort config) :
    config.tagged := by
  cases x with
  | packet content => exact (of_decide_eq_true h).1
  | blob => cases h
  | fault error => cases h

/-- How a reading stands: nothing was at fault so far, or the last thing was. -/
inductive Stops : List Seen → State → Prop where
  | sound {seen : List Seen} {s : State} (good : ∀ x ∈ seen, x.isFault = false) : Stops seen s
  | fault {seen : List Seen} (good : ∀ x ∈ seen, x.isFault = false) (error : LinkError) :
      Stops (seen ++ [.fault error]) .discard

theorem Stops.prepend (hgood : ∀ x ∈ good, x.isFault = false) (h : Stops seen s) :
    Stops (good ++ seen) s := by
  cases h with
  | sound hseen => exact .sound (List.forall_mem_append.2 ⟨hgood, hseen⟩)
  | fault hseen error =>
      rw [← List.append_assoc]
      exact .fault (List.forall_mem_append.2 ⟨hgood, hseen⟩) error

theorem stops_fault (error : LinkError) : Stops [.fault error] .discard :=
  .fault (List.forall_mem_nil _) error

theorem stops_scan (limits : Limits) (p : Partial) (bytes : Bytes) :
    Stops (scan limits p bytes).1 (scan limits p bytes).2 := by
  -- Each good blob makes the input shorter.
  induction hn : bytes.length using Nat.strong_induction_on generalizing p bytes with
  | _ n ih =>
      cases hread : readBlob limits.maxPayload bytes with
      | short =>
          rw [scan_of_short hread]
          exact .sound (List.forall_mem_nil _)
      | bad error =>
          rw [scan_of_bad hread]
          exact stops_fault error
      | good payload more rest =>
          have hlt := hn ▸ length_lt_of_readBlob hread
          rw [scan_of_good hread]
          cases p.add limits payload with
          | none => exact stops_fault .lengthOutOfRange
          | some whole =>
              have hblob : ∀ x ∈ [Seen.blob], x.isFault = false := List.forall_mem_singleton.2 rfl
              cases more with
              | true => exact (ih _ hlt whole rest rfl).prepend hblob
              | false =>
                  have hpacket : ∀ x ∈ [Seen.blob, .packet whole.content], x.isFault = false :=
                    List.forall_mem_cons.2 ⟨rfl, List.forall_mem_singleton.2 rfl⟩
                  exact (ih _ hlt {} rest rfl).prepend hpacket

theorem stops_push (limits : Limits) (s : State) (data : Bytes) :
    Stops (s.push limits data).1 (s.push limits data).2 := by
  cases s with
  | discard => exact .sound (List.forall_mem_nil _)
  | expect p rest => exact stops_scan limits p (rest ++ data)

theorem Stops.all_good (h : Stops seen s) (hs : s ≠ .discard) : ∀ x ∈ seen, x.isFault = false := by
  cases h with
  | sound hgood => exact hgood
  | fault => exact absurd rfl hs

/-- Want of memory is a fault like others. -/
theorem State.Takes.stops (h : s.Takes limits data seen s') : Stops seen s' := by
  rcases h with h | ⟨k, -, hgo, rfl, rfl⟩
  · have hstops := stops_push limits s data
    rw [h] at hstops
    exact hstops
  · exact .fault ((stops_push limits s (data.take k)).all_good hgo) .outOfMemory

end Decoder

open Decoder

namespace Board

variable {seen : List Seen} {s : State}

theorem isShort_of_unpack {config : Framer.Config} {content : Bytes}
    (h : unpack config content = none) : (Seen.packet content).isShort config = true := by
  unfold unpack at h
  split at h
  · rename_i htagged
    exact decide_eq_true ⟨htagged, Framer.readTag_eq_none_iff.1 h⟩
  · cases h

/-- Of what is good only a packet that is too short is reported as a fault. -/
theorem gains_absorb_good (config : Framer.Config) {x : Seen} (hgood : x.isFault = false)
    (b : Board) :
    ∃ reports, b.Gains reports (b.absorb config x) ∧
      ∀ error n, .receiveFailed error n ∈ reports →
        error = .lengthOutOfRange ∧ x.isShort config := by
  cases x with
  | blob => exact ⟨[], gains_nil rfl rfl, fun _ _ h => absurd h List.not_mem_nil⟩
  | fault error => cases hgood
  | packet content =>
      simp only [absorb]
      split
      · rename_i hunpack
        obtain ⟨n, hgains⟩ := b.gains_receiveFailed .lengthOutOfRange
        refine ⟨_, hgains, fun error n' hmem => ?_⟩
        cases List.mem_singleton.1 hmem
        exact ⟨rfl, isShort_of_unpack hunpack⟩
      · refine ⟨_, (gains_nil rfl rfl).trans (gains_emit _ _), fun error n hmem => ?_⟩
        cases List.mem_singleton.1 hmem

theorem gains_absorbAll_good (config : Framer.Config) (hgood : ∀ x ∈ seen, x.isFault = false)
    (b : Board) :
    ∃ reports, b.Gains reports (seen.foldl (Board.absorb config) b) ∧
      ∀ error n, .receiveFailed error n ∈ reports →
        error = .lengthOutOfRange ∧ ∃ x ∈ seen, x.isShort config := by
  induction seen generalizing b with
  | nil => exact ⟨[], gains_nil rfl rfl, fun _ _ h => absurd h List.not_mem_nil⟩
  | cons x rest ih =>
      obtain ⟨hx, hrest⟩ := List.forall_mem_cons.1 hgood
      obtain ⟨reports₁, hgains₁, hshort₁⟩ := gains_absorb_good config hx b
      obtain ⟨reports₂, hgains₂, hshort₂⟩ := ih hrest (b.absorb config x)
      refine ⟨reports₁ ++ reports₂, hgains₁.trans hgains₂, fun error n hmem => ?_⟩
      rcases List.mem_append.1 hmem with hmem | hmem
      · obtain ⟨herror, hshort⟩ := hshort₁ error n hmem
        exact ⟨herror, x, List.mem_cons_self .., hshort⟩
      · obtain ⟨herror, y, hy, hshort⟩ := hshort₂ error n hmem
        exact ⟨herror, y, List.mem_cons_of_mem _ hy, hshort⟩

/-- What is reported as a fault was read as one, or is a packet that is too short; and a fault that
was read is the last thing to be reported. -/
theorem gains_absorbAll_stops (config : Framer.Config) (hstops : Stops seen s) (b : Board) :
    ∃ reports, b.Gains reports (seen.foldl (Board.absorb config) b) ∧
      (∀ error n, .receiveFailed error n ∈ reports →
        .fault error ∈ seen ∨ error = .lengthOutOfRange ∧ ∃ x ∈ seen, x.isShort config) ∧
      ∀ error, .fault error ∈ seen →
        (∃ n, reports.getLast? = some (.receiveFailed error n)) ∧ s = .discard := by
  cases hstops with
  | sound hgood =>
      obtain ⟨reports, hgains, hshort⟩ := gains_absorbAll_good config hgood b
      refine ⟨reports, hgains, fun error n hmem => Or.inr (hshort error n hmem),
        fun error hmem => ?_⟩
      cases hgood _ hmem
  | @fault good hgood error =>
      obtain ⟨reports, hgains, hshort⟩ := gains_absorbAll_good config hgood b
      obtain ⟨n, hfault⟩ := (good.foldl (Board.absorb config) b).gains_receiveFailed error
      rw [List.foldl_append]
      refine ⟨reports ++ [.receiveFailed error n], hgains.trans hfault, fun error' n' hmem => ?_,
        fun error' hmem => ?_⟩
      · rcases List.mem_append.1 hmem with hmem | hmem
        · obtain ⟨herror, x, hx, hshort⟩ := hshort error' n' hmem
          exact Or.inr ⟨herror, x, List.mem_append_left _ hx, hshort⟩
        · cases List.mem_singleton.1 hmem
          exact Or.inl (List.mem_append_right _ (List.mem_singleton_self _))
      · rcases List.mem_append.1 hmem with hmem | hmem
        · cases hgood _ hmem
        · cases List.mem_singleton.1 hmem
          exact ⟨⟨n, List.getLast?_concat⟩, rfl⟩

end Board

theorem Report.eq_receiveFailed_of_bare {r : Report} {error : LinkError} {n : UInt8}
    (h : r.bare = .receiveFailed error n) : r = .receiveFailed error n := by
  cases r with
  | receiveFailed error n =>
      cases h
      rfl
  | received contentType content => cases h
  | sent ticket => cases h
  | sendFailed ticket error => cases h

/-- No step changes the configuration. -/
theorem Course.Step.config_eq {c c' : Course} {a : Action} (h : Step c a c') :
    c'.outline.config = c.outline.config := by
  cases h with
  | enable => exact (Outline.ends_enable _).config_eq
  | disable =>
      obtain ⟨reports, hends⟩ := Outline.ends_disable c.outline
      exact hends.config_eq
  | @accept sent packet misses =>
      obtain ⟨missed, hends⟩ :=
        Outline.ends_fill misses (c.outline.accept (sent.parcel c.outline.config).stream)
      exact hends.config_eq
  | receive => rfl
  | transactionEnd =>
      obtain ⟨reports, -, hends⟩ := Outline.ends_transactionEnd c.outline
      exact hends.config_eq
  | pop => rfl
  | complete misses result =>
      obtain ⟨reports, hends, -⟩ := Outline.ends_complete misses c.outline result
      exact hends.config_eq
  | deaf => rfl
  | stay => rfl

theorem Course.Run.config_eq {c c' : Course} {actions : List Action} (h : Run c actions c') :
    c'.outline.config = c.outline.config := by
  induction h with
  | done => rfl
  | step first run ih => exact ih.trans first.config_eq

theorem Course.Step.of_receive {c c' : Course} {data : Bytes} (h : Step c (.receive data) c')
    (henabled : c.outline.enabled) : ∃ seen reading,
      c.outline.reading.Takes c.outline.limits data seen reading ∧
        c' = { c with outline := c.outline.absorb seen reading } := by
  cases h with
  | receive enabled takes => exact ⟨_, _, takes, rfl⟩
  | deaf _ closed =>
      rw [closed] at henabled
      cases henabled
  | stay optional => cases optional

namespace Receiver

/-- Bytes that come in while input is ignored change nothing. -/
theorem push_of_discard {σ : Type} {r : Receiver} (h : r.phase = .discard) (pool : Pool)
    (deliver : σ → Pool → Reassembly.Output → Except Fault (σ × Pool)) (st : σ) (data : Bytes) :
    r.push pool deliver st data = .ok (r, pool, st) := by
  have hnone : ∀ n, pushRuns deliver n r pool st [] = .ok (r, pool, st) := by
    intro n
    cases n with
    | zero => rfl
    | succ n => rfl
  cases data with
  | nil => exact hnone _
  | cons b rest =>
      have hwanted : r.wanted (b :: rest) = (b :: rest).length := by simp only [wanted, h]
      have htake : r.take pool ((b :: rest).take (b :: rest).length) = .ok (r, pool, []) := by
        simp only [take, h]
      have hruns : r.push pool deliver st (b :: rest) =
          pushRuns deliver rest.length r pool st ((b :: rest).drop (b :: rest).length) := by
        simp only [push, List.length_cons, pushRuns, List.isEmpty_cons, hwanted] at htake ⊢
        rw [htake]
        rfl
      rw [hruns, List.drop_length]
      exact hnone _

theorem phase_of_reading {r : Receiver} {pool : Pool} (h : r.reading pool = .discard) :
    r.phase = .discard := by
  unfold reading at h
  split at h
  · assumption
  · cases h

end Receiver

namespace Session

variable {queueDepth eventDepth : Nat} {s s' : Session queueDepth eventDepth}
  {f : Framer queueDepth eventDepth} {a : Action}

/-- Until the transaction ends or the framer is closed, input is ignored and no blob accepted, and
nothing is reported but the outcomes of packets. -/
def Silent (s : Session queueDepth eventDepth) : Prop :=
  ∀ actions : List Action, .transactionEnd ∉ actions → .disable ∉ actions →
    ∃ s', s.run actions = .ok s' ∧ s'.framer.rxState = .discard ∧
      s'.framer.statistics.blobsReceived = s.framer.statistics.blobsReceived ∧
      (∃ told, s'.framer.reporter.record = told ++ s.framer.reporter.record ∧
        ∀ event ∈ told, event.ticket?.isSome) ∧
      ∀ data, s'.step (.receive data) = .ok s'

theorem Sound.receive_of_discard (hs : s.Sound) (hdiscard : s.framer.receiver.phase = .discard)
    (data : Bytes) : s.step (.receive data) = .ok s := by
  have hreceived : s.framer.received data = .ok s.framer := by
    unfold Framer.received
    split
    · rw [Receiver.push_of_discard hdiscard]
      rfl
    · rfl
  have hsame : ({ s with station := s.station.settle } : Session queueDepth eventDepth) = s :=
    congrArg (fun station => { s with station }) hs.settle_eq
  exact (step_receive hreceived).trans (congrArg Except.ok hsame)

/-- While input is ignored, whatever happens is a matter of the send path. -/
theorem Sound.sends_of_discard (hs : s.Sound) (henabled : s.framer.enabled)
    (hdiscard : s.framer.receiver.phase = .discard) (hend : a ≠ .transactionEnd)
    (hclose : a ≠ .disable) (hstep : s.step a = .ok s') : s.framer.Sends s'.framer := by
  cases a with
  | transactionEnd => exact absurd rfl hend
  | disable => exact absurd rfl hclose
  | enable =>
      cases hstep
      have hsame : s.framer.enable = s.framer := if_pos henabled
      have hsends : s.framer.Sends s.framer.enable := by
        rw [hsame]
        exact .refl _
      exact (sends_settle hs.settled hsends).1
  | receive data =>
      rw [hs.receive_of_discard hdiscard data] at hstep
      cases hstep
      exact .refl _
  | _ => exact (hs.sends_step rfl hstep).1

theorem Sound.run_of_discard (actions : List Action) (hend : .transactionEnd ∉ actions)
    (hclose : .disable ∉ actions) {s : Session queueDepth eventDepth} (hs : s.Sound)
    (henabled : s.framer.enabled) (hdiscard : s.framer.receiver.phase = .discard) :
    ∃ s', s.run actions = .ok s' ∧ s'.Sound ∧ s.framer.Sends s'.framer := by
  induction actions generalizing s with
  | nil => exact ⟨s, rfl, hs, .refl _⟩
  | cons a rest ih =>
      obtain ⟨s₁, hstep, hs₁, -⟩ := hs.follows a
      obtain ⟨hnend, hend⟩ := List.ne_and_not_mem_of_not_mem_cons hend
      obtain ⟨hnclose, hclose⟩ := List.ne_and_not_mem_of_not_mem_cons hclose
      have hsends := hs.sends_of_discard henabled hdiscard hnend.symm hnclose.symm hstep
      obtain ⟨s', hrun, hs', hsends'⟩ := ih hend hclose hs₁ (hsends.enabled_eq.trans henabled)
        ((congrArg Receiver.phase hsends.receiver_eq).trans hdiscard)
      refine ⟨s', ?_, hs', hsends.trans hsends'⟩
      rw [run, hstep]
      exact hrun

theorem Sound.silent (hs : s.Sound) (henabled : s.framer.enabled)
    (hdiscard : s.framer.receiver.phase = .discard) : s.Silent := by
  intro actions hend hclose
  obtain ⟨s', hrun, hs', hsends⟩ := hs.run_of_discard actions hend hclose henabled hdiscard
  have hdiscard' : s'.framer.receiver.phase = .discard :=
    (congrArg Receiver.phase hsends.receiver_eq).trans hdiscard
  refine ⟨s', hrun, ?_, hsends.blobs_eq, hsends.told, hs'.receive_of_discard hdiscard'⟩
  simp only [Framer.rxState, Receiver.state, hdiscard']

/-- After a fault that was read off the input a session is silent. -/
theorem Sound.receive_silent (hs : s.Sound) (henabled : s.framer.enabled) (data : Bytes) :
    ∃ s' seen news, s.step (.receive data) = .ok s' ∧
      s.framer.outline.reading.Takes s.framer.outline.limits data seen s'.framer.outline.reading ∧
      s'.framer.reporter.record.map LinkEvent.bare =
        news ++ s.framer.reporter.record.map LinkEvent.bare ∧
      (∀ error n, .receiveFailed error n ∈ news → .fault error ∈ seen ∨
        error = .lengthOutOfRange ∧ ∃ x ∈ seen, x.isShort s.framer.config) ∧
      ∀ error, .fault error ∈ seen →
        (∃ n, news.head? = some (.receiveFailed error n)) ∧ s'.Silent := by
  obtain ⟨s', hstep, hs', hcourse⟩ := hs.follows (.receive data)
  obtain ⟨seen, reading, htakes, hnext⟩ := hcourse.of_receive henabled
  have houtline : s'.framer.outline = s.framer.outline.absorb seen reading :=
    congrArg Course.outline hnext
  have hreading : s'.framer.outline.reading = reading := congrArg Outline.reading houtline
  obtain ⟨reports, ⟨kept, -, hrecord, -⟩, hfaults, hlast⟩ :=
    Board.gains_absorbAll_stops s.framer.config htakes.stops s.framer.outline.board
  refine ⟨s', seen, (reports.map Report.bare).reverse, hstep, hreading ▸ htakes, ?_,
    fun error n hmem => ?_, fun error hmem => ?_⟩
  · exact (congrArg (fun o : Outline => o.board.record) houtline).trans hrecord
  · obtain ⟨report, hreport, hbare⟩ := List.mem_map.1 (List.mem_reverse.1 hmem)
    obtain rfl := Report.eq_receiveFailed_of_bare hbare
    exact hfaults error n hreport
  · obtain ⟨⟨n, hlast⟩, hdiscard⟩ := hlast error hmem
    refine ⟨⟨n, ?_⟩, hs'.silent ?_ (Receiver.phase_of_reading (hreading.trans hdiscard))⟩
    · rw [List.head?_reverse, List.getLast?_map, hlast]
      rfl
    · exact (congrArg Outline.enabled houtline).trans henabled

/-- However the application and the channel act: received bytes are reported as a fault if they were
read as one, or if they complete a packet that is too short for its content type. And a fault that
was read is the last that is heard of what comes in until the transaction ends or the framer is
closed. -/
theorem run_start_falls_silent {config : Framer.Config} {classes : List (Nat × Nat)} {pool : Pool}
    (hpool : Pool.ofClasses classes = .ok pool) (hclasses : ∀ c ∈ classes, 1 ≤ c.1 ∧ c.2 ≤ 255)
    (hf : Framer.ofConfig config pool = .ok f) (actions : List Action) :
    ∃ s, (start f).run actions = .ok s ∧ (s.framer.enabled → ∀ data, ∃ s' seen news,
      s.step (.receive data) = .ok s' ∧
      s.framer.outline.reading.Takes s.framer.outline.limits data seen s'.framer.outline.reading ∧
      s'.framer.reporter.record.map LinkEvent.bare =
        news ++ s.framer.reporter.record.map LinkEvent.bare ∧
      (∀ error n, .receiveFailed error n ∈ news → .fault error ∈ seen ∨
        error = .lengthOutOfRange ∧ ∃ x ∈ seen, x.isShort config) ∧
      ∀ error, .fault error ∈ seen →
        (∃ n, news.head? = some (.receiveFailed error n)) ∧ s'.Silent) := by
  obtain ⟨s, hrun, hs, hcourse⟩ :=
    (sound_start (Pool.sound_of_ofClasses hpool hclasses) hf).run_follows actions
  have hconfig : s.framer.config = config := by
    refine hcourse.config_eq.trans ?_
    rw [course_start hf]
    rfl
  refine ⟨s, hrun, fun henabled data => ?_⟩
  have hsilent := hs.receive_silent henabled data
  rwa [hconfig] at hsilent

/-- A header that announces too much is a fault, and the last thing that is heard. -/
theorem longHeader_silent : ∃ s s', (start smallFramer).run [.enable] = .ok s ∧
    s.step (.receive [5, 0]) = .ok s' ∧
    s'.framer.reporter.record = [.receiveFailed .lengthOutOfRange 1] ∧ s'.Silent := by
  have hpool : Pool.ofClasses [(16, 2)] = .ok ⟨#[.fresh 16 2]⟩ := rfl
  have hf : Framer.ofConfig { maxPayload := 4, maxPacket := 8 } ⟨#[.fresh 16 2]⟩ =
      .ok smallFramer := rfl
  obtain ⟨s, hrun, hreceive⟩ := run_start_falls_silent hpool (by decide) hf [.enable]
  have hvalue : ((start smallFramer).run [.enable]).toOption.map (fun s =>
      (s.framer.enabled, s.framer.reporter.record,
        (s.step (.receive [5, 0])).toOption.map fun s' => s'.framer.reporter.record)) =
      some (true, [], some [.receiveFailed .lengthOutOfRange 1]) := by
    decide +kernel
  rw [hrun] at hvalue
  obtain ⟨henabled, hvalue⟩ := Prod.mk.inj (Option.some.inj hvalue)
  obtain ⟨hbefore, hafter⟩ := Prod.mk.inj hvalue
  obtain ⟨s', seen, news, hstep, -, hrecord, hfaults, hsilent⟩ := hreceive henabled [5, 0]
  rw [hstep] at hafter
  have hafter' : s'.framer.reporter.record = [.receiveFailed .lengthOutOfRange 1] :=
    Option.some.inj hafter
  rw [hbefore, hafter', List.map_nil, List.append_nil] at hrecord
  subst hrecord
  rcases hfaults _ _ (List.mem_singleton_self _) with hfault | ⟨-, x, -, hshort⟩
  · exact ⟨s, s', hrun, hstep, hafter', (hsilent _ hfault).2⟩
  · have htagged : false = true := Seen.tagged_of_isShort hshort
    cases htagged

/-- A framer of packets with content types. -/
def taggedFramer : Framer 3 15 :=
  { config := { maxPayload := 4, maxPacket := 8, tagged := true }, pool := ⟨#[.fresh 16 8]⟩
    receiver := { maxPayload := 4, maxLength := 10 } }

/-- A packet without bytes is at fault, but what comes behind it is heard. -/
theorem emptyPacket_not_silent : ∃ s s',
    (start taggedFramer).run [.enable, .receive (Blob.encode [] false)] = .ok s ∧
    s.framer.reporter.record = [.receiveFailed .lengthOutOfRange 1] ∧
    s.framer.rxState = .expectHeader ∧ ¬s.Silent ∧
    s.step (.receive (Blob.encode [0, 1, 9] false)) = .ok s' ∧
    s'.framer.reporter.record.map LinkEvent.bare =
      [.received ⟨256⟩ .empty, .receiveFailed .lengthOutOfRange 1] ∧
    s'.framer.statistics.blobsReceived = s.framer.statistics.blobsReceived + 1 := by
  have hvalue : ((start taggedFramer).run [.enable, .receive (Blob.encode [] false)]).toOption.bind
      (fun s => (s.step (.receive (Blob.encode [0, 1, 9] false))).toOption.map fun s' => decide
        (s.framer.reporter.record = [.receiveFailed .lengthOutOfRange 1] ∧
          s.framer.rxState = .expectHeader ∧
          s'.framer.reporter.record.map LinkEvent.bare =
            [.received ⟨256⟩ .empty, .receiveFailed .lengthOutOfRange 1] ∧
          s'.framer.statistics.blobsReceived = s.framer.statistics.blobsReceived + 1)) =
      some true := by
    decide +kernel
  obtain ⟨s, hrun, hvalue⟩ := Option.bind_eq_some_iff.1 hvalue
  obtain ⟨s', hstep, hvalue⟩ := Option.map_eq_some_iff.1 hvalue
  obtain ⟨hrecord, hstate, hrecord', hblobs⟩ := of_decide_eq_true hvalue
  refine ⟨s, s', eq_ok_of_toOption hrun, hrecord, hstate, fun hsilent => ?_,
    eq_ok_of_toOption hstep, hrecord', hblobs⟩
  obtain ⟨_, hsame, hdiscard, -⟩ := hsilent [] List.not_mem_nil List.not_mem_nil
  cases hsame
  rw [hstate] at hdiscard
  cases hdiscard

end Session

end DockLink
