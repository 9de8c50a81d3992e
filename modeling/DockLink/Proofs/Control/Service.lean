import DockLink.Proofs.Control.Responding

/-!
# Services

A service is a responder at work: the controller's transactions come in, cut anywhere, the
application takes the results and answers, and the channel completes the writes in order. A service
never faults, and its blocks are accounted for, whatever happens.
-/

namespace DockLink

open Transaction

variable {depth : Nat}

/-- What happens at a service. -/
inductive ServiceAction where
  | enable
  | disable
  | receive (data : Bytes)
  | transactionEnd
  /-- The application takes a result. -/
  | pop
  /-- The channel completes its oldest write. -/
  | complete (result : WriteResult)
  | respond (length : Nat) (fill : Bytes → Except Fault Bytes)
  | respondBlob (blob : Option (ContentType × Packet))
  | deed (deed : Deed)

namespace ServiceAction

/-- The bytes that come in. -/
def data : ServiceAction → Bytes
  | .receive data => data
  | _ => []

/-- Whether an action leaves a transaction as it is, apart from the bytes that come in. -/
def isWithin : ServiceAction → Bool
  | .disable | .transactionEnd => false
  | _ => true

end ServiceAction

/-- A responder with its channel and its application. -/
structure Service (depth : Nat) where
  station : Station (Responder depth)
  /-- The results that the application took, oldest first. -/
  popped : List Notice := []

/-- The blocks of a result's packet. -/
def Received.blocks : Received → List Block
  | .ok (.sendBlob _ packet) => packet.blocks
  | _ => []

theorem Received.coe_blocks (result : Received) :
    ((Received.blocks result : List Block) : Multiset Block) = Received.handles result := by
  cases result with
  | error e => rfl
  | ok request =>
      cases request with
      | sendBlob contentType packet => rfl
      | _ => rfl

namespace Service

def responder (s : Service depth) : Responder depth := s.station.endpoint

/-- A service that begins with a responder, and whose application holds nothing. -/
def start (r : Responder depth) : Service depth := { station := { endpoint := r } }

def take (s : Service depth) (result : Received) (r : Responder depth) : Service depth where
  station := { s.station with endpoint := r, held := Received.blocks result ++ s.station.held }
  popped := s.popped ++ [Received.notice s.responder.pool result]

def use (s : Service depth) (held : List Block) (pool : Pool) : Service depth :=
  { s with station := { s.station.withPool pool with held } }

/-- What happens next. The channel can only complete a write that it owes; otherwise nothing
happens. -/
def step (s : Service depth) : ServiceAction → Except Fault (Service depth)
  | .enable => .ok { s with station := s.station.act Responder.enable }
  | .disable => .ok { s with station := s.station.act Responder.disable }
  | .receive data => (s.station.receive data).map fun station => { s with station }
  | .transactionEnd => .ok { s with station := s.station.transactionEnd }
  | .pop =>
    match s.responder.popRequest? with
    | none => .ok s
    | some (result, r) => .ok (s.take result r)
  | .complete result =>
    match s.station.complete fun _ => result with
    | none => .ok s
    | some (station, none) => .ok { s with station }
    | some (_, some fault) => .error fault
  | .respond length fill =>
    .ok { s with station := (s.station.answer fun r => r.respond length fill).1 }
  | .respondBlob blob => .ok { s with station := (s.station.answer fun r => r.respondBlob blob).1 }
  | .deed deed =>
    .ok (s.use (deed.apply s.station.held s.responder.pool).1
      (deed.apply s.station.held s.responder.pool).2)

def run (s : Service depth) : List ServiceAction → Except Fault (Service depth)
  | [] => .ok s
  | action :: rest => do run (← s.step action) rest

def docket (s : Service depth) : Docket := s.responder.docket

/-- The results that did not find the queue full: those that the application took, and those that
wait for it. -/
def notices (s : Service depth) : List Notice := s.popped ++ s.docket.queued

/-- What holds of a service between two actions. -/
structure Sound (s : Service depth) : Prop where
  responder : s.responder.Sound s.station.channel.outstanding s.station.held
  settled : s.responder.orders = []

/-- What an action brings about: results, which are told or find the queue full. -/
structure Tells (s : Service depth) (results : List Notice) (s' : Service depth) : Prop where
  limit_eq : s'.docket.limit = s.docket.limit
  told : s'.notices = s.notices ++ results ∧ s'.docket.dropped = s.docket.dropped ∨
    depth ≤ s.docket.queued.length ∧ s'.notices = s.notices ∧
      s'.docket.dropped = s.docket.dropped + UInt32.ofNat results.length
  length_le : s'.docket.queued.length ≤ s.docket.queued.length + results.length

variable {s s' s₁ : Service depth} {results : List Notice}

theorem Tells.refl (s : Service depth) : s.Tells [] s :=
  ⟨rfl, Or.inl ⟨(List.append_nil _).symm, rfl⟩, Nat.le_refl _⟩

theorem Tells.eq_of_nil (h : s.Tells [] s') :
    s'.notices = s.notices ∧ s'.docket.dropped = s.docket.dropped := by
  rcases h.told with ⟨hnotices, hdropped⟩ | ⟨-, hnotices, hdropped⟩
  · exact ⟨hnotices.trans (List.append_nil _), hdropped⟩
  · exact ⟨hnotices, hdropped.trans (UInt32.add_zero _)⟩

theorem Tells.before (h₁ : s.Tells [] s₁) (h₂ : s₁.Tells results s') : s.Tells results s' := by
  obtain ⟨hnotices, hdropped⟩ := h₁.eq_of_nil
  refine ⟨h₂.limit_eq.trans h₁.limit_eq, ?_,
    h₂.length_le.trans (Nat.add_le_add_right h₁.length_le _)⟩
  rw [← hnotices, ← hdropped]
  exact h₂.told.imp id fun ⟨hfull, htold⟩ => ⟨hfull.trans h₁.length_le, htold⟩

theorem Tells.after (h₁ : s.Tells results s₁) (h₂ : s₁.Tells [] s') : s.Tells results s' := by
  obtain ⟨hnotices, hdropped⟩ := h₂.eq_of_nil
  refine ⟨h₂.limit_eq.trans h₁.limit_eq, ?_, h₂.length_le.trans h₁.length_le⟩
  rw [hnotices, hdropped]
  exact h₁.told

theorem tells_post {c : Docket} {notice : Notice} (hdocket : s'.docket = c.post notice)
    (hlimit : c.limit = s.docket.limit) (hdepth : c.depth = depth)
    (hqueued : c.queued = s.docket.queued) (hdropped : c.dropped = s.docket.dropped)
    (hpopped : s'.popped = s.popped) : s.Tells [notice] s' := by
  unfold Docket.post at hdocket
  rw [hdepth] at hdocket
  split at hdocket
  · refine ⟨by rw [hdocket, ← hlimit], Or.inl ⟨?_, by rw [hdocket, ← hdropped]⟩, ?_⟩
    · rw [notices, notices, hdocket, hpopped, ← hqueued, List.append_assoc]
    · rw [hdocket, ← hqueued, List.length_append]
  · rename_i hfull
    refine ⟨by rw [hdocket, ← hlimit], Or.inr ⟨?_, ?_, ?_⟩, ?_⟩
    · rw [← hqueued]
      exact Nat.not_lt.1 hfull
    · rw [notices, notices, hdocket, hpopped, ← hqueued]
    · rw [hdocket, ← hdropped]
      rfl
    · rw [hdocket, ← hqueued]
      exact Nat.le_add_right _ _

theorem tells_nil {c : Docket} (hdocket : s'.docket = c) (hlimit : c.limit = s.docket.limit)
    (hqueued : c.queued = s.docket.queued) (hdropped : c.dropped = s.docket.dropped)
    (hpopped : s'.popped = s.popped) : s.Tells [] s' := by
  subst hdocket
  refine ⟨hlimit, Or.inl ⟨?_, hdropped⟩, ?_⟩
  · rw [notices, notices, hqueued, hpopped, List.append_nil]
  · rw [hqueued]
    exact Nat.le_add_right _ _

/-! ## Telling the channel -/

/-- What a step of the responder makes of the service, once the channel is told. -/
theorem settled_of_goes {c : Docket} {owed : List Write} {rest : Multiset Block}
    {r : Responder depth} {held : List Block} {channel : Channel}
    (hgoes : s.responder.Goes owed rest c r) (howed : channel.outstanding = owed)
    (hheld : (held : Multiset Block) = rest) :
    Sound { s with station := { s.station with endpoint := r, channel, held }.settle } ∧
      docket { s with station := { s.station with endpoint := r, channel, held }.settle } = c := by
  subst howed hheld
  have hchannel : ({ s.station with endpoint := r, channel, held }.settle).channel.outstanding =
      channel.outstanding ++ r.ordered := Channel.outstanding_obeyAll _ _
  have howed : channel.outstanding ++ r.ordered ++ ([] : List Write) =
      channel.outstanding ++ r.ordered := List.append_nil _
  refine ⟨⟨?_, rfl⟩, hgoes.docket_eq⟩
  rw [hchannel]
  exact {
    pool := hgoes.sound.pool.cast (by
      show _ = _ + Framer.lent (channel.outstanding ++ r.ordered ++ []) + _
      rw [howed]
      rfl)
    decoder := hgoes.sound.decoder
    requests := hgoes.sound.requests
    responses := by
      show _ = (channel.outstanding ++ r.ordered ++ []).length
      rw [howed]
      exact hgoes.sound.responses }

theorem Sound.ordered_nil (hs : s.Sound) : s.responder.ordered = [] := by
  rw [Responder.ordered, hs.settled]
  rfl

/-- Between two actions the channel knows all orders. -/
theorem Sound.settle_eq (hs : s.Sound) : s.station.settle = s.station := by
  obtain ⟨⟨r, channel, kept, held, issued⟩, popped⟩ := s
  obtain ⟨pool, decoder, requests, responses, dropped, orders⟩ := r
  obtain rfl : orders = [] := hs.settled
  rfl

/-! ## The actions -/

theorem step_receive {data : Bytes} {r : Responder depth} (h : s.responder.received data = .ok r) :
    s.step (.receive data) =
      .ok { s with station := { s.station with endpoint := r }.settle } := by
  show (((s.responder.received data).map _).map _) = _
  rw [h]
  rfl

theorem step_complete_nil (h : s.station.channel.outstanding = []) (result : WriteResult) :
    s.step (.complete result) = .ok s := by
  simp only [step, Station.complete, Station.takeWrite?, h, Option.map_none]

theorem step_complete_cons {w : Write} {owed : List Write}
    (h : s.station.channel.outstanding = w :: owed) (result : WriteResult) :
    s.step (.complete result) = .ok { s with
      station := { s.station with
        endpoint := s.responder.writeComplete w.block
        channel := { s.station.channel with outstanding := owed } }.settle } := by
  simp only [step, Station.complete, Station.takeWrite?, h, Option.map_some, Station.report]
  rfl

theorem Sound.pool_held (hs : s.Sound) :
    s.responder.pool.Sound ((s.station.held : Multiset Block) + (s.responder.handles +
      Framer.lent (s.station.channel.outstanding ++ s.responder.ordered))) :=
  hs.responder.pool.cast (add_comm _ _)

/-- An action that is not about the transaction. -/
def Idles (s : Service depth) (a : ServiceAction) : Prop :=
  ∃ s', s.step a = .ok s' ∧ s'.Sound ∧ s.Tells [] s' ∧ s'.docket.heard = s.docket.heard

theorem idles_of_goes {a : ServiceAction} {r : Responder depth}
    (hgoes : s.responder.Goes s.station.channel.outstanding s.station.held s.docket r)
    (hstep : s.step a = .ok { s with station := { s.station with endpoint := r }.settle }) :
    s.Idles a := by
  obtain ⟨hsound, hdocket⟩ := settled_of_goes hgoes rfl rfl
  exact ⟨_, hstep, hsound, tells_nil hdocket rfl rfl rfl rfl, congrArg Docket.heard hdocket⟩

theorem Sound.pop_idles (hs : s.Sound) : s.Idles .pop := by
  cases hp : s.responder.popRequest? with
  | none => exact ⟨s, by simp only [step, hp], hs, Tells.refl s, rfl⟩
  | some popped =>
      obtain ⟨result, r⟩ := popped
      obtain ⟨hsound, horders, -, queued, hqueued, hdocket⟩ := hs.responder.popRequest hp
      have hheld : Received.handles result + (s.station.held : Multiset Block) =
          (s.take result r).station.held := by
        rw [← Received.coe_blocks, Multiset.coe_add]
        rfl
      have hdocket' : (s.take result r).docket = { s.docket with queued } := hdocket
      have hqueued' : s.docket.queued = Received.notice s.responder.pool result :: queued := hqueued
      refine ⟨s.take result r, by simp only [step, hp],
        ⟨hsound.cast hheld, horders.trans hs.settled⟩, ⟨?_, Or.inl ⟨?_, ?_⟩, ?_⟩, ?_⟩
      · rw [hdocket']
      · rw [notices, notices, hdocket', hqueued', List.append_nil]
        show s.popped ++ [_] ++ queued = _
        rw [List.append_assoc]
        rfl
      · rw [hdocket']
      · rw [hdocket', hqueued', List.length_cons]
        exact Nat.le_succ _
      · rw [hdocket']

theorem Sound.complete_idles (hs : s.Sound) (result : WriteResult) :
    s.Idles (.complete result) := by
  cases hout : s.station.channel.outstanding with
  | nil => exact ⟨s, step_complete_nil hout result, hs, Tells.refl s, rfl⟩
  | cons w owed =>
      have hresponder := hs.responder
      rw [hout] at hresponder
      have hgoes := hresponder.writeComplete
      have howed : ({ s.station.channel with outstanding := owed } : Channel).outstanding = owed :=
        rfl
      obtain ⟨hsound, hdocket⟩ := settled_of_goes hgoes howed rfl
      exact ⟨_, step_complete_cons hout result, hsound, tells_nil hdocket rfl rfl rfl rfl,
        congrArg Docket.heard hdocket⟩

theorem Sound.deed_idles (hs : s.Sound) (deed : Deed) : s.Idles (.deed deed) := by
  obtain ⟨hsound, hkeeps⟩ := deed.apply_spec hs.pool_held
  obtain ⟨hresponder, hdocket⟩ := hs.responder.withPool (hsound.cast (add_comm _ _))
    (hkeeps.mono fun b hb => Multiset.mem_add.2 (Or.inl hb))
  exact ⟨_, rfl, ⟨hresponder, hs.settled⟩, tells_nil hdocket rfl rfl rfl rfl,
    congrArg Docket.heard hdocket⟩

theorem Sound.receive_open (hs : s.Sound) {heard : Bytes} (hheard : s.docket.heard = some heard)
    (data : Bytes) :
    ∃ s', s.step (.receive data) = .ok s' ∧ s'.Sound ∧
      ((Decoder.Timely s.responder.pool true heard data ∧ s.Tells [] s' ∧
        s'.docket.heard = some (heard ++ data)) ∨
      ∃ room notice, Decoder.Timely s.responder.pool room heard data ∧
        verdict? s.docket.limit room (heard ++ data) = some notice ∧ s.Tells [notice] s' ∧
        s'.docket.heard = none) := by
  obtain ⟨r, hreceived, hdone⟩ := hs.responder.received_open hheard data
  have hstep := step_receive hreceived
  rcases hdone with ⟨hroom, hgoes⟩ | ⟨room, notice, hroom, hverdict, hgoes⟩
  · obtain ⟨hsound, hdocket⟩ := settled_of_goes hgoes rfl rfl
    exact ⟨_, hstep, hsound, Or.inl ⟨hroom, tells_nil hdocket rfl rfl rfl rfl,
      congrArg Docket.heard hdocket⟩⟩
  · obtain ⟨hsound, hdocket⟩ := settled_of_goes hgoes rfl rfl
    refine ⟨_, hstep, hsound, Or.inr ⟨room, notice, hroom, hverdict,
      tells_post hdocket rfl rfl rfl rfl rfl, ?_⟩⟩
    rw [hdocket, Docket.post]
    split
    · rfl
    · rfl

theorem Sound.receive_done (hs : s.Sound) (hheard : s.docket.heard = none) (data : Bytes) :
    s.Idles (.receive data) :=
  idles_of_goes (Responder.Goes.refl hs.responder)
    (step_receive (Responder.received_of_done hheard data))

theorem Sound.idles (hs : s.Sound) {a : ServiceAction} (hwithin : a.isWithin)
    (hdata : ∀ data, a ≠ .receive data) : s.Idles a := by
  cases a with
  | enable => exact idles_of_goes hs.responder.enable rfl
  | disable => cases hwithin
  | receive data => exact absurd rfl (hdata data)
  | transactionEnd => cases hwithin
  | pop => exact hs.pop_idles
  | complete result => exact hs.complete_idles result
  | respond length fill => exact idles_of_goes (hs.responder.respond length fill) rfl
  | respondBlob blob => exact idles_of_goes (hs.responder.respondBlob blob) rfl
  | deed deed => exact hs.deed_idles deed

/-- The end of a transaction reports the command that it cuts. -/
theorem Sound.transactionEnd (hs : s.Sound) :
    ∃ s', s.step .transactionEnd = .ok s' ∧ s'.Sound ∧ s'.docket.heard = some [] ∧
      s.Tells (s.docket.heard.bind cutNotice?).toList s' := by
  obtain ⟨hsound, hdocket⟩ := settled_of_goes hs.responder.transactionEnd rfl rfl
  refine ⟨{ s with station := { s.station with endpoint := s.responder.transactionEnd }.settle },
    rfl, hsound, ?_, ?_⟩
  · rw [hdocket, Docket.close]
    split
    · rw [Docket.post]
      split
      · rfl
      · rfl
    · rfl
  · unfold Docket.close at hdocket
    split at hdocket
    · rename_i notice hnotice
      rw [show s.docket.heard.bind cutNotice? = some notice from hnotice]
      exact tells_post hdocket rfl rfl rfl rfl rfl
    · rename_i hnone
      rw [show s.docket.heard.bind cutNotice? = none from hnone]
      exact tells_nil hdocket rfl rfl rfl rfl

theorem Sound.disable (hs : s.Sound) :
    ∃ s', s.step .disable = .ok s' ∧ s'.Sound ∧ s'.docket.heard = some [] ∧ s.Tells [] s' := by
  obtain ⟨hsound, hdocket⟩ := settled_of_goes hs.responder.disable rfl rfl
  exact ⟨_, rfl, hsound, congrArg Docket.heard hdocket, tells_nil hdocket rfl rfl rfl rfl⟩

theorem Sound.goesOn (hs : s.Sound) (a : ServiceAction) :
    ∃ s', s.step a = .ok s' ∧ s'.Sound ∧ s'.docket.limit = s.docket.limit := by
  have hidles : s.Idles a → ∃ s', s.step a = .ok s' ∧ s'.Sound ∧ s'.docket.limit = s.docket.limit :=
    fun ⟨s', hstep, hsound, htells, _⟩ => ⟨s', hstep, hsound, htells.limit_eq⟩
  cases a with
  | receive data =>
      cases hheard : s.docket.heard with
      | none => exact hidles (hs.receive_done hheard data)
      | some heard =>
          obtain ⟨s', hstep, hsound, ⟨-, htells, -⟩ | ⟨_, _, -, -, htells, -⟩⟩ :=
            hs.receive_open hheard data
          · exact ⟨s', hstep, hsound, htells.limit_eq⟩
          · exact ⟨s', hstep, hsound, htells.limit_eq⟩
  | transactionEnd =>
      obtain ⟨s', hstep, hsound, -, htells⟩ := hs.transactionEnd
      exact ⟨s', hstep, hsound, htells.limit_eq⟩
  | disable =>
      obtain ⟨s', hstep, hsound, -, htells⟩ := hs.disable
      exact ⟨s', hstep, hsound, htells.limit_eq⟩
  | enable => exact hidles (hs.idles rfl nofun)
  | pop => exact hidles (hs.idles rfl nofun)
  | complete result => exact hidles (hs.idles rfl nofun)
  | respond length fill => exact hidles (hs.idles rfl nofun)
  | respondBlob blob => exact hidles (hs.idles rfl nofun)
  | deed deed => exact hidles (hs.idles rfl nofun)

theorem run_cons {a : ServiceAction} (h : s.step a = .ok s₁) (rest : List ServiceAction) :
    s.run (a :: rest) = s₁.run rest := by
  rw [run, h]
  rfl

theorem Sound.run_goesOn (actions : List ServiceAction) {s : Service depth} (hs : s.Sound) :
    ∃ s', s.run actions = .ok s' ∧ s'.Sound ∧ s'.docket.limit = s.docket.limit := by
  induction actions generalizing s with
  | nil => exact ⟨s, rfl, hs, rfl⟩
  | cons a rest ih =>
      obtain ⟨s₁, hstep, hs₁, hlimit₁⟩ := hs.goesOn a
      obtain ⟨s', hrun, hs', hlimit⟩ := ih hs₁
      exact ⟨s', (run_cons hstep rest).trans hrun, hs', hlimit.trans hlimit₁⟩

theorem sound_start {pool : Pool} {limit : Nat} {r : Responder depth} (hpool : pool.Sound 0)
    (hr : Responder.ofPool pool limit = .ok r) :
    (start r).Sound ∧ (start r).docket.limit = limit := by
  unfold Responder.ofPool at hr
  simp only at hr
  split at hr
  · cases hr
  · split at hr
    · cases hr
    · split at hr
      · cases hr
      · cases hr
        refine ⟨⟨⟨?_, trivial, ?_, rfl⟩, rfl⟩, rfl⟩
        · show pool.Sound (0 + ((BoundedQueue.empty : BoundedQueue Received depth).toList.map
            Received.handles).sum + 0 + 0)
          rw [BoundedQueue.toList_empty]
          exact hpool
        · intro result hresult
          have hmem : result ∈ (BoundedQueue.empty : BoundedQueue Received depth).toList := hresult
          rw [BoundedQueue.toList_empty] at hmem
          cases hmem

end Service

end DockLink
