import DockLink.Proofs.Memory.Holder
import DockLink.Proofs.Transfer.Conservation
import DockLink.Proofs.Transfer.Intact

/-!
# Framers in any hands

Nothing is assumed here of those who use a framer: the channel may give back any block, at any time
and with any result, the application may send packets of blocks that it does not hold, and both may
use the pool. Only a handle that is not there cannot be given back. Even then the framer is intact,
which is enough for the laws that speak of a single operation.
-/

namespace DockLink

variable {pool : Pool}

namespace Framer

variable {queueDepth eventDepth : Nat} {f f' f₁ : Framer queueDepth eventDepth}

/-- What may be done to a framer and its pool. -/
inductive Use where
  | enable
  | disable
  | send (contentType : ContentType) (packet : Packet)
  | receive (data : Bytes)
  | transactionEnd
  /-- The application takes an event. -/
  | pop
  /-- The channel gives a block back, also one that it was never lent. -/
  | complete (block : Block) (result : WriteResult)
  /-- The channel takes its orders. -/
  | takeOrders
  /-- Somebody uses handles of the pool. -/
  | deed (held : List Block) (deed : Deed)

/-- What a use does. A handle to a slot that nobody has a handle to cannot be used. -/
def perform (f : Framer queueDepth eventDepth) : Use → Except Fault (Framer queueDepth eventDepth)
  | .enable => .ok f.enable
  | .disable => .ok f.disable
  | .send contentType packet => (f.send contentType packet).map Prod.snd
  | .receive data => f.received data
  | .transactionEnd => .ok f.transactionEnd
  | .pop => .ok ((f.popEvent?.map Prod.snd).getD f)
  | .complete block result => .ok (f.writeComplete block result).1
  | .takeOrders => .ok f.takeOrders.2
  | .deed held deed =>
    if ∀ b ∈ held, f.pool.refCount b ≠ 0 then .ok { f with pool := (deed.apply held f.pool).2 }
    else .ok f

/-- What comes of a use. One that gives back a handle that was not there meets its fault. -/
def use (f : Framer queueDepth eventDepth) (u : Use) :
    Except Fault (Framer queueDepth eventDepth) := do
  let f ← f.perform u
  f.pool.check
  return f

theorem use_eq_ok_iff {u : Use} :
    f.use u = .ok f' ↔ f.perform u = .ok f' ∧ f'.pool.fault? = none := by
  unfold use Pool.check
  cases f.perform u with
  | error fault =>
      refine iff_of_false ?_ ?_
      · intro h
        cases h
      · rintro ⟨h, -⟩
        cases h
  | ok f₁ =>
      simp only [bind, Except.bind]
      cases hfault : f₁.pool.fault? with
      | none =>
          constructor
          · intro h
            cases h
            exact ⟨rfl, hfault⟩
          · rintro ⟨h, -⟩
            exact h
      | some fault =>
          constructor
          · intro h
            cases h
          · rintro ⟨h, hnone⟩
            cases h
            cases hfault.symm.trans hnone

def useAll (f : Framer queueDepth eventDepth) :
    List Use → Except Fault (Framer queueDepth eventDepth)
  | [] => .ok f
  | use :: rest => do useAll (← f.use use) rest

theorem counts_deed {held : List Block} (h : pool.Counts)
    (hlive : ∀ b ∈ held, pool.refCount b ≠ 0) (deed : Deed) : (deed.apply held pool).2.Counts := by
  cases deed with
  | allocate size =>
      simp only [Deed.apply]
      split
      · rename_i hallocate
        exact h.allocate hallocate
      · exact h
  | retain b =>
      simp only [Deed.apply]
      split
      · rename_i hb
        split
        · rename_i hretain
          exact h.retain (hlive b hb) hretain
        · exact h
      · exact h
  | release b =>
      simp only [Deed.apply]
      split
      · exact h.release b
      · exact h
  | write b offset data =>
      simp only [Deed.apply]
      split
      · split
        · rename_i hwrite
          exact h.write hwrite
        · exact h
      · exact h

theorem Intact.use (h : f.Intact) {u : Use} (hu : f.use u = .ok f') : f'.Intact := by
  obtain ⟨hu, -⟩ := use_eq_ok_iff.1 hu
  cases u with
  | enable =>
      cases hu
      exact h.enable
  | disable =>
      cases hu
      exact h.disable
  | send contentType packet =>
      obtain ⟨⟨answer, f₁⟩, hsend, heq⟩ := exists_of_map_eq_ok hu
      cases heq
      exact h.of_sends (counts_of_send h.counts hsend) (sends_send hsend)
  | receive data => exact h.received hu
  | transactionEnd =>
      cases hu
      exact h.transactionEnd
  | pop =>
      cases hu
      cases hpop : f.popEvent? with
      | none => exact h
      | some popped =>
          obtain ⟨⟨event, events⟩, -, heq⟩ := Option.map_eq_some_iff.1 hpop
          cases heq
          exact ⟨h.counts, h.unfilled⟩
  | complete block result =>
      cases hu
      exact h.of_sends (counts_writeComplete h.counts block result)
        (sends_writeComplete f block result)
  | takeOrders =>
      cases hu
      exact ⟨h.counts, h.unfilled⟩
  | deed held deed =>
      simp only [perform] at hu
      split at hu
      · rename_i hlive
        cases hu
        exact ⟨counts_deed h.counts hlive deed, h.unfilled⟩
      · cases hu
        exact h

theorem Intact.useAll (uses : List Use) {f : Framer queueDepth eventDepth} (h : f.Intact)
    (hrun : f.useAll uses = .ok f') : f'.Intact := by
  induction uses generalizing f with
  | nil =>
      cases hrun
      exact h
  | cons u rest ih =>
      obtain ⟨f₁, hu, hrun⟩ := exists_of_bind_eq_ok hrun
      exact ih (h.use hu) hrun

theorem intact_ofConfig {config : Config} (hpool : pool.Sound 0)
    (hf : ofConfig config pool = .ok f) : f.Intact := by
  have hs := sound_ofConfig hpool hf
  exact ⟨hs.pool.counts, hs.receiver.unfilled⟩

theorem faultless_useAll (uses : List Use) {f : Framer queueDepth eventDepth}
    (h : f.pool.fault? = none) (hrun : f.useAll uses = .ok f₁) : f₁.pool.fault? = none := by
  induction uses generalizing f with
  | nil =>
      cases hrun
      exact h
  | cons u rest ih =>
      obtain ⟨f₂, hu, hrest⟩ := exists_of_bind_eq_ok hrun
      exact ih (use_eq_ok_iff.1 hu).2 hrest

/-- However a framer was used, its pool counts some handles. -/
theorem sound_of_useAll {config : Config} (hpool : pool.Sound 0) (hf : ofConfig config pool = .ok f)
    (uses : List Use) (hrun : f.useAll uses = .ok f₁) : ∃ handles, f₁.pool.Sound handles := by
  have hfresh := (sound_ofConfig hpool hf).pool.faultless
  exact ((intact_ofConfig hpool hf).useAll uses hrun).counts (faultless_useAll uses hfresh hrun)

theorem useAll_cons {u : Use} (h : f.use u = .ok f₁) (rest : List Use) :
    f.useAll (u :: rest) = f₁.useAll rest := by
  rw [useAll, h]
  rfl

theorem useAll_append (uses more : List Use) {f : Framer queueDepth eventDepth}
    (h : f.useAll uses = .ok f₁) : f.useAll (uses ++ more) = f₁.useAll more := by
  induction uses generalizing f with
  | nil =>
      cases h
      rfl
  | cons u rest ih =>
      obtain ⟨f₂, hu, hrest⟩ := exists_of_bind_eq_ok h
      exact (useAll_cons hu (rest ++ more)).trans (ih hrest)

theorem config_use {u : Use} (h : f.use u = .ok f') : f'.config = f.config := by
  obtain ⟨h, -⟩ := use_eq_ok_iff.1 h
  cases u with
  | enable =>
      cases h
      unfold enable
      split
      · rfl
      · rfl
  | disable =>
      cases h
      unfold disable
      split
      · exact ((sends_cancel _).trans (sends_flushUpTo _ _)).config_eq
      · rfl
  | send contentType packet =>
      obtain ⟨⟨answer, f₁⟩, hsend, heq⟩ := exists_of_map_eq_ok h
      cases heq
      exact (sends_send hsend).config_eq
  | receive data =>
      simp only [perform, received] at h
      split at h
      · obtain ⟨⟨receiver, q, reporter⟩, -, h⟩ := exists_of_bind_eq_ok h
        cases h
        rfl
      · cases h
        rfl
  | transactionEnd =>
      cases h
      unfold transactionEnd
      simp only
      split
      · split
        · rfl
        · rfl
      · rfl
  | pop =>
      cases h
      cases hpop : f.popEvent? with
      | none => rfl
      | some popped => exact (Session.sends_popEvent hpop).config_eq
  | complete block result =>
      cases h
      exact (sends_writeComplete f block result).config_eq
  | takeOrders =>
      cases h
      rfl
  | deed held deed =>
      simp only [perform] at h
      split at h
      · cases h
        rfl
      · cases h
        rfl

theorem config_useAll (uses : List Use) {f : Framer queueDepth eventDepth}
    (h : f.useAll uses = .ok f') : f'.config = f.config := by
  induction uses generalizing f with
  | nil =>
      cases h
      rfl
  | cons u rest ih =>
      obtain ⟨f₁, hu, hrest⟩ := exists_of_bind_eq_ok h
      exact (ih hrest).trans (config_use hu)

theorem useAll_settled {u : Use} (h : f.perform u = .ok f₁)
    (hpool : f₁.pool.fault? = none) : f.useAll [u, .takeOrders] = .ok f₁.takeOrders.2 := by
  have htake : f₁.use .takeOrders = .ok f₁.takeOrders.2 := use_eq_ok_iff.2 ⟨rfl, hpool⟩
  rw [useAll_cons (use_eq_ok_iff.2 ⟨h, hpool⟩), useAll_cons htake]
  rfl

theorem useAll_one {u : Use} (h : f.perform u = .ok f₁)
    (hpool : f₁.pool.fault? = none) : f.useAll [u] = .ok f₁ :=
  useAll_cons (use_eq_ok_iff.2 ⟨h, hpool⟩) []

end Framer

/-! ## Sessions -/

namespace Session

open Framer

variable {queueDepth eventDepth : Nat} {s s' : Session queueDepth eventDepth}
  {f : Framer queueDepth eventDepth}

/-- What an action does to the framer. One that cannot be done does nothing to it. -/
def usesOf (s : Session queueDepth eventDepth) : Action → List Use
  | .enable => [.enable, .takeOrders]
  | .disable => [.disable, .takeOrders]
  | .send contentType packet =>
    if packet.Valid s.framer.pool ∧ packet.handles ≤ (s.station.held : Multiset Block) then
      [.send contentType packet, .takeOrders]
    else []
  | .receive data => [.receive data, .takeOrders]
  | .transactionEnd => [.transactionEnd, .takeOrders]
  | .pop => [.pop]
  | .complete result =>
    match s.station.channel.outstanding with
    | [] => []
    | w :: _ => [.complete w.block result, .takeOrders]
  | .deed deed => [.deed s.station.held deed]

/-- What a run of actions does to the framer. -/
def uses (s : Session queueDepth eventDepth) : List Action → List Use
  | [] => []
  | a :: rest =>
    s.usesOf a ++
      match s.step a with
      | .ok s' => s'.uses rest
      | .error _ => []

/-- What happens in a session is what it does to its framer. -/
theorem Sound.useAll_usesOf (hs : s.Sound) (hs' : s'.Sound) {a : Action}
    (hstep : s.step a = .ok s') : s.framer.useAll (s.usesOf a) = .ok s'.framer := by
  have hpool' := hs'.framer.pool.faultless
  cases a with
  | enable =>
      cases hstep
      exact useAll_settled rfl hpool'
  | disable =>
      cases hstep
      exact useAll_settled rfl hpool'
  | transactionEnd =>
      cases hstep
      exact useAll_settled rfl hpool'
  | receive data =>
      obtain ⟨station, hreceive, heq⟩ := exists_of_map_eq_ok hstep
      obtain ⟨f₁, hreceived, hsettle⟩ := exists_of_map_eq_ok hreceive
      cases heq
      cases hsettle
      exact useAll_settled (u := .receive data) hreceived hpool'
  | send contentType packet =>
      simp only [step] at hstep
      simp only [usesOf]
      split at hstep
      · rename_i hheld
        rw [if_pos hheld]
        obtain ⟨⟨answer, f₁⟩, hsend, hstep⟩ := exists_of_bind_eq_ok hstep
        have hperform : s.framer.perform (.send contentType packet) = .ok f₁ := by
          rw [perform, hsend]
          rfl
        cases answer with
        | ok ticket =>
            cases hstep
            exact useAll_settled hperform hpool'
        | error rejection =>
            cases hstep
            exact useAll_settled hperform hpool'
      · rename_i hheld
        cases hstep
        rw [if_neg hheld]
        rfl
  | pop =>
      simp only [step] at hstep
      split at hstep
      · rename_i hpop
        cases hstep
        refine useAll_one ?_ hpool'
        rw [perform, hpop]
        rfl
      · rename_i event f₁ hpop
        cases hstep
        refine useAll_one ?_ hpool'
        rw [perform, hpop]
        rfl
  | complete result =>
      cases hout : s.station.channel.outstanding with
      | nil =>
          simp only [step, Station.complete, Station.takeWrite?, hout, Option.map_none] at hstep
          cases hstep
          simp only [usesOf, hout]
          rfl
      | cons w owed =>
          simp only [step, Station.complete, Station.takeWrite?, hout, Option.map_some] at hstep
          simp only [usesOf, hout]
          split at hstep
          · rename_i hnone
            cases hnone
          · rename_i station hreport
            cases hstep
            have hstation := congrArg (fun told => told.1.endpoint) (Option.some.inj hreport)
            have hframer : (s.framer.writeComplete w.block result).1.takeOrders.2 =
                station.endpoint := hstation
            have hpool : (s.framer.writeComplete w.block result).1.pool.fault? = none :=
              (congrArg (fun f => f.pool.fault?) hframer).trans hpool'
            exact (useAll_settled rfl hpool).trans (congrArg Except.ok hframer)
          · cases hstep
  | deed deed =>
      cases hstep
      have hlive : ∀ b ∈ s.station.held, s.framer.pool.refCount b ≠ 0 := by
        intro b hb hzero
        have hcount := hs.framer.pool.refCount_eq b
        rw [hzero, Multiset.count_add] at hcount
        have hpos : 0 < (s.station.held : Multiset Block).count b :=
          Multiset.count_pos.2 (Multiset.mem_coe.2 hb)
        have hzero' : (0 : UInt8).toNat = 0 := rfl
        omega
      refine useAll_one ?_ hpool'
      rw [perform, if_pos hlive]
      rfl

theorem Sound.useAll_uses (actions : List Action) {s : Session queueDepth eventDepth}
    (hs : s.Sound) (hrun : s.run actions = .ok s') :
    s.framer.useAll (s.uses actions) = .ok s'.framer := by
  induction actions generalizing s with
  | nil =>
      cases hrun
      rfl
  | cons a rest ih =>
      obtain ⟨s₁, hstep, hrest⟩ := exists_of_bind_eq_ok hrun
      obtain ⟨s₁', hstep', hs₁, -⟩ := hs.follows a
      cases hstep.symm.trans hstep'
      rw [uses, hstep]
      exact (useAll_append _ _ (hs.useAll_usesOf hs₁ hstep)).trans (ih hs₁ hrest)

end Session

namespace Framer

variable {queueDepth eventDepth : Nat} {f f' f₁ : Framer queueDepth eventDepth} {config : Config}
  {classes : List (Nat × Nat)}

/-- However a framer was used, it does not see where its input is sliced: two slices, one directly
after the other, lead to what they lead to as one, with the same packet under reassembly, the same
events, the same counters and the same memory. In a session both ways come to an end. -/
theorem useAll_slices (hpool : Pool.ofClasses classes = .ok pool)
    (hclasses : ∀ c ∈ classes, 1 ≤ c.1 ∧ c.2 ≤ 255) (hf : ofConfig config pool = .ok f) :
    (∀ uses f₁, f.useAll uses = .ok f₁ → ∀ x y,
      f₁.received (x ++ y) = f₁.received x >>= fun f₂ => f₂.received y) ∧
    ∀ actions, ∃ s, (Session.start f).run actions = .ok s ∧ ∀ x y, ∃ f₁ f',
      s.framer.received x = .ok f₁ ∧ f₁.received y = .ok f' ∧
        s.framer.received (x ++ y) = .ok f' := by
  have hsound := Pool.sound_of_ofClasses hpool hclasses
  have hany : ∀ uses f₁, f.useAll uses = .ok f₁ → ∀ x y,
      f₁.received (x ++ y) = f₁.received x >>= fun f₂ => f₂.received y :=
    fun uses f₁ hrun x y =>
      received_append ((intact_ofConfig hsound hf).useAll uses hrun).unfilled x y
  refine ⟨hany, fun actions => ?_⟩
  have hstart := Session.sound_start hsound hf
  obtain ⟨s, hrun, hs, -⟩ := hstart.run_follows actions
  refine ⟨s, hrun, fun x y => ?_⟩
  have hsliced := hany _ s.framer (hstart.useAll_uses actions hrun) x y
  obtain ⟨f₁, hfirst, -⟩ := hs.framer.received x
  obtain ⟨f', hboth, -⟩ := hs.framer.received (x ++ y)
  refine ⟨f₁, f', hfirst, ?_, hboth⟩
  rw [hboth, hfirst] at hsliced
  exact hsliced.symm

/-- A blob of three bytes that is cut within its payload. -/
theorem slicedBlob_delivers :
    ∃ s f₁ f', (Session.start Session.pairFramer).run [.enable] = .ok s ∧
      s.framer.received [3, 0, 0, 1] = .ok f₁ ∧
      f₁.received [9, 0xd8, 0x22, 0xd7, 0x6c] = .ok f' ∧
      s.framer.received [3, 0, 0, 1, 9, 0xd8, 0x22, 0xd7, 0x6c] = .ok f' ∧
      f'.reporter.record = [.received {} { chunks := [⟨⟨0, 0⟩, 2, 5⟩], length := 3 }] := by
  have hpool : Pool.ofClasses [(16, 2)] = .ok ⟨#[.fresh 16 2]⟩ := rfl
  have hf : ofConfig Session.pairFramer.config ⟨#[.fresh 16 2]⟩ = .ok Session.pairFramer := rfl
  obtain ⟨-, hsession⟩ := useAll_slices hpool (by decide) hf
  obtain ⟨s, hrun, hslices⟩ := hsession [.enable]
  obtain ⟨f₁, f', hfirst, hsecond, hboth⟩ := hslices [3, 0, 0, 1] [9, 0xd8, 0x22, 0xd7, 0x6c]
  refine ⟨s, f₁, f', hrun, hfirst, hsecond, hboth, ?_⟩
  have hvalue : ((Session.start Session.pairFramer).run [.enable]).toOption.bind (fun s =>
      (s.framer.received [3, 0, 0, 1, 9, 0xd8, 0x22, 0xd7, 0x6c]).toOption.map fun f =>
        f.reporter.record) =
          some [.received {} { chunks := [⟨⟨0, 0⟩, 2, 5⟩], length := 3 }] := by
    decide +kernel
  rw [hrun] at hvalue
  obtain ⟨f'', hsome, hrecord⟩ := Option.map_eq_some_iff.1 hvalue
  have hok : s.framer.received [3, 0, 0, 1, 9, 0xd8, 0x22, 0xd7, 0x6c] = .ok f'' :=
    eq_ok_of_toOption hsome
  cases hboth.symm.trans hok
  exact hrecord

/-- A framer with tagged packets and a queue of one. -/
def taggedFramer : Framer 1 1 :=
  { config := { maxPayload := 4, maxPacket := 8, tagged := true }, pool := ⟨#[.fresh 16 8]⟩
    receiver := { maxPayload := 4, maxLength := 10 } }

end Framer

end DockLink
