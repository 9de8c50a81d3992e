import DockLink.Proofs.Control.Service

/-!
# From transactions to results

However a transaction is cut, and whatever else happens at the service meanwhile, its bytes settle
one result, and that is the one that the application is told of.
-/

namespace DockLink

open Transaction

variable {depth : Nat}

namespace ServiceAction

/-- The bytes that come in with some actions. -/
def dataAll (actions : List ServiceAction) : Bytes := actions.flatMap data

theorem dataAll_cons {a : ServiceAction} (h : ∀ data, a ≠ .receive data)
    (rest : List ServiceAction) : dataAll (a :: rest) = dataAll rest := by
  cases a with
  | receive data => exact absurd rfl (h data)
  | _ => rfl

theorem append_dataAll_receive (heard data : Bytes) (rest : List ServiceAction) :
    heard ++ dataAll (.receive data :: rest) = heard ++ data ++ dataAll rest := by
  rw [dataAll, List.flatMap_cons, List.append_assoc]
  rfl

end ServiceAction

namespace Service

open ServiceAction (dataAll dataAll_cons append_dataAll_receive)

variable {s s₁ : Service depth} {a : ServiceAction} {actions : List ServiceAction} {heard : Bytes}

/-- Whether the pool has a block for the blob of a transaction, at the moment at which its envelope
becomes complete. `heard` are the bytes that came in before. -/
structure Finds (s : Service depth) (room : Bool) (heard : Bytes) (actions : List ServiceAction) :
    Prop where
  before : announced? heard ≠ none → room = true
  within : ∀ before data after s₁ n, actions = before ++ .receive data :: after →
    s.run before = .ok s₁ → announced? (heard ++ dataAll before) = none →
    announced? (heard ++ dataAll before ++ data) = some n →
      (room = true ↔ s₁.responder.pool.HasRoom n)

theorem finds_nil (s : Service depth) (heard : Bytes) : s.Finds true heard [] where
  before _ := rfl
  within before data after s₁ n hsplit := by
    cases before with
    | nil => cases hsplit
    | cons a rest => cases hsplit

theorem Finds.idle {room : Bool} (h : s₁.Finds room heard actions) (hstep : s.step a = .ok s₁)
    (hdata : ∀ data, a ≠ .receive data) : s.Finds room heard (a :: actions) where
  before := h.before
  within before data after s₂ n hsplit hrun hnone hsome := by
    cases before with
    | nil =>
        obtain ⟨rfl, -⟩ := List.cons.inj hsplit
        exact absurd rfl (hdata data)
    | cons b rest =>
        obtain ⟨rfl, htail⟩ := List.cons.inj hsplit
        rw [dataAll_cons hdata] at hnone hsome
        have hrest : s₁.run rest = .ok s₂ := (run_cons hstep rest).symm.trans hrun
        exact h.within rest data after s₂ n htail hrest hnone hsome

theorem finds_receive {room : Bool} {data : Bytes}
    (hroom : Decoder.Timely s.responder.pool room heard data)
    (hstep : s.step (.receive data) = .ok s₁)
    (hrest : ∀ before more after s₂ n, actions = before ++ .receive more :: after →
      s₁.run before = .ok s₂ → announced? (heard ++ data ++ dataAll before) = none →
      announced? (heard ++ data ++ dataAll before ++ more) = some n →
        (room = true ↔ s₂.responder.pool.HasRoom n)) :
    s.Finds room heard (.receive data :: actions) where
  before := hroom.before
  within before more after s₂ n hsplit hrun hnone hsome := by
    cases before with
    | nil =>
        obtain ⟨heq, -⟩ := List.cons.inj hsplit
        cases heq
        cases hrun
        rw [dataAll, List.flatMap_nil, List.append_nil] at hnone hsome
        exact hroom.within n hnone hsome
    | cons b rest =>
        obtain ⟨rfl, htail⟩ := List.cons.inj hsplit
        rw [append_dataAll_receive] at hnone hsome
        exact hrest rest more after s₂ n htail ((run_cons hstep rest).symm.trans hrun) hnone hsome

theorem Sound.waits (hs : s.Sound) (hheard : s.docket.heard = some heard) :
    verdict? s.docket.limit true heard = none := by
  have hopen : s.responder.decoder.phase ≠ .done := fun hdone => by
    rw [docket, Responder.docket, if_pos hdone] at hheard
    cases hheard
  rw [docket, Responder.docket, if_neg hopen] at hheard
  obtain rfl := Option.some.inj hheard
  exact Decoder.verdict?_heard hs.responder.decoder

/-- After its result, a transaction has no other. -/
theorem Sound.rests (actions : List ServiceAction) (hwithin : ∀ a ∈ actions, a.isWithin)
    {s : Service depth} (hs : s.Sound) (hheard : s.docket.heard = none) :
    ∃ s', s.run (actions ++ [.transactionEnd]) = .ok s' ∧ s'.Sound ∧ s'.docket.heard = some [] ∧
      s.Tells [] s' := by
  induction actions generalizing s with
  | nil =>
      obtain ⟨s', hstep, hs', hheard', htells⟩ := hs.transactionEnd
      rw [hheard] at htells
      exact ⟨s', run_cons hstep [], hs', hheard', htells⟩
  | cons a rest ih =>
      have hidles : s.Idles a := by
        by_cases hdata : ∀ data, a ≠ .receive data
        · exact hs.idles (hwithin a (List.mem_cons_self ..)) hdata
        · obtain ⟨data, hdata⟩ := not_forall.1 hdata
          rw [not_not.1 hdata]
          exact hs.receive_done hheard data
      obtain ⟨s₁, hstep, hs₁, htells₁, hheard₁⟩ := hidles
      obtain ⟨s', hrun, hs', hheard', htells⟩ :=
        ih (fun b hb => hwithin b (List.mem_cons_of_mem _ hb)) hs₁ (hheard₁.trans hheard)
      exact ⟨s', (run_cons hstep _).trans hrun, hs', hheard', htells₁.before htells⟩

/-- The rest of a transaction, from the bytes that were heard before. -/
theorem Sound.reads (actions : List ServiceAction) (hwithin : ∀ a ∈ actions, a.isWithin)
    {s : Service depth} {heard : Bytes} (hs : s.Sound) (hheard : s.docket.heard = some heard) :
    ∃ s' room, s.run (actions ++ [.transactionEnd]) = .ok s' ∧ s'.Sound ∧
      s'.docket.heard = some [] ∧ s.Finds room heard actions ∧
      s.Tells (read s.docket.limit room (heard ++ dataAll actions)).toList s' := by
  -- The bytes heard so far carry over from one action to the next, until they settle the result.
  induction actions generalizing s heard with
  | nil =>
      obtain ⟨s', hstep, hs', hheard', htells⟩ := hs.transactionEnd
      refine ⟨s', true, run_cons hstep [], hs', hheard', finds_nil s heard, ?_⟩
      rw [dataAll, List.flatMap_nil, List.append_nil, Transaction.read, hs.waits hheard,
        Option.none_or]
      rwa [hheard] at htells
  | cons a rest ih =>
      have hrest : ∀ b ∈ rest, b.isWithin := fun b hb => hwithin b (List.mem_cons_of_mem _ hb)
      by_cases hdata : ∀ data, a ≠ .receive data
      · obtain ⟨s₁, hstep, hs₁, htells₁, hheard₁⟩ :=
          hs.idles (hwithin a (List.mem_cons_self ..)) hdata
        obtain ⟨s', room, hrun, hs', hheard', hfinds, htells⟩ := ih hrest hs₁ (hheard₁.trans hheard)
        refine ⟨s', room, (run_cons hstep _).trans hrun, hs', hheard', hfinds.idle hstep hdata, ?_⟩
        rw [htells₁.limit_eq] at htells
        rw [dataAll_cons hdata]
        exact htells₁.before htells
      · obtain ⟨data, hdata⟩ := not_forall.1 hdata
        obtain rfl := not_not.1 hdata
        rw [append_dataAll_receive]
        obtain ⟨s₁, hstep, hs₁, ⟨hroom, htells₁, hheard₁⟩ |
          ⟨room, notice, hroom, hverdict, htells₁, hheard₁⟩⟩ := hs.receive_open hheard data
        · obtain ⟨s', room, hrun, hs', hheard', hfinds, htells⟩ := ih hrest hs₁ hheard₁
          rw [htells₁.limit_eq] at htells
          refine ⟨s', room, (run_cons hstep _).trans hrun, hs', hheard',
            finds_receive ⟨fun hannounced => ?_, fun n hnone hsome => ?_⟩ hstep hfinds.within,
            htells₁.before htells⟩
          · exact hfinds.before fun hnone => hannounced (announced?_eq_none_of_append hnone)
          · have htrue : room = true := hfinds.before (by rw [hsome]; nofun)
            exact iff_of_true htrue ((hroom.within n hnone hsome).1 rfl)
        · obtain ⟨s', hrun, hs', hheard', htells⟩ := hs₁.rests rest hrest hheard₁
          refine ⟨s', room, (run_cons hstep _).trans hrun, hs', hheard',
            finds_receive hroom hstep ?_, ?_⟩
          · -- The envelope cannot become complete after the result.
            intro before more after s₂ n _ _ hnone hsome
            rw [announced?_of_verdict? hverdict] at hnone
            rw [List.append_assoc, announced?_of_verdict? hverdict, hnone] at hsome
            cases hsome
          · rw [Transaction.read, verdict?_append hverdict, Option.some_or]
            exact htells₁.after htells

theorem heard_eq_nil_iff (s : Service depth) :
    s.docket.heard = some [] ↔ s.responder.decoder.phase = .code := by
  rw [docket, Responder.docket, Decoder.heard]
  cases hphase : s.responder.decoder.phase with
  | code => exact iff_of_true rfl rfl
  | arguments command received => exact iff_of_false (fun h => by cases h) (fun h => by cases h)
  | envelope received => exact iff_of_false (fun h => by cases h) (fun h => by cases h)
  | payload e block transferred => exact iff_of_false (fun h => by cases h) (fun h => by cases h)
  | done => exact iff_of_false (fun h => by cases h) (fun h => by cases h)

/-- A service does not fault. When a transaction has come in, cut in any way and with any other
actions in between, the application is told of the one result that its bytes settle, of none if it
was empty, unless the result found the queue full; and the decoder is where it began. -/
theorem run_start_reads {classes : List (Nat × Nat)} {pool : Pool} {limit : Nat}
    {r : Responder depth} (hpool : Pool.ofClasses classes = .ok pool)
    (hclasses : ∀ c ∈ classes, 1 ≤ c.1 ∧ c.2 ≤ 255) (hr : Responder.ofPool pool limit = .ok r)
    (history : List ServiceAction) :
    ∃ s, (start r).run history = .ok s ∧
      (s.responder.decoder.phase = .code → ∀ actions, (∀ a ∈ actions, a.isWithin) →
        ∃ s' room, s.run (actions ++ [.transactionEnd]) = .ok s' ∧
          s'.responder.decoder.phase = .code ∧ s.Finds room [] actions ∧
          s.Tells (read limit room (dataAll actions)).toList s' ∧
          ((read limit room (dataAll actions)).isSome ↔ dataAll actions ≠ [])) := by
  obtain ⟨hstart, hlimit⟩ := sound_start (Pool.sound_of_ofClasses hpool hclasses) hr
  obtain ⟨s, hrun, hs, hlimit'⟩ := hstart.run_goesOn history
  refine ⟨s, hrun, fun hphase actions hwithin => ?_⟩
  obtain ⟨s', room, hrun', hs', hheard', hfinds, htells⟩ :=
    hs.reads actions hwithin ((heard_eq_nil_iff s).2 hphase)
  rw [hlimit'.trans hlimit, List.nil_append] at htells
  exact ⟨s', room, hrun', (heard_eq_nil_iff s').1 hheard', hfinds, htells,
    isSome_read limit room (dataAll actions)⟩

/-- A responder with a queue of one result. -/
def smallResponder : Responder 1 :=
  { pool := ⟨#[.fresh 16 2]⟩, decoder := { blobLimit := 8 } }

/-- A blob that is cut within its envelope and within its content, and a byte behind it. -/
def slicedBlob : List ServiceAction :=
  [.receive [3, 0x34], .pop, .receive [0x12, 2, 0, 7], .receive [8, 9]]

theorem slicedBlob_reads :
    ∃ s', (start smallResponder).run (slicedBlob ++ [.transactionEnd]) = .ok s' ∧
      s'.responder.decoder.phase = .code ∧
      (start smallResponder).Tells [.ok (.sendBlob ⟨0x1234⟩ [7, 8])] s' := by
  have hpool : Pool.ofClasses [(16, 2)] = .ok ⟨#[.fresh 16 2]⟩ := rfl
  have hr : Responder.ofPool ⟨#[.fresh 16 2]⟩ 8 = .ok smallResponder := rfl
  obtain ⟨s, hrun, hreads⟩ := run_start_reads hpool (by decide) hr []
  obtain rfl : start smallResponder = s := Except.ok.inj hrun
  obtain ⟨s', room, hrun', hphase, hfinds, htells, -⟩ := hreads rfl slicedBlob (by decide)
  obtain rfl : room = true :=
    (hfinds.within [.receive [3, 0x34], .pop] _ _ _ 2 rfl rfl rfl rfl).2 (by decide +kernel)
  exact ⟨s', hrun', hphase, htells⟩

end Service

end DockLink
