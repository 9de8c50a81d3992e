import DockLink.Proofs.Mating.Traces

/-!
# What a connection is agreed upon

A negotiation begins when the partner shows up and goes by its own findings alone. The connection is
made by the first input with which an orientation and the partner's acknowledgement are both there,
in whichever order they came, and its orientation is the one seen last. What was found before the
partner showed up, in an earlier attempt or an earlier connection, makes no difference.
-/

namespace DockLink.Mating

namespace Input

/-- The contact that an input reports. -/
def contact? : Input → Option Bool
  | .contactMade => some true
  | .contactLost => some false
  | _ => none

/-- The orientation that an input reports. -/
def orientation? : Input → Option Orientation
  | .orientationDetected o => some o
  | _ => none

/-- Whether an input breaks a negotiation off. -/
def breaksOff : Input → Bool
  | .contactLost | .timeout | .disconnect => true
  | _ => false

end Input

/-- The inputs that were handled, oldest first. -/
abbrev History := List (Input × Tick)

namespace History

/-- Whether contact was made and not lost since. -/
def sensed (h : History) : Bool := (h.filterMap fun i => i.1.contact?).getLast? = some true

/-- The orientation that was seen last. -/
def seen? (h : History) : Option Orientation := (h.filterMap fun i => i.1.orientation?).getLast?

def acknowledged (h : History) : Bool := h.any fun i => i.1 = .partnerAcknowledged

/-- The orientation that was seen last, once the partner acknowledged too. -/
def agreed? (h : History) : Option Orientation := if h.acknowledged then h.seen? else none

variable {h : History} {i : Input × Tick}

theorem getLast?_filterMap_concat {α β : Type} (f : α → Option β) (l : List α) (a : α) :
    ((l ++ [a]).filterMap f).getLast? = (f a).or (l.filterMap f).getLast? := by
  rw [List.filterMap_append]
  cases hf : f a with
  | none => rw [List.filterMap_cons_none hf, List.filterMap_nil, List.append_nil, Option.none_or]
  | some b => rw [List.filterMap_cons_some hf, List.filterMap_nil, List.getLast?_concat,
      Option.some_or]

theorem seen?_concat (h : History) (i : Input × Tick) :
    seen? (h ++ [i]) = i.1.orientation?.or h.seen? := getLast?_filterMap_concat _ _ _

theorem acknowledged_concat (h : History) (i : Input × Tick) :
    acknowledged (h ++ [i]) = (h.acknowledged || i.1 = .partnerAcknowledged) := by
  rw [acknowledged, List.any_append, List.any_cons, List.any_nil, Bool.or_false, acknowledged]

theorem sensed_concat (h : History) (i : Input × Tick) :
    sensed (h ++ [i]) = i.1.contact?.getD h.sensed := by
  rw [sensed, getLast?_filterMap_concat]
  cases i.1.contact? with
  | none => rw [Option.none_or, Option.getD_none, sensed]
  | some contact =>
      rw [Option.some_or, Option.getD_some]
      cases contact <;> rfl

/-- Nothing that was found is lost. -/
theorem agreed?_of_concat (hnone : agreed? (h ++ [i]) = none) : h.agreed? = none := by
  rw [agreed?, acknowledged_concat, seen?_concat] at hnone
  rw [agreed?]
  split
  · rename_i hacknowledged
    rw [hacknowledged, Bool.true_or, if_pos rfl, Option.or_eq_none_iff] at hnone
    exact hnone.2
  · rfl

theorem agreed?_of_append (h : History) {later : History} (hnone : agreed? (h ++ later) = none) :
    h.agreed? = none := by
  induction later using List.reverseRecOn with
  | nil => rwa [List.append_nil] at hnone
  | append_singleton later i ih =>
      rw [← List.append_assoc] at hnone
      exact ih (agreed?_of_concat hnone)

end History

namespace Machine

variable {config : Config} {m : Machine} {input : Input} {now : Tick} {result : Machine × Effect}
  {o : Orientation}

/-! ## The findings of a negotiation -/

/-- What the machine found so far, as `History.agreed?` has it. -/
def agreed? (m : Machine) : Option Orientation := if m.acknowledged then m.detected else none

/-- Adds what an input reports to the findings. -/
def note (m : Machine) (input : Input) : Machine :=
  { m with
    detected := input.orientation?.or m.detected
    acknowledged := m.acknowledged || input = .partnerAcknowledged }

theorem agree_of_none (h : m.agreed? = none) : m.agree = (m, {}) := by
  obtain hagree | ⟨o, hdetected, hacknowledged, -⟩ := agree_cases m
  · exact hagree
  · rw [agreed?, if_pos hacknowledged, hdetected] at h
    cases h

theorem agree_of_some (h : m.agreed? = some o) :
    m.agree =
      ({ m with state := .connected, orientation := some o, linkEnabled := true, deadline := none },
        { gate := some .enable, timer := .cancel, event := some (.connected o) }) := by
  rw [agreed?] at h
  split at h
  · rename_i hacknowledged
    simp only [agree, h, hacknowledged]
  · cases h

/-- In a negotiation that goes on, an input counts for what it reports and for nothing else. -/
theorem transition_of_negotiating (hstate : m.state = .negotiating) (hcontact : m.contact = true)
    (hnone : m.agreed? = none) (hon : input.breaksOff = false) (now : Tick) :
    m.transition input now = (m.note input).agree := by
  have hsame : m.note input = m → m.agree = (m.note input).agree := fun h => congrArg _ h.symm
  have hagree := agree_of_none hnone
  obtain ⟨config, state, contact, linkEnabled, retries, detected, acknowledged, orientation,
    deadline⟩ := m
  obtain rfl : state = .negotiating := hstate
  obtain rfl : contact = true := hcontact
  cases input with
  | contactLost => cases hon
  | timeout => cases hon
  | disconnect => cases hon
  | orientationDetected o => simp [transition, note, Input.orientation?]
  | partnerAcknowledged => simp [transition, note, Input.orientation?]
  | contactMade => exact hagree.symm.trans (hsame (by simp [note, Input.orientation?]))
  | partnerPresent => exact hagree.symm.trans (hsame (by simp [note, Input.orientation?]))
  | connect => exact hagree.symm.trans (hsame (by simp [note, Input.orientation?]))
  | linkFault n => exact hagree.symm.trans (hsame (by simp [note, Input.orientation?]))

/-- A negotiation that is broken off leaves the machine at rest. -/
theorem Coherent.breaksOff (h : m.Coherent) (hstate : m.state = .negotiating)
    (hoff : input.breaksOff = true) (now : Tick) : (m.transition input now).1.state = .idle := by
  have hdeadline : m.deadline.isSome := h.deadline_iff.2 (by rw [hstate]; rfl)
  cases input with
  | contactLost => simp [transition, loseContact, rest, hstate]
  | timeout => simp [transition, expire, rest, hstate, hdeadline]
  | disconnect => simp [transition, rest, hstate]
  | _ => cases hoff

/-- A negotiation begins in one way only. -/
theorem Turns.entry (hturns : m.Turns now input result) (hbefore : m.state ≠ .negotiating)
    (hafter : result.1.state = .negotiating) :
    m.state = .detecting ∧ input = .partnerPresent := by
  cases hturns with
  | negotiate detecting => exact ⟨detecting, rfl⟩
  | ignore => exact absurd hafter hbefore
  | sense => exact absurd hafter hbefore
  | unsense => exact absurd hafter hbefore
  | learn negotiating => exact absurd negotiating hbefore
  | hear negotiating => exact absurd negotiating hbefore
  | _ => cases hafter

/-- A connection is made in a negotiation, by an input that does not break it off. -/
theorem Turns.negotiating_of_connected (hturns : m.Turns now input result)
    (hevent : result.2.event = some (.connected o)) :
    m.state = .negotiating ∧ input.breaksOff = false := by
  cases hturns with
  | learn negotiating => exact ⟨negotiating, rfl⟩
  | hear negotiating => exact ⟨negotiating, rfl⟩
  | expire =>
      have hexpiry : m.state.expiry = some (.connected o) := hevent
      cases hstate : m.state <;> rw [hstate] at hexpiry <;> cases hexpiry
  | _ => cases hevent

/-! ## Histories -/

theorem run_concat (h : History) (i : Input × Tick) (m : Machine) :
    m.run (h ++ [i]) = ((m.run h).transition i.1 i.2).1 := by
  rw [run_append]
  rfl

theorem contact_agree (m : Machine) : m.agree.1.contact = m.contact := by
  obtain hagree | ⟨_, -, -, hagree⟩ := agree_cases m
  · rw [hagree]
  · rw [hagree]

theorem contact_expire (m : Machine) (now : Tick) : (m.expire now).1.contact = m.contact := by
  unfold expire
  split
  · split <;> rfl
  · rfl
  · rfl
  · rfl

theorem contact_transition (m : Machine) (input : Input) (now : Tick) :
    (m.transition input now).1.contact = input.contact?.getD m.contact := by
  cases input with
  | contactLost =>
      cases hstate : m.state <;> simp [transition, loseContact, rest, hstate, Input.contact?]
  | timeout =>
      show (if m.deadline.isSome then m.expire now else (m, {})).1.contact = m.contact
      split
      · exact contact_expire m now
      · rfl
  | orientationDetected o =>
      cases hstate : m.state <;> simp [transition, hstate, Input.contact?, contact_agree]
  | partnerAcknowledged =>
      cases hstate : m.state <;> simp [transition, rest, hstate, Input.contact?, contact_agree]
  | contactMade =>
      cases hstate : m.state <;> simp [transition, awaitPartner, hstate, Input.contact?]
  | partnerPresent =>
      cases hstate : m.state <;> simp [transition, negotiate, hstate, Input.contact?]
  | connect =>
      cases hstate : m.state <;> simp [transition, awaitPartner, hstate, Input.contact?]
      split <;> simp
  | disconnect =>
      cases hstate : m.state <;> simp [transition, rest, tearDown, hstate, Input.contact?]
  | linkFault n =>
      cases hstate : m.state <;> simp [transition, tearDown, hstate, Input.contact?]
      split <;> simp

/-- The machine senses contact if its inputs reported it last. -/
theorem contact_run (config : Config) (h : History) : (run { config } h).contact = h.sensed := by
  induction h using List.reverseRecOn with
  | nil => rfl
  | append_singleton h i ih => rw [run_concat, contact_transition, ih, History.sensed_concat]

/-- A negotiation was entered after `before`, by the partner that showed up while it was awaited
with contact sensed, and none of the inputs since then breaks it off. -/
structure Negotiates (config : Config) (before since : History) : Prop where
  detecting : (run { config } before).state = .detecting
  sensed : before.sensed
  unbroken : ∀ i ∈ since, i.1.breaksOff = false

variable {before since part : History} {entry : Tick}

theorem Negotiates.mono (h : Negotiates config before since) (hpart : part <+: since) :
    Negotiates config before part :=
  { h with unbroken := fun i hi => h.unbroken i (hpart.subset hi) }

theorem Negotiates.concat (h : Negotiates config before since) (hon : input.breaksOff = false) :
    Negotiates config before (since ++ [(input, now)]) :=
  { h with unbroken := List.forall_mem_append.2 ⟨h.unbroken, List.forall_mem_singleton.2 hon⟩ }

/-- What a negotiation found, as long as it is not over. -/
structure Finds (m : Machine) (since : History) : Prop where
  negotiating : m.state = .negotiating
  detected_eq : m.detected = since.seen?
  acknowledged_eq : m.acknowledged = since.acknowledged

theorem Finds.agreed?_eq (h : m.Finds since) : m.agreed? = since.agreed? := by
  rw [agreed?, h.detected_eq, h.acknowledged_eq, History.agreed?]

theorem Finds.note (h : m.Finds since) (i : Input × Tick) :
    (m.note i.1).Finds (since ++ [i]) where
  negotiating := h.negotiating
  detected_eq := by
    rw [History.seen?_concat, ← h.detected_eq]
    rfl
  acknowledged_eq := by
    rw [History.acknowledged_concat, ← h.acknowledged_eq]
    rfl

/-- One more input of a negotiation that goes on. -/
theorem Finds.transition (h : m.Finds since) (hm : m.Coherent) (hnone : since.agreed? = none)
    {i : Input × Tick} (hon : i.1.breaksOff = false) :
    m.transition i.1 i.2 = (m.note i.1).agree :=
  transition_of_negotiating h.negotiating (hm.contact (by rw [h.negotiating]; nofun))
    (h.agreed?_eq.trans hnone) hon i.2

/-- Until both findings are there, the machine negotiates, and has what was found since it began. -/
theorem Negotiates.finds (h : Negotiates config before since) (hnone : since.agreed? = none)
    (entry : Tick) :
    (run { config } (before ++ (.partnerPresent, entry) :: since)).Finds since := by
  induction since using List.reverseRecOn with
  | nil =>
      rw [run_concat]
      have hentry : (run { config } before).transition .partnerPresent entry =
          (run { config } before).negotiate entry := by
        simp only [transition, h.detecting]
      rw [hentry]
      exact ⟨rfl, rfl, rfl⟩
  | append_singleton since i ih =>
      have hfinds := ih (h.mono (List.prefix_append _ _)) (History.agreed?_of_concat hnone)
      have hcoherent := (Coherent.fresh config).run (before ++ (.partnerPresent, entry) :: since)
      have hon := h.unbroken i (List.mem_append_right _ (List.mem_singleton_self i))
      have hnote := hfinds.note i
      rw [← List.cons_append, ← List.append_assoc, run_concat,
        hfinds.transition hcoherent (History.agreed?_of_concat hnone) hon,
        agree_of_none (hnote.agreed?_eq.trans hnone)]
      exact hnote

/-- A machine that negotiates has a negotiation behind it that is not over. -/
theorem exists_negotiates (h : History) (hstate : (run { config } h).state = .negotiating) :
    ∃ before entry since, h = before ++ (.partnerPresent, entry) :: since ∧
      Negotiates config before since ∧ History.agreed? since = none := by
  induction h using List.reverseRecOn with
  | nil => cases hstate
  | append_singleton h i ih =>
      have hcoherent := (Coherent.fresh config).run h
      rw [run_concat] at hstate
      by_cases hbefore : (run { config } h).state = .negotiating
      · obtain ⟨before, entry, since, rfl, hnegotiates, hnone⟩ := ih hbefore
        have hfinds := hnegotiates.finds hnone entry
        cases hon : i.1.breaksOff with
        | true =>
            rw [hcoherent.breaksOff hbefore hon] at hstate
            cases hstate
        | false =>
            refine ⟨before, entry, since ++ [i], by rw [List.append_assoc, List.cons_append],
              hnegotiates.concat hon, ?_⟩
            -- Had the findings been complete, the machine would be connected.
            rw [hfinds.transition hcoherent hnone hon] at hstate
            cases hagreed : History.agreed? (since ++ [i]) with
            | none => rfl
            | some o =>
                rw [agree_of_some ((hfinds.note i).agreed?_eq.trans hagreed)] at hstate
                cases hstate
      · obtain ⟨hdetecting, hinput⟩ := (turns_transition _ _ _).entry hbefore hstate
        obtain ⟨input, entry⟩ := i
        obtain rfl : input = .partnerPresent := hinput
        have hcontact := hcoherent.contact (by rw [hdetecting]; nofun)
        rw [contact_run] at hcontact
        exact ⟨h, entry, [], rfl, ⟨hdetecting, hcontact, List.forall_mem_nil _⟩, rfl⟩

/-- In every run of a machine, a connection is reported by those inputs that complete the findings
of a negotiation: since the partner showed up an acknowledgement and an orientation have come in,
not both before this input, and the orientation is the last one that came. The machine negotiates
from the one to the other, so that no later negotiation was entered. -/
theorem connected_iff_agreed (config : Config) (earlier : History) :
    (∀ input now o, ((run { config } earlier).handle input now).2.event = some (.connected o) ↔
      ∃ before entry since, earlier = before ++ (.partnerPresent, entry) :: since ∧
        Negotiates config before (since ++ [(input, now)]) ∧ History.agreed? since = none ∧
        History.agreed? (since ++ [(input, now)]) = some o) ∧
    ∀ before entry since, earlier = before ++ (.partnerPresent, entry) :: since →
      Negotiates config before since → History.agreed? since = none → ∀ part, part <+: since →
        (run { config } (before ++ (.partnerPresent, entry) :: part)).state = .negotiating := by
  have hcoherent := (Coherent.fresh config).run earlier
  refine ⟨fun input now o => ⟨fun hevent => ?_, ?_⟩, ?_⟩
  · obtain ⟨hstate, hon⟩ := (turns_transition _ input now).negotiating_of_connected hevent
    obtain ⟨before, entry, since, rfl, hnegotiates, hnone⟩ := exists_negotiates earlier hstate
    have hfinds := hnegotiates.finds hnone entry
    have hagreed := (hfinds.note (input, now)).agreed?_eq
    refine ⟨before, entry, since, rfl, hnegotiates.concat hon, hnone, ?_⟩
    have hagree : ((run { config } (before ++ (.partnerPresent, entry) :: since)).note
        input).agree.2.event = some (.connected o) := by
      rw [← hfinds.transition hcoherent hnone (i := (input, now)) hon]
      exact hevent
    cases hfound : History.agreed? (since ++ [(input, now)]) with
    | none =>
        rw [agree_of_none (hagreed.trans hfound)] at hagree
        cases hagree
    | some o' =>
        rw [agree_of_some (hagreed.trans hfound)] at hagree
        cases hagree
        rfl
  · rintro ⟨before, entry, since, rfl, hnegotiates, hnone, hsome⟩
    have hfinds := (hnegotiates.mono (List.prefix_append _ _)).finds hnone entry
    have hon := hnegotiates.unbroken _ (List.mem_append_right _ (List.mem_singleton_self _))
    show ((run { config } _).transition input now).2.event = _
    rw [hfinds.transition hcoherent hnone (i := (input, now)) hon,
      agree_of_some ((hfinds.note (input, now)).agreed?_eq.trans hsome)]
  · rintro before entry since - hnegotiates hnone part ⟨rest, rfl⟩
    exact ((hnegotiates.mono (List.prefix_append _ _)).finds
      (History.agreed?_of_append part hnone) entry).negotiating

/-- An attempt that saw an orientation and timed out, and a second one that was acknowledged. -/
def secondAttempt : History :=
  [(.contactMade, 0), (.partnerPresent, 10), (.orientationDetected .north, 20), (.timeout, 500010),
    (.connect, 500020), (.partnerPresent, 500030), (.partnerAcknowledged, 500040)]

theorem secondAttempt_agreed :
    (run { config := {} } secondAttempt).state = .negotiating ∧
      ((run { config := {} } secondAttempt).handle (.orientationDetected .east) 500050).2.event =
        some (.connected .east) := by
  obtain ⟨hiff, hstays⟩ := connected_iff_agreed {} secondAttempt
  have hnegotiates : ∀ since : History, (∀ i ∈ since, i.1.breaksOff = false) →
      Negotiates {} (secondAttempt.take 5) since := fun since => Negotiates.mk rfl rfl
  constructor
  · exact hstays (secondAttempt.take 5) 500030 [(.partnerAcknowledged, 500040)] rfl
      (hnegotiates _ (by decide)) rfl _ (List.prefix_refl _)
  · exact (hiff _ _ _).2 ⟨secondAttempt.take 5, 500030, [(.partnerAcknowledged, 500040)], rfl,
      hnegotiates _ (by decide), rfl, rfl⟩

end Machine

end DockLink.Mating
