import DockLink.Proofs.Mating.Handshake

/-!
# Lost contact

At rest a machine knows nothing but its configuration and whether contact is sensed. So when contact
is lost, in whatever state, a new machine is left: nothing that comes later can tell what there was
before.
-/

namespace DockLink.Mating.Machine

variable {m : Machine}

/-- No field of a machine at rest speaks of an attempt or a connection. -/
theorem Coherent.eq_of_idle (h : m.Coherent) (hidle : m.state = .idle) :
    m = { config := m.config, contact := m.contact } := by
  obtain ⟨hlink, horientation⟩ := h.closed (by rw [hidle]; nofun)
  obtain ⟨hretries, hdetected, hacknowledged⟩ := h.rested hidle
  have hdeadline : m.deadline = none := by
    refine Option.not_isSome_iff_eq_none.1 fun hsome => ?_
    have hwaiting := h.deadline_iff.1 hsome
    rw [hidle] at hwaiting
    cases hwaiting
  obtain ⟨config, state, contact, linkEnabled, retries, detected, acknowledged, orientation,
    deadline⟩ := m
  cases hidle
  cases hlink
  cases horientation
  cases hretries
  cases hdetected
  cases hacknowledged
  cases hdeadline
  rfl

/-- Coming to rest, a machine forgets all but its configuration and its contact. -/
theorem rest_fst (m : Machine) (event : Option Event) :
    (m.rest event).1 = { config := m.config, contact := m.contact } := rfl

theorem Coherent.loseContact (h : m.Coherent) : m.loseContact.1 = { config := m.config } := by
  cases hstate : m.state with
  | idle =>
      -- Nothing is reset here, so the machine must have been reset on its way to rest.
      have hkept : m.loseContact.1 = { m with contact := false } := by
        simp only [Machine.loseContact, hstate]
      rw [hkept, h.eq_of_idle hstate]
  | _ => simp only [Machine.loseContact, hstate, rest_fst]

theorem Coherent.handle_contactLost (h : m.Coherent) (now : Tick) :
    (m.handle .contactLost now).1 = { config := m.config } :=
  h.loseContact

/-- Losing contact turns a machine into a new one, whatever it went through. What comes after that is
answered as a new machine answers it. -/
theorem contactLost_renews (config : Config) (earlier : History) (now : Tick) :
    ((run { config } earlier).handle .contactLost now).1 = { config } ∧
      ∀ later : History,
        run { config } (earlier ++ (.contactLost, now) :: later) = run { config } later ∧
        trace { config } (earlier ++ (.contactLost, now) :: later) =
          trace { config } (earlier ++ [(.contactLost, now)]) ++ trace { config } later := by
  have hcoherent := (Coherent.fresh config).run earlier
  have hnew : ((run { config } earlier).handle .contactLost now).1 = { config } := by
    rw [hcoherent.handle_contactLost, config_run]
  have hrun : run { config } (earlier ++ [(.contactLost, now)]) = { config } := by
    rw [run_append]
    exact hnew
  refine ⟨hnew, fun later => ?_⟩
  rw [← List.singleton_append, ← List.append_assoc, run_append, trace_append, hrun]
  exact ⟨rfl, rfl⟩

/-- All inputs that a connection takes, after a first attempt at detection. -/
def connecting : History :=
  [(.contactMade, 0), (.timeout, 100000), (.partnerPresent, 100010),
    (.orientationDetected .west, 100020), (.partnerAcknowledged, 100030)]

/-- The machine is connected, and nothing is left of it. -/
theorem connecting_renews :
    (run { config := {} } connecting).state = .connected ∧
      (run { config := {} } connecting).linkEnabled = true ∧
      (run { config := {} } connecting).orientation = some .west ∧
      ((run { config := {} } connecting).handle .contactLost 100040).1 = { config := {} } ∧
      run { config := {} } (connecting ++ (.contactLost, 100040) :: connecting) =
        run { config := {} } connecting := by
  obtain ⟨hnew, hlater⟩ := contactLost_renews {} connecting 100040
  exact ⟨by decide, by decide, by decide, hnew, (hlater connecting).1⟩

end DockLink.Mating.Machine
