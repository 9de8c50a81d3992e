import DockLink.Proofs.Transfer.Misuse

/-!
# Chronicles of a framer

Some laws speak of what happened to a framer since it was set up, of which it keeps no more than a
number. A chronicle puts down what each use of a run was about, the last first. What the receive
path puts out within one use is noted by the sink that it passes this to.
-/

namespace DockLink

open Reassembly

/-! ## What the receive path puts out -/

/-- A sink that also notes what it is given, the last first. -/
def Reassembly.noting {σ : Type} (deliver : σ → Pool → Output → Except Fault (σ × Pool))
    (s : σ × List Output) (pool : Pool) (output : Output) :
    Except Fault ((σ × List Output) × Pool) :=
  (deliver s.1 pool output).map fun (s', pool) => ((s', output :: s.2), pool)

namespace Receiver

variable {r r' : Receiver} {pool q : Pool} {outputs : List Output}

theorem genuine_fail {error : LinkError} (herror : error ≠ .disconnected) (r : Receiver)
    (pool : Pool) : .fault .disconnected ∉ (r.fail pool error).2.2 := by
  simpa [fail] using herror.symm

theorem genuine_startBlob {header : Header} (h : r.startBlob pool header = .ok (r', q, outputs)) :
    .fault .disconnected ∉ outputs := by
  unfold startBlob at h
  split at h
  · cases h
    exact genuine_fail LinkError.noConfusion r pool
  · split at h
    · cases h
      exact genuine_fail LinkError.noConfusion r pool
    · obtain ⟨q', -, h⟩ := exists_of_bind_eq_ok h
      cases h
      exact List.not_mem_nil

theorem genuine_acceptBlob {block : Block} {header : Header}
    (h : r.acceptBlob pool block header = .ok (r', q, outputs)) :
    .fault .disconnected ∉ outputs := by
  unfold acceptBlob at h
  simp only at h
  split at h
  · cases h
    exact genuine_fail LinkError.noConfusion r pool
  · obtain ⟨chunk, -, h⟩ := exists_of_bind_eq_ok h
    split at h
    · cases h
      exact genuine_fail LinkError.noConfusion r pool
    · split at h
      · cases h
        simp
      · cases h
        simp

theorem genuine_finishBlob {block : Block} {header : Header}
    (h : r.finishBlob pool block header = .ok (r', q, outputs)) :
    .fault .disconnected ∉ outputs := by
  unfold finishBlob at h
  obtain ⟨good, -, h⟩ := exists_of_bind_eq_ok h
  split at h
  · exact genuine_acceptBlob h
  · cases h
    exact genuine_fail LinkError.noConfusion r pool

/-- The receive path never reports that the framer was closed. -/
theorem genuine_take {run : Bytes} (h : r.take pool run = .ok (r', q, outputs)) :
    .fault .disconnected ∉ outputs := by
  obtain ⟨maxPayload, maxLength, phase, packet⟩ := r
  cases phase with
  | header received =>
      unfold take takeHeader at h
      simp only at h
      split at h
      · exact genuine_startBlob h
      · cases h
        exact List.not_mem_nil
  | payload block header filled =>
      obtain ⟨q', -, h⟩ := exists_of_bind_eq_ok h
      simp only at h
      split at h
      · exact genuine_finishBlob h
      · cases h
        exact List.not_mem_nil
  | discard =>
      cases h
      exact List.not_mem_nil

section Noting

variable {σ : Type} {deliver : σ → Pool → Output → Except Fault (σ × Pool)} {s' : σ}
  (Says : List Output → σ → Prop)
  (hdeliver : ∀ {s s' pool q output noted}, Says noted s → output ≠ .fault .disconnected →
    deliver s pool output = .ok (s', q) → Says (output :: noted) s')

include hdeliver

theorem deliverAll_noting {outputs : List Output} {s : σ} {noted : List Output} {pool q : Pool}
    (h : Says noted s) (hgenuine : .fault .disconnected ∉ outputs)
    (hd : deliverAll deliver s pool outputs = .ok (s', q)) :
    ∃ noted', deliverAll (noting deliver) (s, noted) pool outputs = .ok ((s', noted'), q) ∧
      Says noted' s' := by
  induction outputs generalizing s noted pool with
  | nil =>
      cases hd
      exact ⟨noted, rfl, h⟩
  | cons output rest ih =>
      obtain ⟨⟨s₁, q₁⟩, hone, hd⟩ := exists_of_bind_eq_ok hd
      obtain ⟨houtput, hrest⟩ := List.ne_and_not_mem_of_not_mem_cons hgenuine
      obtain ⟨noted', hrest, hsays⟩ := ih (hdeliver h (Ne.symm houtput) hone) hrest hd
      refine ⟨noted', ?_, hsays⟩
      rw [deliverAll, noting, hone]
      exact hrest

/-- Noting changes nothing about what comes of the bytes, and what the notes say of the sink holds
at the end. -/
theorem pushRuns_noting (n : Nat) (noted : List Output) {r r' : Receiver} {s : σ} {pool q : Pool}
    {data : Bytes} (h : Says noted s) (hp : pushRuns deliver n r pool s data = .ok (r', q, s')) :
    ∃ noted', pushRuns (noting deliver) n r pool (s, noted) data = .ok (r', q, (s', noted')) ∧
      Says noted' s' := by
  induction n generalizing r s noted pool data with
  | zero =>
      cases hp
      exact ⟨noted, rfl, h⟩
  | succ n ih =>
      rw [pushRuns] at hp ⊢
      split at hp
      · rename_i hempty
        cases hp
        rw [if_pos hempty]
        exact ⟨noted, rfl, h⟩
      · rename_i hdata
        obtain ⟨⟨r₁, q₁, outputs⟩, htake, hp⟩ := exists_of_bind_eq_ok hp
        obtain ⟨⟨s₁, q₂⟩, hall, hp⟩ := exists_of_bind_eq_ok hp
        obtain ⟨noted₁, hall', hsays₁⟩ := deliverAll_noting Says hdeliver h (genuine_take htake) hall
        obtain ⟨noted', hrest, hsays⟩ := ih noted₁ hsays₁ hp
        refine ⟨noted', ?_, hsays⟩
        rw [if_neg hdata]
        simp only [htake]
        change deliverAll (noting deliver) (s, noted) q₁ outputs >>= _ = _
        rw [hall']
        exact hrest

end Noting

end Receiver

/-! ## Runs -/

namespace Framer

variable {queueDepth eventDepth : Nat} {α : Type} {f f₁ : Framer queueDepth eventDepth}

/-- What a run of uses puts down, in front of what stood there before. A run ends where a use
faults. -/
def chronicle (note : Framer queueDepth eventDepth → Use → List α) (earlier : List α)
    (f : Framer queueDepth eventDepth) : List Use → List α
  | [] => earlier
  | u :: rest =>
    match f.use u with
    | .ok f' => chronicle note (note f u ++ earlier) f' rest
    | .error _ => earlier

variable {note : Framer queueDepth eventDepth → Use → List α}

theorem chronicle_cons {u : Use} (h : f.use u = .ok f₁) (earlier : List α) (rest : List Use) :
    f.chronicle note earlier (u :: rest) = f₁.chronicle note (note f u ++ earlier) rest := by
  rw [chronicle, h]

theorem chronicle_append (uses more : List Use) {f : Framer queueDepth eventDepth}
    {earlier : List α} (h : f.useAll uses = .ok f₁) :
    f.chronicle note earlier (uses ++ more) =
      f₁.chronicle note (f.chronicle note earlier uses) more := by
  induction uses generalizing f earlier with
  | nil =>
      cases h
      rfl
  | cons u rest ih =>
      obtain ⟨f₂, hu, hrest⟩ := exists_of_bind_eq_ok h
      rw [List.cons_append, chronicle_cons hu, chronicle_cons hu, ih hrest]

/-- What a chronicle says of a framer, if each use keeps it true. -/
theorem chronicle_induction (Says : List α → Framer queueDepth eventDepth → Prop)
    (hstep : ∀ {f f' u earlier}, Says earlier f → f.use u = .ok f' →
      Says (note f u ++ earlier) f')
    (uses : List Use) {f : Framer queueDepth eventDepth} {earlier : List α}
    (h : Says earlier f) (hrun : f.useAll uses = .ok f₁) :
    Says (f.chronicle note earlier uses) f₁ := by
  induction uses generalizing f earlier with
  | nil =>
      cases hrun
      exact h
  | cons u rest ih =>
      obtain ⟨f₂, hu, hrest⟩ := exists_of_bind_eq_ok hrun
      rw [chronicle_cons hu]
      exact ih (hstep h hu) hrest

end Framer

/-- A session never faults, and is the run of its uses. -/
theorem Session.run_start_uses {queueDepth eventDepth : Nat} {pool : Pool}
    {f : Framer queueDepth eventDepth} {config : Framer.Config} (hpool : pool.Sound 0)
    (hf : Framer.ofConfig config pool = .ok f) (actions : List Action) :
    ∃ s, (Session.start f).run actions = .ok s ∧
      f.useAll ((Session.start f).uses actions) = .ok s.framer := by
  have hstart := sound_start hpool hf
  obtain ⟨s, hrun, -⟩ := hstart.run_follows actions
  exact ⟨s, hrun, hstart.useAll_uses actions hrun⟩

end DockLink
