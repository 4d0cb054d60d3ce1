/-
  Simulation of machines whose steps may fail.

  A step takes an event to its output and the next state, or fails; `tryRun` is
  the run of such steps, with the outputs in order.  `Simulates` compares it with
  a machine that does not fail: a step from a represented state succeeds, with
  the output of the other machine, and leads to a represented state.

  `Simulates.tryRun_eq` carries the relation over a run: no step of it fails, and
  its outputs are the history of the other machine.  `Simulates.trans` goes on
  from a machine to a function of its state.

  `tryRun_inv` is the invariant rule for such machines: no step of a run fails if
  none does from a state with the invariant where the step is `Allowed`.
  `tryRun_history` is the rule for an invariant about the events and the outputs
  so far.
-/
import GndCtrl.Lib.Run

namespace GndCtrl

variable {σ τ υ ε ρ : Type}

/-- The run of `step` from `s`: its outputs in order and the last state. -/
def tryRun (step : σ → ε → Option (List ρ × σ)) : σ → List ε → Option (List ρ × σ)
  | s, [] => some ([], s)
  | s, e :: es => do
    let (o, s') ← step s e
    let (os, s'') ← tryRun step s' es
    return (o ++ os, s'')

/-- Every step of the run of `step` from `s` meets the condition `C`. -/
def Allowed (step : σ → ε → Option (List ρ × σ)) (C : σ → ε → Prop) : σ → List ε → Prop
  | _, [] => True
  | s, e :: es => C s e ∧ match step s e with
    | some (_, s') => Allowed step C s' es
    | none => True

instance instDecidableAllowed (step : σ → ε → Option (List ρ × σ)) (C : σ → ε → Prop)
    [∀ s e, Decidable (C s e)] : (s : σ) → (es : List ε) → Decidable (Allowed step C s es)
  | _, [] => isTrue trivial
  | s, e :: es =>
    match h : step s e with
    | some (_, s') =>
      have : Decidable (Allowed step C s' es) := instDecidableAllowed step C s' es
      decidable_of_iff (C s e ∧ Allowed step C s' es) (by rw [Allowed, h])
    | none => decidable_of_iff (C s e) (by rw [Allowed, h, and_true])

/-- **An invariant that keeps steps from failing**, over a run. -/
theorem tryRun_inv {step : σ → ε → Option (List ρ × σ)} {I : σ → Prop} {C : σ → ε → Prop}
    (hs : ∀ s e, I s → C s e → ∃ o s', step s e = some (o, s') ∧ I s') {s : σ} (es : List ε)
    (hi : I s) (hC : Allowed step C s es) : ∃ os s', tryRun step s es = some (os, s') ∧ I s' := by
  induction es generalizing s with
  | nil => exact ⟨[], s, rfl, hi⟩
  | cons e es ih =>
    obtain ⟨hCe, hrest⟩ := hC
    obtain ⟨o, s', hstep, hi'⟩ := hs s e hi hCe
    rw [hstep] at hrest
    obtain ⟨os, s'', hrun, hi''⟩ := ih hi' hrest
    refine ⟨o ++ os, s'', ?_, hi''⟩
    simp only [tryRun, hstep, hrun, Option.bind_eq_bind, Option.bind_some]
    rfl

theorem tryRun_append {step : σ → ε → Option (List ρ × σ)} {s s' s'' : σ} {es es' : List ε}
    {os os' : List ρ} (h : tryRun step s es = some (os, s'))
    (h' : tryRun step s' es' = some (os', s'')) :
    tryRun step s (es ++ es') = some (os ++ os', s'') := by
  induction es generalizing s os with
  | nil =>
    cases h
    exact h'
  | cons e es ih =>
    rw [tryRun] at h
    obtain ⟨⟨o, s₁⟩, hstep, h⟩ := Option.bind_eq_some_iff.1 h
    obtain ⟨⟨os₁, s₂⟩, hrest, h⟩ := Option.bind_eq_some_iff.1 h
    cases h
    simp only [List.cons_append, tryRun, hstep, ih hrest, Option.bind_eq_bind, Option.bind_some,
      List.append_assoc]
    rfl

theorem tryRun_snoc {step : σ → ε → Option (List ρ × σ)} {s s' s'' : σ} {es : List ε} {e : ε}
    {os o : List ρ} (h : tryRun step s es = some (os, s')) (he : step s' e = some (o, s'')) :
    tryRun step s (es ++ [e]) = some (os ++ o, s'') := by
  refine tryRun_append h ?_
  simp only [tryRun, he, Option.bind_eq_bind, Option.bind_some, List.append_nil]
  rfl

/-- **An invariant of the history**: the events, their outputs and the state, over a run. -/
theorem tryRun_history {step : σ → ε → Option (List ρ × σ)} {I : List ε → List ρ → σ → Prop}
    {K : ε → Prop} (hs : ∀ es os s e, K e → I es os s →
      ∃ o s', step s e = some (o, s') ∧ I (es ++ [e]) (os ++ o) s')
    {es₀ : List ε} {os₀ : List ρ} {s : σ} (hi : I es₀ os₀ s) (es : List ε) (hK : ∀ e ∈ es, K e) :
    ∃ os s', tryRun step s es = some (os, s') ∧ I (es₀ ++ es) (os₀ ++ os) s' := by
  induction es generalizing es₀ os₀ s with
  | nil => exact ⟨[], s, rfl, by rwa [List.append_nil, List.append_nil]⟩
  | cons e es ih =>
    obtain ⟨o, s₁, hstep, hi₁⟩ := hs es₀ os₀ s e (hK e List.mem_cons_self) hi
    obtain ⟨os, s', hrun, hi'⟩ := ih hi₁ fun e' he => hK e' (List.mem_cons_of_mem e he)
    refine ⟨o ++ os, s', ?_, ?_⟩
    · simp only [tryRun, hstep, hrun, Option.bind_eq_bind, Option.bind_some]
      rfl
    · rwa [List.append_assoc, List.append_assoc, List.singleton_append] at hi'

/-- Steps from states that `R` relates succeed, with the same output, and keep `R`. -/
structure Simulates (step : σ → ε → Option (List ρ × σ)) (spec : τ → ε → τ)
    (out : τ → ε → List ρ) (R : σ → τ → Prop) : Prop where
  step_eq : ∀ {s t} (e : ε), R s t → ∃ s', step s e = some (out t e, s') ∧ R s' (spec t e)

namespace Simulates
variable {step : σ → ε → Option (List ρ × σ)} {spec : τ → ε → τ} {out : τ → ε → List ρ}
  {R : σ → τ → Prop}

/-- **A simulated run** does not fail, and has the outputs of the other machine. -/
theorem tryRun_eq (h : Simulates step spec out R) {s : σ} {t : τ} (es : List ε) (hR : R s t) :
    ∃ s', tryRun step s es = some (collect spec out t es, s') ∧ R s' (run spec t es) := by
  induction es generalizing s t with
  | nil => exact ⟨s, rfl, hR⟩
  | cons e es ih =>
    obtain ⟨s', hs', hR'⟩ := h.step_eq e hR
    obtain ⟨s'', hs'', hR''⟩ := ih hR'
    refine ⟨s'', ?_, hR''⟩
    simp only [tryRun, hs', hs'', Option.bind_eq_bind, Option.bind_some]
    rfl

/-- Simulation of a machine whose state is a function of that of the other. -/
theorem trans (h : Simulates step spec out R) {spec' : υ → ε → υ} {out' : υ → ε → List ρ}
    {f : τ → υ} (hs : ∀ t e, f (spec t e) = spec' (f t) e) (ho : ∀ t e, out t e = out' (f t) e) :
    Simulates step spec' out' fun s u => ∃ t, R s t ∧ f t = u where
  step_eq := by
    rintro s _ e ⟨t, hR, rfl⟩
    obtain ⟨s', hs', hR'⟩ := h.step_eq e hR
    exact ⟨s', by rw [hs', ho], spec t e, hR', hs t e⟩

end Simulates

end GndCtrl
