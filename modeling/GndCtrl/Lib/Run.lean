/-
  Runs of a machine that reacts to events.

  A machine is a function `step` from a state and an event to the next state; a
  run is `run step s es`, the fold of `step` over a list of events.

  * `Along C` — every step of the run starts from a state and an event that
    satisfy `C`;
  * `Always P` — every state reached satisfies `P`;
  * `collect o` — what the steps of the run contribute to a history, in order.

  `run_inv` is the invariant rule, `always_of_along` its version for steps that
  meet a condition and `always_iff_along` says when the condition is exact.
-/
import Mathlib.Data.List.Basic

namespace GndCtrl

variable {σ ε α : Type}

/-- The state after the events `es`, from `s`. -/
def run (step : σ → ε → σ) (s : σ) (es : List ε) : σ := es.foldl step s

/-- Every step from `s` over `es` meets the condition `C`. -/
def Along (step : σ → ε → σ) (C : σ → ε → Prop) : σ → List ε → Prop
  | _, [] => True
  | s, e :: es => C s e ∧ Along step C (step s e) es

/-- Every state reached from `s` over `es` satisfies `P`. -/
def Always (step : σ → ε → σ) (P : σ → Prop) : σ → List ε → Prop
  | s, [] => P s
  | s, e :: es => P s ∧ Always step P (step s e) es

/-- The history of the run: what each step contributes, in order. -/
def collect (step : σ → ε → σ) (o : σ → ε → List α) : σ → List ε → List α
  | _, [] => []
  | s, e :: es => o s e ++ collect step o (step s e) es

section
variable {step : σ → ε → σ}

@[simp] theorem run_nil (s : σ) : run step s [] = s := rfl

@[simp] theorem run_cons (s : σ) (e : ε) (es : List ε) :
    run step s (e :: es) = run step (step s e) es := rfl

theorem run_append (s : σ) (es es' : List ε) :
    run step s (es ++ es') = run step (run step s es) es' := List.foldl_append

theorem collect_append (o : σ → ε → List α) (s : σ) (es es' : List ε) :
    collect step o s (es ++ es') = collect step o s es ++ collect step o (run step s es) es' := by
  induction es generalizing s with
  | nil => rfl
  | cons e es ih => simp only [List.cons_append, collect, ih, List.append_assoc, run_cons]

theorem along_append {C : σ → ε → Prop} {s : σ} {es es' : List ε} :
    Along step C s (es ++ es') ↔ Along step C s es ∧ Along step C (run step s es) es' := by
  induction es generalizing s with
  | nil => exact ⟨fun h => ⟨trivial, h⟩, fun h => h.2⟩
  | cons e es ih => simp only [List.cons_append, Along, ih, run_cons, and_assoc]

/-- A condition on the events alone. -/
theorem along_of_mem {C : σ → ε → Prop} :
    ∀ {s : σ} {es : List ε}, (∀ e ∈ es, ∀ s, C s e) → Along step C s es
  | _, [], _ => trivial
  | s, _ :: _, h =>
    ⟨h _ (List.mem_cons_self ..) s, along_of_mem fun e he => h e (List.mem_cons_of_mem _ he)⟩

/-- The condition holds at every place of the run. -/
theorem along_iff {C : σ → ε → Prop} {s : σ} {es : List ε} :
    Along step C s es ↔ ∀ es₁ e es₂, es = es₁ ++ e :: es₂ → C (run step s es₁) e := by
  constructor
  · rintro h es₁ e es₂ rfl
    exact (along_append.1 h).2.1
  · intro h
    induction es generalizing s with
    | nil => trivial
    | cons e es ih =>
      refine ⟨h [] e es rfl, ih fun es₁ e' es₂ hes => ?_⟩
      exact h (e :: es₁) e' es₂ (by rw [hes, List.cons_append])

/-- A history that is part of the state: it grows by what each step adds at its end. -/
theorem run_history {f : σ → List α} (h : ∀ s e, f s <+: f (step s e)) (s : σ) (es : List ε) :
    f (run step s es) = f s ++ collect step (fun s e => (f (step s e)).drop (f s).length) s es := by
  induction es generalizing s with
  | nil => exact (List.append_nil _).symm
  | cons e es ih =>
    obtain ⟨l, hl⟩ := h s e
    rw [run_cons, ih, collect, ← List.append_assoc]
    congr 1
    rw [← hl, List.drop_left]

instance instDecidableAlong (C : σ → ε → Prop) [∀ s e, Decidable (C s e)] :
    (s : σ) → (es : List ε) → Decidable (Along step C s es)
  | _, [] => isTrue trivial
  | s, e :: es =>
    have : Decidable (Along step C (step s e) es) := instDecidableAlong C (step s e) es
    inferInstanceAs (Decidable (C s e ∧ Along step C (step s e) es))

/-- A property kept by every step holds after every run. -/
theorem run_inv {I : σ → Prop} (hs : ∀ s e, I s → I (step s e)) {s : σ} (es : List ε)
    (h : I s) : I (run step s es) := by
  induction es generalizing s with
  | nil => exact h
  | cons e es ih => exact ih (hs s e h)

/-- A property kept by every event of a kind holds after every run of such events. -/
theorem run_inv_of {I : σ → Prop} {K : ε → Prop} (hs : ∀ s e, K e → I s → I (step s e)) {s : σ}
    (es : List ε) (hK : ∀ e ∈ es, K e) (h : I s) : I (run step s es) := by
  induction es generalizing s with
  | nil => exact h
  | cons e es ih =>
    have hI := hs s e (hK e (List.mem_cons_self ..)) h
    exact ih (fun e' he => hK e' (List.mem_cons_of_mem _ he)) hI

theorem Always.head {P : σ → Prop} {s : σ} {es : List ε} (h : Always step P s es) : P s := by
  cases es with
  | nil => exact h
  | cons => exact h.1

theorem Always.last {P : σ → Prop} {s : σ} {es : List ε} (h : Always step P s es) :
    P (run step s es) := by
  induction es generalizing s with
  | nil => exact h
  | cons e es ih =>
    rw [run_cons]
    exact ih h.2

theorem Always.imp {P Q : σ → Prop} (hPQ : ∀ s, P s → Q s) :
    ∀ {s : σ} {es : List ε}, Always step P s es → Always step Q s es
  | s, [], h => hPQ s h
  | s, _ :: _, h => ⟨hPQ s h.1, Always.imp hPQ h.2⟩

/-- A property kept by the steps that meet `C` holds throughout a run that meets `C`. -/
theorem always_of_along {P : σ → Prop} {C : σ → ε → Prop}
    (hs : ∀ s e, P s → C s e → P (step s e)) {s : σ} (es : List ε) (h : P s)
    (hC : Along step C s es) : Always step P s es := by
  induction es generalizing s with
  | nil => exact h
  | cons e es ih => exact ⟨h, ih (hs s e h hC.1) hC.2⟩

/-- A condition on the steps that implies another where an invariant holds. -/
theorem Along.imp {I : σ → Prop} {C C' : σ → ε → Prop} (hI : ∀ s e, I s → C s e → I (step s e))
    (hC : ∀ s e, I s → C s e → C' s e) {s : σ} (es : List ε) (hi : I s)
    (h : Along step C s es) : Along step C' s es := by
  induction es generalizing s with
  | nil => trivial
  | cons e es ih => exact ⟨hC s e hi h.1, ih (hI s e hi h.1) h.2⟩

/-- **When the condition is exact**: if from a good state a step leads to a good
    state just when it meets `C`, a run stays good just when all its steps meet `C`.
    `I` is an invariant that every step keeps. -/
theorem always_iff_along {I P : σ → Prop} {C : σ → ε → Prop} (hI : ∀ s e, I s → I (step s e))
    (hs : ∀ s e, I s → P s → (P (step s e) ↔ C s e)) {s : σ} (es : List ε) (hi : I s) (h : P s) :
    Always step P s es ↔ Along step C s es := by
  induction es generalizing s with
  | nil => exact ⟨fun _ => trivial, fun _ => h⟩
  | cons e es ih =>
    constructor
    · rintro ⟨-, ha⟩
      exact ⟨(hs s e hi h).1 ha.head, (ih (hI s e hi) ha.head).1 ha⟩
    · rintro ⟨hC, ha⟩
      have hP := (hs s e hi h).2 hC
      exact ⟨h, (ih (hI s e hi) hP).2 ha⟩

end

end GndCtrl
