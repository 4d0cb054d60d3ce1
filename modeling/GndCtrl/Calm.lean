/-
  The PID at rest.

  The last error and the integral are the memory of the PID, and `Tuning.Left`
  lists the memories that measured errors leave.  `Tuning.Calm` says of the
  parameters that with none of them the next error asks for a frequency above
  `0`.  That is just what keeps the PID silent: `Resting` is the invariant,
  `Resting.ctrl` its step lemma and `calm_of_silent` the converse.

  The arithmetic is any one; `calm_iff_bounds` says what it comes to without
  rounding.
-/
import GndCtrl.Pid
import GndCtrl.Lib.Run

namespace GndCtrl

open CNum CFloat

variable {F D : Type} [CNum F] [CNum D] [CFloat F D]

/-- The last error and the integral after measured errors. -/
inductive Tuning.Left (t : Tuning F) : F → F → Prop where
  | fresh : t.Left (ofInt 0) (ofInt 0)
  | next {e i : F} (h : t.Left e i) {n : ℕ} (hn : n ≤ 65535) :
      t.Left (t.err n)
        (if settled (t.err n) (errD e (t.err n)) then ofInt 0 else nextErrI i e (t.err n))

/-- **Parameters under which the output stays `0`.** -/
def Tuning.Calm (t : Tuning F) : Prop :=
  ∀ e i, t.Left e i → ∀ n ≤ 65535,
    t.asked (t.err n) (nextErrI i e (t.err n)) (errD e (t.err n)) ≤ 0

/-- The PID puts out `0`, and its memory is that of measured errors. -/
structure Resting (t : Tuning F) (p : Pid F) : Prop where
  on : t.On p
  hz : p.fwHz = 0
  left : t.Left p.fwErr1 p.fwErrI

/-- No measurements give an output. -/
def Silent (p : Pid F) : Prop :=
  ∀ ns : List ℕ, (∀ n ∈ ns, n ≤ 65535) → (run (fun p n => p.ctrl (50 * n)) p ns).fwHz = 0

variable {t : Tuning F} {p : Pid F}

theorem resting_fresh (h : t.On p) (hz : p.fwHz = 0) (he : p.fwErr1 = ofInt 0)
    (hi : p.fwErrI = ofInt 0) : Resting t p := by
  refine ⟨h, hz, ?_⟩
  rw [he, hi]
  exact .fresh

/-- **Measurements keep the PID at rest**, with calm parameters. -/
theorem Resting.ctrl (h : Resting t p) (hc : t.Calm) {n : ℕ} (hn : n ≤ 65535) :
    Resting t (p.ctrl (50 * n)) := by
  obtain ⟨v, e⟩ := ctrl_eq h.on n
  have hout : clampHz (p.measured v (t.err n)).raw = 0 := by
    rw [clampHz_eq_zero, raw_asked (h.on.measured v _) h.hz]
    exact hc _ _ h.left n hn
  rw [e]
  exact ⟨⟨h.on.kp, h.on.ki, h.on.kd, h.on.target, h.on.pe⟩, hout, .next h.left hn⟩

/-- A memory is left by the measurements of some counts. -/
theorem Tuning.Left.counts (h : t.On p) (he : p.fwErr1 = ofInt 0) (hi : p.fwErrI = ofInt 0)
    {e i : F} (hl : t.Left e i) : ∃ ns : List ℕ, (∀ n ∈ ns, n ≤ 65535) ∧
      let p' := run (fun p n => p.ctrl (50 * n)) p ns
      t.On p' ∧ p'.fwErr1 = e ∧ p'.fwErrI = i := by
  induction hl with
  | fresh => exact ⟨[], by simp, h, he, hi⟩
  | @next e i hl n hn ih =>
    obtain ⟨ns, hns, hon, he', hi'⟩ := ih
    refine ⟨ns ++ [n], ?_, ?_⟩
    · simpa [or_imp, forall_and] using ⟨hns, hn⟩
    · obtain ⟨v, heq⟩ := ctrl_eq hon n
      simp only [run_append, run_cons, run_nil]
      rw [heq, ← he', ← hi']
      exact ⟨⟨hon.kp, hon.ki, hon.kd, hon.target, hon.pe⟩, rfl, rfl⟩

/-- **A silent PID has calm parameters.** -/
theorem calm_of_silent (h : t.On p) (he : p.fwErr1 = ofInt 0) (hi : p.fwErrI = ofInt 0)
    (hs : Silent p) : t.Calm := by
  intro e i hl n hn
  obtain ⟨ns, hns, hon, rfl, rfl⟩ := hl.counts h he hi
  obtain ⟨v, heq⟩ := ctrl_eq hon n
  have hlast := hs (ns ++ [n]) (by simpa [or_imp, forall_and] using ⟨hns, hn⟩)
  simp only [run_append, run_cons, run_nil] at hlast
  rw [heq, clampHz_eq_zero, raw_asked (hon.measured v _) (hs ns hns)] at hlast
  exact hlast

end GndCtrl
