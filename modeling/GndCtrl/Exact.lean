/-
  One measurement of the PID without rounding.

  The errors are rational numbers, infinities or undefined.  The segments of an
  error are disjoint (`asked_neg`, `asked_small`, `asked_pos` and the
  infinities), the differential error and the integral are given by `errD_fin`
  and `nextErrI_fin`.
-/
import GndCtrl.Pid
import Mathlib.Tactic.Positivity

namespace GndCtrl

open CNum CFloat
open GndCtrl.Num (fin inf negInf nan)

/-! ## Segments -/

/-- One threshold of the gains. -/
theorem gain_threshold {c : Bool} {a : ℚ} (ha : 0 < a) {r : Option Num}
    (hr : c = false → ∃ g : ℚ, 0 < g ∧ r = some (fin g)) :
    ∃ g : ℚ, 0 < g ∧ (if c then some (lit a) else r) = some (fin g) := by
  cases c with
  | true => exact ⟨a, ha, rfl⟩
  | false => exact hr rfl

theorem pidGain_neg {q : ℚ} (h : q < 0) : ∃ g : ℚ, 0 < g ∧ pidGain (fin q) = some (fin g) := by
  have hlast : CNum.lt (fin q) (ofInt 0 : Num) = true := by
    rw [Num.ofInt_eq, Int.cast_zero, Num.lt_fin, decide_eq_true h]
  rw [pidGain]
  iterate 9 refine gain_threshold (by norm_num) fun hge => ?_
  -- the last threshold is zero
  exact absurd (hge.symm.trans hlast) Bool.false_ne_true

theorem pidGain_nonneg {q : ℚ} (h : 0 ≤ q) : pidGain (fin q) = (none : Option Num) := by
  -- all thresholds are at most zero
  have hlt : ∀ a : ℚ, a ≤ 0 → decide (q < a) = false := by
    intro a ha
    rw [decide_eq_false_iff_not]
    exact not_lt.2 (ha.trans h)
  simp (disch := norm_num) only [pidGain, Num.widen_eq, Num.lit_eq, Num.ofInt_eq, Num.lt_fin,
    Int.cast_zero, hlt, Bool.false_eq_true, if_false]

/-- The tests that select a segment for an error that is not negative. -/
theorem asked_eq (t : Tuning Num) {e : Num} (i d : Num) (big small : Bool)
    (hg : pidGain e = (none : Option Num)) (hb : CNum.le (fin (1 / 20)) e = big)
    (hs : (CNum.lt (fin 0) e && CNum.lt e (fin (1 / 20))) = small) (hx : ¬ (big ∧ small)) :
    t.asked e i d = if small then toInt (t.terms 0 e i d (fin (3 / 5)) + fin 1)
      else if big then toInt (t.terms 0 e i d (fin (3 / 10)) + fin (1 / 2)) else 0 := by
  have hzero : (ofInt 0 : Num) = fin 0 := by rw [Num.ofInt_eq, Int.cast_zero]
  cases big <;> cases small <;> first | exact absurd ⟨rfl, rfl⟩ hx | skip
  all_goals simp only [Tuning.asked, hg, Num.widen_eq, Num.lit_eq, hzero, hb, hs, if_true,
    if_false, Bool.false_eq_true]

variable (t : Tuning Num)

theorem asked_neg {q : ℚ} {g : Num} (h : q < 0) (hg : pidGain (fin q) = some g) (i d : Num) :
    t.asked (fin q) i d = toInt (t.terms 0 (fin q) i d g) := by
  have hzero : (ofInt 0 : Num) = fin 0 := by rw [Num.ofInt_eq, Int.cast_zero]
  have hb : CNum.le (fin (1 / 20)) (fin q) = false := by
    rw [Num.le_fin, decide_eq_false_iff_not]
    linarith
  have hs : CNum.lt (fin 0) (fin q) = false := by
    rw [Num.lt_fin, decide_eq_false_iff_not]
    linarith
  simp only [Tuning.asked, hg, Num.widen_eq, Num.lit_eq, hzero, hb, hs, if_false,
    Bool.false_eq_true, Bool.false_and]

theorem asked_negInf (i d : Num) :
    t.asked negInf i d = toInt (t.terms 0 negInf i d (fin 20)) := by
  simp [Tuning.asked, pidGain]

theorem asked_zero (i d : Num) : t.asked (fin 0) i d = 0 :=
  asked_eq t i d false false (pidGain_nonneg le_rfl)
    (by rw [Num.le_fin, decide_eq_false_iff_not]; norm_num) (by simp) (by simp)

theorem asked_small {q : ℚ} (h : 0 < q) (h' : q < 1 / 20) (i d : Num) :
    t.asked (fin q) i d = toInt (t.terms 0 (fin q) i d (fin (3 / 5)) + fin 1) :=
  asked_eq t i d false true (pidGain_nonneg h.le)
    (by rw [Num.le_fin, decide_eq_false_iff_not]; linarith)
    (by rw [Num.lt_fin, Num.lt_fin, decide_eq_true h, decide_eq_true h']; rfl) (by simp)

theorem asked_pos {q : ℚ} (h : 1 / 20 ≤ q) (i d : Num) :
    t.asked (fin q) i d = toInt (t.terms 0 (fin q) i d (fin (3 / 10)) + fin (1 / 2)) :=
  asked_eq t i d true false (pidGain_nonneg (by linarith))
    (by rw [Num.le_fin, decide_eq_true h])
    (by rw [Num.lt_fin (b := 1 / 20), decide_eq_false (by linarith), Bool.and_false]) (by simp)

theorem asked_nan (i d : Num) : t.asked nan i d = 0 :=
  asked_eq t i d false false (by simp [pidGain]) (by simp) (by simp) (by simp)

theorem asked_inf (i d : Num) :
    t.asked inf i d = toInt (t.terms 0 inf i d (fin (3 / 10)) + fin (1 / 2)) :=
  asked_eq t i d true false (by simp [pidGain]) (by simp) (by simp) (by simp)

/-- The sum of the terms of numbers. -/
theorem terms_fin (q i d g : ℚ) :
    t.terms 0 (fin q) (fin i) (fin d) (fin g) = fin (t.kp * q * g + t.ki * i + t.kd * d) := by
  simp [Tuning.terms]

theorem terms_nan (e i g : Num) : t.terms 0 e i nan g = nan := by simp [Tuning.terms]

/-- No number below `1` is truncated to a positive one, and every other one is. -/
theorem toInt_nonpos {x : ℚ} : CNum.toInt (fin x) ≤ 0 ↔ x < 1 := by
  rw [Num.toInt_fin, Num.saturate_nonpos, truncate_nonpos_iff]

/-! ## Errors -/

/-- The differential error of two numbers. -/
theorem errD_fin (q0 q1 : ℚ) :
    errD (fin q0) (fin q1) = fin (if q0 = 0 ∨ 1 / 10 < |q1 - q0| then 0 else q1 - q0) := by
  have hzero : (ofInt 0 : Num) = fin 0 := by rw [Num.ofInt_eq, Int.cast_zero]
  simp only [errD, hzero, Num.fin_sub, Num.widen_eq, Num.lit_eq, Num.abs_fin, Num.lt_fin,
    Num.eq_fin, decide_eq_true_eq, Bool.or_eq_true]
  by_cases h0 : q0 = 0
  · simp only [h0, true_or, if_true]
  by_cases h1 : 1 / 10 < |q1 - q0|
  · simp only [h1, or_true, if_true, ite_self]
  by_cases h2 : q0 = q1
  · simp only [h2, or_true, sub_self, ite_self]
  · simp only [h0, h1, h2, or_self, if_false]

/-- A differential error is small or undefined, and undefined only after an
    undefined error. -/
theorem errD_cases (e0 : Num) (q1 : ℚ) :
    (e0 = nan ∧ errD e0 (fin q1) = nan) ∨ ∃ d : ℚ, errD e0 (fin q1) = fin d ∧ |d| ≤ 1 ∧
      (0 < d → ∃ q0, e0 = fin q0 ∧ q0 ≠ 0 ∧ q0 < q1 ∧ q1 - q0 ≤ 1 / 10 ∧ d = q1 - q0) := by
  cases e0 with
  | fin q0 =>
    refine .inr ⟨_, errD_fin q0 q1, ?_⟩
    split_ifs with h
    · exact ⟨by norm_num, fun hc => absurd hc (lt_irrefl _)⟩
    · rw [not_or, not_lt] at h
      refine ⟨h.2.trans (by norm_num), fun hd => ⟨q0, rfl, h.1, by linarith, ?_, rfl⟩⟩
      exact (le_abs_self _).trans h.2
  | inf => exact .inr ⟨0, by simp [errD], by norm_num, fun h => absurd h (lt_irrefl _)⟩
  | negInf => exact .inr ⟨0, by simp [errD], by norm_num, fun h => absurd h (lt_irrefl _)⟩
  | nan => exact .inl ⟨rfl, by simp [errD]⟩

/-- The limit of the integral. -/
def satur (x : ℚ) : ℚ := if 1 / 4 ≤ |x| then if 0 < x then 1 / 4 else -(1 / 4) else x

theorem satur_of_nonneg {x : ℚ} (h : 0 ≤ x) : satur x = min (1 / 4) x := by
  rw [satur, abs_of_nonneg h]
  split_ifs with h1 h2
  · exact (min_eq_left h1).symm
  · linarith
  · exact (min_eq_right (not_le.1 h1).le).symm

theorem satur_of_nonpos {x : ℚ} (h : x ≤ 0) : satur x = -min (1 / 4) (-x) := by
  rw [satur, abs_of_nonpos h]
  split_ifs with h1 h2
  · linarith
  · rw [min_eq_left h1]
  · rw [min_eq_right (not_le.1 h1).le, neg_neg]

theorem nextErrI_fin (i q : ℚ) (e0 : Num) :
    nextErrI (fin i) e0 (fin q) = fin (if |q| ≤ 1 / 4 then
      if 1 / 4 ≤ |i| ∧ 0 < i * q then i
      else if CNum.lt (e0 * fin q) (fin 0) then 0
      else satur (i + q)
    else 0) := by
  have hzero : (ofInt 0 : Num) = fin 0 := by rw [Num.ofInt_eq, Int.cast_zero]
  have hmax : (fwErrIMax : Num) = fin (1 / 4) := rfl
  have habs : |(1 / 4 : ℚ)| = 1 / 4 := abs_of_pos (by norm_num)
  simp only [nextErrI, errI, satur, hzero, hmax, habs, Num.abs_fin, Num.le_fin, Num.lt_fin, Num.fin_mul,
    Num.fin_add, Num.widen_eq, Num.narrow_eq, Num.lit_eq, decide_eq_true_eq, Bool.and_eq_true]
  split_ifs <;> rfl

/-- A large or undefined error clears the integral. -/
theorem nextErrI_large (i e0 : Num) {e1 : Num} (h : CNum.le (CNum.abs e1) (fin (1 / 4)) = false) :
    nextErrI i e0 e1 = fin 0 := by
  have hmax : (fwErrIMax : Num) = fin (1 / 4) := rfl
  rw [nextErrI, hmax, Num.widen_eq, h]
  rfl

end GndCtrl
