/-
  The integral of the PID.

  `fwErrCalculate` drops the integral when the error changes its sign, but a
  saturated integral that the error still pushes returns before that test.  The
  test would not have fired there: a saturated integral is on the side of the
  last error (`Sided`), so an error that pushes it further has the sign of the
  last one.

  The arithmetic is the one without rounding.
-/
import GndCtrl.Measure
import GndCtrl.Exact

namespace GndCtrl

open CNum CFloat
open GndCtrl.Num (fin inf negInf nan)

/-- **What is required of the integral.** -/
structure IntegralOk (p : Pid Num) : Prop where
  bounded : CNum.le (CNum.abs p.fwErrI) fwErrIMax = true
  large : CNum.lt fwErrIMax (CNum.abs p.fwErr1) = true → p.fwErrI = fin 0
  crossed : CNum.lt (p.fwErr0 * p.fwErr1) (fin 0) = true → p.fwErrI = fin 0

/-- The integral `i` is within its limits, and at a limit it is on the side of
    the last error. -/
structure Sided (i : ℚ) (e : Num) : Prop where
  bounded : |i| ≤ 1 / 4
  saturated : 1 / 4 ≤ |i| → ∃ q, e = fin q ∧ 0 ≤ i * q

theorem sided_zero (e : Num) : Sided 0 e :=
  ⟨by norm_num, fun h => absurd h (by norm_num)⟩

/-- An error that pushes a saturated integral has the sign of the last one. -/
theorem Sided.pushed {i q : ℚ} {e : Num} (h : Sided i e) (hi : 1 / 4 ≤ |i|) (hq : 0 < i * q) :
    CNum.lt (e * fin q) (fin 0) = false := by
  obtain ⟨q0, rfl, h0⟩ := h.saturated hi
  rw [Num.fin_mul, Num.lt_fin, decide_eq_false_iff_not, not_lt]
  have hsq : 0 ≤ i ^ 2 * (q0 * q) := by
    calc 0 ≤ i * q0 * (i * q) := mul_nonneg h0 hq.le
      _ = i ^ 2 * (q0 * q) := by ring
  have hne : i ≠ 0 := by
    rintro rfl
    norm_num at hi
  exact nonneg_of_mul_nonneg_right hsq (by positivity)

/-- The limit keeps the sum on the side of the error added last. -/
theorem Sided.satur {i : ℚ} {e : Num} (h : Sided i e) (q : ℚ) : Sided (satur (i + q)) (fin q) := by
  obtain ⟨hlo, hhi⟩ := abs_le.1 h.bounded
  rcases le_total 0 (i + q) with hs | hs
  · have hmin := satur_of_nonneg hs
    have h0 : 0 ≤ min (1 / 4) (i + q) := le_min (by norm_num) hs
    refine ⟨?_, fun hsat => ⟨q, rfl, ?_⟩⟩
    · rw [hmin, abs_of_nonneg h0]
      exact min_le_left ..
    · rw [hmin, abs_of_nonneg h0, le_min_iff] at hsat
      rw [hmin]
      exact mul_nonneg h0 (by linarith)
  · have hmin := satur_of_nonpos hs
    have h0 : 0 ≤ min (1 / 4) (-(i + q)) := le_min (by norm_num) (by linarith)
    refine ⟨?_, fun hsat => ⟨q, rfl, ?_⟩⟩
    · rw [hmin, abs_neg, abs_of_nonneg h0]
      exact min_le_left ..
    · rw [hmin, abs_neg, abs_of_nonneg h0, le_min_iff] at hsat
      rw [hmin]
      exact mul_nonneg_of_nonpos_of_nonpos (by linarith) (by linarith)

/-- **The next integral** is within its limits, is dropped by a large error and by
    an error of the other sign. -/
theorem Sided.next {i : ℚ} {e0 : Num} (h : Sided i e0) (e1 : Num) :
    ∃ i', nextErrI (fin i) e0 e1 = fin i' ∧ Sided i' e1 ∧
      (CNum.lt (fin (1 / 4)) (CNum.abs e1) = true → i' = 0) ∧
      (CNum.lt (e0 * e1) (fin 0) = true → i' = 0) := by
  have hdropped : CNum.le (CNum.abs e1) (fin (1 / 4)) = false →
      ∃ i', nextErrI (fin i) e0 e1 = fin i' ∧ Sided i' e1 ∧
        (CNum.lt (fin (1 / 4)) (CNum.abs e1) = true → i' = 0) ∧
        (CNum.lt (e0 * e1) (fin 0) = true → i' = 0) := by
    intro hl
    exact ⟨0, nextErrI_large _ _ hl, sided_zero e1, fun _ => rfl, fun _ => rfl⟩
  cases e1 with
  | inf => exact hdropped rfl
  | negInf => exact hdropped rfl
  | nan => exact hdropped rfl
  | fin q =>
    by_cases hq : |q| ≤ 1 / 4
    swap
    · exact hdropped (by rw [Num.abs_fin, Num.le_fin, decide_eq_false hq])
    have hlarge : ¬ CNum.lt (fin (1 / 4)) (CNum.abs (fin q)) = true := by
      rw [Num.abs_fin, Num.lt_fin, decide_eq_true_eq]
      exact not_lt.2 hq
    refine ⟨_, nextErrI_fin i q e0, ?_⟩
    rw [if_pos hq]
    split_ifs with hpush hcross
    · -- the early return: the error still pushes the saturated integral
      have hsame := h.pushed hpush.1 hpush.2
      exact ⟨⟨h.bounded, fun _ => ⟨q, rfl, hpush.2.le⟩⟩, fun hl => absurd hl hlarge,
        fun hc => absurd hc (by rw [hsame]; exact Bool.false_ne_true)⟩
    · exact ⟨sided_zero _, fun _ => rfl, fun _ => rfl⟩
    · exact ⟨h.satur q, fun hl => absurd hl hlarge, fun hc => absurd hc hcross⟩

/-! ## Calls -/

/-- The invariant: the integral meets its requirements and is on the side of
    the last error. -/
structure IntegralInv (p : Pid Num) : Prop where
  ok : IntegralOk p
  sided : ∃ i, p.fwErrI = fin i ∧ Sided i p.fwErr1

theorem integralOk_of {p : Pid Num} {i : ℚ} (he : p.fwErrI = fin i) (hi : |i| ≤ 1 / 4)
    (hl : CNum.lt (fin (1 / 4)) (CNum.abs p.fwErr1) = true → i = 0)
    (hc : CNum.lt (p.fwErr0 * p.fwErr1) (fin 0) = true → i = 0) : IntegralOk p := by
  refine ⟨?_, fun h => ?_, fun h => ?_⟩
  · have hmax : (fwErrIMax : Num) = fin (1 / 4) := rfl
    rw [he, hmax, Num.abs_fin, Num.le_fin, decide_eq_true hi]
  · rw [he, hl h]
  · rw [he, hc h]

/-- Without an integral nothing is required. -/
theorem IntegralInv.cleared {p : Pid Num} (h : p.fwErrI = fin 0) : IntegralInv p :=
  ⟨integralOk_of h (by norm_num) (fun _ => rfl) (fun _ => rfl), 0, h, sided_zero _⟩

theorem IntegralInv.fwErrCalculate {p : Pid Num} (h : IntegralInv p) (peTime : ℤ) :
    IntegralInv (fwErrCalculate peTime p) := by
  obtain ⟨i, he, hs⟩ := h.sided
  rw [fwErrCalculate_measured]
  obtain ⟨i', hi', hs', hl, hc⟩ := hs.next (p.speedTarget - ofInt p.peDistance / ofInt peTime)
  rw [← he] at hi'
  exact ⟨integralOk_of hi' hs'.bounded hl hc, i', hi', hs'⟩

theorem IntegralInv.settle {p : Pid Num} (h : IntegralInv p) : IntegralInv p.settle := by
  rw [settle_eq]
  split_ifs
  · exact .cleared rfl
  · exact h

/-- The functions that write the errors. -/
inductive PidCall where
  /-- `fwInitServo`, with the parameters of a message -/
  | fwInitServo (m : ParaData Num)
  /-- `fwErrCalculate` -/
  | fwErrCalculate (peTime : ℤ)
  /-- the clearing of `fwPIDctrl` -/
  | settle

/-- The drive after a call. -/
def Drive.call (s : Drive Num) : PidCall → Drive Num
  | .fwInitServo m => GndCtrl.fwInitServo { s with wcs2GndParaData := m }
  | .fwErrCalculate peTime => { s with pid := GndCtrl.fwErrCalculate peTime s.pid }
  | .settle => { s with pid := s.pid.settle }

theorem integral_call (s : Drive Num) (c : PidCall) (h : IntegralInv s.pid) :
    IntegralInv (s.call c).pid := by
  cases c with
  | fwInitServo m => exact .cleared rfl
  | fwErrCalculate peTime => exact h.fwErrCalculate peTime
  | settle => exact h.settle

/-- **The integral** is bounded, and dropped by large errors and by every change
    of sign, after every sequence of calls. -/
theorem integral_ok (ty : U8) (cs : List PidCall) :
    IntegralOk (run Drive.call (Drive.init ty) cs).pid :=
  (run_inv (I := fun s : Drive Num => IntegralInv s.pid) integral_call cs (.cleared rfl)).ok

/-! ## Runs of the drive -/

theorem IntegralInv.ctrl {p : Pid Num} (h : IntegralInv p) (peTime : ℤ) :
    IntegralInv (p.ctrl peTime) := by
  have hseg : IntegralInv (GndCtrl.fwErrCalculate peTime p).segment := by
    rw [segment_eq]
    have hc := h.fwErrCalculate peTime
    exact ⟨⟨hc.ok.bounded, hc.ok.large, hc.ok.crossed⟩, hc.sided⟩
  have hset := hseg.settle
  exact ⟨⟨hset.ok.bounded, hset.ok.large, hset.ok.crossed⟩, hset.sided⟩

theorem integral_step (s : Drive Num) (e : Event Num) (h : IntegralInv s.pid) :
    IntegralInv (s.step e).pid := by
  by_cases he : ∃ m, e = .para m
  · obtain ⟨m, rfl⟩ := he
    exact .cleared rfl
  · rw [step_pid s fun m hm => he ⟨m, hm⟩]
    induction newCalls s e using List.reverseRecOn with
    | nil => exact h
    | append_singleton l cnt ih =>
      rw [List.foldl_append]
      exact ih.ctrl _

/-- The integral meets its requirements in every state of the drive. -/
theorem integral_run (ty : U8) (es : List (Event Num)) :
    IntegralOk (run Drive.step (Drive.init ty) es).pid :=
  (run_inv (I := fun s : Drive Num => IntegralInv s.pid) integral_step es (.cleared rfl)).ok

end GndCtrl
