/-
  One measurement of the PID.

  A measurement with the count `n` gives the error `Tuning.err`, the target less
  a speed.  `ctrl_eq` says what it leaves in the PID: the last error, the
  integral, and the output, which `Tuning.asked` gives for a PID that puts out
  `0`: the sum of the terms, from the segment the error lies in.

  The arithmetic is any one.
-/
import GndCtrl.Drive

namespace GndCtrl

open CNum CFloat

/-- The parameters of the PID. -/
structure Tuning (F : Type) where
  kp : ℕ
  ki : ℕ
  kd : ℕ
  target : F
  pe : ℤ

variable {F D : Type} [CNum F] [CNum D] [CFloat F D]

/-- The PID uses the parameters. -/
structure Tuning.On (t : Tuning F) (p : Pid F) : Prop where
  kp : p.fwKp = ofInt t.kp
  ki : p.fwKi = ofInt t.ki
  kd : p.fwKd = ofInt t.kd
  target : p.speedTarget = t.target
  pe : p.peDistance = t.pe

/-- The error measured with the count `n`: the target less the speed. -/
def Tuning.err (t : Tuning F) (n : ℕ) : F := t.target - ofInt t.pe / ofInt (50 * n)

/-- The sum of the terms for an error `e`, an integral `i` and a differential error
    `d`, from the frequency `hz`. -/
def Tuning.terms (t : Tuning F) (hz : ℤ) (e i d : F) (gain : D) : D :=
  ofInt hz + widen (ofInt t.kp * e) * gain + widen (ofInt t.ki * i) + widen (ofInt t.kd * d)

/-- The frequency asked for from `0`, by the segment of the error.  In an arithmetic
    without an order the segments may overlap. -/
def Tuning.asked (t : Tuning F) (e i d : F) : ℤ :=
  let hz := match pidGain e with
    | some gain => toInt (t.terms 0 e i d gain)
    | none => 0
  let hz := if CNum.le (lit (1 / 20)) (widen e) then
      toInt (t.terms hz e i d (lit (3 / 10)) + lit (1 / 2))
    else hz
  if CNum.lt (ofInt 0) e && CNum.lt (widen e) (lit (1 / 20)) then
    toInt (t.terms hz e i d (lit (3 / 5)) + lit 1)
  else hz

/-- The next integral error: saturated, added up, or dropped. -/
def nextErrI (i e0 e1 : F) : F :=
  if CNum.le (CNum.abs (widen e1)) fwErrIMax then
    if CNum.le (CNum.abs fwErrIMax) (CNum.abs (widen i)) && CNum.lt (ofInt 0) (i * e1) then i
    else if CNum.lt (e0 * e1) (ofInt 0) then ofInt 0
    else errI i e1
  else ofInt 0

/-- The adjustment is finished, as `fwPIDctrl` tests it. -/
def settled (e d : F) : Bool :=
  CNum.le (CNum.abs (widen e)) (lit (1 / 1000)) && CNum.le (CNum.abs (widen d)) (ofInt 1)

/-- The state after the error `e` is measured. -/
def Pid.measured (v e : F) (p : Pid F) : Pid F :=
  { p with fwbV := v, fwErr0 := p.fwErr1, fwErr1 := e, fwErrD := errD p.fwErr1 e,
           fwErrI := nextErrI p.fwErrI p.fwErr1 e }

/-- The output of a segment of `fwPIDctrl`, before the limits. -/
def Pid.raw (p : Pid F) : ℤ := p.segment.fwHz

/-- **A call of `fwErrCalculate`** measures the target less the speed. -/
theorem fwErrCalculate_measured (peTime : ℤ) (p : Pid F) :
    fwErrCalculate peTime p = p.measured (ofInt p.peDistance / ofInt peTime)
      (p.speedTarget - ofInt p.peDistance / ofInt peTime) := by
  simp only [fwErrCalculate, Pid.measured, nextErrI, Pid.zeroCross]
  split_ifs <;> rfl

theorem fwErrCalculate_eq {t : Tuning F} {p : Pid F} (h : t.On p) (n : ℕ) :
    fwErrCalculate (50 * n) p = p.measured (ofInt p.peDistance / ofInt (50 * n)) (t.err n) := by
  rw [fwErrCalculate_measured, h.target, h.pe, Tuning.err]

theorem segment_eq (p : Pid F) : p.segment = { p with fwHz := p.raw } := by
  simp only [Pid.raw, Pid.segment]
  split_ifs <;> cases pidGain p.fwErr1 <;> rfl

theorem settle_eq (p : Pid F) :
    p.settle = { p with fwErrI := if settled p.fwErr1 p.fwErrD then ofInt 0 else p.fwErrI } := by
  rw [Pid.settle, settled]
  split_ifs <;> rfl

theorem Tuning.On.measured {t : Tuning F} {p : Pid F} (h : t.On p) (v e : F) :
    t.On (p.measured v e) := ⟨h.kp, h.ki, h.kd, h.target, h.pe⟩

theorem Tuning.On.sum {t : Tuning F} {p : Pid F} (h : t.On p) (hz : ℤ) (gain : D) :
    { p with fwHz := hz }.sum gain = t.terms hz p.fwErr1 p.fwErrI p.fwErrD gain := by
  simp only [Pid.sum, Tuning.terms, h.kp, h.ki, h.kd]

/-- A PID that puts out `0` asks for what the parameters say. -/
theorem raw_asked {t : Tuning F} {p : Pid F} (h : t.On p) (hz : p.fwHz = 0) :
    p.raw = t.asked p.fwErr1 p.fwErrI p.fwErrD := by
  have hp : p = { p with fwHz := 0 } := by rw [← hz]
  rw [Pid.raw, Pid.segment, Tuning.asked]
  rw [hp]
  cases pidGain p.fwErr1 <;> simp only [h.sum] <;> split_ifs <;> simp only [h.sum]

/-- **A measurement** with the count `n`. -/
theorem ctrl_eq {t : Tuning F} {p : Pid F} (h : t.On p) (n : ℕ) :
    ∃ v, p.ctrl (50 * n) =
      { p.measured v (t.err n) with
        fwErrI :=
          if settled (t.err n) (errD p.fwErr1 (t.err n)) then ofInt 0
          else nextErrI p.fwErrI p.fwErr1 (t.err n)
        fwHz := clampHz (p.measured v (t.err n)).raw } := by
  refine ⟨ofInt p.peDistance / ofInt (50 * n), ?_⟩
  rw [Pid.ctrl, fwErrCalculate_eq h, segment_eq, settle_eq]
  rfl

/-- The limits make `0` of what is not positive, and of nothing else. -/
theorem clampHz_eq_zero {hz : ℤ} : clampHz hz = 0 ↔ hz ≤ 0 := by
  simp only [clampHz]
  split_ifs <;> simp_all <;> omega

end GndCtrl
