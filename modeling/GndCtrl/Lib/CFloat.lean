/-
  The floating-point arithmetic of a C program, as a parameter.

  A program that computes with `float` and `double` is written over a `float`
  type `F` and a `double` type `D` with the operations C has on them (`CNum`)
  and the conversions between them (`CFloat`).  What holds for every instance
  holds of the hardware, whatever it does on rounding, infinities and values
  that are not numbers.

  The instance `Num` is arithmetic without rounding: rational numbers with the
  two infinities and the undefined value, and the rules of IEEE 754 for these.
  A conversion to an integer saturates, as the run-time library of the
  processor does.
-/
import Mathlib.Data.Rat.Floor
import Mathlib.Tactic.Linarith

namespace GndCtrl

/-- The arithmetic of one C floating-point type. -/
class CNum (F : Type) extends Add F, Sub F, Mul F, Div F where
  /-- a literal -/
  lit : ℚ → F
  /-- conversion from an integer -/
  ofInt : ℤ → F
  /-- conversion to an integer -/
  toInt : F → ℤ
  /-- `fabs` -/
  abs : F → F
  /-- `x < y` -/
  lt : F → F → Bool
  /-- `x <= y` -/
  le : F → F → Bool
  /-- `x == y` -/
  eq : F → F → Bool

/-- A `float` type with its `double` type. -/
class CFloat (F : Type) (D : outParam Type) [CNum F] [CNum D] where
  /-- promotion to `double` -/
  widen : F → D
  /-- assignment of a `double` to a `float` -/
  narrow : D → F
  /-- the `float` with a given representation -/
  ofBits : BitVec 32 → F

/-! ## Arithmetic without rounding -/

/-- A rational number, an infinity or the undefined value. -/
inductive Num where
  | fin (q : ℚ)
  | inf
  | negInf
  | nan
  deriving DecidableEq

/-- Truncation towards zero. -/
def truncate (x : ℚ) : ℤ := x.num.tdiv x.den

namespace Num

/-- The infinity with the sign of `q`; undefined for `0`. -/
def signed (q : ℚ) : Num := if 0 < q then inf else if q < 0 then negInf else nan

def neg : Num → Num
  | fin a => fin (-a)
  | inf => negInf
  | negInf => inf
  | nan => nan

def add : Num → Num → Num
  | fin a, fin b => fin (a + b)
  | fin _, y => y
  | x, fin _ => x
  | inf, inf => inf
  | negInf, negInf => negInf
  | _, _ => nan

def mul : Num → Num → Num
  | fin a, fin b => fin (a * b)
  | fin a, inf => signed a
  | inf, fin a => signed a
  | fin a, negInf => signed (-a)
  | negInf, fin a => signed (-a)
  | inf, inf => inf
  | negInf, negInf => inf
  | inf, negInf => negInf
  | negInf, inf => negInf
  | _, _ => nan

def div : Num → Num → Num
  | fin a, fin b => if b = 0 then signed a else fin (a / b)
  | fin _, inf => fin 0
  | fin _, negInf => fin 0
  | inf, fin b => if b < 0 then negInf else inf
  | negInf, fin b => if b < 0 then inf else negInf
  | _, _ => nan

def abs : Num → Num
  | fin a => fin |a|
  | negInf => inf
  | x => x

def lt : Num → Num → Bool
  | fin a, fin b => decide (a < b)
  | fin _, inf => true
  | negInf, fin _ => true
  | negInf, inf => true
  | _, _ => false

def eq : Num → Num → Bool
  | fin a, fin b => decide (a = b)
  | inf, inf => true
  | negInf, negInf => true
  | _, _ => false

/-- The limits of a 32-bit integer. -/
def saturate (n : ℤ) : ℤ := max (-2 ^ 31) (min n (2 ^ 31 - 1))

def toInt : Num → ℤ
  | fin a => saturate (truncate a)
  | inf => 2 ^ 31 - 1
  | negInf => -2 ^ 31
  | nan => 0

/-- The value of a single-precision bit pattern. -/
def ofBits (b : BitVec 32) : Num :=
  let e := ((b >>> 23) &&& 0xFF).toNat
  let m := (b &&& 0x7FFFFF).toNat
  let s : ℚ := if b.msb then -1 else 1
  if e = 0 then fin (s * m / 2 ^ 149)
  else if e = 255 then if m = 0 then signed s else nan
  else fin (s * (2 ^ 23 + m) * 2 ^ e / 2 ^ 150)

end Num

instance : CNum Num where
  add := Num.add
  sub x y := Num.add x (Num.neg y)
  mul := Num.mul
  div := Num.div
  lit q := .fin q
  ofInt n := .fin n
  toInt := Num.toInt
  abs := Num.abs
  lt := Num.lt
  le x y := Num.lt x y || Num.eq x y
  eq := Num.eq

instance : CFloat Num Num where
  widen x := x
  narrow x := x
  ofBits := Num.ofBits

namespace Num
open CNum CFloat

variable (a b : ℚ) (x y : Num)

@[simp] theorem fin_add : fin a + fin b = fin (a + b) := rfl
@[simp] theorem fin_sub : fin a - fin b = fin (a - b) := congrArg fin (sub_eq_add_neg a b).symm
@[simp] theorem fin_mul : fin a * fin b = fin (a * b) := rfl
@[simp] theorem lit_eq : (lit a : Num) = fin a := rfl
@[simp] theorem ofInt_eq (n : ℤ) : (ofInt n : Num) = fin n := rfl
@[simp] theorem abs_fin : CNum.abs (fin a) = fin |a| := rfl
@[simp] theorem lt_fin : CNum.lt (fin a) (fin b) = decide (a < b) := rfl
@[simp] theorem eq_fin : CNum.eq (fin a) (fin b) = decide (a = b) := rfl
@[simp] theorem widen_eq : (widen x : Num) = x := rfl
@[simp] theorem narrow_eq : (narrow x : Num) = x := rfl

@[simp] theorem le_fin : CNum.le (fin a) (fin b) = decide (a ≤ b) := by
  rw [Bool.eq_iff_iff]
  simp [CNum.le, lt, eq, le_iff_lt_or_eq]

theorem fin_div (h : b ≠ 0) : fin a / fin b = fin (a / b) := if_neg h

/-! Infinities and the undefined value. -/

@[simp] theorem nan_add : nan + x = nan := by cases x <;> rfl
@[simp] theorem add_nan : x + nan = nan := by cases x <;> rfl
@[simp] theorem nan_sub : nan - x = nan := by cases x <;> rfl
@[simp] theorem sub_nan : x - nan = nan := by cases x <;> rfl
@[simp] theorem nan_mul : nan * x = nan := by cases x <;> rfl
@[simp] theorem mul_nan : x * nan = nan := by cases x <;> rfl
@[simp] theorem abs_nan : CNum.abs nan = nan := rfl
@[simp] theorem lt_nan : CNum.lt x nan = false := by cases x <;> rfl
@[simp] theorem nan_lt : CNum.lt nan x = false := by cases x <;> rfl
@[simp] theorem le_nan : CNum.le x nan = false := by cases x <;> rfl
@[simp] theorem nan_le : CNum.le nan x = false := by cases x <;> rfl
@[simp] theorem nan_eq : CNum.eq nan x = false := by cases x <;> rfl
@[simp] theorem eq_nan : CNum.eq x nan = false := by cases x <;> rfl
@[simp] theorem toInt_nan : CNum.toInt nan = 0 := rfl

@[simp] theorem abs_inf : CNum.abs inf = inf := rfl
@[simp] theorem abs_negInf : CNum.abs negInf = inf := rfl
@[simp] theorem fin_lt_inf : CNum.lt (fin a) inf = true := rfl
@[simp] theorem inf_lt : CNum.lt inf x = false := by cases x <;> rfl
@[simp] theorem fin_le_inf : CNum.le (fin a) inf = true := rfl
@[simp] theorem inf_le_fin : CNum.le inf (fin a) = false := rfl
@[simp] theorem lt_negInf : CNum.lt x negInf = false := by cases x <;> rfl
@[simp] theorem negInf_lt_fin : CNum.lt negInf (fin a) = true := rfl
@[simp] theorem fin_le_negInf : CNum.le (fin a) negInf = false := rfl

@[simp] theorem fin_sub_inf : fin a - inf = negInf := rfl
@[simp] theorem fin_sub_negInf : fin a - negInf = inf := rfl
@[simp] theorem negInf_sub_fin : negInf - fin a = negInf := rfl
@[simp] theorem negInf_sub_inf : negInf - inf = negInf := rfl
@[simp] theorem eq_negInf_self : CNum.eq negInf negInf = true := rfl

theorem inf_mul_neg {a : ℚ} (h : a < 0) : inf * fin a = negInf := by
  change signed a = negInf
  rw [signed, if_neg (not_lt.2 h.le), if_pos h]

theorem negInf_mul_neg {a : ℚ} (h : a < 0) : negInf * fin a = inf := if_pos (neg_pos.2 h)

@[simp] theorem toInt_fin : CNum.toInt (fin a) = saturate (truncate a) := rfl
@[simp] theorem toInt_inf : CNum.toInt inf = 2 ^ 31 - 1 := rfl
@[simp] theorem toInt_negInf : CNum.toInt negInf = -2 ^ 31 := rfl

theorem saturate_nonpos {n : ℤ} : saturate n ≤ 0 ↔ n ≤ 0 := by
  simp only [saturate]
  omega

end Num

/-! ## Truncation -/

@[simp] theorem truncate_zero : truncate 0 = 0 := rfl

theorem truncate_of_nonneg {x : ℚ} (h : 0 ≤ x) : truncate x = ⌊x⌋ := by
  rw [truncate, Int.tdiv_eq_ediv_of_nonneg (Rat.num_nonneg.2 h), Rat.floor_def']

theorem truncate_neg (x : ℚ) : truncate (-x) = -truncate x := by
  rw [truncate, truncate, Rat.num_neg_eq_neg_num, Rat.den_neg_eq_den, Int.neg_tdiv]

theorem truncate_mono {x y : ℚ} (h : x ≤ y) : truncate x ≤ truncate y := by
  rcases le_total 0 x with hx | hx
  · rw [truncate_of_nonneg hx, truncate_of_nonneg (hx.trans h)]
    exact Int.floor_mono h
  · have hx' : truncate x = -⌊-x⌋ := by
      rw [← truncate_of_nonneg (neg_nonneg.2 hx), truncate_neg, neg_neg]
    rw [hx']
    rcases le_total 0 y with hy | hy
    · rw [truncate_of_nonneg hy]
      have h1 := Int.floor_nonneg.2 (neg_nonneg.2 hx)
      have h2 := Int.floor_nonneg.2 hy
      omega
    · rw [← neg_neg y, truncate_neg (-y), truncate_of_nonneg (neg_nonneg.2 hy)]
      exact neg_le_neg (Int.floor_mono (neg_le_neg h))

/-- Below `1` nothing positive is left. -/
theorem truncate_nonpos {x : ℚ} (h : x < 1) : truncate x ≤ 0 := by
  rcases le_or_gt 0 x with h0 | h0
  · rw [truncate_of_nonneg h0]
    exact Int.lt_add_one_iff.1 (Int.floor_lt.2 (by simpa using h))
  · have hn := Rat.num_neg.2 h0
    have := Int.tdiv_nonneg (a := -x.num) (b := x.den) (by omega) (by omega)
    rw [Int.neg_tdiv] at this
    rw [truncate]; omega

theorem truncate_pos {x : ℚ} (h : 1 ≤ x) : 0 < truncate x := by
  rw [truncate_of_nonneg (by linarith)]
  exact Int.lt_iff_add_one_le.2 (Int.le_floor.2 (by simpa using h))

theorem truncate_nonpos_iff {x : ℚ} : truncate x ≤ 0 ↔ x < 1 :=
  ⟨fun h => not_le.1 fun hx => absurd (truncate_pos hx) (not_lt.2 h), truncate_nonpos⟩

end GndCtrl
