/-
  The frequency of the first stage.

  `fwInitServo` truncates the product of the target speed and the speed factor,
  stores it in 16 bits and limits what is stored.  So a product outside the 16
  bits is wrapped before the limit is applied: a negative one is at the upper
  limit, and one from 65536 on may be anywhere.
-/
import GndCtrl.Drive

namespace GndCtrl

open CNum CFloat
open GndCtrl.Num (fin)

/-- The product of the target speed and the speed factor is a number, `n` when
    truncated, that fits in `int`. -/
structure HasProduct (m : ParaData Num) (q : ℚ) (n : ℤ) : Prop where
  target : m.speedTarget = fin q
  product : truncate (q * m.speedFactor.toInt) = n
  fits : -2 ^ 31 ≤ n ∧ n < 2 ^ 31

/-- The messages get the clamped product as start frequency, and a faster target
    never a lower one. -/
structure StartsClamped (s : Drive Num) (M : Set (ParaData Num)) : Prop where
  clamped : ∀ m ∈ M, ∀ q n, HasProduct m q n →
    ((s.step (.para m)).firstStageHz.toNat : ℤ) = max 0 (min n fwOutHzMax.toNat) ∧
      (s.step (.para m)).fwInitHz = (s.step (.para m)).firstStageHz
  mono : ∀ m ∈ M, ∀ m' ∈ M, ∀ q q' n n', HasProduct m q n → HasProduct m' q' n' →
    m.speedFactor = m'.speedFactor → 0 ≤ m.speedFactor.toInt → q ≤ q' →
      (s.step (.para m)).firstStageHz ≤ (s.step (.para m')).firstStageHz

/-- The product is limited after it is stored. -/
theorem firstStageHz_eq {m : ParaData Num} {q : ℚ} {n : ℤ} (h : HasProduct m q n)
    (s : Drive Num) : ((s.step (.para m)).firstStageHz.toNat : ℤ) = min (n % 65536) 5000 := by
  have hsat : toInt (m.speedTarget * ofInt m.speedFactor.toInt) = n := by
    rw [h.target, Num.ofInt_eq, Num.fin_mul, Num.toInt_fin, h.product, Num.saturate]
    have := h.fits
    omega
  have hstored : ((BitVec.ofInt 16 n).toNat : ℤ) = n % 65536 := by
    rw [BitVec.toNat_ofInt]
    omega
  simp only [Drive.step, recvPara, fwInitServo, hsat]
  split_ifs with hmax
  · have hlt : 5000 < (BitVec.ofInt 16 n).toNat := hmax
    rw [min_eq_right (by omega)]
    rfl
  · have hle : (BitVec.ofInt 16 n).toNat ≤ 5000 := not_lt.1 hmax
    rw [min_eq_left (by omega), hstored]

/-- **The start frequency** of the messages is the clamped product, and monotone, if
    and only if every negative product is a multiple of 65536, and every product
    from 65536 on leaves at least 5000 in the low 16 bits. -/
theorem starts_clamped_iff (s : Drive Num) (M : Set (ParaData Num)) :
    StartsClamped s M ↔ ∀ m ∈ M, ∀ q n, HasProduct m q n →
      (n < 0 → n % 65536 = 0) ∧ (65536 ≤ n → 5000 ≤ n % 65536) := by
  have hmax : ((fwOutHzMax.toNat : ℕ) : ℤ) = 5000 := rfl
  have hclamp : ∀ {m q n}, HasProduct m q n →
      (n < 0 → n % 65536 = 0) ∧ (65536 ≤ n → 5000 ≤ n % 65536) →
      ((s.step (.para m)).firstStageHz.toNat : ℤ) = max 0 (min n 5000) := by
    intro m q n h hn
    rw [firstStageHz_eq h]
    omega
  constructor
  · intro h m hm q n hq
    have hc := (h.clamped m hm q n hq).1
    rw [firstStageHz_eq hq, hmax] at hc
    omega
  · intro h
    refine ⟨fun m hm q n hq => ⟨by rw [hmax]; exact hclamp hq (h m hm q n hq), rfl⟩, ?_⟩
    intro m hm m' hm' q q' n n' hq hq' hf h0 hle
    have hprod : n ≤ n' := by
      rw [← hq.product, ← hq'.product, ← hf]
      exact truncate_mono (mul_le_mul_of_nonneg_right hle (Int.cast_nonneg h0))
    have h1 := hclamp hq (h m hm q n hq)
    have h2 := hclamp hq' (h m' hm' q' n' hq')
    rw [BitVec.le_def]
    omega

/-- A product of 66000 gives 4.64 Hz. -/
theorem start_wrapped : ¬ ∀ (s : Drive Num) (M : Set (ParaData Num)), StartsClamped s M := by
  intro h
  have hp : HasProduct ⟨[], fin 0, fin 0, 0, 0, 0, fin 33, 2000, 0, 0⟩ 33 66000 :=
    ⟨rfl, by decide +kernel, by decide⟩
  have hc := (h (Drive.init 0) {⟨[], fin 0, fin 0, 0, 0, 0, fin 33, 2000, 0, 0⟩}).clamped _ rfl _ _ hp
  rw [firstStageHz_eq hp] at hc
  exact absurd hc.1 (by decide)

end GndCtrl
