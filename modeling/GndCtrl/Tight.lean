/-
  The bounds are exact.

  Parameters that are calm without rounding meet `Tuning.Bounds`: each clause is
  one sequence of measurements.  A steady positive error fills the integral
  (`Left.fill`); two errors after each other give a differential error; a
  positive error before a negative one empties the integral.
-/
import GndCtrl.Bounds

namespace GndCtrl

open CNum CFloat
open GndCtrl.Num (fin inf negInf nan)

/-! ## The integral after measurements -/

theorem errD_zero (q : ℚ) : errD (fin 0) (fin q) = fin 0 := by
  rw [errD_fin, if_pos (.inl rfl)]

theorem errD_self (q : ℚ) : errD (fin q) (fin q) = fin 0 := by
  rw [errD_fin, sub_self, ite_self]

theorem errD_rise {q0 q1 : ℚ} (h0 : q0 ≠ 0) (h : q0 < q1) (hd : q1 - q0 ≤ 1 / 10) :
    errD (fin q0) (fin q1) = fin (q1 - q0) := by
  rw [errD_fin, if_neg]
  rintro (hc | hc)
  · exact h0 hc
  · rw [abs_of_pos (by linarith)] at hc
    linarith

/-- The integral that a first error leaves. -/
theorem nextErrI_first (q : ℚ) :
    nextErrI (fin 0) (fin 0) (fin q) = fin (if |q| ≤ 1 / 4 then satur q else 0) := by
  have h0 : ¬ (1 / 4 ≤ |(0 : ℚ)| ∧ 0 < 0 * q) := by norm_num
  have hx : ¬ CNum.lt (fin 0 * fin q) (fin 0) = true := by simp
  rw [nextErrI_fin, if_neg h0, if_neg hx, zero_add]

/-- A large error drops the integral. -/
theorem nextErrI_far (i : ℚ) (e0 : Num) {q : ℚ} (h : 1 / 4 < |q|) :
    nextErrI (fin i) e0 (fin q) = fin 0 := by
  rw [nextErrI_fin, if_neg (not_le.2 h)]

/-- A change of sign drops the integral. -/
theorem nextErrI_cross {i q : ℚ} {e0 : Num} (hi : i * q ≤ 0)
    (hx : CNum.lt (e0 * fin q) (fin 0) = true) : nextErrI (fin i) e0 (fin q) = fin 0 := by
  have hn : ¬ (1 / 4 ≤ |i| ∧ 0 < i * q) := fun hc => not_lt.2 hi hc.2
  rw [nextErrI_fin, if_neg hn, if_pos hx, ite_self]

/-- A full integral is kept. -/
theorem nextErrI_full {i q : ℚ} (e0 : Num) (hq : |q| ≤ 1 / 4) (hi : 1 / 4 ≤ |i|)
    (hs : 0 < i * q) : nextErrI (fin i) e0 (fin q) = fin i := by
  rw [nextErrI_fin, if_pos hq, if_pos ⟨hi, hs⟩]

theorem not_settled {q : ℚ} (h : 1 / 20 ≤ q) (d : Num) : settled (fin q) d = false := by
  have hq : ¬ |q| ≤ 1 / 1000 := by
    rw [abs_of_pos (by linarith)]
    linarith
  rw [settled, Num.widen_eq, Num.lit_eq, Num.abs_fin, Num.le_fin, decide_eq_false hq,
    Bool.false_and]

namespace Tuning.Left
variable {t : Tuning Num}

theorem start : t.Left (fin 0) (fin 0) := by
  have h := Tuning.Left.fresh (t := t)
  rwa [Num.ofInt_eq, Int.cast_zero] at h

theorem next_fin {e : Num} {i : ℚ} (h : t.Left e (fin i)) {n : ℕ} (hn : n ≤ 65535) {j : ℚ}
    (hj : nextErrI (fin i) e (t.err n) = fin j) :
    t.Left (t.err n) (fin (if settled (t.err n) (errD e (t.err n)) then 0 else j)) := by
  have hnext := Tuning.Left.next h hn
  rw [hj, Num.ofInt_eq, Int.cast_zero] at hnext
  split_ifs at hnext ⊢ <;> exact hnext

/-- A steady positive error fills the integral. -/
theorem fill {n : ℕ} (hn : n ≤ 65535) {q : ℚ} (he : t.err n = fin q) (hq : 1 / 20 ≤ q)
    (hq' : q ≤ 1 / 4) : t.Left (fin q) (fin (1 / 4)) := by
  have hpos : 0 < q := by linarith
  have habs : |q| ≤ 1 / 4 := by rwa [abs_of_pos hpos]
  -- after `k + 1` measurements
  have hk : ∀ k : ℕ, t.Left (fin q) (fin (min (1 / 4) ((k + 1) * q))) := by
    intro k
    induction k with
    | zero =>
      have hj : nextErrI (fin 0) (fin 0) (t.err n) = fin (min (1 / 4) q) := by
        rw [he, nextErrI_first, if_pos habs, satur_of_nonneg hpos.le]
      have hnext := start.next_fin hn hj
      rw [he, not_settled hq, if_neg (by decide)] at hnext
      simpa using hnext
    | succ k ih =>
      have hi : 0 < min (1 / 4) (((k : ℚ) + 1) * q) :=
        lt_min (by norm_num) (mul_pos (by positivity) hpos)
      have hj : nextErrI (fin (min (1 / 4) ((k + 1) * q))) (fin q) (t.err n) =
          fin (min (1 / 4) (((k + 1 : ℕ) + 1) * q)) := by
        have hstep : (((k + 1 : ℕ) : ℚ) + 1) * q = (k + 1) * q + q := by push_cast; ring
        rw [he, hstep]
        rcases le_total (1 / 4) (((k : ℚ) + 1) * q) with hle | hle
        · rw [min_eq_left hle, min_eq_left (by linarith)]
          exact nextErrI_full _ habs (by norm_num) (by linarith)
        · rw [min_eq_right hle] at hi ⊢
          rw [nextErrI_fin, if_pos habs]
          split_ifs with h1 h2
          · rw [abs_of_pos hi] at h1
            rw [min_eq_left (by linarith)]
            exact congrArg fin (le_antisymm hle h1.1)
          · rw [Num.fin_mul, Num.lt_fin, decide_eq_true_eq] at h2
            exact absurd h2 (not_lt.2 (mul_nonneg hpos.le hpos.le))
          · rw [satur_of_nonneg (by linarith)]
      have hnext := ih.next_fin hn hj
      rwa [he, not_settled hq, if_neg (by decide)] at hnext
  have h4 := hk 4
  rwa [min_eq_left (by push_cast; linarith)] at h4

/-- The first error, positive or negative. -/
theorem first {n : ℕ} (hn : n ≤ 65535) {q : ℚ} (he : t.err n = fin q) :
    ∃ i, t.Left (fin q) (fin i) ∧ (0 ≤ q → 0 ≤ i) ∧ (q ≤ 0 → i ≤ 0) ∧
      (q < 0 → i = -Tuning.carried q) := by
  have hj : nextErrI (fin 0) (fin 0) (t.err n) =
      fin (if |q| ≤ 1 / 4 then satur q else 0) := by rw [he, nextErrI_first]
  have hnext := start.next_fin hn hj
  rw [he, errD_zero] at hnext
  refine ⟨_, hnext, fun hq => ?_, fun hq => ?_, fun hq => ?_⟩
  · split_ifs
    · exact le_rfl
    · rw [satur_of_nonneg hq]
      exact le_min (by norm_num) hq
    · exact le_rfl
  · split_ifs
    · exact le_rfl
    · rw [satur_of_nonpos hq]
      linarith [le_min (show (0 : ℚ) ≤ 1 / 4 by norm_num) (neg_nonneg.2 hq)]
    · exact le_rfl
  · have hset : settled (fin q) (fin 0) = decide (-q ≤ 1 / 1000) := by
      simp only [settled, Num.widen_eq, Num.lit_eq, Num.ofInt_eq, Num.abs_fin, Num.le_fin,
        abs_of_neg hq, abs_zero]
      simp
    rw [hset, satur_of_nonpos hq.le, abs_of_neg hq, Tuning.carried]
    by_cases h1 : -q ≤ 1 / 1000
    · rw [if_pos (by simpa using h1), if_neg fun hc => not_lt.2 h1 hc.1, neg_zero]
    · rw [if_neg (by simpa using h1)]
      by_cases h2 : -q ≤ 1 / 4
      · rw [if_pos h2, if_pos ⟨not_le.1 h1, h2⟩, min_eq_right h2]
      · rw [if_neg h2, if_neg fun hc => h2 hc.2, neg_zero]

/-- A positive error before a negative one leaves an integral that is not negative. -/
theorem before {n : ℕ} {q0 : ℚ} (hn : n ≤ 65535) (hpos : CNum.lt (fin 0) (t.err n) = true)
    (hq0 : q0 < 0) :
    ∃ i, t.Left (t.err n) (fin i) ∧ 0 ≤ i ∧ CNum.lt (t.err n * fin q0) (fin 0) = true := by
  cases he : t.err n with
  | fin q =>
    rw [he, Num.lt_fin, decide_eq_true_eq] at hpos
    obtain ⟨i, hp, hi, -, -⟩ := first hn he
    refine ⟨i, hp, hi hpos.le, ?_⟩
    rw [Num.fin_mul, Num.lt_fin, decide_eq_true_eq]
    exact mul_neg_of_pos_of_neg hpos hq0
  | inf =>
    have hlarge : CNum.le (CNum.abs (t.err n)) (fin (1 / 4)) = false := by rw [he]; rfl
    have hp := start.next_fin hn (nextErrI_large (fin 0) (fin 0) hlarge)
    rw [ite_self, he] at hp
    refine ⟨0, hp, le_rfl, ?_⟩
    rw [Num.inf_mul_neg hq0]
    rfl
  | negInf => rw [he] at hpos; simp at hpos
  | nan => rw [he] at hpos; simp at hpos

/-- The least integral that a negative error can leave. -/
theorem least {n0 : ℕ} {q0 : ℚ} (hn0 : n0 ≤ 65535) (he0 : t.err n0 = fin q0) (hq0 : q0 < 0) :
    t.Left (fin q0) (fin (-(if t.Rises then 0 else Tuning.carried q0))) := by
  split_ifs with hr
  · obtain ⟨n, hn, hpos⟩ := hr
    obtain ⟨i, hp, hi, hx⟩ := before hn hpos hq0
    have hj := nextErrI_cross (mul_nonpos_of_nonneg_of_nonpos hi hq0.le) hx
    have hnext := hp.next_fin hn0 (j := 0) (by rw [he0, hj])
    rwa [he0, ite_self, ← neg_zero] at hnext
  · obtain ⟨i, hp, -, -, hi⟩ := first hn0 he0
    rwa [← hi hq0]

end Tuning.Left

/-- The integral after two negative errors, from the least one. -/
theorem nextErrI_windup {t : Tuning Num} {q0 q1 : ℚ} (hq0 : q0 < 0) (hq : q1 < 0) :
    nextErrI (fin (-(if t.Rises then 0 else Tuning.carried q0))) (fin q0) (fin q1) =
      fin (-t.windup q0 q1) := by
  have hx : ¬ CNum.lt (fin q0 * fin q1) (fin 0) = true := by
    rw [Num.fin_mul, Num.lt_fin, decide_eq_true_eq, not_lt]
    exact (mul_pos_of_neg_of_neg hq0 hq).le
  have hc0 : 0 ≤ (if t.Rises then 0 else Tuning.carried q0) ∧
      (if t.Rises then 0 else Tuning.carried q0) ≤ 1 / 4 := by
    rw [Tuning.carried]
    split_ifs with h1 h2
    · norm_num
    · exact ⟨by linarith, h2.2⟩
    · norm_num
  rw [Tuning.windup]
  generalize (if t.Rises then 0 else Tuning.carried q0) = c at hc0 ⊢
  obtain ⟨hc0, hc4⟩ := hc0
  by_cases h4 : -q1 ≤ 1 / 4
  · rw [nextErrI_fin, abs_of_neg hq, if_pos h4, if_pos h4]
    split_ifs with h1
    · rw [abs_neg, abs_of_nonneg hc0] at h1
      rw [min_eq_left (by linarith), le_antisymm hc4 h1.1]
    · rw [satur_of_nonpos (by linarith)]
      congr 3
      ring
  · rw [nextErrI_far _ _ (by rw [abs_of_neg hq]; exact not_le.1 h4), if_neg h4, neg_zero]

/-! ## The clauses -/

namespace Tuning.Calm
variable {t : Tuning Num} (hc : t.Calm) {e0 : Num} {i q j d : ℚ} {n : ℕ}
include hc

theorem lt_of_small (h : t.Left e0 (fin i)) (hn : n ≤ 65535) (he : t.err n = fin q) (hq : 0 < q)
    (hq' : q < 1 / 20) (hj : nextErrI (fin i) e0 (fin q) = fin j)
    (hd : errD e0 (fin q) = fin d) :
    t.kp * q * (3 / 5) + t.ki * j + t.kd * d < 0 := by
  have hr := hc e0 (fin i) h n hn
  rw [he, hj, hd, asked_small t hq hq', terms_fin, Num.fin_add, toInt_nonpos] at hr
  linarith

theorem lt_of_pos (h : t.Left e0 (fin i)) (hn : n ≤ 65535) (he : t.err n = fin q)
    (hq : 1 / 20 ≤ q) (hj : nextErrI (fin i) e0 (fin q) = fin j)
    (hd : errD e0 (fin q) = fin d) :
    t.kp * q * (3 / 10) + t.ki * j + t.kd * d < 1 / 2 := by
  have hr := hc e0 (fin i) h n hn
  rw [he, hj, hd, asked_pos t hq, terms_fin, Num.fin_add, toInt_nonpos] at hr
  linarith

theorem lt_of_neg (h : t.Left e0 (fin i)) (hn : n ≤ 65535) (he : t.err n = fin q) (hq : q < 0)
    (hj : nextErrI (fin i) e0 (fin q) = fin j) (hd : errD e0 (fin q) = fin d) {g : ℚ}
    (hg : pidGain (fin q) = some (fin g)) :
    t.kp * q * g + t.ki * j + t.kd * d < 1 := by
  have hr := hc e0 (fin i) h n hn
  rwa [he, hj, hd, asked_neg t hq hg, terms_fin, toInt_nonpos] at hr

theorem inf_gain : (∃ n ≤ 65535, t.err n = .inf) → t.kp = 0 := by
  rintro ⟨n, hn, he⟩
  by_contra hkp
  have hr := hc _ _ Left.start n hn
  have hp : (0 : ℚ) < t.kp := Nat.cast_pos.2 (Nat.pos_of_ne_zero hkp)
  have hk : fin (t.kp : ℚ) * .inf = .inf := if_pos hp
  have h3 : Num.inf * fin (3 / 10) = .inf := if_pos (by norm_num)
  have hlarge : CNum.le (CNum.abs .inf) (fin (1 / 4)) = false := rfl
  have hd : errD (fin 0) .inf = fin 0 := by simp [errD]
  have hs : t.terms 0 .inf (fin 0) (fin 0) (fin (3 / 10)) = .inf := by
    simp only [terms, Num.ofInt_eq, Int.cast_natCast, hk, h3, Num.widen_eq, Num.fin_mul]
    rfl
  rw [he, nextErrI_large _ _ hlarge, hd, asked_inf, hs] at hr
  exact absurd hr (by decide)

theorem small (hm : t.Err q) (hq : 0 < q) : 1 / 20 ≤ q := by
  obtain ⟨n, hn, he⟩ := hm
  by_contra hlt
  have hq4 : |q| ≤ 1 / 4 := by
    rw [abs_of_pos hq]
    linarith
  have hj := nextErrI_first q
  rw [if_pos hq4, satur_of_nonneg hq.le, min_eq_right (by linarith)] at hj
  have hneg := hc.lt_of_small Left.start hn he hq (not_le.1 hlt) hj (errD_zero q)
  have h1 : 0 ≤ (t.kp : ℚ) * q * (3 / 5) := by positivity
  have h2 : 0 ≤ (t.ki : ℚ) * q := by positivity
  linarith

theorem push (hm : t.Err q) (hq : 0 < q) :
    t.kp * q * (3 / 10) + t.ki * (if q ≤ 1 / 4 then 1 / 4 else 0) < 1 / 2 := by
  have h20 := hc.small hm hq
  obtain ⟨n, hn, he⟩ := hm
  by_cases h4 : q ≤ 1 / 4
  · have hj := nextErrI_full (i := 1 / 4) (fin q) (by rwa [abs_of_pos hq]) (by norm_num)
      (by linarith)
    have hlt := hc.lt_of_pos (Left.fill hn he h20 h4) hn he h20 hj (errD_self q)
    rw [if_pos h4]
    linarith
  · have hj := nextErrI_far 0 (fin 0) (q := q) (by rw [abs_of_pos hq]; linarith)
    have hlt := hc.lt_of_pos Left.start hn he h20 hj (errD_zero q)
    rw [if_neg h4]
    linarith

theorem rise {q0 q1 : ℚ} (hm0 : t.Err q0) (hm1 : t.Err q1) (hne : q0 ≠ 0) (hq : 0 < q1)
    (hlt : q0 < q1) (hd : q1 - q0 ≤ 1 / 10) :
    t.kp * q1 * (3 / 10) + t.ki * (if 0 < q0 ∧ q1 ≤ 1 / 4 then 1 / 4 else 0) +
      t.kd * (q1 - q0) < 1 / 2 := by
  have h20 := hc.small hm1 hq
  have hD := errD_rise hne hlt hd
  by_cases h4 : 0 < q0 ∧ q1 ≤ 1 / 4
  · have h20' := hc.small hm0 h4.1
    obtain ⟨n0, hn0, he0⟩ := hm0
    obtain ⟨n1, hn1, he1⟩ := hm1
    have hp := Left.fill hn0 he0 h20' (by linarith)
    have hj := nextErrI_full (i := 1 / 4) (fin q0) (by rw [abs_of_pos hq]; exact h4.2)
      (by norm_num) (by linarith)
    rw [if_pos h4]
    exact hc.lt_of_pos hp hn1 he1 h20 hj hD
  · obtain ⟨n0, hn0, he0⟩ := hm0
    obtain ⟨n1, hn1, he1⟩ := hm1
    obtain ⟨i, hp, -, hneg, -⟩ := Left.first hn0 he0
    have hj : nextErrI (fin i) (fin q0) (fin q1) = fin 0 := by
      by_cases h1 : q1 ≤ 1 / 4
      · have hq0 : q0 < 0 := lt_of_le_of_ne (not_lt.1 fun h0 => h4 ⟨h0, h1⟩) hne
        refine nextErrI_cross (mul_nonpos_of_nonpos_of_nonneg (hneg hq0.le) hq.le) ?_
        rw [Num.fin_mul, Num.lt_fin, decide_eq_true_eq]
        exact mul_neg_of_neg_of_pos hq0 hq
      · exact nextErrI_far i (fin q0) (by rw [abs_of_pos hq]; linarith)
    rw [if_neg h4]
    exact hc.lt_of_pos hp hn1 he1 h20 hj hD

theorem kick {q0 q1 g : ℚ} (hm0 : t.Err q0) (hm1 : t.Err q1) (hlt : q0 < q1)
    (hq : q1 < 0) (hd : q1 - q0 ≤ 1 / 10) (hg : pidGain (fin q1) = some (fin g)) :
    t.kd * (q1 - q0) < 1 + t.kp * (-q1) * g + t.ki * t.windup q0 q1 := by
  have hq0 : q0 < 0 := hlt.trans hq
  have hD := errD_rise hq0.ne hlt hd
  obtain ⟨n0, hn0, he0⟩ := hm0
  obtain ⟨n1, hn1, he1⟩ := hm1
  have hlt := hc.lt_of_neg (Left.least hn0 he0 hq0) hn1 he1 hq (nextErrI_windup hq0 hq) hD hg
  linarith

theorem bounds : t.Bounds :=
  ⟨hc.inf_gain, fun _ => hc.small, fun _ => hc.push, fun _ _ => hc.rise, fun _ _ _ => hc.kick⟩

end Tuning.Calm

/-- **Calm parameters without rounding** are those that meet the bounds. -/
theorem calm_iff_bounds {t : Tuning Num} : t.Calm ↔ t.Bounds :=
  ⟨fun h => h.bounds, Tuning.calm_of_bounds⟩

end GndCtrl
