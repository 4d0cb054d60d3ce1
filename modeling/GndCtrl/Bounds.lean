/-
  Calm parameters without rounding.

  `Tuning.Bounds` bounds the gains by the errors that can be measured, and
  `calm_of_bounds` says that such parameters are calm.  `Left.held` is the
  invariant of the memory: the integral is on the side of the last error, and of
  a negative error it holds at least the part `carried`.
-/
import GndCtrl.Calm
import GndCtrl.Exact

namespace GndCtrl

open CNum CFloat
open GndCtrl.Num (fin inf negInf nan)

/-! ## The bounds -/

namespace Tuning
variable (t : Tuning Num)

/-- An error that can be measured. -/
def Err (q : ℚ) : Prop := ∃ n ≤ 65535, t.err n = fin q

/-- Some measured error is positive. -/
def Rises : Prop := ∃ n ≤ 65535, CNum.lt (fin 0) (t.err n) = true

instance : Decidable t.Rises :=
  decidable_of_iff (∃ n ∈ List.range 65536, CNum.lt (fin 0) (t.err n) = true)
    (by simp only [Rises, List.mem_range, Nat.lt_succ_iff])

/-- The part of the error `q < 0` that the integral keeps. -/
def carried (q : ℚ) : ℚ := if 1 / 1000 < -q ∧ -q ≤ 1 / 4 then -q else 0

/-- The least integral after the errors `q0 < q1 < 0`, without its sign. -/
def windup (q0 q1 : ℚ) : ℚ :=
  if -q1 ≤ 1 / 4 then min (1 / 4) ((if t.Rises then 0 else carried q0) - q1) else 0

/-- **Parameters under which the output stays `0`**, without rounding. -/
structure Bounds : Prop where
  /-- an infinite error has no gain -/
  inf : (∃ n ≤ 65535, t.err n = .inf) → t.kp = 0
  /-- below `1/20` every positive error gives an output -/
  small : ∀ q, t.Err q → 0 < q → 1 / 20 ≤ q
  /-- a steady positive error -/
  push : ∀ q, t.Err q → 0 < q →
    t.kp * q * (3 / 10) + t.ki * (if q ≤ 1 / 4 then 1 / 4 else 0) < 1 / 2
  /-- a rising positive error -/
  rise : ∀ q0 q1, t.Err q0 → t.Err q1 → q0 ≠ 0 → 0 < q1 → q0 < q1 → q1 - q0 ≤ 1 / 10 →
    t.kp * q1 * (3 / 10) + t.ki * (if 0 < q0 ∧ q1 ≤ 1 / 4 then 1 / 4 else 0) +
      t.kd * (q1 - q0) < 1 / 2
  /-- a rising negative error -/
  kick : ∀ q0 q1 g, t.Err q0 → t.Err q1 → q0 < q1 → q1 < 0 → q1 - q0 ≤ 1 / 10 →
    pidGain (fin q1) = some (fin g) →
    t.kd * (q1 - q0) < 1 + t.kp * (-q1) * g + t.ki * t.windup q0 q1

end Tuning

/-! ## The integral -/

/-- The integral is on the side of the last error, and holds what `carried`
    says. -/
def Held (t : Tuning Num) (i : ℚ) : Num → Prop
  | .fin q => (0 < q → 0 ≤ i ∧ i ≤ 1 / 4) ∧
      (q < 0 → -(1 / 4) ≤ i ∧ i ≤ 0 ∧ (¬ t.Rises → Tuning.carried q ≤ -i)) ∧ (q = 0 → i = 0)
  | _ => i = 0

/-- The last error was measured, if there was one. -/
def Tuning.Seen (t : Tuning Num) (e : Num) : Prop := e = fin 0 ∨ ∃ n ≤ 65535, e = t.err n

/-- The last error, if it is a number other than `0`, was measured. -/
theorem Tuning.Seen.err {t : Tuning Num} {q : ℚ} (h : t.Seen (fin q)) (hq : q ≠ 0) : t.Err q := by
  rcases h with h | ⟨n, hn, h⟩
  · cases h
    exact absurd rfl hq
  · exact ⟨n, hn, h.symm⟩

theorem Held.of_fin {t : Tuning Num} {i q : ℚ} (hp : 0 < q → 0 ≤ i ∧ i ≤ 1 / 4)
    (hn : q < 0 → -(1 / 4) ≤ i ∧ i ≤ 0 ∧ (¬ t.Rises → Tuning.carried q ≤ -i))
    (h0 : q = 0 → i = 0) : Held t i (fin q) := ⟨hp, hn, h0⟩

/-- Before a positive error, the integral is not negative unless the sign
    changes. -/
theorem Held.nonneg {t : Tuning Num} {i q : ℚ} {e0 : Num} (h : Held t i e0) (hq : 0 < q)
    (hx : CNum.lt (e0 * fin q) (fin 0) = false) : 0 ≤ i := by
  cases e0 with
  | fin q0 =>
    rw [Num.fin_mul, Num.lt_fin, decide_eq_false_iff_not, not_lt] at hx
    have hq0 : 0 ≤ q0 := nonneg_of_mul_nonneg_left hx hq
    rcases hq0.lt_or_eq with h0 | h0
    · exact (h.1 h0).1
    · exact (h.2.2 h0.symm).ge
  | _ => exact (show i = 0 from h).ge

/-- Before a negative error, the integral is not positive unless the sign
    changes. -/
theorem Held.nonpos {t : Tuning Num} {i q : ℚ} {e0 : Num} (h : Held t i e0) (hq : q < 0)
    (hx : CNum.lt (e0 * fin q) (fin 0) = false) : i ≤ 0 := by
  cases e0 with
  | fin q0 =>
    rw [Num.fin_mul, Num.lt_fin, decide_eq_false_iff_not, not_lt] at hx
    have hq0 : q0 ≤ 0 := by
      by_contra hc
      exact absurd (mul_neg_of_pos_of_neg (not_le.1 hc) hq) (not_lt.2 hx)
    rcases hq0.lt_or_eq with h0 | h0
    · exact (h.2.1 h0).2.1
    · exact (h.2.2 h0).le
  | _ => exact (show i = 0 from h).le

/-- The integral never leaves its limits. -/
theorem Held.bounded {t : Tuning Num} {i : ℚ} {e0 : Num} (h : Held t i e0) :
    -(1 / 4) ≤ i ∧ i ≤ 1 / 4 := by
  cases e0 with
  | fin q0 =>
    rcases lt_trichotomy q0 0 with h0 | h0 | h0
    · obtain ⟨h1, h2, -⟩ := h.2.1 h0
      exact ⟨h1, h2.trans (by norm_num)⟩
    · rw [h.2.2 h0]
      norm_num
    · obtain ⟨h1, h2⟩ := h.1 h0
      exact ⟨by linarith, h2⟩
  | _ =>
    rw [show i = 0 from h]
    norm_num

/-- The integral after a positive error. -/
theorem nextErrI_pos {t : Tuning Num} {i q : ℚ} {e0 : Num} (h : Held t i e0) (hq : 0 < q) :
    ∃ i', nextErrI (fin i) e0 (fin q) = fin i' ∧ 0 ≤ i' ∧ i' ≤ (if q ≤ 1 / 4 then 1 / 4 else 0) ∧
      ∀ q0, e0 = fin q0 → q0 < 0 → i' = 0 := by
  refine ⟨_, nextErrI_fin i q e0, ?_⟩
  rw [abs_of_pos hq]
  by_cases h1 : q ≤ 1 / 4
  swap
  · simp only [if_neg h1]
    exact ⟨le_rfl, le_rfl, fun _ _ _ => trivial⟩
  simp only [if_pos h1]
  have hi := h.bounded
  split_ifs with h2 h3
  · -- saturated
    have hpos : 0 < i := (mul_pos_iff_of_pos_right hq).1 h2.2
    refine ⟨hpos.le, hi.2, fun q0 he hq0 => ?_⟩
    subst he
    exact absurd hpos (not_lt.2 (h.2.1 hq0).2.1)
  · exact ⟨le_rfl, by norm_num, fun _ _ _ => rfl⟩
  · have h0 : 0 ≤ i := h.nonneg hq (by simpa using h3)
    rw [satur_of_nonneg (by linarith)]
    refine ⟨le_min (by norm_num) (by linarith), min_le_left _ _, fun q0 he hq0 => ?_⟩
    subst he
    refine absurd ?_ h3
    rw [Num.fin_mul, Num.lt_fin, decide_eq_true_eq]
    exact mul_neg_of_neg_of_pos hq0 hq

/-- The integral after a negative error. -/
theorem nextErrI_neg {t : Tuning Num} {i q : ℚ} {e0 : Num} (h : Held t i e0) (hq : q < 0)
    (he : t.Seen e0) :
    ∃ i', nextErrI (fin i) e0 (fin q) = fin i' ∧ -(1 / 4) ≤ i' ∧ i' ≤ 0 ∧
      (¬ t.Rises → Tuning.carried q ≤ -i') ∧
      ∀ q0, e0 = fin q0 → q0 < q → t.windup q0 q ≤ -i' := by
  refine ⟨_, nextErrI_fin i q e0, ?_⟩
  rw [abs_of_neg hq]
  by_cases h1 : -q ≤ 1 / 4
  swap
  · simp only [Tuning.carried, Tuning.windup, h1, and_false, if_false]
    norm_num
  simp only [if_pos h1]
  have hi := h.bounded
  have hcarried : Tuning.carried q ≤ -q := by
    rw [Tuning.carried]
    split_ifs
    · exact le_rfl
    · linarith
  have hwindup : ∀ q0, t.windup q0 q ≤ 1 / 4 := by
    intro q0
    rw [Tuning.windup, if_pos h1]
    exact min_le_left _ _
  split_ifs with h2 h3
  · -- saturated
    have hneg : i < 0 := by
      by_contra hc
      exact absurd h2.2 (not_lt.2 (mul_nonpos_of_nonneg_of_nonpos (not_lt.1 hc) hq.le))
    rw [abs_of_neg hneg] at h2
    exact ⟨hi.1, hneg.le, fun _ => by linarith, fun q0 _ _ => by linarith [hwindup q0]⟩
  · -- the sign has changed: the last error was positive
    have hpos : CNum.lt (fin 0) e0 = true := by
      cases e0 with
      | fin q0 =>
        rw [Num.fin_mul, Num.lt_fin, decide_eq_true_eq] at h3
        rw [Num.lt_fin, decide_eq_true_eq]
        by_contra hc
        exact absurd h3 (not_lt.2 (mul_nonneg_of_nonpos_of_nonpos (not_lt.1 hc) hq.le))
      | inf => rfl
      | negInf =>
        rw [Num.negInf_mul_neg hq] at h3
        cases h3
      | nan => simp at h3
    have hrises : t.Rises := by
      rcases he with rfl | ⟨n, hn, he⟩
      · simp at hpos
      · exact ⟨n, hn, he ▸ hpos⟩
    refine ⟨by norm_num, le_rfl, fun hc => absurd hrises hc, fun q0 he0 hlt => ?_⟩
    subst he0
    rw [Num.lt_fin, decide_eq_true_eq] at hpos
    linarith
  · have h0 : i ≤ 0 := h.nonpos hq (by simpa using h3)
    rw [satur_of_nonpos (by linarith), neg_neg]
    have hmin : 0 ≤ min (1 / 4) (-(i + q)) := le_min (by norm_num) (by linarith)
    have hmax : min (1 / 4) (-(i + q)) ≤ 1 / 4 := min_le_left _ _
    refine ⟨by linarith, by linarith, fun _ => ?_, fun q0 he0 hlt => ?_⟩
    · exact le_min (hcarried.trans h1) (by linarith)
    · subst he0
      rw [Tuning.windup, if_pos h1]
      refine min_le_min le_rfl ?_
      split_ifs with hr
      · linarith
      · have := (h.2.1 (hlt.trans hq)).2.2 hr
        linarith

/-! ## The memory of the PID -/

/-- What an error leaves of the integral. -/
theorem Held.next {t : Tuning Num} {i : ℚ} {e : Num} (hh : Held t i e) (he : t.Seen e) (e1 : Num) :
    ∃ j, (if settled e1 (errD e e1) then fin 0 else nextErrI (fin i) e e1) = fin j ∧
      Held t j e1 := by
  cases e1 with
  | fin q =>
    rcases lt_trichotomy q 0 with hq | rfl | hq
    · obtain ⟨i', hi', hge, hle, hcar, -⟩ := nextErrI_neg hh hq he
      rw [hi']
      split_ifs with hset
      · refine ⟨0, rfl, .of_fin (fun hp => by linarith) (fun _ => ⟨by norm_num, le_rfl, ?_⟩)
          fun _ => rfl⟩
        intro _
        have hq' : -q ≤ 1 / 1000 := by
          simp only [settled, Num.widen_eq, Num.lit_eq, Num.abs_fin, Num.le_fin, Bool.and_eq_true,
            decide_eq_true_eq, abs_of_neg hq] at hset
          exact hset.1
        rw [Tuning.carried, if_neg fun hc => not_lt.2 hq' hc.1, neg_zero]
      · exact ⟨i', rfl, .of_fin (fun hp => by linarith) (fun _ => ⟨hge, hle, hcar⟩)
          fun h0 => absurd h0 hq.ne⟩
    · refine ⟨0, ?_, .of_fin (fun hp => absurd hp (lt_irrefl _)) (fun hp => absurd hp (lt_irrefl _))
        fun _ => rfl⟩
      -- an error `0` is settled, but for an undefined differential error
      rcases errD_cases e 0 with ⟨rfl, hd⟩ | ⟨d, hd, hle, -⟩
      · have h0 : i = 0 := hh
        rw [hd, h0, nextErrI_fin]
        simp [satur, settled]
      · have hset : settled (fin 0) (fin d) = true := by
          simp only [settled, Num.widen_eq, Num.lit_eq, Num.ofInt_eq, Num.abs_fin, Num.le_fin,
            abs_zero, Int.cast_one, decide_eq_true hle, Bool.and_true, decide_eq_true_eq]
          norm_num
        rw [hd, hset]
        rfl
    · obtain ⟨i', hi', h0, hle, -⟩ := nextErrI_pos hh hq
      have hle' : i' ≤ 1 / 4 := hle.trans (by split_ifs <;> norm_num)
      rw [hi']
      split_ifs
      · exact ⟨0, rfl, .of_fin (fun _ => ⟨le_rfl, by norm_num⟩) (fun hn => by linarith)
          fun _ => rfl⟩
      · exact ⟨i', rfl, .of_fin (fun _ => ⟨h0, hle'⟩) (fun hn => by linarith)
          fun h0 => absurd h0 hq.ne'⟩
  | inf =>
    refine ⟨0, ?_, rfl⟩
    rw [nextErrI_large _ _ (by rfl), ite_self]
  | negInf =>
    refine ⟨0, ?_, rfl⟩
    rw [nextErrI_large _ _ (by rfl), ite_self]
  | nan =>
    refine ⟨0, ?_, rfl⟩
    rw [nextErrI_large _ _ (by rfl), ite_self]

/-- **The memory of the PID**: the integral is held, after all measured errors. -/
theorem Tuning.Left.held {t : Tuning Num} {e i : Num} (h : t.Left e i) :
    t.Seen e ∧ ∃ j, i = fin j ∧ Held t j e := by
  have hzero : (ofInt 0 : Num) = fin 0 := by rw [Num.ofInt_eq, Int.cast_zero]
  induction h with
  | fresh =>
    rw [hzero]
    exact ⟨.inl rfl, 0, rfl, .of_fin (fun h => absurd h (lt_irrefl _))
      (fun h => absurd h (lt_irrefl _)) fun _ => rfl⟩
  | @next e i h n hn ih =>
    obtain ⟨hseen, j, rfl, hh⟩ := ih
    rw [hzero]
    exact ⟨.inr ⟨n, hn, rfl⟩, hh.next hseen (t.err n)⟩

/-! ## The output -/

/-- An undefined differential error asks for `0`. -/
theorem toInt_terms_nan (t : Tuning Num) (e i g x : Num) :
    CNum.toInt (t.terms 0 e i nan g) = 0 ∧ CNum.toInt (t.terms 0 e i nan g + x) = 0 := by
  rw [terms_nan, Num.nan_add, Num.toInt_nan]
  exact ⟨rfl, rfl⟩

namespace Tuning
variable {t : Tuning Num} {i : ℚ} {e : Num}

/-- A positive error gives no output. -/
theorem Bounds.pos (hc : t.Bounds) (hh : Held t i e) (he : t.Seen e) {q : ℚ} (hm : t.Err q)
    (hq : 0 < q) : t.asked (fin q) (nextErrI (fin i) e (fin q)) (errD e (fin q)) ≤ 0 := by
  have h20 := hc.small q hm hq
  obtain ⟨i', hi', h0, hle, hneg⟩ := nextErrI_pos hh hq
  rw [asked_pos t h20, hi']
  rcases errD_cases e q with ⟨-, hd⟩ | ⟨d, hd, -, hpos⟩ <;> rw [hd]
  · exact (toInt_terms_nan t _ _ _ _).2.le
  rw [terms_fin, Num.fin_add, toInt_nonpos]
  have hki : (t.ki : ℚ) * i' ≤ t.ki * (if q ≤ 1 / 4 then 1 / 4 else 0) :=
    mul_le_mul_of_nonneg_left hle (Nat.cast_nonneg _)
  by_cases hd0 : 0 < d
  · obtain ⟨q0, rfl, hne, hlt, hdiff, rfl⟩ := hpos hd0
    have hrise := hc.rise q0 q (he.err hne) hm hne hq hlt hdiff
    have hki' : (t.ki : ℚ) * i' ≤ t.ki * (if 0 < q0 ∧ q ≤ 1 / 4 then 1 / 4 else 0) := by
      refine mul_le_mul_of_nonneg_left ?_ (Nat.cast_nonneg _)
      rcases lt_or_gt_of_ne hne with hq0 | hq0
      · rw [hneg q0 rfl hq0]
        split_ifs <;> norm_num
      · simpa only [hq0, true_and] using hle
    linarith
  · have hpush := hc.push q hm hq
    have hkd : (t.kd : ℚ) * d ≤ 0 :=
      mul_nonpos_of_nonneg_of_nonpos (Nat.cast_nonneg _) (not_lt.1 hd0)
    linarith

/-- A negative error gives no output. -/
theorem Bounds.neg (hc : t.Bounds) (hh : Held t i e) (he : t.Seen e) {q : ℚ} (hm : t.Err q)
    (hq : q < 0) : t.asked (fin q) (nextErrI (fin i) e (fin q)) (errD e (fin q)) ≤ 0 := by
  obtain ⟨g, hg0, hg⟩ := pidGain_neg hq
  obtain ⟨i', hi', -, h0, -, hwind⟩ := nextErrI_neg hh hq he
  rw [asked_neg t hq hg, hi']
  rcases errD_cases e q with ⟨-, hd⟩ | ⟨d, hd, -, hpos⟩ <;> rw [hd]
  · exact (toInt_terms_nan t _ _ _ (fin 0)).1.le
  rw [terms_fin, toInt_nonpos]
  have hkp : (t.kp : ℚ) * (-q) * g ≥ 0 :=
    mul_nonneg (mul_nonneg (Nat.cast_nonneg _) (neg_nonneg.2 hq.le)) hg0.le
  by_cases hd0 : 0 < d
  · obtain ⟨q0, rfl, hne, hlt, hdiff, rfl⟩ := hpos hd0
    have hkick := hc.kick q0 q g (he.err hne) hm hlt hq hdiff hg
    have hki : (t.ki : ℚ) * t.windup q0 q ≤ t.ki * -i' :=
      mul_le_mul_of_nonneg_left (hwind q0 rfl hlt) (Nat.cast_nonneg _)
    linarith
  · have hkd : (t.kd : ℚ) * d ≤ 0 :=
      mul_nonpos_of_nonneg_of_nonpos (Nat.cast_nonneg _) (not_lt.1 hd0)
    have hki : (t.ki : ℚ) * i' ≤ 0 := mul_nonpos_of_nonneg_of_nonpos (Nat.cast_nonneg _) h0
    linarith

/-- Without a proportional gain an infinite error has no output. -/
theorem asked_inf_nonpos (hkp : t.kp = 0) (i d : Num) : t.asked inf i d ≤ 0 := by
  have hk : (ofInt t.kp : Num) * inf = nan := by
    rw [hkp, Nat.cast_zero, Num.ofInt_eq, Int.cast_zero]
    rfl
  have hs : t.terms 0 inf i d (fin (3 / 10)) = nan := by simp only [terms, hk]; simp
  rw [asked_inf, hs, Num.nan_add, Num.toInt_nan]

/-- The error `-∞` asks for nothing. -/
theorem asked_negInf_nonpos (e : Num) :
    t.asked negInf (nextErrI (fin i) e negInf) (errD e negInf) ≤ 0 := by
  have hlarge : CNum.le (CNum.abs negInf) (fin (1 / 4)) = false := rfl
  have hd : errD e negInf = fin 0 ∨ errD e negInf = nan := by
    cases e with
    | nan => exact .inr (by simp [errD])
    | _ => exact .inl (by simp [errD])
  rw [nextErrI_large _ _ hlarge, asked_negInf]
  rcases hd with hd | hd <;> rw [hd]
  · rcases Nat.eq_zero_or_pos t.kp with h0 | h0
    · have hk : fin (t.kp : ℚ) * negInf = nan := by
        rw [h0, Nat.cast_zero]
        rfl
      simp [terms, hk]
    · have hp : (0 : ℚ) < t.kp := Nat.cast_pos.2 h0
      have hk : fin (t.kp : ℚ) * negInf = negInf := by
        change Num.signed (-(t.kp : ℚ)) = negInf
        rw [Num.signed, if_neg (by linarith), if_pos (by linarith)]
      have h20 : negInf * fin 20 = negInf := by
        change Num.signed (-20) = negInf
        rw [Num.signed, if_neg (by norm_num), if_pos (by norm_num)]
      have hs : t.terms 0 negInf (fin 0) (fin 0) (fin 20) = negInf := by
        simp only [terms, Num.ofInt_eq, Int.cast_natCast, hk, h20, Num.widen_eq, Num.fin_mul]
        rfl
      rw [hs, Num.toInt_negInf]
      norm_num
  · exact (toInt_terms_nan t _ _ _ (fin 0)).1.le

/-- **The bounds are enough.** -/
theorem calm_of_bounds (hc : t.Bounds) : t.Calm := by
  intro e i hl n hn
  obtain ⟨he, j, rfl, hh⟩ := hl.held
  cases hq : t.err n with
  | fin q =>
    rcases lt_trichotomy q 0 with hlt | rfl | hlt
    · exact hc.neg hh he ⟨n, hn, hq⟩ hlt
    · exact (asked_zero t _ _).le
    · exact hc.pos hh he ⟨n, hn, hq⟩ hlt
  | inf => exact asked_inf_nonpos (hc.inf ⟨n, hn, hq⟩) _ _
  | negInf => exact asked_negInf_nonpos e
  | nan => exact (asked_nan t _ _).le

end Tuning

end GndCtrl
