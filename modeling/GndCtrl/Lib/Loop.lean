/-
  Positions on a loop of `n` places.

  `ahead n t c` is the way from `c` to `t` in the direction of travel and
  `circular n t c` the shorter one of the two ways.  A step forward shortens the
  way ahead by one until the target is reached (`ahead_add`).
-/
import Mathlib.Data.Int.ModEq
import Mathlib.Tactic.Linarith

namespace GndCtrl

/-- The way ahead from `c` to `t`. -/
def ahead (n t c : ℤ) : ℤ := (t - c) % n

/-- The shorter way between `c` and `t`. -/
def circular (n t c : ℤ) : ℤ := min (ahead n t c) (ahead n c t)

variable {n t c : ℤ}

theorem ahead_nonneg (hn : 0 < n) (t c : ℤ) : 0 ≤ ahead n t c := Int.emod_nonneg _ hn.ne'

theorem ahead_lt (hn : 0 < n) (t c : ℤ) : ahead n t c < n := Int.emod_lt_of_pos _ hn

theorem ahead_congr {c' : ℤ} (h : c ≡ c' [ZMOD n]) (t : ℤ) : ahead n t c = ahead n t c' :=
  Int.ModEq.sub_left t h

theorem ahead_of_le (h : c ≤ t) (h' : t < c + n) : ahead n t c = t - c :=
  Int.emod_eq_of_lt (by omega) (by omega)

theorem ahead_of_gt (h : t < c) (h' : c ≤ t + n) : ahead n t c = n - c + t := by
  have hc : ahead n t c = ahead n t (c - n) := ahead_congr (Int.modEq_sub_modulus_iff.2 rfl) t
  rw [hc, ahead_of_le (by omega) (by omega)]
  omega

/-- `k` steps shorten the way ahead by `k`, up to the target. -/
theorem ahead_add (hn : 0 < n) {k : ℤ} (hk : 0 ≤ k) (h : k ≤ ahead n t c) :
    ahead n t (c + k) = ahead n t c - k := by
  have hlt := ahead_lt hn t c
  have hmod : t - (c + k) ≡ ahead n t c - k [ZMOD n] := by
    rw [← Int.sub_sub]
    exact ((Int.mod_modEq _ _).symm).sub_right k
  rw [ahead, hmod, Int.emod_eq_of_lt (by omega) (by omega)]

/-- The other way round. -/
theorem ahead_swap (hn : 0 < n) (t c : ℤ) :
    ahead n c t = if ahead n t c = 0 then 0 else n - ahead n t c := by
  have h0 := ahead_nonneg hn t c
  have hlt := ahead_lt hn t c
  have hmod : c - t ≡ -ahead n t c [ZMOD n] := by
    rw [← Int.neg_sub]
    exact ((Int.mod_modEq _ _).symm).neg
  split_ifs with h
  · rw [ahead, hmod, h]
    rfl
  · have hadd : -ahead n t c ≡ n - ahead n t c [ZMOD n] := by
      rw [sub_eq_neg_add]
      exact (Int.add_modEq_right).symm
    rw [ahead, hmod, hadd, Int.emod_eq_of_lt (by omega) (by omega)]

theorem circular_le_half (hn : 0 < n) (t c : ℤ) : 2 * circular n t c ≤ n := by
  rw [circular, ahead_swap hn t c]
  have := ahead_nonneg hn t c
  split_ifs <;> omega

/-- **When the plain distance is the one around the loop.** -/
theorem abs_eq_circular_iff (hn : 0 < n) (t c : ℤ) :
    |t - c| = circular n t c ↔ 2 * |t - c| ≤ n := by
  constructor
  · intro h
    rw [h]
    exact circular_le_half hn t c
  · intro h
    rcases le_total c t with hct | hct
    · rw [abs_of_nonneg (by omega)] at h ⊢
      rw [circular, ahead_swap hn t c, ahead_of_le hct (by omega)]
      split_ifs <;> omega
    · rw [abs_of_nonpos (by omega)] at h ⊢
      rw [circular, min_comm, ahead_swap hn c t, ahead_of_le hct (by omega)]
      split_ifs <;> omega

end GndCtrl
