/-
  A loop that reads an input in every turn.

  `while (cond) body` over an infinite input is `whileLoop`, with fuel for the
  turns; `afterTurns` is the state after a number of turns of the body, whatever
  the condition says.  `whileLoop_eq_some` connects the two: the loop returns the
  state after the first number of turns at which the condition fails (`Ends`).

  `afterTurns_inv` is the invariant rule and `ends_of_variant` the rule for
  termination: a variant that every turn lowers bounds the number of turns.
-/
import Mathlib.Data.Nat.Basic
import Mathlib.Tactic.SplitIfs

namespace GndCtrl

variable {σ ι : Type} (cond : σ → Bool) (body : σ → ι → σ) (input : ℕ → ι)

/-- The loop from turn `n` on, for at most `fuel` turns: the number of turns at
    its end, and the state. -/
def whileLoop : (fuel n : ℕ) → σ → Option (ℕ × σ)
  | 0, n, s => if cond s then none else some (n, s)
  | fuel + 1, n, s => if cond s then whileLoop fuel (n + 1) (body s (input n)) else some (n, s)

/-- The state after `n` turns of the body. -/
def afterTurns (s : σ) : ℕ → σ
  | 0 => s
  | n + 1 => body (afterTurns s n) (input n)

/-- The loop from `s` ends after `n` turns. -/
structure Ends (s : σ) (n : ℕ) : Prop where
  going : ∀ m < n, cond (afterTurns body input s m) = true
  done : cond (afterTurns body input s n) = false

variable {cond : σ → Bool} {body : σ → ι → σ} {input : ℕ → ι} {s : σ}

/-- With fuel for its turns the loop returns. -/
theorem Ends.whileLoop {fuel m n : ℕ} (h : Ends cond body input s n) (hm : m ≤ n)
    (hn : n ≤ m + fuel) : whileLoop cond body input fuel m (afterTurns body input s m) =
      some (n, afterTurns body input s n) := by
  induction fuel generalizing m with
  | zero =>
    obtain rfl : m = n := by omega
    rw [GndCtrl.whileLoop, h.done]
    rfl
  | succ fuel ih =>
    rw [GndCtrl.whileLoop]
    rcases Nat.lt_or_eq_of_le hm with hlt | rfl
    · rw [if_pos (h.going m hlt)]
      exact ih (m := m + 1) hlt (by omega)
    · rw [if_neg (by rw [h.done]; exact Bool.false_ne_true)]

/-- A loop that returns has ended. -/
theorem ends_of_whileLoop {fuel m n : ℕ} {s' : σ}
    (hgo : ∀ k < m, cond (afterTurns body input s k) = true)
    (h : whileLoop cond body input fuel m (afterTurns body input s m) = some (n, s')) :
    Ends cond body input s n ∧ n ≤ m + fuel ∧ s' = afterTurns body input s n := by
  induction fuel generalizing m with
  | zero =>
    rw [whileLoop] at h
    split_ifs at h with hc
    obtain ⟨rfl, rfl⟩ := Prod.mk.inj (Option.some.inj h)
    exact ⟨⟨hgo, by simpa using hc⟩, le_rfl, rfl⟩
  | succ fuel ih =>
    rw [whileLoop] at h
    split_ifs at h with hc
    · have hgo' : ∀ k < m + 1, cond (afterTurns body input s k) = true :=
        Nat.forall_lt_succ_right.2 ⟨hgo, hc⟩
      obtain ⟨hend, hle, hs⟩ := ih (m := m + 1) hgo' h
      exact ⟨hend, by omega, hs⟩
    · obtain ⟨rfl, rfl⟩ := Prod.mk.inj (Option.some.inj h)
      exact ⟨⟨hgo, by simpa using hc⟩, by omega, rfl⟩

/-- **What the loop returns**: the state after the turns until its condition
    fails, if there is fuel for them. -/
theorem whileLoop_eq_some {fuel n : ℕ} {s' : σ} :
    whileLoop cond body input fuel 0 s = some (n, s') ↔
      Ends cond body input s n ∧ n ≤ fuel ∧ s' = afterTurns body input s n := by
  constructor
  · intro h
    obtain ⟨hend, hle, hs⟩ := ends_of_whileLoop (m := 0) (by simp) h
    exact ⟨hend, by omega, hs⟩
  · rintro ⟨hend, hle, rfl⟩
    exact hend.whileLoop (m := 0) (Nat.zero_le n) (by omega)

/-- A property that the turns keep, by the number of the turn. -/
theorem afterTurns_inv {I : ℕ → σ → Prop} (h0 : I 0 s)
    (hs : ∀ m s, cond s = true → I m s → I (m + 1) (body s (input m))) {n : ℕ}
    (hgo : ∀ m < n, cond (afterTurns body input s m) = true) : I n (afterTurns body input s n) := by
  induction n with
  | zero => exact h0
  | succ n ih =>
    exact hs n _ (hgo n n.lt_succ_self) (ih fun m hm => hgo m (Nat.lt_succ_of_lt hm))

/-- **Termination**: if every turn keeps `I` and lowers the variant `v`, the loop
    ends after at most `v s` turns. -/
theorem ends_of_variant {I : ℕ → σ → Prop} {v : σ → ℕ} (h : I 0 s)
    (hs : ∀ m s, cond s = true → I m s →
      I (m + 1) (body s (input m)) ∧ v (body s (input m)) < v s) :
    ∃ n ≤ v s, Ends cond body input s n := by
  by_contra hnone
  simp only [not_exists, not_and] at hnone
  -- otherwise the variant falls in each of the first turns
  have hfall : ∀ n, n ≤ v s + 1 → (∀ m < n, cond (afterTurns body input s m) = true) ∧
      I n (afterTurns body input s n) ∧ v (afterTurns body input s n) + n ≤ v s := by
    intro n
    induction n with
    | zero => exact fun _ => ⟨by simp, h, le_rfl⟩
    | succ n ih =>
      intro hn
      obtain ⟨hgo, hI, hv⟩ := ih (by omega)
      have hc : cond (afterTurns body input s n) = true := by
        rw [← Bool.not_eq_false]
        exact fun hdone => hnone n (by omega) ⟨hgo, hdone⟩
      obtain ⟨hI', hlt⟩ := hs n _ hc hI
      exact ⟨Nat.forall_lt_succ_right.2 ⟨hgo, hc⟩, hI', by rw [afterTurns]; omega⟩
  have := (hfall (v s + 1) le_rfl).2.2
  omega

end GndCtrl
