/-
  Memory pools — blocks of which some are free and every other belongs to one
  owner, which holds one block at most.

  `Pool free own` relates the list of free blocks to the blocks of the owners.
  Taking a block keeps it (`Pool.take`), and a pool with more blocks than owners
  is never empty (`Pool.free_ne_nil`).
-/
import Mathlib.Data.Fintype.Card

namespace GndCtrl

variable {α β : Type}

/-- Every block is in `free` or belongs to one owner. -/
structure Pool (free : List β) (own : α → Option β) : Prop where
  inj : ∀ i j p, own i = some p → own j = some p → i = j
  cover : ∀ p, p ∈ free ∨ ∃ i, own i = some p
  taken : ∀ i p, own i = some p → p ∉ free
  nodup : free.Nodup

namespace Pool

/-- A pool of which no block is taken. -/
theorem start {free : List β} (hn : free.Nodup) (hc : ∀ p, p ∈ free) :
    Pool free (fun _ : α => none) where
  inj := by
    intro i j p h
    cases h
  cover p := .inl (hc p)
  taken := by
    intro i p h
    cases h
  nodup := hn

section
variable {p : β} {free : List β} {own : α → Option β} {i : α}

/-- The owners after `i`, which had none, has got the block `p`. -/
theorem update_eq_some [DecidableEq α] (hi : own i = none) {j : α} {q : β} :
    Function.update own i (some p) j = some q ↔ j = i ∧ q = p ∨ own j = some q := by
  by_cases hj : j = i
  · subst hj
    rw [Function.update_self, hi]
    constructor
    · intro hp
      exact .inl ⟨rfl, (Option.some.inj hp).symm⟩
    · rintro (⟨-, rfl⟩ | hq)
      · rfl
      · cases hq
  · rw [Function.update_of_ne hj]
    constructor
    · exact .inr
    · rintro (⟨rfl, -⟩ | hq)
      · exact absurd rfl hj
      · exact hq

/-- The first free block belongs to nobody. -/
theorem ne_head (h : Pool (p :: free) own) {j : α} {q : β} (hq : own j = some q) : q ≠ p := by
  rintro rfl
  exact h.taken j q hq List.mem_cons_self

/-- **An allocation** by an owner without a block. -/
theorem take [DecidableEq α] (h : Pool (p :: free) own) (hi : own i = none) :
    Pool free (Function.update own i (some p)) := by
  obtain ⟨hp, hfree⟩ := List.nodup_cons.1 h.nodup
  constructor
  · intro j k q hj hk
    rcases (update_eq_some hi).1 hj with ⟨rfl, rfl⟩ | hj'
    · rcases (update_eq_some hi).1 hk with ⟨rfl, -⟩ | hk'
      · rfl
      · exact absurd rfl (h.ne_head hk')
    · rcases (update_eq_some hi).1 hk with ⟨rfl, rfl⟩ | hk'
      · exact absurd rfl (h.ne_head hj')
      · exact h.inj j k q hj' hk'
  · intro q
    rcases h.cover q with hq | ⟨j, hj⟩
    · rcases List.mem_cons.1 hq with rfl | hq
      · exact .inr ⟨i, (update_eq_some hi).2 (.inl ⟨rfl, rfl⟩)⟩
      · exact .inl hq
    · exact .inr ⟨j, (update_eq_some hi).2 (.inr hj)⟩
  · intro j q hj
    rcases (update_eq_some hi).1 hj with ⟨-, rfl⟩ | hj'
    · exact hp
    · intro hq
      exact h.taken j q hj' (List.mem_cons_of_mem p hq)
  · exact hfree

end

/-- **A pool with more blocks than owners** has a free one. -/
theorem free_ne_nil [Fintype α] [Fintype β] {free : List β} {own : α → Option β}
    (h : Pool free own) (hcard : Fintype.card α < Fintype.card β) : free ≠ [] := by
  intro hnil
  have hall : ∀ p, ∃ i, own i = some p := by
    intro p
    rcases h.cover p with hp | hp
    · rw [hnil] at hp
      cases hp
    · exact hp
  choose f hf using hall
  have hinj : Function.Injective f := by
    intro p q hpq
    have hp := hf p
    rw [hpq, hf q] at hp
    exact (Option.some.inj hp).symm
  exact absurd (Fintype.card_le_of_injective f hinj) (Nat.not_le.2 hcard)

end Pool

end GndCtrl
