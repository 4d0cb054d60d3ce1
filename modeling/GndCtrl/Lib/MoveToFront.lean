/-
  Search with move to front — a list is searched for the first element with a
  property, and the element found goes to the front, to be found faster by the
  next search.

  `searchFront p l` is one search: its result and the list after it.  The list
  only changes its order (`searchFront_perm`), and the order does not matter to
  a property that at most one element has (`find?_perm`): a search for it finds
  what it would find in the list as it was.
-/
import Mathlib.Data.List.Perm.Basic

namespace GndCtrl

variable {α : Type}

/-- The first element with the property, which goes to the front. -/
def searchFront (p : α → Bool) (l : List α) : Option α × List α :=
  match l.find? p with
  | some a => (some a, a :: l.eraseP p)
  | none => (none, l)

/-- At most one element of `l` has the property. -/
def Single (p : α → Bool) (l : List α) : Prop :=
  ∀ a ∈ l, ∀ b ∈ l, p a = true → p b = true → a = b

theorem perm_cons_eraseP {p : α → Bool} {l : List α} {a : α} (h : l.find? p = some a) :
    (a :: l.eraseP p).Perm l := by
  induction l with
  | nil => exact absurd h (by simp)
  | cons b l ih =>
    by_cases hb : p b = true
    · rw [List.find?_cons_of_pos hb, Option.some.injEq] at h
      rw [List.eraseP_cons_of_pos hb, h]
    · rw [List.find?_cons_of_neg hb] at h
      rw [List.eraseP_cons_of_neg hb]
      exact (List.Perm.swap b a _).trans ((ih h).cons b)

/-- A search changes only the order. -/
theorem searchFront_perm (p : α → Bool) (l : List α) : (searchFront p l).2.Perm l := by
  unfold searchFront
  cases h : l.find? p with
  | none => exact List.Perm.refl l
  | some a => exact perm_cons_eraseP h

/-- The order does not matter to a property that at most one element has. -/
theorem find?_perm {p : α → Bool} {l l' : List α} (h : Single p l) (hl : l'.Perm l) :
    l'.find? p = l.find? p := by
  cases hf : l.find? p with
  | none =>
    rw [List.find?_eq_none] at hf ⊢
    intro a ha
    exact hf a (hl.mem_iff.1 ha)
  | some a =>
    obtain ⟨hpa, -⟩ := List.find?_eq_some_iff_append.1 hf
    have ha : a ∈ l := List.mem_of_find?_eq_some hf
    cases hf' : l'.find? p with
    | none =>
      rw [List.find?_eq_none] at hf'
      exact absurd hpa (hf' a (hl.mem_iff.2 ha))
    | some b =>
      have hb : b ∈ l := hl.mem_iff.1 (List.mem_of_find?_eq_some hf')
      obtain ⟨hpb, -⟩ := List.find?_eq_some_iff_append.1 hf'
      rw [h a ha b hb hpa hpb]

end GndCtrl
