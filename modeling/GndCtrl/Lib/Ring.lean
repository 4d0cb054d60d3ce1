/-
  Bounded rings — the array queue with a front index, a rear index and one slot
  left free, as a bounded FIFO.

  An array of `maxSize` slots holds the elements at the indices after `front`
  up to `rear`, modulo `maxSize`; the slot at `front` itself is never used, so
  `front = rear` means empty and at most `maxSize - 1` elements fit.  `enQueue`
  ignores an element when the ring is full, `outQueue` returns nothing when it
  is empty.

  `toList` is the content, oldest element first.  On well-formed rings (`WF`,
  kept by both operations) `enQueue` appends unless `maxSize - 1` elements are
  held (`toList_enQueue`) and `outQueue` removes the head (`toList_outQueue`).
-/
import Mathlib.Data.List.Basic
import Mathlib.Tactic.SplitIfs

namespace GndCtrl

/-- A ring over an array of `maxSize` slots. -/
structure Ring (α : Type) where
  queue : ℕ → α
  front : ℕ
  rear : ℕ
  maxSize : ℕ

namespace Ring
variable {α : Type}

/-- The empty ring over the array `a`. -/
def init (a : ℕ → α) (ms : ℕ) : Ring α := ⟨a, 0, 0, ms⟩

/-- The full test of `enQueue`. -/
def full (q : Ring α) : Bool := (q.rear + 1) % q.maxSize == q.front

/-- The empty test of `outQueue`. -/
def empty (q : Ring α) : Bool := q.front == q.rear

/-- Advance `rear` and store `x` there; nothing when full. -/
def enQueue (q : Ring α) (x : α) : Ring α :=
  if q.full then q
  else
    let r := (q.rear + 1) % q.maxSize
    { q with rear := r, queue := fun j => if j = r then x else q.queue j }

/-- Advance `front` and return the element there; nothing when empty. -/
def outQueue (q : Ring α) : Option α × Ring α :=
  if q.empty then (none, q)
  else
    let f := (q.front + 1) % q.maxSize
    (some (q.queue f), { q with front := f })

/-- The number of elements. -/
def size (q : Ring α) : ℕ := (q.rear + q.maxSize - q.front) % q.maxSize

/-- The elements, oldest first. -/
def toList (q : Ring α) : List α :=
  (List.range q.size).map fun i => q.queue ((q.front + 1 + i) % q.maxSize)

/-- The indices stay inside the array, which has room for an element. -/
structure WF (q : Ring α) : Prop where
  front : q.front < q.maxSize
  rear : q.rear < q.maxSize
  two : 2 ≤ q.maxSize

/-- Reduction of an index that wraps at most once. -/
theorem mod_wrap {x n : ℕ} (h : x < 2 * n) : x % n = if x < n then x else x - n := by
  split_ifs with hx
  · exact Nat.mod_eq_of_lt hx
  · rw [Nat.mod_eq_sub_mod (by omega), Nat.mod_eq_of_lt (by omega)]

@[simp] theorem length_toList (q : Ring α) : q.toList.length = q.size := by simp [toList]

theorem wf_init (a : ℕ → α) {ms : ℕ} (h : 2 ≤ ms) : (init a ms).WF :=
  ⟨by simp only [init]; omega, by simp only [init]; omega, h⟩

@[simp] theorem toList_init (a : ℕ → α) (ms : ℕ) : (init a ms).toList = [] := by
  simp [toList, size, init]

section
variable {q : Ring α} (hq : q.WF)
include hq

theorem WF.size_lt : q.size < q.maxSize := Nat.mod_lt _ (by have := hq.two; omega)

theorem WF.size_eq : q.size = if q.front ≤ q.rear then q.rear - q.front
    else q.rear + q.maxSize - q.front := by
  have h1 := hq.front
  have h2 := hq.rear
  rw [size, mod_wrap (by omega)]
  split_ifs <;> omega

theorem WF.full_iff : q.full = true ↔ q.size + 1 = q.maxSize := by
  have h1 := hq.front
  have h2 := hq.rear
  have h3 := hq.two
  rw [full, beq_iff_eq, mod_wrap (by omega), hq.size_eq]
  split_ifs <;> omega

theorem WF.empty_iff : q.empty = true ↔ q.toList = [] := by
  have h1 := hq.front
  have h2 := hq.rear
  rw [empty, beq_iff_eq, ← List.length_eq_zero_iff, length_toList, hq.size_eq]
  split_ifs <;> omega

/-- The slot `enQueue` writes holds no element of the ring. -/
theorem WF.slot_ne (h : q.full = false) {i : ℕ} (hi : i < q.size) :
    (q.front + 1 + i) % q.maxSize ≠ (q.rear + 1) % q.maxSize := by
  have h1 := hq.front
  have h2 := hq.rear
  have h3 := hq.two
  have h4 : ¬ q.size + 1 = q.maxSize := by rw [← hq.full_iff, h]; simp
  rw [hq.size_eq] at hi h4
  rw [mod_wrap (by split_ifs at hi <;> omega), mod_wrap (by omega)]
  split_ifs at * <;> omega

theorem WF.size_enQueue (x : α) (h : q.full = false) : (q.enQueue x).size = q.size + 1 := by
  have h1 := hq.front
  have h2 := hq.rear
  have h3 := hq.two
  have h4 : ¬ q.size + 1 = q.maxSize := by rw [← hq.full_iff, h]; simp
  have h5 := hq.size_lt
  have he : (q.enQueue x).size = ((q.rear + 1) % q.maxSize + q.maxSize - q.front) % q.maxSize := by
    simp [enQueue, h, size]
  rw [hq.size_eq] at *
  rw [he, mod_wrap (x := q.rear + 1) (by omega)]
  split_ifs at * <;> rw [mod_wrap (by omega)] <;> split_ifs <;> omega

theorem WF.enQueue (x : α) : (q.enQueue x).WF := by
  have h3 := hq.two
  unfold Ring.enQueue
  split_ifs
  · exact hq
  · exact ⟨hq.front, Nat.mod_lt _ (by omega), hq.two⟩

theorem WF.outQueue : q.outQueue.2.WF := by
  have h3 := hq.two
  unfold Ring.outQueue
  split_ifs
  · exact hq
  · exact ⟨Nat.mod_lt _ (by omega), hq.rear, hq.two⟩

/-- **`enQueue` appends**, unless `maxSize - 1` elements are held. -/
theorem WF.toList_enQueue (x : α) :
    (q.enQueue x).toList = if q.size + 1 = q.maxSize then q.toList else q.toList ++ [x] := by
  split_ifs with h
  · rw [Ring.enQueue, if_pos (hq.full_iff.2 h)]
  · have hf : q.full = false := by
      rw [← Bool.not_eq_true, hq.full_iff]; exact h
    have hlast : (q.front + 1 + q.size) % q.maxSize = (q.rear + 1) % q.maxSize := by
      have h1 := hq.front
      have h2 := hq.rear
      rw [hq.size_eq]
      split_ifs with hle
      · congr 1; omega
      · rw [show q.front + 1 + (q.rear + q.maxSize - q.front) = q.rear + 1 + q.maxSize by omega,
          Nat.add_mod_right]
    rw [toList, hq.size_enQueue x hf, List.range_succ, List.map_append, toList]
    congr 1
    · refine List.map_congr_left fun i hi => ?_
      have := hq.slot_ne hf (List.mem_range.1 hi)
      simp [Ring.enQueue, hf, this]
    · simp [Ring.enQueue, hf, hlast]

/-- **`outQueue` removes the oldest element.** -/
theorem WF.toList_outQueue :
    q.outQueue.1 = q.toList.head? ∧ q.outQueue.2.toList = q.toList.tail := by
  by_cases he : q.empty = true
  · have := hq.empty_iff.1 he
    simp [Ring.outQueue, he, this]
  · have h1 := hq.front
    have h2 := hq.rear
    have h3 := hq.two
    have hne : q.front ≠ q.rear := by simpa [empty] using he
    have hs : q.size = q.outQueue.2.size + 1 := by
      have : q.outQueue.2.size =
          (q.rear + q.maxSize - (q.front + 1) % q.maxSize) % q.maxSize := by
        simp [Ring.outQueue, he, size]
      rw [this, hq.size_eq, mod_wrap (x := q.front + 1) (by omega)]
      split_ifs <;> rw [mod_wrap (by omega)] <;> split_ifs <;> omega
    have hl : q.toList = q.queue ((q.front + 1) % q.maxSize) :: q.outQueue.2.toList := by
      rw [toList, hs, List.range_succ_eq_map, List.map_cons, List.map_map, toList]
      congr 1
      refine List.map_congr_left fun i _ => ?_
      have : (q.front + 1 + (i + 1)) % q.maxSize = ((q.front + 1) % q.maxSize + 1 + i) % q.maxSize := by
        rw [Nat.add_assoc _ 1 i, Nat.mod_add_mod]; congr 1; omega
      simp [Ring.outQueue, he, this]
    rw [hl]
    simp [Ring.outQueue, he]

end

@[simp] theorem maxSize_enQueue (q : Ring α) (x : α) : (q.enQueue x).maxSize = q.maxSize := by
  unfold enQueue; split_ifs <;> rfl

@[simp] theorem maxSize_outQueue (q : Ring α) : q.outQueue.2.maxSize = q.maxSize := by
  unfold outQueue; split_ifs <;> rfl

end Ring

end GndCtrl
