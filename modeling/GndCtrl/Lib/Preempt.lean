/-
  An interrupted `enQueue` — the statements of one call on a ring, with a
  complete call for another element between two of them.

  The call reads `rear`, compares it with `front`, reads `rear` again, advances
  it, reads it once more and writes the slot.  `preempted q x y b` runs `b` of
  these accesses, then `enQueue y`, then the rest.

  `sequential_iff`: the content is that of one of the two orders exactly when
  `Tolerates` holds of the ring and the place of the interruption.  Where it
  does not, all elements are lost, or `y` is, or the content of an old slot
  comes back in place of `y`.
-/
import GndCtrl.Lib.Ring

namespace GndCtrl

namespace Ring
variable {α : Type}

/-! ## The statements -/

/-- A call of `enQueue` on its way: the ring, the last value read from `rear`
    and whether the call has returned. -/
structure Call (α : Type) where
  ring : Ring α
  r : ℕ
  returned : Bool

namespace Call

/-- Read `rear`. -/
def readRear (c : Call α) : Call α := { c with r := c.ring.rear }

/-- Compare with `front` and return if the ring is full. -/
def test (c : Call α) : Call α :=
  { c with returned := (c.r + 1) % c.ring.maxSize == c.ring.front }

/-- Write `rear`. -/
def writeRear (c : Call α) : Call α :=
  { c with ring := { c.ring with rear := (c.r + 1) % c.ring.maxSize } }

/-- Write the slot. -/
def writeSlot (x : α) (c : Call α) : Call α :=
  { c with ring := { c.ring with queue := fun j => if j = c.r then x else c.ring.queue j } }

end Call

/-- The accesses of `enQueue x`, in order. -/
def accesses (x : α) : List (Call α → Call α) :=
  [Call.readRear, Call.test, Call.readRear, Call.writeRear, Call.readRear, Call.writeSlot x]

/-- Run accesses, up to the return. -/
def exec (c : Call α) (l : List (Call α → Call α)) : Call α :=
  l.foldl (fun c f => if c.returned then c else f c) c

theorem exec_append (c : Call α) (l l' : List (Call α → Call α)) :
    exec c (l ++ l') = exec (exec c l) l' := List.foldl_append

/-- The beginning of a call. -/
def call (q : Ring α) : Call α := ⟨q, 0, false⟩

/-- `enQueue x` with `enQueue y` after its first `b` accesses. -/
def preempted (q : Ring α) (x y : α) (b : ℕ) : Ring α :=
  let c := exec q.call ((accesses x).take b)
  (exec { c with ring := c.ring.enQueue y } ((accesses x).drop b)).ring

/-- The content is that of one of the two orders. -/
def Sequential (q : Ring α) (x y : α) (q' : Ring α) : Prop :=
  q'.toList = ((q.enQueue x).enQueue y).toList ∨ q'.toList = ((q.enQueue y).enQueue x).toList

/-- The place of the interruption does no harm: with one free slot the second
    call must not come between the test and the reading of `rear`, with more not
    between that and the last reading of `rear`, unless the next slot holds `y`
    already. -/
def Tolerates (q : Ring α) (y : α) (b : ℕ) : Prop :=
  match b with
  | 1 | 2 => q.size + 2 ≠ q.maxSize
  | 3 => q.maxSize ≤ q.size + 2
  | 4 => q.maxSize ≤ q.size + 2 ∨ q.queue ((q.rear + 1) % q.maxSize) = y
  | _ => True

/-! ## What the rest of the call does -/

/-- Advance `rear` and store `x` there, full or not. -/
def push (q : Ring α) (x : α) : Ring α :=
  { q with
    rear := (q.rear + 1) % q.maxSize
    queue := fun j => if j = (q.rear + 1) % q.maxSize then x else q.queue j }

theorem enQueue_eq (q : Ring α) (x : α) : q.enQueue x = if q.full then q else q.push x := rfl

theorem enQueue_full {q : Ring α} (h : q.full = true) (x : α) : q.enQueue x = q := if_pos h

theorem enQueue_room {q : Ring α} (h : q.full = false) (x : α) : q.enQueue x = q.push x := by
  rw [enQueue_eq, if_neg (by rw [h]; decide)]

/-- Writing the slot at `rear` again. -/
theorem writeSlot_push (q : Ring α) (x y : α) :
    (Call.writeSlot x ⟨q.push y, (q.push y).rear, false⟩).ring = q.push x := by
  simp only [Call.writeSlot, push]
  congr 1
  funext j
  by_cases hj : j = (q.rear + 1) % q.maxSize <;> simp [hj]

/-- Without an interruption the accesses are `enQueue`. -/
theorem exec_accesses (q : Ring α) (x : α) : (exec q.call (accesses x)).ring = q.enQueue x := by
  cases h : q.full with
  | true =>
    have ht : (q.rear + 1) % q.maxSize = q.front := by simpa [full] using h
    simp [exec, accesses, call, Call.readRear, Call.test, ht, enQueue_full h]
  | false =>
    have ht : ¬ (q.rear + 1) % q.maxSize = q.front := by simpa [full] using h
    simp [exec, accesses, call, Call.readRear, Call.test, Call.writeRear, Call.writeSlot, ht,
      enQueue_room h, push]

section
variable {q : Ring α} (x y : α)

theorem preempted_of_full (h : q.full = true) (b : ℕ) : q.preempted x y b = q := by
  have ht : (q.rear + 1) % q.maxSize = q.front := by simpa [full] using h
  have hfull : (q.enQueue y) = q := enQueue_full h y
  -- a place after each statement, and the places behind all of them
  rcases b with _ | _ | _ | _ | _ | _ | b <;>
    simp [preempted, exec, accesses, call, Call.readRear, Call.test, ht, hfull]

theorem preempted_zero : q.preempted x y 0 = (q.enQueue y).enQueue x :=
  exec_accesses (q.enQueue y) x

theorem preempted_done (n : ℕ) : q.preempted x y (n + 6) = (q.enQueue x).enQueue y := by
  have htake : (accesses x).take (n + 6) = accesses x :=
    List.take_of_length_le (by simp [accesses])
  have hdrop : (accesses x).drop (n + 6) = [] := List.drop_of_length_le (by simp [accesses])
  rw [preempted, htake, hdrop, ← exec_accesses q x]
  rfl

/-- `rear` has moved on to a slot with an old content. -/
theorem push_old (q : Ring α) : { q with rear := (q.rear + 1) % q.maxSize } =
    q.push (q.queue ((q.rear + 1) % q.maxSize)) := by
  simp only [push]
  congr 1
  funext j
  split_ifs with hj
  · rw [hj]
  · rfl

theorem full_push (q : Ring α) (x y : α) : (q.push x).full = (q.push y).full := rfl

variable (h : q.full = false)
include h

/-- Between the test and the next reading of `rear`. -/
theorem preempted_test : q.preempted x y 1 = (q.push y).push x ∧
    q.preempted x y 2 = (q.push y).push x := by
  have ht : ¬ (q.rear + 1) % q.maxSize = q.front := by simpa [full] using h
  constructor <;>
    simp [preempted, exec, accesses, call, Call.readRear, Call.test, Call.writeRear,
      Call.writeSlot, ht, enQueue_room h, push]

/-- Between reading and writing `rear`: `x` takes the slot of `y`. -/
theorem preempted_read : q.preempted x y 3 = q.push x := by
  have ht : ¬ (q.rear + 1) % q.maxSize = q.front := by simpa [full] using h
  have hrun : q.preempted x y 3 = (Call.writeSlot x ⟨q.push y, (q.push y).rear, false⟩).ring := by
    simp [preempted, exec, accesses, call, Call.readRear, Call.test, Call.writeRear,
      beq_eq_false_iff_ne.2 ht, enQueue_room h, push]
  rw [hrun, writeSlot_push]

/-- The state of the call after the writing of `rear`. -/
theorem exec_writeRear : exec q.call ((accesses x).take 4) =
    ⟨q.push (q.queue ((q.rear + 1) % q.maxSize)), q.rear, false⟩ := by
  have ht : ¬ (q.rear + 1) % q.maxSize = q.front := by simpa [full] using h
  rw [← push_old]
  simp [exec, accesses, call, Call.readRear, Call.test, Call.writeRear,
    beq_eq_false_iff_ne.2 ht]

/-- Between the writing of `rear` and its last reading: the old slot becomes
    part of the content, and `x` takes the slot of `y`. -/
theorem preempted_write : q.preempted x y 4 =
    if (q.push x).full then q.push x
    else (q.push (q.queue ((q.rear + 1) % q.maxSize))).push x := by
  obtain ⟨old, hold⟩ : ∃ old, old = q.queue ((q.rear + 1) % q.maxSize) := ⟨_, rfl⟩
  have hrun : q.preempted x y 4 = (Call.writeSlot x
      ⟨(q.push old).enQueue y, ((q.push old).enQueue y).rear, false⟩).ring := by
    simp only [preempted, exec_writeRear x h, hold]
    rfl
  rw [hrun, ← hold]
  cases hf : (q.push x).full with
  | true =>
    rw [enQueue_full ((full_push q old x).trans hf), writeSlot_push, if_pos rfl]
  | false =>
    rw [enQueue_room ((full_push q old x).trans hf), writeSlot_push, if_neg (by decide)]

/-- Before the writing of the slot: as if `x` had been stored before. -/
theorem preempted_slot (hq : q.WF) : q.preempted x y 5 = (q.enQueue x).enQueue y := by
  obtain ⟨old, hold⟩ : ∃ old, old = q.queue ((q.rear + 1) % q.maxSize) := ⟨_, rfl⟩
  have hrun : q.preempted x y 5 =
      (Call.writeSlot x ⟨(q.push old).enQueue y, (q.push old).rear, false⟩).ring := by
    have htake : (accesses x).take 5 = (accesses x).take 4 ++ [Call.readRear] := rfl
    have hexec : exec q.call ((accesses x).take 5) = ⟨q.push old, (q.push old).rear, false⟩ := by
      rw [htake, exec_append, exec_writeRear x h, ← hold]
      rfl
    rw [preempted, hexec]
    rfl
  -- `y` goes to the slot after that of `x`
  have hne : ((q.rear + 1) % q.maxSize + 1) % q.maxSize ≠ (q.rear + 1) % q.maxSize := by
    have h2 := hq.two
    have hlt : (q.rear + 1) % q.maxSize < q.maxSize := Nat.mod_lt _ (by omega)
    rw [mod_wrap (x := (q.rear + 1) % q.maxSize + 1) (by omega)]
    split_ifs <;> omega
  rw [Nat.mod_add_mod] at hne
  rw [hrun, enQueue_room h]
  cases hf : (q.push x).full with
  | true =>
    rw [enQueue_full hf, enQueue_full ((full_push q old x).trans hf), writeSlot_push]
  | false =>
    rw [enQueue_room hf, enQueue_room ((full_push q old x).trans hf)]
    simp only [Call.writeSlot, push]
    congr 1
    funext j
    by_cases h1 : j = (q.rear + 1) % q.maxSize
    · simp [h1, hne.symm]
    · simp [h1]

end

/-! ## The contents -/

section
variable {q : Ring α} (hq : q.WF)
include hq

theorem WF.toList_push (h : q.full = false) (x : α) : (q.push x).toList = q.toList ++ [x] := by
  have hn : ¬ q.size + 1 = q.maxSize := fun hc => by simp [hq.full_iff.2 hc] at h
  rw [← enQueue_room h, hq.toList_enQueue, if_neg hn]

theorem WF.push (h : q.full = false) (x : α) : (q.push x).WF := enQueue_room h x ▸ hq.enQueue x

theorem WF.full_push_iff (h : q.full = false) (x : α) :
    (q.push x).full = true ↔ q.size + 2 = q.maxSize := by
  rw [(hq.push h x).full_iff, ← enQueue_room h, hq.size_enQueue x h, maxSize_enQueue]

omit hq in
/-- `push` on a full ring makes it empty. -/
theorem toList_push_full (h : q.full = true) (x : α) : (q.push x).toList = [] := by
  have hr : (q.rear + 1) % q.maxSize = q.front := by simpa [full] using h
  have hs : (q.push x).size = 0 := by
    simp only [size, Ring.push, hr]
    rw [Nat.add_sub_cancel_left, Nat.mod_self]
  rw [← List.length_eq_zero_iff, length_toList, hs]

theorem WF.toList_two (h : q.full = false) (x y : α) : ((q.enQueue x).enQueue y).toList =
    if q.size + 2 = q.maxSize then q.toList ++ [x] else q.toList ++ [x, y] := by
  rw [enQueue_room h]
  split_ifs with hs
  · rw [enQueue_full ((hq.full_push_iff h x).2 hs), hq.toList_push h]
  · have hf : (q.push x).full = false := by
      rw [← Bool.not_eq_true, hq.full_push_iff h]
      exact hs
    rw [enQueue_room hf, (hq.push h x).toList_push hf, hq.toList_push h, List.append_assoc]
    rfl

omit hq in
/-- On a full ring neither call does anything. -/
theorem sequential_full (h : q.full = true) (x y : α) (b : ℕ) :
    Sequential q x y (q.preempted x y b) := by
  rw [preempted_of_full x y h, Sequential, enQueue_full h, enQueue_full h]
  exact .inl rfl

section
variable (h : q.full = false) (x y : α)
include h

/-- Interrupted after the test, the call makes it on a ring that may be full. -/
theorem WF.sequential_test : Sequential q x y ((q.push y).push x) ↔ q.size + 2 ≠ q.maxSize := by
  rw [Sequential, hq.toList_two h, hq.toList_two h]
  cases hf : (q.push y).full with
  | true =>
    -- all elements are lost
    have hs2 := (hq.full_push_iff h y).1 hf
    rw [toList_push_full hf, if_pos hs2, if_pos hs2]
    simp [hs2]
  | false =>
    have hs2 : ¬ q.size + 2 = q.maxSize := by
      rw [← hq.full_push_iff h y, hf]
      decide
    rw [(hq.push h y).toList_push hf, hq.toList_push h, if_neg hs2, if_neg hs2]
    simp [hs2]

/-- Interrupted before the writing of `rear`, the call loses `y`. -/
theorem WF.sequential_read : Sequential q x y (q.preempted x y 3) ↔ q.maxSize ≤ q.size + 2 := by
  have hs : ¬ q.size + 1 = q.maxSize := fun hc => by simp [hq.full_iff.2 hc] at h
  have hlt := hq.size_lt
  rw [preempted_read x y h, Sequential, hq.toList_two h, hq.toList_two h, hq.toList_push h]
  split_ifs with hs2
  · exact iff_of_true (.inl rfl) (by omega)
  · have hm : ¬ q.maxSize ≤ q.size + 2 := by omega
    have hlen : ∀ l : List α, l.length = q.toList.length + 2 → ¬ q.toList ++ [x] = l := by
      rintro l hl rfl
      simp at hl
    exact iff_of_false (fun hc => hc.elim (hlen _ (by simp)) (hlen _ (by simp))) hm

/-- Interrupted after the writing of `rear`, the call stores `x` in the slot of `y`;
    the old content of the slot before it counts as an element. -/
theorem WF.sequential_write : Sequential q x y (q.preempted x y 4) ↔
    q.maxSize ≤ q.size + 2 ∨ q.queue ((q.rear + 1) % q.maxSize) = y := by
  have hs : ¬ q.size + 1 = q.maxSize := fun hc => by simp [hq.full_iff.2 hc] at h
  have hlt := hq.size_lt
  rw [preempted_write x y h, Sequential, hq.toList_two h, hq.toList_two h]
  cases hf : (q.push x).full with
  | true =>
    have hs2 := (hq.full_push_iff h x).1 hf
    rw [if_pos rfl, if_pos hs2, hq.toList_push h]
    exact iff_of_true (.inl rfl) (.inl (by omega))
  | false =>
    have hs2 : ¬ q.size + 2 = q.maxSize := by
      rw [← hq.full_push_iff h x, hf]
      decide
    have hf' := (full_push q (q.queue ((q.rear + 1) % q.maxSize)) x).trans hf
    rw [if_neg (by decide), (hq.push h _).toList_push hf', hq.toList_push h, if_neg hs2,
      if_neg hs2, List.append_assoc, List.append_cancel_left_eq, List.append_cancel_left_eq]
    have hm : ¬ q.maxSize ≤ q.size + 2 := by omega
    simp only [List.singleton_append, List.cons.injEq, and_true, hm, false_or]
    constructor
    · rintro (⟨hx, hy⟩ | hy)
      · rw [hx, hy]
      · exact hy
    · exact fun hy => .inr hy

end

/-- **An interrupted call is sequential** exactly where it tolerates it. -/
theorem WF.sequential_iff (x y : α) (b : ℕ) :
    Sequential q x y (q.preempted x y b) ↔ Tolerates q y b := by
  cases h : q.full with
  | true =>
    have hs := hq.full_iff.1 h
    refine iff_of_true (sequential_full h x y b) ?_
    match b with
    | 0 | _ + 5 => trivial
    | 1 | 2 => change q.size + 2 ≠ q.maxSize; omega
    | 3 => change q.maxSize ≤ q.size + 2; omega
    | 4 => exact .inl (by omega)
  | false =>
    match b with
    | 0 => exact iff_of_true (.inr (by rw [preempted_zero])) trivial
    | 1 =>
      rw [(preempted_test x y h).1]
      exact hq.sequential_test h x y
    | 2 =>
      rw [(preempted_test x y h).2]
      exact hq.sequential_test h x y
    | 3 => exact hq.sequential_read h x y
    | 4 => exact hq.sequential_write h x y
    | 5 => exact iff_of_true (.inl (by rw [preempted_slot x y h hq])) trivial
    | _ + 6 => exact iff_of_true (.inl (by rw [preempted_done])) trivial

end

end Ring

end GndCtrl
