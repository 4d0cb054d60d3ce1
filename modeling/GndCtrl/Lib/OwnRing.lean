/-
  Rings of buffers with an owner flag — a producer and a consumer go round the
  same `n` slots, and a flag of each slot tells which of the two may use it.

  The producer fills the buffer at `put` and gives the slot away, the consumer
  reads the buffer at `get` and takes the slot back.  `fill` does not look at
  the flag: a producer that is careless writes into a buffer it has given away.

  `Holds r q` says that the consumer's slots hold `q`, oldest first.  `give`
  appends to `q` (`Holds.give`), `take` removes its head (`Holds.take`), a
  `fill` of a slot of the producer leaves it alone (`Holds.fill`) and one of a
  slot given away changes its head (`Holds.fill_full`).
-/
import Mathlib.Data.Fin.Basic
import Mathlib.Algebra.Group.Fin.Basic
import Mathlib.Algebra.GroupWithZero.Nat
import Mathlib.Data.List.Basic
import Mathlib.Logic.Function.Basic

namespace GndCtrl

/-- A ring of `n` slots; `full i` is set while slot `i` is the consumer's. -/
structure OwnRing (α : Type) (n : ℕ) where
  full : Fin n → Bool
  buf : Fin n → α
  put : Fin n
  get : Fin n

namespace OwnRing
variable {α : Type} {n : ℕ}

/-- Change the buffer at `put`, whoever owns it. -/
def fill (f : α → α) (r : OwnRing α n) : OwnRing α n :=
  { r with buf := Function.update r.buf r.put (f (r.buf r.put)) }

theorem fill_buf_put (r : OwnRing α n) (f : α → α) :
    (r.fill f).buf r.put = f (r.buf r.put) := Function.update_self ..

theorem fill_buf_ne (r : OwnRing α n) (f : α → α) {i : Fin n} (h : i ≠ r.put) :
    (r.fill f).buf i = r.buf i := Function.update_of_ne h ..

theorem fill_put (r : OwnRing α n) (f : α → α) : (r.fill f).put = r.put := rfl

variable [NeZero n]

/-- The producer gives the slot at `put` away. -/
def give (r : OwnRing α n) : OwnRing α n :=
  { r with full := Function.update r.full r.put true, put := r.put + 1 }

/-- The consumer gives the slot at `get` back, with `f` left in its buffer. -/
def take (f : α → α) (r : OwnRing α n) : OwnRing α n :=
  { r with
    full := Function.update r.full r.get false
    buf := Function.update r.buf r.get (f (r.buf r.get))
    get := r.get + 1 }

/-- The slot `i` places after `get`. -/
def slot (r : OwnRing α n) (i : ℕ) : Fin n := r.get + Fin.ofNat n i

/-- The slots of the consumer hold `q`, oldest first. -/
structure Holds (r : OwnRing α n) (q : List α) : Prop where
  length_le : q.length ≤ n
  put_eq : r.put = r.slot q.length
  full_eq : ∀ i < n, r.full (r.slot i) = decide (i < q.length)
  buf_eq : ∀ i (h : i < q.length), r.buf (r.slot i) = q[i]

theorem give_full_put (r : OwnRing α n) : r.give.full r.put = true := Function.update_self ..

theorem give_full_ne (r : OwnRing α n) {i : Fin n} (h : i ≠ r.put) :
    r.give.full i = r.full i := Function.update_of_ne h ..

theorem take_full_get (r : OwnRing α n) (f : α → α) : (r.take f).full r.get = false :=
  Function.update_self ..

theorem take_full_ne (r : OwnRing α n) (f : α → α) {i : Fin n} (h : i ≠ r.get) :
    (r.take f).full i = r.full i := Function.update_of_ne h ..

theorem take_buf_ne (r : OwnRing α n) (f : α → α) {i : Fin n} (h : i ≠ r.get) :
    (r.take f).buf i = r.buf i := Function.update_of_ne h ..

theorem ofNat_succ (i : ℕ) : Fin.ofNat n (i + 1) = Fin.ofNat n i + 1 := by
  apply Fin.ext
  simp [Fin.val_add]

theorem slot_zero (r : OwnRing α n) : r.slot 0 = r.get := by
  have h : Fin.ofNat n 0 = 0 := rfl
  rw [slot, h, add_zero]

theorem slot_succ (r : OwnRing α n) (i : ℕ) : r.slot (i + 1) = r.slot i + 1 := by
  rw [slot, slot, ofNat_succ, add_assoc]

theorem slot_n (r : OwnRing α n) : r.slot n = r.get := by
  have h : Fin.ofNat n n = 0 := by
    apply Fin.ext
    simp
  rw [slot, h, add_zero]

theorem slot_inj (r : OwnRing α n) {i j : ℕ} (hi : i < n) (hj : j < n) :
    r.slot i = r.slot j ↔ i = j := by
  rw [slot, slot, add_right_inj, Fin.ext_iff, Fin.val_ofNat, Fin.val_ofNat, Nat.mod_eq_of_lt hi,
    Nat.mod_eq_of_lt hj]

theorem take_slot (r : OwnRing α n) (f : α → α) (i : ℕ) :
    (r.take f).slot i = r.slot (i + 1) := by
  rw [slot_succ, slot, slot, take, add_right_comm]

/-- The producer's ring: no slot given away. -/
theorem holds_nil {r : OwnRing α n} (hfull : ∀ i, r.full i = false) (hput : r.put = r.get) :
    r.Holds [] where
  length_le := n.zero_le
  put_eq := by rw [hput, List.length_nil, slot_zero]
  full_eq := by
    intro i _
    simp [hfull]
  buf_eq := by
    intro i h
    exact absurd h (Nat.not_lt_zero i)

namespace Holds
variable {r : OwnRing α n} {q : List α}

theorem full_get (h : r.Holds q) : r.full r.get = true ↔ q ≠ [] := by
  have h0 := h.full_eq 0 (Nat.pos_of_neZero n)
  rw [slot_zero] at h0
  rw [h0, decide_eq_true_iff, List.length_pos_iff]

theorem full_put (h : r.Holds q) : r.full r.put = true ↔ q.length = n := by
  have hle := h.length_le
  rw [h.put_eq]
  rcases Nat.lt_or_eq_of_le hle with hlt | heq
  · rw [h.full_eq _ hlt]
    simp only [decide_eq_true_iff]
    omega
  · have h0 := h.full_eq 0 (Nat.pos_of_neZero n)
    have hpos : 0 < q.length := heq ▸ Nat.pos_of_neZero n
    rw [heq, slot_n, ← slot_zero, h0]
    simp [hpos]

theorem buf_get {a : α} (h : r.Holds (a :: q)) : r.buf r.get = a := by
  have h0 := h.buf_eq 0 (by simp)
  rwa [slot_zero] at h0

/-- A slot of the consumer is not the one at `put`, unless the ring is full and it is the
    oldest. -/
theorem slot_ne_put (h : r.Holds q) (hlt : q.length < n) {i : ℕ} (hi : i < q.length) :
    r.slot i ≠ r.put := by
  rw [h.put_eq]
  intro he
  rw [slot_inj r (hi.trans hlt) hlt] at he
  omega

/-- The producer works on its own slot. -/
theorem fill (h : r.Holds q) (hlt : q.length < n) (f : α → α) : (r.fill f).Holds q where
  length_le := h.length_le
  put_eq := h.put_eq
  full_eq := h.full_eq
  buf_eq := by
    intro i hi
    have hne : r.slot i ≠ r.put := h.slot_ne_put hlt hi
    have hbuf := h.buf_eq i hi
    calc (r.fill f).buf ((r.fill f).slot i) = r.buf (r.slot i) := fill_buf_ne r f hne
      _ = q[i] := hbuf

/-- A producer that works on a slot it has given away changes the oldest content. -/
theorem fill_full (h : r.Holds q) (hn : q.length = n) (f : α → α) :
    (r.fill f).Holds (q.modifyHead f) where
  length_le := by rw [List.length_modifyHead]; exact h.length_le
  put_eq := by rw [List.length_modifyHead]; exact h.put_eq
  full_eq := by
    rw [List.length_modifyHead]
    exact h.full_eq
  buf_eq := by
    have hput : r.put = r.slot 0 := by rw [h.put_eq, hn, slot_n, slot_zero]
    intro i hi
    rw [List.length_modifyHead] at hi
    have hbuf := h.buf_eq i hi
    cases i with
    | zero =>
      have he : (r.fill f).slot 0 = r.put := hput.symm
      rw [he, fill_buf_put, hput, hbuf]
      cases q with
      | nil => exact absurd hi (Nat.not_lt_zero 0)
      | cons a q => rfl
    | succ i =>
      have hne : r.slot (i + 1) ≠ r.put := by
        rw [hput, Ne, slot_inj r (hn ▸ hi) (Nat.pos_of_neZero n)]
        omega
      have he : (r.fill f).buf ((r.fill f).slot (i + 1)) = r.buf (r.slot (i + 1)) :=
        fill_buf_ne r f hne
      rw [he, hbuf]
      cases q with
      | nil => exact absurd hi (Nat.not_lt_zero _)
      | cons a q => rfl

/-- A slot given away is the youngest of the consumer. -/
theorem give (h : r.Holds q) (hlt : q.length < n) : r.give.Holds (q ++ [r.buf r.put]) where
  length_le := by
    rw [List.length_append, List.length_singleton]
    exact hlt
  put_eq := by
    rw [List.length_append, List.length_singleton]
    have hs : r.give.slot (q.length + 1) = r.slot (q.length + 1) := rfl
    rw [hs, slot_succ, ← h.put_eq]
    rfl
  full_eq := by
    intro i hi
    rw [List.length_append, List.length_singleton]
    have hs : r.give.slot i = r.slot i := rfl
    rw [hs]
    by_cases he : i = q.length
    · subst he
      rw [← h.put_eq, give_full_put]
      simp
    · have hne : r.slot i ≠ r.put := by
        rw [h.put_eq, Ne, slot_inj r hi hlt]
        exact he
      rw [give_full_ne r hne, h.full_eq i hi]
      have hiff : i < q.length ↔ i < q.length + 1 := by omega
      simp only [hiff]
  buf_eq := by
    intro i hi
    rw [List.length_append, List.length_singleton] at hi
    have hs : r.give.slot i = r.slot i := rfl
    have hb : r.give.buf = r.buf := rfl
    rw [hs, hb]
    rcases Nat.lt_or_eq_of_le (Nat.le_of_lt_succ hi) with hi' | rfl
    · rw [h.buf_eq i hi', List.getElem_append_left hi']
    · rw [← h.put_eq]
      simp

/-- A slot given back held the oldest content. -/
theorem take {a : α} (h : r.Holds (a :: q)) (f : α → α) : (r.take f).Holds q where
  length_le := Nat.le_of_succ_le h.length_le
  put_eq := by
    rw [take_slot]
    exact h.put_eq
  full_eq := by
    intro i hi
    have hlen := h.length_le
    rw [List.length_cons] at hlen
    rw [take_slot]
    have hle : i + 1 ≤ n := hi
    rcases Nat.lt_or_eq_of_le hle with hi' | he
    · have hne : r.slot (i + 1) ≠ r.get := by
        rw [← slot_zero, Ne, slot_inj r hi' (Nat.pos_of_neZero n)]
        omega
      rw [take_full_ne r f hne, h.full_eq _ hi', List.length_cons]
      simp only [Nat.add_lt_add_iff_right]
    · rw [he, slot_n, take_full_get]
      have hnot : ¬ i < q.length := by omega
      simp [hnot]
  buf_eq := by
    intro i hi
    have hle := h.length_le
    rw [List.length_cons] at hle
    have hne : r.slot (i + 1) ≠ r.get := by
      rw [← slot_zero, Ne, slot_inj r (by omega) (Nat.pos_of_neZero n)]
      omega
    rw [take_slot, take_buf_ne r f hne]
    exact h.buf_eq (i + 1) (by simpa using hi)

end Holds

end OwnRing

end GndCtrl
