/-
  Bytes in memory — the little-endian words of packed C structures.

  A C array of bytes is a function `Mem` from offsets to bytes.  `lo`/`hi` and
  `byte` split a word with the masks and shifts of a C encoder, `le16` and
  `le32` join the bytes again (`le16_lo_hi`, `le32_byte`).  `putList` is a run
  of consecutive byte writes and `bytes` reads such a run back.
-/
import Mathlib.Tactic.IntervalCases
import Mathlib.Data.List.GetD

namespace GndCtrl

/-- The content of a byte array, by offset. -/
abbrev Mem := ℕ → BitVec 8

/-! ## Words -/

/-- `x & 0xFF` -/
def lo (x : BitVec 16) : BitVec 8 := (x &&& 0xFF).setWidth 8

/-- `(x >> 8) & 0xFF` -/
def hi (x : BitVec 16) : BitVec 8 := ((x >>> 8) &&& 0xFF).setWidth 8

/-- `l | h << 8` -/
def le16 (l h : BitVec 8) : BitVec 16 := l.setWidth 16 ||| (h.setWidth 16 <<< 8)

/-- `(x >> 8k) & 0xFF` -/
def byte (k : ℕ) (x : BitVec 32) : BitVec 8 := ((x >>> (8 * k)) &&& 0xFF).setWidth 8

/-- `b₀ | b₁ << 8 | b₂ << 16 | b₃ << 24` -/
def le32 (b₀ b₁ b₂ b₃ : BitVec 8) : BitVec 32 :=
  b₀.setWidth 32 ||| (b₁.setWidth 32 <<< 8) ||| (b₂.setWidth 32 <<< 16) |||
    (b₃.setWidth 32 <<< 24)

@[simp] theorem le16_lo_hi (x : BitVec 16) : le16 (lo x) (hi x) = x := by
  ext i h
  simp only [le16, lo, hi]
  interval_cases i <;> simp

@[simp] theorem lo_le16 (l h : BitVec 8) : lo (le16 l h) = l := by
  ext i _
  simp only [le16, lo]
  interval_cases i <;> simp

@[simp] theorem hi_le16 (l h : BitVec 8) : hi (le16 l h) = h := by
  ext i _
  simp only [le16, hi]
  interval_cases i <;> simp

@[simp] theorem le32_byte (x : BitVec 32) :
    le32 (byte 0 x) (byte 1 x) (byte 2 x) (byte 3 x) = x := by
  ext i h
  simp only [le32, byte]
  interval_cases i <;> simp

theorem le16_toNat (l h : BitVec 8) : (le16 l h).toNat = l.toNat + 256 * h.toNat := by
  have hl := l.isLt
  have hh := h.isLt
  rw [le16, BitVec.toNat_or, BitVec.toNat_shiftLeft, BitVec.toNat_setWidth, BitVec.toNat_setWidth,
    Nat.mod_eq_of_lt (by omega), Nat.mod_eq_of_lt (a := h.toNat) (by omega), Nat.or_comm,
    Nat.mod_eq_of_lt (by rw [Nat.shiftLeft_eq]; omega),
    ← Nat.shiftLeft_add_eq_or_of_lt hl, Nat.shiftLeft_eq]
  omega

theorem le16_inj {l h l' h' : BitVec 8} : le16 l h = le16 l' h' ↔ l = l' ∧ h = h' := by
  constructor
  · intro e
    exact ⟨by rw [← lo_le16 l h, e, lo_le16], by rw [← hi_le16 l h, e, hi_le16]⟩
  · rintro ⟨rfl, rfl⟩; rfl

/-! ## Reads and writes -/

namespace Mem

/-- `m[i] = b` -/
def put (m : Mem) (i : ℕ) (b : BitVec 8) : Mem := fun j => if j = i then b else m j

/-- `m[a] = l₀; m[a + 1] = l₁; …` -/
def putList : Mem → ℕ → List (BitVec 8) → Mem
  | m, _, [] => m
  | m, a, b :: l => putList (m.put a b) (a + 1) l

/-- The 16-bit little-endian word at offset `a`. -/
def u16 (m : Mem) (a : ℕ) : BitVec 16 := le16 (m a) (m (a + 1))

/-- The 32-bit little-endian word at offset `a`. -/
def u32 (m : Mem) (a : ℕ) : BitVec 32 := le32 (m a) (m (a + 1)) (m (a + 2)) (m (a + 3))

/-- The bytes `m[0], …, m[n - 1]`. -/
def bytes (m : Mem) (n : ℕ) : List (BitVec 8) := (List.range n).map m

@[simp] theorem put_same (m : Mem) (i : ℕ) (b : BitVec 8) : m.put i b i = b := by simp [put]

@[simp] theorem put_ne (m : Mem) {i j : ℕ} (b : BitVec 8) (h : j ≠ i) : m.put i b j = m j := by
  simp [put, h]

theorem putList_lt {j : ℕ} (l : List (BitVec 8)) (m : Mem) (a : ℕ) (h : j < a) :
    m.putList a l j = m j := by
  induction l generalizing m a with
  | nil => rfl
  | cons b l ih => rw [putList, ih _ _ (by omega), put_ne _ _ (by omega)]

theorem putList_ge {j : ℕ} (l : List (BitVec 8)) (m : Mem) (a : ℕ) (h : a + l.length ≤ j) :
    m.putList a l j = m j := by
  induction l generalizing m a with
  | nil => rfl
  | cons b l ih =>
    rw [List.length_cons] at h
    rw [putList, ih _ _ (by omega), put_ne _ _ (by omega)]

theorem putList_get : ∀ (l : List (BitVec 8)) (m : Mem) (a i : ℕ) (h : i < l.length),
    m.putList a l (a + i) = l[i]
  | b :: l, m, a, 0, _ => by
    rw [putList, putList_lt l _ _ (by omega)]; simp
  | b :: l, m, a, i + 1, h => by
    rw [putList, show a + (i + 1) = a + 1 + i by omega, putList_get l _ _ i (by simpa using h)]
    simp

theorem putList_getD (l : List (BitVec 8)) (m : Mem) {i : ℕ} (h : i < l.length) :
    m.putList 0 l i = l.getD i 0 := by
  have := putList_get l m 0 i h
  rw [Nat.zero_add] at this
  simp [this, h]

/-- Writing the tail first. -/
theorem putList_swap (m : Mem) (l l' : List (BitVec 8)) :
    (m.putList l.length l').putList 0 l = m.putList 0 (l ++ l') := by
  funext j
  by_cases h : j < l.length
  · rw [putList_getD l _ h, putList_getD _ _ (by simp; omega), List.getD_append _ _ _ _ h]
  · rw [putList_ge l _ _ (by omega)]
    by_cases h' : j < l.length + l'.length
    · obtain ⟨i, rfl⟩ : ∃ i, j = l.length + i := ⟨j - l.length, by omega⟩
      have hi : i < l'.length := by omega
      rw [putList_get l' m _ i hi, putList_getD _ _ (by simpa using h'),
        List.getD_append_right _ _ _ _ (by omega)]
      simp [hi]
    · rw [putList_ge l' _ _ (by omega), putList_ge _ _ _ (by simp; omega)]

theorem putList_append (l l' : List (BitVec 8)) (m : Mem) (a : ℕ) :
    m.putList a (l ++ l') = (m.putList a l).putList (a + l.length) l' := by
  induction l generalizing m a with
  | nil => rfl
  | cons b l ih =>
    rw [List.cons_append, putList, ih, putList, List.length_cons, Nat.add_right_comm,
      Nat.add_assoc a]

@[simp] theorem length_bytes (m : Mem) (n : ℕ) : (m.bytes n).length = n := by simp [bytes]

@[simp] theorem getElem_bytes (m : Mem) {n i : ℕ} (h : i < (m.bytes n).length) :
    (m.bytes n)[i] = m i := by
  simp [bytes]

theorem bytes_eq_iff {m m' : Mem} {n : ℕ} : m.bytes n = m'.bytes n ↔ ∀ i < n, m i = m' i := by
  simp [bytes]

/-- Reading back a run of writes. -/
theorem bytes_putList (l : List (BitVec 8)) (m : Mem) : (m.putList 0 l).bytes l.length = l := by
  refine List.ext_getElem (by simp) fun i _ h => ?_
  rw [getElem_bytes, ← putList_get l m 0 i h, Nat.zero_add]

/-- Reading back a run of writes behind the first `a` bytes. -/
theorem bytes_putList_drop (m : Mem) {l : List (BitVec 8)} {n a : ℕ} (hl : l.length = n)
    (ha : a ≤ n) : (m.putList a (l.drop a)).bytes n = (m.bytes n).take a ++ l.drop a := by
  refine List.ext_getElem (by simp; omega) fun i hi _ => ?_
  have hi' : i < n := by simpa using hi
  rw [getElem_bytes]
  by_cases h : i < a
  · rw [putList_lt _ _ _ h, List.getElem_append_left (by simp; omega)]
    simp
  · obtain ⟨k, rfl⟩ : ∃ k, i = a + k := ⟨i - a, by omega⟩
    rw [putList_get _ _ _ k (by simp; omega), List.getElem_append_right (by simp)]
    simp [Nat.min_eq_left ha]

theorem bytes_succ (m : Mem) (n : ℕ) : m.bytes (n + 1) = m.bytes n ++ [m n] := by
  simp [bytes, List.range_succ]

/-- One more write of a run that copies `m`. -/
theorem putList_bytes_succ (m m' : Mem) (a n : ℕ) :
    m'.putList a (m.bytes (n + 1)) = (m'.putList a (m.bytes n)).put (a + n) (m n) := by
  rw [bytes_succ, putList_append, length_bytes]
  rfl

end Mem

end GndCtrl
