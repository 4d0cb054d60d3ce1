/-
  Cyclic redundancy checks over bytes, least significant bit first.

  `crcBits poly` is the definition: every byte is added to the register, which
  is then shifted eight times, subtracting the polynomial when a one falls out.
  A shift is linear (`crcShift_xor`), and bits above the ones that fall out only
  move down (`iterate_crcShift_shiftLeft`).  So a byte can be taken at once, from
  a table of the eight shifts of each index (`crcOctet_eq`).
-/
import Mathlib.Data.Nat.Bitwise
import Mathlib.Logic.Function.Iterate

namespace GndCtrl

variable {w : ℕ}

/-- One shift of the register. -/
def crcShift (poly r : BitVec w) : BitVec w :=
  if r.getLsbD 0 then (r >>> 1) ^^^ poly else r >>> 1

/-- One byte: eight shifts of the register with the byte added. -/
def crcOctet (poly r : BitVec w) (b : BitVec 8) : BitVec w :=
  (crcShift poly)^[8] (r ^^^ b.setWidth w)

/-- The register after the bytes, from `r`. -/
def crcBits (poly : BitVec w) (bytes : List (BitVec 8)) (r : BitVec w) : BitVec w :=
  bytes.foldl (crcOctet poly) r

theorem crcShift_xor (poly a b : BitVec w) :
    crcShift poly (a ^^^ b) = crcShift poly a ^^^ crcShift poly b := by
  simp only [crcShift, BitVec.getLsbD_xor, BitVec.ushiftRight_xor_distrib]
  cases a.getLsbD 0 <;> cases b.getLsbD 0
  · rfl
  · exact BitVec.xor_assoc ..
  · simp only [Bool.true_xor, Bool.not_false, if_true, Bool.false_eq_true, if_false]
    ac_rfl
  · -- subtracted twice
    ext i hi
    cases h : poly[i] <;> simp [h]

theorem iterate_crcShift_xor (poly : BitVec w) (n : ℕ) (a b : BitVec w) :
    (crcShift poly)^[n] (a ^^^ b) = (crcShift poly)^[n] a ^^^ (crcShift poly)^[n] b := by
  induction n generalizing a b with
  | zero => rfl
  | succ n ih => rw [Function.iterate_succ_apply, crcShift_xor, ih]; rfl

/-- Bits above the ones that fall out only move down. -/
theorem iterate_crcShift_shiftLeft (poly x : BitVec w) {m n : ℕ} (h : n ≤ m) :
    (crcShift poly)^[n] (x <<< m) = (x <<< m) >>> n := by
  induction n with
  | zero => simp
  | succ n ih =>
    have hlow : ((x <<< m) >>> n).getLsbD 0 = false := by
      simp; omega
    rw [Function.iterate_succ_apply', ih (by omega), crcShift, hlow, BitVec.shiftRight_add]
    rfl

/-- The register, split at its lowest byte. -/
theorem octet_split (r : BitVec w) :
    r = (r.setWidth 8).setWidth w ^^^ ((r >>> 8) <<< 8) := by
  ext i hi
  by_cases h : i < 8
  · simp [h, hi]
  · have h8 : 8 + (i - 8) = i := by omega
    simp [h, hi, h8]

/-- **A byte at a time**: the table is read at the lowest byte of the register
    with the byte added, the rest of the register moves down. -/
theorem crcOctet_eq (hw : 8 ≤ w) (poly r : BitVec w) (b : BitVec 8) :
    crcOctet poly r b =
      (r >>> 8) ^^^ (crcShift poly)^[8] ((r.setWidth 8 ^^^ b).setWidth w) := by
  obtain ⟨x, hx⟩ : ∃ x, x = r ^^^ b.setWidth w := ⟨_, rfl⟩
  have hlow : x.setWidth 8 = r.setWidth 8 ^^^ b := by
    rw [hx]
    ext i hi
    simp [hi, show i < w by omega]
  have hhigh : (x >>> 8) <<< 8 >>> 8 = r >>> 8 := by
    rw [hx]
    ext i hi
    simp [hi]
    exact BitVec.lt_of_getLsbD
  rw [crcOctet, ← hx, octet_split x, iterate_crcShift_xor, iterate_crcShift_shiftLeft poly _ le_rfl,
    hlow, hhigh, BitVec.xor_comm]

end GndCtrl
