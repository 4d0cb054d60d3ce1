/-
  What the validator of a frame detects.

  The two tag bytes, the two bytes of the length and the checksum each have one
  value that the validator takes, and a byte behind them is in the checksum once
  (`sumLoop_put`).  So of an accepted frame no single byte can be replaced
  without notice, but for the four bytes of the id, which are not read at all
  (`corruption_detected`).
-/
import GndCtrl.Frame

namespace GndCtrl

/-- The byte at `p` belongs to the id of a message. -/
def InId (p : ℕ) : Prop := 2 ≤ p ∧ p ≤ 5

instance (p : ℕ) : Decidable (InId p) := inferInstanceAs (Decidable (_ ∧ _))

/-- A byte in the checksum changes it by the difference. -/
theorem sumLoop_put (m : Mem) (v : U8) {p n : ℕ} (hp : 9 ≤ p) (h : p ≤ 9 + n) :
    sumLoop (m.put p v) n = sumLoop m n ^^^ (m p ^^^ v) := by
  induction n with
  | zero =>
    obtain rfl : p = 9 := by omega
    rw [sumLoop, sumLoop, Mem.put_same, ← BitVec.xor_assoc, BitVec.xor_self, BitVec.zero_xor]
  | succ n ih =>
    rw [sumLoop, sumLoop]
    rcases Nat.lt_or_ge (9 + n) p with hlast | hbefore
    · -- the last byte of the loop
      obtain rfl : p = 9 + (n + 1) := by omega
      have hsame : sumLoop (m.put (9 + (n + 1)) v) n = sumLoop m n := by
        refine sumLoop_congr fun j _ hj => ?_
        exact Mem.put_ne m v (by omega)
      rw [hsame, Mem.put_same, ← BitVec.xor_assoc, BitVec.xor_assoc (sumLoop m n), BitVec.xor_self,
        BitVec.xor_zero]
    · rw [ih hbefore, Mem.put_ne m v (by omega)]
      ac_rfl

/-- Two accepted buffers that differ in a byte outside the id are the same. -/
theorem byte_determined {m : Mem} {len p : ℕ} {v : U8} (hp : p < len) (hid : ¬ InId p)
    (h : recvMsgCheck m len = true) (h' : recvMsgCheck (m.put p v) len = true) : v = m p := by
  rw [recvMsgCheck_iff, headCheck_iff] at h h'
  obtain ⟨⟨h0, h1, hlen⟩, hsum⟩ := h
  obtain ⟨⟨h0', h1', hlen'⟩, hsum'⟩ := h'
  have hword : (m.put p v).u16 6 = m.u16 6 := BitVec.eq_of_toNat_eq (hlen'.trans hlen.symm)
  obtain ⟨h6, h7⟩ := le16_inj.1 hword
  rw [InId] at hid
  rcases Nat.lt_or_ge p 9 with hhead | hbody
  · obtain rfl | rfl | rfl | rfl | rfl : p = 0 ∨ p = 1 ∨ p = 6 ∨ p = 7 ∨ p = 8 := by omega
    · rw [h0, ← h0', Mem.put_same]
    · rw [h1, ← h1', Mem.put_same]
    · rw [← h6, Mem.put_same]
    · rw [← h7, Mem.put_same]
    · have hsame : sumLoop (m.put 8 v) (len - 10) = sumLoop m (len - 10) := by
        refine sumLoop_congr fun j hj _ => ?_
        exact Mem.put_ne m v (by omega)
      rw [← hsum, ← hsame, hsum', Mem.put_same]
  · rw [sumLoop_put m v hbody (by omega), Mem.put_ne m v (by omega), ← hsum] at hsum'
    have hzero : m p ^^^ v = 0 :=
      (BitVec.xor_right_inj _).1 (hsum'.trans BitVec.xor_zero.symm)
    exact (BitVec.xor_eq_zero_iff.1 hzero).symm

/-- The id is not read. -/
theorem recvMsgCheck_id {m m' : Mem} (h : ∀ j, ¬ InId j → m' j = m j) (len : ℕ) :
    recvMsgCheck m' len = recvMsgCheck m len := by
  have hout : ∀ j, 5 < j → m' j = m j := fun j hj => h j fun hid => by rw [InId] at hid; omega
  have h0 : m' 0 = m 0 := h 0 (by simp [InId])
  have h1 : m' 1 = m 1 := h 1 (by simp [InId])
  have hword : m'.u16 6 = m.u16 6 := by rw [Mem.u16, Mem.u16, hout 6 (by omega), hout 7 (by omega)]
  have hsum : sumLoop m' (len - 10) = sumLoop m (len - 10) :=
    sumLoop_congr fun j hj _ => hout j (by omega)
  rw [recvMsgCheck, recvMsgCheck, headCheck, headCheck, h0, h1, hword, hsum, hout 8 (by omega)]

/-- **Every single-byte corruption is detected**, outside the id, and a
    corruption of the id never is. -/
theorem corruption_detected (buf : Mem) (len : ℕ) :
    (recvMsgCheck buf len = true → ∀ p < len, ¬ InId p → ∀ v ≠ buf p,
      recvMsgCheck (buf.put p v) len = false) ∧
    ∀ buf' : Mem, (∀ j, ¬ InId j → buf' j = buf j) →
      recvMsgCheck buf' len = recvMsgCheck buf len := by
  refine ⟨fun h p hp hid v hv => ?_, fun buf' h => recvMsgCheck_id h len⟩
  rw [← Bool.not_eq_true]
  intro h'
  exact hv (byte_determined hp hid h h')

/-- A heartbeat with its type damaged. -/
theorem corruption_heartbeat :
    let buf : Mem := fun j => [0xAA, 0xAA, 0x02, 0x00, 0x01, 0x00, 0x0B, 0x00, 0x41, 0x50,
      0x11].getD j 0
    recvMsgCheck buf 11 = true ∧ recvMsgCheck (buf.put 10 0x12) 11 = false := by
  intro buf
  have h : recvMsgCheck buf 11 = true := by decide
  exact ⟨h, (corruption_detected buf 11).1 h 10 (by decide) (by decide) 0x12 (by decide)⟩

end GndCtrl
