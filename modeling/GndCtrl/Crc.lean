/-
  The CRC of the inverter frames.

  `crcByte` works from two tables.  The byte it calls `CRC_Hi` is the low byte
  of the register of CRC-16/MODBUS and `CRC_Lo` the high one, so with `exchange`
  the result is the register (`crc_sub_eq`) and without it the register with its
  bytes swapped.

  What a byte does is injective in the two bytes of the state (`crcByte_inj`),
  and two bytes in a row can be recovered from what they do (`crcByte_two`): no
  two byte strings with the same CRC differ in at most two neighbouring bytes
  (`crc_burst`).
-/
import GndCtrl.Usart
import GndCtrl.Lib.Crc

namespace GndCtrl

/-! ## The bit-serial CRC -/

/-- The polynomial of CRC-16/MODBUS, reflected. -/
abbrev modbusPoly : U16 := 0xA001

/-- CRC-16/MODBUS -/
def crcModbus (bytes : List U8) : U16 := crcBits modbusPoly bytes 0xFFFF

/-- The two bytes of a word, exchanged. -/
def swapBytes (x : U16) : U16 := le16 (hi x) (lo x)

/-- The tables hold the eight shifts of every index. -/
theorem crc_tables : (List.range 256).map (fun n => (crcShift modbusPoly)^[8] (BitVec.ofNat 16 n)) =
    List.zipWith le16 crcHi crcLo := by decide +kernel

theorem table_getElem? {l : List U8} (h : l.length = 256) (i : U8) :
    l[i.toNat]? = some (l.getD i.toNat 0) := by
  rw [List.getD_eq_getElem?_getD, List.getElem?_eq_getElem (by rw [h]; exact i.isLt)]
  rfl

theorem length_crcHi : crcHi.length = 256 := by decide +kernel

theorem length_crcLo : crcLo.length = 256 := by decide +kernel

theorem crc_table (i : U8) : (crcShift modbusPoly)^[8] (i.setWidth 16) =
    le16 (crcHi.getD i.toNat 0) (crcLo.getD i.toNat 0) := by
  have h := congrArg (·[i.toNat]?) crc_tables
  simp only [List.getElem?_map, List.getElem?_range i.isLt, List.getElem?_zipWith,
    table_getElem? length_crcHi, table_getElem? length_crcLo, Option.map_some,
    BitVec.ofNat_toNat] at h
  exact Option.some.inj h

theorem le16_shiftRight (l h : U8) : le16 l h >>> 8 = h.setWidth 16 := by
  apply BitVec.eq_of_toNat_eq
  rw [BitVec.toNat_ushiftRight, le16_toNat, BitVec.toNat_setWidth, Nat.shiftRight_eq_div_pow]
  have := l.isLt
  have := h.isLt
  omega

theorem le16_xor (a b c : U8) : le16 (a ^^^ b) c = a.setWidth 16 ^^^ le16 b c := by
  ext i hi
  by_cases h : i < 8
  · simp [le16, h]
  · simp [le16, h, BitVec.getLsbD_of_ge a i (by omega), BitVec.getLsbD_of_ge b i (by omega)]

/-- **One byte** from the tables is one byte of the bit-serial CRC. -/
theorem crcByte_eq (s : U8 × U8) (b : U8) :
    le16 (crcByte s b).1 (crcByte s b).2 = crcOctet modbusPoly (le16 s.1 s.2) b := by
  have hlow : (le16 s.1 s.2).setWidth 8 = s.1 := by
    apply BitVec.eq_of_toNat_eq
    rw [BitVec.toNat_setWidth, le16_toNat]
    have := s.1.isLt
    omega
  rw [crcOctet_eq (by decide), hlow, le16_shiftRight, crc_table, ← le16_xor]
  rfl

theorem foldl_crcByte (bytes : List U8) (s : U8 × U8) :
    le16 (bytes.foldl crcByte s).1 (bytes.foldl crcByte s).2 =
      crcBits modbusPoly bytes (le16 s.1 s.2) := by
  induction bytes generalizing s with
  | nil => rfl
  | cons b bytes ih => rw [List.foldl_cons, ih, crcByte_eq]; rfl

/-- **The tables compute the Modbus CRC.**  With `exchange`, `CRC_sub` is the
    bit-serial CRC from the initial value with its bytes swapped; without it, the
    result is swapped too; and `get_CRC` is the swapped CRC-16/MODBUS. -/
theorem crc_sub_eq (bytes : List U8) (initVal : U16) :
    crcSub bytes initVal true = crcBits modbusPoly bytes (swapBytes initVal) ∧
      crcSub bytes initVal false = swapBytes (crcBits modbusPoly bytes (swapBytes initVal)) ∧
      getCRC bytes = swapBytes (crcModbus bytes) := by
  have hswap : ∀ init : U16, crcSub bytes init false =
      swapBytes (crcBits modbusPoly bytes (swapBytes init)) := by
    intro init
    rw [swapBytes, swapBytes, ← foldl_crcByte bytes (hi init, lo init), lo_le16, hi_le16]
    rfl
  exact ⟨foldl_crcByte bytes (hi initVal, lo initVal), hswap initVal, hswap 0xFFFF⟩

/-! ## What it detects -/

/-- The index of an entry of `CRCLo`. -/
def crcLoIndex (b : U8) : U8 :=
  let z := if b.msb then b ^^^ 0xC0 else b
  ((z ^^^ z >>> 1 ^^^ z >>> 2 ^^^ z >>> 3 ^^^ z >>> 4 ^^^ z >>> 5 ^^^ z >>> 6) <<< 1) ^^^
    ((z ^^^ z >>> 2 ^^^ z >>> 4 ^^^ z >>> 6 ^^^ b >>> 7) &&& 1)

theorem map_crcLoIndex : crcLo.map crcLoIndex = (List.range 256).map (BitVec.ofNat 8) := by
  decide +kernel

theorem crcLoIndex_crcLo (i : U8) : crcLoIndex (crcLo.getD i.toNat 0) = i := by
  have h := congrArg (·[i.toNat]?) map_crcLoIndex
  simp only [List.getElem?_map, List.getElem?_range i.isLt, table_getElem? length_crcLo,
    Option.map_some, BitVec.ofNat_toNat, BitVec.setWidth_eq] at h
  exact Option.some.inj h

/-- No byte is twice in `CRCLo`. -/
theorem crcLo_inj {i j : U8} (h : crcLo.getD i.toNat 0 = crcLo.getD j.toNat 0) : i = j := by
  rw [← crcLoIndex_crcLo i, h, crcLoIndex_crcLo]

/-- The state before a byte is determined by the state after it, up to the byte
    added to `CRC_Hi`. -/
theorem crcByte_cancel {s s' : U8 × U8} {b b' : U8} (h : crcByte s b = crcByte s' b') :
    s.1 ^^^ b = s'.1 ^^^ b' ∧ s.2 = s'.2 := by
  obtain ⟨hhi, hlo⟩ := Prod.mk.inj h
  have hi := crcLo_inj hlo
  rw [hi] at hhi
  exact ⟨hi, (BitVec.xor_left_inj _).1 hhi⟩

/-- The same byte keeps different states apart. -/
theorem crcByte_inj {s s' : U8 × U8} {b : U8} (h : crcByte s b = crcByte s' b) : s = s' := by
  obtain ⟨hhi, hlo⟩ := crcByte_cancel h
  exact Prod.ext ((BitVec.xor_left_inj _).1 hhi) hlo

theorem foldl_crcByte_inj {s s' : U8 × U8} :
    ∀ {l : List U8}, l.foldl crcByte s = l.foldl crcByte s' → s = s'
  | [], h => h
  | _ :: _, h => crcByte_inj (foldl_crcByte_inj h)

/-- Two bytes in a row are determined by the state before and after them. -/
theorem crcByte_two {s : U8 × U8} {a b a' b' : U8}
    (h : crcByte (crcByte s a) b = crcByte (crcByte s a') b') : a = a' ∧ b = b' := by
  obtain ⟨hhi, hlo⟩ := crcByte_cancel h
  have ha : a = a' := (BitVec.xor_right_inj _).1 (crcLo_inj hlo)
  subst ha
  exact ⟨rfl, (BitVec.xor_right_inj _).1 hhi⟩

theorem getCRC_inj {l l' : List U8} (h : getCRC l = getCRC l') :
    l.foldl crcByte (hi 0xFFFF, lo 0xFFFF) = l'.foldl crcByte (hi 0xFFFF, lo 0xFFFF) := by
  obtain ⟨hlo, hhi⟩ := le16_inj.1 h
  exact Prod.ext hhi hlo

/-- Two bytes behind the same bytes with the same CRC are the same. -/
theorem crc_inj {l : List U8} {a b a' b' : U8}
    (h : getCRC (l ++ [a, b]) = getCRC (l ++ [a', b'])) : a = a' ∧ b = b' := by
  have hs := getCRC_inj h
  rw [List.foldl_append, List.foldl_append] at hs
  exact crcByte_two hs

/-- From one state, strings that differ in two neighbouring bytes at most and end
    in the same state are the same. -/
theorem foldl_crcByte_window : ∀ {l l' : List U8} {s : U8 × U8} {i : ℕ},
    l.length = l'.length → (∀ j, j ≠ i → j ≠ i + 1 → l[j]? = l'[j]?) →
    l.foldl crcByte s = l'.foldl crcByte s → l = l'
  | [], [], _, _, _, _, _ => rfl
  | [a], [a'], s, i, _, _, h => by
    have h1 : crcByte s a = crcByte s a' := h
    rw [(BitVec.xor_right_inj _).1 (crcByte_cancel h1).1]
  | a :: b :: l, a' :: b' :: l', s, 0, hlen, hd, h => by
    -- the rest is the same, so the two bytes reach the same state
    have hl : l = l' := by
      apply List.ext_getElem?
      intro j
      exact hd (j + 2) (by omega) (by omega)
    subst hl
    obtain ⟨rfl, rfl⟩ := crcByte_two (foldl_crcByte_inj (l := l) h)
    rfl
  | a :: b :: l, a' :: b' :: l', s, i + 1, hlen, hd, h => by
    have ha : a = a' := by simpa using hd 0 (by omega) (by omega)
    subst ha
    have htail : b :: l = b' :: l' := by
      refine foldl_crcByte_window (i := i) (Nat.succ.inj hlen) ?_ h
      intro j hj hj'
      exact hd (j + 1) (by omega) (by omega)
    rw [htail]

/-- **Every short burst is detected**: distinct strings of one length that differ
    only at the places `i` and `i + 1` have different CRCs. -/
theorem crc_burst {l l' : List U8} {i : ℕ} (hlen : l.length = l'.length)
    (hd : ∀ j, j ≠ i → j ≠ i + 1 → l[j]? = l'[j]?) (hne : l ≠ l') : getCRC l ≠ getCRC l' := by
  intro h
  exact hne (foldl_crcByte_window hlen hd (getCRC_inj h))

/-- The register frame of 50 Hz with both bytes of the frequency damaged. -/
theorem crc_burst_hz : getCRC [0x00, 0x06, 0x20, 0x01, 0x13, 0x88] ≠
    getCRC [0x00, 0x06, 0x20, 0x01, 0x31, 0x89] := by
  refine crc_burst (i := 4) rfl ?_ (by decide)
  rintro (_ | _ | _ | _ | _ | _ | j) h h' <;> first | rfl | omega

end GndCtrl
