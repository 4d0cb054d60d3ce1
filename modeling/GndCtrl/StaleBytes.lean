/-
  What the handler of slot 0 makes of the bytes behind a message.

  The validator reads the header at offsets 0 to 9 and the handler casts the
  buffer to a packed message without a look at the length, so bytes that an
  earlier datagram left in the buffer can decide what happens.  `OwnBytes` says
  when they do not: a message shorter than its header has to contradict it,
  and an accepted message has to be as long as the structure it is cast to.

  `own_bytes_iff` shows that `OwnBytes` is exact: otherwise two buffers with
  the same message lead to different decisions or states.
-/
import GndCtrl.Main

namespace GndCtrl

open CNum CFloat

variable {F D : Type} [CNum F] [CNum D] [CFloat F D]

/-- Two buffers hold the same message of `len` bytes. -/
def SameMessage (len : ℕ) (b b' : Mem) : Prop := ∀ j < len, b' j = b j

/-- The handler does the same for every buffer with this message. -/
def OwnResult (s : Sys F) (len : ℕ) (b : Mem) : Prop :=
  ∀ b', SameMessage len b b' →
    recvMsgCheck b' len = recvMsgCheck b len ∧
      recvMessageFromSever b' len s = recvMessageFromSever b len s

/-- The bytes of a short message that lie in the header contradict it. -/
def ShortRejected (len : ℕ) (b : Mem) : Prop :=
  (0 < len ∧ b 0 ≠ 0xAA) ∨ (1 < len ∧ b 1 ≠ 0xAA) ∨ (6 < len ∧ b 6 ≠ BitVec.ofNat 8 len) ∨
    (7 < len ∧ b 7 ≠ 0)

/-- The message decides on its own what is done with it. -/
structure OwnBytes (len : ℕ) (b : Mem) : Prop where
  short : len < 10 → ShortRejected len b
  /-- the low byte of the type belongs to no message with an effect -/
  ten : len = 10 → recvMsgCheck b len = true → b 9 ≠ 0x01 ∧ b 9 ≠ 0x20 ∧ b 9 ≠ 0x21
  para : 11 ≤ len → recvMsgCheck b len = true → b.u16 9 = recvMsgWcs2gndctrlParaType → 45 ≤ len
  repair : 11 ≤ len → recvMsgCheck b len = true → b.u16 9 = recvMsgRepairCarCmdType → 21 ≤ len

/-! ## The condition is enough -/

theorem Mem.u16_congr {b b' : Mem} {len a : ℕ} (h : SameMessage len b b') (ha : a + 2 ≤ len) :
    b'.u16 a = b.u16 a := by
  rw [Mem.u16, Mem.u16, h a (by omega), h (a + 1) (by omega)]

theorem Mem.u32_congr {b b' : Mem} {len a : ℕ} (h : SameMessage len b b') (ha : a + 4 ≤ len) :
    b'.u32 a = b.u32 a := by
  rw [Mem.u32, Mem.u32, h a (by omega), h (a + 1) (by omega), h (a + 2) (by omega),
    h (a + 3) (by omega)]

theorem Mem.bytes_congr {b b' : Mem} {len n : ℕ} (h : SameMessage len b b') (hn : n ≤ len) :
    b'.bytes n = b.bytes n :=
  Mem.bytes_eq_iff.2 fun i hi => h i (by omega)

theorem headCheck_congr {b b' : Mem} {len : ℕ} (h : SameMessage len b b') (hl : 8 ≤ len) :
    headCheck b' len = headCheck b len := by
  rw [headCheck, headCheck, h 0 (by omega), h 1 (by omega), Mem.u16_congr h hl]

theorem recvMsgCheck_congr {b b' : Mem} {len : ℕ} (h : SameMessage len b b') (hl : 10 ≤ len) :
    recvMsgCheck b' len = recvMsgCheck b len := by
  rw [recvMsgCheck, recvMsgCheck, headCheck_congr h (by omega), h 8 (by omega),
    sumLoop_congr fun j _ hj => h j (by omega)]

theorem ParaData.read_congr {b b' : Mem} {len : ℕ} (h : SameMessage len b b') (hl : 45 ≤ len) :
    (ParaData.read b' : ParaData F) = ParaData.read b := by
  simp only [ParaData.read, Mem.bytes_congr h (show 11 ≤ len by omega),
    Mem.u32_congr h (show 11 + 4 ≤ len by omega), Mem.u32_congr h (show 15 + 4 ≤ len by omega),
    Mem.u32_congr h (show 19 + 4 ≤ len by omega), Mem.u32_congr h (show 23 + 4 ≤ len by omega),
    Mem.u32_congr h (show 27 + 4 ≤ len by omega), Mem.u32_congr h (show 31 + 4 ≤ len by omega),
    Mem.u32_congr h (show 35 + 4 ≤ len by omega), Mem.u32_congr h (show 39 + 4 ≤ len by omega),
    Mem.u16_congr h (show 43 + 2 ≤ len by omega)]

theorem RepairCarCmdData.read_congr {b b' : Mem} {len : ℕ} (h : SameMessage len b b')
    (hl : 21 ≤ len) : RepairCarCmdData.read b' = RepairCarCmdData.read b := by
  simp only [RepairCarCmdData.read, Mem.bytes_congr h (show 11 ≤ len by omega),
    Mem.u16_congr h (show 11 + 2 ≤ len by omega), Mem.u16_congr h (show 13 + 2 ≤ len by omega),
    Mem.u16_congr h (show 15 + 2 ≤ len by omega), Mem.u16_congr h (show 17 + 2 ≤ len by omega),
    Mem.u16_congr h (show 19 + 2 ≤ len by omega)]

/-- A short message that contradicts the header is rejected. -/
theorem ShortRejected.check {len : ℕ} {b b' : Mem} (hs : ShortRejected len b) (hl : len < 10)
    (h : SameMessage len b b') : recvMsgCheck b' len = false := by
  rw [← Bool.not_eq_true, recvMsgCheck_iff, headCheck_iff]
  rintro ⟨⟨h0, h1, h6⟩, -⟩
  have hlen : b' 6 = BitVec.ofNat 8 len ∧ b' 7 = 0 := by
    change (le16 (b' 6) (b' 7)).toNat = len at h6
    rw [le16_toNat] at h6
    constructor
    · apply BitVec.eq_of_toNat_eq
      rw [BitVec.toNat_ofNat, Nat.mod_eq_of_lt (by omega)]
      omega
    · apply BitVec.eq_of_toNat_eq
      simp
      omega
  rcases hs with ⟨hj, hn⟩ | ⟨hj, hn⟩ | ⟨hj, hn⟩ | ⟨hj, hn⟩
  · exact hn (h 0 hj ▸ h0)
  · exact hn (h 1 hj ▸ h1)
  · exact hn (h 6 hj ▸ hlen.1)
  · exact hn (h 7 hj ▸ hlen.2)

theorem le16_ne {l h l' : U8} (h' : U8) (hl : l ≠ l') : le16 l h ≠ le16 l' h' := fun e =>
  hl (le16_inj.1 e).1

/-- A type whose low byte belongs to no message with an effect. -/
theorem recvMsgProcess_none {b : Mem} (h01 : b 9 ≠ 0x01) (h20 : b 9 ≠ 0x20) (h21 : b 9 ≠ 0x21)
    (data : List U8) (s : Sys F) : recvMsgProcess b data s = s := by
  have hb : b.u16 9 ≠ recvMsgBootCmdType := le16_ne 0x1F h01
  have hp : b.u16 9 ≠ recvMsgWcs2gndctrlParaType := le16_ne 0x12 h20
  have hr : b.u16 9 ≠ recvMsgRepairCarCmdType := le16_ne 0x12 h21
  have hs : b.u16 9 ≠ replySendMsgGndctrl2wcsCmdType := le16_ne 0x92 h01
  simp only [recvMsgProcess, if_neg hb, if_neg hp, if_neg hr, if_neg hs]

/-- The handler reads no byte behind a message of the size of its structure. -/
theorem recvMsgProcess_congr {b b' : Mem} {len : ℕ} (h : SameMessage len b b') (hl : 11 ≤ len)
    (hp : b.u16 9 = recvMsgWcs2gndctrlParaType → 45 ≤ len)
    (hr : b.u16 9 = recvMsgRepairCarCmdType → 21 ≤ len) (data : List U8) (s : Sys F) :
    recvMsgProcess b' data s = recvMsgProcess b data s := by
  have ht : b'.u16 9 = b.u16 9 := Mem.u16_congr h (by omega)
  simp only [recvMsgProcess, ht]
  by_cases hpara : b.u16 9 = recvMsgWcs2gndctrlParaType
  · rw [ParaData.read_congr h (hp hpara)]
    simp only [hpara]
    rfl
  · by_cases hrepair : b.u16 9 = recvMsgRepairCarCmdType
    · rw [RepairCarCmdData.read_congr h (hr hrepair)]
      simp only [if_neg hpara]
    · simp only [if_neg hpara, if_neg hrepair]

theorem OwnBytes.result {len : ℕ} {b : Mem} (h : OwnBytes len b) (s : Sys F) :
    OwnResult s len b := by
  intro b' hb
  by_cases hl : len < 10
  · have hc := (h.short hl).check hl hb
    have hc' := (h.short hl).check hl (fun _ _ => rfl : SameMessage len b b)
    refine ⟨hc.trans hc'.symm, ?_⟩
    rw [recvMessageFromSever, recvMessageFromSever, hc, hc']
    rfl
  · have hc := recvMsgCheck_congr hb (by omega)
    have hd : b'.bytes len = b.bytes len := Mem.bytes_congr hb le_rfl
    refine ⟨hc, ?_⟩
    simp only [recvMessageFromSever, hc, hd]
    by_cases ha : recvMsgCheck b len = true
    · simp only [if_pos ha]
      by_cases hten : len = 10
      · obtain ⟨h01, h20, h21⟩ := h.ten hten ha
        rw [recvMsgProcess_none h01 h20 h21]
        have h9 := hb 9 (by omega)
        rw [recvMsgProcess_none (h9 ▸ h01) (h9 ▸ h20) (h9 ▸ h21)]
      · rw [recvMsgProcess_congr hb (by omega) (h.para (by omega) ha) (h.repair (by omega) ha)]
    · simp only [if_neg ha]

/-! ## The condition is needed -/

/-- The header that a message of `len` bytes needs; the checksum stays. -/
def wantedHeader (len : ℕ) (b : Mem) (j : ℕ) : U8 :=
  [0xAA, 0xAA, 0, 0, 0, 0, BitVec.ofNat 8 len, 0, b 8].getD j 0

/-- A short message completed with this header, and a byte `x` at offset 9. -/
def withHeader (len : ℕ) (b : Mem) (x : U8) : Mem := fun j =>
  if j < len then b j else if j = 9 then x else wantedHeader len b j

theorem withHeader_eq {len j : ℕ} {b : Mem} {x : U8} (hj : j ≠ 9)
    (h : j < len → b j = wantedHeader len b j) : withHeader len b x j = wantedHeader len b j := by
  rw [withHeader]
  split_ifs with hl
  · exact h hl
  · rfl

theorem withHeader_check {len : ℕ} {b : Mem} (hn : ¬ ShortRejected len b) (hl : len < 10) (x : U8) :
    recvMsgCheck (withHeader len b x) len = true ↔ x = b 8 := by
  simp only [ShortRejected, not_or, not_and, not_not] at hn
  obtain ⟨h0, h1, h6, h7⟩ := hn
  have e0 : withHeader len b x 0 = 0xAA := withHeader_eq (by decide) h0
  have e1 : withHeader len b x 1 = 0xAA := withHeader_eq (by decide) h1
  have e6 : withHeader len b x 6 = BitVec.ofNat 8 len := withHeader_eq (by decide) h6
  have e7 : withHeader len b x 7 = 0 := withHeader_eq (by decide) h7
  have e8 : withHeader len b x 8 = b 8 := withHeader_eq (by decide) fun _ => rfl
  have e9 : withHeader len b x 9 = x := by rw [withHeader, if_neg (by omega), if_pos rfl]
  have hu : ((withHeader len b x).u16 6).toNat = len := by
    rw [Mem.u16, e6, e7, le16_toNat, BitVec.toNat_ofNat, Nat.mod_eq_of_lt (by omega)]
    rfl
  rw [recvMsgCheck_iff, headCheck_iff, show len - 10 = 0 by omega, sumLoop, e8, e9]
  exact ⟨fun h => h.2, fun h => ⟨⟨e0, e1, hu⟩, h⟩⟩

theorem OwnResult.short {s : Sys F} {len : ℕ} {b : Mem} (h : OwnResult s len b) (hl : len < 10) :
    ShortRejected len b := by
  by_contra hn
  have hs : ∀ x, SameMessage len b (withHeader len b x) := fun x j hj => if_pos hj
  have ht := (h _ (hs (b 8))).1
  have hf := (h _ (hs (b 8 + 1))).1
  rw [(withHeader_check hn hl (b 8)).2 rfl] at ht
  rw [← ht, withHeader_check hn hl] at hf
  exact absurd hf (by simp)

/-- Buffers with the same accepted message are processed alike. -/
theorem OwnResult.process {s : Sys F} {len : ℕ} {b a a' : Mem} (h : OwnResult s len b)
    (hc : recvMsgCheck b len = true) (ha : SameMessage len b a) (ha' : SameMessage len b a') :
    recvMsgProcess a (a.bytes len) s = recvMsgProcess a' (a'.bytes len) s := by
  have h1 := h a ha
  have h2 := h a' ha'
  rw [hc] at h1 h2
  have e := h1.2.trans h2.2.symm
  simp only [recvMessageFromSever, if_pos h1.1, if_pos h2.1] at e
  exact (Prod.ext_iff.1 e).2

theorem recvMsgProcess_boot {b : Mem} (h : b.u16 9 = recvMsgBootCmdType) (data : List U8)
    (s : Sys F) : recvMsgProcess b data s = bootReset 0 data s := if_pos h

theorem recvMsgProcess_para {b : Mem} (h : b.u16 9 = recvMsgWcs2gndctrlParaType) (data : List U8)
    (s : Sys F) : (recvMsgProcess b data s).drive = recvPara (ParaData.read b) s.drive := by
  simp only [recvMsgProcess, h]
  rfl

theorem recvMsgProcess_repair {b : Mem} (h : b.u16 9 = recvMsgRepairCarCmdType) (data : List U8)
    (s : Sys F) :
    (recvMsgProcess b data s).drive = recvRepair (RepairCarCmdData.read b) s.drive := by
  simp only [recvMsgProcess, h]
  rfl

theorem sameMessage_put {len i : ℕ} {b a : Mem} (h : SameMessage len b a) (hi : len ≤ i) (x : U8) :
    SameMessage len b (a.put i x) := fun j hj => by
  rw [Mem.put_ne _ _ (by omega)]
  exact h j hj

/-- The last byte of a parameter message decides on its frequency. -/
theorem OwnResult.para {s : Sys F} {len : ℕ} {b a : Mem} (h : OwnResult s len b)
    (hc : recvMsgCheck b len = true) (ha : SameMessage len b a)
    (ht : a.u16 9 = recvMsgWcs2gndctrlParaType) : 45 ≤ len := by
  by_contra hl
  have hp : ∀ x : U8, (recvMsgProcess (a.put 44 x) ((a.put 44 x).bytes len) s).drive =
      recvPara (ParaData.read (a.put 44 x)) s.drive := fun x =>
    recvMsgProcess_para (b := a.put 44 x) ht _ s
  have e := h.process hc (sameMessage_put (i := 44) ha (by omega) 0)
    (sameMessage_put (i := 44) ha (by omega) 1)
  have e' := congrArg (fun t => t.drive.wcs2GndParaData.standardHz) e
  simp only [hp] at e'
  exact absurd (le16_inj.1 e').2 (by simp)

/-- The last byte of a maintenance message decides on its frequency. -/
theorem OwnResult.repair {s : Sys F} {len : ℕ} {b a : Mem} (h : OwnResult s len b)
    (hc : recvMsgCheck b len = true) (ha : SameMessage len b a)
    (ht : a.u16 9 = recvMsgRepairCarCmdType) : 21 ≤ len := by
  by_contra hl
  have hp : ∀ x : U8, (recvMsgProcess (a.put 20 x) ((a.put 20 x).bytes len) s).drive =
      recvRepair (RepairCarCmdData.read (a.put 20 x)) s.drive := fun x =>
    recvMsgProcess_repair (b := a.put 20 x) ht _ s
  have hm : ∀ m : RepairCarCmdData, (recvRepair m s.drive).repairCarCmdData = m := fun m => by
    simp only [recvRepair, repairCarParaInit]; split_ifs <;> rfl
  have e := h.process hc (sameMessage_put (i := 20) ha (by omega) 0)
    (sameMessage_put (i := 20) ha (by omega) 1)
  have e' := congrArg (fun t => t.drive.repairCarCmdData.standardHz) e
  simp only [hp, hm] at e'
  exact absurd (le16_inj.1 e').2 (by simp)

theorem OwnResult.ten {s : Sys F} {b : Mem} (h : OwnResult s 10 b)
    (hc : recvMsgCheck b 10 = true) : b 9 ≠ 0x01 ∧ b 9 ≠ 0x20 ∧ b 9 ≠ 0x21 := by
  have hs : ∀ x, SameMessage 10 b (b.put 10 x) := fun x =>
    sameMessage_put (fun _ _ => rfl) le_rfl x
  have hu : ∀ x, (b.put 10 x).u16 9 = le16 (b 9) x := fun _ => rfl
  refine ⟨?_, ?_, ?_⟩ <;> intro h9
  · -- one continuation of the type boots, another is no message at all
    have e := h.process hc (hs 0x1F) (hs 0x00)
    have h1 : (b.put 10 0x1F).u16 9 = recvMsgBootCmdType := by rw [hu, h9]; rfl
    have h2 : (b.put 10 0x00).u16 9 = 0x0001 := by rw [hu, h9]; rfl
    have hn : ∀ data, recvMsgProcess (b.put 10 0x00) data s = s := fun data => by
      simp only [recvMsgProcess, h2]; rfl
    rw [recvMsgProcess_boot h1, hn] at e
    have e' := congrArg (fun t => t.log.length) e
    simp [bootReset] at e'
  · have := h.para hc (hs 0x12) (by rw [hu, h9]; rfl)
    omega
  · have := h.repair hc (hs 0x12) (by rw [hu, h9]; rfl)
    omega

/-- **A message decides on its own** exactly when `OwnBytes` holds of it. -/
theorem own_bytes_iff (s : Sys F) (len : ℕ) (b : Mem) : OwnResult s len b ↔ OwnBytes len b := by
  constructor
  · intro h
    have hb : SameMessage len b b := fun _ _ => rfl
    refine ⟨h.short, ?_, fun _ hc ht => h.para hc hb ht, fun _ hc ht => h.repair hc hb ht⟩
    rintro rfl hc
    exact h.ten hc
  · intro h
    exact h.result s

/-- An accepted parameter message of 11 bytes takes its fields from what an
    earlier datagram left in the buffer. -/
theorem stale_bytes_used :
    ¬ ∀ (s : Sys Num) (len : ℕ) (b b' : Mem), len ≤ 1500 → SameMessage len b b' →
      recvMsgCheck b' len = recvMsgCheck b len ∧
        recvMessageFromSever b' len s = recvMessageFromSever b len s := by
  intro h
  have hm := h (Sys.init 0) 11
    (Mem.putList (fun _ => 0x00) 0 [0xAA, 0xAA, 1, 0, 0, 0, 11, 0, 0x32, 0x20, 0x12])
    (Mem.putList (fun _ => 0x01) 0 [0xAA, 0xAA, 1, 0, 0, 0, 11, 0, 0x32, 0x20, 0x12])
    (by decide) (by unfold SameMessage; decide)
  have e := congrArg (fun r => r.2.drive.wcs2GndParaData.standardHz) hm.2
  exact absurd e (by decide)

end GndCtrl
