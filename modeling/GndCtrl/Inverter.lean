/-
  The inverters at the two lines.

  Each frame of `ServoFreqSet` is a Modbus request that writes the speed register
  of the inverter type (`servoFrame_encode`), and only `RS485_OUT` sends frames:
  those of a line are the requests of the drive's outputs, in order (`Commanded`).
  So after every run an inverter that has received its line has in its registers
  what the last output commands, and its speed is that output (`inverter_follows`).
-/
import GndCtrl.Crc
import GndCtrl.Lib.Modbus
import GndCtrl.Preemption
import GndCtrl.Projection
import GndCtrl.Sensors

namespace GndCtrl

open CNum CFloat Modbus

/-! ## The requests -/

/-- The register an inverter takes its speed from. -/
def speedRegister (inverterType : U8) : U16 :=
  if inverterType = 0 then 0xFA01
  else if inverterType = 1 then 0x2001
  else if inverterType = 2 then 0x0064
  else if inverterType = 3 then 0x7015
  else 0x3000

/-- The request for a frequency; the one of type 2 goes to station 1 and sets the
    control word in front of the speed register. -/
def speedRequest (inverterType : U8) (hz : U16) : Adu :=
  if inverterType = 2 then ⟨1, .writeMultiple 0x0063 [0x047F, servoWord inverterType hz]⟩
  else ⟨0, .writeSingle (speedRegister inverterType) (servoWord inverterType hz)⟩

/-- The frequency for which an inverter has a word in its speed register: type 2
    has 0x4000 for 5000. -/
def speedHz (inverterType : U8) (word : U16) : ℕ :=
  if inverterType = 2 then (word.toNat * 5000 + 0x3FFF) / 0x4000 else word.toNat

theorem speedRequest_fits (inverterType : U8) (hz : U16) :
    (speedRequest inverterType hz).request.Fits := by
  unfold speedRequest
  split_ifs
  · exact (by decide : 2 < 128)
  · trivial

theorem speedRequest_station {inverterType station : U8} (h : inverterType = 2 → station = 1)
    (hz : U16) : (speedRequest inverterType hz).station = 0 ∨
      (speedRequest inverterType hz).station = station := by
  unfold speedRequest
  split_ifs with h2
  · exact .inr (h h2).symm
  · exact .inl rfl

theorem eq_of_le_four {inverterType : U8} (h : inverterType ≤ 4) :
    inverterType = 0 ∨ inverterType = 1 ∨ inverterType = 2 ∨ inverterType = 3 ∨
      inverterType = 4 := by
  have hle : inverterType.toNat ≤ 4 := h
  simp only [← BitVec.toNat_inj]
  simp
  omega

theorem servoBody_eq {inverterType : U8} (h : inverterType ≤ 4) (hz : U16) :
    servoBody inverterType hz = (speedRequest inverterType hz).body := by
  rcases eq_of_le_four h with rfl | rfl | rfl | rfl | rfl
  · rfl
  · rfl
  · rw [servoBody, speedRequest, if_pos rfl]
    simp only [Adu.body, List.length_cons, List.length_nil]
    rfl
  · rfl
  · rfl

/-- The CRC of a frame is CRC-16/MODBUS with its low byte first. -/
theorem withCRC_eq (body : List U8) : withCRC body = checked crcModbus body := by
  have hcrc : crcModbus body = le16 (body.foldl crcByte (0xFF, 0xFF)).1
      (body.foldl crcByte (0xFF, 0xFF)).2 := (foldl_crcByte body (0xFF, 0xFF)).symm
  have hget : getCRC body = le16 (body.foldl crcByte (0xFF, 0xFF)).2
      (body.foldl crcByte (0xFF, 0xFF)).1 := rfl
  rw [withCRC, checked, hget, hcrc, hi_le16, hi_le16, lo_le16, lo_le16]

theorem servoFrame_encode {inverterType : U8} (h : inverterType ≤ 4) (hz : U16) :
    servoFrame inverterType hz = some ((speedRequest inverterType hz).encode crcModbus) := by
  rw [servoFrame_some h, withCRC_eq, servoBody_eq h]
  rfl

/-! ## What an inverter makes of them -/

theorem apply_speedRequest (inverterType : U8) (hz : U16) (registers : U16 → U16) (r : U16) :
    (speedRequest inverterType hz).request.apply registers r =
      if r = speedRegister inverterType then servoWord inverterType hz
      else if inverterType = 2 ∧ r = 0x0063 then 0x047F
      else registers r := by
  by_cases h2 : inverterType = 2
  swap
  · simp only [speedRequest, Request.apply, Function.update_apply, h2, false_and, if_false]
  subst h2
  change ([(0x047F : U16), servoWord 2 hz][(r - 0x0063).toNat]?).getD (registers r) =
    if r = 0x0064 then servoWord 2 hz else if (2 : U8) = 2 ∧ r = 0x0063 then 0x047F else registers r
  by_cases h64 : r = 0x0064
  · subst h64
    rfl
  by_cases h63 : r = 0x0063
  · subst h63
    rfl
  have hout : 2 ≤ (r - 0x0063).toNat := by
    have hr := r.isLt
    have h63' : r.toNat ≠ 0x63 := fun e => h63 (BitVec.eq_of_toNat_eq e)
    have h64' : r.toNat ≠ 0x64 := fun e => h64 (BitVec.eq_of_toNat_eq e)
    have hsub : (r - 0x0063).toNat = (2 ^ 16 - 0x63 + r.toNat) % 2 ^ 16 := BitVec.toNat_sub ..
    omega
  have hnone : [(0x047F : U16), servoWord 2 hz][(r - 0x0063).toNat]? = none :=
    List.getElem?_eq_none hout
  rw [hnone, if_neg h64, if_neg (fun h => h63 h.2), Option.getD_none]

/-- Of two requests only the second is left. -/
theorem apply_apply (inverterType : U8) (hz hz' : U16) (registers : U16 → U16) :
    (speedRequest inverterType hz').request.apply
        ((speedRequest inverterType hz).request.apply registers) =
      (speedRequest inverterType hz').request.apply registers := by
  funext r
  simp only [apply_speedRequest]
  split_ifs <;> rfl

/-- An inverter runs at the frequency it was sent, up to the limit of the outputs. -/
theorem speedHz_servoWord (inverterType : U8) {hz : U16} (h : hz ≤ fwOutHzMax) :
    speedHz inverterType (servoWord inverterType hz) = hz.toNat := by
  have hle : hz.toNat ≤ 5000 := h
  unfold speedHz servoWord
  split_ifs
  · rw [BitVec.toNat_ofNat, Nat.mod_eq_of_lt (by omega)]
    omega
  · rfl

/-! ## What the drive sends -/

variable {F D : Type} [CNum F] [CNum D] [CFloat F D]

/-- The frames on both lines are those of the drive's outputs, in order. -/
structure Commanded (inverterType : U8) (s : Drive F) : Prop where
  type : s.inverterType = inverterType
  dma2 : s.uart.dma2 = s.rs485.map fun v =>
    (speedRequest inverterType (BitVec.ofInt 16 v)).encode crcModbus
  dma4 : s.uart.dma4 = s.rs485.map fun v =>
    (speedRequest inverterType (BitVec.ofInt 16 v)).encode crcModbus

namespace Commanded
variable {inverterType : U8} (hty : inverterType ≤ 4) {s : Drive F}
  (h : Commanded inverterType s)
include hty h

omit [CNum F] in
theorem rs485Out (v : ℤ) : Commanded inverterType (rs485Out v s) := by
  have hframe := servoFrame_encode hty (BitVec.ofInt 16 v)
  rw [← h.type] at hframe
  obtain ⟨h2, h4⟩ := servoFreqSet_dma s.uart hframe
  refine ⟨h.type, ?_, ?_⟩
  · rw [rs485Out_rs485, List.map_append, ← h.dma2, ← h.type]
    exact h2
  · rw [rs485Out_rs485, List.map_append, ← h.dma4, ← h.type]
    exact h4

theorem fwPIDctrl (peTime : ℤ) : Commanded inverterType (fwPIDctrl peTime s) := by
  have hs : ∀ pid calls, Commanded inverterType { s with pid := pid, calls := calls } :=
    fun _ _ => ⟨h.type, h.dma2, h.dma4⟩
  exact rs485Out hty (hs _ _) _

omit [CNum F] in
theorem repairLocationCtrl : Commanded inverterType (repairLocationCtrl s) := by
  obtain e | ⟨v, r, e⟩ := repairLocationCtrl_cases s <;> rw [e]
  · exact h
  · have hr : Commanded inverterType { s with repairFlag := r } := ⟨h.type, h.dma2, h.dma4⟩
    exact rs485Out hty hr v

omit [CNum F] hty in
theorem stage : Commanded inverterType (stage s) := by
  rcases stage_cases s with ⟨n, m, e⟩ | ⟨-, -, e⟩ | ⟨-, -, e⟩ | ⟨-, e⟩ <;> rw [e] <;>
    exact ⟨h.type, h.dma2, h.dma4⟩

theorem sensor1 (tim2 : U16) : Commanded inverterType (sensor1 tim2 s) := by
  have hc : Commanded inverterType { s with carNo := s.carNo + 1 } := ⟨h.type, h.dma2, h.dma4⟩
  rw [sensor1_eq]
  split_ifs
  · exact repairLocationCtrl hty hc
  · have hp : Commanded inverterType
        (if s.servoStart = false then GndCtrl.stage { s with carNo := s.carNo + 1 }
          else { s with carNo := s.carNo + 1 }) := by
      split_ifs
      · exact stage hc
      · exact hc
    exact ⟨hp.type, hp.dma2, hp.dma4⟩

theorem sensor2 (tim2 : U16) : Commanded inverterType (timExtiProcess 2 tim2 s) := by
  rw [sensor2_eq]
  split_ifs
  · exact h
  · rcases measure_cases 2 tim2 s with ⟨-, -, -, e⟩ | ⟨-, -, -, e⟩ | e <;> rw [e]
    · have hp := fwPIDctrl hty h (50 * (s.count tim2).toNat)
      exact ⟨hp.type, hp.dma2, hp.dma4⟩
    · exact ⟨h.type, h.dma2, h.dma4⟩
    · exact ⟨h.type, h.dma2, h.dma4⟩
  · exact ⟨h.type, h.dma2, h.dma4⟩

/-- Every event of the drive but the reading of the records, which it is told of. -/
theorem step (e : Event F) (he : ∀ u, e ≠ .recordSent u) :
    Commanded inverterType (s.step e) := by
  cases e with
  | para m => exact ⟨h.type, h.dma2, h.dma4⟩
  | repair m =>
    obtain e | e := recvRepair_cases m s <;> rw [Drive.step, e]
    · have hm : Commanded inverterType { s with
          repairCarCmdData := m, repairLocateReal := repairTarget m, repairFlag := true } :=
        ⟨h.type, h.dma2, h.dma4⟩
      exact rs485Out hty hm _
    · exact ⟨h.type, h.dma2, h.dma4⟩
  | sensor1 tim2 => exact sensor1 hty h tim2
  | sensor2 tim2 => exact sensor2 hty h tim2
  | carReset => exact ⟨h.type, h.dma2, h.dma4⟩
  | recordSent u => exact absurd rfl (he u)
  | second =>
    obtain e | e := second_cases s <;> rw [Drive.step, e]
    · exact h
    · exact rs485Out hty h _
  | tim2Update =>
    obtain ⟨-, e⟩ | ⟨-, e⟩ := tim2Update_cases s <;> rw [Drive.step, e] <;>
      exact ⟨h.type, h.dma2, h.dma4⟩

end Commanded

/-! ## Runs of the firmware -/

omit [CNum F] in
theorem sendMessage_dma (t : U16) (s : Sys F) :
    (sendMessage t s).drive.uart.dma2 = s.drive.uart.dma2 ∧
      (sendMessage t s).drive.uart.dma4 = s.drive.uart.dma4 := by
  have h := sendMessage_switched t s
  generalize sendMessage t s = x at h ⊢
  cases h <;> exact ⟨rfl, rfl⟩

omit [CNum F] in
theorem sendMessageToSever_dma (s : Sys F) :
    (sendMessageToSever s).drive.uart.dma2 = s.drive.uart.dma2 ∧
      (sendMessageToSever s).drive.uart.dma4 = s.drive.uart.dma4 := by
  rw [sendMessageToSever_eq]
  split_ifs
  · exact ⟨rfl, rfl⟩
  · exact sendMessage_dma (token s) (popped s)

omit [CNum F] in
theorem irqEvents_ne (i : Irq) (u : Uart) : .recordSent u ∉ (irqEvents i : List (Event F)) := by
  cases i with
  | exti4 pin tim2 junk => simp only [irqEvents]; split_ifs <;> simp
  | exti95 in7 in10 tim2 => simp only [irqEvents]; split_ifs <;> simp
  | _ => simp [irqEvents]

theorem messageEvents_ne (point : Mem) (len : ℕ) (u : Uart) :
    .recordSent u ∉ (messageEvents point len : List (Event F)) := by
  unfold messageEvents
  split_ifs <;> simp

/-- The encoders leave the frames sent so far; no other step tells the drive of them. -/
theorem events_cases (s : Sys F) (i : Input) :
    (∃ u, s.events i = [.recordSent u] ∧ u.dma2 = s.drive.uart.dma2 ∧
        u.dma4 = s.drive.uart.dma4) ∨
      ∀ u, .recordSent u ∉ s.events i := by
  cases i with
  | irq e =>
    refine .inr fun u => ?_
    simp only [Sys.events]
    split_ifs
    · exact List.not_mem_nil
    · exact irqEvents_ne e u
  | main env =>
    cases hp : s.pc with
    | send =>
      obtain ⟨h2, h4⟩ := sendMessageToSever_dma s
      exact .inl ⟨_, by simp only [Sys.events, hp], h2, h4⟩
    | client i =>
      refine .inr fun u => ?_
      simp only [Sys.events, hp]
      split_ifs
      · exact messageEvents_ne _ _ u
      · exact List.not_mem_nil
    | sec =>
      refine .inr fun u => ?_
      simp only [Sys.events, hp]
      split_ifs <;> simp
    | _ => exact .inr fun u => by simp only [Sys.events, hp]; exact List.not_mem_nil

theorem commanded_step {inverterType : U8} (hty : inverterType ≤ 4) (s : Sys F) (i : Input)
    (h : Commanded inverterType s.drive) : Commanded inverterType (s.step i).drive := by
  rw [drive_step]
  obtain ⟨u, e, h2, h4⟩ | hne := events_cases s i
  · rw [e]
    exact ⟨h.type, h2.trans h.dma2, h4.trans h.dma4⟩
  · refine run_inv_of (K := fun e => ∀ u, e ≠ .recordSent u) ?_ _ ?_ h
    · exact fun d e he hd => hd.step hty e he
    · exact fun e he u hu => hne u (hu ▸ he)

/-- **The inverters follow the drive.**  After every run, an inverter that has
    received one of the lines has the word of the last output in its speed register
    (with the control word of type 2), and nothing else was written; its speed is the
    frequency put out, up to the limit of the outputs.  Interrupts are taken between
    the operations of the main loop here; within one, two frames can be mixed (see
    `servoFreqSet` in GndCtrl.Preemption). -/
theorem inverter_follows (inverterType station : U8) (hty : inverterType ≤ 4)
    (hst : inverterType = 2 → station = 1) (registers : U16 → U16) (es : List Input) :
    let d := (run Sys.step (Sys.init inverterType : Sys F) es).drive
    (∀ line ∈ [d.uart.dma2, d.uart.dma4],
      let after := line.foldl (receive crcModbus station) registers
      ∀ r, after r = d.rs485.getLast?.elim (registers r) fun v =>
        if r = speedRegister inverterType then servoWord inverterType (BitVec.ofInt 16 v)
        else if inverterType = 2 ∧ r = 0x0063 then 0x047F
        else registers r) ∧
    ∀ hz ≤ fwOutHzMax, speedHz inverterType (servoWord inverterType hz) = hz.toNat := by
  intro d
  have hd : Commanded inverterType d :=
    run_inv (I := fun s : Sys F => Commanded inverterType s.drive) (commanded_step hty) es
      ⟨rfl, rfl, rfl⟩
  have hafter : (d.rs485.map fun v =>
      (speedRequest inverterType (BitVec.ofInt 16 v)).encode crcModbus).foldl
        (receive crcModbus station) registers =
      d.rs485.getLast?.elim registers fun v =>
        (speedRequest inverterType (BitVec.ofInt 16 v)).request.apply registers :=
    foldl_receive crcModbus (fun _ => speedRequest_fits _ _)
      (fun _ => speedRequest_station hst _) (fun v w => apply_apply _ _ _) registers d.rs485
  refine ⟨?_, fun hz h => speedHz_servoWord inverterType h⟩
  intro line hline after r
  have hmap : line = d.rs485.map fun v =>
      (speedRequest inverterType (BitVec.ofInt 16 v)).encode crcModbus := by
    rcases List.mem_pair.1 hline with rfl | rfl
    · exact hd.dma2
    · exact hd.dma4
  have hfold : after = d.rs485.getLast?.elim registers fun v =>
      (speedRequest inverterType (BitVec.ofInt 16 v)).request.apply registers := by
    rw [← hafter, ← hmap]
  rw [hfold]
  cases d.rs485.getLast? with
  | none => rfl
  | some v => exact apply_speedRequest inverterType _ registers r

/-- An inverter of type 2 is sent the frequency 0 after the first second. -/
theorem inverter_follows_second :
    let es : List Input :=
      List.replicate 100 (.irq .sysTick) ++ List.replicate 20 (.main (.up none))
    let d := (run Sys.step (Sys.init 2 : Sys Num) es).drive
    (∀ line ∈ [d.uart.dma2, d.uart.dma4],
      let after := line.foldl (receive crcModbus 1) fun _ => 0
      ∀ r, after r = d.rs485.getLast?.elim 0 fun v =>
        if r = speedRegister 2 then servoWord 2 (BitVec.ofInt 16 v)
        else if (2 : U8) = 2 ∧ r = 0x0063 then 0x047F
        else 0) ∧
    ∀ hz ≤ fwOutHzMax, speedHz 2 (servoWord 2 hz) = hz.toNat :=
  inverter_follows 2 1 (by decide) (fun _ => rfl) (fun _ => 0) _

end GndCtrl
