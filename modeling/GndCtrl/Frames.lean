/-
  Every frame of the firmware is accepted by its own validator and decodes to
  what it was built from.

  All encoders write a frame of `frameOf` (`encode_eq`, `replyRecvMsg_eq`,
  `sendHeartMsg_eq`), so `frameOf_spec` covers them; what is left for each is
  the layout of its payload.
-/
import GndCtrl.Fun

namespace GndCtrl

variable {F : Type}

/-- The buffer holds a frame of the given type with `n` bytes of payload, and nothing behind it: it
    is valid, and `*len` is its length. -/
def Accepted (r : Mem × ℕ) (type : U16) (n : ℕ) : Prop :=
  recvMsgCheck r.1 r.2 = true ∧ r.1.u16 9 = type ∧ r.2 = 11 + n

theorem encode_spec (payload : List U8) (buf : Mem) (type : U16) (h : payload.length ≤ 100) :
    Accepted (encode payload buf type) type payload.length ∧
      ∀ i < payload.length, (encode payload buf type).1 (11 + i) = payload.getD i 0 := by
  have hs := frameOf_spec 1 payload type buf (by omega)
  rw [encode_eq]
  exact ⟨⟨hs.1, hs.2.1, rfl⟩, hs.2.2⟩

theorem replyRecvMsg_accepted (buf : Mem) (type : U16) :
    Accepted (replyRecvMsg buf type) type 0 := by
  have hs := frameOf_spec 1 [] type buf (by simp)
  rw [replyRecvMsg_eq]
  exact ⟨hs.1, hs.2.1, rfl⟩

theorem sendHeartMsg_accepted (buf : Mem) (type : U16) :
    Accepted (sendHeartMsg buf type) type 0 := by
  have hs := frameOf_spec 0x00010002 [] type buf (by simp)
  rw [sendHeartMsg_eq]
  exact ⟨hs.1, hs.2.1, rfl⟩

section
variable {payload : List U8} (hp : payload.length ≤ 100) (buf : Mem) (type : U16)
include hp

/-- A 16-bit field of the payload. -/
theorem encode_u16 (k : ℕ) (hk : k + 1 < payload.length) :
    (encode payload buf type).1.u16 (11 + k) = le16 (payload.getD k 0) (payload.getD (k + 1) 0) := by
  have h := (encode_spec payload buf type hp).2
  rw [Mem.u16, h k (by omega), Nat.add_assoc, h (k + 1) hk]

/-- A 32-bit field of the payload. -/
theorem encode_u32 (k : ℕ) (hk : k + 3 < payload.length) :
    (encode payload buf type).1.u32 (11 + k) =
      le32 (payload.getD k 0) (payload.getD (k + 1) 0) (payload.getD (k + 2) 0)
        (payload.getD (k + 3) 0) := by
  have h := (encode_spec payload buf type hp).2
  simp only [Mem.u32, Nat.add_assoc]
  rw [h k (by omega), h (k + 1) (by omega), h (k + 2) (by omega), h (k + 3) hk]

end

/-- The payload of a speed report decodes to the node. -/
theorem cmdPayload_spec (node : StateNode) (buf : Mem) (type : U16) :
    let r := encode (cmdPayload node) buf type
    r.1.u32 11 = node.speed ∧ r.1.u16 15 = node.carnum ∧ r.1.u16 19 = node.servo := by
  have hp : (cmdPayload node).length ≤ 100 := by simp [cmdPayload]
  refine ⟨?_, ?_, ?_⟩
  · exact (encode_u32 hp buf type 0 (by simp [cmdPayload])).trans (le32_byte node.speed)
  · exact (encode_u16 hp buf type 4 (by simp [cmdPayload])).trans (le16_lo_hi node.carnum)
  · exact (encode_u16 hp buf type 8 (by simp [cmdPayload])).trans (le16_lo_hi node.servo)

/-- The payload of an interval report decodes to the record. -/
theorem intervalPayload_spec (record : IntervalData) (buf : Mem) (type : U16) :
    let r := encode (intervalPayload record) buf type
    r.1.u16 11 = record.preCarNum ∧ r.1.u16 13 = record.curCarNum ∧
      r.1.u16 15 = record.interval := by
  have hp : (intervalPayload record).length ≤ 100 := by simp [intervalPayload]
  refine ⟨?_, ?_, ?_⟩
  · exact (encode_u16 hp buf type 0 (by simp [intervalPayload])).trans (le16_lo_hi _)
  · exact (encode_u16 hp buf type 2 (by simp [intervalPayload])).trans (le16_lo_hi _)
  · exact (encode_u16 hp buf type 4 (by simp [intervalPayload])).trans (le16_lo_hi _)

/-- The payload of a car function's interval message. -/
theorem carPayload_spec (record : IntervalData) (buf : Mem) (type : U16) :
    let r := encode (carPayload record) buf type
    Accepted r type 4 ∧ r.1.u16 11 = record.curCarNum ∧ r.1.u16 13 = record.interval := by
  have hp : (carPayload record).length ≤ 100 := by simp [carPayload]
  refine ⟨(encode_spec _ buf type hp).1, ?_, ?_⟩
  · exact (encode_u16 hp buf type 0 (by simp [carPayload])).trans (le16_lo_hi _)
  · exact (encode_u16 hp buf type 2 (by simp [carPayload])).trans (le16_lo_hi _)

/-- A payload of copied bytes. -/
theorem encode_bytes (m : Mem) {n : ℕ} (hn : n ≤ 100) (buf : Mem) (type : U16) :
    let r := encode (m.bytes n) buf type
    Accepted r type n ∧ ∀ i < n, r.1 (11 + i) = m i := by
  obtain ⟨ha, h⟩ := encode_spec (m.bytes n) buf type (by simpa using hn)
  refine ⟨by simpa using ha, fun i hi => ?_⟩
  rw [h i (by simpa using hi)]
  simp [hi]

/-- The two UART messages, with bytes recorded and the send counter run out. -/
theorem sendMsgUart_spec (u : Line) (buf : Mem) (type : U16) (h1 : 1 ≤ u.recordLen)
    (h15 : u.recordLen ≤ 15) :
    let r := (sendMsgUart u 0 buf type).1
    Accepted r type u.recordLen ∧ ∀ i < u.recordLen, r.1 (11 + i) = u.recordBuff i := by
  have hr : (sendMsgUart u 0 buf type).1 = encode (u.recordBuff.bytes u.recordLen) buf type := by
    rw [sendMsgUart, if_neg (by omega), if_neg (by simp)]
  rw [hr]
  exact encode_bytes u.recordBuff (by omega) buf type

/-- `send_msg_gndctrl2wcs_cmd` takes the first node. -/
theorem sendMsgGndctrl2wcsCmd_eq {s : Sys F} {node : StateNode} {nodes : List StateNode}
    (h : s.msg.gndstatequeue.toList = node :: nodes) (buf : Mem) (type : U16) :
    ∃ s', sendMsgGndctrl2wcsCmd buf type s = some (encode (cmdPayload node) buf type, s') := by
  simp [sendMsgGndctrl2wcsCmd, h]

/-- `send_msg_gndctrl2wcs_cmd_interval_data` takes the first record. -/
theorem sendMsgGndctrl2wcsCmdIntervalData_fst {s : Sys F} {record : IntervalData}
    {records : List IntervalData} (h : s.msg.gnd2WcsIntervalQueue.toList = record :: records)
    (buf : Mem) (len : ℕ) (type : U16) :
    (sendMsgGndctrl2wcsCmdIntervalData buf len type s).1 =
      encode (intervalPayload record) buf type := by
  simp [sendMsgGndctrl2wcsCmdIntervalData, h]

/-- **Frames are accepted and decode back**, for every encoder, type and
    previous content of the buffer; the frame takes up all of `*len`. -/
theorem frames_accepted (buf : Mem) (len : ℕ) (type : U16) (s : Sys F) :
    Accepted (replyRecvMsg buf type) type 0 ∧
    Accepted (sendHeartMsg buf type) type 0 ∧
    (let r := sendMsgGndVersionType s.msg.version buf type
     Accepted r type 4 ∧ ∀ i < 4, r.1 (11 + i) = s.msg.version.getD i 0) ∧
    (∀ node nodes, s.msg.gndstatequeue.toList = node :: nodes →
      ∃ r s', sendMsgGndctrl2wcsCmd buf type s = some (r, s') ∧ Accepted r type 10 ∧
        r.1.u32 11 = node.speed ∧ r.1.u16 15 = node.carnum ∧ r.1.u16 19 = node.servo) ∧
    (∀ record records, s.msg.gnd2WcsIntervalQueue.toList = record :: records →
      let r := (sendMsgGndctrl2wcsCmdIntervalData buf len type s).1
      Accepted r type 6 ∧ r.1.u16 11 = record.preCarNum ∧ r.1.u16 13 = record.curCarNum ∧
        r.1.u16 15 = record.interval) ∧
    (1 ≤ s.drive.uart.uart2.recordLen → s.drive.uart.uart2.recordLen ≤ 15 →
      s.msg.usart2Sentcount = 0 →
      let r := (sendMsgUartTwoData buf type s).1
      Accepted r type s.drive.uart.uart2.recordLen ∧
        ∀ i < s.drive.uart.uart2.recordLen,
        r.1 (11 + i) = s.drive.uart.uart2.recordBuff i) ∧
    (1 ≤ s.drive.uart.uart4.recordLen → s.drive.uart.uart4.recordLen ≤ 15 →
      s.msg.usart4Sentcount = 0 →
      let r := (sendMsgUartFourData buf type s).1
      Accepted r type s.drive.uart.uart4.recordLen ∧
        ∀ i < s.drive.uart.uart4.recordLen,
        r.1 (11 + i) = s.drive.uart.uart4.recordBuff i) ∧
    (let r := carsendMsgIntervalData s.msg.carfunint buf type
     Accepted r type 4 ∧ r.1.u16 11 = s.msg.carfunint.curCarNum ∧
       r.1.u16 13 = s.msg.carfunint.interval) ∧
    (let r := cartwosendMsgIntervalData s.msg.carfunint buf type
     Accepted r type 4 ∧ r.1.u16 11 = s.msg.carfunint.curCarNum ∧
       r.1.u16 13 = s.msg.carfunint.interval) ∧
    (let r := carthreesendMsgIntervalData s.msg.carfunint buf type
     Accepted r type 4 ∧ r.1.u16 11 = s.msg.carfunint.curCarNum ∧
       r.1.u16 13 = s.msg.carfunint.interval) ∧
    (let r := sendMsgGndthree2wcsCmd s.cars.gndThreemsg buf type
     Accepted r type 10 ∧ ∀ i < 10, r.1 (11 + i) = s.cars.gndThreemsg i) ∧
    (let r := sendMsgGndthree2wcsData s.cars.gndThreeDebug buf type
     Accepted r type 6 ∧ ∀ i < 6, r.1 (11 + i) = s.cars.gndThreeDebug i) := by
  refine ⟨replyRecvMsg_accepted buf type, sendHeartMsg_accepted buf type, ?_, ?_, ?_, ?_, ?_,
    carPayload_spec _ buf type, carPayload_spec _ buf type, carPayload_spec _ buf type,
    encode_bytes _ (by omega) buf type, encode_bytes _ (by omega) buf type⟩
  · obtain ⟨ha, h⟩ := encode_spec [s.msg.version.getD 0 0, s.msg.version.getD 1 0,
      s.msg.version.getD 2 0, s.msg.version.getD 3 0] buf type (by simp)
    refine ⟨ha, fun i hi => (h i hi).trans ?_⟩
    interval_cases i <;> rfl
  · intro node nodes h
    obtain ⟨s', hs⟩ := sendMsgGndctrl2wcsCmd_eq h buf type
    exact ⟨_, s', hs, (encode_spec _ buf type (by simp [cmdPayload])).1,
      cmdPayload_spec node buf type⟩
  · intro record records h
    rw [sendMsgGndctrl2wcsCmdIntervalData_fst h buf len type]
    exact ⟨(encode_spec _ buf type (by simp [intervalPayload])).1,
      intervalPayload_spec record buf type⟩
  · intro h1 h15 h0
    have h := sendMsgUart_spec s.drive.uart.uart2 buf type h1 h15
    rw [← h0] at h
    exact h
  · intro h1 h15 h0
    have h := sendMsgUart_spec s.drive.uart.uart4 buf type h1 h15
    rw [← h0] at h
    exact h

end GndCtrl
