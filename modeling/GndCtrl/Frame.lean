/-
  Frames: the validators and the encoders (fun.c, carfun.c, carfuntwo.c,
  carfunthree.c).

  A frame is `AA AA`, an id, its length, a checksum over what follows, a type
  and a payload.  All encoders but two are copies of one, `encode`, with a
  payload of their own; `reply_recv_msg` and `send_heart_msg` write a frame
  without payload and compute the checksum directly.

  `bytes_encode` gives the bytes of an encoded frame, whatever was in the
  buffer before, and `encode_check` says that the validator takes it.
-/
import GndCtrl.Sys

namespace GndCtrl

/-! ## Validators -/

/-- The checksum loop: `point[9] ^ point[10] ^ … ^ point[9 + n]`. -/
def sumLoop (point : Mem) : ℕ → U8
  | 0 => point 9
  | n + 1 => sumLoop point n ^^^ point (9 + (n + 1))

/-- The tests all four validators make. -/
def headCheck (point : Mem) (len : ℕ) : Bool :=
  if point 0 ≠ 0xAA ∨ point 1 ≠ 0xAA then false
  else if (point.u16 6).toNat ≠ len then false
  else true

/-- `recv_msg_check` -/
def recvMsgCheck (point : Mem) (len : ℕ) : Bool :=
  -- the loop runs while `i < len - 9`, starting at `1`
  if headCheck point len then sumLoop point (len - 10) == point 8 else false

/-- `carrecv_msg_check`; the test of the checksum is commented out. -/
def carrecvMsgCheck (point : Mem) (len : ℕ) : Bool := headCheck point len

/-- `cartworecv_msg_check`; the test of the checksum is commented out. -/
def cartworecvMsgCheck (point : Mem) (len : ℕ) : Bool := headCheck point len

/-- `carthreerecv_msg_check`; the test of the checksum is commented out. -/
def carthreerecvMsgCheck (point : Mem) (len : ℕ) : Bool := headCheck point len

/-! ## Encoders -/

/-- The common encoder; returns the buffer and `*len`. -/
def encode (payload : List U8) (buf : Mem) (type : U16) : Mem × ℕ :=
  let sendlen := 11 + payload.length
  let n : U16 := BitVec.ofNat 16 sendlen
  let buf := (buf.putList 9 [lo type, hi type]).putList 11 payload
  let sum := sumLoop buf (sendlen - 10)
  (buf.putList 0 [0xAA, 0xAA, 0x01, 0x00, 0x00, 0x00, lo n, hi n, sum], sendlen)

/-- `reply_recv_msg` -/
def replyRecvMsg (buf : Mem) (type : U16) : Mem × ℕ :=
  (buf.putList 0 [0xAA, 0xAA, 0x01, 0x00, 0x00, 0x00, 0x0B, 0x00, lo type ^^^ hi type,
    lo type, hi type], 11)

/-- `send_heart_msg` -/
def sendHeartMsg (buf : Mem) (type : U16) : Mem × ℕ :=
  (buf.putList 0 [0xAA, 0xAA, 0x02, 0x00, 0x01, 0x00, 0x0B, 0x00, lo type ^^^ hi type,
    lo type, hi type], 11)

/-- The payload of `send_msg_gndctrl2wcs_cmd`. -/
def cmdPayload (node : StateNode) : List U8 :=
  [byte 0 node.speed, byte 1 node.speed, byte 2 node.speed, byte 3 node.speed,
   lo node.carnum, hi node.carnum, 0, 0, lo node.servo, hi node.servo]

/-- The payload of `send_msg_gndctrl2wcs_cmd_interval_data`. -/
def intervalPayload (r : IntervalData) : List U8 :=
  [lo r.preCarNum, hi r.preCarNum, lo r.curCarNum, hi r.curCarNum, lo r.interval, hi r.interval]

/-- The payload of the car functions' interval message. -/
def carPayload (r : IntervalData) : List U8 :=
  [lo r.curCarNum, hi r.curCarNum, lo r.interval, hi r.interval]

/-- `send_msg_gnd_version_type` -/
def sendMsgGndVersionType (version : List U8) (buf : Mem) (type : U16) : Mem × ℕ :=
  encode [version.getD 0 0, version.getD 1 0, version.getD 2 0, version.getD 3 0] buf type

/-- `carsend_msg_interval_data` -/
def carsendMsgIntervalData (carfunint : IntervalData) (buf : Mem) (type : U16) : Mem × ℕ :=
  encode (carPayload carfunint) buf type

/-- `cartwosend_msg_interval_data` -/
def cartwosendMsgIntervalData (carfunint : IntervalData) (buf : Mem) (type : U16) : Mem × ℕ :=
  encode (carPayload carfunint) buf type

/-- `carthreesend_msg_interval_data` -/
def carthreesendMsgIntervalData (carfunint : IntervalData) (buf : Mem) (type : U16) : Mem × ℕ :=
  encode (carPayload carfunint) buf type

/-- `send_msg_gndthree2wcs_cmd` -/
def sendMsgGndthree2wcsCmd (gndThreemsg : Mem) (buf : Mem) (type : U16) : Mem × ℕ :=
  encode (gndThreemsg.bytes 10) buf type

/-- `send_msg_gndthree2wcs_data` -/
def sendMsgGndthree2wcsData (gndThreeDebug : Mem) (buf : Mem) (type : U16) : Mem × ℕ :=
  encode (gndThreeDebug.bytes 6) buf type

/-- The body of `send_msg_uart_two_data` and `send_msg_uart_four_data`: nothing
    is sent without recorded bytes, or before the send counter has run out. -/
def sendMsgUart (u : Line) (sentcount : U16) (buf : Mem) (type : U16) :
    (Mem × ℕ) × Line × U16 :=
  if u.recordLen = 0 then ((buf, 0), u, sentcount)
  else if sentcount ≠ 0 then ((buf, 0), u, sentcount)
  else (encode (u.recordBuff.bytes u.recordLen) buf type, { u with recordLen := 0 }, 20)

/-! ## What an encoder writes -/

/-- A frame: the tag, the id, the length, the checksum, the type, the payload. -/
def frameOf (id : U32) (payload : List U8) (type : U16) : List U8 :=
  let n : U16 := BitVec.ofNat 16 (11 + payload.length)
  let body := lo type :: hi type :: payload
  [0xAA, 0xAA, byte 0 id, byte 1 id, byte 2 id, byte 3 id, lo n, hi n,
    body.foldl (· ^^^ ·) 0] ++ body

@[simp] theorem length_frameOf (id : U32) (payload : List U8) (type : U16) :
    (frameOf id payload type).length = 11 + payload.length := by
  simp [frameOf]; omega

theorem sumLoop_congr {m m' : Mem} {n : ℕ} (h : ∀ j, 9 ≤ j → j ≤ 9 + n → m j = m' j) :
    sumLoop m n = sumLoop m' n := by
  induction n with
  | zero => exact h 9 le_rfl (by omega)
  | succ n ih =>
    rw [sumLoop, sumLoop, ih fun j h1 h2 => h j h1 (by omega), h _ (by omega) le_rfl]

theorem sumLoop_eq (m : Mem) (n : ℕ) :
    sumLoop m n = ((List.range (n + 1)).map fun i => m (9 + i)).foldl (· ^^^ ·) 0 := by
  induction n with
  | zero => simp [sumLoop]
  | succ n ih =>
    rw [sumLoop, ih, List.range_succ (n := n + 1), List.map_append, List.foldl_append]
    rfl

/-- The checksum of a body written at offset 9. -/
theorem sumLoop_putList (m : Mem) {body : List U8} {n : ℕ} (h : body.length = n + 1) :
    sumLoop (m.putList 9 body) n = body.foldl (· ^^^ ·) 0 := by
  rw [sumLoop_eq, ← h]
  congr 1
  refine List.ext_getElem (by simp) fun i _ hi => ?_
  simp [Mem.putList_get body m 9 i hi]

/-- **The encoder writes the frame**, whatever the buffer held. -/
theorem encode_eq (payload : List U8) (buf : Mem) (type : U16) :
    encode payload buf type =
      (buf.putList 0 (frameOf 1 payload type), 11 + payload.length) := by
  have hb : (buf.putList 9 [lo type, hi type]).putList 11 payload =
      buf.putList 9 (lo type :: hi type :: payload) :=
    (Mem.putList_append [lo type, hi type] payload buf 9).symm
  have hs : sumLoop (buf.putList 9 (lo type :: hi type :: payload)) (11 + payload.length - 10) =
      (lo type :: hi type :: payload).foldl (· ^^^ ·) 0 :=
    sumLoop_putList buf (by simp; omega)
  simp only [encode, hb, hs]
  rw [frameOf, ← Mem.putList_swap]
  rfl

theorem replyRecvMsg_eq (buf : Mem) (type : U16) :
    replyRecvMsg buf type = (buf.putList 0 (frameOf 1 [] type), 11) := by
  simp [replyRecvMsg, frameOf, byte, lo, hi]

theorem sendHeartMsg_eq (buf : Mem) (type : U16) :
    sendHeartMsg buf type = (buf.putList 0 (frameOf 0x00010002 [] type), 11) := by
  simp [sendHeartMsg, frameOf, byte, lo, hi]

/-! ## What a validator reads -/

theorem headCheck_iff {point : Mem} {len : ℕ} : headCheck point len = true ↔
    point 0 = 0xAA ∧ point 1 = 0xAA ∧ (point.u16 6).toNat = len := by
  by_cases h0 : point 0 = 0xAA <;> by_cases h1 : point 1 = 0xAA <;>
    by_cases h2 : (point.u16 6).toNat = len <;> simp [headCheck, h0, h1, h2]

theorem recvMsgCheck_iff {point : Mem} {len : ℕ} : recvMsgCheck point len = true ↔
    headCheck point len = true ∧ sumLoop point (len - 10) = point 8 := by
  rw [recvMsgCheck]
  split_ifs with h
  · simp [h]
  · simp [h]

/-- A frame in a buffer is accepted, and gives back its type and payload. -/
theorem frameOf_spec (id : U32) (payload : List U8) (type : U16) (buf : Mem)
    (h : 11 + payload.length < 2 ^ 16) :
    let point := buf.putList 0 (frameOf id payload type)
    recvMsgCheck point (11 + payload.length) = true ∧ point.u16 9 = type ∧
      ∀ i < payload.length, point (11 + i) = payload.getD i 0 := by
  have hd : ∀ i < 11 + payload.length, buf.putList 0 (frameOf id payload type) i =
      (frameOf id payload type).getD i 0 := fun i hi =>
    Mem.putList_getD _ _ (by rw [length_frameOf]; exact hi)
  refine ⟨?_, ?_, ?_⟩
  · rw [recvMsgCheck_iff, headCheck_iff]
    refine ⟨⟨hd 0 (by omega), hd 1 (by omega), ?_⟩, ?_⟩
    · rw [Mem.u16, hd 6 (by omega), hd 7 (by omega)]
      simp only [frameOf, List.cons_append, List.getD_cons_succ, List.getD_cons_zero, le16_lo_hi]
      rw [BitVec.toNat_ofNat, Nat.mod_eq_of_lt h]
    · rw [hd 8 (by omega), show 11 + payload.length - 10 = payload.length + 1 by omega]
      have hp : buf.putList 0 (frameOf id payload type) =
          ((buf.putList 0 ((frameOf id payload type).take 9)).putList 9
            (lo type :: hi type :: payload)) :=
        Mem.putList_append ((frameOf id payload type).take 9) _ buf 0
      rw [hp, sumLoop_putList _ (by simp)]
      rfl
  · rw [Mem.u16, hd 9 (by omega), hd 10 (by omega)]
    simp only [frameOf, List.cons_append, List.getD_cons_succ, List.getD_cons_zero,
      List.nil_append, le16_lo_hi]
  · intro i hi
    rw [hd _ (by omega), Nat.add_comm]
    rfl

end GndCtrl
