/-
  Message handling and message production (fun.c, carfun.c, carfuntwo.c,
  carfunthree.c).

  The four receivers differ in their validator and in the messages they act on;
  all of them obey the boot command.  The four senders take one token from
  their queue, build its frame in the send buffer of their slot and commit it.
-/
import GndCtrl.Frame

namespace GndCtrl

open CNum CFloat

variable {F : Type}

/-! ## Tokens -/

/-- `AddSendMsgToQueue` -/
def addSendMsgToQueue (msg : U16) (s : Sys F) : Sys F :=
  { s with msg := { s.msg with msgSendQueue := s.msg.msgSendQueue.enQueue msg } }

/-- `carAddSendMsgToQueue` -/
def carAddSendMsgToQueue (msg : U16) (s : Sys F) : Sys F :=
  { s with cars := { s.cars with carSendQueue := s.cars.carSendQueue.enQueue msg } }

/-- `carthreeAddSendMsgToQueue` -/
def carthreeAddSendMsgToQueue (msg : U16) (s : Sys F) : Sys F :=
  { s with cars := { s.cars with carthreeSendQueue := s.cars.carthreeSendQueue.enQueue msg } }

/-- `GetSendMsgFromQueue` -/
def getSendMsgFromQueue (s : Sys F) : U16 × Sys F :=
  let r := s.msg.msgSendQueue.outQueue
  (r.1.getD 0, { s with msg := { s.msg with msgSendQueue := r.2 } })

/-- `carGetSendMsgFromQueue` -/
def carGetSendMsgFromQueue (s : Sys F) : U16 × Sys F :=
  let r := s.cars.carSendQueue.outQueue
  (r.1.getD 0, { s with cars := { s.cars with carSendQueue := r.2 } })

/-- `cartwoGetSendMsgFromQueue` -/
def cartwoGetSendMsgFromQueue (s : Sys F) : U16 × Sys F :=
  let r := s.cars.cartwoSendQueue.outQueue
  (r.1.getD 0, { s with cars := { s.cars with cartwoSendQueue := r.2 } })

/-- `carthreeGetSendMsgFromQueue` -/
def carthreeGetSendMsgFromQueue (s : Sys F) : U16 × Sys F :=
  let r := s.cars.carthreeSendQueue.outQueue
  (r.1.getD 0, { s with cars := { s.cars with carthreeSendQueue := r.2 } })

/-! ## Receivers -/

/-- The boot command: write the backup register and reset. -/
def bootReset (slot : Fin 4) (data : List U8) (s : Sys F) : Sys F :=
  { s.note (.boot slot data) with pc := .reset }

section
variable {D : Type} [CNum F] [CNum D] [CFloat F D]

/-- `recv_msg_process`; `data` is the message for the history. -/
def recvMsgProcess (point : Mem) (data : List U8) (s : Sys F) : Sys F :=
  let msgType := point.u16 9
  if msgType = recvMsgBootCmdType then bootReset 0 data s
  else if msgType = recvMsgWcs2gndctrlParaType then
    let s := { s with drive := recvPara (ParaData.read point) s.drive }
    addSendMsgToQueue replyWcsGndVersionType
      (addSendMsgToQueue replyRecvMsgWcs2gndctrlParaType s)
  else if msgType = recvMsgRepairCarCmdType then
    let s := { s with drive := recvRepair (RepairCarCmdData.read point) s.drive }
    addSendMsgToQueue replyRecvMsgRepairCarCmdType s
  else if msgType = replySendMsgGndctrl2wcsCmdType then
    { s with msg := { s.msg with recvGndposCnt := 0 } }
  else s

/-- `recv_message_from_sever`; returns `*len` and the state. -/
def recvMessageFromSever (point : Mem) (len : ℕ) (s : Sys F) : ℕ × Sys F :=
  if recvMsgCheck point len then (0, recvMsgProcess point (point.bytes len) s) else (0, s)

end

/-- The handlers of the car slots: only the boot command has an effect. -/
def carMsgProcess (slot : Fin 4) (point : Mem) (data : List U8) (s : Sys F) : Sys F :=
  if point.u16 9 = recvMsgBootCmdType then bootReset slot data s else s

/-- `carrecv_msg_process` -/
def carrecvMsgProcess : Mem → List U8 → Sys F → Sys F := carMsgProcess 1

/-- `cartworecv_msg_process` -/
def cartworecvMsgProcess : Mem → List U8 → Sys F → Sys F := carMsgProcess 2

/-- `carthreerecv_msg_process` -/
def carthreerecvMsgProcess : Mem → List U8 → Sys F → Sys F := carMsgProcess 3

/-- `carrecv_message_from_sever` -/
def carrecvMessageFromSever (point : Mem) (len : ℕ) (s : Sys F) : ℕ × Sys F :=
  if carrecvMsgCheck point len then (0, carrecvMsgProcess point (point.bytes len) s) else (0, s)

/-- `cartworecv_message_from_sever` -/
def cartworecvMessageFromSever (point : Mem) (len : ℕ) (s : Sys F) : ℕ × Sys F :=
  if cartworecvMsgCheck point len then (0, cartworecvMsgProcess point (point.bytes len) s)
  else (0, s)

/-- `carthreerecv_message_from_sever` -/
def carthreerecvMessageFromSever (point : Mem) (len : ℕ) (s : Sys F) : ℕ × Sys F :=
  if carthreerecvMsgCheck point len then (0, carthreerecvMsgProcess point (point.bytes len) s)
  else (0, s)

/-! ## Encoders that use the state -/

/-- `send_msg_gndctrl2wcs_cmd`; nothing if the queue is empty, where the source
    reads through a null pointer. -/
def sendMsgGndctrl2wcsCmd (buf : Mem) (type : U16) (s : Sys F) : Option ((Mem × ℕ) × Sys F) :=
  let q := s.msg.gndstatequeue.outQueue
  q.1.map fun node =>
    let r := encode (cmdPayload node) buf type
    let s := { s with
      msg := { s.msg with gndstatequeue := q.2, pregndposnod := node }
      cars := { s.cars with
        gndThreemsg := s.cars.gndThreemsg.putList 0 ((List.range 10).map fun j => r.1 (11 + j)) } }
    (r, carthreeAddSendMsgToQueue sendMsgGndctrl2wcsCmdType s)

/-- `send_msg_gndctrl2wcs_cmd_interval_data`; it returns early if there is no
    record, with the buffer and `*len` as they were. -/
def sendMsgGndctrl2wcsCmdIntervalData (buf : Mem) (len : ℕ) (type : U16) (s : Sys F) :
    (Mem × ℕ) × Sys F :=
  let q := s.msg.gnd2WcsIntervalQueue.outQueue
  match q.1 with
  | none => ((buf, len), s)
  | some record =>
    let r := encode (intervalPayload record) buf type
    let s := { s with
      msg := { s.msg with gnd2WcsIntervalQueue := q.2, carfunint := record, positionreset := 30 }
      cars := { s.cars with
        gndThreeDebug :=
          s.cars.gndThreeDebug.putList 0 ((List.range 6).map fun j => r.1 (11 + j)) } }
    (r, (carAddSendMsgToQueue carMsgGndctrl2wcsCmdIntervalType s).note (.interval record))

/-- `send_msg_uart_two_data` -/
def sendMsgUartTwoData (buf : Mem) (type : U16) (s : Sys F) : (Mem × ℕ) × Sys F :=
  let (r, u, n) := sendMsgUart s.drive.uart.uart2 s.msg.usart2Sentcount buf type
  (r, { s with
    drive := { s.drive with uart := { s.drive.uart with uart2 := u } }
    msg := { s.msg with usart2Sentcount := n } })

/-- `send_msg_uart_four_data` -/
def sendMsgUartFourData (buf : Mem) (type : U16) (s : Sys F) : (Mem × ℕ) × Sys F :=
  let (r, u, n) := sendMsgUart s.drive.uart.uart4 s.msg.usart4Sentcount buf type
  (r, { s with
    drive := { s.drive with uart := { s.drive.uart with uart4 := u } }
    msg := { s.msg with usart4Sentcount := n } })

/-! ## Senders -/

/-- What the encoder left in the send buffer, and `tcp_send_en = 1`. -/
def commit (slot : Fin 4) (type : U16) (r : Mem × ℕ) (s : Sys F) : Sys F :=
  let s := s.setSlot slot fun c =>
    { c with tcpSendBuf := r.1, tcpSendLen := r.2, tcpSendEn := true }
  s.note (.commit slot type (s.tcpClientList slot).frame)

/-- The `switch` of `send_message_to_sever`. -/
def sendMessage (msgType : U16) (s : Sys F) : Sys F :=
  let buf := (s.tcpClientList 0).tcpSendBuf
  let len := (s.tcpClientList 0).tcpSendLen
  if msgType = replyRecvMsgWcs2gndctrlParaType then
    commit 0 msgType (replyRecvMsg buf msgType) s
  else if msgType = sendMsgGndctrl2wcsCmdType then
    if s.msg.gndstatequeue.empty then s
    else match sendMsgGndctrl2wcsCmd buf msgType s with
      | none => s
      | some (r, s) => commit 0 msgType r s
  else if msgType = sendMsgGndctrl2wcsCmdIntervalType then
    let (r, s) := sendMsgGndctrl2wcsCmdIntervalData buf len msgType s
    commit 0 msgType r s
  else if msgType = replyRecvMsgRepairCarCmdType then
    commit 0 msgType (replyRecvMsg buf msgType) s
  else if msgType = replyWcsGndVersionType then
    commit 0 msgType (sendMsgGndVersionType s.msg.version buf msgType) s
  else if msgType = sendUart2Msg then
    let (r, s) := sendMsgUartTwoData buf msgType s
    commit 0 msgType r s
  else if msgType = sendUart4Msg then
    let (r, s) := sendMsgUartFourData buf msgType s
    commit 0 msgType r s
  else if (s.tcpClientList 0).tcpClientStatue = .connectOk ∧ s.msg.heartDely = 0 then
    let s := commit 0 heartMsgType (sendHeartMsg buf heartMsgType) s
    { s with msg := { s.msg with heartDely := heartDelay } }
  else s

/-- `send_message_to_sever` -/
def sendMessageToSever (s : Sys F) : Sys F :=
  if (s.tcpClientList 0).tcpSendEn then s
  else
    let (msgType, s) := getSendMsgFromQueue s
    sendMessage msgType s

/-- `fun_gnd2wcs_state_msg` -/
def funGnd2wcsStateMsg (s : Sys F) : Sys F :=
  if s.msg.gndstatequeue.empty then s else addSendMsgToQueue sendMsgGndctrl2wcsCmdType s

/-- `carsend_message_to_sever` -/
def carsendMessageToSever (s : Sys F) : Sys F :=
  if (s.tcpClientList 1).tcpSendEn then s
  else
    let (msgType, s) := carGetSendMsgFromQueue s
    if msgType = carMsgGndctrl2wcsCmdIntervalType then
      commit 1 msgType
        (carsendMsgIntervalData s.msg.carfunint (s.tcpClientList 1).tcpSendBuf msgType) s
    else s

/-- `cartwosend_message_to_sever` -/
def cartwosendMessageToSever (s : Sys F) : Sys F :=
  if (s.tcpClientList 2).tcpSendEn then s
  else
    let (msgType, s) := cartwoGetSendMsgFromQueue s
    if msgType = carMsgGndctrl2wcsCmdIntervalType then
      commit 2 msgType
        (cartwosendMsgIntervalData s.msg.carfunint (s.tcpClientList 2).tcpSendBuf msgType) s
    else s

/-- `carthreesend_message_to_sever` -/
def carthreesendMessageToSever (s : Sys F) : Sys F :=
  if (s.tcpClientList 3).tcpSendEn then s
  else
    let (msgType, s) := carthreeGetSendMsgFromQueue s
    let buf := (s.tcpClientList 3).tcpSendBuf
    if msgType = carMsgGndctrl2wcsCmdIntervalType then
      commit 3 msgType (carthreesendMsgIntervalData s.msg.carfunint buf msgType) s
    else if msgType = sendMsgGndctrl2wcsCmdType then
      commit 3 msgType (sendMsgGndthree2wcsCmd s.cars.gndThreemsg buf msgType) s
    else if msgType = sendMsgGndctrl2wcsCmdIntervalType then
      commit 3 msgType (sendMsgGndthree2wcsData s.cars.gndThreeDebug buf msgType) s
    else s

end GndCtrl
