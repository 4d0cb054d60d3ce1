/-
  The state of the firmware: the drive, the queues of fun.c, the car functions,
  the four UDP slots and the position in the main loop.

  `log` is a history the proofs speak about: the nodes of the sensor, the
  records taken for interval frames, the messages given to a handler, the boot
  actions, the frames committed for sending and those given to `udp_send`.
-/
import Mathlib.Data.Fintype.Basic
import Mathlib.Logic.Function.Basic
import GndCtrl.Drive
import GndCtrl.Lib.Queue

namespace GndCtrl

/-! ## fun.c and main.c -/

/-- `msgSendQueueSize` -/
abbrev msgSendQueueSize : ℕ := 100
/-- `INTERVAL_QUEUE_LEN` -/
abbrev intervalQueueLen : ℕ := 20
/-- `GND_STATE_LEN` -/
abbrev gndStateLen : ℕ := 20
/-- `HEART_DELAY` -/
abbrev heartDelay : U8 := 5

/-- The variables of fun.c, and those of main.c that the messages use. -/
structure Msg where
  msgSendQueue : Queue U16 msgSendQueueSize
  gnd2WcsIntervalQueue : Queue IntervalData intervalQueueLen
  gndstatequeue : Queue StateNode gndStateLen
  recvGndposCnt : U16
  pregndposnod : StateNode
  carfunint : IntervalData
  usart2Sentcount : U16
  usart4Sentcount : U16
  positionreset : U16
  heartDely : U8
  intervalMsFlag : U16
  msgSendDelay : U8
  version : List U8
  secReg : U16
  secFlag : Bool

/-! ## carfun.c, carfuntwo.c, carfunthree.c -/

/-- `carSendQueueSize` and its copies -/
abbrev carSendQueueSize : ℕ := 50

/-- The variables of the car functions. -/
structure Cars where
  carSendQueue : Queue U16 carSendQueueSize
  cartwoSendQueue : Queue U16 carSendQueueSize
  carthreeSendQueue : Queue U16 carSendQueueSize
  gndThreemsg : Mem
  gndThreeDebug : Mem

/-! ## TCPclient.c -/

/-- Four slots, and four bytes in an address. -/
instance neZeroFour : NeZero (4 : ℕ) := ⟨by decide⟩

/-- `TCP_RECEV_BUFF_SIZE` -/
abbrev tcpRecevBuffSize : ℕ := 1500

/-- `tcp_client_statue` -/
inductive Statue where
  | disConnect
  | connectOk
  | connectRecv
  | reConnect
  deriving DecidableEq

/-- An address of IPv4, in network order, with a port. -/
structure Endpoint where
  addr : U32
  port : U16
  deriving DecidableEq

/-- A UDP control block: the endpoint it is connected to, and whether the
    receive callback is set. -/
structure UdpPcb where
  remote : Option Endpoint
  recv : Bool
  deriving DecidableEq

/-- `struct tcp_client_table` -/
structure TcpClientTable where
  tcpRecevBuf : Mem
  tcpSendBuf : Mem
  tcpSendEn : Bool
  tcpRecevLen : ℕ
  tcpSendLen : ℕ
  tcpClientStatue : Statue
  echoclientPcb : Option UdpPcb
  destIp : Fin 4 → U8
  destPort : U16
  connectIsOk : Bool

/-- The frame in the send buffer. -/
def TcpClientTable.frame (c : TcpClientTable) : List U8 := c.tcpSendBuf.bytes c.tcpSendLen

/-! ## The whole -/

/-- What the history records. -/
inductive Obs where
  /-- a node of the position sensor, with the number of nodes pending then -/
  | sensor (node : StateNode) (pending : ℕ)
  /-- a record taken from `gnd2WcsIntervalQueue` -/
  | interval (record : IntervalData)
  /-- the call of a slot's message handler -/
  | handle (slot : Fin 4) (data : List U8)
  /-- `BKP_DR8 := 0x55` and `NVIC_SystemReset` -/
  | boot (slot : Fin 4) (data : List U8)
  /-- `tcp_send_en := 1` for a message type -/
  | commit (slot : Fin 4) (type : U16) (frame : List U8)
  /-- `udp_send` -/
  | send (slot : Fin 4) (frame : List U8)
  deriving DecidableEq

/-- The next operation of the main loop. -/
inductive Pc where
  /-- `Ethernet_Configuration`, or the test of `EthInitStatus` -/
  | link
  /-- `LwIP_Pkt_Handle` -/
  | rx
  /-- the block of `udp_client_process` for a slot -/
  | client (slot : Fin 4)
  /-- `send_message_to_sever` -/
  | send
  /-- `fun_gnd2wcs_state_msg` -/
  | state
  /-- `carsend_message_to_sever` -/
  | car
  /-- `carthreesend_message_to_sever` -/
  | carthree
  /-- `cartwosend_message_to_sever` -/
  | cartwo
  /-- `sec_process` -/
  | sec
  /-- inside the loop of `udp_receive_callback`, which does not end -/
  | hang
  /-- after `NVIC_SystemReset` -/
  | reset
  deriving DecidableEq

/-- The state of the firmware. -/
structure Sys (F : Type) where
  drive : Drive F
  msg : Msg
  cars : Cars
  tcpClientList : Fin 4 → TcpClientTable
  ethInitStatus : Bool
  pc : Pc
  log : List Obs

namespace Sys
variable {F : Type}

/-- Assignments to the fields of one slot. -/
def setSlot (s : Sys F) (i : Fin 4) (f : TcpClientTable → TcpClientTable) : Sys F :=
  { s with tcpClientList := Function.update s.tcpClientList i (f (s.tcpClientList i)) }

/-- Another entry of the history. -/
def note (s : Sys F) (o : Obs) : Sys F := { s with log := s.log ++ [o] }

variable (s : Sys F) (i j : Fin 4) (f : TcpClientTable → TcpClientTable) (o : Obs)

@[simp] theorem setSlot_drive : (s.setSlot i f).drive = s.drive := rfl
@[simp] theorem setSlot_msg : (s.setSlot i f).msg = s.msg := rfl
@[simp] theorem setSlot_cars : (s.setSlot i f).cars = s.cars := rfl
@[simp] theorem setSlot_ethInitStatus : (s.setSlot i f).ethInitStatus = s.ethInitStatus := rfl
@[simp] theorem setSlot_pc : (s.setSlot i f).pc = s.pc := rfl
@[simp] theorem setSlot_log : (s.setSlot i f).log = s.log := rfl

@[simp] theorem setSlot_self : (s.setSlot i f).tcpClientList i = f (s.tcpClientList i) := by
  simp [setSlot]

theorem setSlot_ne {i j : Fin 4} (h : j ≠ i) :
    (s.setSlot i f).tcpClientList j = s.tcpClientList j := by
  simp [setSlot, h]

@[simp] theorem note_drive : (s.note o).drive = s.drive := rfl
@[simp] theorem note_msg : (s.note o).msg = s.msg := rfl
@[simp] theorem note_cars : (s.note o).cars = s.cars := rfl
@[simp] theorem note_tcpClientList : (s.note o).tcpClientList = s.tcpClientList := rfl
@[simp] theorem note_ethInitStatus : (s.note o).ethInitStatus = s.ethInitStatus := rfl
@[simp] theorem note_pc : (s.note o).pc = s.pc := rfl
@[simp] theorem note_log : (s.note o).log = s.log ++ [o] := rfl

end Sys

end GndCtrl
