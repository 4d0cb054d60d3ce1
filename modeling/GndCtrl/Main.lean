/-
  The interrupts (stm32f10x_it.c, `Time_Update`) and the main loop (main.c).

  The main loop is a machine that runs one operation at a time: `Pc` names the
  next one and `mainStep` runs it (`udp_client_process` is four of them, one for
  each slot).  An interrupt is taken between two operations.  So every list of
  inputs is a run of the firmware, from the state `Sys.init` in which `main`
  enters its loop; an `Env` gives what the network and the Ethernet controller
  do in an operation.
-/
import GndCtrl.TcpClient

namespace GndCtrl

open CNum CFloat

variable {F D : Type} [CNum F] [CNum D] [CFloat F D]

/-! ## Interrupts -/

/-- `EXT_DELAY` -/
abbrev extDelay : ℕ := 20

/-- The loop of an external interrupt: the pin is high in `EXT_DELAY` readings. -/
def held (pin : ℕ → Bool) : Bool := (List.range extDelay).all pin

/-- The interrupts. -/
inductive Irq where
  /-- EXTI4, with the readings of IN6, the counter of TIM2 and the content of
      an uninitialised local -/
  | exti4 (pin : ℕ → Bool) (tim2 : U16) (junk : U16)
  /-- EXTI9_5: the readings of IN7 and of IN10, for the lines that are pending -/
  | exti95 (in7 in10 : Option (ℕ → Bool)) (tim2 : U16)
  | tim2
  | tim3
  | sysTick

/-- The node of `EXTI4_IRQHandler`. -/
def stateNode (junk : U16) (s : Drive F) : StateNode :=
  let carNo := s.carNo + 1
  { speed := s.speed
    carnum := if carNo > 0 then carNo - 1 else junk
    servo := s.servoHz }

/-- The record of `EXTI4_IRQHandler`. -/
def intervalData (intervalMsFlag : U16) (s : Drive F) : IntervalData :=
  ⟨s.carNo, s.carNo + 1, intervalMsFlag⟩

/-- The messages of `EXTI4_IRQHandler`. -/
def sensorMsg (node : StateNode) (record : IntervalData) (m : Msg) : Msg :=
  { m with
    gndstatequeue := m.gndstatequeue.enQueue node
    recvGndposCnt := 50
    gnd2WcsIntervalQueue := m.gnd2WcsIntervalQueue.enQueue record
    msgSendQueue := (m.msgSendQueue.enQueue sendMsgGndctrl2wcsCmdIntervalType).enQueue
      sendMsgGndctrl2wcsCmdType
    intervalMsFlag := 0
    msgSendDelay := 10 }

/-- `EXTI4_IRQHandler` with the pin held. -/
def exti4 (tim2 junk : U16) (s : Sys F) : Sys F :=
  let node := stateNode junk s.drive
  let record := intervalData s.msg.intervalMsFlag s.drive
  let s := s.note (.sensor node s.msg.gndstatequeue.toList.length)
  { s with msg := sensorMsg node record s.msg, drive := sensor1 tim2 s.drive }

/-- `EXTI9_5_IRQHandler` -/
def exti95 (in7 in10 : Option (ℕ → Bool)) (tim2 : U16) (s : Sys F) : Sys F :=
  let s := if in7.any held then { s with drive := timExtiProcess 2 tim2 s.drive } else s
  if in10.any held then { s with drive := carReset s.drive } else s

/-- `x != 0; x--` for a counter. -/
def countDown (x : U16) : U16 := if x ≠ 0 then x - 1 else x

/-- `Time_Update`, without the clock of the stack. -/
def timeUpdate (s : Sys F) : Sys F :=
  let m := s.msg
  let secReg := countDown m.secReg
  let second := decide (m.secReg ≠ 0 ∧ secReg = 0)
  let positionreset := countDown m.positionreset
  let s := { s with msg := { m with
    secReg := if second then 1000 else secReg
    secFlag := if second then true else m.secFlag
    recvGndposCnt := countDown m.recvGndposCnt
    usart4Sentcount := countDown m.usart4Sentcount
    usart2Sentcount := countDown m.usart2Sentcount
    positionreset := positionreset } }
  if m.positionreset ≠ 0 ∧ positionreset = 0 then
    carAddSendMsgToQueue carMsgGndctrl2wcsCmdIntervalType s
  else s

/-- The handler of an interrupt. -/
def irq (s : Sys F) : Irq → Sys F
  | .exti4 pin tim2 junk => if held pin then exti4 tim2 junk s else s
  | .exti95 in7 in10 tim2 => exti95 in7 in10 tim2 s
  | .tim2 => { s with drive := tim2Update s.drive }
  | .tim3 =>
    if CNum.eq s.drive.wcs2GndParaData.speedTarget (ofInt 0) then s
    else { s with msg := { s.msg with intervalMsFlag := s.msg.intervalMsFlag + 1 } }
  | .sysTick => timeUpdate s

/-! ## The main loop -/

/-- What the surroundings do in one operation of the main loop. -/
structure Env extends Net where
  /-- `Ethernet_Configuration` brings the link up -/
  link : Bool
  /-- the datagram in the frame that `LwIP_Pkt_Handle` takes, if any -/
  rx : Option Datagram

/-- The link is up and every call succeeds. -/
def Env.up (rx : Option Datagram) : Env :=
  ⟨⟨fun _ => true, fun _ => true, fun _ => true⟩, true, rx⟩

/-- `sec_process` -/
def secProcess (s : Sys F) : Sys F :=
  if s.msg.secFlag then
    { s with
      msg := { s.msg with
        secFlag := false
        heartDely := if s.msg.heartDely ≠ 0 then s.msg.heartDely - 1 else s.msg.heartDely }
      drive := second s.drive }
  else s

/-- Go on to the next operation, unless the last one did not return. -/
def Sys.goto (pc : Pc) (s : Sys F) : Sys F :=
  if s.pc = .hang ∨ s.pc = .reset then s else { s with pc := pc }

/-- One operation of the main loop. -/
def mainStep (env : Env) (s : Sys F) : Sys F :=
  match s.pc with
  | .link =>
    if s.ethInitStatus then s.goto .rx
    else Sys.goto .sec { s with ethInitStatus := env.link }
  | .rx => (match env.rx with | some d => udpInput d s | none => s).goto (.client 0)
  | .client i => (clientSlot env.toNet i s).goto (if i = 3 then .send else .client (i + 1))
  | .send => (sendMessageToSever s).goto .state
  | .state => (funGnd2wcsStateMsg s).goto .car
  | .car => (carsendMessageToSever s).goto .carthree
  | .carthree => (carthreesendMessageToSever s).goto .cartwo
  | .cartwo => (cartwosendMessageToSever s).goto .sec
  | .sec => (secProcess s).goto .link
  | .hang => s
  | .reset => s

/-- An interrupt, or the next operation of the main loop. -/
inductive Input where
  | irq (i : Irq)
  | main (env : Env)

/-- One step of the firmware; after a reset it runs no more. -/
def Sys.step (s : Sys F) : Input → Sys F
  | .irq i => if s.pc = .reset then s else irq s i
  | .main env => mainStep env s

/-! ## Start-up -/

/-- The variables of fun.c when `main` enters its loop. -/
def Msg.init : Msg where
  msgSendQueue := .init (fun _ => 0) _ (by decide)
  gnd2WcsIntervalQueue := .init (fun _ => ⟨0, 0, 0⟩) _ (by decide)
  gndstatequeue := .init (fun _ => ⟨0, 0, 0⟩) _ (by decide)
  recvGndposCnt := 0
  pregndposnod := ⟨0, 0, 0⟩
  carfunint := ⟨0, 0, 0⟩
  usart2Sentcount := 0
  usart4Sentcount := 0
  positionreset := 0
  heartDely := 0
  intervalMsFlag := 0
  msgSendDelay := 10
  version := [13, 0, 0, 2]
  secReg := 100
  secFlag := false

/-- The variables of the car functions when `main` enters its loop. -/
def Cars.init : Cars where
  carSendQueue := .init (fun _ => 0) _ (by decide)
  cartwoSendQueue := .init (fun _ => 0) _ (by decide)
  carthreeSendQueue := .init (fun _ => 0) _ (by decide)
  gndThreemsg := fun _ => 0
  gndThreeDebug := fun _ => 0

/-- A slot when `main` enters its loop. -/
def TcpClientTable.init : TcpClientTable where
  tcpRecevBuf := fun _ => 0
  tcpSendBuf := fun _ => 0
  tcpSendEn := false
  tcpRecevLen := 0
  tcpSendLen := 0
  tcpClientStatue := .disConnect
  echoclientPcb := none
  destIp := fun _ => 0
  destPort := 0
  connectIsOk := false

/-- The firmware when `main` enters its loop; the inverter type is read from
    three switches. -/
def Sys.init (inverterType : U8) : Sys F where
  drive := Drive.init inverterType
  msg := Msg.init
  cars := Cars.init
  tcpClientList := fun _ => TcpClientTable.init
  ethInitStatus := false
  pc := .link
  log := []

end GndCtrl
