/-
  The drive of the line (speed_ctrl.c, timExti.c and the drive variables of
  main.c): start-up staging, speed measurement, PID control and maintenance
  positioning.

  `Drive` holds the variables these functions share.  The values passed to
  `RS485_OUT` are recorded in `rs485`, oldest first; they go to the inverter
  through `servoFreqSet`.  In the same way `calls` records the arguments of the
  calls of `fwPIDctrl` and `speeds` the counts stored in `gnd2WcsCmdData.speed`.
  The counter of TIM2 is read by the sensor interrupts only and is an argument of
  theirs.

  `Event` lists what changes the drive: the two messages of the WCS, the two
  sensors, the car-number reset switch, the second tick, the overflow of TIM2
  and the reading of the lines' records; `Drive.step` is the code run for each.
-/
import GndCtrl.Usart
import GndCtrl.Lib.Run

namespace GndCtrl

open CNum CFloat

/-- The variables of speed_ctrl.c. -/
structure Pid (F : Type) where
  maxSpeed : F
  minSpeed : F
  fwKp : F
  fwKi : F
  fwKd : F
  speedTarget : F
  speedFactor : ℤ
  peDistance : ℤ
  /-- the last error `fwErr[0]` -/
  fwErr0 : F
  /-- the current error `fwErr[1]` -/
  fwErr1 : F
  fwErrD : F
  fwErrI : F
  fwbV : F
  fwbVLast : F
  fwHz : ℤ

/-- The variables of the drive. -/
structure Drive (F : Type) where
  pid : Pid F
  wcs2GndParaData : ParaData F
  repairCarCmdData : RepairCarCmdData
  /-- `gnd2WcsCmdData.carNo` -/
  carNo : U16
  /-- `gnd2WcsCmdData.speed` -/
  speed : U32
  fwInitHz : U16
  servoHz : U16
  servoStart : Bool
  resetFlag : Bool
  repairFlag : Bool
  repairLocateReal : U16
  inverterType : U8
  /-- `timExtiHandler.extid` -/
  extid : U16
  /-- `timExtiHandler.timCnt` -/
  timCnt : U16
  timUpdates : U32
  adjustStageFlag : Bool
  firstStageCnt : U16
  firstStageHz : U16
  secondStageCnt : U16
  secondStageHz : U16
  uart : Uart
  rs485 : List ℤ
  calls : List ℤ
  speeds : List U32

variable {F D : Type} [CNum F] [CNum D] [CFloat F D]

/-! ## speed_ctrl.c -/

/-- `fwOutHzMax` -/
abbrev fwOutHzMax : U16 := 5000

/-- `fwErrIMax` -/
def fwErrIMax : D := lit (1 / 4)

/-- `RS485_OUT` -/
def rs485Out (val : ℤ) (s : Drive F) : Drive F :=
  { s with
    servoHz := BitVec.ofInt 16 val
    uart := servoFreqSet s.inverterType (BitVec.ofInt 16 val) s.uart
    rs485 := s.rs485 ++ [val] }

/-- `fwInitServo`; its result is left in `firstStageHz`. -/
def fwInitServo (s : Drive F) : Drive F :=
  let p := s.wcs2GndParaData
  let hz : U16 := BitVec.ofInt 16 (toInt (p.speedTarget * ofInt p.speedFactor.toInt))
  let firstStageHz := if hz > fwOutHzMax then fwOutHzMax else hz
  { s with
    adjustStageFlag := false
    firstStageCnt := 0
    secondStageCnt := 0
    firstStageHz := firstStageHz
    secondStageHz := p.standardHz
    pid :=
      { maxSpeed := p.maxSpeed
        minSpeed := p.minSpeed
        fwKp := ofInt p.fwKp.toNat
        fwKi := ofInt p.fwKi.toNat
        fwKd := ofInt p.fwKd.toNat
        speedTarget := p.speedTarget
        speedFactor := p.speedFactor.toInt
        peDistance := p.peDistance.toInt
        fwErr0 := ofInt 0
        fwErr1 := ofInt 0
        fwErrD := ofInt 0
        fwErrI := ofInt 0
        fwbV := ofInt 0
        fwbVLast := ofInt 0
        fwHz := if p.standardHz = 0 then firstStageHz.toNat else p.standardHz.toNat } }

/-- The last test of `fwErrCalculate`: the error changed its sign. -/
def Pid.zeroCross (p : Pid F) : Pid F :=
  if CNum.lt (p.fwErr0 * p.fwErr1) (ofInt 0) then { p with fwErrI := ofInt 0 } else p

/-- The differential error of `fwErrCalculate`. -/
def errD (err0 err1 : F) : F :=
  let d := err1 - err0
  let d := if CNum.lt (lit (1 / 10)) (CNum.abs (widen d)) then ofInt 0 else d
  if CNum.eq err0 (ofInt 0) || CNum.eq err0 err1 then ofInt 0 else d

/-- The integral error after adding `err`, limited to `fwErrIMax`. -/
def errI (errI err : F) : F :=
  let i := errI + err
  if CNum.le fwErrIMax (CNum.abs (widen i)) then
    if CNum.lt (ofInt 0) i then narrow (lit (1 / 4)) else narrow (lit (-(1 / 4)))
  else i

/-- `fwErrCalculate` -/
def fwErrCalculate (peTime : ℤ) (p : Pid F) : Pid F :=
  let fwbV := ofInt p.peDistance / ofInt peTime
  let err0 := p.fwErr1
  let err1 := p.speedTarget - fwbV
  let p := { p with fwbV := fwbV, fwErr0 := err0, fwErr1 := err1, fwErrD := errD err0 err1 }
  if CNum.le (CNum.abs (widen err1)) fwErrIMax then
    -- the saturated integral is kept: this path returns before the last test
    if CNum.le (CNum.abs fwErrIMax) (CNum.abs (widen p.fwErrI)) &&
        CNum.lt (ofInt 0) (p.fwErrI * err1) then p
    else Pid.zeroCross { p with fwErrI := errI p.fwErrI err1 }
  else Pid.zeroCross { p with fwErrI := ofInt 0 }

/-- The proportional gain for a negative error. -/
def pidGain (err : F) : Option D :=
  let e := widen err
  if CNum.lt e (lit (-(1 / 2))) then some (lit 20)
  else if CNum.lt e (lit (-(3 / 10))) then some (lit 15)
  else if CNum.lt e (lit (-(1 / 5))) then some (lit 2)
  else if CNum.lt e (lit (-(3 / 20))) then some (lit (3 / 2))
  else if CNum.lt e (lit (-(1 / 10))) then some (lit 1)
  else if CNum.lt e (lit (-(1 / 20))) then some (lit (9 / 10))
  else if CNum.lt e (lit (-(3 / 100))) then some (lit (4 / 5))
  else if CNum.lt e (lit (-(1 / 100))) then some (lit (7 / 10))
  else if CNum.lt err (ofInt 0) then some (lit (3 / 5))
  else none

/-- `fwHz + fwKp * fwErr[1] * gain + fwKi * fwErrI + fwKd * fwErrD` -/
def Pid.sum (p : Pid F) (gain : D) : D :=
  ofInt p.fwHz + widen (p.fwKp * p.fwErr1) * gain + widen (p.fwKi * p.fwErrI) +
    widen (p.fwKd * p.fwErrD)

/-- The new `fwHz` of `fwPIDctrl`, by the segment the error lies in. -/
def Pid.segment (p : Pid F) : Pid F :=
  let p := match pidGain p.fwErr1 with
    | some gain => { p with fwHz := toInt (p.sum gain) }
    | none => p
  let p := if CNum.le (lit (1 / 20)) (widen p.fwErr1) then
      { p with fwHz := toInt (p.sum (lit (3 / 10)) + lit (1 / 2)) }
    else p
  if CNum.lt (ofInt 0) p.fwErr1 && CNum.lt (widen p.fwErr1) (lit (1 / 20)) then
    { p with fwHz := toInt (p.sum (lit (3 / 5)) + lit 1) }
  else p

/-- The adjustment is finished: `fwPIDctrl` clears the integral. -/
def Pid.settle (p : Pid F) : Pid F :=
  if CNum.le (CNum.abs (widen p.fwErr1)) (lit (1 / 1000)) &&
      CNum.le (CNum.abs (widen p.fwErrD)) (ofInt 1) then
    { p with fwErrI := ofInt 0 }
  else p

/-- The limits of `fwPIDctrl` on its output. -/
def clampHz (hz : ℤ) : ℤ :=
  let hz := if hz > fwOutHzMax.toNat then (fwOutHzMax.toNat : ℤ) else hz
  if hz < 0 then 0 else hz

/-- `fwPIDctrl` up to its output, left in `fwHz`. -/
def Pid.ctrl (peTime : ℤ) (p : Pid F) : Pid F :=
  let p := (fwErrCalculate peTime p).segment.settle
  { p with fwHz := clampHz p.fwHz }

/-- `fwPIDctrl` -/
def fwPIDctrl (peTime : ℤ) (s : Drive F) : Drive F :=
  let pid := s.pid.ctrl peTime
  rs485Out pid.fwHz { s with pid := pid, calls := s.calls ++ [peTime] }

/-! ## timExti.c -/

/-- `timExtiRst` -/
def timExtiRst (tim2 : U16) (s : Drive F) : Drive F :=
  { s with timUpdates := 0, extid := 1, timCnt := tim2 }

/-- `cal_move_distance` -/
def calMoveDistance (s : Drive F) : U16 :=
  if s.carNo ≤ s.repairLocateReal then s.repairLocateReal - s.carNo
  else s.repairCarCmdData.carTotNum - s.carNo + s.repairLocateReal

/-- `cal_distance_to_real_locate` -/
def calDistanceToRealLocate (s : Drive F) : U16 :=
  if s.carNo ≤ s.repairLocateReal then s.repairLocateReal - s.carNo
  else s.carNo - s.repairLocateReal

/-- The target position of `repair_car_para_init`. -/
def repairTarget (m : RepairCarCmdData) : U16 :=
  let pos : ℤ := m.repairLocate.toNat + m.carNo.toNat - 1
  BitVec.ofInt 16 (if pos ≤ m.carTotNum.toNat then pos else pos - m.carTotNum.toNat)

/-- `repair_car_para_init` -/
def repairCarParaInit (s : Drive F) : Drive F :=
  let s := { s with repairFlag := true, repairLocateReal := repairTarget s.repairCarCmdData }
  if s.resetFlag then
    if calDistanceToRealLocate s > 2 then rs485Out s.repairCarCmdData.standardHz.toNat s
    else { s with repairFlag := false }
  else rs485Out s.repairCarCmdData.standardHz.toNat s

/-- `repairLocationCtrl` -/
def repairLocationCtrl (s : Drive F) : Drive F :=
  if !s.resetFlag || !s.repairFlag then s
  else
    let targetDistance := (calMoveDistance s).toNat
    let maxHz : ℕ := 3000
    if targetDistance > 100 then rs485Out maxHz s
    else if targetDistance > 50 then
      rs485Out ↑((s.repairCarCmdData.standardHz.toNat + maxHz) / 2) s
    else if targetDistance > 2 + s.repairCarCmdData.adjustPara.toNat then
      rs485Out s.repairCarCmdData.standardHz.toNat s
    else rs485Out 0 { s with repairFlag := false }

/-- The start-up staging of `TIM_EXTI_Process`, on a sensor-1 event. -/
def stage (s : Drive F) : Drive F :=
  if s.adjustStageFlag = false then
    let s := { s with firstStageCnt := s.firstStageCnt + 1 }
    if s.firstStageCnt ≥ 12 then
      let s := { s with firstStageCnt := 0 }
      if s.secondStageHz ≠ 0 then { s with adjustStageFlag := true, fwInitHz := s.secondStageHz }
      else { s with servoStart := true }
    else s
  else
    let s := { s with secondStageCnt := s.secondStageCnt + 1 }
    if s.secondStageCnt ≥ 60 then
      { s with adjustStageFlag := false, secondStageCnt := 0, servoStart := true,
               fwInitHz := s.firstStageHz }
    else s

/-- The count between two sensors, as `TIM_EXTI_Process` computes it. -/
def Drive.count (tim2 : U16) (s : Drive F) : U32 :=
  tim2.setWidth 32 + 0xFFFF * s.timUpdates - s.timCnt.setWidth 32

/-- The second sensor of a pair: the measurement of `TIM_EXTI_Process`. -/
def measure (extid tim2 : U16) (s : Drive F) : Drive F :=
  let cnt := s.count tim2
  let s' := { s with timUpdates := 0, extid := extid, timCnt := tim2 }
  if s.timUpdates ≤ 1 ∧ cnt ≤ 0xFFFF then
    let s' := if s'.servoStart then fwPIDctrl (cnt * 50).toInt s' else s'
    { s' with speed := cnt, speeds := s'.speeds ++ [cnt] }
  else s'

/-- `TIM_EXTI_Process` -/
def timExtiProcess (extid tim2 : U16) (s : Drive F) : Drive F :=
  if s.repairFlag then s
  else
    let s := if s.servoStart = false ∧ extid = 1 then stage s else s
    if s.extid = 0 then
      if extid = 1 then timExtiRst tim2 s else s
    else if extid = 1 then timExtiRst tim2 s
    else if extid.toNat = s.extid.toNat + 1 then measure extid tim2 s
    else { s with extid := 0 }

/-! ## Events -/

/-- What changes the drive. -/
inductive Event (F : Type) where
  /-- an accepted parameter message 0x1220 -/
  | para (m : ParaData F)
  /-- an accepted maintenance message 0x1221 -/
  | repair (m : RepairCarCmdData)
  /-- sensor 1, with the counter of TIM2 -/
  | sensor1 (tim2 : U16)
  /-- sensor 2, with the counter of TIM2 -/
  | sensor2 (tim2 : U16)
  /-- the car-number reset switch -/
  | carReset
  /-- `sec_process` with `sec_flag` set -/
  | second
  /-- the overflow interrupt of TIM2 -/
  | tim2Update
  /-- the lines to the inverter change without an output: their recorded bytes
      are sent to the WCS -/
  | recordSent (u : Uart)

/-- The case 0x1220 of `recv_msg_process`, without its replies. -/
def recvPara (m : ParaData F) (s : Drive F) : Drive F :=
  let s := fwInitServo { s with repairFlag := false, wcs2GndParaData := m }
  { s with fwInitHz := s.firstStageHz, servoStart := false }

/-- The case 0x1221 of `recv_msg_process`, without its reply. -/
def recvRepair (m : RepairCarCmdData) (s : Drive F) : Drive F :=
  repairCarParaInit { s with repairCarCmdData := m }

/-- The drive part of `EXTI4_IRQHandler`. -/
def sensor1 (tim2 : U16) (s : Drive F) : Drive F :=
  repairLocationCtrl (timExtiProcess 1 tim2 { s with carNo := s.carNo + 1 })

/-- The IN10 part of `EXTI9_5_IRQHandler`. -/
def carReset (s : Drive F) : Drive F := { s with carNo := 0, resetFlag := true }

/-- The output of `sec_process`. -/
def second (s : Drive F) : Drive F :=
  if s.servoStart = false ∧ s.repairFlag = false then rs485Out s.fwInitHz.toNat s else s

/-- `TIM2_IRQHandler` -/
def tim2Update (s : Drive F) : Drive F :=
  let s := { s with timUpdates := s.timUpdates + 1 }
  if s.timUpdates ≥ 0xFFFF then { s with timUpdates := 0, extid := 0, timCnt := 0 } else s

/-- The code run for an event. -/
def Drive.step (s : Drive F) : Event F → Drive F
  | .para m => recvPara m s
  | .repair m => recvRepair m s
  | .sensor1 tim2 => sensor1 tim2 s
  | .sensor2 tim2 => timExtiProcess 2 tim2 s
  | .carReset => carReset s
  | .second => second s
  | .tim2Update => tim2Update s
  | .recordSent u => { s with uart := u }

/-- The drive after start-up, with the inverter type read from the DIP switches. -/
def Drive.init (inverterType : U8) : Drive F where
  pid :=
    { maxSpeed := ofInt 0, minSpeed := ofInt 0, fwKp := ofInt 10, fwKi := ofInt 5
      fwKd := ofInt 40, speedTarget := ofInt 0, speedFactor := 0, peDistance := 0
      fwErr0 := ofInt 0, fwErr1 := ofInt 0, fwErrD := ofInt 0, fwErrI := ofInt 0
      fwbV := ofInt 0, fwbVLast := ofInt 0, fwHz := 0 }
  wcs2GndParaData :=
    { cmd := List.replicate 11 0, maxSpeed := ofInt 0, minSpeed := ofInt 0, fwKp := 0, fwKi := 0
      fwKd := 0, speedTarget := ofInt 0, speedFactor := 0, peDistance := 0, standardHz := 0 }
  repairCarCmdData := ⟨List.replicate 11 0, 0, 0, 0, 0, 0⟩
  carNo := 0
  speed := 0
  fwInitHz := 0
  servoHz := 0
  servoStart := false
  resetFlag := false
  repairFlag := false
  repairLocateReal := 0
  inverterType := inverterType
  extid := 0
  timCnt := 0
  timUpdates := 0
  adjustStageFlag := false
  firstStageCnt := 0
  firstStageHz := 0
  secondStageCnt := 0
  secondStageHz := 0
  uart := Uart.init
  rs485 := []
  calls := []
  speeds := []

end GndCtrl
