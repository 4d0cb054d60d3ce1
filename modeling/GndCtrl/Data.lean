/-
  Message types, packed messages and records (fun.h, carfun.h, main.h).

  A packed C structure at an address is read field by field from the bytes at
  its offsets: `ParaData.read` is the cast to `sWCS2GndCtrl_Para_Data *`
  (45 bytes) and `RepairCarCmdData.read` the one to `sRepairCar_CMD_Data *`
  (21 bytes).
-/
import GndCtrl.Lib.Bytes
import GndCtrl.Lib.CFloat

namespace GndCtrl

abbrev U8 := BitVec 8
abbrev U16 := BitVec 16
abbrev U32 := BitVec 32

/-! ## Message types -/

/-- `HEART_MSG_TYPE` -/
abbrev heartMsgType : U16 := 0x1150
/-- `SEND_MSG_GNDCTRL2WCS_CMD_TYPE` -/
abbrev sendMsgGndctrl2wcsCmdType : U16 := 0x1201
/-- `REPLY_WCS_GND_VERSION_TYPE` -/
abbrev replyWcsGndVersionType : U16 := 0x1222
/-- `SEND_MSG_GNDCTRL2WCS_CMD_INTERVAL_TYPE` -/
abbrev sendMsgGndctrl2wcsCmdIntervalType : U16 := 0x1223
/-- `SEND_UART2_MSG` -/
abbrev sendUart2Msg : U16 := 0xA2A2
/-- `SEND_UART4_MSG` -/
abbrev sendUart4Msg : U16 := 0xA4A4
/-- `RECV_MSG_WCS2GNDCTRL_PARA_TYPE` -/
abbrev recvMsgWcs2gndctrlParaType : U16 := 0x1220
/-- `RECV_MSG_REPAIR_CAR_CMD_TYPE` -/
abbrev recvMsgRepairCarCmdType : U16 := 0x1221
/-- `REPLY_RECV_MSG_WCS2GNDCTRL_PARA_TYPE` -/
abbrev replyRecvMsgWcs2gndctrlParaType : U16 := 0x9220
/-- `REPLY_RECV_MSG_REPAIR_CAR_CMD_TYPE` -/
abbrev replyRecvMsgRepairCarCmdType : U16 := 0x9221
/-- `RECV_MSG_BOOT_CMD_TYPE` -/
abbrev recvMsgBootCmdType : U16 := 0x1F01
/-- `REPLY_SEND_MSG_GNDCTRL2WCS_CMD_TYPE` -/
abbrev replySendMsgGndctrl2wcsCmdType : U16 := 0x9201
/-- `CAR_MSG_GNDCTRL2WCS_CMD_INTERVAL_TYPE` -/
abbrev carMsgGndctrl2wcsCmdIntervalType : U16 := 0xA1A1

/-! ## Messages from the WCS -/

/-- `sWCS2GndCtrl_Para_Data`, the parameter message 0x1220 -/
structure ParaData (F : Type) where
  cmd : List U8
  maxSpeed : F
  minSpeed : F
  fwKp : U32
  fwKi : U32
  fwKd : U32
  speedTarget : F
  speedFactor : U32
  peDistance : U32
  standardHz : U16

/-- `sRepairCar_CMD_Data`, the maintenance message 0x1221 -/
structure RepairCarCmdData where
  cmd : List U8
  carNo : U16
  repairLocate : U16
  carTotNum : U16
  adjustPara : U16
  standardHz : U16
  deriving DecidableEq

/-- `*((sWCS2GndCtrl_Para_Data *)point)` -/
def ParaData.read {F D : Type} [CNum F] [CNum D] [CFloat F D] (point : Mem) : ParaData F where
  cmd := point.bytes 11
  maxSpeed := CFloat.ofBits (point.u32 11)
  minSpeed := CFloat.ofBits (point.u32 15)
  fwKp := point.u32 19
  fwKi := point.u32 23
  fwKd := point.u32 27
  speedTarget := CFloat.ofBits (point.u32 31)
  speedFactor := point.u32 35
  peDistance := point.u32 39
  standardHz := point.u16 43

/-- `*((sRepairCar_CMD_Data *)point)` -/
def RepairCarCmdData.read (point : Mem) : RepairCarCmdData where
  cmd := point.bytes 11
  carNo := point.u16 11
  repairLocate := point.u16 13
  carTotNum := point.u16 15
  adjustPara := point.u16 17
  standardHz := point.u16 19

/-! ## Records of the sensor interrupt -/

/-- `sGndCtrl2WCS_Interval_Data` -/
structure IntervalData where
  preCarNum : U16
  curCarNum : U16
  interval : U16
  deriving DecidableEq

/-- `sGnd2Wcs_state_node` -/
structure StateNode where
  speed : U32
  carnum : U16
  servo : U16
  deriving DecidableEq

end GndCtrl
