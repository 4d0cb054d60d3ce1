/-
  The two inverter lines (usart.c): the Modbus CRC, the frame of each inverter
  type and the start of both DMA transfers.

  The bytes handed to a DMA channel are recorded in `dma2` and `dma4`, one list
  for each start.
-/
import GndCtrl.Data

namespace GndCtrl

/-- `CRCHi` -/
def crcHi : List U8 :=
  [0x00, 0xC1, 0x81, 0x40, 0x01, 0xC0, 0x80, 0x41, 0x01, 0xC0, 0x80, 0x41, 0x00, 0xC1, 0x81, 0x40,
   0x01, 0xC0, 0x80, 0x41, 0x00, 0xC1, 0x81, 0x40, 0x00, 0xC1, 0x81, 0x40, 0x01, 0xC0, 0x80, 0x41,
   0x01, 0xC0, 0x80, 0x41, 0x00, 0xC1, 0x81, 0x40, 0x00, 0xC1, 0x81, 0x40, 0x01, 0xC0, 0x80, 0x41,
   0x00, 0xC1, 0x81, 0x40, 0x01, 0xC0, 0x80, 0x41, 0x01, 0xC0, 0x80, 0x41, 0x00, 0xC1, 0x81, 0x40,
   0x01, 0xC0, 0x80, 0x41, 0x00, 0xC1, 0x81, 0x40, 0x00, 0xC1, 0x81, 0x40, 0x01, 0xC0, 0x80, 0x41,
   0x00, 0xC1, 0x81, 0x40, 0x01, 0xC0, 0x80, 0x41, 0x01, 0xC0, 0x80, 0x41, 0x00, 0xC1, 0x81, 0x40,
   0x00, 0xC1, 0x81, 0x40, 0x01, 0xC0, 0x80, 0x41, 0x01, 0xC0, 0x80, 0x41, 0x00, 0xC1, 0x81, 0x40,
   0x01, 0xC0, 0x80, 0x41, 0x00, 0xC1, 0x81, 0x40, 0x00, 0xC1, 0x81, 0x40, 0x01, 0xC0, 0x80, 0x41,
   0x01, 0xC0, 0x80, 0x41, 0x00, 0xC1, 0x81, 0x40, 0x00, 0xC1, 0x81, 0x40, 0x01, 0xC0, 0x80, 0x41,
   0x00, 0xC1, 0x81, 0x40, 0x01, 0xC0, 0x80, 0x41, 0x01, 0xC0, 0x80, 0x41, 0x00, 0xC1, 0x81, 0x40,
   0x00, 0xC1, 0x81, 0x40, 0x01, 0xC0, 0x80, 0x41, 0x01, 0xC0, 0x80, 0x41, 0x00, 0xC1, 0x81, 0x40,
   0x01, 0xC0, 0x80, 0x41, 0x00, 0xC1, 0x81, 0x40, 0x00, 0xC1, 0x81, 0x40, 0x01, 0xC0, 0x80, 0x41,
   0x00, 0xC1, 0x81, 0x40, 0x01, 0xC0, 0x80, 0x41, 0x01, 0xC0, 0x80, 0x41, 0x00, 0xC1, 0x81, 0x40,
   0x01, 0xC0, 0x80, 0x41, 0x00, 0xC1, 0x81, 0x40, 0x00, 0xC1, 0x81, 0x40, 0x01, 0xC0, 0x80, 0x41,
   0x01, 0xC0, 0x80, 0x41, 0x00, 0xC1, 0x81, 0x40, 0x00, 0xC1, 0x81, 0x40, 0x01, 0xC0, 0x80, 0x41,
   0x00, 0xC1, 0x81, 0x40, 0x01, 0xC0, 0x80, 0x41, 0x01, 0xC0, 0x80, 0x41, 0x00, 0xC1, 0x81, 0x40]

/-- `CRCLo` -/
def crcLo : List U8 :=
  [0x00, 0xC0, 0xC1, 0x01, 0xC3, 0x03, 0x02, 0xC2, 0xC6, 0x06, 0x07, 0xC7, 0x05, 0xC5, 0xC4, 0x04,
   0xCC, 0x0C, 0x0D, 0xCD, 0x0F, 0xCF, 0xCE, 0x0E, 0x0A, 0xCA, 0xCB, 0x0B, 0xC9, 0x09, 0x08, 0xC8,
   0xD8, 0x18, 0x19, 0xD9, 0x1B, 0xDB, 0xDA, 0x1A, 0x1E, 0xDE, 0xDF, 0x1F, 0xDD, 0x1D, 0x1C, 0xDC,
   0x14, 0xD4, 0xD5, 0x15, 0xD7, 0x17, 0x16, 0xD6, 0xD2, 0x12, 0x13, 0xD3, 0x11, 0xD1, 0xD0, 0x10,
   0xF0, 0x30, 0x31, 0xF1, 0x33, 0xF3, 0xF2, 0x32, 0x36, 0xF6, 0xF7, 0x37, 0xF5, 0x35, 0x34, 0xF4,
   0x3C, 0xFC, 0xFD, 0x3D, 0xFF, 0x3F, 0x3E, 0xFE, 0xFA, 0x3A, 0x3B, 0xFB, 0x39, 0xF9, 0xF8, 0x38,
   0x28, 0xE8, 0xE9, 0x29, 0xEB, 0x2B, 0x2A, 0xEA, 0xEE, 0x2E, 0x2F, 0xEF, 0x2D, 0xED, 0xEC, 0x2C,
   0xE4, 0x24, 0x25, 0xE5, 0x27, 0xE7, 0xE6, 0x26, 0x22, 0xE2, 0xE3, 0x23, 0xE1, 0x21, 0x20, 0xE0,
   0xA0, 0x60, 0x61, 0xA1, 0x63, 0xA3, 0xA2, 0x62, 0x66, 0xA6, 0xA7, 0x67, 0xA5, 0x65, 0x64, 0xA4,
   0x6C, 0xAC, 0xAD, 0x6D, 0xAF, 0x6F, 0x6E, 0xAE, 0xAA, 0x6A, 0x6B, 0xAB, 0x69, 0xA9, 0xA8, 0x68,
   0x78, 0xB8, 0xB9, 0x79, 0xBB, 0x7B, 0x7A, 0xBA, 0xBE, 0x7E, 0x7F, 0xBF, 0x7D, 0xBD, 0xBC, 0x7C,
   0xB4, 0x74, 0x75, 0xB5, 0x77, 0xB7, 0xB6, 0x76, 0x72, 0xB2, 0xB3, 0x73, 0xB1, 0x71, 0x70, 0xB0,
   0x50, 0x90, 0x91, 0x51, 0x93, 0x53, 0x52, 0x92, 0x96, 0x56, 0x57, 0x97, 0x55, 0x95, 0x94, 0x54,
   0x9C, 0x5C, 0x5D, 0x9D, 0x5F, 0x9F, 0x9E, 0x5E, 0x5A, 0x9A, 0x9B, 0x5B, 0x99, 0x59, 0x58, 0x98,
   0x88, 0x48, 0x49, 0x89, 0x4B, 0x8B, 0x8A, 0x4A, 0x4E, 0x8E, 0x8F, 0x4F, 0x8D, 0x4D, 0x4C, 0x8C,
   0x44, 0x84, 0x85, 0x45, 0x87, 0x47, 0x46, 0x86, 0x82, 0x42, 0x43, 0x83, 0x41, 0x81, 0x80, 0x40]

/-- One turn of the loop of `CRC_sub`: `(CRC_Hi, CRC_Lo)` after one more byte. -/
def crcByte (s : U8 × U8) (b : U8) : U8 × U8 :=
  let i := s.1 ^^^ b
  (s.2 ^^^ crcHi.getD i.toNat 0, crcLo.getD i.toNat 0)

/-- `CRC_sub` -/
def crcSub (bytes : List U8) (initVal : U16) (exchange : Bool) : U16 :=
  let s := bytes.foldl crcByte (hi initVal, lo initVal)
  if !exchange then le16 s.2 s.1 else le16 s.1 s.2

/-- `get_CRC` -/
def getCRC (bytes : List U8) : U16 := crcSub bytes 0xFFFF false

/-- The frame `pbuf` of `ServoFreqSet`: the body followed by its CRC. -/
def withCRC (body : List U8) : List U8 := body ++ [hi (getCRC body), lo (getCRC body)]

/-- Write single register `r₀ r₁` of station 0. -/
def registerFrame (r₀ r₁ : U8) (hz : U16) : List U8 := withCRC [0x00, 0x06, r₀, r₁, hi hz, lo hz]

/-- The frame of each inverter type; the others send nothing. -/
def servoFrame (inverterType : U8) (hz : U16) : Option (List U8) :=
  if inverterType = 0 then some (registerFrame 0xFA 0x01 hz)
  else if inverterType = 1 then some (registerFrame 0x20 0x01 hz)
  else if inverterType = 2 then
    let hzT : U16 := BitVec.ofNat 16 (hz.toNat * 0x4000 / 5000)
    some (withCRC [0x01, 0x10, 0x00, 0x63, 0x00, 0x02, 0x04, 0x04, 0x7F, hi hzT, lo hzT])
  else if inverterType = 3 then some (registerFrame 0x70 0x15 hz)
  else if inverterType = 4 then some (registerFrame 0x30 0x00 hz)
  else none

/-- One line: its send buffer and the copy kept for diagnosis. -/
structure Line where
  sendBuff : Mem
  sendCount : ℕ
  recordBuff : Mem
  recordLen : ℕ

/-- `uart2_send`, `uart4_send`: start the transfer and record up to 15 bytes. -/
def Line.send (u : Line) : Line :=
  let len := u.sendCount % 256
  if len > 15 then { u with recordLen := 0 }
  else { u with recordLen := len, recordBuff := u.recordBuff.putList 0 (u.sendBuff.bytes len) }

/-- The frame a transfer takes from the send buffer. -/
def Line.frame (u : Line) : List U8 := u.sendBuff.bytes u.sendCount

/-- Copy a frame to the send buffer. -/
def Line.load (u : Line) (pbuf : List U8) : Line :=
  { u with sendBuff := u.sendBuff.putList 0 pbuf, sendCount := pbuf.length }

/-- Both lines and the frames sent on them so far. -/
structure Uart where
  uart2 : Line
  uart4 : Line
  dma2 : List (List U8)
  dma4 : List (List U8)

/-- `ServoFreqSet` -/
def servoFreqSet (inverterType : U8) (hz : U16) (u : Uart) : Uart :=
  match servoFrame inverterType hz with
  | none => u
  | some pbuf =>
    let u2 := u.uart2.load pbuf
    let u4 := u.uart4.load pbuf
    { uart2 := u2.send, uart4 := u4.send,
      dma2 := u.dma2 ++ [u2.frame], dma4 := u.dma4 ++ [u4.frame] }

/-- The lines after start-up. -/
def Uart.init : Uart :=
  let u : Line := ⟨fun _ => 0, 0, fun _ => 0, 0⟩
  ⟨u, u, [], []⟩

/-- Each call sends the frame of `hz` on both lines, for a known inverter type. -/
theorem servoFreqSet_dma {inverterType : U8} {hz : U16} {pbuf : List U8} (u : Uart)
    (h : servoFrame inverterType hz = some pbuf) :
    (servoFreqSet inverterType hz u).dma2 = u.dma2 ++ [pbuf] ∧
      (servoFreqSet inverterType hz u).dma4 = u.dma4 ++ [pbuf] := by
  simp [servoFreqSet, h, Line.frame, Line.load, Mem.bytes_putList]

end GndCtrl
