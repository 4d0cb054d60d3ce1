/-
  Modbus RTU, from the master to a slave that is only written to.

  A frame is the station, the function code and its arguments, the words with
  the high byte first, and a CRC with the low byte first.  The CRC is a parameter.

  * `Modbus.Adu.encode` — the frame of a request;
  * `Modbus.decode` — what a slave takes a frame for;
  * `Modbus.receive` — the registers of a slave after a frame.

  `decode_encode` is the round trip, `receive_encode` and `foldl_receive` what a
  slave makes of frames that were encoded.
-/
import Mathlib.Data.List.Induction
import Mathlib.Logic.Function.Basic
import GndCtrl.Lib.Bytes

namespace GndCtrl.Modbus

/-- A request to write registers. -/
inductive Request
  | writeSingle (register value : BitVec 16)
  | writeMultiple (start : BitVec 16) (values : List (BitVec 16))
deriving DecidableEq

/-- A request and the station it is for; station 0 is every one. -/
structure Adu where
  station : BitVec 8
  request : Request
deriving DecidableEq

/-- The bytes of a word. -/
def word (x : BitVec 16) : List (BitVec 8) := [hi x, lo x]

/-- The words of a run of bytes. -/
def words : List (BitVec 8) → Option (List (BitVec 16))
  | [] => some []
  | [_] => none
  | h :: l :: bytes => (words bytes).map (le16 l h :: ·)

/-- The values a request can carry. -/
def Request.Fits : Request → Prop
  | .writeSingle .. => True
  | .writeMultiple _ values => values.length < 128

/-- The frame without its CRC. -/
def Adu.body (a : Adu) : List (BitVec 8) :=
  match a.request with
  | .writeSingle register value => [a.station, 0x06] ++ word register ++ word value
  | .writeMultiple start values =>
    [a.station, 0x10] ++ word start ++ word (BitVec.ofNat 16 values.length) ++
      [BitVec.ofNat 8 (2 * values.length)] ++ values.flatMap word

/-- The CRC as it is sent. -/
def checked (crc : List (BitVec 8) → BitVec 16) (body : List (BitVec 8)) : List (BitVec 8) :=
  body ++ [lo (crc body), hi (crc body)]

/-- The frame of a request. -/
def Adu.encode (crc : List (BitVec 8) → BitVec 16) (a : Adu) : List (BitVec 8) :=
  checked crc a.body

/-- The request of a frame without its CRC. -/
def parse : List (BitVec 8) → Option Adu
  | station :: function :: h :: l :: bytes =>
    if function = 0x06 then
      match bytes with
      | [vh, vl] => some ⟨station, .writeSingle (le16 l h) (le16 vl vh)⟩
      | _ => none
    else if function = 0x10 then
      match bytes with
      | nh :: nl :: count :: bytes =>
        if bytes.length = count.toNat ∧ count.toNat = 2 * (le16 nl nh).toNat then
          (words bytes).map fun values => ⟨station, .writeMultiple (le16 l h) values⟩
        else none
      | _ => none
    else none
  | _ => none

/-- What a slave takes a frame for: nothing, unless the CRC is right. -/
def decode (crc : List (BitVec 8) → BitVec 16) (frame : List (BitVec 8)) : Option Adu :=
  let body := frame.take (frame.length - 2)
  if frame = checked crc body then parse body else none

/-- The registers after a request. -/
def Request.apply (registers : BitVec 16 → BitVec 16) : Request → BitVec 16 → BitVec 16
  | .writeSingle register value => Function.update registers register value
  | .writeMultiple start values => fun r => values[(r - start).toNat]?.getD (registers r)

/-- A slave and its registers after a frame. -/
def receive (crc : List (BitVec 8) → BitVec 16) (station : BitVec 8)
    (registers : BitVec 16 → BitVec 16) (frame : List (BitVec 8)) : BitVec 16 → BitVec 16 :=
  match decode crc frame with
  | some a => if a.station = 0 ∨ a.station = station then a.request.apply registers else registers
  | none => registers

variable (crc : List (BitVec 8) → BitVec 16)

theorem words_flatMap (values : List (BitVec 16)) : words (values.flatMap word) = some values := by
  induction values with
  | nil => rfl
  | cons x values ih =>
    change (words (values.flatMap word)).map (le16 (lo x) (hi x) :: ·) = _
    rw [ih, le16_lo_hi, Option.map_some]

theorem length_flatMap_word (values : List (BitVec 16)) :
    (values.flatMap word).length = 2 * values.length := by
  induction values with
  | nil => rfl
  | cons x values ih =>
    rw [List.flatMap_cons, List.length_append, ih, List.length_cons]
    change 2 + _ = _
    omega

theorem parse_body {a : Adu} (h : a.request.Fits) : parse a.body = some a := by
  obtain ⟨station, request⟩ := a
  cases request with
  | writeSingle register value =>
    change some (Adu.mk station (.writeSingle (le16 (lo register) (hi register))
      (le16 (lo value) (hi value)))) = _
    rw [le16_lo_hi, le16_lo_hi]
  | writeMultiple start values =>
    have hlen : values.length < 128 := h
    set n : BitVec 16 := BitVec.ofNat 16 values.length
    have hn : n.toNat = values.length := by rw [BitVec.toNat_ofNat]; omega
    have hc : (BitVec.ofNat 8 (2 * values.length)).toNat = 2 * values.length := by
      rw [BitVec.toNat_ofNat]; omega
    change (if (values.flatMap word).length = (BitVec.ofNat 8 (2 * values.length)).toNat ∧
        (BitVec.ofNat 8 (2 * values.length)).toNat = 2 * (le16 (lo n) (hi n)).toNat then
      (words (values.flatMap word)).map fun values =>
        Adu.mk station (.writeMultiple (le16 (lo start) (hi start)) values)
      else none) = _
    rw [le16_lo_hi, le16_lo_hi, length_flatMap_word, hc, hn, if_pos ⟨rfl, rfl⟩, words_flatMap,
      Option.map_some]

theorem length_checked (body : List (BitVec 8)) : (checked crc body).length = body.length + 2 := by
  rw [checked, List.length_append]
  rfl

/-- **The round trip**: a slave takes the frame of a request for that request. -/
theorem decode_encode {a : Adu} (h : a.request.Fits) : decode crc (a.encode crc) = some a := by
  have hbody : (a.encode crc).take ((a.encode crc).length - 2) = a.body := by
    rw [Adu.encode, length_checked, Nat.add_sub_cancel]
    exact List.take_left
  simp only [decode, hbody, parse_body h]
  exact if_pos rfl

/-- A slave does what a frame for it says. -/
theorem receive_encode {a : Adu} (h : a.request.Fits) {station : BitVec 8}
    (hs : a.station = 0 ∨ a.station = station) (registers : BitVec 16 → BitVec 16) :
    receive crc station registers (a.encode crc) = a.request.apply registers := by
  simp only [receive, decode_encode crc h, if_pos hs]

/-- Of frames that write the same registers only the last one is left. -/
theorem foldl_receive {ι : Type} {f : ι → Adu} {station : BitVec 8}
    (hf : ∀ i, (f i).request.Fits) (hs : ∀ i, (f i).station = 0 ∨ (f i).station = station)
    (hover : ∀ i j registers,
      (f j).request.apply ((f i).request.apply registers) = (f j).request.apply registers)
    (registers : BitVec 16 → BitVec 16) (is : List ι) :
    (is.map fun i => (f i).encode crc).foldl (receive crc station) registers =
      (is.getLast?.elim registers fun i => (f i).request.apply registers) := by
  induction is using List.reverseRecOn with
  | nil => rfl
  | append_singleton is i ih =>
    rw [List.map_append, List.foldl_append, ih, List.getLast?_concat]
    change receive crc station _ _ = (f i).request.apply registers
    rw [receive_encode crc (hf i) (hs i)]
    cases is.getLast? with
    | none => rfl
    | some j => exact hover j i registers

end GndCtrl.Modbus
