/-
  The Ethernet driver (port/ethernetif.c and what it uses of stm32_eth.c): the
  receive and the transmit descriptors that the processor and the DMA of the
  controller share through their OWN bits.

  Each side is a machine with the DMA and the processor as its two parties,
  which take their steps in any order.  A step of the processor is a statement,
  or the copy of one byte; a step of the DMA stores or fetches one byte, or
  closes a descriptor.  A pbuf chain is the list of its bytes.

  Of the `Status` words the bits are kept that the driver or the DMA looks at.
-/
import GndCtrl.Data
import GndCtrl.Lib.OwnRing
import GndCtrl.Lib.Run

namespace GndCtrl

/-- `ETH_MAX_PACKET_SIZE`, the size of every buffer -/
abbrev ethMaxPacketSize : ℕ := 1520

/-- The next descriptor of a chain of `n`, as the initialisation writes it: the last one is
    followed by the first. -/
def nextDesc {n : ℕ} [NeZero n] (i : Fin n) : Fin n :=
  if h : i.val + 1 < n then ⟨i.val + 1, h⟩ else 0

/-! ## Reception -/

/-- `ETH_RXBUFNB` -/
abbrev ethRxbufnb : ℕ := 4

/-- `Status` of a receive descriptor: OWN, ES, FS, LS and the frame length FL. -/
structure RxStatus where
  own : Bool
  es : Bool
  fs : Bool
  ls : Bool
  fl : ℕ
  deriving DecidableEq

/-- `ETH_DMADESCTypeDef` of a receive descriptor; the addresses are indices of `Rx_Buff` and
    `DMARxDscrTab`. -/
structure RxDesc where
  status : RxStatus
  buffer1Addr : Fin ethRxbufnb
  buffer2NextDescAddr : Fin ethRxbufnb

/-- `Status = ETH_DMARxDesc_OWN` -/
def RxStatus.dma : RxStatus := ⟨true, false, false, false, 0⟩

/-- `FrameTypeDef`; `none` is the null pointer. -/
structure FrameTypeDef where
  length : U32
  buffer : Option (Fin ethRxbufnb)
  descriptor : Option (Fin ethRxbufnb)

/-- The `u16_t len` of `low_level_input`. -/
def FrameTypeDef.len (frame : FrameTypeDef) : ℕ := (frame.length.setWidth 16).toNat

/-- `ETH_DMARxDescChainInit` -/
def ethDmaRxDescChainInit (i : Fin ethRxbufnb) : RxDesc :=
  { status := .dma, buffer1Addr := i, buffer2NextDescAddr := nextDesc i }

/-- A frame that the DMA has closed: the status word, and what the buffer held. -/
structure RxFrame where
  status : RxStatus
  data : List U8

/-- Where the processor is between the test of the main loop and `netif->input`. -/
inductive RxPc where
  /-- the test of `ETH_GetRxPktSize` in `main` -/
  | poll
  /-- `ETH_RxPkt_ChainMode` -/
  | rxPkt
  /-- `pbuf_alloc` -/
  | alloc (frame : FrameTypeDef)
  /-- the copying loop of `low_level_input`, with the bytes copied so far -/
  | copy (frame : FrameTypeDef) (p : List U8)
  /-- `frame.descriptor->Status = ETH_DMARxDesc_OWN` -/
  | giveBack (frame : FrameTypeDef) (p : Option (List U8))
  /-- the test of RBUS -/
  | resume (p : Option (List U8))
  /-- `netif->input`, unless `p` is null -/
  | input (p : Option (List U8))
  /-- after a null descriptor was written through -/
  | fault

/-- The receive side.  `stored` and `passed` are histories: the frames closed by the DMA, and the
    results of `low_level_input` in `ethernetif_input`. -/
structure EthRx where
  dmaRxDscrTab : Fin ethRxbufnb → RxDesc
  rxBuff : Fin ethRxbufnb → Mem
  dmaRxDescToGet : Fin ethRxbufnb
  rbus : Bool
  /-- the descriptor the DMA is at, and the bytes it has stored there -/
  dma : Fin ethRxbufnb
  pos : ℕ
  pc : RxPc
  stored : List RxFrame
  passed : List (Option (List U8))

/-- The receive side after `low_level_init`. -/
def EthRx.init : EthRx where
  dmaRxDscrTab := ethDmaRxDescChainInit
  rxBuff := fun _ _ => 0
  dmaRxDescToGet := 0
  rbus := false
  dma := 0
  pos := 0
  pc := .poll
  stored := []
  passed := []

namespace EthRx

/-- `ETH_GetRxPktSize` -/
def ethGetRxPktSize (s : EthRx) : ℕ :=
  let st := (s.dmaRxDscrTab s.dmaRxDescToGet).status
  if !st.own && !st.es && st.ls && st.fs then st.fl else 0

/-- `ETH_RxPkt_ChainMode` -/
def ethRxPktChainMode (s : EthRx) : FrameTypeDef × EthRx :=
  let d := s.dmaRxDscrTab s.dmaRxDescToGet
  let st := d.status
  if st.own then (⟨0, none, none⟩, { s with rbus := false })
  else
    let good := !st.es && st.ls && st.fs
    (⟨if good then BitVec.ofNat 32 st.fl - 4 else 0, if good then some d.buffer1Addr else none,
        some s.dmaRxDescToGet⟩,
      { s with dmaRxDescToGet := d.buffer2NextDescAddr })

/-- `(u8 *)frame.buffer`; nothing is known of the null address. -/
def buffer (s : EthRx) (frame : FrameTypeDef) : Mem :=
  match frame.buffer with
  | some b => s.rxBuff b
  | none => fun _ => 0

/-- One step of the processor; `allocated` is the success of `pbuf_alloc`. -/
def cpu (allocated : Bool) (s : EthRx) : EthRx :=
  match s.pc with
  | .poll => if s.ethGetRxPktSize ≠ 0 then { s with pc := .rxPkt } else s
  | .rxPkt =>
    let (frame, s) := s.ethRxPktChainMode
    { s with pc := .alloc frame }
  | .alloc frame =>
    if allocated then { s with pc := .copy frame [] } else { s with pc := .giveBack frame none }
  | .copy frame p =>
    if p.length < frame.len then { s with pc := .copy frame (p ++ [s.buffer frame p.length]) }
    else { s with pc := .giveBack frame (some p) }
  | .giveBack frame p =>
    match frame.descriptor with
    | some i =>
      let d := { s.dmaRxDscrTab i with status := .dma }
      { s with dmaRxDscrTab := Function.update s.dmaRxDscrTab i d, pc := .resume p }
    | none => { s with pc := .fault }
  | .resume p => { s with rbus := false, pc := .input p }
  | .input p => { s with passed := s.passed ++ [p], pc := .poll }
  | .fault => s

/-- The DMA stores the next byte of a frame; it writes only to a buffer it owns, and no byte
    beyond its end. -/
def store (b : U8) (s : EthRx) : EthRx :=
  let d := s.dmaRxDscrTab s.dma
  if d.status.own then
    if s.pos < ethMaxPacketSize then
      { s with
        rxBuff := Function.update s.rxBuff d.buffer1Addr ((s.rxBuff d.buffer1Addr).put s.pos b)
        pos := s.pos + 1 }
    else s
  else { s with rbus := true }

/-- The DMA closes its descriptor and goes on to the next one.  A good frame of less than 64 bytes
    is not forwarded. -/
def close (es fs ls : Bool) (s : EthRx) : EthRx :=
  let d := s.dmaRxDscrTab s.dma
  if d.status.own then
    if !es && fs && ls && decide (s.pos < 64) then { s with pos := 0 }
    else
      let st := ⟨false, es, fs, ls, s.pos⟩
      { s with
        dmaRxDscrTab := Function.update s.dmaRxDscrTab s.dma { d with status := st }
        dma := d.buffer2NextDescAddr
        pos := 0
        stored := s.stored ++ [⟨st, (s.rxBuff d.buffer1Addr).bytes s.pos⟩] }
  else { s with rbus := true }

end EthRx

/-- A step of one of the parties of reception. -/
inductive RxEvent where
  | store (b : U8)
  | close (es fs ls : Bool)
  | cpu (allocated : Bool)

/-- One step of reception. -/
def EthRx.step (s : EthRx) : RxEvent → EthRx
  | .store b => s.store b
  | .close es fs ls => s.close es fs ls
  | .cpu allocated => s.cpu allocated

/-! ## Transmission -/

/-- `ETH_TXBUFNB` -/
abbrev ethTxbufnb : ℕ := 2

/-- `ETH_DMADESCTypeDef` of a transmit descriptor, with the OWN, FS and LS bits of `Status`. -/
structure TxDesc where
  own : Bool
  fs : Bool
  ls : Bool
  controlBufferSize : ℕ
  buffer1Addr : Fin ethTxbufnb
  buffer2NextDescAddr : Fin ethTxbufnb

/-- `ETH_DMATxDescChainInit` -/
def ethDmaTxDescChainInit (i : Fin ethTxbufnb) : TxDesc where
  own := false
  fs := false
  ls := false
  controlBufferSize := 0
  buffer1Addr := i
  buffer2NextDescAddr := nextDesc i

/-- A frame for `low_level_output`: not empty, and no longer than a buffer, which holds more than
    the MTU and the header of the link. -/
structure TxFrame where
  data : List U8
  pos : 0 < data.length
  le : data.length ≤ ethMaxPacketSize

/-- Where the processor is in `low_level_output`. -/
inductive TxPc where
  | idle
  /-- the copying loop, with its buffer and index -/
  | copy (buffer : Fin ethTxbufnb) (p : TxFrame) (l : ℕ)
  /-- `ETH_TxPkt_ChainMode(l)` -/
  | txPkt (p : TxFrame) (l : ℕ)

/-- The transmit side.  The last four fields are histories: the frames given to the DMA, the
    indices of those whose buffer was written to afterwards, the frames that were refused, and
    what has gone out. -/
structure EthTx where
  dmaTxDscrTab : Fin ethTxbufnb → TxDesc
  txBuff : Fin ethTxbufnb → Mem
  dmaTxDescToSet : Fin ethTxbufnb
  tbus : Bool
  /-- the descriptor the DMA is at, and the bytes it has fetched there -/
  dma : Fin ethTxbufnb
  fetched : List U8
  pc : TxPc
  accepted : List TxFrame
  clobbered : List ℕ
  refused : List TxFrame
  wire : List (List U8)

/-- The transmit side after `low_level_init`. -/
def EthTx.init : EthTx where
  dmaTxDscrTab := ethDmaTxDescChainInit
  txBuff := fun _ _ => 0
  dmaTxDescToSet := 0
  tbus := false
  dma := 0
  fetched := []
  pc := .idle
  accepted := []
  clobbered := []
  refused := []
  wire := []

namespace EthTx

/-- The OWN bit of the descriptor that the next frame is for. -/
def busy (s : EthTx) : Bool := (s.dmaTxDscrTab s.dmaTxDescToSet).own

/-- `ETH_GetCurrentTxBuffer` -/
def ethGetCurrentTxBuffer (s : EthTx) : Fin ethTxbufnb :=
  (s.dmaTxDscrTab s.dmaTxDescToSet).buffer1Addr

/-- The call of `low_level_output`, which the main loop makes when no other is running. -/
def lowLevelOutput (p : TxFrame) (s : EthTx) : EthTx :=
  match s.pc with
  | .idle => { s with pc := .copy s.ethGetCurrentTxBuffer p 0 }
  | _ => s

/-- `ETH_TxPkt_ChainMode`; `low_level_output` does not look at its result. -/
def ethTxPktChainMode (p : TxFrame) (l : ℕ) (s : EthTx) : EthTx :=
  if s.busy then { s with refused := s.refused ++ [p] }
  else
    let d := s.dmaTxDscrTab s.dmaTxDescToSet
    let d' := { d with controlBufferSize := l % 2 ^ 16 &&& 0x1FFF, ls := true, fs := true,
                       own := true }
    { s with
      dmaTxDscrTab := Function.update s.dmaTxDscrTab s.dmaTxDescToSet d'
      tbus := false
      dmaTxDescToSet := d.buffer2NextDescAddr
      accepted := s.accepted ++ [p] }

/-- One step of the processor in `low_level_output`. -/
def cpu (s : EthTx) : EthTx :=
  match s.pc with
  | .idle => s
  | .copy buffer p l =>
    if h : l < p.data.length then
      { s with
        txBuff := Function.update s.txBuff buffer ((s.txBuff buffer).put l p.data[l])
        -- the oldest frame that has not gone out lies in this buffer
        clobbered := if s.busy then s.clobbered ++ [s.wire.length] else s.clobbered
        pc := .copy buffer p (l + 1) }
    else { s with pc := .txPkt p l }
  | .txPkt p l => { s.ethTxPktChainMode p l with pc := .idle }

/-- One step of the DMA: it fetches a byte of the frame it owns, or puts the frame on the wire and
    gives the descriptor back. -/
def transmit (s : EthTx) : EthTx :=
  let d := s.dmaTxDscrTab s.dma
  if d.own then
    if s.fetched.length < d.controlBufferSize then
      { s with fetched := s.fetched ++ [s.txBuff d.buffer1Addr s.fetched.length] }
    else
      { s with
        dmaTxDscrTab := Function.update s.dmaTxDscrTab s.dma { d with own := false }
        dma := d.buffer2NextDescAddr
        fetched := []
        wire := s.wire ++ [s.fetched] }
  else { s with tbus := true }

end EthTx

/-- A step of one of the parties of transmission. -/
inductive TxEvent where
  | output (p : TxFrame)
  | cpu
  | dma

/-- One step of transmission. -/
def EthTx.step (s : EthTx) : TxEvent → EthTx
  | .output p => s.lowLevelOutput p
  | .cpu => s.cpu
  | .dma => s.transmit

end GndCtrl
