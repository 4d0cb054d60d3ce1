/-
  The four UDP slots (TCPclient.c with `USE_UDP`): creation and connection of
  the control blocks, the receive callback and `udp_client_process`.

  The results of `udp_new`, `udp_connect` and `pbuf_alloc` are arguments.  A
  received datagram is a chain of pbufs: the callback reads all of it through
  the payload pointer of the first one.
-/
import GndCtrl.Fun

namespace GndCtrl

open CNum CFloat

variable {F D : Type} [CNum F] [CNum D] [CFloat F D]

/-! ## Connection -/

/-- `creat_udp_connect_process`; `created` is the success of `udp_new`. -/
def creatUdpConnectProcess (i : Fin 4) (created : Bool) (s : Sys F) : Sys F :=
  s.setSlot i fun c =>
    if created then
      { c with echoclientPcb := some ⟨none, false⟩, tcpClientStatue := .disConnect,
               connectIsOk := true, tcpSendEn := false, tcpSendLen := 0 }
    else { c with echoclientPcb := none, tcpClientStatue := .disConnect }

/-- The addresses of `get_ip_para_process`. -/
def ipPara : Fin 4 → (Fin 4 → U8) × U16
  | 0 => (fun | 0 => 192 | 1 => 168 | 2 => 10 | 3 => 13, 9902)
  | 1 => (fun | 0 => 192 | 1 => 168 | 2 => 10 | 3 => 110, 9000)
  | 2 => (fun | 0 => 192 | 1 => 168 | 2 => 10 | 3 => 111, 9000)
  | 3 => (fun | 0 => 192 | 1 => 168 | 2 => 10 | 3 => 13, 9912)

/-- `get_ip_para_process` -/
def getIpParaProcess (i : Fin 4) (c : TcpClientTable) : TcpClientTable :=
  { c with destIp := (ipPara i).1, destPort := (ipPara i).2 }

/-- `IP4_ADDR` and the port: the endpoint of a slot. -/
def TcpClientTable.dest (c : TcpClientTable) : Endpoint :=
  ⟨le32 (c.destIp 0) (c.destIp 1) (c.destIp 2) (c.destIp 3), c.destPort⟩

/-- `udp_echoclient_connect`; `connected` is the success of `udp_connect`. -/
def udpEchoclientConnect (i : Fin 4) (connected : Bool) (s : Sys F) : Sys F :=
  s.setSlot i fun c =>
    let c := getIpParaProcess i c
    if connected then
      { c with echoclientPcb := some ⟨some c.dest, true⟩, tcpClientStatue := .connectOk }
    else c

/-! ## Reception -/

/-- A received chain of pbufs: the first payload, the rest of the chain, and
    what lies in memory behind the first payload. -/
structure Pbuf where
  payload : List U8
  rest : List U8
  beyond : Mem

/-- `p->tot_len` -/
def Pbuf.totLen (p : Pbuf) : ℕ := p.payload.length + p.rest.length

/-- `*((u8_t *)p->payload + m)` -/
def Pbuf.read (p : Pbuf) : Mem := fun m => if h : m < p.payload.length then p.payload[m] else p.beyond m

/-- The address test of the callback. -/
def TcpClientTable.matches (c : TcpClientTable) (remote : Endpoint) : Bool :=
  remote.port == c.destPort &&
    (List.finRange 4).all fun j => c.destIp j == byte j remote.addr

/-- Append a datagram to the receive buffer of a slot; `m` is the value of the
    counter after the copying loop. -/
def TcpClientTable.receive (p : Pbuf) (m : U8) (c : TcpClientTable) : TcpClientTable :=
  { c with
    tcpRecevBuf :=
      if p.totLen ≤ tcpRecevBuffSize then
        c.tcpRecevBuf.putList c.tcpRecevLen (p.read.bytes p.totLen)
      else c.tcpRecevBuf
    tcpRecevLen := (c.tcpRecevLen + m.toNat) % 2 ^ 16
    tcpClientStatue := .connectRecv }

/-- One slot in the loop of `udp_receive_callback`, with the counter `m`. -/
def receiveSlot (remote : Endpoint) (p : Pbuf) (r : U8 × Sys F) (i : Fin 4) : U8 × Sys F :=
  let (m, s) := r
  let c := s.tcpClientList i
  if s.pc = .hang then r
  else if c.matches remote ∧ c.tcpClientStatue = .connectOk then
    -- `m` has 8 bits: it never reaches a length above 255
    if 255 < p.totLen ∧ p.totLen ≤ tcpRecevBuffSize then (m, { s with pc := .hang })
    else
      let m := if p.totLen ≤ tcpRecevBuffSize then BitVec.ofNat 8 p.totLen else m
      (m, s.setSlot i (TcpClientTable.receive p m))
  else r

/-- `udp_receive_callback`; `junk` is the initial value of `m`. -/
def udpReceiveCallback (remote : Endpoint) (p : Pbuf) (junk : U8) (s : Sys F) : Sys F :=
  ((List.finRange 4).foldl (receiveSlot remote p) (junk, s)).2

/-- A received UDP datagram. -/
structure Datagram where
  src : Endpoint
  p : Pbuf
  junk : U8

/-- The stack gives a datagram to a control block connected to its source, if
    one has a callback. -/
def udpInput (d : Datagram) (s : Sys F) : Sys F :=
  if ∃ i, (s.tcpClientList i).echoclientPcb = some ⟨some d.src, true⟩ then
    udpReceiveCallback d.src d.p d.junk s
  else s

/-! ## Sending and the slots -/

/-- `udp_send_process`; `allocated` is the success of `pbuf_alloc`. -/
def udpSendProcess (i : Fin 4) (allocated : Bool) (s : Sys F) : Sys F :=
  if allocated then s.note (.send i (s.tcpClientList i).frame) else s

/-- The message handler of each slot. -/
def recvMessage (i : Fin 4) (point : Mem) (len : ℕ) (s : Sys F) : ℕ × Sys F :=
  match i with
  | 0 => recvMessageFromSever point len s
  | 1 => carrecvMessageFromSever point len s
  | 2 => cartworecvMessageFromSever point len s
  | 3 => carthreerecvMessageFromSever point len s

/-- What the network does for `udp_client_process`, by slot. -/
structure Net where
  udpNew : Fin 4 → Bool
  udpConnect : Fin 4 → Bool
  pbufAlloc : Fin 4 → Bool

/-- The first test of a slot: a received message goes to the handler. -/
def clientRecv (i : Fin 4) (s : Sys F) : Sys F :=
  let c := s.tcpClientList i
  if c.tcpClientStatue = .connectRecv then
    let s := s.note (.handle i (c.tcpRecevBuf.bytes c.tcpRecevLen))
    let (len, s) := recvMessage i c.tcpRecevBuf c.tcpRecevLen s
    -- after a reset nothing more happens
    if s.pc = .reset then s
    else s.setSlot i fun c => { c with tcpRecevLen := len, tcpClientStatue := .connectOk }
  else s

/-- The other tests of a slot: create, connect or send. -/
def clientSend (net : Net) (i : Fin 4) (s : Sys F) : Sys F :=
  let c := s.tcpClientList i
  if c.connectIsOk = false then creatUdpConnectProcess i (net.udpNew i) s
  else if c.tcpClientStatue = .disConnect then udpEchoclientConnect i (net.udpConnect i) s
  else if c.tcpClientStatue = .connectOk ∧ c.tcpSendEn then
    let s := (udpSendProcess i (net.pbufAlloc i) s).setSlot i fun c => { c with tcpSendEn := false }
    if i = 0 then { s with msg := { s.msg with heartDely := heartDelay } } else s
  else s

/-- The block of `udp_client_process` for one slot. -/
def clientSlot (net : Net) (i : Fin 4) (s : Sys F) : Sys F :=
  let s := clientRecv i s
  if s.pc = .reset then s else clientSend net i s

end GndCtrl
