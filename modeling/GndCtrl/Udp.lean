/-
  The UDP control blocks of lwIP (core/udp.c, with the pool of memp.c), the way
  of a datagram to a callback, with the address tests of `ip_input` and the
  search of `udp_input`, and the way of one from `udp_send`.

  A pointer to a control block is its index in the pool; the list `udp_pcbs`
  and the free list of the pool are lists of indices.
-/
import GndCtrl.TcpClient
import GndCtrl.Lib.MoveToFront
import GndCtrl.Lib.While

namespace GndCtrl

/-- `MEMP_NUM_UDP_PCB` -/
abbrev mempNumUdpPcb : ℕ := 6

/-- `struct udp_pcb`, without the list pointer; `connected` is `UDP_FLAGS_CONNECTED` and `recv` the
    callback of the application. -/
structure UdpBlock where
  localIp : U32
  localPort : U16
  remoteIp : U32
  remotePort : U16
  connected : Bool
  ttl : U8
  recv : Bool
  deriving DecidableEq

/-- A control block of `udp_new`. -/
def UdpBlock.fresh : UdpBlock := ⟨0, 0, 0, 0, false, 255, false⟩

/-- The control blocks: the memory of the pool, its free blocks and the active list. -/
structure Udp where
  mem : Fin mempNumUdpPcb → UdpBlock
  free : List (Fin mempNumUdpPcb)
  udpPcbs : List (Fin mempNumUdpPcb)

/-- After `memp_init`: the last block of the pool is the first of the free list. -/
def Udp.init : Udp where
  mem := fun _ => .fresh
  free := (List.finRange mempNumUdpPcb).reverse
  udpPcbs := []

namespace Udp

/-- Assignments to the fields of a block. -/
def set (u : Udp) (p : Fin mempNumUdpPcb) (f : UdpBlock → UdpBlock) : Udp :=
  { u with mem := Function.update u.mem p (f (u.mem p)) }

@[simp] theorem set_free (u : Udp) (p : Fin mempNumUdpPcb) (f : UdpBlock → UdpBlock) :
    (u.set p f).free = u.free := rfl

@[simp] theorem set_udpPcbs (u : Udp) (p : Fin mempNumUdpPcb) (f : UdpBlock → UdpBlock) :
    (u.set p f).udpPcbs = u.udpPcbs := rfl

@[simp] theorem set_self (u : Udp) (p : Fin mempNumUdpPcb) (f : UdpBlock → UdpBlock) :
    (u.set p f).mem p = f (u.mem p) := Function.update_self ..

/-- `udp_new` -/
def udpNew (u : Udp) : Option (Fin mempNumUdpPcb) × Udp :=
  match u.free with
  | [] => (none, u)
  | p :: free => (some p, { u with free := free, mem := Function.update u.mem p .fresh })

/-! ## Binding -/

/-- `UDP_LOCAL_PORT_RANGE_START` -/
abbrev udpLocalPortRangeStart : U16 := 4096
/-- `UDP_LOCAL_PORT_RANGE_END` -/
abbrev udpLocalPortRangeEnd : U16 := 0x7FFF

/-- One turn of the loop of `udp_bind` that looks for a port: `r` is the port and the rest of the
    list; a port in use is passed over, and the scan starts again. -/
def scanPort (ports : List U16) (r : U16 × List U16) (_ : Unit) : U16 × List U16 :=
  match r.2 with
  | [] => r
  | p :: ps => if p = r.1 then (r.1 + 1, ports) else (r.1, ps)

/-- The condition of that loop. -/
def scanning (r : U16 × List U16) : Bool := !r.2.isEmpty && r.1 != udpLocalPortRangeEnd

/-- The port that `udp_bind` takes when none is given, `ports` being those of the active list. -/
def freePort (ports : List U16) : Option U16 :=
  match whileLoop scanning (scanPort ports) (fun _ => ()) (2 ^ 16 * (ports.length + 1)) 0
    (udpLocalPortRangeStart, ports) with
  | some (_, r) => if r.2.isEmpty then some r.1 else none
  | none => none

/-- `udp_bind`; the result is `ERR_OK`, or `ERR_USE` when no port is left. -/
def udpBind (p : Fin mempNumUdpPcb) (ip : U32) (port : U16) (u : Udp) : Bool × Udp :=
  let u := u.set p fun b => { b with localIp := ip }
  let port := if port = 0 then freePort (u.udpPcbs.map fun p' => (u.mem p').localPort)
    else some port
  match port with
  | none => (false, u)
  | some port =>
    let u := u.set p fun b => { b with localPort := port }
    (true, if p ∈ u.udpPcbs then u else { u with udpPcbs := p :: u.udpPcbs })

/-- `udp_connect` -/
def udpConnect (p : Fin mempNumUdpPcb) (remote : Endpoint) (u : Udp) : Bool × Udp :=
  let (ok, u) := if (u.mem p).localPort = 0 then udpBind p (u.mem p).localIp 0 u else (true, u)
  if ok then
    let u := u.set p fun b =>
      { b with remoteIp := remote.addr, remotePort := remote.port, connected := true }
    (true, if p ∈ u.udpPcbs then u else { u with udpPcbs := p :: u.udpPcbs })
  else (false, u)

/-- The active list with `p` in it. -/
def listed (p : Fin mempNumUdpPcb) (u : Udp) : List (Fin mempNumUdpPcb) :=
  if p ∈ u.udpPcbs then u.udpPcbs else p :: u.udpPcbs

/-- `udp_recv` with the callback of the application. -/
def udpRecv (p : Fin mempNumUdpPcb) (u : Udp) : Udp := u.set p fun b => { b with recv := true }

end Udp

/-! ## Reception -/

/-- The address and the netmask of the network interface. -/
structure Netif where
  ipAddr : U32
  netmask : U32

/-- The addresses of `LwIP_Init`. -/
def Netif.gnd : Netif := ⟨le32 192 168 10 100, le32 255 255 255 0⟩

/-- `ip_addr_isbroadcast`, for an interface with `NETIF_FLAG_BROADCAST`. -/
def ipAddrIsbroadcast (addr : U32) (n : Netif) : Bool :=
  if ~~~addr = 0 ∨ addr = 0 then true
  else if addr = n.ipAddr then false
  else addr &&& n.netmask == n.ipAddr &&& n.netmask && addr &&& ~~~n.netmask == ~~~n.netmask

/-- `ip_addr_ismulticast`; the address is in network order. -/
def ipAddrIsmulticast (addr : U32) : Bool := addr &&& 0xF0 == 0xE0

/-- A UDP datagram in a received IP packet. -/
structure Packet where
  src : Endpoint
  dest : Endpoint
  p : Pbuf
  junk : U8

/-- The address tests of `ip_input`: the packet is for the interface, and its source is valid. -/
def ipInput (n : Netif) (d : Packet) : Bool :=
  (d.dest.addr == n.ipAddr || ipAddrIsbroadcast d.dest.addr n) &&
    !(ipAddrIsbroadcast d.src.addr n || ipAddrIsmulticast d.src.addr)

namespace Udp

/-- The test of the local address and port in `udp_input`. -/
def localMatch (n : Netif) (d : Packet) (b : UdpBlock) : Bool :=
  let broadcast := ipAddrIsbroadcast d.dest.addr n
  b.localPort == d.dest.port &&
    (!broadcast && b.localIp == 0 || b.localIp == d.dest.addr || broadcast)

/-- The test of the remote address and port. -/
def remoteMatch (d : Packet) (b : UdpBlock) : Bool :=
  b.remotePort == d.src.port && (b.remoteIp == 0 || b.remoteIp == d.src.addr)

/-- The loop of `udp_input`: the block that matches fully and the first unconnected one that matches
    locally, if any, and the active list, in which the former goes to the front.  `prev` are the
    blocks passed over, the last one first. -/
def udpLookup (n : Netif) (d : Packet) (mem : Fin mempNumUdpPcb → UdpBlock) :
    (prev : List (Fin mempNumUdpPcb)) → (unconPcb : Option (Fin mempNumUdpPcb)) →
    List (Fin mempNumUdpPcb) →
    Option (Fin mempNumUdpPcb) × Option (Fin mempNumUdpPcb) × List (Fin mempNumUdpPcb)
  | prev, unconPcb, [] => (none, unconPcb, prev.reverse)
  | prev, unconPcb, p :: l =>
    let here := localMatch n d (mem p)
    let unconPcb := if here && unconPcb.isNone && !(mem p).connected then some p else unconPcb
    if here && remoteMatch d (mem p) then (some p, unconPcb, p :: (prev.reverse ++ l))
    else udpLookup n d mem (p :: prev) unconPcb l

/-- `udp_input`: the block whose callback is called, if any. -/
def udpInput (n : Netif) (d : Packet) (u : Udp) : Option (Fin mempNumUdpPcb) × Udp :=
  let (pcb, unconPcb, l) := udpLookup n d u.mem [] none u.udpPcbs
  let u := { u with udpPcbs := l }
  match pcb.or unconPcb with
  | some p => (if (u.mem p).recv then some p else none, u)
  | none => (none, u)

end Udp

/-! ## Transmission -/

/-- A datagram that `udp_send` gives to `ip_output_if`. -/
structure Sent where
  src : Endpoint
  dest : Endpoint
  ttl : U8
  data : List U8
  deriving DecidableEq

/-- `udp_send` of the data of a pbuf with room for the headers, on the interface `n`. -/
def Udp.udpSend (n : Netif) (p : Fin mempNumUdpPcb) (data : List U8) (u : Udp) :
    Option Sent × Udp :=
  let (ok, u) := if (u.mem p).localPort = 0 then udpBind p (u.mem p).localIp 0 u else (true, u)
  let b := u.mem p
  -- the local address may be an old one of the interface
  if ok ∧ (b.localIp = 0 ∨ b.localIp = n.ipAddr) then
    (some ⟨⟨n.ipAddr, b.localPort⟩, ⟨b.remoteIp, b.remotePort⟩, b.ttl, data⟩, u)
  else (none, u)

end GndCtrl
