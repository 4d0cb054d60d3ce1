/-
  Address resolution of lwIP (netif/etharp.c): the table of Ethernet addresses,
  with the packets that wait for one.

  A function fails (`none`) with an assertion.  The frames that it passes to
  `linkoutput` are its output.  Of the other allocators only the success is an
  argument; the pool `MEMP_ARP_QUEUE` is the number of its free elements.
-/
import GndCtrl.Udp
import Mathlib.Data.Fin.VecNotation

namespace GndCtrl

/-- `ARP_TABLE_SIZE` -/
abbrev arpTableSize : ℕ := 10
/-- `MEMP_NUM_ARP_QUEUE` -/
abbrev mempNumArpQueue : ℕ := 30
/-- `ARP_MAXAGE` -/
abbrev arpMaxage : ℕ := 240
/-- `ARP_MAXPENDING` -/
abbrev arpMaxpending : ℕ := 2

/-- `struct eth_addr` -/
abbrev EthAddr := Fin 6 → U8

/-- `ethbroadcast` -/
def ethbroadcast : EthAddr := fun _ => 0xFF
/-- `ethzero` -/
def ethzero : EthAddr := fun _ => 0

/-- The network interface, with its gateway and its Ethernet address. -/
structure EthNetif extends Netif where
  gw : U32
  hwaddr : EthAddr

/-- The interface of `LwIP_Init`. -/
def EthNetif.gnd : EthNetif where
  toNetif := .gnd
  gw := le32 192 168 10 1
  hwaddr := ![0, 0, 0, 0, 0, 3]

/-- `ip_addr_netcmp` with the address of the interface. -/
def ipAddrNetcmp (addr : U32) (n : Netif) : Bool := addr &&& n.netmask == n.ipAddr &&& n.netmask

/-- The addresses that have no entry in the table: none, broadcast and multicast. -/
def nonUnicast (addr : U32) (n : Netif) : Bool :=
  addr == 0 || ipAddrIsbroadcast addr n || ipAddrIsmulticast addr

/-- `struct etharp_hdr`, the numbers in host order. -/
structure EtharpHdr where
  ethDest : EthAddr
  ethSrc : EthAddr
  ethType : U16
  hwtype : U16
  proto : U16
  hwlenProtolen : U16
  opcode : U16
  shwaddr : EthAddr
  sipaddr : U32
  dhwaddr : EthAddr
  dipaddr : U32
  deriving DecidableEq

/-- An IP packet: the addresses of its header, and the rest of it. -/
structure IpPacket (β : Type) where
  src : U32
  dest : U32
  rest : β
  deriving DecidableEq

/-- An Ethernet frame. -/
inductive EthFrame (β : Type) where
  | arp (hdr : EtharpHdr)
  | ip (dest src : EthAddr) (p : IpPacket β)
  deriving DecidableEq

/-- `enum etharp_state` -/
inductive EtharpState where
  | empty
  | pending
  | stable
  deriving DecidableEq

/-- `struct etharp_entry` -/
structure EtharpEntry (β : Type) where
  q : List (IpPacket β)
  ipaddr : U32
  ethaddr : EthAddr
  state : EtharpState
  ctime : ℕ

/-- The ARP table and the free elements of `MEMP_ARP_QUEUE`. -/
structure Etharp (β : Type) where
  arpTable : Fin arpTableSize → EtharpEntry β
  etharpCachedEntry : Fin arpTableSize
  arpQueue : ℕ

/-- The flags of `find_entry`. -/
inductive EtharpFlags where
  | none
  | tryHard
  | findOnly
  deriving DecidableEq

/-- `err_t` -/
inductive ErrT where
  | ok
  | mem
  | buf
  | rte
  | arg
  deriving DecidableEq

/-- The success of the allocators in a call of `etharp_output`: room for the Ethernet header, memory
    for the request and memory for the copy of the packet. -/
structure EtharpEnv where
  header : Bool
  request : Bool
  copy : Bool

variable {β : Type}

namespace Etharp

/-- At start. -/
def init : Etharp β where
  arpTable := fun _ => ⟨[], 0, ethzero, .empty, 0⟩
  etharpCachedEntry := 0
  arpQueue := mempNumArpQueue

/-- Assignments to the fields of an entry. -/
def set (s : Etharp β) (i : Fin arpTableSize) (f : EtharpEntry β → EtharpEntry β) : Etharp β :=
  { s with arpTable := Function.update s.arpTable i (f (s.arpTable i)) }

/-- `free_etharp_q` for the queue of an entry. -/
def freeEtharpQ (i : Fin arpTableSize) (s : Etharp β) : Etharp β :=
  { s.set i fun e => { e with q := [] } with
    arpQueue := s.arpQueue + (s.arpTable i).q.length }

/-! ## The timer -/

/-- A turn of the loop of `etharp_tmr`. -/
def tmrTurn (s : Etharp β) (i : Fin arpTableSize) : Etharp β :=
  let s := s.set i fun e => { e with ctime := (e.ctime + 1) % 2 ^ 8 }
  let e := s.arpTable i
  if e.state = .stable ∧ e.ctime ≥ arpMaxage ∨ e.state = .pending ∧ e.ctime ≥ arpMaxpending then
    let s := if e.q.isEmpty then s else s.freeEtharpQ i
    s.set i fun e => { e with state := .empty }
  else s

/-- `etharp_tmr` -/
def etharpTmr (s : Etharp β) : Etharp β := (List.finRange arpTableSize).foldl tmrTurn s

end Etharp

/-! ## Entries -/

/-- The oldest entry of a kind that `find_entry` has seen, and its age. -/
structure Oldest where
  entry : Option (Fin arpTableSize) := none
  age : ℕ := 0

/-- One more entry of the kind. -/
def Oldest.offer (o : Oldest) (i : Fin arpTableSize) (ctime : ℕ) : Oldest :=
  if ctime ≥ o.age then ⟨some i, ctime⟩ else o

/-- What `find_entry` remembers of its sweep: the first empty entry, and the oldest stable entry and
    pending ones, without and with queued packets. -/
structure Candidates where
  empty : Option (Fin arpTableSize) := none
  oldStable : Oldest := {}
  oldPending : Oldest := {}
  oldQueue : Oldest := {}

/-- The sweep of `find_entry`, over the entries that are left: a match, or the candidates. -/
def sweep (arpTable : Fin arpTableSize → EtharpEntry β) (ipaddr : U32) :
    List (Fin arpTableSize) → Candidates → Fin arpTableSize ⊕ Candidates
  | [], c => .inr c
  | i :: is, c =>
    let e := arpTable i
    if c.empty = none ∧ e.state = .empty then sweep arpTable ipaddr is { c with empty := some i }
    else match e.state with
    | .pending =>
      if ipaddr = e.ipaddr then .inl i
      else if e.q.isEmpty then
        sweep arpTable ipaddr is { c with oldPending := c.oldPending.offer i e.ctime }
      else sweep arpTable ipaddr is { c with oldQueue := c.oldQueue.offer i e.ctime }
    | .stable =>
      if ipaddr = e.ipaddr then .inl i
      else sweep arpTable ipaddr is { c with oldStable := c.oldStable.offer i e.ctime }
    | .empty => sweep arpTable ipaddr is c

namespace Etharp

/-- The end of `find_entry`: the entry chosen becomes an empty one for the address. -/
def newEntry (ipaddr : U32) (i : Fin arpTableSize) (s : Etharp β) : Etharp β :=
  { s.set i fun e => { e with state := .empty, ipaddr := ipaddr, ctime := 0 } with
    etharpCachedEntry := i }

/-- `find_entry` after the test of the cached entry; the result is the entry, or `ERR_MEM`. -/
def searchEntry (ipaddr : U32) (flags : EtharpFlags) (s : Etharp β) :
    Option (Option (Fin arpTableSize) × Etharp β) :=
  match sweep s.arpTable ipaddr (List.finRange arpTableSize) {} with
  | .inl i => some (some i, { s with etharpCachedEntry := i })
  | .inr c =>
    if c.empty = none ∧ flags ≠ .tryHard ∨ flags = .findOnly then some (none, s)
    else match c.empty, c.oldStable.entry, c.oldPending.entry, c.oldQueue.entry with
    | some i, _, _, _ => some (some i, s.newEntry ipaddr i)
    | none, some i, _, _ =>
      -- the assertion that no packets are queued
      if (s.arpTable i).q.isEmpty then some (some i, s.newEntry ipaddr i) else none
    | none, none, some i, _ => some (some i, s.newEntry ipaddr i)
    | none, none, none, some i =>
      -- the assertion of `free_etharp_q`
      if (s.arpTable i).q.isEmpty then none
      else some (some i, (s.freeEtharpQ i).newEntry ipaddr i)
    | none, none, none, none => some (none, s)

/-- `find_entry` -/
def findEntry (ipaddr : U32) (flags : EtharpFlags) (s : Etharp β) :
    Option (Option (Fin arpTableSize) × Etharp β) :=
  let e := s.arpTable s.etharpCachedEntry
  if e.state = .stable ∧ ipaddr = e.ipaddr then some (some s.etharpCachedEntry, s)
  else s.searchEntry ipaddr flags

/-- `etharp_find_addr`: the index and the Ethernet address. -/
def etharpFindAddr (ipaddr : U32) (s : Etharp β) :
    Option (Option (Fin arpTableSize × EthAddr) × Etharp β) := do
  let (o, s) ← s.findEntry ipaddr .findOnly
  match o with
  | some i =>
    return (if (s.arpTable i).state = .stable then some (i, (s.arpTable i).ethaddr) else none, s)
  | none => return (none, s)

/-- `update_arp_entry` -/
def updateArpEntry (n : EthNetif) (ipaddr : U32) (ethaddr : EthAddr) (flags : EtharpFlags)
    (s : Etharp β) : Option (ErrT × List (EthFrame β) × Etharp β) :=
  if nonUnicast ipaddr n.toNetif then some (.arg, [], s)
  else do
    let (o, s) ← s.findEntry ipaddr flags
    match o with
    | some i =>
      let q := (s.arpTable i).q
      let s := s.set i fun e =>
        { e with q := [], state := .stable, ethaddr := ethaddr, ctime := 0 }
      -- the loop sends the queued packets in their order, and gives back their elements
      return (.ok, q.map (.ip ethaddr n.hwaddr), { s with arpQueue := s.arpQueue + q.length })
    | none => return (.mem, [], s)

/-! ## Reception -/

/-- `etharp_ip_input`, with the source addresses of the packet. -/
def etharpIpInput (n : EthNetif) (ethSrc : EthAddr) (src : U32) (s : Etharp β) :
    Option (List (EthFrame β) × Etharp β) :=
  if ipAddrNetcmp src n.toNetif then do
    let (_, fs, s) ← s.updateArpEntry n src ethSrc .none
    return (fs, s)
  else some ([], s)

end Etharp

/-- `sizeof(struct etharp_hdr)` -/
abbrev sizeofEtharpHdr : ℕ := 42

/-- The tests of `etharp_arp_input`, `len` being the length of the first pbuf. -/
def EtharpHdr.valid (len : ℕ) (h : EtharpHdr) : Bool :=
  !decide (len < sizeofEtharpHdr) && (h.hwtype == 1 && h.hwlenProtolen == 0x604 &&
    h.proto == 0x800 && h.ethType == 0x806)

/-- The message is for the interface. -/
def EtharpHdr.forUs (n : EthNetif) (h : EtharpHdr) : Bool := n.ipAddr != 0 && h.dipaddr == n.ipAddr

/-- The reply that `etharp_arp_input` makes of a request. -/
def EtharpHdr.reply (n : EthNetif) (h : EtharpHdr) : EtharpHdr :=
  { h with
    opcode := 2
    dipaddr := h.sipaddr
    sipaddr := n.ipAddr
    dhwaddr := h.shwaddr
    ethDest := h.shwaddr
    shwaddr := n.hwaddr
    ethSrc := n.hwaddr }

/-- The request of `etharp_request`. -/
def EtharpHdr.request (n : EthNetif) (ipaddr : U32) : EtharpHdr where
  ethDest := ethbroadcast
  ethSrc := n.hwaddr
  ethType := 0x806
  hwtype := 1
  proto := 0x800
  hwlenProtolen := 0x604
  opcode := 1
  shwaddr := n.hwaddr
  sipaddr := n.ipAddr
  dhwaddr := ethzero
  dipaddr := ipaddr

namespace Etharp

/-- `etharp_arp_input` -/
def etharpArpInput (n : EthNetif) (len : ℕ) (h : EtharpHdr) (s : Etharp β) :
    Option (List (EthFrame β) × Etharp β) :=
  if h.valid len then do
    let (_, fs, s) ← s.updateArpEntry n h.sipaddr h.shwaddr (if h.forUs n then .tryHard else .none)
    return (if h.opcode = 1 ∧ h.forUs n then fs ++ [.arp (h.reply n)] else fs, s)
  else some ([], s)

/-- `ethernet_input`, up to `ip_input`. -/
def ethernetInput (n : EthNetif) (len : ℕ) (f : EthFrame β) (s : Etharp β) :
    Option (List (EthFrame β) × Etharp β) :=
  match f with
  | .arp h => s.etharpArpInput n len h
  | .ip _ ethSrc p => s.etharpIpInput n ethSrc p.src

/-! ## Output -/

/-- `etharp_request`, with `etharp_raw` -/
def etharpRequest (n : EthNetif) (ipaddr : U32) (allocated : Bool) : ErrT × List (EthFrame β) :=
  if allocated then (.ok, [.arp (.request n ipaddr)]) else (.mem, [])

/-- `etharp_query` of a packet. -/
def etharpQuery (n : EthNetif) (ipaddr : U32) (q : IpPacket β) (env : EtharpEnv) (s : Etharp β) :
    Option (ErrT × List (EthFrame β) × Etharp β) :=
  if nonUnicast ipaddr n.toNetif then some (.arg, [], s)
  else do
    let (o, s) ← s.findEntry ipaddr .tryHard
    match o with
    | none => return (.mem, [], s)
    | some i =>
      let s := if (s.arpTable i).state = .empty then
        s.set i fun e => { e with state := .pending } else s
      if (s.arpTable i).state = .stable then
        return (.ok, [.ip (s.arpTable i).ethaddr n.hwaddr q], s)
      else
        let (result, fs) := etharpRequest n ipaddr env.request
        if env.copy ∧ s.arpQueue ≠ 0 then
          let s := s.set i fun e => { e with q := e.q ++ [q] }
          return (.ok, fs, { s with arpQueue := s.arpQueue - 1 })
        -- the packet is dropped; the result is that of the request
        else return (result, fs, s)

end Etharp

/-- The Ethernet address of a multicast group. -/
def mcastaddr (ipaddr : U32) : EthAddr :=
  ![0x01, 0x00, 0x5E, (ipaddr >>> 8).setWidth 8 &&& 0x7F, (ipaddr >>> 16).setWidth 8,
    (ipaddr >>> 24).setWidth 8]

/-- The host to which a packet goes first: the receiver, or the gateway. -/
def nextHop (n : EthNetif) (ipaddr : U32) : U32 :=
  if ipAddrNetcmp ipaddr n.toNetif then ipaddr else n.gw

namespace Etharp

/-- `etharp_output` -/
def etharpOutput (n : EthNetif) (q : IpPacket β) (ipaddr : U32) (env : EtharpEnv) (s : Etharp β) :
    Option (ErrT × List (EthFrame β) × Etharp β) :=
  if env.header = false then some (.buf, [], s)
  else if ipAddrIsbroadcast ipaddr n.toNetif then
    some (.ok, [.ip ethbroadcast n.hwaddr q], s)
  else if ipAddrIsmulticast ipaddr then some (.ok, [.ip (mcastaddr ipaddr) n.hwaddr q], s)
  else if ipAddrNetcmp ipaddr n.toNetif = false ∧ n.gw = 0 then some (.rte, [], s)
  else s.etharpQuery n (nextHop n ipaddr) q env

end Etharp

/-! ## Runs -/

/-- A call of a function of etharp.c. -/
inductive EtharpOp (β : Type) where
  | tmr
  | input (len : ℕ) (f : EthFrame β)
  | output (q : IpPacket β) (env : EtharpEnv)

/-- The call, with the frames it sends. -/
def Etharp.step (n : EthNetif) (s : Etharp β) :
    EtharpOp β → Option (List (EthFrame β) × Etharp β)
  | .tmr => some ([], s.etharpTmr)
  | .input len f => s.ethernetInput n len f
  | .output q env => do
    let (_, fs, s) ← s.etharpOutput n q q.dest env
    return (fs, s)

end GndCtrl
