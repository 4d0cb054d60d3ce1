/-
  The firmware with the UDP stack below it.

  In `Sys` the results of the stack are inputs.  Here they are those of `Udp`:
  `echoclient_pcb` points to a block of its pool, the calls of the slots change
  the block, and a received packet finds its block by `udp_input`.  The use of a
  null pointer is a failure of the step.

  What remains of the surroundings is the link, the success of `pbuf_alloc` and
  the packets received.
-/
import GndCtrl.Main
import GndCtrl.Udp

namespace GndCtrl

open CNum CFloat

variable {F D : Type} [CNum F] [CNum D] [CFloat F D]

/-- The firmware, the control blocks and the pointers of the slots. -/
structure Lwip (F : Type) where
  sys : Sys F
  udp : Udp
  echoclientPcb : Fin 4 → Option (Fin mempNumUdpPcb)

/-- What the surroundings do in one operation of the main loop. -/
structure LwipEnv where
  link : Bool
  pbufAlloc : Fin 4 → Bool
  rx : Option Packet

/-- An interrupt, or the next operation of the main loop. -/
inductive LwipInput where
  | irq (i : Irq)
  | main (env : LwipEnv)

/-- `LOCAL_UDP_PORT` -/
abbrev localUdpPort : U16 := 9902

namespace Lwip

/-- The firmware when `main` enters its loop. -/
def init (inverterType : U8) : Lwip F where
  sys := .init inverterType
  udp := .init
  echoclientPcb := fun _ => none

/-- `creat_udp_connect_process` -/
def creatUdpConnectProcess (i : Fin 4) (l : Lwip F) : Lwip F :=
  let (pcb, u) := l.udp.udpNew
  { sys := GndCtrl.creatUdpConnectProcess i pcb.isSome l.sys
    udp := u
    echoclientPcb := Function.update l.echoclientPcb i pcb }

/-- `udp_echoclient_connect` -/
def udpEchoclientConnect (i : Fin 4) (l : Lwip F) : Option (Lwip F) := do
  let p ← l.echoclientPcb i
  let dest := (getIpParaProcess i (l.sys.tcpClientList i)).dest
  let (ok, u) := (l.udp.udpBind p 0 localUdpPort).2.udpConnect p dest
  return { l with
    sys := GndCtrl.udpEchoclientConnect i ok l.sys
    udp := if ok then u.udpRecv p else u }

/-- `udp_send_process` -/
def udpSendProcess (i : Fin 4) (allocated : Bool) (l : Lwip F) :
    Option (List Sent × Lwip F) := do
  if allocated then
    let p ← l.echoclientPcb i
    let (sent, u) := l.udp.udpSend .gnd p (l.sys.tcpClientList i).frame
    return (sent.toList, { l with sys := GndCtrl.udpSendProcess i true l.sys, udp := u })
  else return ([], l)

/-- The second half of a slot's block: create, connect or send. -/
def clientSend (env : LwipEnv) (i : Fin 4) (l : Lwip F) : Option (List Sent × Lwip F) := do
  let c := l.sys.tcpClientList i
  if c.connectIsOk = false then return ([], l.creatUdpConnectProcess i)
  else if c.tcpClientStatue = .disConnect then
    let l ← l.udpEchoclientConnect i
    return ([], l)
  else if c.tcpClientStatue = .connectOk ∧ c.tcpSendEn then
    let (sent, l) ← l.udpSendProcess i (env.pbufAlloc i)
    let s := l.sys.setSlot i fun c => { c with tcpSendEn := false }
    let s := if i = 0 then { s with msg := { s.msg with heartDely := heartDelay } } else s
    return (sent, { l with sys := s })
  else return ([], l)

/-- The block of `udp_client_process` for one slot. -/
def clientSlot (env : LwipEnv) (i : Fin 4) (l : Lwip F) : Option (List Sent × Lwip F) :=
  let l := { l with sys := clientRecv i l.sys }
  if l.sys.pc = .reset then some ([], l) else l.clientSend env i

/-- A received packet: the block found calls `udp_receive_callback`. -/
def input (d : Packet) (l : Lwip F) : Lwip F :=
  if ipInput .gnd d then
    let (pcb, u) := l.udp.udpInput .gnd d
    match pcb with
    | some p =>
      let upcb := u.mem p
      { l with
        sys := udpReceiveCallback ⟨upcb.remoteIp, upcb.remotePort⟩ d.p d.junk l.sys
        udp := u }
    | none => { l with udp := u }
  else l

/-- One operation of the main loop, with the datagrams it sends. -/
def mainStep (env : LwipEnv) (l : Lwip F) : Option (List Sent × Lwip F) :=
  match l.sys.pc with
  | .rx =>
    let l := match env.rx with
      | some d => l.input d
      | none => l
    some ([], { l with sys := l.sys.goto (.client 0) })
  | .client i => do
    let (sent, l) ← l.clientSlot env i
    return (sent, { l with sys := l.sys.goto (if i = 3 then .send else .client (i + 1)) })
  -- the others do not call the stack
  | _ => some ([], { l with sys := GndCtrl.mainStep { Env.up none with link := env.link } l.sys })

/-- One step of the firmware. -/
def step (l : Lwip F) : LwipInput → Option (List Sent × Lwip F)
  | .irq i => some ([], { l with sys := l.sys.step (.irq i) })
  | .main env => l.mainStep env

end Lwip

end GndCtrl
