/-
  The firmware over its UDP stack refines the firmware with an assumed one.

  `Lwip.Inv` relates the slots to the control blocks: a slot has no block, a
  fresh one that is not in the active list, or one that is bound to port 9902
  and connected to the slot's own peer; the blocks of the slots differ, and all
  others are free.  Six blocks are enough for four slots, so `udp_new` never
  fails, and a packet finds the block of a slot just when it comes from the
  slot's peer.
-/
import GndCtrl.Demux
import GndCtrl.Lib.Pool
import GndCtrl.Lib.Simulation
import GndCtrl.Lwip
import GndCtrl.Mirror

namespace GndCtrl

open CNum CFloat

variable {F : Type}

/-! ## The calls of a slot -/

/-- A block bound to `LOCAL_UDP_PORT` and connected to the peer of slot `i`. -/
def UdpBlock.connectedTo (i : Fin 4) : UdpBlock :=
  ⟨0, localUdpPort, (endpoint i).addr, (endpoint i).port, true, 255, true⟩

namespace Udp
variable (p : Fin mempNumUdpPcb) (u : Udp)

theorem mem_listed {q : Fin mempNumUdpPcb} : q ∈ u.listed p ↔ q = p ∨ q ∈ u.udpPcbs := by
  unfold listed
  split_ifs with hp
  · constructor
    · exact .inr
    · rintro (rfl | hq)
      · exact hp
      · exact hq
  · exact List.mem_cons

theorem nodup_listed (h : u.udpPcbs.Nodup) : (u.listed p).Nodup := by
  unfold listed
  split_ifs with hp
  · exact h
  · exact List.nodup_cons.2 ⟨hp, h⟩

theorem udpBind_port {port : U16} (hport : port ≠ 0) (ip : U32) : u.udpBind p ip port =
    (true, { (u.set p fun b => { b with localIp := ip, localPort := port }) with
      udpPcbs := u.listed p }) := by
  simp only [udpBind, if_neg hport, set, Function.update_idem, Function.update_self, listed]
  split_ifs <;> rfl

theorem udpConnect_bound {u : Udp} (hport : (u.mem p).localPort ≠ 0) (remote : Endpoint) :
    u.udpConnect p remote = (true, { (u.set p fun b =>
      { b with remoteIp := remote.addr, remotePort := remote.port, connected := true }) with
      udpPcbs := u.listed p }) := by
  simp only [udpConnect, if_neg hport, if_true, set, listed]
  split_ifs <;> rfl

/-- The three calls of `udp_echoclient_connect` for slot `i`. -/
theorem connect_eq (i : Fin 4) {u : Udp} (hb : (u.mem p).ttl = 255) :
    let r := (u.udpBind p 0 localUdpPort).2.udpConnect p (endpoint i)
    r.1 = true ∧ r.2.udpRecv p =
      { u with mem := Function.update u.mem p (.connectedTo i), udpPcbs := u.listed p } := by
  have h9902 : localUdpPort ≠ 0 := by decide
  have hbind := udpBind_port p u h9902 0
  have hport : ((u.udpBind p 0 localUdpPort).2.mem p).localPort ≠ 0 := by
    rw [hbind]
    simp
  have hin : p ∈ u.listed p := (mem_listed p u).2 (.inl rfl)
  intro r
  have hr : r = _ := udpConnect_bound p hport (endpoint i)
  rw [hr, hbind]
  refine ⟨rfl, ?_⟩
  have hlisted : Udp.listed p { u with udpPcbs := u.listed p } = u.listed p := if_pos hin
  simp only [udpRecv, set, Function.update_idem, Function.update_self, hb]
  exact congrArg (Udp.mk _ _) hlisted

end Udp

/-! ## The invariant -/

/-- What slot `i` and its pointer `pcb` have of each other. -/
inductive SlotPcb (u : Udp) (i : Fin 4) (c : TcpClientTable) : Option (Fin mempNumUdpPcb) → Prop
  | none (hok : c.connectIsOk = false) (hpcb : c.echoclientPcb = none) : SlotPcb u i c none
  | fresh (p : Fin mempNumUdpPcb) (hok : c.connectIsOk = true)
      (hpcb : c.echoclientPcb = some ⟨Option.none, false⟩) (hb : u.mem p = .fresh)
      (hl : p ∉ u.udpPcbs) : SlotPcb u i c (some p)
  | connected (p : Fin mempNumUdpPcb) (hok : c.connectIsOk = true)
      (hpcb : c.echoclientPcb = some ⟨some (endpoint i), true⟩)
      (hb : u.mem p = .connectedTo i) (hl : p ∈ u.udpPcbs) : SlotPcb u i c (some p)

/-- The slots agree in their connection. -/
structure SameConn (c c' : TcpClientTable) : Prop where
  ok : c'.connectIsOk = c.connectIsOk
  pcb : c'.echoclientPcb = c.echoclientPcb

theorem SameConn.refl (c : TcpClientTable) : SameConn c c := ⟨rfl, rfl⟩

theorem SameConn.of_eq {c c' : TcpClientTable} (h : c' = c) : SameConn c c' := h ▸ .refl c

theorem Taken.conn {c c' : TcpClientTable} (h : Taken c c') : SameConn c c' := by
  rcases h with rfl | ⟨-, b, n, rfl⟩
  · exact .refl _
  · exact ⟨rfl, rfl⟩

/-- The blocks agree in what they say about `p`. -/
structure SameBlock (u u' : Udp) (p : Fin mempNumUdpPcb) : Prop where
  mem : u'.mem p = u.mem p
  listed : p ∈ u'.udpPcbs ↔ p ∈ u.udpPcbs

theorem SlotPcb.same {u u' : Udp} {i : Fin 4} {c c' : TcpClientTable}
    {pcb : Option (Fin mempNumUdpPcb)} (h : SlotPcb u i c pcb) (hc : SameConn c c')
    (hu : ∀ p, pcb = some p → SameBlock u u' p) : SlotPcb u' i c' pcb := by
  cases h with
  | none hok hpcb => exact .none (hc.ok.trans hok) (hc.pcb.trans hpcb)
  | fresh p hok hpcb hb hl =>
    obtain ⟨hm, hlist⟩ := hu p rfl
    exact .fresh p (hc.ok.trans hok) (hc.pcb.trans hpcb) (hm.trans hb) (mt hlist.1 hl)
  | connected p hok hpcb hb hl =>
    obtain ⟨hm, hlist⟩ := hu p rfl
    exact .connected p (hc.ok.trans hok) (hc.pcb.trans hpcb) (hm.trans hb) (hlist.2 hl)

namespace Lwip

/-- The control blocks between two operations. -/
structure Inv (l : Lwip F) : Prop where
  slot : ∀ i, SlotPcb l.udp i (l.sys.tcpClientList i) (l.echoclientPcb i)
  pool : Pool l.udp.free l.echoclientPcb
  listed : ∀ p ∈ l.udp.udpPcbs, ∃ i, l.echoclientPcb i = some p
  nodup : l.udp.udpPcbs.Nodup

theorem inv_init [CNum F] (ty : U8) : (init ty : Lwip F).Inv where
  slot i := .none rfl rfl
  pool := .start (List.nodup_reverse.2 (List.nodup_finRange _))
    fun p => List.mem_reverse.2 (List.mem_finRange p)
  listed := by
    intro p h
    cases h
  nodup := List.nodup_nil

namespace Inv
variable {l : Lwip F}

/-- An operation that leaves the connections and the control blocks alone. -/
theorem same (h : l.Inv) {s : Sys F}
    (hs : ∀ i, SameConn (l.sys.tcpClientList i) (s.tcpClientList i)) : Inv { l with sys := s } where
  slot i := (h.slot i).same (hs i) fun _ _ => ⟨rfl, Iff.rfl⟩
  pool := h.pool
  listed := h.listed
  nodup := h.nodup

/-! ## Creation -/

theorem creat (h : l.Inv) {i : Fin 4} (hnone : l.echoclientPcb i = none) :
    (l.creatUdpConnectProcess i).Inv ∧
      (l.creatUdpConnectProcess i).sys = GndCtrl.creatUdpConnectProcess i true l.sys := by
  cases hfree : l.udp.free with
  | nil =>
    -- six blocks for four slots
    exact absurd hfree (h.pool.free_ne_nil (by simp [mempNumUdpPcb]))
  | cons p free =>
    have hpool := h.pool
    rw [hfree] at hpool
    have hnew : l.udp.udpNew = (some p,
        { l.udp with free := free, mem := Function.update l.udp.mem p .fresh }) := by
      simp only [Udp.udpNew, hfree]
    simp only [creatUdpConnectProcess, hnew, Option.isSome_some]
    refine ⟨⟨?_, hpool.take hnone, ?_, h.nodup⟩, trivial⟩
    · intro j
      by_cases hj : j = i
      · subst hj
        dsimp only
        rw [Function.update_self]
        have hself : (GndCtrl.creatUdpConnectProcess j true l.sys).tcpClientList j = _ :=
          Sys.setSlot_self ..
        refine .fresh p (by rw [hself]; rfl) (by rw [hself]; rfl) (Function.update_self ..) ?_
        intro hl
        obtain ⟨k, hk⟩ := h.listed p hl
        exact hpool.ne_head hk rfl
      · dsimp only
        rw [Function.update_of_ne hj]
        refine (h.slot j).same (.of_eq ?_) fun q hq => ⟨?_, Iff.rfl⟩
        · rw [GndCtrl.creatUdpConnectProcess, Sys.setSlot_ne _ _ hj]
        · exact Function.update_of_ne (hpool.ne_head hq) ..
    · intro q hq
      obtain ⟨j, hj⟩ := h.listed q hq
      exact ⟨j, (Pool.update_eq_some hnone).2 (.inr hj)⟩

/-! ## Connection and transmission -/

theorem connect (h : l.Inv) {i : Fin 4} (hok : (l.sys.tcpClientList i).connectIsOk = true) :
    ∃ l', l.udpEchoclientConnect i = some l' ∧ l'.Inv ∧
      l'.sys = GndCtrl.udpEchoclientConnect i true l.sys := by
  have hdest : (getIpParaProcess i (l.sys.tcpClientList i)).dest = endpoint i :=
    Addressed.dest (i := i) (c := getIpParaProcess i (l.sys.tcpClientList i)) ⟨rfl, rfl⟩
  obtain ⟨p, hp, httl⟩ : ∃ p, l.echoclientPcb i = some p ∧ (l.udp.mem p).ttl = 255 := by
    have hslot := h.slot i
    generalize l.echoclientPcb i = pcb at hslot ⊢
    cases hslot with
    | none hno =>
      rw [hok] at hno
      cases hno
    | fresh p _ _ hb => exact ⟨p, rfl, congrArg UdpBlock.ttl hb⟩
    | connected p _ _ hb => exact ⟨p, rfl, congrArg UdpBlock.ttl hb⟩
  obtain ⟨hret, hudp⟩ := Udp.connect_eq p i httl
  have hsys : (GndCtrl.udpEchoclientConnect i true l.sys).tcpClientList i = _ :=
    Sys.setSlot_self ..
  refine ⟨{ l with
      sys := GndCtrl.udpEchoclientConnect i true l.sys
      udp := { l.udp with
        mem := Function.update l.udp.mem p (.connectedTo i), udpPcbs := l.udp.listed p } },
    ?_, ⟨?_, h.pool, ?_, Udp.nodup_listed p l.udp h.nodup⟩, rfl⟩
  · simp only [udpEchoclientConnect, hp, hdest, Option.bind_eq_bind, Option.bind_some, hret,
      if_true, hudp]
    rfl
  · intro j
    by_cases hj : j = i
    · subst hj
      dsimp only
      rw [hp]
      refine .connected p ?_ ?_ (Function.update_self ..) ((Udp.mem_listed p _).2 (.inl rfl))
      · rw [hsys]
        exact hok
      · rw [hsys]
        exact congrArg (fun d => some (UdpPcb.mk (some d) true)) hdest
    · have hsame := Sys.setSlot_ne l.sys (fun c => let c := getIpParaProcess i c
          { c with echoclientPcb := some ⟨some c.dest, true⟩, tcpClientStatue := .connectOk }) hj
      refine (h.slot j).same (.of_eq hsame) fun q hq => ?_
      have hqp : q ≠ p := by
        rintro rfl
        exact hj (h.pool.inj j i q hq hp)
      refine ⟨Function.update_of_ne hqp .., ?_⟩
      rw [Udp.mem_listed]
      exact or_iff_right hqp
  · intro q hq
    rcases (Udp.mem_listed p _).1 hq with rfl | hq
    · exact ⟨i, hp⟩
    · exact h.listed q hq

/-- The control block of a slot that is up. -/
theorem live (h : l.Inv) {i : Fin 4} (hc : SlotOk i (l.sys.tcpClientList i))
    (hi : (l.sys.tcpClientList i).tcpClientStatue = .connectOk) :
    ∃ p, l.echoclientPcb i = some p ∧ l.udp.mem p = .connectedTo i := by
  obtain ⟨-, hpcb⟩ := hc.live (.inl hi)
  have hslot := h.slot i
  generalize l.echoclientPcb i = pcb at hslot ⊢
  cases hslot with
  | none _ hnone =>
    rw [hnone] at hpcb
    cases hpcb
  | fresh p _ hnew =>
    rw [hnew] at hpcb
    cases hpcb
  | connected p _ _ hb => exact ⟨p, rfl, hb⟩

end Inv

/-- The datagram of a frame that slot `i` gives to `udp_send`. -/
def datagram (i : Fin 4) (frame : List U8) : Sent :=
  ⟨⟨Netif.gnd.ipAddr, localUdpPort⟩, endpoint i, 255, frame⟩

theorem udpSend_connected {u : Udp} {p : Fin mempNumUdpPcb} {i : Fin 4}
    (hb : u.mem p = .connectedTo i) (data : List U8) :
    u.udpSend .gnd p data = (some (datagram i data), u) := by
  have hport : (u.mem p).localPort ≠ 0 := by
    rw [hb]
    simp [UdpBlock.connectedTo]
  simp only [Udp.udpSend, if_neg hport]
  rw [hb]
  rfl

/-- The datagrams of a history. -/
def datagrams (log : List Obs) : List Sent :=
  log.filterMap fun
    | .send i frame => some (datagram i frame)
    | _ => none

theorem datagrams_append (log log' : List Obs) :
    datagrams (log ++ log') = datagrams log ++ datagrams log' := List.filterMap_append

/-! ## What the firmware sees of the stack -/

/-- The datagram in a packet for the slots. -/
def seenRx (d : Packet) : Option Datagram :=
  if ipInput .gnd d ∧ d.dest.port = localUdpPort then some ⟨d.src, d.p, d.junk⟩ else none

/-- The calls succeed but for `pbuf_alloc`. -/
def seenEnv (env : LwipEnv) : Env :=
  ⟨⟨fun _ => true, fun _ => true, env.pbufAlloc⟩, env.link, env.rx.bind seenRx⟩

/-- The input of the firmware. -/
def seen : LwipInput → Input
  | .irq i => .irq i
  | .main env => .main (seenEnv env)

/-- The step `r` of the stack is the step of the firmware to `s'`. -/
def Refines (l : Lwip F) (r : Option (List Sent × Lwip F)) (s' : Sys F) : Prop :=
  ∃ sent l', r = some (sent, l') ∧ l'.Inv ∧ l'.sys = s' ∧
    datagrams s'.log = datagrams l.sys.log ++ sent

/-- A step that sends nothing. -/
theorem Refines.silent {l l' : Lwip F} (h : l'.Inv)
    (hl : datagrams l'.sys.log = datagrams l.sys.log) : Refines l (some ([], l')) l'.sys :=
  ⟨[], l', rfl, h, rfl, by rw [hl, List.append_nil]⟩

theorem udpSendProcess_eq {l : Lwip F} {i : Fin 4} {p : Fin mempNumUdpPcb}
    (hp : l.echoclientPcb i = some p) (hb : l.udp.mem p = .connectedTo i) (allocated : Bool) :
    ∃ sent, l.udpSendProcess i allocated =
        some (sent, { l with sys := GndCtrl.udpSendProcess i allocated l.sys }) ∧
      datagrams (GndCtrl.udpSendProcess i allocated l.sys).log = datagrams l.sys.log ++ sent := by
  cases allocated with
  | false => exact ⟨[], rfl, (List.append_nil _).symm⟩
  | true =>
    refine ⟨[datagram i (l.sys.tcpClientList i).frame], ?_, datagrams_append ..⟩
    simp only [udpSendProcess, hp, Option.bind_eq_bind, Option.bind_some, if_true,
      udpSend_connected hb]
    rfl

theorem refines_clientSend (env : LwipEnv) {i : Fin 4} {l : Lwip F} (h : l.Inv)
    (hc : SlotOk i (l.sys.tcpClientList i)) :
    Refines l (l.clientSend env i) (GndCtrl.clientSend (seenEnv env).toNet i l.sys) := by
  unfold clientSend GndCtrl.clientSend
  by_cases hno : (l.sys.tcpClientList i).connectIsOk = false
  · have hnone : l.echoclientPcb i = none := by
      have hslot := h.slot i
      generalize l.echoclientPcb i = pcb at hslot ⊢
      cases hslot with
      | none => rfl
      | fresh p hok =>
        rw [hok] at hno
        cases hno
      | connected p hok =>
        rw [hok] at hno
        cases hno
    obtain ⟨hinv, hsys⟩ := h.creat hnone
    simp only [if_pos hno]
    change Refines l _ (GndCtrl.creatUdpConnectProcess i true l.sys)
    rw [← hsys]
    refine .silent hinv ?_
    rw [hsys]
    rfl
  have hok : (l.sys.tcpClientList i).connectIsOk = true := by simpa using hno
  by_cases hd : (l.sys.tcpClientList i).tcpClientStatue = .disConnect
  · obtain ⟨l', hl', hinv, hsys⟩ := h.connect hok
    simp only [if_neg hno, if_pos hd, hl']
    change Refines l _ (GndCtrl.udpEchoclientConnect i true l.sys)
    rw [← hsys]
    refine .silent hinv ?_
    rw [hsys]
    rfl
  by_cases hs : (l.sys.tcpClientList i).tcpClientStatue = .connectOk ∧
      (l.sys.tcpClientList i).tcpSendEn = true
  · obtain ⟨p, hp, hb⟩ := h.live hc hs.1
    obtain ⟨sent, hsent, hlog⟩ := udpSendProcess_eq hp hb (env.pbufAlloc i)
    simp only [if_neg hno, if_neg hd, if_pos hs, hsent]
    have hconn : ∀ j, SameConn (l.sys.tcpClientList j)
        (((GndCtrl.udpSendProcess i (env.pbufAlloc i) l.sys).setSlot i
          fun c => { c with tcpSendEn := false }).tcpClientList j) := by
      refine setSlot_cases (Q := fun j c => SameConn (l.sys.tcpClientList j) c) ?_ fun j _ => ?_
      · rw [udpSendProcess_slots]
        exact ⟨rfl, rfl⟩
      · rw [udpSendProcess_slots]
        exact .refl _
    refine ⟨sent, _, rfl, h.same fun j => ?_, rfl, ?_⟩
    · split_ifs
      · exact hconn j
      · exact hconn j
    · dsimp only [seenEnv]
      split_ifs
      · exact hlog
      · exact hlog
  · simp only [if_neg hno, if_neg hd, if_neg hs]
    exact .silent h rfl

/-! ## Reception -/

namespace Inv
variable {l : Lwip F} (h : l.Inv)
include h

/-- A block of the active list is connected to the peer of its slot. -/
theorem of_listed {p : Fin mempNumUdpPcb} (hp : p ∈ l.udp.udpPcbs) :
    ∃ i, l.echoclientPcb i = some p ∧ l.udp.mem p = .connectedTo i ∧
      (l.sys.tcpClientList i).echoclientPcb = some ⟨some (endpoint i), true⟩ := by
  obtain ⟨i, hi⟩ := h.listed p hp
  have hslot := h.slot i
  rw [hi] at hslot
  cases hslot with
  | fresh _ _ _ _ hl => exact absurd hp hl
  | connected _ _ hpcb hb => exact ⟨i, hi, hb, hpcb⟩

theorem pointer {i : Fin 4} {remote : Endpoint}
    (hi : (l.sys.tcpClientList i).echoclientPcb = some ⟨some remote, true⟩) :
    ∃ p, l.echoclientPcb i = some p := by
  have hslot := h.slot i
  generalize l.echoclientPcb i = pcb at hslot ⊢
  cases hslot with
  | none _ hnone =>
    rw [hnone] at hi
    cases hi
  | fresh p => exact ⟨p, rfl⟩
  | connected p => exact ⟨p, rfl⟩

theorem connected : l.udp.Connected where
  connected := by
    intro p hp
    obtain ⟨i, -, hb, -⟩ := h.of_listed hp
    rw [hb]
    rfl
  remoteIp := by
    intro p hp
    obtain ⟨i, -, hb, -⟩ := h.of_listed hp
    rw [hb]
    have haddr : ∀ j, (endpoint j).addr ≠ 0 := by decide
    exact haddr i
  inj := by
    intro p hp q hq haddr hport
    obtain ⟨i, hi, hbi, -⟩ := h.of_listed hp
    obtain ⟨j, hj, hbj, -⟩ := h.of_listed hq
    rw [hbi, hbj] at haddr hport
    have hij : endpoint i = endpoint j := congrArg₂ Endpoint.mk haddr hport
    rw [endpoint_injective i j hij, hj] at hi
    exact (Option.some.inj hi).symm

/-- The block that a packet finds. -/
theorem udpInput_iff (d : Packet) (p : Fin mempNumUdpPcb) :
    (Udp.udpInput .gnd d l.udp).1 = some p ↔ ∃ i, l.echoclientPcb i = some p ∧
      (l.sys.tcpClientList i).echoclientPcb = some ⟨some d.src, true⟩ ∧
      d.dest.port = localUdpPort := by
  rw [h.connected.udpInput_eq_some_iff]
  have hmatch : ∀ i, Udp.localMatch .gnd d (.connectedTo i) = true ↔
      d.dest.port = localUdpPort := by
    intro i
    simp only [Udp.localMatch, UdpBlock.connectedTo, Bool.and_eq_true, beq_iff_eq]
    cases ipAddrIsbroadcast d.dest.addr .gnd <;> simp [eq_comm]
  constructor
  · rintro ⟨hp, hl, hsrc, -⟩
    obtain ⟨i, hi, hb, hpcb⟩ := h.of_listed hp
    rw [hb] at hl hsrc
    have hsrc' : endpoint i = d.src := hsrc
    exact ⟨i, hi, by rw [hpcb, hsrc'], (hmatch i).1 hl⟩
  · rintro ⟨i, hi, hpcb, hport⟩
    have hslot := h.slot i
    rw [hi] at hslot
    cases hslot with
    | fresh _ _ hnew =>
      rw [hnew] at hpcb
      cases hpcb
    | connected _ _ hup hb hl =>
      rw [hup, Option.some.injEq, UdpPcb.mk.injEq, Option.some.injEq] at hpcb
      rw [hb]
      exact ⟨hl, (hmatch i).2 hport, hpcb.1, rfl⟩

/-- A packet for the slots is a datagram for the firmware; another changes nothing but the order of
    the active list. -/
theorem input (d : Packet) : (l.input d).Inv ∧ (l.input d).sys =
    match seenRx d with
    | some d => GndCtrl.udpInput d l.sys
    | none => l.sys := by
  by_cases hip : ipInput .gnd d = true
  swap
  · have hsame : l.input d = l := if_neg hip
    have hnone : seenRx d = none := if_neg fun hd => hip hd.1
    rw [hsame, hnone]
    exact ⟨h, rfl⟩
  have hperm : (Udp.udpInput .gnd d l.udp).2.udpPcbs.Perm l.udp.udpPcbs := by
    rw [Udp.udpInput_snd]
    exact searchFront_perm _ _
  have hmem : (Udp.udpInput .gnd d l.udp).2.mem = l.udp.mem := by rw [Udp.udpInput_snd]
  have hfree : (Udp.udpInput .gnd d l.udp).2.free = l.udp.free := by rw [Udp.udpInput_snd]
  have hinv : ∀ s : Sys F, (∀ i, SameConn (l.sys.tcpClientList i) (s.tcpClientList i)) →
      Inv { l with sys := s, udp := (Udp.udpInput .gnd d l.udp).2 } := by
    intro s hs
    constructor
    · intro i
      refine (h.slot i).same (hs i) fun p _ => ⟨?_, hperm.mem_iff⟩
      rw [hmem]
    · dsimp only
      rw [hfree]
      exact h.pool
    · intro p hp
      exact h.listed p (hperm.mem_iff.1 hp)
    · exact hperm.nodup_iff.2 h.nodup
  have hfound := h.udpInput_iff d
  simp only [Lwip.input, if_pos hip]
  cases hpcb : (Udp.udpInput .gnd d l.udp).1 with
  | none =>
    refine ⟨hinv l.sys fun _ => .refl _, ?_⟩
    by_cases hport : d.dest.port = localUdpPort
    · -- no slot is connected to the source
      have hnot : ¬ ∃ i, (l.sys.tcpClientList i).echoclientPcb = some ⟨some d.src, true⟩ := by
        rintro ⟨i, hi⟩
        obtain ⟨p, hp⟩ := h.pointer hi
        have hsome := (hfound p).2 ⟨i, hp, hi, hport⟩
        rw [hpcb] at hsome
        cases hsome
      have hd : seenRx d = some ⟨d.src, d.p, d.junk⟩ := if_pos ⟨hip, hport⟩
      rw [hd]
      exact (if_neg hnot).symm
    · have hnone : seenRx d = none := if_neg fun hd => hport hd.2
      rw [hnone]
  | some p =>
    obtain ⟨i, hi, hsrc, hport⟩ := (hfound p).1 hpcb
    have hremote : (⟨(l.udp.mem p).remoteIp, (l.udp.mem p).remotePort⟩ : Endpoint) = d.src := by
      have hslot := h.slot i
      rw [hi] at hslot
      cases hslot with
      | fresh _ _ hnew =>
        rw [hnew] at hsrc
        cases hsrc
      | connected _ _ hup hb =>
        rw [hup, Option.some.injEq, UdpPcb.mk.injEq, Option.some.injEq] at hsrc
        rw [hb]
        exact hsrc.1
    have hd : seenRx d = some ⟨d.src, d.p, d.junk⟩ := if_pos ⟨hip, hport⟩
    have hsys : GndCtrl.udpInput ⟨d.src, d.p, d.junk⟩ l.sys =
        udpReceiveCallback d.src d.p d.junk l.sys := if_pos ⟨i, hsrc⟩
    simp only [hmem, hremote, hd, hsys]
    refine ⟨hinv _ fun j => ?_, trivial⟩
    rw [← hsys]
    exact (udpInput_taken _ _ j).conn

end Inv

section
variable {D : Type} [CNum F] [CNum D] [CFloat F D]

/-- The first half of a slot's block leaves the connections alone. -/
theorem clientRecv_conn {i : Fin 4} {s : Sys F} (hp : s.pc ≠ .reset) (j : Fin 4) :
    SameConn (s.tcpClientList j) ((clientRecv i s).tcpClientList j) := by
  rcases clientRecv_cases i hp with ⟨-, e⟩ | ⟨-, -, e⟩ | ⟨-, -, s', ⟨d, q, n, rfl, -⟩, e⟩ <;> rw [e]
  · exact .refl _
  · exact .refl _
  · by_cases hj : j = i
    · subst hj
      rw [Sys.setSlot_self]
      exact ⟨rfl, rfl⟩
    · rw [Sys.setSlot_ne _ _ hj]
      exact .refl _

theorem clientRecv_datagrams {i : Fin 4} {s : Sys F} (hp : s.pc ≠ .reset) :
    datagrams (clientRecv i s).log = datagrams s.log := by
  rcases clientRecv_cases i hp with ⟨-, e⟩ | ⟨-, -, e⟩ | ⟨-, -, s', ⟨d, q, n, rfl, -⟩, e⟩ <;> rw [e]
  · simp only [bootReset, Sys.note_log, datagrams_append]
    exact (List.append_nil _).trans (List.append_nil _)
  · simp only [Sys.setSlot_log, Sys.note_log, datagrams_append]
    exact List.append_nil _

theorem refines_clientSlot (env : LwipEnv) {i : Fin 4} {l : Lwip F} (h : l.Inv)
    (hd : Delivering l.sys) (hp : l.sys.pc = .client i) :
    Refines l (l.clientSlot env i) (GndCtrl.clientSlot (seenEnv env).toNet i l.sys) := by
  have hlive : l.sys.pc ≠ .reset := by simp [hp]
  have hinv : Inv { l with sys := clientRecv i l.sys } := h.same fun j => clientRecv_conn hlive j
  have hlog := clientRecv_datagrams (i := i) hlive
  unfold clientSlot GndCtrl.clientSlot
  rcases hd.received hp with ⟨hpc, -⟩ | ⟨hpc, hslot, -⟩
  · simp only [if_pos hpc]
    exact .silent hinv hlog
  · have hpc' : (clientRecv i l.sys).pc ≠ .reset := by simp [hpc]
    simp only [if_neg hpc']
    obtain ⟨sent, l', hr, hl', hsys, hlog'⟩ := refines_clientSend env hinv hslot
    exact ⟨sent, l', hr, hl', hsys, by rw [hlog', hlog]⟩

/-! ## Steps -/

omit [CNum F] in
theorem commit_conn (i : Fin 4) (t : U16) (r : Mem × ℕ) (s : Sys F) (j : Fin 4) :
    SameConn (s.tcpClientList j) ((commit i t r s).tcpClientList j) := by
  by_cases hj : j = i
  · subst hj
    rw [commit_self]
    exact ⟨rfl, rfl⟩
  · rw [commit_ne t r s hj]
    exact .refl _

/-- Outside the blocks of the slots no connection changes and nothing is sent. -/
theorem mainStep_conn (env : Env) {s : Sys F} (hc : ∀ i, s.pc ≠ .client i) :
    (∀ j, SameConn (s.tcpClientList j) ((GndCtrl.mainStep env s).tcpClientList j)) ∧
      datagrams (GndCtrl.mainStep env s).log = datagrams s.log := by
  refine mainStep_cases (P := fun s' => (∀ j, SameConn (s.tcpClientList j) (s'.tcpClientList j)) ∧
    datagrams s'.log = datagrams s.log) env ?_ ⟨fun _ => .refl _, rfl⟩ ?_ ?_ ?_ ?_ ?_ ?_ ?_
  · intro s' pc h
    rwa [goto_tcpClientList, goto_log]
  · exact fun _ => ⟨fun _ => .refl _, rfl⟩
  · intro d _
    obtain ⟨c, pc, e, -⟩ := udpInput_cases d s
    exact ⟨fun j => (udpInput_taken d s j).conn, by rw [e]⟩
  · exact fun i hi => absurd hi (hc i)
  · intro _
    rcases sendMessageToSever_cases s with e | ⟨-, e | ⟨t, r, s', e, hk, hb⟩⟩ <;> rw [e]
    · exact ⟨fun _ => .refl _, rfl⟩
    · exact ⟨fun _ => .refl _, rfl⟩
    · refine ⟨fun j => ?_, ?_⟩
      · have hj := commit_conn 0 t r s' j
        rwa [hk.slots] at hj
      · rw [commit_log, datagrams_append]
        rcases hb.log with hl | ⟨record, hl⟩ <;> rw [hl]
        · exact List.append_nil _
        · rw [datagrams_append]
          exact (List.append_nil _).trans (List.append_nil _)
  · intro _
    simp only [funGnd2wcsStateMsg]
    split_ifs <;> exact ⟨fun _ => .refl _, rfl⟩
  · rintro i s' (⟨-, rfl⟩ | ⟨-, c, rfl | ⟨t, r, rfl⟩⟩) -
    · exact ⟨fun _ => .refl _, rfl⟩
    · exact ⟨fun _ => .refl _, rfl⟩
    · refine ⟨commit_conn i t r { s with cars := c }, ?_⟩
      rw [commit_log, datagrams_append]
      exact List.append_nil _
  · intro _
    simp only [secProcess]
    split_ifs <;> exact ⟨fun _ => .refl _, rfl⟩

theorem refines_irq {l : Lwip F} (h : l.Inv) (i : Irq) :
    Refines l (l.step (.irq i)) (l.sys.step (.irq i)) := by
  have hslots := (irq_slots l.sys i).1
  refine .silent (h.same fun j => .of_eq (congrFun hslots j)) ?_
  simp only [Sys.step]
  split_ifs
  · rfl
  · rcases irq_cases l.sys i with ⟨_, tim2, junk, _, -, he⟩ | ⟨d, m, c, he, -⟩ <;> rw [he]
    exact (datagrams_append ..).trans (List.append_nil _)

omit [CNum F] in
/-- A step of the stack followed by `goto`. -/
theorem Refines.goto {l : Lwip F} {r : Option (List Sent × Lwip F)} {s' : Sys F}
    (h : Refines l r s') (pc : Pc) :
    Refines l (r.bind fun x => some (x.1, { x.2 with sys := x.2.sys.goto pc })) (s'.goto pc) := by
  obtain ⟨sent, l', rfl, hl', rfl, hlog⟩ := h
  refine ⟨sent, _, rfl, hl'.same fun j => .of_eq ?_, rfl, ?_⟩
  · rw [goto_tcpClientList]
  · rw [goto_log, hlog]

theorem refines_main {l : Lwip F} (h : l.Inv) (hd : Delivering l.sys) (env : LwipEnv) :
    Refines l (l.mainStep env) (GndCtrl.mainStep (seenEnv env) l.sys) := by
  have hother : (∀ i, l.sys.pc ≠ .client i) →
      Refines l (some ([], { l with sys := GndCtrl.mainStep (seenEnv env) l.sys }))
        (GndCtrl.mainStep (seenEnv env) l.sys) := by
    intro hc
    obtain ⟨hconn, hlog⟩ := mainStep_conn (seenEnv env) hc
    exact .silent (h.same hconn) hlog
  cases hp : l.sys.pc with
  | rx =>
    simp only [mainStep, GndCtrl.mainStep, hp, seenEnv]
    cases env.rx with
    | none => exact (Refines.silent (l := l) h rfl).goto _
    | some d =>
      obtain ⟨hinv, hsys⟩ := h.input d
      have hlog : datagrams (l.input d).sys.log = datagrams l.sys.log := by
        rw [hsys]
        cases seenRx d with
        | none => rfl
        | some d' =>
          obtain ⟨c, pc, e, -⟩ := udpInput_cases d' l.sys
          simp only [e]
      have hr := (Refines.silent hinv hlog).goto (.client 0)
      rw [hsys] at hr
      simp only [Option.bind_some]
      cases hseen : seenRx d with
      | none =>
        rw [hseen] at hr
        exact hr
      | some d' =>
        rw [hseen] at hr
        exact hr
  | client i =>
    have hslot := (refines_clientSlot env h hd hp).goto (if i = 3 then .send else .client (i + 1))
    simp only [mainStep, GndCtrl.mainStep, hp]
    exact hslot
  | _ =>
    have hr := hother (by simp [hp])
    simp only [mainStep, GndCtrl.mainStep, hp] at hr ⊢
    exact hr

theorem refines_step {l : Lwip F} (h : l.Inv) (hd : Delivering l.sys) (e : LwipInput) :
    Refines l (l.step e) (l.sys.step (seen e)) := by
  cases e with
  | irq i => exact refines_irq h i
  | main env => exact refines_main h hd env

/-- The history only grows. -/
theorem log_step (s : Sys F) (e : Input) : s.log <+: (s.step e).log := by
  rcases step_cases s e with ⟨-, -, tim2, junk, he⟩ | ⟨-, -, he⟩ | ⟨-, -, hapart⟩
  · rw [he]
    exact List.prefix_append _ _
  · rw [he, goto_log]
    rcases sendMessage_cases (token s) (popped s) with ⟨e, -⟩ | ⟨t, r, s', e, -, hb, -⟩ <;> rw [e]
    · rfl
    · rw [commit_log]
      rcases hb.log with hl | ⟨record, hl⟩ <;> rw [hl]
      · exact List.prefix_append _ _
      · rw [List.append_assoc]
        exact List.prefix_append _ _
  · obtain ⟨l, hl, -⟩ := hapart.log
    rw [hl]
    exact List.prefix_append _ _

/-- What a step of the firmware sends. -/
def sentBy (s : Sys F) (e : LwipInput) : List Sent :=
  (datagrams (s.step (seen e)).log).drop (datagrams s.log).length

theorem simulates : Simulates (step (F := F)) (fun s e => s.step (seen e)) sentBy
    fun l s => l.sys = s ∧ l.Inv ∧ Delivering s where
  step_eq := by
    rintro l _ e ⟨rfl, h, hd⟩
    obtain ⟨sent, l', hstep, hinv, hsys, hlog⟩ := refines_step h hd e
    have hsent : sentBy l.sys e = sent := by
      rw [sentBy, hlog, List.drop_left]
    refine ⟨l', by rw [hstep, hsent], hsys, hinv, ?_⟩
    exact delivering_step l.sys _ hd

/-- Every run succeeds, in a state that represents that of the firmware. -/
theorem reaches (ty : U8) (es : List LwipInput) :
    let s := run Sys.step (.init ty : Sys F) (es.map seen)
    ∃ l, tryRun step (init ty : Lwip F) es = some (datagrams s.log, l) ∧ l.sys = s ∧ l.Inv := by
  obtain ⟨l, hrun, hsys, hinv, -⟩ :=
    simulates.tryRun_eq (s := (init ty : Lwip F)) es ⟨rfl, inv_init ty, delivering_init ty⟩
  have hmap : run (fun (s : Sys F) e => s.step (seen e)) (.init ty) es =
      run Sys.step (.init ty) (es.map seen) := by
    rw [run, run, List.foldl_map]
  have hgrows : ∀ (s : Sys F) e, datagrams s.log <+: datagrams (s.step (seen e)).log := by
    intro s e
    obtain ⟨log, hlog⟩ := log_step s (seen e)
    rw [← hlog, datagrams_append]
    exact List.prefix_append _ _
  have hsent := run_history (f := fun s : Sys F => datagrams s.log) hgrows (.init ty) es
  rw [hmap] at hsent
  intro s
  refine ⟨l, ?_, hsys.trans hmap, hinv⟩
  rw [hsent]
  exact hrun

/-- **The firmware over its UDP stack** does what the firmware does whose calls of the stack succeed
    and that gets the datagrams from the peers of its slots: no call of the stack fails, except
    `pbuf_alloc`, which is an input, and no null pointer is used, the datagrams sent are those of the firmware, each from port 9902 to the peer
    of its slot, and the active list has the blocks of the connected slots, each once. -/
theorem lwip_refines (ty : U8) (es : List LwipInput) :
    let s := run Sys.step (.init ty : Sys F) (es.map seen)
    ∃ l, tryRun step (init ty : Lwip F) es = some (datagrams s.log, l) ∧ l.sys = s ∧
      l.udp.udpPcbs.Nodup ∧ ∀ p, p ∈ l.udp.udpPcbs ↔ ∃ i, l.echoclientPcb i = some p ∧
        (s.tcpClientList i).echoclientPcb = some ⟨some (endpoint i), true⟩ := by
  intro s
  obtain ⟨l, hrun, hsys, h⟩ := reaches (F := F) ty es
  refine ⟨l, hrun, hsys, h.nodup, fun p => ?_⟩
  have hs : l.sys = s := hsys
  rw [← hs]
  constructor
  · intro hp
    obtain ⟨i, hi, -, hpcb⟩ := h.of_listed hp
    exact ⟨i, hi, hpcb⟩
  · rintro ⟨i, hi, hpcb⟩
    have hslot := h.slot i
    rw [hi] at hslot
    cases hslot with
    | fresh _ _ hnew =>
      rw [hnew] at hpcb
      cases hpcb
    | connected _ _ _ _ hl => exact hl

/-- **Strangers are ignored.**  In every state that is reached a packet whose source is no peer of a
    slot changes nothing. -/
theorem stranger_ignored (ty : U8) (es : List LwipInput) (d : Packet)
    (hd : ∀ i, d.src ≠ endpoint i) :
    ∃ sent l, tryRun step (init ty : Lwip F) es = some (sent, l) ∧ l.input d = l := by
  obtain ⟨l, hrun, -, h⟩ := reaches (F := F) ty es
  refine ⟨_, l, hrun, ?_⟩
  have hnot : ∀ p ∈ l.udp.udpPcbs, Udp.full .gnd d l.udp.mem p = false := by
    intro p hp
    obtain ⟨i, -, hb, -⟩ := h.of_listed hp
    rw [Bool.eq_false_iff]
    intro hfull
    have hsrc := ((h.connected.full_iff .gnd d hp).1 hfull).2
    rw [hb] at hsrc
    exact hd i hsrc.symm
  have hfind : l.udp.udpPcbs.find? (Udp.full .gnd d l.udp.mem) = none :=
    List.find?_eq_none.2 fun p hp => by simp [hnot p hp]
  have hfst : (Udp.udpInput .gnd d l.udp).1 = none := by
    rw [Udp.udpInput_fst, hfind, h.connected.uncon_eq_none]
    rfl
  have hsnd : (Udp.udpInput .gnd d l.udp).2 = l.udp := by
    rw [Udp.udpInput_snd, searchFront, hfind]
  unfold input
  split_ifs
  · simp only [hfst, hsnd]
  · rfl

end

/-- A packet from port 9902 of another host, when all slots are connected. -/
theorem stranger_ignored_host :
    let up : LwipInput := .main ⟨true, fun _ => true, none⟩
    ∃ sent l, tryRun step (init 0 : Lwip Num) (List.replicate 27 up) = some (sent, l) ∧
      l.input ⟨⟨le32 192 168 10 77, 9902⟩, ⟨Netif.gnd.ipAddr, 9902⟩,
        ⟨[1, 2], [], fun _ => 0⟩, 0⟩ = l :=
  stranger_ignored 0 _ _ (by decide)

end Lwip

end GndCtrl
