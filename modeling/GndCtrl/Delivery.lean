/-
  Delivery of datagrams to the handlers.

  `Delivering` is the invariant of the slots: a connected slot has the control
  block and the address of its own peer, a slot that holds no message has the
  receive length `0`, and at most one slot holds a message, between the receive
  callback and that slot's block of `udp_client_process`.

  `delivery` follows one datagram through an iteration: interrupts may come
  between any two operations, and the handler of its slot gets it once, and no
  other handler gets anything.
-/
import GndCtrl.Steps

namespace GndCtrl

open CNum CFloat

variable {F : Type}

/-! ## Endpoints -/

/-- The peer of a slot. -/
def endpoint (i : Fin 4) : Endpoint := (getIpParaProcess i TcpClientTable.init).dest

theorem endpoint_injective : ∀ i j : Fin 4, endpoint i = endpoint j → i = j := by decide

/-- The slot holds the address of its peer. -/
def Addressed (i : Fin 4) (c : TcpClientTable) : Prop :=
  c.destIp = (ipPara i).1 ∧ c.destPort = (ipPara i).2

theorem Addressed.dest {i : Fin 4} {c : TcpClientTable} (h : Addressed i c) :
    c.dest = endpoint i := by
  simp only [TcpClientTable.dest, endpoint, getIpParaProcess, h.1, h.2]

/-- The address test of the callback compares all of the address. -/
theorem matches_iff {i : Fin 4} {c : TcpClientTable} (h : Addressed i c) (remote : Endpoint) :
    c.matches remote = true ↔ remote = endpoint i := by
  have hm : c.matches remote = (getIpParaProcess i TcpClientTable.init).matches remote := by
    simp only [TcpClientTable.matches, h.1, h.2, getIpParaProcess]
  rw [hm]
  constructor
  · intro hr
    simp only [TcpClientTable.matches, Bool.and_eq_true, beq_iff_eq, List.all_eq_true,
      List.mem_finRange, forall_const] at hr
    obtain ⟨addr, port⟩ := remote
    obtain ⟨hport, hip⟩ := hr
    have hb : le32 (byte 0 addr) (byte 1 addr) (byte 2 addr) (byte 3 addr) = addr := le32_byte addr
    have h0 := hip 0
    have h1 := hip 1
    have h2 := hip 2
    have h3 := hip 3
    rw [endpoint, TcpClientTable.dest, h0, h1, h2, h3, ← hport]
    exact congrArg (Endpoint.mk · port) hb.symm
  · rintro rfl
    clear hm h
    revert i
    decide

/-! ## The invariant -/

/-- What holds of a slot at any time. -/
structure SlotOk (i : Fin 4) (c : TcpClientTable) : Prop where
  live : c.tcpClientStatue = .connectOk ∨ c.tcpClientStatue = .connectRecv →
    Addressed i c ∧ c.echoclientPcb = some ⟨some (endpoint i), true⟩
  empty : c.tcpClientStatue ≠ .connectRecv → c.tcpRecevLen = 0

/-- The slots between two operations. -/
structure Delivering (s : Sys F) : Prop where
  slot : ∀ i, SlotOk i (s.tcpClientList i)
  recv : ∀ i, (s.tcpClientList i).tcpClientStatue = .connectRecv →
    (∃ j, s.pc = .client j ∧ j ≤ i) ∨ s.pc = .reset
  one : ∀ i j, (s.tcpClientList i).tcpClientStatue = .connectRecv →
    (s.tcpClientList j).tcpClientStatue = .connectRecv → i = j

/-- Only the receive side of a slot matters to delivery. -/
structure SameRecv (c c' : TcpClientTable) : Prop where
  statue : c'.tcpClientStatue = c.tcpClientStatue
  len : c'.tcpRecevLen = c.tcpRecevLen
  buf : c'.tcpRecevBuf = c.tcpRecevBuf
  pcb : c'.echoclientPcb = c.echoclientPcb
  ip : c'.destIp = c.destIp
  port : c'.destPort = c.destPort

theorem SameRecv.refl (c : TcpClientTable) : SameRecv c c := ⟨rfl, rfl, rfl, rfl, rfl, rfl⟩

theorem SlotOk.same {i : Fin 4} {c c' : TcpClientTable} (h : SlotOk i c) (hc : SameRecv c c') :
    SlotOk i c' := by
  constructor
  · intro hl
    rw [hc.statue] at hl
    obtain ⟨⟨hi, hp⟩, hpcb⟩ := h.live hl
    exact ⟨⟨hc.ip.trans hi, hc.port.trans hp⟩, hc.pcb.trans hpcb⟩
  · intro hn
    rw [hc.statue] at hn
    exact hc.len.trans (h.empty hn)

/-! ## The callback -/

section
variable {remote : Endpoint} {p : Pbuf}

/-- A slot that the callback takes the datagram into. -/
def Hit (remote : Endpoint) (s : Sys F) (i : Fin 4) : Prop :=
  (s.tcpClientList i).matches remote = true ∧ (s.tcpClientList i).tcpClientStatue = .connectOk

theorem receiveSlot_skip {r : U8 × Sys F} {i : Fin 4} (h : ¬ Hit remote r.2 i) :
    receiveSlot remote p r i = r := by
  obtain ⟨m, s⟩ := r
  simp only [receiveSlot]
  by_cases hp : s.pc = .hang
  · rw [if_pos hp]
  · rw [if_neg hp, if_neg (show ¬ (_ ∧ _) from h)]

theorem foldl_skip {α β : Type} {f : β → α → β} {r : β} {l : List α}
    (h : ∀ j ∈ l, f r j = r) : l.foldl f r = r := by
  induction l with
  | nil => rfl
  | cons j l ih =>
    rw [List.foldl_cons, h j (List.mem_cons_self ..)]
    exact ih fun k hk => h k (List.mem_cons_of_mem _ hk)

/-- The callback stores the datagram in the slot of its sender, if that slot is
    connected and idle; it does not return from a datagram of 256 to 1500
    bytes. -/
theorem udpReceiveCallback_cases (remote : Endpoint) (p : Pbuf) (junk : U8) {s : Sys F}
    (hs : ∀ i, SlotOk i (s.tcpClientList i)) (hp : s.pc ≠ .hang) :
    ((∀ i, ¬ Hit remote s i) ∧ udpReceiveCallback remote p junk s = s) ∨
      ∃ i, Hit remote s i ∧ remote = endpoint i ∧
        ((255 < p.totLen ∧ p.totLen ≤ tcpRecevBuffSize ∧
            udpReceiveCallback remote p junk s = { s with pc := .hang }) ∨
          (¬ (255 < p.totLen ∧ p.totLen ≤ tcpRecevBuffSize) ∧
            ∃ m : U8, (p.totLen ≤ 255 → m.toNat = p.totLen) ∧
              udpReceiveCallback remote p junk s = s.setSlot i (.receive p m))) := by
  by_cases hh : ∃ i, Hit remote s i
  · obtain ⟨i, hi⟩ := hh
    have hmatch : ∀ j, Hit remote s j → remote = endpoint j := fun j hj =>
      (matches_iff ((hs j).live (.inl hj.2)).1 remote).1 hj.1
    have huniq : ∀ j, Hit remote s j → j = i := fun j hj =>
      endpoint_injective j i ((hmatch j hj).symm.trans (hmatch i hi))
    refine .inr ⟨i, hi, hmatch i hi, ?_⟩
    obtain ⟨l₁, l₂, hl⟩ := List.append_of_mem (List.mem_finRange i)
    have hnd := List.nodup_finRange 4
    rw [hl] at hnd
    have h1 : ∀ j ∈ l₁, j ≠ i := by
      rintro j hj rfl
      exact (List.nodup_append.1 hnd).2.2 j hj j (List.mem_cons_self ..) rfl
    have h2 : ∀ j ∈ l₂, j ≠ i := by
      rintro j hj rfl
      exact (List.nodup_cons.1 (List.nodup_append.1 hnd).2.1).1 hj
    -- the slots before and after slot `i` are passed over
    have hfold : ∀ r', receiveSlot remote p (junk, s) i = r' → (∀ j, j ≠ i → ¬ Hit remote r'.2 j) →
        udpReceiveCallback remote p junk s = r'.2 := by
      intro r' hr hj
      rw [udpReceiveCallback, hl, List.foldl_append,
        foldl_skip fun j hj => receiveSlot_skip fun h => h1 j hj (huniq j h), List.foldl_cons, hr,
        foldl_skip fun j hj' => receiveSlot_skip (hj j (h2 j hj'))]
    by_cases hb : 255 < p.totLen ∧ p.totLen ≤ tcpRecevBuffSize
    · refine .inl ⟨hb.1, hb.2, hfold (junk, { s with pc := .hang }) ?_ fun j hj h => hj (huniq j h)⟩
      simp only [receiveSlot, if_neg hp, if_pos (show _ ∧ _ from hi), if_pos hb]
    · obtain ⟨m, hm⟩ : ∃ m : U8,
          m = if p.totLen ≤ tcpRecevBuffSize then BitVec.ofNat 8 p.totLen else junk := ⟨_, rfl⟩
      refine .inr ⟨hb, m, ?_, hfold (m, s.setSlot i (.receive p m)) ?_ ?_⟩
      · intro h255
        rw [hm, if_pos (show p.totLen ≤ 1500 by omega), BitVec.toNat_ofNat, Nat.mod_eq_of_lt (by omega)]
      · simp only [receiveSlot, if_neg hp, if_pos (show _ ∧ _ from hi), if_neg hb, hm]
      · intro j hj h
        have he : (s.setSlot i (.receive p m)).tcpClientList j = s.tcpClientList j :=
          Sys.setSlot_ne s _ hj
        simp only [Hit, he] at h
        exact hj (huniq j h)
  · refine .inl ⟨fun i hi => hh ⟨i, hi⟩, ?_⟩
    rw [udpReceiveCallback, foldl_skip fun j _ => receiveSlot_skip fun h => hh ⟨j, h⟩]

theorem slotOk_receive {i : Fin 4} {c : TcpClientTable} (h : SlotOk i c)
    (hc : c.tcpClientStatue = .connectOk) (p : Pbuf) (m : U8) : SlotOk i (c.receive p m) :=
  ⟨fun _ => h.live (.inl hc), fun hn => absurd rfl hn⟩

end

/-! ## The block of a slot -/

/-- The second half keeps the invariant of its slot and takes no message. -/
theorem clientSend_slot (net : Net) {i : Fin 4} {s : Sys F} (h : SlotOk i (s.tcpClientList i))
    (hn : (s.tcpClientList i).tcpClientStatue ≠ .connectRecv) :
    SlotOk i ((clientSend net i s).tcpClientList i) ∧
      ((clientSend net i s).tcpClientList i).tcpClientStatue ≠ .connectRecv := by
  have h0 := h.empty hn
  rcases clientSend_cases net i s with ⟨-, e⟩ | ⟨-, hd, e⟩ | ⟨-, ho, -, m, s', hs, e, -⟩ | ⟨-, -, -, e⟩ <;>
    rw [e]
  · rw [creatUdpConnectProcess, Sys.setSlot_self]
    split_ifs
    · exact ⟨⟨by simp, fun _ => h0⟩, by simp⟩
    · exact ⟨⟨by simp, fun _ => h0⟩, by simp⟩
  · rw [udpEchoclientConnect, Sys.setSlot_self]
    simp only
    split_ifs
    · refine ⟨⟨fun _ => ⟨⟨rfl, rfl⟩, ?_⟩, fun _ => h0⟩, by simp⟩
      exact congrArg (fun d => some (UdpPcb.mk (some d) true))
        (Addressed.dest (i := i) (c := getIpParaProcess i (s.tcpClientList i)) ⟨rfl, rfl⟩)
    · refine ⟨⟨?_, fun _ => h0⟩, hn⟩
      intro hl
      simp [getIpParaProcess, hd] at hl
  · rw [Sys.setSlot_self, hs, udpSendProcess_slots]
    exact ⟨h.same ⟨rfl, rfl, rfl, rfl, rfl, rfl⟩, hn⟩
  · exact ⟨h, hn⟩

theorem SameRecv.commit (i j : Fin 4) (t : U16) (r : Mem × ℕ) (s : Sys F) :
    SameRecv (s.tcpClientList j) ((commit i t r s).tcpClientList j) := by
  by_cases hj : j = i
  · rw [hj, commit_self]; exact ⟨rfl, rfl, rfl, rfl, rfl, rfl⟩
  · rw [commit_ne t r s hj]; exact .refl _

theorem sendMessageToSever_sameRecv (s : Sys F) (j : Fin 4) :
    SameRecv (s.tcpClientList j) ((sendMessageToSever s).tcpClientList j) := by
  rcases sendMessageToSever_cases s with e | ⟨-, e | ⟨t, r, s', e, hk, -⟩⟩ <;> rw [e]
  · exact .refl _
  · exact .refl _
  · have hj := SameRecv.commit 0 j t r s'
    rwa [hk.slots] at hj

theorem CarSent.sameRecv {i : Fin 4} {s s' : Sys F} (h : CarSent i s s') (j : Fin 4) :
    SameRecv (s.tcpClientList j) (s'.tcpClientList j) := by
  rcases h with ⟨-, rfl⟩ | ⟨-, c, rfl | ⟨t, r, rfl⟩⟩
  · exact .refl _
  · exact .refl _
  · exact .commit i j t r { s with cars := c }

/-! ## The handlers' part of the history -/

/-- The messages given to the handlers. -/
def handled (log : List Obs) : List (Fin 4 × List U8) :=
  log.filterMap fun
    | .handle i data => some (i, data)
    | _ => none

@[simp] theorem handled_append (l l' : List Obs) : handled (l ++ l') = handled l ++ handled l' :=
  List.filterMap_append

@[simp] theorem handled_commit (i : Fin 4) (t : U16) (f : List U8) :
    handled [.commit i t f] = [] := rfl

@[simp] theorem handled_interval (r : IntervalData) : handled [.interval r] = [] := rfl

theorem Built.handled {s s' : Sys F} {t : U16} {f : List U8} (h : Built s t f s') :
    handled s'.log = handled s.log := by
  rcases h.log with hl | ⟨record, hl⟩
  · rw [hl]
  · rw [hl, handled_append, handled_interval, List.append_nil]

theorem sendMessageToSever_handled (s : Sys F) :
    handled (sendMessageToSever s).log = handled s.log := by
  rcases sendMessageToSever_cases s with e | ⟨-, e | ⟨t, r, s', e, -, hb⟩⟩ <;> rw [e]
  · rfl
  · rw [commit_log, handled_append, hb.handled]
    simp

theorem CarSent.handled {i : Fin 4} {s s' : Sys F} (h : CarSent i s s') :
    handled s'.log = handled s.log := by
  rcases h with ⟨-, rfl⟩ | ⟨-, c, rfl | ⟨t, r, rfl⟩⟩ <;> simp

theorem clientSend_handled (net : Net) (i : Fin 4) (s : Sys F) :
    handled (clientSend net i s).log = handled s.log := by
  rcases clientSend_cases net i s with ⟨-, e⟩ | ⟨-, -, e⟩ | ⟨-, -, -, m, s', hs, e, -⟩ |
    ⟨-, -, -, e⟩ <;> rw [e]
  · rfl
  · rfl
  · rw [hs, Sys.setSlot_log, udpSendProcess]
    split_ifs
    · rw [Sys.note_log, handled_append]; exact List.append_nil _
    · rfl

/-! ## Steps -/

/-- The operations behind `udp_client_process`, with the one after each. -/
inductive Tail : Pc → Pc → Prop
  | send : Tail .send .state
  | state : Tail .state .car
  | car : Tail .car .carthree
  | carthree : Tail .carthree .cartwo
  | cartwo : Tail .cartwo .sec
  | sec : Tail .sec .link

/-- No slot holds a message. -/
def Idle (s : Sys F) : Prop := ∀ i, (s.tcpClientList i).tcpClientStatue ≠ .connectRecv

theorem Delivering.idle {s : Sys F} (h : Delivering s) (hc : ∀ j, s.pc ≠ .client j)
    (hr : s.pc ≠ .reset) : Idle s := by
  intro i hi
  rcases h.recv i hi with ⟨j, hj, -⟩ | hj
  · exact hc j hj
  · exact hr hj

theorem Delivering.same {s s' : Sys F} (h : Delivering s)
    (hc : ∀ i, SameRecv (s.tcpClientList i) (s'.tcpClientList i)) (hp : s'.pc = s.pc ∨ Idle s) :
    Delivering s' := by
  refine ⟨fun i => (h.slot i).same (hc i), fun i hi => ?_, fun i j hi hj => ?_⟩
  · rw [(hc i).statue] at hi
    rcases hp with hp | hp
    · rw [hp]; exact h.recv i hi
    · exact absurd hi (hp i)
  · rw [(hc i).statue] at hi
    rw [(hc j).statue] at hj
    exact h.one i j hi hj

variable {D : Type} [CNum F] [CNum D] [CFloat F D]

theorem Delivering.irq {s : Sys F} (h : Delivering s) (e : Irq) : Delivering (irq s e) := by
  rcases irq_cases s e with ⟨_, tim2, junk, _, -, he⟩ | ⟨d, m, c, he, -⟩ <;> rw [he]
  · exact h.same (fun _ => .refl _) (.inl rfl)
  · exact h.same (fun _ => .refl _) (.inl rfl)

omit [CNum F] in
theorem Delivering.rx {s : Sys F} (h : Delivering s) (hp : s.pc = .rx) (d : Datagram) :
    Delivering ((udpInput d s).goto (.client 0)) := by
  have hidle : Idle s := h.idle (by simp [hp]) (by simp [hp])
  unfold udpInput
  split_ifs with hpcb
  · rcases udpReceiveCallback_cases d.src d.p d.junk h.slot (by simp [hp]) with
      ⟨-, e⟩ | ⟨i, hi, -, ⟨-, -, e⟩ | ⟨-, m, -, e⟩⟩ <;> rw [e]
    · exact h.same (fun _ => by rw [goto_tcpClientList]; exact .refl _) (.inr hidle)
    · exact h.same (fun _ => by rw [goto_tcpClientList]; exact .refl _) (.inr hidle)
    · have hrecv : ∀ j, ((s.setSlot i (.receive d.p m)).tcpClientList j).tcpClientStatue =
          .connectRecv → j = i := by
        intro j hj
        by_contra hne
        rw [Sys.setSlot_ne _ _ hne] at hj
        exact hidle j hj
      refine ⟨fun j => ?_, fun j _ => ?_, fun j k hj hk => ?_⟩
      · rw [goto_tcpClientList]
        exact setSlot_cases (Q := SlotOk) (slotOk_receive (h.slot i) hi.2 d.p m)
          (fun j _ => h.slot j) j
      · rw [goto_pc _ (by simp [hp]) (by simp [hp])]
        exact .inl ⟨0, rfl, Fin.zero_le j⟩
      · rw [goto_tcpClientList] at hj hk
        exact (hrecv j hj).trans (hrecv k hk).symm
  · exact h.same (fun _ => by rw [goto_tcpClientList]; exact .refl _) (.inr hidle)

/-- The state in the middle of a slot's block: a boot has ended the run, or the
    slot holds no message any more and the others are as before. -/
theorem Delivering.received {s : Sys F} (h : Delivering s) {i : Fin 4} (hp : s.pc = .client i) :
    ((clientRecv i s).pc = .reset ∧ (clientRecv i s).tcpClientList = s.tcpClientList) ∨
      ((clientRecv i s).pc = .client i ∧
        SlotOk i ((clientRecv i s).tcpClientList i) ∧
        ((clientRecv i s).tcpClientList i).tcpClientStatue ≠ .connectRecv ∧
        ∀ j, j ≠ i → (clientRecv i s).tcpClientList j = s.tcpClientList j) := by
  rcases clientRecv_cases i (s := s) (by simp [hp]) with ⟨hr, e⟩ | ⟨-, -, e⟩ |
    ⟨hr, -, s', hs, e⟩
  · rw [e]
    exact .inr ⟨hp, h.slot i, hr, fun _ _ => rfl⟩
  · rw [e]
    exact .inl ⟨rfl, rfl⟩
  · rw [e]
    obtain ⟨d, q, n, rfl, -⟩ := hs
    refine .inr ⟨hp, ?_, ?_, fun j hj => Sys.setSlot_ne _ _ hj⟩
    · rw [Sys.setSlot_self]
      exact ⟨fun _ => (h.slot i).live (.inr hr), fun _ => rfl⟩
    · rw [Sys.setSlot_self]
      simp

theorem Delivering.client {s : Sys F} (h : Delivering s) {i : Fin 4} (hp : s.pc = .client i)
    (net : Net) :
    Delivering ((clientSlot net i s).goto (if i = 3 then .send else .client (i + 1))) := by
  unfold clientSlot
  rcases h.received hp with ⟨hpc, hl⟩ | ⟨hpc, hok, hn, hne⟩
  · simp only [if_pos hpc]
    refine ⟨?_, fun _ _ => .inr ?_, ?_⟩
    · rw [goto_tcpClientList, hl]; exact h.slot
    · rw [Sys.goto, if_pos (.inr hpc)]; exact hpc
    · rw [goto_tcpClientList, hl]; exact h.one
  · simp only [if_neg (show ¬ (clientRecv i s).pc = .reset by simp [hpc])]
    obtain ⟨hok', hn'⟩ := clientSend_slot net hok hn
    have hne' : ∀ j, j ≠ i →
        (clientSend net i (clientRecv i s)).tcpClientList j = s.tcpClientList j :=
      fun j hj => (clientSend_ne net _ hj).trans (hne j hj)
    -- a message still waiting is one for a later slot
    have hlater : ∀ j, ((clientSend net i (clientRecv i s)).tcpClientList j).tcpClientStatue =
        .connectRecv → j ≠ i ∧ (s.tcpClientList j).tcpClientStatue = .connectRecv := by
      intro j hj
      have hji : j ≠ i := by rintro rfl; exact hn' hj
      exact ⟨hji, by rw [← hne' j hji]; exact hj⟩
    refine ⟨fun j => ?_, fun j hj => .inl ?_, fun j k hj hk => ?_⟩
    · rw [goto_tcpClientList]
      by_cases hj : j = i
      · rw [hj]; exact hok'
      · rw [hne' j hj]; exact h.slot j
    · rw [goto_tcpClientList] at hj
      obtain ⟨hji, hr⟩ := hlater j hj
      have hij : i < j := by
        rcases h.recv j hr with ⟨k, hk, hkj⟩ | hk
        · rw [hp] at hk
          obtain rfl : i = k := Pc.client.inj hk
          exact lt_of_le_of_ne hkj (Ne.symm hji)
        · rw [hp] at hk
          cases hk
      have h3 : i ≠ 3 := by rintro rfl; exact absurd hij (by omega)
      have hpc' : (clientSend net i (clientRecv i s)).pc = .client i :=
        (clientSend_pc net i _).trans hpc
      refine ⟨i + 1, ?_, Fin.add_one_le_of_lt hij⟩
      rw [if_neg h3, goto_pc _ (by simp [hpc']) (by simp [hpc'])]
    · rw [goto_tcpClientList] at hj hk
      exact h.one j k (hlater j hj).2 (hlater k hk).2

theorem delivering_init (ty : U8) : Delivering (Sys.init ty : Sys F) :=
  ⟨fun _ => ⟨by simp [Sys.init, TcpClientTable.init], fun _ => rfl⟩,
    by simp [Sys.init, TcpClientTable.init], by simp [Sys.init, TcpClientTable.init]⟩

theorem Tail.mainStep {pc pc' : Pc} (ht : Tail pc pc') {s : Sys F} (hp : s.pc = pc) (env : Env) :
    (∀ j, SameRecv (s.tcpClientList j) ((mainStep env s).tcpClientList j)) ∧
      handled (mainStep env s).log = handled s.log ∧ (mainStep env s).pc = pc' := by
  have hgo : ∀ {s' : Sys F}, (∀ j, SameRecv (s.tcpClientList j) (s'.tcpClientList j)) →
      handled s'.log = handled s.log → s'.pc = pc →
      (∀ j, SameRecv (s.tcpClientList j) ((s'.goto pc').tcpClientList j)) ∧
        handled (s'.goto pc').log = handled s.log ∧ (s'.goto pc').pc = pc' := by
    intro s' hr hh hpc
    rw [goto_tcpClientList, goto_log]
    exact ⟨hr, hh, goto_pc _ (by rw [hpc]; rintro rfl; cases ht) (by rw [hpc]; rintro rfl; cases ht)⟩
  cases ht <;> simp only [GndCtrl.mainStep, hp]
  case send =>
    refine hgo (sendMessageToSever_sameRecv s) (sendMessageToSever_handled s) ?_
    rw [← hp, sendMessageToSever_pc]
  case state =>
    unfold funGnd2wcsStateMsg
    split_ifs <;> exact hgo (fun _ => .refl _) rfl hp
  case car =>
    have hc := carsend_cases s
    exact hgo hc.sameRecv hc.handled (hc.pc.trans hp)
  case carthree =>
    have hc := carthreesend_cases s
    exact hgo hc.sameRecv hc.handled (hc.pc.trans hp)
  case cartwo =>
    have hc := cartwosend_cases s
    exact hgo hc.sameRecv hc.handled (hc.pc.trans hp)
  case sec =>
    unfold secProcess
    split_ifs <;> exact hgo (fun _ => .refl _) rfl hp

/-- Every step keeps the slots in order. -/
theorem delivering_step (s : Sys F) (e : Input) (h : Delivering s) : Delivering (s.step e) := by
  cases e with
  | irq e =>
    simp only [Sys.step]
    split_ifs
    · exact h
    · exact h.irq e
  | main env =>
    have htail : ∀ {pc pc'}, Tail pc pc' → s.pc = pc → Delivering (mainStep env s) := by
      intro pc pc' ht hp
      refine h.same (ht.mainStep hp env).1 (.inr (h.idle ?_ ?_)) <;> rw [hp]
      · rintro j rfl; cases ht
      · rintro rfl; cases ht
    change Delivering (mainStep env s)
    cases hp : s.pc with
    | link =>
      have hi : Idle s := h.idle (by simp [hp]) (by simp [hp])
      simp only [mainStep, hp]
      split_ifs
      · exact h.same (fun _ => by rw [goto_tcpClientList]; exact .refl _) (.inr hi)
      · exact h.same (fun _ => by rw [goto_tcpClientList]; exact .refl _) (.inr hi)
    | rx =>
      have hi : Idle s := h.idle (by simp [hp]) (by simp [hp])
      simp only [mainStep, hp]
      cases hd : env.rx with
      | some d => exact h.rx hp d
      | none => exact h.same (fun _ => by rw [goto_tcpClientList]; exact .refl _) (.inr hi)
    | client i =>
      simp only [mainStep, hp]
      exact h.client hp env.toNet
    | send => exact htail .send hp
    | state => exact htail .state hp
    | car => exact htail .car hp
    | carthree => exact htail .carthree hp
    | cartwo => exact htail .cartwo hp
    | sec => exact htail .sec hp
    | hang => simp only [mainStep, hp]; exact h
    | reset => simp only [mainStep, hp]; exact h

/-! ## One datagram -/

/-- A step of the main loop. -/
def Input.isMain : Input → Bool
  | .irq _ => false
  | .main _ => true

/-- The number of main-loop operations among the inputs. -/
def mains (es : List Input) : ℕ := es.countP Input.isMain

/-- The operations of the iteration that are done, counted from the callback. -/
def Pc.done : Pc → ℕ
  | .client i => i
  | .send => 4
  | .state => 5
  | .car => 6
  | .carthree => 7
  | .cartwo => 8
  | .sec => 9
  | .link => 10
  | _ => 11

/-- The progress of the message `data` of slot `i`: it waits in its slot, or it
    has been given to the handler; `n` operations follow the callback so far and
    `H` was handled before. -/
inductive Phase (i : Fin 4) (data : List U8) (H : List (Fin 4 × List U8)) (n : ℕ) (s : Sys F) :
    Prop
  | waiting (k : Fin 4) (hk : k ≤ i) (hn : n = k) (hp : s.pc = .client k)
      (hr : (s.tcpClientList i).tcpClientStatue = .connectRecv)
      (hd : (s.tcpClientList i).tcpRecevBuf.bytes (s.tcpClientList i).tcpRecevLen = data)
      (hh : handled s.log = H)
  | given (hi : Idle s) (hn : s.pc.done = n) (hh : handled s.log = H ++ [(i, data)])
  | reset (hp : s.pc = .reset) (hn : i < n) (hh : handled s.log = H ++ [(i, data)])

theorem Phase.irq {i : Fin 4} {data : List U8} {H : List (Fin 4 × List U8)} {n : ℕ} {s : Sys F}
    (h : Phase i data H n s) (e : Irq) : Phase i data H n (s.step (.irq e)) := by
  simp only [Sys.step]
  split_ifs
  · exact h
  · rcases irq_cases s e with ⟨_, tim2, junk, _, -, he⟩ | ⟨d, m, c, he, -⟩ <;> rw [he]
    · have hlog : handled (exti4 tim2 junk s).log = handled s.log := by
        simp only [exti4, Sys.note_log, handled_append]; exact List.append_nil _
      cases h with
      | waiting k hk hn hp hr hd hh => exact .waiting k hk hn hp hr hd (hlog.trans hh)
      | given hi hn hh => exact .given hi hn (hlog.trans hh)
      | reset hp hn hh => exact .reset hp hn (hlog.trans hh)
    · cases h with
      | waiting k hk hn hp hr hd hh => exact .waiting k hk hn hp hr hd hh
      | given hi hn hh => exact .given hi hn hh
      | reset hp hn hh => exact .reset hp hn hh

/-- The operation after the block of slot `k`. -/
theorem done_next (k : Fin 4) :
    (if k = 3 then Pc.send else Pc.client (k + 1)).done = (k : ℕ) + 1 := by
  revert k; decide

/-- The block of a slot without a message. -/
theorem clientSlot_idle (net : Net) {k : Fin 4} {s : Sys F} (hs : Delivering s)
    (hp : s.pc = .client k) (hk : (s.tcpClientList k).tcpClientStatue ≠ .connectRecv) :
    clientSlot net k s = clientSend net k s ∧
      ((clientSend net k s).tcpClientList k).tcpClientStatue ≠ .connectRecv := by
  have he : clientRecv k s = s := by
    simp only [clientRecv]; exact if_neg hk
  refine ⟨?_, (clientSend_slot net (hs.slot k) hk).2⟩
  simp only [clientSlot, he]
  exact if_neg (by simp [hp])

section
variable {i : Fin 4} {data : List U8} {H : List (Fin 4 × List U8)} {s : Sys F}

/-- The handler's turn. -/
theorem Phase.own_turn (hs : Delivering s) (hp : s.pc = .client i)
    (hr : (s.tcpClientList i).tcpClientStatue = .connectRecv)
    (hd : (s.tcpClientList i).tcpRecevBuf.bytes (s.tcpClientList i).tcpRecevLen = data)
    (hh : handled s.log = H) (env : Env) :
    Phase i data H (i + 1) (s.step (.main env)) := by
  change Phase i data H (i + 1) (mainStep env s)
  simp only [mainStep, hp]
  have hlog : handled (s.note (.handle i data)).log = H ++ [(i, data)] := by
    rw [Sys.note_log, handled_append, hh]; rfl
  have hrest : ∀ j, j ≠ i → (s.tcpClientList j).tcpClientStatue ≠ .connectRecv :=
    fun j hj h => hj (hs.one j i h hr)
  rcases clientRecv_cases i (s := s) (by simp [hp]) with ⟨hr', -⟩ | ⟨-, -, e⟩ |
    ⟨-, -, s', ⟨d, q, c, hs', -⟩, e⟩
  · exact absurd hr hr'
  · refine .reset ?_ (Nat.lt_succ_self _) ?_
    · rw [clientSlot, e]; rfl
    · rw [clientSlot, e, goto_log]
      simp only [hd]
      change handled ((s.note (.handle i data)).note (.boot i data)).log = _
      rw [Sys.note_log, handled_append, hlog]
      exact List.append_nil _
  · have hpc : (clientRecv i s).pc = .client i := by rw [e, Sys.setSlot_pc, hs']; exact hp
    have hslot : SlotOk i ((clientRecv i s).tcpClientList i) ∧
        ((clientRecv i s).tcpClientList i).tcpClientStatue ≠ .connectRecv := by
      rw [e, Sys.setSlot_self, hs']
      exact ⟨⟨fun _ => (hs.slot i).live (.inr hr), fun _ => rfl⟩, by simp⟩
    have hcs : clientSlot env.toNet i s = clientSend env.toNet i (clientRecv i s) := by
      simp only [clientSlot]; exact if_neg (by simp [hpc])
    rw [hcs]
    refine .given (fun j => ?_) ?_ ?_
    · rw [goto_tcpClientList]
      by_cases hj : j = i
      · rw [hj]; exact (clientSend_slot _ hslot.1 hslot.2).2
      · rw [clientSend_ne _ _ hj, e, Sys.setSlot_ne _ _ hj, hs']; exact hrest j hj
    · have hpc' := (clientSend_pc env.toNet i (clientRecv i s)).trans hpc
      rw [goto_pc _ (by simp [hpc']) (by simp [hpc']), done_next]
    · rw [goto_log, clientSend_handled, e, Sys.setSlot_log, hs', ← hlog, hd]

/-- The block of an earlier slot, which holds no message. -/
theorem Phase.other_turn {k : Fin 4} (hs : Delivering s) (hk : k < i) (hp : s.pc = .client k)
    (hr : (s.tcpClientList i).tcpClientStatue = .connectRecv)
    (hd : (s.tcpClientList i).tcpRecevBuf.bytes (s.tcpClientList i).tcpRecevLen = data)
    (hh : handled s.log = H) (env : Env) :
    Phase i data H (k + 1) (s.step (.main env)) := by
  change Phase i data H (k + 1) (mainStep env s)
  simp only [mainStep, hp]
  have hki : k ≠ i := ne_of_lt hk
  have hne : (s.tcpClientList k).tcpClientStatue ≠ .connectRecv := fun h => hki (hs.one k i h hr)
  obtain ⟨e, -⟩ := clientSlot_idle env.toNet hs hp hne
  have hpc' := (clientSend_pc env.toNet k s).trans hp
  have hsame := clientSend_ne env.toNet s (Ne.symm hki)
  rw [e, if_neg (by rintro rfl; omega)]
  refine .waiting (k + 1) (Fin.add_one_le_of_lt hk) ?_ ?_ ?_ ?_ ?_
  · rw [Fin.val_add_one_of_lt (lt_of_lt_of_le hk (Fin.le_last i))]
  · exact goto_pc _ (by simp [hpc']) (by simp [hpc'])
  · rw [goto_tcpClientList, hsame]; exact hr
  · rw [goto_tcpClientList, hsame]; exact hd
  · rw [goto_log, clientSend_handled]; exact hh

/-- The operations after the handler; they find no message. -/
theorem Phase.after {n : ℕ} (hs : Delivering s) (hi : Idle s) (hn : s.pc.done = n) (hn10 : n < 10)
    (hh : handled s.log = H ++ [(i, data)]) (env : Env) :
    Phase i data H (n + 1) (s.step (.main env)) := by
  change Phase i data H (n + 1) (mainStep env s)
  have htail : ∀ {pc pc'}, Tail pc pc' → s.pc = pc → Pc.done pc' = Pc.done pc + 1 →
      Phase i data H (n + 1) (mainStep env s) := by
    intro pc pc' ht hp hdone
    obtain ⟨hr, hl, hpc⟩ := ht.mainStep hp env
    refine .given (fun j => ?_) ?_ (hl.trans hh)
    · rw [(hr j).statue]; exact hi j
    · rw [hpc, hdone, ← hn, hp]
  cases hp : s.pc with
  | client k =>
    simp only [mainStep, hp]
    obtain ⟨e, hk'⟩ := clientSlot_idle env.toNet hs hp (hi k)
    have hpc' := (clientSend_pc env.toNet k s).trans hp
    rw [e]
    refine .given (fun j => ?_) ?_ ?_
    · rw [goto_tcpClientList]
      by_cases hj : j = k
      · rw [hj]; exact hk'
      · rw [clientSend_ne _ _ hj]; exact hi j
    · rw [goto_pc _ (by simp [hpc']) (by simp [hpc']), done_next, ← hn, hp]
      rfl
    · rw [goto_log, clientSend_handled]; exact hh
  | send => exact htail .send hp rfl
  | state => exact htail .state hp rfl
  | car => exact htail .car hp rfl
  | carthree => exact htail .carthree hp rfl
  | cartwo => exact htail .cartwo hp rfl
  | sec => exact htail .sec hp rfl
  | link | rx | hang | reset => rw [hp] at hn; simp only [Pc.done] at hn; omega

theorem Phase.main {n : ℕ} (h : Phase i data H n s) (hs : Delivering s) (hn10 : n < 10)
    (env : Env) : Phase i data H (n + 1) (s.step (.main env)) := by
  cases h with
  | waiting k hk hn hp hr hd hh =>
    subst hn
    by_cases hki : k = i
    · subst hki
      exact .own_turn hs hp hr hd hh env
    · exact .other_turn hs (lt_of_le_of_ne hk hki) hp hr hd hh env
  | given hi hn hh => exact .after hs hi hn hn10 hh env
  | reset hp hn hh =>
    change Phase i data H (n + 1) (mainStep env s)
    simp only [mainStep, hp]
    exact .reset hp (by omega) hh

end

theorem Phase.run {i : Fin 4} {data : List U8} {H : List (Fin 4 × List U8)} {n : ℕ} {s : Sys F}
    (es : List Input) (h : Phase i data H n s) (hs : Delivering s) (hn : n + mains es ≤ 10) :
    Phase i data H (n + mains es) (run Sys.step s es) := by
  induction es generalizing n s with
  | nil => exact h
  | cons e es ih =>
    cases e with
    | irq e =>
      have hm : mains (.irq e :: es) = mains es :=
        List.countP_cons_of_neg (by simp [Input.isMain])
      rw [hm] at hn ⊢
      exact ih (h.irq e) (delivering_step s _ hs) hn
    | main env =>
      have hm : mains (.main env :: es) = mains es + 1 := List.countP_cons_of_pos rfl
      rw [hm, ← Nat.add_assoc, Nat.add_right_comm] at hn ⊢
      exact ih (h.main hs (by omega) env) (delivering_step s _ hs) hn

/-- The callback of a short datagram from the peer of a connected slot. -/
theorem phase_rx {s : Sys F} (hs : Delivering s) (hp : s.pc = .rx) {i : Fin 4}
    (hi : (s.tcpClientList i).tcpClientStatue = .connectOk) {env : Env} {d : Datagram}
    (hrx : env.rx = some d) (hsrc : d.src = endpoint i) (hone : d.p.rest = [])
    (hlen : d.p.payload.length ≤ 255) :
    Phase i d.p.payload (handled s.log) 0 (s.step (.main env)) := by
  have hlive := (hs.slot i).live (.inl hi)
  have h0 := (hs.slot i).empty (by simp [hi])
  have htot : d.p.totLen = d.p.payload.length := by simp [Pbuf.totLen, hone]
  have hhit : Hit d.src s i := ⟨(matches_iff hlive.1 _).2 hsrc, hi⟩
  change Phase i _ _ 0 (mainStep env s)
  simp only [mainStep, hp, hrx]
  have hpcb : ∃ j, (s.tcpClientList j).echoclientPcb = some ⟨some d.src, true⟩ :=
    ⟨i, by rw [hlive.2, hsrc]⟩
  rw [udpInput, if_pos hpcb]
  rcases udpReceiveCallback_cases d.src d.p d.junk hs.slot
    (by simp [hp]) with ⟨hn, -⟩ | ⟨j, hj, hjsrc, ⟨hb, -, -⟩ | ⟨-, m, hm, e⟩⟩
  · exact absurd hhit (hn i)
  · omega
  · obtain rfl : i = j := endpoint_injective i j (hsrc.symm.trans hjsrc)
    rw [e]
    refine .waiting 0 (Fin.zero_le i) rfl ?_ ?_ ?_ ?_
    · exact goto_pc _ (by simp [hp]) (by simp [hp])
    · rw [goto_tcpClientList, Sys.setSlot_self]; rfl
    · rw [goto_tcpClientList, Sys.setSlot_self]
      have hread : d.p.read.bytes d.p.totLen = d.p.payload := by
        refine List.ext_getElem (by simp [htot]) fun k h1 h2 => ?_
        rw [Mem.getElem_bytes]
        simp [Pbuf.read, h2]
      simp only [TcpClientTable.receive, h0, hm (by omega), Nat.zero_add, hread]
      rw [if_pos (show d.p.totLen ≤ 1500 by omega), Nat.mod_eq_of_lt (by omega), htot,
        Mem.bytes_putList]
    · rw [goto_log, Sys.setSlot_log]

/-- **Exactly-once delivery.**  In every state of every run: at the start of an
    iteration no slot holds a message and a connected slot has length 0, no
    write of the callback reaches the end of the buffer, and a datagram of at
    most 255 bytes in one pbuf from the peer of a connected slot is given in the
    same iteration once to the handler of this slot, and nothing else is given
    to a handler. -/
theorem delivery (ty : U8) (es : List Input) :
    let s := run Sys.step (Sys.init ty : Sys F) es
    (s.pc = .link → ∀ i, (s.tcpClientList i).tcpClientStatue ≠ .connectRecv ∧
      ((s.tcpClientList i).tcpClientStatue = .connectOk → (s.tcpClientList i).tcpRecevLen = 0)) ∧
    (∀ i, (s.tcpClientList i).tcpClientStatue = .connectOk →
      ∀ m : U8, (s.tcpClientList i).tcpRecevLen + m.toNat < tcpRecevBuffSize) ∧
    ∀ (i : Fin 4) (d : Datagram) (env : Env) (es' : List Input),
      s.pc = .rx → (s.tcpClientList i).tcpClientStatue = .connectOk → env.rx = some d →
      d.src = endpoint i → d.p.rest = [] → d.p.payload.length ≤ 255 →
      4 ≤ mains es' → mains es' ≤ 10 →
      handled (run Sys.step s (.main env :: es')).log = handled s.log ++ [(i, d.p.payload)] := by
  intro s
  have hs : Delivering s := run_inv delivering_step es (delivering_init ty)
  refine ⟨fun hp i => ⟨?_, fun hi => ?_⟩, fun i hi m => ?_, ?_⟩
  · exact hs.idle (by simp [hp]) (by simp [hp]) i
  · exact (hs.slot i).empty (by simp [hi])
  · have h0 := (hs.slot i).empty (by simp [hi])
    have := m.isLt
    simp only [h0, tcpRecevBuffSize]
    omega
  · intro i d env es' hp hi hrx hsrc hone hlen h4 h10
    have h := (phase_rx hs hp hi hrx hsrc hone hlen).run es' (delivering_step s _ hs) (by omega)
    rw [Nat.zero_add] at h
    rw [run_cons]
    rcases h with ⟨k, -, hn, -⟩ | ⟨-, -, hh⟩ | ⟨-, -, hh⟩
    · omega
    · exact hh
    · exact hh

/-- A datagram of three bytes reaches slot 1 in the third iteration after the
    link has come up. -/
theorem delivery_slot1 :
    let s := run Sys.step (Sys.init 0 : Sys Num) (List.replicate 27 (.main (.up none)))
    let d : Datagram := ⟨endpoint 1, ⟨[1, 2, 3], [], fun _ => 0⟩, 0⟩
    handled (run Sys.step s (.main (.up (some d)) :: List.replicate 4 (.main (.up none)))).log =
      [(1, [1, 2, 3])] :=
  (delivery 0 (List.replicate 27 (.main (.up none)))).2.2 1 ⟨endpoint 1, ⟨[1, 2, 3], [], _⟩, 0⟩ _
    (List.replicate 4 (.main (.up none))) (by decide +kernel) (by decide +kernel) rfl rfl rfl
    (by decide) (by decide) (by decide)

end GndCtrl
