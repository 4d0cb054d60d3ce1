/-
  What an operation of the main loop and an interrupt can do.

  One lemma for each operation says everything it can do to the queues, the
  slots and the history: `recvMessage_cases`, `clientRecv_cases`,
  `sendMessage_switched` and `sendMessage_cases`, the three car senders and
  `irq_cases`.  The invariants of the firmware are proved from these.
-/
import GndCtrl.Frames
import GndCtrl.Main

namespace GndCtrl

open CNum CFloat

variable {F : Type}

/-! ## Assignments -/

section
variable (i : Fin 4) (t : U16) (r : Mem × ℕ) (s : Sys F)

@[simp] theorem commit_drive : (commit i t r s).drive = s.drive := rfl
@[simp] theorem commit_msg : (commit i t r s).msg = s.msg := rfl
@[simp] theorem commit_cars : (commit i t r s).cars = s.cars := rfl
@[simp] theorem commit_ethInitStatus : (commit i t r s).ethInitStatus = s.ethInitStatus := rfl
@[simp] theorem commit_pc : (commit i t r s).pc = s.pc := rfl

@[simp] theorem commit_log : (commit i t r s).log = s.log ++ [.commit i t (r.1.bytes r.2)] := by
  simp [commit, TcpClientTable.frame]

@[simp] theorem commit_self : (commit i t r s).tcpClientList i =
    { s.tcpClientList i with tcpSendBuf := r.1, tcpSendLen := r.2, tcpSendEn := true } := by
  simp [commit]

theorem commit_ne {i j : Fin 4} (h : j ≠ i) :
    (commit i t r s).tcpClientList j = s.tcpClientList j := by
  simp [commit, Sys.setSlot_ne _ _ h]

variable (pc : Pc)

@[simp] theorem goto_drive : (s.goto pc).drive = s.drive := by unfold Sys.goto; split_ifs <;> rfl
@[simp] theorem goto_msg : (s.goto pc).msg = s.msg := by unfold Sys.goto; split_ifs <;> rfl
@[simp] theorem goto_cars : (s.goto pc).cars = s.cars := by unfold Sys.goto; split_ifs <;> rfl
@[simp] theorem goto_tcpClientList : (s.goto pc).tcpClientList = s.tcpClientList := by
  unfold Sys.goto; split_ifs <;> rfl
@[simp] theorem goto_ethInitStatus : (s.goto pc).ethInitStatus = s.ethInitStatus := by
  unfold Sys.goto; split_ifs <;> rfl
@[simp] theorem goto_log : (s.goto pc).log = s.log := by unfold Sys.goto; split_ifs <;> rfl

theorem goto_pc {s : Sys F} (h : s.pc ≠ .hang) (h' : s.pc ≠ .reset) : (s.goto pc).pc = pc := by
  simp [Sys.goto, h, h']

end

/-! ## The history -/

/-- The history grew by entries that satisfy `Q`. -/
def Logged (Q : Obs → Prop) (s s' : Sys F) : Prop := ∃ l, s'.log = s.log ++ l ∧ ∀ o ∈ l, Q o

theorem Logged.of_eq {Q : Obs → Prop} {s s' : Sys F} (h : s'.log = s.log) : Logged Q s s' :=
  ⟨[], by rw [h, List.append_nil], by simp⟩

theorem Logged.snoc {Q : Obs → Prop} {s s' : Sys F} {o : Obs} (h : s'.log = s.log ++ [o])
    (ho : Q o) : Logged Q s s' :=
  ⟨[o], h, by simpa using ho⟩

theorem Logged.trans {Q : Obs → Prop} {s s' s'' : Sys F} (h : Logged Q s s')
    (h' : Logged Q s' s'') : Logged Q s s'' := by
  obtain ⟨l, hl, hQ⟩ := h
  obtain ⟨l', hl', hQ'⟩ := h'
  refine ⟨l ++ l', by rw [hl', hl, List.append_assoc], fun o ho => ?_⟩
  rcases List.mem_append.1 ho with ho | ho
  · exact hQ o ho
  · exact hQ' o ho

/-! ## Receivers -/

/-- The tokens with which messages are answered. -/
abbrev answers : List U16 :=
  [replyRecvMsgWcs2gndctrlParaType, replyWcsGndVersionType, replyRecvMsgRepairCarCmdType]

/-- Only answers were added to the queue. -/
def Answered {n : ℕ} (q q' : Queue U16 n) : Prop :=
  ∃ l, q'.toList = q.toList ++ l ∧ ∀ t ∈ l, t ∈ answers

theorem Answered.refl {n : ℕ} (q : Queue U16 n) : Answered q q := ⟨[], by simp, by simp⟩

theorem Answered.enQueue {n : ℕ} {q q' : Queue U16 n} (h : Answered q q') {t : U16}
    (ht : t ∈ answers) : Answered q (q'.enQueue t) := by
  obtain ⟨l, hl, ha⟩ := h
  by_cases hf : q'.Full
  · exact ⟨l, by rw [Queue.toList_enQueue_full hf, hl], ha⟩
  · refine ⟨l ++ [t], by rw [Queue.toList_enQueue_room hf, hl, List.append_assoc], ?_⟩
    intro x hx
    rcases List.mem_append.1 hx with hx | hx
    · exact ha x hx
    · rw [List.mem_singleton.1 hx]; exact ht

/-- The handler of slot `i` takes the message for a boot command. -/
structure BootTaken (i : Fin 4) (point : Mem) (len : ℕ) : Prop where
  head : headCheck point len = true
  sum : i = 0 → sumLoop point (len - 10) = point 8
  type : point.u16 9 = recvMsgBootCmdType

/-- A state after a message that is no boot command. -/
def Handled (s s' : Sys F) : Prop :=
  ∃ d q n, s' = { s with
    drive := d, msg := { s.msg with msgSendQueue := q, recvGndposCnt := n } } ∧
    Answered s.msg.msgSendQueue q

theorem Handled.refl (s : Sys F) : Handled s s := ⟨_, _, _, rfl, .refl _⟩

section
variable {D : Type} [CNum F] [CNum D] [CFloat F D]

theorem recvMsgProcess_cases {point : Mem} (data : List U8) (s : Sys F)
    (h : point.u16 9 ≠ recvMsgBootCmdType) : Handled s (recvMsgProcess point data s) := by
  simp only [recvMsgProcess, if_neg h]
  split_ifs
  · exact ⟨_, _, _, rfl, ((Answered.refl _).enQueue (by simp)).enQueue (by simp)⟩
  · exact ⟨_, _, _, rfl, (Answered.refl _).enQueue (by simp)⟩
  · exact ⟨_, _, _, rfl, .refl _⟩
  · exact .refl s

omit [CNum F] in
theorem carMsgProcess_cases (i : Fin 4) (point : Mem) (data : List U8) (s : Sys F) :
    (point.u16 9 = recvMsgBootCmdType ∧ carMsgProcess i point data s = bootReset i data s) ∨
      (point.u16 9 ≠ recvMsgBootCmdType ∧ carMsgProcess i point data s = s) := by
  by_cases h : point.u16 9 = recvMsgBootCmdType
  · exact .inl ⟨h, if_pos h⟩
  · exact .inr ⟨h, if_neg h⟩

/-- A car slot's handler boots or does nothing. -/
theorem carMessage_cases (i : Fin 4) (hi : i ≠ 0) (point : Mem) (len : ℕ) (s : Sys F) :
    (BootTaken i point len ∧ recvMessage i point len s = (0, bootReset i (point.bytes len) s)) ∨
      (¬ BootTaken i point len ∧ recvMessage i point len s = (0, s)) := by
  have he : recvMessage i point len s =
      if headCheck point len then (0, carMsgProcess i point (point.bytes len) s) else (0, s) := by
    match i, hi with
    | 1, _ => rfl
    | 2, _ => rfl
    | 3, _ => rfl
  rw [he]
  by_cases hc : headCheck point len = true
  · rw [if_pos hc]
    rcases carMsgProcess_cases i point (point.bytes len) s with ⟨ht, e⟩ | ⟨ht, e⟩ <;> rw [e]
    · exact .inl ⟨⟨hc, fun h => absurd h hi, ht⟩, rfl⟩
    · exact .inr ⟨fun h => ht h.type, rfl⟩
  · rw [if_neg hc]
    exact .inr ⟨fun h => hc h.head, rfl⟩

/-- **A handler** boots exactly if it takes the message for a boot command. -/
theorem recvMessage_cases (i : Fin 4) (point : Mem) (len : ℕ) (s : Sys F) :
    (BootTaken i point len ∧ recvMessage i point len s = (0, bootReset i (point.bytes len) s)) ∨
      (¬ BootTaken i point len ∧ ∃ s', recvMessage i point len s = (0, s') ∧ Handled s s') := by
  by_cases hi : i = 0
  · subst hi
    change (_ ∧ recvMessageFromSever point len s = _) ∨
      (_ ∧ ∃ s', recvMessageFromSever point len s = _ ∧ _)
    rw [recvMessageFromSever]
    by_cases hc : recvMsgCheck point len = true
    · obtain ⟨hh, hs⟩ := recvMsgCheck_iff.1 hc
      rw [if_pos hc]
      by_cases ht : point.u16 9 = recvMsgBootCmdType
      · exact .inl ⟨⟨hh, fun _ => hs, ht⟩, by rw [recvMsgProcess, if_pos ht]⟩
      · exact .inr ⟨fun h => ht h.type, _, rfl, recvMsgProcess_cases _ s ht⟩
    · rw [if_neg hc]
      exact .inr ⟨fun h => hc (recvMsgCheck_iff.2 ⟨h.head, h.sum rfl⟩), _, rfl, .refl s⟩
  · rcases carMessage_cases i hi point len s with h | ⟨hn, e⟩
    · exact .inl h
    · exact .inr ⟨hn, s, e, .refl s⟩

/-- What the first half of a slot's block does: nothing, a boot, or one message
    handled. -/
theorem clientRecv_cases (i : Fin 4) {s : Sys F} (hp : s.pc ≠ .reset) :
    let c := s.tcpClientList i
    let data := c.tcpRecevBuf.bytes c.tcpRecevLen
    (c.tcpClientStatue ≠ .connectRecv ∧ clientRecv i s = s) ∨
      (c.tcpClientStatue = .connectRecv ∧ BootTaken i c.tcpRecevBuf c.tcpRecevLen ∧
        clientRecv i s = bootReset i data (s.note (.handle i data))) ∨
      (c.tcpClientStatue = .connectRecv ∧ ¬ BootTaken i c.tcpRecevBuf c.tcpRecevLen ∧
        ∃ s', Handled (s.note (.handle i data)) s' ∧
          clientRecv i s = s'.setSlot i fun c =>
            { c with tcpRecevLen := 0, tcpClientStatue := .connectOk }) := by
  intro c data
  by_cases hr : c.tcpClientStatue = .connectRecv
  · rcases recvMessage_cases i c.tcpRecevBuf c.tcpRecevLen (s.note (.handle i data)) with
      ⟨hb, e⟩ | ⟨hb, s', e, hs⟩
    · refine .inr (.inl ⟨hr, hb, ?_⟩)
      simp only [clientRecv, c, data] at hr e ⊢
      rw [if_pos hr, e]
      rfl
    · refine .inr (.inr ⟨hr, hb, s', hs, ?_⟩)
      have hp' : s'.pc ≠ .reset := by
        obtain ⟨d, q, n, rfl, -⟩ := hs
        exact hp
      simp only [clientRecv, c, data] at hr e ⊢
      rw [if_pos hr, e]
      simp only [if_neg hp']
  · refine .inl ⟨hr, ?_⟩
    simp only [clientRecv]
    exact if_neg hr

end

/-! ## Connection and transmission -/

/-- A received datagram touches the slots, or the callback does not end. -/
theorem udpInput_cases (d : Datagram) (s : Sys F) :
    ∃ c pc, udpInput d s = { s with tcpClientList := c, pc := pc } ∧ (pc = s.pc ∨ pc = .hang) := by
  have hslot : ∀ (r : U8 × Sys F) i, ∃ c pc,
      (receiveSlot d.src d.p r i).2 = { r.2 with tcpClientList := c, pc := pc } ∧
        (pc = r.2.pc ∨ pc = .hang) := by
    intro r i
    simp only [receiveSlot]
    split_ifs
    · exact ⟨_, _, rfl, .inl rfl⟩
    · exact ⟨_, _, rfl, .inr rfl⟩
    all_goals exact ⟨_, _, rfl, .inl rfl⟩
  have hfold : ∀ (l : List (Fin 4)) (r : U8 × Sys F), ∃ c pc,
      (l.foldl (receiveSlot d.src d.p) r).2 = { r.2 with tcpClientList := c, pc := pc } ∧
        (pc = r.2.pc ∨ pc = .hang) := by
    intro l
    induction l with
    | nil => exact fun r => ⟨_, _, rfl, .inl rfl⟩
    | cons i l ih =>
      intro r
      obtain ⟨c, pc, h, hpc⟩ := hslot r i
      obtain ⟨c', pc', h', hpc'⟩ := ih (receiveSlot d.src d.p r i)
      refine ⟨c', pc', by rw [List.foldl_cons, h', h], ?_⟩
      rcases hpc' with rfl | rfl
      · rw [h]
        exact hpc
      · exact .inr rfl
  rw [udpInput]
  split_ifs
  · exact hfold _ (d.junk, s)
  · exact ⟨_, _, rfl, .inl rfl⟩

/-- A slot takes a datagram or not. -/
def Taken (c c' : TcpClientTable) : Prop :=
  c' = c ∨ c.tcpClientStatue = .connectOk ∧ ∃ b n,
    c' = { c with tcpRecevBuf := b, tcpRecevLen := n, tcpClientStatue := .connectRecv }

theorem Taken.trans {c c' c'' : TcpClientTable} (h : Taken c c') (h' : Taken c' c'') :
    Taken c c'' := by
  rcases h with rfl | ⟨hc, b, n, rfl⟩
  · exact h'
  · rcases h' with rfl | ⟨hc', -⟩
    · exact .inr ⟨hc, b, n, rfl⟩
    · cases hc'

theorem receiveSlot_taken (remote : Endpoint) (p : Pbuf) (r : U8 × Sys F) (i j : Fin 4) :
    Taken (r.2.tcpClientList i) ((receiveSlot remote p r j).2.tcpClientList i) := by
  obtain ⟨m, s⟩ := r
  by_cases hh : s.pc = .hang
  · simp only [receiveSlot, if_pos hh]
    exact .inl rfl
  by_cases hm : (s.tcpClientList j).matches remote ∧ (s.tcpClientList j).tcpClientStatue = .connectOk
  swap
  · simp only [receiveSlot, if_neg hh, if_neg hm]
    exact .inl rfl
  by_cases hb : 255 < p.totLen ∧ p.totLen ≤ tcpRecevBuffSize
  · simp only [receiveSlot, if_neg hh, if_pos hm, if_pos hb]
    exact .inl rfl
  simp only [receiveSlot, if_neg hh, if_pos hm, if_neg hb]
  by_cases hj : i = j
  · subst hj
    rw [Sys.setSlot_self]
    exact .inr ⟨hm.2, _, _, rfl⟩
  · exact .inl (Sys.setSlot_ne _ _ hj)

theorem udpInput_taken (d : Datagram) (s : Sys F) (i : Fin 4) :
    Taken (s.tcpClientList i) ((udpInput d s).tcpClientList i) := by
  have hfold : ∀ (l : List (Fin 4)) (r : U8 × Sys F),
      Taken (r.2.tcpClientList i) ((l.foldl (receiveSlot d.src d.p) r).2.tcpClientList i) := by
    intro l
    induction l with
    | nil => exact fun r => .inl rfl
    | cons j l ih => exact fun r => (receiveSlot_taken d.src d.p r i j).trans (ih _)
  rw [udpInput]
  split_ifs
  · exact hfold _ (d.junk, s)
  · exact .inl rfl

theorem setSlot_cases {s : Sys F} {i : Fin 4} {f : TcpClientTable → TcpClientTable}
    {Q : Fin 4 → TcpClientTable → Prop} (hi : Q i (f (s.tcpClientList i)))
    (hne : ∀ j, j ≠ i → Q j (s.tcpClientList j)) (j : Fin 4) :
    Q j ((s.setSlot i f).tcpClientList j) := by
  by_cases hj : j = i
  · rw [hj, Sys.setSlot_self]; exact hi
  · rw [Sys.setSlot_ne s f hj]; exact hne j hj

/-- What the second half of a slot's block does. -/
theorem clientSend_cases (net : Net) (i : Fin 4) (s : Sys F) :
    let c := s.tcpClientList i
    (c.connectIsOk = false ∧ clientSend net i s = creatUdpConnectProcess i (net.udpNew i) s) ∨
      (c.connectIsOk = true ∧ c.tcpClientStatue = .disConnect ∧
        clientSend net i s = udpEchoclientConnect i (net.udpConnect i) s) ∨
      (c.connectIsOk = true ∧ c.tcpClientStatue = .connectOk ∧ c.tcpSendEn = true ∧
        ∃ m s', s' = udpSendProcess i (net.pbufAlloc i) s ∧
          clientSend net i s =
            Sys.setSlot { s' with msg := m } i (fun c => { c with tcpSendEn := false }) ∧
          m.msgSendQueue = s.msg.msgSendQueue ∧
          m.gnd2WcsIntervalQueue = s.msg.gnd2WcsIntervalQueue ∧
          m.gndstatequeue = s.msg.gndstatequeue) ∨
      (c.connectIsOk = true ∧ c.tcpClientStatue ≠ .disConnect ∧
        ¬ (c.tcpClientStatue = .connectOk ∧ c.tcpSendEn = true) ∧ clientSend net i s = s) := by
  intro c
  unfold clientSend
  by_cases h1 : c.connectIsOk = false
  · exact .inl ⟨h1, if_pos h1⟩
  · have h1' : c.connectIsOk = true := by simpa using h1
    by_cases h2 : c.tcpClientStatue = .disConnect
    · exact .inr (.inl ⟨h1', h2, by simp only [c] at h1 h2; rw [if_neg h1, if_pos h2]⟩)
    · by_cases h3 : c.tcpClientStatue = .connectOk ∧ c.tcpSendEn = true
      · refine .inr (.inr (.inl ⟨h1', h3.1, h3.2, ?_⟩))
        simp only [c] at h1 h2 h3
        rw [if_neg h1, if_neg h2, if_pos h3]
        simp only [udpSendProcess]
        split_ifs <;> exact ⟨_, _, rfl, rfl, rfl, rfl, rfl⟩
      · refine .inr (.inr (.inr ⟨h1', h2, h3, ?_⟩))
        simp only [c] at h1 h2 h3
        rw [if_neg h1, if_neg h2, if_neg h3]

theorem udpSendProcess_slots (i : Fin 4) (b : Bool) (s : Sys F) :
    (udpSendProcess i b s).tcpClientList = s.tcpClientList := by
  unfold udpSendProcess; split_ifs <;> rfl

theorem clientSend_pc (net : Net) (i : Fin 4) (s : Sys F) : (clientSend net i s).pc = s.pc := by
  rcases clientSend_cases net i s with ⟨-, e⟩ | ⟨-, -, e⟩ | ⟨-, -, -, m, s', hs, e, -⟩ | ⟨-, -, -, e⟩ <;>
    rw [e]
  · rfl
  · rfl
  · rw [hs]; simp only [Sys.setSlot_pc, udpSendProcess]; split_ifs <;> rfl

theorem clientSend_ne (net : Net) {i j : Fin 4} (s : Sys F) (hj : j ≠ i) :
    (clientSend net i s).tcpClientList j = s.tcpClientList j := by
  rcases clientSend_cases net i s with ⟨-, e⟩ | ⟨-, -, e⟩ | ⟨-, -, -, m, s', hs, e, -⟩ | ⟨-, -, -, e⟩ <;>
    rw [e]
  · exact Sys.setSlot_ne s _ hj
  · exact Sys.setSlot_ne s _ hj
  · rw [Sys.setSlot_ne _ _ hj, hs, udpSendProcess_slots]

/-! ## Senders -/

/-- The node that a report frame carries; nothing for other frames. -/
def report (frame : List U8) : Option StateNode :=
  if le16 (frame.getD 9 0) (frame.getD 10 0) = sendMsgGndctrl2wcsCmdType then
    some
      { speed := le32 (frame.getD 11 0) (frame.getD 12 0) (frame.getD 13 0) (frame.getD 14 0)
        carnum := le16 (frame.getD 15 0) (frame.getD 16 0)
        servo := le16 (frame.getD 19 0) (frame.getD 20 0) }
  else none

theorem report_cmd (node : StateNode) :
    report (frameOf 1 (cmdPayload node) sendMsgGndctrl2wcsCmdType) = some node := by
  simp [report, frameOf, cmdPayload]

theorem report_other (id : U32) (payload : List U8) {type : U16}
    (h : type ≠ sendMsgGndctrl2wcsCmdType) : report (frameOf id payload type) = none := by
  have ht : le16 ((frameOf id payload type).getD 9 0) ((frameOf id payload type).getD 10 0) =
      type := le16_lo_hi type
  rw [report, if_neg (by rw [ht]; exact h)]

@[simp] theorem report_nil : report [] = none := by decide

/-- The bytes a written frame leaves in the buffer. -/
@[simp] theorem bytes_frameOf (buf : Mem) (id : U32) (payload : List U8) (type : U16) :
    (buf.putList 0 (frameOf id payload type)).bytes (11 + payload.length) =
      frameOf id payload type := by
  have h := Mem.bytes_putList (frameOf id payload type) buf
  rwa [length_frameOf] at h

/-- What a written frame has at the offset of the payload. -/
theorem payload_frameOf (buf : Mem) (id : U32) (payload : List U8) (t : U16) :
    ((List.range payload.length).map fun j =>
      buf.putList 0 (frameOf id payload t) (11 + j)) = payload := by
  refine List.ext_getElem (by simp) fun j _ hj => ?_
  have hg := Mem.putList_get (frameOf id payload t) buf 0 (11 + j) (by simp [hj])
  rw [Nat.zero_add] at hg
  rw [List.getElem_map, List.getElem_range, hg]
  simp [frameOf, Nat.add_comm 11]

/-- The state after the frame of a report: a copy and a token for slot 3. -/
def reported (node : StateNode) (s : Sys F) : Sys F :=
  carthreeAddSendMsgToQueue sendMsgGndctrl2wcsCmdType { s with
    msg := { s.msg with
      gndstatequeue := s.msg.gndstatequeue.outQueue.2, pregndposnod := node }
    cars := { s.cars with gndThreemsg := s.cars.gndThreemsg.putList 0 (cmdPayload node) } }

/-- The state after the frame of a record: a copy and a token for slot 1. -/
def recorded (record : IntervalData) (s : Sys F) : Sys F :=
  (carAddSendMsgToQueue carMsgGndctrl2wcsCmdIntervalType { s with
    msg := { s.msg with
      gnd2WcsIntervalQueue := s.msg.gnd2WcsIntervalQueue.outQueue.2
      carfunint := record, positionreset := 30 }
    cars := { s.cars with
      gndThreeDebug := s.cars.gndThreeDebug.putList 0 (intervalPayload record) } }).note
        (.interval record)

/-- **The branches of the switch** of `send_message_to_sever`. -/
inductive Switched (t : U16) (s : Sys F) : Sys F → Prop
  | reply (ht : t = replyRecvMsgWcs2gndctrlParaType ∨ t = replyRecvMsgRepairCarCmdType) :
      Switched t s (commit 0 t (replyRecvMsg (s.tcpClientList 0).tcpSendBuf t) s)
  | noNode (ht : t = sendMsgGndctrl2wcsCmdType) (hq : s.msg.gndstatequeue.toList = []) :
      Switched t s s
  | report {node : StateNode} {nodes : List StateNode} (ht : t = sendMsgGndctrl2wcsCmdType)
      (hq : s.msg.gndstatequeue.toList = node :: nodes) :
      Switched t s (commit 0 t (encode (cmdPayload node) (s.tcpClientList 0).tcpSendBuf t)
        (reported node s))
  | noRecord (ht : t = sendMsgGndctrl2wcsCmdIntervalType)
      (hq : s.msg.gnd2WcsIntervalQueue.toList = []) :
      Switched t s
        (commit 0 t ((s.tcpClientList 0).tcpSendBuf, (s.tcpClientList 0).tcpSendLen) s)
  | interval {record : IntervalData} {records : List IntervalData}
      (ht : t = sendMsgGndctrl2wcsCmdIntervalType)
      (hq : s.msg.gnd2WcsIntervalQueue.toList = record :: records) :
      Switched t s (commit 0 t (encode (intervalPayload record) (s.tcpClientList 0).tcpSendBuf t)
        (recorded record s))
  | version (ht : t = replyWcsGndVersionType) :
      Switched t s
        (commit 0 t (sendMsgGndVersionType s.msg.version (s.tcpClientList 0).tcpSendBuf t) s)
  | uart2 (ht : t = sendUart2Msg) :
      Switched t s (commit 0 t (sendMsgUartTwoData (s.tcpClientList 0).tcpSendBuf t s).1
        (sendMsgUartTwoData (s.tcpClientList 0).tcpSendBuf t s).2)
  | uart4 (ht : t = sendUart4Msg) :
      Switched t s (commit 0 t (sendMsgUartFourData (s.tcpClientList 0).tcpSendBuf t s).1
        (sendMsgUartFourData (s.tcpClientList 0).tcpSendBuf t s).2)
  /-- the counter is written after the frame -/
  | heart (hc : t ≠ sendMsgGndctrl2wcsCmdType) (hi : t ≠ sendMsgGndctrl2wcsCmdIntervalType)
      (ha : t ∉ answers) :
      Switched t s (commit 0 heartMsgType (sendHeartMsg (s.tcpClientList 0).tcpSendBuf heartMsgType)
        { s with msg := { s.msg with heartDely := heartDelay } })
  | other (hc : t ≠ sendMsgGndctrl2wcsCmdType) (hi : t ≠ sendMsgGndctrl2wcsCmdIntervalType)
      (ha : t ∉ answers) : Switched t s s

theorem reported_eq {s : Sys F} {node : StateNode} {nodes : List StateNode}
    (hq : s.msg.gndstatequeue.toList = node :: nodes) (buf : Mem) (t : U16) :
    sendMsgGndctrl2wcsCmd buf t s = some (encode (cmdPayload node) buf t, reported node s) := by
  have hcopy := payload_frameOf buf 1 (cmdPayload node) t
  simp only [sendMsgGndctrl2wcsCmd, Queue.outQueue_fst, hq, List.head?_cons, Option.map_some,
    encode_eq]
  rw [show 10 = (cmdPayload node).length from rfl, hcopy]
  rfl

theorem recorded_eq {s : Sys F} {record : IntervalData}
    {records : List IntervalData} (hq : s.msg.gnd2WcsIntervalQueue.toList = record :: records)
    (buf : Mem) (len : ℕ) (t : U16) : sendMsgGndctrl2wcsCmdIntervalData buf len t s =
      (encode (intervalPayload record) buf t, recorded record s) := by
  have hcopy := payload_frameOf buf 1 (intervalPayload record) t
  simp only [sendMsgGndctrl2wcsCmdIntervalData, Queue.outQueue_fst, hq, List.head?_cons, encode_eq]
  rw [show 6 = (intervalPayload record).length from rfl, hcopy]
  rfl

theorem sendMessage_switched (t : U16) (s : Sys F) : Switched t s (sendMessage t s) := by
  unfold sendMessage
  simp only
  by_cases hpara : t = replyRecvMsgWcs2gndctrlParaType
  · rw [if_pos hpara]
    exact .reply (.inl hpara)
  rw [if_neg hpara]
  by_cases hc : t = sendMsgGndctrl2wcsCmdType
  · rw [if_pos hc]
    cases hq : s.msg.gndstatequeue.toList with
    | nil =>
      rw [if_pos ((Queue.empty_iff _).2 hq)]
      exact .noNode hc hq
    | cons node nodes =>
      rw [if_neg (by rw [Queue.empty_iff, hq]; exact List.cons_ne_nil _ _),
        reported_eq hq]
      exact .report hc hq
  rw [if_neg hc]
  by_cases hi : t = sendMsgGndctrl2wcsCmdIntervalType
  · rw [if_pos hi]
    cases hq : s.msg.gnd2WcsIntervalQueue.toList with
    | nil =>
      have hnone : sendMsgGndctrl2wcsCmdIntervalData (s.tcpClientList 0).tcpSendBuf
          (s.tcpClientList 0).tcpSendLen t s =
            (((s.tcpClientList 0).tcpSendBuf, (s.tcpClientList 0).tcpSendLen), s) := by
        simp [sendMsgGndctrl2wcsCmdIntervalData, hq]
      rw [hnone]
      exact .noRecord hi hq
    | cons record records =>
      rw [recorded_eq hq]
      exact .interval hi hq
  rw [if_neg hi]
  by_cases hrepair : t = replyRecvMsgRepairCarCmdType
  · rw [if_pos hrepair]
    exact .reply (.inr hrepair)
  rw [if_neg hrepair]
  by_cases hversion : t = replyWcsGndVersionType
  · rw [if_pos hversion]
    exact .version hversion
  rw [if_neg hversion]
  have ha : t ∉ answers := by
    simp only [List.mem_cons, List.not_mem_nil, or_false, not_or]
    exact ⟨hpara, hversion, hrepair⟩
  by_cases h2 : t = sendUart2Msg
  · rw [if_pos h2]
    exact .uart2 h2
  rw [if_neg h2]
  by_cases h4 : t = sendUart4Msg
  · rw [if_pos h4]
    exact .uart4 h4
  rw [if_neg h4]
  by_cases hheart : (s.tcpClientList 0).tcpClientStatue = .connectOk ∧ s.msg.heartDely = 0
  · rw [if_pos hheart]
    exact .heart hc hi ha
  · rw [if_neg hheart]
    exact .other hc hi ha

/-- The frame an encoder returns, with what it leaves of the queues and the
    history. -/
inductive Built (s : Sys F) (t : U16) (frame : List U8) (s' : Sys F) : Prop
  /-- a report, from the first node -/
  | report (node : StateNode) (ht : t = sendMsgGndctrl2wcsCmdType)
      (hq : s.msg.gndstatequeue.toList = node :: s'.msg.gndstatequeue.toList)
      (hr : s'.msg.gnd2WcsIntervalQueue = s.msg.gnd2WcsIntervalQueue)
      (hf : frame = frameOf 1 (cmdPayload node) t) (hl : s'.log = s.log)
  /-- an interval message, from the first record -/
  | interval (record : IntervalData) (ht : t = sendMsgGndctrl2wcsCmdIntervalType)
      (hq : s'.msg.gndstatequeue = s.msg.gndstatequeue)
      (hr : s.msg.gnd2WcsIntervalQueue.toList = record :: s'.msg.gnd2WcsIntervalQueue.toList)
      (hf : frame = frameOf 1 (intervalPayload record) t)
      (hl : s'.log = s.log ++ [.interval record])
  /-- an interval message without a record: the frame before it -/
  | stale (ht : t = sendMsgGndctrl2wcsCmdIntervalType)
      (hr : s.msg.gnd2WcsIntervalQueue.toList = [])
      (hf : frame = (s.tcpClientList 0).frame) (hs : s' = s)
  /-- another message -/
  | other (ht : t ≠ sendMsgGndctrl2wcsCmdType) (ht' : t ≠ sendMsgGndctrl2wcsCmdIntervalType)
      (hq : s'.msg.gndstatequeue = s.msg.gndstatequeue)
      (hr : s'.msg.gnd2WcsIntervalQueue = s.msg.gnd2WcsIntervalQueue)
      (hf : GndCtrl.report frame = none) (hl : s'.log = s.log)

/-- The history after the building of a message. -/
theorem Built.log {s s' : Sys F} {t : U16} {f : List U8} (h : Built s t f s') :
    s'.log = s.log ∨ ∃ record, s'.log = s.log ++ [.interval record] := by
  cases h with
  | report _ _ _ _ _ hl => exact .inl hl
  | interval record _ _ _ _ hl => exact .inr ⟨record, hl⟩
  | stale _ _ _ hs => exact .inl (congrArg Sys.log hs)
  | other _ _ _ _ _ hl => exact .inl hl

/-- What the encoders leave as it is. -/
structure Kept (s s' : Sys F) : Prop where
  slots : s'.tcpClientList = s.tcpClientList
  queue : s'.msg.msgSendQueue = s.msg.msgSendQueue
  eth : s'.ethInitStatus = s.ethInitStatus
  pc : s'.pc = s.pc

theorem Kept.refl (s : Sys F) : Kept s s := ⟨rfl, rfl, rfl, rfl⟩

theorem report_encode (payload : List U8) (buf : Mem) {type : U16}
    (h : type ≠ sendMsgGndctrl2wcsCmdType) :
    report ((encode payload buf type).1.bytes (encode payload buf type).2) = none := by
  rw [encode_eq, bytes_frameOf, report_other 1 payload h]

theorem report_sendMsgUart (u : Line) (n : U16) (buf : Mem) {type : U16}
    (h : type ≠ sendMsgGndctrl2wcsCmdType) :
    report ((sendMsgUart u n buf type).1.1.bytes (sendMsgUart u n buf type).1.2) = none := by
  rw [sendMsgUart]
  split_ifs
  · exact report_nil
  · exact report_nil
  · exact report_encode _ buf h

/-- A frame without payload. -/
theorem report_bare (buf : Mem) (id : U32) {type : U16} (h : type ≠ sendMsgGndctrl2wcsCmdType) :
    report ((buf.putList 0 (frameOf id [] type)).bytes 11) = none := by
  rw [show 11 = 11 + ([] : List U8).length from rfl, bytes_frameOf, report_other id [] h]

/-- The type `t'` of the frame for the token `t`: a report and an interval message
    are sent for their own tokens only. -/
structure SentAs (t t' : U16) : Prop where
  report : t' = sendMsgGndctrl2wcsCmdType ↔ t = sendMsgGndctrl2wcsCmdType
  interval : t' = sendMsgGndctrl2wcsCmdIntervalType ↔ t = sendMsgGndctrl2wcsCmdIntervalType

theorem SentAs.own (t : U16) : SentAs t t := ⟨Iff.rfl, Iff.rfl⟩

/-- A heartbeat is sent for any other token. -/
theorem SentAs.heart {t : U16} (hc : t ≠ sendMsgGndctrl2wcsCmdType)
    (hi : t ≠ sendMsgGndctrl2wcsCmdIntervalType) : SentAs t heartMsgType where
  report := iff_of_false (by decide) hc
  interval := iff_of_false (by decide) hi

/-- **The switch of `send_message_to_sever`** commits one frame, except for a
    report token without a node and for a token with no message of its own. -/
theorem sendMessage_cases (t : U16) (s : Sys F) :
    (sendMessage t s = s ∧ t ≠ sendMsgGndctrl2wcsCmdIntervalType ∧
        (t = sendMsgGndctrl2wcsCmdType → s.msg.gndstatequeue.toList = [])) ∨
      ∃ t' r s', sendMessage t s = commit 0 t' r s' ∧ Kept s s' ∧
        Built s t' (r.1.bytes r.2) s' ∧ SentAs t t' := by
  have h := sendMessage_switched t s
  generalize sendMessage t s = x at h ⊢
  cases h with
  | reply ht =>
    have hc : t ≠ sendMsgGndctrl2wcsCmdType := by rcases ht with rfl | rfl <;> decide
    have hi : t ≠ sendMsgGndctrl2wcsCmdIntervalType := by rcases ht with rfl | rfl <;> decide
    refine .inr ⟨t, _, s, rfl, .refl s, .other hc hi rfl rfl ?_ rfl, .own t⟩
    rw [replyRecvMsg_eq]
    exact report_bare _ _ hc
  | noNode ht hq => exact .inl ⟨rfl, by rw [ht]; decide, fun _ => hq⟩
  | @report node nodes ht hq =>
    refine .inr ⟨t, _, _, rfl, ⟨rfl, rfl, rfl, rfl⟩, .report node ht ?_ rfl ?_ rfl, .own t⟩
    · simp [reported, carthreeAddSendMsgToQueue, hq]
    · rw [encode_eq, bytes_frameOf]
  | noRecord ht hq => exact .inr ⟨t, _, s, rfl, .refl s, .stale ht hq rfl rfl, .own t⟩
  | @interval record records ht hq =>
    refine .inr ⟨t, _, _, rfl, ⟨rfl, rfl, rfl, rfl⟩, .interval record ht rfl ?_ ?_ rfl, .own t⟩
    · simp [recorded, carAddSendMsgToQueue, hq]
    · rw [encode_eq, bytes_frameOf]
  | version ht =>
    have hc : t ≠ sendMsgGndctrl2wcsCmdType := by rw [ht]; decide
    refine .inr ⟨t, _, s, rfl, .refl s, .other hc ?_ rfl rfl (report_encode _ _ hc) rfl, .own t⟩
    rw [ht]
    decide
  | uart2 ht =>
    have hc : t ≠ sendMsgGndctrl2wcsCmdType := by rw [ht]; decide
    refine .inr ⟨t, _, _, rfl, ⟨rfl, rfl, rfl, rfl⟩,
      .other hc ?_ rfl rfl (report_sendMsgUart _ _ _ hc) rfl, .own t⟩
    rw [ht]
    decide
  | uart4 ht =>
    have hc : t ≠ sendMsgGndctrl2wcsCmdType := by rw [ht]; decide
    refine .inr ⟨t, _, _, rfl, ⟨rfl, rfl, rfl, rfl⟩,
      .other hc ?_ rfl rfl (report_sendMsgUart _ _ _ hc) rfl, .own t⟩
    rw [ht]
    decide
  | heart hc hi ha =>
    refine .inr ⟨heartMsgType, _, _, rfl, ⟨rfl, rfl, rfl, rfl⟩,
      .other (by decide) (by decide) rfl rfl ?_ rfl, .heart hc hi⟩
    rw [sendHeartMsg_eq]
    exact report_bare _ _ (by decide)
  | other hc hi ha => exact .inl ⟨rfl, hi, fun h => absurd h hc⟩

/-- The state after the first token is taken. -/
def popped (s : Sys F) : Sys F := (getSendMsgFromQueue s).2

/-- The first token; `0` if there is none. -/
def token (s : Sys F) : U16 := s.msg.msgSendQueue.toList.head?.getD 0

theorem sendMessageToSever_eq (s : Sys F) : sendMessageToSever s =
    if (s.tcpClientList 0).tcpSendEn then s else sendMessage (token s) (popped s) := by
  simp [sendMessageToSever, token, popped, getSendMsgFromQueue]

@[simp] theorem popped_toList (s : Sys F) :
    (popped s).msg.msgSendQueue.toList = s.msg.msgSendQueue.toList.tail := by
  simp [popped, getSendMsgFromQueue]

@[simp] theorem popped_tcpClientList (s : Sys F) : (popped s).tcpClientList = s.tcpClientList := rfl
@[simp] theorem popped_log (s : Sys F) : (popped s).log = s.log := rfl
@[simp] theorem popped_pc (s : Sys F) : (popped s).pc = s.pc := rfl
@[simp] theorem popped_state (s : Sys F) :
    (popped s).msg.gndstatequeue = s.msg.gndstatequeue := rfl
@[simp] theorem popped_interval (s : Sys F) :
    (popped s).msg.gnd2WcsIntervalQueue = s.msg.gnd2WcsIntervalQueue := rfl

/-- What the sender of a car slot does: nothing while a frame is pending, else
    it takes a token and may commit a frame. -/
def CarSent (i : Fin 4) (s s' : Sys F) : Prop :=
  ((s.tcpClientList i).tcpSendEn = true ∧ s' = s) ∨
    ((s.tcpClientList i).tcpSendEn = false ∧ ∃ c, s' = { s with cars := c } ∨
      ∃ t r, s' = commit i t r { s with cars := c })

theorem carsend_cases (s : Sys F) : CarSent 1 s (carsendMessageToSever s) := by
  cases h : (s.tcpClientList 1).tcpSendEn with
  | true => exact .inl ⟨h, by rw [carsendMessageToSever, if_pos h]⟩
  | false =>
    refine .inr ⟨h, (carGetSendMsgFromQueue s).2.cars, ?_⟩
    rw [carsendMessageToSever, if_neg (by rw [h]; decide)]
    simp only
    split_ifs
    · exact .inr ⟨_, _, rfl⟩
    · exact .inl rfl

theorem cartwosend_cases (s : Sys F) : CarSent 2 s (cartwosendMessageToSever s) := by
  cases h : (s.tcpClientList 2).tcpSendEn with
  | true => exact .inl ⟨h, by rw [cartwosendMessageToSever, if_pos h]⟩
  | false =>
    refine .inr ⟨h, (cartwoGetSendMsgFromQueue s).2.cars, ?_⟩
    rw [cartwosendMessageToSever, if_neg (by rw [h]; decide)]
    simp only
    split_ifs
    · exact .inr ⟨_, _, rfl⟩
    · exact .inl rfl

theorem carthreesend_cases (s : Sys F) : CarSent 3 s (carthreesendMessageToSever s) := by
  cases h : (s.tcpClientList 3).tcpSendEn with
  | true => exact .inl ⟨h, by rw [carthreesendMessageToSever, if_pos h]⟩
  | false =>
    refine .inr ⟨h, (carthreeGetSendMsgFromQueue s).2.cars, ?_⟩
    rw [carthreesendMessageToSever, if_neg (by rw [h]; decide)]
    simp only
    split_ifs
    · exact .inr ⟨_, _, rfl⟩
    · exact .inr ⟨_, _, rfl⟩
    · exact .inr ⟨_, _, rfl⟩
    · exact .inl rfl

theorem CarSent.pc {i : Fin 4} {s s' : Sys F} (h : CarSent i s s') : s'.pc = s.pc := by
  rcases h with ⟨-, rfl⟩ | ⟨-, c, rfl | ⟨t, r, rfl⟩⟩ <;> rfl

/-- The sender of slot 0 takes a token and commits a frame for it, if the slot is
    free. -/
theorem sendMessageToSever_cases (s : Sys F) : sendMessageToSever s = s ∨
    (s.tcpClientList 0).tcpSendEn = false ∧ (sendMessageToSever s = popped s ∨
      ∃ t r s', sendMessageToSever s = commit 0 t r s' ∧ Kept (popped s) s' ∧
        Built (popped s) t (r.1.bytes r.2) s') := by
  rw [sendMessageToSever_eq]
  split_ifs with hen
  · exact .inl rfl
  · refine .inr ⟨by simpa using hen, ?_⟩
    rcases sendMessage_cases (token s) (popped s) with ⟨e, -⟩ | ⟨t, r, s', e, hk, hb, -⟩
    · exact .inl e
    · exact .inr ⟨t, r, s', e, hk, hb⟩

theorem sendMessageToSever_pc (s : Sys F) : (sendMessageToSever s).pc = s.pc := by
  rcases sendMessageToSever_cases s with e | ⟨-, e | ⟨t, r, s', e, hk, -⟩⟩ <;> rw [e]
  · rfl
  · exact hk.pc

/-! ## Interrupts -/

section
variable {D : Type} [CNum F] [CNum D] [CFloat F D]

/-- An interrupt is a car at the position sensor, or it leaves the message
    queues, the slots and the history alone. -/
theorem irq_cases (s : Sys F) (e : Irq) :
    (∃ pin tim2 junk, e = .exti4 pin tim2 junk ∧ held pin = true ∧
        irq s e = exti4 tim2 junk s) ∨
      ∃ d m c, irq s e = { s with drive := d, msg := m, cars := c } ∧
        m.msgSendQueue = s.msg.msgSendQueue ∧
        m.gnd2WcsIntervalQueue = s.msg.gnd2WcsIntervalQueue ∧
        m.gndstatequeue = s.msg.gndstatequeue ∧
        ∀ pin tim2 junk, e = .exti4 pin tim2 junk → held pin = false := by
  cases e with
  | exti4 pin tim2 junk =>
    by_cases h : held pin = true
    · exact .inl ⟨pin, tim2, junk, rfl, h, if_pos h⟩
    · refine .inr ⟨_, _, _, if_neg h, rfl, rfl, rfl, ?_⟩
      rintro _ _ _ ⟨⟩
      simpa using h
  | exti95 in7 in10 tim2 =>
    refine .inr ?_
    simp only [irq, exti95]
    split_ifs <;> exact ⟨_, _, _, rfl, rfl, rfl, rfl, by simp⟩
  | tim2 => exact .inr ⟨_, _, _, rfl, rfl, rfl, rfl, by simp⟩
  | tim3 =>
    refine .inr ?_
    simp only [irq]
    split_ifs <;> exact ⟨_, _, _, rfl, rfl, rfl, rfl, by simp⟩
  | sysTick =>
    refine .inr ?_
    simp only [irq, timeUpdate]
    split_ifs <;> exact ⟨_, _, _, rfl, rfl, rfl, rfl, by simp⟩

end

/-! ## The main loop -/

section
variable {D : Type} [CNum F] [CNum D] [CFloat F D]

section
variable (env : Env) {s : Sys F}

theorem step_client {i : Fin 4} (hp : s.pc = .client i) : s.step (.main env) =
    (clientSlot env.toNet i s).goto (if i = 3 then .send else .client (i + 1)) := by
  simp only [Sys.step, mainStep, hp]

theorem step_send (hp : s.pc = .send) :
    s.step (.main env) = (sendMessageToSever s).goto .state := by
  simp only [Sys.step, mainStep, hp]

theorem step_car (hp : s.pc = .car) :
    s.step (.main env) = (carsendMessageToSever s).goto .carthree := by
  simp only [Sys.step, mainStep, hp]

theorem step_carthree (hp : s.pc = .carthree) :
    s.step (.main env) = (carthreesendMessageToSever s).goto .cartwo := by
  simp only [Sys.step, mainStep, hp]

end

theorem step_reset {s : Sys F} (hp : s.pc = .reset) (e : Input) : s.step e = s := by
  cases e with
  | irq e => exact if_pos hp
  | main env => simp only [Sys.step, mainStep, hp]

/-- **An operation of the main loop**: what holds after each of them, whatever
    comes next, holds after the step. -/
theorem mainStep_cases {P : Sys F → Prop} (env : Env) {s : Sys F}
    (hgo : ∀ s' pc, P s' → P (s'.goto pc)) (hs : P s)
    (link : s.pc = .link → P { s with ethInitStatus := env.link })
    (rx : ∀ d, s.pc = .rx → P (udpInput d s))
    (client : ∀ i, s.pc = .client i → P (clientSlot env.toNet i s))
    (send : s.pc = .send → P (sendMessageToSever s))
    (state : s.pc = .state → P (funGnd2wcsStateMsg s))
    (car : ∀ i s', CarSent i s s' → i ≠ 0 → P s')
    (sec : s.pc = .sec → P (secProcess s)) : P (mainStep env s) := by
  unfold mainStep
  cases hp : s.pc with
  | link =>
    simp only
    split_ifs
    · exact hgo s _ hs
    · have h := link hp
      rw [hp] at h
      exact hgo _ _ h
  | rx =>
    cases hrx : env.rx with
    | none => exact hgo s _ hs
    | some d => exact hgo _ _ (rx d hp)
  | client i => exact hgo _ _ (client i hp)
  | send => exact hgo _ _ (send hp)
  | state => exact hgo _ _ (state hp)
  | car => exact hgo _ _ (car 1 _ (carsend_cases s) (by decide))
  | carthree => exact hgo _ _ (car 3 _ (carthreesend_cases s) (by decide))
  | cartwo => exact hgo _ _ (car 2 _ (cartwosend_cases s) (by decide))
  | sec => exact hgo _ _ (sec hp)
  | hang => exact hs
  | reset => exact hs

end

/-- What the blocks of the slots and the tick of a second leave to the
    interrupts and the senders. -/
structure Upheld (s s' : Sys F) : Prop where
  cars : s'.cars = s.cars
  carfunint : s'.msg.carfunint = s.msg.carfunint
  positionreset : s'.msg.positionreset = s.msg.positionreset
  intervalMsFlag : s'.msg.intervalMsFlag = s.msg.intervalMsFlag

theorem Upheld.refl (s : Sys F) : Upheld s s := ⟨rfl, rfl, rfl, rfl⟩

theorem Upheld.trans {s s' s'' : Sys F} (h : Upheld s s') (h' : Upheld s' s'') : Upheld s s'' :=
  ⟨h'.cars.trans h.cars, h'.carfunint.trans h.carfunint, h'.positionreset.trans h.positionreset,
    h'.intervalMsFlag.trans h.intervalMsFlag⟩

theorem Upheld.goto (s : Sys F) (pc : Pc) : Upheld s (s.goto pc) :=
  ⟨goto_cars s pc, by rw [goto_msg], by rw [goto_msg], by rw [goto_msg]⟩

theorem upheld_udpInput (d : Datagram) (s : Sys F) : Upheld s (udpInput d s) := by
  obtain ⟨c, pc, h, -⟩ := udpInput_cases d s
  rw [h]
  exact ⟨rfl, rfl, rfl, rfl⟩

theorem upheld_clientSend (net : Net) (i : Fin 4) (s : Sys F) : Upheld s (clientSend net i s) := by
  simp only [clientSend, udpSendProcess]
  split_ifs <;> exact ⟨rfl, rfl, rfl, rfl⟩

theorem upheld_stateMsg (s : Sys F) : Upheld s (funGnd2wcsStateMsg s) := by
  simp only [funGnd2wcsStateMsg]
  split_ifs <;> exact ⟨rfl, rfl, rfl, rfl⟩

theorem upheld_secProcess (s : Sys F) : Upheld s (secProcess s) := by
  simp only [secProcess]
  split_ifs <;> exact ⟨rfl, rfl, rfl, rfl⟩

section
variable {D : Type} [CNum F] [CNum D] [CFloat F D]

theorem upheld_clientRecv (i : Fin 4) {s : Sys F} (hp : s.pc ≠ .reset) :
    Upheld s (clientRecv i s) := by
  rcases clientRecv_cases i hp with ⟨-, e⟩ | ⟨-, -, e⟩ | ⟨-, -, s', ⟨d, q, n, rfl, -⟩, e⟩ <;> rw [e]
  · exact .refl s
  · exact ⟨rfl, rfl, rfl, rfl⟩
  · exact ⟨rfl, rfl, rfl, rfl⟩

theorem upheld_clientSlot (net : Net) (i : Fin 4) {s : Sys F} (hp : s.pc ≠ .reset) :
    Upheld s (clientSlot net i s) := by
  simp only [clientSlot]
  split_ifs
  · exact upheld_clientRecv i hp
  · exact (upheld_clientRecv i hp).trans (upheld_clientSend net i _)

end

end GndCtrl
