/-
  Answers to accepted messages.

  `due` is what an accepted message calls for.  `Acknowledged` says that every
  answer due was committed once or its token still waits: with what is due kept
  beside the firmware (`Ledger`), `acknowledged_step` gives for each step when
  it stays so.  An answer is lost on a full queue, and one is committed again
  when an interval token without a record sends the last frame once more.

  With slot 0 connected each iteration takes a token (`turns_le_taken`), so the
  tokens that wait are gone after as many iterations (`tokens_run`).
-/
import GndCtrl.Commits
import GndCtrl.Reports
import GndCtrl.Slots

namespace GndCtrl

open CNum CFloat

variable {F : Type}

/-! ## What is due -/

/-- The type in a frame. -/
def frameType (frame : List U8) : U16 := le16 (frame.getD 9 0) (frame.getD 10 0)

theorem frameType_frameOf (id : U32) (payload : List U8) (type : U16) :
    frameType (frameOf id payload type) = type := le16_lo_hi type

/-- The types of the frames committed on slot 0. -/
def answered (log : List Obs) : List U16 := (commits 0 log).map frameType

/-- The answers that a message calls for. -/
def due (point : Mem) (len : ℕ) : List U16 :=
  if recvMsgCheck point len then
    if point.u16 9 = recvMsgWcs2gndctrlParaType then
      [replyRecvMsgWcs2gndctrlParaType, replyWcsGndVersionType]
    else if point.u16 9 = recvMsgRepairCarCmdType then [replyRecvMsgRepairCarCmdType]
    else []
  else []

/-- The answers due for the message that a step gives to the handler of slot 0. -/
def Sys.requests (s : Sys F) : Input → List U16
  | .irq _ => []
  | .main _ =>
    let c := s.tcpClientList 0
    if s.pc = .client 0 ∧ c.tcpClientStatue = .connectRecv then due c.tcpRecevBuf c.tcpRecevLen
    else []

/-- The firmware, and the answers due so far. -/
structure Ledger (F : Type) where
  sys : Sys F
  due : List U16

/-- Every answer due was committed once, or its token waits. -/
def Acknowledged (l : Ledger F) : Prop :=
  ∀ t ∈ answers, (answered l.sys.log).count t + l.sys.tokens.count t = l.due.count t

instance (l : Ledger F) : Decidable (Acknowledged l) :=
  List.decidableBAll _ answers

/-- What keeps the answers: there is room for them when they become due, and no
    interval token without a record is taken while the frame in the send buffer
    is an answer. -/
structure AckOk (l : Ledger F) (e : Input) : Prop where
  room : l.sys.tokens.length + (l.sys.requests e).length < msgSendQueueSize
  fresh : Sending l.sys e → token l.sys = intervalType → l.sys.records = [] →
    frameType (l.sys.tcpClientList 0).frame ∉ answers

theorem due_mem {point : Mem} {len : ℕ} : ∀ t ∈ due point len, t ∈ answers := by
  intro t ht
  unfold due at ht
  split_ifs at ht <;> simp at ht ⊢ <;> tauto

theorem requests_mem {s : Sys F} {e : Input} : ∀ t ∈ s.requests e, t ∈ answers := by
  intro t ht
  cases e with
  | irq => cases ht
  | main env =>
    simp only [Sys.requests] at ht
    split_ifs at ht
    · exact due_mem t ht
    · cases ht

/-- A list of answers that is cut short lacks one of them. -/
theorem count_take_iff {l : List U16} (hl : ∀ t ∈ l, t ∈ answers) (k : ℕ) :
    (∀ t ∈ answers, (l.take k).count t = l.count t) ↔ l.length ≤ k := by
  constructor
  · intro h
    by_contra hk
    have hlt : k < l.length := Nat.lt_of_not_le hk
    have hsplit : l.count l[k] = (l.take k).count l[k] + (l.drop k).count l[k] := by
      rw [← List.count_append, List.take_append_drop]
    have hpos : 0 < (l.drop k).count l[k] := by
      rw [List.count_pos_iff, List.drop_eq_getElem_cons hlt]
      exact List.mem_cons_self
    have hsame := h l[k] (hl _ (List.getElem_mem hlt))
    omega
  · intro h t _
    rw [List.take_of_length_le h]

/-! ## The tokens -/

section
variable {D : Type} [CNum F] [CNum D] [CFloat F D]

theorem queue_recvMessageFromSever (point : Mem) (len : ℕ) (s : Sys F) :
    (recvMessageFromSever point len s).2.msg.msgSendQueue =
      (due point len).foldl Queue.enQueue s.msg.msgSendQueue := by
  simp only [recvMessageFromSever, recvMsgProcess, due]
  split_ifs with hc hb hp hr hp hr hn
  · exact absurd (hb.symm.trans hp) (by decide)
  · exact absurd (hb.symm.trans hr) (by decide)
  all_goals rfl

omit [CNum F] in
theorem queue_clientSend (net : Net) (i : Fin 4) (s : Sys F) :
    (clientSend net i s).msg.msgSendQueue = s.msg.msgSendQueue := by
  simp only [clientSend, udpSendProcess]
  split_ifs <;> rfl

theorem queue_exti4 (tim2 junk : U16) (s : Sys F) : (exti4 tim2 junk s).msg.msgSendQueue =
    [intervalType, sendMsgGndctrl2wcsCmdType].foldl Queue.enQueue s.msg.msgSendQueue := rfl

theorem cmd_no_answer : ∀ t ∈ [intervalType, sendMsgGndctrl2wcsCmdType], t ∉ answers := by simp

/-- Only the block of slot 0 puts answers into the queue. -/
theorem queue_clientSlot (env : Env) {i : Fin 4} {s : Sys F} (hp : s.pc = .client i) :
    (clientSlot env.toNet i s).msg.msgSendQueue =
      (s.requests (.main env)).foldl Queue.enQueue s.msg.msgSendQueue := by
  have hrecv : (clientRecv i s).msg.msgSendQueue =
      (s.requests (.main env)).foldl Queue.enQueue s.msg.msgSendQueue := by
    have hset : ∀ (c : Prop) [Decidable c] (a : Sys F) (f : TcpClientTable → TcpClientTable),
        (if c then a else a.setSlot i f).msg = a.msg := by
      intro c _ a f
      split_ifs <;> rfl
    by_cases hr : (s.tcpClientList i).tcpClientStatue = .connectRecv
    · simp only [clientRecv, if_pos hr, hset]
      by_cases hi : i = 0
      · subst hi
        rw [Sys.requests, if_pos ⟨hp, hr⟩]
        exact queue_recvMessageFromSever _ _ _
      · have hno : ¬ (s.pc = .client 0 ∧ (s.tcpClientList 0).tcpClientStatue = .connectRecv) := by
          rw [hp]
          rintro ⟨h, -⟩
          exact hi (Pc.client.inj h)
        rw [Sys.requests, if_neg hno]
        rcases carMessage_cases i hi (s.tcpClientList i).tcpRecevBuf (s.tcpClientList i).tcpRecevLen
          (s.note (.handle i ((s.tcpClientList i).tcpRecevBuf.bytes
            (s.tcpClientList i).tcpRecevLen))) with ⟨-, e⟩ | ⟨-, e⟩ <;> rw [e] <;> rfl
    · have hno : ¬ (s.pc = .client 0 ∧ (s.tcpClientList 0).tcpClientStatue = .connectRecv) := by
        rw [hp]
        rintro ⟨h, h'⟩
        rw [Pc.client.inj h] at hr
        exact hr h'
      rw [Sys.requests, if_neg hno]
      simp only [clientRecv, if_neg hr]
      rfl
  simp only [clientSlot]
  split_ifs
  · exact hrecv
  · rw [queue_clientSend, hrecv]

/-- A step that takes no token adds the answers due, then other tokens. -/
theorem queue_step {s : Sys F} {e : Input} (h : ¬ Sending s e) :
    ∃ l : List U16, (∀ t ∈ l, t ∉ answers) ∧ (s.step e).msg.msgSendQueue =
      l.foldl Queue.enQueue ((s.requests e).foldl Queue.enQueue s.msg.msgSendQueue) := by
  cases e with
  | irq e =>
    simp only [Sys.step, Sys.requests, List.foldl_nil]
    split_ifs
    · exact ⟨[], by simp, rfl⟩
    · rcases irq_cases s e with ⟨_, tim2, junk, _, -, he⟩ | ⟨d, m, c, he, hq, -⟩ <;> rw [he]
      · exact ⟨_, cmd_no_answer, queue_exti4 tim2 junk s⟩
      · exact ⟨[], by simp, hq⟩
  | main env =>
    change ∃ l : List U16, _ ∧ (mainStep env s).msg.msgSendQueue = _
    by_cases hp : s.pc = .client 0
    · refine ⟨[], by simp, ?_⟩
      simp only [mainStep, hp, goto_msg]
      exact queue_clientSlot env hp
    · have hno : s.requests (.main env) = [] := if_neg fun hc => hp hc.1
      simp only [hno, List.foldl_nil]
      have hsame : ∀ {s' : Sys F}, s'.msg.msgSendQueue = s.msg.msgSendQueue →
          ∃ l : List U16, (∀ t ∈ l, t ∉ answers) ∧
            s'.msg.msgSendQueue = l.foldl Queue.enQueue s.msg.msgSendQueue :=
        fun h => ⟨[], by simp, h⟩
      refine mainStep_cases (P := fun s' => ∃ l : List U16, (∀ t ∈ l, t ∉ answers) ∧
        s'.msg.msgSendQueue = l.foldl Queue.enQueue s.msg.msgSendQueue) env
        ?_ (hsame rfl) ?_ ?_ ?_ ?_ ?_ ?_ ?_
      · rintro s' pc ⟨l, hl, hq⟩
        exact ⟨l, hl, by rw [goto_msg, hq]⟩
      · exact fun _ => hsame rfl
      · intro d _
        obtain ⟨c, pc, e, -⟩ := udpInput_cases d s
        rw [e]
        exact hsame rfl
      · intro i hi
        have hq := queue_clientSlot env hi
        rw [hno] at hq
        exact hsame hq
      · intro hs
        have hen : (s.tcpClientList 0).tcpSendEn = true := by
          cases hen : (s.tcpClientList 0).tcpSendEn with
          | true => rfl
          | false => exact absurd ⟨hs, hen⟩ h
        rw [sendMessageToSever_eq, if_pos hen]
        exact hsame rfl
      · intro _
        simp only [funGnd2wcsStateMsg]
        split_ifs
        · exact hsame rfl
        · exact ⟨[sendMsgGndctrl2wcsCmdType], by simp, rfl⟩
      · rintro i s' (⟨-, rfl⟩ | ⟨-, c, rfl | ⟨t, r, rfl⟩⟩) - <;> exact hsame rfl
      · intro _
        simp only [secProcess]
        split_ifs <;> exact hsame rfl

/-- A step that takes no token, on the tokens. -/
theorem tokens_step {s : Sys F} {e : Input} (h : ¬ Sending s e) :
    ∃ l : List U16, (∀ t ∈ l, t ∉ answers) ∧ (s.step e).tokens =
      s.tokens ++ (s.requests e).take (msgSendQueueSize - 1 - s.tokens.length) ++ l := by
  obtain ⟨l, hl, hq⟩ := queue_step h
  rw [Sys.tokens, hq, Queue.toList_foldl_enQueue, Queue.toList_foldl_enQueue]
  exact ⟨_, fun t ht => hl t (List.mem_of_mem_take ht), rfl⟩

end

/-! ## The frames -/

theorem answered_append (l l' : List Obs) : answered (l ++ l') = answered l ++ answered l' := by
  rw [answered, commits_append, List.map_append]
  rfl

theorem answered_aside {l : List Obs} (h : ∀ o ∈ l, o.Aside) : answered l = [] := by
  rw [answered, commits, List.map_eq_nil_iff, List.filterMap_eq_nil_iff]
  intro o ho
  cases o with
  | commit i t f => exact if_neg (h _ ho)
  | _ => rfl

theorem answered_commit (t : U16) (r : Mem × ℕ) (s : Sys F) :
    answered (commit 0 t r s).log = answered s.log ++ [frameType (r.1.bytes r.2)] := by
  rw [commit_log, answered_append]
  rfl

theorem frameType_encode (payload : List U8) (buf : Mem) (type : U16) :
    frameType ((encode payload buf type).1.bytes (encode payload buf type).2) = type := by
  rw [encode_eq, bytes_frameOf, frameType_frameOf]

/-- A frame without payload. -/
theorem frameType_bare (buf : Mem) (id : U32) (type : U16) :
    frameType ((buf.putList 0 (frameOf id [] type)).bytes 11) = type := by
  rw [show 11 = 11 + ([] : List U8).length from rfl, bytes_frameOf, frameType_frameOf]

theorem frameType_sendMsgUart (u : Line) (n : U16) (buf : Mem) {type : U16} (h : type ∉ answers) :
    frameType ((sendMsgUart u n buf type).1.1.bytes (sendMsgUart u n buf type).1.2) ∉ answers := by
  have hnil : frameType ([] : List U8) ∉ answers := by simp [frameType, le16]
  rw [sendMsgUart]
  split_ifs
  · exact hnil
  · exact hnil
  · rw [frameType_encode]
    exact h

/-- What taking the token `t` adds to the frames: the answer `t`, the last frame
    again, or nothing that is an answer. -/
inductive Added (s : Sys F) (t : U16) (m : List U16) : Prop
  | answer (ht : t ∈ answers) (hm : m = [t])
  | again (ht : t = intervalType) (hr : s.records = []) (hm : m = [frameType (s.tcpClientList 0).frame])
  | other (ht : t ∉ answers) (hr : t = intervalType → s.records ≠ []) (hm : ∀ x ∈ m, x ∉ answers)

theorem added_sendMessage (t : U16) (s : Sys F) :
    ∃ m, answered (sendMessage t s).log = answered s.log ++ m ∧ Added s t m := by
  have hself : ∀ {m : List U16}, Added s t m → m = [] →
      ∃ m, answered s.log = answered s.log ++ m ∧ Added s t m := by
    rintro _ ha rfl
    exact ⟨[], (List.append_nil _).symm, ha⟩
  have h := sendMessage_switched t s
  generalize sendMessage t s = x at h ⊢
  cases h with
  | reply ht =>
    refine ⟨_, answered_commit _ _ _, .answer (by rcases ht with rfl | rfl <;> simp) ?_⟩
    rw [replyRecvMsg_eq, frameType_bare]
  | noNode ht hq => exact hself (.other (by simp [ht]) (by simp [ht]) (by simp)) rfl
  | report ht hq =>
    refine ⟨_, answered_commit _ _ _, .other (by simp [ht]) (by simp [ht]) ?_⟩
    rw [frameType_encode, ht]
    simp
  | noRecord ht hq => exact ⟨_, answered_commit _ _ _, .again ht hq rfl⟩
  | @interval record records ht hq =>
    have hlog : answered (recorded record s).log = answered s.log := by
      rw [recorded, Sys.note_log, answered_append]
      exact List.append_nil _
    refine ⟨_, by rw [answered_commit, hlog], .other (by simp [ht]) ?_ ?_⟩
    · intro _ hn
      rw [Sys.records, hq] at hn
      cases hn
    · rw [frameType_encode, ht]
      simp
  | version ht =>
    refine ⟨_, answered_commit _ _ _, .answer (by simp [ht]) ?_⟩
    rw [sendMsgGndVersionType, frameType_encode]
  | uart2 ht =>
    have ha : t ∉ answers := by simp [ht]
    refine ⟨_, answered_commit _ _ _, .other ha (by simp [ht]) ?_⟩
    exact List.forall_mem_singleton.2
      (frameType_sendMsgUart s.drive.uart.uart2 s.msg.usart2Sentcount _ ha)
  | uart4 ht =>
    have ha : t ∉ answers := by simp [ht]
    refine ⟨_, answered_commit _ _ _, .other ha (by simp [ht]) ?_⟩
    exact List.forall_mem_singleton.2
      (frameType_sendMsgUart s.drive.uart.uart4 s.msg.usart4Sentcount _ ha)
  | heart hc hi ha =>
    refine ⟨_, answered_commit heartMsgType _ _, .other ha (fun h => absurd h hi) ?_⟩
    rw [sendHeartMsg_eq, frameType_bare]
    simp
  | other hc hi ha => exact hself (.other ha (fun h => absurd h hi) (by simp)) rfl

/-! ## A step -/

/-- The firmware goes on, and what becomes due is kept. -/
def Ledger.step {D : Type} [CNum F] [CNum D] [CFloat F D] (l : Ledger F) (e : Input) : Ledger F :=
  ⟨l.sys.step e, l.due ++ l.sys.requests e⟩

theorem mem_answers_ne_zero {t : U16} (h : t ∈ answers) : t ≠ 0 := by
  rintro rfl
  simp at h

theorem tokens_sendMessage (t : U16) (s : Sys F) : (sendMessage t s).tokens = s.tokens := by
  rcases sendMessage_cases t s with ⟨e, -⟩ | ⟨t', r, s', e, hk, -⟩ <;> rw [e]
  exact congrArg Queue.toList hk.queue

section
variable {D : Type} [CNum F] [CNum D] [CFloat F D]

omit [CNum F] in
theorem requests_sending {s : Sys F} {e : Input} (h : Sending s e) : s.requests e = [] := by
  cases e with
  | irq => rfl
  | main env =>
    refine if_neg ?_
    rintro ⟨hp, -⟩
    rw [h.1] at hp
    cases hp

/-- A step that takes a token, on tokens and frames. -/
theorem sending_step {s : Sys F} {e : Input} (h : Sending s e) :
    (s.step e).tokens = s.tokens.tail ∧
      ∃ m, answered (s.step e).log = answered s.log ++ m ∧ Added s (token s) m := by
  rcases step_cases s e with ⟨-, hn, -⟩ | ⟨-, -, he⟩ | ⟨-, hn, -⟩
  · exact absurd h hn
  · obtain ⟨m, hm, ha⟩ := added_sendMessage (token s) (popped s)
    refine ⟨?_, m, by rw [he, goto_log, hm, popped_log], ?_⟩
    · have htail : (popped s).tokens = s.tokens.tail := popped_toList s
      rw [he, Sys.tokens, goto_msg, ← htail]
      exact tokens_sendMessage _ _
    · cases ha with
      | answer ht hm => exact .answer ht hm
      | again ht hr hm => exact .again ht hr hm
      | other ht hr hm => exact .other ht hr hm
  · exact absurd h hn

/-- The other steps commit nothing on slot 0. -/
theorem answered_step {s : Sys F} {e : Input} (h : ¬ Sending s e) :
    answered (s.step e).log = answered s.log := by
  rcases step_cases s e with ⟨-, -, tim2, junk, he⟩ | ⟨hs, -⟩ | ⟨-, -, ha⟩
  · rw [he]
    change answered (s.log ++ [_]) = _
    rw [answered_append]
    exact List.append_nil _
  · exact absurd hs h
  · obtain ⟨l, hl, ha⟩ := ha.log
    rw [hl, answered_append, answered_aside ha, List.append_nil]

/-- The sender of slot 0 keeps the answers unless it commits one a second time. -/
theorem acknowledged_sending {l : Ledger F} {e : Input} (h : Acknowledged l)
    (hs : Sending l.sys e) : Acknowledged (l.step e) ↔ AckOk l e := by
  have hlt : l.sys.tokens.length < msgSendQueueSize := l.sys.msg.msgSendQueue.length_lt
  obtain ⟨htail, m, hm, ha⟩ := sending_step hs
  have hreq := requests_sending hs
  have hroom : l.sys.tokens.length + (l.sys.requests e).length < msgSendQueueSize := by
    rw [hreq]
    exact hlt
  -- each count changes by that of the frame and of the token
  have hcount : Acknowledged (l.step e) ↔ ∀ t ∈ answers,
      m.count t + l.sys.tokens.tail.count t = l.sys.tokens.count t := by
    refine forall₂_congr fun t ht => ?_
    have ht := h t ht
    simp only [Ledger.step, hm, htail, hreq, List.append_nil, List.count_append]
    omega
  rw [hcount]
  cases ha with
  | answer ht hm =>
    refine iff_of_true (fun t _ => ?_) ⟨hroom, fun _ hi => ?_⟩
    · conv_rhs => rw [tokens_cons (mem_answers_ne_zero ht)]
      rw [hm, ← List.count_append, List.singleton_append]
    · rw [hi] at ht
      exact absurd ht (cmd_no_answer _ List.mem_cons_self)
  | again ht hr hm =>
    have htok : ∀ t ∈ answers, l.sys.tokens.tail.count t = l.sys.tokens.count t := by
      refine fun t hta => count_tail_tokens fun hc => ?_
      rw [← hc, ht] at hta
      exact cmd_no_answer _ List.mem_cons_self hta
    constructor
    · refine fun hall => ⟨hroom, fun _ _ _ hin => ?_⟩
      have hone := hall _ hin
      rw [htok _ hin, hm, List.count_singleton_self] at hone
      omega
    · intro hok t hta
      have hne : frameType (l.sys.tcpClientList 0).frame ≠ t := by
        rintro rfl
        exact hok.fresh hs ht hr hta
      rw [htok t hta, hm, List.count_singleton, if_neg (by simpa using hne), Nat.zero_add]
  | other ht hr hm =>
    refine iff_of_true (fun t hta => ?_) ⟨hroom, fun _ hi hn => absurd hn (hr hi)⟩
    rw [count_tail_tokens fun hc => ht (hc ▸ hta), List.count_eq_zero.2 fun hc => hm t hc hta,
      Nat.zero_add]

/-- Any other step keeps them just if there is room for those it makes due. -/
theorem acknowledged_aside {l : Ledger F} {e : Input} (h : Acknowledged l)
    (hs : ¬ Sending l.sys e) : Acknowledged (l.step e) ↔ AckOk l e := by
  have hlt : l.sys.tokens.length < msgSendQueueSize := l.sys.msg.msgSendQueue.length_lt
  obtain ⟨l', hl', htok⟩ := tokens_step hs
  have hcount : Acknowledged (l.step e) ↔ ∀ t ∈ answers,
      ((l.sys.requests e).take (msgSendQueueSize - 1 - l.sys.tokens.length)).count t =
        (l.sys.requests e).count t := by
    refine forall₂_congr fun t ht => ?_
    have hother : l'.count t = 0 := List.count_eq_zero.2 fun hc => hl' t hc ht
    have ht := h t ht
    simp only [Ledger.step, answered_step hs, htok, List.count_append, hother]
    omega
  rw [hcount, count_take_iff requests_mem]
  constructor
  · intro hle
    exact ⟨by omega, fun hc => absurd hc hs⟩
  · intro hok
    have hroom := hok.room
    omega

/-- **A step keeps the answers** just if there is room for those it makes due,
    and it commits none a second time. -/
theorem acknowledged_step (l : Ledger F) (e : Input) (h : Acknowledged l) :
    Acknowledged (l.step e) ↔ AckOk l e := by
  by_cases hs : Sending l.sys e
  · exact acknowledged_sending h hs
  · exact acknowledged_aside h hs

/-! ## Progress -/

/-- Slot 0 is connected, and between its block and its sender nothing of it is
    pending. -/
structure Served (s : Sys F) : Prop where
  conn : (s.tcpClientList 0).phase = 2
  free : (s.pc = .send ∨ ∃ j, j ≠ 0 ∧ s.pc = .client j) → (s.tcpClientList 0).tcpSendEn = false

/-- The number of calls of `send_message_to_sever`. -/
def turns (s : Sys F) : List Input → ℕ
  | [] => 0
  | .irq e :: es => turns (s.step (.irq e)) es
  | .main env :: es => (if s.pc = .send then 1 else 0) + turns (s.step (.main env)) es

theorem conn_step {s : Sys F} (h : (s.tcpClientList 0).phase = 2) (e : Input) :
    ((s.step e).tcpClientList 0).phase = 2 := by
  cases e with
  | irq e => rw [(irq_slots s e).1, h]
  | main env =>
    by_cases hp : s.pc = .client 0
    · rcases client_step env hp with ⟨-, hside⟩ | ⟨-, hadv⟩
      · exact (hside 0).phase.trans h
      · exact (hadv.sent h).1
    · exact (phase_step hp).trans h

theorem served_step {s : Sys F} (h : Served s) (e : Input) : Served (s.step e) := by
  refine ⟨conn_step h.conn e, fun hpc => ?_⟩
  cases e with
  | irq e =>
    obtain ⟨hslots, hsame⟩ := irq_slots s e
    rw [hsame] at hpc
    rw [hslots]
    exact h.free hpc
  | main env =>
    have hnext := next_step s env
    -- only a block comes before a block or the sender
    have hclient : ∃ i, s.pc = .client i := by
      cases hp : s.pc with
      | client i => exact ⟨i, rfl⟩
      | _ =>
        rw [hp] at hnext
        simp only [Pc.next, List.mem_cons, List.not_mem_nil, or_false] at hnext
        rcases hpc with hpc | ⟨j, hj, hpc⟩ <;> rw [hpc] at hnext <;> simp at hnext
        try exact absurd hnext hj
    obtain ⟨i, hp⟩ := hclient
    by_cases hi : i = 0
    · subst hi
      rcases client_step env hp with ⟨hr, -⟩ | ⟨-, hadv⟩
      · rcases hpc with hpc | ⟨j, -, hpc⟩ <;> rw [hr] at hpc <;> cases hpc
      · exact (hadv.sent h.conn).2.1
    · have hside : SameSide (s.tcpClientList 0) ((s.step (.main env)).tcpClientList 0) :=
        same_step (by rw [hp]; exact fun hc => hi (Pc.client.inj hc)) (by simp [hp, Pc.sender])
      rw [hside.en]
      exact h.free (.inr ⟨i, hi, hp⟩)

/-- After the run the first `n` tokens are gone, and of the answers only those
    have come that became due. -/
def Drained (s : Sys F) (es : List Input) (n : ℕ) : Prop :=
  ∃ l, (run Sys.step s es).tokens = s.tokens.drop n ++ l ∧
    ∀ t ∈ answers, l.count t ≤ (collect Sys.step Sys.requests s es).count t

theorem Drained.sending {s : Sys F} {e : Input} {es : List Input} {n : ℕ} (hs : Sending s e)
    (h : Drained (s.step e) es n) : Drained s (e :: es) (n + 1) := by
  obtain ⟨l, hl, hc⟩ := h
  refine ⟨l, ?_, ?_⟩
  · rw [run_cons, hl, (sending_step hs).1, List.drop_tail]
  · rw [collect, requests_sending hs, List.nil_append]
    exact hc

theorem Drained.other {s : Sys F} {e : Input} {es : List Input} {n : ℕ} (hs : ¬ Sending s e)
    (h : Drained (s.step e) es n) : Drained s (e :: es) n := by
  obtain ⟨l, hl, hc⟩ := h
  obtain ⟨l', hl', htok⟩ := tokens_step hs
  rw [htok, List.append_assoc, List.drop_append, List.append_assoc] at hl
  refine ⟨_, hl, fun t ht => ?_⟩
  have hdrop := ((List.drop_sublist (n - s.tokens.length)
    ((s.requests e).take (msgSendQueueSize - 1 - s.tokens.length) ++ l')).count_le t)
  have htake := ((List.take_sublist (msgSendQueueSize - 1 - s.tokens.length)
    (s.requests e)).count_le t)
  have hother : l'.count t = 0 := List.count_eq_zero.2 fun hc => hl' t hc ht
  have hrest := hc t ht
  rw [List.count_append, hother] at hdrop
  rw [collect, List.count_append, List.count_append]
  omega

omit [CNum F] in
theorem Served.sending_iff {s : Sys F} (h : Served s) (env : Env) :
    Sending s (.main env) ↔ s.pc = .send :=
  ⟨fun hs => hs.1, fun hp => ⟨hp, h.free (.inl hp)⟩⟩

theorem Served.drained {s : Sys F} (h : Served s) (es : List Input) :
    Drained s es (turns s es) := by
  induction es generalizing s with
  | nil => exact ⟨[], by simp [turns], by simp⟩
  | cons e es ih =>
    have hrest := ih (served_step h e)
    cases e with
    | irq e => exact hrest.other id
    | main env =>
      rw [turns]
      split_ifs with hp
      · rw [Nat.add_comm]
        exact hrest.sending ((h.sending_iff env).2 hp)
      · rw [Nat.zero_add]
        exact hrest.other fun hc => hp hc.1

/-- **With slot 0 connected** every call but the first takes a token. -/
theorem drained_run {s : Sys F} (h : (s.tcpClientList 0).phase = 2) (es : List Input) :
    ∃ n, turns s es ≤ n + 1 ∧ Drained s es n := by
  induction es generalizing s with
  | nil => exact ⟨0, by simp [turns], [], by simp, by simp⟩
  | cons e es ih =>
    cases e with
    | irq e =>
      obtain ⟨n, hn, hd⟩ := ih (conn_step h (.irq e))
      exact ⟨n, hn, hd.other id⟩
    | main env =>
      rw [turns]
      by_cases hp : s.pc = .send
      · -- after its call nothing of the slot can be pending before the next
        have hserved : Served (s.step (.main env)) := by
          refine ⟨conn_step h (.main env), fun hpc => ?_⟩
          have hnext := next_step s env
          rw [hp, Pc.next, List.mem_singleton] at hnext
          rw [hnext] at hpc
          rcases hpc with hpc | ⟨j, -, hpc⟩ <;> cases hpc
        have hrest := hserved.drained es
        rw [if_pos hp]
        by_cases hs : Sending s (.main env)
        · exact ⟨_, by omega, hrest.sending hs⟩
        · exact ⟨_, by omega, hrest.other hs⟩
      · obtain ⟨n, hn, hd⟩ := ih (conn_step h (.main env))
        exact ⟨n, by rw [if_neg hp]; omega, hd.other fun hc => hp hc.1⟩

/-! ## All runs -/

theorem ledger_run (l : Ledger F) (es : List Input) : run Ledger.step l es =
    ⟨run Sys.step l.sys es, l.due ++ collect Sys.step Sys.requests l.sys es⟩ := by
  induction es generalizing l with
  | nil => rw [run_nil, run_nil, collect, List.append_nil]
  | cons e es ih => rw [run_cons, ih, run_cons, collect, ← List.append_assoc]; rfl

/-- **Accepted messages are acknowledged** in every state of a run if and only if
    its steps meet `AckOk`; and with slot 0 connected, what is due has been
    committed as soon as `send_message_to_sever` has been called more often than
    tokens waited. -/
theorem acknowledged_iff (ty : U8) (es : List Input) :
    let start : Ledger F := ⟨Sys.init ty, []⟩
    (Always Ledger.step Acknowledged start es ↔ Along Ledger.step AckOk start es) ∧
    ∀ es', Along Ledger.step AckOk start (es ++ es') →
      let l := run Ledger.step start es
      (l.sys.tcpClientList 0).phase = 2 → l.sys.tokens.length < turns l.sys es' →
        ∀ t ∈ answers, l.due.count t ≤ (answered (run Ledger.step l es').sys.log).count t := by
  intro start
  have hstart : Acknowledged start := fun t _ => by
    simp [start, Sys.init, Msg.init, Sys.tokens, answered, commits]
  have hiff : ∀ es, Always Ledger.step Acknowledged start es ↔ Along Ledger.step AckOk start es :=
    fun es => always_iff_along (I := fun _ => True) (fun _ _ _ => trivial)
      (fun l e _ => acknowledged_step l e) es trivial hstart
  refine ⟨hiff es, ?_⟩
  intro es' halong l hconn hturns t ht
  obtain ⟨n, hn, new, hnew, hcount⟩ := drained_run hconn es'
  have hend := ((hiff (es ++ es')).2 halong).last t ht
  have hrest := hcount t ht
  rw [run_append] at hend
  change (answered (run Ledger.step l es').sys.log).count t + _ = _ at hend
  rw [ledger_run] at hend ⊢
  rw [List.count_append] at hend
  rw [List.drop_of_length_le (by omega), List.nil_append] at hnew
  simp only [hnew] at hend
  change l.due.count t ≤ (answered (run Sys.step l.sys es').log).count t
  omega

end

/-- A parameter message for slot 0. -/
def paraDatagram : Datagram :=
  ⟨endpoint 0, ⟨frameOf 1 (List.replicate 34 0) recvMsgWcs2gndctrlParaType, [], fun _ => 0⟩, 0⟩

/-- Fifty cars before the link is up fill the queue; the message comes as soon as
    slot 0 is connected. -/
def flooded : List Input := List.replicate 50 (.irq (.exti4 (fun _ => true) 0 0)) ++
  List.replicate 27 (.main (.up none)) ++ [.main (.up (some paraDatagram)), .main (.up none)]

set_option maxRecDepth 4000 in
/-- The answers to a parameter message find no room. -/
theorem answer_dropped :
    ¬ ∀ es : List Input, Always Ledger.step Acknowledged ⟨(Sys.init 0 : Sys Num), []⟩ es := by
  intro h
  have hlast := (h flooded).last
  exact absurd hlast (by decide +kernel)

end GndCtrl
