/-
  Tokens, nodes and records.

  The position sensor puts a node into `gndstatequeue`, a record into
  `gnd2WcsIntervalQueue` and a token for each into `msgSendQueue`; the three
  rings overflow on their own.  `send_message_to_sever` takes one token a time.

  `step_cases` divides the steps of the firmware: a car at the position sensor,
  a token taken, or a step that leaves nodes, records and their tokens alone.
-/
import GndCtrl.Steps

namespace GndCtrl

open CNum CFloat

variable {F : Type}

/-! ## The steps that matter -/

/-- The token of an interval message. -/
abbrev intervalType : U16 := sendMsgGndctrl2wcsCmdIntervalType

/-- The tokens that wait. -/
def Sys.tokens (s : Sys F) : List U16 := s.msg.msgSendQueue.toList

theorem token_eq (s : Sys F) : token s = s.tokens.head?.getD 0 := rfl

theorem tokens_cons {s : Sys F} (h : token s ≠ 0) : s.tokens = token s :: s.tokens.tail := by
  rw [token_eq] at h ⊢
  cases hl : s.tokens with
  | nil =>
    rw [hl] at h
    exact absurd rfl h
  | cons a l => rfl

/-- Taking a token leaves the others. -/
theorem count_tail_tokens {s : Sys F} {t : U16} (h : token s ≠ t) :
    s.tokens.tail.count t = s.tokens.count t := by
  rw [token_eq] at h
  cases hl : s.tokens with
  | nil => rfl
  | cons a l =>
    rw [hl, List.head?_cons, Option.getD_some] at h
    rw [List.tail_cons, List.count_cons_of_ne h]

/-- The records that wait. -/
def Sys.records (s : Sys F) : List IntervalData := s.msg.gnd2WcsIntervalQueue.toList

/-- A car is at the position sensor. -/
def SensorStep (s : Sys F) : Input → Prop
  | .irq (.exti4 pin _ _) => held pin = true ∧ s.pc ≠ .reset
  | _ => False

/-- `send_message_to_sever` takes a token. -/
def Sending (s : Sys F) : Input → Prop
  | .main _ => s.pc = .send ∧ (s.tcpClientList 0).tcpSendEn = false
  | .irq _ => False

instance (s : Sys F) : (e : Input) → Decidable (Sending s e)
  | .main _ => inferInstanceAs (Decidable (_ ∧ _))
  | .irq _ => isFalse id

/-- An entry of the history about something else. -/
def Obs.Aside : Obs → Prop
  | .sensor .. => False
  | .interval _ => False
  | .commit i .. => i ≠ 0
  | _ => True

/-- Between the states only tokens of other messages were added. -/
structure Apart (s s' : Sys F) : Prop where
  state : s'.msg.gndstatequeue = s.msg.gndstatequeue
  interval : s'.msg.gnd2WcsIntervalQueue = s.msg.gnd2WcsIntervalQueue
  tokens : ∃ l, s'.tokens = s.tokens ++ l ∧ intervalType ∉ l
  log : Logged Obs.Aside s s'

theorem Apart.of_eq {s s' : Sys F} (hm : s'.msg.gndstatequeue = s.msg.gndstatequeue)
    (hi : s'.msg.gnd2WcsIntervalQueue = s.msg.gnd2WcsIntervalQueue)
    (ht : s'.msg.msgSendQueue = s.msg.msgSendQueue) (hl : s'.log = s.log) : Apart s s' :=
  ⟨hm, hi, ⟨[], by simp [Sys.tokens, ht], by simp⟩, .of_eq hl⟩

theorem Apart.refl (s : Sys F) : Apart s s := .of_eq rfl rfl rfl rfl

theorem Apart.trans {s s' s'' : Sys F} (h : Apart s s') (h' : Apart s' s'') : Apart s s'' := by
  obtain ⟨l, hl, ht⟩ := h.tokens
  obtain ⟨l', hl', ht'⟩ := h'.tokens
  refine ⟨h'.state.trans h.state, h'.interval.trans h.interval,
    ⟨l ++ l', by rw [hl', hl, List.append_assoc], ?_⟩, h.log.trans h'.log⟩
  rw [List.mem_append]
  rintro (hm | hm)
  · exact ht hm
  · exact ht' hm

theorem Apart.note (s : Sys F) {o : Obs} (ho : o.Aside) : Apart s (s.note o) :=
  ⟨rfl, rfl, ⟨[], by simp [Sys.tokens], by simp⟩, .snoc rfl ho⟩

theorem Apart.commit (s : Sys F) {i : Fin 4} (hi : i ≠ 0) (t : U16) (r : Mem × ℕ) :
    Apart s (commit i t r s) :=
  ⟨rfl, rfl, ⟨[], by simp [Sys.tokens], by simp⟩, .snoc (commit_log i t r s) hi⟩

theorem Apart.goto (s : Sys F) (pc : Pc) : Apart s (s.goto pc) :=
  .of_eq (by rw [goto_msg]) (by rw [goto_msg]) (by rw [goto_msg]) (goto_log s pc)

theorem Handled.apart {s s' : Sys F} (h : Handled s s') : Apart s s' := by
  obtain ⟨d, q, n, rfl, l, hl, ha⟩ := h
  refine ⟨rfl, rfl, ⟨l, hl, fun hm => ?_⟩, .of_eq rfl⟩
  exact absurd (ha _ hm) (by decide)

theorem CarSent.apart {i : Fin 4} (hi : i ≠ 0) {s s' : Sys F} (h : CarSent i s s') :
    Apart s s' := by
  rcases h with ⟨-, rfl⟩ | ⟨-, c, rfl | ⟨t, r, rfl⟩⟩
  · exact .refl _
  · exact .of_eq rfl rfl rfl rfl
  · have hcars : Apart s { s with cars := c } := .of_eq rfl rfl rfl rfl
    exact hcars.trans (.commit _ hi t r)

theorem apart_udpInput (d : Datagram) (s : Sys F) : Apart s (udpInput d s) := by
  obtain ⟨c, pc, h, -⟩ := udpInput_cases d s
  rw [h]
  exact .of_eq rfl rfl rfl rfl

theorem apart_clientSend (net : Net) (i : Fin 4) (s : Sys F) : Apart s (clientSend net i s) := by
  rcases clientSend_cases net i s with ⟨-, e⟩ | ⟨-, -, e⟩ | ⟨-, -, -, m, s', hs, e, hq, hr, hg⟩ |
    ⟨-, -, -, e⟩ <;> rw [e]
  · exact .of_eq rfl rfl rfl rfl
  · exact .of_eq rfl rfl rfl rfl
  · have hsent : Apart s s' := by
      rw [hs, udpSendProcess]
      split_ifs
      · exact .note s trivial
      · exact .refl s
    have hmsg : s'.msg = s.msg := by rw [hs, udpSendProcess]; split_ifs <;> rfl
    refine hsent.trans (.of_eq ?_ ?_ ?_ rfl) <;> rw [hmsg]
    · exact hg
    · exact hr
    · exact hq
  · exact .refl s

section
variable {D : Type} [CNum F] [CNum D] [CFloat F D]

theorem apart_clientSlot (net : Net) (i : Fin 4) {s : Sys F} (hp : s.pc = .client i) :
    Apart s (clientSlot net i s) := by
  have hrecv : Apart s (clientRecv i s) := by
    rcases clientRecv_cases i (s := s) (by simp [hp]) with ⟨-, e⟩ | ⟨-, -, e⟩ |
      ⟨-, -, s', hs', e⟩ <;> rw [e]
    · exact .refl s
    · exact (Apart.note s (o := .handle i _) trivial).trans
        ((Apart.note _ (o := .boot i _) trivial).trans (.of_eq rfl rfl rfl rfl))
    · exact (Apart.note s (o := .handle i _) trivial).trans
        (hs'.apart.trans (.of_eq rfl rfl rfl rfl))
  unfold clientSlot
  simp only
  split_ifs
  · exact hrecv
  · exact hrecv.trans (apart_clientSend net i _)

omit [CNum F] in
theorem apart_stateMsg (s : Sys F) : Apart s (funGnd2wcsStateMsg s) := by
  rw [funGnd2wcsStateMsg]
  split_ifs
  · exact .refl s
  · by_cases hf : s.msg.msgSendQueue.Full
    · refine ⟨rfl, rfl, ⟨[], ?_, by simp⟩, .of_eq rfl⟩
      rw [List.append_nil]
      exact Queue.toList_enQueue_full hf _
    · refine ⟨rfl, rfl, ⟨[sendMsgGndctrl2wcsCmdType], ?_, by decide⟩, .of_eq rfl⟩
      exact Queue.toList_enQueue_room hf _

theorem apart_mainStep (env : Env) {s : Sys F} (h : s.pc ≠ .send) :
    Apart s (mainStep env s) := by
  refine mainStep_cases env (fun s' pc hs => hs.trans (.goto s' pc)) (.refl s) ?_ ?_ ?_ ?_ ?_ ?_ ?_
  · exact fun _ => .of_eq rfl rfl rfl rfl
  · exact fun d _ => apart_udpInput d s
  · exact fun i hp => apart_clientSlot env.toNet i hp
  · exact fun hp => absurd hp h
  · exact fun _ => apart_stateMsg s
  · exact fun i s' hc hi => hc.apart hi
  · intro _
    rw [secProcess]
    split_ifs <;> exact .of_eq rfl rfl rfl rfl

/-- **A step** is a car at the position sensor, a token taken, or it leaves
    nodes, records and their tokens alone. -/
theorem step_cases (s : Sys F) (e : Input) :
    (SensorStep s e ∧ ¬ Sending s e ∧ ∃ tim2 junk, s.step e = exti4 tim2 junk s) ∨
      (Sending s e ∧ ¬ SensorStep s e ∧
        s.step e = (sendMessage (token s) (popped s)).goto .state) ∨
      (¬ SensorStep s e ∧ ¬ Sending s e ∧ Apart s (s.step e)) := by
  cases e with
  | irq e =>
    by_cases hp : s.pc = .reset
    · refine .inr (.inr ⟨?_, id, ?_⟩)
      · cases e <;> first | exact id | exact fun h => h.2 hp
      · rw [Sys.step, if_pos hp]
        exact .refl s
    · have hstep : s.step (.irq e) = irq s e := if_neg hp
      rcases irq_cases s e with ⟨pin, tim2, junk, rfl, hh, he⟩ | ⟨d, m, c, he, hq, hr, hg, hh⟩
      · exact .inl ⟨⟨hh, hp⟩, id, tim2, junk, hstep.trans he⟩
      · refine .inr (.inr ⟨?_, id, ?_⟩)
        · cases e with
          | exti4 pin tim2 junk =>
            intro h
            have := hh pin tim2 junk rfl
            rw [h.1] at this
            cases this
          | _ => exact id
        · rw [hstep, he]
          exact .of_eq hg hr hq rfl
  | main env =>
    by_cases hp : s.pc = .send
    · have hstep := step_send env hp
      cases hen : (s.tcpClientList 0).tcpSendEn with
      | true =>
        refine .inr (.inr ⟨id, fun h => by rw [Sending, hen] at h; exact absurd h.2 (by decide), ?_⟩)
        rw [hstep, sendMessageToSever, if_pos hen]
        exact .goto s _
      | false =>
        refine .inr (.inl ⟨⟨hp, hen⟩, id, ?_⟩)
        rw [hstep, sendMessageToSever_eq, if_neg (by rw [hen]; decide)]
    · exact .inr (.inr ⟨id, fun h => hp h.1, apart_mainStep env hp⟩)

end

end GndCtrl
