/-
  Reports of the position sensor.

  `InOrder` says that the reports committed on slot 0, with the nodes still
  pending, are the nodes that found room, in order.  A token for an interval
  message that finds no record still sets `tcp_send_en`: the frame in the send
  buffer is sent again, and if it is a report this one is repeated.
  `in_order_iff` shows that nothing else can go wrong.
-/
import GndCtrl.Tokens

namespace GndCtrl

open CNum CFloat

variable {F : Type}

/-- The nodes that wait. -/
def Sys.nodes (s : Sys F) : List StateNode := s.msg.gndstatequeue.toList

/-- The nodes of the sensor events that found fewer than 19 nodes pending. -/
def accepted (log : List Obs) : List StateNode :=
  log.filterMap fun
    | .sensor node pending => if pending < gndStateLen - 1 then some node else none
    | _ => none

/-- The reports committed on slot 0, decoded. -/
def reports (log : List Obs) : List StateNode :=
  log.filterMap fun
    | .commit i _ f => if i = 0 then report f else none
    | _ => none

/-- Every node that found room is reported once, in order, or still pending. -/
def InOrder (s : Sys F) : Prop := reports s.log ++ s.nodes = accepted s.log

instance (s : Sys F) : Decidable (InOrder s) := inferInstanceAs (Decidable (_ = _))

/-- No interval token without a record is taken while the frame in the send
    buffer is a report. -/
def ReportOk (s : Sys F) (e : Input) : Prop :=
  Sending s e → token s = intervalType → s.records = [] →
    report (s.tcpClientList 0).frame = none

instance (s : Sys F) (e : Input) : Decidable (ReportOk s e) :=
  inferInstanceAs (Decidable (_ → _ → _ → _))

@[simp] theorem reports_append (l l' : List Obs) : reports (l ++ l') = reports l ++ reports l' :=
  List.filterMap_append

@[simp] theorem accepted_append (l l' : List Obs) :
    accepted (l ++ l') = accepted l ++ accepted l' := List.filterMap_append

theorem reports_aside {l : List Obs} (h : ∀ o ∈ l, o.Aside) : reports l = [] := by
  rw [reports, List.filterMap_eq_nil_iff]
  intro o ho
  cases o with
  | commit i t f => exact if_neg (h _ ho)
  | _ => rfl

theorem accepted_aside {l : List Obs} (h : ∀ o ∈ l, o.Aside) : accepted l = [] := by
  rw [accepted, List.filterMap_eq_nil_iff]
  intro o ho
  cases o with
  | sensor => exact absurd (h _ ho) id
  | _ => rfl

theorem inOrder_apart {s s' : Sys F} (h : Apart s s') : InOrder s' ↔ InOrder s := by
  obtain ⟨l, hl, ha⟩ := h.log
  simp only [InOrder, Sys.nodes, h.state, hl, reports_append, accepted_append, reports_aside ha,
    accepted_aside ha, List.append_nil]

theorem inOrder_goto (s : Sys F) (pc : Pc) : InOrder (s.goto pc) ↔ InOrder s :=
  inOrder_apart (.goto s pc)

/-- A commit on slot 0 adds the report in its frame. -/
theorem reports_commit (t : U16) (r : Mem × ℕ) (s : Sys F) :
    reports (commit 0 t r s).log = reports s.log ++ (report (r.1.bytes r.2)).toList := by
  rw [commit_log, reports_append]
  cases h : report (r.1.bytes r.2) <;> simp [reports, h]

theorem accepted_commit (t : U16) (r : Mem × ℕ) (s : Sys F) :
    accepted (commit 0 t r s).log = accepted s.log := by
  rw [commit_log, accepted_append]
  simp [accepted]

theorem inOrder_commit (t : U16) (r : Mem × ℕ) (s : Sys F) :
    InOrder (commit 0 t r s) ↔
      reports s.log ++ (report (r.1.bytes r.2)).toList ++ s.nodes = accepted s.log := by
  rw [InOrder, reports_commit, accepted_commit]
  rfl

theorem accepted_sensor (node : StateNode) (n : ℕ) :
    accepted [.sensor node n] = if n < gndStateLen - 1 then [node] else [] := by
  simp only [accepted, List.filterMap_cons, List.filterMap_nil]
  split_ifs <;> rfl

theorem inOrder_exti4 {D : Type} [CNum F] [CNum D] [CFloat F D] (tim2 junk : U16) {s : Sys F}
    (h : InOrder s) : InOrder (exti4 tim2 junk s) := by
  have hlt := s.msg.gndstatequeue.length_lt
  have hn : (exti4 tim2 junk s).nodes =
      (s.msg.gndstatequeue.enQueue (stateNode junk s.drive)).toList := rfl
  have hl : (exti4 tim2 junk s).log =
      s.log ++ [.sensor (stateNode junk s.drive) s.nodes.length] := rfl
  have hr : reports [Obs.sensor (stateNode junk s.drive) s.nodes.length] = [] := rfl
  rw [InOrder, hn, hl, reports_append, accepted_append, accepted_sensor, hr, ← h,
    Queue.toList_enQueue, List.append_nil, List.append_assoc]
  congr 1
  -- the ring is full just when 19 nodes are pending
  have hfull : s.msg.gndstatequeue.Full ↔ ¬ s.nodes.length < gndStateLen - 1 := by
    simp only [Queue.Full, Sys.nodes, gndStateLen] at hlt ⊢
    omega
  by_cases hf : s.msg.gndstatequeue.Full
  · rw [if_pos hf, if_neg (hfull.1 hf), List.append_nil]
    rfl
  · rw [if_neg hf, if_pos (not_not.1 fun hc => hf (hfull.2 hc))]
    rfl

/-- Taking a token keeps the reports in order unless it sends one again. -/
theorem inOrder_sendMessage {s : Sys F} (h : InOrder s) :
    InOrder (sendMessage (token s) (popped s)) ↔
      (token s = intervalType → s.records = [] → report (s.tcpClientList 0).frame = none) := by
  have hpop : InOrder (popped s) := h
  rcases sendMessage_cases (token s) (popped s) with ⟨e, ht, -⟩ | ⟨t, r, s', e, hk, hb, ht⟩
  · rw [e]
    exact iff_of_true hpop fun hc => absurd hc ht
  rw [e, inOrder_commit]
  rcases hb with ⟨node, hc, hq, -, hf, hl⟩ | ⟨record, hc, hq, hr, hf, hl⟩ | ⟨hc, hr, hf, rfl⟩ |
    ⟨hc, hc', hq, -, hf, hl⟩
  · -- a report
    refine iff_of_true ?_ fun hi => ?_
    · have hn : s.nodes = node :: s'.nodes := hq
      rw [hf, hc, report_cmd, hl]
      simpa [InOrder, hn] using h
    · rw [← ht.interval, hc] at hi
      exact absurd hi (by decide)
  · -- an interval message
    refine iff_of_true ?_ fun _ hi => ?_
    · rw [hf, hc, report_other 1 _ (by decide), hl]
      simpa [InOrder, Sys.nodes, hq, reports, accepted] using h
    · have hr' : s.records = record :: s'.records := hr
      rw [hr'] at hi
      cases hi
  · -- the last frame again
    have hi : token s = intervalType := ht.interval.1 hc
    have hr' : s.records = [] := hr
    have hf' : r.1.bytes r.2 = (s.tcpClientList 0).frame := hf
    simp only [hi, hr', forall_const, hf', popped_log]
    have h' : reports s.log ++ s.nodes = accepted s.log := h
    change _ ++ s.nodes = _ ↔ _
    rw [← h']
    cases report (s.tcpClientList 0).frame <;> simp
  · -- another message
    refine iff_of_true ?_ fun hi => ?_
    · rw [hf, hl]
      simpa [InOrder, Sys.nodes, hq] using h
    · exact absurd (ht.interval.2 hi) hc'

section
variable {D : Type} [CNum F] [CNum D] [CFloat F D]

theorem inOrder_step (s : Sys F) (e : Input) (h : InOrder s) :
    InOrder (s.step e) ↔ ReportOk s e := by
  rcases step_cases s e with ⟨-, hs, tim2, junk, he⟩ | ⟨hs, -, he⟩ | ⟨-, hs, ha⟩
  · rw [he]
    exact iff_of_true (inOrder_exti4 tim2 junk h) fun hc => absurd hc hs
  · rw [he, inOrder_goto, inOrder_sendMessage h]
    exact ⟨fun h' _ => h', fun h' => h' hs⟩
  · exact iff_of_true ((inOrder_apart ha).2 h) fun hc => absurd hc hs

/-- **Reports are in order and at most once**, and lost only on a full queue, in
    every state of a run, if and only if no interval token is taken without a
    record while the frame in the send buffer is a report. -/
theorem in_order_iff (ty : U8) (es : List Input) :
    Always Sys.step InOrder (Sys.init ty : Sys F) es ↔
      Along Sys.step ReportOk (Sys.init ty : Sys F) es :=
  always_iff_along (I := fun _ => True) (fun _ _ _ => trivial) (fun s e _ => inOrder_step s e) es
    trivial (by simp [InOrder, Sys.init, Sys.nodes, Msg.init, reports, accepted])

end

/-- Twenty cars before the link is up: a record is dropped and its token kept. -/
def surplus : List Input := List.replicate 20 (.irq (.exti4 (fun _ => true) 0 0)) ++
  List.replicate 476 (.main (.up none))

set_option maxRecDepth 4000 in
/-- The token without a record sends the last report again. -/
theorem report_repeated :
    ¬ ∀ es : List Input, Always Sys.step InOrder (Sys.init 0 : Sys Num) es := by
  intro h
  have hlast := (h (surplus ++ [.main (.up none)])).last
  exact absurd hlast (by decide +kernel)

end GndCtrl
