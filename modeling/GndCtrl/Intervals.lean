/-
  Interval messages.

  `Matched` says that every interval frame is built from the record taken just
  before it, and that no record waits without a token.  `matched_iff` gives the
  steps that keep it so; rings that overflow together have no others, since
  then there are as many tokens as records (`Balanced`).
-/
import GndCtrl.Reports

namespace GndCtrl

open CNum CFloat

variable {F : Type}

/-- Every interval frame is built from the record taken just before it. -/
def FromRecord (log : List Obs) : Prop :=
  ∀ pre f post, log = pre ++ .commit 0 intervalType f :: post →
    ∃ pre' record, pre = pre' ++ [.interval record] ∧
      f = frameOf 1 (intervalPayload record) intervalType

/-- Interval frames come from records, and records have a token. -/
structure Matched (s : Sys F) : Prop where
  frames : FromRecord s.log
  records : s.records ≠ [] → intervalType ∈ s.tokens

/-- What keeps tokens and records matched: a sensor event finds room for its
    token or one that waits; a token finds a record, and leaves another token
    if there is another record. -/
structure MatchOk (s : Sys F) (e : Input) : Prop where
  sensor : SensorStep s e → s.msg.msgSendQueue.Full → intervalType ∈ s.tokens
  send : Sending s e → token s = intervalType →
    s.records ≠ [] ∧ (s.records.tail ≠ [] → intervalType ∈ s.tokens.tail)

/-- A sensor event finds both rings full or neither. -/
def RingsAgree (s : Sys F) (e : Input) : Prop :=
  SensorStep s e → (s.msg.gnd2WcsIntervalQueue.Full ↔ s.msg.msgSendQueue.Full)

/-- The entry for a record is followed by its frame in the same step. -/
def Closed (s : Sys F) : Prop := ∀ pre record, s.log ≠ pre ++ [.interval record]

/-- The frame of an interval message, as the last entry of the history. -/
theorem fromRecord_snoc {log : List Obs} (h : FromRecord log) (o : Obs) :
    FromRecord (log ++ [o]) ↔ ∀ f, o = .commit 0 intervalType f →
      ∃ pre record, log = pre ++ [.interval record] ∧
        f = frameOf 1 (intervalPayload record) intervalType := by
  constructor
  · intro h' f ho
    exact h' log f [] (by rw [ho])
  · intro ho pre f post he
    rcases List.eq_nil_or_concat' post with rfl | ⟨post', x, rfl⟩
    · obtain ⟨rfl, hx⟩ := List.append_inj' he rfl
      exact ho f (List.singleton_inj.1 hx)
    · rw [← List.cons_append, ← List.append_assoc] at he
      exact h pre f post' (List.append_inj' he rfl).1

theorem fromRecord_aside {log : List Obs} (h : FromRecord log) :
    ∀ {l : List Obs}, (∀ o ∈ l, o.Aside) → FromRecord (log ++ l) := by
  intro l
  induction l using List.reverseRecOn with
  | nil => exact fun _ => by rwa [List.append_nil]
  | append_singleton l o ih =>
    intro ha
    have hl : FromRecord (log ++ l) := ih fun o ho => ha o (List.mem_append_left _ ho)
    rw [← List.append_assoc, fromRecord_snoc hl]
    rintro f rfl
    exact absurd rfl (ha _ (List.mem_append_right _ (List.mem_singleton_self _)))

theorem Closed.snoc {s : Sys F} {log : List Obs} {o : Obs} (hl : s.log = log ++ [o])
    (ho : ∀ record, o ≠ .interval record) : Closed s := by
  intro pre record hc
  obtain ⟨-, hx⟩ := List.append_inj' (hl.symm.trans hc) rfl
  exact ho record (List.singleton_inj.1 hx)

theorem Closed.of_log {s s' : Sys F} (h : Closed s) (hl : s'.log = s.log) : Closed s' :=
  fun pre record hc => h pre record (hl.symm.trans hc)

theorem closed_apart {s s' : Sys F} (h : Apart s s') (hc : Closed s) : Closed s' := by
  obtain ⟨l, hl, ha⟩ := h.log
  rcases List.eq_nil_or_concat' l with rfl | ⟨l', o, rfl⟩
  · exact hc.of_log (by rw [hl, List.append_nil])
  · have hsnoc : s'.log = (s.log ++ l') ++ [o] := by rw [hl, List.append_assoc]
    refine .snoc hsnoc ?_
    rintro record rfl
    exact ha _ (List.mem_append_right _ (List.mem_singleton_self _))

theorem matched_apart {s s' : Sys F} (h : Apart s s') (hm : Matched s) : Matched s' := by
  obtain ⟨l, hl, ha⟩ := h.log
  obtain ⟨l', hl', -⟩ := h.tokens
  refine ⟨by rw [hl]; exact fromRecord_aside hm.frames ha, fun hr => ?_⟩
  rw [hl']
  refine List.mem_append_left _ (hm.records ?_)
  rwa [Sys.records, h.interval] at hr

/-- The two tokens of a sensor event. -/
theorem tokens_sensor (q : Queue U16 msgSendQueueSize) :
    let q' := (q.enQueue intervalType).enQueue sendMsgGndctrl2wcsCmdType
    (q.Full → q'.toList = q.toList) ∧
      (¬ q.Full → ∃ l, q'.toList = q.toList ++ intervalType :: l ∧ intervalType ∉ l) := by
  intro q'
  constructor
  · intro hf
    have h1 := Queue.toList_enQueue_full hf intervalType
    have hf' : (q.enQueue intervalType).Full := by rw [Queue.Full, h1]; exact hf
    rw [Queue.toList_enQueue_full hf', h1]
  · intro hf
    have h1 := Queue.toList_enQueue_room hf intervalType
    rw [Queue.toList_enQueue, h1]
    split_ifs
    · exact ⟨[], rfl, by simp⟩
    · exact ⟨[sendMsgGndctrl2wcsCmdType], by simp, by decide⟩

section
variable {D : Type} [CNum F] [CNum D] [CFloat F D]

theorem closed_exti4 (tim2 junk : U16) (s : Sys F) : Closed (exti4 tim2 junk s) :=
  .snoc (show (exti4 tim2 junk s).log = s.log ++ [_] from rfl) (by simp)

theorem records_exti4 (tim2 junk : U16) (s : Sys F) : (exti4 tim2 junk s).records ≠ [] := by
  have hr : (exti4 tim2 junk s).records = (s.msg.gnd2WcsIntervalQueue.enQueue
    (intervalData s.msg.intervalMsFlag s.drive)).toList := rfl
  rw [hr, Queue.toList_enQueue]
  split_ifs with hf
  · intro hn
    rw [Queue.Full, hn] at hf
    exact absurd hf (by decide)
  · simp

theorem matched_exti4 (tim2 junk : U16) {s : Sys F} (h : Matched s) :
    Matched (exti4 tim2 junk s) ↔ (s.msg.msgSendQueue.Full → intervalType ∈ s.tokens) := by
  have hlog : FromRecord (exti4 tim2 junk s).log :=
    (fromRecord_snoc h.frames (.sensor _ _)).2 (by simp)
  have hq := tokens_sensor s.msg.msgSendQueue
  constructor
  · intro h' hf
    have hm := h'.records (records_exti4 tim2 junk s)
    change intervalType ∈ ((s.msg.msgSendQueue.enQueue intervalType).enQueue _).toList at hm
    rwa [hq.1 hf] at hm
  · intro hok
    refine ⟨hlog, fun _ => ?_⟩
    change intervalType ∈ ((s.msg.msgSendQueue.enQueue intervalType).enQueue _).toList
    by_cases hf : s.msg.msgSendQueue.Full
    · rw [hq.1 hf]
      exact hok hf
    · obtain ⟨l, hl, -⟩ := hq.2 hf
      rw [hl]
      simp

end

/-- A token other than the one in front stays in the queue. -/
theorem mem_tail_tokens {s : Sys F} {t : U16} (h : t ∈ s.tokens) (ht : token s ≠ t) :
    t ∈ s.tokens.tail := by
  cases hl : s.tokens with
  | nil => rw [hl] at h; cases h
  | cons a l =>
    have ha : token s = a := by
      have hl' : s.msg.msgSendQueue.toList = a :: l := hl
      simp [token, hl']
    rw [hl] at h
    rcases List.mem_cons.1 h with rfl | h
    · exact absurd ha ht
    · exact h

theorem closed_sendMessage (t : U16) {s : Sys F} (h : Closed s) : Closed (sendMessage t s) := by
  rcases sendMessage_cases t s with ⟨e, -⟩ | ⟨t', r, s', e, -⟩ <;> rw [e]
  · exact h
  · exact .snoc (commit_log 0 t' r s') (by simp)

/-- Taking a token keeps tokens and records matched just if an interval token
    finds a record and leaves a token for the next. -/
theorem matched_sendMessage {s : Sys F} (hc : Closed s) (h : Matched s) :
    Matched (sendMessage (token s) (popped s)) ↔ (token s = intervalType →
      s.records ≠ [] ∧ (s.records.tail ≠ [] → intervalType ∈ s.tokens.tail)) := by
  have htail : (popped s).tokens = s.tokens.tail := popped_toList s
  -- a message that takes no record
  have hother : ∀ s' : Sys F, token s ≠ intervalType → s'.records = s.records →
      s'.tokens = s.tokens.tail → s'.records ≠ [] → intervalType ∈ s'.tokens := by
    intro s' ht hr hq hn
    rw [hq]
    exact mem_tail_tokens (h.records (hr ▸ hn)) ht
  rcases sendMessage_cases (token s) (popped s) with ⟨e, ht, -⟩ | ⟨t, r, s', e, hk, hb, ht⟩
  · rw [e]
    exact iff_of_true ⟨h.frames, hother _ ht rfl htail⟩ fun hi => absurd hi ht
  have hq : (commit 0 t r s').tokens = s.tokens.tail := by
    rw [← htail, Sys.tokens, commit_msg, hk.queue]
    rfl
  -- only an interval frame needs a record
  have hplain : s'.log = s.log → t ≠ intervalType → FromRecord (commit 0 t r s').log := by
    intro hl hn
    rw [commit_log, hl, fromRecord_snoc h.frames]
    rintro f ⟨⟩
    exact absurd rfl hn
  rw [e]
  rcases hb with ⟨node, htc, -, hr, hf, hl⟩ | ⟨record, htc, -, hr, hf, hl⟩ | ⟨htc, hr, hf, rfl⟩ |
    ⟨-, htc, -, hr, hf, hl⟩
  · -- a report
    have hn : token s ≠ intervalType := by
      rw [Ne, ← ht.interval, htc]
      decide
    refine iff_of_true ⟨hplain hl (by rw [htc]; decide), hother _ hn ?_ hq⟩ fun hi => absurd hi hn
    exact congrArg Queue.toList hr
  · -- an interval message
    have hi : token s = intervalType := ht.interval.1 htc
    have hr' : s.records = record :: s'.records := hr
    have hframes : FromRecord (commit 0 t r s').log := by
      have hlog : FromRecord (s.log ++ [.interval record]) :=
        (fromRecord_snoc h.frames (.interval record)).2 fun _ hc => by cases hc
      rw [commit_log, hl, popped_log, fromRecord_snoc hlog]
      rintro f ⟨⟩
      exact ⟨s.log, record, rfl, by rw [hf, htc]⟩
    rw [hr']
    simp only [hi, forall_const, List.tail_cons, ne_eq, reduceCtorEq, not_false_eq_true, true_and]
    constructor
    · intro h' hn
      exact hq ▸ h'.records hn
    · intro hok
      exact ⟨hframes, fun hn => hq ▸ hok hn⟩
  · -- the last frame again
    have hi : token s = intervalType := ht.interval.1 htc
    have hr' : s.records = [] := hr
    refine iff_of_false (fun h' => ?_) fun hok => (hok hi).1 hr'
    have hs := (fromRecord_snoc h.frames _).1 (commit_log 0 t r (popped s) ▸ h'.frames) _
      (by rw [htc])
    obtain ⟨pre, record, hp, -⟩ := hs
    exact hc pre record hp
  · -- another message
    have hn : token s ≠ intervalType := mt ht.interval.2 htc
    refine iff_of_true ⟨hplain hl htc, hother _ hn ?_ hq⟩ fun hi => absurd hi hn
    exact congrArg Queue.toList hr

section
variable {D : Type} [CNum F] [CNum D] [CFloat F D]

theorem closed_step (s : Sys F) (e : Input) (h : Closed s) : Closed (s.step e) := by
  rcases step_cases s e with ⟨-, -, tim2, junk, he⟩ | ⟨-, -, he⟩ | ⟨-, -, ha⟩
  · rw [he]
    exact closed_exti4 tim2 junk s
  · rw [he]
    have hpop : Closed (popped s) := h
    exact (closed_sendMessage _ hpop).of_log (goto_log _ _)
  · exact closed_apart ha h

theorem matched_step (s : Sys F) (e : Input) (hc : Closed s) (h : Matched s) :
    Matched (s.step e) ↔ MatchOk s e := by
  rcases step_cases s e with ⟨hs, hn, tim2, junk, he⟩ | ⟨hs, hn, he⟩ | ⟨hn, hn', ha⟩
  · rw [he, matched_exti4 tim2 junk h]
    exact ⟨fun hok => ⟨fun _ => hok, fun hc => absurd hc hn⟩, fun hok => hok.sensor hs⟩
  · have hgo : Matched ((sendMessage (token s) (popped s)).goto .state) ↔
        Matched (sendMessage (token s) (popped s)) := by
      refine ⟨fun h' => ?_, matched_apart (.goto _ _)⟩
      exact ⟨by simpa using h'.frames, by simpa [Sys.records, Sys.tokens] using h'.records⟩
    rw [he, hgo, matched_sendMessage hc h]
    exact ⟨fun hok => ⟨fun hc => absurd hc hn, fun _ => hok⟩, fun hok => hok.send hs⟩
  · exact iff_of_true (matched_apart ha h) ⟨fun hc => absurd hc hn, fun hc => absurd hc hn'⟩

end

/-! ## Rings that overflow together -/

/-- As many tokens as records. -/
def Balanced (s : Sys F) : Prop := s.tokens.count intervalType = s.records.length

theorem tokens_eq {s : Sys F} (h : token s = intervalType) :
    s.tokens = intervalType :: s.tokens.tail := by
  have hcons := tokens_cons (s := s) (by rw [h]; decide)
  rwa [h] at hcons

/-- With as many tokens as records, rings that agree keep them matched. -/
theorem Balanced.matchOk {s : Sys F} {e : Input} (h : Balanced s) (hr : RingsAgree s e) :
    MatchOk s e := by
  constructor
  · intro hs hf
    have hfull : s.records.length + 1 = intervalQueueLen := (hr hs).2 hf
    refine List.count_pos_iff.1 ?_
    rw [h]
    simp only [intervalQueueLen] at hfull
    omega
  · intro _ ht
    have hc : s.tokens.tail.count intervalType + 1 = s.records.length := by
      rw [← h]
      conv_rhs => rw [tokens_eq ht]
      rw [List.count_cons_self]
    constructor
    · intro hn
      rw [hn] at hc
      cases hc
    · intro hn
      have hlen : 0 < s.records.tail.length := List.length_pos_of_ne_nil hn
      rw [List.length_tail] at hlen
      exact List.count_pos_iff.1 (by omega)

theorem Balanced.of_apart {s s' : Sys F} (ha : Apart s s') (h : Balanced s) : Balanced s' := by
  obtain ⟨l, hl, hn⟩ := ha.tokens
  rw [Balanced, hl, List.count_append, List.count_eq_zero.2 hn, Sys.records, ha.interval]
  exact h

theorem Balanced.exti4 {D : Type} [CNum F] [CNum D] [CFloat F D] (tim2 junk : U16) {s : Sys F}
    (h : Balanced s) (hr : s.msg.gnd2WcsIntervalQueue.Full ↔ s.msg.msgSendQueue.Full) :
    Balanced (exti4 tim2 junk s) := by
  have hq := tokens_sensor s.msg.msgSendQueue
  change ((s.msg.msgSendQueue.enQueue intervalType).enQueue _).toList.count intervalType =
    (s.msg.gnd2WcsIntervalQueue.enQueue _).toList.length
  by_cases hf : s.msg.msgSendQueue.Full
  · rw [hq.1 hf, Queue.toList_enQueue_full (hr.2 hf)]
    exact h
  · obtain ⟨l, hl, hn⟩ := hq.2 hf
    rw [hl, Queue.toList_enQueue_room (mt hr.1 hf), List.count_append, List.count_cons_self,
      List.count_eq_zero.2 hn, List.length_append]
    exact congrArg (· + 1) h

theorem Balanced.sendMessage {s : Sys F} (h : Balanced s) :
    Balanced (sendMessage (token s) (popped s)) := by
  have htail : (popped s).tokens = s.tokens.tail := popped_toList s
  rcases sendMessage_cases (token s) (popped s) with ⟨e, ht, -⟩ | ⟨t, r, s', e, hk, hb, ht⟩
  · rw [e, Balanced, htail, count_tail_tokens ht]
    exact h
  have hq : (commit 0 t r s').tokens = s.tokens.tail := by
    rw [← htail, Sys.tokens, commit_msg, hk.queue]
    rfl
  have hother : token s ≠ intervalType → s'.records = s.records → Balanced (commit 0 t r s') := by
    intro hn hr
    rw [Balanced, hq, count_tail_tokens hn, h, ← hr]
    rfl
  rw [e]
  rcases hb with ⟨node, htc, -, hr, -⟩ | ⟨record, htc, -, hr, -⟩ | ⟨htc, hr, -⟩ | ⟨-, htc, -, hr, -⟩
  · refine hother ?_ (congrArg Queue.toList hr)
    rw [Ne, ← ht.interval, htc]
    decide
  · have hi : token s = intervalType := ht.interval.1 htc
    have hr' : s.records = record :: s'.records := hr
    rw [Balanced, tokens_eq hi, List.count_cons_self, hr', List.length_cons] at h
    rw [Balanced, hq]
    exact Nat.succ.inj h
  · have hi : token s = intervalType := ht.interval.1 htc
    have hr' : s.records = [] := hr
    rw [Balanced, tokens_eq hi, List.count_cons_self, hr'] at h
    cases h
  · exact hother (mt ht.interval.2 htc) (congrArg Queue.toList hr)

section
variable {D : Type} [CNum F] [CNum D] [CFloat F D]

theorem balanced_step (s : Sys F) (e : Input) (h : Balanced s) (hr : RingsAgree s e) :
    Balanced (s.step e) := by
  rcases step_cases s e with ⟨hs, -, tim2, junk, he⟩ | ⟨-, -, he⟩ | ⟨-, -, ha⟩
  · rw [he]
    exact h.exti4 tim2 junk (hr hs)
  · rw [he]
    exact h.sendMessage.of_apart (.goto _ _)
  · exact h.of_apart ha

theorem closed_init (ty : U8) : Closed (Sys.init ty : Sys F) := fun pre record hc => by
  simp [Sys.init] at hc

theorem matched_init (ty : U8) : Matched (Sys.init ty : Sys F) :=
  ⟨fun pre f post hc => by simp [Sys.init] at hc,
    fun hn => by simp [Sys.init, Msg.init, Sys.records] at hn⟩

theorem balanced_init (ty : U8) : Balanced (Sys.init ty : Sys F) := by
  simp [Balanced, Sys.init, Msg.init, Sys.records, Sys.tokens]

/-- **Interval tokens and records stay matched** in every state of a run if and
    only if its steps meet `MatchOk`, and they do if the two rings overflow
    together. -/
theorem matched_iff (ty : U8) (es : List Input) :
    (Always Sys.step Matched (Sys.init ty : Sys F) es ↔
      Along Sys.step MatchOk (Sys.init ty : Sys F) es) ∧
    (Along Sys.step RingsAgree (Sys.init ty : Sys F) es →
      Always Sys.step Matched (Sys.init ty : Sys F) es) := by
  have hiff : Always Sys.step Matched (Sys.init ty : Sys F) es ↔
      Along Sys.step MatchOk (Sys.init ty : Sys F) es :=
    always_iff_along closed_step matched_step es (closed_init ty) (matched_init ty)
  refine ⟨hiff, fun hr => hiff.2 ?_⟩
  exact hr.imp balanced_step (fun _ _ h => h.matchOk) es (balanced_init ty)

end

set_option maxRecDepth 4000 in
/-- The token without a record commits the frame before it. -/
theorem interval_repeated :
    ¬ ∀ es : List Input, Always Sys.step Matched (Sys.init 0 : Sys Num) es := by
  intro h
  have hs := (h surplus).last
  have hnext := (h (surplus ++ [.main (.up none)])).last
  rw [run_append, run_cons, run_nil] at hnext
  have hc : Closed (run Sys.step (Sys.init 0 : Sys Num) surplus) :=
    run_inv closed_step surplus (closed_init 0)
  have hok := (matched_step (run Sys.step (Sys.init 0) surplus) _ hc hs).1 hnext
  have hsend : Sending (run Sys.step (Sys.init 0 : Sys Num) surplus) (.main (.up none)) :=
    ⟨by decide +kernel, by decide +kernel⟩
  exact (hok.send hsend (by decide +kernel)).1 (by decide +kernel)

end GndCtrl
