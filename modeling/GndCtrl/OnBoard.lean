/-
  The on-board channel.

  Slot 0 takes a record and leaves it in `carfunint`, with a token for slot 1;
  the SysTick interrupt adds tokens that repeat it.  Slot 1 sends what
  `carfunint` holds when it takes a token.

  `Channel` is what may happen: a record is followed by frames that carry it,
  at least one, before the next record.  It is kept because slot 1 has nothing
  pending when slot 0 takes a record (`InStep.ready`), so its own token is taken
  in the same iteration, whatever else is in the queue.
-/
import GndCtrl.InStep

namespace GndCtrl

open CNum CFloat

variable {F : Type}

/-! ## The channel -/

/-- What happens on the channel: a record is taken, or slot 1 gets a frame. -/
inductive Board where
  | record (r : IntervalData)
  | frame (f : List U8)

/-- The part of the history about the channel. -/
def onBoard (log : List Obs) : List Board :=
  log.filterMap fun
    | .interval r => some (.record r)
    | .commit i _ f => if i = 1 then some (.frame f) else none
    | _ => none

/-- The frame has the number and the interval of the record. -/
structure Carries (f : List U8) (r : IntervalData) : Prop where
  curCarNum : le16 (f.getD 11 0) (f.getD 12 0) = r.curCarNum
  interval : le16 (f.getD 13 0) (f.getD 14 0) = r.interval

def records (l : List Board) : List IntervalData :=
  l.filterMap fun
    | .record r => some r
    | .frame _ => none

def frames (l : List Board) : List (List U8) :=
  l.filterMap fun
    | .record _ => none
    | .frame f => some f

/-- The frames are those of the records, in order, one or more for each. -/
inductive Shown : List IntervalData → List (List U8) → Prop
  | nil : Shown [] []
  | first {rs : List IntervalData} {fs : List (List U8)} {r : IntervalData} {f : List U8}
      (h : Shown rs fs) (hf : Carries f r) : Shown (rs ++ [r]) (fs ++ [f])
  | again {rs : List IntervalData} {fs : List (List U8)} {r : IntervalData} {f : List U8}
      (h : Shown (rs ++ [r]) fs) (hf : Carries f r) : Shown (rs ++ [r]) (fs ++ [f])

/-- The channel, with the last record and whether its first frame is due. -/
inductive Channel : List Board → Option IntervalData → Bool → Prop
  | start : Channel [] none false
  | record {l : List Board} {last : Option IntervalData} (r : IntervalData)
      (h : Channel l last false) : Channel (l ++ [.record r]) (some r) true
  | frame {l : List Board} {r : IntervalData} {due : Bool} {f : List U8}
      (h : Channel l (some r) due) (hf : Carries f r) : Channel (l ++ [.frame f]) (some r) false

/-- Slot 1 carries every record. -/
structure OnBoard (s : Sys F) : Prop where
  /-- a frame has the data of the record taken last -/
  latest : ∀ pre f post, onBoard s.log = pre ++ .frame f :: post →
    ∃ r, (records pre).getLast? = some r ∧ Carries f r
  /-- a record is followed by its frame, in the iteration that takes it -/
  prompt : ∀ pre r post, onBoard s.log = pre ++ .record r :: post →
    post = [] ∧ (s.pc = .state ∨ s.pc = .car) ∨
      ∃ f post', post = .frame f :: post' ∧ Carries f r
  /-- the records appear in order, each at least once -/
  shown : s.pc ≠ .state → s.pc ≠ .car →
    Shown (records (onBoard s.log)) (frames (onBoard s.log))

theorem records_snoc (l : List Board) (b : Board) : records (l ++ [b]) =
    records l ++ match b with
      | .record r => [r]
      | .frame _ => [] := by
  rw [records, List.filterMap_append]
  cases b <;> rfl

theorem frames_snoc (l : List Board) (b : Board) : frames (l ++ [b]) =
    frames l ++ match b with
      | .record _ => []
      | .frame f => [f] := by
  rw [frames, List.filterMap_append]
  cases b <;> rfl

theorem Channel.last_eq {l : List Board} {last : Option IntervalData} {due : Bool}
    (h : Channel l last due) : (records l).getLast? = last := by
  induction h with
  | start => rfl
  | record r h ih => rw [records_snoc, List.getLast?_append]; rfl
  | frame h hf ih => rw [records_snoc, List.append_nil, ih]

/-- A frame of the channel has the data of the record taken last. -/
theorem Channel.latest {l : List Board} {last : Option IntervalData} {due : Bool}
    (h : Channel l last due) : ∀ pre f post, l = pre ++ .frame f :: post →
      ∃ r, (records pre).getLast? = some r ∧ Carries f r := by
  induction h with
  | start =>
    intro pre f post he
    simp at he
  | record r h ih =>
    intro pre f post he
    rcases List.eq_nil_or_concat' post with rfl | ⟨post', x, rfl⟩
    · obtain ⟨-, hx⟩ := List.append_inj' he rfl
      cases hx
    · rw [← List.cons_append, ← List.append_assoc] at he
      exact ih pre f post' (List.append_inj' he rfl).1
  | frame h hf ih =>
    intro pre f post he
    rcases List.eq_nil_or_concat' post with rfl | ⟨post', x, rfl⟩
    · obtain ⟨rfl, hx⟩ := List.append_inj' he rfl
      cases hx
      exact ⟨_, h.last_eq, hf⟩
    · rw [← List.cons_append, ← List.append_assoc] at he
      exact ih pre f post' (List.append_inj' he rfl).1

/-- A record of the channel is followed by its frame, unless that is due. -/
theorem Channel.prompt {l : List Board} {last : Option IntervalData} {due : Bool}
    (h : Channel l last due) : ∀ pre r post, l = pre ++ .record r :: post →
      post = [] ∧ due = true ∨ ∃ f post', post = .frame f :: post' ∧ Carries f r := by
  induction h with
  | start =>
    intro pre r post he
    simp at he
  | record r h ih =>
    intro pre r' post he
    rcases List.eq_nil_or_concat' post with rfl | ⟨post', x, rfl⟩
    · exact .inl ⟨rfl, rfl⟩
    · rw [← List.cons_append, ← List.append_assoc] at he
      rcases ih pre r' post' (List.append_inj' he rfl).1 with ⟨-, hd⟩ | ⟨f, post, rfl, hf⟩
      · cases hd
      · exact .inr ⟨f, post ++ [x], rfl, hf⟩
  | @frame l r due f h hf ih =>
    intro pre r' post he
    rcases List.eq_nil_or_concat' post with rfl | ⟨post', x, rfl⟩
    · obtain ⟨-, hx⟩ := List.append_inj' he rfl
      cases hx
    · rw [← List.cons_append, ← List.append_assoc] at he
      obtain ⟨hl, hx⟩ := List.append_inj' he rfl
      cases hx
      rcases ih pre r' post' hl with ⟨rfl, -⟩ | ⟨f', post, rfl, hf'⟩
      · have hlast := h.last_eq
        rw [hl, records_snoc, List.getLast?_concat] at hlast
        cases hlast
        exact .inr ⟨f, [], rfl, hf⟩
      · exact .inr ⟨f', post ++ [.frame f], rfl, hf'⟩

/-- All records are shown, but the one that is due. -/
theorem Channel.shown {l : List Board} {last : Option IntervalData} {due : Bool}
    (h : Channel l last due) :
    if due then ∃ rs r, records l = rs ++ [r] ∧ last = some r ∧ Shown rs (frames l)
    else Shown (records l) (frames l) := by
  induction h with
  | start => exact .nil
  | @record l last r h ih =>
    refine ⟨records l, r, records_snoc l _, rfl, ?_⟩
    rw [frames_snoc, List.append_nil]
    exact ih
  | @frame l r due f h hf ih =>
    change Shown (records (l ++ [.frame f])) (frames (l ++ [.frame f]))
    rw [records_snoc, frames_snoc, List.append_nil]
    cases due with
    | true =>
      obtain ⟨rs, r', hr, hlast, hs⟩ := ih
      cases hlast
      rw [hr]
      exact .first hs hf
    | false =>
      obtain ⟨rs, hr⟩ := List.getLast?_eq_some_iff.1 h.last_eq
      have hs : Shown (records l) (frames l) := ih
      rw [hr] at hs ⊢
      exact .again hs hf

/-! ## The firmware -/

/-- What the firmware holds for the channel. -/
structure BoardInv (s : Sys F) (last : Option IntervalData) (due : Bool) : Prop where
  channel : Channel (onBoard s.log) last due
  tokens : ∀ t ∈ s.cars.carSendQueue.toList, t = carMsgGndctrl2wcsCmdIntervalType
  before : last = none → s.cars.carSendQueue.toList = [] ∧ s.msg.positionreset = 0
  data : ∀ r, last = some r → s.msg.carfunint = r
  due : due = true → (s.pc = .state ∨ s.pc = .car) ∧ (s.tcpClientList 1).tcpSendEn = false ∧
    s.cars.carSendQueue.toList ≠ []

theorem BoardInv.onBoard {s : Sys F} {last : Option IntervalData} {due : Bool}
    (h : BoardInv s last due) : OnBoard s := by
  refine ⟨h.channel.latest, fun pre r post he => ?_, fun hs hc => ?_⟩
  · rcases h.channel.prompt pre r post he with ⟨hp, hd⟩ | hf
    · exact .inl ⟨hp, (h.due hd).1⟩
    · exact .inr hf
  have hdue : due = false := by
    cases hd : due with
    | true => exact absurd (h.due hd).1 (by simp [hs, hc])
    | false => rfl
  have hshown := h.channel.shown
  rwa [hdue] at hshown

/-- The step leaves the channel alone. -/
structure SameBoard (s s' : Sys F) : Prop where
  log : GndCtrl.onBoard s'.log = GndCtrl.onBoard s.log
  queue : s'.cars.carSendQueue = s.cars.carSendQueue
  carfunint : s'.msg.carfunint = s.msg.carfunint
  positionreset : s'.msg.positionreset = s.msg.positionreset

theorem SameBoard.refl (s : Sys F) : SameBoard s s := ⟨rfl, rfl, rfl, rfl⟩

theorem SameBoard.of_upheld {s s' : Sys F} (hu : Upheld s s')
    (hl : GndCtrl.onBoard s'.log = GndCtrl.onBoard s.log) : SameBoard s s' :=
  ⟨hl, by rw [hu.cars], hu.carfunint, hu.positionreset⟩

theorem SameBoard.goto {s s' : Sys F} (h : SameBoard s s') (pc : Pc) :
    SameBoard s (s'.goto pc) := by
  refine ⟨?_, ?_, ?_, ?_⟩
  · rw [goto_log, h.log]
  · rw [goto_cars, h.queue]
  · rw [goto_msg, h.carfunint]
  · rw [goto_msg, h.positionreset]

theorem onBoard_append (l l' : List Obs) : onBoard (l ++ l') = onBoard l ++ onBoard l' :=
  List.filterMap_append

/-- An entry of the history that is not about the channel. -/
theorem onBoard_snoc (l : List Obs) {o : Obs} (h : onBoard [o] = []) :
    onBoard (l ++ [o]) = onBoard l := by
  rw [onBoard_append, h, List.append_nil]

theorem onBoard_commit {i : Fin 4} (hi : i ≠ 1) (t : U16) (f : List U8) :
    onBoard [.commit i t f] = [] := by
  simp [onBoard, hi]

theorem onBoard_clientSend (net : Net) (i : Fin 4) (s : Sys F) :
    onBoard (clientSend net i s).log = onBoard s.log := by
  rcases clientSend_cases net i s with ⟨-, e⟩ | ⟨-, -, e⟩ | ⟨-, -, -, m, s', hs, e, -⟩ | ⟨-, -, -, e⟩ <;>
    rw [e]
  · rfl
  · rfl
  · rw [Sys.setSlot_log, hs]
    simp only [udpSendProcess]
    split_ifs
    · exact onBoard_snoc s.log rfl
    · rfl

/-- The switch of `send_message_to_sever` leaves the channel alone, or it takes a
    record for it. -/
theorem sendMessage_board (t : U16) (s : Sys F) :
    SameBoard s (sendMessage t s) ∨ ∃ r,
      onBoard (sendMessage t s).log = onBoard s.log ++ [.record r] ∧
      (sendMessage t s).msg.carfunint = r ∧
      (sendMessage t s).cars.carSendQueue =
        s.cars.carSendQueue.enQueue carMsgGndctrl2wcsCmdIntervalType := by
  have hcommit : ∀ (t : U16) (r : Mem × ℕ) {s' : Sys F}, SameBoard s s' →
      SameBoard s (commit 0 t r s') := by
    intro t r s' h
    refine ⟨?_, h.queue, h.carfunint, h.positionreset⟩
    rw [commit_log, onBoard_snoc _ (onBoard_commit (by decide) _ _)]
    exact h.log
  have h := sendMessage_switched t s
  generalize sendMessage t s = x at h ⊢
  cases h with
  | reply => exact .inl (hcommit _ _ (.refl s))
  | noNode => exact .inl (.refl s)
  | report => exact .inl (hcommit _ _ ⟨rfl, rfl, rfl, rfl⟩)
  | noRecord => exact .inl (hcommit _ _ (.refl s))
  | @interval record records ht hq =>
    refine .inr ⟨record, ?_, rfl, rfl⟩
    rw [commit_log, onBoard_snoc _ (onBoard_commit (by decide) _ _), recorded, Sys.note_log,
      onBoard_append]
    rfl
  | version => exact .inl (hcommit _ _ (.refl s))
  | uart2 => exact .inl (hcommit _ _ ⟨rfl, rfl, rfl, rfl⟩)
  | uart4 => exact .inl (hcommit _ _ ⟨rfl, rfl, rfl, rfl⟩)
  | heart => exact .inl (hcommit _ _ ⟨rfl, rfl, rfl, rfl⟩)
  | other => exact .inl (.refl s)

theorem CarSent.sameBoard {i : Fin 4} (hi : i ≠ 1) {s s' : Sys F} (h : CarSent i s s')
    (hq : s'.cars.carSendQueue = s.cars.carSendQueue) : SameBoard s s' := by
  rcases h with ⟨-, rfl⟩ | ⟨-, c, rfl | ⟨t, r, rfl⟩⟩
  · exact .refl _
  · exact ⟨rfl, hq, rfl, rfl⟩
  · refine ⟨?_, hq, rfl, rfl⟩
    rw [commit_log, onBoard_snoc _ (onBoard_commit hi _ _)]

theorem carthreesend_carSendQueue (s : Sys F) :
    (carthreesendMessageToSever s).cars.carSendQueue = s.cars.carSendQueue := by
  simp only [carthreesendMessageToSever]
  split_ifs <;> rfl

theorem cartwosend_carSendQueue (s : Sys F) :
    (cartwosendMessageToSever s).cars.carSendQueue = s.cars.carSendQueue := by
  simp only [cartwosendMessageToSever]
  split_ifs <;> rfl

theorem carries_carsend (r : IntervalData) (buf : Mem) (t : U16) :
    Carries ((carsendMsgIntervalData r buf t).1.bytes (carsendMsgIntervalData r buf t).2) r := by
  rw [carsendMsgIntervalData, encode_eq, bytes_frameOf]
  exact ⟨le16_lo_hi _, le16_lo_hi _⟩

/-- What `carsend_message_to_sever` does with a token: with nothing pending it
    commits the data of `carfunint`. -/
theorem carsend_board {s : Sys F} (hen : (s.tcpClientList 1).tcpSendEn = false)
    (ht : ∀ t ∈ s.cars.carSendQueue.toList, t = carMsgGndctrl2wcsCmdIntervalType) :
    let s' := carsendMessageToSever s
    s'.msg = s.msg ∧ s'.cars.carSendQueue.toList = s.cars.carSendQueue.toList.tail ∧
      if s.cars.carSendQueue.toList = [] then onBoard s'.log = onBoard s.log
      else ∃ f, Carries f s.msg.carfunint ∧ onBoard s'.log = onBoard s.log ++ [.frame f] := by
  intro s'
  have hs' : s' = carsendMessageToSever s := rfl
  cases hq : s.cars.carSendQueue.toList with
  | nil =>
    have htok : (carGetSendMsgFromQueue s).1 = 0 := by simp [carGetSendMsgFromQueue, hq]
    simp only [carsendMessageToSever, hen, htok] at hs'
    rw [if_neg (by decide), if_neg (by decide)] at hs'
    rw [hs', if_pos rfl]
    exact ⟨rfl, by simp [carGetSendMsgFromQueue, hq], rfl⟩
  | cons t ts =>
    have htok : (carGetSendMsgFromQueue s).1 = carMsgGndctrl2wcsCmdIntervalType := by
      have hhead := ht t (by rw [hq]; exact List.mem_cons_self)
      simp [carGetSendMsgFromQueue, hq, hhead]
    simp only [carsendMessageToSever, hen, htok] at hs'
    rw [if_neg (by decide), if_pos trivial] at hs'
    rw [hs', if_neg (by simp)]
    refine ⟨rfl, by simp [carGetSendMsgFromQueue, hq], _,
      carries_carsend _ (s.tcpClientList 1).tcpSendBuf carMsgGndctrl2wcsCmdIntervalType, ?_⟩
    rw [commit_log, onBoard_append]
    rfl

section
variable {D : Type} [CNum F] [CNum D] [CFloat F D]

theorem onBoard_clientRecv (i : Fin 4) {s : Sys F} (hp : s.pc ≠ .reset) :
    onBoard (clientRecv i s).log = onBoard s.log := by
  have hnote : ∀ d, onBoard (s.log ++ [.handle i d]) = onBoard s.log :=
    fun d => onBoard_snoc s.log rfl
  rcases clientRecv_cases i hp with ⟨-, e⟩ | ⟨-, -, e⟩ | ⟨-, -, s', ⟨d, q, n, rfl, -⟩, e⟩ <;> rw [e]
  · change onBoard ((s.log ++ _) ++ _) = _
    rw [onBoard_snoc _ rfl, hnote]
  · exact hnote _

theorem onBoard_clientSlot (net : Net) (i : Fin 4) {s : Sys F} (hp : s.pc ≠ .reset) :
    onBoard (clientSlot net i s).log = onBoard s.log := by
  simp only [clientSlot]
  split_ifs
  · exact onBoard_clientRecv i hp
  · rw [onBoard_clientSend, onBoard_clientRecv i hp]

/-- The other operations leave the channel alone. -/
theorem main_sameBoard (env : Env) {s : Sys F} (hs : s.pc ≠ .send) (hc : s.pc ≠ .car) :
    SameBoard s (s.step (.main env)) := by
  have hgo : ∀ {s' : Sys F} pc, SameBoard s s' → SameBoard s (s'.goto pc) := fun pc h => h.goto pc
  change SameBoard s (mainStep env s)
  unfold mainStep
  cases hp : s.pc with
  | link =>
    simp only
    split_ifs
    · exact hgo _ (.refl s)
    · refine hgo _ ?_
      exact ⟨rfl, rfl, rfl, rfl⟩
  | rx =>
    refine hgo _ ?_
    cases env.rx with
    | none => exact .refl s
    | some d =>
      refine .of_upheld (upheld_udpInput d s) ?_
      obtain ⟨c, pc, e, -⟩ := udpInput_cases d s
      change onBoard (udpInput d s).log = _
      rw [e]
  | client i =>
    have hr : s.pc ≠ .reset := by simp [hp]
    exact hgo _ (.of_upheld (upheld_clientSlot env.toNet i hr) (onBoard_clientSlot env.toNet i hr))
  | send => exact absurd hp hs
  | state =>
    refine hgo _ (.of_upheld (upheld_stateMsg s) ?_)
    simp only [funGnd2wcsStateMsg]
    split_ifs <;> rfl
  | car => exact absurd hp hc
  | carthree =>
    exact hgo _ ((carthreesend_cases s).sameBoard (by decide) (carthreesend_carSendQueue s))
  | cartwo => exact hgo _ ((cartwosend_cases s).sameBoard (by decide) (cartwosend_carSendQueue s))
  | sec =>
    refine hgo _ (.of_upheld (upheld_secProcess s) ?_)
    simp only [secProcess]
    split_ifs <;> rfl
  | hang => exact .refl s
  | reset => exact .refl s

/-- An interrupt leaves the channel alone, or it repeats the token of a record. -/
theorem irq_board (s : Sys F) (e : Irq) :
    SameBoard s (irq s e) ∨ s.msg.positionreset ≠ 0 ∧ onBoard (irq s e).log = onBoard s.log ∧
      (irq s e).msg.carfunint = s.msg.carfunint ∧
      ((irq s e).cars.carSendQueue = s.cars.carSendQueue ∨ (irq s e).cars.carSendQueue =
        s.cars.carSendQueue.enQueue carMsgGndctrl2wcsCmdIntervalType) := by
  cases e with
  | exti4 pin tim2 junk =>
    left
    simp only [irq]
    split_ifs
    · exact ⟨onBoard_snoc s.log rfl, rfl, rfl, rfl⟩
    · exact .refl s
  | exti95 in7 in10 tim2 =>
    left
    simp only [irq, exti95]
    split_ifs <;> exact ⟨rfl, rfl, rfl, rfl⟩
  | tim2 => exact .inl ⟨rfl, rfl, rfl, rfl⟩
  | tim3 =>
    left
    simp only [irq]
    split_ifs <;> exact ⟨rfl, rfl, rfl, rfl⟩
  | sysTick =>
    by_cases hz : s.msg.positionreset = 0
    · left
      have hno : ¬ (s.msg.positionreset ≠ 0 ∧ countDown s.msg.positionreset = 0) :=
        fun hc => hc.1 hz
      simp only [irq, timeUpdate, if_neg hno]
      refine ⟨rfl, rfl, rfl, ?_⟩
      change countDown s.msg.positionreset = _
      rw [hz]
      rfl
    · refine .inr ⟨hz, ?_⟩
      simp only [irq, timeUpdate]
      by_cases hone : s.msg.positionreset ≠ 0 ∧ countDown s.msg.positionreset = 0
      · rw [if_pos hone]
        exact ⟨rfl, rfl, .inr rfl⟩
      · rw [if_neg hone]
        exact ⟨rfl, rfl, .inl rfl⟩

omit [CNum F] [CNum D] [CFloat F D] in
theorem BoardInv.of_same {s s' : Sys F} {last : Option IntervalData} {due : Bool}
    (h : BoardInv s last due) (hs : SameBoard s s')
    (hd : due = true → (s'.pc = .state ∨ s'.pc = .car) ∧
      (s'.tcpClientList 1).tcpSendEn = false) : BoardInv s' last due := by
  refine ⟨?_, ?_, ?_, ?_, fun hdue => ⟨(hd hdue).1, (hd hdue).2, ?_⟩⟩
  · rw [hs.log]
    exact h.channel
  · rw [hs.queue]
    exact h.tokens
  · rw [hs.queue, hs.positionreset]
    exact h.before
  · rw [hs.carfunint]
    exact h.data
  · rw [hs.queue]
    exact (h.due hdue).2.2

/-! ## A step -/

theorem BoardInv.irq {s : Sys F} {last : Option IntervalData} {due : Bool}
    (h : BoardInv s last due) (e : Irq) : BoardInv (s.step (.irq e)) last due := by
  obtain ⟨hslots, hpc⟩ := irq_slots s e
  have hd : due = true → ((s.step (.irq e)).pc = .state ∨ (s.step (.irq e)).pc = .car) ∧
      ((s.step (.irq e)).tcpClientList 1).tcpSendEn = false := by
    intro hdue
    rw [hslots, hpc]
    exact ⟨(h.due hdue).1, (h.due hdue).2.1⟩
  simp only [Sys.step] at hd ⊢
  split_ifs at hd ⊢
  · exact h
  rcases irq_board s e with hsame | ⟨hz, hl, hc, hq⟩
  · exact h.of_same hsame hd
  refine ⟨?_, ?_, fun hn => absurd (h.before hn).2 hz, ?_, fun hdue => ⟨(hd hdue).1, (hd hdue).2, ?_⟩⟩
  · rw [hl]
    exact h.channel
  · rcases hq with hq | hq <;> rw [hq]
    · exact h.tokens
    · intro t ht
      rw [Queue.toList_enQueue] at ht
      split_ifs at ht
      · exact h.tokens t ht
      · rcases List.mem_append.1 ht with ht | ht
        · exact h.tokens t ht
        · exact List.mem_singleton.1 ht
  · rw [hc]
    exact h.data
  · obtain ⟨t, ht⟩ := List.exists_mem_of_ne_nil _ (h.due hdue).2.2
    rcases hq with hq | hq <;> rw [hq]
    · exact List.ne_nil_of_mem ht
    · exact List.ne_nil_of_mem (Queue.mem_enQueue_of_mem ht)

/-- The sender of slot 0 may take a record: slot 1 has nothing pending then. -/
theorem BoardInv.send {s : Sys F} {last : Option IntervalData} {due : Bool}
    (h : BoardInv s last due) (hk : InStep 1 s) (hp : s.pc = .send) (env : Env) :
    ∃ last' due', BoardInv (s.step (.main env)) last' due' := by
  have hstep := step_send env hp
  have hpc := send_next env hp
  have hdue : due = false := by
    cases hd : due with
    | true => exact absurd (h.due hd).1 (by simp [hp])
    | false => rfl
  subst hdue
  by_cases hen : (s.tcpClientList 0).tcpSendEn = true
  · have hsame : sendMessageToSever s = s := by rw [sendMessageToSever_eq, if_pos hen]
    refine ⟨last, false, h.of_same ?_ fun hd => by cases hd⟩
    rw [hstep, hsame]
    exact (SameBoard.refl s).goto _
  have hsend : sendMessageToSever s = sendMessage (token s) (popped s) := by
    rw [sendMessageToSever_eq, if_neg hen]
  have hen₁ : (s.tcpClientList 1).tcpSendEn = false :=
    hk.ready (by rw [hp]; rfl) (by simpa using hen)
  rcases sendMessage_board (token s) (popped s) with hsame | ⟨r, hl, hc, hq⟩
  · refine ⟨last, false, h.of_same ?_ fun hd => by cases hd⟩
    rw [hstep, hsend]
    have hsame : SameBoard s (sendMessage (token s) (popped s)) :=
      ⟨hsame.log, hsame.queue, hsame.carfunint, hsame.positionreset⟩
    exact hsame.goto _
  · have hq' : (s.step (.main env)).cars.carSendQueue =
        s.cars.carSendQueue.enQueue carMsgGndctrl2wcsCmdIntervalType := by
      rw [hstep, hsend, goto_cars, hq]
      rfl
    have htoken : carMsgGndctrl2wcsCmdIntervalType ∈
        (s.cars.carSendQueue.enQueue carMsgGndctrl2wcsCmdIntervalType).toList := by
      rw [Queue.toList_enQueue]
      split_ifs with hf
      · -- a full queue holds the token already
        obtain ⟨t, ht⟩ : ∃ t, t ∈ s.cars.carSendQueue.toList := by
          refine List.exists_mem_of_ne_nil _ fun hnil => ?_
          rw [Queue.Full, hnil] at hf
          exact absurd hf (by decide)
        rw [← h.tokens t ht]
        exact ht
      · exact List.mem_append_right _ List.mem_cons_self
    refine ⟨some r, true, ?_, ?_, fun hn => (by cases hn), ?_, fun _ => ⟨.inl hpc, ?_, ?_⟩⟩
    · rw [hstep, hsend, goto_log, hl]
      exact .record r h.channel
    · rw [hq']
      intro t ht
      rw [Queue.toList_enQueue] at ht
      split_ifs at ht
      · exact h.tokens t ht
      · rcases List.mem_append.1 ht with ht | ht
        · exact h.tokens t ht
        · exact List.mem_singleton.1 ht
    · rintro r' ⟨⟩
      rw [hstep, hsend, goto_msg, hc]
    · rw [hstep, goto_tcpClientList, sendMessageToSever_ne s (by decide), hen₁]
    · rw [hq']
      exact List.ne_nil_of_mem htoken

/-- After the sender of slot 1 no frame is due. -/
theorem BoardInv.car {s : Sys F} {last : Option IntervalData} {due : Bool}
    (h : BoardInv s last due) (hp : s.pc = .car) (env : Env) :
    BoardInv (s.step (.main env)) last false := by
  have hstep := step_car env hp
  by_cases hen : (s.tcpClientList 1).tcpSendEn = true
  · have hsame : carsendMessageToSever s = s := by rw [carsendMessageToSever, if_pos hen]
    have hdue : due = false := by
      cases hd : due with
      | true => exact absurd hen (by rw [(h.due hd).2.1]; decide)
      | false => rfl
    subst hdue
    refine h.of_same ?_ fun hd => by cases hd
    rw [hstep, hsame]
    exact (SameBoard.refl s).goto _
  obtain ⟨hm, hq, hl⟩ := carsend_board (s := s) (by simpa using hen) h.tokens
  rw [← goto_msg _ .carthree, ← hstep] at hm
  rw [← goto_cars _ .carthree, ← hstep] at hq
  rw [← goto_log _ .carthree, ← hstep] at hl
  refine ⟨?_, ?_, ?_, by rw [hm]; exact h.data, fun hd => by cases hd⟩
  · split_ifs at hl with hnil
    · have hdue : due = false := by
        cases hd : due with
        | true => exact absurd hnil (h.due hd).2.2
        | false => rfl
      rw [hl, ← hdue]
      exact h.channel
    · obtain ⟨f, hf, hl⟩ := hl
      cases hlast : last with
      | none => exact absurd (h.before hlast).1 hnil
      | some r =>
        rw [h.data r hlast] at hf
        rw [hl]
        have hchannel := h.channel
        rw [hlast] at hchannel
        exact hchannel.frame hf
  · rw [hq]
    exact fun t ht => h.tokens t (List.mem_of_mem_tail ht)
  · rw [hq, hm]
    intro hn
    obtain ⟨hnil, hz⟩ := h.before hn
    exact ⟨by rw [hnil]; rfl, hz⟩

theorem boardInv_step {s : Sys F} {last : Option IntervalData} {due : Bool}
    (h : BoardInv s last due) (hk : InStep 1 s) (e : Input) :
    ∃ last' due', BoardInv (s.step e) last' due' := by
  cases e with
  | irq e => exact ⟨last, due, h.irq e⟩
  | main env =>
    by_cases hsend : s.pc = .send
    · exact h.send hk hsend env
    by_cases hcar : s.pc = .car
    · exact ⟨last, false, h.car hcar env⟩
    refine ⟨last, due, h.of_same (main_sameBoard env hsend hcar) fun hdue => ?_⟩
    obtain ⟨hpc, hen, -⟩ := h.due hdue
    have hstate : s.pc = .state := hpc.resolve_right hcar
    have hnext := next_step s env
    rw [hstate, Pc.next, List.mem_singleton] at hnext
    have hside : SameSide (s.tcpClientList 1) ((s.step (.main env)).tcpClientList 1) :=
      same_step (by simp [hstate]) (by simp [hstate, Pc.sender])
    exact ⟨.inr hnext, by rw [hside.en, hen]⟩

/-! ## A run -/

/-- The slots are in step until a reset, and the channel is as it should be. -/
def Carrying (s : Sys F) : Prop :=
  (s.pc = .reset ∨ InStep 1 s) ∧ ∃ last due, BoardInv s last due

theorem carrying_init (ty : U8) : Carrying (Sys.init ty : Sys F) :=
  ⟨.inr (inStep_init 1 ty), none, false, .start, by simp [Sys.init, Cars.init],
    fun _ => ⟨by simp [Sys.init, Cars.init], rfl⟩, fun _ hr => (by cases hr), fun hd => (by cases hd)⟩

theorem carrying_step (s : Sys F) (e : Input) (hn : e.NetOk) (h : Carrying s) :
    Carrying (s.step e) := by
  obtain ⟨hk, last, due, hb⟩ := h
  by_cases hreset : s.pc = .reset
  · rw [step_reset hreset]
    exact ⟨hk, last, due, hb⟩
  have hk := hk.resolve_left hreset
  refine ⟨?_, boardInv_step hb hk e⟩
  by_cases hr : (s.step e).pc = .reset
  · exact .inl hr
  · exact .inr (inStep_step (by decide) hk hn hr)

/-- **Every record is carried**: if the calls of the stack succeed, every record
    that slot 0 takes is sent on slot 1 in the same iteration, and a frame there
    never has data older than the record taken last. -/
theorem records_carried (ty : U8) (es : List Input) (hn : ∀ e ∈ es, e.NetOk) :
    OnBoard (run Sys.step (Sys.init ty : Sys F) es) := by
  obtain ⟨-, last, due, h⟩ := 
    run_inv_of (I := (Carrying : Sys F → Prop)) carrying_step es hn (carrying_init ty)
  exact h.onBoard

end

/-- A car at the sensor, and the first iterations of the main loop. -/
def oneCar : List Input :=
  .irq (.exti4 (fun _ => true) 0 0) :: List.replicate 14 (.main (.up none))

/-- The record of a car, and its frame. -/
theorem record_carried : OnBoard (run Sys.step (Sys.init 0 : Sys Num) oneCar) ∧
    records (onBoard (run Sys.step (Sys.init 0 : Sys Num) oneCar).log) = [⟨0, 1, 0⟩] := by
  refine ⟨records_carried 0 oneCar ?_, by decide +kernel⟩
  intro e he
  rcases List.mem_cons.1 he with rfl | he
  · trivial
  · rw [List.eq_of_mem_replicate he]
    exact fun _ => ⟨rfl, rfl, rfl⟩

end GndCtrl
