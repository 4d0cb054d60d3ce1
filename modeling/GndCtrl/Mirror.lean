/-
  Slot 3 mirrors slot 0.

  The encoder of a report copies its payload to `GndThreemsg` and leaves a token
  for slot 3; slot 3 builds the frame anew from the copy when it takes the token.

  Before a report is written nothing of the last one is left: slot 3 has nothing
  pending then (`InStep.ready`), so the token and the copy are used up in the
  same iteration.  `MirrorInv` says where the last report is: pending on both
  slots, or still to be copied, or sent on slot 0 and not yet on slot 3.

  A token for an interval message that finds no record sends the last report of
  slot 0 again, without a token for slot 3.
-/
import GndCtrl.Answers
import GndCtrl.InStep

namespace GndCtrl

open CNum CFloat

variable {F : Type}

/-- The reports among the frames. -/
def mirrored (l : List (List U8)) : List (List U8) :=
  l.filter fun f => frameType f = sendMsgGndctrl2wcsCmdType

/-- Slot 3 sends the reports of slot 0, and has one token at most. -/
structure Mirrors (s : Sys F) : Prop where
  /-- between the blocks of slot 0 and slot 3 the last one may be pending -/
  frames : mirrored (sends 0 s.log) = sends 3 s.log ∨
    (s.pc.between 3 ∨ s.pc = .reset) ∧
      mirrored (sends 0 s.log) = sends 3 s.log ++ (s.tcpClientList 3).pending
  tokens : s.cars.carthreeSendQueue.toList.length ≤ 1

/-- What a step must meet: the calls of the stack succeed, and no report is sent
    again for want of a record. -/
structure MirrorOk (s : Sys F) (e : Input) : Prop where
  net : e.NetOk
  report : ReportOk s e

instance (s : Sys F) (e : Input) : Decidable (MirrorOk s e) :=
  decidable_of_iff (e.NetOk ∧ ReportOk s e) ⟨fun h => ⟨h.1, h.2⟩, fun h => ⟨h.net, h.report⟩⟩

/-- The frames for the tokens of slot 3. -/
def Sys.snapshot (s : Sys F) : List (List U8) :=
  s.cars.carthreeSendQueue.toList.map fun t => frameOf 1 (s.cars.gndThreemsg.bytes 10) t

/-- Slot 0 has sent in this iteration, slot 3 has not. -/
def Sys.Halfway (s : Sys F) : Prop := s.pc.between 3 = true ∧ (s.tcpClientList 3).phase = 2

instance (s : Sys F) : Decidable s.Halfway := inferInstanceAs (Decidable (_ ∧ _))

/-- Where the last report is. -/
structure MirrorInv (s : Sys F) : Prop where
  queue : s.cars.carthreeSendQueue.toList = [] ∨
    (s.pc = .state ∨ s.pc = .car ∨ s.pc = .carthree) ∧
      s.cars.carthreeSendQueue.toList = [sendMsgGndctrl2wcsCmdType] ∧
      (s.tcpClientList 3).tcpSendEn = false
  sent : mirrored (sends 0 s.log) =
    sends 3 s.log ++ if s.Halfway then (s.tcpClientList 3).pending else []
  held : if s.Halfway then (s.tcpClientList 0).tcpSendEn = false
    else mirrored (s.tcpClientList 0).pending = (s.tcpClientList 3).pending ++ s.snapshot

theorem mirrored_append (l l' : List (List U8)) :
    mirrored (l ++ l') = mirrored l ++ mirrored l' := List.filter_append _ _

theorem report_eq_none_iff (f : List U8) :
    report f = none ↔ frameType f ≠ sendMsgGndctrl2wcsCmdType := by
  rw [report, frameType]
  split_ifs with h
  · exact iff_of_false (by simp) fun hc => hc h
  · exact ⟨fun _ => h, fun _ => rfl⟩

theorem mirrored_none {f : List U8} (h : report f = none) : mirrored [f] = [] := by
  rw [mirrored, List.filter_cons_of_neg (by simpa using (report_eq_none_iff f).1 h)]
  rfl

theorem mirrored_report (payload : List U8) :
    mirrored [frameOf 1 payload sendMsgGndctrl2wcsCmdType] =
      [frameOf 1 payload sendMsgGndctrl2wcsCmdType] := by
  rw [mirrored, List.filter_cons_of_pos (by simp [frameType_frameOf])]
  rfl

theorem MirrorInv.mirrors {s : Sys F} (h : MirrorInv s) : Mirrors s := by
  refine ⟨?_, ?_⟩
  · have hsent := h.sent
    split_ifs at hsent with hw
    · exact .inr ⟨.inl hw.1, hsent⟩
    · rw [List.append_nil] at hsent
      exact .inl hsent
  · rcases h.queue with hq | ⟨-, hq, -⟩ <;> rw [hq]
    · exact Nat.zero_le 1
    · exact le_rfl

/-! ## What a step sends -/

theorem SameSide.pending {c c' : TcpClientTable} (h : SameSide c c') : c'.pending = c.pending := by
  rw [TcpClientTable.pending, TcpClientTable.pending, h.en, h.frame]

theorem TcpClientTable.pending_nil {c : TcpClientTable} (h : c.tcpSendEn = false) :
    c.pending = [] := by
  rw [TcpClientTable.pending, h]
  rfl

/-- Before a slot is connected its block keeps what is pending. -/
theorem Advanced.pending {net : Net} {i : Fin 4} {c c' : TcpClientTable} (h : Advanced net i c c')
    (hp : c.phase ≤ 1) (hf : c.phase = 0 → c.tcpSendEn = false) (hnew : net.udpNew i = true)
    (hcon : net.udpConnect i = true) : c'.pending = c.pending := by
  obtain h0 | h1 : c.phase = 0 ∨ c.phase = 1 := by omega
  · rw [TcpClientTable.pending_nil (h.made h0 hnew).2, TcpClientTable.pending_nil (hf h0)]
  · obtain ⟨-, hen, hframe⟩ := h.up h1 hcon
    rw [TcpClientTable.pending, TcpClientTable.pending, hen, hframe]

theorem SameSend.sends {s s' : Sys F} (h : SameSend s s') (i : Fin 4) :
    sends i s'.log = sends i s.log := by
  obtain ⟨l, hl, hs⟩ := h.log
  rw [hl, sends_append, sends_silent i hs, List.append_nil]

theorem sends_snoc (i : Fin 4) (l : List Obs) {o : Obs} (h : sends i [o] = []) :
    sends i (l ++ [o]) = sends i l := by
  rw [sends_append, h, List.append_nil]

theorem sends_sendMessageToSever (i : Fin 4) (s : Sys F) :
    sends i (sendMessageToSever s).log = sends i s.log := by
  rcases sendMessageToSever_cases s with e | ⟨-, e | ⟨t, r, s', e, hk, hb⟩⟩ <;> rw [e]
  · rfl
  · rw [commit_log, sends_snoc i _ rfl, (hb.sameSend hk).sends]
    rfl

theorem CarSent.sends {j : Fin 4} {s s' : Sys F} (h : CarSent j s s') (i : Fin 4) :
    sends i s'.log = sends i s.log := by
  rcases h with ⟨-, rfl⟩ | ⟨-, c, rfl | ⟨t, r, rfl⟩⟩
  · rfl
  · rfl
  · exact sends_snoc i s.log rfl

/-- What the second half of a block sends was pending. -/
theorem clientSend_flow {net : Net} {i : Fin 4} {s : Sys F} (ha : net.pbufAlloc i = true)
    (hf : (s.tcpClientList i).phase = 0 → (s.tcpClientList i).tcpSendEn = false) :
    sends i (clientSend net i s).log ++ ((clientSend net i s).tcpClientList i).pending =
      sends i s.log ++ (s.tcpClientList i).pending := by
  rcases clientSend_cases net i s with ⟨hc, e⟩ | ⟨-, -, e⟩ | ⟨-, -, hen, m, s', hs, e, -⟩ |
    ⟨-, -, -, e⟩ <;> rw [e]
  · have hen := hf (if_pos hc)
    rw [creatUdpConnectProcess, Sys.setSlot_log, Sys.setSlot_self]
    congr 1
    split_ifs
    · rw [TcpClientTable.pending_nil rfl, TcpClientTable.pending_nil hen]
    · rfl
  · rw [udpEchoclientConnect, Sys.setSlot_log, Sys.setSlot_self]
    congr 1
    dsimp only
    split_ifs <;> rfl
  · rw [Sys.setSlot_log, Sys.setSlot_self, TcpClientTable.pending_nil rfl, hs, ha,
      TcpClientTable.pending, if_pos hen]
    simp [udpSendProcess, sends]

theorem sends_clientSend_ne (net : Net) {i j : Fin 4} (s : Sys F) (hj : i ≠ j) :
    sends i (clientSend net j s).log = sends i s.log := by
  rcases clientSend_cases net j s with ⟨-, e⟩ | ⟨-, -, e⟩ | ⟨-, -, -, m, s', hs, e, -⟩ | ⟨-, -, -, e⟩ <;>
    rw [e]
  · rfl
  · rfl
  · rw [Sys.setSlot_log, hs]
    simp only [udpSendProcess]
    split_ifs
    · exact sends_snoc i s.log (by simp [sends, hj.symm])
    · rfl

section
variable {D : Type} [CNum F] [CNum D] [CFloat F D]

theorem sends_clientRecv (i j : Fin 4) {s : Sys F} (hp : s.pc ≠ .reset) :
    sends i (clientRecv j s).log = sends i s.log := by
  have hnote : ∀ d, sends i (s.log ++ [.handle j d]) = sends i s.log :=
    fun d => sends_snoc i s.log rfl
  rcases clientRecv_cases j hp with ⟨-, e⟩ | ⟨-, -, e⟩ | ⟨-, -, s', ⟨d, q, n, rfl, -⟩, e⟩ <;> rw [e]
  · change sends i ((s.log ++ _) ++ _) = _
    rw [sends_snoc i _ rfl, hnote]
  · exact hnote _

/-- The block of a slot, by what it sends; a boot sends nothing. -/
theorem client_flow {env : Env} {i : Fin 4} {s : Sys F} (hp : s.pc = .client i)
    (hn : (Input.main env).NetOk)
    (hf : (s.tcpClientList i).phase = 0 → (s.tcpClientList i).tcpSendEn = false) :
    sends i (s.step (.main env)).log ++ ((s.step (.main env)).tcpClientList i).pending =
      sends i s.log ++ (s.tcpClientList i).pending := by
  have hreset : s.pc ≠ .reset := by simp [hp]
  have hside := (clientRecv_side i hreset).1 i
  rw [step_client env hp]
  simp only [goto_log, goto_tcpClientList, clientSlot]
  split_ifs
  · rw [sends_clientRecv i i hreset, hside.pending]
  · rw [clientSend_flow (hn i).2.2 (by rw [hside.phase, hside.en]; exact hf),
      sends_clientRecv i i hreset, hside.pending]

/-- Only the block of a slot sends on it. -/
theorem sends_step {env : Env} {i : Fin 4} {s : Sys F} (hc : s.pc ≠ .client i) :
    sends i (s.step (.main env)).log = sends i s.log := by
  change sends i (mainStep env s).log = sends i s.log
  refine mainStep_cases (P := fun s' => sends i s'.log = sends i s.log) env ?_ rfl ?_ ?_ ?_ ?_ ?_ ?_ ?_
  · intro s' pc h
    rw [goto_log, h]
  · exact fun _ => rfl
  · intro d _
    obtain ⟨c, pc, e, -⟩ := udpInput_cases d s
    rw [e]
  · intro j hp
    have hreset : s.pc ≠ .reset := by simp [hp]
    have hij : i ≠ j := fun h => hc (by rw [hp, h])
    simp only [clientSlot]
    split_ifs
    · exact sends_clientRecv i j hreset
    · rw [sends_clientSend_ne _ _ hij, sends_clientRecv i j hreset]
  · exact fun _ => sends_sendMessageToSever i s
  · intro _
    simp only [funGnd2wcsStateMsg]
    split_ifs <;> rfl
  · exact fun j s' h _ => h.sends i
  · intro _
    simp only [secProcess]
    split_ifs <;> rfl

/-! ## Steps that leave the mirror alone -/

/-- The steps that neither send nor write for the two slots. -/
structure SameMirror (s s' : Sys F) : Prop where
  sends : ∀ i, i = 0 ∨ i = 3 → sends i s'.log = sends i s.log
  side : ∀ i, i = 0 ∨ i = 3 → SameSide (s.tcpClientList i) (s'.tcpClientList i)
  queue : s'.cars.carthreeSendQueue = s.cars.carthreeSendQueue
  copy : s'.cars.gndThreemsg = s.cars.gndThreemsg

omit [CNum F] [CNum D] [CFloat F D] in
theorem MirrorInv.of_same {s s' : Sys F} (h : MirrorInv s) (hs : SameMirror s s')
    (hb : s'.pc.between 3 = s.pc.between 3)
    (hp : s.pc = .state ∨ s.pc = .car ∨ s.pc = .carthree →
      s.cars.carthreeSendQueue.toList = [] ∨ s'.pc = .state ∨ s'.pc = .car ∨ s'.pc = .carthree) :
    MirrorInv s' := by
  have h₀ := hs.side 0 (.inl rfl)
  have h₃ := hs.side 3 (.inr rfl)
  have hhalf : s'.Halfway ↔ s.Halfway := by rw [Sys.Halfway, Sys.Halfway, hb, h₃.phase]
  have hsnap : s'.snapshot = s.snapshot := by rw [Sys.snapshot, Sys.snapshot, hs.queue, hs.copy]
  refine ⟨?_, ?_, ?_⟩
  · rw [hs.queue, h₃.en]
    rcases h.queue with hq | ⟨hpc, hq, hen⟩
    · exact .inl hq
    · rcases hp hpc with hnil | hpc'
      · exact .inl hnil
      · exact .inr ⟨hpc', hq, hen⟩
  · rw [hs.sends 0 (.inl rfl), hs.sends 3 (.inr rfl), h₃.pending]
    simp only [hhalf]
    exact h.sent
  · simp only [hhalf, h₀.en, h₀.pending, h₃.pending, hsnap]
    exact h.held

theorem irq_carthree (s : Sys F) (e : Irq) :
    (irq s e).cars.carthreeSendQueue = s.cars.carthreeSendQueue ∧
      (irq s e).cars.gndThreemsg = s.cars.gndThreemsg := by
  cases e with
  | exti4 pin tim2 junk =>
    simp only [irq]
    split_ifs <;> exact ⟨rfl, rfl⟩
  | exti95 in7 in10 tim2 =>
    simp only [irq, exti95]
    split_ifs <;> exact ⟨rfl, rfl⟩
  | tim2 => exact ⟨rfl, rfl⟩
  | tim3 =>
    simp only [irq]
    split_ifs <;> exact ⟨rfl, rfl⟩
  | sysTick =>
    simp only [irq, timeUpdate]
    split_ifs <;> exact ⟨rfl, rfl⟩

theorem MirrorInv.irq {s : Sys F} (h : MirrorInv s) (e : Irq) : MirrorInv (s.step (.irq e)) := by
  obtain ⟨hslots, hpc⟩ := irq_slots s e
  have hkeep : (s.step (.irq e)).cars.carthreeSendQueue = s.cars.carthreeSendQueue ∧
      (s.step (.irq e)).cars.gndThreemsg = s.cars.gndThreemsg := by
    simp only [Sys.step]
    split_ifs
    · exact ⟨rfl, rfl⟩
    · exact irq_carthree s e
  have hsends : ∀ i, sends i (s.step (.irq e)).log = sends i s.log := by
    intro i
    simp only [Sys.step]
    split_ifs
    · rfl
    · rcases irq_cases s e with ⟨_, tim2, junk, _, -, he⟩ | ⟨d, m, c, he, -⟩ <;> rw [he]
      exact sends_snoc i s.log rfl
  refine h.of_same ⟨fun i _ => hsends i, fun i _ => .of_eq (by rw [hslots]), hkeep.1, hkeep.2⟩
    (by rw [hpc]) fun hp => .inr ?_
  rw [hpc]
  exact hp

theorem main_carthree (env : Env) {s : Sys F} (hs : s.pc ≠ .send) (hc : s.pc ≠ .carthree) :
    (s.step (.main env)).cars.carthreeSendQueue = s.cars.carthreeSendQueue ∧
      (s.step (.main env)).cars.gndThreemsg = s.cars.gndThreemsg := by
  have hup : ∀ {s' : Sys F}, Upheld s s' →
      s'.cars.carthreeSendQueue = s.cars.carthreeSendQueue ∧
        s'.cars.gndThreemsg = s.cars.gndThreemsg := by
    intro s' h
    rw [h.cars]
    exact ⟨rfl, rfl⟩
  change (mainStep env s).cars.carthreeSendQueue = _ ∧ (mainStep env s).cars.gndThreemsg = _
  unfold mainStep
  cases hp : s.pc with
  | link =>
    simp only
    split_ifs <;> rw [goto_cars] <;> exact ⟨rfl, rfl⟩
  | rx =>
    rw [goto_cars]
    cases env.rx with
    | none => exact ⟨rfl, rfl⟩
    | some d => exact hup (upheld_udpInput d s)
  | client i =>
    rw [goto_cars]
    exact hup (upheld_clientSlot env.toNet i (by simp [hp]))
  | send => exact absurd hp hs
  | state =>
    rw [goto_cars]
    exact hup (upheld_stateMsg s)
  | car =>
    simp only [goto_cars, carsendMessageToSever]
    split_ifs <;> exact ⟨rfl, rfl⟩
  | carthree => exact absurd hp hc
  | cartwo =>
    simp only [goto_cars, cartwosendMessageToSever]
    split_ifs <;> exact ⟨rfl, rfl⟩
  | sec =>
    rw [goto_cars]
    exact hup (upheld_secProcess s)
  | hang => exact ⟨rfl, rfl⟩
  | reset => exact ⟨rfl, rfl⟩

/-- The operations that do not send for the two slots. -/
theorem MirrorInv.main {s : Sys F} (h : MirrorInv s) (env : Env) (hs : s.pc ≠ .send)
    (hc : s.pc ≠ .carthree) (h0 : s.pc ≠ .client 0) (h3 : s.pc ≠ .client 3)
    (hr : (s.step (.main env)).pc ≠ .reset) : MirrorInv (s.step (.main env)) := by
  have hnext := next_step s env
  obtain ⟨hb, -⟩ := next_classes (k := 3) (by decide) hnext hs h0 h3 hr
  obtain ⟨hq, hm⟩ := main_carthree env hs hc
  refine h.of_same ⟨?_, ?_, hq, hm⟩ hb ?_
  · rintro i (rfl | rfl)
    · exact sends_step h0
    · exact sends_step h3
  · rintro i (rfl | rfl)
    · exact same_step h0 hs
    · exact same_step h3 hc
  · rintro (hp | hp | hp)
    · rw [hp, Pc.next, List.mem_singleton] at hnext
      exact .inr (.inr (.inl hnext))
    · rw [hp, Pc.next, List.mem_singleton] at hnext
      exact .inr (.inr (.inr hnext))
    · exact absurd hp hc

/-! ## The blocks of the two slots -/

omit [CNum F] [CNum D] [CFloat F D] in
theorem MirrorInv.queue_nil {s : Sys F} (h : MirrorInv s) (hp : s.pc ≠ .state)
    (hp' : s.pc ≠ .car) (hp'' : s.pc ≠ .carthree) : s.cars.carthreeSendQueue.toList = [] := by
  rcases h.queue with hq | ⟨hpc | hpc | hpc, -⟩
  · exact hq
  · exact absurd hpc hp
  · exact absurd hpc hp'
  · exact absurd hpc hp''

/-- Slot 0 goes ahead: what was pending on both slots is sent on slot 0. -/
theorem MirrorInv.client_zero {s : Sys F} (h : MirrorInv s) (hk : InStep 3 s)
    (hp : s.pc = .client 0) {env : Env} (hn : (Input.main env).NetOk)
    (hr : (s.step (.main env)).pc ≠ .reset) : MirrorInv (s.step (.main env)) := by
  rcases client_step env hp with ⟨hc, -⟩ | ⟨hpc, hadv⟩
  · exact absurd hc hr
  have hpc' : (s.step (.main env)).pc = .client 1 := hpc
  have hside : SameSide (s.tcpClientList 3) ((s.step (.main env)).tcpClientList 3) :=
    same_step (by simp [hp]) (by simp [hp, Pc.sender])
  have hsend₃ : sends 3 (s.step (.main env)).log = sends 3 s.log := sends_step (by simp [hp])
  have hq := h.queue_nil (by simp [hp]) (by simp [hp]) (by simp [hp])
  have hq' : (s.step (.main env)).cars.carthreeSendQueue.toList = [] := by
    rw [(main_carthree env (by simp [hp]) (by simp [hp])).1, hq]
  have hwas : ¬ s.Halfway := fun hc => by simp [Sys.Halfway, hp, Pc.between] at hc
  have hhalf : (s.step (.main env)).Halfway ↔ (s.tcpClientList 3).phase = 2 := by
    rw [Sys.Halfway, hpc', hside.phase]
    exact and_iff_right rfl
  have hphase : (s.tcpClientList 0).phase = (s.tcpClientList 3).phase := by
    have h' := hk.phase
    rwa [hp, if_neg (by simp [Pc.between])] at h'
  have hflow := client_flow hp hn fun h0 => (hk.fresh (hphase.symm.trans h0)).2
  have hsent : mirrored (sends 0 s.log) = sends 3 s.log := by
    have h' := h.sent
    rwa [if_neg hwas, List.append_nil] at h'
  have hheld : mirrored (s.tcpClientList 0).pending = (s.tcpClientList 3).pending := by
    have h' := h.held
    rwa [if_neg hwas, Sys.snapshot, hq, List.map_nil, List.append_nil] at h'
  have hsnap : (s.step (.main env)).snapshot = [] := by rw [Sys.snapshot, hq', List.map_nil]
  by_cases h2 : (s.tcpClientList 3).phase = 2
  · have hen := (hadv.sent (hphase.trans h2)).2.1
    rw [TcpClientTable.pending_nil hen, List.append_nil] at hflow
    refine ⟨.inl hq', ?_, ?_⟩
    · rw [if_pos (hhalf.2 h2), hflow, mirrored_append, hsent, hheld, hsend₃, hside.pending]
    · rw [if_pos (hhalf.2 h2)]
      exact hen
  · -- nothing is sent yet
    have hpend : ((s.step (.main env)).tcpClientList 0).pending = (s.tcpClientList 0).pending := by
      have hle := hk.le
      exact hadv.pending (by omega) (fun h0 => (hk.fresh (hphase.symm.trans h0)).2) (hn 0).1
        (hn 0).2.1
    rw [hpend] at hflow
    refine ⟨.inl hq', ?_, ?_⟩
    · rw [if_neg fun hc => h2 (hhalf.1 hc), List.append_nil, List.append_cancel_right hflow, hsent,
        hsend₃]
    · rw [if_neg fun hc => h2 (hhalf.1 hc), hpend, hheld, hside.pending, hsnap, List.append_nil]

/-- Slot 3 catches up. -/
theorem MirrorInv.client_three {s : Sys F} (h : MirrorInv s) (hk : InStep 3 s)
    (hp : s.pc = .client 3) {env : Env} (hn : (Input.main env).NetOk)
    (hr : (s.step (.main env)).pc ≠ .reset) : MirrorInv (s.step (.main env)) := by
  rcases client_step env hp with ⟨hc, -⟩ | ⟨hpc, hadv⟩
  · exact absurd hc hr
  have hpc' : (s.step (.main env)).pc = .send := hpc
  have hside : SameSide (s.tcpClientList 0) ((s.step (.main env)).tcpClientList 0) :=
    same_step (by simp [hp]) (by simp [hp, Pc.sender])
  have hsend₀ : sends 0 (s.step (.main env)).log = sends 0 s.log := sends_step (by simp [hp])
  have hq := h.queue_nil (by simp [hp]) (by simp [hp]) (by simp [hp])
  have hq' : (s.step (.main env)).cars.carthreeSendQueue.toList = [] := by
    rw [(main_carthree env (by simp [hp]) (by simp [hp])).1, hq]
  have hhalf : s.Halfway ↔ (s.tcpClientList 3).phase = 2 := by
    rw [Sys.Halfway, hp]
    exact and_iff_right rfl
  have hdone : ¬ (s.step (.main env)).Halfway := fun hc => by
    simp [Sys.Halfway, hpc', Pc.between] at hc
  have hflow := client_flow hp hn fun h0 => (hk.fresh h0).1
  have hsnap : s.snapshot = [] ∧ (s.step (.main env)).snapshot = [] := by
    rw [Sys.snapshot, Sys.snapshot, hq, hq', List.map_nil, List.map_nil]
    exact ⟨rfl, rfl⟩
  have hsent := h.sent
  have hheld := h.held
  by_cases h2 : (s.tcpClientList 3).phase = 2
  · have hen := (hadv.sent h2).2.1
    rw [TcpClientTable.pending_nil hen, List.append_nil] at hflow
    rw [if_pos (hhalf.2 h2)] at hsent hheld
    refine ⟨.inl hq', ?_, ?_⟩
    · rw [if_neg hdone, List.append_nil, hsend₀, hsent, hflow]
    · rw [if_neg hdone, hside.pending, TcpClientTable.pending_nil hheld,
        TcpClientTable.pending_nil hen, hsnap.2]
      rfl
  · -- nothing was sent on slot 0 either
    have hpend : ((s.step (.main env)).tcpClientList 3).pending = (s.tcpClientList 3).pending := by
      have hle := hk.le
      exact hadv.pending (by omega) (fun h0 => (hk.fresh h0).1) (hn 3).1 (hn 3).2.1
    rw [hpend] at hflow
    rw [if_neg fun hc => h2 (hhalf.1 hc)] at hsent hheld
    refine ⟨.inl hq', ?_, ?_⟩
    · rw [if_neg hdone, hsend₀, hsent, List.append_cancel_right hflow]
    · rw [if_neg hdone, hside.pending, hheld, hpend, hsnap.1, hsnap.2]

/-! ## The senders of the two slots -/

omit [CNum F] [CNum D] [CFloat F D] in
theorem sendMessage_carthree {t : U16} (ht : t ≠ sendMsgGndctrl2wcsCmdType) (s : Sys F) :
    (sendMessage t s).cars.carthreeSendQueue = s.cars.carthreeSendQueue := by
  have h := sendMessage_switched t s
  generalize sendMessage t s = x at h ⊢
  cases h with
  | report hc => exact absurd hc ht
  | _ => rfl

omit [CNum F] [CNum D] [CFloat F D] in
/-- The encoder of a report leaves a copy and a token. -/
theorem sendMessage_copy {node : StateNode} {nodes : List StateNode} {s : Sys F}
    (hq : s.msg.gndstatequeue.toList = node :: nodes) :
    (sendMessage sendMsgGndctrl2wcsCmdType s).cars.carthreeSendQueue =
        s.cars.carthreeSendQueue.enQueue sendMsgGndctrl2wcsCmdType ∧
      (sendMessage sendMsgGndctrl2wcsCmdType s).cars.gndThreemsg.bytes 10 = cmdPayload node := by
  have hempty : ¬ s.msg.gndstatequeue.empty = true := by
    rw [Queue.empty_iff, hq]
    exact List.cons_ne_nil _ _
  have hsend : sendMessage sendMsgGndctrl2wcsCmdType s = commit 0 sendMsgGndctrl2wcsCmdType
      (encode (cmdPayload node) (s.tcpClientList 0).tcpSendBuf sendMsgGndctrl2wcsCmdType)
      (reported node s) := by
    rw [sendMessage, if_neg (by decide), if_pos rfl, if_neg hempty, reported_eq hq]
  rw [hsend]
  exact ⟨rfl, Mem.bytes_putList (cmdPayload node) s.cars.gndThreemsg⟩

omit [CNum F] [CNum D] [CFloat F D] in
/-- What the sender of slot 0 leaves, if nothing is pending on the two slots. -/
theorem sendMessage_mirror {t : U16} {s : Sys F} (hen : (s.tcpClientList 0).tcpSendEn = false)
    (hq : s.cars.carthreeSendQueue.toList = [])
    (hok : t = sendMsgGndctrl2wcsCmdIntervalType → s.msg.gnd2WcsIntervalQueue.toList = [] →
      report (s.tcpClientList 0).frame = none) :
    mirrored ((sendMessage t s).tcpClientList 0).pending = (sendMessage t s).snapshot ∧
      ((sendMessage t s).cars.carthreeSendQueue.toList = [] ∨
        (sendMessage t s).cars.carthreeSendQueue.toList = [sendMsgGndctrl2wcsCmdType]) := by
  -- without a report there is neither a token nor a report pending
  have hother : t ≠ sendMsgGndctrl2wcsCmdType →
      mirrored ((sendMessage t s).tcpClientList 0).pending = [] →
      mirrored ((sendMessage t s).tcpClientList 0).pending = (sendMessage t s).snapshot ∧
        ((sendMessage t s).cars.carthreeSendQueue.toList = [] ∨
          (sendMessage t s).cars.carthreeSendQueue.toList = [sendMsgGndctrl2wcsCmdType]) := by
    intro ht hp
    have hq' : (sendMessage t s).cars.carthreeSendQueue.toList = [] := by
      rw [sendMessage_carthree ht, hq]
    refine ⟨?_, .inl hq'⟩
    rw [hp, Sys.snapshot, hq', List.map_nil]
  have hframe : ∀ {t' : U16} {r : Mem × ℕ} {s' : Sys F}, sendMessage t s = commit 0 t' r s' →
      ((sendMessage t s).tcpClientList 0).pending = [r.1.bytes r.2] := by
    intro t' r s' e
    rw [e, commit_self]
    rfl
  rcases sendMessage_cases t s with ⟨e, -⟩ | ⟨t', r, s', e, hk, hb, ht⟩
  · rw [e]
    refine ⟨?_, .inl hq⟩
    rw [TcpClientTable.pending_nil hen, Sys.snapshot, hq, List.map_nil]
    rfl
  rcases hb with ⟨node, hc, hn, -, hf, -⟩ | ⟨record, hc, -, -, hf, -⟩ | ⟨hc, hr, hf, rfl⟩ |
    ⟨hc, -, -, -, hf, -⟩
  · have htype : t = sendMsgGndctrl2wcsCmdType := ht.report.1 hc
    have hpend := hframe e
    subst htype
    obtain ⟨htoken, hcopy⟩ := sendMessage_copy hn
    have hroom : ¬ s.cars.carthreeSendQueue.Full := by
      rw [Queue.Full, hq]
      decide
    have htoken : (sendMessage sendMsgGndctrl2wcsCmdType s).cars.carthreeSendQueue.toList =
        [sendMsgGndctrl2wcsCmdType] := by
      rw [htoken, Queue.toList_enQueue_room hroom, hq, List.nil_append]
    refine ⟨?_, .inr htoken⟩
    rw [hpend, hf, hc, mirrored_report, Sys.snapshot, htoken, hcopy]
    rfl
  · have htype : t ≠ sendMsgGndctrl2wcsCmdType := by
      rw [Ne, ← ht.report, hc]
      decide
    refine hother htype ?_
    rw [hframe e, mirrored_none (by rw [hf, hc]; exact report_other 1 _ (by decide))]
  · have htype : t = sendMsgGndctrl2wcsCmdIntervalType := ht.interval.1 hc
    refine hother (by rw [htype]; decide) ?_
    rw [hframe e, hf, mirrored_none (hok htype hr)]
  · refine hother (mt ht.report.2 hc) ?_
    rw [hframe e, mirrored_none hf]

/-- Slot 0 may get a report: nothing of the last one is left. -/
theorem MirrorInv.send {s : Sys F} (h : MirrorInv s) (hk : InStep 3 s) (hp : s.pc = .send)
    {env : Env} (hok : ReportOk s (.main env)) : MirrorInv (s.step (.main env)) := by
  have hstep := step_send env hp
  have hpc := send_next env hp
  have hq := h.queue_nil (by simp [hp]) (by simp [hp]) (by simp [hp])
  by_cases hen : (s.tcpClientList 0).tcpSendEn = true
  · have hsame : sendMessageToSever s = s := by rw [sendMessageToSever_eq, if_pos hen]
    rw [hsame] at hstep
    refine h.of_same ⟨fun i _ => ?_, fun i _ => .of_eq ?_, ?_, ?_⟩ ?_ fun _ => .inl hq
    · rw [hstep, goto_log]
    · rw [hstep, goto_tcpClientList]
    · rw [hstep, goto_cars]
    · rw [hstep, goto_cars]
    · rw [hpc, hp]
      rfl
  have hen : (s.tcpClientList 0).tcpSendEn = false := by simpa using hen
  have hen₃ : (s.tcpClientList 3).tcpSendEn = false := hk.ready (by rw [hp]; rfl) hen
  have hsend : sendMessageToSever s = sendMessage (token s) (popped s) := by
    rw [sendMessageToSever_eq, if_neg (by rw [hen]; decide)]
  have hwas : ¬ s.Halfway := fun hc => by simp [Sys.Halfway, hp, Pc.between] at hc
  have hnot : ¬ (s.step (.main env)).Halfway := fun hc => by
    simp [Sys.Halfway, hpc, Pc.between] at hc
  have hself : (s.step (.main env)).tcpClientList 3 = s.tcpClientList 3 := by
    rw [hstep, goto_tcpClientList, sendMessageToSever_ne s (by decide)]
  obtain ⟨hpend, htoken⟩ := sendMessage_mirror (t := token s) (s := popped s) hen hq
    fun ht hr => hok ⟨hp, hen⟩ ht hr
  have hsent := h.sent
  rw [if_neg hwas] at hsent
  refine ⟨?_, ?_, ?_⟩
  · rw [hself, hstep, goto_cars, hsend]
    rcases htoken with ht | ht
    · exact .inl ht
    · exact .inr ⟨.inl (by rw [← hsend, ← hstep, hpc]), ht, hen₃⟩
  · rw [if_neg hnot, sends_step (by simp [hp]), sends_step (by simp [hp]), hsent]
  · rw [if_neg hnot, hself, TcpClientTable.pending_nil hen₃, List.nil_append, Sys.snapshot, hstep,
      goto_tcpClientList, goto_cars, hsend]
    exact hpend

omit [CNum F] [CNum D] [CFloat F D] in
/-- What the sender of slot 3 makes of its token, if nothing is pending there. -/
theorem carthreesend_mirror {s : Sys F} (hen : (s.tcpClientList 3).tcpSendEn = false)
    (hq : s.cars.carthreeSendQueue.toList = [] ∨
      s.cars.carthreeSendQueue.toList = [sendMsgGndctrl2wcsCmdType]) :
    (carthreesendMessageToSever s).cars.carthreeSendQueue.toList = [] ∧
      ((carthreesendMessageToSever s).tcpClientList 3).pending = s.snapshot := by
  have htail : (carthreeGetSendMsgFromQueue s).2.cars.carthreeSendQueue.toList =
      s.cars.carthreeSendQueue.toList.tail := Queue.toList_outQueue _
  rcases hq with hq | hq
  · have htoken : (carthreeGetSendMsgFromQueue s).1 = 0 := by
      simp [carthreeGetSendMsgFromQueue, hq]
    simp only [carthreesendMessageToSever, hen, htoken]
    rw [if_neg (by decide), if_neg (by decide), if_neg (by decide), if_neg (by decide), htail,
      Sys.snapshot, hq]
    exact ⟨rfl, TcpClientTable.pending_nil hen⟩
  · have htoken : (carthreeGetSendMsgFromQueue s).1 = sendMsgGndctrl2wcsCmdType := by
      simp [carthreeGetSendMsgFromQueue, hq]
    simp only [carthreesendMessageToSever, hen, htoken]
    rw [if_neg (by decide), if_neg (by decide), if_pos trivial, commit_self, commit_cars, htail,
      Sys.snapshot, hq, sendMsgGndthree2wcsCmd, encode_eq]
    refine ⟨rfl, ?_⟩
    have hbytes := bytes_frameOf (s.tcpClientList 3).tcpSendBuf 1 (s.cars.gndThreemsg.bytes 10)
      sendMsgGndctrl2wcsCmdType
    exact congrArg (fun f => [f]) hbytes

/-- Slot 3 builds the frame of the last report. -/
theorem MirrorInv.carthree {s : Sys F} (h : MirrorInv s) (hp : s.pc = .carthree) (env : Env) :
    MirrorInv (s.step (.main env)) := by
  have hstep := step_carthree env hp
  have hpc : (s.step (.main env)).pc = .cartwo := by
    have hnext := next_step s env
    rwa [hp, Pc.next, List.mem_singleton] at hnext
  by_cases hen : (s.tcpClientList 3).tcpSendEn = true
  · have hq : s.cars.carthreeSendQueue.toList = [] := by
      rcases h.queue with hq | ⟨-, -, hen'⟩
      · exact hq
      · rw [hen'] at hen
        cases hen
    have hsame : carthreesendMessageToSever s = s := by rw [carthreesendMessageToSever, if_pos hen]
    rw [hsame] at hstep
    refine h.of_same ⟨fun i _ => ?_, fun i _ => .of_eq ?_, ?_, ?_⟩ ?_ fun _ => .inl hq
    · rw [hstep, goto_log]
    · rw [hstep, goto_tcpClientList]
    · rw [hstep, goto_cars]
    · rw [hstep, goto_cars]
    · rw [hpc, hp]
      rfl
  have hen : (s.tcpClientList 3).tcpSendEn = false := by simpa using hen
  obtain ⟨hq, hpend⟩ := carthreesend_mirror hen (h.queue.imp_right fun hq => hq.2.1)
  rw [← goto_cars _ .cartwo, ← hstep] at hq
  rw [← goto_tcpClientList _ .cartwo, ← hstep] at hpend
  have hwas : ¬ s.Halfway := fun hc => by simp [Sys.Halfway, hp, Pc.between] at hc
  have hnot : ¬ (s.step (.main env)).Halfway := fun hc => by
    simp [Sys.Halfway, hpc, Pc.between] at hc
  have hside : SameSide (s.tcpClientList 0) ((s.step (.main env)).tcpClientList 0) :=
    same_step (by simp [hp]) (by simp [hp, Pc.sender])
  have hsent := h.sent
  have hheld := h.held
  rw [if_neg hwas] at hsent hheld
  refine ⟨.inl hq, ?_, ?_⟩
  · rw [if_neg hnot, sends_step (by simp [hp]), sends_step (by simp [hp]), hsent]
  · rw [if_neg hnot, hside.pending, hheld, TcpClientTable.pending_nil hen, hpend, Sys.snapshot,
      Sys.snapshot, hq, List.map_nil, List.append_nil, List.nil_append]

/-! ## A run -/

theorem mirrorInv_step {s : Sys F} {e : Input} (h : MirrorInv s) (hk : InStep 3 s)
    (hok : MirrorOk s e) (hr : (s.step e).pc ≠ .reset) : MirrorInv (s.step e) := by
  cases e with
  | irq e => exact h.irq e
  | main env =>
    by_cases hsend : s.pc = .send
    · exact h.send hk hsend hok.report
    by_cases hcar : s.pc = .carthree
    · exact h.carthree hcar env
    by_cases h0 : s.pc = .client 0
    · exact h.client_zero hk h0 hok.net hr
    by_cases h3 : s.pc = .client 3
    · exact h.client_three hk h3 hok.net hr
    exact h.main env hsend hcar h0 h3 hr

/-- A boot command sends nothing: what is pending on slot 3 stays so. -/
theorem MirrorInv.reset {s : Sys F} {e : Input} (h : MirrorInv s) (hs : s.pc ≠ .reset)
    (hr : (s.step e).pc = .reset) : Mirrors (s.step e) := by
  cases e with
  | irq e =>
    rw [(irq_slots s e).2] at hr
    exact absurd hr hs
  | main env =>
    obtain ⟨i, hp⟩ : ∃ i, s.pc = .client i := by
      have hnext := next_step s env
      rw [hr] at hnext
      cases hp : s.pc with
      | client i => exact ⟨i, rfl⟩
      | reset => exact absurd hp hs
      | _ => simp [hp, Pc.next] at hnext
    have hq := (main_carthree env (s := s) (by simp [hp]) (by simp [hp])).1
    have hside : SameSide (s.tcpClientList 3) ((s.step (.main env)).tcpClientList 3) := by
      rcases client_step env hp with ⟨-, hside⟩ | ⟨hpc, -⟩
      · exact hside 3
      · rw [hr] at hpc
        split_ifs at hpc
    have hsends : ∀ j, sends j (s.step (.main env)).log = sends j s.log := by
      intro j
      rw [step_client env hp] at hr ⊢
      rw [goto_log]
      rcases (clientRecv_side i hs).2 with hclient | ⟨hclient, -⟩
      · have hslot : clientSlot env.toNet i s = clientRecv i s := if_pos hclient
        rw [hslot, sends_clientRecv j i hs]
      · -- otherwise the block goes on
        have hslot : clientSlot env.toNet i s = clientSend env.toNet i (clientRecv i s) :=
          if_neg (by rw [hclient]; exact hs)
        have hpc : (clientSlot env.toNet i s).pc = .client i := by
          rw [hslot, clientSend_pc, hclient, hp]
        rw [goto_pc _ (by simp [hpc]) (by simp [hpc])] at hr
        split_ifs at hr
    have hm := h.mirrors
    refine ⟨?_, by rw [hq]; exact hm.tokens⟩
    rw [hsends, hsends, hside.pending]
    rcases hm.frames with hf | ⟨-, hf⟩
    · exact .inl hf
    · exact .inr ⟨.inr hr, hf⟩

/-- The slots are in step and the last report is where it should be, until a
    reset. -/
def Mirroring (s : Sys F) : Prop :=
  s.pc = .reset ∧ Mirrors s ∨ s.pc ≠ .reset ∧ InStep 3 s ∧ MirrorInv s

omit [CNum D] [CFloat F D] in
theorem mirroring_init (ty : U8) : Mirroring (Sys.init ty : Sys F) := by
  refine .inr ⟨by simp [Sys.init], inStep_init 3 ty, .inl ?_, ?_, ?_⟩
  · simp [Sys.init, Cars.init]
  · rfl
  · simp [Sys.init, Cars.init, Sys.Halfway, Sys.snapshot, Pc.between, mirrored,
      TcpClientTable.pending, TcpClientTable.init]

theorem mirroring_step (s : Sys F) (e : Input) (h : Mirroring s) (hok : MirrorOk s e) :
    Mirroring (s.step e) := by
  rcases h with ⟨hp, hm⟩ | ⟨hp, hk, hi⟩
  · rw [step_reset hp]
    exact .inl ⟨hp, hm⟩
  · by_cases hr : (s.step e).pc = .reset
    · exact .inl ⟨hr, hi.reset hp hr⟩
    · exact .inr ⟨hr, inStep_step (by decide) hk hok.net hr, mirrorInv_step hi hk hok hr⟩

/-- **Slot 3 mirrors slot 0** in every state of a run in which the calls of the
    stack succeed and no report is sent again for want of a record. -/
theorem mirrors_run (ty : U8) (es : List Input)
    (hok : Along Sys.step MirrorOk (Sys.init ty : Sys F) es) :
    Always Sys.step Mirrors (Sys.init ty : Sys F) es := by
  have hrun := always_of_along (P := (Mirroring : Sys F → Prop)) mirroring_step es
    (mirroring_init ty) hok
  refine hrun.imp fun s h => ?_
  rcases h with ⟨-, hm⟩ | ⟨-, -, hi⟩
  · exact hm
  · exact hi.mirrors

end

/-- A car at the sensor, until its report is sent. -/
def reportedCar : List Input :=
  .irq (.exti4 (fun _ => true) 0 0) :: List.replicate 50 (.main (.up none))

/-- Both slots have sent the report of the car. -/
theorem report_mirrored : Always Sys.step Mirrors (Sys.init 0 : Sys Num) reportedCar ∧
    (sends 3 (run Sys.step (Sys.init 0 : Sys Num) reportedCar).log).length = 1 :=
  ⟨mirrors_run 0 reportedCar (by decide +kernel), by decide +kernel⟩

/-- The cars of `surplus`, until the report that is repeated is sent. -/
def resent : List Input := surplus ++ List.replicate 12 (.main (.up none))

set_option maxRecDepth 4000 in
/-- The report that is sent again on slot 0 does not come on slot 3. -/
theorem report_unmirrored : ¬ ∀ es : List Input, (∀ e ∈ es, e.NetOk) →
    Always Sys.step Mirrors (Sys.init 0 : Sys Num) es := by
  intro h
  have hnet : ∀ e ∈ resent, e.NetOk := by
    intro e he
    simp only [resent, surplus, List.mem_append, List.mem_replicate] at he
    rcases he with (⟨-, rfl⟩ | ⟨-, rfl⟩) | ⟨-, rfl⟩
    · trivial
    · exact fun _ => ⟨rfl, rfl, rfl⟩
    · exact fun _ => ⟨rfl, rfl, rfl⟩
  have hlast := (h resent hnet).last.frames
  exact absurd hlast (by decide +kernel)

end GndCtrl
