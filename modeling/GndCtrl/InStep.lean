/-
  The slots go in step, if the calls of the stack succeed.

  All slots are created in the first iteration and connected in the second.  So
  whenever the sender of slot 0 may write a frame, no frame of another slot is
  pending (`InStep.ready`): slot 0 is the only source of what the others send,
  and before its first frame there is nothing to send at all (`InStep.quiet`).
-/
import GndCtrl.Slots

namespace GndCtrl

open CNum CFloat

variable {F : Type}

/-- The calls of the stack in the operation succeed. -/
def Input.NetOk : Input → Prop
  | .irq _ => True
  | .main env => ∀ i, env.udpNew i = true ∧ env.udpConnect i = true ∧ env.pbufAlloc i = true

instance : (e : Input) → Decidable e.NetOk
  | .irq _ => isTrue trivial
  | .main env => inferInstanceAs (Decidable (∀ i, env.udpNew i = true ∧ _))

/-- The other slots have nothing to send. -/
structure Quiet (s : Sys F) : Prop where
  car : s.cars.carSendQueue.toList = []
  cartwo : s.cars.cartwoSendQueue.toList = []
  carthree : s.cars.carthreeSendQueue.toList = []
  positionreset : s.msg.positionreset = 0

/-- The block of slot 0 is done in this iteration, that of slot `k` is not. -/
def Pc.between (k : Fin 4) : Pc → Bool
  | .client j => 0 < j && j ≤ k
  | _ => false

/-- Both blocks are done, and the sender of slot 0 is not. -/
def Pc.ahead (k : Fin 4) : Pc → Bool
  | .client j => k < j
  | .send => true
  | _ => false

/-- The block of slot `k` is done in this iteration, and a sender is not. -/
def Pc.past (k : Fin 4) : Pc → Bool
  | .client j => k < j
  | .send | .state | .car | .carthree | .cartwo => true
  | _ => false

/-- Slot `k` goes in step with slot 0. -/
structure InStep (k : Fin 4) (s : Sys F) : Prop where
  le : (s.tcpClientList k).phase ≤ 2
  phase : (s.tcpClientList 0).phase =
    if s.pc.between k then min ((s.tcpClientList k).phase + 1) 2 else (s.tcpClientList k).phase
  made : s.pc.past k → (s.tcpClientList k).phase ≠ 0
  fresh : (s.tcpClientList k).phase = 0 →
    (s.tcpClientList k).tcpSendEn = false ∧ (s.tcpClientList 0).tcpSendEn = false
  quiet : (s.tcpClientList k).phase ≤ 1 → (s.tcpClientList 0).tcpSendEn = false →
    (s.tcpClientList k).tcpSendEn = false ∧ Quiet s
  ready : s.pc.ahead k → (s.tcpClientList 0).tcpSendEn = false →
    (s.tcpClientList k).tcpSendEn = false

/-! ## Nothing to send -/

theorem Quiet.upheld {s s' : Sys F} (h : Quiet s) (hu : Upheld s s') : Quiet s' :=
  ⟨by rw [hu.cars, h.car], by rw [hu.cars, h.cartwo], by rw [hu.cars, h.carthree],
    hu.positionreset.trans h.positionreset⟩

theorem Quiet.carsend {s : Sys F} (h : Quiet s) :
    (carsendMessageToSever s).tcpClientList = s.tcpClientList ∧ Quiet (carsendMessageToSever s) := by
  have htok : (carGetSendMsgFromQueue s).1 = 0 := by
    simp [carGetSendMsgFromQueue, h.car]
  have hq : (carGetSendMsgFromQueue s).2.cars.carSendQueue.toList = [] := by
    simp [carGetSendMsgFromQueue, h.car]
  simp only [carsendMessageToSever, htok]
  split_ifs with hen ht
  · exact ⟨rfl, h⟩
  · exact absurd ht (by decide)
  · exact ⟨rfl, hq, h.cartwo, h.carthree, h.positionreset⟩

theorem Quiet.cartwosend {s : Sys F} (h : Quiet s) :
    (cartwosendMessageToSever s).tcpClientList = s.tcpClientList ∧
      Quiet (cartwosendMessageToSever s) := by
  have htok : (cartwoGetSendMsgFromQueue s).1 = 0 := by
    simp [cartwoGetSendMsgFromQueue, h.cartwo]
  have hq : (cartwoGetSendMsgFromQueue s).2.cars.cartwoSendQueue.toList = [] := by
    simp [cartwoGetSendMsgFromQueue, h.cartwo]
  simp only [cartwosendMessageToSever, htok]
  split_ifs with hen ht
  · exact ⟨rfl, h⟩
  · exact absurd ht (by decide)
  · exact ⟨rfl, h.car, hq, h.carthree, h.positionreset⟩

theorem Quiet.carthreesend {s : Sys F} (h : Quiet s) :
    (carthreesendMessageToSever s).tcpClientList = s.tcpClientList ∧
      Quiet (carthreesendMessageToSever s) := by
  have htok : (carthreeGetSendMsgFromQueue s).1 = 0 := by
    simp [carthreeGetSendMsgFromQueue, h.carthree]
  have hq : (carthreeGetSendMsgFromQueue s).2.cars.carthreeSendQueue.toList = [] := by
    simp [carthreeGetSendMsgFromQueue, h.carthree]
  simp only [carthreesendMessageToSever, htok]
  split_ifs with hen ht ht' ht''
  · exact ⟨rfl, h⟩
  · exact absurd ht (by decide)
  · exact absurd ht' (by decide)
  · exact absurd ht'' (by decide)
  · exact ⟨rfl, h.car, h.cartwo, hq, h.positionreset⟩

theorem Quiet.goto {s : Sys F} (h : Quiet s) (pc : Pc) : Quiet (s.goto pc) :=
  h.upheld (.goto s pc)

section
variable {D : Type} [CNum F] [CNum D] [CFloat F D]

theorem Quiet.irq {s : Sys F} (h : Quiet s) (e : Irq) : Quiet (s.step (.irq e)) := by
  simp only [Sys.step]
  split_ifs
  · exact h
  cases e with
  | exti4 pin tim2 junk =>
    simp only [GndCtrl.irq]
    split_ifs
    · exact ⟨h.car, h.cartwo, h.carthree, h.positionreset⟩
    · exact h
  | exti95 in7 in10 tim2 =>
    simp only [GndCtrl.irq, exti95]
    split_ifs <;> exact ⟨h.car, h.cartwo, h.carthree, h.positionreset⟩
  | tim2 => exact ⟨h.car, h.cartwo, h.carthree, h.positionreset⟩
  | tim3 =>
    simp only [GndCtrl.irq]
    split_ifs <;> exact ⟨h.car, h.cartwo, h.carthree, h.positionreset⟩
  | sysTick =>
    have hz : ¬ (s.msg.positionreset ≠ 0 ∧ countDown s.msg.positionreset = 0) :=
      fun hc => hc.1 h.positionreset
    simp only [GndCtrl.irq, timeUpdate, if_neg hz]
    refine ⟨h.car, h.cartwo, h.carthree, ?_⟩
    change countDown s.msg.positionreset = 0
    rw [h.positionreset]
    rfl

/-- Outside `send_message_to_sever` there stays nothing to send. -/
theorem Quiet.main {s : Sys F} (h : Quiet s) (env : Env) (hp : s.pc ≠ .send) :
    Quiet (s.step (.main env)) := by
  change Quiet (mainStep env s)
  unfold mainStep
  cases hpc : s.pc with
  | link =>
    simp only
    split_ifs
    · exact h.goto _
    · refine Quiet.goto ?_ _
      exact ⟨h.car, h.cartwo, h.carthree, h.positionreset⟩
  | rx =>
    refine Quiet.goto ?_ _
    cases env.rx with
    | none => exact h
    | some d => exact h.upheld (upheld_udpInput d s)
  | client i => exact (h.upheld (upheld_clientSlot env.toNet i (by simp [hpc]))).goto _
  | send => exact absurd hpc hp
  | state => exact (h.upheld (upheld_stateMsg s)).goto _
  | car => exact h.carsend.2.goto _
  | carthree => exact h.carthreesend.2.goto _
  | cartwo => exact h.cartwosend.2.goto _
  | sec => exact (h.upheld (upheld_secProcess s)).goto _
  | hang => exact h
  | reset => exact h

/-! ## The invariant -/

omit [CNum F] [CNum D] [CFloat F D] in
/-- A step that changes neither of the two slots. -/
theorem InStep.of_side {k : Fin 4} {s s' : Sys F} (h : InStep k s)
    (h₀ : SameSide (s.tcpClientList 0) (s'.tcpClientList 0))
    (hk : SameSide (s.tcpClientList k) (s'.tcpClientList k))
    (hb : s'.pc.between k = s.pc.between k) (hp : s'.pc.past k → s.pc.past k)
    (ha : s'.pc.ahead k → s.pc.ahead k) (hq : Quiet s → Quiet s') : InStep k s' := by
  refine ⟨?_, ?_, ?_, ?_, ?_, ?_⟩
  · rw [hk.phase]
    exact h.le
  · rw [h₀.phase, hk.phase, hb]
    exact h.phase
  · rw [hk.phase]
    exact fun hc => h.made (hp hc)
  · rw [h₀.en, hk.phase, hk.en]
    exact h.fresh
  · rw [h₀.en, hk.phase, hk.en]
    exact fun hl hen => ⟨(h.quiet hl hen).1, hq (h.quiet hl hen).2⟩
  · rw [h₀.en, hk.en]
    exact fun hc => h.ready (ha hc)

/-- The block of slot 0 goes first. -/
theorem InStep.client_zero {k : Fin 4} (hk : k ≠ 0) {s : Sys F} (h : InStep k s)
    (hp : s.pc = .client 0) {env : Env} (hn : (Input.main env).NetOk)
    (hr : (s.step (.main env)).pc ≠ .reset) : InStep k (s.step (.main env)) := by
  rcases client_step env hp with ⟨hc, -⟩ | ⟨hpc, hadv⟩
  · exact absurd hc hr
  have hside : SameSide (s.tcpClientList k) ((s.step (.main env)).tcpClientList k) :=
    same_step (by rw [hp]; exact fun hc => hk (Pc.client.inj hc).symm) (by
      rw [hp]
      fin_cases k <;> simp [Pc.sender])
  have hphase : (s.tcpClientList 0).phase = (s.tcpClientList k).phase := by
    have h' := h.phase
    rwa [hp, if_neg (by simp [Pc.between])] at h'
  have hquiet : Quiet s → Quiet (s.step (.main env)) := fun hq => hq.main env (by simp [hp])
  have hpc' : (s.step (.main env)).pc = .client 1 := hpc
  have hbetween : Pc.between k (.client 1) = true := by
    fin_cases k <;> first | exact absurd rfl hk | rfl
  have hpast : Pc.past k (.client 1) = false ∧ Pc.ahead k (.client 1) = false := by
    fin_cases k <;> first | exact absurd rfl hk | exact ⟨rfl, rfl⟩
  have hle := h.le
  refine ⟨by rw [hside.phase]; exact hle, ?_, ?_, ?_, ?_, ?_⟩
  · rw [hpc', if_pos hbetween, hside.phase]
    obtain h0 | h1 | h2 : (s.tcpClientList k).phase = 0 ∨ (s.tcpClientList k).phase = 1 ∨
      (s.tcpClientList k).phase = 2 := by omega
    · rw [(hadv.made (hphase.trans h0) (hn 0).1).1, h0]
      rfl
    · rw [(hadv.up (hphase.trans h1) (hn 0).2.1).1, h1]
      rfl
    · rw [(hadv.sent (hphase.trans h2)).1, h2]
      rfl
  · rw [hpc', hpast.1]
    intro hc
    cases hc
  · rw [hside.phase, hside.en]
    intro h0
    exact ⟨(h.fresh h0).1, (hadv.made (hphase.trans h0) (hn 0).1).2⟩
  · rw [hside.phase, hside.en]
    intro hl hen
    have hen₀ : (s.tcpClientList 0).tcpSendEn = false := by
      obtain h0 | h1 : (s.tcpClientList k).phase = 0 ∨ (s.tcpClientList k).phase = 1 := by omega
      · exact (h.fresh h0).2
      · rw [← (hadv.up (hphase.trans h1) (hn 0).2.1).2.1, hen]
    exact ⟨(h.quiet hl hen₀).1, hquiet (h.quiet hl hen₀).2⟩
  · rw [hpc', hpast.2]
    intro hc
    cases hc

/-- The block of slot `k` catches up. -/
theorem InStep.client_self {k : Fin 4} (hk : k ≠ 0) {s : Sys F} (h : InStep k s)
    (hp : s.pc = .client k) {env : Env} (hn : (Input.main env).NetOk)
    (hr : (s.step (.main env)).pc ≠ .reset) : InStep k (s.step (.main env)) := by
  rcases client_step env hp with ⟨hc, -⟩ | ⟨hpc, hadv⟩
  · exact absurd hc hr
  have hside : SameSide (s.tcpClientList 0) ((s.step (.main env)).tcpClientList 0) :=
    same_step (by rw [hp]; exact fun hc => hk (Pc.client.inj hc)) (by simp [hp, Pc.sender])
  have hquiet : Quiet s → Quiet (s.step (.main env)) := fun hq => hq.main env (by simp [hp])
  have hphase : (s.tcpClientList 0).phase = min ((s.tcpClientList k).phase + 1) 2 := by
    have hbetween : Pc.between k (.client k) = true := by
      fin_cases k <;> first | exact absurd rfl hk | rfl
    have h' := h.phase
    rwa [hp, if_pos hbetween] at h'
  have hbetween : Pc.between k (if k = 3 then .send else .client (k + 1)) = false := by
    fin_cases k <;> rfl
  have hle := h.le
  -- what becomes of the slot, by its phase
  have hphases : ((s.step (.main env)).tcpClientList k).phase = (s.tcpClientList 0).phase ∧
      ((s.tcpClientList 0).tcpSendEn = false →
        ((s.step (.main env)).tcpClientList k).tcpSendEn = false) := by
    obtain h0 | h1 | h2 : (s.tcpClientList k).phase = 0 ∨ (s.tcpClientList k).phase = 1 ∨
      (s.tcpClientList k).phase = 2 := by omega
    · obtain ⟨hm, hen⟩ := hadv.made h0 (hn k).1
      exact ⟨by rw [hm, hphase, h0]; rfl, fun _ => hen⟩
    · obtain ⟨hm, hen, -⟩ := hadv.up h1 (hn k).2.1
      refine ⟨by rw [hm, hphase, h1]; rfl, fun h₀ => ?_⟩
      rw [hen]
      exact (h.quiet (by omega) h₀).1
    · obtain ⟨hm, hen, -⟩ := hadv.sent h2
      exact ⟨by rw [hm, hphase, h2]; rfl, fun _ => hen⟩
  obtain ⟨hphase', hen⟩ := hphases
  refine ⟨by rw [hphase']; omega, ?_, fun _ => by rw [hphase']; omega, ?_, ?_, ?_⟩
  · rw [hpc, if_neg (by rw [hbetween]; decide), hside.phase, hphase']
  · rw [hphase']
    omega
  · rw [hphase', hside.en]
    intro hl h₀
    exact ⟨hen h₀, hquiet (h.quiet (by omega) h₀).2⟩
  · rw [hside.en]
    exact fun _ h₀ => hen h₀

/-- The sender of slot 0 may write the first frame. -/
theorem InStep.send {k : Fin 4} (hk : k ≠ 0) {s : Sys F} (h : InStep k s) (hp : s.pc = .send)
    (env : Env) : InStep k (s.step (.main env)) := by
  have hpc := send_next env hp
  have hstep := step_send env hp
  have hself : (s.step (.main env)).tcpClientList k = s.tcpClientList k := by
    rw [hstep, goto_tcpClientList, sendMessageToSever_ne s hk]
  have hphase : ((s.step (.main env)).tcpClientList 0).phase = (s.tcpClientList 0).phase :=
    phase_step (by simp [hp])
  have hmade : (s.tcpClientList k).phase ≠ 0 := h.made (by rw [hp]; rfl)
  refine ⟨by rw [hself]; exact h.le, ?_, fun _ => by rw [hself]; exact hmade, ?_, ?_, ?_⟩
  · have h' := h.phase
    rw [hp, if_neg (by simp [Pc.between])] at h'
    rw [hphase, hself, hpc, if_neg (by simp [Pc.between]), h']
  · rw [hself]
    exact fun hc => absurd hc hmade
  · rw [hself]
    intro hl hen
    have hsent : (s.tcpClientList 0).tcpSendEn = false ∧ Quiet (s.step (.main env)) ∨
        ((s.step (.main env)).tcpClientList 0).tcpSendEn = true := by
      rw [hstep, goto_tcpClientList, sendMessageToSever_eq]
      split_ifs with h₀
      · exact .inr h₀
      · have h₀ : (s.tcpClientList 0).tcpSendEn = false := by simpa using h₀
        rcases sendMessage_cases (token s) (popped s) with ⟨e, -⟩ | ⟨t', r, s', e, -⟩ <;> rw [e]
        · have hq := (h.quiet hl h₀).2
          have hpop : Quiet (popped s) := ⟨hq.car, hq.cartwo, hq.carthree, hq.positionreset⟩
          exact .inl ⟨h₀, hpop.goto _⟩
        · exact .inr (by rw [commit_self])
    rcases hsent with ⟨h₀, hq⟩ | hc
    · exact ⟨(h.quiet hl h₀).1, hq⟩
    · rw [hc] at hen
      cases hen
  · rw [hpc]
    intro hc
    cases hc

/-- A sender of another slot finds nothing as long as slot 0 sent nothing. -/
theorem InStep.sender {k : Fin 4} (hk : k ≠ 0) {s : Sys F} (h : InStep k s)
    (hp : s.pc = Pc.sender k) (env : Env) : InStep k (s.step (.main env)) := by
  have hsend : s.pc ≠ .send := by
    rw [hp]
    fin_cases k <;> first | exact absurd rfl hk | simp [Pc.sender]
  have hclient : ∀ i, s.pc ≠ .client i := by
    intro i
    rw [hp]
    fin_cases k <;> simp [Pc.sender]
  have hside : SameSide (s.tcpClientList 0) ((s.step (.main env)).tcpClientList 0) :=
    same_step (hclient 0) (by rw [Pc.sender]; exact hsend)
  have hphase : ((s.step (.main env)).tcpClientList k).phase = (s.tcpClientList k).phase :=
    phase_step (hclient k)
  have hmade : (s.tcpClientList k).phase ≠ 0 := h.made (by rw [hp]; fin_cases k <;> rfl)
  have hslots : Quiet s → (s.step (.main env)).tcpClientList = s.tcpClientList := by
    intro hq
    change (mainStep env s).tcpClientList = _
    have hcases : s.pc = .car ∨ s.pc = .cartwo ∨ s.pc = .carthree := by
      rw [hp]
      fin_cases k
      · exact absurd rfl hk
      · exact .inl rfl
      · exact .inr (.inl rfl)
      · exact .inr (.inr rfl)
    rcases hcases with hc | hc | hc <;> simp only [mainStep, hc, goto_tcpClientList]
    · exact hq.carsend.1
    · exact hq.cartwosend.1
    · exact hq.carthreesend.1
  have hb : s.pc.between k = false ∧ (s.step (.main env)).pc.between k = false ∧
      (s.step (.main env)).pc.ahead k = false := by
    have hnext := next_step s env
    rw [hp] at hnext ⊢
    fin_cases k
    · exact absurd rfl hk
    all_goals
      rw [List.mem_singleton.1 hnext]
      exact ⟨rfl, rfl, rfl⟩
  refine ⟨by rw [hphase]; exact h.le, ?_, fun _ => by rw [hphase]; exact hmade, ?_, ?_, ?_⟩
  · have h' := h.phase
    rw [hb.1] at h'
    rw [hb.2.1, hside.phase, hphase, h']
  · rw [hphase]
    exact fun hc => absurd hc hmade
  · rw [hphase, hside.en]
    intro hl hen
    obtain ⟨hk', hq⟩ := h.quiet hl hen
    exact ⟨by rw [hslots hq]; exact hk', hq.main env hsend⟩
  · rw [hb.2.2]
    intro hc
    cases hc

/-- The other operations do not change where slot `k` stands. -/
theorem next_classes {k : Fin 4} (hk : k ≠ 0) {pc pc' : Pc} (hnext : pc' ∈ pc.next)
    (hs : pc ≠ .send) (h0 : pc ≠ .client 0) (hc : pc ≠ .client k) (hr : pc' ≠ .reset) :
    pc'.between k = pc.between k ∧ (pc'.past k → pc.past k) ∧ (pc'.ahead k → pc.ahead k) := by
  cases pc with
  | client i =>
    have hblocks : ∀ k i : Fin 4, i ≠ 0 → i ≠ k →
        let pc' : Pc := if i = 3 then .send else .client (i + 1)
        pc'.between k = Pc.between k (.client i) ∧ (pc'.past k → Pc.past k (.client i)) ∧
          (pc'.ahead k → Pc.ahead k (.client i)) := by decide
    rw [Pc.next, List.mem_pair] at hnext
    rcases hnext with rfl | rfl
    · exact hblocks k i (fun h => h0 (h ▸ rfl)) fun h => hc (h ▸ rfl)
    · exact absurd rfl hr
  | send => exact absurd rfl hs
  | rx =>
    rw [Pc.next, List.mem_pair] at hnext
    rcases hnext with rfl | rfl
    · have hfirst : Pc.between k (.client 0) = false := by
        fin_cases k <;> rfl
      exact ⟨hfirst, fun h => by simp [Pc.past] at h, fun h => by simp [Pc.ahead] at h⟩
    · exact ⟨rfl, fun h => by simp [Pc.past] at h, fun h => by simp [Pc.ahead] at h⟩
  | link =>
    rw [Pc.next, List.mem_pair] at hnext
    rcases hnext with rfl | rfl <;>
      exact ⟨rfl, fun h => by simp [Pc.past] at h, fun h => by simp [Pc.ahead] at h⟩
  | cartwo | sec | hang =>
    rw [List.mem_singleton.1 hnext]
    exact ⟨rfl, fun h => by simp [Pc.past] at h, fun h => by simp [Pc.ahead] at h⟩
  | state | car | carthree =>
    rw [List.mem_singleton.1 hnext]
    exact ⟨rfl, fun _ => rfl, fun h => by simp [Pc.ahead] at h⟩
  | reset => exact absurd (List.mem_singleton.1 hnext) hr

/-- **The slots stay in step**, until a reset. -/
theorem inStep_step {k : Fin 4} (hk : k ≠ 0) {s : Sys F} {e : Input} (h : InStep k s)
    (hn : e.NetOk) (hr : (s.step e).pc ≠ .reset) : InStep k (s.step e) := by
  cases e with
  | irq e =>
    obtain ⟨hslots, hpc⟩ := irq_slots s e
    exact h.of_side (.of_eq (by rw [hslots])) (.of_eq (by rw [hslots])) (by rw [hpc])
      (by rw [hpc]; exact id) (by rw [hpc]; exact id) fun hq => hq.irq e
  | main env =>
    by_cases hsend : s.pc = .send
    · exact h.send hk hsend env
    by_cases hself : s.pc = Pc.sender k
    · exact h.sender hk hself env
    by_cases h0 : s.pc = .client 0
    · exact h.client_zero hk h0 hn hr
    by_cases hc : s.pc = .client k
    · exact h.client_self hk hc hn hr
    obtain ⟨hb, hpast, hahead⟩ := next_classes hk (next_step s env) hsend h0 hc hr
    exact h.of_side (same_step h0 hsend) (same_step hc hself) hb hpast hahead
      fun hq => hq.main env hsend

omit [CNum D] [CFloat F D] in
theorem quiet_init (ty : U8) : Quiet (Sys.init ty : Sys F) := by
  refine ⟨?_, ?_, ?_, rfl⟩ <;> simp [Sys.init, Cars.init]

omit [CNum D] [CFloat F D] in
theorem inStep_init (k : Fin 4) (ty : U8) : InStep k (Sys.init ty : Sys F) :=
  ⟨Nat.zero_le 2, rfl, fun h => by simp [Sys.init, Pc.past] at h, fun _ => ⟨rfl, rfl⟩,
    fun _ _ => ⟨rfl, quiet_init ty⟩, fun h => by simp [Sys.init, Pc.ahead] at h⟩

end

end GndCtrl
