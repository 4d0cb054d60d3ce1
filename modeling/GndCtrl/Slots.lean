/-
  The connection of the slots and their pending frames.

  A slot is created, then connected, then it sends: `phase` counts this.  Only
  the block of the slot moves it on (`clientSlot_cases`), and only this block
  and the sender of the slot touch the pending frame (`same_step`).
-/
import Mathlib.Tactic.FinCases
import GndCtrl.Tokens

namespace GndCtrl

open CNum CFloat

variable {F : Type}

/-- How far a slot has come: created, connected. -/
def TcpClientTable.phase (c : TcpClientTable) : ℕ :=
  if c.connectIsOk = false then 0
  else match c.tcpClientStatue with
    | .disConnect => 1
    | .connectOk | .connectRecv => 2
    | .reConnect => 3

/-- The slots agree in what their senders use. -/
structure SameSide (c c' : TcpClientTable) : Prop where
  phase : c'.phase = c.phase
  en : c'.tcpSendEn = c.tcpSendEn
  frame : c'.frame = c.frame

theorem SameSide.refl (c : TcpClientTable) : SameSide c c := ⟨rfl, rfl, rfl⟩

theorem SameSide.of_eq {c c' : TcpClientTable} (h : c' = c) : SameSide c c' := h ▸ .refl c

theorem Taken.side {c c' : TcpClientTable} (h : Taken c c') : SameSide c c' := by
  rcases h with rfl | ⟨hc, b, n, rfl⟩
  · exact .refl _
  · refine ⟨?_, rfl, rfl⟩
    simp only [TcpClientTable.phase, hc]

/-- What the block of a slot makes of the slot, if the calls it makes succeed. -/
structure Advanced (net : Net) (i : Fin 4) (c c' : TcpClientTable) : Prop where
  made : c.phase = 0 → net.udpNew i = true → c'.phase = 1 ∧ c'.tcpSendEn = false
  up : c.phase = 1 → net.udpConnect i = true →
    c'.phase = 2 ∧ c'.tcpSendEn = c.tcpSendEn ∧ c'.frame = c.frame
  sent : c.phase = 2 → c'.phase = 2 ∧ c'.tcpSendEn = false ∧ c'.frame = c.frame

theorem Advanced.of_side {net : Net} {i : Fin 4} {c c' c'' : TcpClientTable} (h : SameSide c c')
    (h' : Advanced net i c' c'') : Advanced net i c c'' := by
  obtain ⟨hp, he, hf⟩ := h
  refine ⟨fun hc => h'.made (hp.trans hc), fun hc hn => ?_, fun hc => ?_⟩
  · obtain ⟨h1, h2, h3⟩ := h'.up (hp.trans hc) hn
    exact ⟨h1, h2.trans he, h3.trans hf⟩
  · obtain ⟨h1, h2, h3⟩ := h'.sent (hp.trans hc)
    exact ⟨h1, h2, h3.trans hf⟩

theorem advanced_clientSend (net : Net) (i : Fin 4) {s : Sys F}
    (hr : (s.tcpClientList i).tcpClientStatue ≠ .connectRecv) :
    Advanced net i (s.tcpClientList i) ((clientSend net i s).tcpClientList i) := by
  rcases clientSend_cases net i s with ⟨hc, e⟩ | ⟨hc, hd, e⟩ | ⟨hc, ho, hen, m, s', hs, e, -⟩ |
    ⟨hc, hd, hn, e⟩ <;> rw [e]
  · have hp : (s.tcpClientList i).phase = 0 := if_pos hc
    refine ⟨fun _ hnew => ?_, fun h => ?_, fun h => ?_⟩
    · rw [creatUdpConnectProcess, Sys.setSlot_self, if_pos hnew]
      exact ⟨rfl, rfl⟩
    · rw [hp] at h
      cases h
    · rw [hp] at h
      cases h
  · have hp : (s.tcpClientList i).phase = 1 := by
      rw [TcpClientTable.phase, if_neg (by rw [hc]; decide), hd]
    refine ⟨fun h => ?_, fun _ hcon => ?_, fun h => ?_⟩
    · rw [hp] at h
      cases h
    · rw [udpEchoclientConnect, Sys.setSlot_self]
      simp only [if_pos hcon]
      refine ⟨?_, rfl, rfl⟩
      simp only [TcpClientTable.phase, getIpParaProcess, hc]
      rfl
    · rw [hp] at h
      cases h
  · have hp : (s.tcpClientList i).phase = 2 := by
      rw [TcpClientTable.phase, if_neg (by rw [hc]; decide), ho]
    refine ⟨fun h => ?_, fun h => ?_, fun _ => ?_⟩
    · rw [hp] at h
      cases h
    · rw [hp] at h
      cases h
    · rw [Sys.setSlot_self, hs, udpSendProcess_slots]
      exact ⟨hp, rfl, rfl⟩
  · refine ⟨fun h => ?_, fun h => ?_, fun h => ?_⟩
    · have h' : (s.tcpClientList i).phase ≠ 0 := by
        rw [TcpClientTable.phase, if_neg (by rw [hc]; decide)]
        split <;> decide
      exact absurd h h'
    · have h' : (s.tcpClientList i).phase ≠ 1 := by
        rw [TcpClientTable.phase, if_neg (by rw [hc]; decide)]
        split
        · contradiction
        all_goals decide
      exact absurd h h'
    · refine ⟨h, ?_, rfl⟩
      rw [TcpClientTable.phase, if_neg (by rw [hc]; decide)] at h
      cases hst : (s.tcpClientList i).tcpClientStatue with
      | disConnect => exact absurd hst hd
      | connectRecv => exact absurd hst hr
      | reConnect =>
        rw [hst] at h
        cases h
      | connectOk => simpa [hst] using hn

section
variable {D : Type} [CNum F] [CNum D] [CFloat F D]

/-- The first half of a slot's block: a boot, or a message taken out of the
    slot. -/
theorem clientRecv_side (i : Fin 4) {s : Sys F} (hp : s.pc ≠ .reset) :
    (∀ j, SameSide (s.tcpClientList j) ((clientRecv i s).tcpClientList j)) ∧
      ((clientRecv i s).pc = .reset ∨ (clientRecv i s).pc = s.pc ∧
        ((clientRecv i s).tcpClientList i).tcpClientStatue ≠ .connectRecv) := by
  rcases clientRecv_cases i hp with ⟨hr, e⟩ | ⟨-, -, e⟩ | ⟨hr, -, s', ⟨d, q, n, rfl, -⟩, e⟩ <;>
    rw [e]
  · exact ⟨fun j => .refl _, .inr ⟨rfl, hr⟩⟩
  · exact ⟨fun j => .refl _, .inl rfl⟩
  · refine ⟨setSlot_cases (Q := fun j c => SameSide (s.tcpClientList j) c) ?_ fun j _ => .refl _,
      .inr ⟨rfl, ?_⟩⟩
    · refine ⟨?_, rfl, rfl⟩
      simp only [TcpClientTable.phase, Sys.note_tcpClientList, hr]
      rfl
    · rw [Sys.setSlot_self]
      simp

/-- **The block of a slot** leaves the others alone; a boot cuts it short. -/
theorem clientSlot_cases (net : Net) (i : Fin 4) {s : Sys F} (hp : s.pc = .client i) :
    (∀ j, j ≠ i → SameSide (s.tcpClientList j) ((clientSlot net i s).tcpClientList j)) ∧
      ((clientSlot net i s).pc = .reset ∧
          SameSide (s.tcpClientList i) ((clientSlot net i s).tcpClientList i) ∨
        (clientSlot net i s).pc = .client i ∧
          Advanced net i (s.tcpClientList i) ((clientSlot net i s).tcpClientList i)) := by
  obtain ⟨hside, hpc⟩ := clientRecv_side i (s := s) (by simp [hp])
  rcases hpc with hpc | ⟨hpc, hst⟩
  · have he : clientSlot net i s = clientRecv i s := if_pos hpc
    rw [he]
    exact ⟨fun j _ => hside j, .inl ⟨hpc, hside i⟩⟩
  · have he : clientSlot net i s = clientSend net i (clientRecv i s) := by
      refine if_neg ?_
      simp [hpc, hp]
    rw [he]
    refine ⟨fun j hj => ?_, .inr ⟨?_, ?_⟩⟩
    · rw [clientSend_ne net _ hj]
      exact hside j
    · rw [clientSend_pc, hpc, hp]
    · exact .of_side (hside i) (advanced_clientSend net i hst)

end

/-! ## The senders -/

/-- The operation that sends for a slot. -/
def Pc.sender : Fin 4 → Pc
  | 0 => .send
  | 1 => .car
  | 2 => .cartwo
  | 3 => .carthree

theorem commit_phase (i j : Fin 4) (t : U16) (r : Mem × ℕ) (s : Sys F) :
    ((commit i t r s).tcpClientList j).phase = (s.tcpClientList j).phase := by
  by_cases hj : j = i
  · subst hj
    rw [commit_self]
    rfl
  · rw [commit_ne t r s hj]

theorem CarSent.phase {i : Fin 4} {s s' : Sys F} (h : CarSent i s s') (j : Fin 4) :
    (s'.tcpClientList j).phase = (s.tcpClientList j).phase := by
  rcases h with ⟨-, rfl⟩ | ⟨-, c, rfl | ⟨t, r, rfl⟩⟩
  · rfl
  · rfl
  · exact commit_phase i j t r { s with cars := c }

theorem CarSent.ne {i j : Fin 4} {s s' : Sys F} (h : CarSent i s s') (hj : j ≠ i) :
    s'.tcpClientList j = s.tcpClientList j := by
  rcases h with ⟨-, rfl⟩ | ⟨-, c, rfl | ⟨t, r, rfl⟩⟩
  · rfl
  · rfl
  · exact commit_ne t r { s with cars := c } hj

theorem sendMessageToSever_phase (s : Sys F) (j : Fin 4) :
    ((sendMessageToSever s).tcpClientList j).phase = (s.tcpClientList j).phase := by
  rcases sendMessageToSever_cases s with e | ⟨-, e | ⟨t, r, s', e, hk, -⟩⟩ <;> rw [e]
  · rfl
  · rw [commit_phase, hk.slots, popped_tcpClientList]

theorem sendMessageToSever_ne (s : Sys F) {j : Fin 4} (hj : j ≠ 0) :
    (sendMessageToSever s).tcpClientList j = s.tcpClientList j := by
  rcases sendMessageToSever_cases s with e | ⟨-, e | ⟨t, r, s', e, hk, -⟩⟩ <;> rw [e]
  · rfl
  · rw [commit_ne t r s' hj, hk.slots, popped_tcpClientList]

/-! ## A step -/

section
variable {D : Type} [CNum F] [CNum D] [CFloat F D]

theorem irq_slots (s : Sys F) (e : Irq) :
    (s.step (.irq e)).tcpClientList = s.tcpClientList ∧ (s.step (.irq e)).pc = s.pc := by
  simp only [Sys.step]
  split_ifs
  · exact ⟨rfl, rfl⟩
  · rcases irq_cases s e with ⟨_, tim2, junk, _, -, he⟩ | ⟨d, m, c, he, -⟩ <;> rw [he] <;>
      exact ⟨rfl, rfl⟩

/-- Outside its block and its sender a slot keeps its pending frame. -/
theorem same_step {s : Sys F} {env : Env} {i : Fin 4} (hc : s.pc ≠ .client i)
    (hs : s.pc ≠ Pc.sender i) :
    SameSide (s.tcpClientList i) ((s.step (.main env)).tcpClientList i) := by
  change SameSide _ ((mainStep env s).tcpClientList i)
  have hgo : ∀ (s' : Sys F) pc, SameSide (s.tcpClientList i) (s'.tcpClientList i) →
      SameSide (s.tcpClientList i) ((s'.goto pc).tcpClientList i) := by
    intro s' pc h
    rwa [goto_tcpClientList]
  unfold mainStep
  cases hp : s.pc with
  | link =>
    simp only
    split_ifs <;> exact hgo _ _ (.refl _)
  | rx =>
    refine hgo _ _ ?_
    cases env.rx with
    | none => exact .refl _
    | some d => exact (udpInput_taken d s i).side
  | client j =>
    refine hgo _ _ ((clientSlot_cases env.toNet j hp).1 i ?_)
    rintro rfl
    exact hc hp
  | send =>
    refine hgo _ _ (.of_eq (sendMessageToSever_ne s ?_))
    rintro rfl
    exact hs hp
  | state =>
    refine hgo _ _ ?_
    simp only [funGnd2wcsStateMsg]
    split_ifs <;> exact .refl _
  | car =>
    refine hgo _ _ (.of_eq ((carsend_cases s).ne ?_))
    rintro rfl
    exact hs hp
  | carthree =>
    refine hgo _ _ (.of_eq ((carthreesend_cases s).ne ?_))
    rintro rfl
    exact hs hp
  | cartwo =>
    refine hgo _ _ (.of_eq ((cartwosend_cases s).ne ?_))
    rintro rfl
    exact hs hp
  | sec =>
    refine hgo _ _ ?_
    simp only [secProcess]
    split_ifs <;> exact .refl _
  | hang => exact .refl _
  | reset => exact .refl _

/-- Outside its block a slot keeps its connection. -/
theorem phase_step {s : Sys F} {env : Env} {i : Fin 4} (hc : s.pc ≠ .client i) :
    ((s.step (.main env)).tcpClientList i).phase = (s.tcpClientList i).phase := by
  by_cases hs : s.pc = Pc.sender i
  · change ((mainStep env s).tcpClientList i).phase = _
    have hcases : ∀ k : Fin 4, Pc.sender k = .send ∧ k = 0 ∨ Pc.sender k = .car ∧ k = 1 ∨
        Pc.sender k = .cartwo ∧ k = 2 ∨ Pc.sender k = .carthree ∧ k = 3 := by
      intro k
      fin_cases k <;> simp [Pc.sender]
    rcases hcases i with ⟨h, -⟩ | ⟨h, -⟩ | ⟨h, -⟩ | ⟨h, -⟩ <;> rw [h] at hs <;>
      simp only [mainStep, hs, goto_tcpClientList]
    · exact sendMessageToSever_phase s i
    · exact (carsend_cases s).phase i
    · exact (cartwosend_cases s).phase i
    · exact (carthreesend_cases s).phase i
  · exact (same_step hc hs).phase

/-- The operation after another. -/
def Pc.next : Pc → List Pc
  | .link => [.rx, .sec]
  | .rx => [.client 0, .hang]
  | .client i => [if i = 3 then .send else .client (i + 1), .reset]
  | .send => [.state]
  | .state => [.car]
  | .car => [.carthree]
  | .carthree => [.cartwo]
  | .cartwo => [.sec]
  | .sec => [.link]
  | .hang => [.hang]
  | .reset => [.reset]

theorem next_step (s : Sys F) (env : Env) : (s.step (.main env)).pc ∈ s.pc.next := by
  change (mainStep env s).pc ∈ _
  have hgo : ∀ {s' : Sys F} {pc : Pc}, s'.pc = s.pc → s.pc ≠ .hang → s.pc ≠ .reset →
      (s'.goto pc).pc = pc := by
    intro s' pc h hh hr
    exact goto_pc pc (by rwa [h]) (by rwa [h])
  unfold mainStep
  cases hp : s.pc with
  | link =>
    simp only
    split_ifs
    · rw [hgo rfl (by simp [hp]) (by simp [hp])]
      exact List.mem_cons_self
    · simp [Sys.goto, Pc.next]
  | rx =>
    cases hrx : env.rx with
    | none =>
      simp only
      rw [hgo rfl (by simp [hp]) (by simp [hp])]
      exact List.mem_cons_self
    | some d =>
      simp only
      obtain ⟨c, pc, e, hpc⟩ := udpInput_cases d s
      have hrx : (udpInput d s).pc = s.pc ∨ (udpInput d s).pc = .hang := by rwa [e]
      rcases hrx with h | h
      · rw [hgo h (by simp [hp]) (by simp [hp])]
        exact List.mem_cons_self
      · simp [Sys.goto, h, Pc.next]
  | client i =>
    rcases (clientSlot_cases env.toNet i hp).2 with ⟨hpc, -⟩ | ⟨hpc, -⟩
    · simp [Sys.goto, hpc, Pc.next]
    · rw [goto_pc _ (by simp [hpc]) (by simp [hpc])]
      exact List.mem_cons_self
  | send =>
    rw [hgo (sendMessageToSever_pc s) (by simp [hp]) (by simp [hp])]
    exact List.mem_cons_self
  | state =>
    rw [hgo (by simp only [funGnd2wcsStateMsg]; split_ifs <;> rfl) (by simp [hp])
      (by simp [hp])]
    exact List.mem_cons_self
  | car =>
    rw [hgo (carsend_cases s).pc (by simp [hp]) (by simp [hp])]
    exact List.mem_cons_self
  | carthree =>
    rw [hgo (carthreesend_cases s).pc (by simp [hp]) (by simp [hp])]
    exact List.mem_cons_self
  | cartwo =>
    rw [hgo (cartwosend_cases s).pc (by simp [hp]) (by simp [hp])]
    exact List.mem_cons_self
  | sec =>
    rw [hgo (by simp only [secProcess]; split_ifs <;> rfl) (by simp [hp]) (by simp [hp])]
    exact List.mem_cons_self
  | hang =>
    rw [hp]
    exact List.mem_cons_self
  | reset =>
    rw [hp]
    exact List.mem_cons_self

theorem send_next {s : Sys F} (env : Env) (hp : s.pc = .send) :
    (s.step (.main env)).pc = .state := by
  have hnext := next_step s env
  rwa [hp, Pc.next, List.mem_singleton] at hnext

/-- The block of a slot, as a step. -/
theorem client_step {s : Sys F} (env : Env) {i : Fin 4} (hp : s.pc = .client i) :
    (s.step (.main env)).pc = .reset ∧
        (∀ j, SameSide (s.tcpClientList j) ((s.step (.main env)).tcpClientList j)) ∨
      (s.step (.main env)).pc = (if i = 3 then .send else .client (i + 1)) ∧
        Advanced env.toNet i (s.tcpClientList i) ((s.step (.main env)).tcpClientList i) := by
  have hstep := step_client env hp
  obtain ⟨hother, ⟨hpc, hself⟩ | ⟨hpc, hadv⟩⟩ := clientSlot_cases env.toNet i hp
  · refine .inl ⟨by rw [hstep]; simp [Sys.goto, hpc], fun j => ?_⟩
    rw [hstep, goto_tcpClientList]
    by_cases hj : j = i
    · exact hj ▸ hself
    · exact hother j hj
  · refine .inr ⟨?_, ?_⟩
    · rw [hstep, goto_pc _ (by simp [hpc]) (by simp [hpc])]
    · rw [hstep, goto_tcpClientList]
      exact hadv

end

end GndCtrl
