/-
  The receive callback statement by statement.

  `callbackStep` runs `udp_receive_callback` one statement at a time: the tests
  of each slot and the turns of the copying loop, whose counter `m` has 8 bits.
  It records the bytes that the loop reads.

  `callback_returns` and `callback_hangs` say when the callback comes back:
  then the slots are those of `udpReceiveCallback` (`callback_refines`).  From
  them follow the length at which the copying loop ends (`copy_ends_iff`), what
  a datagram that is too long does (`overlong_ignored_iff`) and which chains of
  pbufs are received as they are (`received_iff`).
-/
import Mathlib.Computability.StateTransition
import Mathlib.Tactic.FinCases
import GndCtrl.Steps

namespace GndCtrl

open StateTransition

/-! ## The statements -/

/-- The next statement of `udp_receive_callback`. -/
inductive CallbackPc where
  /-- the tests of slot `i`; behind the last slot the callback returns -/
  | slot (i : ℕ)
  /-- the loop condition, for slot `i` -/
  | copy (i : Fin 4)
  deriving DecidableEq

/-- The variables of `udp_receive_callback`, the slots, and the offsets in the
    payload that were read so far, each with the slot it was read for. -/
structure Callback where
  pc : CallbackPc
  m : U8
  slots : Fin 4 → TcpClientTable
  reads : List (Fin 4 × ℕ)

/-- The slot is taken for a datagram of this sender. -/
def TcpClientTable.takes (c : TcpClientTable) (remote : Endpoint) : Prop :=
  c.matches remote = true ∧ c.tcpClientStatue = .connectOk

instance (c : TcpClientTable) (remote : Endpoint) : Decidable (c.takes remote) :=
  inferInstanceAs (Decidable (_ ∧ _))

/-- Assignments to the fields of one slot. -/
def Callback.setSlot (c : Callback) (i : Fin 4) (f : TcpClientTable → TcpClientTable) : Callback :=
  { c with slots := Function.update c.slots i (f (c.slots i)) }

/-- `tcp_recev_len += m; tcp_client_statue = CLIENT_CONNECT_RECV` -/
def Callback.accept (c : Callback) (i : Fin 4) : Callback :=
  { c.setSlot i fun t =>
      { t with tcpRecevLen := (t.tcpRecevLen + c.m.toNat) % 2 ^ 16, tcpClientStatue := .connectRecv }
    with pc := .slot (i + 1) }

/-- One turn of the copying loop. -/
def Callback.copy (c : Callback) (i : Fin 4) (p : Pbuf) : Callback :=
  { c.setSlot i fun t =>
      { t with tcpRecevBuf := t.tcpRecevBuf.put (t.tcpRecevLen + c.m.toNat) (p.read c.m.toNat) }
    with m := c.m + 1, reads := c.reads ++ [(i, c.m.toNat)] }

/-- The next statement; nothing when the callback has returned. -/
def callbackStep (remote : Endpoint) (p : Pbuf) (c : Callback) : Option Callback :=
  match c.pc with
  | .slot i =>
    if h : i < 4 then
      if (c.slots ⟨i, h⟩).takes remote then
        if p.totLen ≤ tcpRecevBuffSize then some { c with pc := .copy ⟨i, h⟩, m := 0 }
        -- without the loop `m` is what it was
        else some (c.accept ⟨i, h⟩)
      else some { c with pc := .slot (i + 1) }
    else none
  | .copy i => if c.m.toNat < p.totLen then some (c.copy i p) else some (c.accept i)

/-- The call; `junk` is the initial value of `m`. -/
def Callback.start (junk : U8) (slots : Fin 4 → TcpClientTable) : Callback :=
  ⟨.slot 0, junk, slots, []⟩

/-- The states in which the callback returns. -/
def callback (remote : Endpoint) (p : Pbuf) (junk : U8) (slots : Fin 4 → TcpClientTable) :
    Part Callback :=
  eval (callbackStep remote p) (.start junk slots)

section
variable {remote : Endpoint} {p : Pbuf}

/-! ## The copying loop -/

/-- The state of the loop for slot `i` after `n` turns. -/
def Callback.copied (c : Callback) (i : Fin 4) (p : Pbuf) (n : ℕ) : Callback :=
  { c.setSlot i fun t =>
      { t with tcpRecevBuf := t.tcpRecevBuf.putList t.tcpRecevLen (p.read.bytes n) }
    with pc := .copy i, m := BitVec.ofNat 8 n, reads := c.reads ++ (List.range n).map (i, ·) }

theorem copied_step {c : Callback} {i : Fin 4} {n : ℕ} (hn : n < p.totLen) (h : n < 255) :
    callbackStep remote p (c.copied i p n) = some (c.copied i p (n + 1)) := by
  have hm : (BitVec.ofNat 8 n).toNat = n := by
    rw [BitVec.toNat_ofNat, Nat.mod_eq_of_lt (by omega)]
  have hs : BitVec.ofNat 8 n + 1 = BitVec.ofNat 8 (n + 1) := by
    apply BitVec.eq_of_toNat_eq
    simp
  simp only [callbackStep, Callback.copied, hm, if_pos hn, Callback.copy, Callback.setSlot, hs,
    Function.update_self, Function.update_idem, Mem.putList_bytes_succ, List.range_succ,
    List.map_append, List.map_cons, List.map_nil, List.append_assoc]

theorem copied_reaches {c : Callback} {i : Fin 4} {n : ℕ} (hn : n ≤ p.totLen) (h : n ≤ 255) :
    StateTransition.Reaches (callbackStep remote p) (c.copied i p 0) (c.copied i p n) := by
  induction n with
  | zero => exact .refl
  | succ n ih => exact (ih (by omega) (by omega)).tail (copied_step (by omega) (by omega))

/-- The counter never reaches a length above 255. -/
theorem copy_endless {c c' : Callback} {i : Fin 4} (h : 255 < p.totLen) (hc : c.pc = .copy i)
    (hr : StateTransition.Reaches (callbackStep remote p) c c') : c'.pc = .copy i := by
  induction hr with
  | refl => exact hc
  | tail _ hstep ih =>
    have hm := BitVec.isLt (w := 8)
    simp only [callbackStep, ih, if_pos (lt_of_lt_of_le (hm _) h), Option.mem_def,
      Option.some.injEq] at hstep
    rw [← hstep]
    exact ih

/-! ## The whole call -/

/-- The copying loop of a slot that takes the datagram ends. -/
def Ending (remote : Endpoint) (p : Pbuf) (t : TcpClientTable) : Prop :=
  t.takes remote → p.totLen ≤ 255 ∨ tcpRecevBuffSize < p.totLen

/-- A slot when the callback has passed it. -/
def TcpClientTable.passed (remote : Endpoint) (p : Pbuf) (junk : U8) (t : TcpClientTable) :
    TcpClientTable :=
  if t.takes remote then
    t.receive p (if p.totLen ≤ tcpRecevBuffSize then BitVec.ofNat 8 p.totLen else junk)
  else t

/-- The offsets read for a slot. -/
def readsFor (remote : Endpoint) (p : Pbuf) (slots : Fin 4 → TcpClientTable) (i : Fin 4) :
    List (Fin 4 × ℕ) :=
  if (slots i).takes remote ∧ p.totLen ≤ tcpRecevBuffSize then (List.range p.totLen).map (i, ·)
  else []

/-- The callback has passed the first `k` slots. -/
structure Passed (remote : Endpoint) (p : Pbuf) (junk : U8) (slots : Fin 4 → TcpClientTable)
    (k : ℕ) (c : Callback) : Prop where
  pc : c.pc = .slot k
  m : tcpRecevBuffSize < p.totLen → c.m = junk
  done : ∀ j : Fin 4, (j : ℕ) < k → c.slots j = (slots j).passed remote p junk
  todo : ∀ j : Fin 4, k ≤ (j : ℕ) → c.slots j = slots j
  reads : c.reads = ((List.finRange 4).take k).flatMap (readsFor remote p slots)

variable {junk : U8} {slots : Fin 4 → TcpClientTable}

theorem passed_start : Passed remote p junk slots 0 (.start junk slots) :=
  ⟨rfl, fun _ => rfl, fun _ h => absurd h (by omega), fun _ _ => rfl, rfl⟩

theorem take_finRange_succ (i : Fin 4) :
    (List.finRange 4).take (i + 1) = (List.finRange 4).take i ++ [i] := by
  revert i
  decide

/-- A slot changed to what the callback makes of it. -/
theorem Passed.next {c c' : Callback} {i : Fin 4} (h : Passed remote p junk slots i c)
    (hpc : c'.pc = .slot (i + 1)) (hm : tcpRecevBuffSize < p.totLen → c'.m = c.m)
    (hs : c'.slots = Function.update c.slots i ((slots i).passed remote p junk))
    (hr : c'.reads = c.reads ++ readsFor remote p slots i) :
    Passed remote p junk slots (i + 1) c' := by
  refine ⟨hpc, fun hl => (hm hl).trans (h.m hl), fun j hj => ?_, fun j hj => ?_, ?_⟩
  · by_cases hji : j = i
    · rw [hs, hji, Function.update_self]
    · rw [hs, Function.update_of_ne hji]
      exact h.done j (by omega)
  · have hji : j ≠ i := by rintro rfl; omega
    rw [hs, Function.update_of_ne hji]
    exact h.todo j (by omega)
  · rw [hr, h.reads, take_finRange_succ, List.flatMap_append, List.flatMap_singleton]

theorem Passed.step {c : Callback} {i : Fin 4} (h : Passed remote p junk slots i c)
    (he : Ending remote p (slots i)) :
    ∃ c', StateTransition.Reaches (callbackStep remote p) c c' ∧
      Passed remote p junk slots (i + 1) c' := by
  have hi : c.slots i = slots i := h.todo i le_rfl
  by_cases ht : (slots i).takes remote
  · have hpass : (slots i).passed remote p junk = (slots i).receive p
        (if p.totLen ≤ tcpRecevBuffSize then BitVec.ofNat 8 p.totLen else junk) := if_pos ht
    by_cases hl : p.totLen ≤ tcpRecevBuffSize
    · have h255 : p.totLen ≤ 255 := (he ht).resolve_right (by omega)
      have hin : callbackStep remote p c = some (c.copied i p 0) := by
        simp only [callbackStep, h.pc, i.isLt, Fin.eta, hi, if_pos ht, if_pos hl, dif_pos]
        simp [Callback.copied, Callback.setSlot, Mem.bytes, Mem.putList]
      have hout : callbackStep remote p (c.copied i p p.totLen) =
          some ((c.copied i p p.totLen).accept i) := by
        have hm : (BitVec.ofNat 8 p.totLen).toNat = p.totLen := by
          rw [BitVec.toNat_ofNat, Nat.mod_eq_of_lt (by omega)]
        simp only [callbackStep, Callback.copied, hm, lt_irrefl, if_false]
      have hloop : StateTransition.Reaches (callbackStep remote p) c (c.copied i p p.totLen) :=
        .head (Option.mem_def.2 hin) (copied_reaches le_rfl h255)
      refine ⟨_, hloop.tail hout, h.next rfl ?_ ?_ ?_⟩
      · exact fun hgt => absurd hl (by omega)
      · rw [hpass, ← hi]
        simp [Callback.accept, Callback.setSlot, Callback.copied, TcpClientTable.receive, hl]
      · rw [readsFor, if_pos ⟨ht, hl⟩]
        rfl
    · have hstep : callbackStep remote p c = some (c.accept i) := by
        simp only [callbackStep, h.pc, i.isLt, Fin.eta, hi, if_pos ht, if_neg hl, dif_pos]
      refine ⟨_, .single hstep, h.next rfl (fun _ => rfl) ?_ ?_⟩
      · rw [hpass, if_neg hl, ← hi, ← h.m (by omega)]
        simp [Callback.accept, Callback.setSlot, TcpClientTable.receive, hl]
      · rw [readsFor, if_neg fun hc => hl hc.2, List.append_nil]
        rfl
  · have hstep : callbackStep remote p c = some { c with pc := .slot (i + 1) } := by
      simp only [callbackStep, h.pc, i.isLt, Fin.eta, hi, if_neg ht, dif_pos]
    refine ⟨_, .single hstep, h.next rfl (fun _ => rfl) ?_ ?_⟩
    · rw [TcpClientTable.passed, if_neg ht, ← hi, Function.update_eq_self]
    · rw [readsFor, if_neg fun hc => ht hc.1, List.append_nil]

/-- The callback comes to slot `k` if all loops before it end. -/
theorem passed_reaches (junk : U8) {k : ℕ} (hk : k ≤ 4)
    (he : ∀ i : Fin 4, (i : ℕ) < k → Ending remote p (slots i)) :
    ∃ c, StateTransition.Reaches (callbackStep remote p) (.start junk slots) c ∧
      Passed remote p junk slots k c := by
  induction k with
  | zero => exact ⟨_, .refl, passed_start⟩
  | succ k ih =>
    obtain ⟨c, hr, hc⟩ := ih (by omega) fun i hi => he i (by omega)
    obtain ⟨c', hr', hc'⟩ := Passed.step (i := ⟨k, hk⟩) hc (he ⟨k, hk⟩ (Nat.lt_succ_self k))
    exact ⟨c', hr.trans hr', hc'⟩

/-- **The callback returns** if all its loops end. -/
theorem callback_returns (junk : U8) (he : ∀ i, Ending remote p (slots i)) :
    ∃ c ∈ callback remote p junk slots, Passed remote p junk slots 4 c := by
  obtain ⟨c, hr, hc⟩ := passed_reaches junk le_rfl fun i _ => he i
  refine ⟨c, mem_eval.2 ⟨hr, ?_⟩, hc⟩
  simp only [callbackStep, hc.pc]
  rfl

/-- **The callback hangs** in the first loop that does not end. -/
theorem callback_hangs (junk : U8) (he : ∃ i, ¬ Ending remote p (slots i)) :
    ∀ c, c ∉ callback remote p junk slots := by
  intro c hc
  obtain ⟨i, hi, hmin⟩ : ∃ i, ¬ Ending remote p (slots i) ∧
      ∀ j : Fin 4, (j : ℕ) < i → Ending remote p (slots j) := by
    obtain ⟨i, hi, hmin⟩ := WellFounded.has_min (wellFounded_lt (α := Fin 4))
      {i | ¬ Ending remote p (slots i)} he
    exact ⟨i, hi, fun j hj => by_contra fun hc => hmin j hc hj⟩
  simp only [Ending, Classical.not_imp, not_or, not_le, not_lt] at hi
  obtain ⟨ht, h255, hl⟩ := hi
  obtain ⟨c₁, hr, hc₁⟩ := passed_reaches junk i.isLt.le hmin
  have hin : callbackStep remote p c₁ = some { c₁ with pc := .copy i, m := 0 } := by
    simp only [callbackStep, hc₁.pc, i.isLt, Fin.eta, hc₁.todo i le_rfl, if_pos ht, if_pos hl,
      dif_pos]
  have hc' : c ∈ eval (callbackStep remote p) { c₁ with pc := .copy i, m := 0 } := by
    rw [← reaches_eval (hr.tail hin)]
    exact hc
  obtain ⟨hr', hnone⟩ := mem_eval.1 hc'
  have hpc : c.pc = .copy i := copy_endless h255 rfl hr'
  have hm := c.m.isLt
  simp only [callbackStep, hpc, if_pos (show c.m.toNat < p.totLen by omega)] at hnone
  cases hnone

/-- The loops of a call that returned ended. -/
theorem ending_of_mem {c : Callback} (hc : c ∈ callback remote p junk slots) :
    (∀ i, Ending remote p (slots i)) ∧ Passed remote p junk slots 4 c := by
  have he : ∀ i, Ending remote p (slots i) := by
    intro i
    by_contra hi
    exact callback_hangs _ ⟨i, hi⟩ c hc
  obtain ⟨c', hc', hp⟩ := callback_returns junk he
  rw [Part.mem_unique hc hc']
  exact ⟨he, hp⟩

end

/-! ## The callback of the firmware -/

section
variable {F : Type} {remote : Endpoint} {p : Pbuf} {junk : U8}

/-- The callback with all loops ending, on a part of the slots. -/
theorem receiveSlot_fold (junk : U8) : ∀ {l : List (Fin 4)} {m : U8} {s : Sys F}, l.Nodup → s.pc ≠ .hang →
    (tcpRecevBuffSize < p.totLen → m = junk) →
    (∀ i ∈ l, Ending remote p (s.tcpClientList i)) →
    (l.foldl (receiveSlot remote p) (m, s)).2 =
      { s with tcpClientList := fun i =>
          if i ∈ l then (s.tcpClientList i).passed remote p junk else s.tcpClientList i }
  | [], _, _, _, _, _, _ => by simp
  | i :: l, m, s, hn, hp, hm, he => by
    obtain ⟨hi, hn⟩ := List.nodup_cons.1 hn
    have hstep : ∃ m', receiveSlot remote p (m, s) i =
        (m', s.setSlot i (TcpClientTable.passed remote p junk)) ∧
        (tcpRecevBuffSize < p.totLen → m' = junk) := by
      simp only [receiveSlot, if_neg hp]
      by_cases ht : (s.tcpClientList i).takes remote
      · have hend := he i (List.mem_cons_self ..) ht
        rw [if_pos (show _ ∧ _ from ht), if_neg (by omega)]
        refine ⟨_, Prod.ext rfl ?_, fun hl => ?_⟩
        · simp only [Sys.setSlot, TcpClientTable.passed, if_pos ht]
          by_cases hl : p.totLen ≤ tcpRecevBuffSize
          · simp only [if_pos hl]
          · simp only [if_neg hl, hm (by omega)]
        · rw [if_neg (by omega), hm hl]
      · rw [if_neg (show ¬ (_ ∧ _) from ht)]
        refine ⟨m, Prod.ext rfl ?_, hm⟩
        simp only [Sys.setSlot, TcpClientTable.passed, if_neg ht, Function.update_eq_self]
    obtain ⟨m', hr, hm'⟩ := hstep
    have hrest : ∀ j ∈ l, (s.setSlot i (TcpClientTable.passed remote p junk)).tcpClientList j =
        s.tcpClientList j := fun j hj => Sys.setSlot_ne s _ fun hji => hi (hji ▸ hj)
    have hfold := receiveSlot_fold junk (s := s.setSlot i (TcpClientTable.passed remote p junk)) hn hp hm'
      fun j hj => by
        rw [hrest j hj]
        exact he j (List.mem_cons_of_mem _ hj)
    rw [List.foldl_cons, hr, hfold]
    simp only [Sys.setSlot, Sys.mk.injEq, true_and, and_true]
    funext j
    by_cases hji : j = i
    · subst hji
      simp [hi]
    · simp [hji]

/-- The firmware hangs in a loop that does not end. -/
theorem receiveSlot_fold_hang {l : List (Fin 4)} {m : U8} {s : Sys F} (hn : l.Nodup)
    (hp : s.pc ≠ .hang) (he : ∃ i ∈ l, ¬ Ending remote p (s.tcpClientList i)) :
    (l.foldl (receiveSlot remote p) (m, s)).2.pc = .hang := by
  have hstay : ∀ (l : List (Fin 4)) (r : U8 × Sys F), r.2.pc = .hang →
      (l.foldl (receiveSlot remote p) r).2.pc = .hang := by
    intro l
    induction l with
    | nil => exact fun r h => h
    | cons i l ih =>
      intro r h
      refine ih _ ?_
      simp only [receiveSlot, if_pos h]
      exact h
  induction l generalizing m s with
  | nil => obtain ⟨i, hi, -⟩ := he; cases hi
  | cons i l ih =>
    obtain ⟨hi, hn⟩ := List.nodup_cons.1 hn
    rw [List.foldl_cons]
    by_cases hend : Ending remote p (s.tcpClientList i)
    · have hone := receiveSlot_fold m (m := m) (List.nodup_singleton i) hp (fun _ => rfl)
        (by simpa using hend)
      obtain ⟨j, hj, hje⟩ := he
      have hji : j ≠ i := by rintro rfl; exact hje hend
      have hjl : j ∈ l := by simpa [hji] using hj
      obtain ⟨r, hr⟩ : ∃ r, r = receiveSlot remote p (m, s) i := ⟨_, rfl⟩
      obtain ⟨m', s'⟩ := r
      have hs' : s' = (List.foldl (receiveSlot remote p) (m, s) [i]).2 := congrArg Prod.snd hr
      rw [← hr]
      refine ih hn (by rw [hs', hone]; exact hp) ⟨j, hjl, ?_⟩
      rw [hs', hone]
      simpa [hji] using hje
    · simp only [Ending, Classical.not_imp, not_or, not_le, not_lt] at hend
      refine hstay l _ ?_
      simp only [receiveSlot, if_neg hp, if_pos (show _ ∧ _ from hend.1), if_pos (show _ ∧ _ from hend.2)]

/-- **The statements run as `udpReceiveCallback` says**: it hangs just when they
    do not return, and otherwise leaves the slots as they do. -/
theorem callback_refines (s : Sys F) (hp : s.pc ≠ .hang) :
    ((udpReceiveCallback remote p junk s).pc = .hang ↔
        ∀ c, c ∉ callback remote p junk s.tcpClientList) ∧
      ∀ c ∈ callback remote p junk s.tcpClientList,
        udpReceiveCallback remote p junk s = { s with tcpClientList := c.slots } := by
  have hn := List.nodup_finRange 4
  by_cases he : ∀ i, Ending remote p (s.tcpClientList i)
  · have hret := receiveSlot_fold junk hn hp (fun _ => rfl) (m := junk) fun i _ => he i
    obtain ⟨c, hc, hpass⟩ := callback_returns junk he
    constructor
    · refine iff_of_false ?_ fun h => h c hc
      rw [udpReceiveCallback, hret]
      exact hp
    · intro c' hc'
      obtain ⟨-, hpass'⟩ := ending_of_mem hc'
      rw [udpReceiveCallback, hret]
      simp only [List.mem_finRange, if_true, Sys.mk.injEq, true_and, and_true]
      funext i
      exact (hpass'.done i i.isLt).symm
  · simp only [not_forall] at he
    obtain ⟨i, hi⟩ := he
    have hhang := callback_hangs junk ⟨i, hi⟩
    constructor
    · exact iff_of_true (receiveSlot_fold_hang hn hp ⟨i, List.mem_finRange i, hi⟩) hhang
    · exact fun c hc => absurd hc (hhang c)

end

/-! ## The length at which the loop ends -/

section
variable {remote : Endpoint} {p : Pbuf} {junk : U8} {slots : Fin 4 → TcpClientTable}

/-- The turns of the copying loop for a slot. -/
def Callback.turns (c : Callback) (i : Fin 4) : ℕ := c.reads.countP fun r => r.1 = i

theorem countP_readsFor (i j : Fin 4) : (readsFor remote p slots j).countP (fun r => r.1 = i) =
    if j = i then (readsFor remote p slots i).length else 0 := by
  by_cases hji : j = i
  · subst hji
    rw [if_pos rfl, List.countP_eq_length]
    intro r hr
    rw [readsFor] at hr
    split_ifs at hr
    · obtain ⟨n, -, rfl⟩ := List.mem_map.1 hr
      simp
    · cases hr
  · rw [if_neg hji, List.countP_eq_zero]
    intro r hr
    rw [readsFor] at hr
    split_ifs at hr
    · obtain ⟨n, -, rfl⟩ := List.mem_map.1 hr
      simpa using hji
    · cases hr

theorem Passed.turns {c : Callback} (h : Passed remote p junk slots 4 c) (i : Fin 4) :
    c.turns i = (readsFor remote p slots i).length := by
  have hall : (List.finRange 4).take 4 = [0, 1, 2, 3] := by decide
  rw [Callback.turns, h.reads, hall]
  simp only [List.flatMap_cons, List.flatMap_nil, List.countP_append, List.countP_nil,
    countP_readsFor]
  fin_cases i <;> simp

/-- **The copying loop ends** after as many turns as the datagram has bytes, and
    the callback returns, if and only if the counter can reach the length or no
    slot takes the datagram. -/
theorem copy_ends_iff (remote : Endpoint) (p : Pbuf) (junk : U8) (slots : Fin 4 → TcpClientTable) :
    (∃ c ∈ callback remote p junk slots,
        ∀ i, (slots i).takes remote → c.turns i = p.totLen) ↔
      p.totLen ≤ 255 ∨ ∀ i, ¬ (slots i).takes remote := by
  constructor
  · rintro ⟨c, hc, hturns⟩
    obtain ⟨he, hp⟩ := ending_of_mem hc
    by_cases ht : ∃ i, (slots i).takes remote
    · obtain ⟨i, hi⟩ := ht
      rcases he i hi with h255 | hlong
      · exact .inl h255
      · -- a datagram that is too long is not copied at all
        have hzero := hturns i hi
        rw [hp.turns, readsFor, if_neg (by omega), List.length_nil] at hzero
        omega
    · exact .inr fun i hi => ht ⟨i, hi⟩
  · intro h
    have he : ∀ i, Ending remote p (slots i) := by
      intro i hi
      rcases h with h255 | hno
      · exact .inl h255
      · exact absurd hi (hno i)
    obtain ⟨c, hc, hp⟩ := callback_returns junk he
    refine ⟨c, hc, fun i hi => ?_⟩
    have h255 : p.totLen ≤ 255 := h.resolve_right fun hno => hno i hi
    rw [hp.turns, readsFor, if_pos ⟨hi, show p.totLen ≤ 1500 by omega⟩]
    simp

/-- A datagram of `n` zero bytes in one segment. -/
def blank (n : ℕ) : Pbuf := ⟨List.replicate n 0, [], fun _ => 0⟩

theorem blank_totLen (n : ℕ) : (blank n).totLen = n := by
  rw [Pbuf.totLen, blank, List.length_replicate]
  rfl

/-- The peer of slot 0. -/
def wcs : Endpoint := (getIpParaProcess 0 TcpClientTable.init).dest

/-- The slots when all of them are connected. -/
def connected (i : Fin 4) : TcpClientTable :=
  { getIpParaProcess i TcpClientTable.init with connectIsOk := true, tcpClientStatue := .connectOk }

theorem connected_takes : (connected 0).takes wcs := by decide

/-- A datagram of 256 bytes for slot 0 is copied for ever. -/
theorem copy_endless_256 :
    ¬ ∀ (remote : Endpoint) (p : Pbuf) (junk : U8) (slots : Fin 4 → TcpClientTable),
      p.totLen ≤ tcpRecevBuffSize → ∃ c ∈ callback remote p junk slots,
        ∀ i, (slots i).takes remote → c.turns i = p.totLen := by
  intro h
  obtain ⟨c, hc, -⟩ := h wcs (blank 256) 0 connected (by rw [blank_totLen]; decide)
  refine callback_hangs _ ⟨0, fun he => ?_⟩ c hc
  have hlen := he connected_takes
  rw [blank_totLen] at hlen
  revert hlen
  decide

/-! ## Datagrams that are too long -/

/-- The datagram leaves no trace in the slots, whatever `m` held. -/
def Ignored (remote : Endpoint) (p : Pbuf) (slots : Fin 4 → TcpClientTable) : Prop :=
  ∀ junk, ∃ c ∈ callback remote p junk slots, ∀ i,
    (c.slots i).tcpClientStatue = (slots i).tcpClientStatue ∧
      (c.slots i).tcpRecevLen = (slots i).tcpRecevLen ∧
      (c.slots i).tcpRecevBuf = (slots i).tcpRecevBuf

/-- **A datagram that is too long is ignored** if and only if no slot takes it. -/
theorem overlong_ignored_iff (slots : Fin 4 → TcpClientTable) (remote : Endpoint) (p : Pbuf)
    (hl : tcpRecevBuffSize < p.totLen) :
    Ignored remote p slots ↔ ∀ i, ¬ (slots i).takes remote := by
  have he : ∀ i, Ending remote p (slots i) := fun _ _ => .inr hl
  constructor
  · intro h i hi
    obtain ⟨c, hc, hsame⟩ := h 0
    obtain ⟨-, hp⟩ := ending_of_mem hc
    -- the slot is marked as holding a message
    have hs := (hsame i).1
    rw [hp.done i i.isLt, TcpClientTable.passed, if_pos hi, hi.2] at hs
    cases hs
  · intro h junk
    obtain ⟨c, hc, hp⟩ := callback_returns junk he
    refine ⟨c, hc, fun i => ?_⟩
    rw [hp.done i i.isLt, TcpClientTable.passed, if_neg (h i)]
    exact ⟨rfl, rfl, rfl⟩

/-- A slot that still holds a message does not change. -/
theorem overlong_ignored_busy : Ignored wcs (blank 1501)
    (fun i => { connected i with tcpClientStatue := .connectRecv }) :=
  (overlong_ignored_iff _ wcs (blank 1501) (by rw [blank_totLen]; decide)).2
    fun _ h => Statue.noConfusion h.2

/-- A connected slot is marked as holding a message, of a length nobody set. -/
theorem overlong_taken :
    ¬ ∀ (slots : Fin 4 → TcpClientTable) (remote : Endpoint) (p : Pbuf),
      (∃ i, (slots i).matches remote = true ∧ (slots i).tcpClientStatue = .connectOk) →
      tcpRecevBuffSize < p.totLen → Ignored remote p slots := by
  intro h
  have hlen : tcpRecevBuffSize < (blank 1501).totLen := by rw [blank_totLen]; decide
  obtain ⟨c, hc, hsame⟩ := h connected wcs _ ⟨0, connected_takes⟩ hlen 11
  obtain ⟨-, hp⟩ := ending_of_mem hc
  have hs := (hsame 0).2.1
  rw [hp.done 0 (by decide), TcpClientTable.passed, if_pos connected_takes,
    if_neg (not_le.2 hlen)] at hs
  revert hs
  decide

/-- The slot's handler is then called on what its buffer held before. -/
theorem overlong_handled {F D : Type} [CNum F] [CNum D] [CFloat F D] {s : Sys F} {i : Fin 4}
    (hp : s.pc ≠ .hang) (hr : s.pc ≠ .reset) (hl : tcpRecevBuffSize < p.totLen)
    (ht : (s.tcpClientList i).takes remote) :
    ∃ l, (clientRecv i (udpReceiveCallback remote p junk s)).log =
      s.log ++ .handle i ((s.tcpClientList i).tcpRecevBuf.bytes
        (((s.tcpClientList i).tcpRecevLen + junk.toNat) % 2 ^ 16)) :: l := by
  have hn := List.nodup_finRange 4
  have he : ∀ j ∈ List.finRange 4, Ending remote p (s.tcpClientList j) := fun _ _ _ => .inr hl
  have hcb := receiveSlot_fold junk hn hp (fun _ => rfl) he (m := junk)
  obtain ⟨s', hs'⟩ : ∃ s', s' = udpReceiveCallback remote p junk s := ⟨_, rfl⟩
  have hlog : s'.log = s.log := by rw [hs', udpReceiveCallback, hcb]
  have hslot : s'.tcpClientList i = (s.tcpClientList i).receive p junk := by
    rw [hs', udpReceiveCallback, hcb]
    simp only [List.mem_finRange, if_true, TcpClientTable.passed, if_pos ht, if_neg (not_le.2 hl)]
  have hbuf : ((s.tcpClientList i).receive p junk).tcpRecevBuf = (s.tcpClientList i).tcpRecevBuf :=
    if_neg (not_le.2 hl)
  have hpc : s'.pc = s.pc := by rw [hs', udpReceiveCallback, hcb]
  rw [← hs']
  rcases clientRecv_cases i (s := s') (by rw [hpc]; exact hr) with ⟨hn, -⟩ | ⟨-, -, e⟩ |
    ⟨-, -, s'', hs'', e⟩
  · rw [hslot] at hn
    exact absurd rfl hn
  · refine ⟨[.boot i ((s.tcpClientList i).tcpRecevBuf.bytes
      (((s.tcpClientList i).tcpRecevLen + junk.toNat) % 2 ^ 16))], ?_⟩
    rw [e, bootReset, Sys.note_log, Sys.note_log, hlog, hslot, hbuf, List.append_assoc]
    rfl
  · obtain ⟨d, q, n, rfl, -⟩ := hs''
    refine ⟨[], ?_⟩
    rw [e, Sys.setSlot_log, Sys.note_log, hlog, hslot, hbuf]
    rfl

/-! ## Chains of pbufs -/

/-- A chain of pbufs: the payload of its first segment, those of the others and
    what lies in memory behind the first. -/
structure Chain where
  first : List U8
  others : List (List U8)
  beyond : Mem

/-- The chain as the callback sees it. -/
def Chain.pbuf (ch : Chain) : Pbuf := ⟨ch.first, ch.others.flatten, ch.beyond⟩

/-- The bytes of the datagram. -/
def Chain.data (ch : Chain) : List U8 := ch.first ++ ch.others.flatten

theorem Chain.length_data (ch : Chain) : ch.data.length = ch.pbuf.totLen := List.length_append

/-- The slot holds the datagram, and only bytes of the first segment were read
    through its payload pointer. -/
def Received (ch : Chain) (i : Fin 4) (c : Callback) : Prop :=
  (c.slots i).tcpRecevBuf.bytes ch.pbuf.totLen = ch.data ∧ ∀ r ∈ c.reads, r.2 < ch.first.length

/-- What the slot holds: as many bytes as the datagram has, from the first
    payload on. -/
theorem received_bytes {c : Callback} {i : Fin 4} (hc : c ∈ callback remote p junk slots)
    (ht : (slots i).takes remote) (h0 : (slots i).tcpRecevLen = 0)
    (hl : p.totLen ≤ tcpRecevBuffSize) :
    (c.slots i).tcpRecevBuf.bytes p.totLen = p.read.bytes p.totLen := by
  obtain ⟨-, hp⟩ := ending_of_mem hc
  have hb := Mem.bytes_putList (p.read.bytes p.totLen) (slots i).tcpRecevBuf
  rw [Mem.length_bytes] at hb
  rw [hp.done i i.isLt, TcpClientTable.passed, if_pos ht]
  simpa only [TcpClientTable.receive, if_pos hl, h0] using hb

theorem read_first {m : ℕ} (h : m < p.payload.length) : p.read m = p.payload[m] := dif_pos h

/-- **A chain of at most 255 bytes is received as it is** if and only if all its
    bytes are in the first segment. -/
theorem received_iff (slots : Fin 4 → TcpClientTable) (remote : Endpoint) (ch : Chain) (junk : U8)
    (i : Fin 4) (ht : (slots i).takes remote) (h0 : (slots i).tcpRecevLen = 0)
    (hl : ch.pbuf.totLen ≤ 255) :
    (∃ c ∈ callback remote ch.pbuf junk slots, Received ch i c) ↔ ∀ seg ∈ ch.others, seg = [] := by
  have hl' : ch.pbuf.totLen ≤ tcpRecevBuffSize := show _ ≤ 1500 by omega
  rw [← List.flatten_eq_nil_iff]
  constructor
  · rintro ⟨c, hc, -, hreads⟩
    obtain ⟨-, hp⟩ := ending_of_mem hc
    by_contra hne
    have hpos : 0 < ch.others.flatten.length := List.length_pos_iff.2 hne
    have hlen : ch.pbuf.totLen = ch.first.length + ch.others.flatten.length := rfl
    -- the first byte behind the first segment is read
    have hmem : (i, ch.first.length) ∈ c.reads := by
      rw [hp.reads, List.take_of_length_le (by simp), List.mem_flatMap]
      refine ⟨i, List.mem_finRange i, ?_⟩
      rw [readsFor, if_pos ⟨ht, hl'⟩]
      exact List.mem_map.2 ⟨_, List.mem_range.2 (by omega), rfl⟩
    exact absurd (hreads _ hmem) (lt_irrefl _)
  · intro hnil
    have he : ∀ j, Ending remote ch.pbuf (slots j) := fun _ _ => .inl hl
    obtain ⟨c, hc, hp⟩ := callback_returns junk he
    have hlen : ch.pbuf.totLen = ch.first.length := by
      rw [← ch.length_data, Chain.data, hnil, List.append_nil]
    refine ⟨c, hc, ?_, fun r hr => ?_⟩
    · rw [received_bytes hc ht h0 hl', Chain.data, hnil, List.append_nil, hlen]
      refine List.ext_getElem (by simp) fun m _ hm => ?_
      rw [Mem.getElem_bytes]
      exact read_first hm
    · rw [hp.reads, List.mem_flatMap] at hr
      obtain ⟨j, -, hr⟩ := hr
      rw [readsFor] at hr
      split_ifs at hr
      · obtain ⟨n, hn, rfl⟩ := List.mem_map.1 hr
        rw [← hlen]
        exact List.mem_range.1 hn
      · cases hr

/-- A datagram in one segment, with an empty one behind it. -/
theorem received_single : ∃ c ∈ callback wcs (Chain.pbuf ⟨[1, 2], [[]], fun _ => 0⟩) 0 connected,
    Received ⟨[1, 2], [[]], fun _ => 0⟩ 0 c :=
  (received_iff connected wcs ⟨[1, 2], [[]], fun _ => 0⟩ 0 0 connected_takes rfl (by decide)).2
    (by decide)

/-- The byte of a second segment is not received. -/
theorem second_segment_lost :
    ¬ ∀ (slots : Fin 4 → TcpClientTable) (remote : Endpoint) (ch : Chain) (junk : U8) (i : Fin 4),
      (slots i).takes remote → (slots i).tcpRecevLen = 0 → ch.pbuf.totLen ≤ 255 →
      ∃ c ∈ callback remote ch.pbuf junk slots, Received ch i c := by
  intro h
  obtain ⟨c, hc, hb, -⟩ := h connected wcs ⟨[1], [[2]], fun _ => 0⟩ 0 0 connected_takes rfl
    (by decide)
  rw [received_bytes hc connected_takes rfl (by decide)] at hb
  revert hb
  decide

end

end GndCtrl
