/-
  Boot commands.

  A boot command writes the backup register and resets.  `BootSafe` says that
  every message that did so was a whole boot frame with the right checksum.
  The handlers of the car slots do not test the checksum, and none of the four
  tests that the message is long enough to have a type of its own:
  `boot_safe_iff` shows that just these two tests are missing.
-/
import GndCtrl.Delivery

namespace GndCtrl

open CNum CFloat

variable {F : Type}

/-- A boot command as it has to be. -/
structure BootFrame (data : List U8) : Prop where
  length : 11 ≤ data.length
  head : data.getD 0 0 = 0xAA ∧ data.getD 1 0 = 0xAA
  len : (le16 (data.getD 6 0) (data.getD 7 0)).toNat = data.length
  sum : data.getD 8 0 = (data.drop 9).foldl (· ^^^ ·) 0
  type : le16 (data.getD 9 0) (data.getD 10 0) = recvMsgBootCmdType

/-- Every boot action was commanded by a boot frame. -/
def BootSafe (s : Sys F) : Prop := ∀ i data, Obs.boot i data ∈ s.log → BootFrame data

/-- The tests that are missing: before a handler takes a message for a boot
    command, the length of any message and the checksum on a car slot. -/
def BootOk (s : Sys F) : Input → Prop
  | .irq _ => True
  | .main _ => ∀ i, s.pc = .client i →
      let c := s.tcpClientList i
      c.tcpClientStatue = .connectRecv → BootTaken i c.tcpRecevBuf c.tcpRecevLen →
        11 ≤ c.tcpRecevLen ∧
          (i ≠ 0 → sumLoop c.tcpRecevBuf (c.tcpRecevLen - 10) = c.tcpRecevBuf 8)

/-! ## Messages that are taken -/

theorem getD_bytes (point : Mem) {len i : ℕ} (h : i < len) : (point.bytes len).getD i 0 = point i := by
  rw [List.getD_eq_getElem _ _ (by simpa using h)]
  exact Mem.getElem_bytes ..

/-- The loop of the checksum goes over the bytes behind the checksum. -/
theorem sumLoop_bytes (point : Mem) {len : ℕ} (h : 11 ≤ len) :
    sumLoop point (len - 10) = ((point.bytes len).drop 9).foldl (· ^^^ ·) 0 := by
  rw [sumLoop_eq]
  congr 1
  refine List.ext_getElem (by simp; omega) fun k h1 h2 => ?_
  rw [List.getElem_drop, Mem.getElem_bytes]
  simp

/-- A message taken for a boot command is one just when the missing tests
    succeed. -/
theorem BootTaken.frame_iff {i : Fin 4} {point : Mem} {len : ℕ} (h : BootTaken i point len) :
    BootFrame (point.bytes len) ↔
      11 ≤ len ∧ (i ≠ 0 → sumLoop point (len - 10) = point 8) := by
  obtain ⟨h0, h1, hl⟩ := headCheck_iff.1 h.head
  constructor
  · intro hf
    have hlen : 11 ≤ len := by simpa using hf.length
    refine ⟨hlen, fun _ => ?_⟩
    rw [sumLoop_bytes point hlen, ← hf.sum, getD_bytes point (by omega)]
  · rintro ⟨hlen, hs⟩
    have hsum : sumLoop point (len - 10) = point 8 := by
      by_cases hi : i = 0
      · exact h.sum hi
      · exact hs hi
    refine ⟨by simpa using hlen, ⟨?_, ?_⟩, ?_, ?_, ?_⟩
    · rw [getD_bytes point (by omega), h0]
    · rw [getD_bytes point (by omega), h1]
    · rw [getD_bytes point (by omega), getD_bytes point (by omega), Mem.length_bytes]
      exact hl
    · rw [getD_bytes point (by omega), ← sumLoop_bytes point hlen, hsum]
    · rw [getD_bytes point (by omega), getD_bytes point (by omega)]
      exact h.type

/-! ## Steps without a boot -/

/-- Not a boot action. -/
def Obs.Harmless : Obs → Prop
  | .boot .. => False
  | _ => True

theorem bootSafe_logged {s s' : Sys F} (h : Logged Obs.Harmless s s') :
    BootSafe s' ↔ BootSafe s := by
  obtain ⟨l, hl, hQ⟩ := h
  constructor
  · intro h' i data hm
    exact h' i data (by rw [hl]; exact List.mem_append_left _ hm)
  · intro h' i data hm
    rw [hl] at hm
    rcases List.mem_append.1 hm with hm | hm
    · exact h' i data hm
    · exact absurd (hQ _ hm) id

theorem bootSafe_goto (s : Sys F) (pc : Pc) : BootSafe (s.goto pc) ↔ BootSafe s :=
  bootSafe_logged (.of_eq (goto_log s pc))

theorem CarSent.harmless {i : Fin 4} {s s' : Sys F} (h : CarSent i s s') :
    Logged Obs.Harmless s s' := by
  rcases h with ⟨-, rfl⟩ | ⟨-, c, rfl | ⟨t, r, rfl⟩⟩
  · exact .of_eq rfl
  · exact .of_eq rfl
  · exact .snoc (commit_log i t r _) trivial

theorem harmless_sendMessage (t : U16) (s : Sys F) : Logged Obs.Harmless s (sendMessage t s) := by
  rcases sendMessage_cases t s with ⟨e, -⟩ | ⟨t', r, s', e, -, hb, -⟩ <;> rw [e]
  · exact .of_eq rfl
  · refine Logged.trans ?_ (.snoc (commit_log 0 t' r s') trivial)
    rcases hb.log with hl | ⟨record, hl⟩
    · exact .of_eq hl
    · exact .snoc hl trivial

theorem harmless_sendMessageToSever (s : Sys F) :
    Logged Obs.Harmless s (sendMessageToSever s) := by
  rw [sendMessageToSever_eq]
  split_ifs
  · exact .of_eq rfl
  · exact Logged.trans (.of_eq (popped_log s)) (harmless_sendMessage _ _)

theorem harmless_clientSend (net : Net) (i : Fin 4) (s : Sys F) :
    Logged Obs.Harmless s (clientSend net i s) := by
  rcases clientSend_cases net i s with ⟨-, e⟩ | ⟨-, -, e⟩ | ⟨-, -, -, m, s', hs, e, -⟩ |
    ⟨-, -, -, e⟩ <;> rw [e]
  · exact .of_eq rfl
  · exact .of_eq rfl
  · refine Logged.trans (?_ : Logged Obs.Harmless s s') (.of_eq rfl)
    rw [hs, udpSendProcess]
    split_ifs
    · exact .snoc rfl trivial
    · exact .of_eq rfl
  · exact .of_eq rfl

theorem log_udpInput (d : Datagram) (s : Sys F) : (udpInput d s).log = s.log := by
  obtain ⟨c, pc, h, -⟩ := udpInput_cases d s
  rw [h]

section
variable {D : Type} [CNum F] [CNum D] [CFloat F D]

/-- A slot's block boots with a boot frame just when the missing tests succeed. -/
theorem bootSafe_clientSlot (net : Net) {i : Fin 4} {s : Sys F} (h : BootSafe s)
    (hp : s.pc = .client i) :
    BootSafe (clientSlot net i s) ↔
      let c := s.tcpClientList i
      c.tcpClientStatue = .connectRecv → BootTaken i c.tcpRecevBuf c.tcpRecevLen →
        11 ≤ c.tcpRecevLen ∧
          (i ≠ 0 → sumLoop c.tcpRecevBuf (c.tcpRecevLen - 10) = c.tcpRecevBuf 8) := by
  have hpc : ¬ s.pc = .reset := by simp [hp]
  unfold clientSlot
  rcases clientRecv_cases i (s := s) hpc with ⟨hr, e⟩ | ⟨hr, hb, e⟩ | ⟨hr, hb, s', hs', e⟩ <;>
    simp only [e]
  · rw [if_neg hpc, bootSafe_logged (harmless_clientSend net i s)]
    exact iff_of_true h fun hc => absurd hc hr
  · rw [if_pos (by rfl)]
    simp only [hr, hb, forall_const, ← hb.frame_iff]
    constructor
    · exact fun h' => h' i _ (by simp [bootReset])
    · intro hf j data hm
      simp only [bootReset, Sys.note_log, List.mem_append, List.mem_singleton] at hm
      rcases hm with (hm | ⟨⟨⟩⟩) | hm
      · exact h j data hm
      · cases hm
        exact hf
  · have hlog : Logged Obs.Harmless s (s'.setSlot i fun c =>
        { c with tcpRecevLen := 0, tcpClientStatue := .connectOk }) := by
      obtain ⟨d, q, n, rfl, -⟩ := hs'
      exact .snoc (o := .handle i _) rfl trivial
    refine iff_of_true ?_ fun _ hc => absurd hc hb
    split_ifs
    · exact (bootSafe_logged hlog).2 h
    · exact (bootSafe_logged (hlog.trans (harmless_clientSend net i _))).2 h

theorem bootSafe_step (s : Sys F) (e : Input) (h : BootSafe s) :
    BootSafe (s.step e) ↔ BootOk s e := by
  cases e with
  | irq e =>
    refine iff_of_true ?_ trivial
    simp only [Sys.step]
    split_ifs
    · exact h
    · rcases irq_cases s e with ⟨_, tim2, junk, _, -, he⟩ | ⟨d, m, c, he, -⟩ <;> rw [he]
      · exact (bootSafe_logged (.snoc (o := .sensor _ _) rfl trivial)).2 h
      · exact (bootSafe_logged (.of_eq rfl)).2 h
  | main env =>
    change BootSafe (mainStep env s) ↔ BootOk s (.main env)
    by_cases hp : ∃ i, s.pc = .client i
    · obtain ⟨i, hp⟩ := hp
      simp only [mainStep, hp, bootSafe_goto, bootSafe_clientSlot env.toNet h hp, BootOk,
        Pc.client.injEq, forall_eq']
    · refine iff_of_true ?_ fun i hi => absurd ⟨i, hi⟩ hp
      have hlog : ∀ {s'}, Logged Obs.Harmless s s' → BootSafe s' := fun hl =>
        (bootSafe_logged hl).2 h
      refine mainStep_cases env (fun s' pc => (bootSafe_goto s' pc).2) h ?_ ?_ ?_ ?_ ?_ ?_ ?_
      · exact fun _ => hlog (.of_eq rfl)
      · exact fun d _ => hlog (.of_eq (log_udpInput d s))
      · exact fun i hi => absurd ⟨i, hi⟩ hp
      · exact fun _ => hlog (harmless_sendMessageToSever s)
      · intro _
        rw [funGnd2wcsStateMsg]
        split_ifs <;> exact hlog (.of_eq rfl)
      · exact fun i s' hc _ => hlog hc.harmless
      · intro _
        rw [secProcess]
        split_ifs <;> exact hlog (.of_eq rfl)

/-- **Boot safety.**  Every boot action of a run is commanded by a boot frame if
    and only if every message that is taken for a boot command has 11 bytes and,
    on a car slot, the right checksum.  A car slot's validator accepts only what
    `recv_msg_check` accepts just when the checksum is right. -/
theorem boot_safe_iff (ty : U8) (es : List Input) :
    (Always Sys.step BootSafe (Sys.init ty : Sys F) es ↔
      Along Sys.step BootOk (Sys.init ty : Sys F) es) ∧
    ∀ (check : Mem → ℕ → Bool),
      check ∈ [carrecvMsgCheck, cartworecvMsgCheck, carthreerecvMsgCheck] →
      ∀ point len, (check point len = true → recvMsgCheck point len = true) ↔
        (headCheck point len = true → sumLoop point (len - 10) = point 8) := by
  constructor
  · refine always_iff_along (I := fun _ => True) (fun _ _ _ => trivial)
      (fun s e _ => bootSafe_step s e) es trivial ?_
    intro i data hm
    simp [Sys.init] at hm
  · intro check hc point len
    have he : check point len = headCheck point len := by
      simp only [List.mem_cons, List.not_mem_nil, or_false] at hc
      rcases hc with rfl | rfl | rfl <;> rfl
    rw [he, recvMsgCheck_iff]
    exact ⟨fun h hh => (h hh).2, fun h hh => ⟨hh, h hh⟩⟩

end

/-- A boot command with a wrong checksum resets through slot 1. -/
theorem boot_unchecked :
    ¬ ∀ es : List Input, Always Sys.step BootSafe (Sys.init 0 : Sys Num) es := by
  intro h
  have hlast := (h (List.replicate 27 (.main (.up none)) ++
    [.main (.up (some ⟨endpoint 1,
      ⟨[0xAA, 0xAA, 1, 0, 0, 0, 11, 0, 0x00, 0x01, 0x1F], [], fun _ => 0⟩, 0⟩)),
     .main (.up none), .main (.up none)])).last
  have hf := hlast 1 [0xAA, 0xAA, 1, 0, 0, 0, 11, 0, 0x00, 0x01, 0x1F] (by decide +kernel)
  exact absurd hf.sum (by decide)

end GndCtrl
