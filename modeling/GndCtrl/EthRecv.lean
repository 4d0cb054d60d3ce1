/-
  Reception, whatever the order in which the DMA and the processor act: the
  frames that the DMA closes reach `netif->input` once each, in order and
  unaltered, until it closes a descriptor that does not hold a whole good frame.
  Nothing is passed on from there, since `main` polls only for good frames and
  so never gives that descriptor back.
-/
import GndCtrl.Eth

namespace GndCtrl

theorem Mem.bytes_take (m : Mem) {k n : ℕ} (h : k ≤ n) : (m.bytes n).take k = m.bytes k := by
  rw [Mem.bytes, Mem.bytes, ← List.map_take, List.take_range, Nat.min_eq_left h]

/-- Around a chain. -/
theorem nextDesc_eq {n : ℕ} [NeZero n] (i : Fin n) : nextDesc i = i + 1 := by
  apply Fin.ext
  unfold nextDesc
  split_ifs with h
  · rw [Fin.val_add_one_of_lt' h]
  · have hi := i.isLt
    have he : i.val + 1 = n := by omega
    have h1 : ((1 : Fin n) : ℕ) = 1 % n := rfl
    rw [Fin.val_add, h1, Nat.add_mod_mod, he, Nat.mod_self]
    rfl

/-- The test of `ETH_GetRxPktSize`: a whole frame without an error. -/
def RxStatus.good (st : RxStatus) : Bool := !st.es && st.ls && st.fs

/-- The frame without its CRC. -/
def RxFrame.payload (f : RxFrame) : List U8 := f.data.take (f.status.fl - 4)

/-- What `low_level_input` makes of a frame; it is null if no pbuf was left. -/
def RxPassed (p : Option (List U8)) (f : RxFrame) : Prop :=
  f.status.good = true ∧ (p = none ∨ p = some f.payload)

/-- The frame in a buffer. -/
def rxFrame (e : RxStatus × Mem) : RxFrame := ⟨e.1, e.2.bytes e.1.fl⟩

theorem rxFrame_payload (e : RxStatus × Mem) : (rxFrame e).payload = e.2.bytes (e.1.fl - 4) :=
  e.2.bytes_take (Nat.sub_le ..)

namespace RxPc
variable (get : Fin ethRxbufnb)

/-- The descriptor that is given back next; `get` is `DMARxDescToGet`. -/
def back : RxPc → Fin ethRxbufnb
  | .alloc frame => frame.descriptor.getD get
  | .copy frame _ => frame.descriptor.getD get
  | .giveBack frame _ => frame.descriptor.getD get
  | _ => get

/-- A result of `low_level_input` that is on its way. -/
def pending : RxPc → List (Option (List U8))
  | .resume p => [p]
  | .input p => [p]
  | _ => []

/-- `frame` is the oldest frame of the DMA, in the descriptor before `get`. -/
structure Held (frame : FrameTypeDef) (e : RxStatus × Mem) : Prop where
  good : e.1.good = true
  descriptor : frame.descriptor = some (get - 1)
  buffer : frame.buffer = some (get - 1)
  length : frame.length = BitVec.ofNat 32 e.1.fl - 4

/-- What the position of the processor says about the frames it still has. -/
def Ready (q : List (RxStatus × Mem)) : RxPc → Prop
  | .rxPkt => ∃ e q', q = e :: q' ∧ e.1.good = true
  | .alloc frame => ∃ e q', q = e :: q' ∧ Held get frame e
  | .copy frame p => ∃ e q', q = e :: q' ∧ Held get frame e ∧ p.length ≤ e.1.fl - 4 ∧
      p = e.2.bytes p.length
  | .giveBack frame p => ∃ e q', q = e :: q' ∧ Held get frame e ∧
      (p = none ∨ p = some (rxFrame e).payload)
  | .fault => False
  | _ => True

/-- The length of a held frame. -/
theorem Held.len {get : Fin ethRxbufnb} {frame : FrameTypeDef} {e : RxStatus × Mem}
    (h : Held get frame e) (hle : 64 ≤ e.1.fl) (hle' : e.1.fl ≤ ethMaxPacketSize) :
    frame.len = e.1.fl - 4 := by
  have h4 : (4 : U32).toNat = 4 := rfl
  have hfl : e.1.fl ≤ 1520 := hle'
  rw [FrameTypeDef.len, h.length, BitVec.toNat_setWidth, BitVec.toNat_sub, BitVec.toNat_ofNat, h4]
  omega

/-- The steps that the processor needs for the frames in `q`. -/
def cost (q : List (RxStatus × Mem)) : ℕ := (q.map fun e => e.1.fl - 4 + 7).sum

/-- The steps left until every frame in `q` has been passed on. -/
def work (q : List (RxStatus × Mem)) : RxPc → ℕ
  | .poll => cost q
  | .rxPkt => cost q - 1
  | .alloc _ => cost q - 2
  | .copy _ p => cost q - 3 - p.length
  | .giveBack _ _ => cost q.tail + 3
  | .resume _ => cost q + 2
  | .input _ => cost q + 1
  | .fault => 0

theorem cost_cons (e : RxStatus × Mem) (q : List (RxStatus × Mem)) :
    cost (e :: q) = e.1.fl - 4 + 7 + cost q := by
  rw [cost, List.map_cons, List.sum_cons, cost]

theorem cost_le {q : List (RxStatus × Mem)} (h : ∀ e ∈ q, e.1.fl ≤ ethMaxPacketSize) :
    cost q ≤ q.length * (ethMaxPacketSize + 3) := by
  induction q with
  | nil => exact Nat.zero_le _
  | cons e q ih =>
    have he : e.1.fl ≤ 1520 := h e (List.mem_cons_self ..)
    have hq := ih fun e' he' => h e' (List.mem_cons_of_mem e he')
    have hmax : ethMaxPacketSize = 1520 := rfl
    rw [cost_cons, List.length_cons]
    rw [hmax] at hq ⊢
    omega

theorem work_le {get : Fin ethRxbufnb} {q : List (RxStatus × Mem)} {pc : RxPc}
    (hready : pc.Ready get q) : pc.work q ≤ cost q + 2 := by
  cases pc with
  | giveBack frame p =>
    obtain ⟨e, q', rfl, -⟩ := hready
    rw [work, cost_cons, List.tail_cons]
    omega
  | fault => exact hready.elim
  | _ => simp only [work]; omega

/-- Nothing is left to do only in the main loop, with no frame waiting. -/
theorem of_work_eq_zero {get : Fin ethRxbufnb} {q : List (RxStatus × Mem)} {pc : RxPc}
    (hready : pc.Ready get q) (h : pc.work q = 0) : q = [] ∧ pc.pending = [] := by
  cases pc with
  | poll =>
    cases q with
    | nil => exact ⟨rfl, rfl⟩
    | cons e q =>
      rw [work, cost_cons] at h
      omega
  | rxPkt =>
    obtain ⟨e, q', rfl, -⟩ := hready
    rw [work, cost_cons] at h
    omega
  | alloc frame =>
    obtain ⟨e, q', rfl, -⟩ := hready
    rw [work, cost_cons] at h
    omega
  | copy frame p =>
    obtain ⟨e, q', rfl, -, hle, -⟩ := hready
    rw [work, cost_cons] at h
    omega
  | giveBack frame p => exact absurd h (Nat.succ_ne_zero _)
  | resume p => exact absurd h (Nat.succ_ne_zero _)
  | input p => exact absurd h (Nat.succ_ne_zero _)
  | fault => exact hready.elim

theorem Ready.append {get : Fin ethRxbufnb} {q : List (RxStatus × Mem)} {pc : RxPc}
    (h : pc.Ready get q) (e : RxStatus × Mem) : pc.Ready get (q ++ [e]) := by
  cases pc with
  | rxPkt =>
    obtain ⟨e', q', rfl, hg⟩ := h
    exact ⟨e', q' ++ [e], rfl, hg⟩
  | alloc frame =>
    obtain ⟨e', q', rfl, hh⟩ := h
    exact ⟨e', q' ++ [e], rfl, hh⟩
  | copy frame p =>
    obtain ⟨e', q', rfl, hh⟩ := h
    exact ⟨e', q' ++ [e], rfl, hh⟩
  | giveBack frame p =>
    obtain ⟨e', q', rfl, hh⟩ := h
    exact ⟨e', q' ++ [e], rfl, hh⟩
  | poll => trivial
  | resume p => trivial
  | input p => trivial
  | fault => exact h

end RxPc

namespace EthRx

/-- The receive descriptors as a ring from the DMA to the processor. -/
def ring (s : EthRx) : OwnRing (RxStatus × Mem) ethRxbufnb where
  full i := !(s.dmaRxDscrTab i).status.own
  buf i := ((s.dmaRxDscrTab i).status, s.rxBuff i)
  put := s.dma
  get := s.pc.back s.dmaRxDescToGet

/-- The frames closed by the DMA are those passed on, `done`, and those in the buffers of the
    processor, `q`. -/
structure Inv (s : EthRx) (done : List RxFrame) (q : List (RxStatus × Mem)) : Prop where
  buffer1Addr : ∀ i, (s.dmaRxDscrTab i).buffer1Addr = i
  nextDescAddr : ∀ i, (s.dmaRxDscrTab i).buffer2NextDescAddr = i + 1
  pos_le : s.pos ≤ ethMaxPacketSize
  holds : s.ring.Holds q
  fl_le : ∀ e ∈ q, e.1.fl ≤ ethMaxPacketSize
  le_fl : ∀ e ∈ q, e.1.good = true → 64 ≤ e.1.fl
  stored : s.stored = done ++ q.map rxFrame
  passed : List.Forall₂ RxPassed (s.passed ++ s.pc.pending) done
  ready : s.pc.Ready s.dmaRxDescToGet q

theorem inv_init : init.Inv [] [] where
  buffer1Addr := fun _ => rfl
  nextDescAddr := nextDesc_eq
  pos_le := Nat.zero_le _
  holds := OwnRing.holds_nil (fun _ => rfl) rfl
  fl_le := by simp
  le_fl := by simp
  stored := rfl
  passed := List.Forall₂.nil
  ready := trivial

variable {s : EthRx} {done : List RxFrame} {q : List (RxStatus × Mem)}

/-! ## The DMA -/

/-- The DMA owns its descriptor only if the ring is not full. -/
theorem Inv.length_lt (h : s.Inv done q) (ho : (s.dmaRxDscrTab s.dma).status.own = true) :
    q.length < ethRxbufnb := by
  have hput := h.holds.full_put
  have hown : s.ring.full s.ring.put = !(s.dmaRxDscrTab s.dma).status.own := rfl
  rw [hown, ho] at hput
  have hne : q.length ≠ ethRxbufnb := fun he => absurd (hput.2 he) (by decide)
  have hle := h.holds.length_le
  omega

theorem Inv.store (h : s.Inv done q) (b : U8) : (s.store b).Inv done q := by
  unfold EthRx.store
  dsimp only
  split_ifs with ho hpos
  · have hfill := h.holds.fill (h.length_lt ho) fun e => (e.1, e.2.put s.pos b)
    refine ⟨h.buffer1Addr, h.nextDescAddr, hpos, ?_, h.fl_le, h.le_fl, h.stored, h.passed,
      h.ready⟩
    -- the buffer is the one at `put`, which is not a buffer of the processor
    convert hfill using 1
    rw [h.buffer1Addr]
    simp only [ring, OwnRing.fill, OwnRing.mk.injEq, true_and, and_true]
    ext i : 1
    by_cases hi : i = s.dma
    · subst hi
      simp
    · simp [hi]
  · exact h
  · exact ⟨h.buffer1Addr, h.nextDescAddr, h.pos_le, h.holds, h.fl_le, h.le_fl, h.stored, h.passed,
      h.ready⟩

theorem Inv.close (h : s.Inv done q) (es fs ls : Bool) :
    ∃ q', (s.close es fs ls).Inv done q' := by
  unfold EthRx.close
  dsimp only
  split_ifs with ho hrunt
  · exact ⟨q, h.buffer1Addr, h.nextDescAddr, Nat.zero_le _, h.holds, h.fl_le, h.le_fl, h.stored,
      h.passed, h.ready⟩
  · have hlt := h.length_lt ho
    have hgive := (h.holds.fill hlt fun e => (⟨false, es, fs, ls, s.pos⟩, e.2)).give hlt
    have hput := s.ring.fill_buf_put fun e => (⟨false, es, fs, ls, s.pos⟩, e.2)
    refine ⟨q ++ [(⟨false, es, fs, ls, s.pos⟩, s.rxBuff s.dma)], ?_, ?_, Nat.zero_le _, ?_, ?_,
      ?_, ?_, h.passed, h.ready.append _⟩
    · intro i
      by_cases hi : i = s.dma
      · subst hi
        simpa using h.buffer1Addr s.dma
      · simpa [hi] using h.buffer1Addr i
    · intro i
      by_cases hi : i = s.dma
      · subst hi
        simpa using h.nextDescAddr s.dma
      · simpa [hi] using h.nextDescAddr i
    · convert hgive using 1
      · simp only [ring, OwnRing.fill, OwnRing.give, OwnRing.mk.injEq, h.nextDescAddr, and_true]
        constructor
        · ext i : 1
          by_cases hi : i = s.dma
          · subst hi
            simp
          · simp [hi]
        · ext i : 1
          by_cases hi : i = s.dma
          · subst hi
            simp
          · simp [hi]
      · rw [OwnRing.fill_put, hput]
        rfl
    · intro e he
      rcases List.mem_append.1 he with he | he
      · exact h.fl_le e he
      · rw [List.mem_singleton.1 he]
        exact h.pos_le
    · intro e he hg
      rcases List.mem_append.1 he with he | he
      · exact h.le_fl e he hg
      · rw [List.mem_singleton.1 he] at hg ⊢
        -- a good frame of less than 64 bytes is not forwarded
        simp only [RxStatus.good, Bool.and_eq_true, Bool.not_eq_true'] at hg
        simp only [hg, Bool.not_false, Bool.and_self, Bool.true_and, decide_eq_true_eq,
          Nat.not_lt] at hrunt
        exact hrunt
    · rw [h.stored, h.buffer1Addr, List.map_append, List.append_assoc]
      rfl
  · exact ⟨q, h.buffer1Addr, h.nextDescAddr, h.pos_le, h.holds, h.fl_le, h.le_fl, h.stored,
      h.passed, h.ready⟩

/-! ## The processor -/

/-- A step that changes no more than the position and RBUS. -/
theorem Inv.goto (h : s.Inv done q) (pc : RxPc) (rbus : Bool)
    (hback : pc.back s.dmaRxDescToGet = s.pc.back s.dmaRxDescToGet)
    (hpending : pc.pending = s.pc.pending) (hready : pc.Ready s.dmaRxDescToGet q) :
    Inv { s with pc := pc, rbus := rbus } done q where
  buffer1Addr := h.buffer1Addr
  nextDescAddr := h.nextDescAddr
  pos_le := h.pos_le
  holds := by
    have hr : ring { s with pc := pc, rbus := rbus } = s.ring := by
      simp only [ring, hback]
    rw [hr]
    exact h.holds
  fl_le := h.fl_le
  le_fl := h.le_fl
  stored := h.stored
  passed := by
    rw [hpending]
    exact h.passed
  ready := hready

/-- A good frame waits exactly if the test of `main` says so. -/
theorem Inv.poll (h : s.Inv done q) (hpc : s.pc = .poll) :
    s.ethGetRxPktSize ≠ 0 ↔ ∃ e q', q = e :: q' ∧ e.1.good = true := by
  have hget := h.holds.full_get
  have hown : s.ring.full s.ring.get = !(s.dmaRxDscrTab s.dmaRxDescToGet).status.own := by
    rw [ring, hpc]
    rfl
  rw [hown] at hget
  cases q with
  | nil =>
    have ho : (s.dmaRxDscrTab s.dmaRxDescToGet).status.own = true := by
      by_contra hne
      exact hget.1 (by simpa using hne) rfl
    simp [ethGetRxPktSize, ho]
  | cons e q =>
    have ho : (s.dmaRxDscrTab s.dmaRxDescToGet).status.own = false := by
      have := hget.2 (List.cons_ne_nil e q)
      simpa using this
    have hst : (s.dmaRxDscrTab s.dmaRxDescToGet).status = e.1 := by
      rw [← h.holds.buf_get, ring, hpc]
      rfl
    have hsize : s.ethGetRxPktSize = if e.1.good = true then e.1.fl else 0 := by
      rw [hst] at ho
      simp [ethGetRxPktSize, hst, ho, RxStatus.good]
    rw [hsize]
    constructor
    · intro hne
      by_cases hg : e.1.good = true
      · exact ⟨e, q, rfl, hg⟩
      · rw [if_neg hg] at hne
        exact absurd rfl hne
    · rintro ⟨e', q', he, hg⟩
      obtain ⟨rfl, rfl⟩ := List.cons.inj he
      rw [if_pos hg]
      have := h.le_fl e (List.mem_cons_self ..) hg
      omega

/-- The oldest frame lies in the descriptor that is given back next. -/
theorem Inv.head {e : RxStatus × Mem} (h : s.Inv done (e :: q)) :
    (s.dmaRxDscrTab (s.pc.back s.dmaRxDescToGet)).status = e.1 ∧
      s.rxBuff (s.pc.back s.dmaRxDescToGet) = e.2 := by
  have hbuf := h.holds.buf_get
  exact ⟨congrArg Prod.fst hbuf, congrArg Prod.snd hbuf⟩

/-- The oldest frame is no longer the DMA's. -/
theorem Inv.own {e : RxStatus × Mem} (h : s.Inv done (e :: q)) :
    (s.dmaRxDscrTab (s.pc.back s.dmaRxDescToGet)).status.own = false := by
  have hfull := h.holds.full_get.2 (List.cons_ne_nil e q)
  simpa [ring] using hfull

/-- A step of the processor leads to `s'`, closer to the point where nothing is left to do. -/
def Goes (s s' : EthRx) (q : List (RxStatus × Mem)) : Prop :=
  ∃ done' q', s'.Inv done' q' ∧ s'.stored = s.stored ∧
    ((∀ e ∈ q, e.1.good = true) → s'.pc.work q' ≤ s.pc.work q - 1)

/-- `ETH_RxPkt_ChainMode` takes the oldest frame. -/
theorem Inv.rxPkt (h : s.Inv done q) (hpc : s.pc = .rxPkt) (allocated : Bool) :
    s.Goes (s.cpu allocated) q := by
  obtain ⟨e, q', rfl, hg⟩ : ∃ e q', q = e :: q' ∧ e.1.good = true := by
    have hr := h.ready
    rwa [hpc] at hr
  have hhead := h.head.1
  have hown := h.own
  rw [hpc] at hhead hown
  have hgood : (!e.1.es && e.1.ls && e.1.fs) = true := hg
  change (s.dmaRxDscrTab s.dmaRxDescToGet).status = e.1 at hhead
  change (s.dmaRxDscrTab s.dmaRxDescToGet).status.own = false at hown
  rw [hhead] at hown
  have hframe : s.ethRxPktChainMode = (⟨BitVec.ofNat 32 e.1.fl - 4, some s.dmaRxDescToGet,
      some s.dmaRxDescToGet⟩, { s with dmaRxDescToGet := s.dmaRxDescToGet + 1 }) := by
    simp only [ethRxPktChainMode, hhead, hown, hgood, h.buffer1Addr, h.nextDescAddr,
      Bool.false_eq_true, if_false, if_true]
  rw [EthRx.cpu, hpc]
  simp only [hframe]
  refine ⟨done, e :: q', ⟨h.buffer1Addr, h.nextDescAddr, h.pos_le, ?_, h.fl_le, h.le_fl, h.stored,
    ?_, ?_⟩, rfl, fun _ => ?_⟩
  · have hh := h.holds
    rw [ring, hpc] at hh
    exact hh
  · have hp := h.passed
    rw [hpc] at hp
    exact hp
  · exact ⟨e, q', rfl, hg, by rw [add_sub_cancel_right], by rw [add_sub_cancel_right], rfl⟩
  · rw [hpc]
    simp only [RxPc.work]
    omega

/-- The loop of `low_level_input` copies the frame in front of the CRC. -/
theorem Inv.copy (h : s.Inv done q) {frame : FrameTypeDef} {p : List U8}
    (hpc : s.pc = .copy frame p) (allocated : Bool) : s.Goes (s.cpu allocated) q := by
  have hready := h.ready
  rw [hpc] at hready
  obtain ⟨e, q', rfl, hh, hle, hp⟩ := hready
  have hmem : e ∈ e :: q' := List.mem_cons_self ..
  have hlen := hh.len (h.le_fl e hmem hh.good) (h.fl_le e hmem)
  have hback : s.pc.back s.dmaRxDescToGet = s.dmaRxDescToGet - 1 := by
    rw [hpc]
    simp [RxPc.back, hh.descriptor]
  rw [EthRx.cpu, hpc]
  dsimp only
  split_ifs with hlt
  · have hbyte : s.buffer frame p.length = e.2 p.length := by
      rw [buffer, hh.buffer, ← h.head.2, hback]
    refine ⟨done, e :: q', h.goto (.copy frame (p ++ [s.buffer frame p.length])) s.rbus
      (by rw [hpc]; rfl) (by rw [hpc]; rfl) ⟨e, q', rfl, hh, ?_, ?_⟩, rfl, fun _ => ?_⟩
    · rw [List.length_append, List.length_singleton, ← hlen]
      exact hlt
    · rw [List.length_append, List.length_singleton, Mem.bytes_succ, ← hp, hbyte]
    · rw [hpc]
      simp only [RxPc.work, List.length_append, List.length_singleton]
      omega
  · have he : p.length = e.1.fl - 4 := by omega
    refine ⟨done, e :: q', h.goto (.giveBack frame (some p)) s.rbus (by rw [hpc]; rfl)
      (by rw [hpc]; rfl) ⟨e, q', rfl, hh, Or.inr ?_⟩, rfl, fun _ => ?_⟩
    · rw [rxFrame_payload, ← he, ← hp]
    · rw [hpc]
      simp only [RxPc.work, RxPc.cost_cons, List.tail_cons]
      omega

/-- A descriptor given back: its frame has been passed on or dropped. -/
theorem Inv.giveBack (h : s.Inv done q) {frame : FrameTypeDef} {p : Option (List U8)}
    (hpc : s.pc = .giveBack frame p) (allocated : Bool) : s.Goes (s.cpu allocated) q := by
  have hready := h.ready
  rw [hpc] at hready
  obtain ⟨e, q', rfl, hh, hp⟩ := hready
  have hback : s.pc.back s.dmaRxDescToGet = s.dmaRxDescToGet - 1 := by
    rw [hpc]
    simp [RxPc.back, hh.descriptor]
  have htake := h.holds.take fun e => (RxStatus.dma, e.2)
  rw [EthRx.cpu, hpc]
  simp only [hh.descriptor]
  refine ⟨done ++ [rxFrame e], q', ⟨?_, ?_, h.pos_le, ?_,
    fun e' he => h.fl_le e' (List.mem_cons_of_mem e he),
    fun e' he => h.le_fl e' (List.mem_cons_of_mem e he), ?_, ?_, trivial⟩, rfl, fun _ => ?_⟩
  · intro i
    by_cases hi : i = s.dmaRxDescToGet - 1
    · subst hi
      simpa using h.buffer1Addr _
    · simpa [hi] using h.buffer1Addr i
  · intro i
    by_cases hi : i = s.dmaRxDescToGet - 1
    · subst hi
      have hnext := h.nextDescAddr (s.dmaRxDescToGet - 1)
      simpa using hnext
    · simpa [hi] using h.nextDescAddr i
  · convert htake using 1
    simp only [ring, OwnRing.take, OwnRing.mk.injEq, hback, sub_add_cancel, true_and]
    refine ⟨?_, ?_, rfl⟩
    · ext i : 1
      by_cases hi : i = s.dmaRxDescToGet - 1
      · subst hi
        simp [RxStatus.dma]
      · simp [hi]
    · ext i : 1
      by_cases hi : i = s.dmaRxDescToGet - 1
      · subst hi
        simp
      · simp [hi]
  · rw [h.stored]
    simp
  · have hpassed := h.passed
    rw [hpc] at hpassed
    change List.Forall₂ RxPassed (s.passed ++ []) done at hpassed
    rw [List.append_nil] at hpassed
    exact List.rel_append hpassed (List.Forall₂.cons ⟨hh.good, hp⟩ List.Forall₂.nil)
  · rw [hpc]
    simp only [RxPc.work, List.tail_cons]
    omega

theorem Inv.cpu (h : s.Inv done q) (allocated : Bool) : s.Goes (s.cpu allocated) q := by
  have hready := h.ready
  cases hpc : s.pc with
  | poll =>
    rw [EthRx.cpu, hpc]
    dsimp only
    split_ifs with hsize
    · refine ⟨done, q, h.goto .rxPkt s.rbus (by rw [hpc]; rfl) (by rw [hpc]; rfl)
        ((h.poll hpc).1 hsize), rfl, fun _ => ?_⟩
      rw [hpc]
      exact le_rfl
    · refine ⟨done, q, h, rfl, fun hg => ?_⟩
      cases q with
      | nil =>
        rw [hpc]
        exact le_rfl
      | cons e q => exact absurd ((h.poll hpc).2 ⟨e, q, rfl, hg e (List.mem_cons_self ..)⟩) hsize
  | rxPkt => exact h.rxPkt hpc allocated
  | alloc frame =>
    rw [hpc] at hready
    obtain ⟨e, q', rfl, hh⟩ := hready
    rw [EthRx.cpu, hpc]
    dsimp only
    split_ifs
    · refine ⟨done, e :: q', h.goto (.copy frame []) s.rbus (by rw [hpc]; rfl) (by rw [hpc]; rfl)
        ⟨e, q', rfl, hh, Nat.zero_le _, rfl⟩, rfl, fun _ => ?_⟩
      rw [hpc]
      simp only [RxPc.work, List.length_nil]
      omega
    · refine ⟨done, e :: q', h.goto (.giveBack frame none) s.rbus (by rw [hpc]; rfl)
        (by rw [hpc]; rfl) ⟨e, q', rfl, hh, Or.inl rfl⟩, rfl, fun _ => ?_⟩
      rw [hpc]
      simp only [RxPc.work, RxPc.cost_cons, List.tail_cons]
      omega
  | copy frame p => exact h.copy hpc allocated
  | giveBack frame p => exact h.giveBack hpc allocated
  | resume p =>
    rw [EthRx.cpu, hpc]
    refine ⟨done, q, h.goto (.input p) false (by rw [hpc]; rfl) (by rw [hpc]; rfl) trivial, rfl,
      fun _ => ?_⟩
    rw [hpc]
    exact le_rfl
  | input p =>
    have hpassed := h.passed
    rw [hpc] at hpassed
    have hh := h.holds
    rw [ring, hpc] at hh
    rw [EthRx.cpu, hpc]
    refine ⟨done, q, ⟨h.buffer1Addr, h.nextDescAddr, h.pos_le, hh, h.fl_le, h.le_fl, h.stored, ?_,
      trivial⟩, rfl, fun _ => ?_⟩
    · change List.Forall₂ RxPassed ((s.passed ++ [p]) ++ []) done
      rw [List.append_nil]
      exact hpassed
    · rw [hpc]
      exact le_rfl
  | fault =>
    rw [hpc] at hready
    exact hready.elim

/-! ## Runs -/

theorem Inv.step (h : s.Inv done q) (e : RxEvent) :
    ∃ done' q', (s.step e).Inv done' q' := by
  cases e with
  | store b => exact ⟨done, q, h.store b⟩
  | close es fs ls =>
    obtain ⟨q', h'⟩ := h.close es fs ls
    exact ⟨done, q', h'⟩
  | cpu allocated =>
    obtain ⟨done', q', h', -⟩ := h.cpu allocated
    exact ⟨done', q', h'⟩

theorem inv_run (es : List RxEvent) : ∃ done q, (run EthRx.step init es).Inv done q := by
  refine run_inv (I := fun s : EthRx => ∃ done q, s.Inv done q) ?_ es ⟨[], [], inv_init⟩
  rintro s e ⟨done, q, h⟩
  exact h.step e

/-- The frames passed on are the first ones that the DMA has closed. -/
theorem Inv.passed_take (h : s.Inv done q) :
    List.Forall₂ RxPassed s.passed (s.stored.take s.passed.length) ∧
      done.length = s.passed.length + s.pc.pending.length := by
  have hlen := h.passed.length_eq
  rw [List.length_append] at hlen
  refine ⟨?_, hlen.symm⟩
  have htake := List.forall₂_take s.passed.length h.passed
  rw [List.take_left] at htake
  rw [h.stored, List.take_append_of_le_length (by omega)]
  exact htake

theorem length_pending_le (pc : RxPc) : pc.pending.length ≤ 1 := by
  cases pc with
  | resume p => exact le_rfl
  | input p => exact le_rfl
  | _ => exact Nat.zero_le 1

@[simp] theorem store_pc (s : EthRx) (b : U8) : (s.store b).pc = s.pc := by
  unfold store
  dsimp only
  split_ifs <;> rfl

@[simp] theorem store_passed (s : EthRx) (b : U8) : (s.store b).passed = s.passed := by
  unfold store
  dsimp only
  split_ifs <;> rfl

@[simp] theorem store_stored (s : EthRx) (b : U8) : (s.store b).stored = s.stored := by
  unfold store
  dsimp only
  split_ifs <;> rfl

@[simp] theorem close_pc (s : EthRx) (es fs ls : Bool) : (s.close es fs ls).pc = s.pc := by
  unfold close
  dsimp only
  split_ifs <;> rfl

@[simp] theorem close_passed (s : EthRx) (es fs ls : Bool) :
    (s.close es fs ls).passed = s.passed := by
  unfold close
  dsimp only
  split_ifs <;> rfl

theorem close_stored (s : EthRx) (es fs ls : Bool) : s.stored <+: (s.close es fs ls).stored := by
  unfold close
  dsimp only
  split_ifs
  · exact List.prefix_rfl
  · exact List.prefix_append _ _
  · exact List.prefix_rfl

/-- No result is null, and none will be in the step under way. -/
structure NotNull (s : EthRx) : Prop where
  passed : none ∉ s.passed
  pending : none ∉ s.pc.pending
  giveBack : ∀ frame, s.pc ≠ .giveBack frame none

theorem NotNull.cpu {s : EthRx} (h : s.NotNull) : (s.cpu true).NotNull := by
  have hpending := h.pending
  have hgive := h.giveBack
  unfold EthRx.cpu
  split
  · split_ifs
    · exact ⟨h.passed, List.not_mem_nil, nofun⟩
    · exact h
  · refine ⟨?_, List.not_mem_nil, nofun⟩
    unfold ethRxPktChainMode
    dsimp only
    split_ifs <;> exact h.passed
  · exact ⟨h.passed, List.not_mem_nil, nofun⟩
  · split_ifs
    · exact ⟨h.passed, List.not_mem_nil, nofun⟩
    · exact ⟨h.passed, List.not_mem_nil, nofun⟩
  · rename_i frame p hpc
    have hp : p ≠ none := by
      rintro rfl
      exact hgive frame hpc
    split
    · exact ⟨h.passed, by simpa [RxPc.pending] using hp.symm, nofun⟩
    · exact ⟨h.passed, List.not_mem_nil, nofun⟩
  · rename_i p hpc
    rw [hpc] at hpending
    exact ⟨h.passed, hpending, nofun⟩
  · rename_i p hpc
    rw [hpc] at hpending
    exact ⟨List.not_mem_append h.passed hpending, List.not_mem_nil, nofun⟩
  · exact h

/-- No result is null while no `pbuf_alloc` fails. -/
theorem not_null {es : List RxEvent} (hes : .cpu false ∉ es) : (run step init es).NotNull := by
  refine run_inv_of (I := NotNull) (K := fun e => e ≠ .cpu false) ?_ es (fun e he h => hes (h ▸ he))
    ⟨List.not_mem_nil, List.not_mem_nil, nofun⟩
  intro s e he h
  cases e with
  | store b => exact ⟨by simpa [step] using h.passed, by simpa [step] using h.pending,
      by simpa [step] using h.giveBack⟩
  | close es fs ls => exact ⟨by simpa [step] using h.passed, by simpa [step] using h.pending,
      by simpa [step] using h.giveBack⟩
  | cpu allocated =>
    cases allocated with
    | true => exact h.cpu
    | false => exact absurd rfl he

/-- **In order and unaltered.**  What is passed to `netif->input` are the first frames that the DMA
    has closed, each once and without its CRC, and each of them good; no null descriptor is ever
    written through, and at most five of the frames closed have not been passed on.  A frame for
    which no pbuf is left is dropped: it is passed as `none`. -/
theorem passed_in_order (es : List RxEvent) :
    let s := run step init es
    List.Forall₂ RxPassed s.passed (s.stored.take s.passed.length) ∧
      s.stored.length ≤ s.passed.length + 5 ∧ s.pc ≠ .fault ∧
      (.cpu false ∉ es → none ∉ s.passed) := by
  obtain ⟨done, q, h⟩ := inv_run es
  obtain ⟨hpassed, hlen⟩ := h.passed_take
  refine ⟨hpassed, ?_, ?_, fun hes => (not_null hes).passed⟩
  · have hq : q.length ≤ 4 := h.holds.length_le
    have hpending := length_pending_le (run EthRx.step init es).pc
    rw [h.stored, List.length_append, List.length_map]
    omega
  · intro hpc
    have hready := h.ready
    rw [hpc] at hready
    exact hready

theorem stored_step (s : EthRx) (e : RxEvent) : s.stored <+: (s.step e).stored := by
  cases e with
  | store b =>
    have hs : (s.step (.store b)).stored = s.stored := s.store_stored b
    exact hs ▸ List.prefix_rfl
  | close es fs ls => exact s.close_stored es fs ls
  | cpu allocated =>
    unfold step cpu ethRxPktChainMode
    dsimp only
    split
    · split_ifs <;> exact List.prefix_rfl
    · split_ifs <;> exact List.prefix_rfl
    · split_ifs <;> exact List.prefix_rfl
    · split_ifs <;> exact List.prefix_rfl
    · split <;> exact List.prefix_rfl
    · exact List.prefix_rfl
    · exact List.prefix_rfl
    · exact List.prefix_rfl

theorem stored_run (s : EthRx) (es : List RxEvent) : s.stored <+: (run step s es).stored := by
  induction es generalizing s with
  | nil => exact List.prefix_rfl
  | cons e es ih => exact (s.stored_step e).trans (ih (s.step e))

/-- **A bad frame blocks reception.**  Once the DMA has closed a descriptor with an error, or with
    part of a frame only, no later frame is ever passed on, and the DMA itself can close no more
    than the three frames that fill the other descriptors. -/
theorem bad_frame_blocks (es es' : List RxEvent) {k : ℕ} {f : RxFrame}
    (hk : (run step init es).stored[k]? = some f) (hf : f.status.good = false) :
    let s := run step init (es ++ es')
    s.passed.length ≤ k ∧ s.stored.length ≤ k + 4 := by
  intro s
  obtain ⟨done, q, h⟩ := inv_run (es ++ es')
  have hlen := h.passed_take.2
  have hstored : (run step init es).stored <+: s.stored := by
    simp only [s, run_append]
    exact stored_run _ es'
  have hks : s.stored[k]? = some f := by
    obtain ⟨t, ht⟩ := hstored
    rw [← ht, List.getElem?_append_left (List.getElem?_eq_some_iff.1 hk).1]
    exact hk
  have hdone : done.length ≤ k := by
    by_contra hlt
    rw [h.stored, List.getElem?_append_left (by omega)] at hks
    obtain ⟨hlt', hget⟩ := List.getElem?_eq_some_iff.1 hks
    obtain ⟨hl, hall⟩ := List.forall₂_iff_get.1 h.passed
    have hgood := (hall k (by omega) hlt').1
    rw [List.get_eq_getElem, hget, hf] at hgood
    exact absurd hgood (by decide)
  have hq : q.length ≤ 4 := h.holds.length_le
  constructor
  · change (run step init (es ++ es')).passed.length ≤ k
    omega
  · change (run step init (es ++ es')).stored.length ≤ k + 4
    rw [h.stored, List.length_append, List.length_map]
    omega

/-- A frame with a CRC error, and a good one after it. -/
theorem bad_first_frame :
    let es := [.close true true true]
    let es' := List.replicate 64 (.store 1) ++ [.close false true true, .cpu true]
    (run step init es).stored[0]? = some ⟨⟨false, true, true, true, 0⟩, []⟩ ∧
      (run step init (es ++ es')).passed.length ≤ 0 ∧
      (run step init (es ++ es')).stored.length ≤ 4 := by
  refine ⟨rfl, ?_⟩
  exact bad_frame_blocks [.close true true true] _ (k := 0) rfl rfl

/-- Steps of the processor alone. -/
theorem Inv.cpu_run {s : EthRx} {done : List RxFrame} {q : List (RxStatus × Mem)}
    (h : s.Inv done q) (hgood : ∀ f ∈ s.stored, f.status.good = true) (as : List Bool) :
    ∃ done' q', (run EthRx.step s (as.map .cpu)).Inv done' q' ∧
      (run EthRx.step s (as.map .cpu)).stored = s.stored ∧
      (run EthRx.step s (as.map .cpu)).pc.work q' ≤ s.pc.work q - as.length := by
  induction as generalizing s done q with
  | nil => exact ⟨done, q, h, rfl, Nat.le_refl _⟩
  | cons a as ih =>
    obtain ⟨done₁, q₁, h₁, hstored, hwork⟩ := h.cpu a
    have hq : ∀ e ∈ q, e.1.good = true := by
      intro e he
      have hmem : rxFrame e ∈ s.stored := by
        rw [h.stored]
        exact List.mem_append_right _ (List.mem_map_of_mem he)
      exact hgood _ hmem
    obtain ⟨done₂, q₂, h₂, hstored₂, hwork₂⟩ := ih h₁ (by rwa [hstored])
    refine ⟨done₂, q₂, h₂, hstored₂.trans hstored, ?_⟩
    have hw := hwork hq
    rw [List.length_cons]
    change (run EthRx.step (s.cpu a) (as.map .cpu)).pc.work q₂ ≤ _
    omega

/-- **Reception keeps up.**  If every frame closed so far was good, then from whatever point the
    processor has reached it needs at most `4 · 1523 + 2` steps to pass all of them on (or to drop
    those for which no pbuf is left). -/
theorem queue_drained (es : List RxEvent) (as : List Bool)
    (hgood : ∀ f ∈ (run step init es).stored, f.status.good = true)
    (has : 4 * (ethMaxPacketSize + 3) + 2 ≤ as.length) :
    let s := run step init (es ++ as.map .cpu)
    s.stored = (run step init es).stored ∧ s.passed.length = s.stored.length := by
  intro s
  obtain ⟨done, q, h⟩ := inv_run es
  obtain ⟨done', q', h', hstored, hwork⟩ := h.cpu_run hgood as
  rw [← run_append] at h' hstored hwork
  have hq : q.length ≤ 4 := h.holds.length_le
  have hcost := RxPc.cost_le h.fl_le
  have hzero : (run step init (es ++ as.map .cpu)).pc.work q' = 0 := by
    have hwork₀ := RxPc.work_le h.ready
    have hmul := Nat.mul_le_mul_right (ethMaxPacketSize + 3) hq
    omega
  obtain ⟨hnil, hpending⟩ := RxPc.of_work_eq_zero h'.ready hzero
  have hlen := h'.passed_take.2
  refine ⟨hstored, ?_⟩
  change (run step init (es ++ as.map .cpu)).passed.length = _
  rw [hpending, List.length_nil] at hlen
  rw [h'.stored, hnil, List.map_nil, List.append_nil]
  exact hlen.symm

set_option maxRecDepth 4000 in
/-- A good frame of 64 bytes. -/
theorem queue_drained_frame :
    let es := List.replicate 64 (.store 1) ++ [.close false true true]
    let s := run step init (es ++ (List.replicate 6094 true).map .cpu)
    s.stored = (run step init es).stored ∧ s.passed.length = s.stored.length :=
  queue_drained _ _ (by decide) (Nat.le_of_eq (List.length_replicate (n := 6094)).symm)

end EthRx

end GndCtrl
