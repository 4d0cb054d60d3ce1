/-
  Transmission, whatever the order in which the DMA and the processor act: the
  frames that `ETH_TxPkt_ChainMode` accepts go out once each, in order and at
  their own length.  `low_level_output` copies a frame before that function
  looks at the OWN bit, so that a frame that comes while both descriptors wait
  is not only lost: its bytes land in the oldest frame that has not gone out.
-/
import GndCtrl.EthRecv

namespace GndCtrl

/-- The size and the content of a transmit buffer. -/
abbrev TxBuf : Type := ℕ × Mem

namespace TxPc

/-- The frame that is being copied, and the bytes of it that are in the buffer. -/
def Copied (buf : Mem) : TxPc → Prop
  | .idle => True
  | .copy _ p l => l ≤ p.data.length ∧ buf.bytes l = p.data.take l
  | .txPkt p l => l = p.data.length ∧ buf.bytes l = p.data

/-- The frame that `low_level_output` is working on. -/
def current : TxPc → List TxFrame
  | .idle => []
  | .copy _ p _ => [p]
  | .txPkt p _ => [p]

theorem length_current_le (pc : TxPc) : pc.current.length ≤ 1 := by
  cases pc with
  | idle => exact Nat.zero_le 1
  | copy b p l => exact le_rfl
  | txPkt p l => exact le_rfl

theorem bytes_put {buf : Mem} {p : List U8} {l : ℕ} (h : buf.bytes l = p.take l)
    (hl : l < p.length) : (buf.put l p[l]).bytes (l + 1) = p.take (l + 1) := by
  have hput : (buf.put l p[l]).bytes l = buf.bytes l := by
    rw [Mem.bytes_eq_iff]
    intro i hi
    exact Mem.put_ne _ _ (Nat.ne_of_lt hi)
  rw [Mem.bytes_succ, Mem.put_same, hput, h, List.take_succ_eq_append_getElem hl]

end TxPc

namespace EthTx

/-- The transmit descriptors as a ring from the processor to the DMA. -/
def ring (s : EthTx) : OwnRing TxBuf ethTxbufnb where
  full i := (s.dmaTxDscrTab i).own
  buf i := ((s.dmaTxDscrTab i).controlBufferSize, s.txBuff i)
  put := s.dmaTxDescToSet
  get := s.dma

/-- `w` is the accepted frame `k`, at its own length; its bytes are those of the frame unless its
    buffer was written to again. -/
def SentAsIs (s : EthTx) (k : ℕ) (w : List U8) : Prop :=
  ∃ p, s.accepted[k]? = some p ∧ w.length = p.data.length ∧ (k ∉ s.clobbered → w = p.data)

/-- The frames accepted are those that have gone out and those in the buffers of the DMA, `q`. -/
structure Inv (s : EthTx) (q : List TxBuf) : Prop where
  buffer1Addr : ∀ i, (s.dmaTxDscrTab i).buffer1Addr = i
  nextDescAddr : ∀ i, (s.dmaTxDscrTab i).buffer2NextDescAddr = i + 1
  holds : s.ring.Holds q
  accepted : s.accepted.length = s.wire.length + q.length
  gone : ∀ k w, s.wire[k]? = some w → s.SentAsIs k w
  waiting : ∀ i e, q[i]? = some e → s.SentAsIs (s.wire.length + i) (e.2.bytes e.1)
  fetched_le : ∀ e ∈ q.head?, s.fetched.length ≤ e.1
  fetched : ∀ e ∈ q.head?, s.wire.length ∉ s.clobbered → s.fetched = e.2.bytes s.fetched.length
  fetched_nil : q = [] → s.fetched = []
  clobbered : ∀ k ∈ s.clobbered, k < s.accepted.length
  buffer : ∀ b p l, s.pc = .copy b p l → b = s.dmaTxDescToSet
  copied : s.pc.Copied (s.txBuff s.dmaTxDescToSet)

theorem inv_init : init.Inv [] where
  buffer1Addr := fun _ => rfl
  nextDescAddr := nextDesc_eq
  holds := OwnRing.holds_nil (fun _ => rfl) rfl
  accepted := rfl
  gone := by simp [init]
  waiting := by simp
  fetched_le := by simp
  fetched := by simp
  fetched_nil := fun _ => rfl
  clobbered := by simp [init]
  buffer := by simp [init]
  copied := trivial

variable {s : EthTx} {q : List TxBuf}

/-- The next descriptor is free exactly if the ring is not full. -/
theorem Inv.busy_iff (h : s.Inv q) : s.busy = true ↔ q.length = ethTxbufnb := h.holds.full_put

/-! ## The DMA -/

/-- The oldest frame is in the buffer of the DMA. -/
theorem Inv.head {e : TxBuf} (h : s.Inv (e :: q)) :
    (s.dmaTxDscrTab s.dma).controlBufferSize = e.1 ∧ s.txBuff s.dma = e.2 := by
  have hbuf := h.holds.buf_get
  exact ⟨congrArg Prod.fst hbuf, congrArg Prod.snd hbuf⟩

/-- A byte of the oldest frame is fetched. -/
theorem Inv.fetch {e : TxBuf} (h : s.Inv (e :: q)) (hlt : s.fetched.length < e.1) :
    Inv { s with fetched := s.fetched ++ [e.2 s.fetched.length] } (e :: q) := by
  refine ⟨h.buffer1Addr, h.nextDescAddr, h.holds, h.accepted, h.gone, h.waiting, ?_, ?_, nofun,
    h.clobbered, h.buffer, h.copied⟩
  · intro e' he'
    obtain rfl : e = e' := Option.mem_some_iff.1 he'
    rw [List.length_append, List.length_singleton]
    exact hlt
  · intro e' he' hk
    obtain rfl : e = e' := Option.mem_some_iff.1 he'
    rw [List.length_append, List.length_singleton, Mem.bytes_succ]
    exact congrArg (· ++ [e.2 s.fetched.length]) (h.fetched e rfl hk)

/-- The oldest frame goes out. -/
theorem Inv.sendOff {e : TxBuf} (h : s.Inv (e :: q)) (hle : e.1 ≤ s.fetched.length) :
    Inv { s with
      dmaTxDscrTab := Function.update s.dmaTxDscrTab s.dma { s.dmaTxDscrTab s.dma with own := false }
      dma := (s.dmaTxDscrTab s.dma).buffer2NextDescAddr
      fetched := []
      wire := s.wire ++ [s.fetched] } q := by
  have hlen : s.fetched.length = e.1 := Nat.le_antisymm (h.fetched_le e rfl) hle
  refine ⟨?_, ?_, ?_, ?_, ?_, ?_, by simp, fun _ _ _ => rfl, fun _ => rfl, h.clobbered,
    h.buffer, h.copied⟩
  · intro i
    by_cases hi : i = s.dma
    · subst hi
      simpa using h.buffer1Addr s.dma
    · simpa [hi] using h.buffer1Addr i
  · intro i
    by_cases hi : i = s.dma
    · subst hi
      simpa using h.nextDescAddr s.dma
    · simpa [hi] using h.nextDescAddr i
  · convert h.holds.take id using 1
    simp only [ring, OwnRing.take, OwnRing.mk.injEq, h.nextDescAddr, and_true, id]
    constructor
    · ext i : 1
      by_cases hi : i = s.dma
      · subst hi
        simp
      · simp [hi]
    · ext i : 1
      by_cases hi : i = s.dma
      · subst hi
        simp
      · simp [hi]
  · simp only [h.accepted, List.length_append, List.length_cons, List.length_nil]
    omega
  · intro k w hk
    rcases Nat.lt_or_ge k s.wire.length with hlt | hge
    · rw [List.getElem?_append_left hlt] at hk
      exact h.gone k w hk
    · rw [List.getElem?_append_right hge, List.getElem?_singleton] at hk
      have hk0 : k - s.wire.length = 0 := by
        by_contra hne
        rw [if_neg hne] at hk
        exact absurd hk (by simp)
      rw [if_pos hk0] at hk
      obtain rfl : s.fetched = w := Option.some.inj hk
      obtain rfl : k = s.wire.length := by omega
      obtain ⟨p, hp, hplen, hpeq⟩ := h.waiting 0 e rfl
      refine ⟨p, hp, ?_, ?_⟩
      · rw [← hplen, Mem.length_bytes, hlen]
      · intro hc
        rw [h.fetched e rfl hc, hlen]
        exact hpeq hc
  · intro i e' he'
    have hw := h.waiting (i + 1) e' he'
    rw [List.length_append, List.length_singleton, Nat.add_assoc, Nat.add_comm 1 i]
    exact hw

theorem Inv.transmit (h : s.Inv q) : ∃ q', s.transmit.Inv q' := by
  have hget := h.holds.full_get
  change (s.dmaTxDscrTab s.dma).own = true ↔ q ≠ [] at hget
  unfold EthTx.transmit
  dsimp only
  split_ifs with ho hlt
  · obtain ⟨e, q, rfl⟩ := List.exists_cons_of_ne_nil (hget.1 ho)
    rw [h.buffer1Addr, h.head.2]
    exact ⟨e :: q, h.fetch (by rwa [h.head.1] at hlt)⟩
  · obtain ⟨e, q, rfl⟩ := List.exists_cons_of_ne_nil (hget.1 ho)
    exact ⟨q, h.sendOff (by rw [h.head.1] at hlt; omega)⟩
  · exact ⟨q, h.buffer1Addr, h.nextDescAddr, h.holds, h.accepted, h.gone, h.waiting, h.fetched_le,
      h.fetched, h.fetched_nil, h.clobbered, h.buffer, h.copied⟩

/-! ## The processor -/

/-- What is known of a frame does not depend on anything but the histories. -/
theorem SentAsIs.clobber {k : ℕ} {w : List U8} (h : s.SentAsIs k w) (k' : ℕ) :
    SentAsIs { s with clobbered := s.clobbered ++ [k'] } k w := by
  obtain ⟨p, hp, hlen, heq⟩ := h
  exact ⟨p, hp, hlen, fun hc => heq fun hm => hc (List.mem_append_left _ hm)⟩

/-- A write to the buffer at `DMATxDescToSet`, seen in the ring. -/
theorem ring_put (s : EthTx) (l : ℕ) (b : U8) (pc : TxPc) (clobbered : List ℕ) :
    ring { s with
      txBuff := Function.update s.txBuff s.dmaTxDescToSet ((s.txBuff s.dmaTxDescToSet).put l b)
      clobbered := clobbered
      pc := pc } = s.ring.fill fun e => (e.1, e.2.put l b) := by
  simp only [ring, OwnRing.fill, OwnRing.mk.injEq, true_and, and_true]
  ext i : 1
  by_cases hi : i = s.dmaTxDescToSet
  · subst hi
    simp
  · simp [hi]

/-- A byte that is copied into a free buffer. -/
theorem Inv.copy_free (h : s.Inv q) (hbusy : s.busy = false) {p : TxFrame} {l : ℕ}
    (hpc : s.pc = .copy s.dmaTxDescToSet p l) (hl : l < p.data.length) :
    Inv { s with
      txBuff := Function.update s.txBuff s.dmaTxDescToSet
        ((s.txBuff s.dmaTxDescToSet).put l p.data[l])
      pc := .copy s.dmaTxDescToSet p (l + 1) } q := by
  have hlt : q.length < ethTxbufnb := by
    have hne : q.length ≠ ethTxbufnb := fun he => by simp [h.busy_iff.2 he] at hbusy
    have hle := h.holds.length_le
    omega
  have hcopied := h.copied
  rw [hpc] at hcopied
  refine ⟨h.buffer1Addr, h.nextDescAddr, ?_, h.accepted, h.gone, h.waiting, h.fetched_le,
    h.fetched, h.fetched_nil, h.clobbered, ?_, hl, ?_⟩
  · rw [ring_put]
    exact h.holds.fill hlt _
  · rintro b p' l' he
    cases he
    rfl
  · simp only [Function.update_self]
    exact TxPc.bytes_put hcopied.2 hl

/-- A byte that is copied into the buffer of the oldest frame. -/
theorem Inv.copy_busy (h : s.Inv q) (hbusy : s.busy = true) {p : TxFrame} {l : ℕ}
    (hpc : s.pc = .copy s.dmaTxDescToSet p l) (hl : l < p.data.length) :
    ∃ q', Inv { s with
      txBuff := Function.update s.txBuff s.dmaTxDescToSet
        ((s.txBuff s.dmaTxDescToSet).put l p.data[l])
      clobbered := s.clobbered ++ [s.wire.length]
      pc := .copy s.dmaTxDescToSet p (l + 1) } q' := by
  have hn : q.length = ethTxbufnb := h.busy_iff.1 hbusy
  have hcopied := h.copied
  rw [hpc] at hcopied
  obtain ⟨e, q, rfl⟩ : ∃ e q', q = e :: q' := by
    cases q with
    | nil => exact absurd hn (by decide)
    | cons e q => exact ⟨e, q, rfl⟩
  have hmem : s.wire.length ∈ s.clobbered ++ [s.wire.length] := by simp
  refine ⟨(e.1, e.2.put l p.data[l]) :: q, h.buffer1Addr, h.nextDescAddr, ?_, h.accepted,
    fun k w hk => (h.gone k w hk).clobber _, ?_, ?_, ?_, nofun, ?_, ?_, hl, ?_⟩
  · rw [ring_put]
    exact h.holds.fill_full hn _
  · intro i e' he'
    cases i with
    | zero =>
      obtain rfl : (e.1, e.2.put l p.data[l]) = e' := Option.some.inj he'
      obtain ⟨p', hp', hlen, -⟩ := h.waiting 0 e rfl
      refine ⟨p', hp', ?_, fun hc => absurd hmem hc⟩
      rw [Mem.length_bytes] at hlen ⊢
      exact hlen
    | succ i => exact (h.waiting (i + 1) e' he').clobber _
  · intro e' he'
    obtain rfl : (e.1, e.2.put l p.data[l]) = e' := Option.mem_some_iff.1 he'
    exact h.fetched_le e rfl
  · intro e' _ hc
    exact absurd hmem hc
  · intro k hk
    rcases List.mem_append.1 hk with hk | hk
    · exact h.clobbered k hk
    · rw [List.mem_singleton.1 hk, h.accepted, List.length_cons]
      omega
  · rintro b p' l' he
    cases he
    rfl
  · simp only [Function.update_self]
    exact TxPc.bytes_put hcopied.2 hl

/-- `TBS1` has room for the length of a frame. -/
theorem tbs1 {l : ℕ} (h : l ≤ ethMaxPacketSize) : l % 2 ^ 16 &&& 0x1FFF = l := by
  have hl : l ≤ 1520 := h
  have hmask : (0x1FFF : ℕ) = 2 ^ 13 - 1 := rfl
  rw [hmask, Nat.and_two_pow_sub_one_eq_mod]
  omega

/-- A frame that is given to the DMA. -/
theorem Inv.accept (h : s.Inv q) (hbusy : s.busy = false) {p : TxFrame} {l : ℕ}
    (hpc : s.pc = .txPkt p l) : ∃ q', Inv { s.ethTxPktChainMode p l with pc := .idle } q' := by
  have hlt : q.length < ethTxbufnb := by
    have hne : q.length ≠ ethTxbufnb := fun he => by simp [h.busy_iff.2 he] at hbusy
    have hle := h.holds.length_le
    omega
  have hcopied := h.copied
  rw [hpc] at hcopied
  obtain ⟨rfl, hbytes⟩ := hcopied
  have hgive := (h.holds.fill hlt fun e => (p.data.length, e.2)).give hlt
  have hput := s.ring.fill_buf_put fun e => (p.data.length, e.2)
  refine ⟨q ++ [(p.data.length, s.txBuff s.dmaTxDescToSet)], ?_⟩
  simp only [ethTxPktChainMode, hbusy, Bool.false_eq_true, if_false, tbs1 p.le]
  refine ⟨?_, ?_, ?_, ?_, ?_, ?_, ?_, ?_, ?_, ?_, nofun, trivial⟩
  · intro i
    by_cases hi : i = s.dmaTxDescToSet
    · subst hi
      simpa using h.buffer1Addr s.dmaTxDescToSet
    · simpa [hi] using h.buffer1Addr i
  · intro i
    by_cases hi : i = s.dmaTxDescToSet
    · subst hi
      simpa using h.nextDescAddr s.dmaTxDescToSet
    · simpa [hi] using h.nextDescAddr i
  · convert hgive using 1
    · simp only [ring, OwnRing.fill, OwnRing.give, OwnRing.mk.injEq, h.nextDescAddr, and_true]
      constructor
      · ext i : 1
        by_cases hi : i = s.dmaTxDescToSet
        · subst hi
          simp
        · simp [hi]
      · ext i : 1
        by_cases hi : i = s.dmaTxDescToSet
        · subst hi
          simp
        · simp [hi]
    · rw [OwnRing.fill_put, hput]
      rfl
  · simp only [List.length_append, List.length_singleton, h.accepted]
    omega
  · intro k w hk
    obtain ⟨p', hp', hw⟩ := h.gone k w hk
    refine ⟨p', ?_, hw⟩
    rw [List.getElem?_append_left (List.getElem?_eq_some_iff.1 hp').1]
    exact hp'
  · intro i e he
    rcases Nat.lt_or_ge i q.length with hi | hi
    · rw [List.getElem?_append_left hi] at he
      obtain ⟨p', hp', hw⟩ := h.waiting i e he
      refine ⟨p', ?_, hw⟩
      rw [List.getElem?_append_left (List.getElem?_eq_some_iff.1 hp').1]
      exact hp'
    · have hi' : i = q.length := by
        have hlen := (List.getElem?_eq_some_iff.1 he).1
        rw [List.length_append, List.length_singleton] at hlen
        omega
      subst hi'
      rw [List.getElem?_concat_length] at he
      obtain rfl := Option.some.inj he
      refine ⟨p, ?_, Mem.length_bytes _ _, fun _ => hbytes⟩
      rw [← h.accepted, List.getElem?_concat_length]
  · intro e he
    cases q with
    | nil =>
      rw [h.fetched_nil rfl]
      exact Nat.zero_le _
    | cons e' q => exact h.fetched_le e he
  · intro e he hc
    cases q with
    | nil =>
      rw [h.fetched_nil rfl]
      rfl
    | cons e' q => exact h.fetched e he hc
  · intro hnil
    exact absurd hnil (by simp)
  · intro k hk
    rw [List.length_append]
    exact Nat.lt_add_right _ (h.clobbered k hk)

/-- A step that changes the position only. -/
theorem Inv.goto (h : s.Inv q) (pc : TxPc) (hbuffer : ∀ b p l, pc = .copy b p l →
    b = s.dmaTxDescToSet) (hcopied : pc.Copied (s.txBuff s.dmaTxDescToSet)) :
    Inv { s with pc := pc } q :=
  ⟨h.buffer1Addr, h.nextDescAddr, h.holds, h.accepted, h.gone, h.waiting, h.fetched_le, h.fetched,
    h.fetched_nil, h.clobbered, hbuffer, hcopied⟩

theorem Inv.cpu (h : s.Inv q) : ∃ q', s.cpu.Inv q' := by
  have hcopied := h.copied
  cases hpc : s.pc with
  | idle =>
    rw [EthTx.cpu, hpc]
    exact ⟨q, h⟩
  | copy b p l =>
    obtain rfl := h.buffer b p l hpc
    rw [hpc] at hcopied
    rw [EthTx.cpu, hpc]
    dsimp only
    split_ifs with hl hbusy
    · exact h.copy_busy hbusy hpc hl
    · exact ⟨q, h.copy_free (by simpa using hbusy) hpc hl⟩
    · refine ⟨q, h.goto (.txPkt p l) nofun ?_⟩
      have hle : l = p.data.length := Nat.le_antisymm hcopied.1 (Nat.le_of_not_lt hl)
      refine ⟨hle, ?_⟩
      rw [hcopied.2, hle, List.take_length]
  | txPkt p l =>
    rw [EthTx.cpu, hpc]
    cases hbusy : s.busy with
    | true =>
      refine ⟨q, ?_⟩
      simp only [ethTxPktChainMode, hbusy, if_true]
      exact ⟨h.buffer1Addr, h.nextDescAddr, h.holds, h.accepted, h.gone, h.waiting, h.fetched_le,
        h.fetched, h.fetched_nil, h.clobbered, nofun, trivial⟩
    | false => exact h.accept hbusy hpc

theorem Inv.step (h : s.Inv q) (e : TxEvent) : ∃ q', (s.step e).Inv q' := by
  cases e with
  | output p =>
    refine ⟨q, ?_⟩
    unfold EthTx.step lowLevelOutput
    dsimp only
    split
    · refine h.goto (.copy s.ethGetCurrentTxBuffer p 0) ?_ ⟨Nat.zero_le _, rfl⟩
      rintro b p' l he
      cases he
      exact h.buffer1Addr _
    · exact h
  | cpu => exact h.cpu
  | dma => exact h.transmit

/-- At most two frames wait. -/
theorem Inv.wire_length (h : s.Inv q) : s.wire.length ≤ s.accepted.length ∧
    s.accepted.length ≤ s.wire.length + 2 := by
  have hq : q.length ≤ 2 := h.holds.length_le
  have hlen := h.accepted
  omega

theorem inv_run (es : List TxEvent) : ∃ q, (run EthTx.step init es).Inv q := by
  refine run_inv (I := fun s : EthTx => ∃ q, s.Inv q) ?_ es ⟨[], inv_init⟩
  rintro s e ⟨q, h⟩
  exact h.step e

/-- **In order, at their own length.**  The frames on the wire are the first ones accepted, each
    once; one whose buffer was not written to after it was accepted has gone out unaltered.  At
    most two frames wait. -/
theorem sent_in_order (es : List TxEvent) :
    let s := run step init es
    (∀ k w, s.wire[k]? = some w → s.SentAsIs k w) ∧ s.wire.length ≤ s.accepted.length ∧
      s.accepted.length ≤ s.wire.length + 2 := by
  obtain ⟨q, h⟩ := inv_run es
  exact ⟨h.gone, h.wire_length⟩

/-! ## Frames that come when a descriptor is free -/

/-- A call of `low_level_output` finds a free descriptor. -/
def Free (s : EthTx) (e : TxEvent) : Prop := ∀ p, e = .output p → s.busy = false

/-- The frame of a call of `low_level_output`. -/
def offered (s : EthTx) : TxEvent → List TxFrame
  | .output p => match s.pc with
    | .idle => [p]
    | _ => []
  | _ => []

/-- No frame was refused or written to after it was accepted, and none will be in the call under
    way; `ps` are the frames offered so far. -/
structure Clean (s : EthTx) (ps : List TxFrame) : Prop where
  clobbered : s.clobbered = []
  refused : s.refused = []
  free : s.pc ≠ .idle → s.busy = false
  offered : ps = s.accepted ++ s.pc.current

/-- The DMA takes no descriptor: it only gives some back. -/
theorem transmit_own (s : EthTx) (i : Fin ethTxbufnb)
    (h : (s.transmit.dmaTxDscrTab i).own = true) : (s.dmaTxDscrTab i).own = true := by
  unfold EthTx.transmit at h
  dsimp only at h
  split_ifs at h with ho hlt
  · exact h
  · by_cases hi : i = s.dma
    · rw [hi]
      exact ho
    · simpa [hi] using h
  · exact h

theorem Clean.transmit {ps : List TxFrame} (h : s.Clean ps) : s.transmit.Clean ps := by
  have hown := s.transmit_own s.dmaTxDescToSet
  unfold EthTx.transmit at hown ⊢
  dsimp only at hown ⊢
  split_ifs at hown ⊢ with ho hlt
  · exact ⟨h.clobbered, h.refused, h.free, h.offered⟩
  · refine ⟨h.clobbered, h.refused, fun hpc => ?_, h.offered⟩
    have hfree := h.free hpc
    rw [← Bool.not_eq_true] at hfree ⊢
    exact fun hbusy => hfree (hown hbusy)
  · exact ⟨h.clobbered, h.refused, h.free, h.offered⟩

theorem Clean.cpu {ps : List TxFrame} (h : s.Clean ps) : s.cpu.Clean ps := by
  have hfree := h.free
  have hoffered := h.offered
  cases hpc : s.pc with
  | idle =>
    rw [EthTx.cpu, hpc]
    exact h
  | copy b p l =>
    rw [hpc] at hfree hoffered
    have hb : s.busy = false := hfree nofun
    rw [EthTx.cpu, hpc]
    dsimp only
    split_ifs with hl hbusy
    · exact absurd hbusy (by simp [hb])
    · exact ⟨h.clobbered, h.refused, fun _ => hb, hoffered⟩
    · exact ⟨h.clobbered, h.refused, fun _ => hb, hoffered⟩
  | txPkt p l =>
    rw [hpc] at hfree hoffered
    have hb : s.busy = false := hfree nofun
    rw [EthTx.cpu, hpc]
    simp only [ethTxPktChainMode, hb, Bool.false_eq_true, if_false]
    refine ⟨h.clobbered, h.refused, fun hne => absurd rfl hne, ?_⟩
    rw [hoffered]
    exact (List.append_nil _).symm

theorem Clean.step {ps : List TxFrame} (h : s.Clean ps) {e : TxEvent} (he : s.Free e) :
    (s.step e).Clean (ps ++ s.offered e) := by
  cases e with
  | output p =>
    have hb : s.busy = false := he p rfl
    have hoffered := h.offered
    cases hpc : s.pc with
    | idle =>
      rw [hpc] at hoffered
      simp only [EthTx.step, lowLevelOutput, EthTx.offered, hpc]
      refine ⟨h.clobbered, h.refused, fun _ => hb, ?_⟩
      rw [hoffered]
      exact List.append_assoc _ _ _
    | copy b p' l =>
      simp only [EthTx.step, lowLevelOutput, EthTx.offered, hpc, List.append_nil]
      exact h
    | txPkt p' l =>
      simp only [EthTx.step, lowLevelOutput, EthTx.offered, hpc, List.append_nil]
      exact h
  | cpu =>
    simp only [EthTx.offered, List.append_nil]
    exact h.cpu
  | dma =>
    simp only [EthTx.offered, List.append_nil]
    exact h.transmit

theorem Clean.run {s : EthTx} {ps : List TxFrame} (h : s.Clean ps) {es : List TxEvent}
    (he : Along EthTx.step Free s es) :
    (run EthTx.step s es).Clean (ps ++ collect EthTx.step EthTx.offered s es) := by
  induction es generalizing s ps with
  | nil => rwa [collect, List.append_nil]
  | cons e es ih =>
    rw [collect, ← List.append_assoc]
    exact ih (h.step he.1) he.2

/-- **Nothing lost or altered.**  If `low_level_output` is called only when a descriptor is free,
    then the wire carries the frames it was given, unaltered, in order and without a gap, and at
    most three of them have not gone out. -/
theorem sent_unaltered (es : List TxEvent) (h : Along step Free init es) :
    let s := run step init es
    let ps := collect step offered init es
    s.wire = (ps.map TxFrame.data).take s.wire.length ∧ ps.length ≤ s.wire.length + 3 := by
  intro s ps
  have hclean : s.Clean ps := Clean.run ⟨rfl, rfl, fun hne => absurd rfl hne, rfl⟩ h
  obtain ⟨q, hinv⟩ := inv_run es
  have hcurrent := hclean.offered
  have hone := s.pc.length_current_le
  constructor
  · apply List.ext_getElem?
    intro k
    rcases Nat.lt_or_ge k s.wire.length with hk | hk
    · obtain ⟨p, hp, -, heq⟩ := hinv.gone k _ (List.getElem?_eq_getElem hk)
      have hnot : k ∉ s.clobbered := by
        rw [hclean.clobbered]
        exact List.not_mem_nil
      have hpk : ps[k]? = some p := by
        have hlt := (List.getElem?_eq_some_iff.1 hp).1
        rw [hcurrent, List.getElem?_append_left hlt]
        exact hp
      rw [List.getElem?_take_of_lt hk, List.getElem?_map, hpk, List.getElem?_eq_getElem hk]
      exact congrArg some (heq hnot)
    · rw [List.getElem?_eq_none hk, List.getElem?_eq_none]
      rw [List.length_take]
      omega
  · rw [hcurrent, List.length_append]
    have hacc : s.accepted.length ≤ s.wire.length + 2 := hinv.wire_length.2
    omega

/-- A frame of one byte. -/
theorem sent_unaltered_byte :
    let es : List TxEvent := [.output ⟨[7], by decide, by decide⟩, .cpu, .cpu, .cpu, .dma, .dma]
    let s := run step init es
    let ps := collect step offered init es
    s.wire = (ps.map TxFrame.data).take s.wire.length ∧ ps.length ≤ s.wire.length + 3 :=
  sent_unaltered _ ⟨fun _ _ => rfl, nofun, nofun, nofun, nofun, nofun, trivial⟩

end EthTx

end GndCtrl
