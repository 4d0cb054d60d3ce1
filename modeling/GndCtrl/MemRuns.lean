/-
  Runs of calls of core/mem.c.

  `MemOp.Ok` are the rules of the calls.  In a run of calls that follow them no
  assertion fails and every loop ends; the blocks held are aligned, as large as
  asked for and apart (`heap_sound`); the heap writes to none of them
  (`writes_spare`); and `mem_malloc` finds a place whenever there is one between
  the blocks held (`malloc_complete`).
-/
import GndCtrl.Lib.Simulation
import GndCtrl.MemRows

namespace GndCtrl

/-- The heap and the blocks of the callers: the pointers and the sizes asked for. -/
structure HeldMem where
  heap : MemHeap
  held : List (ℕ × ℕ)

/-- A call of a function of mem.c. -/
inductive MemOp where
  | malloc (size : ℕ)
  | free (rmem : ℕ)
  | realloc (rmem newsize : ℕ)

/-- The end of a block. -/
def MemHeap.blockEnd (h : MemHeap) (rmem : ℕ) : ℕ := (h.ram (rmem - sizeofStructMem)).next

/-- The largest size that `LWIP_MEM_ALIGN_SIZE` leaves within 16 bits. -/
abbrev memSizeMax : ℕ := 2 ^ 16 - 4

namespace HeldMem

/-- Before the first call. -/
def init : HeldMem := ⟨.init, []⟩

/-- The blocks held after `mem_realloc`. -/
def resize (rmem newsize : ℕ) (q : ℕ × ℕ) : ℕ × ℕ := if q.1 = rmem then (rmem, newsize) else q

/-- A call; the pointers that `mem_malloc` and `mem_realloc` return are the output. -/
def step (s : HeldMem) : MemOp → Option (List (Option ℕ) × HeldMem)
  | .malloc size => do
    let (o, h) ← s.heap.memMalloc size
    return ([o], ⟨h, o.toList.map (·, size) ++ s.held⟩)
  | .free rmem => do
    let h ← s.heap.memFree (some rmem)
    return ([], ⟨h, s.held.filter (·.1 ≠ rmem)⟩)
  | .realloc rmem newsize => do
    let (o, h) ← s.heap.memRealloc rmem newsize
    return ([o], ⟨h, if o = none then s.held else s.held.map (resize rmem newsize)⟩)

end HeldMem

/-- The rules of the calls: a block that is given back or made shorter is held; it is only made
    shorter. -/
def MemOp.Ok (s : HeldMem) : MemOp → Prop
  | .malloc size => size < 2 ^ 16
  | .free rmem => ∃ q ∈ s.held, q.1 = rmem
  | .realloc rmem newsize => ∃ q ∈ s.held, q.1 = rmem ∧ newsize ≤ q.2 ∧ q.2 ≤ memSizeMax

instance MemOp.instDecidableOk (s : HeldMem) : (op : MemOp) → Decidable (op.Ok s)
  | .malloc _ => inferInstanceAs (Decidable (_ < _))
  | .free _ => inferInstanceAs (Decidable (∃ _ ∈ _, _))
  | .realloc .. => inferInstanceAs (Decidable (∃ _ ∈ _, _))

namespace HeldMem
open MemHeap

/-- The used blocks of the row are those that are held. -/
structure Matches (s : HeldMem) (bs : List Block) : Prop where
  holds : s.heap.Holds bs
  perm : (s.held.map Prod.fst).Perm ((usedAt 0 bs).map (·.1 + sizeofStructMem))
  size : ∀ q ∈ s.held, ∃ u ∈ usedAt 0 bs,
    u.1 + sizeofStructMem = q.1 ∧ sizeofStructMem + alignedSize q.2 ≤ u.2

theorem matches_init : init.Matches [⟨false, memSizeAligned⟩] :=
  ⟨holds_init, List.Perm.nil, nofun⟩

theorem usedAt_nodup {bs : List Block} (hs : Solid bs) :
    ((usedAt 0 bs).map (·.1 + sizeofStructMem)).Nodup := by
  have hlt : (usedAt 0 bs).Pairwise fun u v => u.1 < v.1 := by
    refine (usedAt_pairwise 0 bs).imp_of_mem ?_
    intro u v hu _ h
    obtain ⟨l, r, rfl, -⟩ := mem_usedAt.1 hu
    have := hs _ (List.mem_append_right l List.mem_cons_self)
    dsimp only at this
    omega
  refine List.pairwise_map.2 (hlt.imp ?_)
  intro u v h
  exact Nat.ne_of_lt (Nat.add_lt_add_right h _)

theorem usedAt_taken {size : ℕ} {b : Block} (hfit : Fits size b) (a : ℕ) (r : List Block) :
    ∃ s, sizeofStructMem + size ≤ s ∧
      usedAt a (taken size b ++ r) = (a, s) :: usedAt (a + b.size) r := by
  have hle := hfit.2
  unfold taken
  split_ifs
  · refine ⟨sizeofStructMem + size, le_rfl, ?_⟩
    change (a, sizeofStructMem + size) :: usedAt (a + (sizeofStructMem + size) +
      (b.size - (sizeofStructMem + size))) r = _
    rw [show a + (sizeofStructMem + size) + (b.size - (sizeofStructMem + size)) = a + b.size by
      omega]
  · exact ⟨b.size, hle, rfl⟩

theorem alignedSize_mono {m n : ℕ} (hmn : m ≤ n) (hn : n ≤ memSizeMax) :
    alignedSize m ≤ alignedSize n := by
  have hmax : memSizeMax = 65532 := rfl
  unfold alignedSize lwipMemAlignSize
  refine max_le_max ?_ le_rfl
  rw [Nat.mod_eq_of_lt (by omega), Nat.mod_eq_of_lt (by omega)]
  omega

theorem le_alignedSize {n : ℕ} (hn : n ≤ memSizeMax) : n ≤ alignedSize n := by
  have hmax : memSizeMax = 65532 := rfl
  unfold alignedSize lwipMemAlignSize
  refine le_max_of_le_left ?_
  rw [Nat.mod_eq_of_lt (by omega)]
  omega

section
variable {h : MemHeap} {held : List (ℕ × ℕ)} {bs : List Block}
  (hm : Matches ⟨h, held⟩ bs)
include hm

theorem malloc_spec (size : ℕ) : ∃ o s' bs', step ⟨h, held⟩ (.malloc size) = some (o, s') ∧
    s'.Matches bs' ∧ h.Spares s'.heap (usedAt 0 bs') := by
  obtain ⟨hh, hperm, hsize⟩ := hm
  by_cases h0 : size = 0
  · have he : h.memMalloc size = some (none, h) := by rw [memMalloc, if_pos h0]
    exact ⟨_, _, bs, by simp only [step, he]; rfl, ⟨hh, hperm, hsize⟩, Spares.refl h _⟩
  rcases memMalloc_spec hh h0 with ⟨l, b, r, h', rfl, hfit, he, hh', hsp⟩ | ⟨-, he⟩
  swap
  · exact ⟨_, _, bs, by simp only [step, he]; rfl, ⟨hh, hperm, hsize⟩, Spares.refl h _⟩
  obtain ⟨z, hz, htaken⟩ := usedAt_taken hfit (extent l) r
  have hold : usedAt 0 (l ++ b :: r) = usedAt 0 l ++ usedAt (extent l + b.size) r := by
    rw [usedAt_append, usedAt_free hfit.1, Nat.zero_add]
  have hnew : usedAt 0 (l ++ (taken (alignedSize size) b ++ r)) =
      usedAt 0 l ++ (extent l, z) :: usedAt (extent l + b.size) r := by
    rw [usedAt_append, Nat.zero_add, htaken]
  refine ⟨[some (extent l + sizeofStructMem)], ⟨h', (extent l + sizeofStructMem, size) :: held⟩, _,
    by simp only [step, he]; rfl, ⟨hh', ?_, ?_⟩, hsp⟩
  · dsimp only at hperm ⊢
    rw [hold, List.map_append] at hperm
    rw [hnew, List.map_append, List.map_cons, List.map_cons]
    exact (hperm.cons _).trans List.perm_middle.symm
  · intro q hq
    rcases List.mem_cons.1 hq with rfl | hq
    · exact ⟨(extent l, z), by rw [hnew]; exact List.mem_append_right _ List.mem_cons_self, rfl, hz⟩
    · obtain ⟨u, hu, hrest⟩ := hsize q hq
      refine ⟨u, ?_, hrest⟩
      rw [hnew]
      rw [hold] at hu
      exact List.mem_append.2 ((List.mem_append.1 hu).imp_right (List.mem_cons_of_mem _))

/-- A block held, in the row. -/
theorem row_of_held {q : ℕ × ℕ} (hq : q ∈ held) : ∃ l r z, bs = l ++ ⟨true, z⟩ :: r ∧
    extent l + sizeofStructMem = q.1 ∧ sizeofStructMem + alignedSize q.2 ≤ z ∧
    usedAt 0 bs = usedAt 0 l ++ (extent l, z) :: usedAt (extent l + z) r := by
  obtain ⟨⟨x, z⟩, hu, hptr, hle⟩ := hm.size q hq
  obtain ⟨l, r, rfl, hx⟩ := mem_usedAt.1 hu
  rw [Nat.zero_add] at hx
  dsimp only at hx hptr hle
  refine ⟨l, r, z, rfl, by rw [← hx, hptr], hle, ?_⟩
  rw [usedAt_append, usedAt_used rfl, Nat.zero_add]

/-- The other blocks that are held. -/
theorem row_of_other {l r : List Block} {z : ℕ}
    (hu : usedAt 0 bs = usedAt 0 l ++ (extent l, z) :: usedAt (extent l + z) r) {q : ℕ × ℕ}
    (hq : q ∈ held) (hne : q.1 ≠ extent l + sizeofStructMem) :
    ∃ u ∈ usedAt 0 l ++ usedAt (extent l + z) r,
      u.1 + sizeofStructMem = q.1 ∧ sizeofStructMem + alignedSize q.2 ≤ u.2 := by
  obtain ⟨u, hmem, hptr, hle⟩ := hm.size q hq
  refine ⟨u, ?_, hptr, hle⟩
  rw [hu] at hmem
  rcases List.mem_append.1 hmem with hmem | hmem
  · exact List.mem_append_left _ hmem
  · rcases List.mem_cons.1 hmem with rfl | hmem
    · exact absurd hptr.symm hne
    · exact List.mem_append_right _ hmem

theorem free_spec {q : ℕ × ℕ} (hq : q ∈ held) :
    ∃ o s' bs', step ⟨h, held⟩ (.free q.1) = some (o, s') ∧ s'.Matches bs' ∧
      h.Spares s'.heap (usedAt 0 bs') := by
  have hother := @row_of_other h held bs hm
  obtain ⟨l, r, z, rfl, hptr, -, hold⟩ := row_of_held hm hq
  obtain ⟨hh, hperm, -⟩ := hm
  obtain ⟨h', bs', he, hh', hused, hsp⟩ := memFree_spec hh rfl
  rw [hptr] at he
  refine ⟨[], ⟨h', held.filter (·.1 ≠ q.1)⟩, bs', by simp only [step, he]; rfl, ⟨hh', ?_, ?_⟩, hsp⟩
  · have hnodup := usedAt_nodup (solid_of_fair hh.fair)
    have hfilter := hperm.filter (· ≠ q.1)
    rw [hold, List.map_append, List.map_cons] at hnodup hfilter
    dsimp only at hnodup hfilter ⊢
    rw [hptr] at hnodup hfilter
    have hnot := List.nodup_middle.1 hnodup
    rw [List.nodup_cons] at hnot
    have hstay (x : ℕ) (hx : x ∈ (usedAt 0 l).map (·.1 + sizeofStructMem) ++
        (usedAt (extent l + z) r).map (·.1 + sizeofStructMem)) : x ≠ q.1 :=
      fun heq => hnot.1 (heq ▸ hx)
    rw [List.filter_append, List.filter_cons_of_neg (by simp), ← List.filter_append,
      List.filter_eq_self.2 fun x hx => decide_eq_true (hstay x hx)] at hfilter
    rw [List.filter_map] at hfilter
    rw [hused, List.map_append]
    exact hfilter
  · intro q' hq'
    obtain ⟨hq', hne⟩ := List.mem_filter.1 hq'
    rw [hused]
    exact hother hold hq' (by rw [hptr]; exact of_decide_eq_true hne)

theorem realloc_spec {q : ℕ × ℕ} (hq : q ∈ held) {newsize : ℕ} (hle : newsize ≤ q.2)
    (hmax : q.2 ≤ memSizeMax) :
    ∃ o s' bs', step ⟨h, held⟩ (.realloc q.1 newsize) = some (o, s') ∧ s'.Matches bs' ∧
      h.Spares s'.heap (usedAt 0 bs') := by
  have hother := @row_of_other h held bs hm
  obtain ⟨l, r, z, rfl, hptr, hz, hold⟩ := row_of_held hm hq
  obtain ⟨hh, hperm, -⟩ := hm
  have hsmall := alignedSize_mono hle hmax
  obtain ⟨h', z', r', he, hh', hz', hused, hsp⟩ :=
    memRealloc_spec hh rfl (show sizeofStructMem + alignedSize newsize ≤ z by omega)
  rw [hptr] at he
  have hnew : usedAt 0 (l ++ ⟨true, z'⟩ :: r') =
      usedAt 0 l ++ (extent l, z') :: usedAt (extent l + z) r := by
    rw [usedAt_append, usedAt_used rfl, Nat.zero_add, hused]
  refine ⟨[some q.1], ⟨h', held.map (resize q.1 newsize)⟩, _, by simp only [step, he]; rfl,
    ⟨hh', ?_, ?_⟩, hsp⟩
  · have hfst : (held.map (resize q.1 newsize)).map Prod.fst = held.map Prod.fst := by
      rw [List.map_map]
      refine List.map_congr_left fun q' _ => ?_
      simp only [Function.comp, resize]
      split_ifs with heq
      · exact heq.symm
      · rfl
    dsimp only at hperm ⊢
    rw [hold, List.map_append, List.map_cons] at hperm
    rw [hfst, hnew, List.map_append, List.map_cons]
    exact hperm
  · intro q' hq'
    obtain ⟨q₀, hq₀, rfl⟩ := List.mem_map.1 hq'
    rw [hnew]
    by_cases heq : q₀.1 = q.1
    · refine ⟨(extent l, z'), List.mem_append_right _ List.mem_cons_self, ?_⟩
      rw [resize, if_pos heq]
      exact ⟨hptr, hz'⟩
    · obtain ⟨u, hu, hrest⟩ := hother hold hq₀ (by rw [hptr]; exact heq)
      refine ⟨u, ?_, by rwa [resize, if_neg heq]⟩
      exact List.mem_append.2 ((List.mem_append.1 hu).imp_right (List.mem_cons_of_mem _))

end

/-- **A call** that follows the rules. -/
theorem step_spec {s : HeldMem} {bs : List Block} (hm : s.Matches bs) {op : MemOp}
    (hok : op.Ok s) : ∃ o s' bs', s.step op = some (o, s') ∧ s'.Matches bs' ∧
      s.heap.Spares s'.heap (usedAt 0 bs') := by
  cases op with
  | malloc size => exact malloc_spec hm size
  | free rmem =>
    obtain ⟨q, hq, rfl⟩ := hok
    exact free_spec hm hq
  | realloc rmem newsize =>
    obtain ⟨q, hq, rfl, hle, hmax⟩ := hok
    exact realloc_spec hm hq hle hmax

/-! ## The results -/

/-- The state after a run of calls that follow the rules. -/
theorem matches_run (ops : List MemOp) (hok : Allowed step (fun s op => op.Ok s) init ops) :
    ∃ os s bs, tryRun step init ops = some (os, s) ∧ s.Matches bs := by
  have hstep (s : HeldMem) (op : MemOp) (hs : ∃ bs, s.Matches bs) (hok : op.Ok s) :
      ∃ o s', s.step op = some (o, s') ∧ ∃ bs, s'.Matches bs := by
    obtain ⟨bs, hm⟩ := hs
    obtain ⟨o, s', bs', he, hm', -⟩ := step_spec hm hok
    exact ⟨o, s', he, bs', hm'⟩
  obtain ⟨os, s, hrun, bs, hm⟩ := tryRun_inv hstep ops ⟨_, matches_init⟩ hok
  exact ⟨os, s, bs, hrun, hm⟩

/-- The block of a pointer that is held. -/
theorem Matches.block {s : HeldMem} {bs : List Block} (hm : s.Matches bs) {q : ℕ × ℕ}
    (hq : q ∈ s.held) : ∃ u ∈ usedAt 0 bs, q.1 = u.1 + sizeofStructMem ∧
      s.heap.blockEnd q.1 = u.1 + u.2 ∧ sizeofStructMem + alignedSize q.2 ≤ u.2 := by
  obtain ⟨l, r, z, rfl, hptr, hle, hu⟩ := row_of_held hm hq
  refine ⟨(extent l, z), ?_, hptr.symm, ?_, hle⟩
  · rw [hu]
    exact List.mem_append_right _ List.mem_cons_self
  · rw [blockEnd, ← hptr, Nat.add_sub_cancel, hm.holds.ram_eq]

/-- Every used block is held. -/
theorem Matches.held {s : HeldMem} {bs : List Block} (hm : s.Matches bs) {u : ℕ × ℕ}
    (hu : u ∈ usedAt 0 bs) :
    ∃ q ∈ s.held, q.1 = u.1 + sizeofStructMem ∧ s.heap.blockEnd q.1 = u.1 + u.2 := by
  have hmem : u.1 + sizeofStructMem ∈ s.held.map Prod.fst :=
    hm.perm.mem_iff.2 (List.mem_map_of_mem hu)
  obtain ⟨q, hq, hptr⟩ := List.mem_map.1 hmem
  refine ⟨q, hq, hptr, ?_⟩
  obtain ⟨l, r, rfl, hul⟩ := mem_usedAt.1 hu
  rw [Nat.zero_add] at hul
  rw [blockEnd, hptr, Nat.add_sub_cancel, hul, hm.holds.ram_eq]

/-- **The heap is sound.**  In every run of calls that follow the rules no assertion fails and
    every loop ends; the blocks held are aligned, within the heap, as large as asked for and apart,
    with their structures; and when none is held the heap is one free block. -/
theorem heap_sound (ops : List MemOp) (hok : Allowed step (fun s op => op.Ok s) init ops) :
    ∃ os s, tryRun step init ops = some (os, s) ∧
      (∀ q ∈ s.held, q.1 % 4 = 0 ∧ s.heap.blockEnd q.1 ≤ memSizeAligned ∧
        (q.2 ≤ memSizeMax → q.1 + q.2 ≤ s.heap.blockEnd q.1)) ∧
      s.held.Pairwise (fun q q' => s.heap.blockEnd q.1 + sizeofStructMem ≤ q'.1 ∨
        s.heap.blockEnd q'.1 + sizeofStructMem ≤ q.1) ∧
      (s.held = [] → s.heap.ram 0 = ⟨memSizeAligned, 0, false⟩ ∧ s.heap.lfree = 0) := by
  obtain ⟨os, s, bs, hrun, hm⟩ := matches_run ops hok
  have hsolid := solid_of_fair hm.holds.fair
  refine ⟨os, s, hrun, fun q hq => ?_, ?_, fun hnil => ?_⟩
  · obtain ⟨u, hu, hptr, hend, hle⟩ := hm.block hq
    obtain ⟨l, r, rfl, hul⟩ := mem_usedAt.1 hu
    obtain ⟨-, -, hdvd, hlast⟩ := hm.holds.place
    have hstruct : sizeofStructMem = 8 := rfl
    rw [Nat.zero_add] at hul
    refine ⟨by omega, ?_, fun hmax => ?_⟩
    · rw [hend, hul]
      exact hlast
    · have := le_alignedSize hmax
      omega
  · have hnodup : (s.held.map Prod.fst).Nodup := hm.perm.nodup_iff.2 (usedAt_nodup hsolid)
    have hne : s.held.Pairwise fun q q' => q.1 ≠ q'.1 := List.pairwise_map.1 hnodup
    refine hne.imp_of_mem fun hq hq' hqq' => ?_
    obtain ⟨u, hu, hptr, hend, -⟩ := hm.block hq
    obtain ⟨u', hu', hptr', hend', -⟩ := hm.block hq'
    have hout := outside_used hu' u hu
    have hout' := outside_used hu u' hu'
    unfold Outside at hout hout'
    omega
  · have hused : usedAt 0 bs = [] := by
      have := hm.perm
      rw [hnil, List.map_nil] at this
      exact List.map_eq_nil_iff.1 (List.nil_perm.1 this)
    have hne : bs ≠ [] := by
      rintro rfl
      exact absurd hm.holds.full (by decide)
    have hone := hm.holds.merged.eq_single hused hne
    rw [hm.holds.full] at hone
    subst hone
    exact ⟨hm.holds.laid.1, hm.holds.lfree⟩

/-- **The heap leaves the blocks alone.**  The structures a call writes to are not within a block
    that is held after it. -/
theorem writes_spare (ops : List MemOp) (hok : Allowed step (fun s op => op.Ok s) init ops) :
    ∃ os s, tryRun step init ops = some (os, s) ∧ ∀ op : MemOp, op.Ok s →
      ∃ o s', s.step op = some (o, s') ∧ ∃ ws, s'.heap.writes = s.heap.writes ++ ws ∧
        ∀ y ∈ ws, ∀ q ∈ s'.held,
          y + sizeofStructMem ≤ q.1 ∨ s'.heap.blockEnd q.1 ≤ y := by
  obtain ⟨os, s, bs, hrun, hm⟩ := matches_run ops hok
  refine ⟨os, s, hrun, fun op hop => ?_⟩
  obtain ⟨o, s', bs', he, hm', ws, hws, hout⟩ := step_spec hm hop
  refine ⟨o, s', he, ws, hws, fun y hy q hq => ?_⟩
  obtain ⟨u, hu, hptr, hend, -⟩ := hm'.block hq
  have := hout y hy u hu
  unfold Outside at this
  omega

/-- **`mem_malloc` finds every place.**  It returns a block just when there is a place for one
    that meets no block held, wherever it is, and the size is not 0: that gets no block. -/
theorem malloc_complete (ops : List MemOp) (hok : Allowed step (fun s op => op.Ok s) init ops)
    (size : ℕ) :
    ∃ os s, tryRun step init ops = some (os, s) ∧
      ((∃ p h, s.heap.memMalloc size = some (some p, h)) ↔ size ≠ 0 ∧
        ∃ a, a + sizeofStructMem + alignedSize size ≤ memSizeAligned ∧ ∀ q ∈ s.held,
          a + sizeofStructMem + alignedSize size + sizeofStructMem ≤ q.1 ∨
            s.heap.blockEnd q.1 ≤ a) := by
  obtain ⟨os, s, bs, hrun, hm⟩ := matches_run ops hok
  have hstruct : sizeofStructMem = 8 := rfl
  refine ⟨os, s, hrun, ?_, ?_⟩
  · rintro ⟨p, h, he⟩
    by_cases h0 : size = 0
    · rw [memMalloc, if_pos h0] at he
      cases he
    refine ⟨h0, ?_⟩
    rcases memMalloc_spec hm.holds h0 with ⟨l, b, r, h', rfl, hfit, -⟩ | ⟨-, hnone⟩
    swap
    · rw [hnone] at he
      cases he
    obtain ⟨-, -, -, hend⟩ := hm.holds.place
    have hle := hfit.2
    refine ⟨extent l, by omega, fun q hq => ?_⟩
    obtain ⟨u, hu, hptr, hblock, -⟩ := hm.block hq
    rw [usedAt_append, usedAt_free hfit.1, Nat.zero_add] at hu
    rcases List.mem_append.1 hu with hu | hu
    · have := (usedAt_bounds hu).2
      omega
    · have := (usedAt_bounds hu).1
      omega
  · rintro ⟨h0, a, ha, hgap⟩
    rcases memMalloc_spec hm.holds h0 with ⟨l, b, r, h', -, -, he, -⟩ | ⟨hnone, -⟩
    · exact ⟨_, _, he⟩
    obtain ⟨l, b, r, rfl, hb, hle, hle'⟩ := exists_free_of_gap hm.holds.merged
      (solid_of_fair hm.holds.fair) (x := a) (w := sizeofStructMem + alignedSize size) (a := 0)
      (by omega) (Nat.zero_le a) (by rw [hm.holds.full]; omega) fun u hu => by
        obtain ⟨q, hq, hptr, hend⟩ := hm.held hu
        have := hgap q hq
        omega
    refine absurd ⟨hb, ?_⟩ (hnone b (List.mem_append_right l List.mem_cons_self))
    omega

/-- Three blocks are taken, the second is made shorter, and the first and the second are given
    back. -/
def calls : List MemOp :=
  [.malloc 100, .malloc 1500, .malloc 3, .realloc 116 40, .malloc 20, .free 8, .free 116]

theorem heap_sound_calls : ∃ os s, tryRun step init calls = some (os, s) ∧
    (∀ q ∈ s.held, q.1 % 4 = 0 ∧ s.heap.blockEnd q.1 ≤ memSizeAligned ∧
      (q.2 ≤ memSizeMax → q.1 + q.2 ≤ s.heap.blockEnd q.1)) ∧
    s.held.Pairwise (fun q q' => s.heap.blockEnd q.1 + sizeofStructMem ≤ q'.1 ∨
      s.heap.blockEnd q'.1 + sizeofStructMem ≤ q.1) ∧
    (s.held = [] → s.heap.ram 0 = ⟨memSizeAligned, 0, false⟩ ∧ s.heap.lfree = 0) :=
  heap_sound calls (by decide +kernel)

theorem writes_spare_calls : ∃ os s, tryRun step init calls = some (os, s) ∧ ∀ op : MemOp, op.Ok s →
    ∃ o s', s.step op = some (o, s') ∧ ∃ ws, s'.heap.writes = s.heap.writes ++ ws ∧
      ∀ y ∈ ws, ∀ q ∈ s'.held, y + sizeofStructMem ≤ q.1 ∨ s'.heap.blockEnd q.1 ≤ y :=
  writes_spare calls (by decide +kernel)

theorem malloc_complete_calls : ∃ os s, tryRun step init calls = some (os, s) ∧
    ((∃ p h, s.heap.memMalloc 1000 = some (some p, h)) ↔ 1000 ≠ 0 ∧
      ∃ a, a + sizeofStructMem + alignedSize 1000 ≤ memSizeAligned ∧ ∀ q ∈ s.held,
        a + sizeofStructMem + alignedSize 1000 + sizeofStructMem ≤ q.1 ∨
          s.heap.blockEnd q.1 ≤ a) :=
  malloc_complete calls (by decide +kernel) 1000

end HeldMem

end GndCtrl
