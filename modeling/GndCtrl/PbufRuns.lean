/-
  Runs of calls of core/pbuf.c.

  `PbufOp.Ok` are the rules of the functions: what a caller holds, and that a
  function which changes `tot_len` is given a pbuf to which no other chain leads.
  In a run of calls that follow them no call fails, no pbuf in use is given back
  or reached after it was given back, `tot_len` of every pbuf in use is right,
  and when the callers hold no reference the pool is complete (`pool_sound`).
-/
import GndCtrl.Lib.Simulation
import GndCtrl.PbufSizes

namespace GndCtrl

/-! ## Runs -/

/-- The pool and the references of the callers. -/
structure HeldPbufs where
  pbufs : Pbufs
  roots : List (Fin pbufPoolSize)

/-- A call of a function of pbuf.c. -/
inductive PbufOp where
  | alloc (layer : PbufLayer) (length : ℕ)
  | free (p : Fin pbufPoolSize)
  | ref (p : Fin pbufPoolSize)
  | cat (head tail : Fin pbufPoolSize)
  | chain (head tail : Fin pbufPoolSize)
  | dechain (p : Fin pbufPoolSize)
  | realloc (p : Fin pbufPoolSize) (newLen : ℕ)
  | header (p : Fin pbufPoolSize) (headerSizeIncrement : ℤ)
  | take (p : Fin pbufPoolSize) (data : List U8)

namespace HeldPbufs

/-- Before the first call. -/
def init : HeldPbufs := ⟨.init, []⟩

/-- A call: what it does to the references of the callers is in its documentation.  The pointers
    that `pbuf_alloc` and `pbuf_dechain` return are the output. -/
def step (s : HeldPbufs) : PbufOp → Option (List (Option (Fin pbufPoolSize)) × HeldPbufs)
  | .alloc layer length => do
    let (o, h) ← s.pbufs.pbufAlloc layer length
    return ([o], ⟨h, o.toList ++ s.roots⟩)
  | .free p => do
    let (_, h) ← s.pbufs.pbufFree p
    return ([], ⟨h, s.roots.erase p⟩)
  | .ref p => some ([], ⟨s.pbufs.pbufRef p, p :: s.roots⟩)
  | .cat head tail => do
    let h ← s.pbufs.pbufCat head tail
    -- the reference to the tail is taken over
    return ([], ⟨h, s.roots.erase tail⟩)
  | .chain head tail => do
    let h ← s.pbufs.pbufChain head tail
    return ([], ⟨h, s.roots⟩)
  | .dechain p => do
    let (o, h) ← s.pbufs.pbufDechain p
    return ([o], ⟨h, s.roots⟩)
  | .realloc p newLen => do
    let h ← s.pbufs.pbufRealloc p newLen
    return ([], ⟨h, s.roots⟩)
  | .header p headerSizeIncrement =>
    some ([], ⟨(s.pbufs.pbufHeader p headerSizeIncrement).2, s.roots⟩)
  | .take p data => do
    let (_, h) ← s.pbufs.pbufTake p data
    return ([], ⟨h, s.roots⟩)

end HeldPbufs

/-- The rules of the calls: a pbuf is in use; a reference that is given up is held; two chains that
    are joined have no pbuf in common; a count does not overflow; and no other pbuf leads to one
    whose `tot_len` the call changes. -/
def PbufOp.Ok (s : HeldPbufs) : PbufOp → Prop
  | .alloc _ length => length < 2 ^ 16
  | .free p => p ∈ s.roots
  | .ref p => p ∉ s.pbufs.free ∧ (s.pbufs.pbuf p).ref + 1 < 2 ^ 16
  | .cat head tail => head ∉ s.pbufs.free ∧ tail ∈ s.roots ∧
      (∀ x ∈ s.pbufs.chainOf head, x ∉ s.pbufs.chainOf tail) ∧
      s.pbufs.Alone (s.pbufs.chainOf head)
  | .chain head tail => head ∉ s.pbufs.free ∧ tail ∉ s.pbufs.free ∧
      (s.pbufs.pbuf tail).ref + 1 < 2 ^ 16 ∧
      (∀ x ∈ s.pbufs.chainOf head, x ∉ s.pbufs.chainOf tail) ∧
      s.pbufs.Alone (s.pbufs.chainOf head)
  | .dechain p => p ∉ s.pbufs.free ∧ s.pbufs.First p
  | .realloc p _ => p ∉ s.pbufs.free ∧ s.pbufs.Alone (s.pbufs.chainOf p)
  | .header p _ => p ∉ s.pbufs.free ∧ s.pbufs.First p
  | .take p _ => p ∉ s.pbufs.free

instance PbufOp.instDecidableOk (s : HeldPbufs) : (op : PbufOp) → Decidable (op.Ok s)
  | .alloc .. => inferInstanceAs (Decidable (_ < _))
  | .free _ => inferInstanceAs (Decidable (_ ∈ _))
  | .ref _ => inferInstanceAs (Decidable (_ ∧ _))
  | .cat .. => inferInstanceAs (Decidable (_ ∧ _ ∧ _ ∧ _))
  | .chain .. => inferInstanceAs (Decidable (_ ∧ _ ∧ _ ∧ _ ∧ _))
  | .dechain _ => inferInstanceAs (Decidable (_ ∧ _))
  | .realloc .. => inferInstanceAs (Decidable (_ ∧ _))
  | .header .. => inferInstanceAs (Decidable (_ ∧ _))
  | .take .. => inferInstanceAs (Decidable (_ ∉ _))

namespace HeldPbufs
open Pbufs

theorem sound_init : init.pbufs.Sound init.roots :=
  RefCounted.start (List.nodup_reverse.2 (List.nodup_finRange _)) fun p =>
    List.mem_reverse.2 (List.mem_finRange p)

/-- The counts and the lengths in the pool are right. -/
structure Right (s : HeldPbufs) : Prop where
  sound : s.pbufs.Sound s.roots
  sized : s.pbufs.Sized

theorem right_step (s : HeldPbufs) (op : PbufOp) (hs : Right s) (hok : op.Ok s) :
    ∃ o s', s.step op = some (o, s') ∧ Right s' := by
  obtain ⟨h, roots⟩ := s
  obtain ⟨hs, hz⟩ : h.Sound roots ∧ h.Sized := ⟨hs.sound, hs.sized⟩
  have hmax : ∀ x, x ∉ h.free → (h.pbuf x).totLen < 2 ^ 16 := by
    intro x hx
    have := hz.totLen_le hs hx
    omega
  -- the chain of a pbuf in use
  have hchain : ∀ p, p ∉ h.free → LinkChain h.next (some p) (h.chainOf p) ∧
      (∀ x ∈ h.chainOf p, x ∉ h.free) ∧ ∀ x ∈ h.chainOf p, h.TotRight x := by
    intro p hp
    have hl := hs.chain hp
    have hused := hs.chain_used hl fun x hx => by
      cases hx
      exact hp
    exact ⟨hl, hused, fun x hx => hz.tot x (hused x hx)⟩
  cases op with
  | alloc layer length =>
    obtain ⟨o, h', he, hs'⟩ := pbufAlloc_sound hs layer length
    exact ⟨[o], _, by simp only [step, he]; rfl, hs', hz.alloc hs he⟩
  | free p =>
    have hroots : h.Sound (p :: roots.erase p) := hs.perm (List.perm_cons_erase hok).symm
    obtain ⟨c, h', he, hs'⟩ := pbufFree_sound hroots
    exact ⟨[], _, by simp only [step, he]; rfl, hs', hz.same (pbufFree_sizes he)⟩
  | ref p =>
    exact ⟨[], _, rfl, pbufRef_sound hs hok.1 hok.2, hz.same (pbufRef_sizes h p)⟩
  | cat head tail =>
    obtain ⟨hhead, htail, hd, ha⟩ := hok
    have hroots : h.Sound (tail :: roots.erase tail) := hs.perm (List.perm_cons_erase htail).symm
    obtain ⟨hlh, hused, htot⟩ := hchain head hhead
    have hlt := (hchain tail (hs.root_used htail)).1
    have hnot : tail ∉ h.chainOf head := hlt.head_notMem hd
    obtain ⟨h', he, hj⟩ := catLoop_joined pbufPoolSize hlh hnot (chainOf_length hlh) htot
    exact ⟨[], _, by simp only [step, pbufCat, he]; rfl, hj.sound hroots hused hlt hd,
      hj.sized hz hs hlh hused hnot (hs.root_used htail) ha⟩
  | chain head tail =>
    obtain ⟨hhead, htail, hcount, hd, ha⟩ := hok
    obtain ⟨hlh, hused, htot⟩ := hchain head hhead
    have hlt := (hchain tail htail).1
    have hnot : tail ∉ h.chainOf head := hlt.head_notMem hd
    obtain ⟨h', he, hj⟩ := catLoop_joined pbufPoolSize hlh hnot (chainOf_length hlh) htot
    exact ⟨[], _, by simp only [step, pbufChain, pbufCat, he]; rfl,
      hj.sound_ref hs hused htail hcount hlt hd,
      (hj.sized hz hs hlh hused hnot htail ha).same (pbufRef_sizes h' tail)⟩
  | dechain p =>
    obtain ⟨hp, hf⟩ := hok
    obtain ⟨o, h', he, hs', hcut⟩ := pbufDechain_sound hs hp (hz.tot p hp)
      fun q hq => hmax q (hs.next_used hp hq)
    exact ⟨[o], _, by simp only [step, he]; rfl, hs', hcut.sized hz hf⟩
  | realloc p newLen =>
    obtain ⟨hp, ha⟩ := hok
    obtain ⟨hl, hused, htot⟩ := hchain p hp
    obtain ⟨h', he, hs', hcut⟩ := pbufRealloc_sound hs hp hl newLen htot
      fun x hx => hmax x (hused x hx)
    refine ⟨[], _, by simp only [step, he]; rfl, hs', ?_⟩
    rcases hcut with rfl | ⟨d, l₁, q, l₂, hsplit, hr⟩
    · exact hz
    · rw [hsplit] at hl ha
      exact hr.sized hz hl ha
  | header p inc =>
    obtain ⟨hp, hf⟩ := hok
    exact ⟨[], _, rfl, (pbufHeader_links h p inc).sound.2 hs, hz.header hs hp hf inc⟩
  | take p data =>
    obtain ⟨hl, hused, -⟩ := hchain p hok
    obtain ⟨ok, h', he, hlinks⟩ := pbufTake_links hl (hz.totLen_eq hl hused).le data
    exact ⟨[], _, by simp only [step, he]; rfl, hlinks.sound.2 hs, hz.same (pbufTake_sizes he)⟩

/-- **The pool is sound.**  In every run of calls that follow the rules no call fails; a pbuf is
    free just when neither a caller nor a pbuf in use refers to it, once in the list of free pbufs;
    the count of a pbuf in use is the number of its references and its `tot_len` the length of its
    chain; and when the callers hold none, all pbufs are free. -/
theorem pool_sound (ops : List PbufOp) (hok : Allowed step (fun s op => op.Ok s) init ops) :
    ∃ os s, tryRun step init ops = some (os, s) ∧ s.pbufs.free.Nodup ∧
      (∀ p, p ∈ s.pbufs.free ↔ p ∉ s.roots ∧ ∀ q, q ∉ s.pbufs.free → s.pbufs.next q ≠ some p) ∧
      (∀ p, p ∉ s.pbufs.free → (s.pbufs.pbuf p).ref = s.roots.count p +
        (Finset.univ.filter fun q => q ∉ s.pbufs.free ∧ s.pbufs.next q = some p).card) ∧
      (∀ p, p ∉ s.pbufs.free → (s.pbufs.pbuf p).totLen = s.pbufs.chainLen (s.pbufs.chainOf p)) ∧
      (s.roots = [] → ∀ p, p ∈ s.pbufs.free) := by
  obtain ⟨os, s, hrun, hs, hz⟩ := tryRun_inv right_step ops ⟨sound_init, sized_init⟩ hok
  refine ⟨os, s, hrun, hs.nodup, fun p => ⟨fun hp => ?_, ?_⟩, hs.used, fun p hp => ?_,
    fun hnil => ?_⟩
  · obtain ⟨hroot, hzero⟩ := hs.unused p hp
    refine ⟨hroot, fun q hq hqp => ?_⟩
    have hpos := pointers_pos hq hqp
    omega
  · rintro ⟨hroot, hnone⟩
    by_contra hp
    have hpos := hs.pos p hp
    have hzero : pointers s.pbufs.next s.pbufs.free p = 0 := by
      refine Finset.card_eq_zero.2 (Finset.filter_eq_empty_iff.2 ?_)
      intro q _ hq
      exact hnone q hq.1 hq.2
    rw [hs.used p hp, List.count_eq_zero.2 hroot, hzero] at hpos
    exact absurd hpos (Nat.lt_irrefl 0)
  · have hl := hs.chain hp
    exact hz.totLen_eq hl (hs.chain_used hl fun x hx => by
      cases hx
      exact hp)
  · rw [hnil] at hs
    exact hs.no_leak

/-- Two heads share a chain of two pbufs, which is cut before; the second one is dechained and the
    first one is freed. -/
theorem pool_sound_shared :
    let ops : List PbufOp := [.alloc .transport 2000, .alloc .raw 10, .alloc .raw 20,
      .chain 7 9, .realloc 7 12, .cat 6 9, .take 6 [1, 2], .header 6 (-4), .dechain 6, .free 7,
      .free 6]
    ∃ os s, tryRun step init ops = some (os, s) ∧ s.pbufs.free.Nodup ∧
      (∀ p, p ∈ s.pbufs.free ↔ p ∉ s.roots ∧ ∀ q, q ∉ s.pbufs.free → s.pbufs.next q ≠ some p) ∧
      (∀ p, p ∉ s.pbufs.free → (s.pbufs.pbuf p).ref = s.roots.count p +
        (Finset.univ.filter fun q => q ∉ s.pbufs.free ∧ s.pbufs.next q = some p).card) ∧
      (∀ p, p ∉ s.pbufs.free → (s.pbufs.pbuf p).totLen = s.pbufs.chainLen (s.pbufs.chainOf p)) ∧
      (s.roots = [] → ∀ p, p ∈ s.pbufs.free) :=
  pool_sound _ (by decide +kernel)

end HeldPbufs

end GndCtrl
