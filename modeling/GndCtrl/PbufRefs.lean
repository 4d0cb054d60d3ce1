/-
  The reference counts of the packet buffers.

  `Sound` says that the counts in the pool are right for the references that the
  callers hold.  There is a lemma for each function of core/pbuf.c that takes,
  shares or gives back pbufs: where the counts are right its loop ends, without a
  failed assertion or the use of a null pointer, and they are right afterwards.
  The functions that join and cut chains rely on the lengths too.
-/
import GndCtrl.Lib.RefCount
import GndCtrl.Pbufs

namespace GndCtrl

namespace Pbufs

/-- The pointers of the pool. -/
def next (h : Pbufs) (p : Fin pbufPoolSize) : Option (Fin pbufPoolSize) := (h.pbuf p).next

/-- The counts of the pool. -/
def refs (h : Pbufs) (p : Fin pbufPoolSize) : ℕ := (h.pbuf p).ref

/-- The counts are right for the references `roots` of the callers. -/
def Sound (h : Pbufs) (roots : List (Fin pbufPoolSize)) : Prop :=
  RefCounted h.next h.refs h.free roots

/-! ## Assignments -/

section
variable (h : Pbufs) (p : Fin pbufPoolSize) (f : PbufStruct → PbufStruct)

@[simp] theorem set_free : (h.set p f).free = h.free := rfl

@[simp] theorem set_self : (h.set p f).pbuf p = f (h.pbuf p) := Function.update_self ..

theorem set_ne {q : Fin pbufPoolSize} (hq : q ≠ p) : (h.set p f).pbuf q = h.pbuf q :=
  Function.update_of_ne hq ..

theorem next_set : (h.set p f).next = Function.update h.next p (f (h.pbuf p)).next := by
  funext q
  by_cases hq : q = p
  · subst hq
    rw [next, set_self, Function.update_self]
  · rw [next, set_ne h p f hq, Function.update_of_ne hq, next]

theorem refs_set : (h.set p f).refs = Function.update h.refs p (f (h.pbuf p)).ref := by
  funext q
  by_cases hq : q = p
  · subst hq
    rw [refs, set_self, Function.update_self]
  · rw [refs, set_ne h p f hq, Function.update_of_ne hq, refs]

@[simp] theorem next_mempFree : (h.mempFree p).next = h.next := rfl

@[simp] theorem refs_mempFree : (h.mempFree p).refs = h.refs := rfl

theorem set_comm {q : Fin pbufPoolSize} (g : PbufStruct → PbufStruct) (hq : q ≠ p) :
    (h.set p f).set q g = (h.set q g).set p f := by
  simp only [set, Function.update_of_ne hq, Function.update_of_ne (Ne.symm hq)]
  rw [Function.update_comm hq]

/-- An assignment to other fields. -/
theorem next_set_same (hf : (f (h.pbuf p)).next = (h.pbuf p).next) : (h.set p f).next = h.next := by
  rw [next_set, hf]
  exact Function.update_eq_self ..

theorem refs_set_same (hf : (f (h.pbuf p)).ref = (h.pbuf p).ref) : (h.set p f).refs = h.refs := by
  rw [refs_set, hf]
  exact Function.update_eq_self ..

end

/-- The pools agree in pointers, counts and free pbufs. -/
structure SameLinks (h h' : Pbufs) : Prop where
  next : h'.next = h.next
  refs : h'.refs = h.refs
  free : h'.free = h.free

theorem SameLinks.refl (h : Pbufs) : SameLinks h h := ⟨rfl, rfl, rfl⟩

theorem SameLinks.trans {h h' h'' : Pbufs} (hs : SameLinks h h') (hs' : SameLinks h' h'') :
    SameLinks h h'' :=
  ⟨hs'.next.trans hs.next, hs'.refs.trans hs.refs, hs'.free.trans hs.free⟩

theorem SameLinks.set (h : Pbufs) (p : Fin pbufPoolSize) {f : PbufStruct → PbufStruct}
    (hn : (f (h.pbuf p)).next = (h.pbuf p).next) (hr : (f (h.pbuf p)).ref = (h.pbuf p).ref) :
    SameLinks h (h.set p f) :=
  ⟨next_set_same h p f hn, refs_set_same h p f hr, rfl⟩

theorem SameLinks.write (h : Pbufs) (p : Fin pbufPoolSize) (data : List U8) :
    SameLinks h (h.write p data) := .set h p rfl rfl

theorem SameLinks.sound {h h' : Pbufs} (hs : SameLinks h h') {roots : List (Fin pbufPoolSize)} :
    h'.Sound roots ↔ h.Sound roots := by
  rw [Sound, Sound, hs.next, hs.refs, hs.free]

/-- The pools agree in pointers and lengths, and the free pbufs of the first are free. -/
structure SameSizes (h h' : Pbufs) : Prop where
  next : h'.next = h.next
  payload : ∀ q, (h'.pbuf q).payload = (h.pbuf q).payload
  len : ∀ q, (h'.pbuf q).len = (h.pbuf q).len
  totLen : ∀ q, (h'.pbuf q).totLen = (h.pbuf q).totLen
  free : ∀ q ∈ h.free, q ∈ h'.free

theorem SameSizes.refl (h : Pbufs) : SameSizes h h :=
  ⟨rfl, fun _ => rfl, fun _ => rfl, fun _ => rfl, fun _ hq => hq⟩

theorem SameSizes.trans {h h' h'' : Pbufs} (hs : SameSizes h h') (hs' : SameSizes h' h'') :
    SameSizes h h'' :=
  ⟨hs'.next.trans hs.next, fun q => (hs'.payload q).trans (hs.payload q),
    fun q => (hs'.len q).trans (hs.len q), fun q => (hs'.totLen q).trans (hs.totLen q),
    fun q hq => hs'.free q (hs.free q hq)⟩

/-- An assignment to other fields. -/
theorem SameSizes.set (h : Pbufs) (p : Fin pbufPoolSize) {f : PbufStruct → PbufStruct}
    (hn : (f (h.pbuf p)).next = (h.pbuf p).next)
    (hpay : (f (h.pbuf p)).payload = (h.pbuf p).payload)
    (hlen : (f (h.pbuf p)).len = (h.pbuf p).len)
    (htot : (f (h.pbuf p)).totLen = (h.pbuf p).totLen) : SameSizes h (h.set p f) := by
  have hq : ∀ q, q = p ∨ (h.set p f).pbuf q = h.pbuf q := by
    intro q
    by_cases hqp : q = p
    · exact .inl hqp
    · exact .inr (set_ne h p f hqp)
  refine ⟨next_set_same h p f hn, fun q => ?_, fun q => ?_, fun q => ?_, fun q hq => hq⟩ <;>
    rcases hq q with rfl | hq
  · rw [set_self, hpay]
  · rw [hq]
  · rw [set_self, hlen]
  · rw [hq]
  · rw [set_self, htot]
  · rw [hq]

/-! ## `pbuf_free` -/

/-- `pbuf_free` leaves pointers and lengths as they are. -/
theorem freeLoop_sizes (n : ℕ) {o : Option (Fin pbufPoolSize)} {count c : ℕ} {h h' : Pbufs}
    (he : freeLoop n o count h = some (c, h')) : SameSizes h h' := by
  induction n generalizing o count h with
  | zero =>
    cases o with
    | none =>
      cases he
      exact .refl _
    | some p => cases he
  | succ n ih =>
    cases o with
    | none =>
      cases he
      exact .refl _
    | some p =>
      have hset : SameSizes h (h.set p fun b => { b with ref := b.ref - 1 }) :=
        .set h p rfl rfl rfl rfl
      simp only [freeLoop] at he
      split_ifs at he
      · have hgive : SameSizes (h.set p fun b => { b with ref := b.ref - 1 })
            ((h.set p fun b => { b with ref := b.ref - 1 }).mempFree p) :=
          ⟨rfl, fun _ => rfl, fun _ => rfl, fun _ => rfl, fun _ => List.mem_cons_of_mem p⟩
        exact (hset.trans hgive).trans (ih he)
      · cases he
        exact hset

/-- The pbufs in use. -/
def usedCount (h : Pbufs) : ℕ := pbufPoolSize - h.free.length

theorem Sound.usedCount_pos {h : Pbufs} {roots : List (Fin pbufPoolSize)} (hs : h.Sound roots)
    {p : Fin pbufPoolSize} (hp : p ∉ h.free) : 0 < h.usedCount := by
  have hlen := (List.nodup_cons.2 ⟨hp, hs.nodup⟩).length_le_card
  rw [List.length_cons, Fintype.card_fin] at hlen
  simp only [usedCount]
  omega

/-- **The loop of `pbuf_free`** ends and gives up the reference in `o`. -/
theorem freeLoop_sound {roots : List (Fin pbufPoolSize)} (n : ℕ) (o : Option (Fin pbufPoolSize))
    (count : ℕ) (h : Pbufs) (hs : h.Sound (o.toList ++ roots)) (hn : h.usedCount ≤ n) :
    ∃ c h', freeLoop n o count h = some (c, h') ∧ h'.Sound roots := by
  induction n generalizing o count h with
  | zero =>
    cases o with
    | none => exact ⟨count, h, rfl, hs⟩
    | some p =>
      have hpos := hs.usedCount_pos (hs.root_used List.mem_cons_self)
      omega
  | succ n ih =>
    cases o with
    | none => exact ⟨count, h, rfl, hs⟩
    | some p =>
      have hp : p ∉ h.free := hs.root_used List.mem_cons_self
      have hpos : 0 < (h.pbuf p).ref := hs.pos p hp
      have hused := hs.usedCount_pos hp
      simp only [freeLoop, if_neg (Nat.pos_iff_ne_zero.1 hpos), set_self]
      by_cases hone : (h.pbuf p).ref = 1
      · -- the last reference
        rw [if_pos (by omega)]
        refine ih _ _ _ ?_ ?_
        · have hlast := RefCounted.last hs hone
          rw [Sound, next_mempFree, refs_mempFree, next_set_same h p _ rfl, refs_set]
          refine hlast.congr fun q hq => Function.update_of_ne ?_ ..
          rintro rfl
          exact hq List.mem_cons_self
        · simp only [usedCount, mempFree, set_free, List.length_cons] at hn hused ⊢
          omega
      · rw [if_neg (by omega)]
        refine ⟨_, _, rfl, ?_⟩
        rw [Sound, next_set_same h p _ rfl, refs_set]
        exact RefCounted.release hs hone

theorem pbufFree_sound {h : Pbufs} {p : Fin pbufPoolSize} {roots : List (Fin pbufPoolSize)}
    (hs : h.Sound (p :: roots)) : ∃ c h', h.pbufFree p = some (c, h') ∧ h'.Sound roots :=
  freeLoop_sound pbufPoolSize (some p) 0 h hs (Nat.sub_le ..)

theorem pbufFree_sizes {p : Fin pbufPoolSize} {c : ℕ} {h h' : Pbufs}
    (he : h.pbufFree p = some (c, h')) : SameSizes h h' := freeLoop_sizes pbufPoolSize he

/-- The loop does not read the pointer of a pbuf off the chain. -/
theorem freeLoop_set {q : Fin pbufPoolSize} {f : PbufStruct → PbufStruct} (n : ℕ)
    {o : Option (Fin pbufPoolSize)} {l : List (Fin pbufPoolSize)} (count : ℕ) {h : Pbufs}
    (hl : LinkChain h.next o l) (hq : q ∉ l) :
    freeLoop n o count (h.set q f) =
      (freeLoop n o count h).map fun r => (r.1, r.2.set q f) := by
  induction n generalizing o l count h with
  | zero => cases o <;> rfl
  | succ n ih =>
    cases hl with
    | nil => rfl
    | @cons p l hl =>
      have hpq : p ≠ q := by
        rintro rfl
        exact hq List.mem_cons_self
      have hread : (h.set q f).pbuf p = h.pbuf p := set_ne h q f hpq
      simp only [freeLoop, set_self, hread]
      rw [set_comm h q f _ hpq]
      split_ifs
      · rfl
      · have htail : LinkChain ((h.set p fun b => { b with ref := b.ref - 1 }).mempFree p).next
            (h.pbuf p).next l := by
          rwa [next_mempFree, next_set_same h p _ rfl]
        exact ih (count + 1) htail fun hm => hq (List.mem_cons_of_mem p hm)
      · rfl

/-! ## `pbuf_ref` -/

theorem pbufRef_sound {h : Pbufs} {p : Fin pbufPoolSize} {roots : List (Fin pbufPoolSize)}
    (hs : h.Sound roots) (hp : p ∉ h.free) (hmax : (h.pbuf p).ref + 1 < 2 ^ 16) :
    (h.pbufRef p).Sound (p :: roots) := by
  have hmod : ((h.pbuf p).ref + 1) % 2 ^ 16 = h.refs p + 1 := Nat.mod_eq_of_lt hmax
  rw [Sound, pbufRef, next_set_same h p _ rfl, refs_set, hmod]
  exact hs.share hp

theorem pbufRef_sizes (h : Pbufs) (p : Fin pbufPoolSize) : SameSizes h (h.pbufRef p) :=
  .set h p rfl rfl rfl rfl

/-! ## `pbuf_alloc` -/

/-- **The loop of `pbuf_alloc`** extends the chain of `p` behind `r`, or gives it back. -/
theorem allocLoop_sound {p : Fin pbufPoolSize} {roots : List (Fin pbufPoolSize)}
    (free : List (Fin pbufPoolSize)) (remLen : ℕ) (r : Fin pbufPoolSize)
    (m : Fin pbufPoolSize → PbufStruct) (hs : (Pbufs.mk m free).Sound (p :: roots))
    (hr : r ∉ free) (hlast : (m r).next = none) :
    ∃ o h', allocLoop p free remLen r m = some (o, h') ∧ h'.Sound (o.toList ++ roots) := by
  induction free generalizing remLen r m with
  | nil =>
    unfold allocLoop
    split_ifs
    · exact ⟨some p, _, rfl, hs⟩
    · obtain ⟨c, h', hfree, hs'⟩ := pbufFree_sound hs
      rw [hfree]
      exact ⟨none, h', rfl, hs'⟩
  | cons q free ih =>
    unfold allocLoop
    split_ifs
    · exact ⟨some p, _, rfl, hs⟩
    · obtain ⟨hrq, hrf⟩ := not_or.1 (fun hm => hr (List.mem_cons.2 hm))
      have hq : q ∉ free := (List.nodup_cons.1 hs.nodup).1
      refine ih _ _ _ ?_ hq ?_
      · let f (b : PbufStruct) : PbufStruct := { b with
          next := none, totLen := remLen, len := min remLen pbufPoolBufsize, payload := 0, ref := 1 }
        let g (b : PbufStruct) : PbufStruct := { b with next := some q }
        have hset : (((Pbufs.mk m free).set q f).set r g).Sound (p :: roots) := by
          have hnext : Function.update (Pbufs.mk m free).next q none r = none := by
            rw [Function.update_of_ne hrq]
            exact hlast
          have hchain : LinkChain (Function.update (Pbufs.mk m free).next q none) (some q) [q] := by
            refine .cons ?_
            rw [Function.update_self]
            exact .nil
          rw [Sound, next_set, refs_set_same _ r g rfl, next_set, refs_set]
          exact (RefCounted.alloc hs).link hrf hnext hchain (by simpa using hrq)
        exact hset
      · rw [Function.update_of_ne (Ne.symm hrq), Function.update_self]
        rfl

theorem pbufAlloc_sound {h : Pbufs} {roots : List (Fin pbufPoolSize)} (hs : h.Sound roots)
    (layer : PbufLayer) (length : ℕ) :
    ∃ o h', h.pbufAlloc layer length = some (o, h') ∧ h'.Sound (o.toList ++ roots) := by
  unfold pbufAlloc
  obtain ⟨m, free⟩ := h
  cases free with
  | nil => exact ⟨none, _, rfl, hs⟩
  | cons p free =>
    refine allocLoop_sound free _ p _ ?_ (List.nodup_cons.1 hs.nodup).1 ?_
    · let f : PbufStruct → PbufStruct := .alloc (lwipMemAlignSize layer.offset) length
        (min length (pbufPoolBufsize - lwipMemAlignSize layer.offset))
      have hset : ((Pbufs.mk m free).set p f).Sound (p :: roots) := by
        rw [Sound, next_set, refs_set]
        exact RefCounted.alloc hs
      exact hset
    · rw [Function.update_self]
      rfl

/-! ## `pbuf_header` -/

theorem pbufHeader_links (h : Pbufs) (p : Fin pbufPoolSize) (headerSizeIncrement : ℤ) :
    SameLinks h (h.pbufHeader p headerSizeIncrement).2 := by
  unfold pbufHeader
  dsimp only
  split_ifs
  · exact .refl h
  · exact .refl h
  · exact .refl h
  · dsimp only
    exact .set h p rfl rfl

/-! ## The chain of a pbuf -/

/-- The length of the payloads of a chain. -/
def chainLen (h : Pbufs) (l : List (Fin pbufPoolSize)) : ℕ := (l.map fun q => (h.pbuf q).len).sum

/-- The pbufs from `o` on, up to `n` of them. -/
def cells (h : Pbufs) : ℕ → Option (Fin pbufPoolSize) → List (Fin pbufPoolSize)
  | n + 1, some p => p :: cells h n (h.next p)
  | _, _ => []

/-- The chain of a pbuf. -/
def chainOf (h : Pbufs) (p : Fin pbufPoolSize) : List (Fin pbufPoolSize) :=
  h.cells pbufPoolSize (some p)

theorem cells_eq {h : Pbufs} {o : Option (Fin pbufPoolSize)} {l : List (Fin pbufPoolSize)}
    (hl : LinkChain h.next o l) (n : ℕ) (hn : l.length ≤ n) : h.cells n o = l := by
  induction hl generalizing n with
  | nil => cases n <;> rfl
  | @cons p l _ ih =>
    cases n with
    | zero => simp at hn
    | succ n => rw [cells, ih n (Nat.le_of_succ_le_succ hn)]

/-- A pbuf in use has a chain. -/
theorem Sound.chain {h : Pbufs} {roots : List (Fin pbufPoolSize)} (hs : h.Sound roots)
    {p : Fin pbufPoolSize} (hp : p ∉ h.free) : LinkChain h.next (some p) (h.chainOf p) := by
  obtain ⟨l, hl⟩ := hs.ends p hp
  have hcard := hl.nodup.length_le_card
  rw [Fintype.card_fin] at hcard
  rw [chainOf, cells_eq hl pbufPoolSize hcard]
  exact hl

theorem chainOf_length {h : Pbufs} {p : Fin pbufPoolSize}
    (hl : LinkChain h.next (some p) (h.chainOf p)) : (h.chainOf p).length ≤ pbufPoolSize := by
  have hcard := hl.nodup.length_le_card
  rwa [Fintype.card_fin] at hcard

end Pbufs

end GndCtrl
