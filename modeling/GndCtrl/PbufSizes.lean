/-
  The lengths of the packet buffers.

  `Sized` is the invariant that pbuf.h states of `tot_len`, of every pbuf in use,
  and that the payload lies within the memory behind the structure.  For each
  function of core/pbuf.c that joins or cuts chains there is a structure that
  says what it makes of them (`Joined`, `Dechained`, `Realloced`): where counts and
  lengths are right no assertion fails, and they are right afterwards, if no other
  chain leads to a pbuf whose `tot_len` is changed.
-/
import GndCtrl.PbufData
import Mathlib.Algebra.Group.Action.Defs
import Mathlib.Algebra.Order.BigOperators.Group.List

namespace GndCtrl

namespace Pbufs

/-- The invariant of `struct pbuf`: `p->tot_len == p->len + (p->next? p->next->tot_len: 0)`. -/
def TotRight (h : Pbufs) (p : Fin pbufPoolSize) : Prop :=
  (h.pbuf p).totLen = (h.pbuf p).len + (h.next p).elim 0 fun q => (h.pbuf q).totLen

/-! ## The invariant -/

/-- The lengths of the pbufs in use are right. -/
structure Sized (h : Pbufs) : Prop where
  fits : ∀ p, p ∉ h.free → (h.pbuf p).payload + (h.pbuf p).len ≤ pbufPoolBufsize
  tot : ∀ p, p ∉ h.free → h.TotRight p

/-- No pbuf in use leads to `p`. -/
def First (h : Pbufs) (p : Fin pbufPoolSize) : Prop := ∀ q, q ∉ h.free → h.next q ≠ some p

instance instDecidableFirst (h : Pbufs) (p : Fin pbufPoolSize) : Decidable (h.First p) :=
  inferInstanceAs (Decidable (∀ _, _ → _))

/-- No pbuf outside of `l` leads to one of `l`. -/
def Alone (h : Pbufs) (l : List (Fin pbufPoolSize)) : Prop :=
  ∀ q, q ∉ h.free → ∀ x ∈ l, h.next q = some x → q ∈ l

instance instDecidableAlone (h : Pbufs) (l : List (Fin pbufPoolSize)) : Decidable (h.Alone l) :=
  inferInstanceAs (Decidable (∀ _, _ → _))

theorem sized_init : init.Sized where
  fits := fun p hp => absurd (List.mem_reverse.2 (List.mem_finRange p)) hp
  tot := fun p hp => absurd (List.mem_reverse.2 (List.mem_finRange p)) hp

/-- `tot_len` is the length of the chain. -/
theorem Sized.totLen_eq {h : Pbufs} (hs : h.Sized) {o : Option (Fin pbufPoolSize)}
    {l : List (Fin pbufPoolSize)} (hl : LinkChain h.next o l) (hused : ∀ q ∈ l, q ∉ h.free) :
    (o.elim 0 fun q => (h.pbuf q).totLen) = h.chainLen l := by
  induction hl with
  | nil => rfl
  | @cons p l hl ih =>
    have hright := hs.tot p (hused p List.mem_cons_self)
    rw [TotRight, ih fun q hq => hused q (List.mem_cons_of_mem p hq)] at hright
    rw [Option.elim_some, hright, chainLen_cons]

/-- No sum of lengths overflows. -/
theorem Sized.totLen_le {h : Pbufs} (hs : h.Sized) {roots : List (Fin pbufPoolSize)}
    (hc : h.Sound roots) {p : Fin pbufPoolSize} (hp : p ∉ h.free) : (h.pbuf p).totLen ≤ 15000 := by
  have hl := hc.chain hp
  have hused := hc.chain_used hl fun q hq => by
    cases hq
    exact hp
  have hlen : h.chainLen (h.chainOf p) ≤ (h.chainOf p).length * 1500 := by
    have hsum := List.sum_le_card_nsmul ((h.chainOf p).map fun q => (h.pbuf q).len) 1500
      fun n hn => by
        obtain ⟨q, hq, rfl⟩ := List.mem_map.1 hn
        have := hs.fits q (hused q hq)
        simp only [pbufPoolBufsize] at this
        omega
    rwa [List.length_map, smul_eq_mul] at hsum
  have hcard := chainOf_length hl
  have htot := hs.totLen_eq hl hused
  rw [Option.elim_some] at htot
  rw [htot]
  simp only [pbufPoolSize] at hcard
  omega

/-- Functions that leave pointers and lengths alone. -/
theorem Sized.same {h h' : Pbufs} (hs : h.Sized) (he : SameSizes h h') : h'.Sized where
  fits := by
    intro p hp
    rw [he.payload, he.len]
    exact hs.fits p fun hf => hp (he.free p hf)
  tot := by
    intro p hp
    have hright := hs.tot p fun hf => hp (he.free p hf)
    rw [TotRight] at hright ⊢
    rw [he.totLen, he.len, he.next, hright]
    cases h.next p with
    | none => rfl
    | some q => rw [Option.elim_some, Option.elim_some, he.totLen]

/-! ## `pbuf_take` and `pbuf_header` -/

theorem takeLoop_sizes (n : ℕ) {o : Option (Fin pbufPoolSize)} {data : List U8} {h h' : Pbufs}
    (he : takeLoop n o data h = some h') : SameSizes h h' := by
  induction n generalizing o data h with
  | zero =>
    cases data with
    | nil =>
      cases o <;> cases he <;> exact .refl _
    | cons => cases o <;> cases he
  | succ n ih =>
    cases data with
    | nil => cases o <;> cases he <;> exact .refl _
    | cons b data =>
      cases o with
      | none => cases he
      | some p => exact SameSizes.trans (.set h p rfl rfl rfl rfl) (ih he)

theorem pbufTake_sizes {p : Fin pbufPoolSize} {data : List U8} {h h' : Pbufs} {ok : Bool}
    (he : h.pbufTake p data = some (ok, h')) : SameSizes h h' := by
  rw [pbufTake] at he
  split_ifs at he
  · cases he
    exact .refl _
  · obtain ⟨h₁, htake, he⟩ := Option.bind_eq_some_iff.1 he
    cases he
    exact takeLoop_sizes pbufPoolSize htake

theorem Sized.header {h : Pbufs} (hs : h.Sized) {roots : List (Fin pbufPoolSize)}
    (hc : h.Sound roots) {p : Fin pbufPoolSize} (hp : p ∉ h.free) (hf : h.First p) (inc : ℤ) :
    (h.pbufHeader p inc).2.Sized := by
  have hfit := hs.fits p hp
  have hright := hs.tot p hp
  have hle := hs.totLen_le hc hp
  rw [TotRight] at hright
  simp only [pbufPoolBufsize] at hfit
  unfold pbufHeader
  dsimp only
  split_ifs with h0 h1 h2
  · exact hs
  · exact hs
  · exact hs
  · -- no sum overflows
    have hlen : (((h.pbuf p).len + inc) % 2 ^ 16).toNat = (((h.pbuf p).len : ℤ) + inc).toNat := by
      omega
    have htot : (((h.pbuf p).totLen + inc) % 2 ^ 16).toNat =
        (((h.pbuf p).totLen : ℤ) + inc).toNat := by omega
    dsimp only
    constructor
    · intro q hq
      by_cases hqp : q = p
      · subst hqp
        rw [set_self]
        simp only [hlen, pbufPoolBufsize]
        omega
      · rw [set_ne h p _ hqp]
        exact hs.fits q hq
    · intro q hq
      by_cases hqp : q = p
      · subst hqp
        rw [TotRight, set_self, next_set_same h q _ rfl]
        simp only [hlen, htot]
        cases hn : h.next q with
        | none =>
          rw [hn, Option.elim_none] at hright
          rw [Option.elim_none]
          omega
        | some z =>
          rw [hn, Option.elim_some] at hright
          have hz : z ≠ q := by
            rintro rfl
            exact hf z hq hn
          rw [Option.elim_some, set_ne h q _ hz]
          omega
      · have hother := hs.tot q hq
        rw [TotRight] at hother ⊢
        rw [set_ne h p _ hqp, next_set_same h p _ rfl, hother]
        cases hn : h.next q with
        | none => rfl
        | some z =>
          have hz : z ≠ p := by
            rintro rfl
            exact hf q hq hn
          rw [Option.elim_some, Option.elim_some, set_ne h p _ hz]

/-! ## `pbuf_alloc` -/

/-- A right list of `tot_len`. -/
theorem TotOk.right {h : Pbufs} {o : Option (Fin pbufPoolSize)} {l : List (Fin pbufPoolSize)}
    (hl : LinkChain h.next o l) (ht : h.TotOk l) :
    (o.elim 0 fun q => (h.pbuf q).totLen) = h.chainLen l ∧ ∀ q ∈ l, h.TotRight q := by
  induction hl with
  | nil => exact ⟨rfl, by simp⟩
  | @cons p l hl ih =>
    obtain ⟨hp, ht⟩ := ht
    obtain ⟨htail, hright⟩ := ih ht
    refine ⟨hp, fun q hq => ?_⟩
    rcases List.mem_cons.1 hq with rfl | hq
    · rw [TotRight, htail, hp, chainLen_cons]
    · exact hright q hq

theorem Sized.alloc {h h' : Pbufs} (hs : h.Sized) {roots : List (Fin pbufPoolSize)}
    (hc : h.Sound roots) {layer : PbufLayer} {length : ℕ} {o : Option (Fin pbufPoolSize)}
    (he : h.pbufAlloc layer length = some (o, h')) : h'.Sized := by
  -- the pbufs that were in use are as they were
  have hkept : ∀ q, q ∉ h.free → (∀ x, x ∉ h.free → h'.pbuf x = h.pbuf x) →
      (h'.pbuf q).payload + (h'.pbuf q).len ≤ pbufPoolBufsize ∧ h'.TotRight q := by
    intro q hq hsame
    have hright := hs.tot q hq
    refine ⟨by rw [hsame q hq]; exact hs.fits q hq, ?_⟩
    rw [TotRight] at hright ⊢
    have hnext : h'.next q = h.next q := congrArg PbufStruct.next (hsame q hq)
    rw [hsame q hq, hnext, hright]
    cases hz : h.next q with
    | none => rfl
    | some z => rw [Option.elim_some, Option.elim_some, hsame z (hc.next_used hq hz)]
  by_cases hk : pbufCount (length - (pbufPoolBufsize - lwipMemAlignSize layer.offset)) + 1 ≤
      h.free.length
  · obtain ⟨p, h₁, halloc, hfree, hl, htot, -, -, hfits, hother⟩ :=
      pbufAlloc_made hc.nodup layer length rfl hk
    rw [he] at halloc
    cases halloc
    have hright := (TotOk.right hl htot).2
    have hsame : ∀ x, x ∉ h.free → h'.pbuf x = h.pbuf x :=
      fun x hx => hother x fun hm => hx (List.mem_of_mem_take hm)
    -- a pbuf in use was in use, or is one of the new ones
    have hcases : ∀ q, q ∉ h'.free → q ∉ h.free ∨ q ∈ h.free.take
        (pbufCount (length - (pbufPoolBufsize - lwipMemAlignSize layer.offset)) + 1) := by
      intro q hq
      by_cases hqf : q ∈ h.free
      · rw [← List.take_append_drop
          (pbufCount (length - (pbufPoolBufsize - lwipMemAlignSize layer.offset)) + 1) h.free,
          ← hfree] at hqf
        exact .inr ((List.mem_append.1 hqf).resolve_right hq)
      · exact .inl hqf
    constructor
    · intro q hq
      rcases hcases q hq with hq | hq
      · exact (hkept q hq hsame).1
      · exact hfits q hq
    · intro q hq
      rcases hcases q hq with hq | hq
      · exact (hkept q hq hsame).2
      · exact hright q hq
  · obtain ⟨h₁, halloc, hperm, hsame⟩ := pbufAlloc_out hc.nodup layer length hk
    rw [he] at halloc
    cases halloc
    have hused : ∀ q, q ∉ h'.free → q ∉ h.free := fun q hq hm => hq (hperm.mem_iff.2 hm)
    exact ⟨fun q hq => (hkept q (hused q hq) hsame).1, fun q hq => (hkept q (hused q hq) hsame).2⟩

/-! ## `pbuf_cat` -/

/-- What `pbuf_cat` makes of the chain `l`: its last pbuf points to `t`. -/
structure Joined (t : Fin pbufPoolSize) (l : List (Fin pbufPoolSize)) (h h' : Pbufs) : Prop where
  free : h'.free = h.free
  refs : h'.refs = h.refs
  last : ∃ x ∈ l, h.next x = none ∧ h'.next = Function.update h.next x (some t)
  next : ∀ y ∈ l, h'.next y = some ((h.next y).getD t)
  tot : ∀ y ∈ l, (h'.pbuf y).totLen = ((h.pbuf y).totLen + (h.pbuf t).totLen) % 2 ^ 16
  other : ∀ y, y ∉ l → h'.pbuf y = h.pbuf y
  size : ∀ y, (h'.pbuf y).payload = (h.pbuf y).payload ∧ (h'.pbuf y).len = (h.pbuf y).len

/-- **The loop of `pbuf_cat`** ends, where `tot_len` of the last pbuf is its length. -/
theorem catLoop_joined {t : Fin pbufPoolSize} (n : ℕ) {p : Fin pbufPoolSize}
    {l : List (Fin pbufPoolSize)} {h : Pbufs} (hl : LinkChain h.next (some p) l) (ht : t ∉ l)
    (hn : l.length ≤ n) (htot : ∀ x ∈ l, h.TotRight x) :
    ∃ h', catLoop n p t h = some h' ∧ Joined t l h h' := by
  induction n generalizing p l h with
  | zero =>
    cases hl
    simp at hn
  | succ n ih =>
    cases hl with
    | @cons _ l hl =>
      have hpl : p ∉ l := (List.nodup_cons.1 (LinkChain.nodup (.cons hl))).1
      have hright := htot p List.mem_cons_self
      simp only [catLoop]
      cases hnext : (h.pbuf p).next with
      | some q =>
        have hq : h.next p = some q := hnext
        rw [hq] at hl
        -- the pbufs behind `p` are as they were
        have hne : ∀ x ∈ l, x ≠ p := by
          rintro x hx rfl
          exact hpl hx
        have hpt : t ≠ p := by
          rintro rfl
          exact ht List.mem_cons_self
        generalize hh : (h.set p fun b =>
          { b with totLen := ((h.pbuf p).totLen + (h.pbuf t).totLen) % 2 ^ 16 }) = h₁
        have hlinks : SameLinks h h₁ := hh ▸ .set h p rfl rfl
        have hself : h₁.pbuf p =
            { h.pbuf p with totLen := ((h.pbuf p).totLen + (h.pbuf t).totLen) % 2 ^ 16 } := by
          rw [← hh, set_self]
        have hother : ∀ x, x ≠ p → h₁.pbuf x = h.pbuf x := by
          intro x hx
          rw [← hh, set_ne h p _ hx]
        obtain ⟨h', hcat, hj⟩ := ih (h := h₁) (by rwa [hlinks.next])
          (fun hm => ht (List.mem_cons_of_mem p hm)) (Nat.le_of_succ_le_succ hn) (fun x hx => by
            have hx' := htot x (List.mem_cons_of_mem p hx)
            rw [TotRight] at hx' ⊢
            rw [hother x (hne x hx), hlinks.next, hx']
            cases hz : h.next x with
            | none => rfl
            | some z => rw [Option.elim_some, Option.elim_some, hother z (hne z (hl.closed hx hz))])
        refine ⟨h', hcat, hj.free.trans hlinks.free, hj.refs.trans hlinks.refs, ?_, fun y hy => ?_,
          fun y hy => ?_, fun y hy => ?_, fun y => ?_⟩
        · obtain ⟨x, hx, hnone, hupd⟩ := hj.last
          rw [hlinks.next] at hnone hupd
          exact ⟨x, List.mem_cons_of_mem p hx, hnone, hupd⟩
        · rcases List.mem_cons.1 hy with rfl | hy
          · rw [next, hj.other y hpl, hself, hq]
            exact hnext
          · rw [hj.next y hy, hlinks.next]
        · rcases List.mem_cons.1 hy with rfl | hy
          · rw [hj.other y hpl, hself]
          · rw [hj.tot y hy, hother y (hne y hy), hother t hpt]
        · obtain ⟨hyp, hyl⟩ := not_or.1 fun hm => hy (List.mem_cons.2 hm)
          rw [hj.other y hyl, hother y hyp]
        · obtain ⟨h1, h2⟩ := hj.size y
          rw [h1, h2]
          by_cases hyp : y = p
          · rw [hyp, hself]
            exact ⟨rfl, rfl⟩
          · rw [hother y hyp]
            exact ⟨rfl, rfl⟩
      | none =>
        have hnone : h.next p = none := hnext
        rw [hnone] at hl
        cases hl
        rw [TotRight, hnone, Option.elim_none, Nat.add_zero] at hright
        dsimp only
        rw [if_pos hright]
        refine ⟨_, rfl, rfl, refs_set_same h p _ rfl, ⟨p, List.mem_singleton_self p, hnone, ?_⟩,
          fun y hy => ?_, fun y hy => ?_, fun y hy => ?_, fun y => ?_⟩
        · rw [next_set]
        · rw [List.mem_singleton.1 hy, next_set, Function.update_self, hnone]
          rfl
        · rw [List.mem_singleton.1 hy, set_self]
        · exact set_ne h p _ fun hyp => hy (List.mem_singleton.2 hyp)
        · by_cases hyp : y = p
          · rw [hyp, set_self]
            exact ⟨rfl, rfl⟩
          · rw [set_ne h p _ hyp]
            exact ⟨rfl, rfl⟩

/-- The reference to `t` becomes a pointer. -/
theorem Joined.sound {t : Fin pbufPoolSize} {l lt roots : List (Fin pbufPoolSize)} {h h' : Pbufs}
    (hj : Joined t l h h') (hs : h.Sound (t :: roots)) (hl : ∀ x ∈ l, x ∉ h.free)
    (ht : LinkChain h.next (some t) lt) (hd : ∀ x ∈ l, x ∉ lt) : h'.Sound roots := by
  obtain ⟨x, hx, hnone, hnext⟩ := hj.last
  rw [Sound, hnext, hj.refs, hj.free]
  exact RefCounted.link hs (hl x hx) hnone ht (hd x hx)

/-- `pbuf_chain` counts the reference that the head gets after it is there. -/
theorem Joined.sound_ref {t : Fin pbufPoolSize} {l lt roots : List (Fin pbufPoolSize)}
    {h h' : Pbufs} (hj : Joined t l h h') (hs : h.Sound roots) (hl : ∀ x ∈ l, x ∉ h.free)
    (htail : t ∉ h.free) (hmax : (h.pbuf t).ref + 1 < 2 ^ 16)
    (ht : LinkChain h.next (some t) lt) (hd : ∀ x ∈ l, x ∉ lt) : (h'.pbufRef t).Sound roots := by
  obtain ⟨x, hx, hnone, hnext⟩ := hj.last
  have href : (h'.pbuf t).ref = h.refs t := congrFun hj.refs t
  have hmod : ((h'.pbuf t).ref + 1) % 2 ^ 16 = h.refs t + 1 := by
    rw [href]
    exact Nat.mod_eq_of_lt hmax
  rw [Sound, pbufRef, next_set_same h' t _ rfl, refs_set, hmod, set_free, hnext, hj.refs, hj.free]
  exact RefCounted.link (hs.share htail) (hl x hx) hnone ht (hd x hx)

theorem Joined.sized {t : Fin pbufPoolSize} {l roots : List (Fin pbufPoolSize)} {h h' : Pbufs}
    (hj : Joined t l h h') (hs : h.Sized) (hc : h.Sound roots) {p : Fin pbufPoolSize}
    (hl : LinkChain h.next (some p) l) (hused : ∀ x ∈ l, x ∉ h.free) (ht : t ∉ l)
    (htail : t ∉ h.free) (ha : h.Alone l) : h'.Sized := by
  have hsum : ∀ y ∈ l, (h'.pbuf y).totLen = (h.pbuf y).totLen + (h.pbuf t).totLen := by
    intro y hy
    have h1 := hs.totLen_le hc (hused y hy)
    have h2 := hs.totLen_le hc htail
    rw [hj.tot y hy]
    omega
  constructor
  · intro y hy
    rw [(hj.size y).1, (hj.size y).2]
    exact hs.fits y (hj.free ▸ hy)
  · intro y hy
    have hyf : y ∉ h.free := hj.free ▸ hy
    have hright := hs.tot y hyf
    rw [TotRight] at hright ⊢
    rw [(hj.size y).2]
    by_cases hyl : y ∈ l
    · rw [hsum y hyl, hj.next y hyl, Option.elim_some]
      cases hz : h.next y with
      | none =>
        rw [hz, Option.elim_none] at hright
        rw [Option.getD_none, hj.other t ht]
        omega
      | some z =>
        rw [hz, Option.elim_some] at hright
        rw [Option.getD_some, hsum z (hl.closed hyl hz)]
        omega
    · -- no other chain leads to the one that has grown
      have hnext : h'.next y = h.next y := congrArg PbufStruct.next (hj.other y hyl)
      rw [hj.other y hyl, hnext, hright]
      cases hz : h.next y with
      | none => rfl
      | some z =>
        have hzl : z ∉ l := fun hm => hyl (ha y hyf z hm hz)
        rw [Option.elim_some, Option.elim_some, hj.other z hzl]

/-! ## `pbuf_dechain` -/

/-- What `pbuf_dechain` makes of `p`: a chain of its own. -/
structure Dechained (p : Fin pbufPoolSize) (h h' : Pbufs) : Prop where
  free : ∀ q ∈ h.free, q ∈ h'.free
  next : h'.next = Function.update h.next p none
  tot : (h'.pbuf p).totLen = (h.pbuf p).len
  other : ∀ q, q ≠ p → (h'.pbuf q).totLen = (h.pbuf q).totLen
  size : ∀ q, (h'.pbuf q).payload = (h.pbuf q).payload ∧ (h'.pbuf q).len = (h.pbuf q).len

theorem pbufDechain_sound {h : Pbufs} {p : Fin pbufPoolSize} {roots : List (Fin pbufPoolSize)}
    (hs : h.Sound roots) (hp : p ∉ h.free) (htot : h.TotRight p)
    (hmax : ∀ q, h.next p = some q → (h.pbuf q).totLen < 2 ^ 16) :
    ∃ o h', h.pbufDechain p = some (o, h') ∧ h'.Sound roots ∧ Dechained p h h' := by
  rw [TotRight] at htot
  unfold pbufDechain
  cases hnext : (h.pbuf p).next with
  | none =>
    have hnone : h.next p = none := hnext
    rw [hnone, Option.elim_none, Nat.add_zero] at htot
    dsimp only
    rw [if_pos htot]
    refine ⟨none, h, rfl, hs, fun _ hq => hq, ?_, htot, fun _ _ => rfl, fun _ => ⟨rfl, rfl⟩⟩
    rw [← hnone, Function.update_eq_self]
  | some q =>
    have hq : h.next p = some q := hnext
    have hlt := hmax q hq
    rw [hq, Option.elim_some] at htot
    -- the assignment to `q->tot_len` changes nothing
    have hsum : ((h.pbuf p).totLen + 2 ^ 16 - (h.pbuf p).len) % 2 ^ 16 = (h.pbuf q).totLen := by
      omega
    have hsame : SameLinks h (h.set q fun c => { c with totLen := (h.pbuf q).totLen }) :=
      .set h q rfl rfl
    have hsizes : SameSizes h (h.set q fun c => { c with totLen := (h.pbuf q).totLen }) :=
      .set h q rfl rfl rfl rfl
    dsimp only
    rw [if_pos (show ((h.pbuf q).totLen : ℤ) = (h.pbuf p).totLen - (h.pbuf p).len by omega), hsum]
    generalize (h.set q fun c => { c with totLen := (h.pbuf q).totLen }) = h₀ at hsame hsizes
    have hcut : (h₀.set p fun b => { b with next := none, totLen := b.len }).Sound (q :: roots) := by
      rw [Sound, next_set, refs_set_same _ _ _ rfl, set_free, hsame.next, hsame.refs, hsame.free]
      exact RefCounted.unlink hs hp hq
    obtain ⟨c, h', hfree, hs'⟩ := pbufFree_sound hcut
    have hfreed := freeLoop_sizes pbufPoolSize hfree
    have hself : (h₀.set p fun b => { b with next := none, totLen := b.len }).pbuf p =
        { h₀.pbuf p with next := none, totLen := (h₀.pbuf p).len } := set_self ..
    have hother : ∀ x, x ≠ p →
        (h₀.set p fun b => { b with next := none, totLen := b.len }).pbuf x = h₀.pbuf x :=
      fun x hx => set_ne h₀ p _ hx
    have htot' : (h'.pbuf p).totLen = (h'.pbuf p).len := by
      rw [hfreed.totLen, hfreed.len, hself]
    rw [hfree]
    dsimp only [Option.bind_eq_bind, Option.bind_some]
    rw [if_pos htot']
    refine ⟨_, h', rfl, hs', fun x hx => hfreed.free x ?_, ?_, ?_, fun x hx => ?_, fun x => ?_⟩
    · rwa [set_free, hsame.free]
    · rw [hfreed.next, next_set, hsame.next]
    · rw [hfreed.totLen, hself, hsizes.len]
    · rw [hfreed.totLen, hother x hx, hsizes.totLen]
    · rw [hfreed.payload, hfreed.len]
      by_cases hx : x = p
      · rw [hx, hself]
        exact ⟨hsizes.payload p, hsizes.len p⟩
      · rw [hother x hx]
        exact ⟨hsizes.payload x, hsizes.len x⟩

theorem Dechained.sized {p : Fin pbufPoolSize} {h h' : Pbufs} (hd : Dechained p h h')
    (hs : h.Sized) (hf : h.First p) : h'.Sized := by
  constructor
  · intro y hy
    rw [(hd.size y).1, (hd.size y).2]
    exact hs.fits y fun hm => hy (hd.free y hm)
  · intro y hy
    have hyf : y ∉ h.free := fun hm => hy (hd.free y hm)
    have hright := hs.tot y hyf
    rw [TotRight] at hright ⊢
    rw [(hd.size y).2, hd.next]
    by_cases hyp : y = p
    · rw [hyp, hd.tot, Function.update_self]
      rfl
    · rw [hd.other y hyp, Function.update_of_ne hyp, hright]
      cases hz : h.next y with
      | none => rfl
      | some z =>
        have hzp : z ≠ p := by
          rintro rfl
          exact hf y hyf hz
        rw [Option.elim_some, Option.elim_some, hd.other z hzp]

/-! ## `pbuf_realloc` -/

/-- What the loop of `pbuf_realloc` makes of the pbufs `l₁` before the new last one, `q`, whose length
    is to be `r`: their `tot_len` are `d` less. -/
structure Shortened (d : ℕ) (l₁ : List (Fin pbufPoolSize)) (q : Fin pbufPoolSize) (r : ℕ)
    (h h' : Pbufs) : Prop where
  links : SameLinks h h'
  tot : ∀ y ∈ l₁, (h'.pbuf y).totLen + d = (h.pbuf y).totLen
  other : ∀ y, y ∉ l₁ → h'.pbuf y = h.pbuf y
  size : ∀ y, (h'.pbuf y).payload = (h.pbuf y).payload ∧ (h'.pbuf y).len = (h.pbuf y).len
  within : ∀ y ∈ l₁, ∃ z ∈ l₁ ++ [q], h.next y = some z
  fits : r ≤ (h.pbuf q).len
  rem : r + d = (h.pbuf q).totLen

/-- **The loop of `pbuf_realloc`** stops at a pbuf of the chain, which is long enough. -/
theorem reallocLoop_shortened {d : ℕ} (n : ℕ) {p : Fin pbufPoolSize}
    {l : List (Fin pbufPoolSize)} (remLen : ℕ) {h : Pbufs} (hl : LinkChain h.next (some p) l)
    (hn : l.length ≤ n) (htot : ∀ x ∈ l, h.TotRight x) (hmax : ∀ x ∈ l, (h.pbuf x).totLen < 2 ^ 16)
    (hrem : remLen + d = (h.pbuf p).totLen) :
    ∃ q r h' l₁ l₂, l = l₁ ++ q :: l₂ ∧ reallocLoop n (2 ^ 16 - d) p remLen h = some (q, r, h') ∧
      Shortened d l₁ q r h h' := by
  induction n generalizing p l remLen h with
  | zero =>
    cases hl
    simp at hn
  | succ n ih =>
    cases hl with
    | @cons _ l hl =>
      have hpl : p ∉ l := (List.nodup_cons.1 (LinkChain.nodup (.cons hl))).1
      have hright := htot p List.mem_cons_self
      have hlt := hmax p List.mem_cons_self
      rw [TotRight] at hright
      simp only [reallocLoop]
      split_ifs with hgt
      · simp only [set_self]
        cases hnext : (h.pbuf p).next with
        | none =>
          -- the chain is as long as `tot_len` says
          have hnone : h.next p = none := hnext
          rw [hnone, Option.elim_none] at hright
          omega
        | some q =>
          have hq : h.next p = some q := hnext
          rw [hq] at hl hright
          rw [Option.elim_some] at hright
          have hne : ∀ x ∈ l, x ≠ p := by
            rintro x hx rfl
            exact hpl hx
          generalize hh : (h.set p fun b =>
            { b with totLen := (b.totLen + (2 ^ 16 - d)) % 2 ^ 16 }) = h₁
          have hlinks : SameLinks h h₁ := hh ▸ .set h p rfl rfl
          have hself : h₁.pbuf p =
              { h.pbuf p with totLen := ((h.pbuf p).totLen + (2 ^ 16 - d)) % 2 ^ 16 } := by
            rw [← hh, set_self]
          have hother : ∀ x, x ≠ p → h₁.pbuf x = h.pbuf x := by
            intro x hx
            rw [← hh, set_ne h p _ hx]
          have hmem : q ∈ l := by
            cases hl
            exact List.mem_cons_self
          obtain ⟨q', r, h', l₁, l₂, rfl, hloop, hsh⟩ := ih (remLen - (h.pbuf p).len) (h := h₁)
            (by rwa [hlinks.next]) (Nat.le_of_succ_le_succ hn)
            (fun x hx => by
              have hx' := htot x (List.mem_cons_of_mem p hx)
              rw [TotRight] at hx' ⊢
              rw [hother x (hne x hx), hlinks.next, hx']
              cases hz : h.next x with
              | none => rfl
              | some z =>
                rw [Option.elim_some, Option.elim_some, hother z (hne z (hl.closed hx hz))])
            (fun x hx => by
              rw [hother x (hne x hx)]
              exact hmax x (List.mem_cons_of_mem p hx))
            (by rw [hother q (hne q hmem)]; omega)
          have hp₁ : p ∉ l₁ := fun hm => hpl (List.mem_append_left _ hm)
          have hq' : h₁.pbuf q' = h.pbuf q' := hother q' (hne q' (by simp))
          refine ⟨q', r, h', p :: l₁, l₂, rfl, hloop, hlinks.trans hsh.links, fun y hy => ?_,
            fun y hy => ?_, fun y => ?_, fun y hy => ?_, by rw [← hq']; exact hsh.fits,
            by rw [← hq']; exact hsh.rem⟩
          · rcases List.mem_cons.1 hy with rfl | hy
            · rw [hsh.other y hp₁, hself]
              dsimp only
              omega
            · rw [hsh.tot y hy, hother y (hne y (List.mem_append_left _ hy))]
          · obtain ⟨hyp, hyl⟩ := not_or.1 fun hm => hy (List.mem_cons.2 hm)
            rw [hsh.other y hyl, hother y hyp]
          · obtain ⟨h1, h2⟩ := hsh.size y
            rw [h1, h2]
            by_cases hyp : y = p
            · rw [hyp, hself]
              exact ⟨rfl, rfl⟩
            · rw [hother y hyp]
              exact ⟨rfl, rfl⟩
          · rcases List.mem_cons.1 hy with rfl | hy
            · refine ⟨q, ?_, hq⟩
              cases l₁ with
              | nil =>
                cases hl
                simp
              | cons =>
                cases hl
                simp
            · obtain ⟨z, hz, hyz⟩ := hsh.within y hy
              rw [hlinks.next] at hyz
              exact ⟨z, List.mem_cons_of_mem p hz, hyz⟩
      · exact ⟨p, remLen, h, [], l, rfl, rfl, .refl h, by simp, fun _ _ => rfl,
          fun _ => ⟨rfl, rfl⟩, by simp, by omega, hrem⟩

/-- What `pbuf_realloc` makes of a chain: `q` is the last pbuf. -/
structure Realloced (d : ℕ) (l₁ : List (Fin pbufPoolSize)) (q : Fin pbufPoolSize)
    (h h' : Pbufs) : Prop where
  free : ∀ y ∈ h.free, y ∈ h'.free
  next : h'.next = Function.update h.next q none
  tot : ∀ y ∈ l₁ ++ [q], (h'.pbuf y).totLen + d = (h.pbuf y).totLen
  other : ∀ y, y ∉ l₁ ++ [q] → (h'.pbuf y).totLen = (h.pbuf y).totLen
  payload : ∀ y, (h'.pbuf y).payload = (h.pbuf y).payload
  len : ∀ y, y ≠ q → (h'.pbuf y).len = (h.pbuf y).len
  last : (h'.pbuf q).totLen = (h'.pbuf q).len ∧ (h'.pbuf q).len ≤ (h.pbuf q).len
  within : ∀ y ∈ l₁, ∃ z ∈ l₁ ++ [q], h.next y = some z

theorem pbufRealloc_sound {h : Pbufs} {p : Fin pbufPoolSize} {roots l : List (Fin pbufPoolSize)}
    (hs : h.Sound roots) (hp : p ∉ h.free) (hl : LinkChain h.next (some p) l) (newLen : ℕ)
    (htot : ∀ x ∈ l, h.TotRight x) (hmax : ∀ x ∈ l, (h.pbuf x).totLen < 2 ^ 16) :
    ∃ h', h.pbufRealloc p newLen = some h' ∧ h'.Sound roots ∧
      (h' = h ∨ ∃ d l₁ q l₂, l = l₁ ++ q :: l₂ ∧ Realloced d l₁ q h h') := by
  unfold pbufRealloc
  split_ifs with hge
  · exact ⟨h, rfl, hs, .inl rfl⟩
  have hcard : l.length ≤ pbufPoolSize := by
    have hle := hl.nodup.length_le_card
    rwa [Fintype.card_fin] at hle
  have hused := hs.chain_used hl fun x hx => by
    cases hx
    exact hp
  have hpl : p ∈ l := by
    cases hl
    exact List.mem_cons_self
  have hlt := hmax p hpl
  have hgrow : newLen + 2 ^ 16 - (h.pbuf p).totLen = 2 ^ 16 - ((h.pbuf p).totLen - newLen) := by
    omega
  obtain ⟨q, remLen, h₁, l₁, l₂, rfl, hloop, hsh⟩ := reallocLoop_shortened pbufPoolSize newLen hl
    hcard htot hmax (show newLen + ((h.pbuf p).totLen - newLen) = _ by omega)
  have hq : q ∉ h.free := hused q (by simp)
  -- the new last pbuf
  have hlinks₂ : SameLinks h (h₁.set q fun b => { b with len := remLen, totLen := remLen }) :=
    hsh.links.trans (.set h₁ q rfl rfl)
  have hself₂ : (h₁.set q fun b => { b with len := remLen, totLen := remLen }).pbuf q =
      { h₁.pbuf q with len := remLen, totLen := remLen } := set_self ..
  have hother₂ : ∀ x, x ≠ q →
      (h₁.set q fun b => { b with len := remLen, totLen := remLen }).pbuf x = h₁.pbuf x :=
    fun x hx => set_ne h₁ q _ hx
  generalize hh₂ : (h₁.set q fun b => { b with len := remLen, totLen := remLen }) = h₂
    at hlinks₂ hself₂ hother₂
  have hs₂ : h₂.Sound roots := hlinks₂.sound.2 hs
  have hq₂ : q ∉ h₂.free := by rwa [hlinks₂.free]
  -- what is left is to cut the chain
  have hcutted : ∀ h₃ : Pbufs, SameSizes h₂ h₃ →
      Realloced ((h.pbuf p).totLen - newLen) l₁ q h (h₃.set q fun b => { b with next := none }) := by
    intro h₃ h₃s
    have hself : (h₃.set q fun b => { b with next := none }).pbuf q = { h₃.pbuf q with next := none } :=
      set_self ..
    have hother : ∀ x, x ≠ q → (h₃.set q fun b => { b with next := none }).pbuf x = h₃.pbuf x :=
      fun x hx => set_ne h₃ q _ hx
    generalize hh₄ : (h₃.set q fun b => { b with next := none }) = h₄ at hself hother
    have hsize := hsh.size
    refine ⟨fun y hy => ?_, ?_, fun y hy => ?_, fun y hy => ?_, fun y => ?_, fun y hy => ?_, ?_,
      hsh.within⟩
    · rw [← hh₄, set_free]
      exact h₃s.free y (hlinks₂.free ▸ hy)
    · rw [← hh₄, next_set, h₃s.next, hlinks₂.next]
    · by_cases hyq : y = q
      · rw [hyq, hself]
        have := hsh.rem
        rw [h₃s.totLen, hself₂]
        exact this
      · have hy₁ : y ∈ l₁ := by simpa [hyq] using hy
        rw [hother y hyq, h₃s.totLen, hother₂ y hyq]
        exact hsh.tot y hy₁
    · obtain ⟨hy₁, hyq⟩ : y ∉ l₁ ∧ y ≠ q := by simpa using hy
      rw [hother y hyq, h₃s.totLen, hother₂ y hyq, hsh.other y hy₁]
    · by_cases hyq : y = q
      · rw [hyq, hself, h₃s.payload, hself₂]
        exact (hsize q).1
      · rw [hother y hyq, h₃s.payload, hother₂ y hyq]
        exact (hsize y).1
    · rw [hother y hy, h₃s.len, hother₂ y hy]
      exact (hsize y).2
    · rw [hself]
      refine ⟨by rw [h₃s.totLen, h₃s.len, hself₂], ?_⟩
      rw [h₃s.len, hself₂]
      exact hsh.fits
  simp only [hgrow, hloop, Option.bind_eq_bind, Option.bind_some, hh₂]
  cases hnext : (h₂.pbuf q).next with
  | none =>
    refine ⟨_, rfl, ?_, .inr ⟨_, l₁, q, l₂, rfl, hcutted h₂ (.refl h₂)⟩⟩
    have hsame : SameLinks h₂ (h₂.set q fun b => { b with next := none }) :=
      .set h₂ q hnext.symm rfl
    exact hsame.sound.2 hs₂
  | some r =>
    -- the rest is given back while `q` still points to it
    have hcut : (h₂.set q fun b => { b with next := none }).Sound (r :: roots) := by
      rw [Sound, next_set, refs_set_same _ _ _ rfl]
      exact RefCounted.unlink hs₂ hq₂ hnext
    obtain ⟨c, h₃, hfree, hs₃⟩ := pbufFree_sound hcut
    obtain ⟨lq, hlq⟩ := hs₂.ends q hq₂
    cases hlq with
    | @cons _ lr hlr =>
      have hnot : q ∉ lr := (List.nodup_cons.1 (LinkChain.nodup (.cons hlr))).1
      have hr : h₂.next q = some r := hnext
      rw [hr] at hlr
      rw [pbufFree, freeLoop_set pbufPoolSize 0 hlr hnot, Option.map_eq_some_iff] at hfree
      obtain ⟨⟨c', h₄⟩, hfree', heq⟩ := hfree
      obtain ⟨-, rfl⟩ := Prod.mk.inj heq
      refine ⟨_, ?_, hs₃, .inr ⟨_, l₁, q, l₂, rfl, hcutted h₄ (freeLoop_sizes pbufPoolSize hfree')⟩⟩
      simp only [pbufFree, hfree', Option.map_some, Option.bind_some]
      rfl

theorem Realloced.sized {d : ℕ} {l₁ l₂ : List (Fin pbufPoolSize)} {p q : Fin pbufPoolSize}
    {h h' : Pbufs} (hr : Realloced d l₁ q h h') (hs : h.Sized)
    (hl : LinkChain h.next (some p) (l₁ ++ q :: l₂)) (ha : h.Alone (l₁ ++ q :: l₂)) : h'.Sized := by
  have hused : ∀ y, y ∉ h'.free → y ∉ h.free := fun y hy hm => hy (hr.free y hm)
  -- behind `q` nothing leads back
  have hbehind : ∀ y ∈ l₂, ∀ z, h.next y = some z → z ∉ l₁ ++ [q] := by
    intro y hy z hz hm
    have hz₂ := hl.behind.closed hy hz
    have hnd := hl.nodup
    rw [List.append_cons] at hnd
    exact (List.nodup_append.1 hnd).2.2 z hm z hz₂ rfl
  constructor
  · intro y hy
    rw [hr.payload]
    have hfit := hs.fits y (hused y hy)
    by_cases hyq : y = q
    · subst hyq
      have := hr.last.2
      omega
    · rwa [hr.len y hyq]
  · intro y hy
    have hright := hs.tot y (hused y hy)
    rw [TotRight] at hright ⊢
    rw [hr.next]
    by_cases hyq : y = q
    · rw [hyq, Function.update_self, hr.last.1]
      rfl
    rw [Function.update_of_ne hyq, hr.len y hyq]
    by_cases hy₁ : y ∈ l₁
    · obtain ⟨z, hz, hyz⟩ := hr.within y hy₁
      have h1 := hr.tot y (List.mem_append_left _ hy₁)
      have h2 := hr.tot z hz
      rw [hyz, Option.elim_some] at hright ⊢
      omega
    · have hout : y ∉ l₁ ++ [q] := by simp [hy₁, hyq]
      rw [hr.other y hout, hright]
      cases hz : h.next y with
      | none => rfl
      | some z =>
        have hzout : z ∉ l₁ ++ [q] := by
          intro hm
          have hzl : z ∈ l₁ ++ q :: l₂ := by
            rcases List.mem_append.1 hm with hm | hm
            · exact List.mem_append_left _ hm
            · rw [List.mem_singleton.1 hm]
              simp
          have hyl := ha y (hused y hy) z hzl hz
          have hy₂ : y ∈ l₂ := by simpa [hy₁, hyq] using hyl
          exact hbehind y hy₂ z hz hm
        rw [Option.elim_some, Option.elim_some, hr.other z hzout]

end Pbufs

end GndCtrl
