/-
  The contents of the packet buffers.

  `contents` is what a chain of pbufs holds.  `pbuf_take` writes its first bytes
  and `pbuf_copy_partial` reads any part of it, wherever the pbufs of the chain
  begin and end (`take_copy`).  `pbuf_alloc` makes a chain of the length asked
  for, or leaves the pool as it was (`pbufAlloc_spec`).
-/
import GndCtrl.PbufRefs

namespace GndCtrl

namespace Pbufs

/-- What a chain holds. -/
def contents (h : Pbufs) (l : List (Fin pbufPoolSize)) : List U8 := l.flatMap h.payload

@[simp] theorem length_payload (h : Pbufs) (p : Fin pbufPoolSize) :
    (h.payload p).length = (h.pbuf p).len := by
  rw [payload, List.length_map, List.length_range]

theorem contents_cons (h : Pbufs) (p : Fin pbufPoolSize) (l : List (Fin pbufPoolSize)) :
    h.contents (p :: l) = h.payload p ++ h.contents l := List.flatMap_cons

theorem length_contents (h : Pbufs) (l : List (Fin pbufPoolSize)) :
    (h.contents l).length = h.chainLen l := by
  rw [contents, List.length_flatMap]
  simp only [length_payload]
  rfl

theorem payload_congr {h h' : Pbufs} {p : Fin pbufPoolSize} (hp : h'.pbuf p = h.pbuf p) :
    h'.payload p = h.payload p := by
  rw [payload, payload, hp]

theorem contents_congr {h h' : Pbufs} {l : List (Fin pbufPoolSize)}
    (hl : ∀ p ∈ l, h'.pbuf p = h.pbuf p) : h'.contents l = h.contents l := by
  induction l with
  | nil => rfl
  | cons p l ih =>
    rw [contents_cons, contents_cons, payload_congr (hl p List.mem_cons_self),
      ih fun q hq => hl q (List.mem_cons_of_mem p hq)]

/-! ## Reading -/

/-- **The loop of `pbuf_copy_partial`** reads the part of the contents that is asked for. -/
theorem copyLoop_eq {h : Pbufs} (n : ℕ) {o : Option (Fin pbufPoolSize)}
    {l : List (Fin pbufPoolSize)} (hl : LinkChain h.next o l) (hn : l.length ≤ n) (len offset : ℕ) :
    copyLoop h n o len offset = some (((h.contents l).drop offset).take len) := by
  induction n generalizing o l len offset with
  | zero =>
    cases hl with
    | nil => simp [copyLoop, contents]
    | cons => simp at hn
  | succ n ih =>
    cases hl with
    | nil => simp [copyLoop, contents]
    | @cons p l hl =>
      cases len with
      | zero => simp [copyLoop]
      | succ len =>
        have hread (len offset : ℕ) : copyLoop h n (h.pbuf p).next len offset =
            some (((h.contents l).drop offset).take len) :=
          ih hl (Nat.le_of_succ_le_succ hn) len offset
        simp only [copyLoop, contents_cons]
        split_ifs with hskip
        · -- nothing of this pbuf
          have hlen : (h.payload p).length ≤ offset := by
            rw [length_payload]
            exact hskip.2
          rw [hread, List.drop_append, List.drop_of_length_le hlen, List.nil_append,
            length_payload]
        · have hoff : offset ≤ (h.payload p).length := by
            rw [length_payload]
            by_contra hlt
            exact hskip ⟨by omega, by omega⟩
          have hrest : len + 1 - (((h.payload p).drop offset).take (len + 1)).length =
              len + 1 - ((h.payload p).drop offset).length := by
            rw [List.length_take]
            omega
          rw [hread, List.drop_append_of_le_length hoff, List.take_append, hrest]
          rfl

/-! ## Writing -/

/-- The payload after a write at its beginning. -/
theorem payload_write {h : Pbufs} {p : Fin pbufPoolSize} {data : List U8}
    (hd : data.length ≤ (h.pbuf p).len) :
    (h.write p data).payload p = data ++ (h.payload p).drop data.length := by
  simp only [payload, write, set_self]
  refine List.ext_getElem (by simp; omega) fun j hj hj' => ?_
  rw [List.getElem_map, List.getElem_range]
  by_cases hlt : j < data.length
  · rw [List.getElem_append_left hlt, Mem.putList_get data _ _ j hlt]
  · rw [List.getElem_append_right (by omega), List.getElem_drop, List.getElem_map,
      List.getElem_range, Mem.putList_ge data _ _ (by omega)]
    congr 2
    omega

/-- **The loop of `pbuf_take`** writes the first bytes of the contents. -/
theorem takeLoop_eq (n : ℕ) {o : Option (Fin pbufPoolSize)} {l : List (Fin pbufPoolSize)}
    (data : List U8) {h : Pbufs} (hl : LinkChain h.next o l) (hn : l.length ≤ n)
    (hlen : data.length ≤ h.chainLen l) :
    ∃ h', takeLoop n o data h = some h' ∧ SameLinks h h' ∧
      h'.contents l = data ++ (h.contents l).drop data.length ∧
      ∀ q, q ∉ l → h'.pbuf q = h.pbuf q := by
  induction n generalizing o l data h with
  | zero =>
    cases hl with
    | nil =>
      have hnil : data = [] := List.length_eq_zero_iff.1 (Nat.le_zero.1 hlen)
      rw [hnil]
      exact ⟨h, rfl, .refl h, rfl, fun _ _ => rfl⟩
    | cons => simp at hn
  | succ n ih =>
    cases data with
    | nil => exact ⟨h, by cases o <;> rfl, .refl h, rfl, fun _ _ => rfl⟩
    | cons b data =>
      cases hl with
      | nil => simp [chainLen] at hlen
      | @cons p l hl =>
        have hp : p ∉ l := (List.nodup_cons.1 (LinkChain.nodup (.cons hl))).1
        have hsum : (b :: data).length ≤ (h.pbuf p).len + h.chainLen l := hlen
        have hnext (part : List U8) : ((h.write p part).pbuf p).next = h.next p :=
          congrFun (SameLinks.write h p part).next p
        simp only [takeLoop, hnext]
        generalize b :: data = data at hsum ⊢
        have hw : (data.take (min data.length (h.pbuf p).len)).length ≤ (h.pbuf p).len := by
          rw [List.length_take]
          omega
        have hpay := payload_write hw
        have hsame := SameLinks.write h p (data.take (min data.length (h.pbuf p).len))
        have hother : ∀ q, q ≠ p → (h.write p (data.take (min data.length (h.pbuf p).len))).pbuf q =
            h.pbuf q := fun q hq => set_ne h p _ hq
        generalize h.write p (data.take (min data.length (h.pbuf p).len)) = h₁
          at hpay hsame hother ⊢
        have hl₁ : ∀ q ∈ l, h₁.pbuf q = h.pbuf q := by
          intro q hq
          refine hother q ?_
          rintro rfl
          exact hp hq
        have hlen₁ : (data.drop (min data.length (h.pbuf p).len)).length ≤ h₁.chainLen l := by
          rw [← length_contents, contents_congr hl₁, length_contents, List.length_drop]
          omega
        obtain ⟨h', htake, hlinks, hcontents, hrest⟩ := ih _ (by rwa [hsame.next])
          (Nat.le_of_succ_le_succ hn) hlen₁
        refine ⟨h', htake, hsame.trans hlinks, ?_, fun q hq => ?_⟩
        · rw [contents_cons, hcontents, payload_congr (hrest p hp), hpay, contents_congr hl₁,
            contents_cons, List.length_take, List.length_drop]
          have hlenp := length_payload h p
          by_cases hfit : data.length ≤ (h.pbuf p).len
          · -- the data ends in this pbuf
            rw [Nat.min_eq_left hfit, Nat.min_self, List.take_length, List.drop_length,
              Nat.sub_self, List.nil_append, List.drop_zero, List.append_assoc,
              List.drop_append_of_le_length (by omega)]
          · have hlt : (h.pbuf p).len ≤ data.length := by omega
            have hnone : (h.payload p).drop (h.pbuf p).len = [] :=
              List.drop_of_length_le (by omega)
            have hall : (h.payload p).drop data.length = [] := List.drop_of_length_le (by omega)
            rw [Nat.min_eq_right hlt, Nat.min_eq_left hlt, hnone, List.append_nil,
              ← List.append_assoc, List.take_append_drop, List.drop_append, hall, List.nil_append,
              hlenp]
        · obtain ⟨hqp, hql⟩ := not_or.1 fun hm => hq (List.mem_cons.2 hm)
          rw [hrest q hql, hother q hqp]

/-- `pbuf_take` leaves the chains as they are. -/
theorem pbufTake_links {h : Pbufs} {p : Fin pbufPoolSize} {l : List (Fin pbufPoolSize)}
    (hl : LinkChain h.next (some p) l) (hlen : (h.pbuf p).totLen ≤ h.chainLen l) (data : List U8) :
    ∃ ok h', h.pbufTake p data = some (ok, h') ∧ SameLinks h h' := by
  have hcard := hl.nodup.length_le_card
  rw [Fintype.card_fin] at hcard
  by_cases hfit : (h.pbuf p).totLen < data.length
  · exact ⟨false, h, by rw [pbufTake, if_pos hfit], .refl h⟩
  · obtain ⟨h', htake, hlinks, -⟩ := takeLoop_eq pbufPoolSize data hl hcard (by omega)
    exact ⟨true, h', by rw [pbufTake, if_neg hfit, htake]; rfl, hlinks⟩

/-- **Write and read.**  `pbuf_take` writes the data at the beginning of a chain, whatever the pbufs
    of it are; then `pbuf_copy_partial` reads any part of the data and of what was behind it. -/
theorem take_copy {h : Pbufs} {p : Fin pbufPoolSize} {l : List (Fin pbufPoolSize)}
    (hl : LinkChain h.next (some p) l) (hlen : (h.pbuf p).totLen ≤ h.chainLen l) (data : List U8) :
    if data.length ≤ (h.pbuf p).totLen then
      ∃ h', h.pbufTake p data = some (true, h') ∧ SameLinks h h' ∧
        (∀ q, q ∉ l → h'.pbuf q = h.pbuf q) ∧
        ∀ len offset, h'.pbufCopyPartial p len offset =
          some (((data ++ (h.contents l).drop data.length).drop offset).take len)
    else h.pbufTake p data = some (false, h) := by
  have hcard := hl.nodup.length_le_card
  rw [Fintype.card_fin] at hcard
  split_ifs with hfit
  · obtain ⟨h', htake, hlinks, hcontents, hrest⟩ := takeLoop_eq pbufPoolSize data hl hcard
      (by omega)
    refine ⟨h', ?_, hlinks, hrest, fun len offset => ?_⟩
    · rw [pbufTake, if_neg (by omega), htake]
      rfl
    · rw [pbufCopyPartial, copyLoop_eq pbufPoolSize (by rwa [hlinks.next]) hcard, hcontents]
  · rw [pbufTake, if_pos (by omega)]

/-- Three bytes in two pbufs. -/
theorem take_copy_two :
    let h := (init.set 0 fun b => { b with next := some 1, totLen := 5, len := 2 }).set 1
      fun b => { b with totLen := 3, len := 3 }
    if [7, 8, 9].length ≤ (h.pbuf 0).totLen then
      ∃ h', h.pbufTake 0 [7, 8, 9] = some (true, h') ∧ SameLinks h h' ∧
        (∀ q, q ∉ [0, 1] → h'.pbuf q = h.pbuf q) ∧
        ∀ len offset, h'.pbufCopyPartial 0 len offset =
          some ((([7, 8, 9] ++ (h.contents [0, 1]).drop 3).drop offset).take len)
    else h.pbufTake 0 [7, 8, 9] = some (false, h) := by
  intro h
  exact take_copy (h := h) (p := 0) (l := [0, 1]) (.cons (.cons .nil)) (Nat.le_refl 5) [7, 8, 9]

/-! ## Allocation -/

/-- The `tot_len` of each pbuf is the length of the chain from it on. -/
def TotOk (h : Pbufs) : List (Fin pbufPoolSize) → Prop
  | [] => True
  | p :: l => (h.pbuf p).totLen = h.chainLen (p :: l) ∧ TotOk h l

/-- The number of pbufs for `remLen` bytes without headers. -/
def pbufCount (remLen : ℕ) : ℕ := (remLen + (pbufPoolBufsize - 1)) / pbufPoolBufsize

theorem pbufCount_pos {remLen : ℕ} (h : remLen ≠ 0) :
    pbufCount remLen = pbufCount (remLen - min remLen pbufPoolBufsize) + 1 := by
  simp only [pbufCount, pbufPoolBufsize]
  omega

/-- What `allocLoop` makes of the pbufs `l` behind `r`. -/
structure Extended (m : Fin pbufPoolSize → PbufStruct) (r : Fin pbufPoolSize)
    (l : List (Fin pbufPoolSize)) (remLen : ℕ) (h : Pbufs) : Prop where
  last : h.pbuf r = { m r with next := l.head? }
  chain : LinkChain h.next l.head? l
  len : h.chainLen l = remLen
  tot : h.TotOk l
  fits : ∀ q ∈ l, (h.pbuf q).payload + (h.pbuf q).len ≤ pbufPoolBufsize
  other : ∀ q, q ≠ r → q ∉ l → h.pbuf q = m q

theorem chainLen_cons (h : Pbufs) (p : Fin pbufPoolSize) (l : List (Fin pbufPoolSize)) :
    h.chainLen (p :: l) = (h.pbuf p).len + h.chainLen l := List.sum_cons

theorem Extended.nil {m : Fin pbufPoolSize → PbufStruct} {r : Fin pbufPoolSize}
    (hr : (m r).next = none) (free : List (Fin pbufPoolSize)) : Extended m r [] 0 ⟨m, free⟩ where
  last := by rw [List.head?_nil, ← hr]
  chain := .nil
  len := rfl
  tot := trivial
  fits := by simp
  other := fun _ _ _ => rfl

/-- **The loop of `pbuf_alloc`** with enough free pbufs. -/
theorem allocLoop_eq {p : Fin pbufPoolSize} (free : List (Fin pbufPoolSize)) {remLen : ℕ}
    {r : Fin pbufPoolSize} {m : Fin pbufPoolSize → PbufStruct} (hn : (r :: free).Nodup)
    (hr : (m r).next = none) (hk : pbufCount remLen ≤ free.length) :
    ∃ h', allocLoop p free remLen r m = some (some p, h') ∧
      h'.free = free.drop (pbufCount remLen) ∧
      Extended m r (free.take (pbufCount remLen)) remLen h' := by
  induction free generalizing remLen r m with
  | nil =>
    have hzero : remLen = 0 := by
      by_contra hne
      rw [pbufCount_pos hne] at hk
      simp at hk
    subst hzero
    exact ⟨_, rfl, rfl, .nil hr []⟩
  | cons q free ih =>
    unfold allocLoop
    split_ifs with hzero
    · subst hzero
      exact ⟨_, rfl, rfl, .nil hr (q :: free)⟩
    · obtain ⟨hrq, hq⟩ := List.nodup_cons.1 hn
      obtain ⟨hrq, hrf⟩ := not_or.1 fun hm => hrq (List.mem_cons.2 hm)
      rw [pbufCount_pos hzero] at hk ⊢
      have hmr : Function.update m q ((m q).alloc 0 remLen (min remLen pbufPoolBufsize)) r = m r :=
        Function.update_of_ne hrq ..
      dsimp only
      rw [hmr]
      generalize hm : Function.update (Function.update m q ((m q).alloc 0 remLen
        (min remLen pbufPoolBufsize))) r { m r with next := some q } = m'
      have hmq : m' q = (m q).alloc 0 remLen (min remLen pbufPoolBufsize) := by
        rw [← hm, Function.update_of_ne (Ne.symm hrq), Function.update_self]
      have hmr' : m' r = { m r with next := some q } := by
        rw [← hm, Function.update_self]
      have hnone : (m' q).next = none := by
        rw [hmq]
        rfl
      obtain ⟨h', halloc, hfree, hext⟩ := ih hq hnone (Nat.le_of_succ_le_succ hk)
      refine ⟨h', halloc, hfree, ?_⟩
      rw [List.take_succ_cons]
      have hlast := hext.last
      rw [hmq] at hlast
      have hlen : h'.chainLen (q :: free.take (pbufCount (remLen - min remLen pbufPoolBufsize))) =
          remLen := by
        rw [chainLen_cons, hlast, hext.len]
        exact Nat.add_sub_of_le (Nat.min_le_left ..)
      constructor
      · rw [hext.other r hrq fun hm => hrf (List.mem_of_mem_take hm), hmr']
        rfl
      · refine .cons ?_
        rw [next, hlast]
        exact hext.chain
      · exact hlen
      · refine ⟨?_, hext.tot⟩
        rw [hlen, hlast]
        rfl
      · intro x hx
        rcases List.mem_cons.1 hx with rfl | hx
        · rw [hlast]
          change 0 + min remLen pbufPoolBufsize ≤ pbufPoolBufsize
          omega
        · exact hext.fits x hx
      · intro x hxr hx
        obtain ⟨hxq, hx⟩ := not_or.1 fun hm => hx (List.mem_cons.2 hm)
        rw [hext.other x hxq hx, ← hm, Function.update_of_ne hxr, Function.update_of_ne hxq]

/-- `pbuf_free` of a chain to which nothing else refers. -/
theorem freeLoop_all (n : ℕ) {o : Option (Fin pbufPoolSize)} {l : List (Fin pbufPoolSize)}
    (count : ℕ) {h : Pbufs} (hl : LinkChain h.next o l) (hn : l.length ≤ n)
    (hone : ∀ q ∈ l, (h.pbuf q).ref = 1) :
    ∃ h', freeLoop n o count h = some (count + l.length, h') ∧ h'.free = l.reverse ++ h.free ∧
      ∀ q, q ∉ l → h'.pbuf q = h.pbuf q := by
  induction n generalizing o l count h with
  | zero =>
    cases hl with
    | nil => exact ⟨h, rfl, rfl, fun _ _ => rfl⟩
    | cons => simp at hn
  | succ n ih =>
    cases hl with
    | nil => exact ⟨h, rfl, rfl, fun _ _ => rfl⟩
    | @cons p l hl =>
      have hp : p ∉ l := (List.nodup_cons.1 (LinkChain.nodup (.cons hl))).1
      have hrefp := hone p List.mem_cons_self
      have hother : ∀ q, q ≠ p → (h.set p fun b => { b with ref := b.ref - 1 }).pbuf q =
          h.pbuf q := fun q hq => set_ne h p _ hq
      have hne : ∀ q ∈ l, q ≠ p := by
        rintro q hq rfl
        exact hp hq
      have hzero : ((h.set p fun b => { b with ref := b.ref - 1 }).pbuf p).ref = 0 := by
        rw [set_self, hrefp]
      obtain ⟨h', hfree, hlist, hrest⟩ := ih (count + 1)
        (h := (h.set p fun b => { b with ref := b.ref - 1 }).mempFree p)
        (by rwa [next_mempFree, next_set_same h p _ rfl]) (Nat.le_of_succ_le_succ hn)
        (fun q hq => by
          rw [mempFree, hother q (hne q hq)]
          exact hone q (List.mem_cons_of_mem p hq))
      refine ⟨h', ?_, ?_, fun q hq => ?_⟩
      · simp only [freeLoop, if_neg (show (h.pbuf p).ref ≠ 0 by omega), if_pos hzero]
        have hnext : ((h.set p fun b => { b with ref := b.ref - 1 }).pbuf p).next = h.next p := by
          rw [set_self]
          rfl
        rw [hnext, hfree, List.length_cons]
        congr 2
        omega
      · rw [hlist, mempFree, set_free, List.reverse_cons, List.append_assoc]
        rfl
      · obtain ⟨hqp, hql⟩ := not_or.1 fun hm => hq (List.mem_cons.2 hm)
        rw [hrest q hql, mempFree, hother q hqp]

/-- **The loop of `pbuf_alloc`** that runs out of free pbufs gives back all that it took. -/
theorem allocLoop_none {p : Fin pbufPoolSize} (free : List (Fin pbufPoolSize)) {remLen : ℕ}
    {r : Fin pbufPoolSize} {l : List (Fin pbufPoolSize)} {m : Fin pbufPoolSize → PbufStruct}
    (hn : (l ++ free).Nodup) (hl : LinkChain (Pbufs.mk m free).next (some p) l) (hr : r ∈ l)
    (hlast : (m r).next = none) (hone : ∀ q ∈ l, (m q).ref = 1)
    (hk : free.length < pbufCount remLen) :
    ∃ h', allocLoop p free remLen r m = some (none, h') ∧ h'.free.Perm (l ++ free) ∧
      ∀ q, q ∉ l ++ free → h'.pbuf q = m q := by
  induction free generalizing remLen r l m with
  | nil =>
    have hpos : remLen ≠ 0 := by
      rintro rfl
      exact absurd hk (by decide)
    have hcard := hl.nodup.length_le_card
    rw [Fintype.card_fin] at hcard
    obtain ⟨h', hfree, hlist, hrest⟩ := freeLoop_all pbufPoolSize 0 hl hcard hone
    refine ⟨h', ?_, ?_, fun q hq => hrest q (by simpa using hq)⟩
    · rw [allocLoop, if_neg hpos, pbufFree, hfree]
      rfl
    · rw [hlist]
      exact (List.reverse_perm l).append_right []
  | cons q free ih =>
    have hpos : remLen ≠ 0 := by
      rintro rfl
      exact absurd hk (Nat.not_lt_zero _)
    have hql : q ∉ l := fun hm => (List.nodup_append.1 hn).2.2 q hm q List.mem_cons_self rfl
    have hqr : q ≠ r := by
      rintro rfl
      exact hql hr
    have hmr : Function.update m q ((m q).alloc 0 remLen (min remLen pbufPoolBufsize)) r = m r :=
      Function.update_of_ne (Ne.symm hqr) ..
    rw [pbufCount_pos hpos] at hk
    rw [allocLoop, if_neg hpos]
    dsimp only
    rw [hmr]
    generalize hm : Function.update (Function.update m q ((m q).alloc 0 remLen
      (min remLen pbufPoolBufsize))) r { m r with next := some q } = m'
    have hmq : m' q = (m q).alloc 0 remLen (min remLen pbufPoolBufsize) := by
      rw [← hm, Function.update_of_ne hqr, Function.update_self]
    have hmr' : m' r = { m r with next := some q } := by
      rw [← hm, Function.update_self]
    have hother : ∀ x, x ≠ r → x ≠ q → m' x = m x := by
      intro x hxr hxq
      rw [← hm, Function.update_of_ne hxr, Function.update_of_ne hxq]
    have happ : l ++ q :: free = (l ++ [q]) ++ free := (List.append_assoc l [q] free).symm
    rw [happ] at hn ⊢
    have hnone : (m' q).next = none := by
      rw [hmq]
      rfl
    have hchain : LinkChain (Pbufs.mk m' free).next (some p) (l ++ [q]) := by
      -- the chain up to `r` with `q` as it is after the allocation
      have hl' : LinkChain (Function.update (Pbufs.mk m' free).next r none) (some p) l := by
        refine hl.congr fun x hx => ?_
        by_cases hxr : x = r
        · subst hxr
          rw [Function.update_self]
          exact hlast.symm
        · have hxq : x ≠ q := by
            rintro rfl
            exact hql hx
          rw [Function.update_of_ne hxr]
          exact congrArg PbufStruct.next (hother x hxr hxq)
      obtain ⟨l₁, l₂, rfl, hrl, -, hcat⟩ := hl'.split hr
      have hnil : l₂ = [] := by
        cases hrl with
        | cons hrl =>
          rw [Function.update_self] at hrl
          cases hrl
          rfl
      subst hnil
      rw [List.append_assoc]
      have hnr : (Pbufs.mk m' free).next r = some q := congrArg PbufStruct.next hmr'
      have hnq : (Pbufs.mk m' free).next q = none := hnone
      refine hcat _ (fun x hx => (Function.update_of_ne hx ..).symm) [r, q] (.cons ?_)
      rw [hnr]
      refine .cons ?_
      rw [hnq]
      exact .nil
    have hone' : ∀ x ∈ l ++ [q], (m' x).ref = 1 := by
      intro x hx
      by_cases hxr : x = r
      · subst hxr
        rw [hmr']
        exact hone x hr
      · by_cases hxq : x = q
        · rw [hxq, hmq]
          rfl
        · rw [hother x hxr hxq]
          refine hone x ((List.mem_append.1 hx).resolve_right ?_)
          simpa using hxq
    obtain ⟨h', halloc, hperm, hrest⟩ := ih hn hchain (by simp) hnone hone'
      (Nat.lt_of_succ_lt_succ hk)
    refine ⟨h', halloc, hperm, fun x hx => ?_⟩
    rw [hrest x hx]
    refine hother x ?_ ?_
    · rintro rfl
      exact hx (by simp [hr])
    · rintro rfl
      exact hx (by simp)

/-- The first pbuf of an allocation. -/
theorem alloc_first (m : Fin pbufPoolSize → PbufStruct) (p : Fin pbufPoolSize) (layer : PbufLayer)
    (length : ℕ) (free : List (Fin pbufPoolSize)) :
    (Pbufs.mk m (p :: free)).pbufAlloc layer length =
      allocLoop p free (length - (pbufPoolBufsize - lwipMemAlignSize layer.offset)) p
        (Function.update m p ((m p).alloc (lwipMemAlignSize layer.offset) length
          (min length (pbufPoolBufsize - lwipMemAlignSize layer.offset)))) := by
  have hrem : length - min length (pbufPoolBufsize - lwipMemAlignSize layer.offset) =
      length - (pbufPoolBufsize - lwipMemAlignSize layer.offset) := by omega
  simp only [pbufAlloc, hrem]

/-- `pbuf_alloc` with enough free pbufs. -/
theorem pbufAlloc_made {h : Pbufs} (hn : h.free.Nodup) (layer : PbufLayer) (length : ℕ) {k : ℕ}
    (hk : k = pbufCount (length - (pbufPoolBufsize - lwipMemAlignSize layer.offset)) + 1)
    (hle : k ≤ h.free.length) :
    ∃ p h', h.pbufAlloc layer length = some (some p, h') ∧ h'.free = h.free.drop k ∧
      LinkChain h'.next (some p) (h.free.take k) ∧ h'.TotOk (h.free.take k) ∧
      (h'.pbuf p).totLen = length ∧ (h'.pbuf p).payload = lwipMemAlignSize layer.offset ∧
      (∀ q ∈ h.free.take k, (h'.pbuf q).payload + (h'.pbuf q).len ≤ pbufPoolBufsize) ∧
      ∀ q, q ∉ h.free.take k → h'.pbuf q = h.pbuf q := by
  subst hk
  obtain ⟨m, free⟩ := h
  cases free with
  | nil => exact absurd hle (Nat.not_le.2 (Nat.succ_pos _))
  | cons p free =>
    rw [alloc_first]
    generalize hm : Function.update m p ((m p).alloc (lwipMemAlignSize layer.offset) length
      (min length (pbufPoolBufsize - lwipMemAlignSize layer.offset))) = m'
    have hmp : m' p = (m p).alloc (lwipMemAlignSize layer.offset) length
        (min length (pbufPoolBufsize - lwipMemAlignSize layer.offset)) := by
      rw [← hm, Function.update_self]
    have hnone : (m' p).next = none := by
      rw [hmp]
      rfl
    obtain ⟨h', halloc, hfree, hext⟩ := allocLoop_eq (p := p) free hn hnone
      (Nat.le_of_succ_le_succ hle)
    have hlast := hext.last
    rw [hmp] at hlast
    have htot : (h'.pbuf p).totLen = length := by
      rw [hlast]
      rfl
    have hpay : (h'.pbuf p).payload = lwipMemAlignSize layer.offset := by
      rw [hlast]
      rfl
    refine ⟨p, h', halloc, hfree, ?_, ?_, htot, hpay, fun q hq => ?_, fun q hq => ?_⟩ <;>
      rw [List.take_succ_cons] at *
    · refine .cons ?_
      rw [next, hlast]
      exact hext.chain
    · refine ⟨?_, hext.tot⟩
      rw [chainLen_cons, hext.len, htot, hlast]
      change length = min length (pbufPoolBufsize - lwipMemAlignSize layer.offset) + _
      omega
    · rcases List.mem_cons.1 hq with rfl | hq
      · have hoff : lwipMemAlignSize layer.offset ≤ pbufPoolBufsize := by cases layer <;> decide
        rw [hpay, hlast]
        change _ + min length (pbufPoolBufsize - lwipMemAlignSize layer.offset) ≤ _
        omega
      · exact hext.fits q hq
    · rw [List.mem_cons, not_or] at hq
      rw [hext.other q hq.1 hq.2, ← hm, Function.update_of_ne hq.1]

/-- `pbuf_alloc` without enough free pbufs. -/
theorem pbufAlloc_out {h : Pbufs} (hn : h.free.Nodup) (layer : PbufLayer) (length : ℕ)
    (hk : ¬ pbufCount (length - (pbufPoolBufsize - lwipMemAlignSize layer.offset)) + 1 ≤
      h.free.length) :
    ∃ h', h.pbufAlloc layer length = some (none, h') ∧ h'.free.Perm h.free ∧
      ∀ q, q ∉ h.free → h'.pbuf q = h.pbuf q := by
  obtain ⟨m, free⟩ := h
  cases free with
  | nil => exact ⟨_, rfl, List.Perm.refl _, fun _ _ => rfl⟩
  | cons p free =>
    rw [alloc_first]
    generalize hm : Function.update m p ((m p).alloc (lwipMemAlignSize layer.offset) length
      (min length (pbufPoolBufsize - lwipMemAlignSize layer.offset))) = m'
    have hmp : m' p = (m p).alloc (lwipMemAlignSize layer.offset) length
        (min length (pbufPoolBufsize - lwipMemAlignSize layer.offset)) := by
      rw [← hm, Function.update_self]
    have hnone : (m' p).next = none := by
      rw [hmp]
      rfl
    have hchain : LinkChain (Pbufs.mk m' free).next (some p) [p] := by
      have hnp : (Pbufs.mk m' free).next p = none := hnone
      refine .cons ?_
      rw [hnp]
      exact .nil
    have hone : ∀ q ∈ [p], (m' q).ref = 1 := by
      intro q hq
      rw [List.mem_singleton.1 hq, hmp]
      rfl
    obtain ⟨h', halloc, hperm, hrest⟩ := allocLoop_none free (l := [p]) hn hchain
      List.mem_cons_self hnone hone (Nat.lt_of_succ_lt_succ (Nat.not_le.1 hk))
    refine ⟨h', halloc, hperm, fun q hq => ?_⟩
    have hqp : q ≠ p := by
      rintro rfl
      exact hq List.mem_cons_self
    rw [hrest q hq, ← hm, Function.update_of_ne hqp]

/-- **Allocation.**  `pbuf_alloc` of a `PBUF_POOL` succeeds just when there are enough free pbufs,
    one for the headers and the first bytes and one for each 1500 bytes more; it then takes the
    first free pbufs as a chain of the length asked for, whose `tot_len` are right.  Else all pbufs
    that it took are free again. -/
theorem pbufAlloc_spec {h : Pbufs} (hn : h.free.Nodup) (layer : PbufLayer) (length : ℕ) :
    let k := pbufCount (length - (pbufPoolBufsize - lwipMemAlignSize layer.offset)) + 1
    if k ≤ h.free.length then
      ∃ p h', h.pbufAlloc layer length = some (some p, h') ∧ h'.free = h.free.drop k ∧
        LinkChain h'.next (some p) (h.free.take k) ∧ h'.TotOk (h.free.take k) ∧
        (h'.pbuf p).totLen = length ∧ (h'.pbuf p).payload = lwipMemAlignSize layer.offset ∧
        ∀ q, q ∉ h.free.take k → h'.pbuf q = h.pbuf q
    else
      ∃ h', h.pbufAlloc layer length = some (none, h') ∧ h'.free.Perm h.free ∧
        ∀ q, q ∉ h.free → h'.pbuf q = h.pbuf q := by
  intro k
  split_ifs with hk
  · obtain ⟨p, h', halloc, hfree, hl, htot, hlen, hpay, -, hother⟩ :=
      pbufAlloc_made hn layer length rfl hk
    exact ⟨p, h', halloc, hfree, hl, htot, hlen, hpay, hother⟩
  · exact pbufAlloc_out hn layer length hk

/-- A frame of 2000 bytes takes two pbufs of the pool. -/
theorem pbufAlloc_spec_two :
    let k := pbufCount (2000 - (pbufPoolBufsize - lwipMemAlignSize PbufLayer.transport.offset)) + 1
    if k ≤ init.free.length then
      ∃ p h', init.pbufAlloc .transport 2000 = some (some p, h') ∧
        h'.free = init.free.drop k ∧ LinkChain h'.next (some p) (init.free.take k) ∧
        h'.TotOk (init.free.take k) ∧ (h'.pbuf p).totLen = 2000 ∧
        (h'.pbuf p).payload = lwipMemAlignSize PbufLayer.transport.offset ∧
        ∀ q, q ∉ init.free.take k → h'.pbuf q = init.pbuf q
    else
      ∃ h', init.pbufAlloc .transport 2000 = some (none, h') ∧ h'.free.Perm init.free ∧
        ∀ q, q ∉ init.free → h'.pbuf q = init.pbuf q :=
  pbufAlloc_spec (by decide) .transport 2000

end Pbufs

end GndCtrl
