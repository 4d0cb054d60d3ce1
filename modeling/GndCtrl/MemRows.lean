/-
  The heap of lwIP as a row of blocks.

  `Tiled h bs` — the structures in the heap are those of the blocks `bs`, which
  fill it, and `lfree` is the first free one.  `Holds` adds that free blocks are
  merged.  The spec lemmas say what each function does to the blocks, and that
  the structures it writes to are not within a used block.
-/
import GndCtrl.Lib.Blocks
import GndCtrl.Mem

namespace GndCtrl.MemHeap

/-! ## Structures -/

section
variable {h : MemHeap} {p y : ℕ} {f : MemStruct → MemStruct}

theorem set_self : (h.set p f).ram p = f (h.ram p) := Function.update_self ..

theorem set_ne (hne : y ≠ p) : (h.set p f).ram y = h.ram y := Function.update_of_ne hne ..

@[simp] theorem set_lfree : (h.set p f).lfree = h.lfree := rfl

@[simp] theorem set_writes : (h.set p f).writes = h.writes ++ [p] := rfl

end

/-- The structures of blocks laid out from `a`; `p` is the one before them. -/
def Laid (ram : ℕ → MemStruct) : ℕ → ℕ → List Block → Prop
  | _, _, [] => True
  | p, a, b :: bs => ram a = ⟨a + b.size, p, b.used⟩ ∧ Laid ram a (a + b.size) bs

/-- The structure before what follows the blocks. -/
def prevOf : ℕ → ℕ → List Block → ℕ
  | p, _, [] => p
  | _, a, b :: bs => prevOf a (a + b.size) bs

section
variable {ram ram' : ℕ → MemStruct} {p p' a : ℕ} {l r bs : List Block}

theorem laid_append : Laid ram p a (l ++ r) ↔
    Laid ram p a l ∧ Laid ram (prevOf p a l) (a + extent l) r := by
  induction l generalizing p a with
  | nil => exact (and_iff_right trivial).symm
  | cons b l ih =>
    rw [List.cons_append, Laid, Laid, prevOf, ih, extent_cons, Nat.add_assoc, and_assoc]

theorem prevOf_append : prevOf p a (l ++ r) = prevOf (prevOf p a l) (a + extent l) r := by
  induction l generalizing p a with
  | nil => rfl
  | cons b l ih => rw [List.cons_append, prevOf, prevOf, ih, extent_cons, Nat.add_assoc]

/-- Only the structures of the blocks matter. -/
theorem Laid.congr (h : Laid ram p a bs) (hs : Solid bs)
    (heq : ∀ y, a ≤ y → y < a + extent bs → ram' y = ram y) : Laid ram' p a bs := by
  induction bs generalizing p a with
  | nil => trivial
  | cons b bs ih =>
    have hb := hs b List.mem_cons_self
    rw [extent_cons] at heq
    refine ⟨(heq a le_rfl (by omega)).trans h.1, ?_⟩
    exact ih h.2 (fun c hc => hs c (List.mem_cons_of_mem b hc)) fun y hy hlt =>
      heq y (by omega) (by omega)

/-- The structure before the blocks may be another one. -/
theorem Laid.relink (h : Laid ram p a bs) (hs : Solid bs)
    (hhead : bs ≠ [] → ram' a = { ram a with prev := p' }) (heq : ∀ y, a < y → ram' y = ram y) :
    Laid ram' p' a bs := by
  cases bs with
  | nil => trivial
  | cons b bs =>
    have hb := hs b List.mem_cons_self
    refine ⟨?_, ?_⟩
    · rw [hhead (List.cons_ne_nil b bs), h.1]
    · exact h.2.congr (fun c hc => hs c (List.mem_cons_of_mem b hc)) fun y hy _ =>
        heq y (by omega)

end

/-- The size a block can have. -/
def Fair (b : Block) : Prop := sizeofStructMem + minSizeAligned ≤ b.size ∧ 4 ∣ b.size

theorem solid_of_fair {bs : List Block} (h : ∀ b ∈ bs, Fair b) : Solid bs :=
  fun b hb => Nat.lt_of_lt_of_le (by decide) (h b hb).1

/-- The heap holds the blocks. -/
structure Tiled (h : MemHeap) (bs : List Block) : Prop where
  laid : Laid h.ram 0 0 bs
  full : extent bs = memSizeAligned
  stop : (h.ram memSizeAligned).used = true
  lfree : h.lfree = firstFree bs
  fair : ∀ b ∈ bs, Fair b

/-- The heap holds the blocks, and free ones are merged. -/
structure Holds (h : MemHeap) (bs : List Block) : Prop extends h.Tiled bs where
  merged : Merged bs

theorem holds_init : init.Holds [⟨false, memSizeAligned⟩] where
  laid := ⟨rfl, trivial⟩
  full := rfl
  stop := rfl
  lfree := rfl
  fair := by
    intro b hb
    cases List.mem_singleton.1 hb
    exact ⟨by decide, by decide⟩
  merged := List.isChain_singleton _

namespace Tiled
variable {h h' : MemHeap} {l r m k : List Block} {b : Block}

theorem solid (ht : h.Tiled (l ++ r)) : Solid l ∧ Solid r :=
  ⟨fun b hb => solid_of_fair ht.fair b (List.mem_append_left r hb),
    fun b hb => solid_of_fair ht.fair b (List.mem_append_right l hb)⟩

/-- The structure of a block. -/
theorem ram_eq (ht : h.Tiled (l ++ b :: r)) :
    h.ram (extent l) = ⟨extent l + b.size, prevOf 0 0 l, b.used⟩ := by
  have := (laid_append.1 ht.laid).2.1
  rwa [Nat.zero_add] at this

/-- The end of a row of blocks is the end of the heap or the structure of the next block. -/
theorem end_cases (ht : h.Tiled (l ++ r)) :
    r = [] ∧ extent l = memSizeAligned ∨ r ≠ [] ∧ extent l < memSizeAligned := by
  have hext := ht.full
  rw [extent_append] at hext
  cases r with
  | nil => exact .inl ⟨rfl, hext⟩
  | cons c r =>
    have hc := ht.solid.2 c List.mem_cons_self
    rw [extent_cons] at hext
    exact .inr ⟨List.cons_ne_nil c r, by omega⟩

/-- **Blocks are replaced** by others of the same extent. -/
theorem splice (ht : h.Tiled (l ++ (m ++ r))) (hext : extent k = extent m)
    (hfair : ∀ b ∈ k, Fair b) (hlow : ∀ y < extent l, h'.ram y = h.ram y)
    (hmid : Laid h'.ram (prevOf 0 0 l) (extent l) k)
    (hend : ∃ q, h'.ram (extent (l ++ m)) =
      { h.ram (extent (l ++ m)) with prev := q } ∧
        (extent (l ++ m) ≠ memSizeAligned → q = prevOf (prevOf 0 0 l) (extent l) k))
    (hhigh : ∀ y, extent (l ++ m) < y → h'.ram y = h.ram y)
    (hlfree : h'.lfree = firstFree (l ++ (k ++ r))) : h'.Tiled (l ++ (k ++ r)) := by
  obtain ⟨hsl, hsm⟩ := ht.solid
  have hsr : Solid r := fun b hb => hsm b (List.mem_append_right m hb)
  obtain ⟨hl, hm⟩ := laid_append.1 ht.laid
  obtain ⟨-, hr⟩ := laid_append.1 hm
  obtain ⟨q, hq, hprev⟩ := hend
  have hassoc : h.Tiled ((l ++ m) ++ r) := by rwa [List.append_assoc]
  rw [extent_append] at hq hprev hhigh
  rw [Nat.zero_add] at hr
  refine ⟨?_, ?_, ?_, hlfree, ?_⟩
  · refine laid_append.2 ⟨hl.congr hsl fun y _ hy => hlow y (by omega), ?_⟩
    rw [Nat.zero_add]
    refine laid_append.2 ⟨hmid, ?_⟩
    rw [hext]
    refine hr.relink hsr (fun hne => ?_) hhigh
    have hlt := (hassoc.end_cases.resolve_left fun h => hne h.1).2
    rw [extent_append] at hlt
    rw [hq, hprev (Nat.ne_of_lt hlt)]
  · have := ht.full
    simp only [extent_append] at this ⊢
    omega
  · rcases hassoc.end_cases with ⟨-, he⟩ | ⟨-, hlt⟩
    · rw [extent_append] at he
      rw [← he, hq, he]
      exact ht.stop
    · rw [extent_append] at hlt
      rw [hhigh _ hlt]
      exact ht.stop
  · intro b hb
    rcases List.mem_append.1 hb with hb | hb
    · exact ht.fair b (List.mem_append_left _ hb)
    · rcases List.mem_append.1 hb with hb | hb
      · exact hfair b hb
      · exact ht.fair b (List.mem_append_right _ (List.mem_append_right _ hb))

end Tiled

/-! ## What is written -/

/-- None of the structures written to from `h` to `h'` is within one of the blocks `us`. -/
def Spares (h h' : MemHeap) (us : List (ℕ × ℕ)) : Prop :=
  ∃ ws, h'.writes = h.writes ++ ws ∧ ∀ y ∈ ws, ∀ u ∈ us, Outside y u

namespace Spares
variable {h h' h'' : MemHeap} {us : List (ℕ × ℕ)}

theorem refl (h : MemHeap) (us : List (ℕ × ℕ)) : h.Spares h us :=
  ⟨[], (List.append_nil _).symm, fun _ hy => absurd hy List.not_mem_nil⟩

theorem trans (h₁ : h.Spares h' us) (h₂ : h'.Spares h'' us) : h.Spares h'' us := by
  obtain ⟨ws, hw, hout⟩ := h₁
  obtain ⟨ws', hw', hout'⟩ := h₂
  refine ⟨ws ++ ws', by rw [hw', hw, List.append_assoc], ?_⟩
  intro y hy
  rcases List.mem_append.1 hy with hy | hy
  · exact hout y hy
  · exact hout' y hy

theorem set (h₁ : h.Spares h' us) {p : ℕ} (hp : ∀ u ∈ us, Outside p u)
    (f : MemStruct → MemStruct) : h.Spares (h'.set p f) us := by
  refine h₁.trans ⟨[p], rfl, ?_⟩
  intro y hy
  rwa [List.mem_singleton.1 hy]

end Spares

/-! ## `mem_free` -/

namespace Tiled
variable {h : MemHeap} {l r : List Block} {b : Block}

theorem dvd_extent {bs : List Block} (h : ∀ b ∈ bs, Fair b) : 4 ∣ extent bs := by
  induction bs with
  | nil => exact dvd_zero 4
  | cons b bs ih =>
    rw [extent_cons]
    exact Nat.dvd_add (h b List.mem_cons_self).2 (ih fun c hc => h c (List.mem_cons_of_mem b hc))

/-- The place of a block. -/
theorem place (ht : h.Tiled (l ++ b :: r)) :
    sizeofStructMem + minSizeAligned ≤ b.size ∧ 4 ∣ b.size ∧ 4 ∣ extent l ∧
      extent l + b.size ≤ memSizeAligned := by
  obtain ⟨hle, hdvd⟩ := ht.fair b (List.mem_append_right l List.mem_cons_self)
  refine ⟨hle, hdvd, dvd_extent fun c hc => ht.fair c (List.mem_append_left _ hc), ?_⟩
  have := ht.full
  rw [extent_append, extent_cons] at this
  omega

/-- A block is taken or given back. -/
theorem mark (ht : h.Tiled (l ++ b :: r)) (u : Bool) :
    Tiled { h.set (extent l) fun m => { m with used := u } with
      lfree := firstFree (l ++ ⟨u, b.size⟩ :: r) } (l ++ ⟨u, b.size⟩ :: r) := by
  have hpos := ht.solid.2 b List.mem_cons_self
  have he : extent (l ++ [b]) = extent l + b.size := by
    simp only [extent_append, extent_cons, extent_nil, Nat.add_zero]
  have hself : (h.set (extent l) fun m => { m with used := u }).ram (extent l) =
      ⟨extent l + b.size, prevOf 0 0 l, u⟩ := by rw [set_self, ht.ram_eq]
  have hne (y : ℕ) (hy : y ≠ extent l) :
      (h.set (extent l) fun m => { m with used := u }).ram y = h.ram y := set_ne hy
  refine splice (m := [b]) (k := [⟨u, b.size⟩]) ht rfl ?_ ?_ ⟨hself, trivial⟩ ?_ ?_ rfl
  · intro d hd
    rw [List.mem_singleton.1 hd]
    exact ht.fair b (List.mem_append_right l List.mem_cons_self)
  · exact fun y hy => hne y (by omega)
  · refine ⟨(h.ram (extent (l ++ [b]))).prev, hne _ (by omega), fun hlast => ?_⟩
    have ht' : h.Tiled ((l ++ [b]) ++ r) := by rwa [List.append_assoc]
    have hr := (ht'.end_cases.resolve_left fun h => hlast h.2).1
    obtain ⟨c, r, rfl⟩ := List.exists_cons_of_ne_nil hr
    rw [ht'.ram_eq, prevOf_append, Nat.zero_add]
    rfl
  · exact fun y hy => hne y (by omega)

/-- Two neighbours become one free block. -/
theorem join {b c : Block} (ht : h.Tiled (l ++ b :: c :: r)) (hb : b.used = false) :
    let e := extent l + (b.size + c.size)
    ((h.set (extent l) fun m => { m with next := e }).set e
      fun m => { m with prev := extent l }).Tiled (l ++ ⟨false, b.size + c.size⟩ :: r) := by
  intro e
  have he : extent (l ++ [b, c]) = extent l + (b.size + c.size) := by
    simp only [extent_append, extent_cons, extent_nil, Nat.add_zero]
  have hfairb := ht.fair b (List.mem_append_right l List.mem_cons_self)
  have hfairc := ht.fair c
    (List.mem_append_right l (List.mem_cons_of_mem b List.mem_cons_self))
  have hpos := ht.solid.2 b List.mem_cons_self
  have hne : extent l ≠ e := by omega
  refine splice (m := [b, c]) (k := [⟨false, b.size + c.size⟩]) ht ?_ ?_ ?_ ?_ ?_ ?_ ?_
  · simp only [extent_cons, extent_nil, Nat.add_zero]
  · intro d hd
    rw [List.mem_singleton.1 hd]
    exact ⟨hfairb.1.trans (Nat.le_add_right _ _), Nat.dvd_add hfairb.2 hfairc.2⟩
  · intro y hy
    rw [set_ne (by omega), set_ne (by omega)]
  · refine ⟨?_, trivial⟩
    rw [set_ne hne, set_self, ht.ram_eq, hb]
  · rw [he]
    refine ⟨extent l, ?_, fun _ => rfl⟩
    rw [set_self, set_ne hne.symm]
  · rw [he]
    intro y hy
    rw [set_ne (by omega), set_ne (by omega)]
  · rw [set_lfree, set_lfree, ht.lfree, firstFree_free hb]
    exact (firstFree_free (b := ⟨false, b.size + c.size⟩) rfl l r).symm

/-- **`plug_holes`, forward**: the free block takes in a free one behind it. -/
theorem plugForward (ht : h.Tiled (l ++ b :: r)) (hb : b.used = false) :
    ∃ s r', (h.plugForward (extent l)).Tiled (l ++ ⟨false, s⟩ :: r') ∧
      usedAt (extent l + s) r' = usedAt (extent l + b.size) r ∧
      (Merged r → Merged r' ∧ ∀ c ∈ r'.head?, c.used = true) ∧
      h.Spares (h.plugForward (extent l)) (usedAt 0 (l ++ b :: r)) := by
  have hram := ht.ram_eq
  have hbeq : b = ⟨false, b.size⟩ := by rw [← hb]
  have hle : h.lfree ≤ extent l := by
    rw [ht.lfree, firstFree_free hb]
    exact firstFree_le l
  have hpos := (ht.solid.2 b List.mem_cons_self)
  cases r with
  | nil =>
    have hend : extent l + b.size = memSizeAligned := by
      have := ht.full
      simpa only [extent_append, extent_cons, extent_nil, Nat.add_zero] using this
    have hsame : h.plugForward (extent l) = h := by
      unfold MemHeap.plugForward
      rw [hram]
      exact if_neg fun hc => hc.2.2 hend
    rw [hsame]
    exact ⟨b.size, [], hbeq ▸ ht, rfl, fun hm => ⟨hm, nofun⟩, Spares.refl h _⟩
  | cons c r =>
    have ht' : h.Tiled ((l ++ [b]) ++ c :: r) := by rwa [List.append_assoc]
    have hramc := ht'.ram_eq
    have heq : extent (l ++ [b]) = extent l + b.size := by
      simp only [extent_append, extent_cons, extent_nil, Nat.add_zero]
    rw [heq] at hramc
    have hlt : extent l + b.size < memSizeAligned := by
      rw [← heq]
      exact (ht'.end_cases.resolve_left fun h => List.cons_ne_nil c r h.1).2
    cases hc : c.used with
    | true =>
      have hsame : h.plugForward (extent l) = h := by
        unfold MemHeap.plugForward
        rw [hram]
        refine if_neg fun hcond => ?_
        have := hcond.2.1
        rw [hramc] at this
        exact Bool.false_ne_true (this.symm.trans hc)
      rw [hsame]
      refine ⟨b.size, c :: r, hbeq ▸ ht, rfl, fun hm => ⟨hm, ?_⟩, Spares.refl h _⟩
      intro d hd
      rw [List.head?_cons, Option.mem_some_iff] at hd
      rwa [← hd]
    | false =>
      have heq' : h.plugForward (extent l) =
          (h.set (extent l) fun m => { m with next := extent l + (b.size + c.size) }).set
            (extent l + (b.size + c.size)) fun m => { m with prev := extent l } := by
        have hne : extent l + b.size ≠ extent l := by omega
        unfold MemHeap.plugForward
        rw [hram]
        dsimp only
        rw [if_pos ⟨hne.symm, by rw [hramc, hc], Nat.ne_of_lt hlt⟩, if_neg (by omega), set_ne hne,
          hramc, Nat.add_assoc]
      have he : extent (l ++ [b, c]) = extent l + (b.size + c.size) := by
        simp only [extent_append, extent_cons, extent_nil, Nat.add_zero]
      rw [heq']
      refine ⟨_, r, ht.join hb, ?_, fun hm => ?_, ?_⟩
      · rw [usedAt_free hc, Nat.add_assoc]
      · exact ⟨(Merged.of_append (l := [c]) hm).2, (Merged.around (l := []) hm hc).2⟩
      · have hout := outside_extent 0 l (b :: c :: r)
        have hout' := outside_extent 0 (l ++ [b, c]) r
        rw [Nat.zero_add] at hout hout'
        rw [he, List.append_assoc] at hout'
        exact ((Spares.refl h _).set hout _).set hout' _

/-- **`plug_holes`, backward**: a free block takes in the free one behind it. -/
theorem plugBackward (ht : h.Tiled (l ++ b :: r)) (hb : b.used = false) :
    ∃ l' s, (h.plugBackward (extent l)).Tiled (l' ++ ⟨false, s⟩ :: r) ∧
      usedAt 0 l' = usedAt 0 l ∧ extent l' + s = extent l + b.size ∧
      (Merged l → Merged l' ∧ ∀ c ∈ l'.getLast?, c.used = true) ∧
      h.Spares (h.plugBackward (extent l)) (usedAt 0 (l ++ b :: r)) := by
  have hram := ht.ram_eq
  have hbeq : b = ⟨false, b.size⟩ := by rw [← hb]
  cases l using List.reverseRecOn with
  | nil =>
    have hsame : h.plugBackward (extent []) = h := by
      unfold MemHeap.plugBackward
      rw [hram]
      exact if_neg fun hc => hc.1 rfl
    rw [hsame]
    exact ⟨[], b.size, hbeq ▸ ht, rfl, rfl, fun hm => ⟨hm, nofun⟩, Spares.refl h _⟩
  | append_singleton l c =>
    have ht' : h.Tiled (l ++ c :: b :: r) := by rwa [List.append_assoc] at ht
    have hramc := ht'.ram_eq
    have hpos := ht'.solid.2 c List.mem_cons_self
    have hprev : prevOf 0 0 (l ++ [c]) = extent l := by
      rw [prevOf_append, Nat.zero_add]
      rfl
    have he : extent (l ++ [c]) = extent l + c.size := by
      simp only [extent_append, extent_cons, extent_nil, Nat.add_zero]
    rw [hprev, he] at hram
    rw [he]
    cases hc : c.used with
    | true =>
      have hsame : h.plugBackward (extent l + c.size) = h := by
        unfold MemHeap.plugBackward
        rw [hram]
        refine if_neg fun hcond => ?_
        have := hcond.2
        dsimp only at this
        rw [hramc] at this
        exact Bool.false_ne_true (this.symm.trans hc)
      rw [hsame]
      refine ⟨l ++ [c], b.size, hbeq ▸ ht, rfl, by rw [he], fun hm => ⟨hm, ?_⟩, Spares.refl h _⟩
      intro d hd
      rw [List.getLast?_concat, Option.mem_some_iff] at hd
      rwa [← hd]
    | false =>
      have hle : h.lfree ≤ extent l := by
        rw [ht'.lfree, firstFree_free hc]
        exact firstFree_le l
      have heq : h.plugBackward (extent l + c.size) =
          (h.set (extent l) fun m => { m with next := extent l + (c.size + b.size) }).set
            (extent l + (c.size + b.size)) fun m => { m with prev := extent l } := by
        have hne : extent l ≠ extent l + c.size := by omega
        unfold MemHeap.plugBackward
        rw [hram]
        dsimp only
        rw [if_pos ⟨hne, by rw [hramc, hc]⟩, if_neg (by omega), set_ne hne.symm, hram,
          Nat.add_assoc]
      rw [heq]
      refine ⟨l, c.size + b.size, ht'.join hc, ?_, by omega, fun hm => ?_, ?_⟩
      · rw [usedAt_append, usedAt_free hc]
        exact (List.append_nil _).symm
      · exact ⟨(Merged.of_append hm).1, (Merged.around hm hc).1⟩
      · have hout := outside_extent 0 l (c :: b :: r)
        have hout' := outside_extent 0 (l ++ [c, b]) r
        have he' : extent (l ++ [c, b]) = extent l + (c.size + b.size) := by
          simp only [extent_append, extent_cons, extent_nil, Nat.add_zero]
        rw [Nat.zero_add] at hout hout'
        rw [he', List.append_assoc] at hout'
        rw [List.append_assoc]
        exact ((Spares.refl h _).set hout _).set hout' _

end Tiled

/-- **`mem_free`** of a used block: it is free, merged with its neighbours. -/
theorem memFree_spec {h : MemHeap} {l r : List Block} {b : Block} (hh : h.Holds (l ++ b :: r))
    (hb : b.used = true) :
    ∃ h' bs, h.memFree (some (extent l + sizeofStructMem)) = some h' ∧ h'.Holds bs ∧
      usedAt 0 bs = usedAt 0 l ++ usedAt (extent l + b.size) r ∧ h.Spares h' (usedAt 0 bs) := by
  have ht := hh.toTiled
  obtain ⟨hle, -, hdvd, hend⟩ := ht.place
  have hstruct : sizeofStructMem = 8 := rfl
  have hmin : minSizeAligned = 12 := rfl
  have hram := ht.ram_eq
  have hmark := ht.mark false
  set h₁ : MemHeap := { h.set (extent l) fun m => { m with used := false } with
    lfree := firstFree (l ++ ⟨false, b.size⟩ :: r) } with hh₁
  -- `lfree` is the block or stays
  have hlfree : (if extent l < h.lfree then { h.set (extent l) fun m => { m with used := false } with
      lfree := extent l } else h.set (extent l) fun m => { m with used := false }) = h₁ := by
    rw [hh₁]
    by_cases hall : ∀ c ∈ l, c.used = true
    · have hold : h.lfree = extent l + (b.size + firstFree r) := by
        rw [ht.lfree, firstFree_append hall, firstFree, if_pos hb]
      have hnew : firstFree (l ++ ⟨false, b.size⟩ :: r) = extent l := firstFree_append hall _
      have hpos := ht.solid.2 b List.mem_cons_self
      rw [if_pos (by omega), hnew]
    · obtain ⟨hold, hlt⟩ := firstFree_of_free hall ht.solid.1 (b :: r)
      have hnew := (firstFree_of_free hall ht.solid.1 (⟨false, b.size⟩ :: r)).1
      rw [← ht.lfree] at hold
      rw [if_neg (by omega), hnew, ← hold]
      rfl
  obtain ⟨s, r', htf, hur, hmr, hsf⟩ := hmark.plugForward rfl
  obtain ⟨l', s', htb, hul, hext, hml, hsb⟩ := htf.plugBackward rfl
  obtain ⟨hmergedl, hmergedr⟩ := Merged.of_append hh.merged
  obtain ⟨hmr, hafter⟩ := hmr (Merged.of_append (l := [b]) hmergedr).2
  obtain ⟨hml, hbefore⟩ := hml hmergedl
  have hrow (s : ℕ) (r' : List Block) (he : usedAt (extent l + s) r' =
      usedAt (extent l + b.size) r) :
      usedAt 0 (l ++ ⟨false, s⟩ :: r') = usedAt 0 l ++ usedAt (extent l + b.size) r := by
    rw [usedAt_append, usedAt_free rfl, Nat.zero_add, he]
  have hused : usedAt 0 (l' ++ ⟨false, s'⟩ :: r') = usedAt 0 l ++ usedAt (extent l + b.size) r := by
    rw [usedAt_append, hul, usedAt_free rfl, Nat.zero_add, hext, hur]
  refine ⟨_, l' ++ ⟨false, s'⟩ :: r', ?_, ⟨htb, hml.free hmr hbefore hafter⟩, hused, ?_⟩
  · have hplug : plugHoles (extent l) h₁ =
        some (MemHeap.plugBackward (extent l) (h₁.plugForward (extent l))) := by
      rw [plugHoles, hmark.ram_eq]
      exact if_pos ⟨Nat.lt_of_lt_of_le (by omega) hend, rfl, hend⟩
    have hlt : extent l + sizeofStructMem < memSizeAligned := Nat.lt_of_lt_of_le (by omega) hend
    rw [memFree]
    dsimp only
    rw [if_pos ⟨by omega, hlt, by omega⟩, Nat.add_sub_cancel, hram, if_pos hb]
    exact (congrArg (plugHoles (extent l)) hlfree).trans hplug
  · rw [hused]
    have hout := outside_extent 0 l (⟨false, b.size⟩ :: r)
    rw [hrow b.size r rfl, Nat.zero_add] at hout
    rw [hrow b.size r rfl] at hsf
    rw [hrow s r' hur] at hsb
    have hset : h.Spares h₁ (usedAt 0 l ++ usedAt (extent l + b.size) r) :=
      (Spares.refl h _).set hout fun m => { m with used := false }
    exact (hset.trans hsf).trans hsb

/-! ## New blocks -/

/-- The assignments that begin a new block at `ptr2`, behind the one at `ptr`. -/
def carve (ptr ptr2 next : ℕ) (f : MemStruct → MemStruct) (h : MemHeap) : MemHeap :=
  let h := h.set ptr2 fun _ => { used := false, next := next, prev := ptr }
  let h := h.set ptr f
  if next ≠ memSizeAligned then h.set next fun m => { m with prev := ptr2 } else h

section
variable {h : MemHeap} {ptr ptr2 next : ℕ} {f : MemStruct → MemStruct}

theorem carve_low (hlt : ptr < ptr2) (hlt' : ptr2 < next) {y : ℕ} (hy : y ≤ ptr2) :
    (carve ptr ptr2 next f h).ram y = if y = ptr2 then ⟨next, ptr, false⟩
      else if y = ptr then f (h.ram ptr) else h.ram y := by
  have hcut : (carve ptr ptr2 next f h).ram y =
      ((h.set ptr2 fun _ => { used := false, next := next, prev := ptr }).set ptr f).ram y := by
    unfold carve
    dsimp only
    split_ifs
    · exact set_ne (by omega)
    · rfl
  rw [hcut]
  split_ifs with h2 h1
  · rw [h2, set_ne (by omega), set_self]
  · rw [h1, set_self, set_ne (by omega)]
  · rw [set_ne h1, set_ne h2]

theorem carve_high (hlt : ptr < ptr2) {y : ℕ} (hy : ptr2 < y) :
    (carve ptr ptr2 next f h).ram y =
      if y = next ∧ next ≠ memSizeAligned then { h.ram next with prev := ptr2 } else h.ram y := by
  have hsame {z : ℕ} (hz : ptr2 < z) :
      ((h.set ptr2 fun _ => { used := false, next := next, prev := ptr }).set ptr f).ram z =
        h.ram z := by
    rw [set_ne (by omega), set_ne (by omega)]
  unfold carve
  dsimp only
  by_cases hend : next ≠ memSizeAligned
  · rw [if_pos hend]
    by_cases hyn : y = next
    · rw [if_pos ⟨hyn, hend⟩, hyn, set_self, hsame (hyn ▸ hy)]
    · rw [if_neg fun hc => hyn hc.1, set_ne hyn, hsame hy]
  · rw [if_neg hend, if_neg fun hc => hend hc.2, hsame hy]

theorem carve_spares {us : List (ℕ × ℕ)} (hptr : ∀ u ∈ us, Outside ptr u)
    (hptr2 : ∀ u ∈ us, Outside ptr2 u) (hnext : ∀ u ∈ us, Outside next u) :
    h.Spares (carve ptr ptr2 next f h) us := by
  have hset := ((Spares.refl h us).set hptr2
    fun _ => { used := false, next := next, prev := ptr }).set hptr f
  unfold carve
  dsimp only
  split_ifs
  · exact hset.set hnext _
  · exact hset

end

/-- **A new block** begins within used memory or free memory; what is before it is used. -/
theorem Tiled.carve {h : MemHeap} {l m r : List Block} (ht : h.Tiled (l ++ (m ++ r))) {w : ℕ}
    (hw : Fair ⟨true, w⟩) (hroom : w + (sizeofStructMem + minSizeAligned) ≤ extent m)
    {f : MemStruct → MemStruct}
    (hf : f (h.ram (extent l)) = ⟨extent l + w, prevOf 0 0 l, true⟩) :
    let bs := l ++ ([⟨true, w⟩, ⟨false, extent m - w⟩] ++ r)
    let h' := MemHeap.carve (extent l) (extent l + w) (extent (l ++ m)) f h
    Tiled { h' with lfree := firstFree bs } bs ∧ h.Spares h' (usedAt 0 bs) := by
  intro bs h'
  obtain ⟨hwle, hwdvd⟩ := hw
  have hmin : sizeofStructMem + minSizeAligned = 20 := rfl
  have hwle' : 20 ≤ w := hwle
  have hmid : 4 ∣ extent m := dvd_extent fun b hb =>
    ht.fair b (List.mem_append_right l (List.mem_append_left r hb))
  have hwdvd' : 4 ∣ w := hwdvd
  have he : extent (l ++ m) = extent l + extent m := extent_append l m
  have hlt : extent l < extent l + w := by omega
  have hlt' : extent l + w < extent (l ++ m) := by omega
  have hlow {y : ℕ} := @carve_low h _ _ _ f hlt hlt' y
  have hhigh {y : ℕ} := @carve_high h _ _ (extent (l ++ m)) f hlt y
  constructor
  · refine ht.splice ?_ ?_ ?_ ?_ ?_ ?_ rfl
    · simp only [extent_cons, extent_nil]
      omega
    · refine List.forall_mem_cons.2 ⟨⟨hwle, hwdvd⟩, fun b hb => ?_⟩
      rw [List.mem_singleton.1 hb]
      exact ⟨Nat.le_sub_of_add_le (by omega), Nat.dvd_sub hmid hwdvd'⟩
    · intro y hy
      exact (hlow (by omega)).trans (by rw [if_neg (by omega), if_neg (by omega)])
    · refine ⟨(hlow hlt.le).trans ?_, (hlow le_rfl).trans ?_, trivial⟩
      · rw [if_neg (by omega), if_pos rfl, hf]
      · rw [if_pos rfl, he]
        congr 1
        dsimp only
        omega
    · by_cases hend : extent (l ++ m) ≠ memSizeAligned
      · exact ⟨extent l + w, (hhigh hlt').trans (if_pos ⟨rfl, hend⟩), fun _ => rfl⟩
      · exact ⟨_, (hhigh hlt').trans (if_neg fun hc => hend hc.2), fun hc => absurd hc hend⟩
    · intro y hy
      exact (hhigh (hlt'.trans hy)).trans (if_neg fun hc => (Nat.ne_of_gt hy) hc.1)
  · have h0 := outside_extent 0 l ([⟨true, w⟩, ⟨false, extent m - w⟩] ++ r)
    have h1 := outside_extent 0 (l ++ [⟨true, w⟩]) ([⟨false, extent m - w⟩] ++ r)
    have h2 := outside_extent 0 (l ++ [⟨true, w⟩, ⟨false, extent m - w⟩]) r
    rw [List.append_assoc, Nat.zero_add, extent_append] at h1 h2
    rw [Nat.zero_add] at h0
    have he2 : extent l + extent [⟨true, w⟩, ⟨false, extent m - w⟩] = extent (l ++ m) := by
      simp only [extent_cons, extent_nil]
      omega
    rw [he2] at h2
    exact carve_spares h0 h1 h2

/-! ## `mem_malloc` -/

/-- The block is free and big enough. -/
def Fits (size : ℕ) (b : Block) : Prop := b.used = false ∧ sizeofStructMem + size ≤ b.size

/-- What becomes of a block that is taken. -/
def taken (size : ℕ) (b : Block) : List Block :=
  if size + sizeofStructMem + minSizeAligned + sizeofStructMem ≤ b.size then
    [⟨true, sizeofStructMem + size⟩, ⟨false, b.size - (sizeofStructMem + size)⟩]
  else [⟨true, b.size⟩]

theorem length_mul_le {bs : List Block} (h : ∀ b ∈ bs, Fair b) :
    bs.length * (sizeofStructMem + minSizeAligned) ≤ extent bs := by
  induction bs with
  | nil => exact Nat.le_refl 0
  | cons b bs ih =>
    have hb := (h b List.mem_cons_self).1
    have := ih fun c hc => h c (List.mem_cons_of_mem b hc)
    rw [List.length_cons, extent_cons, Nat.succ_mul]
    omega

/-- The scan finds the first block that fits. -/
theorem scanLoop_spec {h : MemHeap} {size n : ℕ} {l r : List Block} (ht : h.Tiled (l ++ r))
    (hsize : 0 < size) (hn : r.length < n) :
    (∃ m b r', r = m ++ b :: r' ∧ Fits size b ∧ (∀ c ∈ m, ¬ Fits size c) ∧
        scanLoop size h n (extent l) = some (some (extent (l ++ m)))) ∨
      (∀ c ∈ r, ¬ Fits size c) ∧ scanLoop size h n (extent l) = some none := by
  induction n generalizing l r with
  | zero => omega
  | succ n ih =>
    have hstruct : sizeofStructMem = 8 := rfl
    rw [scanLoop]
    by_cases hptr : extent l < memSizeAligned - size
    · rw [if_pos hptr]
      cases r with
      | nil =>
        have := ht.full
        rw [List.append_nil] at this
        omega
      | cons b r =>
        have hfits : (b.used = false ∧ extent l + b.size - (extent l + sizeofStructMem) ≥ size) ↔
            Fits size b := and_congr_right fun _ => by omega
        have hram := ht.ram_eq
        by_cases hb : Fits size b
        · refine .inl ⟨[], b, r, rfl, hb, fun _ hc => absurd hc List.not_mem_nil, ?_⟩
          rw [hram, List.append_nil]
          exact if_pos (hfits.2 hb)
        · have heq : extent (l ++ [b]) = extent l + b.size := by
            simp only [extent_append, extent_cons, extent_nil, Nat.add_zero]
          have ht' : h.Tiled ((l ++ [b]) ++ r) := by rwa [List.append_assoc]
          have hscan : (if (h.ram (extent l)).used = false ∧
                (h.ram (extent l)).next - (extent l + sizeofStructMem) ≥ size then
              some (some (extent l)) else scanLoop size h n (h.ram (extent l)).next) =
              scanLoop size h n (extent (l ++ [b])) := by
            rw [hram, heq]
            exact if_neg fun hc => hb (hfits.1 hc)
          rw [hscan]
          rcases ih ht' (by rw [List.length_cons] at hn; omega) with
            ⟨m, c, r', rfl, hc, hm, he⟩ | ⟨hnone, he⟩
          · refine .inl ⟨b :: m, c, r', rfl, hc, ?_, ?_⟩
            · exact List.forall_mem_cons.2 ⟨hb, hm⟩
            · rw [he, List.append_assoc]
              rfl
          · exact .inr ⟨List.forall_mem_cons.2 ⟨hb, hnone⟩, he⟩
    · rw [if_neg hptr]
      -- no room is left for a structure and the block
      refine .inr ⟨fun c hc hfit => ?_, rfl⟩
      obtain ⟨m, r', rfl⟩ := List.append_of_mem hc
      have hfull := ht.full
      have hfit' := hfit.2
      simp only [extent_append, extent_cons] at hfull
      omega

/-- The search for the next free block ends at it. -/
theorem lfreeLoop_spec {h : MemHeap} {n : ℕ} {l r : List Block} (ht : h.Tiled (l ++ r))
    (hn : r.length < n) : lfreeLoop h n (extent l) = some (extent l + firstFree r) := by
  induction n generalizing l r with
  | zero => omega
  | succ n ih =>
    rw [lfreeLoop]
    cases r with
    | nil =>
      have hfull := ht.full
      rw [List.append_nil] at hfull
      exact if_neg fun hc => hc.2 hfull
    | cons b r =>
      have hram := ht.ram_eq
      have hlt := (ht.end_cases.resolve_left fun h => List.cons_ne_nil b r h.1).2
      have heq : extent (l ++ [b]) = extent l + b.size := by
        simp only [extent_append, extent_cons, extent_nil, Nat.add_zero]
      have ht' : h.Tiled ((l ++ [b]) ++ r) := by rwa [List.append_assoc]
      rw [hram]
      dsimp only
      cases hb : b.used with
      | true =>
        rw [if_pos ⟨rfl, Nat.ne_of_lt hlt⟩, ← heq, ih ht' (by rw [List.length_cons] at hn; omega),
          heq, firstFree, if_pos hb, Nat.add_assoc]
      | false =>
        rw [if_neg fun hc => Bool.false_ne_true hc.1, firstFree, hb]
        rfl

theorem lfreeLoop_set (h : MemHeap) (x n ptr : ℕ) :
    lfreeLoop { h with lfree := x } n ptr = lfreeLoop h n ptr := by
  induction n generalizing ptr with
  | zero => rfl
  | succ n ih => rw [lfreeLoop, lfreeLoop, ih]

/-- `lfree` is a free block or the end. -/
theorem Tiled.lfree_free {h : MemHeap} {bs : List Block} (ht : h.Tiled bs) :
    h.lfree = memSizeAligned ∨ (h.ram h.lfree).used = false := by
  obtain ⟨l, r, rfl, he, -, hr⟩ := exists_firstFree bs
  rw [ht.lfree, ← he]
  cases r with
  | nil =>
    have hfull := ht.full
    rw [List.append_nil] at hfull
    exact .inl hfull
  | cons b r =>
    rw [ht.ram_eq]
    exact .inr (hr b rfl)

theorem takeBlock_spec {h : MemHeap} {size : ℕ} {l r : List Block} {b : Block}
    (ht : h.Tiled (l ++ b :: r)) (hb : Fits size b) (hsize : minSizeAligned ≤ size)
    (hdvd : 4 ∣ size) :
    let bs := l ++ (taken size b ++ r)
    Tiled { h.takeBlock (extent l) size with lfree := firstFree bs } bs ∧
      h.Spares (h.takeBlock (extent l) size) (usedAt 0 bs) := by
  intro bs
  have hram := ht.ram_eq
  have hstruct : sizeofStructMem = 8 := rfl
  have hle := hb.2
  have hone : extent [b] = b.size := Nat.add_zero _
  by_cases hsplit : size + sizeofStructMem + minSizeAligned + sizeofStructMem ≤ b.size
  · have htaken : bs = l ++ ([⟨true, sizeofStructMem + size⟩,
        ⟨false, extent [b] - (sizeofStructMem + size)⟩] ++ r) := by
      rw [hone]
      exact congrArg (fun t => l ++ (t ++ r)) (if_pos hsplit)
    have htake : h.takeBlock (extent l) size =
        carve (extent l) (extent l + (sizeofStructMem + size)) (extent (l ++ [b]))
          (fun m => { m with next := extent l + (sizeofStructMem + size), used := true }) h := by
      unfold takeBlock
      rw [hram, extent_append, hone, ← Nat.add_assoc]
      refine if_pos ?_
      dsimp only
      omega
    rw [htaken, htake]
    refine ht.carve (m := [b]) ⟨?_, ?_⟩ ?_ ?_
    · exact Nat.add_le_add_left hsize _
    · exact Nat.dvd_add ⟨2, rfl⟩ hdvd
    · omega
    · rw [hram]
  · have htaken : bs = l ++ ⟨true, b.size⟩ :: r :=
      congrArg (fun t => l ++ (t ++ r)) (if_neg hsplit)
    have htake : h.takeBlock (extent l) size =
        h.set (extent l) fun m => { m with used := true } := by
      unfold takeBlock
      rw [hram]
      refine if_neg ?_
      dsimp only
      omega
    have hout := outside_extent 0 l (⟨true, b.size⟩ :: r)
    rw [Nat.zero_add] at hout
    rw [htaken, htake]
    exact ⟨ht.mark true, (Spares.refl h _).set hout _⟩

theorem alignedSize_le (size : ℕ) : minSizeAligned ≤ alignedSize size := le_max_right ..

theorem alignedSize_dvd (size : ℕ) : 4 ∣ alignedSize size := by
  have hmin : minSizeAligned = 12 := rfl
  unfold alignedSize lwipMemAlignSize
  omega

theorem taken_merged {size : ℕ} {l r : List Block} {b : Block} (h : Merged (l ++ b :: r))
    (hb : b.used = false) : Merged (l ++ (taken size b ++ r)) := by
  obtain ⟨hl, hr⟩ := Merged.of_append h
  have hr := (Merged.of_append (l := [b]) hr).2
  have hafter := (Merged.around h hb).2
  unfold taken
  split_ifs
  · exact hl.used (Merged.free (l := []) List.isChain_nil hr nofun hafter) rfl
  · exact hl.used hr rfl

/-- **`mem_malloc`** takes the first block that fits, or there is none. -/
theorem memMalloc_spec {h : MemHeap} {bs : List Block} (hh : h.Holds bs) {size : ℕ}
    (hsize : size ≠ 0) :
    (∃ l b r h', bs = l ++ b :: r ∧ Fits (alignedSize size) b ∧
        h.memMalloc size = some (some (extent l + sizeofStructMem), h') ∧
        h'.Holds (l ++ (taken (alignedSize size) b ++ r)) ∧
        h.Spares h' (usedAt 0 (l ++ (taken (alignedSize size) b ++ r)))) ∨
      (∀ b ∈ bs, ¬ Fits (alignedSize size) b) ∧ h.memMalloc size = some (none, h) := by
  have ht := hh.toTiled
  set s := alignedSize size with hs
  have hmin : 12 ≤ s := alignedSize_le size
  have hfuel (l r : List Block) {h : MemHeap} (ht : h.Tiled (l ++ r)) :
      r.length < memSizeAligned := by
    have hlen := length_mul_le ht.fair
    have hfull := ht.full
    rw [hfull, List.length_append] at hlen
    have : (l.length + r.length) * 20 ≤ 13 * 1024 := hlen
    change r.length < 13 * 1024
    omega
  rw [memMalloc, if_neg hsize]
  dsimp only
  by_cases hbig : s > memSizeAligned
  · rw [if_pos hbig]
    refine .inr ⟨fun b hb hfit => ?_, rfl⟩
    obtain ⟨l, r, rfl⟩ := List.append_of_mem hb
    have hend := ht.place.2.2.2
    have := hfit.2
    omega
  rw [if_neg hbig]
  obtain ⟨l₀, r₀, rfl, hext, hused, -⟩ := exists_firstFree bs
  rw [ht.lfree, ← hext]
  rcases scanLoop_spec ht (show 0 < s by omega) (hfuel l₀ r₀ ht) with
    ⟨m, b, r, rfl, hfit, -, hscan⟩ | ⟨hnone, hscan⟩
  swap
  · refine .inr ⟨fun b hb hfit => ?_, by rw [hscan]; rfl⟩
    rcases List.mem_append.1 hb with hb | hb
    · exact Bool.false_ne_true (hfit.1.symm.trans (hused b hb))
    · exact hnone b hb hfit
  · obtain ⟨l, hl⟩ : ∃ l, l = l₀ ++ m := ⟨_, rfl⟩
    have happ : l₀ ++ (m ++ b :: r) = l ++ b :: r := by rw [hl, List.append_assoc]
    rw [happ] at ht hh hext ⊢
    rw [← hl] at hscan
    obtain ⟨htake, hspare⟩ := takeBlock_spec ht hfit hmin (alignedSize_dvd size)
    obtain ⟨-, -, hdvd, hend⟩ := ht.place
    have hstruct : sizeofStructMem = 8 := rfl
    have hle := hfit.2
    set bs := l ++ (taken s b ++ r) with hbs
    -- `lfree` goes on from a block that was the first free one
    have hlfree : (if extent l = extent l₀ then
        (h.takeBlock (extent l) s).lfreeLoop memSizeAligned (extent l) else some (extent l₀)) =
          some (firstFree bs) := by
      by_cases hall : ∀ c ∈ l, c.used = true
      · have hfirst : extent l₀ = extent l := by
          rw [hext, firstFree_append hall, firstFree, hfit.1]
          rfl
        rw [if_pos hfirst.symm, ← lfreeLoop_set _ (firstFree bs),
          lfreeLoop_spec htake (hfuel _ _ htake), firstFree_append hall]
      · have hold := firstFree_of_free hall ht.solid.1 (b :: r)
        have hnew := (firstFree_of_free hall ht.solid.1 (taken s b ++ r)).1
        rw [if_neg (by omega), hext, hold.1, ← hnew]
    refine .inl ⟨l, b, r, _, rfl, hfit, ?_, ⟨htake, taken_merged hh.merged hfit.1⟩, hspare⟩
    have hguard : (extent l = extent l₀ → firstFree bs = memSizeAligned ∨
        ((h.takeBlock (extent l) s).ram (firstFree bs)).used = false) ∧
          extent l + sizeofStructMem + s ≤ memSizeAligned ∧ (extent l + sizeofStructMem) % 4 = 0 :=
      ⟨fun _ => htake.lfree_free, by omega, by omega⟩
    rw [← hs, hscan]
    simp only [Option.bind_eq_bind, Option.bind_some, hlfree]
    exact if_pos hguard

/-! ## `mem_realloc` -/

theorem carve_lfree (h : MemHeap) (x ptr ptr2 next : ℕ) (f : MemStruct → MemStruct) :
    carve ptr ptr2 next f { h with lfree := x } = { carve ptr ptr2 next f h with lfree := x } := by
  unfold carve
  split_ifs <;> rfl

theorem lfree_ite {P Q : Prop} [Decidable P] [Decidable Q] (h : MemHeap) (x : ℕ) (hPQ : P ↔ Q) :
    (if P then { h with lfree := x } else h) =
      { h with lfree := if Q then x else h.lfree } := by
  by_cases hP : P
  · rw [if_pos hP, if_pos (hPQ.1 hP)]
  · rw [if_neg hP, if_neg fun hQ => hP (hPQ.2 hQ)]

section
variable {h : MemHeap} {newsize : ℕ} {l r : List Block} {b : Block}
  (hh : h.Holds (l ++ b :: r)) (hb : b.used = true)
include hh

/-- The first free block when there is a new one behind the block. -/
theorem firstFree_shorter (w v : ℕ) (r' : List Block) :
    firstFree (l ++ ([⟨true, w⟩, ⟨false, v⟩] ++ r')) =
      if ∀ c ∈ l, c.used = true then extent l + w else h.lfree := by
  have ht := hh.toTiled
  split_ifs with hall
  · rw [firstFree_append hall]
    rfl
  · rw [(firstFree_of_free hall ht.solid.1 _).1, ht.lfree, (firstFree_of_free hall ht.solid.1 _).1]

include hb
variable (newsize)

/-- The block behind one that is made shorter is free, and grows downwards. -/
theorem shrinkBlock_low {c : Block} {r' : List Block} (hr : r = c :: r') (hc : c.used = false) :
    h.shrinkBlock (extent l) (b.size - sizeofStructMem) newsize =
      let w := sizeofStructMem + newsize
      { carve (extent l) (extent l + w) (extent (l ++ [b, c]))
          (fun m => { m with next := extent l + w }) h with
        lfree := firstFree (l ++ ([⟨true, w⟩, ⟨false, extent [b, c] - w⟩] ++ r')) } := by
  subst hr
  have ht := hh.toTiled
  have ht' : h.Tiled ((l ++ [b]) ++ c :: r') := by
    rw [List.append_assoc]
    exact ht
  have heb : extent (l ++ [b]) = extent l + b.size := by rw [extent_append]; rfl
  have hebc : extent (l ++ [b, c]) = extent l + b.size + c.size := by
    simp only [extent_append, extent_cons, extent_nil, Nat.add_zero, Nat.add_assoc]
  have hramc := ht'.ram_eq
  rw [heb, hc] at hramc
  have hiff : h.lfree = extent l + b.size ↔ ∀ c ∈ l, c.used = true := by
    constructor
    · intro heq
      by_contra hall
      have hold := firstFree_of_free hall ht.solid.1 (b :: c :: r')
      rw [ht.lfree, hold.1] at heq
      omega
    · intro hall
      rw [ht.lfree, firstFree_append hall, firstFree, if_pos hb, firstFree, hc]
      rfl
  have hsum : extent l + sizeofStructMem + newsize = extent l + (sizeofStructMem + newsize) :=
    Nat.add_assoc ..
  unfold shrinkBlock
  rw [ht.ram_eq]
  dsimp only
  rw [hramc, if_pos rfl, firstFree_shorter hh, ← carve_lfree, hsum, hebc, lfree_ite h _ hiff]
  rfl

/-- The block behind one that is made shorter is used. -/
theorem shrinkBlock_high (hr : ∀ c ∈ r.head?, c.used = true) :
    h.shrinkBlock (extent l) (b.size - sizeofStructMem) newsize =
      if newsize + sizeofStructMem + minSizeAligned ≤ b.size - sizeofStructMem then
        let w := sizeofStructMem + newsize
        { carve (extent l) (extent l + w) (extent (l ++ [b]))
            (fun m => { m with next := extent l + w }) h with
          lfree := firstFree (l ++ ([⟨true, w⟩, ⟨false, extent [b] - w⟩] ++ r)) }
      else h := by
  have ht := hh.toTiled
  have ht' : h.Tiled ((l ++ [b]) ++ r) := by
    rw [List.append_assoc]
    exact ht
  have heb : extent (l ++ [b]) = extent l + b.size := by rw [extent_append]; rfl
  have hused : (h.ram (extent l + b.size)).used = true := by
    rw [← heb]
    rcases ht'.end_cases with ⟨-, hlast⟩ | ⟨hne, -⟩
    · rw [hlast]
      exact ht.stop
    · obtain ⟨c, r', rfl⟩ := List.exists_cons_of_ne_nil hne
      rw [ht'.ram_eq]
      exact hr c rfl
  have hsum : extent l + sizeofStructMem + newsize = extent l + (sizeofStructMem + newsize) :=
    Nat.add_assoc ..
  unfold shrinkBlock
  rw [ht.ram_eq]
  dsimp only
  rw [hused, if_neg (by decide), hsum]
  by_cases hroom : newsize + sizeofStructMem + minSizeAligned ≤ b.size - sizeofStructMem
  swap
  · rw [if_neg hroom, if_neg hroom]
  have hiff : extent l + (sizeofStructMem + newsize) < h.lfree ↔ ∀ c ∈ l, c.used = true := by
    constructor
    · intro hlt
      by_contra hall
      have hold := firstFree_of_free hall ht.solid.1 (b :: r)
      rw [ht.lfree, hold.1] at hlt
      omega
    · intro hall
      have hmin : minSizeAligned = 12 := rfl
      rw [ht.lfree, firstFree_append hall, firstFree, if_pos hb]
      omega
  rw [if_pos hroom, if_pos hroom, firstFree_shorter hh, ← carve_lfree, heb, lfree_ite h _ hiff]
  rfl

variable {newsize}

/-- **A block made shorter**: its end is free, merged with a free block behind it, or too short for
    a block. -/
theorem shrinkBlock_spec (hsize : minSizeAligned ≤ newsize) (hdvd : 4 ∣ newsize)
    (hle : sizeofStructMem + newsize < b.size) :
    let h' := h.shrinkBlock (extent l) (b.size - sizeofStructMem) newsize
    ∃ s r', h'.Holds (l ++ ⟨true, s⟩ :: r') ∧ sizeofStructMem + newsize ≤ s ∧ s ≤ b.size ∧
      usedAt (extent l + s) r' = usedAt (extent l + b.size) r ∧
      h.Spares h' (usedAt 0 (l ++ ⟨true, s⟩ :: r')) := by
  intro h'
  have ht := hh.toTiled
  obtain ⟨hmergedl, hmergedr⟩ := Merged.of_append hh.merged
  have hmergedr := (Merged.of_append (l := [b]) hmergedr).2
  have hmin : sizeofStructMem + minSizeAligned = 20 := rfl
  have hfair : Fair ⟨true, sizeofStructMem + newsize⟩ :=
    ⟨Nat.add_le_add_left hsize _, Nat.dvd_add ⟨2, rfl⟩ hdvd⟩
  let f (m : MemStruct) : MemStruct := { m with next := extent l + (sizeofStructMem + newsize) }
  have hf : f (h.ram (extent l)) =
      ⟨extent l + (sizeofStructMem + newsize), prevOf 0 0 l, true⟩ := by
    rw [ht.ram_eq, ← hb]
  -- the new block is between used ones
  have hmerge (v : ℕ) {r' : List Block} (hr : Merged r') (hhead : ∀ c ∈ r'.head?, c.used = true) :
      Merged (l ++ ([⟨true, sizeofStructMem + newsize⟩, ⟨false, v⟩] ++ r')) :=
    hmergedl.used (Merged.free (l := []) List.isChain_nil hr nofun hhead) rfl
  by_cases hr : ∀ c ∈ r.head?, c.used = true
  · have heq := shrinkBlock_high newsize hh hb hr
    split_ifs at heq with hroom
    · obtain ⟨htc, hsp⟩ := ht.carve (m := [b]) (f := f) hfair (by
        rw [extent_cons, extent_nil]
        omega) hf
      rw [show h' = _ from heq]
      refine ⟨_, _, ⟨htc, hmerge _ hmergedr hr⟩, le_rfl, Nat.le_of_lt hle, ?_, hsp⟩
      change usedAt _ r = _
      rw [extent_cons, extent_nil]
      congr 1
      dsimp only
      omega
    · rw [show h' = h from heq]
      have hbeq : b = ⟨true, b.size⟩ := by rw [← hb]
      exact ⟨b.size, r, hbeq ▸ hh, Nat.le_of_lt hle, le_rfl, rfl, Spares.refl h _⟩
  · obtain ⟨c, r', rfl, hc⟩ : ∃ c r', r = c :: r' ∧ c.used = false := by
      cases r with
      | nil => exact absurd nofun hr
      | cons c r' =>
        refine ⟨c, r', rfl, ?_⟩
        by_contra hused
        rw [Bool.not_eq_false] at hused
        refine hr fun d hd => ?_
        rw [List.head?_cons, Option.mem_some_iff] at hd
        rwa [← hd]
    have heq := shrinkBlock_low newsize hh hb rfl hc
    have hcfair := ht.fair c (List.mem_append_right l (List.mem_cons_of_mem b List.mem_cons_self))
    have hcsize : 20 ≤ c.size := hcfair.1
    obtain ⟨htc, hsp⟩ := Tiled.carve (m := [b, c]) (r := r') (f := f) ht hfair (by
      rw [extent_cons, extent_cons, extent_nil]
      omega) hf
    rw [show h' = _ from heq]
    refine ⟨_, _, ⟨htc, ?_⟩, le_rfl, Nat.le_of_lt hle, ?_, hsp⟩
    · exact hmerge _ (Merged.of_append (l := [c]) hmergedr).2
        (Merged.around (l := []) hmergedr hc).2
    · change usedAt _ r' = _
      rw [usedAt_free hc, extent_cons, extent_cons, extent_nil]
      congr 1
      dsimp only
      omega

/-- **`mem_realloc`** of a used block to what it can hold. -/
theorem memRealloc_spec (hle : sizeofStructMem + alignedSize newsize ≤ b.size) :
    ∃ h' s r', h.memRealloc (extent l + sizeofStructMem) newsize =
        some (some (extent l + sizeofStructMem), h') ∧ h'.Holds (l ++ ⟨true, s⟩ :: r') ∧
      sizeofStructMem + alignedSize newsize ≤ s ∧
      usedAt (extent l + s) r' = usedAt (extent l + b.size) r ∧
      h.Spares h' (usedAt 0 (l ++ ⟨true, s⟩ :: r')) := by
  have ht := hh.toTiled
  obtain ⟨hmin, -, -, hend⟩ := ht.place
  have hstruct : sizeofStructMem = 8 := rfl
  have hmin' : minSizeAligned = 12 := rfl
  have hram := ht.ram_eq
  have hsize : extent l + b.size - extent l - sizeofStructMem = b.size - sizeofStructMem := by
    omega
  rw [memRealloc]
  dsimp only
  rw [if_neg (by omega), if_pos ⟨Nat.lt_of_lt_of_le (by omega) hend, by omega⟩,
    Nat.add_sub_cancel, hram]
  dsimp only
  rw [hsize, if_neg (by omega)]
  by_cases heq : alignedSize newsize = b.size - sizeofStructMem
  · rw [if_pos heq]
    have hbeq : b = ⟨true, b.size⟩ := by rw [← hb]
    exact ⟨h, b.size, r, rfl, hbeq ▸ hh, hle, rfl, Spares.refl h _⟩
  · rw [if_neg heq]
    obtain ⟨s, r', hh', hs, -, hu, hsp⟩ := shrinkBlock_spec hh hb (alignedSize_le newsize)
      (alignedSize_dvd newsize) (by omega)
    exact ⟨_, s, r', rfl, hh', hs, hu, hsp⟩

end

end GndCtrl.MemHeap
