/-
  Memory as a row of blocks, free or used.

  * `usedAt a bs` — the addresses and sizes of the used ones of the blocks `bs`,
    laid out from `a`;
  * `firstFree bs` — how far the first free block is;
  * `Merged bs` — no two free blocks are neighbours.

  A place that meets no used block is in a single free block if the row is merged
  (`exists_free_of_gap`), and a merged row without a used block is one block
  (`Merged.eq_single`).
-/
import Mathlib.Algebra.GroupWithZero.Nat
import Mathlib.Data.List.Chain

namespace GndCtrl

/-- A block of memory. -/
structure Block where
  used : Bool
  size : ℕ
deriving DecidableEq

/-- The room of a row of blocks. -/
def extent (bs : List Block) : ℕ := (bs.map Block.size).sum

@[simp] theorem extent_nil : extent [] = 0 := rfl

@[simp] theorem extent_cons (b : Block) (bs : List Block) :
    extent (b :: bs) = b.size + extent bs := rfl

@[simp] theorem extent_append (l r : List Block) : extent (l ++ r) = extent l + extent r := by
  rw [extent, List.map_append, List.sum_append]
  rfl

/-- No block is empty. -/
def Solid (bs : List Block) : Prop := ∀ b ∈ bs, 0 < b.size

/-! ## Addresses -/

/-- The addresses and sizes of the used blocks. -/
def usedAt : ℕ → List Block → List (ℕ × ℕ)
  | _, [] => []
  | a, b :: bs => if b.used then (a, b.size) :: usedAt (a + b.size) bs else usedAt (a + b.size) bs

theorem usedAt_append (a : ℕ) (l r : List Block) :
    usedAt a (l ++ r) = usedAt a l ++ usedAt (a + extent l) r := by
  induction l generalizing a with
  | nil => rfl
  | cons b l ih =>
    rw [List.cons_append, usedAt, usedAt, ih, extent_cons, Nat.add_assoc]
    split_ifs <;> rfl

theorem usedAt_used {b : Block} (h : b.used = true) (a : ℕ) (bs : List Block) :
    usedAt a (b :: bs) = (a, b.size) :: usedAt (a + b.size) bs := if_pos h

theorem usedAt_free {b : Block} (h : b.used = false) (a : ℕ) (bs : List Block) :
    usedAt a (b :: bs) = usedAt (a + b.size) bs := by
  rw [usedAt, h]
  rfl

/-- A used block and what is on its sides. -/
theorem mem_usedAt {a : ℕ} {bs : List Block} {u : ℕ × ℕ} :
    u ∈ usedAt a bs ↔ ∃ l r, bs = l ++ ⟨true, u.2⟩ :: r ∧ u.1 = a + extent l := by
  induction bs generalizing a with
  | nil =>
    refine ⟨fun h => absurd h List.not_mem_nil, ?_⟩
    rintro ⟨l, r, h, -⟩
    exact absurd h.symm (List.append_ne_nil_of_right_ne_nil _ (List.cons_ne_nil _ _))
  | cons b bs ih =>
    have htail : u ∈ usedAt (a + b.size) bs ↔
        ∃ l r, b :: bs = (b :: l) ++ ⟨true, u.2⟩ :: r ∧ u.1 = a + extent (b :: l) := by
      simp only [ih, List.cons_append, List.cons.injEq, true_and, extent_cons, Nat.add_assoc]
    constructor
    · intro h
      cases hb : b.used with
      | true =>
        rw [usedAt_used hb, List.mem_cons] at h
        rcases h with rfl | h
        · refine ⟨[], bs, ?_, rfl⟩
          rw [List.nil_append, ← hb]
        · obtain ⟨l, r, h⟩ := htail.1 h
          exact ⟨b :: l, r, h⟩
      | false =>
        rw [usedAt_free hb] at h
        obtain ⟨l, r, h⟩ := htail.1 h
        exact ⟨b :: l, r, h⟩
    · rintro ⟨l, r, h, hu⟩
      cases l with
      | nil =>
        obtain ⟨rfl, rfl⟩ := List.cons.inj h
        rw [usedAt_used rfl]
        exact List.mem_cons.2 (.inl (Prod.ext hu rfl))
      | cons c l =>
        obtain ⟨rfl, -⟩ := List.cons.inj h
        have hmem := htail.2 ⟨l, r, h, hu⟩
        rw [usedAt]
        split_ifs
        · exact List.mem_cons_of_mem _ hmem
        · exact hmem

theorem usedAt_bounds {a : ℕ} {bs : List Block} {u : ℕ × ℕ} (h : u ∈ usedAt a bs) :
    a ≤ u.1 ∧ u.1 + u.2 ≤ a + extent bs := by
  obtain ⟨l, r, rfl, hu⟩ := mem_usedAt.1 h
  rw [extent_append, extent_cons]
  dsimp only
  omega

/-- Used blocks do not overlap. -/
theorem usedAt_pairwise (a : ℕ) (bs : List Block) :
    (usedAt a bs).Pairwise fun u v => u.1 + u.2 ≤ v.1 := by
  induction bs generalizing a with
  | nil => exact List.Pairwise.nil
  | cons b bs ih =>
    rw [usedAt]
    split_ifs
    · refine List.pairwise_cons.2 ⟨fun v hv => ?_, ih _⟩
      exact (usedAt_bounds hv).1
    · exact ih _

/-- The address `y` is not within a block, behind its start. -/
def Outside (y : ℕ) (u : ℕ × ℕ) : Prop := y ≤ u.1 ∨ u.1 + u.2 ≤ y

/-- The ends of the blocks are not within one. -/
theorem outside_extent (a : ℕ) (l r : List Block) :
    ∀ u ∈ usedAt a (l ++ r), Outside (a + extent l) u := by
  intro u hu
  rw [usedAt_append] at hu
  rcases List.mem_append.1 hu with hu | hu
  · exact .inr (usedAt_bounds hu).2
  · exact .inl (usedAt_bounds hu).1

/-- The start of a used block is not within another one. -/
theorem outside_used {a : ℕ} {bs : List Block} {v : ℕ × ℕ} (hv : v ∈ usedAt a bs) :
    ∀ u ∈ usedAt a bs, Outside v.1 u := by
  obtain ⟨l, r, rfl, hl⟩ := mem_usedAt.1 hv
  rw [hl]
  exact outside_extent a l _

/-! ## The first free block -/

/-- How far the first free block is. -/
def firstFree : List Block → ℕ
  | [] => 0
  | b :: bs => if b.used then b.size + firstFree bs else 0

theorem firstFree_append {l : List Block} (h : ∀ b ∈ l, b.used = true) (r : List Block) :
    firstFree (l ++ r) = extent l + firstFree r := by
  induction l with
  | nil => exact (Nat.zero_add _).symm
  | cons b l ih =>
    rw [List.cons_append, firstFree, if_pos (h b List.mem_cons_self),
      ih fun c hc => h c (List.mem_cons_of_mem b hc), extent_cons, Nat.add_assoc]

/-- Behind a free block nothing matters. -/
theorem firstFree_of_free {l : List Block} (h : ¬ ∀ b ∈ l, b.used = true) (hs : Solid l)
    (r : List Block) : firstFree (l ++ r) = firstFree l ∧ firstFree l < extent l := by
  induction l with
  | nil => exact absurd (fun _ hb => absurd hb List.not_mem_nil) h
  | cons b l ih =>
    have hb := hs b List.mem_cons_self
    rw [List.cons_append, firstFree, firstFree, extent_cons]
    split_ifs with hu
    · have hl : ¬ ∀ c ∈ l, c.used = true := fun hl => h (List.forall_mem_cons.2 ⟨hu, hl⟩)
      obtain ⟨he, hlt⟩ := ih hl fun c hc => hs c (List.mem_cons_of_mem b hc)
      omega
    · omega

/-- The first free block is not behind one that is free. -/
theorem firstFree_free {b : Block} (h : b.used = false) (l r : List Block) :
    firstFree (l ++ b :: r) = firstFree (l ++ [⟨false, 0⟩]) := by
  induction l with
  | nil => rw [List.nil_append, firstFree, h]; rfl
  | cons c l ih => rw [List.cons_append, List.cons_append, firstFree, firstFree, ih]

theorem firstFree_le (l : List Block) : firstFree (l ++ [⟨false, 0⟩]) ≤ extent l := by
  induction l with
  | nil => exact le_rfl
  | cons c l ih =>
    rw [List.cons_append, firstFree, extent_cons]
    split_ifs <;> omega

/-- The used blocks up to the first free one. -/
theorem exists_firstFree (bs : List Block) : ∃ l r, bs = l ++ r ∧ extent l = firstFree bs ∧
    (∀ b ∈ l, b.used = true) ∧ ∀ b ∈ r.head?, b.used = false := by
  induction bs with
  | nil => exact ⟨[], [], rfl, rfl, nofun, nofun⟩
  | cons b bs ih =>
    cases hb : b.used with
    | true =>
      obtain ⟨l, r, rfl, he, hl, hr⟩ := ih
      refine ⟨b :: l, r, rfl, ?_, List.forall_mem_cons.2 ⟨hb, hl⟩, hr⟩
      rw [extent_cons, firstFree, if_pos hb, he]
    | false =>
      refine ⟨[], b :: bs, rfl, ?_, nofun, ?_⟩
      · rw [firstFree, hb]
        rfl
      · intro c hc
        rw [List.head?_cons, Option.mem_some_iff] at hc
        rwa [← hc]

/-! ## Merged rows -/

/-- No two free blocks are neighbours. -/
def Merged (bs : List Block) : Prop := bs.IsChain fun b c => b.used = true ∨ c.used = true

theorem Merged.of_append {l r : List Block} (h : Merged (l ++ r)) : Merged l ∧ Merged r :=
  ⟨(List.isChain_append.1 h).1, (List.isChain_append.1 h).2.1⟩

/-- The neighbours of a free block are used. -/
theorem Merged.around {l r : List Block} {b : Block} (h : Merged (l ++ b :: r))
    (hb : b.used = false) :
    (∀ c ∈ l.getLast?, c.used = true) ∧ ∀ c ∈ r.head?, c.used = true := by
  obtain ⟨-, hr, hl⟩ := List.isChain_append.1 h
  constructor
  · intro c hc
    have := hl c hc b rfl
    rwa [hb, or_iff_left Bool.false_ne_true] at this
  · intro c hc
    have := (List.isChain_cons.1 hr).1 c hc
    rwa [hb, or_iff_right Bool.false_ne_true] at this

/-- A used block can stand anywhere. -/
theorem Merged.used {l r : List Block} {b : Block} (hl : Merged l) (hr : Merged r)
    (hb : b.used = true) : Merged (l ++ b :: r) :=
  List.isChain_append.2 ⟨hl, List.isChain_cons.2 ⟨fun _ _ => .inl hb, hr⟩, fun _ _ c hc => by
    rw [List.head?_cons, Option.mem_some_iff] at hc
    exact .inr (hc ▸ hb)⟩

/-- A free block can stand between used ones. -/
theorem Merged.free {l r : List Block} {b : Block} (hl : Merged l) (hr : Merged r)
    (hbefore : ∀ c ∈ l.getLast?, c.used = true) (hafter : ∀ c ∈ r.head?, c.used = true) :
    Merged (l ++ b :: r) :=
  List.isChain_append.2 ⟨hl, List.isChain_cons.2 ⟨fun c hc => .inr (hafter c hc), hr⟩,
    fun c hc _ _ => .inl (hbefore c hc)⟩

/-- A merged row without a used block is one block. -/
theorem Merged.eq_single {a : ℕ} {bs : List Block} (h : Merged bs) (hu : usedAt a bs = [])
    (hne : bs ≠ []) : bs = [⟨false, extent bs⟩] := by
  have hfree : ∀ b ∈ bs, b.used = false := by
    intro b hb
    by_contra hused
    obtain ⟨l, r, rfl⟩ := List.append_of_mem hb
    have hmem : (a + extent l, b.size) ∈ usedAt a (l ++ b :: r) :=
      mem_usedAt.2 ⟨l, r, by rw [← (Bool.not_eq_false _ ▸ hused : b.used = true)], rfl⟩
    rw [hu] at hmem
    cases hmem
  match bs, hne with
  | [b], _ =>
    have hb := hfree b List.mem_cons_self
    rw [extent_cons, extent_nil, Nat.add_zero, ← hb]
  | b :: c :: bs, _ =>
    have hb := hfree b List.mem_cons_self
    have hc := hfree c (List.mem_cons_of_mem b List.mem_cons_self)
    have hor := (List.isChain_cons_cons.1 h).1
    rw [hb, hc] at hor
    simp at hor

/-- **No gaps but the free blocks**: a place that meets no used block is in one free block. -/
theorem exists_free_of_gap {a x w : ℕ} {bs : List Block} (h : Merged bs) (hs : Solid bs)
    (hw : 0 < w) (hx : a ≤ x) (hend : x + w ≤ a + extent bs)
    (hgap : ∀ u ∈ usedAt a bs, x + w ≤ u.1 ∨ u.1 + u.2 ≤ x) :
    ∃ l b r, bs = l ++ b :: r ∧ b.used = false ∧ a + extent l ≤ x ∧
      x + w ≤ a + extent l + b.size := by
  induction bs generalizing a with
  | nil =>
    rw [extent_nil] at hend
    omega
  | cons b bs ih =>
    have htail : Solid bs := fun c hc => hs c (List.mem_cons_of_mem b hc)
    rw [extent_cons] at hend
    rcases Nat.lt_or_ge x (a + b.size) with hlt | hge
    · -- the block at `x` is free, and the next one is used
      have hb : b.used = false := by
        by_contra hused
        rw [Bool.not_eq_false] at hused
        have := hgap (a, b.size) (by rw [usedAt_used hused]; exact List.mem_cons_self)
        dsimp only at this
        omega
      refine ⟨[], b, bs, rfl, hb, hx, ?_⟩
      rw [extent_nil, Nat.add_zero]
      cases bs with
      | nil =>
        rw [extent_nil] at hend
        omega
      | cons c bs =>
        have hc : c.used = true := (Merged.around (l := []) h hb).2 c rfl
        have hpos := htail c List.mem_cons_self
        have := hgap (a + b.size, c.size) (by
          rw [usedAt_free hb, usedAt_used hc]
          exact List.mem_cons_self)
        dsimp only at this
        omega
    · have hsub : ∀ u ∈ usedAt (a + b.size) bs, u ∈ usedAt a (b :: bs) := by
        intro u hu
        rw [usedAt]
        split_ifs
        · exact List.mem_cons_of_mem _ hu
        · exact hu
      obtain ⟨l, c, r, rfl, hc, hle, hle'⟩ := ih (List.isChain_cons.1 h).2 htail hge (by omega)
        fun u hu => hgap u (hsub u hu)
      exact ⟨b :: l, c, r, rfl, hc, by rw [extent_cons]; omega, by rw [extent_cons]; omega⟩

end GndCtrl
