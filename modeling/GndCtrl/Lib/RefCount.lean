/-
  Reference counting — cells in chains, each with one pointer to the next cell
  and a count of the references to it.

  `RefCounted next ref free roots` says that the counts are right: `roots` are the
  references held from outside, the count of a used cell is the number of its
  references from roots and used cells, a free cell has none, and every chain
  ends.  There is one rule for each thing that a program does with a cell:

  * `RefCounted.alloc` — take a free cell;
  * `RefCounted.share` — one more reference from outside;
  * `RefCounted.release` and `RefCounted.last` — one less: another remains, or the cell
    is freed and what it points to is held in its place;
  * `RefCounted.link` and `RefCounted.unlink` — a reference becomes a pointer, and back.

  Without roots all cells are free (`RefCounted.no_leak`).
-/
import Mathlib.Data.Finset.Card
import Mathlib.Data.Fintype.Basic
import Mathlib.Data.Fintype.Card
import Mathlib.Data.List.Nodup

namespace GndCtrl

variable {β : Type}

/-! ## Chains -/

/-- The cells from `p` on, to the last one. -/
inductive LinkChain (next : β → Option β) : Option β → List β → Prop
  | nil : LinkChain next none []
  | cons {p : β} {l : List β} (h : LinkChain next (next p) l) : LinkChain next (some p) (p :: l)

namespace LinkChain
variable {next next' : β → Option β} {o : Option β} {l l' : List β}

theorem congr (h : LinkChain next o l) (hn : ∀ p ∈ l, next' p = next p) : LinkChain next' o l := by
  induction h with
  | nil => exact .nil
  | @cons p l _ ih =>
    have htail := ih fun q hq => hn q (List.mem_cons_of_mem p hq)
    rw [← hn p List.mem_cons_self] at htail
    exact .cons htail

theorem unique (h : LinkChain next o l) (h' : LinkChain next o l') : l = l' := by
  induction h generalizing l' with
  | nil =>
    cases h'
    rfl
  | cons _ ih =>
    cases h' with
    | cons h' => rw [ih h']

/-- The part of a chain from one of its cells on, and the part before it, which can be followed by
    another chain from this cell. -/
theorem split (h : LinkChain next o l) {x : β} (hx : x ∈ l) :
    ∃ l₁ l₂, l = l₁ ++ x :: l₂ ∧ LinkChain next (some x) (x :: l₂) ∧ x ∉ l₁ ∧
      ∀ next' : β → Option β, (∀ p, p ≠ x → next' p = next p) → ∀ l',
        LinkChain next' (some x) l' → LinkChain next' o (l₁ ++ l') := by
  induction h with
  | nil => cases hx
  | @cons p l h ih =>
    by_cases hp : x = p
    · subst hp
      exact ⟨[], l, rfl, .cons h, List.not_mem_nil, fun _ _ l' hl' => hl'⟩
    · have hx' : x ∈ l := (List.mem_cons.1 hx).resolve_left hp
      obtain ⟨l₁, l₂, rfl, hl₂, hl₁, hcat⟩ := ih hx'
      refine ⟨p :: l₁, l₂, rfl, hl₂, ?_, ?_⟩
      · rw [List.mem_cons, not_or]
        exact ⟨hp, hl₁⟩
      · intro next' hn l' hl'
        have htail := hcat next' hn l' hl'
        rw [← hn p (Ne.symm hp)] at htail
        exact .cons htail

theorem nodup (h : LinkChain next o l) : l.Nodup := by
  induction h with
  | nil => exact List.nodup_nil
  | @cons p l h ih =>
    refine List.nodup_cons.2 ⟨fun hp => ?_, ih⟩
    -- a chain that comes back does not end
    obtain ⟨l₁, l₂, rfl, hl₂, -⟩ := h.split hp
    have hlen := congrArg List.length (hl₂.unique (.cons h))
    simp only [List.length_cons, List.length_append] at hlen
    omega

/-- A chain has the pointers of its cells. -/
theorem closed (h : LinkChain next o l) {x y : β} (hx : x ∈ l) (hy : next x = some y) :
    y ∈ l := by
  induction h with
  | nil => cases hx
  | @cons p l h ih =>
    rcases List.mem_cons.1 hx with rfl | hx
    · rw [hy] at h
      cases h
      exact List.mem_cons_of_mem _ List.mem_cons_self
    · exact List.mem_cons_of_mem p (ih hx)

/-- The part of a chain behind one of its cells. -/
theorem behind {x : β} {l₁ l₂ : List β} (h : LinkChain next o (l₁ ++ x :: l₂)) :
    LinkChain next (next x) l₂ := by
  induction l₁ generalizing o with
  | nil =>
    cases h with
    | cons h => exact h
  | cons p l₁ ih =>
    cases h with
    | cons h => exact ih h

theorem head_notMem {p : β} (h : LinkChain next (some p) l) (hd : ∀ x ∈ l', x ∉ l) : p ∉ l' := by
  intro hp
  cases h
  exact hd p hp List.mem_cons_self

end LinkChain

/-! ## Counts -/

section
variable [Fintype β] [DecidableEq β]

/-- The number of used cells that point to `q`. -/
def pointers (next : β → Option β) (free : List β) (q : β) : ℕ :=
  (Finset.univ.filter fun p => p ∉ free ∧ next p = some q).card

/-- The counts of the cells are right, and every chain ends. -/
structure RefCounted (next : β → Option β) (ref : β → ℕ) (free roots : List β) : Prop where
  nodup : free.Nodup
  used : ∀ q, q ∉ free → ref q = roots.count q + pointers next free q
  pos : ∀ q, q ∉ free → 0 < ref q
  unused : ∀ q ∈ free, q ∉ roots ∧ pointers next free q = 0
  ends : ∀ p, p ∉ free → ∃ l, LinkChain next (some p) l

variable {next : β → Option β} {ref : β → ℕ} {free roots : List β}

theorem pointers_pos {p q : β} (hp : p ∉ free) (hq : next p = some q) :
    0 < pointers next free q :=
  Finset.card_pos.2 ⟨p, Finset.mem_filter.2 ⟨Finset.mem_univ p, hp, hq⟩⟩

/-- A change that concerns no pointer to `q`. -/
theorem pointers_congr {next' : β → Option β} {free' : List β} {q : β}
    (h : ∀ p, p ∉ free' ∧ next' p = some q ↔ p ∉ free ∧ next p = some q) :
    pointers next' free' q = pointers next free q := by
  unfold pointers
  congr 1
  exact Finset.filter_congr fun p _ => h p

/-- One pointer more. -/
theorem pointers_succ {next' : β → Option β} {free' : List β} {p q : β}
    (hp : p ∉ free' ∧ next' p = some q) (hn : ¬ (p ∉ free ∧ next p = some q))
    (h : ∀ r, r ≠ p → (r ∉ free' ∧ next' r = some q ↔ r ∉ free ∧ next r = some q)) :
    pointers next' free' q = pointers next free q + 1 := by
  unfold pointers
  have hnot : p ∉ Finset.univ.filter fun r => r ∉ free ∧ next r = some q := by
    rw [Finset.mem_filter]
    exact fun hm => hn hm.2
  rw [← Finset.card_insert_of_notMem hnot]
  congr 1
  ext r
  rw [Finset.mem_filter, Finset.mem_insert, Finset.mem_filter]
  by_cases hr : r = p
  · subst hr
    simp [hp]
  · simp [hr, h r hr]

namespace RefCounted

/-- All cells free. -/
theorem start (hn : free.Nodup) (hall : ∀ q, q ∈ free) : RefCounted next ref free [] where
  nodup := hn
  used := by
    intro q hq
    exact absurd (hall q) hq
  pos := by
    intro q hq
    exact absurd (hall q) hq
  unused := by
    intro q _
    refine ⟨List.not_mem_nil, Finset.card_eq_zero.2 (Finset.filter_eq_empty_iff.2 ?_)⟩
    intro p _ hp
    exact hp.1 (hall p)
  ends := by
    intro p hp
    exact absurd (hall p) hp

theorem perm (h : RefCounted next ref free roots) {roots' : List β} (hp : roots'.Perm roots) :
    RefCounted next ref free roots' where
  nodup := h.nodup
  used := by
    intro q hq
    rw [hp.count_eq]
    exact h.used q hq
  pos := h.pos
  unused := by
    intro q hq
    rw [hp.mem_iff]
    exact h.unused q hq
  ends := h.ends

/-- The count of a free cell does not matter. -/
theorem congr (h : RefCounted next ref free roots) {ref' : β → ℕ}
    (hr : ∀ q, q ∉ free → ref' q = ref q) : RefCounted next ref' free roots where
  nodup := h.nodup
  used := by
    intro q hq
    rw [hr q hq]
    exact h.used q hq
  pos := by
    intro q hq
    rw [hr q hq]
    exact h.pos q hq
  unused := h.unused
  ends := h.ends

/-- A reference is to a used cell. -/
theorem root_used (h : RefCounted next ref free roots) {p : β} (hp : p ∈ roots) : p ∉ free :=
  fun hf => (h.unused p hf).1 hp

theorem next_used (h : RefCounted next ref free roots) {p q : β} (hp : p ∉ free)
    (hq : next p = some q) : q ∉ free := by
  intro hf
  have hpos := pointers_pos hp hq
  rw [(h.unused q hf).2] at hpos
  exact absurd hpos (Nat.lt_irrefl 0)

theorem chain_used (h : RefCounted next ref free roots) {o : Option β} {l : List β}
    (hl : LinkChain next o l) (ho : ∀ p, o = some p → p ∉ free) : ∀ q ∈ l, q ∉ free := by
  induction hl with
  | nil => simp
  | @cons p l hl ih =>
    have hp : p ∉ free := ho p rfl
    intro q hq
    rcases List.mem_cons.1 hq with rfl | hq
    · exact hp
    · exact ih (fun r hr => h.next_used hp hr) q hq

/-- **Allocation** of a free cell, with one reference to it. -/
theorem alloc {p : β} (h : RefCounted next ref (p :: free) roots) :
    RefCounted (Function.update next p none) (Function.update ref p 1) free (p :: roots) := by
  obtain ⟨hpf, hfree⟩ := List.nodup_cons.1 h.nodup
  obtain ⟨hpr, hpp⟩ := h.unused p List.mem_cons_self
  have hpointers : ∀ q, pointers (Function.update next p none) free q =
      pointers next (p :: free) q := by
    intro q
    refine pointers_congr fun r => ?_
    by_cases hr : r = p
    · subst hr
      simp
    · simp [hr]
  refine ⟨hfree, fun q hq => ?_, fun q hq => ?_, fun q hq => ?_, fun q hq => ?_⟩
  · rw [hpointers]
    by_cases hqp : q = p
    · subst hqp
      rw [Function.update_self, List.count_cons_self, List.count_eq_zero.2 hpr, hpp]
    · have hq' : q ∉ p :: free := by simp [hqp, hq]
      rw [Function.update_of_ne hqp, List.count_cons_of_ne (Ne.symm hqp)]
      exact h.used q hq'
  · by_cases hqp : q = p
    · subst hqp
      rw [Function.update_self]
      exact Nat.one_pos
    · rw [Function.update_of_ne hqp]
      exact h.pos q (by simp [hqp, hq])
  · have hqp : q ≠ p := by
      rintro rfl
      exact hpf hq
    rw [hpointers, List.mem_cons, not_or]
    obtain ⟨hr, hz⟩ := h.unused q (List.mem_cons_of_mem p hq)
    exact ⟨⟨hqp, hr⟩, hz⟩
  · by_cases hqp : q = p
    · subst hqp
      refine ⟨[q], .cons ?_⟩
      rw [Function.update_self]
      exact .nil
    · have hq' : q ∉ p :: free := by simp [hqp, hq]
      obtain ⟨l, hl⟩ := h.ends q hq'
      have hused := h.chain_used hl fun r hr => by
        cases hr
        exact hq'
      refine ⟨l, hl.congr fun r hr => Function.update_of_ne ?_ ..⟩
      rintro rfl
      exact hused r hr List.mem_cons_self

/-- **One more reference** to a used cell. -/
theorem share (h : RefCounted next ref free roots) {p : β} (hp : p ∉ free) :
    RefCounted next (Function.update ref p (ref p + 1)) free (p :: roots) := by
  refine ⟨h.nodup, fun q hq => ?_, fun q hq => ?_, fun q hq => ?_, h.ends⟩
  · by_cases hqp : q = p
    · subst hqp
      rw [Function.update_self, List.count_cons_self, h.used q hq]
      omega
    · rw [Function.update_of_ne hqp, List.count_cons_of_ne (Ne.symm hqp)]
      exact h.used q hq
  · by_cases hqp : q = p
    · subst hqp
      rw [Function.update_self]
      exact Nat.succ_pos _
    · rw [Function.update_of_ne hqp]
      exact h.pos q hq
  · obtain ⟨hr, hz⟩ := h.unused q hq
    rw [List.mem_cons, not_or]
    refine ⟨⟨?_, hr⟩, hz⟩
    rintro rfl
    exact hp hq

/-- **One reference less**, when there is another. -/
theorem release {p : β} (h : RefCounted next ref free (p :: roots)) (hp : ref p ≠ 1) :
    RefCounted next (Function.update ref p (ref p - 1)) free roots := by
  refine ⟨h.nodup, fun q hq => ?_, fun q hq => ?_, fun q hq => ?_, h.ends⟩
  · have hq' := h.used q hq
    by_cases hqp : q = p
    · subst hqp
      rw [List.count_cons_self] at hq'
      rw [Function.update_self]
      omega
    · rw [List.count_cons_of_ne (Ne.symm hqp)] at hq'
      rw [Function.update_of_ne hqp]
      exact hq'
  · have hq' := h.pos q hq
    by_cases hqp : q = p
    · subst hqp
      rw [Function.update_self]
      omega
    · rw [Function.update_of_ne hqp]
      exact hq'
  · obtain ⟨hr, hz⟩ := h.unused q hq
    exact ⟨fun hm => hr (List.mem_cons_of_mem p hm), hz⟩

/-- **The last reference** goes: the cell is free, and what it points to is held in its place. -/
theorem last {p : β} (h : RefCounted next ref free (p :: roots)) (hp : ref p = 1) :
    RefCounted next ref (p :: free) ((next p).toList ++ roots) := by
  have hpf : p ∉ free := h.root_used List.mem_cons_self
  have hone := h.used p hpf
  rw [hp, List.count_cons_self] at hone
  have hproots : p ∉ roots := List.count_eq_zero.1 (by omega)
  have hpointers0 : pointers next free p = 0 := by omega
  have hnext : next p ≠ some p := by
    intro hself
    have hpos := pointers_pos hpf hself
    omega
  -- the references to `q` are the same in number
  have hrefs : ∀ q, ((next p).toList ++ roots).count q + pointers next (p :: free) q =
      roots.count q + pointers next free q := by
    intro q
    rw [List.count_append]
    by_cases hq : next p = some q
    · have hsucc : pointers next free q = pointers next (p :: free) q + 1 := by
        refine pointers_succ (p := p) ⟨hpf, hq⟩ (fun hm => hm.1 List.mem_cons_self) ?_
        intro r hr
        simp [hr]
      rw [hq, hsucc]
      simp only [Option.toList_some, List.count_singleton_self]
      omega
    · have hsame : pointers next (p :: free) q = pointers next free q := by
        refine pointers_congr fun r => ?_
        by_cases hr : r = p
        · subst hr
          simp [hq]
        · simp [hr]
      have hzero : (next p).toList.count q = 0 := by
        rw [List.count_eq_zero, Option.mem_toList]
        exact hq
      rw [hsame, hzero, Nat.zero_add]
  refine ⟨List.nodup_cons.2 ⟨hpf, h.nodup⟩, fun q hq => ?_, fun q hq => ?_, fun q hq => ?_,
    fun q hq => ?_⟩
  · obtain ⟨hqp, hqf⟩ := not_or.1 (fun hm => hq (List.mem_cons.2 hm))
    have hq' := h.used q hqf
    rw [List.count_cons_of_ne (Ne.symm hqp)] at hq'
    rw [hrefs, hq']
  · exact h.pos q fun hm => hq (List.mem_cons_of_mem p hm)
  · have hzero : roots.count q + pointers next free q = 0 := by
      rcases List.mem_cons.1 hq with rfl | hqf
      · rw [List.count_eq_zero.2 hproots, hpointers0]
      · obtain ⟨hr, hz⟩ := h.unused q hqf
        have hr' : q ∉ roots := fun hm => hr (List.mem_cons_of_mem p hm)
        rw [List.count_eq_zero.2 hr', hz]
    rw [← hrefs q] at hzero
    exact ⟨List.count_eq_zero.1 (by omega), by omega⟩
  · exact h.ends q fun hm => hq (List.mem_cons_of_mem p hm)

/-- **A reference becomes a pointer** of the last cell `x` of a chain; the chain of `t` must not go
    through `x`. -/
theorem link {x t : β} (h : RefCounted next ref free (t :: roots)) (hx : x ∉ free)
    (hnone : next x = none) {l : List β} (hl : LinkChain next (some t) l) (hxl : x ∉ l) :
    RefCounted (Function.update next x (some t)) ref free roots := by
  have hne : ∀ p, p ≠ x → Function.update next x (some t) p = next p :=
    fun p hp => Function.update_of_ne hp ..
  have hrefs : ∀ q, roots.count q + pointers (Function.update next x (some t)) free q =
      (t :: roots).count q + pointers next free q := by
    intro q
    by_cases hq : q = t
    · subst hq
      have hsucc : pointers (Function.update next x (some q)) free q =
          pointers next free q + 1 := by
        refine pointers_succ (p := x) ⟨hx, Function.update_self ..⟩ ?_ fun r hr => by rw [hne r hr]
        rw [hnone]
        simp
      rw [hsucc, List.count_cons_self]
      omega
    · have hsame : pointers (Function.update next x (some t)) free q = pointers next free q := by
        refine pointers_congr fun r => ?_
        by_cases hr : r = x
        · subst hr
          rw [Function.update_self, hnone]
          simp [Ne.symm hq]
        · rw [hne r hr]
      rw [hsame, List.count_cons_of_ne (Ne.symm hq)]
  have hlx : LinkChain (Function.update next x (some t)) (some x) (x :: l) := by
    refine .cons ?_
    rw [Function.update_self]
    refine hl.congr fun p hp => hne p ?_
    rintro rfl
    exact hxl hp
  refine ⟨h.nodup, fun q hq => ?_, h.pos, fun q hq => ?_, fun q hq => ?_⟩
  · rw [hrefs]
    exact h.used q hq
  · obtain ⟨hr, hz⟩ := h.unused q hq
    have hzero := hrefs q
    rw [List.count_eq_zero.2 hr, hz] at hzero
    exact ⟨List.count_eq_zero.1 (by omega), by omega⟩
  · obtain ⟨l', hl'⟩ := h.ends q hq
    by_cases hxl' : x ∈ l'
    · obtain ⟨l₁, l₂, rfl, -, -, hcat⟩ := hl'.split hxl'
      exact ⟨l₁ ++ x :: l, hcat _ hne _ hlx⟩
    · refine ⟨l', hl'.congr fun p hp => hne p ?_⟩
      rintro rfl
      exact hxl' hp

/-- **A pointer becomes a reference** from outside. -/
theorem unlink {x q : β} (h : RefCounted next ref free roots) (hx : x ∉ free)
    (hq : next x = some q) : RefCounted (Function.update next x none) ref free (q :: roots) := by
  have hne : ∀ p, p ≠ x → Function.update next x none p = next p :=
    fun p hp => Function.update_of_ne hp ..
  have hrefs : ∀ r, (q :: roots).count r + pointers (Function.update next x none) free r =
      roots.count r + pointers next free r := by
    intro r
    by_cases hr : r = q
    · subst hr
      have hsucc : pointers next free r =
          pointers (Function.update next x none) free r + 1 := by
        refine pointers_succ (p := x) ⟨hx, hq⟩ ?_ fun p hp => by rw [hne p hp]
        rw [Function.update_self]
        simp
      rw [hsucc, List.count_cons_self]
      omega
    · have hsame : pointers (Function.update next x none) free r = pointers next free r := by
        refine pointers_congr fun p => ?_
        by_cases hp : p = x
        · subst hp
          rw [Function.update_self, hq]
          simp [Ne.symm hr]
        · rw [hne p hp]
      rw [hsame, List.count_cons_of_ne (Ne.symm hr)]
  refine ⟨h.nodup, fun r hr => ?_, h.pos, fun r hr => ?_, fun r hr => ?_⟩
  · rw [hrefs]
    exact h.used r hr
  · obtain ⟨hroot, hz⟩ := h.unused r hr
    have hzero := hrefs r
    rw [List.count_eq_zero.2 hroot, hz] at hzero
    exact ⟨List.count_eq_zero.1 (by omega), by omega⟩
  · obtain ⟨l, hl⟩ := h.ends r hr
    by_cases hxl : x ∈ l
    · obtain ⟨l₁, l₂, rfl, -, -, hcat⟩ := hl.split hxl
      refine ⟨l₁ ++ [x], hcat _ hne _ (.cons ?_)⟩
      rw [Function.update_self]
      exact .nil
    · refine ⟨l, hl.congr fun p hp => hne p ?_⟩
      rintro rfl
      exact hxl hp

/-- **No leak**: without a reference from outside all cells are free. -/
theorem no_leak (h : RefCounted next ref free []) (q : β) : q ∈ free := by
  by_contra hq
  -- a used cell has a predecessor that is used, and so on
  have hlong : ∀ n, ∃ p l, p ∉ free ∧ LinkChain next (some p) l ∧ n ≤ l.length := by
    intro n
    induction n with
    | zero =>
      obtain ⟨l, hl⟩ := h.ends q hq
      exact ⟨q, l, hq, hl, Nat.zero_le _⟩
    | succ n ih =>
      obtain ⟨p, l, hp, hl, hn⟩ := ih
      have hpos := h.pos p hp
      rw [h.used p hp, List.count_nil, Nat.zero_add] at hpos
      obtain ⟨r, hr⟩ := Finset.card_pos.1 hpos
      obtain ⟨-, hrf, hrp⟩ := Finset.mem_filter.1 hr
      refine ⟨r, r :: l, hrf, .cons ?_, by simpa using hn⟩
      rw [hrp]
      exact hl
  obtain ⟨p, l, -, hl, hlen⟩ := hlong (Fintype.card β + 1)
  have hle := hl.nodup.length_le_card
  omega

end RefCounted

end

end GndCtrl
