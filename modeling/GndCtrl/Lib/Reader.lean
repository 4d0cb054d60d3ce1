/-
  A ring read through a pointer — one producer, and a consumer that goes on
  reading behind the pointer it got after it has freed the slot.

  The producer's calls are complete: they come between any two statements of
  the consumer.  A call of the consumer tests for emptiness, advances `front`,
  returns the address of `queue[front]` and reads through it.  A caller either
  tests for emptiness itself and then trusts the pointer (`tests`), or it looks
  at the pointer first.

  `inv_run`: the `k`-th call reads the `k`-th element that found room, and
  nothing else, as often as it likes; no pointer is null when it is read.  The
  slot at `front` is the one that is always left free, so the producer never
  writes there.  `obtains`: a call that begins with an element in the ring comes
  to a pointer to the oldest one, whatever the producer does in between.
-/
import GndCtrl.Lib.Ring
import GndCtrl.Lib.Run

namespace GndCtrl

/-- The next statement of the consumer. -/
inductive ReaderPc where
  /-- the caller's test for emptiness, if it has one -/
  | idle
  /-- the test for emptiness in the call -/
  | call
  /-- `front = (front + 1) % maxSize` -/
  | advance
  /-- `return &queue[front]` -/
  | ret
  /-- the call has returned no pointer -/
  | null
  /-- the caller has a pointer to slot `i` -/
  | hold (i : ℕ)
  deriving DecidableEq

/-- The ring and its consumer, with a history: the elements that found room,
    how many were taken, and what was read through a pointer, each with the
    number of elements taken then. -/
structure Reader (α : Type) where
  ring : Ring α
  pc : ReaderPc
  accepted : List α
  taken : ℕ
  seen : List (ℕ × Option α)

/-- A call of the producer, a statement of the consumer, or a read through its
    pointer. -/
inductive ReaderEvent (α : Type) where
  | produce (x : α)
  | next
  | read

/-- A statement of the consumer. -/
def ReaderEvent.isNext {α : Type} : ReaderEvent α → Bool
  | .next => true
  | _ => false

namespace Reader
variable {α : Type}

/-- The consumer of an empty ring over the array `a`. -/
def init (a : ℕ → α) (ms : ℕ) : Reader α := ⟨.init a ms, .idle, [], 0, []⟩

/-- A complete call of the producer. -/
def produce (s : Reader α) (x : α) : Reader α :=
  { s with
    ring := s.ring.enQueue x
    accepted := if s.ring.full then s.accepted else s.accepted ++ [x] }

/-- The next statement; `tests` is whether the caller tests for emptiness. -/
def next (tests : Bool) (s : Reader α) : Reader α :=
  match s.pc with
  | .idle => if tests && s.ring.empty then s else { s with pc := .call }
  | .call => if s.ring.empty then { s with pc := .null } else { s with pc := .advance }
  | .advance =>
    { s with
      ring := { s.ring with front := (s.ring.front + 1) % s.ring.maxSize }
      taken := s.taken + 1
      pc := .ret }
  | .ret => { s with pc := .hold s.ring.front }
  | .null => { s with pc := .idle }
  | .hold _ => { s with pc := .idle }

/-- A read; a caller with a test of its own does not look at the pointer. -/
def read (tests : Bool) (s : Reader α) : Reader α :=
  match s.pc with
  | .hold i => { s with seen := s.seen ++ [(s.taken, some (s.ring.queue i))] }
  | .null => if tests then { s with seen := s.seen ++ [(s.taken, none)] } else s
  | _ => s

def step (tests : Bool) (s : Reader α) : ReaderEvent α → Reader α
  | .produce x => s.produce x
  | .next => s.next tests
  | .read => s.read tests

/-- Every read saw the element of its call: the `k`-th that found room. -/
def Safe (s : Reader α) : Prop :=
  ∀ r ∈ s.seen, ∃ x, r.2 = some x ∧ 0 < r.1 ∧ s.accepted[r.1 - 1]? = some x

/-- What holds between two statements. -/
structure Inv (tests : Bool) (s : Reader α) : Prop where
  wf : s.ring.WF
  /-- nothing is lost or taken twice -/
  pending : s.ring.toList = s.accepted.drop s.taken
  taken : s.taken ≤ s.accepted.length
  /-- the slot at `front` keeps the last element taken -/
  last : 0 < s.taken → s.accepted[s.taken - 1]? = some (s.ring.queue s.ring.front)
  call : s.pc = .call → tests = true → s.ring.toList ≠ []
  advance : s.pc = .advance → s.ring.toList ≠ []
  ret : s.pc = .ret → 0 < s.taken
  null : s.pc = .null → tests = false
  hold : ∀ i, s.pc = .hold i → 0 < s.taken ∧ i = s.ring.front
  safe : s.Safe

theorem inv_init (tests : Bool) (a : ℕ → α) {ms : ℕ} (h : 2 ≤ ms) : (init a ms).Inv tests := by
  refine ⟨Ring.wf_init a h, Ring.toList_init a ms, Nat.le_refl 0, fun ht => ?_, nofun, nofun, nofun,
    nofun, nofun, nofun⟩
  exact absurd ht (Nat.lt_irrefl 0)

variable {tests : Bool} {s : Reader α}

/-- The producer does not write the slot at `front`. -/
theorem queue_front_produce (s : Reader α) (x : α) :
    (s.produce x).ring.queue (s.produce x).ring.front = s.ring.queue s.ring.front := by
  simp only [produce, Ring.enQueue]
  split_ifs with hf
  · rfl
  · have hne : s.ring.front ≠ (s.ring.rear + 1) % s.ring.maxSize := by
      intro h
      exact hf (by simp [Ring.full, ← h])
    simp only [if_neg hne]

theorem accepted_produce (s : Reader α) (x : α) :
    ∃ l, (s.produce x).accepted = s.accepted ++ l := by
  simp only [produce]
  split_ifs
  · exact ⟨[], (List.append_nil _).symm⟩
  · exact ⟨[x], rfl⟩

theorem Inv.produce (h : s.Inv tests) (x : α) : (s.produce x).Inv tests := by
  obtain ⟨l, hl⟩ := accepted_produce s x
  have hkeep : ∀ {k : ℕ} {y : α}, s.accepted[k]? = some y →
      (s.produce x).accepted[k]? = some y := by
    intro k y hk
    rw [hl, List.getElem?_append_left (List.getElem?_eq_some_iff.1 hk).1, hk]
  have hlist : (s.produce x).ring.toList = (s.produce x).accepted.drop s.taken := by
    simp only [Reader.produce]
    rw [h.wf.toList_enQueue x, h.pending]
    by_cases hf : s.ring.full = true
    · rw [if_pos (h.wf.full_iff.1 hf), if_pos hf]
    · rw [if_neg fun hc => hf (h.wf.full_iff.2 hc), if_neg hf,
        List.drop_append_of_le_length h.taken]
  have hne : s.ring.toList ≠ [] → (s.produce x).ring.toList ≠ [] := by
    intro hs
    rw [hlist, hl, List.drop_append_of_le_length h.taken, ← h.pending]
    exact List.append_ne_nil_of_left_ne_nil hs l
  refine ⟨h.wf.enQueue x, hlist, ?_, fun ht => ?_, fun hp ht => hne (h.call hp ht),
    fun hp => hne (h.advance hp), h.ret, h.null, fun i hp => ?_, fun r hr => ?_⟩
  · rw [hl, List.length_append]
    exact Nat.le_trans h.taken (Nat.le_add_right ..)
  · rw [queue_front_produce]
    exact hkeep (h.last ht)
  · have hfront : (s.produce x).ring.front = s.ring.front := by
      simp only [Reader.produce, Ring.enQueue]
      split_ifs <;> rfl
    rw [hfront]
    exact h.hold i hp
  · obtain ⟨y, hy, hk, ha⟩ := h.safe r hr
    exact ⟨y, hy, hk, hkeep ha⟩

/-- Advancing `front` takes the oldest element. -/
theorem advance_eq (h : s.Inv tests) (hp : s.pc = .advance) :
    ({ s.ring with front := (s.ring.front + 1) % s.ring.maxSize } : Ring α) = s.ring.outQueue.2 ∧
      s.ring.outQueue.1 = some (s.ring.queue ((s.ring.front + 1) % s.ring.maxSize)) := by
  have he : ¬ s.ring.empty = true := fun hc => h.advance hp (h.wf.empty_iff.1 hc)
  simp [Ring.outQueue, he]

theorem Inv.next (h : s.Inv tests) : (s.next tests).Inv tests := by
  unfold Reader.next
  cases hp : s.pc with
  | idle =>
    simp only
    split_ifs with he
    · exact h
    · refine ⟨h.wf, h.pending, h.taken, h.last, fun _ ht => ?_, nofun, nofun, nofun, nofun, h.safe⟩
      intro hl
      exact he (by rw [ht, Bool.true_and]; exact h.wf.empty_iff.2 hl)
  | call =>
    simp only
    split_ifs with he
    · refine ⟨h.wf, h.pending, h.taken, h.last, nofun, nofun, nofun, fun _ => ?_, nofun, h.safe⟩
      by_contra ht
      exact h.call hp (by simpa using ht) (h.wf.empty_iff.1 he)
    · exact ⟨h.wf, h.pending, h.taken, h.last, nofun, fun _ hl => he (h.wf.empty_iff.2 hl), nofun,
        nofun, nofun, h.safe⟩
  | advance =>
    obtain ⟨he, hx⟩ := advance_eq h hp
    obtain ⟨hhead, htail⟩ := h.wf.toList_outQueue
    rw [hx, h.pending] at hhead
    have hget : s.accepted[s.taken]? =
        some (s.ring.queue ((s.ring.front + 1) % s.ring.maxSize)) := by
      rw [hhead, List.head?_drop]
    refine ⟨?_, ?_, ?_, fun _ => hget, nofun, nofun, fun _ => Nat.succ_pos _, nofun, nofun, h.safe⟩
    · simp only [he]
      exact h.wf.outQueue
    · simp only [he]
      rw [htail, h.pending, List.tail_drop]
    · exact (List.getElem?_eq_some_iff.1 hget).1
  | ret =>
    refine ⟨h.wf, h.pending, h.taken, h.last, nofun, nofun, nofun, nofun, ?_, h.safe⟩
    rintro i ⟨⟩
    exact ⟨h.ret hp, rfl⟩
  | null => exact ⟨h.wf, h.pending, h.taken, h.last, nofun, nofun, nofun, nofun, nofun, h.safe⟩
  | hold i => exact ⟨h.wf, h.pending, h.taken, h.last, nofun, nofun, nofun, nofun, nofun, h.safe⟩

theorem Inv.read (h : s.Inv tests) : (s.read tests).Inv tests := by
  unfold Reader.read
  cases hp : s.pc with
  | hold i =>
    obtain ⟨ht, hi⟩ := h.hold i hp
    refine ⟨h.wf, h.pending, h.taken, h.last, nofun, nofun, nofun, nofun, ?_, fun r hr => ?_⟩
    · rintro j ⟨⟩
      exact ⟨ht, hi⟩
    rcases List.mem_append.1 hr with hr | hr
    · exact h.safe r hr
    · rw [List.mem_singleton.1 hr]
      exact ⟨_, rfl, ht, by rw [hi]; exact h.last ht⟩
  | null =>
    have ht := h.null hp
    simp only [ht, Bool.false_eq_true, if_false]
    exact ht ▸ h
  | _ => exact h

theorem Inv.step (h : s.Inv tests) (e : ReaderEvent α) : (s.step tests e).Inv tests := by
  cases e with
  | produce x => exact h.produce x
  | next => exact h.next
  | read => exact h.read

/-- **The invariant holds in every run** of producer and consumer. -/
theorem inv_run (tests : Bool) (a : ℕ → α) {ms : ℕ} (hms : 2 ≤ ms) (es : List (ReaderEvent α)) :
    (run (step tests) (init a ms) es).Inv tests :=
  run_inv (fun _ e h => h.step e) es (inv_init tests a hms)

/-! ## A call -/

/-- The consumer is in the call that takes `x`, with `n` elements taken before it: so many of its
    statements are done. -/
inductive Fetching (x : α) (n : ℕ) (s : Reader α) : ℕ → Prop where
  | idle {l : List α} (hp : s.pc = .idle) (hl : s.ring.toList = x :: l) (ht : s.taken = n) :
      Fetching x n s 0
  | call {l : List α} (hp : s.pc = .call) (hl : s.ring.toList = x :: l) (ht : s.taken = n) :
      Fetching x n s 1
  | advance {l : List α} (hp : s.pc = .advance) (hl : s.ring.toList = x :: l)
      (ht : s.taken = n) : Fetching x n s 2
  | ret (hp : s.pc = .ret) (hx : s.ring.queue s.ring.front = x) (ht : s.taken = n + 1) :
      Fetching x n s 3
  | hold (hp : s.pc = .hold s.ring.front) (hx : s.ring.queue s.ring.front = x)
      (ht : s.taken = n + 1) : Fetching x n s 4

namespace Fetching
variable {x : α} {n k : ℕ}

theorem produce (hs : s.ring.WF) (h : Fetching x n s k) (y : α) :
    Fetching x n (s.produce y) k := by
  have hlist : ∀ {l}, s.ring.toList = x :: l → ∃ l', (s.produce y).ring.toList = x :: l' := by
    intro l hl
    simp only [Reader.produce]
    rw [hs.toList_enQueue y, hl]
    split_ifs
    · exact ⟨l, rfl⟩
    · exact ⟨l ++ [y], rfl⟩
  have hfront : (s.produce y).ring.front = s.ring.front := by
    simp only [Reader.produce, Ring.enQueue]
    split_ifs <;> rfl
  cases h with
  | idle hp hl ht =>
    obtain ⟨l', hl'⟩ := hlist hl
    exact .idle hp hl' ht
  | call hp hl ht =>
    obtain ⟨l', hl'⟩ := hlist hl
    exact .call hp hl' ht
  | advance hp hl ht =>
    obtain ⟨l', hl'⟩ := hlist hl
    exact .advance hp hl' ht
  | ret hp hx ht => exact .ret hp ((queue_front_produce s y).trans hx) ht
  | hold hp hx ht =>
    exact .hold (by rw [hfront]; exact hp) ((queue_front_produce s y).trans hx) ht

theorem read (h : Fetching x n s k) : Fetching x n (s.read tests) k := by
  cases h with
  | idle hp hl ht =>
    simp only [Reader.read, hp]
    exact .idle hp hl ht
  | call hp hl ht =>
    simp only [Reader.read, hp]
    exact .call hp hl ht
  | advance hp hl ht =>
    simp only [Reader.read, hp]
    exact .advance hp hl ht
  | ret hp hx ht =>
    simp only [Reader.read, hp]
    exact .ret hp hx ht
  | hold hp hx ht =>
    simp only [Reader.read, hp]
    exact .hold rfl hx ht

theorem next (hs : s.ring.WF) (h : Fetching x n s k) (hk : k < 4) :
    Fetching x n (s.next tests) (k + 1) := by
  have hempty : ∀ {l}, s.ring.toList = x :: l → s.ring.empty = false := by
    intro l hl
    rw [← Bool.not_eq_true]
    intro he
    rw [hs.empty_iff.1 he] at hl
    exact absurd hl.symm (List.cons_ne_nil x l)
  cases h with
  | idle hp hl ht =>
    simp only [Reader.next, hp, hempty hl, Bool.and_false, Bool.false_eq_true, if_false]
    exact .call rfl hl ht
  | call hp hl ht =>
    simp only [Reader.next, hp, hempty hl, Bool.false_eq_true, if_false]
    exact .advance rfl hl ht
  | advance hp hl ht =>
    simp only [Reader.next, hp]
    refine .ret rfl ?_ (congrArg (· + 1) ht)
    -- the head of the ring is behind the advanced pointer
    have hhead := hs.toList_outQueue.1
    rw [hl] at hhead
    simpa [Ring.outQueue, hempty hl] using hhead
  | ret hp hx ht =>
    simp only [Reader.next, hp]
    exact .hold rfl hx ht
  | hold => exact absurd hk (Nat.lt_irrefl 4)

end Fetching

/-- **A call obtains the oldest element.**  The consumer begins it with an element in the ring; after
    its statements, with any calls of the producer in between, it has a pointer to that element. -/
theorem Inv.obtains {x : α} {n k : ℕ} (h : s.Inv tests) (hf : Fetching x n s k)
    {es : List (ReaderEvent α)} (hes : k + es.countP ReaderEvent.isNext ≤ 4) :
    Fetching x n (run (Reader.step tests) s es) (k + es.countP ReaderEvent.isNext) := by
  induction es generalizing s k with
  | nil => exact hf
  | cons e es ih =>
    cases e with
    | produce y =>
      rw [List.countP_cons_of_neg Bool.false_ne_true] at hes ⊢
      exact ih (h.produce y) (hf.produce h.wf y) hes
    | read =>
      rw [List.countP_cons_of_neg Bool.false_ne_true] at hes ⊢
      exact ih h.read hf.read hes
    | next =>
      rw [List.countP_cons_of_pos rfl, ← Nat.add_assoc, Nat.add_right_comm] at hes ⊢
      exact ih h.next (hf.next h.wf (by omega)) hes

/-- A call without interruption is `outQueue`. -/
theorem next_alone (tests : Bool) {s : Reader α} (hp : s.pc = .idle) (he : s.ring.empty = false) :
    let s' := run (step tests) s [.next, .next, .next, .next]
    s'.ring = s.ring.outQueue.2 ∧ ∃ i, s'.pc = .hold i ∧ s.ring.outQueue.1 = some (s'.ring.queue i) := by
  simp [step, next, hp, he, Ring.outQueue]

end Reader

end GndCtrl
