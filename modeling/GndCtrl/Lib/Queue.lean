/-
  Bounded queues — a ring of `ms` slots that carries its well-formedness.

  The operations are those of `Ring`; what they do to the content needs no
  hypothesis here, so a state machine with such queues has no invariant about
  their indices to keep.
-/
import GndCtrl.Lib.Ring

namespace GndCtrl

/-- A well-formed ring of `ms` slots. -/
structure Queue (α : Type) (ms : ℕ) where
  ring : Ring α
  wf : ring.WF
  maxSize : ring.maxSize = ms

namespace Queue
variable {α : Type} {ms : ℕ}

/-- The empty queue. -/
def init (a : ℕ → α) (ms : ℕ) (h : 2 ≤ ms) : Queue α ms := ⟨Ring.init a ms, Ring.wf_init a h, rfl⟩

def enQueue (q : Queue α ms) (x : α) : Queue α ms :=
  ⟨q.ring.enQueue x, q.wf.enQueue x, (Ring.maxSize_enQueue q.ring x).trans q.maxSize⟩

/-- The element removed, if any, and the rest. -/
def outQueue (q : Queue α ms) : Option α × Queue α ms :=
  (q.ring.outQueue.1,
    ⟨q.ring.outQueue.2, q.wf.outQueue, (Ring.maxSize_outQueue q.ring).trans q.maxSize⟩)

def empty (q : Queue α ms) : Bool := q.ring.empty

def toList (q : Queue α ms) : List α := q.ring.toList

/-- No further element is taken. -/
def Full (q : Queue α ms) : Prop := q.toList.length + 1 = ms

instance (q : Queue α ms) : Decidable q.Full := inferInstanceAs (Decidable (_ = _))

@[simp] theorem toList_init (a : ℕ → α) (h : 2 ≤ ms) : (init a ms h).toList = [] :=
  Ring.toList_init a ms

theorem length_lt (q : Queue α ms) : q.toList.length < ms := by
  rw [toList, Ring.length_toList]
  exact lt_of_lt_of_eq q.wf.size_lt q.maxSize

theorem toList_enQueue (q : Queue α ms) (x : α) :
    (q.enQueue x).toList = if q.Full then q.toList else q.toList ++ [x] := by
  have h := q.wf.toList_enQueue x
  rw [q.maxSize, ← Ring.length_toList] at h
  exact h

theorem toList_enQueue_full {q : Queue α ms} (h : q.Full) (x : α) :
    (q.enQueue x).toList = q.toList := by
  rw [toList_enQueue, if_pos h]

theorem toList_enQueue_room {q : Queue α ms} (h : ¬ q.Full) (x : α) :
    (q.enQueue x).toList = q.toList ++ [x] := by
  rw [toList_enQueue, if_neg h]

@[simp] theorem outQueue_fst (q : Queue α ms) : q.outQueue.1 = q.toList.head? :=
  q.wf.toList_outQueue.1

@[simp] theorem toList_outQueue (q : Queue α ms) : q.outQueue.2.toList = q.toList.tail :=
  q.wf.toList_outQueue.2

@[simp] theorem empty_iff (q : Queue α ms) : q.empty = true ↔ q.toList = [] := q.wf.empty_iff

/-- Of several elements as many are taken as there is room for. -/
theorem toList_foldl_enQueue (xs : List α) (q : Queue α ms) :
    (xs.foldl enQueue q).toList = q.toList ++ xs.take (ms - 1 - q.toList.length) := by
  induction xs generalizing q with
  | nil => rw [List.foldl_nil, List.take_nil, List.append_nil]
  | cons x xs ih =>
    have hlt := q.length_lt
    rw [List.foldl_cons, ih, toList_enQueue]
    split_ifs with hf
    · have hroom : ms - 1 - q.toList.length = 0 := by
        rw [Full] at hf
        omega
      rw [hroom, List.take_zero, List.take_zero]
    · obtain ⟨k, hk⟩ : ∃ k, ms - 1 - q.toList.length = k + 1 := by
        rw [Full] at hf
        exact ⟨ms - 1 - q.toList.length - 1, by omega⟩
      have hk' : ms - 1 - (q.toList ++ [x]).length = k := by
        rw [List.length_append, List.length_singleton]
        omega
      rw [hk, hk', List.take_succ_cons, List.append_assoc, List.singleton_append]

/-- An element in the queue stays there when another is offered. -/
theorem mem_enQueue_of_mem {q : Queue α ms} {x y : α} (h : y ∈ q.toList) :
    y ∈ (q.enQueue x).toList := by
  rw [toList_enQueue]
  split_ifs
  · exact h
  · exact List.mem_append_left _ h

end Queue

end GndCtrl
