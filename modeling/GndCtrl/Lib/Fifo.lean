/-
  The bounded FIFO as a machine.

  The operations on a list of at most `cap` elements: one that adds an element,
  which is ignored when the list is full, and one that removes the oldest and
  returns it, or a default when there is none.

  A `Queue` of `ms` slots is such a list for `cap = ms - 1` (`Queue.toList_step`,
  `Queue.out_eq`).
-/
import GndCtrl.Lib.Queue

namespace GndCtrl

variable {α : Type} {ms : ℕ}

/-- An operation on a queue. -/
inductive QueueOp (α : Type) where
  | enQueue (x : α)
  | outQueue

/-- The list after an operation. -/
def fifoStep (cap : ℕ) (l : List α) : QueueOp α → List α
  | .enQueue x => if l.length < cap then l ++ [x] else l
  | .outQueue => l.tail

/-- What the operation returns. -/
def fifoOut (d : α) (l : List α) : QueueOp α → List α
  | .enQueue _ => []
  | .outQueue => [l.headD d]

namespace Queue

/-- The queue after an operation. -/
def step (q : Queue α ms) : QueueOp α → Queue α ms
  | .enQueue x => q.enQueue x
  | .outQueue => q.outQueue.2

/-- What the operation returns. -/
def out (d : α) (q : Queue α ms) : QueueOp α → List α
  | .enQueue _ => []
  | .outQueue => [q.outQueue.1.getD d]

/-- **The content** of a queue is a bounded FIFO. -/
theorem toList_step (q : Queue α ms) (op : QueueOp α) :
    (q.step op).toList = fifoStep (ms - 1) q.toList op := by
  cases op with
  | enQueue x =>
    have hlt := q.length_lt
    have hfull : q.Full ↔ ¬ q.toList.length < ms - 1 := by
      rw [Full]
      omega
    rw [step, toList_enQueue, fifoStep]
    simp only [hfull, ite_not]
  | outQueue => exact q.toList_outQueue

theorem out_eq (d : α) (q : Queue α ms) (op : QueueOp α) : q.out d op = fifoOut d q.toList op := by
  cases op with
  | enQueue x => rfl
  | outQueue => rw [out, outQueue_fst, fifoOut, List.headD_eq_head?_getD]

end Queue

end GndCtrl
