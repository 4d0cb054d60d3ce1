/-
  The token queues (`MSG_SEND_QUEUE`: fun.c, carfun.c, carfuntwo.c,
  carfunthree.c).

  The queue functions with their array and their 16-bit indices; an access
  outside the array fails.  `Stores` relates such a queue to the `Queue` that
  the rest of the model uses, and with `Queue.toList` to a list.

  * `queue_refines_fifo` — after its initialisation a queue of any of the files
    is a bounded FIFO: no access fails, every operation returns what the FIFO
    returns, and the indices stay below `maxSize`.
-/
import GndCtrl.Main
import GndCtrl.Lib.Fifo
import GndCtrl.Lib.Simulation

namespace GndCtrl

/-! ## The queue functions -/

/-- `MSG_SEND_QUEUE` with the array that `queue` points to -/
structure MsgSendQueue where
  queue : Array U16
  front : U16
  rear : U16
  maxSize : U16

/-- `initQueue`, with the content of `msgQueueBuff` -/
def initQueue (msgQueueBuff : Array U16) (ms : U16) : MsgSendQueue :=
  { maxSize := ms, queue := msgQueueBuff, front := 0, rear := 0 }

/-- `enQueue` -/
def enQueue (q : MsgSendQueue) (x : U16) : Option MsgSendQueue :=
  if (q.rear.toNat + 1) % q.maxSize.toNat = q.front.toNat then some q
  else
    let q := { q with rear := BitVec.ofNat 16 ((q.rear.toNat + 1) % q.maxSize.toNat) }
    if q.rear.toNat < q.queue.size then
      some { q with queue := q.queue.setIfInBounds q.rear.toNat x }
    else none

/-- `outQueue` -/
def outQueue (q : MsgSendQueue) : Option (U16 × MsgSendQueue) :=
  if q.front = q.rear then some (0, q)
  else
    let q := { q with front := BitVec.ofNat 16 ((q.front.toNat + 1) % q.maxSize.toNat) }
    q.queue[q.front.toNat]?.map (·, q)

/-- `carinitQueue` -/
def carinitQueue (carQueueBuff : Array U16) (ms : U16) : MsgSendQueue := initQueue carQueueBuff ms

/-- `carenQueue` -/
def carenQueue (q : MsgSendQueue) (x : U16) : Option MsgSendQueue := enQueue q x

/-- `caroutQueue` -/
def caroutQueue (q : MsgSendQueue) : Option (U16 × MsgSendQueue) := outQueue q

/-- `cartwoinitQueue` -/
def cartwoinitQueue (cartwoQueueBuff : Array U16) (ms : U16) : MsgSendQueue :=
  initQueue cartwoQueueBuff ms

/-- `cartwoenQueue` -/
def cartwoenQueue (q : MsgSendQueue) (x : U16) : Option MsgSendQueue := enQueue q x

/-- `cartwooutQueue` -/
def cartwooutQueue (q : MsgSendQueue) : Option (U16 × MsgSendQueue) := outQueue q

/-- `carthreeinitQueue` -/
def carthreeinitQueue (carthreeQueueBuff : Array U16) (ms : U16) : MsgSendQueue :=
  initQueue carthreeQueueBuff ms

/-- `carthreeenQueue` -/
def carthreeenQueue (q : MsgSendQueue) (x : U16) : Option MsgSendQueue := enQueue q x

/-- `carthreeoutQueue` -/
def carthreeoutQueue (q : MsgSendQueue) : Option (U16 × MsgSendQueue) := outQueue q

/-- The queue functions of one source file. -/
structure QueueCode where
  init : Array U16 → U16 → MsgSendQueue
  enQueue : MsgSendQueue → U16 → Option MsgSendQueue
  outQueue : MsgSendQueue → Option (U16 × MsgSendQueue)

/-- The queue functions of fun.c, carfun.c, carfuntwo.c and carfunthree.c. -/
def queueCopies : List QueueCode :=
  [⟨initQueue, enQueue, outQueue⟩,
   ⟨carinitQueue, carenQueue, caroutQueue⟩,
   ⟨cartwoinitQueue, cartwoenQueue, cartwooutQueue⟩,
   ⟨carthreeinitQueue, carthreeenQueue, carthreeoutQueue⟩]

/-- An operation, with what it returns. -/
def QueueCode.step (c : QueueCode) (q : MsgSendQueue) :
    QueueOp U16 → Option (List U16 × MsgSendQueue)
  | .enQueue x => (c.enQueue q x).map ([], ·)
  | .outQueue => (c.outQueue q).map fun r => ([r.1], r.2)

/-- The copies do the same. -/
theorem queueCopies_eq {c : QueueCode} (hc : c ∈ queueCopies) :
    c = ⟨initQueue, enQueue, outQueue⟩ := by
  simp only [queueCopies, List.mem_cons, List.not_mem_nil, or_false] at hc
  rcases hc with rfl | rfl | rfl | rfl <;> rfl

/-! ## The ring in the array -/

/-- The queue without the bounds of its array. -/
def MsgSendQueue.ring (q : MsgSendQueue) : Ring U16 :=
  ⟨fun j => q.queue.getD j 0, q.front.toNat, q.rear.toNat, q.maxSize.toNat⟩

/-- A write at `rear`. -/
theorem MsgSendQueue.ring_write {q : MsgSendQueue} {k : U16} (hk : k.toNat < q.queue.size)
    (x : U16) : ({ q with rear := k, queue := q.queue.setIfInBounds k.toNat x }).ring =
      { q.ring with
        rear := k.toNat
        queue := fun j => if j = k.toNat then x else q.ring.queue j } := by
  have hslots : (fun j => (q.queue.setIfInBounds k.toNat x).getD j 0) =
      fun j => if j = k.toNat then x else q.queue.getD j 0 := by
    funext j
    simp only [Array.getD_eq_getD_getElem?, Array.getElem?_setIfInBounds]
    by_cases hj : j = k.toNat
    · rw [if_pos hj.symm, if_pos hk, if_pos hj]
      rfl
    · rw [if_neg (Ne.symm hj), if_neg hj]
  rw [ring, hslots]
  rfl

/-- `q` holds `Q`, in an array with its number of slots at least. -/
structure Stores {ms : ℕ} (q : MsgSendQueue) (Q : Queue U16 ms) : Prop where
  ring : q.ring = Q.ring
  room : ms ≤ q.queue.size

namespace Stores
variable {ms : ℕ} {q : MsgSendQueue} {Q : Queue U16 ms}

theorem maxSize (h : Stores q Q) : q.maxSize.toNat = ms := by
  rw [← Q.maxSize, ← h.ring]
  rfl

theorem wf (h : Stores q Q) : q.ring.WF := by
  rw [h.ring]
  exact Q.wf

theorem init {ms : U16} (h2 : 2 ≤ ms.toNat) {buff : Array U16} (hb : ms.toNat ≤ buff.size) :
    Stores (initQueue buff ms) (Queue.init (fun j => buff.getD j 0) ms.toNat h2) := ⟨rfl, hb⟩

/-- The index after `i` lies in the array. -/
theorem next (h : Stores q Q) (i : U16) :
    ∃ k : U16, BitVec.ofNat 16 ((i.toNat + 1) % q.maxSize.toNat) = k ∧
      (i.toNat + 1) % q.maxSize.toNat = k.toNat ∧ k.toNat < q.queue.size := by
  have h2 : 2 ≤ q.maxSize.toNat := h.wf.two
  have hroom : q.maxSize.toNat ≤ q.queue.size := by
    rw [h.maxSize]
    exact h.room
  have hmax := q.maxSize.isLt
  have hlt := Nat.mod_lt (i.toNat + 1) (show q.maxSize.toNat > 0 by omega)
  have hk : (BitVec.ofNat 16 ((i.toNat + 1) % q.maxSize.toNat)).toNat =
      (i.toNat + 1) % q.maxSize.toNat := by
    rw [BitVec.toNat_ofNat]
    exact Nat.mod_eq_of_lt (by omega)
  exact ⟨_, rfl, hk.symm, by omega⟩

/-- `enQueue` writes inside the array. -/
theorem enQueue (h : Stores q Q) (x : U16) :
    ∃ q', enQueue q x = some q' ∧ Stores q' (Q.enQueue x) := by
  obtain ⟨k, hk, hmod, hin⟩ := h.next q.rear
  have hfull : q.ring.full = true ↔ k.toNat = q.front.toNat := by
    rw [← hmod]
    exact beq_iff_eq
  rw [GndCtrl.enQueue, hk, hmod]
  by_cases hf : k.toNat = q.front.toNat
  · have hQ : Q.ring.enQueue x = Q.ring := by
      rw [← h.ring]
      exact if_pos (hfull.2 hf)
    exact ⟨q, if_pos hf, h.ring.trans hQ.symm, h.room⟩
  · have hQ : Q.ring.enQueue x = { q.ring with
        rear := k.toNat
        queue := fun j => if j = k.toNat then x else q.ring.queue j } := by
      rw [← h.ring, ← hmod]
      exact if_neg fun hr => hf (hfull.1 hr)
    refine ⟨{ q with rear := k, queue := q.queue.setIfInBounds k.toNat x }, ?_,
      (MsgSendQueue.ring_write hin x).trans hQ.symm, ?_⟩
    · rw [if_neg hf]
      exact if_pos hin
    · rw [Array.size_setIfInBounds]
      exact h.room

/-- `outQueue` reads inside the array, and returns 0 if there is nothing. -/
theorem outQueue (h : Stores q Q) :
    ∃ q', outQueue q = some (Q.outQueue.1.getD 0, q') ∧ Stores q' Q.outQueue.2 := by
  obtain ⟨k, hk, hmod, hin⟩ := h.next q.front
  have hempty : q.ring.empty = true ↔ q.front = q.rear := by
    rw [Ring.empty, beq_iff_eq]
    exact BitVec.toNat_inj
  rw [GndCtrl.outQueue, hk]
  by_cases he : q.front = q.rear
  · have hQ : Q.ring.outQueue = (none, Q.ring) := by
      rw [← h.ring]
      exact if_pos (hempty.2 he)
    have hout : Q.outQueue.1 = none := congrArg Prod.fst hQ
    refine ⟨q, ?_, h.ring.trans (congrArg Prod.snd hQ).symm, h.room⟩
    rw [if_pos he, hout]
    rfl
  · have hQ : Q.ring.outQueue =
        (some (q.queue.getD k.toNat 0), { q.ring with front := k.toNat }) := by
      rw [← h.ring, ← hmod]
      exact if_neg fun hr => he (hempty.1 hr)
    have hout : Q.outQueue.1 = some (q.queue.getD k.toNat 0) := congrArg Prod.fst hQ
    refine ⟨{ q with front := k }, ?_, (congrArg Prod.snd hQ).symm, h.room⟩
    rw [if_neg he, hout, Array.getD_eq_getD_getElem?]
    dsimp only
    rw [Array.getElem?_eq_getElem hin]
    rfl

end Stores

/-- The copies simulate the queue of the model. -/
theorem simulates_queue {c : QueueCode} (hc : c ∈ queueCopies) (ms : ℕ) :
    Simulates c.step Queue.step (Queue.out 0) fun q (Q : Queue U16 ms) => Stores q Q where
  step_eq := by
    obtain rfl := queueCopies_eq hc
    intro q Q op h
    cases op with
    | enQueue x =>
      obtain ⟨q', hq, h'⟩ := h.enQueue x
      refine ⟨q', ?_, h'⟩
      dsimp only [QueueCode.step]
      rw [hq]
      rfl
    | outQueue =>
      obtain ⟨q', hq, h'⟩ := h.outQueue
      refine ⟨q', ?_, h'⟩
      dsimp only [QueueCode.step]
      rw [hq]
      rfl

/-- **The token queues are bounded FIFOs.**  Over any operations no access is
    outside the array, the results are those of a FIFO for `maxSize - 1`
    elements, and the indices stay below `maxSize`. -/
theorem queue_refines_fifo {c : QueueCode} (hc : c ∈ queueCopies) {ms : U16} (h2 : 2 ≤ ms.toNat)
    {buff : Array U16} (hb : ms.toNat ≤ buff.size) (ops : List (QueueOp U16)) :
    ∃ q, tryRun c.step (c.init buff ms) ops =
        some (collect (fifoStep (ms.toNat - 1)) (fifoOut 0) [] ops, q) ∧
      q.maxSize = ms ∧ q.front < q.maxSize ∧ q.rear < q.maxSize := by
  have hsim := (simulates_queue hc ms.toNat).trans Queue.toList_step (Queue.out_eq 0)
  have hinit : c.init buff ms = initQueue buff ms := by rw [queueCopies_eq hc]
  obtain ⟨q, hq, Q, h, -⟩ := hsim.tryRun_eq ops
    ⟨_, Stores.init h2 hb, Queue.toList_init _ h2⟩
  rw [← hinit] at hq
  exact ⟨q, hq, BitVec.eq_of_toNat_eq h.maxSize, h.wf.front, h.wf.rear⟩

/-- Three elements in an array of three slots: the third is ignored. -/
theorem queue_refines_fifo_three :
    ∃ q, tryRun (QueueCode.mk carinitQueue carenQueue caroutQueue).step
        (carinitQueue (Array.replicate 3 0) 3)
        [.enQueue 1, .enQueue 2, .enQueue 3, .outQueue, .enQueue 4, .outQueue, .outQueue,
          .outQueue] = some ([1, 2, 4, 0], q) ∧
      q.maxSize = 3 ∧ q.front < q.maxSize ∧ q.rear < q.maxSize :=
  queue_refines_fifo (c := ⟨carinitQueue, carenQueue, caroutQueue⟩)
    (List.mem_cons_of_mem _ (List.mem_cons_self ..)) (by decide) (by decide)
    [.enQueue 1, .enQueue 2, .enQueue 3, .outQueue, .enQueue 4, .outQueue, .outQueue, .outQueue]

/-! ## The queues of the model -/

/-- When `main` enters its loop the queues of the model are those that the
    initialisation leaves. -/
theorem init_stores {F : Type} [CNum F] (inverterType : U8) :
    Stores (initQueue (Array.replicate 100 0) 100)
        (Sys.init inverterType : Sys F).msg.msgSendQueue ∧
      Stores (carinitQueue (Array.replicate 50 0) 50)
        (Sys.init inverterType : Sys F).cars.carSendQueue ∧
      Stores (cartwoinitQueue (Array.replicate 50 0) 50)
        (Sys.init inverterType : Sys F).cars.cartwoSendQueue ∧
      Stores (carthreeinitQueue (Array.replicate 50 0) 50)
        (Sys.init inverterType : Sys F).cars.carthreeSendQueue := by
  have hslots : ∀ n : ℕ, (fun j => (Array.replicate n (0 : U16)).getD j 0) = fun _ => 0 := by
    intro n
    funext j
    rw [Array.getD_eq_getD_getElem?, Array.getElem?_replicate]
    split_ifs <;> rfl
  have hring : ∀ ms : U16, (initQueue (Array.replicate ms.toNat 0) ms).ring =
      Ring.init (fun _ => 0) ms.toNat := by
    intro ms
    rw [initQueue, MsgSendQueue.ring, hslots]
    rfl
  exact ⟨⟨hring 100, by decide⟩, ⟨hring 50, by decide⟩, ⟨hring 50, by decide⟩,
    ⟨hring 50, by decide⟩⟩

end GndCtrl
