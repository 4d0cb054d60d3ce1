/-
  The record rings between the sensor interrupt and the main loop.

  `gnd2WcsIntervalQueue` and `gndstatequeue` are filled by `EXTI4_IRQHandler`
  and read by the main loop through the pointers that `pxGetMsgFromIntervalQueue`
  and `pxGetMsgFromStateQueue` return.  Both are readers of a ring: the first
  looks at the pointer (`intervalReader`), the second relies on
  `IsGnd2WcsStateQueueFree` (`stateReader`).

  `records_safe` holds for every placement of the interrupts between the
  statements of the main loop.  `interval_taken` and `cmd_taken` say that
  without interrupts the statements are the encoders of the firmware.
-/
import GndCtrl.Main
import GndCtrl.Lib.Reader

namespace GndCtrl

variable {F : Type}

/-- `pxGetMsgFromIntervalQueue` in `send_msg_gndctrl2wcs_cmd_interval_data`. -/
abbrev intervalReader : Reader IntervalData → ReaderEvent IntervalData → Reader IntervalData :=
  Reader.step false

/-- `IsGnd2WcsStateQueueFree` in `send_message_to_sever`, then
    `pxGetMsgFromStateQueue` in `send_msg_gndctrl2wcs_cmd`. -/
abbrev stateReader : Reader StateNode → ReaderEvent StateNode → Reader StateNode :=
  Reader.step true

/-- `InitGnd2WcsIntervalQueue` -/
def intervalStart : Reader IntervalData := .init (fun _ => ⟨0, 0, 0⟩) intervalQueueLen

/-- `InitGnd2WcsStateQueue` -/
def stateStart : Reader StateNode := .init (fun _ => ⟨0, 0, 0⟩) gndStateLen

/-- What the main loop relies on; `tests` is whether it tests for emptiness before the call. -/
structure RecordsSafe {α : Type} (tests : Bool) (s : Reader α) : Prop where
  /-- every read through a pointer sees the oldest record of its time -/
  reads : s.Safe
  /-- the accepted records are those taken and those in the ring, in order -/
  kept : s.accepted = s.accepted.take s.taken ++ s.ring.toList
  /-- the pointer that is held leads to the slot at `front` -/
  pointer : ∀ i, s.pc = .hold i → 0 < s.taken ∧ i = s.ring.front
  /-- the slot keeps the last record taken until `front` moves on -/
  behind : 0 < s.taken → s.accepted[s.taken - 1]? = some (s.ring.queue s.ring.front)
  /-- a caller that does not look at the pointer gets one -/
  null : ∀ r ∈ s.seen, r.2 ≠ none
  /-- the four statements of a call, with calls of the interrupt and reads in between, come to a
      pointer to the oldest record not yet taken, which is then taken -/
  obtains : ∀ x, s.pc = .idle → s.accepted[s.taken]? = some x →
    ∀ es : List (ReaderEvent α), es.countP ReaderEvent.isNext = 4 →
      let s' := run (Reader.step tests) s es
      ∃ i, s'.pc = .hold i ∧ s'.ring.queue i = x ∧ s'.taken = s.taken + 1

theorem Reader.Inv.recordsSafe {α : Type} {tests : Bool} {s : Reader α} (h : s.Inv tests) :
    RecordsSafe tests s := by
  refine ⟨h.safe, ?_, h.hold, h.last, fun r hr hn => ?_, fun x hp hx es hes => ?_⟩
  · rw [h.pending, List.take_append_drop]
  · obtain ⟨x, hx, -⟩ := h.safe r hr
    rw [hn] at hx
    cases hx
  · obtain ⟨hlt, rfl⟩ := List.getElem?_eq_some_iff.1 hx
    have hf : Reader.Fetching s.accepted[s.taken] s.taken s 0 :=
      .idle hp (by rw [h.pending, List.drop_eq_getElem_cons hlt]) rfl
    have hfetch := h.obtains hf (by rw [hes])
    rw [hes] at hfetch
    cases hfetch with
    | hold hp' hx' ht' => exact ⟨_, hp', hx', ht'⟩

/-- **The record rings are safe** for every placement of complete calls of the
    interrupt between the statements and the reads of the main loop: the main loop
    obtains the oldest record, and keeps it while it holds the pointer. -/
theorem records_safe (es : List (ReaderEvent IntervalData)) (es' : List (ReaderEvent StateNode)) :
    RecordsSafe false (run intervalReader intervalStart es) ∧
      RecordsSafe true (run stateReader stateStart es') :=
  ⟨(Reader.inv_run false _ (by decide) es).recordsSafe,
    (Reader.inv_run true _ (by decide) es').recordsSafe⟩

/-! ## The encoders of the firmware -/

/-- The statements up to the pointer. -/
abbrev fetch {α : Type} : List (ReaderEvent α) := [.next, .next, .next, .next]

theorem empty_eq_false {α : Type} {n : ℕ} {q : Queue α n} (h : q.toList ≠ []) :
    q.ring.empty = false := by
  rw [← Bool.not_eq_true]
  exact fun he => h ((Queue.empty_iff q).1 he)

/-- The node behind the pointer is the one `sendMsgGndctrl2wcsCmd` encodes. -/
theorem cmd_taken (buf : Mem) (type : U16) (s : Sys F) (a : List StateNode) (n : ℕ)
    (h : s.msg.gndstatequeue.toList ≠ []) :
    let r := run stateReader ⟨s.msg.gndstatequeue.ring, .idle, a, n, []⟩ fetch
    ∃ i s', r.pc = .hold i ∧
      sendMsgGndctrl2wcsCmd buf type s = some (encode (cmdPayload (r.ring.queue i)) buf type, s') ∧
      s'.msg.gndstatequeue.ring = r.ring := by
  intro r
  obtain ⟨hring, i, hi, hx⟩ := Reader.next_alone true
    (s := ⟨s.msg.gndstatequeue.ring, .idle, a, n, []⟩) rfl (empty_eq_false h)
  have hq : s.msg.gndstatequeue.outQueue.1 = some (r.ring.queue i) := hx
  obtain ⟨⟨e, s'⟩, hs⟩ : ∃ x, sendMsgGndctrl2wcsCmd buf type s = some x := by
    rw [sendMsgGndctrl2wcsCmd, hq]
    exact ⟨_, rfl⟩
  refine ⟨i, s', hi, ?_, ?_⟩
  · rw [hs]
    simp only [sendMsgGndctrl2wcsCmd, hq, Option.map_some, Option.some.injEq, Prod.mk.injEq] at hs
    rw [hs.1]
  · simp only [sendMsgGndctrl2wcsCmd, hq, Option.map_some, Option.some.injEq, Prod.mk.injEq] at hs
    rw [← hs.2]
    exact hring.symm

/-- The record behind the pointer is the one `sendMsgGndctrl2wcsCmdIntervalData`
    encodes. -/
theorem interval_taken (buf : Mem) (len : ℕ) (type : U16) (s : Sys F) (a : List IntervalData)
    (n : ℕ) (h : s.msg.gnd2WcsIntervalQueue.toList ≠ []) :
    let r := run intervalReader ⟨s.msg.gnd2WcsIntervalQueue.ring, .idle, a, n, []⟩ fetch
    ∃ i, r.pc = .hold i ∧
      (sendMsgGndctrl2wcsCmdIntervalData buf len type s).1 =
        encode (intervalPayload (r.ring.queue i)) buf type ∧
      (sendMsgGndctrl2wcsCmdIntervalData buf len type s).2.msg.carfunint = r.ring.queue i ∧
      (sendMsgGndctrl2wcsCmdIntervalData buf len type s).2.msg.gnd2WcsIntervalQueue.ring =
        r.ring := by
  intro r
  obtain ⟨hring, i, hi, hx⟩ := Reader.next_alone false
    (s := ⟨s.msg.gnd2WcsIntervalQueue.ring, .idle, a, n, []⟩) rfl (empty_eq_false h)
  have hq : s.msg.gnd2WcsIntervalQueue.outQueue.1 = some (r.ring.queue i) := hx
  refine ⟨i, hi, ?_⟩
  obtain ⟨⟨e, s'⟩, hs⟩ : ∃ x, sendMsgGndctrl2wcsCmdIntervalData buf len type s = x := ⟨_, rfl⟩
  rw [hs]
  simp only [sendMsgGndctrl2wcsCmdIntervalData, hq, Prod.mk.injEq] at hs
  obtain ⟨rfl, rfl⟩ := hs
  exact ⟨rfl, rfl, hring.symm⟩

end GndCtrl
