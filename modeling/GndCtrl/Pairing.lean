/-
  Which events of the sensors a measurement pairs.

  A measurement is armed by sensor 1 and taken by sensor 2.  In maintenance mode
  `TIM_EXTI_Process` returns at once, so an event of a sensor leaves a measurement
  armed that began before the maintenance, and the next event of sensor 2 outside
  maintenance takes it.  `Armed` is the invariant: an armed measurement was armed
  by the last event of the sensors, unless that event came in maintenance.
-/
import GndCtrl.Measure
import Mathlib.Data.List.Induction

namespace GndCtrl

open CNum CFloat

variable {F : Type}

/-- An event of a sensor, with the counter of TIM2 and whether it came in
    maintenance mode. -/
structure Seen where
  sensor1 : Bool
  tim2 : U16
  maintenance : Bool
  deriving DecidableEq

/-- The events of the sensors among the events. -/
def seen (s : Drive F) : Event F → List Seen
  | .sensor1 tim2 => [⟨true, tim2, s.repairFlag⟩]
  | .sensor2 tim2 => [⟨false, tim2, s.repairFlag⟩]
  | _ => []

/-- A measurement is armed by the last event of the sensors, unless that event
    came in maintenance. -/
def Armed (s : Drive F) (last : Option Seen) : Prop :=
  s.extid = 1 → ∃ e, last = some e ∧ (e.maintenance = false → e = ⟨true, s.timCnt, false⟩)

theorem Armed.same {s s' : Drive F} {last : Option Seen} (h : Armed s last) (hs : SameTimer s s') :
    Armed s' last := by
  intro he
  rw [hs.timCnt]
  exact h (hs.extid.symm.trans he)

variable {D : Type} [CNum F] [CNum D] [CFloat F D]

/-- The last event of a sensor in a run. -/
def lastSeen (s : Drive F) (es : List (Event F)) : Option Seen :=
  (collect Drive.step seen s es).getLast?

/-- `P` holds of the events before every accepted measurement of the run, which is
    an event of sensor 2 that stores a count. -/
def AtAccepted (P : List (Event F) → Prop) (s : Drive F) (es : List (Event F)) : Prop :=
  ∀ es₁ tim2 es₂, es = es₁ ++ .sensor2 tim2 :: es₂ →
    ((run Drive.step s es₁).step (.sensor2 tim2)).speeds ≠ (run Drive.step s es₁).speeds → P es₁

/-- The last event before was one of sensor 1, and its counter value is the one
    that the measurement uses. -/
def Adjacent (s : Drive F) (es : List (Event F)) : Prop :=
  lastSeen s es = some ⟨true, (run Drive.step s es).timCnt, false⟩

/-- The last event before did not come in maintenance mode. -/
def LastNoticed (s : Drive F) (es : List (Event F)) : Prop :=
  ∃ e, lastSeen s es = some e ∧ e.maintenance = false

theorem armed_sensor1 (s : Drive F) (tim2 : U16) :
    Armed (s.step (.sensor1 tim2)) (some ⟨true, tim2, s.repairFlag⟩) := by
  intro _
  refine ⟨_, rfl, fun hr => ?_⟩
  have hr : s.repairFlag = false := hr
  rw [Drive.step, sensor1_eq, if_neg (by rw [hr]; exact Bool.false_ne_true), hr]
  rfl

theorem armed_sensor2 (s : Drive F) (tim2 : U16) :
    Armed (s.step (.sensor2 tim2)) (some ⟨false, tim2, s.repairFlag⟩) := by
  intro he
  refine ⟨_, rfl, fun hr => ?_⟩
  have hr : s.repairFlag = false := hr
  exact absurd he (sensor2_disarmed hr tim2)

theorem armed_step {s : Drive F} {last : Option Seen} (h : Armed s last) (e : Event F) :
    Armed (s.step e) ((seen s e).getLast?.or last) := by
  cases e with
  | sensor1 tim2 => exact armed_sensor1 s tim2
  | sensor2 tim2 => exact armed_sensor2 s tim2
  | tim2Update =>
    obtain ⟨-, e⟩ | ⟨-, e⟩ := tim2Update_cases s <;> rw [Drive.step, e]
    · exact h
    · have h0 : (0 : U16) ≠ 1 := by decide
      exact fun he => absurd he h0
  | para m => exact h.same (sameTimer_step (s := s) (e := .para m) False.elim rfl)
  | repair m => exact h.same (sameTimer_step (s := s) (e := .repair m) False.elim rfl)
  | carReset => exact h.same (sameTimer_step (s := s) (e := .carReset) False.elim rfl)
  | second => exact h.same (sameTimer_step (s := s) (e := .second) False.elim rfl)
  | recordSent u => exact h.same (sameTimer_step (s := s) (e := .recordSent u) False.elim rfl)

theorem armed_run {s : Drive F} (hs : s.extid ≠ 1) (es : List (Event F)) :
    Armed (run Drive.step s es) (lastSeen s es) := by
  induction es using List.reverseRecOn with
  | nil => exact fun he => absurd he hs
  | append_singleton es e ih =>
    have h := armed_step ih e
    rw [run_append, lastSeen, collect_append, List.getLast?_append]
    simp only [collect, List.append_nil, run_cons, run_nil]
    exact h

/-- **Adjacent sensors.**  Every accepted measurement pairs the last event of the
    sensors before it, one of sensor 1, if and only if none of these events came
    in maintenance mode. -/
theorem adjacent_iff (ty : U8) (es : List (Event F)) :
    AtAccepted (Adjacent (Drive.init ty)) (Drive.init ty) es ↔
      AtAccepted (LastNoticed (Drive.init ty)) (Drive.init ty) es := by
  constructor
  · intro h es₁ tim2 es₂ hes hacc
    exact ⟨_, h es₁ tim2 es₂ hes hacc, rfl⟩
  · intro h es₁ tim2 es₂ hes hacc
    have he : (run Drive.step (Drive.init ty) es₁).extid = 1 := by
      cases hcnt : (run Drive.step (Drive.init ty) es₁).accepted tim2 with
      | none => exact absurd (sensor2_unmeasured hcnt).speeds hacc
      | some cnt => exact (accepted_eq_some.1 hcnt).1.2.1
    obtain ⟨e, hlast, hm⟩ := h es₁ tim2 es₂ hes hacc
    obtain ⟨e', hlast', he'⟩ := armed_run (s := Drive.init ty) (by simp [Drive.init]) es₁ he
    rw [hlast, Option.some.injEq] at hlast'
    subst hlast'
    rw [Adjacent, hlast, he' hm]

/-- A car that passes sensor 1 in maintenance, and sensor 2 after it, is measured
    from the car before it. -/
theorem adjacent_missed : ¬ ∀ es : List (Event Num),
    AtAccepted (Adjacent (Drive.init 0)) (Drive.init 0) es := by
  intro h
  have h2 := h [.sensor1 1000, .repair ⟨[], 1, 1, 100, 0, 0⟩, .sensor1 30000,
    .para ⟨[], .fin 0, .fin 0, 0, 0, 0, .fin 0, 0, 0, 0⟩, .sensor2 31000]
    [.sensor1 1000, .repair ⟨[], 1, 1, 100, 0, 0⟩, .sensor1 30000,
      .para ⟨[], .fin 0, .fin 0, 0, 0, 0, .fin 0, 0, 0, 0⟩] 31000 [] rfl (by decide +kernel)
  rw [Adjacent] at h2
  exact absurd h2 (by decide +kernel)

end GndCtrl
