/-
  The schedule of the start-up.

  After a parameter message the cars that pass sensor 1 outside maintenance are
  counted: twelve in the first stage, sixty more in the second if it has a
  frequency of its own, and then the PID is handed the line.  `Stage` says which
  variables hold what after `n` cars; `Staging.car` is its step lemma, all other
  events leave it alone (`SameStaging`).
-/
import GndCtrl.Measure
import Mathlib.Data.List.Induction

namespace GndCtrl

open CNum CFloat

variable {F : Type}

/-- The cars until the PID is handed the line. -/
def startAt (second : U16) : ℕ := if second = 0 then 12 else 72

/-- After `n` cars the second stage is on. -/
def InSecond (second : U16) (n : ℕ) : Prop := second ≠ 0 ∧ 12 ≤ n ∧ n < 72

instance (second : U16) (n : ℕ) : Decidable (InSecond second n) :=
  inferInstanceAs (Decidable (_ ∧ _ ∧ _))

/-- **The schedule** after `n` cars, for the frequencies of the two stages. -/
structure Scheduled (first second : U16) (n : ℕ) (d : Drive F) : Prop where
  servo : d.servoStart = true ↔ startAt second ≤ n
  init : d.fwInitHz = if InSecond second n then second else first
  firstCnt : d.firstStageCnt < 12
  secondCnt : d.secondStageCnt < 60
  adjust : d.adjustStageFlag = true → d.servoStart = false

/-! ## The stages -/

/-- The variables of the staging after `n` cars. -/
inductive Stage (first second : U16) (n : ℕ) (d : Drive F) : Prop where
  | first (hn : n < 12) (servo : d.servoStart = false) (adjust : d.adjustStageFlag = false)
      (firstCnt : d.firstStageCnt.toNat = n) (secondCnt : d.secondStageCnt = 0)
      (init : d.fwInitHz = first)
  | second (hn : InSecond second n) (servo : d.servoStart = false)
      (adjust : d.adjustStageFlag = true) (firstCnt : d.firstStageCnt = 0)
      (secondCnt : d.secondStageCnt.toNat = n - 12) (init : d.fwInitHz = second)
  | running (hn : startAt second ≤ n) (servo : d.servoStart = true)
      (adjust : d.adjustStageFlag = false) (firstCnt : d.firstStageCnt = 0)
      (secondCnt : d.secondStageCnt = 0) (init : d.fwInitHz = first)

/-- The invariant of the start-up. -/
structure Staging (first second : U16) (n : ℕ) (d : Drive F) : Prop where
  firstHz : d.firstStageHz = first
  secondHz : d.secondStageHz = second
  stage : Stage first second n d

/-- The variables of the staging are the same. -/
structure SameStaging (s s' : Drive F) : Prop where
  servo : s'.servoStart = s.servoStart
  adjust : s'.adjustStageFlag = s.adjustStageFlag
  firstCnt : s'.firstStageCnt = s.firstStageCnt
  secondCnt : s'.secondStageCnt = s.secondStageCnt
  init : s'.fwInitHz = s.fwInitHz
  firstHz : s'.firstStageHz = s.firstStageHz
  secondHz : s'.secondStageHz = s.secondStageHz

namespace Staging
variable {first second : U16} {n : ℕ} {s s' : Drive F}

theorem scheduled (h : Staging first second n s) : Scheduled first second n s := by
  cases h.stage with
  | first hn hs ha hc hc' hi =>
    have hlt : ¬ startAt second ≤ n := by
      rw [startAt]
      split_ifs <;> omega
    refine ⟨by simp [hs, hlt], ?_, ?_, ?_, fun _ => hs⟩
    · rw [hi, if_neg (fun h => by have := h.2.1; omega)]
    · rw [BitVec.lt_def, hc]
      exact hn
    · rw [hc']
      decide
  | second hn hs ha hc hc' hi =>
    have hlt : ¬ startAt second ≤ n := by
      rw [startAt, if_neg hn.1]
      have := hn.2.2
      omega
    refine ⟨by simp [hs, hlt], by rw [hi, if_pos hn], ?_, ?_, fun _ => hs⟩
    · rw [hc]
      decide
    · rw [BitVec.lt_def, hc']
      have := hn.2
      change n - 12 < 60
      omega
  | running hn hs ha hc hc' hi =>
    have hout : ¬ InSecond second n := by
      rintro ⟨h0, -, hlt⟩
      rw [startAt, if_neg h0] at hn
      omega
    refine ⟨by simp [hs, hn], by rw [hi, if_neg hout], ?_, ?_, fun ha' => ?_⟩
    · rw [hc]
      decide
    · rw [hc']
      decide
    · rw [ha] at ha'
      exact absurd ha' Bool.false_ne_true

theorem same (h : Staging first second n s) (hs : SameStaging s s') :
    Staging first second n s' := by
  refine ⟨hs.firstHz.trans h.firstHz, hs.secondHz.trans h.secondHz, ?_⟩
  cases h.stage with
  | first hn hv ha hc hc' hi =>
    exact .first hn (hs.servo.trans hv) (hs.adjust.trans ha) (by rw [hs.firstCnt, hc])
      (hs.secondCnt.trans hc') (hs.init.trans hi)
  | second hn hv ha hc hc' hi =>
    exact .second hn (hs.servo.trans hv) (hs.adjust.trans ha) (hs.firstCnt.trans hc)
      (by rw [hs.secondCnt, hc']) (hs.init.trans hi)
  | running hn hv ha hc hc' hi =>
    exact .running hn (hs.servo.trans hv) (hs.adjust.trans ha) (hs.firstCnt.trans hc)
      (hs.secondCnt.trans hc') (hs.init.trans hi)

/-- One more car before the PID is handed the line. -/
theorem car (h : Staging first second n s) (hs : s.servoStart = false) :
    Staging first second (n + 1) (GndCtrl.stage s) := by
  cases h.stage with
  | first hn hv ha hc hc' hi =>
    have hsucc : (s.firstStageCnt + 1).toNat = n + 1 := by
      rw [BitVec.toNat_add, hc]
      simp
      omega
    by_cases hlast : n = 11
    · -- the twelfth car ends the first stage
      have hcnt : s.firstStageCnt = 11 := by
        rw [← BitVec.toNat_inj, hc, hlast]
        rfl
      rw [stage_last ha hcnt]
      split_ifs with hz <;> rw [h.secondHz] at hz
      · exact ⟨h.firstHz, h.secondHz, .running (by rw [startAt, if_pos hz]; omega) rfl ha rfl hc' hi⟩
      · exact ⟨h.firstHz, h.secondHz, .second ⟨hz, by omega, by omega⟩ hv rfl rfl
          (by rw [hc']; simp; omega) h.secondHz⟩
    · have hmore : ¬ s.firstStageCnt + 1 ≥ 12 := by
        rw [ge_iff_le, BitVec.le_def, hsucc]
        change ¬ 12 ≤ n + 1
        omega
      simp only [GndCtrl.stage, if_pos ha, if_neg hmore]
      exact ⟨h.firstHz, h.secondHz, .first (by omega) hv ha hsucc hc' hi⟩
  | second hn hv ha hc hc' hi =>
    have hsucc : (s.secondStageCnt + 1).toNat = n - 12 + 1 := by
      have := hn.2.2
      rw [BitVec.toNat_add, hc']
      simp
      omega
    have hna : ¬ s.adjustStageFlag = false := by simp [ha]
    by_cases hlast : n = 71
    · -- the last car of the second stage
      have hmax : s.secondStageCnt + 1 ≥ 60 := by
        rw [ge_iff_le, BitVec.le_def, hsucc, hlast]
        decide
      simp only [GndCtrl.stage, if_neg hna, if_pos hmax]
      exact ⟨h.firstHz, h.secondHz,
        .running (by rw [startAt, if_neg hn.1]; omega) rfl rfl hc rfl h.firstHz⟩
    · have hmore : ¬ s.secondStageCnt + 1 ≥ 60 := by
        rw [ge_iff_le, BitVec.le_def, hsucc]
        change ¬ 60 ≤ n - 12 + 1
        have := hn.2
        omega
      simp only [GndCtrl.stage, if_neg hna, if_neg hmore]
      have hcnt : (s.secondStageCnt + 1).toNat = n + 1 - 12 := by
        have := hn.2.1
        omega
      have := hn.2
      exact ⟨h.firstHz, h.secondHz, .second ⟨hn.1, by omega, by omega⟩ hv ha hc hcnt hi⟩
  | running hn hv ha hc hc' hi => rw [hv] at hs; exact absurd hs (by decide)

/-- Once the PID has the line, cars are not counted. -/
theorem more (h : Staging first second n s) (hs : s.servoStart = true) :
    Staging first second (n + 1) s := by
  cases h.stage with
  | first hn hv => rw [hv] at hs; exact absurd hs (by decide)
  | second hn hv => rw [hv] at hs; exact absurd hs (by decide)
  | running hn hv ha hc hc' hi =>
    exact ⟨h.firstHz, h.secondHz, .running (by omega) hv ha hc hc' hi⟩

end Staging

/-! ## Events -/

variable {D : Type} [CNum F] [CNum D] [CFloat F D]

/-- The cars that the start-up counts: sensor 1 outside maintenance. -/
def counted (s : Drive F) : Event F → List U16
  | .sensor1 tim2 => if s.repairFlag then [] else [tim2]
  | _ => []

/-- Events other than a counted car leave the staging alone. -/
theorem sameStaging_step (s : Drive F) {e : Event F} (he : ∀ m, e ≠ .para m)
    (hc : counted s e = []) : SameStaging s (s.step e) := by
  cases e with
  | para m => exact absurd rfl (he m)
  | repair m =>
    obtain h | h := recvRepair_cases m s <;> rw [Drive.step, h] <;>
      exact ⟨rfl, rfl, rfl, rfl, rfl, rfl, rfl⟩
  | sensor1 tim2 =>
    have hr : s.repairFlag = true := by
      cases hr : s.repairFlag with
      | true => rfl
      | false => simp [counted, hr] at hc
    rw [Drive.step, sensor1_eq, if_pos hr]
    obtain h | ⟨v, r, h⟩ := repairLocationCtrl_cases { s with carNo := s.carNo + 1 } <;> rw [h] <;>
      exact ⟨rfl, rfl, rfl, rfl, rfl, rfl, rfl⟩
  | sensor2 tim2 =>
    rw [Drive.step]
    cases h : s.accepted tim2 with
    | none =>
      obtain ⟨u, x, t, hs, -⟩ := sensor2_rejected h
      rw [hs]
      exact ⟨rfl, rfl, rfl, rfl, rfl, rfl, rfl⟩
    | some cnt =>
      rw [sensor2_accepted h]
      cases hv : s.servoStart with
      | true => exact ⟨hv.symm ▸ hv, rfl, rfl, rfl, rfl, rfl, rfl⟩
      | false => exact ⟨hv.symm ▸ hv, rfl, rfl, rfl, rfl, rfl, rfl⟩
  | carReset => exact ⟨rfl, rfl, rfl, rfl, rfl, rfl, rfl⟩
  | second =>
    obtain h | h := second_cases s <;> rw [Drive.step, h] <;>
      exact ⟨rfl, rfl, rfl, rfl, rfl, rfl, rfl⟩
  | tim2Update =>
    obtain ⟨-, h⟩ | ⟨-, h⟩ := tim2Update_cases s <;> rw [Drive.step, h] <;>
      exact ⟨rfl, rfl, rfl, rfl, rfl, rfl, rfl⟩
  | recordSent u => exact ⟨rfl, rfl, rfl, rfl, rfl, rfl, rfl⟩

theorem staging_step {first second : U16} {n : ℕ} {s : Drive F} {e : Event F}
    (h : Staging first second n s) (he : ∀ m, e ≠ .para m) :
    Staging first second (n + (counted s e).length) (s.step e) := by
  by_cases hc : counted s e = []
  · rw [hc]
    exact h.same (sameStaging_step s he hc)
  · obtain ⟨tim2, rfl⟩ : ∃ tim2, e = .sensor1 tim2 := by
      cases e <;> simp [counted] at hc ⊢
    have hr : s.repairFlag = false := by
      simpa [counted] using hc
    have hlen : (counted s (.sensor1 tim2)).length = 1 := by simp [counted, hr]
    have hcar : Staging first second n { s with carNo := s.carNo + 1 } :=
      h.same ⟨rfl, rfl, rfl, rfl, rfl, rfl, rfl⟩
    rw [hlen, Drive.step, sensor1_eq, if_neg (by simp [hr]), pass]
    split_ifs with hv
    · exact (hcar.car hv).same ⟨rfl, rfl, rfl, rfl, rfl, rfl, rfl⟩
    · exact (hcar.more (by simpa using hv)).same ⟨rfl, rfl, rfl, rfl, rfl, rfl, rfl⟩

theorem staging_recvPara (m : ParaData F) (s : Drive F) :
    Staging (recvPara m s).firstStageHz (recvPara m s).secondStageHz 0 (recvPara m s) :=
  ⟨rfl, rfl, .first (by decide) rfl rfl rfl rfl rfl⟩

/-- Before the PID has the line no step calls it. -/
theorem newCalls_starting {s : Drive F} (hv : s.servoStart = false) (e : Event F) :
    newCalls s e = [] := by
  by_cases he : ∃ tim2, e = .sensor2 tim2
  · obtain ⟨tim2, rfl⟩ := he
    rw [newCalls_sensor2, if_neg (by simp [hv])]
  · exact newCalls_other s fun tim2 h => he ⟨tim2, h⟩

/-- Before the PID has the line an event of sensor 2 outputs nothing. -/
theorem sensor2_starting {s : Drive F} (hv : s.servoStart = false) (tim2 : U16) :
    (s.step (.sensor2 tim2)).rs485 = s.rs485 := by
  have hn : ¬ s.servoStart = true := by simp [hv]
  rw [Drive.step]
  cases h : s.accepted tim2 with
  | none =>
    obtain ⟨u, x, t, hs, -⟩ := sensor2_rejected h
    rw [hs]
  | some cnt =>
    rw [sensor2_accepted h]
    simp only [if_neg hn]

/-- **The start-up keeps its schedule.**  After a parameter message and any events
    without another one, the variables are those of the number of cars counted.
    Up to the car that gives it the line, the PID has not been called, its
    variables are those that the message left, and sensor 2 outputs nothing. -/
theorem staging_schedule (m : ParaData F) (s : Drive F) {es : List (Event F)}
    (hes : ∀ e ∈ es, ∀ m', e ≠ .para m') :
    let s' := s.step (.para m)
    let d := run Drive.step s' es
    Scheduled s'.firstStageHz s'.secondStageHz (collect Drive.step counted s' es).length d ∧
      (d.servoStart = false → d.calls = s'.calls ∧ d.pid = s'.pid ∧
        ∀ tim2, (d.step (.sensor2 tim2)).rs485 = d.rs485) := by
  intro s'
  have hrun : Staging s'.firstStageHz s'.secondStageHz (collect Drive.step counted s' es).length
      (run Drive.step s' es) ∧
      ((run Drive.step s' es).servoStart = false →
        (run Drive.step s' es).calls = s'.calls ∧ (run Drive.step s' es).pid = s'.pid) := by
    induction es using List.reverseRecOn with
    | nil => exact ⟨staging_recvPara m s, fun _ => ⟨rfl, rfl⟩⟩
    | append_singleton es e ih =>
      obtain ⟨hst, hpid⟩ := ih fun e he => hes e (List.mem_append_left _ he)
      have hpara := hes e (by simp)
      have hnext := staging_step hst hpara
      simp only [run_append, collect_append, collect, List.append_nil, run_cons, run_nil,
        List.length_append]
      refine ⟨hnext, fun hv => ?_⟩
      -- the line is not taken back, so the PID did not have it before either
      have hbefore : (run Drive.step s' es).servoStart = false := by
        rw [← Bool.not_eq_true, hst.scheduled.servo]
        rw [← Bool.not_eq_true, hnext.scheduled.servo] at hv
        omega
      obtain ⟨hcalls, hp⟩ := hpid hbefore
      have hnew := newCalls_starting hbefore e
      rw [step_pid _ hpara, step_newCalls, hnew, hcalls, hp]
      exact ⟨List.append_nil _, rfl⟩
  exact ⟨hrun.1.scheduled, fun hv => ⟨(hrun.2 hv).1, (hrun.2 hv).2, sensor2_starting hv⟩⟩

/-- Twelve cars after a message with 30 Hz for the second stage. -/
theorem staging_second_stage :
    let m : ParaData Num := ⟨[], .fin 0, .fin 0, 0, 0, 0, .fin 1, 2000, 75000, 3000⟩
    let d := run Drive.step ((Drive.init 0).step (.para m)) (List.replicate 12 (.sensor1 0))
    d.fwInitHz = 3000 ∧ d.servoStart = false := by
  intro m d
  have hes : ∀ e ∈ List.replicate 12 (Event.sensor1 0 : Event Num), ∀ m', e ≠ .para m' := by
    intro e he m' h
    rw [List.eq_of_mem_replicate he] at h
    cases h
  obtain ⟨h, -⟩ := staging_schedule m (Drive.init 0) hes
  have hn : (collect Drive.step counted ((Drive.init 0).step (.para m))
      (List.replicate 12 (.sensor1 0))).length = 12 := by decide +kernel
  have hservo : ¬ startAt 3000 ≤ 12 := by decide
  rw [hn] at h
  exact ⟨h.init, by rw [← Bool.not_eq_true, h.servo]; exact hservo⟩

end GndCtrl
