/-
  What the sensor interrupts do to the drive.

  `sensor1_eq`, `sensor2_eq` and `measure_cases` say everything an event of a
  sensor can do, and `…_cases` what the other events do; the invariants of the
  drive are proved from them.  Sensor 1 never runs the PID: it stages the start-up
  or steers to the maintenance position, and arms the measurement that sensor 2
  takes.

  `run_staging` follows the first stage of the start-up: twelve cars after an
  accepted parameter message the second stage begins with its own frequency,
  or the PID is handed the line.
-/
import GndCtrl.Drive

namespace GndCtrl

open CNum CFloat

variable {F : Type}

/-! ## Outputs -/

@[simp] theorem rs485Out_rs485 (v : ℤ) (s : Drive F) : (rs485Out v s).rs485 = s.rs485 ++ [v] := rfl

@[simp] theorem rs485Out_pid (v : ℤ) (s : Drive F) : (rs485Out v s).pid = s.pid := rfl

@[simp] theorem rs485Out_repairFlag (v : ℤ) (s : Drive F) :
    (rs485Out v s).repairFlag = s.repairFlag := rfl

/-! ## The other events -/

/-- Steering puts out a frequency, and may end the maintenance. -/
theorem repairLocationCtrl_cases (s : Drive F) :
    repairLocationCtrl s = s ∨
      ∃ v r, repairLocationCtrl s = rs485Out v { s with repairFlag := r } := by
  simp only [repairLocationCtrl]
  split_ifs
  · exact .inl rfl
  · exact .inr ⟨_, s.repairFlag, rfl⟩
  · exact .inr ⟨_, s.repairFlag, rfl⟩
  · exact .inr ⟨_, s.repairFlag, rfl⟩
  · exact .inr ⟨_, false, rfl⟩

/-- A maintenance message sets the target; it puts out a frequency or there is
    nothing to do. -/
theorem recvRepair_cases (m : RepairCarCmdData) (s : Drive F) :
    let s' := { s with repairCarCmdData := m, repairLocateReal := repairTarget m }
    recvRepair m s = rs485Out m.standardHz.toNat { s' with repairFlag := true } ∨
      recvRepair m s = { s' with repairFlag := false } := by
  simp only [recvRepair, repairCarParaInit]
  split_ifs
  · exact .inl rfl
  · exact .inr rfl
  · exact .inl rfl

theorem second_cases (s : Drive F) :
    second s = s ∨ second s = rs485Out s.fwInitHz.toNat s := by
  simp only [second]
  split_ifs
  · exact .inr rfl
  · exact .inl rfl

/-- An overflow of TIM2 is counted, or disarms the measurement. -/
theorem tim2Update_cases (s : Drive F) :
    (s.timUpdates + 1 < 0xFFFF ∧ tim2Update s = { s with timUpdates := s.timUpdates + 1 }) ∨
      (0xFFFF ≤ s.timUpdates + 1 ∧
        tim2Update s = { s with timUpdates := 0, extid := 0, timCnt := 0 }) := by
  by_cases h : s.timUpdates + 1 ≥ 0xFFFF
  · exact .inr ⟨h, by simp only [tim2Update, if_pos h]⟩
  · exact .inl ⟨BitVec.not_le.1 h, by simp only [tim2Update, if_neg h]⟩

/-! ## Sensor 1 -/

@[simp] theorem stage_repairFlag (s : Drive F) : (stage s).repairFlag = s.repairFlag := by
  simp only [stage]; split_ifs <;> rfl

@[simp] theorem stage_rs485 (s : Drive F) : (stage s).rs485 = s.rs485 := by
  simp only [stage]; split_ifs <;> rfl

@[simp] theorem stage_pid (s : Drive F) : (stage s).pid = s.pid := by
  simp only [stage]; split_ifs <;> rfl

@[simp] theorem stage_calls (s : Drive F) : (stage s).calls = s.calls := by
  simp only [stage]; split_ifs <;> rfl

/-- A car passes sensor 1 outside maintenance. -/
def pass (tim2 : U16) (s : Drive F) : Drive F :=
  timExtiRst tim2 (if s.servoStart = false then stage s else s)

@[simp] theorem pass_repairFlag (tim2 : U16) (s : Drive F) :
    (pass tim2 s).repairFlag = s.repairFlag := by
  simp only [pass, timExtiRst]; split_ifs <;> simp

/-- What `stage` does: it counts, it starts the second stage, or it hands the
    line to the PID. -/
theorem stage_cases (s : Drive F) :
    (∃ n m, stage s = { s with firstStageCnt := n, secondStageCnt := m }) ∨
      (s.adjustStageFlag = false ∧ s.secondStageHz ≠ 0 ∧ stage s =
        { s with firstStageCnt := 0, adjustStageFlag := true, fwInitHz := s.secondStageHz }) ∨
      (s.adjustStageFlag = false ∧ s.secondStageHz = 0 ∧ stage s =
        { s with firstStageCnt := 0, servoStart := true }) ∨
      (s.adjustStageFlag = true ∧ stage s =
        { s with adjustStageFlag := false, secondStageCnt := 0, servoStart := true,
                 fwInitHz := s.firstStageHz }) := by
  by_cases h : s.adjustStageFlag = false
  · by_cases hc : s.firstStageCnt + 1 ≥ 12
    · by_cases hz : s.secondStageHz ≠ 0
      · exact .inr <| .inl ⟨h, hz, by simp only [stage, if_pos h, if_pos hc, if_pos hz]⟩
      · refine .inr <| .inr <| .inl ⟨h, not_not.1 hz, ?_⟩
        simp only [stage, if_pos h, if_pos hc, if_neg hz]
    · refine .inl ⟨s.firstStageCnt + 1, s.secondStageCnt, ?_⟩
      simp only [stage, if_pos h, if_neg hc]
  · by_cases hc : s.secondStageCnt + 1 ≥ 60
    · refine .inr <| .inr <| .inr ⟨by simpa using h, ?_⟩
      simp only [stage, if_neg h, if_pos hc]
    · refine .inl ⟨s.firstStageCnt, s.secondStageCnt + 1, ?_⟩
      simp only [stage, if_neg h, if_neg hc]

theorem stage_last {s : Drive F} (ha : s.adjustStageFlag = false) (hc : s.firstStageCnt = 11) :
    stage s = if s.secondStageHz = 0 then { s with firstStageCnt := 0, servoStart := true }
      else { s with firstStageCnt := 0, adjustStageFlag := true, fwInitHz := s.secondStageHz } := by
  have h12 : s.firstStageCnt + 1 ≥ 12 := by rw [hc]; decide
  simp only [stage, if_pos ha, if_pos h12, ne_eq, ite_not]

variable {D : Type} [CNum F] [CNum D] [CFloat F D]

theorem timExtiProcess_one (tim2 : U16) {s : Drive F} (h : s.repairFlag = false) :
    timExtiProcess 1 tim2 s = pass tim2 s := by
  simp [timExtiProcess, pass, h]

/-- Sensor 1 counts the car; then it steers to the maintenance position or
    passes the car on to the measurement. -/
theorem sensor1_eq (tim2 : U16) (s : Drive F) :
    sensor1 tim2 s =
      if s.repairFlag then repairLocationCtrl { s with carNo := s.carNo + 1 }
      else pass tim2 { s with carNo := s.carNo + 1 } := by
  cases h : s.repairFlag with
  | true => simp [sensor1, timExtiProcess, h]
  | false =>
    rw [sensor1, timExtiProcess_one tim2 (by exact h), repairLocationCtrl, pass_repairFlag]
    simp [h]

/-! ## Sensor 2 -/

/-- Sensor 2 measures if sensor 1 came before it. -/
theorem sensor2_eq (tim2 : U16) (s : Drive F) :
    timExtiProcess 2 tim2 s =
      if s.repairFlag || s.extid = 0 then s
      else if s.extid = 1 then measure 2 tim2 s
      else { s with extid := 0 } := by
  cases h : s.repairFlag with
  | true => simp [timExtiProcess, h]
  | false =>
    have h1 : (2 = s.extid.toNat + 1) ↔ s.extid = 1 := by
      rw [BitVec.toNat_eq]; simp
    simp [timExtiProcess, h, h1]

/-- A count of at most 16 bits, in units of 50 microseconds. -/
theorem count_time {cnt : U32} (h : cnt ≤ 0xFFFF) : (cnt * 50).toInt = 50 * cnt.toNat := by
  have hn : cnt.toNat ≤ 65535 := h
  have hm : (cnt * 50).toNat = 50 * cnt.toNat := by
    rw [BitVec.toNat_mul]; simp; omega
  rw [BitVec.toInt_eq_toNat_of_lt (by rw [hm]; omega), hm]; rfl

/-- What `measure` does: it records the count, and runs the PID on it once the
    line has been handed over; or the count is out of range. -/
theorem measure_cases (extid tim2 : U16) (s : Drive F) :
    let s' := { s with timUpdates := 0, extid := extid, timCnt := tim2 }
    (s.timUpdates ≤ 1 ∧ s.count tim2 ≤ 0xFFFF ∧ s.servoStart = true ∧
        measure extid tim2 s =
          { fwPIDctrl (50 * (s.count tim2).toNat) s' with
            speed := s.count tim2, speeds := s.speeds ++ [s.count tim2] }) ∨
      (s.timUpdates ≤ 1 ∧ s.count tim2 ≤ 0xFFFF ∧ s.servoStart = false ∧
        measure extid tim2 s =
          { s' with speed := s.count tim2, speeds := s.speeds ++ [s.count tim2] }) ∨
      measure extid tim2 s = s' := by
  by_cases hc : s.timUpdates ≤ 1 ∧ s.count tim2 ≤ 0xFFFF
  · cases h : s.servoStart with
    | true =>
      refine .inl ⟨hc.1, hc.2, rfl, ?_⟩
      simp only [measure, if_pos hc, h, if_true, count_time hc.2]
      rfl
    | false =>
      refine .inr (.inl ⟨hc.1, hc.2, rfl, ?_⟩)
      simp only [measure, if_pos hc, h, Bool.false_eq_true, if_false]
  · refine .inr (.inr ?_)
    simp only [measure, if_neg hc]

/-! ## The first stage -/

/-- A drive that has just accepted a parameter message. -/
structure Restarted (s : Drive F) : Prop where
  repair : s.repairFlag = false
  servo : s.servoStart = false
  adjust : s.adjustStageFlag = false
  first : s.firstStageCnt = 0

theorem restarted_recvPara (m : ParaData F) (s : Drive F) : Restarted (recvPara m s) :=
  ⟨rfl, rfl, rfl, rfl⟩

/-- The first eleven cars only count. -/
theorem run_counting {s : Drive F} (h : Restarted s) (tim2 : U16) : ∀ k : ℕ, k ≤ 11 →
    ∃ c u e t, run Drive.step s (List.replicate k (.sensor1 tim2)) =
      { s with firstStageCnt := BitVec.ofNat 16 k, carNo := c, timUpdates := u, extid := e,
               timCnt := t } := by
  intro k
  induction k with
  | zero => exact fun _ => ⟨s.carNo, s.timUpdates, s.extid, s.timCnt, by
      rw [show BitVec.ofNat 16 0 = s.firstStageCnt from h.first.symm]; rfl⟩
  | succ k ih =>
    intro hk
    obtain ⟨c, u, e, t, hr⟩ := ih (by omega)
    refine ⟨c + 1, 0, 1, tim2, ?_⟩
    have hc : BitVec.ofNat 16 k + 1 = BitVec.ofNat 16 (k + 1) := by
      apply BitVec.eq_of_toNat_eq; simp
    have hn : ¬ BitVec.ofNat 16 (k + 1) ≥ 12 := by
      rw [ge_iff_le, BitVec.le_def]; simp; omega
    rw [List.replicate_succ', run_append, hr, run_cons, run_nil, Drive.step, sensor1_eq]
    simp only [h.repair, pass, h.servo, stage, h.adjust, if_true, hc, if_neg hn]
    rfl

/-- **The start-up.**  The twelfth car begins the second stage with its
    frequency, or hands the line to the PID if that frequency is zero. -/
theorem run_staging {s : Drive F} (h : Restarted s) (tim2 : U16) :
    ∃ c, run Drive.step s (List.replicate 12 (.sensor1 tim2)) =
      if s.secondStageHz = 0 then
        { s with firstStageCnt := 0, servoStart := true, carNo := c, timUpdates := 0, extid := 1,
                 timCnt := tim2 }
      else
        { s with firstStageCnt := 0, adjustStageFlag := true, fwInitHz := s.secondStageHz,
                 carNo := c, timUpdates := 0, extid := 1, timCnt := tim2 } := by
  obtain ⟨c, u, e, t, hr⟩ := run_counting h tim2 11 le_rfl
  refine ⟨c + 1, ?_⟩
  rw [List.replicate_succ' (n := 11), run_append, run_cons, run_nil, Drive.step]
  generalize run Drive.step s (List.replicate 11 (.sensor1 tim2)) = s₁ at hr
  have hrepair : s₁.repairFlag = false := by rw [hr]; exact h.repair
  have hservo : s₁.servoStart = false := by rw [hr]; exact h.servo
  have hadjust : s₁.adjustStageFlag = false := by rw [hr]; exact h.adjust
  have hfirst : s₁.firstStageCnt = 11 := by rw [hr]; rfl
  have hlast := stage_last (s := { s₁ with carNo := s₁.carNo + 1 }) hadjust hfirst
  rw [sensor1_eq, if_neg (by simp [hrepair]), pass, if_pos hservo, hlast]
  subst hr
  by_cases hz : s.secondStageHz = 0
  · simp only [if_pos hz]; rfl
  · simp only [if_neg hz]; rfl

end GndCtrl
