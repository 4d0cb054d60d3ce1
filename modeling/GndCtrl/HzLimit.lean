/-
  The limit of the inverter frequency.

  The PID clamps its output and the first start-up frequency is clamped when a
  parameter message is accepted; the frequency of the second stage and the one
  of maintenance mode are used as the WCS sent them.  So the outputs keep to
  the limit in every run just when these two fields do, in every message.

  `Limited` is the invariant: the frequencies the drive holds and the ones it
  has put out.
-/
import Mathlib.Data.Set.Defs
import GndCtrl.Sensors

namespace GndCtrl

open CNum CFloat

variable {F D : Type} [CNum F] [CNum D] [CFloat F D]

/-- `0..fwOutHzMax` -/
def HzOk (v : ℤ) : Prop := 0 ≤ v ∧ v ≤ fwOutHzMax.toNat

instance (v : ℤ) : Decidable (HzOk v) := inferInstanceAs (Decidable (_ ∧ _))

theorem hzOk_clampHz (hz : ℤ) : HzOk (clampHz hz) := by
  constructor <;> simp only [clampHz] <;> split_ifs <;> omega

theorem hzOk_word {hz : U16} (h : hz ≤ fwOutHzMax) : HzOk hz.toNat :=
  ⟨Int.natCast_nonneg _, Int.ofNat_le.2 h⟩

/-- The frequencies of the drive are within the limit. -/
structure Limited (s : Drive F) : Prop where
  init : s.fwInitHz ≤ fwOutHzMax
  first : s.firstStageHz ≤ fwOutHzMax
  second : s.secondStageHz ≤ fwOutHzMax
  repair : s.repairCarCmdData.standardHz ≤ fwOutHzMax
  out : ∀ v ∈ s.rs485, HzOk v

namespace Limited

omit [CNum F] in
theorem rs485Out {s : Drive F} {v : ℤ} (h : Limited s) (hv : HzOk v) :
    Limited (rs485Out v s) := by
  refine ⟨h.init, h.first, h.second, h.repair, ?_⟩
  intro w hw
  rw [rs485Out_rs485, List.mem_append, List.mem_singleton] at hw
  obtain hw | rfl := hw
  · exact h.out w hw
  · exact hv

theorem recvPara {s : Drive F} {m : ParaData F} (h : Limited s) (hm : m.standardHz ≤ fwOutHzMax) :
    Limited (recvPara m s) := by
  have hf : (GndCtrl.recvPara m s).firstStageHz ≤ fwOutHzMax := by
    simp only [GndCtrl.recvPara, fwInitServo]
    split_ifs with hz
    · exact BitVec.le_refl _
    · exact BitVec.not_lt.1 hz
  exact ⟨hf, hf, hm, h.repair, h.out⟩

omit [CNum F] in
theorem recvRepair {s : Drive F} {m : RepairCarCmdData} (h : Limited s)
    (hm : m.standardHz ≤ fwOutHzMax) : Limited (recvRepair m s) := by
  have hs : ∀ r p, Limited
      { s with repairCarCmdData := m, repairFlag := r, repairLocateReal := p } := fun r p =>
    ⟨h.init, h.first, h.second, hm, h.out⟩
  obtain e | e := recvRepair_cases m s <;> rw [e]
  · exact (hs true _).rs485Out (hzOk_word hm)
  · exact hs false _

omit [CNum F] in
theorem repairLocationCtrl {s : Drive F} (h : Limited s) : Limited (repairLocationCtrl s) := by
  have hr : s.repairCarCmdData.standardHz.toNat ≤ 5000 := h.repair
  simp only [GndCtrl.repairLocationCtrl]
  split_ifs
  · exact h
  · exact h.rs485Out ⟨by simp, by simp⟩
  · exact h.rs485Out ⟨by omega, by simp; omega⟩
  · exact h.rs485Out (hzOk_word h.repair)
  · have h0 : Limited { s with repairFlag := false } :=
      ⟨h.init, h.first, h.second, h.repair, h.out⟩
    exact h0.rs485Out ⟨le_rfl, by simp⟩

omit [CNum F] in
theorem stage {s : Drive F} (h : Limited s) : Limited (stage s) := by
  rcases stage_cases s with ⟨n, m, e⟩ | ⟨-, -, e⟩ | ⟨-, -, e⟩ | ⟨-, e⟩ <;> rw [e]
  · exact ⟨h.init, h.first, h.second, h.repair, h.out⟩
  · exact ⟨h.second, h.first, h.second, h.repair, h.out⟩
  · exact ⟨h.init, h.first, h.second, h.repair, h.out⟩
  · exact ⟨h.first, h.first, h.second, h.repair, h.out⟩

theorem sensor1 {s : Drive F} (h : Limited s) (tim2 : U16) : Limited (sensor1 tim2 s) := by
  have hc : Limited { s with carNo := s.carNo + 1 } :=
    ⟨h.init, h.first, h.second, h.repair, h.out⟩
  rw [sensor1_eq]
  split_ifs
  · exact hc.repairLocationCtrl
  · have hp : Limited (if s.servoStart = false then GndCtrl.stage { s with carNo := s.carNo + 1 }
        else { s with carNo := s.carNo + 1 }) := by
      split_ifs
      · exact hc.stage
      · exact hc
    exact ⟨hp.init, hp.first, hp.second, hp.repair, hp.out⟩

theorem sensor2 {s : Drive F} (h : Limited s) (tim2 : U16) :
    Limited (timExtiProcess 2 tim2 s) := by
  rw [sensor2_eq]
  split_ifs
  · exact h
  · rcases measure_cases 2 tim2 s with ⟨-, -, -, e⟩ | ⟨-, -, -, e⟩ | e <;> rw [e]
    · refine ⟨h.init, h.first, h.second, h.repair, ?_⟩
      exact (h.rs485Out (hzOk_clampHz _)).out
    · exact ⟨h.init, h.first, h.second, h.repair, h.out⟩
    · exact ⟨h.init, h.first, h.second, h.repair, h.out⟩
  · exact ⟨h.init, h.first, h.second, h.repair, h.out⟩

end Limited

theorem limited_init (ty : U8) : Limited (Drive.init ty : Drive F) :=
  ⟨by simp [Drive.init], by simp [Drive.init], by simp [Drive.init], by simp [Drive.init],
    by simp [Drive.init]⟩

/-- The messages among the events are taken from `P` and `R`. -/
def Event.From (P : Set (ParaData F)) (R : Set RepairCarCmdData) : Event F → Prop
  | .para m => m ∈ P
  | .repair m => m ∈ R
  | _ => True

theorem limited_step {P : Set (ParaData F)} {R : Set RepairCarCmdData}
    (hP : ∀ m ∈ P, m.standardHz ≤ fwOutHzMax) (hR : ∀ m ∈ R, m.standardHz ≤ fwOutHzMax)
    (s : Drive F) (e : Event F) (he : e.From P R) (h : Limited s) : Limited (s.step e) := by
  cases e with
  | para m => exact h.recvPara (hP m he)
  | repair m => exact h.recvRepair (hR m he)
  | sensor1 tim2 => exact h.sensor1 tim2
  | sensor2 tim2 => exact h.sensor2 tim2
  | carReset => exact ⟨h.init, h.first, h.second, h.repair, h.out⟩
  | recordSent u => exact ⟨h.init, h.first, h.second, h.repair, h.out⟩
  | second =>
    obtain e | e := second_cases s <;> rw [Drive.step, e]
    · exact h
    · exact h.rs485Out (hzOk_word h.init)
  | tim2Update =>
    obtain ⟨-, e⟩ | ⟨-, e⟩ := tim2Update_cases s <;> rw [Drive.step, e] <;>
      exact ⟨h.init, h.first, h.second, h.repair, h.out⟩

/-- After the first stage the next second puts out the frequency of the second. -/
theorem second_stage_output (m : ParaData F) (hz : m.standardHz ≠ 0) (s : Drive F) :
    (m.standardHz.toNat : ℤ) ∈
      (run Drive.step s (.para m :: List.replicate 12 (.sensor1 0) ++ [.second])).rs485 := by
  have h := restarted_recvPara m s
  obtain ⟨c, hr⟩ := run_staging h 0
  rw [List.cons_append, run_cons, run_append]
  change _ ∈ (second (run Drive.step (recvPara m s) _)).rs485
  have hz' : (recvPara m s).secondStageHz ≠ 0 := hz
  have hs : (recvPara m s).servoStart = false ∧ (recvPara m s).repairFlag = false := ⟨rfl, rfl⟩
  rw [hr, if_neg hz', second, if_pos hs, rs485Out_rs485]
  exact List.mem_append_right _ (List.mem_singleton.2 rfl)

/-- **The frequency limit.**  In all runs with messages from `P` and `R` every
    output is within `0..fwOutHzMax` if and only if every `standard_hz` of these
    messages is. -/
theorem hz_limit_iff (ty : U8) (P : Set (ParaData F)) (R : Set RepairCarCmdData) :
    (∀ es : List (Event F), (∀ e ∈ es, e.From P R) →
        ∀ v ∈ (run Drive.step (Drive.init ty) es).rs485, HzOk v) ↔
      (∀ m ∈ P, m.standardHz ≤ fwOutHzMax) ∧ ∀ m ∈ R, m.standardHz ≤ fwOutHzMax := by
  constructor
  · intro h
    constructor
    · intro m hm
      by_cases hz : m.standardHz = 0
      · simp [hz]
      · have ho := second_stage_output m hz (Drive.init ty)
        refine Int.ofNat_le.1 (h _ ?_ _ ho).2
        simp [Event.From, hm]
    · intro m hm
      have ho : (m.standardHz.toNat : ℤ) ∈
          (run Drive.step (Drive.init ty : Drive F) [.repair m]).rs485 := by
        simp [Drive.step, recvRepair, repairCarParaInit, Drive.init]
      refine Int.ofNat_le.1 (h _ ?_ _ ho).2
      simp [Event.From, hm]
  · rintro ⟨hP, hR⟩ es hes
    exact (run_inv_of (limited_step hP hR) es hes (limited_init ty)).out

/-- A maintenance message can put out 60 Hz. -/
theorem hz_limit_exceeded :
    ¬ ∀ (es : List (Event Num)), ∀ v ∈ (run Drive.step (Drive.init 0) es).rs485, HzOk v := by
  intro h
  have h6000 := h [.repair ⟨List.replicate 11 0, 1, 1, 100, 0, 6000⟩] 6000 (by decide)
  exact absurd h6000 (by decide)

end GndCtrl
