/-
  Maintenance positioning.

  A maintenance message names a car and the place it is to stop at; the cars that
  pass sensor 1 bring the loop there.  `Moving` is the invariant of the cars on
  the way: the car number follows the loop, and the line is running as long as no
  car has come within `tolerance`, the last of the three thresholds of
  `repairLocationCtrl`.

  * `positioning_iff` — the stop is the one the message asks for, unless
    `adjust_para` reaches beyond the threshold before it;
  * `already_there_iff` — whether to move at all is judged by the distance that
    ignores the loop.
-/
import GndCtrl.Sensors
import GndCtrl.Lib.Loop
import Mathlib.Data.List.Induction

namespace GndCtrl

open CNum CFloat

variable {F : Type}

/-! ## Distances -/

/-- A message that names a car and a place of the loop. -/
structure RepairCarCmdData.Valid (m : RepairCarCmdData) : Prop where
  car : 1 ≤ m.carNo.toNat ∧ m.carNo.toNat ≤ m.carTotNum.toNat
  locate : 1 ≤ m.repairLocate.toNat ∧ m.repairLocate.toNat ≤ m.carTotNum.toNat

/-- The target is a place of the loop, the one that brings the car to its own. -/
theorem repairTarget_spec {m : RepairCarCmdData} (h : m.Valid) :
    (1 ≤ (repairTarget m).toNat ∧ (repairTarget m).toNat ≤ m.carTotNum.toNat) ∧
      ((repairTarget m).toNat : ℤ) ≡ m.repairLocate.toNat + m.carNo.toNat - 1
        [ZMOD m.carTotNum.toNat] := by
  obtain ⟨hc1, hc2⟩ := h.car
  obtain ⟨hl1, hl2⟩ := h.locate
  have htot := m.carTotNum.isLt
  have hnat : ((repairTarget m).toNat : ℤ) =
      if (m.repairLocate.toNat + m.carNo.toNat - 1 : ℤ) ≤ m.carTotNum.toNat then
        (m.repairLocate.toNat + m.carNo.toNat - 1 : ℤ)
      else m.repairLocate.toNat + m.carNo.toNat - 1 - m.carTotNum.toNat := by
    rw [repairTarget, BitVec.toNat_ofInt]
    split_ifs <;> omega
  split_ifs at hnat with hle
  · exact ⟨by omega, by rw [hnat]⟩
  · refine ⟨by omega, ?_⟩
    rw [hnat]
    exact Int.modEq_sub_modulus_iff.2 rfl |>.symm

theorem calDistanceToRealLocate_eq (s : Drive F) : ((calDistanceToRealLocate s).toNat : ℤ) =
    |(s.repairLocateReal.toNat : ℤ) - s.carNo.toNat| := by
  have hc := s.carNo.isLt
  have hr := s.repairLocateReal.isLt
  rw [calDistanceToRealLocate]
  split_ifs with h
  · have hle : s.carNo.toNat ≤ s.repairLocateReal.toNat := h
    rw [BitVec.toNat_sub, abs_of_nonneg (by omega)]
    omega
  · have hlt : s.repairLocateReal.toNat < s.carNo.toNat := BitVec.not_le.1 h
    rw [BitVec.toNat_sub, abs_of_nonpos (by omega)]
    omega

/-- On the loop, the distance to move is the way ahead, and no difference wraps. -/
theorem calMoveDistance_eq {s : Drive F} (hc1 : 1 ≤ s.carNo.toNat)
    (hc2 : s.carNo.toNat ≤ s.repairCarCmdData.carTotNum.toNat)
    (hr1 : 1 ≤ s.repairLocateReal.toNat)
    (hr2 : s.repairLocateReal.toNat ≤ s.repairCarCmdData.carTotNum.toNat) :
    ((calMoveDistance s).toNat : ℤ) =
      ahead s.repairCarCmdData.carTotNum.toNat s.repairLocateReal.toNat s.carNo.toNat := by
  have htot := s.repairCarCmdData.carTotNum.isLt
  rw [calMoveDistance]
  split_ifs with h
  · have hle : s.carNo.toNat ≤ s.repairLocateReal.toNat := h
    rw [BitVec.toNat_sub, ahead_of_le (by omega) (by omega)]
    omega
  · have hlt : s.repairLocateReal.toNat < s.carNo.toNat := BitVec.not_le.1 h
    rw [BitVec.toNat_add, BitVec.toNat_sub, ahead_of_gt (by omega) (by omega)]
    omega

/-- The distance at which `repairLocationCtrl` stops. -/
def RepairCarCmdData.tolerance (m : RepairCarCmdData) : ℕ := min 50 (2 + m.adjustPara.toNat)

/-- In maintenance the line goes on beyond the tolerance, and is stopped within. -/
theorem repairLocationCtrl_maintenance {m : RepairCarCmdData} {s : Drive F}
    (hm : s.repairCarCmdData = m) (hr : s.resetFlag = true) (hf : s.repairFlag = true) :
    if m.tolerance < (calMoveDistance s).toNat then
      ∃ v, repairLocationCtrl s = rs485Out v s
    else repairLocationCtrl s = rs485Out 0 { s with repairFlag := false } := by
  have hgo : ¬ (!s.resetFlag || !s.repairFlag) = true := by simp [hr, hf]
  rw [← hm, RepairCarCmdData.tolerance]
  simp only [repairLocationCtrl, if_neg hgo]
  split_ifs with h1 h2 h3 h4
  · exact ⟨_, rfl⟩
  · exact ⟨_, rfl⟩
  · exact ⟨_, rfl⟩
  all_goals first | rfl | omega

/-! ## The message -/

/-- After the reset switch, a maintenance message moves the line if its target is
    more than two places away, the loop not considered. -/
theorem recvRepair_reset (m : RepairCarCmdData) {s : Drive F} (hr : s.resetFlag = true) :
    let d := { s with repairCarCmdData := m, repairLocateReal := repairTarget m }
    recvRepair m s =
      if 2 < |((repairTarget m).toNat : ℤ) - s.carNo.toNat| then
        rs485Out m.standardHz.toNat { d with repairFlag := true }
      else { d with repairFlag := false } := by
  intro d
  have hdist := calDistanceToRealLocate_eq { d with repairFlag := true }
  have hiff : calDistanceToRealLocate { d with repairFlag := true } > 2 ↔
      2 < |((repairTarget m).toNat : ℤ) - s.carNo.toNat| := by
    rw [← hdist, gt_iff_lt, BitVec.lt_def]
    exact Nat.cast_lt.symm
  by_cases hfar : 2 < |((repairTarget m).toNat : ℤ) - s.carNo.toNat|
  · rw [if_pos hfar]
    simp only [recvRepair, repairCarParaInit]
    rw [if_pos hr, if_pos (hiff.2 hfar)]
  · rw [if_neg hfar]
    simp only [recvRepair, repairCarParaInit]
    rw [if_pos hr, if_neg (fun h => hfar (hiff.1 h))]

theorem recvRepair_flag (m : RepairCarCmdData) {s : Drive F} (hr : s.resetFlag = true) :
    (recvRepair m s).repairFlag = true ↔ 2 < |((repairTarget m).toNat : ℤ) - s.carNo.toNat| := by
  rw [recvRepair_reset m hr]
  split_ifs with h
  · exact ⟨fun _ => h, fun _ => rfl⟩
  · exact ⟨fun hf => absurd hf (by decide), fun hf => absurd hf h⟩

/-! ## Cars on the way -/

/-- Events of a loop with its reset switch: the car number is set to `0` when it
    has reached the number of cars, before the next car.  There are no messages. -/
def Looping (s : Drive F) : Event F → Prop
  | .para _ => False
  | .repair _ => False
  | .sensor1 _ => s.carNo ≠ s.repairCarCmdData.carTotNum
  | .carReset => s.carNo = s.repairCarCmdData.carTotNum
  | _ => True

instance : (s : Drive F) → (e : Event F) → Decidable (Looping s e)
  | _, .para _ => inferInstanceAs (Decidable False)
  | _, .repair _ => inferInstanceAs (Decidable False)
  | _, .sensor1 _ => inferInstanceAs (Decidable (_ ≠ _))
  | _, .carReset => inferInstanceAs (Decidable (_ = _))
  | _, .sensor2 _ => inferInstanceAs (Decidable True)
  | _, .second => inferInstanceAs (Decidable True)
  | _, .tim2Update => inferInstanceAs (Decidable True)
  | _, .recordSent _ => inferInstanceAs (Decidable True)

/-- The way ahead after a car. -/
def remainders (s : Drive F) : Event F → List ℤ
  | .sensor1 _ =>
    [ahead s.repairCarCmdData.carTotNum.toNat s.repairLocateReal.toNat (s.carNo + 1).toNat]
  | _ => []

/-- The drive on the way: the cars since the message left the distances `xs`. -/
structure Moving (m : RepairCarCmdData) (c : ℤ) (xs : List ℤ) (d : Drive F) : Prop where
  cmd : d.repairCarCmdData = m
  real : d.repairLocateReal = repairTarget m
  reset : d.resetFlag = true
  range : d.carNo.toNat ≤ m.carTotNum.toNat
  position : (d.carNo.toNat : ℤ) ≡ c + xs.length [ZMOD m.carTotNum.toNat]
  way : xs = (List.range xs.length).map fun j : ℕ =>
    ahead m.carTotNum.toNat (repairTarget m).toNat (c + j + 1)
  flag : d.repairFlag = true ↔ ∀ x ∈ xs, (m.tolerance : ℤ) < x

/-- The variables of the positioning are the same, but for the car number and the
    flag. -/
structure SameTarget (s s' : Drive F) : Prop where
  cmd : s'.repairCarCmdData = s.repairCarCmdData
  real : s'.repairLocateReal = s.repairLocateReal
  reset : s'.resetFlag = s.resetFlag

theorem sameTarget_pass (tim2 : U16) (s : Drive F) :
    SameTarget s (pass tim2 s) ∧ (pass tim2 s).carNo = s.carNo := by
  simp only [pass, timExtiRst, stage]
  split_ifs <;> exact ⟨⟨rfl, rfl, rfl⟩, rfl⟩

namespace Moving
variable {m : RepairCarCmdData} {c : ℤ} {xs : List ℤ} {d d' : Drive F}

theorem same (h : Moving m c xs d) (hs : SameTarget d d') (hc : d'.carNo = d.carNo)
    (hf : d'.repairFlag = d.repairFlag) : Moving m c xs d' :=
  ⟨hs.cmd.trans h.cmd, hs.real.trans h.real, hs.reset.trans h.reset, hc.symm ▸ h.range,
    hc.symm ▸ h.position, h.way, hf.symm ▸ h.flag⟩

theorem carReset (h : Moving m c xs d) (hc : d.carNo = m.carTotNum) :
    Moving m c xs (carReset d) := by
  refine ⟨h.cmd, h.real, rfl, Nat.zero_le _, ?_, h.way, h.flag⟩
  have hp := h.position
  rw [hc] at hp
  exact (Int.modEq_zero_iff_dvd.2 dvd_rfl).symm.trans hp

/-- Before the reset switch the car number has not wrapped. -/
theorem carNo_succ (h : Moving m c xs d) (hc : d.carNo ≠ m.carTotNum) :
    (d.carNo + 1).toNat = d.carNo.toNat + 1 ∧ d.carNo.toNat + 1 ≤ m.carTotNum.toNat := by
  have hne : d.carNo.toNat ≠ m.carTotNum.toNat := fun he => hc (BitVec.eq_of_toNat_eq he)
  have hle := h.range
  have htot := m.carTotNum.isLt
  rw [BitVec.toNat_add]
  simp
  omega

/-- The distance that `repairLocationCtrl` computes after a car. -/
theorem distance (h : Moving m c xs d) (hm : m.Valid) (hc : d.carNo ≠ m.carTotNum) :
    ((calMoveDistance { d with carNo := d.carNo + 1 }).toNat : ℤ) =
      ahead m.carTotNum.toNat (repairTarget m).toNat (d.carNo + 1).toNat := by
  obtain ⟨hsucc, hle⟩ := h.carNo_succ hc
  obtain ⟨⟨ht1, ht2⟩, -⟩ := repairTarget_spec hm
  rw [← h.real] at ht1 ht2
  have heq := calMoveDistance_eq (s := { d with carNo := d.carNo + 1 }) (by rw [hsucc]; omega)
    (by rw [h.cmd, hsucc]; exact hle) ht1 (by rw [h.cmd]; exact ht2)
  rw [heq, h.cmd, h.real]

/-- A car is counted, whatever becomes of the flag. -/
theorem counted (h : Moving m c xs d) (hc : d.carNo ≠ m.carTotNum) (hs : SameTarget d d')
    (hn : d'.carNo = d.carNo + 1)
    (hf : d'.repairFlag = true ↔ d.repairFlag = true ∧ (m.tolerance : ℤ) <
      ahead m.carTotNum.toNat (repairTarget m).toNat (d.carNo + 1).toNat) :
    Moving m c (xs ++ [ahead m.carTotNum.toNat (repairTarget m).toNat (d.carNo + 1).toNat]) d' := by
  obtain ⟨hsucc, hle⟩ := h.carNo_succ hc
  have hpos : ((d.carNo + 1).toNat : ℤ) ≡ c + xs.length + 1 [ZMOD m.carTotNum.toNat] := by
    rw [hsucc, Nat.cast_add]
    exact h.position.add_right 1
  refine ⟨hs.cmd.trans h.cmd, hs.real.trans h.real, hs.reset.trans h.reset, ?_, ?_, ?_, ?_⟩
  · rw [hn, hsucc]
    exact hle
  · rw [hn, List.length_append, Nat.cast_add, ← add_assoc]
    exact hpos
  · rw [List.length_append, List.length_singleton, List.range_succ, List.map_append, ← h.way,
      List.map_singleton, ahead_congr hpos]
  · rw [hf, h.flag, List.forall_mem_append, List.forall_mem_singleton]

/-- An event without a car. -/
theorem idle {e : Event F} (h : Moving m c xs d') (he : remainders d e = []) :
    Moving m c (xs ++ remainders d e) d' := by
  rw [he, List.append_nil]
  exact h

theorem mem_way (h : Moving m c xs d) {x : ℤ} : x ∈ xs ↔ ∃ j < xs.length,
    x = ahead m.carTotNum.toNat (repairTarget m).toNat (c + 1 + (j : ℤ)) := by
  have hway := h.way
  generalize xs.length = k at hway ⊢
  rw [hway, List.mem_map]
  constructor
  · rintro ⟨j, hj, rfl⟩
    exact ⟨j, List.mem_range.1 hj, by rw [add_right_comm]⟩
  · rintro ⟨j, hj, rfl⟩
    exact ⟨j, List.mem_range.2 hj, by rw [add_right_comm]⟩

/-- Within one turn of the loop a car reaches the target. -/
theorem arrived (h : Moving m c xs d) (hm : m.Valid) (hk : m.carTotNum.toNat ≤ xs.length) :
    d.repairFlag = false := by
  have hn : (0 : ℤ) < m.carTotNum.toNat := by
    have := hm.car
    omega
  have h0 := ahead_nonneg hn (repairTarget m).toNat (c + 1)
  have hlt := ahead_lt hn (repairTarget m).toNat (c + 1)
  obtain ⟨j, hj⟩ := Int.eq_ofNat_of_zero_le h0
  have hzero : (0 : ℤ) ∈ xs := by
    refine h.mem_way.2 ⟨j, by omega, ?_⟩
    rw [ahead_add hn (by omega) (by rw [hj]), hj]
    omega
  rw [← Bool.not_eq_true, h.flag]
  intro hall
  have := hall 0 hzero
  omega

variable {D : Type} [CNum F] [CNum D] [CFloat F D]

/-- A car on the way. -/
theorem sensor1 (h : Moving m c xs d) (hm : m.Valid) (hc : d.carNo ≠ m.carTotNum) (tim2 : U16) :
    Moving m c (xs ++ remainders d (.sensor1 tim2)) (sensor1 tim2 d) := by
  have hdist := h.distance hm hc
  rw [remainders, h.cmd, h.real, sensor1_eq]
  split_ifs with hf
  · have hmove := repairLocationCtrl_maintenance (s := { d with carNo := d.carNo + 1 })
      h.cmd h.reset hf
    split_ifs at hmove with hfar
    · obtain ⟨v, e⟩ := hmove
      rw [e]
      refine h.counted hc ⟨rfl, rfl, rfl⟩ rfl ?_
      simp only [rs485Out_repairFlag, hf, true_and, true_iff]
      omega
    · rw [hmove]
      refine h.counted hc ⟨rfl, rfl, rfl⟩ rfl ?_
      simp only [rs485Out_repairFlag, hf, true_and, Bool.false_eq_true, false_iff]
      omega
  · obtain ⟨hs, hn⟩ := sameTarget_pass tim2 { d with carNo := d.carNo + 1 }
    refine h.counted hc ⟨hs.cmd, hs.real, hs.reset⟩ hn ?_
    simp [hf]

theorem sensor2 (h : Moving m c xs d) (tim2 : U16) : Moving m c xs (timExtiProcess 2 tim2 d) := by
  rw [sensor2_eq]
  split_ifs
  · exact h
  · rcases measure_cases 2 tim2 d with ⟨-, -, -, e⟩ | ⟨-, -, -, e⟩ | e <;> rw [e] <;>
      exact h.same ⟨rfl, rfl, rfl⟩ rfl rfl
  · exact h.same ⟨rfl, rfl, rfl⟩ rfl rfl

theorem step (h : Moving m c xs d) (hm : m.Valid) {e : Event F} (he : Looping d e) :
    Moving m c (xs ++ remainders d e) (d.step e) := by
  cases e with
  | para m' => exact absurd he id
  | repair m' => exact absurd he id
  | sensor1 tim2 =>
    rw [Looping, h.cmd] at he
    exact h.sensor1 hm he tim2
  | sensor2 tim2 => exact (h.sensor2 tim2).idle rfl
  | carReset =>
    rw [Looping, h.cmd] at he
    exact (h.carReset he).idle rfl
  | second =>
    obtain e | e := second_cases d <;> rw [Drive.step, e]
    · exact idle (e := .second) h rfl
    · exact idle (e := .second) (h.same ⟨rfl, rfl, rfl⟩ rfl rfl) rfl
  | tim2Update =>
    obtain ⟨-, e⟩ | ⟨-, e⟩ := tim2Update_cases d <;> rw [Drive.step, e] <;>
      exact idle (e := .tim2Update) (h.same ⟨rfl, rfl, rfl⟩ rfl rfl) rfl
  | recordSent u => exact idle (e := .recordSent u) (h.same ⟨rfl, rfl, rfl⟩ rfl rfl) rfl

theorem run (h : Moving m c [] d) (hm : m.Valid) {es : List (Event F)}
    (hes : Along Drive.step Looping d es) :
    Moving m c (collect Drive.step remainders d es) (run Drive.step d es) := by
  induction es using List.reverseRecOn with
  | nil => exact h
  | append_singleton es e ih =>
    obtain ⟨hes, he, -⟩ := along_append.1 hes
    rw [collect_append, run_append]
    simp only [collect, List.append_nil, run_cons, run_nil]
    exact (ih hes).step hm he

/-- Only a car ends the maintenance, and it stops the line. -/
theorem stopped (h : Moving m c xs d) {e : Event F} (he : Looping d e)
    (hf : d.repairFlag = true) (hf' : (d.step e).repairFlag = false) :
    (∃ tim2, e = .sensor1 tim2) ∧ (d.step e).rs485 = d.rs485 ++ [0] := by
  cases e with
  | para m' => exact absurd he id
  | repair m' => exact absurd he id
  | sensor1 tim2 =>
    refine ⟨⟨tim2, rfl⟩, ?_⟩
    have hmove := repairLocationCtrl_maintenance (s := { d with carNo := d.carNo + 1 })
      h.cmd h.reset hf
    rw [Drive.step, sensor1_eq, if_pos hf] at hf' ⊢
    split_ifs at hmove with hfar
    · obtain ⟨v, e⟩ := hmove
      rw [e, rs485Out_repairFlag] at hf'
      exact absurd (hf.symm.trans hf') (by decide)
    · rw [hmove]
      rfl
  | sensor2 tim2 =>
    have hidle : timExtiProcess 2 tim2 d = d := by rw [sensor2_eq, if_pos (by simp [hf])]
    rw [Drive.step, hidle] at hf'
    exact absurd (hf.symm.trans hf') (by decide)
  | carReset => exact absurd (hf.symm.trans hf') (by decide)
  | second =>
    obtain e | e := second_cases d <;> rw [Drive.step, e] at hf' <;>
      exact absurd (hf.symm.trans hf') (by decide)
  | tim2Update =>
    obtain ⟨-, e⟩ | ⟨-, e⟩ := tim2Update_cases d <;> rw [Drive.step, e] at hf' <;>
      exact absurd (hf.symm.trans hf') (by decide)
  | recordSent u => exact absurd (hf.symm.trans hf') (by decide)

end Moving

/-! ## The stop -/

theorem moving_init {m : RepairCarCmdData} {s : Drive F} (hr : s.resetFlag = true)
    (hc : s.carNo.toNat ≤ m.carTotNum.toNat) (hf : (recvRepair m s).repairFlag = true) :
    Moving m s.carNo.toNat [] (recvRepair m s) := by
  have hfar := (recvRepair_flag m hr).1 hf
  rw [recvRepair_reset m hr, if_pos hfar]
  exact ⟨rfl, rfl, hr, hc, by simp [rs485Out], rfl, by simp⟩

variable {D : Type} [CNum F] [CNum D] [CFloat F D]

/-- **What is required of the positioning** after the events `es` since the
    message. -/
structure Positioned (m : RepairCarCmdData) (d : Drive F) (es : List (Event F)) : Prop where
  /-- the line has been stopped just if a car came within `2 + adjust_para` -/
  flag : (run Drive.step d es).repairFlag = true ↔
    ∀ x ∈ collect Drive.step remainders d es, (2 + m.adjustPara.toNat : ℤ) < x
  /-- it is a car that stops it -/
  stop : ∀ e, Looping (run Drive.step d es) e → (run Drive.step d es).repairFlag = true →
    ((run Drive.step d es).step e).repairFlag = false → (∃ tim2, e = .sensor1 tim2) ∧
      ((run Drive.step d es).step e).rs485 = (run Drive.step d es).rs485 ++ [0]
  within : m.carTotNum.toNat ≤ (collect Drive.step remainders d es).length →
    (run Drive.step d es).repairFlag = false
  /-- the distance after a car is the way ahead -/
  nowrap : ∀ tim2, Looping (run Drive.step d es) (.sensor1 tim2) →
    let s := { run Drive.step d es with carNo := (run Drive.step d es).carNo + 1 }
    s.carNo.toNat ≤ m.carTotNum.toNat ∧ ((calMoveDistance s).toNat : ℤ) =
      ahead m.carTotNum.toNat (repairTarget m).toNat s.carNo.toNat

/-- Any number of cars can pass. -/
theorem exists_run {m : RepairCarCmdData} (hm : m.Valid) {c : ℤ} {d : Drive F}
    (h : Moving m c [] d) (k : ℕ) : ∃ es, Along Drive.step Looping d es ∧
      (collect Drive.step remainders d es).length = k := by
  induction k with
  | zero => exact ⟨[], trivial, rfl⟩
  | succ k ih =>
    obtain ⟨es, hes, hlen⟩ := ih
    have hd := h.run hm hes
    by_cases hc : (run Drive.step d es).carNo = m.carTotNum
    · refine ⟨es ++ [.carReset, .sensor1 0], along_append.2 ⟨hes, ?_, ?_, trivial⟩, ?_⟩
      · rw [Looping, hd.cmd]
        exact hc
      · intro h0
        have hcmd := hd.cmd
        have htot : (0 : U16) = m.carTotNum := h0.trans (congrArg _ hcmd)
        have := hm.car
        rw [← htot] at this
        simp at this
        omega
      · rw [collect_append, List.length_append, hlen]
        rfl
    · refine ⟨es ++ [.sensor1 0], along_append.2 ⟨hes, ?_, trivial⟩, ?_⟩
      · rw [Looping, hd.cmd]
        exact hc
      · rw [collect_append, List.length_append, hlen]
        rfl

/-- The code stops at its own tolerance. -/
theorem positioned_of_flag {m : RepairCarCmdData} (hm : m.Valid) {c : ℤ} {d : Drive F}
    (h : Moving m c [] d) {es : List (Event F)} (hes : Along Drive.step Looping d es)
    (hflag : (∀ x ∈ collect Drive.step remainders d es, (m.tolerance : ℤ) < x) ↔
      ∀ x ∈ collect Drive.step remainders d es, (2 + m.adjustPara.toNat : ℤ) < x) :
    Positioned m d es := by
  have hd := h.run hm hes
  refine ⟨hd.flag.trans hflag, fun e he => hd.stopped he, hd.arrived hm, fun tim2 he => ?_⟩
  rw [Looping, hd.cmd] at he
  obtain ⟨hsucc, hle⟩ := hd.carNo_succ he
  exact ⟨hsucc.trans_le hle, hd.distance hm he⟩

/-- If `adjust_para` reaches beyond the threshold of 50 places, and the first car
    is not within it, a run goes past the place of the stop. -/
theorem overrun {m : RepairCarCmdData} (hm : m.Valid) {c : ℤ} {d : Drive F} (h : Moving m c [] d)
    (ha : 48 < m.adjustPara.toNat)
    (hfar : 50 < ahead m.carTotNum.toNat (repairTarget m).toNat (c + 1)) :
    ∃ es, Along Drive.step Looping d es ∧ ¬ Positioned m d es := by
  have hn : (0 : ℤ) < m.carTotNum.toNat := by
    have := hm.car
    omega
  -- the cars until one is within `2 + adjust_para`
  obtain ⟨i, hi⟩ := Int.eq_ofNat_of_zero_le (Int.natCast_nonneg
    (ahead m.carTotNum.toNat (repairTarget m).toNat (c + 1) - (2 + m.adjustPara.toNat)).toNat)
  obtain ⟨es, hes, hlen⟩ := exists_run hm h (i + 1)
  have hd := h.run hm hes
  have hway : ∀ j : ℕ, j ≤ i →
      ahead m.carTotNum.toNat (repairTarget m).toNat (c + 1 + (j : ℤ)) =
        ahead m.carTotNum.toNat (repairTarget m).toNat (c + 1) - j := by
    intro j hj
    exact ahead_add hn (by omega) (by omega)
  refine ⟨es, hes, fun hp => ?_⟩
  have hgoing : (run Drive.step d es).repairFlag = true := by
    rw [hd.flag]
    intro x hx
    obtain ⟨j, hj, rfl⟩ := hd.mem_way.1 hx
    rw [hlen] at hj
    rw [hway j (by omega), RepairCarCmdData.tolerance]
    omega
  have hlast : ahead m.carTotNum.toNat (repairTarget m).toNat (c + 1 + (i : ℤ)) ∈
      collect Drive.step remainders d es := hd.mem_way.2 ⟨i, by omega, rfl⟩
  have hover := hp.flag.1 hgoing _ hlast
  rw [hway i le_rfl] at hover
  omega

/-- **The positioning.**  The target of a valid message is the place that brings
    the car to its own, and the line stops at the first car within
    `2 + adjust_para`, if and only if there is nothing to do, or `adjust_para` is
    at most 48, or the first car is within 50 places already. -/
theorem positioning_iff {m : RepairCarCmdData} (hm : m.Valid) {s : Drive F}
    (hr : s.resetFlag = true) (hc : s.carNo.toNat ≤ m.carTotNum.toNat) :
    let d := s.step (.repair m)
    (((1 ≤ d.repairLocateReal.toNat ∧ d.repairLocateReal.toNat ≤ m.carTotNum.toNat) ∧
        (d.repairLocateReal.toNat : ℤ) ≡ m.repairLocate.toNat + m.carNo.toNat - 1
          [ZMOD m.carTotNum.toNat]) ∧
      (d.repairFlag = true → ∀ es, Along Drive.step Looping d es → Positioned m d es)) ↔
    (|((repairTarget m).toNat : ℤ) - s.carNo.toNat| ≤ 2 ∨ m.adjustPara.toNat ≤ 48 ∨
      ahead m.carTotNum.toNat (repairTarget m).toNat (s.carNo.toNat + 1) ≤ 50) := by
  intro d
  have hreal : d.repairLocateReal = repairTarget m := by
    change (recvRepair m s).repairLocateReal = repairTarget m
    obtain h | h := recvRepair_cases m s <;> simp only [h, rs485Out]
  rw [hreal, and_iff_right (repairTarget_spec hm)]
  constructor
  · intro h
    by_contra hcond
    simp only [not_or, not_le] at hcond
    obtain ⟨hfar, ha, hbig⟩ := hcond
    have hf : d.repairFlag = true := (recvRepair_flag m hr).2 hfar
    obtain ⟨es, hes, hnot⟩ := overrun hm (moving_init hr hc hf) ha hbig
    exact hnot (h hf es hes)
  · intro h hf es hes
    have hinit : Moving m s.carNo.toNat [] d := moving_init hr hc hf
    have hd := hinit.run hm hes
    refine positioned_of_flag hm hinit hes ?_
    have hfar := (recvRepair_flag m hr).1 hf
    rcases le_or_gt m.adjustPara.toNat 48 with ha | ha
    · have htol : (m.tolerance : ℤ) = 2 + m.adjustPara.toNat := by
        rw [RepairCarCmdData.tolerance]
        omega
      rw [htol]
    · -- the first car is within both tolerances
      have hsmall : ahead m.carTotNum.toNat (repairTarget m).toNat (s.carNo.toNat + 1) ≤ 50 := by
        omega
      have htol : (m.tolerance : ℤ) = 50 := by
        rw [RepairCarCmdData.tolerance]
        omega
      rw [htol]
      rcases Nat.eq_zero_or_pos (collect Drive.step remainders d es).length with h0 | hpos
      · rw [List.length_eq_zero_iff.1 h0]
        simp
      · have hfirst := hd.mem_way.2 ⟨0, hpos, rfl⟩
        rw [Nat.cast_zero, add_zero] at hfirst
        exact ⟨fun hall => by have := hall _ hfirst; omega,
          fun hall => by have := hall _ hfirst; omega⟩

/-- From the beginning of a loop of 10 cars to place 5: the third car, with two
    places left, stops the line. -/
theorem positioning_stop :
    let d : Drive Num := { Drive.init 0 with resetFlag := true }.step
      (.repair ⟨[], 1, 5, 10, 0, 2000⟩)
    (run Drive.step d [.sensor1 0, .sensor1 0]).repairFlag = true ∧
      (run Drive.step d [.sensor1 0, .sensor1 0, .sensor1 0]).repairFlag = false := by
  intro d
  have h := (positioning_iff (m := ⟨[], 1, 5, 10, 0, 2000⟩) ⟨by decide, by decide⟩
    (s := ({ Drive.init 0 with resetFlag := true } : Drive Num)) rfl (by decide)).2
    (.inr (.inl (by decide)))
  have hpos := h.2 (by decide)
  refine ⟨(hpos _ (by decide)).flag.2 (by decide), ?_⟩
  rw [← Bool.not_eq_true, (hpos _ (by decide)).flag]
  decide

/-- With a tolerance of 62 places the line runs on until 50 are left. -/
theorem positioning_late : ¬ ∀ (m : RepairCarCmdData) (s : Drive Num), m.Valid →
    s.resetFlag = true → s.carNo.toNat ≤ m.carTotNum.toNat →
    (s.step (.repair m)).repairFlag = true → ∀ es, Along Drive.step Looping (s.step (.repair m)) es →
      Positioned m (s.step (.repair m)) es := by
  intro h
  have hp := h ⟨[], 1, 60, 100, 60, 2000⟩ { Drive.init 0 with resetFlag := true }
    ⟨by decide, by decide⟩ rfl (by decide) (by decide) [.sensor1 0] (by decide)
  have hover := hp.flag.1 (by decide) 59 (by decide)
  exact absurd hover (by decide)

/-! ## Whether to move -/

/-- **What is required of the distance** to a target `t`: it is the one around the
    loop, and a message with this target does not move the line just if it is at
    most 2. -/
structure CircularOk (m : RepairCarCmdData) (t : U16) (s : Drive F) : Prop where
  distance : ((calDistanceToRealLocate
      { s with repairCarCmdData := m, repairLocateReal := t }).toNat : ℤ) =
    circular m.carTotNum.toNat t.toNat s.carNo.toNat
  declined : t = repairTarget m →
    ((recvRepair m s).repairFlag = false ∧ (recvRepair m s).rs485 = s.rs485 ↔
      circular m.carTotNum.toNat t.toNat s.carNo.toNat ≤ 2)

omit [CNum F] in
/-- **The distance to the target** is the one around the loop if and only if the
    plain one is at most half of the loop. -/
theorem already_there_iff {m : RepairCarCmdData} (hn : 1 ≤ m.carTotNum.toNat) (t : U16)
    {s : Drive F} (hr : s.resetFlag = true) :
    CircularOk m t s ↔ 2 * |(t.toNat : ℤ) - s.carNo.toNat| ≤ m.carTotNum.toNat := by
  have hdist := calDistanceToRealLocate_eq { s with repairCarCmdData := m, repairLocateReal := t }
  have hcirc := abs_eq_circular_iff (n := m.carTotNum.toNat) (by omega) t.toNat s.carNo.toNat
  rw [← hcirc]
  constructor
  · intro h
    exact hdist.symm.trans h.distance
  · intro h
    refine ⟨hdist.trans h, ?_⟩
    rintro rfl
    rw [← h, recvRepair_reset m hr]
    split_ifs with hfar
    · have hmove : ¬ |((repairTarget m).toNat : ℤ) - s.carNo.toNat| ≤ 2 := not_le.2 hfar
      simp [hmove]
    · have hstay : |((repairTarget m).toNat : ℤ) - s.carNo.toNat| ≤ 2 := not_lt.1 hfar
      simp [hstay]

/-- From place 0 to place 5 of a loop of 100 cars the short way does not cross the end. -/
theorem already_there_near :
    CircularOk ⟨[], 1, 5, 100, 0, 2000⟩ 5 ({ Drive.init 0 with resetFlag := true } : Drive Num) :=
  (already_there_iff (by decide) 5 rfl).2 (by decide)

/-- From place 99 of 100 to place 1 the line makes a whole turn. -/
theorem already_there_far : ¬ ∀ (m : RepairCarCmdData) (t : U16) (s : Drive Num),
    1 ≤ m.carTotNum.toNat → s.carNo.toNat ≤ m.carTotNum.toNat → s.resetFlag = true →
    CircularOk m t s := by
  intro h
  have h1 := h ⟨[], 1, 1, 100, 0, 2000⟩ 1 { Drive.init 0 with resetFlag := true, carNo := 99 }
    (by decide) (by decide) rfl
  exact absurd h1.distance (by decide)

end GndCtrl
