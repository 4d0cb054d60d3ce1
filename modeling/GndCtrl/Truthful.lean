/-
  The position and interval records are truthful.

  `Sys.pulses` is what the sensors and the timer do in a step, `since` counts in
  a history: the cars after the last reset of the car number, the ticks after
  the last car.  The firmware counts the same in 16 bits (`counted_run`).  So a
  record says the truth as long as both numbers fit in (`records_truthful_iff`);
  at the 65536th car the number is 0 and the node carries what the stack held.
-/
import GndCtrl.Projection
import GndCtrl.Sensors

namespace GndCtrl

open CNum CFloat

/-! ## Histories -/

section
variable {α : Type} [DecidableEq α]

/-- The number of `p` after the last `q`. -/
def since (p q : α) (h : List α) : ℕ := (h.reverse.takeWhile (· ≠ q)).count p

theorem since_snoc (p q r : α) (h : List α) :
    since p q (h ++ [r]) = if r = q then 0 else since p q h + if r = p then 1 else 0 := by
  rw [since, List.reverse_append, List.reverse_singleton, List.singleton_append]
  by_cases hq : r = q
  · rw [List.takeWhile_cons_of_neg (by simpa using hq), if_pos hq]
    rfl
  · rw [List.takeWhile_cons_of_pos (by simpa using hq), if_neg hq, List.count_cons, since]
    simp

end

/-- A car at sensor 1, a reset of the car number, a counted tick of TIM3. -/
inductive Pulse where
  | car
  | carReset
  | tick
  deriving DecidableEq

/-- The cars since the last reset. -/
def carsOf (h : List Pulse) : ℕ := since .car .carReset h

/-- The ticks since the last car. -/
def ticksOf (h : List Pulse) : ℕ := since .tick .car h

/-- The record and the node built by the next car after `h` say the truth. -/
structure Truthful (h : List Pulse) (record : IntervalData) (node : StateNode) : Prop where
  cur : record.curCarNum.toNat = carsOf (h ++ [.car])
  pre : record.preCarNum.toNat + 1 = record.curCarNum.toNat
  interval : record.interval.toNat = ticksOf h
  node : node.carnum = record.preCarNum

/-! ## The car number -/

section
variable {F : Type}

theorem stage_carNo (s : Drive F) : (stage s).carNo = s.carNo := by
  simp only [stage]
  split_ifs <;> rfl

theorem repairLocationCtrl_carNo (s : Drive F) : (repairLocationCtrl s).carNo = s.carNo := by
  obtain h | ⟨v, r, h⟩ := repairLocationCtrl_cases s
  · rw [h]
  · rw [h]
    rfl

variable {D : Type} [CNum F] [CNum D] [CFloat F D]

theorem timExtiProcess_carNo (extid tim2 : U16) (s : Drive F) :
    (timExtiProcess extid tim2 s).carNo = s.carNo := by
  have hmeasure : ∀ s : Drive F, (measure extid tim2 s).carNo = s.carNo := by
    intro s
    simp only [measure]
    split_ifs <;> rfl
  simp only [timExtiProcess, timExtiRst]
  split_ifs <;> simp [hmeasure, stage_carNo]

theorem sensor1_carNo (tim2 : U16) (s : Drive F) : (sensor1 tim2 s).carNo = s.carNo + 1 := by
  rw [sensor1, repairLocationCtrl_carNo, timExtiProcess_carNo]

/-- Sensor 1 and the reset switch change the car number, nothing else does. -/
theorem carNo_step (s : Drive F) (e : Event F) :
    (s.step e).carNo =
      match e with
      | .sensor1 _ => s.carNo + 1
      | .carReset => 0
      | _ => s.carNo := by
  cases e with
  | para m => rfl
  | repair m =>
    obtain h | h := recvRepair_cases m s
    · rw [Drive.step, h]
      rfl
    · rw [Drive.step, h]
  | sensor1 tim2 => exact sensor1_carNo tim2 s
  | sensor2 tim2 => exact timExtiProcess_carNo 2 tim2 s
  | carReset => rfl
  | second =>
    obtain h | h := second_cases s
    · rw [Drive.step, h]
    · rw [Drive.step, h]
      rfl
  | tim2Update => obtain ⟨-, h⟩ | ⟨-, h⟩ := tim2Update_cases s <;> rw [Drive.step, h]
  | recordSent u => rfl

/-- The events of an operation of the main loop leave the car number alone. -/
theorem carNo_main (env : Env) (s : Sys F) : (s.step (.main env)).drive.carNo = s.drive.carNo := by
  have hevents : ∀ e ∈ s.events (.main env), (∀ t, e ≠ .sensor1 t) ∧ e ≠ .carReset := by
    intro e he
    have hmsg : ∀ point len, e ∈ messageEvents point len →
        (∀ t, e ≠ .sensor1 t) ∧ e ≠ .carReset := by
      intro point len he
      unfold messageEvents at he
      split_ifs at he <;> simp at he <;> subst he <;> simp
    simp only [Sys.events] at he
    split at he
    · split_ifs at he
      · exact hmsg _ _ he
      · simp at he
    · simp at he
      subst he
      simp
    · split_ifs at he <;> simp at he
      subst he
      simp
    · simp at he
  rw [drive_step]
  refine run_inv_of (I := fun d : Drive F => d.carNo = s.drive.carNo)
    (K := fun e : Event F => (∀ t, e ≠ .sensor1 t) ∧ e ≠ .carReset) ?_ _ hevents rfl
  rintro d e ⟨hs, hr⟩ hd
  rw [carNo_step, ← hd]
  cases e with
  | sensor1 t => exact absurd rfl (hs t)
  | carReset => exact absurd rfl hr
  | para _ | repair _ | sensor2 _ | second | tim2Update | recordSent _ => rfl

/-! ## The timer -/

omit [CNum F] in
theorem sendMessage_intervalMsFlag (t : U16) (s : Sys F) :
    (sendMessage t s).msg.intervalMsFlag = s.msg.intervalMsFlag := by
  have h := sendMessage_switched t s
  generalize sendMessage t s = x at h ⊢
  cases h <;> rfl

/-- The main loop does not touch the counter of ticks. -/
theorem intervalMsFlag_main (env : Env) (s : Sys F) :
    (s.step (.main env)).msg.intervalMsFlag = s.msg.intervalMsFlag := by
  refine mainStep_cases (P := fun s' => s'.msg.intervalMsFlag = s.msg.intervalMsFlag) env
    (fun s' pc h => by rw [goto_msg, h]) rfl (fun _ => rfl)
    (fun d _ => (upheld_udpInput d s).intervalMsFlag)
    (fun i hp => (upheld_clientSlot env.toNet i (by simp [hp])).intervalMsFlag) ?send
    (fun _ => (upheld_stateMsg s).intervalMsFlag) ?car
    (fun _ => (upheld_secProcess s).intervalMsFlag)
  case send =>
    intro _
    rw [sendMessageToSever_eq]
    split_ifs
    · rfl
    · exact sendMessage_intervalMsFlag _ _
  case car =>
    rintro i s' (⟨-, rfl⟩ | ⟨-, c, rfl | ⟨t, r, rfl⟩⟩) - <;> rfl

/-! ## Both together -/

/-- What a step of the firmware adds to the history. -/
def Sys.pulses (s : Sys F) : Input → List Pulse
  | .main _ => []
  | .irq e =>
    if s.pc = .reset then []
    else match e with
      | .exti4 pin _ _ => if held pin then [.car] else []
      | .exti95 _ in10 _ => if in10.any held then [.carReset] else []
      | .tim3 => if CNum.eq s.drive.wcs2GndParaData.speedTarget (ofInt 0) then [] else [.tick]
      | .tim2 | .sysTick => []

/-- The firmware counts as the history does, in 16 bits. -/
structure Counted (s : Sys F) (h : List Pulse) : Prop where
  cars : s.drive.carNo = BitVec.ofNat 16 (carsOf h)
  ticks : s.msg.intervalMsFlag = BitVec.ofNat 16 (ticksOf h)

theorem carsOf_snoc (h : List Pulse) (p : Pulse) : carsOf (h ++ [p]) =
    match p with
    | .car => carsOf h + 1
    | .carReset => 0
    | .tick => carsOf h := by
  rw [carsOf, since_snoc]
  cases p <;> rfl

theorem ticksOf_snoc (h : List Pulse) (p : Pulse) : ticksOf (h ++ [p]) =
    match p with
    | .car => 0
    | .carReset => ticksOf h
    | .tick => ticksOf h + 1 := by
  rw [ticksOf, since_snoc]
  cases p <;> rfl

theorem ofNat_succ16 (n : ℕ) : BitVec.ofNat 16 n + 1 = BitVec.ofNat 16 (n + 1) := by
  apply BitVec.eq_of_toNat_eq
  simp

theorem counted_step {s : Sys F} {h : List Pulse} (hc : Counted s h) (e : Input) :
    Counted (s.step e) (h ++ s.pulses e) := by
  cases e with
  | main env =>
    rw [Sys.pulses, List.append_nil]
    exact ⟨(carNo_main env s).trans hc.cars, (intervalMsFlag_main env s).trans hc.ticks⟩
  | irq e =>
    by_cases hp : s.pc = .reset
    · simp only [Sys.step, Sys.pulses, if_pos hp, List.append_nil]
      exact hc
    simp only [Sys.step, Sys.pulses, if_neg hp]
    cases e with
    | exti4 pin tim2 junk =>
      by_cases hh : held pin
      · simp only [irq, if_pos hh]
        refine ⟨?_, ?_⟩
        · rw [carsOf_snoc]
          exact (sensor1_carNo tim2 s.drive).trans (by rw [hc.cars, ofNat_succ16])
        · rw [ticksOf_snoc]
          rfl
      · simp only [irq, if_neg hh, List.append_nil]
        exact hc
    | exti95 in7 in10 tim2 =>
      have h7 : Counted (if in7.any held then { s with drive := timExtiProcess 2 tim2 s.drive }
          else s) h := by
        split_ifs
        · exact ⟨(timExtiProcess_carNo 2 tim2 s.drive).trans hc.cars, hc.ticks⟩
        · exact hc
      by_cases h10 : in10.any held
      · simp only [irq, exti95, if_pos h10]
        refine ⟨?_, ?_⟩
        · rw [carsOf_snoc]
          rfl
        · rw [ticksOf_snoc]
          exact h7.ticks
      · simp only [irq, exti95, if_neg h10, List.append_nil]
        exact h7
    | tim2 =>
      rw [List.append_nil]
      exact ⟨(carNo_step s.drive .tim2Update).trans hc.cars, hc.ticks⟩
    | tim3 =>
      by_cases hz : CNum.eq s.drive.wcs2GndParaData.speedTarget (ofInt 0)
      · simp only [irq, if_pos hz, List.append_nil]
        exact hc
      · simp only [irq, if_neg hz]
        refine ⟨?_, ?_⟩
        · rw [carsOf_snoc]
          exact hc.cars
        · rw [ticksOf_snoc, ← ofNat_succ16, ← hc.ticks]
    | sysTick =>
      rw [List.append_nil]
      simp only [irq, timeUpdate]
      split_ifs <;> exact ⟨hc.cars, hc.ticks⟩

/-- After every run the firmware has counted its history. -/
theorem counted_run {s : Sys F} {h : List Pulse} (hc : Counted s h) (es : List Input) :
    Counted (run Sys.step s es) (h ++ collect Sys.step Sys.pulses s es) := by
  induction es generalizing s h with
  | nil =>
    rw [collect, List.append_nil]
    exact hc
  | cons e es ih =>
    rw [run_cons, collect, ← List.append_assoc]
    exact ih (counted_step hc e)

omit [CNum F] [CNum D] [CFloat F D] in
/-- A record says the truth just if its numbers have not wrapped. -/
theorem Counted.truthful_iff {s : Sys F} {h : List Pulse} (hc : Counted s h) (junk : U16) :
    Truthful h (intervalData s.msg.intervalMsFlag s.drive) (stateNode junk s.drive) ↔
      carsOf h + 1 < 2 ^ 16 ∧ ticksOf h < 2 ^ 16 := by
  have hnext : s.drive.carNo + 1 = BitVec.ofNat 16 (carsOf h + 1) := by rw [hc.cars, ofNat_succ16]
  have hcur : (s.drive.carNo + 1).toNat = (carsOf h + 1) % 2 ^ 16 := by
    rw [hnext, BitVec.toNat_ofNat]
  have hint : s.msg.intervalMsFlag.toNat = ticksOf h % 2 ^ 16 := by
    rw [hc.ticks, BitVec.toNat_ofNat]
  constructor
  · intro ht
    have h₁ : (carsOf h + 1) % 2 ^ 16 = carsOf h + 1 := by
      rw [← hcur]
      exact ht.cur.trans (carsOf_snoc h .car)
    have h₂ : ticksOf h % 2 ^ 16 = ticksOf h := hint.symm.trans ht.interval
    omega
  · rintro ⟨h₁, h₂⟩
    have hpre : s.drive.carNo.toNat = carsOf h := by
      rw [hc.cars, BitVec.toNat_ofNat]
      omega
    have hpos : s.drive.carNo + 1 > 0 := by
      rw [gt_iff_lt, BitVec.lt_def, hcur]
      simp
      omega
    refine ⟨?_, ?_, ?_, ?_⟩
    · change (s.drive.carNo + 1).toNat = _
      rw [hcur, carsOf_snoc]
      exact Nat.mod_eq_of_lt h₁
    · change s.drive.carNo.toNat + 1 = (s.drive.carNo + 1).toNat
      rw [hcur, hpre]
      exact (Nat.mod_eq_of_lt h₁).symm
    · exact hint.trans (Nat.mod_eq_of_lt h₂)
    · change (if s.drive.carNo + 1 > 0 then s.drive.carNo + 1 - 1 else junk) = s.drive.carNo
      rw [if_pos hpos, BitVec.add_sub_cancel]

/-- What the handler of sensor 1 puts into the two queues of records. -/
theorem exti4_records (tim2 junk : U16) (s : Sys F) :
    (exti4 tim2 junk s).msg.gnd2WcsIntervalQueue = s.msg.gnd2WcsIntervalQueue.enQueue
        (intervalData s.msg.intervalMsFlag s.drive) ∧
      (exti4 tim2 junk s).msg.gndstatequeue =
        s.msg.gndstatequeue.enQueue (stateNode junk s.drive) := ⟨rfl, rfl⟩

/-- **The records of every run are truthful** as long as less than 2¹⁶ cars have
    passed since the last reset, this one included, and less than 2¹⁶ ticks were
    counted since the last car, and no longer. -/
theorem records_truthful_iff (ty : U8) (es : List Input) (junk : U16) :
    let s := run Sys.step (Sys.init ty : Sys F) es
    let h := collect Sys.step Sys.pulses (Sys.init ty : Sys F) es
    Truthful h (intervalData s.msg.intervalMsFlag s.drive) (stateNode junk s.drive) ↔
      carsOf h + 1 < 2 ^ 16 ∧ ticksOf h < 2 ^ 16 :=
  (counted_run (h := []) ⟨rfl, rfl⟩ es).truthful_iff junk

/-- Cars, one after the other. -/
theorem collect_cars (tim2 junk : U16) (n : ℕ) {s : Sys F} (hp : s.pc ≠ .reset) :
    collect Sys.step Sys.pulses s (List.replicate n (.irq (.exti4 (fun _ => true) tim2 junk))) =
      List.replicate n .car := by
  induction n generalizing s with
  | zero => rfl
  | succ n ih =>
    have hheld : held (fun _ => true) = true := by decide
    have hpulse : s.pulses (.irq (.exti4 (fun _ => true) tim2 junk)) = [.car] := by
      simp only [Sys.pulses, if_neg hp, if_pos hheld]
    have hnext : (s.step (.irq (.exti4 (fun _ => true) tim2 junk))).pc ≠ .reset := by
      simp only [Sys.step, if_neg hp, irq, if_pos hheld]
      exact hp
    rw [List.replicate_succ, collect, hpulse, ih hnext]
    rfl

theorem carsOf_replicate (n : ℕ) : carsOf (List.replicate n .car) = n := by
  induction n with
  | zero => rfl
  | succ n ih => rw [List.replicate_succ', carsOf_snoc, ih]

end

/-- The 65536th car has the number 0, and its node carries the stack. -/
theorem number_wrapped : ¬ ∀ (es : List Input) (junk : U16),
    let s := run Sys.step (Sys.init 0 : Sys Num) es
    let h := collect Sys.step Sys.pulses (Sys.init 0 : Sys Num) es
    Truthful h (intervalData s.msg.intervalMsFlag s.drive) (stateNode junk s.drive) := by
  intro hall
  have ht := hall (List.replicate (2 ^ 16 - 1) (.irq (.exti4 (fun _ => true) 0 0))) 7
  simp only [collect_cars 0 0 (2 ^ 16 - 1) (s := (Sys.init 0 : Sys Num)) (by simp [Sys.init])] at ht
  have hcur := ht.cur
  rw [carsOf_snoc, carsOf_replicate] at hcur
  exact absurd (hcur ▸ BitVec.isLt _) (by decide)

end GndCtrl
