/-
  Stops.

  Two commands are to stop the line until the next message: a parameter message
  with the speed `0`, and a maintenance message once its position is reached.
  Both leave the start-up staging and the PID running.  `ParaCalm` says when a
  parameter message keeps them at `0`: no frequency for either stage, and calm
  parameters of the PID.

  * `zero_speed_iff` — a message stops the line just when it is calm, whatever
    its speed;
  * `stop_iff` — the stop of maintenance is one after every run just when all
    parameter messages are calm, and the parameters of the start-up.

  The arithmetic is any one.  Without rounding `calm_iff_bounds` gives the bounds
  on the gains, and the parameters of the start-up meet them (`start_calm`).
-/
import GndCtrl.HzLimit
import GndCtrl.Tight

namespace GndCtrl

open CNum CFloat
open GndCtrl.Num (fin inf negInf nan)

variable {F : Type}

/-- No message of the WCS. -/
def Event.Local : Event F → Prop
  | .para _ => False
  | .repair _ => False
  | _ => True

/-- The parameters of the PID in a message. -/
def ParaData.tuning (m : ParaData F) : Tuning F where
  kp := m.fwKp.toNat
  ki := m.fwKi.toNat
  kd := m.fwKd.toNat
  target := m.speedTarget
  pe := m.peDistance.toInt

variable {D : Type} [CNum F] [CNum D] [CFloat F D]

/-- The parameters of the PID before the first message. -/
def startTuning : Tuning F where
  kp := 10
  ki := 5
  kd := 40
  target := ofInt 0
  pe := 0

/-- A parameter message after which the line stays where it is. -/
structure ParaCalm (m : ParaData F) : Prop where
  first : (BitVec.ofInt 16 (toInt (m.speedTarget * ofInt m.speedFactor.toInt)) : U16) = 0
  second : m.standardHz = 0
  pid : m.tuning.Calm

/-- Until the next message no frequency but `0` is put out. -/
def Still (s : Drive F) : Prop :=
  ∀ es : List (Event F), (∀ e ∈ es, e.Local) →
    ∃ l, (run Drive.step s es).rs485 = s.rs485 ++ l ∧ ∀ v ∈ l, v = 0

/-! ## Calm messages are enough -/

/-- Nothing in the drive asks for a frequency. -/
structure AtRest (t : Tuning F) (s : Drive F) : Prop where
  pid : Resting t s.pid
  init : s.fwInitHz = 0
  first : s.firstStageHz = 0
  second : s.secondStageHz = 0

theorem on_recvPara (m : ParaData F) (s : Drive F) : m.tuning.On (recvPara m s).pid :=
  ⟨rfl, rfl, rfl, rfl, rfl⟩

theorem atRest_recvPara {m : ParaData F} (hm : ParaCalm m) (s : Drive F) :
    AtRest m.tuning (recvPara m s) := by
  have hf : (recvPara m s).firstStageHz = 0 := by
    simp only [recvPara, fwInitServo, hm.first]
    rfl
  refine ⟨resting_fresh (on_recvPara m s) ?_ rfl rfl, hf, hf, hm.second⟩
  have hz : (recvPara m s).pid.fwHz =
      if m.standardHz = 0 then ((recvPara m s).firstStageHz.toNat : ℤ) else m.standardHz.toNat :=
    rfl
  rw [hz, if_pos hm.second, hf]
  rfl

/-- The drive starts at rest. -/
theorem atRest_init (ty : U8) : AtRest startTuning (Drive.init ty : Drive F) :=
  ⟨resting_fresh ⟨rfl, rfl, rfl, rfl, rfl⟩ rfl rfl rfl, rfl, rfl, rfl⟩

/-- Errors that lie in no segment ask for nothing. -/
theorem calm_of_outside {t : Tuning F} (h : ∀ n ≤ 65535, pidGain (t.err n) = none ∧
    CNum.le (lit (1 / 20)) (widen (t.err n)) = false ∧ CNum.lt (ofInt 0) (t.err n) = false) :
    t.Calm := by
  intro e i _ n hn
  obtain ⟨hg, hb, hs⟩ := h n hn
  simp only [Tuning.asked, hg, hb, hs, Bool.false_and, Bool.false_eq_true, if_false, le_refl]

/-- With the target `0` and no distance between the sensors every error is `0` or
    undefined. -/
theorem calm_of_zero {t : Tuning Num} (h0 : t.target = fin 0) (hp : t.pe = 0) : t.Calm := by
  refine calm_of_outside fun n _ => ?_
  have herr : t.err n = fin 0 ∨ t.err n = nan := by
    rcases Nat.eq_zero_or_pos n with rfl | hn
    · refine .inr ?_
      rw [Tuning.err, h0, hp]
      rfl
    · have h50 : ((50 * n : ℤ) : ℚ) ≠ 0 := by positivity
      refine .inl ?_
      simp only [Tuning.err, h0, hp, Num.ofInt_eq, Num.fin_div _ _ h50]
      simp
  rcases herr with h | h <;> rw [h]
  · exact ⟨pidGain_nonneg le_rfl, by simp, by simp⟩
  · exact ⟨by simp [pidGain], by simp, by simp⟩

/-- The parameters of the start-up are calm without rounding. -/
theorem start_calm : (startTuning : Tuning Num).Calm := calm_of_zero (by simp [startTuning]) rfl

namespace AtRest
variable {t : Tuning F} {s : Drive F}

theorem stage (h : AtRest t s) : AtRest t (stage s) := by
  rcases stage_cases s with ⟨n, m, e⟩ | ⟨-, -, e⟩ | ⟨-, -, e⟩ | ⟨-, e⟩ <;> rw [e]
  · exact ⟨h.pid, h.init, h.first, h.second⟩
  · exact ⟨h.pid, h.second, h.first, h.second⟩
  · exact ⟨h.pid, h.init, h.first, h.second⟩
  · exact ⟨h.pid, h.first, h.first, h.second⟩

theorem pass (h : AtRest t s) (tim2 : U16) : AtRest t (pass tim2 s) := by
  have hs : AtRest t (if s.servoStart = false then GndCtrl.stage s else s) := by
    split_ifs
    · exact h.stage
    · exact h
  exact ⟨hs.pid, hs.init, hs.first, hs.second⟩

theorem repairLocationCtrl (h : AtRest t s) : AtRest t (repairLocationCtrl s) := by
  obtain e | ⟨v, r, e⟩ := repairLocationCtrl_cases s <;> rw [e]
  · exact h
  · exact ⟨h.pid, h.init, h.first, h.second⟩

/-- Every event but a parameter message keeps the drive at rest. -/
theorem step (h : AtRest t s) (hc : t.Calm) {e : Event F} (he : ∀ m, e ≠ .para m) :
    AtRest t (s.step e) := by
  cases e with
  | para m => exact absurd rfl (he m)
  | repair m =>
    obtain e | e := recvRepair_cases m s <;> rw [Drive.step, e] <;>
      exact ⟨h.pid, h.init, h.first, h.second⟩
  | sensor1 tim2 =>
    have hcar : AtRest t { s with carNo := s.carNo + 1 } := ⟨h.pid, h.init, h.first, h.second⟩
    simp only [Drive.step, sensor1_eq]
    split_ifs
    · exact hcar.repairLocationCtrl
    · exact hcar.pass tim2
  | sensor2 tim2 =>
    simp only [Drive.step, sensor2_eq]
    split_ifs
    · exact h
    · rcases measure_cases 2 tim2 s with ⟨-, hn, -, e⟩ | ⟨-, -, -, e⟩ | e <;> rw [e]
      · exact ⟨h.pid.ctrl hc hn, h.init, h.first, h.second⟩
      · exact ⟨h.pid, h.init, h.first, h.second⟩
      · exact ⟨h.pid, h.init, h.first, h.second⟩
    · exact ⟨h.pid, h.init, h.first, h.second⟩
  | carReset => exact ⟨h.pid, h.init, h.first, h.second⟩
  | recordSent u => exact ⟨h.pid, h.init, h.first, h.second⟩
  | second =>
    obtain e | e := second_cases s <;> rw [Drive.step, e]
    · exact h
    · exact ⟨h.pid, h.init, h.first, h.second⟩
  | tim2Update =>
    obtain ⟨-, e⟩ | ⟨-, e⟩ := tim2Update_cases s <;> rw [Drive.step, e] <;>
      exact ⟨h.pid, h.init, h.first, h.second⟩

/-- Outside maintenance an event puts out nothing or `0`. -/
theorem out (h : AtRest t s) (hc : t.Calm) (hr : s.repairFlag = false) {e : Event F}
    (he : e.Local) : (s.step e).repairFlag = false ∧
      ((s.step e).rs485 = s.rs485 ∨ (s.step e).rs485 = s.rs485 ++ [0]) := by
  cases e with
  | para m => exact absurd he id
  | repair m => exact absurd he id
  | sensor1 tim2 =>
    simp only [Drive.step, sensor1_eq, hr, Bool.false_eq_true, if_false]
    refine ⟨by simp, .inl ?_⟩
    simp only [GndCtrl.pass, timExtiRst]
    split_ifs <;> simp
  | sensor2 tim2 =>
    simp only [Drive.step, sensor2_eq]
    split_ifs
    · exact ⟨hr, .inl rfl⟩
    · rcases measure_cases 2 tim2 s with ⟨-, hn, -, e⟩ | ⟨-, -, -, e⟩ | e <;> rw [e]
      · refine ⟨hr, .inr ?_⟩
        have hz : (s.pid.ctrl (50 * (s.count tim2).toNat)).fwHz = 0 := (h.pid.ctrl hc hn).hz
        simp only [fwPIDctrl, rs485Out_rs485, hz]
      · exact ⟨hr, .inl rfl⟩
      · exact ⟨hr, .inl rfl⟩
    · exact ⟨hr, .inl rfl⟩
  | carReset => exact ⟨hr, .inl rfl⟩
  | recordSent u => exact ⟨hr, .inl rfl⟩
  | second =>
    obtain e | e := second_cases s <;> rw [Drive.step, e]
    · exact ⟨hr, .inl rfl⟩
    · refine ⟨hr, .inr ?_⟩
      rw [rs485Out_rs485, h.init]
      rfl
  | tim2Update =>
    obtain ⟨-, e⟩ | ⟨-, e⟩ := tim2Update_cases s <;> rw [Drive.step, e] <;>
      exact ⟨hr, .inl rfl⟩

/-- **A drive at rest stays so** until the next message. -/
theorem still (h : AtRest t s) (hc : t.Calm) (hr : s.repairFlag = false) : Still s := by
  intro es hes
  have hrun : AtRest t (run Drive.step s es) ∧ (run Drive.step s es).repairFlag = false ∧
      ∃ l, (run Drive.step s es).rs485 = s.rs485 ++ l ∧ ∀ v ∈ l, v = 0 := by
    refine run_inv_of (I := fun s' => AtRest t s' ∧ s'.repairFlag = false ∧
      ∃ l, s'.rs485 = s.rs485 ++ l ∧ ∀ v ∈ l, v = 0) ?_ es hes ⟨h, hr, [], by simp, by simp⟩
    rintro s' e he ⟨hs, hr', l, hl, h0⟩
    have hnp : ∀ m, e ≠ .para m := by
      rintro m rfl
      exact he
    obtain ⟨hr'', ho⟩ := hs.out hc hr' he
    refine ⟨hs.step hc hnp, hr'', ?_⟩
    rcases ho with ho | ho
    · exact ⟨l, by rw [ho, hl], h0⟩
    · refine ⟨l ++ [0], by rw [ho, hl, List.append_assoc], fun v hv => ?_⟩
      rcases List.mem_append.1 hv with hv | hv
      · exact h0 v hv
      · exact List.mem_singleton.1 hv
  exact hrun.2.2

end AtRest

/-! ## Calm messages are needed -/

/-- A drive that begins its start-up with the parameters, outside maintenance. -/
structure Starting (t : Tuning F) (s : Drive F) : Prop where
  restarted : Restarted s
  on : t.On s.pid
  err : s.pid.fwErr1 = ofInt 0
  int : s.pid.fwErrI = ofInt 0
  hz : s.secondStageHz = 0 → s.pid.fwHz = s.fwInitHz.toNat

theorem starting_recvPara (m : ParaData F) (s : Drive F) : Starting m.tuning (recvPara m s) :=
  ⟨restarted_recvPara m s, on_recvPara m s, rfl, rfl, fun h => if_pos h⟩

theorem starting_init (ty : U8) : Starting startTuning (Drive.init ty : Drive F) :=
  ⟨⟨rfl, rfl, rfl, rfl⟩, ⟨rfl, rfl, rfl, rfl, rfl⟩, rfl, rfl, fun _ => rfl⟩

/-- The line is driven by the PID. -/
structure Driving (s : Drive F) : Prop where
  servo : s.servoStart = true
  repair : s.repairFlag = false

/-- The two sensors, with `n` counts between them. -/
def pair (n : ℕ) : List (Event F) := [.sensor1 0, .sensor2 (BitVec.ofNat 16 n)]

/-- A pair of sensors is one measurement. -/
theorem run_pair {s : Drive F} (h : Driving s) {n : ℕ} (hn : n ≤ 65535) :
    Driving (run Drive.step s (pair n)) ∧
      (run Drive.step s (pair n)).pid = s.pid.ctrl (50 * n) ∧
      (run Drive.step s (pair n)).rs485 = s.rs485 ++ [(s.pid.ctrl (50 * n)).fwHz] := by
  have h1 : s.step (.sensor1 0) =
      { s with carNo := s.carNo + 1, timUpdates := 0, extid := 1, timCnt := 0 } := by
    simp [Drive.step, sensor1_eq, h.repair, pass, h.servo, timExtiRst]
  rw [pair, run_cons, run_cons, run_nil, h1, Drive.step, sensor2_eq, if_neg (by simp [h.repair]),
    if_pos rfl]
  generalize hs : ({ s with carNo := s.carNo + 1, timUpdates := 0, extid := 1, timCnt := 0 } :
    Drive F) = s'
  have hcount : (s'.count (BitVec.ofNat 16 n)).toNat = n := by
    rw [← hs]
    simp [Drive.count]
    omega
  have hle : s'.timUpdates ≤ 1 ∧ s'.count (BitVec.ofNat 16 n) ≤ 0xFFFF := by
    refine ⟨by rw [← hs]; simp, ?_⟩
    rw [BitVec.le_def, hcount]
    simpa using hn
  have hservo : s'.servoStart = true := by rw [← hs]; exact h.servo
  have hpid : s'.pid = s.pid := by rw [← hs]
  have hout : s'.rs485 = s.rs485 := by rw [← hs]
  have hrepair : s'.repairFlag = false := by rw [← hs]; exact h.repair
  have hm : measure 2 (BitVec.ofNat 16 n) s' =
      { fwPIDctrl (50 * n) { s' with timUpdates := 0, extid := 2, timCnt := BitVec.ofNat 16 n } with
        speed := s'.count (BitVec.ofNat 16 n)
        speeds := s'.speeds ++ [s'.count (BitVec.ofNat 16 n)] } := by
    simp only [measure, if_pos hle, if_pos hservo, count_time hle.2, hcount]
    rfl
  rw [hm, ← hpid, ← hout]
  exact ⟨⟨hservo, hrepair⟩, rfl, rfl⟩

/-- Pairs of sensors are measurements one after another. -/
theorem run_pairs (ns : List ℕ) {s : Drive F} (h : Driving s) (hns : ∀ n ∈ ns, n ≤ 65535) :
    Driving (run Drive.step s (ns.flatMap pair)) ∧
      (run Drive.step s (ns.flatMap pair)).pid = run (fun p n => p.ctrl (50 * n)) s.pid ns := by
  induction ns generalizing s with
  | nil => exact ⟨h, rfl⟩
  | cons n ns ih =>
    obtain ⟨h1, hp, -⟩ := run_pair h (hns n (List.mem_cons_self ..))
    obtain ⟨h2, hp'⟩ := ih h1 fun m hm => hns m (List.mem_cons_of_mem _ hm)
    rw [List.flatMap_cons, run_append, run_cons]
    exact ⟨h2, by rw [hp', hp]⟩

omit [CNum F] [CNum D] [CFloat F D] in
theorem local_pair {n : ℕ} : ∀ e ∈ (pair n : List (Event F)), e.Local := by
  intro e he
  simp only [pair, List.mem_cons, List.not_mem_nil, or_false] at he
  rcases he with rfl | rfl <;> trivial

/-- An output of a still drive is `0`. -/
theorem Still.last {s : Drive F} (h : Still s) (es es' : List (Event F)) {v : ℤ}
    (hes : ∀ e ∈ es, e.Local) (hes' : ∀ e ∈ es', e.Local)
    (hv : (run Drive.step s (es ++ es')).rs485 = (run Drive.step s es).rs485 ++ [v]) : v = 0 := by
  obtain ⟨l, hl, -⟩ := h es hes
  obtain ⟨l', hl', h0⟩ := h (es ++ es') fun e he => by
    rcases List.mem_append.1 he with he | he
    · exact hes e he
    · exact hes' e he
  rw [hl, hl', List.append_assoc] at hv
  refine h0 v ?_
  rw [List.append_cancel_left hv]
  exact List.mem_append_right _ (List.mem_singleton_self v)

/-- A still drive that the PID controls has a silent PID. -/
theorem Still.silent {s : Drive F} (h : Still s) {es : List (Event F)}
    (hes : ∀ e ∈ es, e.Local) (hd : Driving (run Drive.step s es))
    (hz : (run Drive.step s es).pid.fwHz = 0) : Silent (run Drive.step s es).pid := by
  intro ns hns
  rcases List.eq_nil_or_concat' ns with rfl | ⟨ns, n, rfl⟩
  · exact hz
  · obtain ⟨h1, hp⟩ := run_pairs ns hd fun m hm => hns m (List.mem_append_left _ hm)
    obtain ⟨-, -, ho⟩ := run_pair h1 (hns n (by simp))
    rw [run_append, run_cons, run_nil, ← hp]
    have hpairs : ∀ e ∈ es ++ ns.flatMap pair, e.Local := by
      intro e he
      rcases List.mem_append.1 he with he | he
      · exact hes e he
      · obtain ⟨m, -, hm⟩ := List.mem_flatMap.1 he
        exact local_pair e hm
    refine h.last _ _ hpairs (local_pair (n := n)) ?_
    rw [run_append, run_append, ho]

/-- **A drive that is still at its start-up** has no frequency for a stage, and calm
    parameters. -/
theorem Starting.calm {t : Tuning F} {s : Drive F} (hs : Starting t s) (h : Still s) :
    s.fwInitHz = 0 ∧ s.secondStageHz = 0 ∧ t.Calm := by
  -- the next second puts out the frequency of the first stage
  have hinit : s.fwInitHz = 0 := by
    have hsec : (run Drive.step s ([] ++ [.second])).rs485 = s.rs485 ++ [(s.fwInitHz.toNat : ℤ)] := by
      simp [Drive.step, GndCtrl.second, hs.restarted.servo, hs.restarted.repair]
    have h0 := h.last _ _ (by simp) (by simp [Event.Local]) hsec
    exact BitVec.eq_of_toNat_eq (by simpa using h0)
  obtain ⟨c, hrun⟩ := run_staging hs.restarted 0
  have hlocal : ∀ e ∈ List.replicate 12 (Event.sensor1 0 : Event F), e.Local := by
    intro e he
    rw [List.eq_of_mem_replicate he]
    trivial
  -- after twelve cars it is the one of the second stage
  have hsecond : s.secondStageHz = 0 := by
    by_contra hz
    rw [if_neg hz] at hrun
    have hsec : (run Drive.step s (List.replicate 12 (.sensor1 0) ++ [.second])).rs485 =
        (run Drive.step s (List.replicate 12 (.sensor1 0))).rs485 ++
          [(s.secondStageHz.toNat : ℤ)] := by
      rw [run_append, run_cons, run_nil, hrun]
      simp [Drive.step, GndCtrl.second, hs.restarted.servo, hs.restarted.repair]
    have h0 := h.last _ _ hlocal (by simp [Event.Local]) hsec
    exact hz (BitVec.eq_of_toNat_eq (by simpa using h0))
  rw [if_pos hsecond] at hrun
  refine ⟨hinit, hsecond, ?_⟩
  -- without one they hand the line to the PID
  have hpid : (run Drive.step s (List.replicate 12 (.sensor1 0))).pid = s.pid := by rw [hrun]
  have hhz : s.pid.fwHz = 0 := by
    rw [hs.hz hsecond, hinit]
    rfl
  have hd : Driving (run Drive.step s (List.replicate 12 (.sensor1 0))) := by
    rw [hrun]
    exact ⟨rfl, hs.restarted.repair⟩
  have hsilent := h.silent hlocal hd (by rw [hpid, hhz])
  rw [hpid] at hsilent
  exact calm_of_silent hs.on hs.err hs.int hsilent

theorem paraCalm_of {m : ParaData F} {s : Drive F} (hi : (recvPara m s).fwInitHz = 0)
    (hz : (recvPara m s).secondStageHz = 0) (hc : m.tuning.Calm) : ParaCalm m := by
  refine ⟨?_, hz, hc⟩
  simp only [recvPara, fwInitServo] at hi
  split_ifs at hi with hgt
  · exact absurd hi (by decide)
  · exact hi

/-! ## The two stops -/

/-- **A message** stops the line until the next one, after every run, if and only if
    it has no frequency for a stage and calm parameters. -/
theorem zero_speed_iff (ty : U8) (m : ParaData F) :
    (∀ es : List (Event F), Still (recvPara m (run Drive.step (Drive.init ty) es))) ↔
      ParaCalm m := by
  constructor
  · intro h
    obtain ⟨hi, hz, hc⟩ := (starting_recvPara m (Drive.init ty)).calm (h [])
    exact paraCalm_of hi hz hc
  · exact fun hm es => (atRest_recvPara hm _).still hm.pid rfl

/-- A parameter message with the target, the factor and the second frequency
    given, and no gains. -/
def paraMessage (target : ℚ) (factor : U32) (standardHz : U16) : ParaData Num :=
  ⟨List.replicate 11 0, fin 2, fin 0, 0, 0, 0, fin target, factor, 0, standardHz⟩

example : ParaCalm (paraMessage 0 0 0) := ⟨by decide +kernel, rfl, calm_of_zero rfl rfl⟩

/-- With a second frequency of 15 Hz twelve cars start the line again. -/
theorem zero_speed_restarts :
    ¬ ∀ (m : ParaData Num) (es : List (Event Num)), m.speedTarget = fin 0 →
      Still (recvPara m (run Drive.step (Drive.init 0) es)) := by
  intro h
  have hlast := (h (paraMessage 0 0 1500) [] rfl).last (List.replicate 12 (.sensor1 0))
    [.second] (v := 1500) (by simp [Event.Local]) (by simp [Event.Local])
    (by decide +kernel)
  exact absurd hlast (by decide)

/-- The car that reaches the maintenance position. -/
def Reaches (s : Drive F) (tim2 : U16) : Prop :=
  s.repairFlag = true ∧ (s.step (.sensor1 tim2)).repairFlag = false

/-- A message whose position is nine cars ahead, within its adjustment. -/
def nearby : RepairCarCmdData := ⟨List.replicate 11 0, 1, 10, 100, 100, 1000⟩

/-- The switch, the message and the next car: the position is reached. -/
theorem run_nearby (s : Drive F) (tim2 : U16) :
    let s' := run Drive.step s [.carReset, .repair nearby]
    Reaches s' tim2 ∧ ∃ u o, s'.step (.sensor1 tim2) =
      { s with carNo := 1, resetFlag := true, repairFlag := false, repairCarCmdData := nearby,
               repairLocateReal := 10, servoHz := 0, uart := u, rs485 := o } := by
  intro s'
  have hs' : ∃ u o, s' =
      { s with carNo := 0, resetFlag := true, repairFlag := true, repairCarCmdData := nearby,
               repairLocateReal := 10, servoHz := 1000, uart := u, rs485 := o } := by
    have hfar : calDistanceToRealLocate { s with
        carNo := 0, resetFlag := true, repairFlag := true, repairCarCmdData := nearby,
        repairLocateReal := repairTarget nearby } > 2 := by
      simp [calDistanceToRealLocate, repairTarget, nearby]
    simp only [s', run_cons, run_nil, Drive.step, carReset, recvRepair, repairCarParaInit, if_true,
      if_pos hfar]
    exact ⟨_, _, rfl⟩
  obtain ⟨u, o, hs'⟩ := hs'
  have hstep : s'.step (.sensor1 tim2) = rs485Out 0 { s' with carNo := 1, repairFlag := false } := by
    have hcar : ({ s' with carNo := s'.carNo + 1 } : Drive F) = { s' with carNo := 1 } := by
      rw [hs']
      rfl
    have hflag : s'.repairFlag = true := by rw [hs']
    have hreset : s'.resetFlag = true := by rw [hs']
    have hadjust : s'.repairCarCmdData.adjustPara.toNat = 100 := by
      rw [hs']
      rfl
    have hdist : (calMoveDistance { s' with carNo := 1 }).toNat = 9 := by
      rw [hs']
      simp [calMoveDistance]
    rw [Drive.step, sensor1_eq, hcar, if_pos hflag, repairLocationCtrl,
      if_neg (by simp [hflag, hreset])]
    simp only [hdist, hadjust]
    rfl
  refine ⟨⟨by rw [hs'], by rw [hstep]; rfl⟩, ?_⟩
  rw [hstep, hs']
  exact ⟨_, _, rfl⟩

/-- A start-up that is interrupted by the maintenance goes on after it. -/
theorem Starting.nearby {t : Tuning F} {s : Drive F} (h : Starting t s) (tim2 : U16) :
    Starting t ((run Drive.step s [.carReset, .repair nearby]).step (.sensor1 tim2)) ∧
      ((run Drive.step s [.carReset, .repair nearby]).step (.sensor1 tim2)).fwInitHz = s.fwInitHz ∧
      ((run Drive.step s [.carReset, .repair nearby]).step (.sensor1 tim2)).secondStageHz =
        s.secondStageHz := by
  obtain ⟨-, u, o, e⟩ := run_nearby s tim2
  rw [e]
  exact ⟨⟨⟨rfl, h.restarted.servo, h.restarted.adjust, h.restarted.first⟩, h.on, h.err, h.int,
    h.hz⟩, rfl, rfl⟩

/-- **A maintenance stop** is one until the next message, after every run with
    parameter messages from `P`, if and only if all messages in `P` are calm, and the
    parameters that the drive starts with. -/
theorem stop_iff (ty : U8) (P : Set (ParaData F)) :
    (∀ es : List (Event F), (∀ e ∈ es, e.From P Set.univ) → ∀ tim2 : U16,
      Reaches (run Drive.step (Drive.init ty) es) tim2 →
        Still ((run Drive.step (Drive.init ty) es).step (.sensor1 tim2))) ↔
      (startTuning : Tuning F).Calm ∧ ∀ m ∈ P, ParaCalm m := by
  constructor
  · intro h
    refine ⟨?_, fun m hm => ?_⟩
    · obtain ⟨hreach, -⟩ := run_nearby (Drive.init ty : Drive F) 0
      have hfrom : ∀ e ∈ [.carReset, .repair nearby], Event.From P Set.univ e := by
        simp [Event.From]
      have hstill := h _ hfrom 0 hreach
      exact ((starting_init ty).nearby 0).1.calm hstill |>.2.2
    · obtain ⟨hreach, -⟩ := run_nearby (recvPara m (Drive.init ty)) 0
      have hfrom : ∀ e ∈ [.para m, .carReset, .repair nearby], Event.From P Set.univ e := by
        simp [Event.From, hm]
      have hstill := h _ hfrom 0
      rw [run_cons, Drive.step] at hstill
      obtain ⟨hs, hinit, hsecond⟩ := (starting_recvPara m (Drive.init ty)).nearby 0
      obtain ⟨hi, hz, hc⟩ := hs.calm (hstill hreach)
      exact paraCalm_of (hinit.symm.trans hi) (hsecond.symm.trans hz) hc
  · rintro ⟨hstart, hP⟩ es hes tim2 hr
    have hrest : ∃ t : Tuning F, t.Calm ∧ AtRest t (run Drive.step (Drive.init ty) es) := by
      refine run_inv_of (I := fun s => ∃ t : Tuning F, t.Calm ∧ AtRest t s) ?_ es hes
        ⟨startTuning, hstart, atRest_init ty⟩
      rintro s e he ⟨t, hc, hs⟩
      by_cases hpara : ∃ m, e = .para m
      · obtain ⟨m, rfl⟩ := hpara
        exact ⟨m.tuning, (hP m he).pid, atRest_recvPara (hP m he) s⟩
      · have hne : ∀ m, e ≠ .para m := fun m hm => hpara ⟨m, hm⟩
        exact ⟨t, hc, hs.step hc hne⟩
    obtain ⟨t, hc, hs⟩ := hrest
    have hcar : ∀ m : ParaData F, Event.sensor1 tim2 ≠ .para m := fun m hm => by cases hm
    exact (hs.step hc hcar).still hc hr.2

/-- After the stop the next second puts out the frequency of the last message. -/
theorem stop_restarts :
    ¬ ∀ (es : List (Event Num)) (tim2 : U16), Reaches (run Drive.step (Drive.init 0) es) tim2 →
      Still ((run Drive.step (Drive.init 0) es).step (.sensor1 tim2)) := by
  intro h
  have hreach : Reaches (run Drive.step (Drive.init 0)
      [.para (paraMessage 1 1000 0), .carReset, .repair nearby]) 0 :=
    ⟨by decide +kernel, by decide +kernel⟩
  have hlast := (h _ 0 hreach).last [] [.second] (v := 1000) (by simp)
    (by simp [Event.Local]) (by decide +kernel)
  exact absurd hlast (by decide)

end GndCtrl
