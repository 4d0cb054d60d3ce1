/-
  The measurement between the sensors.

  Sensor 1 saves the counter of TIM2 and sensor 2 subtracts the saved value; the
  overflows in between are tallied in `timUpdates`.  An event of sensor 2 stores
  the count and runs the PID on it (`Measured`), or it does neither
  (`Unmeasured`); `Drive.accepted` is the count in terms of the state before it.

  * `interval_exact_iff` — an overflow is counted as 65535 ticks and not as
    65536, so the count is the time between the sensors only if the counter did
    not overflow;
  * `adjacent_iff` — in maintenance the sensors are ignored, and a measurement
    armed before it may be finished after it;
  * `pe_time_iff` — the PID divides by zero if both sensors read the same tick,
    or two neighbouring ones with the overflow between them.
-/
import Mathlib.Data.List.Induction
import GndCtrl.Sensors

namespace GndCtrl

open CNum CFloat

variable {F : Type}

/-- The count that an event of sensor 2 is to store (`measured_iff`). -/
def Drive.accepted (tim2 : U16) (s : Drive F) : Option U32 :=
  if s.repairFlag = false ∧ s.extid = 1 ∧ s.timUpdates ≤ 1 ∧ s.count tim2 ≤ 0xFFFF then
    some (s.count tim2)
  else none

theorem accepted_eq_some {s : Drive F} {tim2 : U16} {cnt : U32} :
    s.accepted tim2 = some cnt ↔ (s.repairFlag = false ∧ s.extid = 1 ∧ s.timUpdates ≤ 1 ∧
      s.count tim2 ≤ 0xFFFF) ∧ s.count tim2 = cnt := by
  rw [Drive.accepted]
  split_ifs with h
  · rw [Option.some.injEq]
    exact ⟨fun e => ⟨h, e⟩, fun e => e.2⟩
  · exact ⟨fun e => by simp at e, fun e => absurd e.1 h⟩

/-! ## The variables of the measurement -/

/-- The variables of the measurement are the same. -/
structure SameTimer (s s' : Drive F) : Prop where
  extid : s'.extid = s.extid
  timCnt : s'.timCnt = s.timCnt
  timUpdates : s'.timUpdates = s.timUpdates

/-- After `k` overflows since sensor 1 saved `c`: they are tallied, or there were
    so many that the measurement was given up. -/
inductive Elapsed (c : U16) (k : ℕ) (d : Drive F) : Prop where
  | armed (hk : k < 0xFFFF) (extid : d.extid = 1) (timCnt : d.timCnt = c)
      (timUpdates : d.timUpdates.toNat = k)
  | lapsed (hk : 0xFFFF ≤ k) (extid : d.extid = 0)

theorem Elapsed.same {c : U16} {k : ℕ} {d d' : Drive F} (h : Elapsed c k d) (hs : SameTimer d d') :
    Elapsed c k d' := by
  cases h with
  | armed hk he ht hu =>
    exact .armed hk (hs.extid.trans he) (hs.timCnt.trans ht) (by rw [hs.timUpdates, hu])
  | lapsed hk he => exact .lapsed hk (hs.extid.trans he)

theorem Elapsed.update {c : U16} {k : ℕ} {d : Drive F} (h : Elapsed c k d) :
    Elapsed c (k + 1) (tim2Update d) := by
  have hcount : ∀ hk : k < 0xFFFF, d.timUpdates.toNat = k →
      (d.timUpdates + 1).toNat = k + 1 := by
    intro hk hu
    rw [BitVec.toNat_add, hu]
    simp
    omega
  obtain ⟨hlt, e⟩ | ⟨hge, e⟩ := tim2Update_cases d <;> rw [e]
  · cases h with
    | armed hk he ht hu =>
      have hn := hcount hk hu
      rw [BitVec.lt_def, hn] at hlt
      exact .armed hlt he ht hn
    | lapsed hk he => exact .lapsed (by omega) he
  · cases h with
    | armed hk he ht hu =>
      rw [BitVec.le_def, hcount hk hu] at hge
      exact .lapsed hge rfl
    | lapsed hk he => exact .lapsed (by omega) rfl

/-! ## Events of sensor 2 -/

section
variable {D : Type} [CNum F] [CNum D] [CFloat F D]

/-- An event of sensor 2 with a count to store. -/
theorem sensor2_accepted {s : Drive F} {tim2 : U16} {cnt : U32} (h : s.accepted tim2 = some cnt) :
    timExtiProcess 2 tim2 s =
      let s' := { s with timUpdates := 0, extid := 2, timCnt := tim2 }
      { (if s.servoStart then fwPIDctrl (cnt * 50).toInt s' else s') with
        speed := cnt, speeds := s.speeds ++ [cnt] } := by
  obtain ⟨⟨hr, he, hu, hc⟩, rfl⟩ := accepted_eq_some.1 h
  have hopen : ¬ (s.repairFlag || s.extid = 0) = true := by
    rw [hr, he]
    decide
  rw [sensor2_eq, if_neg hopen, if_pos he, measure, if_pos ⟨hu, hc⟩]
  cases s.servoStart <;> rfl

/-- Any other event of sensor 2 changes the variables of the measurement only,
    and leaves it disarmed. -/
theorem sensor2_rejected {s : Drive F} {tim2 : U16} (h : s.accepted tim2 = none) :
    ∃ u e t, timExtiProcess 2 tim2 s = { s with timUpdates := u, extid := e, timCnt := t } ∧
      (s.repairFlag = false → e ≠ 1) := by
  rw [sensor2_eq]
  split_ifs with h1 h2
  · refine ⟨s.timUpdates, s.extid, s.timCnt, rfl, fun hr he => ?_⟩
    rw [hr, he] at h1
    exact absurd h1 (by decide)
  · refine ⟨0, 2, tim2, ?_, fun _ => by decide⟩
    have hr : s.repairFlag = false := by
      rw [Bool.or_eq_true, not_or, Bool.not_eq_true] at h1
      exact h1.1
    have hout : ¬ (s.timUpdates ≤ 1 ∧ s.count tim2 ≤ 0xFFFF) := by
      rintro ⟨hu, hc⟩
      rw [Drive.accepted, if_pos ⟨hr, h2, hu, hc⟩] at h
      simp at h
    rw [measure, if_neg hout]
  · exact ⟨s.timUpdates, 0, s.timCnt, rfl, fun _ => by decide⟩

/-- The measurement is accepted: the count is stored, and the PID runs on it if
    the line has been handed over. -/
structure Measured (cnt : U32) (s s' : Drive F) : Prop where
  speed : s'.speed = cnt
  speeds : s'.speeds = s.speeds ++ [cnt]
  calls : s'.calls = s.calls ++ if s.servoStart then [(cnt * 50).toInt] else []
  pid : s'.pid = if s.servoStart then s.pid.ctrl (cnt * 50).toInt else s.pid

/-- The measurement is not accepted: nothing is stored and the PID does not run. -/
structure Unmeasured (s s' : Drive F) : Prop where
  speed : s'.speed = s.speed
  speeds : s'.speeds = s.speeds
  calls : s'.calls = s.calls
  pid : s'.pid = s.pid

theorem sensor2_measured {s : Drive F} {tim2 : U16} {cnt : U32} (h : s.accepted tim2 = some cnt) :
    Measured cnt s (s.step (.sensor2 tim2)) := by
  rw [Drive.step, sensor2_accepted h]
  cases hv : s.servoStart with
  | true => exact ⟨rfl, rfl, by rw [if_pos hv]; rfl, by rw [if_pos hv]; rfl⟩
  | false =>
    have hn : ¬ s.servoStart = true := by simp [hv]
    exact ⟨rfl, rfl, by rw [if_neg hn, List.append_nil]; rfl, by rw [if_neg hn]; rfl⟩

theorem sensor2_unmeasured {s : Drive F} {tim2 : U16} (h : s.accepted tim2 = none) :
    Unmeasured s (s.step (.sensor2 tim2)) := by
  obtain ⟨u, e, t, hs, -⟩ := sensor2_rejected h
  rw [Drive.step, hs]
  exact ⟨rfl, rfl, rfl, rfl⟩

/-- What an event of sensor 2 stores. -/
theorem measured_iff {s : Drive F} {tim2 : U16} {cnt : U32} :
    Measured cnt s (s.step (.sensor2 tim2)) ↔ s.accepted tim2 = some cnt := by
  refine ⟨fun h => ?_, sensor2_measured⟩
  cases hacc : s.accepted tim2 with
  | none =>
    have hlen := congrArg List.length (h.speeds.symm.trans (sensor2_unmeasured hacc).speeds)
    simp at hlen
  | some c => rw [← h.speed, (sensor2_measured hacc).speed]

theorem unmeasured_iff {s : Drive F} {tim2 : U16} :
    Unmeasured s (s.step (.sensor2 tim2)) ↔ s.accepted tim2 = none := by
  refine ⟨fun h => ?_, sensor2_unmeasured⟩
  cases hacc : s.accepted tim2 with
  | none => rfl
  | some c =>
    have hlen := congrArg List.length (h.speeds.symm.trans (sensor2_measured hacc).speeds)
    simp at hlen

/-- Outside maintenance no event of sensor 2 leaves a measurement armed. -/
theorem sensor2_disarmed {s : Drive F} (hr : s.repairFlag = false) (tim2 : U16) :
    (timExtiProcess 2 tim2 s).extid ≠ 1 := by
  have h2 : (2 : U16) ≠ 1 := by decide
  cases h : s.accepted tim2 with
  | none =>
    obtain ⟨u, e, t, hs, he⟩ := sensor2_rejected h
    rw [hs]
    exact he hr
  | some cnt =>
    rw [sensor2_accepted h]
    cases s.servoStart <;> exact h2

/-! ## Events between the sensors -/

/-- Events of the sensors. -/
def Event.IsSensor : Event F → Prop
  | .sensor1 _ => True
  | .sensor2 _ => True
  | _ => False

/-- Overflows of TIM2. -/
def Event.isUpdate : Event F → Bool
  | .tim2Update => true
  | _ => false

/-- An event of a sensor in maintenance, which `TIM_EXTI_Process` ignores, or an
    event of another kind. -/
def Unnoticed (s : Drive F) (e : Event F) : Prop := e.IsSensor → s.repairFlag = true

/-- Unnoticed events but an overflow leave the measurement alone. -/
theorem sameTimer_step {s : Drive F} {e : Event F} (he : Unnoticed s e) (hu : e.isUpdate = false) :
    SameTimer s (s.step e) := by
  cases e with
  | para m => exact ⟨rfl, rfl, rfl⟩
  | repair m =>
    obtain h | h := recvRepair_cases m s <;> rw [Drive.step, h] <;> exact ⟨rfl, rfl, rfl⟩
  | sensor1 tim2 =>
    rw [Drive.step, sensor1_eq, if_pos (he trivial)]
    obtain h | ⟨v, r, h⟩ := repairLocationCtrl_cases { s with carNo := s.carNo + 1 } <;> rw [h] <;>
      exact ⟨rfl, rfl, rfl⟩
  | sensor2 tim2 =>
    have hr : (s.repairFlag || s.extid = 0) = true := by rw [he trivial, Bool.true_or]
    rw [Drive.step, sensor2_eq, if_pos hr]
    exact ⟨rfl, rfl, rfl⟩
  | carReset => exact ⟨rfl, rfl, rfl⟩
  | second =>
    obtain h | h := second_cases s <;> rw [Drive.step, h] <;> exact ⟨rfl, rfl, rfl⟩
  | tim2Update => simp [Event.isUpdate] at hu
  | recordSent u => exact ⟨rfl, rfl, rfl⟩

omit [CNum F] [CNum D] [CFloat F D] in
theorem eq_tim2Update {e : Event F} (h : e.isUpdate = true) : e = .tim2Update := by
  cases e <;> simp_all [Event.isUpdate]

theorem elapsed_run {c : U16} {es : List (Event F)} {k : ℕ} {d : Drive F}
    (hes : Along Drive.step Unnoticed d es) (h : Elapsed c k d) :
    Elapsed c (k + es.countP Event.isUpdate) (run Drive.step d es) := by
  induction es generalizing k d with
  | nil => exact h
  | cons e es ih =>
    obtain ⟨he, hrest⟩ := hes
    cases hu : e.isUpdate with
    | false =>
      rw [List.countP_cons_of_neg (by rw [hu]; exact Bool.false_ne_true)]
      exact ih hrest (h.same (sameTimer_step he hu))
    | true =>
      obtain rfl := eq_tim2Update hu
      rw [List.countP_cons_of_pos hu, ← Nat.add_assoc, Nat.add_right_comm]
      exact ih hrest h.update

end

/-! ## Time -/

/-- The counter of TIM2 at a time. -/
def tim2At (t : ℕ) : U16 := BitVec.ofNat 16 t

/-- Events between a sensor event at `t₁` and the next one at `t₂`: each overflow
    of the counter up to `t₂` has been handled. -/
structure Between (t₁ t₂ : ℕ) (es : List (Event F)) : Prop where
  apart : ∀ e ∈ es, ¬ e.IsSensor
  updates : es.countP Event.isUpdate = t₂ / 65536 - t₁ / 65536

theorem count_toNat (s : Drive F) (tim2 : U16) : (s.count tim2).toNat =
    (2 ^ 32 - s.timCnt.toNat + (tim2.toNat + 65535 * s.timUpdates.toNat)) % 2 ^ 32 := by
  rw [Drive.count, BitVec.toNat_sub, BitVec.toNat_add, BitVec.toNat_mul, BitVec.toNat_setWidth,
    BitVec.toNat_setWidth]
  have := tim2.isLt
  have := s.timCnt.isLt
  simp
  omega

/-- What is measured between times: one tick less for an overflow. -/
theorem accepted_elapsed {t₁ t₂ : ℕ} (ht : t₁ ≤ t₂) {d : Drive F}
    (h : Elapsed (tim2At t₁) (t₂ / 65536 - t₁ / 65536) d) :
    d.accepted (tim2At t₂) =
      if d.repairFlag then none
      else if t₁ / 65536 = t₂ / 65536 then some (BitVec.ofNat 32 (t₂ - t₁))
      else if t₂ - t₁ ≤ 65536 then some (BitVec.ofNat 32 (t₂ - t₁ - 1))
      else none := by
  cases hr : d.repairFlag with
  | true => simp [Drive.accepted, hr]
  | false =>
    have h1 : (tim2At t₁).toNat = t₁ % 65536 := by simp [tim2At]
    have h2 : (tim2At t₂).toNat = t₂ % 65536 := by simp [tim2At]
    have hcount := count_toNat d (tim2At t₂)
    cases h with
    | armed hk he hc hu =>
      rw [hc, hu, h1, h2] at hcount
      simp only [Bool.false_eq_true, if_false]
      have hun : d.timUpdates ≤ 1 ↔ t₂ / 65536 - t₁ / 65536 ≤ 1 := by
        rw [BitVec.le_def, hu]
        rfl
      have hcn : d.count (tim2At t₂) ≤ 0xFFFF ↔ (d.count (tim2At t₂)).toNat ≤ 65535 := Iff.rfl
      split_ifs with h3 h4
      · refine accepted_eq_some.2 ⟨⟨hr, he, hun.2 (by omega), hcn.2 (by omega)⟩, ?_⟩
        apply BitVec.eq_of_toNat_eq
        rw [BitVec.toNat_ofNat]
        omega
      · refine accepted_eq_some.2 ⟨⟨hr, he, hun.2 (by omega), hcn.2 (by omega)⟩, ?_⟩
        apply BitVec.eq_of_toNat_eq
        rw [BitVec.toNat_ofNat]
        omega
      · refine if_neg ?_
        rintro ⟨-, -, hu1, hc1⟩
        rw [hun] at hu1
        rw [hcn] at hc1
        omega
    | lapsed hk he =>
      have hnone : d.accepted (tim2At t₂) = none := by
        refine if_neg ?_
        rintro ⟨-, he1, -⟩
        rw [he] at he1
        simp at he1
      rw [hnone]
      simp only [Bool.false_eq_true, if_false]
      rw [if_neg (by omega), if_neg (by omega)]

section
variable {D : Type} [CNum F] [CNum D] [CFloat F D]

theorem elapsed_sensor1 {s : Drive F} (h : s.repairFlag = false) (tim2 : U16) :
    Elapsed tim2 0 (s.step (.sensor1 tim2)) := by
  rw [Drive.step, sensor1_eq, if_neg (by rw [h]; exact Bool.false_ne_true)]
  exact .armed (by decide) rfl rfl rfl

/-- **The measured interval.**  Between sensor 1 at `t₁` and sensor 2 at `t₂` the
    measurement is accepted just when at most `0xFFFF` ticks passed, and with
    their number, if and only if maintenance has not begun and the counter did
    not overflow, or the interval is too long to be accepted at all. -/
theorem interval_exact_iff {s : Drive F} (hs : s.repairFlag = false) {t₁ t₂ : ℕ} (ht : t₁ ≤ t₂)
    {es : List (Event F)} (hes : Between t₁ t₂ es) :
    let d := run Drive.step (s.step (.sensor1 (tim2At t₁))) es
    let d' := d.step (.sensor2 (tim2At t₂))
    (if t₂ - t₁ ≤ 0xFFFF then Measured (BitVec.ofNat 32 (t₂ - t₁)) d d' else Unmeasured d d') ↔
      if d.repairFlag then 0xFFFF < t₂ - t₁
      else t₁ / 65536 = t₂ / 65536 ∨ 65536 < t₂ - t₁ := by
  intro d d'
  have hd : Elapsed (tim2At t₁) (t₂ / 65536 - t₁ / 65536) d := by
    have hquiet : Along Drive.step Unnoticed (s.step (.sensor1 (tim2At t₁))) es :=
      along_of_mem fun e he _ hsensor => absurd hsensor (hes.apart e he)
    have h := elapsed_run (k := 0) hquiet (elapsed_sensor1 hs (tim2At t₁))
    rwa [hes.updates, Nat.zero_add] at h
  simp only [d', measured_iff, unmeasured_iff, accepted_elapsed ht hd]
  cases d.repairFlag with
  | true =>
    simp only [if_true, reduceCtorEq]
    split_ifs with h3
    · simp only [false_iff]
      omega
    · simp only [true_iff]
      omega
  | false =>
    simp only [Bool.false_eq_true, if_false]
    by_cases hw : t₁ / 65536 = t₂ / 65536
    · rw [if_pos (show t₂ - t₁ ≤ 65535 by omega), if_pos hw]
      exact ⟨fun _ => .inl hw, fun _ => rfl⟩
    by_cases hlong : 65536 < t₂ - t₁
    · rw [if_neg (show ¬ t₂ - t₁ ≤ 65535 by omega), if_neg hw, if_neg (by omega)]
      exact ⟨fun _ => .inr hlong, fun _ => rfl⟩
    · -- one overflow: one tick is missing
      rw [if_neg hw, if_pos (show t₂ - t₁ ≤ 65536 by omega)]
      refine ⟨fun h => ?_, fun h => (h.elim hw hlong).elim⟩
      split_ifs at h
      have hn := congrArg BitVec.toNat (Option.some.inj h)
      rw [BitVec.toNat_ofNat, BitVec.toNat_ofNat] at hn
      omega

end

/-- A car after 200 ticks, without an overflow. -/
theorem interval_exact_200 :
    let d : Drive Num := run Drive.step ((Drive.init 0).step (.sensor1 (tim2At 100))) []
    Measured 200 d (d.step (.sensor2 (tim2At 300))) := by
  have hs : (Drive.init 0 : Drive Num).repairFlag = false := rfl
  have hes : Between 100 300 ([] : List (Event Num)) := ⟨by simp, rfl⟩
  exact (interval_exact_iff hs (by decide) hes).2 (by decide)

/-- A car after 200 ticks, with the overflow between the sensors, is measured with
    199. -/
theorem interval_short :
    ¬ ∀ (s : Drive Num) (t₁ t₂ : ℕ) (es : List (Event Num)), s.repairFlag = false → t₁ ≤ t₂ →
      Between t₁ t₂ es →
      let d := run Drive.step (s.step (.sensor1 (tim2At t₁))) es
      let d' := d.step (.sensor2 (tim2At t₂))
      if t₂ - t₁ ≤ 0xFFFF then Measured (BitVec.ofNat 32 (t₂ - t₁)) d d' else Unmeasured d d' := by
  intro h
  have h200 := h (Drive.init 0) 65436 65636 [.tim2Update] rfl (by decide)
    ⟨by simp [Event.IsSensor], rfl⟩
  rw [if_pos (by decide)] at h200
  exact absurd h200.speed (by decide)

/-! ## The calls of the PID -/

section
variable {D : Type} [CNum F] [CNum D] [CFloat F D]

/-- Only an event of sensor 2 calls the PID. -/
theorem step_calls (s : Drive F) {e : Event F} (he : ∀ tim2, e ≠ .sensor2 tim2) :
    (s.step e).calls = s.calls := by
  cases e with
  | para m => rfl
  | repair m =>
    rw [Drive.step]
    obtain h | h := recvRepair_cases m s
    · rw [h]
      rfl
    · rw [h]
  | sensor1 tim2 =>
    rw [Drive.step, sensor1_eq]
    split_ifs
    · obtain h | ⟨v, r, h⟩ := repairLocationCtrl_cases { s with carNo := s.carNo + 1 }
      · rw [h]
      · rw [h]
        rfl
    · rw [pass, timExtiRst]
      split_ifs
      · exact stage_calls _
      · rfl
  | sensor2 tim2 => exact absurd rfl (he tim2)
  | carReset => rfl
  | second =>
    rw [Drive.step]
    obtain h | h := second_cases s
    · rw [h]
    · rw [h]
      rfl
  | tim2Update => obtain ⟨-, h⟩ | ⟨-, h⟩ := tim2Update_cases s <;> rw [Drive.step, h]
  | recordSent u => rfl

/-- The calls of the PID that a step makes. -/
def newCalls (s : Drive F) (e : Event F) : List ℤ := (s.step e).calls.drop s.calls.length

/-- A step calls the PID at an accepted measurement, if the line has been handed
    over. -/
theorem newCalls_sensor2 (s : Drive F) (tim2 : U16) : newCalls s (.sensor2 tim2) =
    if s.servoStart then ((s.accepted tim2).map fun cnt => (cnt * 50).toInt).toList else [] := by
  rw [newCalls]
  cases h : s.accepted tim2 with
  | none =>
    rw [(sensor2_unmeasured h).calls, List.drop_length]
    split_ifs <;> rfl
  | some cnt =>
    rw [(sensor2_measured h).calls, List.drop_left]
    split_ifs <;> rfl

theorem newCalls_other (s : Drive F) {e : Event F} (he : ∀ tim2, e ≠ .sensor2 tim2) :
    newCalls s e = [] := by
  rw [newCalls, step_calls s he, List.drop_length]

theorem step_newCalls (s : Drive F) (e : Event F) :
    (s.step e).calls = s.calls ++ newCalls s e := by
  by_cases he : ∃ tim2, e = .sensor2 tim2
  · obtain ⟨tim2, rfl⟩ := he
    rw [newCalls]
    cases h : s.accepted tim2 with
    | none => rw [(sensor2_unmeasured h).calls, List.drop_length, List.append_nil]
    | some cnt => rw [(sensor2_measured h).calls, List.drop_left]
  · have hother : ∀ tim2, e ≠ .sensor2 tim2 := fun tim2 h => he ⟨tim2, h⟩
    rw [newCalls_other s hother, step_calls s hother, List.append_nil]

/-- The PID runs on these calls, and a parameter message sets it up anew. -/
theorem step_pid (s : Drive F) {e : Event F} (he : ∀ m, e ≠ .para m) :
    (s.step e).pid = (newCalls s e).foldl (fun p peTime => p.ctrl peTime) s.pid := by
  cases e with
  | para m => exact absurd rfl (he m)
  | repair m =>
    rw [newCalls_other s fun _ h => by cases h]
    obtain h | h := recvRepair_cases m s <;> rw [Drive.step, h] <;> rfl
  | sensor1 tim2 =>
    rw [newCalls_other s (fun _ h => by cases h), Drive.step, sensor1_eq]
    split_ifs
    · obtain h | ⟨v, r, h⟩ := repairLocationCtrl_cases { s with carNo := s.carNo + 1 } <;> rw [h] <;>
        rfl
    · rw [pass, timExtiRst]
      split_ifs
      · exact stage_pid _
      · rfl
  | sensor2 tim2 =>
    rw [newCalls_sensor2]
    cases h : s.accepted tim2 with
    | none =>
      rw [(sensor2_unmeasured h).pid]
      split_ifs <;> rfl
    | some cnt =>
      rw [(sensor2_measured h).pid]
      split_ifs <;> rfl
  | carReset => rw [newCalls_other s fun _ h => by cases h]; rfl
  | second =>
    rw [newCalls_other s fun _ h => by cases h]
    obtain h | h := second_cases s <;> rw [Drive.step, h] <;> rfl
  | tim2Update =>
    rw [newCalls_other s fun _ h => by cases h]
    obtain ⟨-, h⟩ | ⟨-, h⟩ := tim2Update_cases s <;> rw [Drive.step, h] <;> rfl
  | recordSent u => rw [newCalls_other s fun _ h => by cases h]; rfl

/-- The calls of a step are made with a `pe_time` of at least 1, the product of the
    count that the step stores without overflow. -/
def PeTimeOk (s : Drive F) (e : Event F) : Prop :=
  ∀ peTime ∈ newCalls s e, 1 ≤ peTime ∧ peTime = 50 * (s.step e).speed.toNat

instance instDecidablePeTimeOk (s : Drive F) (e : Event F) : Decidable (PeTimeOk s e) :=
  inferInstanceAs (Decidable (∀ _ ∈ _, _))

/-- Every event of sensor 2 that is measured with the PID in charge comes after the
    tick at which sensor 1 began the measurement, and it does not come at the next
    one if the counter overflowed at it. -/
def MovedOn (s : Drive F) (es : List (Event F)) : Prop :=
  ∀ es₁ c mid tim2 es₂, es = es₁ ++ .sensor1 c :: mid ++ .sensor2 tim2 :: es₂ →
    (run Drive.step s es₁).repairFlag = false →
    Along Drive.step Unnoticed (run Drive.step s (es₁ ++ [.sensor1 c])) mid →
    (run Drive.step s (es₁ ++ .sensor1 c :: mid)).repairFlag = false →
    (run Drive.step s (es₁ ++ .sensor1 c :: mid)).servoStart = true →
    ¬ (mid.countP Event.isUpdate = 0 ∧ tim2 = c) ∧
      ¬ (mid.countP Event.isUpdate = 1 ∧ c = 0xFFFF ∧ tim2 = 0)

/-- A measurement that is armed was armed by sensor 1, and the sensors have not been
    noticed since. -/
theorem armed_since {s : Drive F} (hs : s.extid ≠ 1) {es : List (Event F)}
    (h : (run Drive.step s es).extid = 1) :
    ∃ es₁ c mid, es = es₁ ++ .sensor1 c :: mid ∧ (run Drive.step s es₁).repairFlag = false ∧
      Along Drive.step Unnoticed (run Drive.step s (es₁ ++ [.sensor1 c])) mid := by
  induction es using List.reverseRecOn with
  | nil => exact absurd h hs
  | append_singleton es e ih =>
    rw [run_append, run_cons, run_nil] at h
    by_cases hn : Unnoticed (run Drive.step s es) e
    · have hbefore : (run Drive.step s es).extid = 1 := by
        cases hu : e.isUpdate with
        | false => rwa [← (sameTimer_step hn hu).extid]
        | true =>
          obtain rfl := eq_tim2Update hu
          obtain ⟨-, e⟩ | ⟨-, e⟩ := tim2Update_cases (run Drive.step s es) <;>
            rw [Drive.step, e] at h
          · exact h
          · simp at h
      obtain ⟨es₁, c, mid, rfl, hr, hmid⟩ := ih hbefore
      refine ⟨es₁, c, mid ++ [e], by simp, hr, along_append.2 ⟨hmid, ?_, trivial⟩⟩
      rwa [← run_append, List.append_assoc, List.singleton_append]
    · obtain ⟨hsensor, hr⟩ : e.IsSensor ∧ (run Drive.step s es).repairFlag = false := by
        simpa [Unnoticed] using hn
      cases e with
      | sensor1 c => exact ⟨es, c, [], rfl, hr, trivial⟩
      | sensor2 tim2 => exact absurd h (sensor2_disarmed hr tim2)
      | _ => exact absurd hsensor id

theorem peTimeOk_sensor2 {s : Drive F} {tim2 : U16} : PeTimeOk s (.sensor2 tim2) ↔
    (s.servoStart = true → ∀ cnt, s.accepted tim2 = some cnt → cnt ≠ 0) := by
  rw [PeTimeOk, newCalls_sensor2]
  cases hv : s.servoStart with
  | false => simp
  | true =>
    cases hacc : s.accepted tim2 with
    | none => simp
    | some cnt =>
      have hle : cnt ≤ 0xFFFF := by
        obtain ⟨⟨-, -, -, hc⟩, rfl⟩ := accepted_eq_some.1 hacc
        exact hc
      have h0 : cnt = 0 ↔ cnt.toNat = 0 := by rw [← BitVec.toNat_inj]; rfl
      simp only [if_true, Option.map_some, Option.toList_some, List.mem_singleton, forall_eq,
        (sensor2_measured hacc).speed, count_time hle, Option.some.injEq, forall_eq', true_implies,
        ne_eq, h0, and_true]
      omega

omit [CNum F] [CNum D] [CFloat F D] in
/-- When the count is zero. -/
theorem count_eq_zero {s : Drive F} (hu : s.timUpdates ≤ 1) (tim2 : U16) : s.count tim2 = 0 ↔
    (s.timUpdates.toNat = 0 ∧ tim2 = s.timCnt) ∨
      (s.timUpdates.toNat = 1 ∧ s.timCnt = 0xFFFF ∧ tim2 = 0) := by
  have hu' : s.timUpdates.toNat ≤ 1 := hu
  have hc := count_toNat s tim2
  have h1 := tim2.isLt
  have h2 := s.timCnt.isLt
  simp only [← BitVec.toNat_inj, show (0 : U32).toNat = 0 from rfl,
    show (0 : U16).toNat = 0 from rfl, show (0xFFFF : U16).toNat = 65535 from rfl]
  obtain hu0 | hu1 : s.timUpdates.toNat = 0 ∨ s.timUpdates.toNat = 1 := by omega
  · rw [hu0] at hc ⊢
    omega
  · rw [hu1] at hc ⊢
    omega

omit [CNum F] [CNum D] [CFloat F D] in
/-- The count is zero between the same tick, or two at an overflow. -/
theorem accepted_zero {c tim2 : U16} {k : ℕ} {d : Drive F} (h : Elapsed c k d)
    (hr : d.repairFlag = false) : d.accepted tim2 = some 0 ↔
      (k = 0 ∧ tim2 = c) ∨ (k = 1 ∧ c = 0xFFFF ∧ tim2 = 0) := by
  cases h with
  | armed hk he hc hu =>
    subst hc hu
    constructor
    · intro h0
      obtain ⟨⟨-, -, hle, -⟩, hz⟩ := accepted_eq_some.1 h0
      exact (count_eq_zero hle tim2).1 hz
    · intro hz
      have hle : d.timUpdates ≤ 1 := by
        rw [BitVec.le_def]
        change d.timUpdates.toNat ≤ 1
        omega
      have h0 := (count_eq_zero hle tim2).2 hz
      exact accepted_eq_some.2 ⟨⟨hr, he, hle, by rw [h0]; decide⟩, h0⟩
  | lapsed hk he =>
    have hnone : d.accepted tim2 ≠ some 0 := by
      intro h0
      have h1 := (accepted_eq_some.1 h0).1.2.1
      rw [he] at h1
      exact absurd h1 (by decide)
    simp only [hnone, false_iff]
    omega

/-- **The division of the PID.**  In every run all calls of `fwPIDctrl` are made with
    a positive `pe_time`, whose product never overflows, if and only if the counter
    has moved on between the sensors of each of them. -/
theorem pe_time_iff (ty : U8) (es : List (Event F)) :
    Along Drive.step PeTimeOk (Drive.init ty) es ↔ MovedOn (Drive.init ty) es := by
  have hinit : (Drive.init ty : Drive F).extid ≠ 1 := by simp [Drive.init]
  -- the overflows since sensor 1
  have helapsed : ∀ es₁ c mid, (run Drive.step (Drive.init ty : Drive F) es₁).repairFlag = false →
      Along Drive.step Unnoticed (run Drive.step (Drive.init ty) (es₁ ++ [.sensor1 c])) mid →
      Elapsed c (mid.countP Event.isUpdate)
        (run Drive.step (Drive.init ty : Drive F) (es₁ ++ .sensor1 c :: mid)) := by
    intro es₁ c mid hr hmid
    rw [run_append, run_cons, run_nil] at hmid
    rw [run_append, run_cons]
    have h := elapsed_run (k := 0) hmid (elapsed_sensor1 hr c)
    rwa [Nat.zero_add] at h
  rw [along_iff]
  constructor
  · intro h es₁ c mid tim2 es₂ hes hr hmid hr' hv
    have hok := peTimeOk_sensor2.1 (h _ _ es₂ hes) hv 0
    rw [accepted_zero (helapsed es₁ c mid hr hmid) hr'] at hok
    exact not_or.1 fun hz => hok hz rfl
  · intro h pre e es₂ hes
    by_cases he : ∃ tim2, e = .sensor2 tim2
    · obtain ⟨tim2, rfl⟩ := he
      rw [peTimeOk_sensor2]
      rintro hv cnt hacc rfl
      obtain ⟨⟨hr', hextid, -⟩, -⟩ := accepted_eq_some.1 hacc
      obtain ⟨es₁, c, mid, rfl, hr, hmid⟩ := armed_since hinit hextid
      rw [accepted_zero (helapsed es₁ c mid hr hmid) hr'] at hacc
      exact not_or.2 (h es₁ c mid tim2 es₂ hes hr hmid hr' hv) hacc
    · have hother : ∀ tim2, e ≠ .sensor2 tim2 := fun tim2 h => he ⟨tim2, h⟩
      intro peTime hp
      rw [newCalls_other _ hother] at hp
      exact absurd hp List.not_mem_nil

end

/-- Both sensors at once, right after the start-up. -/
theorem pe_time_zero :
    ¬ ∀ es : List (Event Num), Along Drive.step PeTimeOk (Drive.init 0) es := by
  intro h
  have h0 := h (.para ⟨[], .fin 0, .fin 0, 0, 0, 0, .fin 0, 0, 0, 0⟩ ::
    List.replicate 12 (.sensor1 500) ++ [.sensor2 500])
  exact absurd h0 (by decide +kernel)

end GndCtrl
