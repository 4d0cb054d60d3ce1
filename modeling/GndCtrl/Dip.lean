/-
  The DIP switches (`scan_dip_state` of main.c).

  The loop adds every sample to `tmp` and starts counting again when `tmp`
  changes.  `Scanning` is its invariant: `tmp` is the union `everHigh` of the samples
  so far, and the counter is the length of the stretch of samples since a pin was
  last seen high for the first time.  So the scan ends with the first such
  stretch of 19 samples (`scan_spec`).

  * `scan_terminates` — a pin is seen high for the first time at most once, so
    the scan ends;
  * `debounced_iff` — a pin that was high once stays in `tmp`, so the last samples
    decide only if no pin falls in them.
-/
import GndCtrl.Main
import GndCtrl.Lib.While
import Mathlib.Data.Fintype.Pi

namespace GndCtrl

/-! ## The scan -/

/-- A sample of `DIP1_STATE`, `DIP2_STATE` and `DIP3_STATE`. -/
abbrev Dip := Fin 3 → Bool

/-- The bits that `scan_dip_state` sets for a sample. -/
def Dip.pattern (p : Dip) : U8 :=
  (if p 0 then 0x01 else 0) ||| (if p 1 then 0x02 else 0) ||| (if p 2 then 0x04 else 0)

/-- The local variables of `scan_dip_state`. -/
structure DipScan where
  tmp : U8
  i : U8
  dipValue : U8

/-- One turn of the loop, with its `i++`. -/
def DipScan.turn (s : DipScan) (p : Dip) : DipScan :=
  let s := if p 0 then { s with tmp := s.tmp ||| 0x01 } else s
  let s := if p 1 then { s with tmp := s.tmp ||| 0x02 } else s
  let s := if p 2 then { s with tmp := s.tmp ||| 0x04 } else s
  let s := if s.dipValue ≠ s.tmp then { s with dipValue := s.tmp, i := 0 } else s
  { s with i := s.i + 1 }

/-- The test of the loop. -/
def DipScan.test (s : DipScan) : Bool := s.i < 20

/-- What a scan leaves, with the number of samples it took. -/
structure DipResult where
  samples : ℕ
  inverterType : U8
  version : List U8
  deriving DecidableEq

/-- `scan_dip_state`, with the content of its uninitialised `dip_value`. -/
def scanDipState (fuel : ℕ) (dipValue : U8) (pins : ℕ → Dip) : Option DipResult :=
  (whileLoop DipScan.test DipScan.turn pins fuel 0 ⟨0, 0, dipValue⟩).map fun r =>
    { samples := r.1
      inverterType := ~~~r.2.dipValue &&& 0x7
      version := [13, 0, 0, 2] }

/-- `main` enters its loop with what a scan has found. -/
theorem init_of_scan {F D : Type} [CNum F] [CNum D] [CFloat F D] {fuel : ℕ} {dipValue : U8}
    {pins : ℕ → Dip} {r : DipResult} (h : scanDipState fuel dipValue pins = some r) :
    (Sys.init r.inverterType : Sys F).drive.inverterType = r.inverterType ∧
      (Sys.init r.inverterType : Sys F).msg.version = r.version := by
  obtain ⟨-, -, rfl⟩ := Option.map_eq_some_iff.1 h
  exact ⟨rfl, rfl⟩

/-! ## Patterns -/

/-- The pins that are high in one of two samples. -/
def Dip.or (q p : Dip) : Dip := fun j => q j || p j

/-- The pins that are high in `p` are high in `q`. -/
def Dip.Within (p q : Dip) : Prop := ∀ j, p j = true → q j = true

theorem or_eq_left_iff {q p : Dip} : q.or p = q ↔ p.Within q := by
  constructor
  · intro h j hj
    rw [← h, Dip.or, hj, Bool.or_true]
  · intro h
    funext j
    rw [Dip.or, Bool.or_eq_left_iff_imp]
    exact h j

theorem Dip.Within.antisymm {p q : Dip} (h : p.Within q) (h' : q.Within p) : p = q := by
  funext j
  exact Bool.eq_iff_iff.2 ⟨h j, h' j⟩

theorem pattern_or : ∀ q p : Dip, (q.or p).pattern = q.pattern ||| p.pattern := by
  decide +kernel

theorem pattern_injective : ∀ {p q : Dip}, p.pattern = q.pattern → p = q := by
  decide +kernel

/-- The inverter type is the pattern, inverted. -/
theorem decode_pattern : ∀ p : Dip, ~~~(~~~p.pattern &&& 0x7) &&& 0x7 = p.pattern := by
  decide

/-- **A turn** adds the sample, and starts counting again if `tmp` changes. -/
theorem turn_eq (s : DipScan) (p : Dip) :
    s.turn p = if s.dipValue ≠ s.tmp ||| p.pattern then
        { tmp := s.tmp ||| p.pattern, i := 1, dipValue := s.tmp ||| p.pattern }
      else { s with tmp := s.tmp ||| p.pattern, i := s.i + 1 } := by
  have hbits : (let s := if p 0 then { s with tmp := s.tmp ||| 0x01 } else s
      let s := if p 1 then { s with tmp := s.tmp ||| 0x02 } else s
      if p 2 then { s with tmp := s.tmp ||| 0x04 } else s) =
      { s with tmp := s.tmp ||| p.pattern } := by
    rw [Dip.pattern]
    split_ifs <;> simp [BitVec.or_assoc]
  simp only [DipScan.turn, hbits]
  split_ifs <;> rfl

/-! ## The invariant -/

/-- The pins that have been high in the first `n` samples. -/
def everHigh (pins : ℕ → Dip) (n : ℕ) : Dip := fun j => (List.range n).any fun k => pins k j

theorem everHigh_iff {pins : ℕ → Dip} {n : ℕ} {j : Fin 3} :
    everHigh pins n j = true ↔ ∃ k < n, pins k j = true := by
  simp only [everHigh, List.any_eq_true, List.mem_range]

theorem everHigh_succ (pins : ℕ → Dip) (n : ℕ) :
    everHigh pins (n + 1) = (everHigh pins n).or (pins n) := by
  funext j
  rw [everHigh, List.range_succ, List.any_append, List.any_cons, List.any_nil, Bool.or_false]
  rfl

/-- In the samples `w` to `w + 18` no pin is high for the first time. -/
def NoNew (pins : ℕ → Dip) (w : ℕ) : Prop :=
  ∀ k, w ≤ k → k < w + 19 → (pins k).Within (everHigh pins k)

/-- The first such samples after the first one. -/
structure FirstNoNew (pins : ℕ → Dip) (w : ℕ) : Prop where
  pos : 1 ≤ w
  noNew : NoNew pins w
  first : ∀ w', 1 ≤ w' → w' < w → ¬ NoNew pins w'

/-- The variables after `m` turns; since sample `w` no pin was high for the first
    time. -/
inductive Scanning (pins : ℕ → Dip) : ℕ → DipScan → Prop
  | start (d : U8) : Scanning pins 0 ⟨0, 0, d⟩
  | counting {m w : ℕ} {i : U8} (hw : 1 ≤ w) (hm : i.toNat + w = m + 1)
      (hi : 1 ≤ i.toNat ∧ i.toNat ≤ 20)
      (noNew : ∀ k, w ≤ k → k < m → (pins k).Within (everHigh pins k))
      (first : ∀ w', 1 ≤ w' → w' < w → ¬ NoNew pins w') :
      Scanning pins m ⟨(everHigh pins m).pattern, i, (everHigh pins m).pattern⟩

theorem test_iff {s : DipScan} : s.test = true ↔ s.i.toNat < 20 := by
  rw [DipScan.test, decide_eq_true_eq]
  rfl

/-- The counter does not wrap. -/
theorem toNat_count {i : U8} (h : i.toNat < 20) : (i + 1).toNat = i.toNat + 1 := by
  have hone : (1 : U8).toNat = 1 := rfl
  rw [BitVec.toNat_add, hone]
  omega

namespace Scanning
variable {pins : ℕ → Dip} {m : ℕ} {s : DipScan}

/-- `tmp` after a turn. -/
theorem everHigh_pattern (h : Scanning pins m s) :
    s.tmp ||| (pins m).pattern = (everHigh pins (m + 1)).pattern := by
  rw [everHigh_succ, pattern_or]
  cases h with
  | start d =>
    have hnone : everHigh pins 0 = fun _ => false := rfl
    have hzero : (Dip.pattern fun _ => false) = 0 := by decide
    rw [hnone, hzero]
  | counting => rfl

theorem turn (h : Scanning pins m s) (ht : s.test = true) :
    Scanning pins (m + 1) (s.turn (pins m)) := by
  rw [turn_eq, h.everHigh_pattern]
  rw [test_iff] at ht
  have hone : (1 : U8).toNat = 1 := rfl
  cases h with
  | start d =>
    have hcount : Scanning pins 1 ⟨(everHigh pins 1).pattern, 1, (everHigh pins 1).pattern⟩ :=
      .counting le_rfl rfl ⟨le_rfl, by decide⟩ (fun k h1 h2 => by omega) (fun w' h1 h2 => by omega)
    split_ifs with hd
    · exact hcount
    · rw [not_not] at hd
      rw [← hd] at hcount ⊢
      exact hcount
  | @counting m w i hw hm hi noNew first =>
    dsimp only at ht ⊢
    by_cases hle : everHigh pins (m + 1) = everHigh pins m
    · -- nothing new: the counter goes on
      have hi' := toNat_count ht
      rw [hle, if_neg (by simp), ← hle]
      refine .counting hw (by omega) (by omega) (fun k hk hkm => ?_) first
      rcases Nat.lt_or_eq_of_le (Nat.lt_succ_iff.1 hkm) with hlt | rfl
      · exact noNew k hk hlt
      · exact or_eq_left_iff.1 ((everHigh_succ pins k).symm.trans hle)
    · -- a new pin: a new stretch begins after this sample
      rw [if_pos fun he => hle (pattern_injective he).symm]
      refine .counting (w := m + 1) (by omega) (by rw [hone]; omega) ⟨le_rfl, by decide⟩
        (fun k h1 h2 => by omega) (fun w' h1 h2 hq => ?_)
      rcases Nat.lt_or_ge w' w with hlt | hge
      · exact first w' h1 hlt hq
      · exact hle ((everHigh_succ pins m).trans
          (or_eq_left_iff.2 (hq m (by omega) (by omega))))

/-- When the counter is at its end. -/
theorem firstNoNew (h : Scanning pins m s) (ht : s.test = false) :
    ∃ w, FirstNoNew pins w ∧ m = w + 19 ∧ s.dipValue = (everHigh pins (w + 19)).pattern := by
  rw [← Bool.not_eq_true, test_iff] at ht
  cases h with
  | start d => exact absurd (Nat.zero_lt_succ 19) ht
  | @counting m w i hw hm hi noNew first =>
    dsimp only at ht ⊢
    obtain rfl : m = w + 19 := by omega
    exact ⟨w, ⟨hw, noNew, first⟩, rfl, rfl⟩

end Scanning

/-! ## Termination -/

/-- The number of pins that are not in `tmp` yet. -/
def unseen (tmp : U8) : ℕ := (List.range 3).countP fun j => !tmp.getLsbD j

theorem unseen_le (tmp : U8) : unseen tmp ≤ 3 := List.countP_le_length

theorem unseen_or : ∀ q p : Dip, q.or p = q ∨ unseen (q.or p).pattern < unseen q.pattern := by
  decide +kernel

/-- The variant: every pin that is still to come allows 19 more turns. -/
def DipScan.variant (s : DipScan) : ℕ := 19 * unseen s.tmp + (20 - s.i.toNat)

@[simp] theorem variant_start (d : U8) : DipScan.variant ⟨0, 0, d⟩ = 77 := by
  rw [DipScan.variant]
  decide +revert

theorem Scanning.variant_lt {pins : ℕ → Dip} {m : ℕ} {s : DipScan} (h : Scanning pins m s)
    (ht : s.test = true) : (s.turn (pins m)).variant < s.variant := by
  rw [turn_eq, h.everHigh_pattern]
  rw [test_iff] at ht
  have hone : (1 : U8).toNat = 1 := rfl
  cases h with
  | start d =>
    have hle := unseen_le (everHigh pins (0 + 1)).pattern
    have hone' : ((0 : U8) + 1).toNat = 1 := rfl
    rw [variant_start]
    split_ifs
    · simp only [DipScan.variant, hone]
      omega
    · simp only [DipScan.variant, hone']
      omega
  | @counting m w i hw hm hi noNew first =>
    dsimp only at ht ⊢
    have hi' := toNat_count ht
    rw [everHigh_succ]
    rcases unseen_or (everHigh pins m) (pins m) with hsame | hlt
    · rw [hsame, if_neg (by simp)]
      simp only [DipScan.variant, hi']
      omega
    · split_ifs
      · simp only [DipScan.variant, hone]
        omega
      · simp only [DipScan.variant, hi']
        omega

/-- The loop ends, whatever the pins and `dip_value` are. -/
theorem scan_ends (d : U8) (pins : ℕ → Dip) :
    ∃ n ≤ 77, Ends DipScan.test DipScan.turn pins ⟨0, 0, d⟩ n := by
  rw [← variant_start d]
  exact ends_of_variant (I := Scanning pins) (.start d)
    fun _ _ ht hI => ⟨hI.turn ht, hI.variant_lt ht⟩

/-- **The scan terminates**: it returns the same for every fuel from some number
    of samples on, at most 100. -/
theorem scan_terminates (dipValue : U8) (pins : ℕ → Dip) : ∃ n ≤ 100, ∃ r : DipResult,
    r.samples = n ∧ ∀ fuel, n ≤ fuel → scanDipState fuel dipValue pins = some r := by
  obtain ⟨n, hn, hend⟩ := scan_ends dipValue pins
  let s := afterTurns DipScan.turn pins ⟨0, 0, dipValue⟩ n
  refine ⟨n, by omega, ⟨n, ~~~s.dipValue &&& 0x7, [13, 0, 0, 2]⟩, rfl, fun fuel hfuel => ?_⟩
  exact Option.map_eq_some_iff.2 ⟨(n, s), whileLoop_eq_some.2 ⟨hend, hfuel, rfl⟩, rfl⟩

/-! ## What is selected -/

/-- **The result of a scan**: it ends with the first 19 samples without a new pin,
    and selects the pins that have been high at all. -/
theorem scan_spec {fuel : ℕ} {dipValue : U8} {pins : ℕ → Dip} {r : DipResult}
    (h : scanDipState fuel dipValue pins = some r) :
    ∃ w, FirstNoNew pins w ∧ r.samples = w + 19 ∧
      ~~~r.inverterType &&& 0x7 = (everHigh pins (w + 19)).pattern := by
  obtain ⟨⟨n, s⟩, hloop, rfl⟩ := Option.map_eq_some_iff.1 h
  obtain ⟨hend, -, rfl⟩ := whileLoop_eq_some.1 hloop
  have hscan : Scanning pins n (afterTurns DipScan.turn pins ⟨0, 0, dipValue⟩ n) :=
    afterTurns_inv (.start dipValue) (fun _ _ ht hI => hI.turn ht) hend.going
  obtain ⟨w, hw, rfl, hd⟩ := hscan.firstNoNew hend.done
  refine ⟨w, hw, rfl, ?_⟩
  dsimp only
  rw [hd, decode_pattern]

/-- **What is required of the scan**: the decoded inverter type is the pattern of
    each of the last 19 samples, and one that has been sampled. -/
structure Debounced (dipValue : U8) (pins : ℕ → Dip) : Prop where
  last : ∀ fuel r, scanDipState fuel dipValue pins = some r → ∀ k < r.samples,
    r.samples ≤ k + 19 → ~~~r.inverterType &&& 0x7 = (pins k).pattern
  sampled : ∀ fuel r, scanDipState fuel dipValue pins = some r →
    ∃ k < r.samples, ~~~r.inverterType &&& 0x7 = (pins k).pattern

/-- In the first 19 samples without a new pin no pin is low that was high before. -/
def Steady (pins : ℕ → Dip) : Prop :=
  ∀ w, FirstNoNew pins w → ∀ k, w ≤ k → k < w + 19 → ∀ j < k, (pins j).Within (pins k)

theorem FirstNoNew.unique {pins : ℕ → Dip} {w w' : ℕ} (h : FirstNoNew pins w)
    (h' : FirstNoNew pins w') : w = w' := by
  rcases Nat.lt_trichotomy w w' with hlt | he | hgt
  · exact absurd h.noNew (h'.first w h.pos hlt)
  · exact he
  · exact absurd h'.noNew (h.first w' h'.pos hgt)

/-- In a stretch without new pins the union does not grow. -/
theorem NoNew.everHigh_eq {pins : ℕ → Dip} {w n : ℕ} (h : NoNew pins w) (hn : n ≤ 19) :
    everHigh pins (w + n) = everHigh pins w := by
  induction n with
  | zero => rfl
  | succ n ih =>
    rw [← Nat.add_assoc, everHigh_succ, or_eq_left_iff.2 (h (w + n) (by omega) (by omega)),
      ih (by omega)]

/-- **The debouncing.**  The scan selects what the last samples show if and only
    if no pin falls in them. -/
theorem debounced_iff (dipValue : U8) (pins : ℕ → Dip) :
    Debounced dipValue pins ↔ Steady pins := by
  constructor
  · intro h w hw k hk hkw j hj
    -- the scan returns, and ends with these samples
    obtain ⟨n, -, r, -, hret⟩ := scan_terminates dipValue pins
    have hr := hret n le_rfl
    obtain ⟨w', hw', hn, hsel⟩ := scan_spec hr
    obtain rfl := hw.unique hw'
    have hlast := h.last n r hr k (by omega) (by omega)
    have hk' : pins k = everHigh pins (w + 19) := pattern_injective (hlast.symm.trans hsel)
    rw [hk']
    exact fun i hi => everHigh_iff.2 ⟨j, by omega, hi⟩
  · intro h
    have hlast : ∀ fuel r, scanDipState fuel dipValue pins = some r → ∀ k < r.samples,
        r.samples ≤ k + 19 → ~~~r.inverterType &&& 0x7 = (pins k).pattern := by
      intro fuel r hr k hk hkn
      obtain ⟨w, hw, hn, hsel⟩ := scan_spec hr
      have hge : (everHigh pins (w + 19)).Within (pins k) := by
        rw [hw.noNew.everHigh_eq le_rfl]
        intro i hi
        obtain ⟨j, hj, hji⟩ := everHigh_iff.1 hi
        exact h w hw k (by omega) (by omega) j (by omega) i hji
      have hle : (pins k).Within (everHigh pins (w + 19)) :=
        fun i hi => everHigh_iff.2 ⟨k, by omega, hi⟩
      rw [hsel, hge.antisymm hle]
    refine ⟨hlast, fun fuel r hr => ?_⟩
    obtain ⟨w, -, hn, -⟩ := scan_spec hr
    exact ⟨w + 18, by omega, hlast fuel r hr (w + 18) (by omega) (by omega)⟩

/-- `DIP1` is high in the first sample only, and `DIP2` from then on. -/
def switched : ℕ → Dip
  | 0 => fun j => j == 0
  | _ + 1 => fun j => j == 1

/-- **A pattern that was never sampled**: both pins count as high, and inverter
    type 4 is selected. -/
theorem scan_switched : ¬ ∀ (dipValue : U8) (pins : ℕ → Dip), Debounced dipValue pins := by
  intro h
  have hret : scanDipState 100 0 switched = some ⟨21, 4, [13, 0, 0, 2]⟩ := by decide +kernel
  obtain ⟨k, -, hk⟩ := (h 0 switched).sampled 100 _ hret
  cases k with
  | zero => exact absurd hk (by decide)
  | succ k =>
    have hne : ~~~(4 : U8) &&& 0x7 ≠ Dip.pattern fun j => j == 1 := by decide
    exact hne hk

end GndCtrl
