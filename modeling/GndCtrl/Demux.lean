/-
  What the control blocks of lwIP promise: the port that `udp_bind` takes when
  none is given, and the block that `udp_input` finds, whatever was found before
  and so whatever the order of the active list.
-/
import GndCtrl.Udp

namespace GndCtrl

namespace Udp

/-! ## Free ports -/

/-- The loop has passed over `port - 4096` ports, all in use, and `port` is not in the part of the
    list that it has gone through. -/
structure Scanned (ports : List U16) (r : U16 × List U16) : Prop where
  start_le : 4096 ≤ r.1.toNat
  le_end : r.1.toNat ≤ 0x7FFF
  used : ∀ x : U16, 4096 ≤ x.toNat → x.toNat < r.1.toNat → x ∈ ports
  passed : ∃ pre, ports = pre ++ r.2 ∧ r.1 ∉ pre
  rest : r.1 = udpLocalPortRangeEnd → r.2 ≠ []

theorem Scanned.turn {ports : List U16} {r : U16 × List U16} (h : Scanned ports r)
    (hc : scanning r = true) : Scanned ports (scanPort ports r ()) ∧
      (0x7FFF - (scanPort ports r ()).1.toNat) * (ports.length + 1) +
        (scanPort ports r ()).2.length <
      (0x7FFF - r.1.toNat) * (ports.length + 1) + r.2.length := by
  obtain ⟨port, rest⟩ := r
  simp only [scanning, Bool.and_eq_true, Bool.not_eq_true', bne_iff_ne, ne_eq] at hc
  obtain ⟨pre, hpre, hnot⟩ := h.passed
  have hend : port.toNat ≠ 0x7FFF := by
    intro he
    exact hc.2 (BitVec.eq_of_toNat_eq he)
  have hstart := h.start_le
  have hle := h.le_end
  cases rest with
  | nil => exact absurd hc.1 (by simp)
  | cons p ps =>
    simp only [scanPort]
    split_ifs with hp
    · -- a port in use
      subst hp
      have hnext : (p + 1).toNat = p.toNat + 1 := by
        have h1 : (1 : U16).toNat = 1 := rfl
        rw [BitVec.toNat_add, h1]
        simp only at hle hend
        omega
      have hmem : p ∈ ports := by
        rw [hpre]
        simp
      simp only at hstart hle hend hnext hmem
      refine ⟨⟨by simp only; omega, by simp only; omega, ?_, ⟨[], rfl, List.not_mem_nil⟩, ?_⟩, ?_⟩
      · intro x hx hlt
        simp only [hnext] at hlt
        rcases Nat.lt_or_ge x.toNat p.toNat with hlt' | hge
        · exact h.used x hx hlt'
        · have hxp : x = p := BitVec.eq_of_toNat_eq (by omega)
          rw [hxp]
          exact hmem
      · intro _
        exact List.ne_nil_of_mem hmem
      · have hmul : (0x7FFF - p.toNat) * (ports.length + 1) =
            (0x7FFF - (p.toNat + 1)) * (ports.length + 1) + (ports.length + 1) := by
          rw [← Nat.succ_mul]
          congr 1
          omega
        simp only [hnext]
        rw [hmul]
        omega
    · refine ⟨⟨hstart, hle, h.used, ⟨pre ++ [p], by simp [hpre], ?_⟩, ?_⟩, ?_⟩
      · simp only [List.mem_append, List.mem_singleton, not_or]
        exact ⟨hnot, fun he => hp he.symm⟩
      · intro he
        exact absurd (congrArg BitVec.toNat he) hend
      · simp only [List.length_cons]
        omega

theorem scanned_start (ports : List U16) : Scanned ports (udpLocalPortRangeStart, ports) where
  start_le := le_rfl
  le_end := show (4096 : U16).toNat ≤ 0x7FFF by decide
  used := by
    intro x hx hlt
    exact absurd hlt (Nat.not_lt.2 hx)
  passed := ⟨[], rfl, List.not_mem_nil⟩
  rest := by
    intro he
    have hne : udpLocalPortRangeStart ≠ udpLocalPortRangeEnd := by decide
    exact absurd he hne

/-- The loop of `udp_bind` ends, whatever the ports in use, within the turns that `freePort` has. -/
theorem portScan_ends (ports : List U16) : ∃ n ≤ 2 ^ 16 * (ports.length + 1),
    Ends scanning (scanPort ports) (fun _ => ()) (udpLocalPortRangeStart, ports) n := by
  let v (r : U16 × List U16) := (0x7FFF - r.1.toNat) * (ports.length + 1) + r.2.length
  have hends : ∃ n ≤ v (udpLocalPortRangeStart, ports), Ends scanning (scanPort ports)
      (fun _ => ()) (udpLocalPortRangeStart, ports) n :=
    ends_of_variant (I := fun _ r => Scanned ports r) (scanned_start ports)
      fun _ r hc h => h.turn hc
  obtain ⟨n, hn, hend⟩ := hends
  have hv : v (udpLocalPortRangeStart, ports) ≤ 2 ^ 16 * (ports.length + 1) := by
    have h4096 : udpLocalPortRangeStart.toNat = 4096 := rfl
    simp only [v, h4096]
    omega
  exact ⟨n, hn.trans hv, hend⟩

/-- It ends with a port that is not in use or at the end of the range. -/
theorem freePort_scanned (ports : List U16) : ∃ r, Scanned ports r ∧ scanning r = false ∧
    freePort ports = if r.2.isEmpty then some r.1 else none := by
  obtain ⟨n, hfuel, hend⟩ := portScan_ends ports
  refine ⟨_, afterTurns_inv (I := fun _ r => Scanned ports r) (scanned_start ports)
    (fun _ r hc h => (h.turn hc).1) hend.going, hend.done, ?_⟩
  have hloop := whileLoop_eq_some.2 ⟨hend, hfuel, rfl⟩
  rw [freePort, hloop]

/-- **The free port.**  The port that `udp_bind` takes is the least one from 4096 on that no block
    of the active list has; the last port of the range is never taken.  `none` is `ERR_USE`, since
    the search ends (`portScan_ends`). -/
theorem freePort_eq_some_iff (ports : List U16) (port : U16) :
    freePort ports = some port ↔ 4096 ≤ port.toNat ∧ port.toNat < 0x7FFF ∧ port ∉ ports ∧
      ∀ x : U16, 4096 ≤ x.toNat → x.toNat < port.toNat → x ∈ ports := by
  obtain ⟨r, h, hdone, heq⟩ := freePort_scanned ports
  obtain ⟨pre, hpre, hnot⟩ := h.passed
  have hend := h.le_end
  rw [heq]
  by_cases hnil : r.2 = []
  · -- the whole list was gone through
    rw [hnil, List.append_nil] at hpre
    rw [← hpre] at hnot
    have hlt : r.1.toNat ≠ 0x7FFF := fun he => h.rest (BitVec.eq_of_toNat_eq he) hnil
    simp only [hnil, List.isEmpty_nil, if_true, Option.some.injEq]
    constructor
    · rintro rfl
      exact ⟨h.start_le, by omega, hnot, h.used⟩
    · rintro ⟨hs, -, hport, hused⟩
      apply BitVec.eq_of_toNat_eq
      rcases Nat.lt_trichotomy r.1.toNat port.toNat with hlt' | he | hgt
      · exact absurd (hused r.1 h.start_le hlt') hnot
      · exact he
      · exact absurd (h.used port hs hgt) hport
  · have hlast : r.1 = udpLocalPortRangeEnd := by
      simp only [scanning, Bool.and_eq_false_iff, Bool.not_eq_false', List.isEmpty_iff,
        bne_eq_false_iff_eq] at hdone
      exact hdone.resolve_left hnil
    simp only [List.isEmpty_iff, hnil, if_false]
    constructor
    · intro hnone
      exact absurd hnone (by simp)
    · rintro ⟨hs, hlt, hport, -⟩
      have hr : r.1.toNat = 0x7FFF := by
        rw [hlast]
        rfl
      exact absurd (h.used port hs (by omega)) hport

/-! ## The search of `udp_input` -/

section
variable (n : Netif) (d : Packet)

/-- The block matches the destination and the source of the datagram. -/
def full (mem : Fin mempNumUdpPcb → UdpBlock) (p : Fin mempNumUdpPcb) : Bool :=
  localMatch n d (mem p) && remoteMatch d (mem p)

/-- The block matches the destination and is not connected. -/
def uncon (mem : Fin mempNumUdpPcb → UdpBlock) (p : Fin mempNumUdpPcb) : Bool :=
  localMatch n d (mem p) && !(mem p).connected

theorem udpLookup_some {mem : Fin mempNumUdpPcb → UdpBlock} {l : List (Fin mempNumUdpPcb)}
    {p : Fin mempNumUdpPcb} (h : l.find? (full n d mem) = some p) (prev : List (Fin mempNumUdpPcb))
    (u : Option (Fin mempNumUdpPcb)) : ∃ u', udpLookup n d mem prev u l =
      (some p, u', p :: (prev.reverse ++ l.eraseP (full n d mem))) := by
  induction l generalizing prev u with
  | nil => exact absurd h (by simp)
  | cons q l ih =>
    by_cases hq : full n d mem q = true
    · rw [List.find?_cons_of_pos hq, Option.some.injEq] at h
      rw [List.eraseP_cons_of_pos hq, ← h]
      rw [full] at hq
      exact ⟨_, by rw [udpLookup, if_pos hq]⟩
    · rw [List.find?_cons_of_neg hq] at h
      rw [List.eraseP_cons_of_neg hq]
      rw [full] at hq
      obtain ⟨u', hu'⟩ := ih h (q :: prev) (if localMatch n d (mem q) && u.isNone &&
        !(mem q).connected then some q else u)
      refine ⟨u', ?_⟩
      rw [udpLookup, if_neg hq, hu', List.reverse_cons, List.append_assoc]
      rfl

theorem udpLookup_none {mem : Fin mempNumUdpPcb → UdpBlock} {l : List (Fin mempNumUdpPcb)}
    (h : l.find? (full n d mem) = none) (prev : List (Fin mempNumUdpPcb))
    (u : Option (Fin mempNumUdpPcb)) : udpLookup n d mem prev u l =
      (none, u.or (l.find? (uncon n d mem)), prev.reverse ++ l) := by
  induction l generalizing prev u with
  | nil => simp [udpLookup]
  | cons q l ih =>
    rw [List.find?_cons] at h
    cases hq : full n d mem q with
    | true => simp [hq] at h
    | false =>
      simp only [hq] at h
      have hstep : (if localMatch n d (mem q) && u.isNone && !(mem q).connected then some q else u)
          = u.or (if uncon n d mem q then some q else none) := by
        cases u with
        | none => simp [uncon]
        | some x => simp
      rw [full] at hq
      rw [udpLookup, hq, if_neg Bool.false_ne_true, ih h, hstep, List.reverse_cons,
        List.append_assoc, Option.or_assoc]
      congr 2
      rw [List.find?_cons]
      cases uncon n d mem q with
      | true => simp
      | false => simp

variable (u : Udp)

/-- A datagram changes no more than the order of the active list. -/
theorem udpInput_snd : (udpInput n d u).2 =
    { u with udpPcbs := (searchFront (full n d u.mem) u.udpPcbs).2 } := by
  unfold udpInput searchFront
  cases h : u.udpPcbs.find? (full n d u.mem) with
  | some p =>
    obtain ⟨u', hu'⟩ := udpLookup_some n d h [] none
    rw [hu']
    rfl
  | none =>
    rw [udpLookup_none n d h [] none]
    dsimp only
    split <;> rfl

theorem udpInput_fst : (udpInput n d u).1 =
    ((u.udpPcbs.find? (full n d u.mem)).or (u.udpPcbs.find? (uncon n d u.mem))).filter
      fun p => (u.mem p).recv := by
  unfold udpInput
  cases h : u.udpPcbs.find? (full n d u.mem) with
  | some p =>
    obtain ⟨u', hu'⟩ := udpLookup_some n d h [] none
    rw [hu']
    simp [Option.filter]
  | none =>
    rw [udpLookup_none n d h [] none]
    simp only [Option.none_or]
    cases u.udpPcbs.find? (uncon n d u.mem) with
    | none => rfl
    | some p => simp [Option.filter]

end

/-- The blocks of the active list are connected to endpoints that differ. -/
structure Connected (u : Udp) : Prop where
  connected : ∀ p ∈ u.udpPcbs, (u.mem p).connected = true
  remoteIp : ∀ p ∈ u.udpPcbs, (u.mem p).remoteIp ≠ 0
  inj : ∀ p ∈ u.udpPcbs, ∀ q ∈ u.udpPcbs, (u.mem p).remoteIp = (u.mem q).remoteIp →
    (u.mem p).remotePort = (u.mem q).remotePort → p = q

namespace Connected
variable {u : Udp} (h : u.Connected) (n : Netif) (d : Packet)
include h

theorem uncon_eq_none : u.udpPcbs.find? (uncon n d u.mem) = none := by
  rw [List.find?_eq_none]
  intro p hp
  simp [uncon, h.connected p hp]

/-- A block matches fully exactly if it is bound to the destination and connected to the source. -/
theorem full_iff {p : Fin mempNumUdpPcb} (hp : p ∈ u.udpPcbs) : full n d u.mem p = true ↔
    localMatch n d (u.mem p) = true ∧
      (⟨(u.mem p).remoteIp, (u.mem p).remotePort⟩ : Endpoint) = d.src := by
  have hip := h.remoteIp p hp
  simp only [full, remoteMatch, Bool.and_eq_true, Bool.or_eq_true, beq_iff_eq, hip, false_or]
  constructor
  · rintro ⟨hl, hport, haddr⟩
    exact ⟨hl, by rw [hport, haddr]⟩
  · rintro ⟨hl, hsrc⟩
    exact ⟨hl, by rw [← hsrc], by rw [← hsrc]⟩

theorem single : Single (full n d u.mem) u.udpPcbs := by
  intro p hp q hq hfp hfq
  have hsp := ((h.full_iff n d hp).1 hfp).2
  have hsq := ((h.full_iff n d hq).1 hfq).2
  have heq := hsp.trans hsq.symm
  exact h.inj p hp q hq (congrArg Endpoint.addr heq) (congrArg Endpoint.port heq)

theorem udpInput_eq_some_iff {p : Fin mempNumUdpPcb} : (udpInput n d u).1 = some p ↔
    p ∈ u.udpPcbs ∧ localMatch n d (u.mem p) = true ∧
      (⟨(u.mem p).remoteIp, (u.mem p).remotePort⟩ : Endpoint) = d.src ∧ (u.mem p).recv = true := by
  rw [udpInput_fst, h.uncon_eq_none, Option.or_none, Option.filter_eq_some_iff]
  constructor
  · rintro ⟨hfind, hrecv⟩
    have hp := List.mem_of_find?_eq_some hfind
    obtain ⟨hl, hsrc⟩ := (h.full_iff n d hp).1 (List.find?_some hfind)
    exact ⟨hp, hl, hsrc, hrecv⟩
  · rintro ⟨hp, hl, hsrc, hrecv⟩
    have hfull := (h.full_iff n d hp).2 ⟨hl, hsrc⟩
    refine ⟨?_, hrecv⟩
    cases hf : u.udpPcbs.find? (full n d u.mem) with
    | none =>
      rw [List.find?_eq_none] at hf
      exact absurd hfull (hf p hp)
    | some q =>
      have hq := List.mem_of_find?_eq_some hf
      rw [h.single n d q hq p hp (List.find?_some hf) hfull]

theorem udpInput : (Udp.udpInput n d u).2.Connected := by
  rw [udpInput_snd]
  have hperm := searchFront_perm (full n d u.mem) u.udpPcbs
  refine ⟨fun p hp => h.connected p (hperm.mem_iff.1 hp),
    fun p hp => h.remoteIp p (hperm.mem_iff.1 hp), ?_⟩
  intro p hp q hq
  exact h.inj p (hperm.mem_iff.1 hp) q (hperm.mem_iff.1 hq)

/-- The block found does not depend on the datagram before. -/
theorem udpInput_fst (d' : Packet) :
    (Udp.udpInput n d (Udp.udpInput n d' u).2).1 = (Udp.udpInput n d u).1 := by
  have h' := h.udpInput n d'
  rw [Udp.udpInput_fst, Udp.udpInput_fst, h.uncon_eq_none, h'.uncon_eq_none, udpInput_snd]
  rw [find?_perm (h.single n d) (searchFront_perm (full n d' u.mem) u.udpPcbs)]

end Connected

/-- **The order of the active list does not matter.**  With connected blocks whose endpoints differ,
    every datagram of a sequence is given to the block that it would be given to first: moving the
    block found to the front only makes it found faster. -/
theorem udpInput_run {u : Udp} (h : u.Connected) (n : Netif) (ds : List Packet) :
    collect (fun u d => (udpInput n d u).2) (fun u d => [(udpInput n d u).1]) u ds =
      ds.map fun d => (udpInput n d u).1 := by
  induction ds generalizing u with
  | nil => rfl
  | cons d ds ih =>
    rw [collect, ih (h.udpInput n d), List.map_cons]
    refine congrArg (_ :: ·) (List.map_congr_left ?_)
    intro d' _
    exact h.udpInput_fst n d' d

/-- Two blocks, and four datagrams from their endpoints in turn. -/
theorem udpInput_run_two :
    let b (addr : U32) : UdpBlock := ⟨0, 9902, addr, 9000, true, 255, true⟩
    let u : Udp := ⟨fun p => if p = 0 then b 1 else b 2, [], [0, 1]⟩
    let d (addr : U32) : Packet := ⟨⟨addr, 9000⟩, ⟨0, 9902⟩, ⟨[], [], fun _ => 0⟩, 0⟩
    collect (fun u d => (udpInput .gnd d u).2) (fun u d => [(udpInput .gnd d u).1]) u
        [d 1, d 2, d 1, d 2] =
      [d 1, d 2, d 1, d 2].map fun d => (udpInput .gnd d u).1 :=
  udpInput_run ⟨by decide, by decide, by decide⟩ .gnd _

end Udp

end GndCtrl
