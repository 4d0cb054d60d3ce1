/-
  The entries of the ARP table.

  * `findEntry_spec` — all that `find_entry` can do: the entry of the address, or
    the least important entry made an empty one, or nothing;
  * `updateArpEntry_spec` and `etharpQuery_spec` — one entry of the table changes.
-/
import GndCtrl.Etharp
import Mathlib.Algebra.BigOperators.Group.Finset.Basic

namespace GndCtrl

variable {β : Type}

namespace EtharpEntry

/-- The entry is in use. -/
def Live (e : EtharpEntry β) : Prop := e.state ≠ .empty

instance (e : EtharpEntry β) : Decidable e.Live := inferInstanceAs (Decidable (_ ≠ _))

/-- The importance of an entry: empty, stable, pending without and with packets. -/
def rank (e : EtharpEntry β) : ℕ :=
  match e.state with
  | .empty => 0
  | .stable => 1
  | .pending => if e.q.isEmpty then 2 else 3

theorem rank_eq_zero {e : EtharpEntry β} : e.rank = 0 ↔ e.state = .empty := by
  unfold rank
  cases e.state with
  | pending => split_ifs <;> simp
  | _ => simp

theorem rank_eq_one {e : EtharpEntry β} : e.rank = 1 ↔ e.state = .stable := by
  unfold rank
  cases e.state with
  | pending => split_ifs <;> simp
  | _ => simp

theorem rank_eq_two {e : EtharpEntry β} : e.rank = 2 ↔ e.state = .pending ∧ e.q = [] := by
  unfold rank
  cases e.state with
  | pending => split_ifs with h <;> simp_all
  | _ => simp

theorem rank_eq_three {e : EtharpEntry β} : e.rank = 3 ↔ e.state = .pending ∧ e.q ≠ [] := by
  unfold rank
  cases e.state with
  | pending => split_ifs with h <;> simp_all
  | _ => simp

theorem rank_le (e : EtharpEntry β) : e.rank ≤ 3 := by
  unfold rank
  cases e.state with
  | pending => split_ifs <;> simp
  | _ => simp

end EtharpEntry

/-! ## The sweep -/

section
variable {t : Fin arpTableSize → EtharpEntry β} {is : List (Fin arpTableSize)}

/-- `o` is the oldest entry of rank `r` among `is`. -/
structure OldestOf (t : Fin arpTableSize → EtharpEntry β) (r : ℕ) (is : List (Fin arpTableSize))
    (o : Oldest) : Prop where
  entry : ∀ i, o.entry = some i → (t i).rank = r ∧ (t i).ctime = o.age
  none : o.entry = none → o.age = 0 ∧ ∀ i ∈ is, (t i).rank ≠ r
  le : ∀ i ∈ is, (t i).rank = r → (t i).ctime ≤ o.age

theorem OldestOf.nil (r : ℕ) : OldestOf t r [] {} where
  entry := nofun
  none _ := ⟨rfl, nofun⟩
  le := nofun

theorem OldestOf.skip {r : ℕ} {o : Oldest} (h : OldestOf t r is o) {i : Fin arpTableSize}
    (hi : (t i).rank ≠ r) : OldestOf t r (is ++ [i]) o where
  entry := h.entry
  none ho := by
    refine ⟨(h.none ho).1, fun j hj => ?_⟩
    rcases List.mem_append.1 hj with hj | hj
    · exact (h.none ho).2 j hj
    · rwa [List.mem_singleton.1 hj]
  le j hj hr := by
    rcases List.mem_append.1 hj with hj | hj
    · exact h.le j hj hr
    · rw [List.mem_singleton.1 hj] at hr
      exact absurd hr hi

theorem OldestOf.offer {r : ℕ} {o : Oldest} (h : OldestOf t r is o) {i : Fin arpTableSize}
    (hi : (t i).rank = r) : OldestOf t r (is ++ [i]) (o.offer i (t i).ctime) := by
  unfold Oldest.offer
  split_ifs with hage
  · constructor
    · intro j hj
      cases hj
      exact ⟨hi, rfl⟩
    · exact nofun
    · intro j hj hr
      rcases List.mem_append.1 hj with hj | hj
      · exact (h.le j hj hr).trans hage
      · rw [List.mem_singleton.1 hj]
  · constructor
    · exact h.entry
    · intro ho
      rw [(h.none ho).1] at hage
      exact absurd (Nat.zero_le _) hage
    · intro j hj hr
      rcases List.mem_append.1 hj with hj | hj
      · exact h.le j hj hr
      · rw [List.mem_singleton.1 hj]
        omega

/-- The entries `is` have been swept: none of them matches, and `c` are the candidates. -/
structure Swept (t : Fin arpTableSize → EtharpEntry β) (ipaddr : U32)
    (is : List (Fin arpTableSize)) (c : Candidates) : Prop where
  none : ∀ i ∈ is, (t i).Live → (t i).ipaddr ≠ ipaddr
  empty : ∀ i, c.empty = some i → (t i).state = .empty
  live : c.empty = .none → ∀ i ∈ is, (t i).Live
  stable : OldestOf t 1 is c.oldStable
  pending : OldestOf t 2 is c.oldPending
  queue : OldestOf t 3 is c.oldQueue

theorem Swept.nil (t : Fin arpTableSize → EtharpEntry β) (ipaddr : U32) :
    Swept t ipaddr [] {} where
  none := nofun
  empty := nofun
  live _ := nofun
  stable := .nil 1
  pending := .nil 2
  queue := .nil 3

/-- **The sweep** finds an entry in use with the address, or there is none. -/
theorem sweep_spec {ipaddr : U32} (is : List (Fin arpTableSize)) {seen : List (Fin arpTableSize)}
    {c : Candidates} (h : Swept t ipaddr seen c) :
    (∃ i, sweep t ipaddr is c = .inl i ∧ (t i).Live ∧ (t i).ipaddr = ipaddr) ∨
      ∃ c', sweep t ipaddr is c = .inr c' ∧ Swept t ipaddr (seen ++ is) c' := by
  induction is generalizing seen c with
  | nil => exact .inr ⟨c, rfl, by rwa [List.append_nil]⟩
  | cons i is ih =>
    have hmem {P : Fin arpTableSize → Prop} (hs : ∀ j ∈ seen, P j) (hi : P i) :
        ∀ j ∈ seen ++ [i], P j := by
      intro j hj
      rcases List.mem_append.1 hj with hj | hj
      · exact hs j hj
      · rwa [List.mem_singleton.1 hj]
    have hcons : seen ++ i :: is = seen ++ [i] ++ is := by
      rw [List.append_assoc, List.singleton_append]
    rw [hcons]
    simp only [sweep]
    by_cases hfirst : c.empty = none ∧ (t i).state = .empty
    · rw [if_pos hfirst]
      have hlive : ¬ (t i).Live := fun hl => hl hfirst.2
      have hrank : (t i).rank = 0 := EtharpEntry.rank_eq_zero.2 hfirst.2
      refine ih ⟨hmem h.none (fun hl => absurd hl hlive), ?_, nofun, h.stable.skip (by omega),
        h.pending.skip (by omega), h.queue.skip (by omega)⟩
      intro j hj
      cases hj
      exact hfirst.2
    · rw [if_neg hfirst]
      -- the state of the entry is looked at
      cases hst : (t i).state with
      | pending =>
        have hlive : (t i).Live := by simp [EtharpEntry.Live, hst]
        dsimp only
        by_cases ha : ipaddr = (t i).ipaddr
        · rw [if_pos ha]
          exact .inl ⟨i, rfl, hlive, ha.symm⟩
        · rw [if_neg ha]
          have hnone := hmem h.none fun _ => Ne.symm ha
          have hl := fun he => hmem (h.live he) hlive
          split_ifs with hq
          · have hrank : (t i).rank = 2 := EtharpEntry.rank_eq_two.2 ⟨hst, List.isEmpty_iff.1 hq⟩
            exact ih ⟨hnone, h.empty, hl, h.stable.skip (by omega), h.pending.offer hrank,
              h.queue.skip (by omega)⟩
          · have hrank : (t i).rank = 3 :=
              EtharpEntry.rank_eq_three.2 ⟨hst, fun he => hq (List.isEmpty_iff.2 he)⟩
            exact ih ⟨hnone, h.empty, hl, h.stable.skip (by omega), h.pending.skip (by omega),
              h.queue.offer hrank⟩
      | stable =>
        have hlive : (t i).Live := by simp [EtharpEntry.Live, hst]
        dsimp only
        by_cases ha : ipaddr = (t i).ipaddr
        · rw [if_pos ha]
          exact .inl ⟨i, rfl, hlive, ha.symm⟩
        · rw [if_neg ha]
          have hrank : (t i).rank = 1 := EtharpEntry.rank_eq_one.2 hst
          exact ih ⟨hmem h.none fun _ => Ne.symm ha, h.empty, fun he => hmem (h.live he) hlive,
            h.stable.offer hrank, h.pending.skip (by omega), h.queue.skip (by omega)⟩
      | empty =>
        have hrank : (t i).rank = 0 := EtharpEntry.rank_eq_zero.2 hst
        refine ih ⟨hmem h.none fun hl => absurd hst hl, h.empty, fun he => ?_,
          h.stable.skip (by omega), h.pending.skip (by omega), h.queue.skip (by omega)⟩
        exact absurd ⟨he, hst⟩ hfirst

end

namespace Etharp
variable {s s' s'' : Etharp β} {ipaddr : U32} {i : Fin arpTableSize}

/-! ## The choice of an entry -/

/-- No two entries in use have the same address, and only pending entries have packets. -/
structure Wf (s : Etharp β) : Prop where
  keyed : ∀ i j, (s.arpTable i).Live → (s.arpTable j).Live →
    (s.arpTable i).ipaddr = (s.arpTable j).ipaddr → i = j
  queue : ∀ i, (s.arpTable i).state ≠ .pending → (s.arpTable i).q = []

/-- No entry is less important than `i`, and none in use that is as important is older. -/
def Victim (s : Etharp β) (i : Fin arpTableSize) : Prop :=
  ∀ j, (s.arpTable i).rank ≤ (s.arpTable j).rank ∧
    ((s.arpTable j).Live → (s.arpTable j).rank = (s.arpTable i).rank →
      (s.arpTable j).ctime ≤ (s.arpTable i).ctime)

/-- The entry `i` as an empty one for the address. -/
def cleared (s : Etharp β) (ipaddr : U32) (i : Fin arpTableSize) : EtharpEntry β :=
  { s.arpTable i with q := [], ipaddr := ipaddr, state := .empty, ctime := 0 }

/-- The outcomes of `find_entry`. -/
inductive FoundEntry (s : Etharp β) (ipaddr : U32) (flags : EtharpFlags) :
    Option (Fin arpTableSize) → Etharp β → Prop
  | found (i : Fin arpTableSize) (hlive : (s.arpTable i).Live)
      (haddr : (s.arpTable i).ipaddr = ipaddr) :
      FoundEntry s ipaddr flags (some i) { s with etharpCachedEntry := i }
  | fresh (i : Fin arpTableSize)
      (hnone : ∀ j, (s.arpTable j).Live → (s.arpTable j).ipaddr ≠ ipaddr)
      (hflags : flags ≠ .findOnly) (hvictim : s.Victim i)
      (hhard : (s.arpTable i).Live → flags = .tryHard) :
      FoundEntry s ipaddr flags (some i)
        ⟨Function.update s.arpTable i (s.cleared ipaddr i), i,
          s.arpQueue + (s.arpTable i).q.length⟩
  | absent (hnone : ∀ j, (s.arpTable j).Live → (s.arpTable j).ipaddr ≠ ipaddr)
      (hflags : flags ≠ .tryHard) (hfull : flags = .none → ∀ j, (s.arpTable j).Live) :
      FoundEntry s ipaddr flags none s

theorem newEntry_eq (hq : (s.arpTable i).q = []) : s.newEntry ipaddr i =
    ⟨Function.update s.arpTable i (s.cleared ipaddr i), i,
      s.arpQueue + (s.arpTable i).q.length⟩ := by
  have he : s.cleared ipaddr i =
      { s.arpTable i with ipaddr := ipaddr, state := .empty, ctime := 0 } := by
    rw [cleared, ← hq]
  rw [he, hq]
  rfl

theorem newEntry_freeEtharpQ : (s.freeEtharpQ i).newEntry ipaddr i =
    ⟨Function.update s.arpTable i (s.cleared ipaddr i), i,
      s.arpQueue + (s.arpTable i).q.length⟩ := by
  simp only [newEntry, set, freeEtharpQ, Function.update_self, Function.update_idem, cleared]

theorem live_iff_rank {e : EtharpEntry β} : e.Live ↔ e.rank ≠ 0 :=
  not_congr EtharpEntry.rank_eq_zero.symm

/-- **The search of the table**, without the cached entry. -/
theorem searchEntry_spec (h : s.Wf) (ipaddr : U32) (flags : EtharpFlags) :
    ∃ o s', s.searchEntry ipaddr flags = some (o, s') ∧ FoundEntry s ipaddr flags o s' := by
  rcases sweep_spec (List.finRange arpTableSize) (.nil s.arpTable ipaddr) with
    ⟨i, hsweep, hlive, haddr⟩ | ⟨c, hsweep, hc⟩
  · exact ⟨some i, _, by rw [searchEntry, hsweep], .found i hlive haddr⟩
  have hnone : ∀ j, (s.arpTable j).Live → (s.arpTable j).ipaddr ≠ ipaddr :=
    fun j => hc.none j (List.mem_finRange j)
  simp only [searchEntry, hsweep]
  by_cases hstop : c.empty = none ∧ flags ≠ .tryHard ∨ flags = .findOnly
  · rw [if_pos hstop]
    refine ⟨none, s, rfl, .absent hnone ?_ ?_⟩
    · rintro rfl
      rcases hstop with h | h
      · exact h.2 rfl
      · cases h
    · rintro rfl j
      rcases hstop with h | h
      · exact hc.live h.1 j (List.mem_finRange j)
      · cases h
  rw [if_neg hstop]
  obtain ⟨hstop, hflags⟩ := not_or.1 hstop
  cases hempty : c.empty with
  | some i =>
    have hst := hc.empty i hempty
    have hrank := EtharpEntry.rank_eq_zero.2 hst
    refine ⟨some i, _, rfl, ?_⟩
    rw [newEntry_eq (h.queue i (by rw [hst]; nofun))]
    refine .fresh i hnone hflags (fun j => ?_) fun hl => absurd hst hl
    refine ⟨by omega, fun hl hr => ?_⟩
    rw [hrank] at hr
    exact absurd hr (live_iff_rank.1 hl)
  | none =>
    have hhard : flags = .tryHard := by
      by_contra hf
      exact hstop ⟨hempty, hf⟩
    have hlive : ∀ j, (s.arpTable j).rank ≠ 0 :=
      fun j => live_iff_rank.1 (hc.live hempty j (List.mem_finRange j))
    -- the entry that the rank `r` offers, when there is none of a lower rank
    have victim {r : ℕ} {o : Oldest}
        (ho : OldestOf s.arpTable r ([] ++ List.finRange arpTableSize) o)
        (hr : ∀ j, r ≤ (s.arpTable j).rank) {i : Fin arpTableSize} (hi : o.entry = some i) :
        s.Victim i := by
      obtain ⟨hrank, hage⟩ := ho.entry i hi
      intro j
      rw [hrank, hage]
      exact ⟨hr j, fun _ hj => ho.le j (List.mem_finRange j) hj⟩
    cases hstable : c.oldStable.entry with
    | some i =>
      have hrank := (hc.stable.entry i hstable).1
      have hst := EtharpEntry.rank_eq_one.1 hrank
      have hq := h.queue i (by rw [hst]; nofun)
      dsimp only
      rw [if_pos (List.isEmpty_iff.2 hq), newEntry_eq hq]
      refine ⟨some i, _, rfl, .fresh i hnone hflags (victim hc.stable (fun j => ?_) hstable)
        fun _ => hhard⟩
      have := hlive j
      omega
    | none =>
      have hone : ∀ j, (s.arpTable j).rank ≠ 1 :=
        fun j => (hc.stable.none hstable).2 j (List.mem_finRange j)
      cases hpending : c.oldPending.entry with
      | some i =>
        obtain ⟨-, hq⟩ := EtharpEntry.rank_eq_two.1 (hc.pending.entry i hpending).1
        dsimp only
        rw [newEntry_eq hq]
        refine ⟨some i, _, rfl, .fresh i hnone hflags
          (victim hc.pending (fun j => ?_) hpending) fun _ => hhard⟩
        have := hlive j
        have := hone j
        omega
      | none =>
        have htwo : ∀ j, (s.arpTable j).rank ≠ 2 :=
          fun j => (hc.pending.none hpending).2 j (List.mem_finRange j)
        cases hqueue : c.oldQueue.entry with
        | some i =>
          obtain ⟨-, hq⟩ := EtharpEntry.rank_eq_three.1 (hc.queue.entry i hqueue).1
          dsimp only
          rw [if_neg (fun he => hq (List.isEmpty_iff.1 he)), newEntry_freeEtharpQ]
          refine ⟨some i, _, rfl, .fresh i hnone hflags
            (victim hc.queue (fun j => ?_) hqueue) fun _ => hhard⟩
          have := hlive j
          have := hone j
          have := htwo j
          omega
        | none =>
          -- every entry has one of the ranks
          exfalso
          have hle := EtharpEntry.rank_le (s.arpTable 0)
          have h0 := hlive 0
          have h1 := hone 0
          have h2 := htwo 0
          have h3 := (hc.queue.none hqueue).2 0 (List.mem_finRange 0)
          omega

/-- **The cached entry** only saves the search: `find_entry` finds what the search finds. -/
theorem findEntry_eq_searchEntry (h : s.Wf) (ipaddr : U32) (flags : EtharpFlags) :
    s.findEntry ipaddr flags = s.searchEntry ipaddr flags := by
  unfold findEntry
  dsimp only
  split_ifs with hhit
  · obtain ⟨hst, haddr⟩ := hhit
    have hlive : (s.arpTable s.etharpCachedEntry).Live := by simp [EtharpEntry.Live, hst]
    rcases sweep_spec (List.finRange arpTableSize) (.nil s.arpTable ipaddr) with
      ⟨i, hsweep, hi, haddr'⟩ | ⟨c, -, hc⟩
    · have heq : i = s.etharpCachedEntry := h.keyed i _ hi hlive (haddr'.trans haddr)
      rw [searchEntry, hsweep, heq]
    · exact absurd haddr.symm (hc.none _ (List.mem_finRange _) hlive)
  · rfl

theorem findEntry_spec (h : s.Wf) (ipaddr : U32) (flags : EtharpFlags) :
    ∃ o s', s.findEntry ipaddr flags = some (o, s') ∧ FoundEntry s ipaddr flags o s' := by
  rw [findEntry_eq_searchEntry h]
  exact searchEntry_spec h ipaddr flags

/-! ## The change of an entry -/

/-- The entry of the address, or one made for it. -/
inductive Chosen (s : Etharp β) (ipaddr : U32) (hard : Prop) (i : Fin arpTableSize) : Prop
  | found (hlive : (s.arpTable i).Live) (haddr : (s.arpTable i).ipaddr = ipaddr)
  | fresh (hnone : ∀ j, (s.arpTable j).Live → (s.arpTable j).ipaddr ≠ ipaddr)
      (hvictim : s.Victim i) (hhard : (s.arpTable i).Live → hard)

/-- What `find_entry` makes of the entry. -/
def entryFor (s : Etharp β) (ipaddr : U32) (i : Fin arpTableSize) : EtharpEntry β :=
  if (s.arpTable i).Live ∧ (s.arpTable i).ipaddr = ipaddr then s.arpTable i
  else s.cleared ipaddr i

/-- The entry `i` becomes `e`; the elements of the queues are accounted for. -/
structure Assigned (s s' : Etharp β) (i : Fin arpTableSize) (e : EtharpEntry β) : Prop where
  table : s'.arpTable = Function.update s.arpTable i e
  pool : s'.arpQueue + e.q.length = s.arpQueue + (s.arpTable i).q.length

theorem Assigned.trans {e e' : EtharpEntry β} (h : Assigned s s' i e)
    (h' : Assigned s' s'' i e') : Assigned s s'' i e' where
  table := by rw [h'.table, h.table, Function.update_idem]
  pool := by
    have hpool := h'.pool
    rw [h.table, Function.update_self] at hpool
    rw [hpool, h.pool]

theorem Assigned.self {e : EtharpEntry β} (h : Assigned s s' i e) : s'.arpTable i = e := by
  rw [h.table, Function.update_self]

theorem Assigned.other {e : EtharpEntry β} (h : Assigned s s' i e) {j : Fin arpTableSize}
    (hj : j ≠ i) : s'.arpTable j = s.arpTable j := by
  rw [h.table, Function.update_of_ne hj]

theorem FoundEntry.chosen {flags : EtharpFlags}
    (h : FoundEntry s ipaddr flags (some i) s') :
    Chosen s ipaddr (flags = .tryHard) i ∧ Assigned s s' i (s.entryFor ipaddr i) := by
  cases h with
  | found _ hlive haddr =>
    rw [entryFor, if_pos ⟨hlive, haddr⟩]
    exact ⟨.found hlive haddr, (Function.update_eq_self i s.arpTable).symm, rfl⟩
  | fresh _ hnone hflags hvictim hhard =>
    rw [entryFor, if_neg fun hf => hnone i hf.1 hf.2]
    exact ⟨.fresh hnone hvictim hhard, rfl, rfl⟩

@[simp] theorem entryFor_ipaddr : (s.entryFor ipaddr i).ipaddr = ipaddr := by
  unfold entryFor
  split_ifs with h
  · exact h.2
  · rfl

@[simp] theorem entryFor_ethaddr : (s.entryFor ipaddr i).ethaddr = (s.arpTable i).ethaddr := by
  unfold entryFor
  split_ifs <;> rfl

/-- An entry in use was in use before. -/
theorem entryFor_live (h : (s.entryFor ipaddr i).Live) :
    s.entryFor ipaddr i = s.arpTable i ∧ (s.arpTable i).Live := by
  unfold entryFor at h ⊢
  split_ifs at h ⊢ with hf
  · exact ⟨rfl, hf.1⟩
  · exact absurd rfl h

/-- The outcomes of `update_arp_entry`: an entry has got the Ethernet address and its packets are
    sent, or the table is full. -/
inductive Updated (s : Etharp β) (n : EthNetif) (ipaddr : U32) (ethaddr : EthAddr) (hard : Prop) :
    List (EthFrame β) → Etharp β → Prop
  | entry (i : Fin arpTableSize) (s' : Etharp β) (hchosen : Chosen s ipaddr hard i)
      (hassigned : Assigned s s' i ⟨[], ipaddr, ethaddr, .stable, 0⟩) :
      Updated s n ipaddr ethaddr hard ((s.entryFor ipaddr i).q.map (.ip ethaddr n.hwaddr)) s'
  | full (hfull : ∀ j, (s.arpTable j).Live ∧ (s.arpTable j).ipaddr ≠ ipaddr) (hhard : ¬ hard) :
      Updated s n ipaddr ethaddr hard [] s

/-- **What `update_arp_entry` does** for an address that may have an entry. -/
theorem updateArpEntry_spec (h : s.Wf) (n : EthNetif) (hu : nonUnicast ipaddr n.toNetif = false)
    (ethaddr : EthAddr) {flags : EtharpFlags} (hflags : flags ≠ .findOnly) :
    ∃ err fs s', s.updateArpEntry n ipaddr ethaddr flags = some (err, fs, s') ∧
      Updated s n ipaddr ethaddr (flags = .tryHard) fs s' := by
  obtain ⟨o, s₁, hfind, hfound⟩ := findEntry_spec h ipaddr flags
  cases o with
  | some i =>
    obtain ⟨hchosen, hassigned⟩ := hfound.chosen
    refine ⟨.ok, _, _, by rw [updateArpEntry, if_neg (by simp [hu]), hfind]; rfl, ?_⟩
    rw [hassigned.self]
    refine .entry i _ hchosen (hassigned.trans ⟨?_, ?_⟩)
    · simp only [set, hassigned.self, entryFor_ipaddr]
    · rw [hassigned.self]
      rfl
  | none =>
    refine ⟨.mem, _, _, by rw [updateArpEntry, if_neg (by simp [hu]), hfind]; rfl, ?_⟩
    cases hfound with
    | absent hnone hf hfull =>
      have hflags : flags = .none := by
        cases flags with
        | none => rfl
        | tryHard => exact absurd rfl hf
        | findOnly => exact absurd rfl hflags
      exact .full (fun j => ⟨hfull hflags j, hnone j (hfull hflags j)⟩) hf

/-- There is an element for a packet that waits for the address. -/
def Room (s : Etharp β) (ipaddr : U32) (i : Fin arpTableSize) : Prop :=
  s.arpQueue + (s.arpTable i).q.length ≠ (s.entryFor ipaddr i).q.length

instance (s : Etharp β) (ipaddr : U32) (i : Fin arpTableSize) : Decidable (s.Room ipaddr i) :=
  inferInstanceAs (Decidable (_ ≠ _))

/-- The outcomes of `etharp_query`: the packet is sent, or an address is requested and the packet
    waits for it, if there is memory. -/
inductive Queried (s : Etharp β) (n : EthNetif) (ipaddr : U32) (q : IpPacket β) (env : EtharpEnv) :
    List (EthFrame β) → Etharp β → Prop
  | sent (i : Fin arpTableSize) (s' : Etharp β) (hchosen : Chosen s ipaddr True i)
      (hstable : (s.entryFor ipaddr i).state = .stable)
      (hassigned : Assigned s s' i (s.entryFor ipaddr i)) :
      Queried s n ipaddr q env [.ip (s.arpTable i).ethaddr n.hwaddr q] s'
  | waits (i : Fin arpTableSize) (s' : Etharp β) (hchosen : Chosen s ipaddr True i)
      (hstable : (s.entryFor ipaddr i).state ≠ .stable)
      (hassigned : Assigned s s' i
        { s.entryFor ipaddr i with
          state := .pending
          q := (s.entryFor ipaddr i).q ++ if env.copy ∧ s.Room ipaddr i then [q] else [] }) :
      Queried s n ipaddr q env (etharpRequest n ipaddr env.request).2 s'

/-- **What `etharp_query` does** for an address that may have an entry. -/
theorem etharpQuery_spec (h : s.Wf) (n : EthNetif) (hu : nonUnicast ipaddr n.toNetif = false)
    (q : IpPacket β) (env : EtharpEnv) :
    ∃ err fs s', s.etharpQuery n ipaddr q env = some (err, fs, s') ∧
      Queried s n ipaddr q env fs s' := by
  obtain ⟨o, s₁, hfind, hfound⟩ := findEntry_spec h ipaddr .tryHard
  cases o with
  | none =>
    cases hfound with
    | absent hnone hf hfull => exact absurd rfl hf
  | some i =>
    obtain ⟨hchosen, hassigned⟩ := hfound.chosen
    have hc : Chosen s ipaddr True i := by
      cases hchosen with
      | found hlive haddr => exact .found hlive haddr
      | fresh hnone hvictim hhard => exact .fresh hnone hvictim fun _ => trivial
    have hroom : s.Room ipaddr i ↔ s₁.arpQueue ≠ 0 := by
      have hpool := hassigned.pool
      unfold Room
      omega
    have hself := hassigned.self
    by_cases hst : (s.entryFor ipaddr i).state = .stable
    · refine ⟨.ok, _, s₁, ?_, .sent i s₁ hc hst hassigned⟩
      rw [etharpQuery, if_neg (by simp [hu]), hfind]
      simp [hself, hst]
    -- a fresh entry becomes a pending one
    have hpending : ∃ s₂, (if (s₁.arpTable i).state = .empty then
        s₁.set i fun e => { e with state := .pending } else s₁) = s₂ ∧
        Assigned s s₂ i { s.entryFor ipaddr i with state := .pending } ∧
        s₂.arpQueue = s₁.arpQueue := by
      rw [hself]
      split_ifs with hempty
      · refine ⟨_, rfl, hassigned.trans ⟨?_, ?_⟩, rfl⟩
        · rw [set, hself]
        · rw [hself]
          rfl
      · refine ⟨s₁, rfl, ?_, rfl⟩
        have hst' : (s.entryFor ipaddr i).state = .pending := by
          cases he : (s.entryFor ipaddr i).state with
          | empty => exact absurd he hempty
          | pending => rfl
          | stable => exact absurd he hst
        rw [← hst']
        exact hassigned
    obtain ⟨s₂, heq, hassigned₂, hqueue⟩ := hpending
    have hself₂ := hassigned₂.self
    have hnot : (s₂.arpTable i).state ≠ .stable := by rw [hself₂]; nofun
    have hcalc : s.etharpQuery n ipaddr q env = if env.copy ∧ s₂.arpQueue ≠ 0 then
        some (.ok, (etharpRequest n ipaddr env.request).2,
          { s₂.set i (fun e => { e with q := e.q ++ [q] }) with arpQueue := s₂.arpQueue - 1 })
        else some ((etharpRequest (β := β) n ipaddr env.request).1,
          (etharpRequest n ipaddr env.request).2, s₂) := by
      rw [etharpQuery, if_neg (by simp [hu]), hfind]
      simp only [Option.bind_eq_bind, Option.bind_some, heq, if_neg hnot, Option.pure_def]
      rfl
    have hiff : env.copy ∧ s₂.arpQueue ≠ 0 ↔ env.copy ∧ s.Room ipaddr i := by rw [hqueue, hroom]
    by_cases hstore : env.copy ∧ s.Room ipaddr i
    · refine ⟨_, _, _, by rw [hcalc, if_pos (hiff.2 hstore)], .waits i _ hc hst ?_⟩
      rw [if_pos hstore]
      refine hassigned₂.trans ⟨?_, ?_⟩
      · rw [set, hself₂]
      · have hne : s₁.arpQueue ≠ 0 := hroom.1 hstore.2
        rw [hself₂, List.length_append]
        change s₂.arpQueue - 1 + ((s.entryFor ipaddr i).q.length + 1) =
          s₂.arpQueue + (s.entryFor ipaddr i).q.length
        omega
    · refine ⟨_, _, s₂, by rw [hcalc, if_neg (mt hiff.1 hstore)], .waits i _ hc hst ?_⟩
      rw [if_neg hstore, List.append_nil]
      exact hassigned₂

end Etharp

end GndCtrl
