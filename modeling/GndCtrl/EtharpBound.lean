/-
  The ARP table of a station that has to do with ten hosts at most.

  Then an entry is never taken from another host (`Small.exists_empty`), and
  nothing is lost for want of an entry:

  * `find_addr_exact` — the table holds just the addresses that were told less
    than 240 ticks ago;
  * `delivered` — a packet that waits is sent when its host answers before the
    next tick;
  * `resolved` — the station asked answers, and gets the packet.
-/
import GndCtrl.EtharpRuns
import Mathlib.Data.Fintype.Card

namespace GndCtrl

variable {β : Type}

/-- The host that a call has to do with. -/
def mention (n : EthNetif) : EtharpOp β → Option U32
  | .output q _ => hop n q.dest
  | e => (claim n e).map Prod.fst

theorem mention_mem {n : EthNetif} {e : EtharpOp β} {a : U32} {S : Finset U32}
    (h : mention n e = some a) (ha : a ∈ S) : ∀ b ∈ mention n e, b ∈ S := by
  rintro b hb
  rw [h] at hb
  cases hb
  exact ha

namespace Etharp
variable {s s' : Etharp β} {i : Fin arpTableSize} {n : EthNetif} {a : U32} {S : Finset U32}
  {es : List (EtharpOp β)} {fs : List (EthFrame β)}

/-- The invariant of a station that has to do with the hosts `S` only, ten at most: the table has
    entries for these only, and for all that are known. -/
structure Small (S : Finset U32) (n : EthNetif) (es : List (EtharpOp β)) (fs : List (EthFrame β))
    (s : Etharp β) : Prop where
  inv : Inv n es fs s
  card : S.card ≤ arpTableSize
  keys : ∀ i, (s.arpTable i).Live → (s.arpTable i).ipaddr ∈ S
  complete : ∀ a m c, known n es a = some (m, c) → c < arpMaxage →
    ∃ i, (s.arpTable i).state = .stable ∧ (s.arpTable i).ipaddr = a

/-- A host has an entry, or there is an empty one. -/
theorem Small.exists_empty (h : Small S n es fs s) (ha : a ∈ S)
    (hnone : ∀ j, (s.arpTable j).Live → (s.arpTable j).ipaddr ≠ a) :
    ∃ j, (s.arpTable j).state = .empty := by
  by_contra hall
  have hlive : ∀ j, (s.arpTable j).Live := fun j hj => hall ⟨j, hj⟩
  have hcard : (S.erase a).card < (Finset.univ : Finset (Fin arpTableSize)).card := by
    have hpos := Finset.card_pos.2 ⟨a, ha⟩
    have hle := h.card
    rw [Finset.card_erase_of_mem ha, Finset.card_univ, Fintype.card_fin]
    omega
  have hmaps : ∀ j ∈ (Finset.univ : Finset (Fin arpTableSize)),
      (s.arpTable j).ipaddr ∈ S.erase a :=
    fun j _ => Finset.mem_erase.2 ⟨hnone j (hlive j), h.keys j (hlive j)⟩
  obtain ⟨j, -, k, -, hjk, heq⟩ := Finset.exists_ne_map_eq_of_card_lt_of_maps_to hcard hmaps
  exact hjk (h.inv.wf.keyed j k (hlive j) (hlive k) heq)

/-- The entry chosen is that of the host, or an empty one. -/
theorem Small.chosen (h : Small S n es fs s) (ha : a ∈ S) {hard : Prop}
    (hc : Chosen s a hard i) : (s.arpTable i).Live → (s.arpTable i).ipaddr = a := by
  intro hl
  cases hc with
  | found _ haddr => exact haddr
  | fresh hnone hvictim =>
    obtain ⟨j, hj⟩ := h.exists_empty ha hnone
    have hrank := (hvictim j).1
    rw [EtharpEntry.rank_eq_zero.2 hj] at hrank
    exact absurd (Nat.le_zero.1 hrank) (live_iff_rank.1 hl)

/-- The entry chosen for a host of `S` changes, and stays known or becomes so. -/
theorem Small.assign (h : Small S n es fs s) {e : EtharpOp β} {o : List (EthFrame β)}
    (h' : Inv n (es ++ [e]) (fs ++ o) s') (ha : a ∈ S) {hard : Prop} (hc : Chosen s a hard i)
    {x : EtharpEntry β} (hx : Assigned s s' i x) (hip : x.ipaddr = a)
    (hother : ∀ b, b ≠ a → known n (es ++ [e]) b = known n es b)
    (hmine : ∀ m c, known n (es ++ [e]) a = some (m, c) → c < arpMaxage → x.state = .stable) :
    Small S n (es ++ [e]) (fs ++ o) s' where
  inv := h'
  card := h.card
  keys j := by
    by_cases hj : j = i
    · rw [hj, hx.self, hip]
      exact fun _ => ha
    · rw [hx.other hj]
      exact h.keys j
  complete b m c hb hcage := by
    by_cases hba : b = a
    · subst hba
      exact ⟨i, by rw [hx.self]; exact hmine m c hb hcage, by rw [hx.self, hip]⟩
    · rw [hother b hba] at hb
      obtain ⟨j, hst, hj⟩ := h.complete b m c hb hcage
      have hji : j ≠ i := by
        rintro rfl
        exact hba (hj.symm.trans (h.chosen ha hc (by simp [EtharpEntry.Live, hst])))
      exact ⟨j, by rwa [hx.other hji], by rwa [hx.other hji]⟩

theorem Small.same (h : Small S n es fs s) {e : EtharpOp β} {o : List (EthFrame β)}
    (h' : Inv n (es ++ [e]) (fs ++ o) s) (hk : known n (es ++ [e]) = known n es) :
    Small S n (es ++ [e]) (fs ++ o) s where
  inv := h'
  card := h.card
  keys := h.keys
  complete := by
    rw [hk]
    exact h.complete

theorem aged_stable {e : EtharpEntry β} (hst : e.state = .stable) (hage : e.ctime + 1 < arpMaxage) :
    aged e = { e with ctime := e.ctime + 1 } := by
  have hmod : (e.ctime + 1) % 2 ^ 8 = e.ctime + 1 :=
    Nat.mod_eq_of_lt (hage.trans (by norm_num))
  simp only [aged, hst, hmod]
  rw [if_neg]
  rintro (⟨-, h⟩ | ⟨h, -⟩)
  · exact Nat.not_le.2 hage h
  · cases h

/-- **A step** keeps the table complete. -/
theorem Small.step (h : Small S n es fs s) (e : EtharpOp β) (he : ∀ a ∈ mention n e, a ∈ S) :
    ∃ o s', s.step n e = some (o, s') ∧ Small S n (es ++ [e]) (fs ++ o) s' := by
  obtain ⟨o, s', hstep, h', -⟩ := h.inv.step e
  refine ⟨o, s', hstep, ?_⟩
  cases e with
  | tmr =>
    cases hstep
    refine ⟨h', h.card, fun i hl => ?_, fun a m c ha hcage => ?_⟩
    · rw [etharpTmr_table] at hl ⊢
      rcases aged_cases (s.arpTable i) with ⟨hst, -⟩ | ⟨heq, -⟩
      · exact absurd hst hl
      · rw [heq] at hl ⊢
        exact h.keys i hl
    · rw [known_snoc] at ha
      simp only [Known.step] at ha
      obtain ⟨⟨m', c'⟩, hknown, heq⟩ := Option.map_eq_some_iff.1 ha
      obtain ⟨rfl, rfl⟩ := Prod.mk.inj heq
      obtain ⟨i, hst, hi⟩ := h.complete a m' c' hknown (Nat.lt_of_succ_lt hcage)
      have hctime := h.inv.known i hst
      rw [hi, hknown] at hctime
      obtain ⟨-, hc⟩ := Prod.mk.inj (Option.some.inj hctime)
      refine ⟨i, ?_⟩
      rw [etharpTmr_table, aged_stable hst (hc ▸ hcage)]
      exact ⟨hst, hi⟩
  | input len f =>
    obtain ⟨fs', s₁, hstep', hupd⟩ := input_spec h.inv.wf n len f
    obtain ⟨rfl, rfl⟩ := Prod.mk.inj (Option.some.inj (hstep.symm.trans hstep'))
    have hknown := Inv.known_input n es len f
    cases hclaim : claim n (.input len f) with
    | none =>
      simp only [hclaim] at hupd hknown
      obtain ⟨rfl, rfl⟩ := hupd
      exact h.same h' hknown
    | some r =>
      obtain ⟨a, m⟩ := r
      have ha : a ∈ S := he a (by simp [mention, hclaim])
      simp only [hclaim] at hupd hknown
      cases hupd with
      | entry i _ hc hx =>
        refine h.assign h' ha hc hx rfl (fun b hb => ?_) fun _ _ _ _ => rfl
        rw [hknown, Function.update_of_ne hb]
      | full hfull hhard =>
        obtain ⟨j, hj⟩ := h.exists_empty ha fun j _ => (hfull j).2
        exact absurd hj (hfull j).1
  | output q env =>
    obtain ⟨o', s₁, hstep', hout⟩ := output_spec h.inv.wf n q env
    obtain ⟨rfl, rfl⟩ := Prod.mk.inj (Option.some.inj (hstep.symm.trans hstep'))
    have hknown : known n (es ++ [.output q env]) = known n es := by
      rw [known_snoc]
      rfl
    cases hout with
    | dropped => exact h.same h' hknown
    | group => exact h.same h' hknown
    | host a hhop hquery =>
      have ha : a ∈ S := he a hhop
      cases hquery with
      | sent _ _ hc hst hx =>
        exact h.assign h' ha hc hx entryFor_ipaddr (fun b _ => by rw [hknown]) fun _ _ _ _ => hst
      | waits i _ hc hst hx =>
        refine h.assign h' ha hc hx entryFor_ipaddr (fun b _ => by rw [hknown]) ?_
        -- the host would have a stable entry
        intro m c hm hcage
        rw [hknown] at hm
        obtain ⟨j, hj, hja⟩ := h.complete a m c hm hcage
        have hlive : (s.arpTable j).Live := by simp [EtharpEntry.Live, hj]
        have hji : j = i := by
          by_contra hne
          exact hc.other h.inv.wf hne hlive hja
        subst hji
        rw [entryFor, if_pos ⟨hlive, hja⟩] at hst
        exact absurd hj hst

theorem small_init (hS : S.card ≤ arpTableSize) (n : EthNetif) :
    Small S n [] [] (init : Etharp β) where
  inv := inv_init n
  card := hS
  keys _ h := absurd rfl h
  complete := nofun

theorem small_run (hS : S.card ≤ arpTableSize) (n : EthNetif) (es : List (EtharpOp β))
    (hes : ∀ e ∈ es, ∀ a ∈ mention n e, a ∈ S) :
    ∃ fs s, tryRun (Etharp.step n) init es = some (fs, s) ∧ Small S n es fs s :=
  tryRun_history (I := Small S n) (K := fun e => ∀ a ∈ mention n e, a ∈ S)
    (fun _ _ _ e he h => h.step e he) (small_init hS n) es hes

/-- **The table is exact.**  While a station has to do with ten hosts at most, `etharp_find_addr`
    finds an Ethernet address for a host just when the host has told it last, less than 240 ticks
    ago. -/
theorem find_addr_exact (hS : S.card ≤ arpTableSize) (n : EthNetif) (es : List (EtharpOp β))
    (hes : ∀ e ∈ es, ∀ a ∈ mention n e, a ∈ S) :
    ∃ fs s, tryRun (Etharp.step n) init es = some (fs, s) ∧ ∀ a m,
      (∃ i s', s.etharpFindAddr a = some (some (i, m), s')) ↔
        ∃ age < arpMaxage, known n es a = some (m, age) := by
  obtain ⟨fs, s, hrun, h⟩ := small_run hS n es hes
  refine ⟨fs, s, hrun, fun a m => ?_⟩
  obtain ⟨o, s₁, hfind, hfound⟩ := findEntry_spec h.inv.wf a .findOnly
  constructor
  · rintro ⟨i, s', hres⟩
    rw [etharpFindAddr, hfind] at hres
    simp only [Option.bind_eq_bind, Option.bind_some] at hres
    cases hfound with
    | found j hlive haddr =>
      obtain ⟨hres, -⟩ := Prod.mk.inj (Option.some.inj hres)
      split_ifs at hres with hst
      obtain ⟨-, rfl⟩ := Prod.mk.inj (Option.some.inj hres)
      exact ⟨_, h.inv.stable j hst, by rw [← haddr]; exact h.inv.known j hst⟩
    | fresh _ _ hflags => exact absurd rfl hflags
    | absent => cases hres
  · rintro ⟨c, hcage, hknown⟩
    obtain ⟨j, hst, hja⟩ := h.complete a m c hknown hcage
    have hlive : (s.arpTable j).Live := by simp [EtharpEntry.Live, hst]
    cases hfound with
    | found i hl haddr =>
      obtain rfl := h.inv.wf.keyed i j hl hlive (haddr.trans hja.symm)
      have hm := h.inv.known i hst
      rw [hja, hknown] at hm
      obtain ⟨rfl, -⟩ := Prod.mk.inj (Option.some.inj hm)
      refine ⟨i, { s with etharpCachedEntry := i }, ?_⟩
      rw [etharpFindAddr, hfind]
      simp only [Option.bind_eq_bind, Option.bind_some, hst, if_true]
      rfl
    | fresh _ _ hflags => exact absurd rfl hflags
    | absent hnone => exact absurd hja (hnone j hlive)

/-- The host of the messages, a tick, and another host. -/
theorem find_addr_exact_host :
    let es : List (EtharpOp Unit) :=
      [.input 60 (.ip ethbroadcast (fun _ => 7) ⟨le32 192 168 10 13, 0, ()⟩), .tmr,
        .input 60 (.ip ethbroadcast (fun _ => 8) ⟨le32 192 168 10 14, 0, ()⟩)]
    ∃ fs s, tryRun (Etharp.step .gnd) init es = some (fs, s) ∧ ∀ a m,
      (∃ i s', s.etharpFindAddr a = some (some (i, m), s')) ↔
        ∃ age < arpMaxage, known .gnd es a = some (m, age) :=
  find_addr_exact (S := {le32 192 168 10 13, le32 192 168 10 14}) (by decide) .gnd _ fun e he => by
    simp only [List.mem_cons, List.not_mem_nil, or_false] at he
    rcases he with rfl | rfl | rfl
    · exact mention_mem (by decide) (Finset.mem_insert_self _ _)
    · exact nofun
    · exact mention_mem (by decide) (Finset.mem_insert_of_mem (Finset.mem_singleton_self _))

/-! ## Packets that wait -/

/-- The packet waits for the address of its host. -/
def Waits (s : Etharp β) (a : U32) (q : IpPacket β) : Prop :=
  ∃ i, (s.arpTable i).state = .pending ∧ (s.arpTable i).ipaddr = a ∧ q ∈ (s.arpTable i).q

/-- A packet goes on waiting while its host is silent and the timer does not tick. -/
theorem Small.waits (h : Small S n es fs s) {q : IpPacket β} (hq : s.Waits a q)
    {e : EtharpOp β} (he : ∀ a ∈ mention n e, a ∈ S) (htick : e ≠ .tmr)
    (hsilent : ∀ m, claim n e ≠ some (a, m)) {o : List (EthFrame β)}
    (hstep : s.step n e = some (o, s')) : s'.Waits a q := by
  obtain ⟨i, hst, rfl, hqi⟩ := hq
  have hlive : (s.arpTable i).Live := by simp [EtharpEntry.Live, hst]
  cases e with
  | tmr => exact absurd rfl htick
  | input len f =>
    obtain ⟨fs', s₁, hstep', hupd⟩ := input_spec h.inv.wf n len f
    obtain ⟨-, rfl⟩ := Prod.mk.inj (Option.some.inj (hstep.symm.trans hstep'))
    cases hclaim : claim n (.input len f) with
    | none =>
      simp only [hclaim] at hupd
      rw [hupd.2]
      exact ⟨i, hst, rfl, hqi⟩
    | some r =>
      obtain ⟨b, m⟩ := r
      have hb : b ∈ S := he b (by simp [mention, hclaim])
      simp only [hclaim] at hupd
      cases hupd with
      | entry k _ hc hx =>
        have hik : i ≠ k := by
          rintro rfl
          exact hsilent m (by rw [hclaim, h.chosen hb hc hlive])
        exact ⟨i, by rwa [hx.other hik], by rw [hx.other hik], by rwa [hx.other hik]⟩
      | full => exact ⟨i, hst, rfl, hqi⟩
  | output p env =>
    obtain ⟨o', s₁, hstep', hout⟩ := output_spec h.inv.wf n p env
    obtain ⟨-, rfl⟩ := Prod.mk.inj (Option.some.inj (hstep.symm.trans hstep'))
    cases hout with
    | dropped => exact ⟨i, hst, rfl, hqi⟩
    | group => exact ⟨i, hst, rfl, hqi⟩
    | host b hhop hquery =>
      have hb : b ∈ S := he b hhop
      cases hquery with
      | sent k _ hc hsk hx =>
        have hik : i ≠ k := by
          rintro rfl
          rw [(entryFor_live (by simp [EtharpEntry.Live, hsk])).1, hst] at hsk
          cases hsk
        exact ⟨i, by rwa [hx.other hik], by rw [hx.other hik], by rwa [hx.other hik]⟩
      | waits k _ hc hsk hx =>
        by_cases hik : i = k
        · subst hik
          have hfor : s.entryFor b i = s.arpTable i := if_pos ⟨hlive, h.chosen hb hc hlive⟩
          rw [hfor] at hx
          refine ⟨i, by rw [hx.self], by rw [hx.self], ?_⟩
          rw [hx.self]
          exact List.mem_append_left _ hqi
        · exact ⟨i, by rwa [hx.other hik], by rw [hx.other hik], by rwa [hx.other hik]⟩

/-- When the host tells its address, the packet is sent there. -/
theorem Small.answered (h : Small S n es fs s) {q : IpPacket β} (hq : s.Waits a q) {m : EthAddr}
    {len : ℕ} {f : EthFrame β} (hclaim : claim n (.input len f) = some (a, m)) :
    ∃ o s', s.step n (.input len f) = some (o, s') ∧ .ip m n.hwaddr q ∈ o := by
  obtain ⟨i, hst, rfl, hqi⟩ := hq
  have hlive : (s.arpTable i).Live := by simp [EtharpEntry.Live, hst]
  obtain ⟨fs', s', hstep, hupd⟩ := input_spec h.inv.wf n len f
  refine ⟨_, s', hstep, List.mem_append_left _ ?_⟩
  simp only [hclaim] at hupd
  cases hupd with
  | entry k _ hc hx =>
    have hik : i = k := by
      by_contra hne
      exact hc.other h.inv.wf hne hlive rfl
    subst hik
    rw [entryFor, if_pos ⟨hlive, rfl⟩]
    exact List.mem_map_of_mem hqi
  | full hfull => exact absurd rfl (hfull i).2

/-- A packet for a host is sent at once to the address known, or waits, if there is memory. -/
theorem Small.given (h : Small S n es fs s) {q : IpPacket β} {env : EtharpEnv}
    (hhop : hop n q.dest = some a) (hu : nonUnicast a n.toNetif = false)
    (hheader : env.header = true) (hcopy : env.copy = true) (hqueue : s.arpQueue ≠ 0) :
    ∃ o s', s.step n (.output q env) = some (o, s') ∧
      ((∃ m, .ip m n.hwaddr q ∈ o ∧ ∃ c < arpMaxage, known n es a = some (m, c)) ∨
        s'.Waits a q ∧ (env.request = true → .arp (.request n a) ∈ o)) := by
  obtain ⟨o, s', hstep, hout⟩ := output_spec h.inv.wf n q env
  refine ⟨o, s', hstep, ?_⟩
  cases hout with
  | dropped hdrop =>
    rcases hdrop with hno | ⟨b, hb, hno⟩
    · rw [hheader] at hno
      cases hno
    · rw [hhop] at hb
      cases hb
      rw [hu] at hno
      cases hno
  | group hgroup =>
    rw [hhop] at hgroup
    cases hgroup
  | host b hb hquery =>
    rw [hhop] at hb
    cases hb
    cases hquery with
    | sent i _ hc hst hx =>
      have hlive : (s.entryFor a i).Live := by simp [EtharpEntry.Live, hst]
      obtain ⟨heq, -⟩ := entryFor_live hlive
      have hip : (s.arpTable i).ipaddr = a := by rw [← heq, entryFor_ipaddr]
      rw [heq] at hst
      refine .inl ⟨_, List.mem_singleton_self _, _, h.inv.stable i hst, ?_⟩
      rw [← hip]
      exact h.inv.known i hst
    | waits i _ hc hst hx =>
      have hroom : s.Room a i := by
        unfold Room entryFor
        split_ifs
        · omega
        · rw [cleared, List.length_nil]
          omega
      rw [if_pos ⟨hcopy, hroom⟩] at hx
      refine .inr ⟨⟨i, by rw [hx.self], by rw [hx.self]; exact entryFor_ipaddr, ?_⟩, fun hreq => ?_⟩
      · rw [hx.self]
        exact List.mem_append_right _ (List.mem_singleton_self q)
      · rw [hreq]
        exact List.mem_singleton_self _

/-- The packet goes on waiting while its host is silent and the timer does not tick. -/
theorem Small.waits_run (h : Small S n es fs s) {q : IpPacket β} (hq : s.Waits a q)
    {mid : List (EtharpOp β)} (hmid : ∀ e ∈ mid, (∀ b ∈ mention n e, b ∈ S) ∧ e ≠ .tmr ∧
      ∀ m, claim n e ≠ some (a, m)) :
    ∃ fs' s', tryRun (Etharp.step n) s mid = some (fs', s') ∧
      Small S n (es ++ mid) (fs ++ fs') s' ∧ s'.Waits a q := by
  refine tryRun_history (I := fun es fs s => Small S n es fs s ∧ s.Waits a q)
    (K := fun e => (∀ b ∈ mention n e, b ∈ S) ∧ e ≠ .tmr ∧ ∀ m, claim n e ≠ some (a, m))
    ?_ ⟨h, hq⟩ mid hmid
  rintro es fs s e ⟨hS, htick, hsilent⟩ ⟨h, hq⟩
  obtain ⟨o, s', hstep, h'⟩ := h.step e hS
  exact ⟨o, s', hstep, h', h.waits hq hS htick hsilent hstep⟩

/-- A packet given, calls with the host silent, and the host's word. -/
theorem Small.told (h : Small S n es fs s) {q : IpPacket β} (env : EtharpEnv)
    (hhop : hop n q.dest = some a) (hu : nonUnicast a n.toNetif = false)
    (hheader : env.header = true) (hcopy : env.copy = true) (hqueue : s.arpQueue ≠ 0)
    {mid : List (EtharpOp β)} (hmid : ∀ e ∈ mid, (∀ b ∈ mention n e, b ∈ S) ∧ e ≠ .tmr ∧
      ∀ m, claim n e ≠ some (a, m)) (ha : a ∈ S) {len : ℕ} {f : EthFrame β} {m : EthAddr}
    (hclaim : claim n (.input len f) = some (a, m)) :
    ∃ fs' s', tryRun (Etharp.step n) s (.output q env :: (mid ++ [.input len f])) =
      some (fs', s') ∧
      ((∃ m', .ip m' n.hwaddr q ∈ fs' ∧ ∃ c < arpMaxage, known n es a = some (m', c)) ∨
        .ip m n.hwaddr q ∈ fs' ∧ (env.request = true → .arp (.request n a) ∈ fs')) := by
  have hS : ∀ b ∈ mention n (.output q env), b ∈ S := mention_mem hhop ha
  obtain ⟨o, s₁, hstep, hcases⟩ := h.given hhop hu hheader hcopy hqueue
  obtain ⟨o', s₁', hstep', h₁⟩ := h.step (.output q env) hS
  obtain ⟨rfl, rfl⟩ := Prod.mk.inj (Option.some.inj (hstep.symm.trans hstep'))
  have hSf : ∀ b ∈ mention n (.input len f), b ∈ S := by
    refine mention_mem (a := a) ?_ ha
    rw [mention, hclaim]
    · rfl
    · nofun
  -- the run goes on in any case
  have hrest : ∃ fs₂ s₂ o₃ s₃, tryRun (Etharp.step n) s₁ mid = some (fs₂, s₂) ∧
      s₂.step n (.input len f) = some (o₃, s₃) ∧ (s₁.Waits a q → .ip m n.hwaddr q ∈ o₃) := by
    by_cases hw : s₁.Waits a q
    · obtain ⟨fs₂, s₂, hrun₂, h₂, hw₂⟩ := h₁.waits_run hw hmid
      obtain ⟨o₃, s₃, hstep₃, hin⟩ := h₂.answered hw₂ hclaim
      exact ⟨fs₂, s₂, o₃, s₃, hrun₂, hstep₃, fun _ => hin⟩
    · obtain ⟨fs₂, s₂, hrun₂, h₂⟩ := tryRun_history (I := Small S n)
        (K := fun e => ∀ b ∈ mention n e, b ∈ S) (fun _ _ _ e he h => h.step e he) h₁ mid
        fun e he => (hmid e he).1
      obtain ⟨o₃, s₃, hstep₃, -⟩ := h₂.step (.input len f) hSf
      exact ⟨fs₂, s₂, o₃, s₃, hrun₂, hstep₃, fun hw' => absurd hw' hw⟩
  obtain ⟨fs₂, s₂, o₃, s₃, hrun₂, hstep₃, hin⟩ := hrest
  refine ⟨o ++ (fs₂ ++ o₃), s₃, ?_, ?_⟩
  · have hrun := tryRun_snoc hrun₂ hstep₃
    simp only [tryRun, hstep, hrun, Option.bind_eq_bind, Option.bind_some]
    rfl
  · rcases hcases with ⟨m', hm', hknown⟩ | ⟨hw, hreq⟩
    · exact .inl ⟨m', List.mem_append_left _ hm', hknown⟩
    · exact .inr ⟨List.mem_append_right _ (List.mem_append_right _ (hin hw)),
        fun hr => List.mem_append_left _ (hreq hr)⟩

/-- **Delivery.**  While a station has to do with ten hosts at most, a packet for one of them is
    sent at once to the address known; or the address is requested, and the packet is sent when the
    host next tells it, if the timer does not tick before.  There must be room for the Ethernet
    header, memory for the copy of the packet and an element of the queues; the request needs a
    pbuf. -/
theorem delivered (hS : S.card ≤ arpTableSize) (n : EthNetif) (es mid : List (EtharpOp β))
    (q : IpPacket β) (env : EtharpEnv) (len : ℕ) (f : EthFrame β) (m : EthAddr) (ha : a ∈ S)
    (hes : ∀ e ∈ es ++ mid, ∀ b ∈ mention n e, b ∈ S) (hhop : hop n q.dest = some a)
    (hu : nonUnicast a n.toNetif = false) (hheader : env.header = true) (hcopy : env.copy = true)
    (hmid : ∀ e ∈ mid, e ≠ .tmr ∧ ∀ m, claim n e ≠ some (a, m))
    (hclaim : claim n (.input len f) = some (a, m)) :
    ∃ fs s, tryRun (Etharp.step n) init es = some (fs, s) ∧ (s.arpQueue ≠ 0 →
      ∃ fs' s', tryRun (Etharp.step n) s (.output q env :: (mid ++ [.input len f])) =
        some (fs', s') ∧
        ((∃ m', .ip m' n.hwaddr q ∈ fs' ∧ ∃ c < arpMaxage, known n es a = some (m', c)) ∨
          .ip m n.hwaddr q ∈ fs' ∧ (env.request = true → .arp (.request n a) ∈ fs'))) := by
  obtain ⟨fs, s, hrun, h⟩ := small_run hS n es fun e he => hes e (List.mem_append_left _ he)
  refine ⟨fs, s, hrun, fun hqueue => h.told env hhop hu hheader hcopy hqueue ?_ ha hclaim⟩
  exact fun e he => ⟨hes e (List.mem_append_right _ he), hmid e he⟩

/-- A packet for the host of the messages waits until a packet from it tells its address. -/
theorem delivered_host :
    let q : IpPacket Unit := ⟨le32 192 168 10 100, le32 192 168 10 13, ()⟩
    let f : EthFrame Unit := .ip ethbroadcast (fun _ => 7) ⟨le32 192 168 10 13, 0, ()⟩
    ∃ fs s, tryRun (Etharp.step .gnd) init [] = some (fs, s) ∧ (s.arpQueue ≠ 0 →
      ∃ fs' s', tryRun (Etharp.step .gnd) s
          (.output q ⟨true, true, true⟩ :: ([.output q ⟨true, false, true⟩] ++ [.input 60 f])) =
        some (fs', s') ∧
        ((∃ m', .ip m' EthNetif.gnd.hwaddr q ∈ fs' ∧
            ∃ c < arpMaxage, known (β := Unit) .gnd [] (le32 192 168 10 13) = some (m', c)) ∨
          .ip (fun _ => 7) EthNetif.gnd.hwaddr q ∈ fs' ∧
            (true = true → .arp (.request .gnd (le32 192 168 10 13)) ∈ fs'))) :=
  delivered (S := {le32 192 168 10 13}) (by decide) .gnd [] _ _ _ _ _ _ (by decide)
    (fun e he => by
      cases List.mem_singleton.1 he
      exact mention_mem (by decide) (Finset.mem_singleton_self _))
    (by decide) (by decide) rfl rfl
    (fun e he => by
      cases List.mem_singleton.1 he
      exact ⟨nofun, nofun⟩) (by decide)

/-! ## Two stations -/

theorem ne_zero_of_unicast {n : Netif} (hu : nonUnicast a n = false) : a ≠ 0 := by
  rintro rfl
  simp [nonUnicast] at hu

/-- The reply to a request tells the address of the station asked. -/
theorem claim_reply (nA nB : EthNetif) (hu : nonUnicast nB.ipAddr nA.toNetif = false) :
    claim nA (.input sizeofEtharpHdr (.arp ((EtharpHdr.request nA nB.ipAddr).reply nB)) :
      EtharpOp β) = some (nB.ipAddr, nB.hwaddr) := by
  have hv : ((EtharpHdr.request nA nB.ipAddr).reply nB).valid sizeofEtharpHdr = true := rfl
  rw [claim, if_pos ⟨hv, hu⟩]
  rfl

/-- The station asked replies, and knows then who has asked. -/
theorem asked {fs : List (EthFrame β)} {sB : Etharp β} {nB : EthNetif} {esB : List (EtharpOp β)}
    (h : Inv nB esB fs sB) (nA : EthNetif) (hB : nB.ipAddr ≠ 0)
    (hA : nonUnicast nA.ipAddr nB.toNetif = false) :
    ∃ o s', sB.step nB (.input sizeofEtharpHdr (.arp (.request nA nB.ipAddr))) = some (o, s') ∧
      .arp ((EtharpHdr.request nA nB.ipAddr).reply nB) ∈ o ∧
      ∃ i, (s'.arpTable i).state = .stable ∧ (s'.arpTable i).ipaddr = nA.ipAddr ∧
        (s'.arpTable i).ethaddr = nA.hwaddr := by
  have hus : (EtharpHdr.request nA nB.ipAddr).forUs nB = true := by
    simpa [EtharpHdr.forUs, EtharpHdr.request] using hB
  have hv : (EtharpHdr.request nA nB.ipAddr).valid sizeofEtharpHdr = true := rfl
  have hclaim : claim nB (.input sizeofEtharpHdr (.arp (.request nA nB.ipAddr)) : EtharpOp β) =
      some (nA.ipAddr, nA.hwaddr) := by
    rw [claim, if_pos ⟨hv, hA⟩]
    rfl
  obtain ⟨o, s', hstep, hupd⟩ :=
    input_spec h.wf nB sizeofEtharpHdr (.arp (.request nA nB.ipAddr))
  simp only [hclaim] at hupd
  refine ⟨_, s', hstep, List.mem_append_right _ ?_, ?_⟩
  · rw [replies, if_pos ⟨hv, rfl, hus⟩]
    exact List.mem_singleton_self _
  · cases hupd with
    | entry i _ _ hx => exact ⟨i, by rw [hx.self], by rw [hx.self], by rw [hx.self]⟩
    | full _ hhard => exact absurd hus hhard

/-- **Resolution.**  A station that has to do with ten hosts at most gives a packet for another
    station on the network.  It sends the packet at once to the address it knows; or it sends a
    request, to which the other replies, whatever has happened to it before, and knows then who has
    asked; and with the reply the packet goes to the other, unless the timer ticks before or the
    other tells an address meanwhile.  No allocation fails for the packet, and an element of the
    queues is free. -/
theorem resolved (hS : S.card ≤ arpTableSize) (nA nB : EthNetif) (esA mid esB : List (EtharpOp β))
    (q : IpPacket β) (env : EtharpEnv) (hB : nB.ipAddr ∈ S)
    (hes : ∀ e ∈ esA ++ mid, ∀ b ∈ mention nA e, b ∈ S) (hhop : hop nA q.dest = some nB.ipAddr)
    (hu : nonUnicast nB.ipAddr nA.toNetif = false)
    (hu' : nonUnicast nA.ipAddr nB.toNetif = false) (henv : env = ⟨true, true, true⟩)
    (hmid : ∀ e ∈ mid, e ≠ .tmr ∧ ∀ m, claim nA e ≠ some (nB.ipAddr, m)) :
    ∃ fsA sA fsB sB oB sB' r, tryRun (Etharp.step nA) init esA = some (fsA, sA) ∧
      tryRun (Etharp.step nB) init esB = some (fsB, sB) ∧
      sB.step nB (.input sizeofEtharpHdr (.arp (.request nA nB.ipAddr))) = some (oB, sB') ∧
      .arp r ∈ oB ∧ (∃ i, (sB'.arpTable i).state = .stable ∧
        (sB'.arpTable i).ipaddr = nA.ipAddr ∧ (sB'.arpTable i).ethaddr = nA.hwaddr) ∧
      (sA.arpQueue ≠ 0 → ∃ fs' sA', tryRun (Etharp.step nA) sA
        (.output q env :: (mid ++ [.input sizeofEtharpHdr (.arp r)])) = some (fs', sA') ∧
        ((∃ m, .ip m nA.hwaddr q ∈ fs' ∧
            ∃ c < arpMaxage, known nA esA nB.ipAddr = some (m, c)) ∨
          .arp (.request nA nB.ipAddr) ∈ fs' ∧ .ip nB.hwaddr nA.hwaddr q ∈ fs')) := by
  obtain ⟨fsA, sA, hrunA, hsmall⟩ :=
    small_run hS nA esA fun e he => hes e (List.mem_append_left _ he)
  obtain ⟨fsB, sB, hrunB, hinv⟩ := inv_run nB esB
  obtain ⟨oB, sB', hstep, hreply, hlearnt⟩ := asked hinv nA (ne_zero_of_unicast hu) hu'
  refine ⟨fsA, sA, fsB, sB, oB, sB', _, hrunA, hrunB, hstep, hreply, hlearnt, fun hqueue => ?_⟩
  subst henv
  obtain ⟨fs', sA', hrun, hsent⟩ := hsmall.told ⟨true, true, true⟩ hhop hu rfl rfl hqueue
    (fun e he => ⟨hes e (List.mem_append_right _ he), hmid e he⟩) hB (claim_reply nA nB hu)
  exact ⟨fs', sA', hrun, hsent.imp id fun h => ⟨h.2 rfl, h.1⟩⟩

/-- The firmware and the host of the messages. -/
theorem resolved_host :
    let nB : EthNetif := ⟨⟨le32 192 168 10 13, le32 255 255 255 0⟩, 0, fun _ => 7⟩
    let q : IpPacket Unit := ⟨le32 192 168 10 100, le32 192 168 10 13, ()⟩
    ∃ fsA sA fsB sB oB sB' r, tryRun (Etharp.step .gnd) init [] = some (fsA, sA) ∧
      tryRun (Etharp.step (β := Unit) nB) init [] = some (fsB, sB) ∧
      sB.step nB (.input sizeofEtharpHdr (.arp (.request .gnd nB.ipAddr))) = some (oB, sB') ∧
      .arp r ∈ oB ∧ (∃ i, (sB'.arpTable i).state = .stable ∧
        (sB'.arpTable i).ipaddr = EthNetif.gnd.ipAddr ∧
        (sB'.arpTable i).ethaddr = EthNetif.gnd.hwaddr) ∧
      (sA.arpQueue ≠ 0 → ∃ fs' sA', tryRun (Etharp.step .gnd) sA
        (.output q ⟨true, true, true⟩ :: ([] ++ [.input sizeofEtharpHdr (.arp r)])) =
          some (fs', sA') ∧
        ((∃ m, .ip m EthNetif.gnd.hwaddr q ∈ fs' ∧
            ∃ c < arpMaxage, known (β := Unit) .gnd [] nB.ipAddr = some (m, c)) ∨
          .arp (.request .gnd nB.ipAddr) ∈ fs' ∧ .ip nB.hwaddr EthNetif.gnd.hwaddr q ∈ fs')) :=
  resolved (S := {le32 192 168 10 13}) (by decide) .gnd _ [] [] [] _ _ (by decide) nofun
    (by decide) (by decide) (by decide) rfl nofun

end Etharp

end GndCtrl
