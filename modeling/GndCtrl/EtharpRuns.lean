/-
  Runs of the ARP module.

  `Known` is what a station can know of its network: the Ethernet address that
  each host has told last, with its age, without a bound on their number.  The
  table is a part of it (`Inv.known`), and the packets that were sent to a host
  and those that wait for its address are, in their order, packets that were
  given for it (`Inv.waiting`).

  * `table_sound` — no assertion fails, and no element of `MEMP_ARP_QUEUE` is lost;
  * `find_exact` — `find_entry` finds the entry of an address, with or without the
    cached entry, or takes the least important one;
  * `sent_rightly` — every frame goes to the address told last;
  * `sent_in_turn` — the packets to a host leave in their order, each at most once.
-/
import GndCtrl.EtharpTable
import GndCtrl.Lib.Simulation

namespace GndCtrl

variable {β : Type}

/-! ## What is known -/

/-- The Ethernet addresses told, with the ticks of the timer since then. -/
abbrev Known := U32 → Option (EthAddr × ℕ)

/-- The addresses of the sender of a frame, where `update_arp_entry` is called with them. -/
def claim (n : EthNetif) : EtharpOp β → Option (U32 × EthAddr)
  | .input len (.arp h) =>
    if h.valid len ∧ nonUnicast h.sipaddr n.toNetif = false then some (h.sipaddr, h.shwaddr)
    else none
  | .input _ (.ip _ ethSrc p) =>
    if ipAddrNetcmp p.src n.toNetif ∧ nonUnicast p.src n.toNetif = false then some (p.src, ethSrc)
    else none
  | _ => none

/-- What a call adds to what is known. -/
def Known.step (n : EthNetif) (k : Known) (e : EtharpOp β) : Known :=
  match e, claim n e with
  | .tmr, _ => fun a => (k a).map fun r => (r.1, r.2 + 1)
  | _, some (a, m) => Function.update k a (some (m, 0))
  | _, none => k

/-- What is known after the calls. -/
def known (n : EthNetif) (es : List (EtharpOp β)) : Known := run (Known.step n) (fun _ => none) es

theorem known_snoc (n : EthNetif) (es : List (EtharpOp β)) (e : EtharpOp β) :
    known n (es ++ [e]) = (known n es).step n e := by
  rw [known, run_append]
  rfl

/-! ## Packets -/

/-- The host on the network to which a packet for `dest` goes; none for a group of hosts. -/
def hop (n : EthNetif) (dest : U32) : Option U32 :=
  if ipAddrIsbroadcast dest n.toNetif ∨ ipAddrIsmulticast dest then none else some (nextHop n dest)

/-- The Ethernet address of a group of hosts. -/
def groupAddr (n : EthNetif) (dest : U32) : EthAddr :=
  if ipAddrIsbroadcast dest n.toNetif then ethbroadcast else mcastaddr dest

/-- The packets of `fs` to a host, or to groups of hosts. -/
def sentTo (n : EthNetif) (a : Option U32) (fs : List (EthFrame β)) : List (IpPacket β) :=
  fs.filterMap fun f => match f with
    | .ip _ _ p => if hop n p.dest = a then some p else none
    | .arp _ => none

/-- The packets of `es` for a host, or for groups of hosts. -/
def givenTo (n : EthNetif) (a : Option U32) (es : List (EtharpOp β)) : List (IpPacket β) :=
  es.filterMap fun e => match e with
    | .output q _ => if hop n q.dest = a then some q else none
    | _ => none

/-- A frame with the packet `p` to `dest` goes where `p` belongs, by what is known. -/
def Rightly (n : EthNetif) (k : Known) (p : IpPacket β) (dest : EthAddr) : Prop :=
  match hop n p.dest with
  | none => dest = groupAddr n p.dest
  | some a => ∃ age < arpMaxage, k a = some (dest, age)

section
variable (n : EthNetif) (a : Option U32)

theorem sentTo_append (fs fs' : List (EthFrame β)) :
    sentTo n a (fs ++ fs') = sentTo n a fs ++ sentTo n a fs' := List.filterMap_append

theorem givenTo_append (es es' : List (EtharpOp β)) :
    givenTo n a (es ++ es') = givenTo n a es ++ givenTo n a es' := List.filterMap_append

theorem givenTo_sublist (es es' : List (EtharpOp β)) :
    (givenTo n a es).Sublist (givenTo n a (es ++ es')) := by
  rw [givenTo_append]
  exact List.sublist_append_left ..

theorem sentTo_packets {l : List (IpPacket β)} {m : EthAddr} {b : U32}
    (hl : ∀ p ∈ l, hop n p.dest = some b) :
    sentTo n a (l.map (.ip m n.hwaddr)) = if a = some b then l else [] := by
  induction l with
  | nil => simp [sentTo]
  | cons p l ih =>
    have hp := hl p List.mem_cons_self
    have hrest := ih fun q hq => hl q (List.mem_cons_of_mem p hq)
    rw [sentTo] at hrest ⊢
    rw [List.map_cons]
    by_cases ha : a = some b
    · rw [if_pos ha] at hrest ⊢
      rw [List.filterMap_cons_some (b := p) (by simp [hp, ha]), hrest]
    · rw [if_neg ha] at hrest ⊢
      rw [List.filterMap_cons_none (by simp [hp, Ne.symm ha]), hrest]

theorem sentTo_request (b : U32) (allocated : Bool) :
    sentTo n a (Etharp.etharpRequest (β := β) n b allocated).2 = [] := by
  cases allocated <;> rfl

end

namespace Etharp
variable {s s' : Etharp β} {i : Fin arpTableSize} {n : EthNetif} {a : U32}

/-! ## The calls -/

/-- The replies to a frame received. -/
def replies (n : EthNetif) : EthFrame β → ℕ → List (EthFrame β)
  | .arp h, len => if h.valid len ∧ h.opcode = 1 ∧ h.forUs n then [.arp (h.reply n)] else []
  | .ip .., _ => []

/-- An ARP message for the interface gets an entry even if the table is full. -/
def Hard (n : EthNetif) : EthFrame β → Prop
  | .arp h => h.forUs n
  | .ip .. => False

/-- **The reception of a frame** updates an entry, if the frame tells an address. -/
theorem input_spec (h : s.Wf) (n : EthNetif) (len : ℕ) (f : EthFrame β) :
    ∃ fs s', s.step n (.input len f) = some (fs ++ replies n f len, s') ∧
      match claim n (.input len f) with
      | none => fs = [] ∧ s' = s
      | some (a, m) => Updated s n a m (Hard n f) fs s' := by
  cases f with
  | arp hdr =>
    simp only [step, ethernetInput, etharpArpInput, claim, replies]
    by_cases hv : hdr.valid len
    · simp only [hv, if_true, true_and]
      cases hu : nonUnicast hdr.sipaddr n.toNetif with
      | true =>
        refine ⟨[], s, ?_, by simp⟩
        simp only [updateArpEntry, hu, if_true, Option.bind_eq_bind, Option.bind_some,
          List.nil_append]
        rfl
      | false =>
        simp only [if_true]
        have hflags : (if hdr.forUs n then EtharpFlags.tryHard else .none) ≠ .findOnly := by
          split_ifs <;> decide
        obtain ⟨err, fs, s', he, hupd⟩ := updateArpEntry_spec h n hu hdr.shwaddr hflags
        refine ⟨fs, s', ?_, ?_⟩
        · rw [he]
          simp only [Option.bind_eq_bind, Option.bind_some]
          split_ifs
          · rfl
          · rw [List.append_nil]
            rfl
        · have hhard : ((if hdr.forUs n then EtharpFlags.tryHard else .none) = .tryHard) =
              Hard n (.arp hdr : EthFrame β) := by
            cases hus : hdr.forUs n <;> simp [Hard, hus]
          rwa [hhard] at hupd
    · simp only [hv]
      exact ⟨[], s, rfl, rfl, rfl⟩
  | ip dest ethSrc p =>
    simp only [step, ethernetInput, etharpIpInput, claim, replies]
    by_cases hnet : ipAddrNetcmp p.src n.toNetif
    · simp only [hnet, if_true, true_and]
      cases hu : nonUnicast p.src n.toNetif with
      | true =>
        refine ⟨[], s, ?_, by simp⟩
        simp only [updateArpEntry, hu, if_true, Option.bind_eq_bind, Option.bind_some,
          List.nil_append]
        rfl
      | false =>
        obtain ⟨err, fs, s', he, hupd⟩ := updateArpEntry_spec h n hu ethSrc
          (show EtharpFlags.none ≠ .findOnly by decide)
        refine ⟨fs, s', ?_, ?_⟩
        · rw [he, List.append_nil]
          rfl
        · have hhard : (EtharpFlags.none = .tryHard) = Hard n (.ip dest ethSrc p) := by simp [Hard]
          rwa [hhard] at hupd
    · simp only [hnet]
      exact ⟨[], s, rfl, rfl, rfl⟩

/-- The outcomes of `etharp_output`: no room or no route, a group of hosts, or a query. -/
inductive Output (s : Etharp β) (n : EthNetif) (q : IpPacket β) (env : EtharpEnv) :
    List (EthFrame β) → Etharp β → Prop
  | dropped (hdrop : env.header = false ∨
      ∃ a, hop n q.dest = some a ∧ nonUnicast a n.toNetif = true) : Output s n q env [] s
  | group (hgroup : hop n q.dest = none) :
      Output s n q env [.ip (groupAddr n q.dest) n.hwaddr q] s
  | host (a : U32) (hhop : hop n q.dest = some a) {fs : List (EthFrame β)} {s' : Etharp β}
      (hquery : Queried s n a q env fs s') : Output s n q env fs s'

theorem output_spec (h : s.Wf) (n : EthNetif) (q : IpPacket β) (env : EtharpEnv) :
    ∃ fs s', s.step n (.output q env) = some (fs, s') ∧ Output s n q env fs s' := by
  simp only [step, etharpOutput]
  cases hheader : env.header with
  | false => exact ⟨[], s, rfl, .dropped (.inl hheader)⟩
  | true =>
  rw [if_neg (by simp)]
  by_cases hb : ipAddrIsbroadcast q.dest n.toNetif
  · have hgroup : groupAddr n q.dest = ethbroadcast := if_pos hb
    refine ⟨[.ip (groupAddr n q.dest) n.hwaddr q], s, ?_, .group (if_pos (.inl hb))⟩
    rw [if_pos hb, hgroup]
    rfl
  rw [if_neg hb]
  by_cases hm : ipAddrIsmulticast q.dest
  · have hgroup : groupAddr n q.dest = mcastaddr q.dest := if_neg hb
    refine ⟨[.ip (groupAddr n q.dest) n.hwaddr q], s, ?_, .group (if_pos (.inr hm))⟩
    rw [if_pos hm, hgroup]
    rfl
  rw [if_neg hm]
  have hhop : hop n q.dest = some (nextHop n q.dest) := if_neg (not_or.2 ⟨hb, hm⟩)
  cases hu : nonUnicast (nextHop n q.dest) n.toNetif with
  | true =>
    refine ⟨[], s, ?_, .dropped (.inr ⟨_, hhop, hu⟩)⟩
    rw [etharpQuery, if_pos hu]
    split_ifs <;> rfl
  | false =>
    have hroute : ¬ (ipAddrNetcmp q.dest n.toNetif = false ∧ n.gw = 0) := by
      rintro ⟨hnet, hgw⟩
      rw [nextHop, hnet, hgw] at hu
      cases hu
    rw [if_neg hroute]
    obtain ⟨err, fs, s', he, hquery⟩ := etharpQuery_spec h n hu q env
    refine ⟨fs, s', ?_, .host _ hhop hquery⟩
    rw [he]
    rfl

/-! ## The timer -/

/-- An entry after a tick. -/
def aged (e : EtharpEntry β) : EtharpEntry β :=
  let e := { e with ctime := (e.ctime + 1) % 2 ^ 8 }
  if e.state = .stable ∧ e.ctime ≥ arpMaxage ∨ e.state = .pending ∧ e.ctime ≥ arpMaxpending then
    { e with q := [], state := .empty }
  else e

theorem tmrTurn_assigned (s : Etharp β) (i : Fin arpTableSize) :
    Assigned s (s.tmrTurn i) i (aged (s.arpTable i)) := by
  have hset (f : EtharpEntry β → EtharpEntry β) : (s.set i f).arpTable i = f (s.arpTable i) :=
    Function.update_self ..
  simp only [tmrTurn, hset, aged]
  split_ifs with hold hq
  · have hnil : (s.arpTable i).q = [] := List.isEmpty_iff.1 hq
    constructor
    · simp only [set, Function.update_self, Function.update_idem, hnil]
    · simp only [set, hnil]
  · constructor
    · simp only [set, freeEtharpQ, Function.update_self, Function.update_idem]
    · simp only [set, freeEtharpQ, Function.update_self, List.length_nil, Nat.add_zero]
  · exact ⟨rfl, rfl⟩

/-- The elements of `MEMP_ARP_QUEUE`, free ones and those in the queues. -/
def elements (s : Etharp β) : ℕ := s.arpQueue + ∑ i, (s.arpTable i).q.length

theorem Assigned.elements {e : EtharpEntry β} (h : Assigned s s' i e) :
    s'.elements = s.elements := by
  have hsum (t : Etharp β) : ∑ j, (t.arpTable j).q.length =
      (t.arpTable i).q.length + ∑ j ∈ Finset.univ.erase i, (t.arpTable j).q.length :=
    (Finset.add_sum_erase _ _ (Finset.mem_univ i)).symm
  have hrest : ∑ j ∈ Finset.univ.erase i, (s'.arpTable j).q.length =
      ∑ j ∈ Finset.univ.erase i, (s.arpTable j).q.length :=
    Finset.sum_congr rfl fun j hj => by rw [h.other (Finset.ne_of_mem_erase hj)]
  have hpool := h.pool
  rw [Etharp.elements, Etharp.elements, hsum s', hsum s, hrest, h.self]
  omega

theorem foldl_tmrTurn (is : List (Fin arpTableSize)) (hn : is.Nodup) (s : Etharp β) :
    (∀ i, (is.foldl tmrTurn s).arpTable i =
      if i ∈ is then aged (s.arpTable i) else s.arpTable i) ∧
      (is.foldl tmrTurn s).elements = s.elements := by
  induction is generalizing s with
  | nil => exact ⟨fun i => by simp, rfl⟩
  | cons k is ih =>
    obtain ⟨hk, hn⟩ := List.nodup_cons.1 hn
    have hturn := tmrTurn_assigned s k
    obtain ⟨htable, helements⟩ := ih hn (s.tmrTurn k)
    refine ⟨fun i => ?_, helements.trans hturn.elements⟩
    rw [List.foldl_cons, htable]
    by_cases hik : i = k
    · subst hik
      rw [if_neg hk, if_pos List.mem_cons_self, hturn.self]
    · rw [hturn.other hik]
      simp only [List.mem_cons, hik, false_or]

theorem etharpTmr_table (s : Etharp β) (i : Fin arpTableSize) :
    s.etharpTmr.arpTable i = aged (s.arpTable i) := by
  rw [etharpTmr, (foldl_tmrTurn _ (List.nodup_finRange arpTableSize) s).1 i,
    if_pos (List.mem_finRange i)]

theorem etharpTmr_elements (s : Etharp β) : s.etharpTmr.elements = s.elements := by
  rw [etharpTmr, (foldl_tmrTurn _ (List.nodup_finRange arpTableSize) s).2]

/-- An entry after a tick: expired, or older. -/
theorem aged_cases (e : EtharpEntry β) :
    (aged e).state = .empty ∧ (aged e).q = [] ∨
      aged e = { e with ctime := (e.ctime + 1) % 2 ^ 8 } ∧
        (e.state = .stable → (e.ctime + 1) % 2 ^ 8 < arpMaxage) ∧
        (e.state = .pending → (e.ctime + 1) % 2 ^ 8 < arpMaxpending) := by
  unfold aged
  dsimp only
  split_ifs with hold
  · exact .inl ⟨rfl, rfl⟩
  · refine .inr ⟨rfl, fun hst => ?_, fun hst => ?_⟩
    · exact Nat.lt_of_not_le fun hle => hold (.inl ⟨hst, hle⟩)
    · exact Nat.lt_of_not_le fun hle => hold (.inr ⟨hst, hle⟩)

/-! ## The invariant -/

/-- The table after the calls `es`, which have sent `fs`. -/
structure Inv (n : EthNetif) (es : List (EtharpOp β)) (fs : List (EthFrame β)) (s : Etharp β) :
    Prop where
  wf : s.Wf
  elements : s.elements = mempNumArpQueue
  stable : ∀ i, (s.arpTable i).state = .stable → (s.arpTable i).ctime < arpMaxage
  pending : ∀ i, (s.arpTable i).state = .pending → (s.arpTable i).ctime < arpMaxpending
  known : ∀ i, (s.arpTable i).state = .stable →
    known n es (s.arpTable i).ipaddr = some ((s.arpTable i).ethaddr, (s.arpTable i).ctime)
  routed : ∀ i, ∀ p ∈ (s.arpTable i).q, hop n p.dest = some (s.arpTable i).ipaddr
  sent : ∀ b, (sentTo n b fs).Sublist (givenTo n b es)
  waiting : ∀ i, (s.arpTable i).Live →
    (sentTo n (some (s.arpTable i).ipaddr) fs ++ (s.arpTable i).q).Sublist
      (givenTo n (some (s.arpTable i).ipaddr) es)

theorem inv_init (n : EthNetif) : Inv n [] [] (init : Etharp β) where
  wf := ⟨fun _ _ h => absurd rfl h, fun _ _ => rfl⟩
  elements := by simp [Etharp.elements, init]
  stable := nofun
  pending := nofun
  known := nofun
  routed := nofun
  sent _ := .slnil
  waiting i h := absurd rfl h

/-- Another entry in use has another address. -/
theorem Chosen.other {hard : Prop} (hc : Chosen s a hard i) (h : s.Wf) {j : Fin arpTableSize}
    (hj : j ≠ i) (hl : (s.arpTable j).Live) : (s.arpTable j).ipaddr ≠ a := by
  cases hc with
  | found hlive haddr =>
    rintro rfl
    exact hj (h.keyed j i hl hlive haddr.symm)
  | fresh hnone => exact hnone j hl

namespace Inv
variable {es : List (EtharpOp β)} {fs : List (EthFrame β)}

/-- The packets to the host of the entry chosen, with those that wait there. -/
theorem waitingFor (h : Inv n es fs s) (a : U32) (i : Fin arpTableSize) :
    (sentTo n (some a) fs ++ (s.entryFor a i).q).Sublist (givenTo n (some a) es) := by
  unfold entryFor
  split_ifs with hf
  · obtain ⟨hlive, rfl⟩ := hf
    exact h.waiting i hlive
  · rw [cleared, List.append_nil]
    exact h.sent (some a)

/-- The table stays as it is, and frames go to groups of hosts only. -/
theorem same (h : Inv n es fs s) (e : EtharpOp β) {o : List (EthFrame β)}
    (hk : ∀ i, (s.arpTable i).Live → GndCtrl.known n (es ++ [e]) (s.arpTable i).ipaddr =
      GndCtrl.known n es (s.arpTable i).ipaddr) (ho : ∀ b, sentTo n (some b) o = [])
    (hg : (sentTo n none o).Sublist (givenTo n none [e])) : Inv n (es ++ [e]) (fs ++ o) s where
  wf := h.wf
  elements := h.elements
  stable := h.stable
  pending := h.pending
  known i hst := by
    rw [hk i (by simp [EtharpEntry.Live, hst])]
    exact h.known i hst
  routed := h.routed
  sent b := by
    rw [sentTo_append]
    cases b with
    | none =>
      rw [givenTo_append]
      exact (h.sent none).append hg
    | some b =>
      rw [ho, List.append_nil]
      exact (h.sent (some b)).trans (givenTo_sublist ..)
  waiting i hl := by
    rw [sentTo_append, ho, List.append_nil]
    exact (h.waiting i hl).trans (givenTo_sublist ..)

/-- The entry chosen for the address `a` changes, and frames go to that host only. -/
theorem assign (h : Inv n es fs s) {e : EtharpOp β} {o : List (EthFrame β)} {hard : Prop}
    (hc : Chosen s a hard i) {x : EtharpEntry β} (hx : Assigned s s' i x) (hip : x.ipaddr = a)
    (hq : x.state ≠ .pending → x.q = [])
    (hstable : x.state = .stable → x.ctime < arpMaxage ∧
      GndCtrl.known n (es ++ [e]) a = some (x.ethaddr, x.ctime))
    (hpending : x.state = .pending → x.ctime < arpMaxpending)
    (hother : ∀ b, b ≠ a → GndCtrl.known n (es ++ [e]) b = GndCtrl.known n es b)
    (hrouted : ∀ p ∈ x.q, hop n p.dest = some a) (hsent : ∀ b, b ≠ some a → sentTo n b o = [])
    (hmine : (sentTo n (some a) (fs ++ o) ++ x.q).Sublist (givenTo n (some a) (es ++ [e]))) :
    Inv n (es ++ [e]) (fs ++ o) s' := by
  -- what holds of the entry chosen and of every other
  have split {P : Fin arpTableSize → EtharpEntry β → Prop} (hi : P i x)
      (ho : ∀ j, j ≠ i → P j (s.arpTable j)) (j : Fin arpTableSize) : P j (s'.arpTable j) := by
    by_cases hj : j = i
    · rw [hj, hx.self]
      exact hi
    · rw [hx.other hj]
      exact ho j hj
  constructor
  · constructor
    · intro j k
      by_cases hj : j = i
      · by_cases hk : k = i
        · intro _ _ _
          rw [hj, hk]
        · rw [hj, hx.self, hx.other hk, hip]
          intro _ hl heq
          exact absurd heq.symm (hc.other h.wf hk hl)
      · by_cases hk : k = i
        · rw [hk, hx.self, hx.other hj, hip]
          intro hl _ heq
          exact absurd heq (hc.other h.wf hj hl)
        · rw [hx.other hj, hx.other hk]
          exact h.wf.keyed j k
    · exact split (P := fun _ x => x.state ≠ .pending → x.q = []) hq fun j _ => h.wf.queue j
  · exact hx.elements.trans h.elements
  · exact split (P := fun _ x => x.state = .stable → x.ctime < arpMaxage)
      (fun hst => (hstable hst).1) fun j _ => h.stable j
  · exact split (P := fun _ x => x.state = .pending → x.ctime < arpMaxpending) hpending
      fun j _ => h.pending j
  · refine split (P := fun _ x => x.state = .stable →
      GndCtrl.known n (es ++ [e]) x.ipaddr = some (x.ethaddr, x.ctime)) ?_ fun j hj hst => ?_
    · rw [hip]
      exact fun hst => (hstable hst).2
    · have hlive : (s.arpTable j).Live := by simp [EtharpEntry.Live, hst]
      rw [hother _ (hc.other h.wf hj hlive)]
      exact h.known j hst
  · refine split (P := fun _ x => ∀ p ∈ x.q, hop n p.dest = some x.ipaddr) ?_ fun j _ => h.routed j
    rw [hip]
    exact hrouted
  · intro b
    by_cases hb : b = some a
    · rw [hb]
      exact (List.sublist_append_left ..).trans hmine
    · rw [sentTo_append, hsent b hb, List.append_nil]
      exact (h.sent b).trans (givenTo_sublist ..)
  · refine split (P := fun _ x => x.Live → (sentTo n (some x.ipaddr) (fs ++ o) ++ x.q).Sublist
      (givenTo n (some x.ipaddr) (es ++ [e]))) ?_ fun j hj hl => ?_
    · rw [hip]
      exact fun _ => hmine
    · have hne : some (s.arpTable j).ipaddr ≠ some a := fun heq =>
        hc.other h.wf hj hl (Option.some.inj heq)
      rw [sentTo_append, hsent _ hne, List.append_nil]
      exact (h.waiting j hl).trans (givenTo_sublist ..)

/-! ## The steps -/

theorem tmr (h : Inv n es fs s) : Inv n (es ++ [.tmr]) (fs ++ []) s.etharpTmr := by
  have hlive : ∀ i, (s.etharpTmr.arpTable i).Live → (s.arpTable i).Live ∧
      s.etharpTmr.arpTable i =
        { s.arpTable i with ctime := ((s.arpTable i).ctime + 1) % 2 ^ 8 } := by
    intro i hl
    rw [etharpTmr_table] at hl ⊢
    rcases aged_cases (s.arpTable i) with ⟨hst, -⟩ | ⟨heq, -⟩
    · exact absurd hst hl
    · rw [heq] at hl
      exact ⟨hl, heq⟩
  have hgiven : ∀ b, givenTo n b (es ++ [.tmr]) = givenTo n b es := by
    intro b
    rw [givenTo_append]
    exact List.append_nil _
  rw [List.append_nil]
  constructor
  · constructor
    · intro j k hj hk heq
      obtain ⟨hj, hje⟩ := hlive j hj
      obtain ⟨hk, hke⟩ := hlive k hk
      rw [hje, hke] at heq
      exact h.wf.keyed j k hj hk heq
    · intro i hst
      rw [etharpTmr_table] at hst ⊢
      rcases aged_cases (s.arpTable i) with ⟨-, hq⟩ | ⟨heq, -⟩
      · exact hq
      · rw [heq] at hst ⊢
        exact h.wf.queue i hst
  · exact (etharpTmr_elements s).trans h.elements
  · intro i hst
    rw [etharpTmr_table] at hst ⊢
    rcases aged_cases (s.arpTable i) with ⟨he, -⟩ | ⟨heq, hage, -⟩
    · rw [he] at hst
      cases hst
    · rw [heq] at hst ⊢
      exact hage hst
  · intro i hst
    rw [etharpTmr_table] at hst ⊢
    rcases aged_cases (s.arpTable i) with ⟨he, -⟩ | ⟨heq, -, hage⟩
    · rw [he] at hst
      cases hst
    · rw [heq] at hst ⊢
      exact hage hst
  · intro i hst
    obtain ⟨-, heq⟩ := hlive i (by simp [EtharpEntry.Live, hst])
    rw [heq] at hst ⊢
    have hctime := h.stable i hst
    have hmod : ((s.arpTable i).ctime + 1) % 2 ^ 8 = (s.arpTable i).ctime + 1 :=
      Nat.mod_eq_of_lt (Nat.lt_of_le_of_lt hctime (by norm_num))
    rw [known_snoc, hmod]
    simp only [Known.step, h.known i hst, Option.map_some]
  · intro i p hp
    rw [etharpTmr_table] at hp ⊢
    rcases aged_cases (s.arpTable i) with ⟨-, hq⟩ | ⟨heq, -⟩
    · rw [hq] at hp
      cases hp
    · rw [heq] at hp ⊢
      exact h.routed i p hp
  · intro b
    rw [hgiven]
    exact h.sent b
  · intro i hl
    obtain ⟨hl, heq⟩ := hlive i hl
    rw [heq, hgiven]
    exact h.waiting i hl

theorem sentTo_replies (b : Option U32) (f : EthFrame β) (len : ℕ) :
    sentTo n b (replies n f len) = [] := by
  cases f with
  | arp hdr =>
    unfold replies
    dsimp only
    split_ifs <;> rfl
  | ip => rfl

theorem givenTo_input (b : Option U32) (len : ℕ) (f : EthFrame β) :
    givenTo n b (es ++ [.input len f]) = givenTo n b es := by
  rw [givenTo_append]
  exact List.append_nil _

theorem known_input (n : EthNetif) (es : List (EtharpOp β)) (len : ℕ) (f : EthFrame β) :
    GndCtrl.known n (es ++ [.input len f]) =
    match claim n (.input len f) with
    | some (a, m) => Function.update (GndCtrl.known n es) a (some (m, 0))
    | none => GndCtrl.known n es := by
  rw [known_snoc]
  simp only [Known.step]
  cases claim n (.input len f) <;> rfl

theorem entryFor_routed (h : Inv n es fs s) :
    ∀ p ∈ (s.entryFor a i).q, hop n p.dest = some a := by
  unfold entryFor
  split_ifs with hf
  · obtain ⟨-, rfl⟩ := hf
    exact h.routed i
  · nofun

/-- **The reception of a frame** keeps the invariant, and the packets that waited for its sender go
    to the address it tells. -/
theorem input (h : Inv n es fs s) (len : ℕ) (f : EthFrame β) :
    ∃ o s', s.step n (.input len f) = some (o, s') ∧ Inv n (es ++ [.input len f]) (fs ++ o) s' ∧
      ∀ dest src p, .ip dest src p ∈ o → src = n.hwaddr ∧
        Rightly n (GndCtrl.known n (es ++ [.input len f])) p dest := by
  obtain ⟨o, s', hstep, hupd⟩ := input_spec h.wf n len f
  have hreplies : ∀ dest src p, .ip dest src p ∉ replies n f len := by
    intro dest src p
    cases f with
    | arp hdr =>
      unfold replies
      dsimp only
      split_ifs <;> simp
    | ip => exact List.not_mem_nil
  have hknown := known_input n es len f
  refine ⟨_, s', hstep, ?_⟩
  cases hclaim : claim n (.input len f) with
  | none =>
    simp only [hclaim] at hupd hknown
    obtain ⟨rfl, rfl⟩ := hupd
    rw [List.nil_append]
    refine ⟨h.same _ (fun i _ => by rw [hknown]) (fun b => sentTo_replies _ f len) ?_, ?_⟩
    · rw [sentTo_replies]
      exact List.nil_sublist _
    · intro dest src p hp
      exact absurd hp (hreplies dest src p)
  | some r =>
    obtain ⟨a, m⟩ := r
    simp only [hclaim] at hupd hknown
    cases hupd with
    | entry i s' hc hx =>
      have hmine := h.waitingFor a i
      have hroute := h.entryFor_routed (a := a) (i := i)
      generalize (s.entryFor a i).q = q at hmine hroute ⊢
      refine ⟨h.assign hc hx rfl (fun _ => rfl) ?_ nofun ?_ nofun ?_ ?_, ?_⟩
      · intro _
        rw [hknown, Function.update_self]
        exact ⟨by norm_num, rfl⟩
      · intro b hb
        rw [hknown, Function.update_of_ne hb]
      · intro b hb
        rw [sentTo_append, sentTo_replies, sentTo_packets n b hroute, if_neg hb]
        rfl
      · rw [sentTo_append, sentTo_append, sentTo_replies, sentTo_packets n _ hroute, if_pos rfl,
          List.append_nil, List.append_nil, givenTo_input]
        exact hmine
      · intro dest src p hp
        rcases List.mem_append.1 hp with hp | hp
        · obtain ⟨p', hp', heq⟩ := List.mem_map.1 hp
          cases heq
          refine ⟨rfl, ?_⟩
          rw [Rightly, hroute p hp', hknown]
          exact ⟨0, by norm_num, Function.update_self ..⟩
        · exact absurd hp (hreplies dest src p)
    | full hfull hhard =>
      rw [List.nil_append]
      refine ⟨h.same _ (fun i _ => ?_) (fun b => sentTo_replies _ f len) ?_, ?_⟩
      · rw [hknown, Function.update_of_ne (hfull i).2]
      · rw [sentTo_replies]
        exact List.nil_sublist _
      · intro dest src p hp
        exact absurd hp (hreplies dest src p)

/-- **A packet to send** keeps the invariant; a frame with it goes to the address known. -/
theorem output (h : Inv n es fs s) (q : IpPacket β) (env : EtharpEnv) :
    ∃ o s', s.step n (.output q env) = some (o, s') ∧ Inv n (es ++ [.output q env]) (fs ++ o) s' ∧
      ∀ dest src p, .ip dest src p ∈ o → src = n.hwaddr ∧
        Rightly n (GndCtrl.known n (es ++ [.output q env])) p dest := by
  obtain ⟨o, s', hstep, hout⟩ := output_spec h.wf n q env
  have hknown : GndCtrl.known n (es ++ [.output q env]) = GndCtrl.known n es := by
    rw [known_snoc]
    rfl
  have hone (b : Option U32) (m : EthAddr) : sentTo n b [.ip m n.hwaddr q] =
      givenTo n b [.output q env] := rfl
  refine ⟨o, s', hstep, ?_⟩
  rw [hknown]
  cases hout with
  | dropped hdrop =>
    exact ⟨h.same _ (fun i _ => by rw [hknown]) (fun _ => rfl) (List.nil_sublist _),
      fun _ _ _ hp => absurd hp List.not_mem_nil⟩
  | group hgroup =>
    refine ⟨h.same _ (fun i _ => by rw [hknown]) (fun b => ?_) ?_, ?_⟩
    · simp [sentTo, hgroup]
    · rw [hone]
    · intro dest src p hp
      cases List.mem_singleton.1 hp
      refine ⟨rfl, ?_⟩
      rw [Rightly, hgroup]
  | host a hhop hquery =>
    have hgiven : givenTo n (some a) [.output q env] = [q] := by simp [givenTo, hhop]
    have hmine := h.waitingFor a
    cases hquery with
    | sent i s' hc hst hx =>
      have hlive : (s.entryFor a i).Live := by simp [EtharpEntry.Live, hst]
      obtain ⟨heq, hl⟩ := entryFor_live hlive
      have hip : (s.arpTable i).ipaddr = a := by rw [← heq, entryFor_ipaddr]
      have hq : (s.entryFor a i).q = [] := by
        rw [heq] at hst ⊢
        exact h.wf.queue i (by rw [hst]; decide)
      rw [heq] at hst hx
      refine ⟨h.assign hc hx hip (fun _ => by rwa [heq] at hq) (fun hst => ?_) ?_ ?_ ?_ ?_ ?_, ?_⟩
      · rw [hknown, ← hip]
        exact ⟨h.stable i hst, h.known i hst⟩
      · exact h.pending i
      · intro b _
        rw [hknown]
      · rw [← heq]
        exact h.entryFor_routed
      · intro b hb
        simp [sentTo, hhop, Ne.symm hb]
      · rw [← heq, hq, List.append_nil, sentTo_append, givenTo_append]
        exact (h.sent _).append (List.Sublist.refl _)
      · intro dest src p hp
        cases List.mem_singleton.1 hp
        refine ⟨rfl, ?_⟩
        rw [Rightly, hhop]
        exact ⟨_, h.stable i hst, by rw [← hip]; exact h.known i hst⟩
    | waits i s' hc hst hx =>
      refine ⟨h.assign hc hx entryFor_ipaddr (fun hne => absurd rfl hne) (fun hst => ?_)
        (fun _ => ?_) ?_ ?_ ?_ ?_, ?_⟩
      · cases hst
      · -- an old entry is a pending one
        change (s.entryFor a i).ctime < arpMaxpending
        unfold entryFor at hst ⊢
        split_ifs at hst ⊢ with hf
        · refine h.pending i ?_
          cases hi : (s.arpTable i).state with
          | empty => exact absurd hi hf.1
          | pending => rfl
          | stable => exact absurd hi hst
        · exact Nat.succ_pos 1
      · intro b _
        rw [hknown]
      · intro p hp
        rcases List.mem_append.1 hp with hp | hp
        · exact h.entryFor_routed p hp
        · split_ifs at hp
          · rw [List.mem_singleton.1 hp]
            exact hhop
          · cases hp
      · exact fun b _ => sentTo_request n b a env.request
      · rw [sentTo_append, sentTo_request, List.append_nil, givenTo_append, hgiven,
          ← List.append_assoc]
        refine (hmine i).append ?_
        split_ifs
        · exact List.Sublist.refl _
        · exact List.nil_sublist _
      · intro dest src p hp
        cases hr : env.request with
        | true =>
          rw [hr] at hp
          cases List.mem_singleton.1 hp
        | false =>
          rw [hr] at hp
          cases hp

/-- **A step** succeeds and keeps the invariant, and its frames go to the addresses known. -/
theorem step (h : Inv n es fs s) (e : EtharpOp β) :
    ∃ o s', s.step n e = some (o, s') ∧ Inv n (es ++ [e]) (fs ++ o) s' ∧
      ∀ dest src p, .ip dest src p ∈ o → src = n.hwaddr ∧
        Rightly n (GndCtrl.known n (es ++ [e])) p dest := by
  cases e with
  | tmr => exact ⟨[], _, rfl, h.tmr, nofun⟩
  | input len f => exact h.input len f
  | output q env => exact h.output q env

end Inv

/-! ## Runs -/

theorem inv_run (n : EthNetif) (es : List (EtharpOp β)) :
    ∃ fs s, tryRun (Etharp.step n) init es = some (fs, s) ∧ Inv n es fs s := by
  refine tryRun_history (I := Inv n) (K := fun _ => True) ?_ (inv_init n) es fun _ _ => trivial
  intro es fs s e _ h
  obtain ⟨o, s', hstep, h', -⟩ := h.step e
  exact ⟨o, s', hstep, h'⟩

/-- **The table is sound.**  In every run no assertion fails of those on the table, its queues and
    the entry chosen (the length of an Ethernet address and the pbufs of a packet, on which others
    are, are right by their types here); two entries in use have different addresses; packets wait
    in pending entries only, in 30 elements at most, none of which is lost; and an entry is not
    older than its time. -/
theorem table_sound (n : EthNetif) (es : List (EtharpOp β)) :
    ∃ fs s, tryRun (Etharp.step n) init es = some (fs, s) ∧
      (∀ i j, (s.arpTable i).state ≠ .empty → (s.arpTable j).state ≠ .empty →
        (s.arpTable i).ipaddr = (s.arpTable j).ipaddr → i = j) ∧
      (∀ i, (s.arpTable i).q ≠ [] → (s.arpTable i).state = .pending) ∧
      s.arpQueue + ∑ i, (s.arpTable i).q.length = mempNumArpQueue ∧
      (∀ i, (s.arpTable i).state = .stable → (s.arpTable i).ctime < arpMaxage) ∧
      ∀ i, (s.arpTable i).state = .pending → (s.arpTable i).ctime < arpMaxpending := by
  obtain ⟨fs, s, hrun, h⟩ := inv_run n es
  refine ⟨fs, s, hrun, h.wf.keyed, fun i hq => ?_, h.elements, h.stable, h.pending⟩
  by_contra hst
  exact hq (h.wf.queue i hst)

/-- **`find_entry` is exact.**  After every run it does what the search without the cached entry
    does: it finds the entry of the address; or it makes an entry that no other is less important
    than or, being as important, older than; or there is no entry and it may not take one. -/
theorem find_exact (n : EthNetif) (es : List (EtharpOp β)) :
    ∃ fs s, tryRun (Etharp.step n) init es = some (fs, s) ∧ ∀ ipaddr flags, ∃ o s',
      s.findEntry ipaddr flags = some (o, s') ∧ s.searchEntry ipaddr flags = some (o, s') ∧
        FoundEntry s ipaddr flags o s' := by
  obtain ⟨fs, s, hrun, h⟩ := inv_run n es
  refine ⟨fs, s, hrun, fun ipaddr flags => ?_⟩
  obtain ⟨o, s', hfind, hfound⟩ := searchEntry_spec h.wf ipaddr flags
  exact ⟨o, s', (findEntry_eq_searchEntry h.wf ipaddr flags).trans hfind, hfind, hfound⟩

/-- **Frames go where they belong.**  In every run a frame with a packet to a host carries the
    Ethernet address that the host, or its gateway, has told last, less than 240 ticks ago; one to a
    group of hosts carries the address of the group; and the interface is always the sender. -/
theorem sent_rightly (n : EthNetif) (es : List (EtharpOp β)) (e : EtharpOp β) :
    ∃ fs s o s', tryRun (Etharp.step n) init es = some (fs, s) ∧ s.step n e = some (o, s') ∧
      ∀ dest src p, .ip dest src p ∈ o → src = n.hwaddr ∧
        Rightly n (GndCtrl.known n (es ++ [e])) p dest := by
  obtain ⟨fs, s, hrun, h⟩ := inv_run n es
  obtain ⟨o, s', hstep, -, ho⟩ := h.step e
  exact ⟨fs, s, o, s', hrun, hstep, ho⟩

/-- **In turn.**  In every run the packets that leave for a host are, in their order, among those
    given for it, each at most once. -/
theorem sent_in_turn (n : EthNetif) (es : List (EtharpOp β)) (a : Option U32) :
    ∃ fs s, tryRun (Etharp.step n) init es = some (fs, s) ∧
      (sentTo n a fs).Sublist (givenTo n a es) := by
  obtain ⟨fs, s, hrun, h⟩ := inv_run n es
  exact ⟨fs, s, hrun, h.sent a⟩

end Etharp

end GndCtrl
