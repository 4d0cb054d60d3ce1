/-
  The drive within the firmware.

  What the firmware does to the drive are events of the drive: `Sys.events`
  gives those of a step, and `drive_run` says that the drive of a run of the
  firmware is the run of the drive over its events.  So the limits and the stops
  of the drive are those of the firmware, whatever it receives and sends.
-/
import GndCtrl.Steps

namespace GndCtrl

open CNum CFloat

variable {F D : Type} [CNum F] [CNum D] [CFloat F D]

/-- The event of a message of the WCS. -/
def messageEvents (point : Mem) (len : ℕ) : List (Event F) :=
  if recvMsgCheck point len then
    if point.u16 9 = recvMsgBootCmdType then []
    else if point.u16 9 = recvMsgWcs2gndctrlParaType then [.para (ParaData.read point)]
    else if point.u16 9 = recvMsgRepairCarCmdType then [.repair (RepairCarCmdData.read point)]
    else []
  else []

/-- The events of an interrupt. -/
def irqEvents : Irq → List (Event F)
  | .exti4 pin tim2 _ => if held pin then [.sensor1 tim2] else []
  | .exti95 in7 in10 tim2 =>
    (if in7.any held then [.sensor2 tim2] else []) ++ if in10.any held then [.carReset] else []
  | .tim2 => [.tim2Update]
  | .tim3 => []
  | .sysTick => []

/-- The events of a step of the firmware. -/
def Sys.events (s : Sys F) : Input → List (Event F)
  | .irq e => if s.pc = .reset then [] else irqEvents e
  | .main _ =>
    match s.pc with
    | .client i =>
      if i = 0 ∧ (s.tcpClientList i).tcpClientStatue = .connectRecv then
        messageEvents (s.tcpClientList i).tcpRecevBuf (s.tcpClientList i).tcpRecevLen
      else []
    | .send => [.recordSent (sendMessageToSever s).drive.uart]
    | .sec => if s.msg.secFlag then [.second] else []
    | _ => []

theorem drive_irq (s : Sys F) (e : Irq) : (irq s e).drive = run Drive.step s.drive (irqEvents e) := by
  cases e with
  | exti4 pin tim2 junk => simp only [irq, irqEvents]; split_ifs <;> rfl
  | exti95 in7 in10 tim2 => simp only [irq, exti95, irqEvents]; split_ifs <;> rfl
  | tim2 => rfl
  | tim3 => simp only [irq]; split_ifs <;> rfl
  | sysTick => simp only [irq, timeUpdate]; split_ifs <;> rfl

theorem drive_recvMessageFromSever (point : Mem) (len : ℕ) (s : Sys F) :
    (recvMessageFromSever point len s).2.drive =
      run Drive.step s.drive (messageEvents point len) := by
  simp only [recvMessageFromSever, messageEvents, recvMsgProcess]
  split_ifs <;> rfl

omit [CNum F] in
theorem drive_udpInput (d : Datagram) (s : Sys F) : (udpInput d s).drive = s.drive := by
  obtain ⟨c, pc, h, -⟩ := udpInput_cases d s
  rw [h]

omit [CNum F] in
theorem drive_clientSend (net : Net) (i : Fin 4) (s : Sys F) :
    (clientSend net i s).drive = s.drive := by
  simp only [clientSend, udpSendProcess]
  split_ifs <;> rfl

/-- Only the handler of slot 0 reaches the drive. -/
theorem drive_clientRecv (i : Fin 4) (s : Sys F) :
    (clientRecv i s).drive = run Drive.step s.drive
      (if i = 0 ∧ (s.tcpClientList i).tcpClientStatue = .connectRecv then
        messageEvents (s.tcpClientList i).tcpRecevBuf (s.tcpClientList i).tcpRecevLen
      else []) := by
  unfold clientRecv
  by_cases hr : (s.tcpClientList i).tcpClientStatue = .connectRecv
  swap
  · simp [hr]
  simp only [hr, and_true, if_true]
  have hmsg : ∀ s' : Sys F, (recvMessage i (s.tcpClientList i).tcpRecevBuf
      (s.tcpClientList i).tcpRecevLen s').2.drive = run Drive.step s'.drive
        (if i = 0 then
          messageEvents (s.tcpClientList i).tcpRecevBuf (s.tcpClientList i).tcpRecevLen else []) := by
    intro s'
    by_cases hi : i = 0
    · subst hi
      exact drive_recvMessageFromSever _ _ s'
    · rw [if_neg hi]
      rcases carMessage_cases i hi (s.tcpClientList i).tcpRecevBuf (s.tcpClientList i).tcpRecevLen s'
        with ⟨-, e⟩ | ⟨-, e⟩ <;> rw [e] <;> rfl
  have hset : ∀ (c : Prop) [Decidable c] (a : Sys F) (f : TcpClientTable → TcpClientTable),
      (if c then a else a.setSlot i f).drive = a.drive := by
    intro c _ a f
    split_ifs <;> rfl
  rw [hset]
  exact hmsg _

omit [CNum F] in
/-- The encoders of the two lines clear a record, the others leave the drive
    alone. -/
theorem drive_sendMessage (t : U16) (s : Sys F) :
    ∃ u, (sendMessage t s).drive = { s.drive with uart := u } := by
  have h := sendMessage_switched t s
  generalize sendMessage t s = x at h ⊢
  cases h <;> exact ⟨_, rfl⟩

/-- **A step of the firmware** is a run of the drive over the step's events. -/
theorem drive_step (s : Sys F) (e : Input) :
    (s.step e).drive = run Drive.step s.drive (s.events e) := by
  cases e with
  | irq e =>
    simp only [Sys.step, Sys.events]
    split_ifs
    · rfl
    · exact drive_irq s e
  | main env =>
    have hcar : ∀ {i} {s' : Sys F}, CarSent i s s' → s'.drive = s.drive := by
      rintro i s' (⟨-, rfl⟩ | ⟨-, c, rfl | ⟨t, r, rfl⟩⟩) <;> rfl
    change (mainStep env s).drive = _
    unfold mainStep Sys.events
    cases hp : s.pc with
    | link =>
      simp only
      split_ifs <;> simp
    | rx =>
      simp only [goto_drive]
      cases env.rx with
      | none => rfl
      | some d => exact drive_udpInput d s
    | client i =>
      have hslot : (clientSlot env.toNet i s).drive = (clientRecv i s).drive := by
        simp only [clientSlot]
        split_ifs
        · rfl
        · exact drive_clientSend env.toNet i _
      simp only [goto_drive]
      rw [hslot, drive_clientRecv]
    | send =>
      simp only [goto_drive]
      obtain ⟨u, e⟩ := drive_sendMessage (token s) (popped s)
      rw [sendMessageToSever_eq]
      split_ifs
      · rfl
      · rw [e]
        rfl
    | state =>
      simp only [goto_drive, funGnd2wcsStateMsg]
      split_ifs <;> rfl
    | car => exact (goto_drive _ _).trans (hcar (carsend_cases s))
    | carthree => exact (goto_drive _ _).trans (hcar (carthreesend_cases s))
    | cartwo => exact (goto_drive _ _).trans (hcar (cartwosend_cases s))
    | sec =>
      simp only [goto_drive, secProcess]
      split_ifs <;> rfl
    | hang => rfl
    | reset => rfl

/-- **The drive of a run of the firmware** is the run of the drive over its
    events. -/
theorem drive_run (s : Sys F) (ins : List Input) :
    (run Sys.step s ins).drive = run Drive.step s.drive (collect Sys.step Sys.events s ins) := by
  induction ins generalizing s with
  | nil => rfl
  | cons e ins ih => rw [run_cons, ih, drive_step, collect, run_append]

end GndCtrl
