/-
  The main loop interrupted inside `enQueue` and inside `ServoFreqSet`.

  The other modules take an interrupt between two operations of the main loop.
  Here one comes between two statements of an operation that the interrupt
  performs as well, on the same variables.

  * `enQueue_preempted_iff` — the queues of tokens;
  * `frames_whole_iff` — the frames for the inverter.  `ServoFreqSet` builds
    its frame in a local buffer, copies it to both lines byte by byte and then
    starts both transfers.  A transfer carries the bytes of the interrupt up to
    where the copying stood, and the own ones from there on
    (`LineState.preempted_dma`); the frame is whole if both agree on one of the
    parts, which the layout of the frames and the injectivity of the CRC
    (`crc_inj`) make explicit (`Unmixed`).  Without an interruption the
    statements are `servoFreqSet` (`servoProgram_run`).
-/
import GndCtrl.Crc
import GndCtrl.Sys
import GndCtrl.Lib.Preempt

namespace GndCtrl

/-! ## `enQueue` -/

/-- **An interrupted `enQueue`**, of the main loop on `msgSendQueue` or on
    `carSendQueue`, leaves the content of one of the two orders if and only if
    the place of the interruption does no harm. -/
theorem enQueue_preempted_iff (q : Queue U16 msgSendQueueSize) (c : Queue U16 carSendQueueSize)
    (x y : U16) (b : ℕ) :
    (q.ring.Sequential x y (q.ring.preempted x y b) ↔ q.ring.Tolerates y b) ∧
      (c.ring.Sequential x y (c.ring.preempted x y b) ↔ c.ring.Tolerates y b) :=
  ⟨q.wf.sequential_iff x y b, c.wf.sequential_iff x y b⟩

/-- With 98 tokens waiting, an interrupt between the test and the update of
    `rear` empties the queue. -/
theorem enQueue_emptied :
    ¬ ∀ (ts : List U16) (x y : U16) (b : ℕ),
      let q := ts.foldl Queue.enQueue (Queue.init (fun _ => 0) msgSendQueueSize (by decide))
      q.ring.Sequential x y (q.ring.preempted x y b) := by
  intro h
  obtain ⟨q, hq⟩ : ∃ q, q = (List.replicate 98 (0x1201 : U16)).foldl Queue.enQueue
    (Queue.init (fun _ => 0) msgSendQueueSize (by decide)) := ⟨_, rfl⟩
  have hlast : q.ring.Sequential 0x9220 0x1223 (q.ring.preempted 0x9220 0x1223 2) := by
    rw [hq]
    exact h (List.replicate 98 0x1201) 0x9220 0x1223 2
  have hsize : q.ring.size + 2 = q.ring.maxSize := by
    rw [hq]
    decide +kernel
  exact (q.wf.sequential_iff 0x9220 0x1223 2).1 hlast hsize

/-! ## The frames of `ServoFreqSet` -/

/-- The bytes in front of the motor register value. -/
def servoHead (inverterType : U8) : List U8 :=
  if inverterType = 0 then [0x00, 0x06, 0xFA, 0x01]
  else if inverterType = 1 then [0x00, 0x06, 0x20, 0x01]
  else if inverterType = 2 then [0x01, 0x10, 0x00, 0x63, 0x00, 0x02, 0x04, 0x04, 0x7F]
  else if inverterType = 3 then [0x00, 0x06, 0x70, 0x15]
  else [0x00, 0x06, 0x30, 0x00]

/-- The motor register value. -/
def servoWord (inverterType : U8) (hz : U16) : U16 :=
  if inverterType = 2 then BitVec.ofNat 16 (hz.toNat * 0x4000 / 5000) else hz

/-- A frame without its CRC. -/
def servoBody (inverterType : U8) (hz : U16) : List U8 :=
  servoHead inverterType ++
    [hi (servoWord inverterType hz), lo (servoWord inverterType hz)]

theorem servoFrame_eq (inverterType : U8) (hz : U16) : servoFrame inverterType hz =
    if inverterType ≤ 4 then some (withCRC (servoBody inverterType hz)) else none := by
  unfold servoFrame servoBody servoHead servoWord
  by_cases h0 : inverterType = 0
  · subst h0; rfl
  by_cases h1 : inverterType = 1
  · subst h1; rfl
  by_cases h2 : inverterType = 2
  · subst h2; rfl
  by_cases h3 : inverterType = 3
  · subst h3; rfl
  by_cases h4 : inverterType = 4
  · subst h4; rfl
  have hle : ¬ inverterType ≤ 4 := by
    rw [BitVec.le_def]
    simp only [← BitVec.toNat_inj] at h0 h1 h2 h3 h4
    simp at h0 h1 h2 h3 h4 ⊢
    omega
  simp only [if_neg h0, if_neg h1, if_neg h2, if_neg h3, if_neg h4, if_neg hle]

/-! ### The statements -/

/-- The local variables of `ServoFreqSet`. -/
structure Locals where
  pbuf : Mem
  crc : U16
  hzT : U16

/-- `pbuf[j] = …` -/
def Locals.set (j : ℕ) (f : Locals → U8) (l : Locals) : Locals :=
  { l with pbuf := l.pbuf.put j (f l) }

/-- `pbuf[a] = b₀; pbuf[a + 1] = b₁; …` -/
def sets : ℕ → List U8 → List (Locals → Locals)
  | _, [] => []
  | a, b :: l => Locals.set a (fun _ => b) :: sets (a + 1) l

/-- The statements that build the frame in `pbuf`. -/
def build (inverterType : U8) (hz : U16) : List (Locals → Locals) :=
  let j := (servoHead inverterType).length
  let word : Locals → U16 := fun l => if inverterType = 2 then l.hzT else hz
  (fun l => if inverterType = 2 then { l with hzT := BitVec.ofNat 16 (hz.toNat * 0x4000 / 5000) }
    else l) ::
  sets 0 (servoHead inverterType) ++
  [Locals.set j fun l => hi (word l), Locals.set (j + 1) fun l => lo (word l),
   fun l => { l with crc := getCRC (l.pbuf.bytes (j + 2)) },
   Locals.set (j + 2) fun l => hi l.crc, Locals.set (j + 3) fun l => lo l.crc]

/-- The statements for one line. -/
inductive LineStmt where
  /-- `uart_send_buff[i] = pbuf[i]` -/
  | copy (i : ℕ)
  /-- `uart_send_count = n` -/
  | count (n : ℕ)
  /-- the call of `uart_send`, with the start of the transfer -/
  | start
  /-- `record_uart_len = …` -/
  | recordLen
  /-- `record_uart_buff[i] = uart_send_buff[i]` -/
  | record (i : ℕ)
  deriving DecidableEq

/-- A line with the frames sent on it. -/
structure LineState where
  line : Line
  dma : List (List U8)

def LineStmt.exec (pbuf : Mem) (s : LineState) : LineStmt → LineState
  | copy i => { s with line := { s.line with sendBuff := s.line.sendBuff.put i (pbuf i) } }
  | count n => { s with line := { s.line with sendCount := n } }
  | start => { s with dma := s.dma ++ [s.line.frame] }
  | recordLen =>
    let len := s.line.sendCount % 256
    { s with line := { s.line with recordLen := if len > 15 then 0 else len } }
  | record i =>
    if i < s.line.recordLen then
      { s with line := { s.line with recordBuff := s.line.recordBuff.put i (s.line.sendBuff i) } }
    else s

/-- The copying and the count, for a frame of `n` bytes. -/
def loadStmts (n : ℕ) : List LineStmt := (List.range n).map .copy ++ [.count n]

/-- `uart2_send`, `uart4_send` -/
def sendStmts (n : ℕ) : List LineStmt := [.start, .recordLen] ++ (List.range n).map .record

/-- Which line. -/
inductive Wire where
  | uart2
  | uart4
  deriving DecidableEq

def Uart.get (u : Uart) : Wire → LineState
  | .uart2 => ⟨u.uart2, u.dma2⟩
  | .uart4 => ⟨u.uart4, u.dma4⟩

def Uart.set (u : Uart) (s : LineState) : Wire → Uart
  | .uart2 => { u with uart2 := s.line, dma2 := s.dma }
  | .uart4 => { u with uart4 := s.line, dma4 := s.dma }

/-- A statement of `ServoFreqSet`: on its own variables, or on a line. -/
inductive Stmt where
  | own (f : Locals → Locals)
  | on (w : Wire) (s : LineStmt)

/-- A call of `ServoFreqSet` on its way. -/
structure ServoCall where
  locals : Locals
  uart : Uart

def Stmt.exec (c : ServoCall) : Stmt → ServoCall
  | own f => { c with locals := f c.locals }
  | on w s => { c with uart := c.uart.set (s.exec c.locals.pbuf (c.uart.get w)) w }

/-- The statements behind the building of the frame: both copies byte by byte,
    both counts, then `uart2_send` and `uart4_send`. -/
def transfer (n : ℕ) : List Stmt :=
  (List.range n).flatMap (fun i => [.on .uart2 (.copy i), .on .uart4 (.copy i)]) ++
    [.on .uart2 (.count n), .on .uart4 (.count n)] ++
    (sendStmts n).map (.on .uart2) ++ (sendStmts n).map (.on .uart4)

/-- The statements of `ServoFreqSet`. -/
def servoProgram (inverterType : U8) (hz : U16) : List Stmt :=
  if inverterType ≤ 4 then
    (build inverterType hz).map .own ++ transfer ((servoHead inverterType).length + 4)
  else []

/-- `ServoFreqSet(h₁)` with a complete `ServoFreqSet(h₂)` after its first `b`
    statements. -/
def servoPreempted (inverterType : U8) (h₁ h₂ : U16) (b : ℕ) (l : Locals) (u : Uart) : Uart :=
  let c := ((servoProgram inverterType h₁).take b).foldl Stmt.exec ⟨l, u⟩
  (((servoProgram inverterType h₁).drop b).foldl Stmt.exec
    { c with uart := servoFreqSet inverterType h₂ c.uart }).uart

/-- Every frame sent from `u` to `u'` is that of `h₁` or that of `h₂`. -/
def Whole (inverterType : U8) (h₁ h₂ : U16) (u u' : Uart) : Prop :=
  ∀ w, ∃ l, (u'.get w).dma = (u.get w).dma ++ l ∧
    ∀ f ∈ l, some f = servoFrame inverterType h₁ ∨ some f = servoFrame inverterType h₂

def Stmt.line (w : Wire) : Stmt → Option LineStmt
  | own _ => none
  | on w' s => if w' = w then some s else none

/-- The number of statements for the line `w` among the first `b`. -/
def reached (w : Wire) (inverterType : U8) (hz : U16) (b : ℕ) : ℕ :=
  (((servoProgram inverterType hz).take b).filterMap (Stmt.line w)).length

/-- The first `k` bytes of the frame of `h₂` and the others of that of `h₁` are
    one of these frames: inside the register value its high bytes agree, behind
    it both values, inside the CRC its low bytes. -/
def Unmixed (inverterType : U8) (h₁ h₂ : U16) (k : ℕ) : Prop :=
  let j := (servoHead inverterType).length
  (k = j + 1 → hi (servoWord inverterType h₁) = hi (servoWord inverterType h₂)) ∧
  (k = j + 2 → servoWord inverterType h₁ = servoWord inverterType h₂) ∧
  (k = j + 3 →
    lo (getCRC (servoBody inverterType h₁)) = lo (getCRC (servoBody inverterType h₂)))

/-! ### Building the frame -/

theorem foldl_sets : ∀ (l : List U8) (a : ℕ) (v : Locals),
    (sets a l).foldl (fun v f => f v) v = { v with pbuf := v.pbuf.putList a l }
  | [], _, _ => rfl
  | b :: l, a, v => by
    rw [sets, List.foldl_cons, foldl_sets l (a + 1)]
    rfl

/-- The frame is in `pbuf`, whatever it held before. -/
theorem build_pbuf (inverterType : U8) (hz : U16) (v : Locals) :
    ((build inverterType hz).foldl (fun v f => f v) v).pbuf =
      v.pbuf.putList 0 (withCRC (servoBody inverterType hz)) := by
  obtain ⟨head, hhead⟩ : ∃ head, head = servoHead inverterType := ⟨_, rfl⟩
  obtain ⟨w, hw⟩ : ∃ w, w = servoWord inverterType hz := ⟨_, rfl⟩
  obtain ⟨v₁, hv₁⟩ : ∃ v₁ : Locals, v₁ = if inverterType = 2 then
    { v with hzT := BitVec.ofNat 16 (hz.toNat * 0x4000 / 5000) } else v := ⟨_, rfl⟩
  have hpbuf : v₁.pbuf = v.pbuf := by rw [hv₁]; split_ifs <;> rfl
  have hword : (if inverterType = 2 then v₁.hzT else hz) = w := by
    rw [hv₁, hw, servoWord]
    split_ifs <;> rfl
  have hbody : servoBody inverterType hz = head ++ [hi w, lo w] := by rw [servoBody, hhead, hw]
  have hput : ((v.pbuf.putList 0 head).put head.length (hi w)).put (head.length + 1) (lo w) =
      v.pbuf.putList 0 (servoBody inverterType hz) := by
    rw [hbody, Mem.putList_append, Nat.zero_add]
    rfl
  have hcrc : (v.pbuf.putList 0 (servoBody inverterType hz)).bytes (head.length + 2) =
      servoBody inverterType hz := by
    have h := Mem.bytes_putList (servoBody inverterType hz) v.pbuf
    rwa [hbody, List.length_append, ← hbody] at h
  have hlen : (servoBody inverterType hz).length = head.length + 2 := by
    rw [hbody, List.length_append]
    rfl
  rw [withCRC, Mem.putList_append, Nat.zero_add, hlen]
  simp only [build, ← hhead, List.cons_append, List.foldl_cons, List.foldl_append, foldl_sets,
    List.foldl_nil, Locals.set, ← hv₁, hpbuf, hword, hput, hcrc]
  rfl

/-! ### One line -/

theorem foldl_copy (pbuf : Mem) (s : LineState) (a : ℕ) : ∀ n : ℕ,
    ((List.range' a n).map LineStmt.copy).foldl (LineStmt.exec pbuf) s =
      { s with line := { s.line with
        sendBuff := s.line.sendBuff.putList a ((List.range' a n).map pbuf) } }
  | 0 => rfl
  | n + 1 => by
    rw [List.range'_1_concat, List.map_append, List.foldl_append, foldl_copy pbuf s a n,
      List.map_append, Mem.putList_append, List.length_map, List.length_range']
    rfl

theorem foldl_record (pbuf : Mem) (s : LineState) : ∀ n : ℕ, n ≤ s.line.recordLen →
    ((List.range n).map LineStmt.record).foldl (LineStmt.exec pbuf) s =
      { s with line := { s.line with
        recordBuff := s.line.recordBuff.putList 0 (s.line.sendBuff.bytes n) } }
  | 0, _ => rfl
  | n + 1, h => by
    rw [List.range_succ, List.map_append, List.foldl_append, foldl_record pbuf s n (by omega),
      List.map_cons, List.map_nil, List.foldl_cons, List.foldl_nil, LineStmt.exec]
    simp only [if_pos (show n < s.line.recordLen by omega)]
    rw [Mem.putList_bytes_succ, Nat.zero_add]

/-- Statements other than the start send nothing. -/
theorem foldl_dma (pbuf : Mem) (l : List LineStmt) (s : LineState) (h : .start ∉ l) :
    (l.foldl (LineStmt.exec pbuf) s).dma = s.dma := by
  induction l generalizing s with
  | nil => rfl
  | cons st l ih =>
    have hl : LineStmt.start ∉ l := fun hc => h (List.mem_cons_of_mem _ hc)
    rw [List.foldl_cons, ih _ hl]
    cases st with
    | start => exact absurd List.mem_cons_self h
    | record i =>
      rw [LineStmt.exec]
      split_ifs <;> rfl
    | copy _ | count _ | recordLen => rfl

theorem start_not_mem_load (n : ℕ) : LineStmt.start ∉ loadStmts n := by simp [loadStmts]

/-- The rest of the copying keeps the bytes in front of it. -/
theorem frame_load {pbuf : Mem} {f : List U8} {n m : ℕ} (s : LineState)
    (hf : pbuf.bytes n = f) (hm : m ≤ n ∨ s.line.sendCount = n) :
    (((loadStmts n).drop m).foldl (LineStmt.exec pbuf) s).line.frame =
      (s.line.sendBuff.bytes n).take m ++ f.drop m := by
  subst hf
  by_cases hmn : m ≤ n
  · have hload : (loadStmts n).drop m = (List.range' m (n - m)).map .copy ++ [.count n] := by
      rw [loadStmts, List.drop_append_of_le_length (by simpa using hmn), ← List.map_drop,
        List.range_eq_range', List.drop_range', Nat.zero_add, Nat.mul_one]
    have hbytes : (List.range' m (n - m)).map pbuf = (pbuf.bytes n).drop m := by
      rw [Mem.bytes, ← List.map_drop, List.range_eq_range', List.drop_range', Nat.zero_add,
        Nat.mul_one]
    rw [hload, List.foldl_append, foldl_copy, hbytes]
    exact Mem.bytes_putList_drop _ (Mem.length_bytes _ _) hmn
  · have hcount : s.line.sendCount = n := hm.resolve_left hmn
    rw [List.drop_of_length_le (by simp [loadStmts]; omega), List.foldl_nil, Line.frame, hcount,
      List.take_of_length_le (by simp; omega), List.drop_of_length_le (by simp; omega),
      List.append_nil]

/-- The interrupt on one line. -/
def LineState.serve (f : List U8) (s : LineState) : LineState :=
  ⟨(s.line.load f).send, s.dma ++ [(s.line.load f).frame]⟩

theorem Line.send_sendBuff (u : Line) : u.send.sendBuff = u.sendBuff := by
  simp only [Line.send]
  split_ifs <;> rfl

theorem Line.send_sendCount (u : Line) : u.send.sendCount = u.sendCount := by
  simp only [Line.send]
  split_ifs <;> rfl

theorem foldl_sendStmts (pbuf : Mem) (n : ℕ) (s : LineState) :
    ((sendStmts n).foldl (LineStmt.exec pbuf) s).dma = s.dma ++ [s.line.frame] := by
  rw [sendStmts, List.foldl_append, foldl_dma _ _ _ (by simp)]
  rfl

/-- **An interruption on one line** after `m` statements: as long as the
    transfer has not been started, it takes the first `m` bytes from the frame
    of the interrupt. -/
theorem LineState.preempted_dma {pbuf : Mem} {f₁ f₂ : List U8} {n : ℕ} (s : LineState) (m : ℕ)
    (h₁ : pbuf.bytes n = f₁) (h₂ : f₂.length = n) :
    (((loadStmts n ++ sendStmts n).drop m).foldl (LineStmt.exec pbuf)
      (LineState.serve f₂
        (((loadStmts n ++ sendStmts n).take m).foldl (LineStmt.exec pbuf) s))).dma =
      s.dma ++ if m ≤ n + 1 then [f₂, f₂.take m ++ f₁.drop m] else [f₁, f₂] := by
  have hlen : (loadStmts n).length = n + 1 := by simp [loadStmts]
  split_ifs with hm
  · obtain ⟨t, ht⟩ : ∃ t, t = ((loadStmts n ++ sendStmts n).take m).foldl (LineStmt.exec pbuf) s :=
      ⟨_, rfl⟩
    have hdma : t.dma = s.dma := by
      rw [ht, List.take_append_of_le_length (by omega)]
      exact foldl_dma _ _ _ fun hc => start_not_mem_load n (List.mem_of_mem_take hc)
    have hbuff : (LineState.serve f₂ t).line.sendBuff.bytes n = f₂ := by
      rw [LineState.serve, Line.send_sendBuff, ← h₂]
      exact Mem.bytes_putList _ _
    have hcount : (LineState.serve f₂ t).line.sendCount = n := by
      rw [LineState.serve, Line.send_sendCount]
      exact h₂
    rw [← ht, List.drop_append_of_le_length (by omega), List.foldl_append, foldl_sendStmts,
      frame_load _ h₁ (.inr hcount), hbuff,
      foldl_dma _ _ _ fun hc => start_not_mem_load n (List.mem_of_mem_drop hc)]
    have hserve : (LineState.serve f₂ t).dma = s.dma ++ [f₂] := by
      rw [LineState.serve, hdma]
      simp [Line.frame, Line.load, Mem.bytes_putList]
    rw [hserve, List.append_assoc]
    rfl
  · obtain ⟨k, rfl⟩ : ∃ k, m = n + 1 + (k + 1) := ⟨m - (n + 2), by omega⟩
    have hstart : LineStmt.start ∉ LineStmt.recordLen :: (List.range n).map LineStmt.record := by
      simp
    have htake : (loadStmts n ++ sendStmts n).take (n + 1 + (k + 1)) = loadStmts n ++
        .start :: (LineStmt.recordLen :: (List.range n).map LineStmt.record).take k := by
      rw [← hlen, List.take_length_add_append]
      rfl
    have hdrop : (loadStmts n ++ sendStmts n).drop (n + 1 + (k + 1)) =
        (LineStmt.recordLen :: (List.range n).map LineStmt.record).drop k := by
      rw [← hlen, List.drop_length_add_append]
      rfl
    obtain ⟨t, ht⟩ : ∃ t, t = ((loadStmts n ++ sendStmts n).take (n + 1 + (k + 1))).foldl
      (LineStmt.exec pbuf) s := ⟨_, rfl⟩
    have hdma : t.dma = s.dma ++ [f₁] := by
      have hframe := frame_load s h₁ (.inl (Nat.zero_le n))
      rw [List.drop_zero, List.take_zero, List.drop_zero, List.nil_append] at hframe
      rw [ht, htake, List.foldl_append, List.foldl_cons,
        foldl_dma _ _ _ fun hc => hstart (List.mem_of_mem_take hc), LineStmt.exec, hframe,
        foldl_dma _ _ _ (start_not_mem_load n)]
    have hserve : (LineState.serve f₂ t).dma = s.dma ++ [f₁, f₂] := by
      rw [LineState.serve, hdma]
      simp [Line.frame, Line.load, Mem.bytes_putList]
    rw [← ht, hdrop, foldl_dma _ _ _ fun hc => hstart (List.mem_of_mem_drop hc), hserve]

/-! ### Both lines -/

theorem Uart.get_set (u : Uart) (s : LineState) (w w' : Wire) :
    (u.set s w').get w = if w' = w then s else u.get w := by
  cases w <;> cases w' <;> rfl

theorem filterMap_own (w : Wire) (B : List (Locals → Locals)) :
    (B.map Stmt.own).filterMap (Stmt.line w) = [] := by
  rw [List.filterMap_map, List.filterMap_eq_nil_iff]
  intro f _
  rfl

theorem foldl_own (B : List (Locals → Locals)) (v : Locals) (u : Uart) :
    (B.map Stmt.own).foldl Stmt.exec ⟨v, u⟩ = ⟨B.foldl (fun v f => f v) v, u⟩ := by
  induction B generalizing v with
  | nil => rfl
  | cons f B ih => exact ih (f v)

/-- A line sees its own statements only. -/
theorem foldl_on (w : Wire) (l : List Stmt) (v : Locals) (u : Uart)
    (h : ∀ st ∈ l, ∃ w s, st = Stmt.on w s) :
    ∃ u', l.foldl Stmt.exec ⟨v, u⟩ = ⟨v, u'⟩ ∧
      u'.get w = (l.filterMap (Stmt.line w)).foldl (LineStmt.exec v.pbuf) (u.get w) := by
  induction l generalizing u with
  | nil => exact ⟨u, rfl, rfl⟩
  | cons st l ih =>
    obtain ⟨w', s, rfl⟩ := h st List.mem_cons_self
    obtain ⟨u', hu, hget⟩ := ih (u.set (s.exec v.pbuf (u.get w')) w')
      fun st hst => h st (List.mem_cons_of_mem _ hst)
    refine ⟨u', hu, ?_⟩
    rw [hget, Uart.get_set]
    by_cases hw : w' = w
    · subst hw
      rw [if_pos rfl, List.filterMap_cons_some (b := s) (by simp [Stmt.line]), List.foldl_cons]
    · rw [if_neg hw, List.filterMap_cons_none (by simp [Stmt.line, hw])]

theorem transfer_on (n : ℕ) : ∀ st ∈ transfer n, ∃ w s, st = Stmt.on w s := by
  intro st hst
  simp only [transfer, List.mem_append, List.mem_flatMap, List.mem_map, List.mem_cons,
    List.not_mem_nil, or_false] at hst
  obtain ((⟨i, -, rfl | rfl⟩ | rfl | rfl) | ⟨s, -, rfl⟩) | ⟨s, -, rfl⟩ := hst <;>
    exact ⟨_, _, rfl⟩

/-- Each line gets the copying, the count and the call. -/
theorem transfer_line (w : Wire) (n : ℕ) :
    (transfer n).filterMap (Stmt.line w) = loadStmts n ++ sendStmts n := by
  cases w <;>
    simp [transfer, loadStmts, Stmt.line, List.filterMap_append, List.filterMap_flatMap,
      List.filterMap_map, Function.comp_def, ← List.map_eq_flatMap]

theorem servoFreqSet_get {inverterType : U8} {hz : U16} {f : List U8} (u : Uart) (w : Wire)
    (h : servoFrame inverterType hz = some f) :
    (servoFreqSet inverterType hz u).get w = LineState.serve f (u.get w) := by
  rw [servoFreqSet, h]
  cases w <;> rfl

/-- Splitting a program splits the part of a line. -/
theorem filterMap_split (w : Wire) (l : List Stmt) (m : ℕ) :
    let k := ((l.take m).filterMap (Stmt.line w)).length
    (l.take m).filterMap (Stmt.line w) = (l.filterMap (Stmt.line w)).take k ∧
      (l.drop m).filterMap (Stmt.line w) = (l.filterMap (Stmt.line w)).drop k := by
  have hl : l.filterMap (Stmt.line w) =
      (l.take m).filterMap (Stmt.line w) ++ (l.drop m).filterMap (Stmt.line w) := by
    rw [← List.filterMap_append, List.take_append_drop]
  rw [hl]
  exact ⟨List.take_left.symm, List.drop_left.symm⟩

section
variable {inverterType : U8} (hty : inverterType ≤ 4) (h₁ h₂ : U16)
include hty

theorem servoFrame_some (hz : U16) :
    servoFrame inverterType hz = some (withCRC (servoBody inverterType hz)) := by
  rw [servoFrame_eq, if_pos hty]

theorem servoProgram_some (hz : U16) : servoProgram inverterType hz =
    (build inverterType hz).map .own ++ transfer ((servoHead inverterType).length + 4) :=
  if_pos hty

theorem reached_eq (w : Wire) (hz : U16) (b : ℕ) : reached w inverterType hz b =
    (((transfer ((servoHead inverterType).length + 4)).take
      (b - (build inverterType hz).length)).filterMap (Stmt.line w)).length := by
  rw [reached, servoProgram_some hty, List.take_append, List.filterMap_append, ← List.map_take,
    filterMap_own, List.nil_append, List.length_map]

omit hty in
theorem length_servoFrame (hz : U16) :
    (withCRC (servoBody inverterType hz)).length = (servoHead inverterType).length + 4 := by
  simp [withCRC, servoBody]

/-- The frames of an interrupted call on the line `w`. -/
theorem servoPreempted_dma (w : Wire) (b : ℕ) (v : Locals) (u : Uart) :
    let f₁ := withCRC (servoBody inverterType h₁)
    let f₂ := withCRC (servoBody inverterType h₂)
    let k := reached w inverterType h₁ b
    ((servoPreempted inverterType h₁ h₂ b v u).get w).dma = (u.get w).dma ++
      if k ≤ (servoHead inverterType).length + 5 then [f₂, f₂.take k ++ f₁.drop k]
      else [f₁, f₂] := by
  intro f₁ f₂ k
  obtain ⟨n, hn⟩ : ∃ n, n = (servoHead inverterType).length + 4 := ⟨_, rfl⟩
  obtain ⟨B, hB⟩ : ∃ B, B = build inverterType h₁ := ⟨_, rfl⟩
  obtain ⟨m, hm⟩ : ∃ m, m = b - B.length := ⟨_, rfl⟩
  have htake : (servoProgram inverterType h₁).take b =
      (B.take b).map .own ++ (transfer n).take m := by
    rw [servoProgram_some hty, ← hB, ← hn, List.take_append, List.map_take, List.length_map, hm]
  have hdrop : (servoProgram inverterType h₁).drop b =
      (B.drop b).map .own ++ (transfer n).drop m := by
    rw [servoProgram_some hty, ← hB, ← hn, List.drop_append, List.map_drop, List.length_map, hm]
  have hk : k = (((transfer n).take m).filterMap (Stmt.line w)).length := by
    rw [hm, hB, hn]
    exact reached_eq hty w h₁ b
  obtain ⟨hfirst, hrest⟩ := filterMap_split w (transfer n) m
  rw [← hk, transfer_line] at hfirst hrest
  obtain ⟨v₁, hv₁⟩ : ∃ v₁, v₁ = (B.take b).foldl (fun v f => f v) v := ⟨_, rfl⟩
  obtain ⟨v₂, hv₂⟩ : ∃ v₂, v₂ = B.foldl (fun v f => f v) v := ⟨_, rfl⟩
  have hv : (B.drop b).foldl (fun v f => f v) v₁ = v₂ := by
    rw [hv₁, hv₂, ← List.foldl_append, List.take_append_drop]
  obtain ⟨u₁, hu₁, hget₁⟩ := foldl_on w ((transfer n).take m) v₁ u
    fun st hst => transfer_on n st (List.mem_of_mem_take hst)
  obtain ⟨u₂, hu₂, hget₂⟩ := foldl_on w ((transfer n).drop m) v₂
    (servoFreqSet inverterType h₂ u₁) fun st hst => transfer_on n st (List.mem_of_mem_drop hst)
  have hrun : ((servoProgram inverterType h₁).take b).foldl Stmt.exec ⟨v, u⟩ = ⟨v₁, u₁⟩ := by
    rw [htake, List.foldl_append, foldl_own, ← hv₁, hu₁]
  have hend : servoPreempted inverterType h₁ h₂ b v u = u₂ := by
    rw [servoPreempted, hrun, hdrop, List.foldl_append, foldl_own, hv, hu₂]
  -- the first part finds the frame in `pbuf`, or has nothing for the line
  have hpart : u₁.get w =
      ((loadStmts n ++ sendStmts n).take k).foldl (LineStmt.exec v₂.pbuf) (u.get w) := by
    rw [hget₁, hfirst]
    rcases Nat.le_total b B.length with hb | hb
    · have h0 : k = 0 := by
        rw [hk, hm, Nat.sub_eq_zero_of_le hb]
        rfl
      rw [h0]
      rfl
    · rw [hv₁, hv₂, List.take_of_length_le hb]
  have hpbuf : v₂.pbuf.bytes n = f₁ := by
    have hlen : f₁.length = n := (length_servoFrame h₁).trans hn.symm
    rw [hv₂, hB, build_pbuf, ← hlen]
    exact Mem.bytes_putList _ _
  have hf₂ : f₂.length = n := (length_servoFrame h₂).trans hn.symm
  rw [hend, hget₂, servoFreqSet_get u₁ w (servoFrame_some hty h₂), hpart, hrest,
    LineState.preempted_dma (u.get w) k hpbuf hf₂, hn]

omit hty in
theorem mixed_tail {H : List U8} {a b c d a' b' c' d' : U8}
    (hw : a = a' → b = b' → c = c' ∧ d = d') (hc : c = c' → d = d' → a = a' ∧ b = b') (k : ℕ) :
    let f₁ := H ++ [a, b, c, d]
    let f₂ := H ++ [a', b', c', d']
    (f₂.take k ++ f₁.drop k = f₁ ∨ f₂.take k ++ f₁.drop k = f₂) ↔
      (k = H.length + 1 → a = a') ∧ (k = H.length + 2 → a = a' ∧ b = b') ∧
        (k = H.length + 3 → d = d') := by
  intro f₁ f₂
  rcases Nat.lt_or_ge H.length k with hk | hk
  · obtain ⟨i, rfl⟩ : ∃ i, k = H.length + (i + 1) := ⟨k - H.length - 1, by omega⟩
    rw [List.take_length_add_append, List.drop_length_add_append, List.append_assoc,
      List.append_cancel_left_eq, List.append_cancel_left_eq]
    match i with
    | 0 =>
      have hfirst : b = b' ∧ c = c' ∧ d = d' → a' = a := fun h => (hc h.2.1 h.2.2).1.symm
      simpa [eq_comm] using hfirst
    | 1 =>
      have hsecond : c = c' → d = d' → a' = a ∧ b' = b := by
        intro h h'
        obtain ⟨ha, hb⟩ := hc h h'
        exact ⟨ha.symm, hb.symm⟩
      simpa [@eq_comm _ a a', @eq_comm _ b b'] using hsecond
    | 2 =>
      have hthird : a' = a → b' = b → c' = c → d = d' := fun ha hb _ => (hw ha.symm hb.symm).2
      simpa using hthird
    | i + 3 => simp
  · rw [List.take_append_of_le_length hk, List.drop_append_of_le_length hk, ← List.append_assoc,
      List.take_append_drop]
    have hne : ∀ i, ¬ k = H.length + (i + 1) := fun i => by omega
    exact iff_of_true (.inl rfl) ⟨fun h => absurd h (hne 0), fun h => absurd h (hne 1),
      fun h => absurd h (hne 2)⟩

omit hty in
/-- The frame of `h₂` up to some place and that of `h₁` from there on. -/
theorem mixed_iff (k : ℕ) :
    let f₁ := withCRC (servoBody inverterType h₁)
    let f₂ := withCRC (servoBody inverterType h₂)
    (f₂.take k ++ f₁.drop k = f₁ ∨ f₂.take k ++ f₁.drop k = f₂) ↔
      Unmixed inverterType h₁ h₂ k := by
  have hframe : ∀ hz, withCRC (servoBody inverterType hz) = servoHead inverterType ++
      [hi (servoWord inverterType hz), lo (servoWord inverterType hz),
        hi (getCRC (servoBody inverterType hz)), lo (getCRC (servoBody inverterType hz))] :=
    fun _ => List.append_assoc _ _ _
  have hword : servoWord inverterType h₁ = servoWord inverterType h₂ ↔
      hi (servoWord inverterType h₁) = hi (servoWord inverterType h₂) ∧
        lo (servoWord inverterType h₁) = lo (servoWord inverterType h₂) := by
    refine ⟨fun h => by rw [h]; exact ⟨rfl, rfl⟩, fun ⟨hh, hl⟩ => ?_⟩
    rw [← le16_lo_hi (servoWord inverterType h₁), hh, hl, le16_lo_hi]
  rw [Unmixed, hframe h₁, hframe h₂, hword]
  refine mixed_tail (fun hh hl => ?_) (fun hh hl => ?_) k
  · rw [servoBody, servoBody, hword.2 ⟨hh, hl⟩]
    exact ⟨rfl, rfl⟩
  · have hcrc : getCRC (servoBody inverterType h₁) = getCRC (servoBody inverterType h₂) := by
      rw [← le16_lo_hi (getCRC (servoBody inverterType h₁)), hh, hl, le16_lo_hi]
    exact crc_inj hcrc

end

/-- **Interrupted frames are whole** if and only if the places which the
    copying has reached on both lines mix nothing. -/
theorem frames_whole_iff (inverterType : U8) (h₁ h₂ : U16) (b : ℕ) (v : Locals) (u : Uart) :
    Whole inverterType h₁ h₂ u (servoPreempted inverterType h₁ h₂ b v u) ↔
      ∀ w, Unmixed inverterType h₁ h₂ (reached w inverterType h₁ b) := by
  refine forall_congr' fun w => ?_
  by_cases hty : inverterType ≤ 4
  · have hdma := servoPreempted_dma hty h₁ h₂ w b v u
    obtain ⟨k, hk⟩ : ∃ k, k = reached w inverterType h₁ b := ⟨_, rfl⟩
    have hmixed := @mixed_iff inverterType h₁ h₂ k
    simp only [← hk] at hdma hmixed ⊢
    rw [hdma, ← hmixed]
    simp only [servoFrame_some hty, Option.some.injEq]
    split_ifs with hlt
    · constructor
      · rintro ⟨l, hl, hmem⟩
        obtain rfl := List.append_cancel_left hl
        exact hmem _ (by simp)
      · intro hmix
        refine ⟨_, rfl, fun f hf => ?_⟩
        rcases List.mem_pair.1 hf with rfl | rfl
        · exact .inr rfl
        · exact hmix
    · have hlen := @length_servoFrame inverterType
      have hall : (withCRC (servoBody inverterType h₂)).take k ++
          (withCRC (servoBody inverterType h₁)).drop k = withCRC (servoBody inverterType h₂) := by
        rw [List.take_of_length_le (by rw [hlen]; omega),
          List.drop_of_length_le (by rw [hlen]; omega), List.append_nil]
      refine iff_of_true ⟨_, rfl, fun f hf => ?_⟩ (.inr hall)
      exact List.mem_pair.1 hf
  · have hprog : servoProgram inverterType h₁ = [] := if_neg hty
    have hset : servoFreqSet inverterType h₂ u = u := by
      rw [servoFreqSet, servoFrame_eq, if_neg hty]
    have hsame : servoPreempted inverterType h₁ h₂ b v u = u := by
      simp [servoPreempted, hprog, hset]
    have hzero : reached w inverterType h₁ b = 0 := by simp [reached, hprog]
    rw [hsame, hzero]
    exact iff_of_true ⟨[], by simp, by simp⟩ ⟨by omega, by omega, by omega⟩

/-- `ServoFreqSet(1000)` interrupted by `ServoFreqSet(2000)` when five bytes have
    gone to `uart2_send_buff` sends `07E8`. -/
theorem frames_mixed : ¬ ∀ (inverterType : U8) (h₁ h₂ : U16) (b : ℕ) (v : Locals) (u : Uart),
    inverterType ≤ 4 → Whole inverterType h₁ h₂ u (servoPreempted inverterType h₁ h₂ b v u) := by
  intro h
  obtain ⟨l, hl, hmem⟩ := h 0 1000 2000 19 ⟨fun _ => 0, 0, 0⟩ Uart.init (by decide) .uart2
  have hsent : ((servoPreempted 0 1000 2000 19 ⟨fun _ => 0, 0, 0⟩ Uart.init).get .uart2).dma =
      [[0x00, 0x06, 0xFA, 0x01, 0x07, 0xD0, 0xEA, 0xAF],
       [0x00, 0x06, 0xFA, 0x01, 0x07, 0xE8, 0xE9, 0xBD]] := by
    decide +kernel
  rw [hsent] at hl
  obtain rfl : l = _ := hl.symm
  have hmix := hmem _ (List.mem_cons_of_mem _ List.mem_cons_self)
  revert hmix
  decide +kernel

/-! ### Without an interruption -/

theorem Uart.ext_get {u u' : Uart} (h : ∀ w, u.get w = u'.get w) : u = u' := by
  have h₂ := h .uart2
  have h₄ := h .uart4
  simp only [Uart.get, LineState.mk.injEq] at h₂ h₄
  cases u
  cases u'
  simp_all

theorem length_servoHead_le (inverterType : U8) : (servoHead inverterType).length ≤ 9 := by
  unfold servoHead
  split_ifs <;> decide

/-- A frame of at most 15 bytes goes through the statements of a line as
    through `load` and `send`. -/
theorem foldl_line {pbuf : Mem} {f : List U8} {n : ℕ} (s : LineState) (h : pbuf.bytes n = f)
    (hn : n ≤ 15) :
    (loadStmts n ++ sendStmts n).foldl (LineStmt.exec pbuf) s = LineState.serve f s := by
  subst h
  have hmod : n % 256 = n := Nat.mod_eq_of_lt (by omega)
  have hle : ¬ 15 < n := by omega
  have hload : (loadStmts n).foldl (LineStmt.exec pbuf) s =
      { s with line := s.line.load (pbuf.bytes n) } := by
    rw [loadStmts, List.foldl_append, List.range_eq_range', foldl_copy, Line.load,
      Mem.length_bytes, Mem.bytes, List.range_eq_range']
    rfl
  rw [List.foldl_append, hload, sendStmts, List.foldl_append, foldl_record]
  · simp [LineStmt.exec, LineState.serve, Line.send, Line.load, hmod, hle]
  · simp [LineStmt.exec, Line.load, hmod, hle]

/-- The statements together are `servoFreqSet`. -/
theorem servoProgram_run (inverterType : U8) (hz : U16) (v : Locals) (u : Uart) :
    ((servoProgram inverterType hz).foldl Stmt.exec ⟨v, u⟩).uart =
      servoFreqSet inverterType hz u := by
  by_cases hty : inverterType ≤ 4
  · obtain ⟨v', hv'⟩ : ∃ v', v' = (build inverterType hz).foldl (fun v f => f v) v := ⟨_, rfl⟩
    have hpbuf : v'.pbuf.bytes ((servoHead inverterType).length + 4) =
        withCRC (servoBody inverterType hz) := by
      rw [hv', build_pbuf, ← length_servoFrame hz]
      exact Mem.bytes_putList _ _
    rw [servoProgram_some hty, List.foldl_append, foldl_own, ← hv']
    refine Uart.ext_get fun w => ?_
    obtain ⟨u', hu, hget⟩ := foldl_on w _ v' u (transfer_on ((servoHead inverterType).length + 4))
    have hle := length_servoHead_le inverterType
    rw [hu, hget, transfer_line, foldl_line _ hpbuf (by omega),
      servoFreqSet_get u w (servoFrame_some hty hz)]
  · rw [servoProgram, if_neg hty, servoFreqSet, servoFrame_eq, if_neg hty]
    rfl

end GndCtrl
