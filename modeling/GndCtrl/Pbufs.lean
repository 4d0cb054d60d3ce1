/-
  The packet buffers of lwIP (core/pbuf.c): the pool `MEMP_PBUF_POOL`, from which
  the firmware and the Ethernet driver allocate.

  A pointer to a pbuf is its index in the pool and `payload` the distance from
  the memory behind the structure.  A function fails (`none`) with an assertion,
  with the use of a null pointer, or when a chain does not end: each loop has a
  turn for every pbuf of the pool.
-/
import GndCtrl.Fun

namespace GndCtrl

/-- `PBUF_POOL_SIZE` -/
abbrev pbufPoolSize : ℕ := 10
/-- `PBUF_POOL_BUFSIZE` -/
abbrev pbufPoolBufsize : ℕ := 1500

/-- `LWIP_MEM_ALIGN_SIZE`, with a `MEM_ALIGNMENT` of 4. -/
def lwipMemAlignSize (size : ℕ) : ℕ := (size + 3) / 4 * 4

/-- `pbuf_layer` -/
inductive PbufLayer where
  | transport
  | ip
  | link
  | raw
  deriving DecidableEq

/-- The room for the headers: `PBUF_TRANSPORT_HLEN`, `PBUF_IP_HLEN` and `PBUF_LINK_HLEN`. -/
def PbufLayer.offset : PbufLayer → ℕ
  | .transport => 20 + 20 + 14
  | .ip => 20 + 14
  | .link => 14
  | .raw => 0

/-- `struct pbuf`, with the memory behind it. -/
structure PbufStruct where
  next : Option (Fin pbufPoolSize)
  payload : ℕ
  totLen : ℕ
  len : ℕ
  ref : ℕ
  data : Mem

/-- The fields that `pbuf_alloc` writes. -/
def PbufStruct.alloc (payload totLen len : ℕ) (b : PbufStruct) : PbufStruct :=
  { b with next := none, payload := payload, totLen := totLen, len := len, ref := 1 }

/-- The pool and its free pbufs. -/
structure Pbufs where
  pbuf : Fin pbufPoolSize → PbufStruct
  free : List (Fin pbufPoolSize)

namespace Pbufs

/-- After `memp_init`. -/
def init : Pbufs where
  pbuf := fun _ => ⟨none, 0, 0, 0, 0, fun _ => 0⟩
  free := (List.finRange pbufPoolSize).reverse

/-- Assignments to the fields of a pbuf. -/
def set (h : Pbufs) (p : Fin pbufPoolSize) (f : PbufStruct → PbufStruct) : Pbufs :=
  { h with pbuf := Function.update h.pbuf p (f (h.pbuf p)) }

/-- `memp_free` -/
def mempFree (h : Pbufs) (p : Fin pbufPoolSize) : Pbufs := { h with free := p :: h.free }

/-! ## References -/

/-- The loop of `pbuf_free`, with the turns that are left. -/
def freeLoop : ℕ → Option (Fin pbufPoolSize) → ℕ → Pbufs → Option (ℕ × Pbufs)
  | _, none, count, h => some (count, h)
  | 0, some _, _, _ => none
  | n + 1, some p, count, h =>
    -- the assertion `p->ref > 0`
    if (h.pbuf p).ref = 0 then none
    else
      let h := h.set p fun b => { b with ref := b.ref - 1 }
      if (h.pbuf p).ref = 0 then
        -- `p->next` is read before the pbuf is given back
        freeLoop n (h.pbuf p).next (count + 1) (h.mempFree p)
      else some (count, h)

/-- `pbuf_free`; the result is the number of pbufs given back. -/
def pbufFree (p : Fin pbufPoolSize) (h : Pbufs) : Option (ℕ × Pbufs) :=
  freeLoop pbufPoolSize (some p) 0 h

/-- `pbuf_ref` -/
def pbufRef (p : Fin pbufPoolSize) (h : Pbufs) : Pbufs :=
  h.set p fun b => { b with ref := (b.ref + 1) % 2 ^ 16 }

/-- The loop of `pbuf_cat` over the first chain. -/
def catLoop : ℕ → Fin pbufPoolSize → Fin pbufPoolSize → Pbufs → Option Pbufs
  | 0, _, _, _ => none
  | n + 1, p, t, h =>
    let sum := ((h.pbuf p).totLen + (h.pbuf t).totLen) % 2 ^ 16
    match (h.pbuf p).next with
    | some q => catLoop n q t (h.set p fun b => { b with totLen := sum })
    | none =>
      -- the assertion `p->tot_len == p->len` on the last pbuf
      if (h.pbuf p).totLen = (h.pbuf p).len then
        some (h.set p fun b => { b with totLen := sum, next := some t })
      else none

/-- `pbuf_cat` -/
def pbufCat (head tail : Fin pbufPoolSize) (h : Pbufs) : Option Pbufs :=
  catLoop pbufPoolSize head tail h

/-- `pbuf_chain` -/
def pbufChain (head tail : Fin pbufPoolSize) (h : Pbufs) : Option Pbufs := do
  let h ← h.pbufCat head tail
  return h.pbufRef tail

/-- `pbuf_dechain`; the result is the rest of the chain, if it is still referenced. -/
def pbufDechain (p : Fin pbufPoolSize) (h : Pbufs) :
    Option (Option (Fin pbufPoolSize) × Pbufs) :=
  match (h.pbuf p).next with
  | some q =>
    let b := h.pbuf p
    -- the assertion `q->tot_len == p->tot_len - p->len`, a comparison of integers
    if ((h.pbuf q).totLen : ℤ) = b.totLen - b.len then do
      let h := h.set q fun c => { c with totLen := (b.totLen + 2 ^ 16 - b.len) % 2 ^ 16 }
      let h := h.set p fun b => { b with next := none, totLen := b.len }
      let (tailGone, h) ← h.pbufFree q
      -- the assertion `p->tot_len == p->len`
      if (h.pbuf p).totLen = (h.pbuf p).len then
        return (if tailGone > 0 then none else some q, h)
      else none
    else none
  | none => if (h.pbuf p).totLen = (h.pbuf p).len then some (none, h) else none

/-- The loop of `pbuf_realloc` over the pbufs that stay: the new last one, with its length. -/
def reallocLoop : ℕ → (grow : ℕ) → Fin pbufPoolSize → ℕ → Pbufs →
    Option (Fin pbufPoolSize × ℕ × Pbufs)
  | 0, _, _, _, _ => none
  | n + 1, grow, q, remLen, h =>
    if remLen > (h.pbuf q).len then
      let len := (h.pbuf q).len
      let h := h.set q fun b => { b with totLen := (b.totLen + grow) % 2 ^ 16 }
      -- the assertion `q != NULL`
      match (h.pbuf q).next with
      | some q => reallocLoop n grow q (remLen - len) h
      | none => none
    else some (q, remLen, h)

/-- `pbuf_realloc` -/
def pbufRealloc (p : Fin pbufPoolSize) (newLen : ℕ) (h : Pbufs) : Option Pbufs :=
  if newLen ≥ (h.pbuf p).totLen then some h
  else do
    -- a negative difference, as an unsigned number
    let grow := newLen + 2 ^ 16 - (h.pbuf p).totLen
    let (q, remLen, h) ← reallocLoop pbufPoolSize grow p newLen h
    let h := h.set q fun b => { b with len := remLen, totLen := remLen }
    let h ← match (h.pbuf q).next with
      | some r => (h.pbufFree r).map Prod.snd
      | none => some h
    return h.set q fun b => { b with next := none }

/-! ## Allocation -/

/-- The loop of `pbuf_alloc` for the pbufs after the first one, `p`; `r` is the last one so far and
    the first argument the free pbufs. -/
def allocLoop (p : Fin pbufPoolSize) : List (Fin pbufPoolSize) → (remLen : ℕ) →
    (r : Fin pbufPoolSize) → (Fin pbufPoolSize → PbufStruct) →
    Option (Option (Fin pbufPoolSize) × Pbufs)
  | [], remLen, _, m =>
    if remLen = 0 then some (some p, ⟨m, []⟩)
    else do
      -- give back the chain so far
      let (_, h) ← pbufFree p ⟨m, []⟩
      return (none, h)
  | q :: free, remLen, r, m =>
    if remLen = 0 then some (some p, ⟨m, q :: free⟩)
    else
      let len := min remLen pbufPoolBufsize
      let m := Function.update m q ((m q).alloc 0 remLen len)
      let m := Function.update m r { m r with next := some q }
      allocLoop p free (remLen - len) q m

/-- `pbuf_alloc` of a `PBUF_POOL` -/
def pbufAlloc (layer : PbufLayer) (length : ℕ) (h : Pbufs) :
    Option (Option (Fin pbufPoolSize) × Pbufs) :=
  match h.free with
  | [] => some (none, h)
  | p :: free =>
    let offset := lwipMemAlignSize layer.offset
    let len := min length (pbufPoolBufsize - offset)
    let m := Function.update h.pbuf p ((h.pbuf p).alloc offset length len)
    allocLoop p free (length - len) p m

/-! ## Contents -/

/-- `pbuf_header`; `true` is a failure. -/
def pbufHeader (p : Fin pbufPoolSize) (headerSizeIncrement : ℤ) (h : Pbufs) : Bool × Pbufs :=
  let b := h.pbuf p
  if headerSizeIncrement = 0 then (false, h)
  else if headerSizeIncrement < 0 ∧ b.len < -headerSizeIncrement then (true, h)
  else if (b.payload : ℤ) - headerSizeIncrement < 0 then (true, h)
  else (false, h.set p fun b => { b with
    payload := (b.payload - headerSizeIncrement).toNat
    len := ((b.len + headerSizeIncrement) % 2 ^ 16).toNat
    totLen := ((b.totLen + headerSizeIncrement) % 2 ^ 16).toNat })

/-- `MEMCPY` to the payload of a pbuf. -/
def write (h : Pbufs) (p : Fin pbufPoolSize) (data : List U8) : Pbufs :=
  h.set p fun b => { b with data := b.data.putList b.payload data }

/-- The loop of `pbuf_take` for the data that is left. -/
def takeLoop : ℕ → Option (Fin pbufPoolSize) → List U8 → Pbufs → Option Pbufs
  | _, _, [], h => some h
  | n + 1, some p, data, h =>
    let len := min data.length (h.pbuf p).len
    let h := h.write p (data.take len)
    takeLoop n (h.pbuf p).next (data.drop len) h
  | _, _, _, _ => none

/-- `pbuf_take`; `false` is `ERR_ARG`. -/
def pbufTake (p : Fin pbufPoolSize) (data : List U8) (h : Pbufs) : Option (Bool × Pbufs) :=
  if (h.pbuf p).totLen < data.length then some (false, h)
  else do
    let h ← takeLoop pbufPoolSize (some p) data h
    return (true, h)

/-- The payload of a pbuf. -/
def payload (h : Pbufs) (p : Fin pbufPoolSize) : List U8 :=
  (List.range (h.pbuf p).len).map fun j => (h.pbuf p).data ((h.pbuf p).payload + j)

/-- The loop of `pbuf_copy_partial`. -/
def copyLoop (h : Pbufs) : ℕ → Option (Fin pbufPoolSize) → (len offset : ℕ) → Option (List U8)
  | _, none, _, _ => some []
  | _, _, 0, _ => some []
  | 0, _, _, _ => none
  | n + 1, some p, len, offset =>
    let b := h.pbuf p
    if offset ≠ 0 ∧ offset ≥ b.len then copyLoop h n b.next len (offset - b.len)
    else do
      let part := ((h.payload p).drop offset).take len
      let rest ← copyLoop h n b.next (len - part.length) 0
      return part ++ rest

/-- `pbuf_copy_partial`: the bytes copied. -/
def pbufCopyPartial (h : Pbufs) (p : Fin pbufPoolSize) (len offset : ℕ) : Option (List U8) :=
  copyLoop h pbufPoolSize (some p) len offset

end Pbufs

end GndCtrl
