/-
  The heap of lwIP (core/mem.c), from which the pbufs of type `PBUF_RAM` come.

  A pointer into the heap is its distance from `ram`, and the structures in it are
  kept by their distance; `writes` records the structures that are written to.
  A function fails (`none`) with an assertion or when a loop does not end: each
  loop has a turn for every place in the heap.
-/
import GndCtrl.Pbufs

namespace GndCtrl

/-- `SIZEOF_STRUCT_MEM` -/
abbrev sizeofStructMem : ℕ := 8
/-- `MIN_SIZE_ALIGNED` -/
abbrev minSizeAligned : ℕ := 12
/-- `MEM_SIZE_ALIGNED`; the structure `ram_end` is there. -/
abbrev memSizeAligned : ℕ := 13 * 1024

/-- `struct mem` -/
structure MemStruct where
  next : ℕ
  prev : ℕ
  used : Bool

/-- The heap. -/
structure MemHeap where
  ram : ℕ → MemStruct
  lfree : ℕ
  writes : List ℕ

namespace MemHeap

/-- Assignments to the fields of a structure. -/
def set (h : MemHeap) (mem : ℕ) (f : MemStruct → MemStruct) : MemHeap :=
  { h with ram := Function.update h.ram mem (f (h.ram mem)), writes := h.writes ++ [mem] }

/-- `mem_init` -/
def init : MemHeap where
  ram := Function.update
    (Function.update (fun _ => ⟨0, 0, false⟩) 0 ⟨memSizeAligned, 0, false⟩)
    memSizeAligned ⟨memSizeAligned, memSizeAligned, true⟩
  lfree := 0
  writes := []

/-- `newsize` or `size`, as the calls adjust it. -/
def alignedSize (size : ℕ) : ℕ := max (lwipMemAlignSize size % 2 ^ 16) minSizeAligned

/-! ## `mem_free` -/

/-- The first half of `plug_holes`. -/
def plugForward (mem : ℕ) (h : MemHeap) : MemHeap :=
  let nmem := (h.ram mem).next
  if mem ≠ nmem ∧ (h.ram nmem).used = false ∧ nmem ≠ memSizeAligned then
    let h := if h.lfree = nmem then { h with lfree := mem } else h
    let h := h.set mem fun m => { m with next := (h.ram nmem).next }
    h.set (h.ram nmem).next fun m => { m with prev := mem }
  else h

/-- The second half of `plug_holes`. -/
def plugBackward (mem : ℕ) (h : MemHeap) : MemHeap :=
  let pmem := (h.ram mem).prev
  if pmem ≠ mem ∧ (h.ram pmem).used = false then
    let h := if h.lfree = mem then { h with lfree := pmem } else h
    let h := h.set pmem fun m => { m with next := (h.ram mem).next }
    h.set (h.ram mem).next fun m => { m with prev := pmem }
  else h

/-- `plug_holes` -/
def plugHoles (mem : ℕ) (h : MemHeap) : Option MemHeap :=
  -- the three assertions
  if mem < memSizeAligned ∧ (h.ram mem).used = false ∧ (h.ram mem).next ≤ memSizeAligned then
    some (plugBackward mem (plugForward mem h))
  else none

/-- `mem_free` -/
def memFree (rmem : Option ℕ) (h : MemHeap) : Option MemHeap :=
  match rmem with
  | none => some h
  | some rmem =>
    -- the assertions about `rmem`; there is no structure below the heap
    if rmem % 4 = 0 ∧ rmem < memSizeAligned ∧ sizeofStructMem ≤ rmem then
      let mem := rmem - sizeofStructMem
      if (h.ram mem).used then
        let h := h.set mem fun m => { m with used := false }
        let h := if mem < h.lfree then { h with lfree := mem } else h
        plugHoles mem h
      else none
    else none

/-! ## `mem_malloc` -/

/-- The scan of `mem_malloc` for a block that is big enough: its structure.  `SIZEOF_STRUCT_MEM` is
    unsigned, so in the source a negative difference would wrap and be big enough, where it is 0
    here; a structure that the scan reaches has its next one behind it (`Laid`). -/
def scanLoop (size : ℕ) (h : MemHeap) : ℕ → ℕ → Option (Option ℕ)
  | 0, _ => none
  | n + 1, ptr =>
    if ptr < memSizeAligned - size then
      let mem := h.ram ptr
      if mem.used = false ∧ mem.next - (ptr + sizeofStructMem) ≥ size then some (some ptr)
      else scanLoop size h n mem.next
    else some none

/-- The search for the next free block. -/
def lfreeLoop (h : MemHeap) : ℕ → ℕ → Option ℕ
  | 0, _ => none
  | n + 1, lfree =>
    if (h.ram lfree).used ∧ lfree ≠ memSizeAligned then lfreeLoop h n (h.ram lfree).next
    else some lfree

/-- The block at `ptr` is taken; what is left of a large one is a new block. -/
def takeBlock (ptr size : ℕ) (h : MemHeap) : MemHeap :=
  let mem := h.ram ptr
  if mem.next - (ptr + sizeofStructMem) ≥ size + sizeofStructMem + minSizeAligned then
    let ptr2 := ptr + sizeofStructMem + size
    let h := h.set ptr2 fun _ => { used := false, next := mem.next, prev := ptr }
    let h := h.set ptr fun m => { m with next := ptr2, used := true }
    if mem.next ≠ memSizeAligned then h.set mem.next fun m => { m with prev := ptr2 } else h
  else h.set ptr fun m => { m with used := true }

/-- `mem_malloc` -/
def memMalloc (size : ℕ) (h : MemHeap) : Option (Option ℕ × MemHeap) :=
  if size = 0 then some (none, h)
  else
    let size := alignedSize size
    if size > memSizeAligned then some (none, h)
    else do
      match ← scanLoop size h memSizeAligned h.lfree with
      | none => return (none, h)
      | some ptr =>
        let h' := h.takeBlock ptr size
        let found := if ptr = h.lfree then h'.lfreeLoop memSizeAligned ptr else some h.lfree
        let lfree ← found
        -- the assertions about `lfree`, the end of the block and its alignment
        if (ptr = h.lfree → lfree = memSizeAligned ∨ (h'.ram lfree).used = false) ∧
            ptr + sizeofStructMem + size ≤ memSizeAligned ∧ (ptr + sizeofStructMem) % 4 = 0 then
          return (some (ptr + sizeofStructMem), { h' with lfree := lfree })
        else none

/-! ## `mem_realloc` -/

/-- A block is made shorter. -/
def shrinkBlock (ptr size newsize : ℕ) (h : MemHeap) : MemHeap :=
  let mem2 := (h.ram ptr).next
  let ptr2 := ptr + sizeofStructMem + newsize
  if (h.ram mem2).used = false then
    -- the next block grows downwards
    let next := (h.ram mem2).next
    let h := if h.lfree = mem2 then { h with lfree := ptr2 } else h
    let h := h.set ptr2 fun _ => { used := false, next := next, prev := ptr }
    let h := h.set ptr fun m => { m with next := ptr2 }
    if next ≠ memSizeAligned then h.set next fun m => { m with prev := ptr2 } else h
  else if newsize + sizeofStructMem + minSizeAligned ≤ size then
    let h := if ptr2 < h.lfree then { h with lfree := ptr2 } else h
    let h := h.set ptr2 fun _ => { used := false, next := mem2, prev := ptr }
    let h := h.set ptr fun m => { m with next := ptr2 }
    if mem2 ≠ memSizeAligned then h.set mem2 fun m => { m with prev := ptr2 } else h
  else h

/-- `mem_realloc` -/
def memRealloc (rmem newsize : ℕ) (h : MemHeap) : Option (Option ℕ × MemHeap) :=
  let newsize := alignedSize newsize
  if newsize > memSizeAligned then some (none, h)
  -- the assertion about `rmem`; there is no structure below the heap
  else if rmem < memSizeAligned ∧ sizeofStructMem ≤ rmem then
    let ptr := rmem - sizeofStructMem
    let size := (h.ram ptr).next - ptr - sizeofStructMem
    -- the assertion that a block is only made shorter
    if newsize > size then none
    else if newsize = size then some (some rmem, h)
    else some (some rmem, h.shrinkBlock ptr size newsize)
  else none

end MemHeap

end GndCtrl
