import PagedMemory.Space.Range

/-!
# The life of an address space

A space begins empty or as a clone of a range of its parent, and ends when its
range is freed and the reference to its directory given up. The kernel has a
space of its own, which maps the memory below the tracked frames onto itself; its
tables lie in that memory and are not counted.
-/

namespace PagedMemory

/-- A cleared page that the caller holds the only reference to. -/
def allocPage : Attempt FrameId := do
  let page ← allocFrame
  zeroFrame page
  return page

namespace Space

/-- The directory of the kernel is the first frame of memory. -/
def kernel : Space :=
  ⟨.first⟩

/-- The page table of the kernel for a directory slot follows the directory. -/
def kernelTable (slot : Slot) : FrameId :=
  ⟨slot.val + 1, by have := slot.isLt; simp only [PageSize.count]; omega⟩

/-- The frame with the same address as a page under a directory slot. -/
def identityFrame (slot i : Slot) : FrameId :=
  ⟨slot.val * 1024 + i.val, by
    have := slot.isLt
    have := i.isLt
    simp only [PageSize.count]
    omega⟩

/-- Makes the kernel's page table for a slot, which maps the first `pages` frames of
memory as far as they lie under the slot. -/
def mapIdentity (pages : Nat) (slot : Slot) : Kernel Unit := do
  let table := kernelTable slot
  zeroFrame table
  (allSlots.filter fun i => slot.val * 1024 + i.val < pages).forM fun i =>
    writeEntry table i (.make (identityFrame slot i) .userWritable)
  writeEntry kernel.root slot (.link table)

/-- Makes the space of the kernel. -/
def initKernel : Kernel Space := do
  let layout ← inspect fun m => .ok m.pool.layout
  let pages := layout.low.value / 4096
  zeroFrame kernel.root
  (allSlots.filter fun slot => slot.val * 1024 < pages).forM (mapIdentity pages)
  flush
  remark (.kernelMapped layout.low.value)
  return kernel

/-- A new space, a clone of a range of `parent` if there is one. -/
def createFrom (parent : Option Space) (start : VirtualAddress) (size : Nat) :
    Attempt Space := do
  let child ← create
  match parent with
  | none => return child
  | some parent =>
    undoing child.releaseRoot (parent.cloneRange child start size)
    return child

/-- Frees what the space maps in a range. -/
def clear (s : Space) (start : VirtualAddress) (size : Nat) : Kernel Unit :=
  s.freeRange start size

/-- Frees what the space maps in a range, and the space itself. -/
def destroy (s : Space) (start : VirtualAddress) (size : Nat) : Kernel Unit := do
  s.clear start size
  s.releaseRoot

/-- Where the argument page with index `i` goes: the pages end where the stretch of
the process does. -/
def argumentAddress (start : VirtualAddress) (i : Nat) : Kernel VirtualAddress :=
  demand (start.add (taskSize - (maxArgumentPages - i) * pageBytes))

/-- Maps numbered argument pages in turn. A failure gives up the page it met and every
one with a smaller index. -/
def installEach (s : Space) (start : VirtualAddress) (pages : List (Option FrameId)) :
    List (Option FrameId × Nat) → Attempt Unit
  | [] => return ()
  | (none, _) :: rest => installEach s start pages rest
  | (some page, i) :: rest => do
    let va ← argumentAddress start i
    undoing (((pages.take (i + 1)).filterMap id).forM release)
      (s.mapOne page va .userWritable)
    installEach s start pages rest

/-- Maps the argument pages of a process, the last one first. -/
def installArguments (s : Space) (start : VirtualAddress) (pages : List (Option FrameId)) :
    Attempt Unit := do
  if maxArgumentPages < pages.length then
    halt (.tooManyArgumentPages pages.length)
  s.installEach start pages pages.zipIdx.reverse

end Space

end PagedMemory
