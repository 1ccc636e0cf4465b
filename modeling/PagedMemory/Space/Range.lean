import PagedMemory.Space.Basic

/-!
# Cloning and freeing a range

A range is a run of directory slots: it starts at a multiple of 4 MiB and its size
is rounded up to whole slots. Cloning gives the child a page table for every table
of the parent and leaves both sides read-only, so that the first write by either
is answered with a copy. Frames that are not tracked are not counted, and the
entry of the parent that maps one stays writable.

When memory runs out in the middle, everything cloned so far is freed again.
-/

namespace PagedMemory

/-- The directory slots of a range. -/
def rangeSlots (operation : RangeOperation) (start : VirtualAddress) (size : Nat) :
    Except Halt (List Slot) :=
  let first := start.directorySlot.val
  let count := (size + 4194303) / 4194304
  if !start.isAligned .large then
    .error (.rangeMisaligned operation start)
  else if first + count ≤ 1024 then
    .ok ((allSlots.drop first).take count)
  else
    .error (.rangeTooLong operation start size)

namespace Space

/-- Gives up what an entry of a page table refers to and clears the entry. -/
def dropEntry (table : FrameId) (i : Slot) : Kernel Unit := do
  let entry ← readEntry table i
  if entry.present then
    release entry.frame
  writeEntry table i .zero

/-- Frees the page table of a directory slot with all that it maps. -/
def freeSlot (s : Space) (slot : Slot) : Kernel Unit := do
  match ← inspect fun m => s.tableAt m.ram slot with
  | none => pure ()
  | some table =>
    allSlots.forM (dropEntry table)
    release table
    writeEntry s.root slot .zero

/-- Frees every page table of a range with all that they map. -/
def freeRange (s : Space) (start : VirtualAddress) (size : Nat) : Kernel Unit := do
  let slots ← demand (rangeSlots .free start size)
  slots.forM s.freeSlot
  remark (.rangeFreed start size s.root)
  flush

/-- Shares what an entry of `source` maps with the same entry of `target`. -/
def cloneEntry (source target : FrameId) (i : Slot) : Kernel Unit := do
  let entry ← readEntry source i
  if entry.present then
    writeEntry target i entry.writeProtected
    if ← manages entry.frame then
      writeEntry source i entry.writeProtected
      retain entry.frame

/-- Clones the given entries of each slot in turn. Answers with the slot for which
there was no page table left, if any. -/
def cloneSlots (parent child : Space) (entries : List Slot) : List Slot → Kernel (Option Slot)
  | [] => return none
  | slot :: rest => do
    match ← inspect fun m => parent.tableAt m.ram slot with
    | none => cloneSlots parent child entries rest
    | some source =>
      match ← allocFrame? with
      | none => return some slot
      | some target =>
        zeroFrame target
        writeEntry child.root slot (.link target)
        entries.forM (cloneEntry source target)
        cloneSlots parent child entries rest

/-- Stops if a slot links a page table. -/
def requireVacant (s : Space) (slot : Slot) : Kernel Unit := do
  let entry ← readEntry s.root slot
  if entry.present then
    halt (.slotOccupied slot)

/-- The entries of each table that are cloned from a range. -/
def clonedEntries (start : VirtualAddress) : List Slot :=
  if start.value = 0 then allSlots.take lowCloneEntries else allSlots

/-- Clones a vacant range as far as the free frames go, and answers with the slot for
which there was none left. -/
def cloneInto (parent child : Space) (start : VirtualAddress) (size : Nat) :
    Kernel (Option Slot) := do
  let slots ← demand (rangeSlots .clone start size)
  slots.forM child.requireVacant
  parent.cloneSlots child (clonedEntries start) slots

/-- Clones a range of `parent` into `child`, where the range must be vacant. -/
def cloneRange (parent child : Space) (start : VirtualAddress) (size : Nat) :
    Attempt Unit := do
  match ← parent.cloneInto child start size with
  | some slot =>
    remark (.cloneRolledBack slot.base)
    child.freeRange start size
    fail .outOfMemory
  | none =>
    remark (.rangeCloned start size parent.root child.root)
    flush

end Space

end PagedMemory
