import PagedMemory.Machine

/-!
# Address spaces

An address space is a page directory; the frame that holds it names the space. A
present directory entry links a page table, a present table entry maps a frame.
Each of these entries holds one reference to its frame, and whoever owns the
space holds the reference to the directory.

Lookups only read memory. `mapOne` installs one page and makes the page table
first where there is none.
-/

namespace PagedMemory

@[ext] structure Space where
  root : FrameId
deriving DecidableEq

namespace Space

/-- The page table linked in a directory slot. -/
def tableAt (s : Space) (r : Ram) (slot : Slot) : Except Halt (Option FrameId) :=
  (r.entry s.root slot).map Entry.target

/-- The page table that covers an address. -/
def tableOf (s : Space) (r : Ram) (va : VirtualAddress) : Except Halt (Option FrameId) :=
  s.tableAt r va.directorySlot

/-- The table entry that covers an address, if a table does. -/
def entry (s : Space) (r : Ram) (va : VirtualAddress) : Except Halt (Option Entry) :=
  match s.tableOf r va with
  | .ok (some table) => (r.entry table va.tableSlot).map some
  | .ok none => .ok none
  | .error cause => .error cause

/-- Where a linear address lies in physical memory. -/
def locate (s : Space) (r : Ram) (va : VirtualAddress) :
    Except Halt (Option PhysicalAddress) :=
  (s.entry r va).map fun found =>
    (found.bind Entry.target).map fun frame => frame.join (va.offset .small)

def findTable (s : Space) (va : VirtualAddress) : Kernel (Option FrameId) :=
  inspect fun m => s.tableOf m.ram va

def findEntry (s : Space) (va : VirtualAddress) : Kernel (Option Entry) :=
  inspect fun m => s.entry m.ram va

/-- A new space that maps nothing. -/
def create : Attempt Space := do
  let root ← allocFrame
  zeroFrame root
  return ⟨root⟩

/-- Gives up the reference to the directory. -/
def releaseRoot (s : Space) : Kernel Unit :=
  release s.root

/-- The page table that covers an address, made and linked if there is none. -/
def ensureTable (s : Space) (va : VirtualAddress) : Attempt FrameId := do
  match ← s.findTable va with
  | some table => return table
  | none =>
    let table ← allocFrame
    zeroFrame table
    writeEntry s.root va.directorySlot (.link table)
    remark (.tableLinked table va)
    return table

/-- Changes the entry that covers an address, if a table does, and returns it. -/
def updateEntry (s : Space) (va : VirtualAddress) (change : Entry → Entry) :
    Kernel (Option Entry) := do
  match ← s.findTable va with
  | none => return none
  | some table =>
    let changed := change (← readEntry table va.tableSlot)
    writeEntry table va.tableSlot changed
    return some changed

/-- Maps a frame at the page of an address. The reference of the caller to the frame
becomes that of the entry, so a frame with any other count draws a remark. -/
def mapOne (s : Space) (frame : FrameId) (va : VirtualAddress) (flags : Entry) :
    Attempt Unit := do
  let count ← refCount? frame
  if count ≠ some 1 then
    remark (.sharedFrameMapped frame va count)
  let table ← s.ensureTable va
  let previous ← readEntry table va.tableSlot
  writeEntry table va.tableSlot (.make frame flags)
  if previous.present then
    remark (.mappingReplaced previous va)
    flush

end Space

end PagedMemory
