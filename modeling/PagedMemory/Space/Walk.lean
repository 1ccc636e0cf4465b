import PagedMemory.Space.Basic

/-!
# Walking a space

A walk lists the page tables of a space, or the pages that they map, in ascending
order of address. It only reads memory.
-/

namespace PagedMemory.Space

/-- The linked page tables with their directory slots. -/
def tables (s : Space) (r : Ram) : Except Halt (List (Slot × FrameId)) :=
  (r.frame s.root).map fun directory =>
    directory.presentEntries.map fun linked => (linked.1, linked.2.frame)

/-- The present entries of one page table with the addresses that they map. -/
def tableMappings (r : Ram) (linked : Slot × FrameId) :
    Except Halt (List (VirtualAddress × Entry)) :=
  (r.frame linked.2).map fun table =>
    table.presentEntries.map fun found => (Slot.join linked.1 found.1, found.2)

/-- The pages of the space with the entries that map them. -/
def mappings (s : Space) (r : Ram) : Except Halt (List (VirtualAddress × Entry)) :=
  match s.tables r with
  | .ok linked => (linked.mapM (tableMappings r)).map List.flatten
  | .error cause => .error cause

end PagedMemory.Space
