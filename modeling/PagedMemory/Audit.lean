import PagedMemory.Space.Walk

/-!
# Audit of the reference counts

The audit compares the count of every frame with the references that a list of
spaces makes to it: as a directory, as a page table, and as a mapped page. Frames
in use are compared first, in ascending order; then a frame is reported that is
referenced although it is free or reserved.
-/

namespace PagedMemory

structure CountMismatch where
  frame : FrameId
  expected : Nat
  actual : Nat
deriving DecidableEq

def CountMismatch.message (m : CountMismatch) : String :=
  "frame " ++ m.frame.text ++ " has reference count " ++ toString m.actual ++ " but " ++
    toString m.expected ++ " references"

namespace Space

/-- The frames that a space refers to, once for each reference. -/
def references (s : Space) (r : Ram) : Except Halt (List FrameId) :=
  match s.tables r, s.mappings r with
  | .ok tables, .ok mappings =>
    .ok (s.root :: (tables.map Prod.snd ++ mappings.map fun mapping => mapping.2.frame))
  | .error cause, _ => .error cause
  | _, .error cause => .error cause

end Space

/-- The tracked frames that are referenced although they are free or reserved, in
ascending order. -/
def strayFrames (p : FramePool) (references : List FrameId) : List FrameId :=
  ((List.finRange p.counts.size).filter fun i =>
    (i.val < p.layout.reservedFrames || p.count (p.frame i) == 0) &&
      references.contains (p.frame i)).map p.frame

/-- The first frame whose count differs from the references made to it. -/
def firstMismatch (p : FramePool) (references : List FrameId) : Option CountMismatch :=
  match p.allocated.find? fun entry => references.count entry.1 != entry.2 with
  | some (f, actual) => some ⟨f, references.count f, actual⟩
  | none =>
    (strayFrames p references).head?.map fun f => ⟨f, references.count f, p.count f⟩

/-- Checks the counts against a list of spaces. -/
def checkCounts (spaces : List Space) (m : Machine) : Except Halt (Option CountMismatch) :=
  (spaces.mapM fun s : Space => s.references m.ram).map fun lists =>
    firstMismatch m.pool lists.flatten

structure MemoryReport where
  frames : FrameStats
  tables : List (Slot × Nat)
deriving DecidableEq

/-- How many pages each table of a space maps. -/
def Space.usage (s : Space) (r : Ram) : Except Halt (List (Slot × Nat)) :=
  match s.tables r with
  | .ok linked => linked.mapM fun l => (r.frame l.2).map fun table => (l.1, table.presentCount)
  | .error cause => .error cause

/-- Reports the free frames and what each table of a space uses. -/
def reportMemory (s : Space) : Kernel MemoryReport := do
  let frames ← inspect fun m => m.pool.stats
  remark (.freeFrames frames.free frames.total)
  let tables ← inspect fun m => s.usage m.ram
  tables.forM fun (slot, used) => remark (.tableUsage slot used)
  return ⟨frames, tables⟩

end PagedMemory
