import PagedMemory.Environment

/-!
# Sharing clean pages

Processes that run the same executable can share the image pages which none of
them has written to. Both entries become read-only, so that a later write by
either side is answered with a copy.
-/

namespace PagedMemory

/-- Maps the page at an address of one space at an address of another, where nothing
may be mapped yet. Only a clean page of a tracked frame is shared. -/
def tryToShare (source : Space) (address : VirtualAddress) (target : Space)
    (goal : VirtualAddress) : Attempt Bool := do
  match ← source.findEntry address with
  | none => return false
  | some entry =>
    let tracked ← manages entry.frame
    if !(entry.isClean && tracked) then
      return false
    let table ← target.ensureTable goal
    let previous ← readEntry table goal.tableSlot
    if previous.present then
      halt .sharedOntoPage
    let shared := entry.writeProtected
    discard (source.updateEntry address fun _ => shared)
    writeEntry table goal.tableSlot shared
    flush
    retain entry.frame
    return true

/-- Asks one peer after the other for the page. -/
def shareFirst (pid : Pid) (executable : ExecutableId) (offset : Nat) (space : Space)
    (goal : VirtualAddress) : List (Pid × Space × VirtualAddress) → Attempt Bool
  | [] => return false
  | (other, peer, address) :: rest => do
    if ← tryToShare peer address space goal then
      remark (.pageShared pid executable offset other)
      return true
    else
      shareFirst pid executable offset space goal rest

/-- Finds a peer that shares the page at an offset of the image. An executable that
only one process holds open has none. -/
def sharePage (env : Environment) (pid : Pid) (space : Space) (image : Image)
    (executable : ExecutableId) (offset : Nat) : Attempt Bool :=
  if env.openCount executable < 2 then
    return false
  else
    match image.startCode.add? offset with
    | none => return false
    | some goal =>
      shareFirst pid executable offset space goal (env.peers pid executable offset)

end PagedMemory
