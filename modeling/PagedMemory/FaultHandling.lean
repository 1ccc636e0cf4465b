import PagedMemory.Loading
import PagedMemory.Sharing

/-!
# Answering faults

A write to a page that is present but read-only makes the entry writable if the
frame has no other reference, and gives the process a copy of its own otherwise.
A page that is missing is cleared memory if no executable backs it; an image page
is shared with another process if possible and read from the device otherwise.

A fault that cannot be answered ends the process that raised it.
-/

namespace PagedMemory

/-- Answers a write to a page that is present; there is no answer if none is. -/
def unsharePage (space : Space) (address : VirtualAddress) : Attempt (Option Resolution) := do
  match ← space.findEntry address with
  | none => return none
  | some entry =>
    if !entry.present then
      return none
    else if entry.writable then
      flush
      return some .spurious
    else if (← refCount? entry.frame) = some 1 then
      discard (space.updateEntry address Entry.madeWritable)
      flush
      return some .madeWritable
    else
      let copy ← allocFrame
      copyFrame entry.frame copy
      -- A copy of changed data must not pass as a clean image page.
      let flags := { Entry.userWritable with dirty := entry.dirty }
      discard (space.updateEntry address fun _ => .make copy flags)
      release entry.frame
      flush
      return some .copied

/-- Maps a page without backing at the page of an address. -/
def mapEmptyPage (space : Space) (address : VirtualAddress) : Attempt Unit := do
  let page ← allocFrame
  if (← currentConfig).zeroFill then
    zeroFrame page
  undoing (release page) (space.mapOne page (address.alignDown .small) .userWritable)

/-- Maps an image page that is read from the device. -/
def mapLoadedPage (env : Environment) (space : Space) (image : Image)
    (executable : ExecutableId) (offset : Nat) (address : VirtualAddress) : Attempt Unit := do
  let page ← allocFrame
  undoing (release page) do
    loadPage env image executable offset page
    space.mapOne page address .userWritable

/-- Finds a peer to share an image page with, if pages are to be shared. -/
def findShared (env : Environment) (pid : Pid) (space : Space) (image : Image)
    (executable : ExecutableId) (offset : Nat) : Attempt Bool := do
  if (← currentConfig).sharing then
    sharePage env pid space image executable offset
  else
    return false

/-- Fills the page of an address that is not mapped. -/
def fillPage (env : Environment) (pid : Pid) (space : Space) (address : VirtualAddress) :
    Attempt Resolution := do
  let start := address.alignDown .small
  match env.image pid with
  | none => fail .unknownProcess
  | some image =>
    match image.source? start with
    | none =>
      mapEmptyPage space start
      return .anonymous
    | some (executable, offset) =>
      if ← findShared env pid space image executable offset then
        return .shared
      else
        mapLoadedPage env space image executable offset start
        return .loaded

def resolveFault (env : Environment) (kind : FaultKind) (address : VirtualAddress) :
    Attempt Resolution := do
  match env.addressSpace env.current with
  | none => fail .unknownProcess
  | some space =>
    match kind with
    | .writeProtect =>
      match ← unsharePage space address with
      | some resolution => return resolution
      | none => fillPage env env.current space address
    | .notPresent =>
      match ← space.findEntry address with
      | some entry =>
        if entry.present then
          flush
          return .spurious
        else
          fillPage env env.current space address
      | none => fillPage env env.current space address

/-- Answers a fault of the current process, or ends the process. -/
def handleFault (env : Environment) (kind : FaultKind) (address : VirtualAddress) :
    Attempt Resolution := ExceptT.mk do
  match ← outcome (resolveFault env kind address) with
  | .ok resolution =>
    remark (.faultResolved kind address env.current resolution)
    return .ok resolution
  | .error cause =>
    remark (.faultFailed kind address env.current cause)
    terminate env.current cause
    return .error cause

end PagedMemory
