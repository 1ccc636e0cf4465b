import PagedMemory.Entry
import PagedMemory.Fault
import PagedMemory.Record
import PagedMemory.Slot

/-!
# Remarks of the memory manager

Each constructor of `Event` is one remark with the values it mentions. The
remark becomes a log record, with its level, target and wording, in `record`.
-/

namespace PagedMemory

/-- The number of a process. -/
abbrev Pid := Nat

inductive Event
  | memoryFound (bytes pagingStart : Nat)
  | framesAvailable (available total : Nat)
  | frameAllocated (frame : FrameId)
  | frameFreed (frame : FrameId)
  | tableLinked (table : FrameId) (va : VirtualAddress)
  | sharedFrameMapped (frame : FrameId) (va : VirtualAddress) (count : Option Nat)
  | mappingReplaced (previous : Entry) (va : VirtualAddress)
  | cloneRolledBack (start : VirtualAddress)
  | rangeCloned (start : VirtualAddress) (size : Nat) (parent child : FrameId)
  | rangeFreed (start : VirtualAddress) (size : Nat) (root : FrameId)
  | kernelMapped (bytes : Nat)
  | faultResolved (kind : FaultKind) (address : VirtualAddress) (pid : Pid) (how : Resolution)
  | faultFailed (kind : FaultKind) (address : VirtualAddress) (pid : Pid) (cause : MemoryError)
  | pageShared (pid : Pid) (executable : ExecutableId) (offset : Nat) (other : Pid)
  | blocksWanted (executable : ExecutableId) (offset : Nat) (blocks : List BlockNumber)
      (device : DeviceId)
  | freeFrames (free total : Nat)
  | tableUsage (slot : Slot) (used : Nat)
deriving DecidableEq

namespace Event

private def countText : Option Nat → String
  | none => "None"
  | some n => "Some(" ++ toString n ++ ")"

private def listText (ns : List Nat) : String :=
  "[" ++ String.intercalate ", " (ns.map toString) ++ "]"

private def rangeText (start : VirtualAddress) (size : Nat) : String :=
  start.text ++ "+" ++ Text.hexLower 0 size

private def faultText (kind : FaultKind) (address : VirtualAddress) (pid : Pid) : String :=
  kind.text ++ " fault at " ++ address.text ++ " in " ++ toString pid ++ ": "

private def offsetText (executable : ExecutableId) (offset : Nat) : String :=
  executable.text ++ "+" ++ Text.hexLower 0 offset

/-- The record that makes the remark. -/
def record : Event → Record
  | memoryFound bytes pagingStart =>
    ⟨.info, "kernel_mm::manager",
      "memory: " ++ Text.hexLower 0 bytes ++ " bytes, paging from " ++ Text.hexLower 0 pagingStart⟩
  | framesAvailable available total =>
    ⟨.debug, "kernel_alloc::frame_alloc",
      toString available ++ " of " ++ toString total ++ " frames available for paging"⟩
  | frameAllocated f => ⟨.trace, "kernel_alloc::frame_alloc", "alloc " ++ f.text⟩
  | frameFreed f => ⟨.trace, "kernel_alloc::frame_alloc", "free " ++ f.text⟩
  | tableLinked table va =>
    ⟨.trace, "kernel_vmem::address_space",
      "linked page table " ++ table.text ++ " for " ++ va.text⟩
  | sharedFrameMapped f va count =>
    ⟨.warn, "kernel_vmem::address_space",
      "mapping frame " ++ f.text ++ " at " ++ va.text ++ " with reference count " ++
        countText count⟩
  | mappingReplaced previous va =>
    ⟨.warn, "kernel_vmem::address_space",
      "replaced live mapping " ++ previous.tableText ++ " at " ++ va.text⟩
  | cloneRolledBack start =>
    ⟨.debug, "kernel_vmem::address_space",
      "clone_range: out of memory at " ++ start.text ++ ", rolling back"⟩
  | rangeCloned start size parent child =>
    ⟨.debug, "kernel_vmem::address_space",
      "cloned " ++ rangeText start size ++ " from " ++ parent.namedText ++ " into " ++
        child.namedText⟩
  | rangeFreed start size root =>
    ⟨.debug, "kernel_vmem::address_space",
      "freed " ++ rangeText start size ++ " in " ++ root.namedText⟩
  | kernelMapped bytes =>
    ⟨.debug, "kernel_mm::manager",
      "kernel space identity maps " ++ Text.hexLower 0 bytes ++ " bytes"⟩
  | faultResolved kind address pid how =>
    ⟨.trace, "kernel_mm::fault", faultText kind address pid ++ how.text⟩
  | faultFailed kind address pid cause =>
    ⟨.error, "kernel_mm::fault", faultText kind address pid ++ cause.message⟩
  | pageShared pid executable offset other =>
    ⟨.debug, "kernel_mm::share",
      toString pid ++ " shares " ++ offsetText executable offset ++ " with " ++ toString other⟩
  | blocksWanted executable offset blocks device =>
    ⟨.trace, "kernel_mm::demand",
      offsetText executable offset ++ ": reading blocks " ++ listText blocks ++ " from " ++
        Text.hexLower 4 device⟩
  | freeFrames free total =>
    ⟨.info, "kernel_mm::audit", toString free ++ "/" ++ toString total ++ " free pages"⟩
  | tableUsage slot used =>
    ⟨.info, "kernel_mm::audit",
      "Pg-dir[" ++ toString slot.val ++ "] uses " ++ toString used ++ " pages"⟩

end Event

end PagedMemory
