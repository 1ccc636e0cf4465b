import PagedMemory.Entry
import PagedMemory.Layout
import PagedMemory.Slot

/-!
# Reasons to stop

A broken rule of the kernel itself is not an error that a caller can handle: the
kernel stops. Each constructor of `Halt` is one such rule, with what its message
names. The checked constructors at the end stop on numbers that are out of range.
-/

namespace PagedMemory

/-- The two operations that take a range of directory slots. -/
inductive RangeOperation
  | clone
  | free
deriving DecidableEq

def RangeOperation.text : RangeOperation → String
  | clone => "clone_range"
  | free => "free_range"

inductive Halt
  /-- A sum left its word or a difference went below zero. -/
  | overflow
  /-- A frame copy reached past the end of memory. -/
  | copyOutside
  /-- A slot number of 1024 or more. -/
  | slotOutOfRange
  | pageOutOfRange
  | offsetOutOfRange
  | availableBitsOutOfRange
  | invalidLayout (cause : LayoutError)
  | outsideMemory (frame : FrameId)
  | retainNonexistent (frame : FrameId)
  | retainFree (frame : FrameId)
  | freeNonexistent (frame : FrameId)
  | freeFree (frame : FrameId)
  | countOverflow (frame : FrameId)
  | rangeMisaligned (operation : RangeOperation) (start : VirtualAddress)
  | rangeTooLong (operation : RangeOperation) (start : VirtualAddress) (size : Nat)
  | slotOccupied (slot : Slot)
  | sharedOntoPage
  | tooManyArgumentPages (count : Nat)
  | accessWraps (address : VirtualAddress)
  | faultRecurs (address : VirtualAddress)
deriving DecidableEq

namespace Halt

/-- What the kernel says when it stops; a failed check of the arithmetic is silent. -/
def message? : Halt → Option String
  | overflow | copyOutside | slotOutOfRange => none
  | pageOutOfRange => some "page index out of range"
  | offsetOutOfRange => some "offset must be < page size"
  | availableBitsOutOfRange => some "value out of bounds [0, 7]"
  | invalidLayout cause => some ("invalid memory layout: " ++ cause.message)
  | outsideMemory f => some ("frame " ++ f.text ++ " is outside physical memory")
  | retainNonexistent f => some ("trying to retain nonexistent page " ++ f.text)
  | retainFree f => some ("trying to retain free page " ++ f.text)
  | freeNonexistent f => some ("trying to free nonexistent page " ++ f.text)
  | freeFree f => some ("trying to free free page " ++ f.text)
  | countOverflow f => some ("reference count overflow on " ++ f.text)
  | rangeMisaligned operation start =>
    some (operation.text ++ " called with wrong alignment: " ++ start.text)
  | rangeTooLong operation start size =>
    some (operation.text ++ ": range " ++ start.text ++ "+" ++ Text.hexLower 0 size ++
      " exceeds the linear address space")
  | slotOccupied slot =>
    some ("clone_range: directory slot " ++ toString slot.val ++ " already exists")
  | sharedOntoPage => some "try_to_share: to_page already exists"
  | tooManyArgumentPages count => some ("too many argument pages: " ++ toString count)
  | accessWraps address => some ("user access at " ++ address.text ++ " wraps around")
  | faultRecurs address => some ("fault at " ++ address.text ++ " keeps recurring")

end Halt

def Page.ofIndex {kind : AddressKind} {size : PageSize} (n : Nat) :
    Except Halt (Page kind size) :=
  match Page.ofIndex? n with
  | some p => .ok p
  | none => .error .pageOutOfRange

def Offset.ofValue {size : PageSize} (n : Nat) : Except Halt (Offset size) :=
  match Offset.ofValue? n with
  | some o => .ok o
  | none => .error .offsetOutOfRange

def Slot.ofNat (n : Nat) : Except Halt Slot :=
  match Slot.ofNat? n with
  | some i => .ok i
  | none => .error .slotOutOfRange

/-- The entry with other bits for the use of the kernel. -/
def Entry.withAvailable (e : Entry) (n : Nat) : Except Halt Entry :=
  if h : n < 8 then .ok { e with osAvailable := ⟨n, h⟩ } else .error .availableBitsOutOfRange

def Address.add {kind : AddressKind} (a : Address kind) (n : Nat) :
    Except Halt (Address kind) :=
  match a.add? n with
  | some b => .ok b
  | none => .error .overflow

end PagedMemory
