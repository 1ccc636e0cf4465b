import PagedMemory.Image

/-!
# Faults

What the processor reports when a page cannot be accessed, how the kernel
answered it, and why it may be unable to.
-/

namespace PagedMemory

inductive FaultKind
  | writeProtect
  | notPresent
deriving DecidableEq

def FaultKind.text : FaultKind → String
  | writeProtect => "WriteProtect"
  | notPresent => "NotPresent"

/-- The error code of a fault. The 27 high bits are kept as they are. -/
structure FaultCode where
  present : Bool
  write : Bool
  user : Bool
  reservedBit : Bool
  instructionFetch : Bool
  rest : Nat
deriving DecidableEq

namespace FaultCode

def ofWord (w : Nat) : FaultCode where
  present := w % 2 == 1
  write := w / 2 % 2 == 1
  user := w / 4 % 2 == 1
  reservedBit := w / 8 % 2 == 1
  instructionFetch := w / 16 % 2 == 1
  rest := w / 32

def toWord (c : FaultCode) : Nat :=
  c.present.toNat + 2 * c.write.toNat + 4 * c.user.toNat + 8 * c.reservedBit.toNat +
    16 * c.instructionFetch.toNat + 32 * c.rest

private theorem toNat_beq_one (x : Nat) : (x % 2 == 1).toNat = x % 2 := by
  rcases Nat.mod_two_eq_zero_or_one x with h | h <;> simp [h]

@[simp] theorem toWord_ofWord (w : Nat) : (ofWord w).toWord = w := by
  simp only [ofWord, toWord, toNat_beq_one]
  omega

/-- A fault on a page that is present can only be one of rights. -/
def kind (c : FaultCode) : FaultKind :=
  if c.present then .writeProtect else .notPresent

def explain (c : FaultCode) : String :=
  if !c.present then "Non-present page"
  else if c.write then
    if c.user then "User-mode write to read-only page" else "Kernel write to read-only page"
  else if c.reservedBit then "Reserved bit set in paging structure"
  else "Read access to protected page"

/-- The text that names every field. -/
def fieldsText (c : FaultCode) : String :=
  "PageFaultError \x7b present: " ++ toString c.present ++
    ", write: " ++ toString c.write ++
    ", user: " ++ toString c.user ++
    ", reserved_bit: " ++ toString c.reservedBit ++
    ", instruction_fetch: " ++ toString c.instructionFetch ++ " \x7d"

end FaultCode

/-- How a fault was answered. -/
inductive Resolution
  | madeWritable
  | copied
  | spurious
  | anonymous
  | shared
  | loaded
deriving DecidableEq

def Resolution.text : Resolution → String
  | madeWritable => "MadeWritable"
  | copied => "Copied"
  | spurious => "Spurious"
  | anonymous => "Anonymous"
  | shared => "Shared"
  | loaded => "Loaded"

inductive MemoryError
  | outOfMemory
  | imageRead (cause : BlockError)
  | unknownProcess
deriving DecidableEq

namespace MemoryError

def name : MemoryError → String
  | outOfMemory => "OutOfMemory"
  | imageRead _ => "ImageRead"
  | unknownProcess => "UnknownProcess"

def message : MemoryError → String
  | outOfMemory => "out of memory"
  | imageRead cause => "cannot read executable image: " ++ cause.message
  | unknownProcess => "no process descriptor for the current task"

end MemoryError

end PagedMemory
