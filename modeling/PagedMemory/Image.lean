import PagedMemory.Layout

/-!
# Images and executables

A process runs an image: code and data that start at one linear address. The
first `endData` bytes are backed by an executable on a device, if there is one;
what lies above is memory that starts out zero. Block zero of an executable holds
its header, so page `n` of the image begins at logical block `1 + 4 * n`.
-/

namespace PagedMemory

structure ExecutableId where
  number : Nat
deriving DecidableEq

def ExecutableId.text (x : ExecutableId) : String :=
  "ExecutableId(" ++ toString x.number ++ ")"

abbrev DeviceId := Nat

abbrev BlockNumber := Nat

/-- The bytes of one block of a device. -/
abbrev Block := Vector UInt8 1024

structure BlockError where
  device : DeviceId
  block : BlockNumber
deriving DecidableEq

def BlockError.message (e : BlockError) : String :=
  "I/O error on device " ++ Text.hexLower 4 e.device ++ ", block " ++ toString e.block

structure Image where
  executable : Option ExecutableId
  startCode : VirtualAddress
  endCode : Nat
  endData : Nat
  brk : Nat
deriving DecidableEq

namespace Image

/-- The image of a process without an executable. -/
def anonymous (startCode : VirtualAddress) : Image :=
  ⟨none, startCode, 0, 0, 0⟩

/-- The position of an address in the image. -/
def offsetOf? (image : Image) (address : VirtualAddress) : Option Nat :=
  address.offsetFrom? image.startCode

/-- The executable that holds the byte at an offset. -/
def backing? (image : Image) (offset : Nat) : Option ExecutableId :=
  if offset < image.endData then image.executable else none

/-- The executable and offset behind an address, if an executable backs it. -/
def source? (image : Image) (address : VirtualAddress) : Option (ExecutableId × Nat) :=
  (image.offsetOf? address).bind fun offset =>
    (image.backing? offset).map fun executable => (executable, offset)

/-- The logical blocks of the page at an offset. -/
def blocks (offset : Nat) : List Nat :=
  (List.range blocksPerPage).map fun i => 1 + offset / blockBytes + i

/-- How many bytes at the end of the page at `offset` lie past the data. The end of
the page is taken no further than the last 32-bit number. -/
def tailLength (image : Image) (offset : Nat) : Nat :=
  min (min (offset + pageBytes) 4294967295 - image.endData) pageBytes

end Image

end PagedMemory
