import PagedMemory.FaultHandling

/-!
# Access to user memory

The kernel reaches the memory of the current process page by page, through the
tables of the process. A page that is missing or must not be written raises the
fault that the process itself would have raised, after which the access is tried
again. Each access leaves its trace in the entry, as the processor would.
-/

namespace PagedMemory

/-- A stretch of a buffer that lies in one page of user memory. -/
structure Chunk where
  start : Nat
  length : Nat
deriving DecidableEq

/-- Cuts a buffer that is copied to or from an address at the page boundaries of user
memory. Piece `i` is what lies in the page `i` pages after the first one. -/
def pageChunks (address : VirtualAddress) (length : Nat) : List Chunk :=
  let inset := address.value % 4096
  let pages := if length = 0 then 0 else (inset + length + 4095) / 4096
  (List.range pages).map fun i =>
    let start := i * 4096 - inset
    ⟨start, min ((i + 1) * 4096 - inset) length - start⟩

/-- Stops if the bytes do not all lie below 4 GiB. -/
def requireNoWrap (address : VirtualAddress) (length : Nat) : Kernel Unit :=
  if address.value + length ≤ 4294967296 then pure () else halt (.accessWraps address)

/-- How often an access is tried. -/
def maxTries : Nat := 3

/-- The fault that an access to a page raises, if it does. -/
def faultOf (entry : Entry) (write : Bool) : Option FaultKind :=
  if !entry.present then some .notPresent
  else if write && !entry.writable then some .writeProtect
  else none

/-- Tries an access at most so many times, and gives the frame that was reached. -/
def accessWithin (env : Environment) (va : VirtualAddress) (write : Bool) :
    Nat → Attempt FrameId
  | 0 => halt (.faultRecurs va)
  | tries + 1 =>
    match env.addressSpace env.current with
    | none => fail .unknownProcess
    | some space => do
      let found ← space.findEntry va
      let entry := found.getD .zero
      match faultOf entry write with
      | none =>
        discard (space.updateEntry va (Entry.touched write))
        return entry.frame
      | some kind =>
        discard (handleFault env kind va)
        accessWithin env va write tries

/-- The frame behind an address of the current process, ready to be accessed. -/
def access (env : Environment) (va : VirtualAddress) (write : Bool) : Attempt FrameId :=
  accessWithin env va write maxTries

/-- Stores one piece of a buffer in user memory. -/
def copyChunkOut (env : Environment) (address : VirtualAddress) (bytes : List UInt8)
    (chunk : Chunk) : Attempt Unit := do
  let va := address.wrappingAdd chunk.start
  let page ← access env va true
  modifyFrame page fun frame =>
    frame.write (va.offset .small).value ((bytes.drop chunk.start).take chunk.length)

/-- Fetches one piece of a buffer from user memory. -/
def copyChunkIn (env : Environment) (address : VirtualAddress) (chunk : Chunk) :
    Attempt (List UInt8) := do
  let va := address.wrappingAdd chunk.start
  let page ← access env va false
  let frame ← readFrame page
  return Frame.read frame (va.offset .small).value chunk.length

/-- Copies bytes to an address of the current process. -/
def copyToUser (env : Environment) (address : VirtualAddress) (bytes : List UInt8) :
    Attempt Unit := do
  requireNoWrap address bytes.length
  (pageChunks address bytes.length).forM (copyChunkOut env address bytes)

/-- Copies bytes from an address of the current process. -/
def copyFromUser (env : Environment) (address : VirtualAddress) (length : Nat) :
    Attempt (List UInt8) := do
  requireNoWrap address length
  let pieces ← (pageChunks address length).mapM (copyChunkIn env address)
  return pieces.flatten

/-- The pages that a range touches, as far as they lie below 4 GiB. An empty range that
starts inside a page touches that page. -/
def touchedPages (address : VirtualAddress) (size : Nat) : List VirtualAddress :=
  let start := address.alignDown .small
  let wanted := (address.value - start.value + size + 4095) / 4096
  let left := (4294967296 - start.value) / 4096
  (List.range (min wanted left)).map fun i => start.wrappingAdd (4096 * i)

/-- Makes a page writable if it is present and read-only. -/
def verifyPage (env : Environment) (space : Space) (va : VirtualAddress) : Attempt Unit := do
  match ← space.findEntry va with
  | none => return ()
  | some entry =>
    if entry.present && !entry.writable then
      discard (handleFault env .writeProtect va)

/-- Makes every page of a range that is present writable, ahead of kernel writes that
the processor would not check. -/
def verifyArea (env : Environment) (address : VirtualAddress) (size : Nat) : Attempt Unit :=
  match env.addressSpace env.current with
  | none => fail .unknownProcess
  | some space => (touchedPages address size).forM (verifyPage env space)

end PagedMemory
