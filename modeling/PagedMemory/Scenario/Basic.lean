import PagedMemory.Audit
import PagedMemory.Boot
import PagedMemory.Space.Lifecycle
import PagedMemory.Scenario.Table
import PagedMemory.UserAccess

/-!
# Scenarios

A scenario puts a machine together with processes, executables and a disk, so that
the memory manager can be driven step by step. Each process owns a stretch of 64
MiB of linear addresses that starts where its image does. The disk has every
block, and a byte of it follows from its place; blocks can be made to fail.

Ending a process for a fault only leaves a note in the journal: what becomes of
the process is decided by later steps.
-/

namespace PagedMemory

structure Executable where
  device : DeviceId
  blocks : List BlockNumber
  /-- The logical block of the first listed block. -/
  skip : Nat
  openCount : Nat

structure Process where
  space : Option Space
  image : Option Image

structure Scenario where
  machine : Machine
  executables : Table Executable
  processes : Table Process
  failing : List BlockNumber
  /-- Processes are asked to share from the highest number down. -/
  descending : Bool
  /-- Pages taken out of circulation, the last one first. -/
  hogged : List FrameId

/-- A step of a scenario: it changes the scenario or stops the kernel. -/
abbrev Step := StateT Scenario (Except Halt)

namespace Executable

/-- The block of the device for a logical block, zero where there is none. -/
def blockAt (x : Executable) (logical : Nat) : BlockNumber :=
  if x.skip ≤ logical then x.blocks.getD (logical - x.skip) 0 else 0

end Executable

/-- The bytes of a block on the disk: none is zero. -/
def diskBlock (device : DeviceId) (block : BlockNumber) : Block :=
  Vector.ofFn fun i : Fin 1024 => UInt8.ofNat ((block * 7 + device + i.val) % 251 + 1)

/-- The disk with some blocks that cannot be read. -/
def readDisk (failing : List BlockNumber) (device : DeviceId) (block : BlockNumber) :
    Except BlockError Block :=
  if failing.contains block then .error ⟨device, block⟩ else .ok (diskBlock device block)

/-- What processes, executables and a disk answer on behalf of a process. -/
def scriptedEnvironment (executables : Table Executable) (processes : Table Process)
    (failing : List BlockNumber) (descending : Bool) (current : Pid) : Environment where
  current := current
  processes := if descending then processes.keys.reverse else processes.keys
  addressSpace pid := (processes.find? pid).bind Process.space
  image pid := (processes.find? pid).bind Process.image
  openCount x := ((executables.find? x.number).map Executable.openCount).getD 0
  device x := ((executables.find? x.number).map Executable.device).getD 0
  blockMap x logical := ((executables.find? x.number).map fun e => e.blockAt logical).getD 0
  readBlock := readDisk failing

namespace Scenario

def start (machine : Machine) (descending : Bool) : Scenario :=
  ⟨machine, .empty, .empty, [], descending, []⟩

end Scenario

namespace Step

variable {α : Type}

/-- Lets the machine work. -/
def kernel (op : Kernel α) : Step α := fun s =>
  match s with
  | ⟨machine, executables, processes, failing, descending, hogged⟩ =>
    match op machine with
    | .ok (a, machine) => .ok (a, ⟨machine, executables, processes, failing, descending, hogged⟩)
    | .error cause => .error cause

/-- Lets the machine work on behalf of a process. -/
def user (pid : Pid) (op : Environment → Attempt α) : Step (Except MemoryError α) := fun s =>
  match s with
  | ⟨machine, executables, processes, failing, descending, hogged⟩ =>
    let env := scriptedEnvironment executables processes failing descending pid
    match outcome (op env) machine with
    | .ok (a, machine) => .ok (a, ⟨machine, executables, processes, failing, descending, hogged⟩)
    | .error cause => .error cause

/-- Lets the machine work on something that may fail. -/
def attempt (op : Attempt α) : Step (Except MemoryError α) :=
  kernel (outcome op)

def setExecutable (x : ExecutableId) (e : Executable) : Step Unit :=
  modify fun s => { s with executables := s.executables.insert x.number e }

def setFailing (blocks : List BlockNumber) : Step Unit :=
  modify fun s => { s with failing := blocks }

def setProcess (pid : Pid) (p : Process) : Step Unit :=
  modify fun s => { s with processes := s.processes.insert pid p }

def findProcess (pid : Pid) : Step (Option Process) := fun s =>
  .ok (s.processes.find? pid, s)

/-- Forgets a process, and says whether it was known. -/
def dropProcess (pid : Pid) : Step Bool := do
  let known := (← findProcess pid).isSome
  modify fun s => { s with processes := s.processes.erase pid }
  return known

/-- Changes how many processes hold the executable of an image open. -/
def countOpen (image : Image) (change : Nat → Nat) : Step Unit :=
  match image.executable with
  | none => pure ()
  | some x =>
    modify fun s => { s with
      executables := s.executables.modify x.number fun e =>
        { e with openCount := change e.openCount } }

/-- Starts a process that runs an image in a new space, a clone of its parent's if
there is one. -/
def startProcess (pid : Pid) (image : Image) (parent : Option Space) :
    Step (Except MemoryError Space) := do
  match ← attempt (Space.createFrom parent image.startCode taskSize) with
  | .error cause => return .error cause
  | .ok space =>
    countOpen image (· + 1)
    setProcess pid ⟨some space, some image⟩
    return .ok space

/-- The place where the image of a process starts unless it says otherwise. -/
def defaultStart (pid : Pid) : Step VirtualAddress :=
  kernel (demand (Address.zero.add (pid * taskSize)))

def spawn (pid : Pid) (image : Image) : Step (Except MemoryError Space) :=
  startProcess pid image none

/-- Starts a process as a copy of another one; there is no result if that one has no
space or no image. -/
def fork (parent child : Pid) : Step (Option (Except MemoryError Space)) := do
  match ← findProcess parent with
  | some ⟨some space, some image⟩ => return some (← startProcess child image (some space))
  | _ => return none

/-- Ends a process and frees its stretch of addresses. Says whether there was one. -/
def exit (pid : Pid) : Step Bool := do
  match ← findProcess pid with
  | some ⟨some space, some image⟩ =>
    discard (dropProcess pid)
    kernel (space.destroy image.startCode taskSize)
    countOpen image (· - 1)
    return true
  | _ => return false

/-- Takes so many pages out of circulation, as long as there are free ones. -/
def hogPages : Nat → Step Unit
  | 0 => return ()
  | n + 1 => do
    match ← attempt allocPage with
    | .error _ => return ()
    | .ok page =>
      modify fun s => { s with hogged := page :: s.hogged }
      hogPages n

/-- Takes pages out of circulation until so many are left, and says how many are out. -/
def hog (leave : Nat) : Step Nat := do
  let free ← kernel (inspect fun m => .ok (m.pool.counts.count 0))
  hogPages (free - leave)
  return (← get).hogged.length

/-- Frees pages in turn. -/
def freePages : List FrameId → Kernel Unit
  | [] => return ()
  | page :: rest => do
    release page
    freePages rest

/-- Gives back the pages that were taken last, at most so many, and says how many. -/
def unhog (n : Option Nat) : Step Nat := do
  let hogged := (← get).hogged
  let count := min (n.getD hogged.length) hogged.length
  modify fun s => { s with hogged := s.hogged.drop count }
  kernel (freePages (hogged.take count))
  return count

/-- The spaces of all processes, in ascending order of process. -/
def liveSpaces : Step (List Space) := fun s =>
  .ok (s.processes.values.filterMap Process.space, s)

/-- Empties the journal of the machine. -/
def forgetJournal : Step Unit :=
  modify fun s => { s with machine := s.machine.forget }

end Step

end PagedMemory
