import PagedMemory.Space.Basic

/-!
# What the memory manager asks of the rest of the kernel

The manager owns memory but neither processes nor executables nor disks. An
environment answers its questions about them. It stays the same during one
operation; what the operation does to it in turn, ending a process or reading a
block, is kept in the journal of the machine.
-/

namespace PagedMemory

structure Environment where
  /-- The process on whose behalf the kernel runs. -/
  current : Pid
  /-- The processes that are asked to share a page, in order. -/
  processes : List Pid
  addressSpace : Pid → Option Space
  image : Pid → Option Image
  /-- How many processes hold an executable open. -/
  openCount : ExecutableId → Nat
  device : ExecutableId → DeviceId
  /-- The block of the device for a logical block; zero for a hole. -/
  blockMap : ExecutableId → Nat → BlockNumber
  readBlock : DeviceId → BlockNumber → Except BlockError Block

namespace Environment

/-- The other processes that run an executable, each with its space and the address
in it that belongs to an offset into the image. -/
def peers (env : Environment) (pid : Pid) (executable : ExecutableId) (offset : Nat) :
    List (Pid × Space × VirtualAddress) :=
  env.processes.filterMap fun other =>
    if other = pid then none
    else
      match env.image other, env.addressSpace other with
      | some image, some space =>
        if image.executable = some executable then
          (image.startCode.add? offset).map fun address => (other, space, address)
        else none
      | _, _ => none

end Environment

end PagedMemory
