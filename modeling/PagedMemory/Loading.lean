import PagedMemory.Environment

/-!
# Loading pages of an image

A page of an image is read from four blocks of a device. Block number zero is a
hole and gives zeros without a read. A block that cannot be read ends the work;
the quarters before it have been stored by then. Bytes past the initialized data
are cleared afterwards.
-/

namespace PagedMemory

/-- The result of reading blocks into a frame: what the frame holds then, which blocks
were read, and the failure that ended the work early. -/
structure PageRead where
  frame : Frame
  reads : List BlockNumber
  failure : Option BlockError

/-- Stores one block after the other from `start` on. -/
def readBlocks (read : BlockNumber → Except BlockError Block) :
    Frame → Nat → List BlockNumber → PageRead
  | frame, _, [] => ⟨frame, [], none⟩
  | frame, start, block :: rest =>
    if block = 0 then
      readBlocks read (frame.write start (List.replicate blockBytes 0)) (start + blockBytes) rest
    else
      match read block with
      | .error cause => ⟨frame, [], some cause⟩
      | .ok bytes =>
        let result := readBlocks read (frame.write start bytes.toList) (start + blockBytes) rest
        { result with reads := block :: result.reads }

/-- Reads the blocks of a page into a frame, and answers with the failure if a block
cannot be read. -/
def readPage (env : Environment) (device : DeviceId) (blocks : List BlockNumber)
    (page : FrameId) : Kernel (Option BlockError) := do
  let before ← readFrame page
  let result := readBlocks (env.readBlock device) before 0 blocks
  modifyFrame page fun _ => result.frame
  result.reads.forM (recordRead device)
  return result.failure

/-- Loads the page at an offset of an image into a frame. -/
def loadPage (env : Environment) (image : Image) (executable : ExecutableId) (offset : Nat)
    (page : FrameId) : Attempt Unit := do
  let device := env.device executable
  let blocks := (Image.blocks offset).map (env.blockMap executable)
  remark (.blocksWanted executable offset blocks device)
  match ← readPage env device blocks page with
  | some cause => fail (.imageRead cause)
  | none => modifyFrame page fun bytes => bytes.clearFrom (4096 - image.tailLength offset)

end PagedMemory
