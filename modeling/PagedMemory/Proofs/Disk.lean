import PagedMemory.Proofs.Paging

/-!
# What the disk holds

Executables do not change while processes run them, and neither does the disk. A `Disk`
says what every byte of every executable is; an environment reads from it (`Environment.
Reads`) if whatever it does read is what the disk holds. Reading may still fail at any
time.

A page that was read completely depends on the disk, the executable, the offset and the
end of the data alone (`loaded_eq_page`): neither what the frame held before nor who asked
for the page makes a difference.
-/

namespace PagedMemory

/-- A disk that never changes, with the executables on it. -/
structure Disk where
  device : ExecutableId → DeviceId
  blockMap : ExecutableId → Nat → BlockNumber
  block : DeviceId → BlockNumber → Block

namespace Disk

def zeroBlock : Block :=
  Vector.replicate 1024 0

theorem toList_zeroBlock : zeroBlock.toList = List.replicate blockBytes 0 :=
  Vector.toList_replicate

/-- The bytes behind a block number; number zero is a hole. -/
def content (d : Disk) (device : DeviceId) (block : BlockNumber) : Block :=
  if block = 0 then zeroBlock else d.block device block

/-- The byte of an executable at an offset. Its first block holds the header. -/
def byte (d : Disk) (executable : ExecutableId) (offset : Nat) : UInt8 :=
  (d.content (d.device executable) (d.blockMap executable (1 + offset / 1024)))[offset % 1024]

/-- The page of an executable at an offset, cleared from the end of the data on. -/
def page (d : Disk) (executable : ExecutableId) (image : Image) (offset : Nat) : Frame :=
  Vector.ofFn fun i =>
    if i.val < 4096 - image.tailLength offset then d.byte executable (offset + i.val) else 0

/-- Only the end of the data matters about an image. -/
theorem page_congr (d : Disk) {executable : ExecutableId} {image image' : Image} {offset : Nat}
    (ends : image.endData = image'.endData) :
    d.page executable image offset = d.page executable image' offset := by
  unfold page Image.tailLength
  rw [ends]

end Disk

/-- The environment finds executables where the disk has them and reads what it holds. -/
structure Environment.Reads (env : Environment) (d : Disk) : Prop where
  device : env.device = d.device
  blockMap : env.blockMap = d.blockMap
  block : ∀ device block bytes, env.readBlock device block = .ok bytes →
    bytes = d.block device block

namespace Frame

theorem write_append (f : Frame) (start : Nat) (xs ys : List UInt8) :
    f.write start (xs ++ ys) = (f.write start xs).write (start + xs.length) ys := by
  induction xs generalizing f start with
  | nil => rfl
  | cons x xs ih =>
    rw [List.cons_append, write, ih, List.length_cons, write, Nat.add_right_comm, Nat.add_assoc]

theorem getElem_clearFrom (f : Frame) (start j : Nat) (h : j < 4096) :
    (f.clearFrom start)[j] = if j < start then f[j] else 0 := by
  rw [clearFrom, getElem_write]
  by_cases before : j < start
  · rw [if_neg (Nat.not_le.mpr before), if_pos before]
  · rw [if_pos (Nat.not_lt.mp before), if_neg before, List.getElem?_replicate_of_lt (by omega)]
    rfl

end Frame

/-- Where no block fails, the first one is a hole or could be read, and the others follow. -/
theorem readBlocks_cases {read : BlockNumber → Except BlockError Block} {frame : Frame}
    {start : Nat} {block : BlockNumber} {rest : List BlockNumber}
    (complete : (readBlocks read frame start (block :: rest)).failure = none) :
    (block = 0 ∧ readBlocks read frame start (block :: rest) =
      readBlocks read (frame.write start (List.replicate blockBytes 0)) (start + blockBytes) rest) ∨
    (block ≠ 0 ∧ ∃ bytes, read block = .ok bytes ∧
      readBlocks read frame start (block :: rest) =
        { readBlocks read (frame.write start bytes.toList) (start + blockBytes) rest with
          reads := block ::
            (readBlocks read (frame.write start bytes.toList) (start + blockBytes) rest).reads }) := by
  rw [readBlocks] at complete ⊢
  split at complete
  · next hole => exact .inl ⟨hole, if_pos hole⟩
  · next stored =>
    rw [if_neg stored]
    cases got : read block with
    | error cause =>
      rw [got] at complete
      cases complete
    | ok bytes => exact .inr ⟨stored, bytes, rfl, rfl⟩

/-- Blocks that were all read are stored one after the other. -/
theorem readBlocks_frame {d : Disk} {device : DeviceId} {read : BlockNumber → Except BlockError Block}
    (faithful : ∀ block bytes, read block = .ok bytes → bytes = d.block device block)
    (frame : Frame) (start : Nat) (blocks : List BlockNumber)
    (complete : (readBlocks read frame start blocks).failure = none) :
    (readBlocks read frame start blocks).frame =
      frame.write start (blocks.flatMap fun block => (d.content device block).toList) := by
  induction blocks generalizing frame start with
  | nil => rfl
  | cons block rest ih =>
    obtain ⟨hole, same⟩ | ⟨stored, bytes, got, same⟩ := readBlocks_cases complete
    · rw [same] at complete ⊢
      rw [ih _ _ complete, List.flatMap_cons, Frame.write_append, Disk.content, if_pos hole,
        Disk.toList_zeroBlock, List.length_replicate]
    · rw [same] at complete ⊢
      dsimp only at complete ⊢
      rw [ih _ _ complete, List.flatMap_cons, Frame.write_append, Disk.content, if_neg stored,
        faithful block bytes got, Vector.length_toList]
      rfl

/-- Pieces of equal length are found by division. -/
theorem getElem?_flatMap_blocks (contents : BlockNumber → Block) (blocks : List BlockNumber)
    (j : Nat) :
    (blocks.flatMap fun block => (contents block).toList)[j]? =
      blocks[j / 1024]?.map fun block => (contents block)[j % 1024] := by
  induction blocks generalizing j with
  | nil => rfl
  | cons block rest ih =>
    rw [List.flatMap_cons]
    by_cases here : j < 1024
    · rw [List.getElem?_append_left (by rw [Vector.length_toList]; exact here),
        Nat.div_eq_of_lt here]
      simp [Nat.mod_eq_of_lt here, here]
    · have next : j / 1024 = (j - 1024) / 1024 + 1 := by omega
      have inset : (j - 1024) % 1024 = j % 1024 := by omega
      rw [List.getElem?_append_right (by rw [Vector.length_toList]; omega), Vector.length_toList, ih,
        next, List.getElem?_cons_succ]
      simp only [inset]

/-- Whatever the frame held before, a page that was read completely is that of the disk. -/
theorem Environment.Reads.loaded_eq_page {env : Environment} {d : Disk} (reads : env.Reads d)
    {image : Image} {executable : ExecutableId} {offset : Nat} (aligned : offset % 4096 = 0)
    {before : Frame} (complete : (env.pageRead executable offset before).failure = none) :
    env.loaded image executable offset before = d.page executable image offset := by
  have read := readBlocks_frame (reads.block _) before 0 _ complete
  unfold Environment.loaded
  refine Vector.ext fun j h => ?_
  rw [Frame.getElem_clearFrom, Environment.pageRead, read, Frame.getElem_write,
    if_pos (Nat.zero_le j), Nat.sub_zero, getElem?_flatMap_blocks, Disk.page, Vector.getElem_ofFn]
  refine if_congr Iff.rfl ?_ rfl
  have block : ((Image.blocks offset).map (env.blockMap executable))[j / 1024]? =
      some (d.blockMap executable (1 + (offset + j) / 1024)) := by
    have quarter : j / 1024 < blocksPerPage := by
      unfold blocksPerPage
      omega
    have number : 1 + offset / blockBytes + j / 1024 = 1 + (offset + j) / 1024 := by
      unfold blockBytes
      omega
    simp only [Image.blocks, List.getElem?_map, List.getElem?_range quarter, Option.map_some,
      reads.blockMap, number]
  have inset : (offset + j) % 1024 = j % 1024 := by omega
  rw [block, Option.map_some, Option.getD_some, reads.device]
  simp only [Disk.byte, inset]

/-! ## What the frame held before -/

/-- Which blocks are read, and which one cannot be read, depends on the blocks alone. -/
theorem readBlocks_congr (read : BlockNumber → Except BlockError Block) (frame frame' : Frame)
    (start : Nat) (blocks : List BlockNumber) :
    (readBlocks read frame start blocks).reads = (readBlocks read frame' start blocks).reads ∧
      (readBlocks read frame start blocks).failure =
        (readBlocks read frame' start blocks).failure := by
  induction blocks generalizing frame frame' start with
  | nil => exact ⟨rfl, rfl⟩
  | cons block rest ih =>
    unfold readBlocks
    split
    · exact ih _ _ _
    · cases read block with
      | error cause => exact ⟨rfl, rfl⟩
      | ok bytes =>
        obtain ⟨reads, failure⟩ := ih (frame.write start bytes.toList)
          (frame'.write start bytes.toList) (start + blockBytes)
        exact ⟨congrArg (List.cons block) reads, failure⟩

/-- Blocks are read completely if all but the holes can be read, each in its turn. -/
theorem readBlocks_complete {read : BlockNumber → Except BlockError Block} {frame : Frame}
    {start : Nat} {blocks : List BlockNumber}
    (complete : (readBlocks read frame start blocks).failure = none) :
    (readBlocks read frame start blocks).reads = blocks.filter (· ≠ 0) ∧
      ∀ block ∈ blocks, block ≠ 0 → ∃ bytes, read block = .ok bytes := by
  induction blocks generalizing frame start with
  | nil => exact ⟨rfl, nofun⟩
  | cons block rest ih =>
    obtain ⟨hole, same⟩ | ⟨stored, bytes, got, same⟩ := readBlocks_cases complete
    · rw [same] at complete ⊢
      obtain ⟨reads, readable⟩ := ih complete
      rw [List.filter_cons_of_neg (by simpa using hole)]
      refine ⟨reads, ?_⟩
      intro other mem stored
      cases mem with
      | head => exact absurd hole stored
      | tail _ mem => exact readable other mem stored
    · rw [same] at complete ⊢
      obtain ⟨reads, readable⟩ := ih complete
      rw [List.filter_cons_of_pos (by simpa using stored)]
      refine ⟨congrArg (List.cons block) reads, ?_⟩
      intro other mem stored'
      cases mem with
      | head => exact ⟨bytes, got⟩
      | tail _ mem => exact readable other mem stored'

namespace Environment

theorem reads_pageRead (env : Environment) (executable : ExecutableId) (offset : Nat)
    (before before' : Frame) :
    (env.pageRead executable offset before).reads = (env.pageRead executable offset before').reads :=
  (readBlocks_congr _ before before' 0 _).1

theorem failure_pageRead (env : Environment) (executable : ExecutableId) (offset : Nat)
    (before before' : Frame) : (env.pageRead executable offset before).failure =
      (env.pageRead executable offset before').failure :=
  (readBlocks_congr _ before before' 0 _).2

/-- The disk that an environment shows as far as it can be read. -/
def seen (env : Environment) : Disk where
  device := env.device
  blockMap := env.blockMap
  block device block :=
    match env.readBlock device block with
    | .ok bytes => bytes
    | .error _ => Disk.zeroBlock

theorem reads_seen (env : Environment) : env.Reads env.seen := by
  refine ⟨rfl, rfl, fun device block bytes got => ?_⟩
  simp only [seen, got]

/-- The four blocks of a page leave nothing of what the frame held before. -/
theorem loaded_congr (env : Environment) (image : Image) {executable : ExecutableId} {offset : Nat}
    {before : Frame} (before' : Frame)
    (complete : (env.pageRead executable offset before).failure = none) :
    env.loaded image executable offset before' = env.loaded image executable offset before := by
  have complete' : (env.pageRead executable offset before').failure = none :=
    (env.failure_pageRead executable offset before' before).trans complete
  have read := readBlocks_frame (env.reads_seen.block _) before 0 _ complete
  have read' := readBlocks_frame (env.reads_seen.block _) before' 0 _ complete'
  unfold loaded
  refine Vector.ext fun j h => ?_
  have quarter : j / 1024 < blocksPerPage := by
    unfold blocksPerPage
    omega
  rw [Frame.getElem_clearFrom, Frame.getElem_clearFrom, pageRead, pageRead, read, read',
    Frame.getElem_write, Frame.getElem_write, if_pos (Nat.zero_le j), if_pos (Nat.zero_le j),
    Nat.sub_zero, getElem?_flatMap_blocks]
  simp only [Image.blocks, List.getElem?_map, List.getElem?_range quarter, Option.map_some,
    Option.getD_some]

/-! ## Bytes of an executable -/

/-- What is found at an offset of an executable: zero where there is a hole, and the byte of
the block that the device returns elsewhere. The first block holds the header. -/
def imageByte (env : Environment) (executable : ExecutableId) (offset : Nat) :
    Except BlockError UInt8 :=
  if env.blockMap executable (1 + offset / 1024) = 0 then
    .ok 0
  else
    (env.readBlock (env.device executable) (env.blockMap executable (1 + offset / 1024))).map
      fun bytes => bytes[offset % 1024]

theorem mem_blocks {env : Environment} {executable : ExecutableId} {offset j : Nat}
    (aligned : offset % 4096 = 0) (h : j < 4096) :
    env.blockMap executable (1 + (offset + j) / 1024) ∈
      (Image.blocks offset).map (env.blockMap executable) := by
  apply List.mem_map_of_mem
  apply List.mem_map.mpr
  refine ⟨j / 1024, List.mem_range.mpr ?_, ?_⟩
  · unfold blocksPerPage
    omega
  · unfold blockBytes
    omega

/-- The bytes of a page that was read completely have all been found. -/
theorem imageByte_eq {env : Environment} {executable : ExecutableId} {offset j : Nat}
    {before : Frame} (aligned : offset % 4096 = 0) (h : j < 4096)
    (complete : (env.pageRead executable offset before).failure = none) :
    env.imageByte executable (offset + j) = .ok (env.seen.byte executable (offset + j)) := by
  unfold imageByte Disk.byte Disk.content
  split
  · next hole =>
    simp only [seen, hole, if_pos]
    simp [Disk.zeroBlock]
  · next stored =>
    obtain ⟨bytes, got⟩ := (readBlocks_complete complete).2 _ (mem_blocks aligned h) stored
    simp only [seen, if_neg stored, got]
    rfl

/-- A loaded page holds the bytes of the executable up to the tail, and zeros from there on. -/
theorem getElem_loaded {env : Environment} {image : Image} {executable : ExecutableId}
    {offset j : Nat} {before : Frame} (aligned : offset % 4096 = 0) (h : j < 4096)
    (complete : (env.pageRead executable offset before).failure = none) :
    (env.loaded image executable offset before)[j] =
      if j < 4096 - image.tailLength offset then env.seen.byte executable (offset + j) else 0 := by
  rw [env.reads_seen.loaded_eq_page aligned complete, Disk.page, Vector.getElem_ofFn]

end Environment

/-! ## Loading a page -/

section Loading

variable {env : Environment} {device : DeviceId} {blocks : List BlockNumber} {page : FrameId}
  {m m' : Machine}

theorem recordReads_ram (run : blocks.forM (recordRead device) m = .ok ((), m')) :
    m'.ram = m.ram := by
  have kept : Ends (blocks.forM (recordRead device)) m (fun _ => True)
      fun _ m' => m'.ram = m.ram := by
    refine Ends.forM (fun _ m' => m'.ram = m.ram) ?_ blocks m rfl
    intro block rest m₁ same
    exact Ends.intro rfl same
  exact kept.of_run run

theorem readPage_bytes {failure : Option BlockError}
    (run : readPage env device blocks page m = .ok (failure, m')) : page.index < m'.ram.size ∧
      m'.ram.bytes page = (readBlocks (env.readBlock device) (m.ram.bytes page) 0 blocks).frame ∧
      failure = (readBlocks (env.readBlock device) (m.ram.bytes page) 0 blocks).failure := by
  obtain ⟨before, m₁, looked, rest⟩ := bind_eq_ok_iff.mp run
  obtain ⟨seen, rfl⟩ := inspect_eq_ok_iff.mp looked
  obtain ⟨_, m₂, stored, rest'⟩ := bind_eq_ok_iff.mp rest
  obtain ⟨inside, rfl⟩ := modifyFrame_eq_ok_iff.mp stored
  obtain ⟨_, m₃, recorded, last⟩ := bind_eq_ok_iff.mp rest'
  rw [Ram.frame_eq_bytes inside] at seen
  cases seen
  cases last
  rw [recordReads_ram recorded, Ram.size_modify, Ram.bytes_modify_self _ inside]
  exact ⟨inside, rfl, rfl⟩

theorem loadPage_bytes {image : Image} {executable : ExecutableId} {offset : Nat}
    (run : outcome (loadPage env image executable offset page) m = .ok (.ok (), m')) :
    (env.pageRead executable offset (m.ram.bytes page)).failure = none ∧
      m'.ram.bytes page = env.loaded image executable offset (m.ram.bytes page) := by
  obtain ⟨_, m₁, remarked, rest⟩ | ⟨cause, -, h⟩ := outcome_bind_eq_ok_iff.mp run
  · obtain ⟨_, remarked', -⟩ := outcome_lift_eq_ok_iff.mp remarked
    cases remarked'
    obtain ⟨failure, m₂, read, last⟩ | ⟨cause, -, h⟩ := outcome_bind_eq_ok_iff.mp rest
    · obtain ⟨_, read', same⟩ := outcome_lift_eq_ok_iff.mp read
      cases same
      obtain ⟨inside, bytes, ended⟩ := readPage_bytes read'
      cases failure with
      | some error => cases last
      | none =>
        obtain ⟨_, cleared, -⟩ := outcome_lift_eq_ok_iff.mp last
        obtain ⟨-, rfl⟩ := modifyFrame_eq_ok_iff.mp cleared
        refine ⟨ended.symm, ?_⟩
        rw [Ram.bytes_modify_self _ inside, bytes]
        rfl
    · cases h
  · cases h

/-- Loading a page stores that of the disk, into whichever frame. -/
theorem Environment.Reads.loadPage {d : Disk} (reads : env.Reads d) {image : Image}
    {executable : ExecutableId} {offset : Nat} (aligned : offset % 4096 = 0)
    (run : outcome (PagedMemory.loadPage env image executable offset page) m = .ok (.ok (), m')) :
    m'.ram.bytes page = d.page executable image offset := by
  obtain ⟨complete, bytes⟩ := loadPage_bytes run
  exact bytes.trans (reads.loaded_eq_page aligned complete)

end Loading

end PagedMemory
