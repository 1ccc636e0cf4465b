import PagedMemory.Proofs.Faults
import PagedMemory.Proofs.Pristine
import PagedMemory.UserAccess

/-!
# The memory of a process

A process owns a slot of linear addresses that begins where its image does. To the process
its memory is a function of the place in the slot (`Contents`), whether a page of it is
present or not: at first it holds the data of the executable followed by zeros
(`Disk.initial`), which is also what a missing page is filled with.

Copies to and from user memory are cut into pieces that lie in one page each. The pieces
follow each other without gaps (`Contiguous`), so that storing them in turn is the same as
storing the whole.
-/

namespace PagedMemory

/-- The bytes of a process by their place in the slot. -/
abbrev Contents := Nat → UInt8

namespace Contents

variable {mem : Contents}

/-- Replaces what lies from `start` on by some bytes. -/
def overwrite (mem : Contents) (start : Nat) (bytes : List UInt8) : Contents := fun n =>
  if start ≤ n then bytes[n - start]?.getD (mem n) else mem n

def read (mem : Contents) (start length : Nat) : List UInt8 :=
  (List.range length).map fun i => mem (start + i)

@[simp] theorem overwrite_nil (mem : Contents) (start : Nat) : mem.overwrite start [] = mem := by
  funext n
  simp [overwrite]

theorem overwrite_append (mem : Contents) (start : Nat) (xs ys : List UInt8) :
    (mem.overwrite start xs).overwrite (start + xs.length) ys = mem.overwrite start (xs ++ ys) := by
  funext n
  unfold overwrite
  by_cases above : start ≤ n
  · by_cases beyond : start + xs.length ≤ n
    · have rest : n - start - xs.length = n - (start + xs.length) := by omega
      rw [if_pos beyond, if_pos above, if_pos above, List.getElem?_append_right (by omega), rest,
        List.getElem?_eq_none (l := xs) (by omega), Option.getD_none]
    · rw [if_neg beyond, if_pos above, if_pos above, List.getElem?_append_left (by omega)]
  · rw [if_neg (by omega), if_neg above, if_neg above]

theorem read_add (mem : Contents) (start m n : Nat) :
    mem.read start (m + n) = mem.read start m ++ mem.read (start + m) n := by
  simp only [read, List.range_add, List.map_append, List.map_map, Nat.add_assoc]
  rfl

end Contents

namespace Image

variable {image : Image} {k k' : Place} {va : VirtualAddress}

/-- The image starts where a slot does, though not the first one. -/
structure Slotted (image : Image) : Prop where
  aligned : image.startCode.value % taskSize = 0
  positive : 0 < image.startCode.value

/-- The address lies in the slot of the image. -/
def Covers (image : Image) (va : VirtualAddress) : Prop :=
  image.startCode.value ≤ va.value ∧ va.value < image.startCode.value + taskSize

/-- The range lies in the slot of the image. -/
def Spans (image : Image) (address : VirtualAddress) (length : Nat) : Prop :=
  image.startCode.value ≤ address.value ∧
    address.value + length ≤ image.startCode.value + taskSize

/-- The place of a page in the slot. -/
def position (image : Image) (k : Place) : Nat :=
  (Place.address k).value - image.startCode.value

/-- A page of the memory of a process. -/
def slice (image : Image) (mem : Contents) (k : Place) : Frame :=
  Vector.ofFn fun i => mem (image.position k + i.val)

theorem getElem_slice (mem : Contents) (k : Place) {i : Nat} (h : i < 4096) :
    (image.slice mem k)[i] = mem (image.position k + i) := by
  simp only [slice, Vector.getElem_ofFn]

theorem Slotted.end_le (slotted : image.Slotted) :
    image.startCode.value + taskSize ≤ 4294967296 := by
  have aligned := slotted.aligned
  have := image.startCode.value_lt
  unfold taskSize at *
  omega

theorem Slotted.isAligned (slotted : image.Slotted) :
    image.startCode.isAligned .small = true := by
  have aligned := slotted.aligned
  unfold taskSize at aligned
  simp only [Address.isAligned, PageSize.bytes, beq_iff_eq]
  omega

/-- A slot is made up of whole pages. -/
theorem Slotted.covers_place (slotted : image.Slotted) :
    image.Covers (Place.address va.splitSlots) ↔ image.Covers va := by
  have aligned := slotted.aligned
  rw [Address.place_splitSlots, Covers, Covers, Address.value_alignDown]
  unfold taskSize at *
  simp only [PageSize.bytes]
  omega

theorem position_splitSlots (slotted : image.Slotted) (covers : image.Covers va) :
    image.position va.splitSlots + va.value % 4096 = va.value - image.startCode.value := by
  have aligned := slotted.aligned
  have above := covers.1
  unfold taskSize at aligned
  rw [position, Address.place_splitSlots, Address.value_alignDown]
  simp only [PageSize.bytes]
  omega

/-- Pages of a slot do not overlap. -/
theorem position_apart (slotted : image.Slotted) (covers : image.Covers (Place.address k))
    (covers' : image.Covers (Place.address k')) (other : k' ≠ k) :
    image.position k' + 4096 ≤ image.position k ∨ image.position k + 4096 ≤ image.position k' := by
  have differ : (Place.address k').value ≠ (Place.address k).value := by
    intro same
    refine other ?_
    rw [← Place.splitSlots_address k', ← Place.splitSlots_address k, Address.ext same]
  have aligned := slotted.aligned
  have above := covers.1
  have above' := covers'.1
  simp only [position, Place.address, Slot.join] at *
  omega

/-! ## Pages of memory -/

/-- Storing in a page of memory. -/
theorem write_slice (mem : Contents) (k : Place) (inset : Nat) (bytes : List UInt8) :
    (image.slice mem k).write inset bytes =
      image.slice (mem.overwrite (image.position k + inset) bytes) k := by
  refine Vector.ext fun j h => ?_
  rw [Frame.getElem_write, getElem_slice, getElem_slice, Contents.overwrite]
  by_cases inside : inset ≤ j
  · have place : image.position k + j - (image.position k + inset) = j - inset := by omega
    rw [if_pos inside, if_pos (by omega), place]
  · rw [if_neg inside, if_neg (by omega)]

/-- Bytes that end in the page leave the other pages alone. -/
theorem slice_overwrite_of_ne (slotted : image.Slotted) (mem : Contents)
    (covers : image.Covers (Place.address k)) (covers' : image.Covers (Place.address k'))
    (other : k' ≠ k) {inset : Nat} {bytes : List UInt8} (inside : inset + bytes.length ≤ 4096) :
    image.slice (mem.overwrite (image.position k + inset) bytes) k' = image.slice mem k' := by
  have apart := position_apart slotted covers covers' other
  refine Vector.ext fun j h => ?_
  rw [getElem_slice, getElem_slice, Contents.overwrite]
  split
  · rw [List.getElem?_eq_none (by omega), Option.getD_none]
  · rfl

theorem read_slice (mem : Contents) (k : Place) {inset length : Nat}
    (inside : inset + length ≤ 4096) :
    Frame.read (image.slice mem k) inset length = mem.read (image.position k + inset) length := by
  refine List.ext_getElem ?_ fun i h h' => ?_
  · simp only [Frame.read, Contents.read, List.length_take, List.length_drop, Vector.length_toList,
      List.length_map, List.length_range]
    omega
  · simp only [Frame.read, Contents.read, List.getElem_take, List.getElem_drop, Vector.getElem_toList,
      getElem_slice, List.getElem_map, List.getElem_range, Nat.add_assoc]

end Image

/-! ## Memory that has not been touched -/

namespace Disk

variable {d : Disk} {image : Image} {k : Place}

/-- What a process starts with: the data of its executable, and zeros behind it. -/
def initial (d : Disk) (image : Image) : Contents := fun n =>
  if n < image.endData then
    match image.executable with
    | some executable => d.byte executable n
    | none => 0
  else 0

/-- A page that an executable backs is that of the disk at first. -/
theorem slice_initial_of_backed {executable : ExecutableId} {offset : Nat}
    (covers : image.Covers (Place.address k))
    (backed : image.source? (Place.address k) = some (executable, offset)) :
    image.slice (d.initial image) k = d.page executable image offset := by
  obtain ⟨sum, short, runs⟩ := Image.source?_eq_some_iff.mp backed
  have position : image.position k = offset := by
    unfold Image.position
    omega
  have below := covers.2
  refine Vector.ext fun j h => ?_
  rw [Image.getElem_slice, initial, position, runs, page, Vector.getElem_ofFn]
  refine if_congr ?_ rfl rfl
  unfold taskSize at below
  show offset + j < image.endData ↔
    j < 4096 - min (min (offset + 4096) 4294967295 - image.endData) 4096
  omega

/-- Other pages are zero at first. -/
theorem slice_initial_of_unbacked (covers : image.Covers (Place.address k))
    (unbacked : image.source? (Place.address k) = none) :
    image.slice (d.initial image) k = Frame.zero := by
  refine Vector.ext fun j h => ?_
  rw [Image.getElem_slice, Frame.zero, Vector.getElem_replicate, initial]
  split
  · next short =>
    cases runs : image.executable with
    | none => rfl
    | some executable =>
      have above := covers.1
      have backed : image.source? (Place.address k) = some (executable, image.position k) := by
        refine Image.source?_eq_some_iff.mpr ⟨?_, by omega, runs⟩
        unfold Image.position
        omega
      rw [unbacked] at backed
      cases backed
  · rfl

end Disk

/-! ## Pieces of a range -/

/-- The pieces follow each other from one place of a buffer to another. -/
def Contiguous (n : Nat) : List Chunk → Nat → Prop
  | [], total => n = total
  | chunk :: rest, total => chunk.start = n ∧ Contiguous (n + chunk.length) rest total

theorem Contiguous.le {n total : Nat} {chunks : List Chunk} (cut : Contiguous n chunks total) :
    n ≤ total := by
  induction chunks generalizing n with
  | nil => exact Nat.le_of_eq cut
  | cons chunk rest ih => exact Nat.le_trans (Nat.le_add_right n _) (ih cut.2)

/-- What follows some pieces begins where they end. -/
theorem Contiguous.of_append {n total : Nat} {chunks rest : List Chunk}
    (cut : Contiguous n (chunks ++ rest) total) :
    Contiguous (n + (chunks.map Chunk.length).sum) rest total := by
  induction chunks generalizing n with
  | nil => exact cut
  | cons chunk chunks ih =>
    rw [List.map_cons, List.sum_cons, ← Nat.add_assoc]
    exact ih cut.2

/-- The pieces of a buffer, put together. -/
theorem Contiguous.flatten {n : Nat} {chunks : List Chunk} {bytes : List UInt8}
    (cut : Contiguous n chunks bytes.length) :
    (chunks.map fun chunk => (bytes.drop chunk.start).take chunk.length).flatten =
      bytes.drop n := by
  induction chunks generalizing n with
  | nil =>
    obtain rfl : n = bytes.length := cut
    rw [List.drop_length]
    rfl
  | cons chunk rest ih =>
    obtain ⟨rfl, cut⟩ := cut
    rw [List.map_cons, List.flatten_cons, ih cut, ← List.drop_drop, List.take_append_drop]

/-- The pieces of a range, from one of them on. -/
private theorem contiguous_from (inset length pages : Nat) (positive : 0 < length)
    (count : pages = (inset + length + 4095) / 4096) (short : inset < 4096) (left i : Nat)
    (sum : i + left = pages) :
    Contiguous (min (i * 4096 - inset) length) ((List.range' i left).map fun i =>
      ⟨i * 4096 - inset, min ((i + 1) * 4096 - inset) length - (i * 4096 - inset)⟩) length := by
  induction left generalizing i with
  | zero =>
    show min (i * 4096 - inset) length = length
    omega
  | succ left ih =>
    refine ⟨?_, ?_⟩
    · show i * 4096 - inset = _
      omega
    · have next := ih (i + 1) (by omega)
      have sum : min (i * 4096 - inset) length +
          (min ((i + 1) * 4096 - inset) length - (i * 4096 - inset)) =
            min ((i + 1) * 4096 - inset) length := by omega
      show Contiguous (min (i * 4096 - inset) length +
        (min ((i + 1) * 4096 - inset) length - (i * 4096 - inset))) _ length
      rwa [sum]

theorem contiguous_pageChunks (address : VirtualAddress) (length : Nat) :
    Contiguous 0 (pageChunks address length) length := by
  unfold pageChunks
  dsimp only
  by_cases empty : length = 0
  · rw [if_pos empty, empty]
    rfl
  · have cut := contiguous_from (address.value % 4096) length _ (Nat.pos_of_ne_zero empty) rfl
      (Nat.mod_lt _ (by decide)) _ 0 (Nat.zero_add _)
    rw [if_neg empty, List.range_eq_range']
    simpa using cut

/-- Every piece is part of the range and lies in one page. -/
theorem of_mem_pageChunks {address : VirtualAddress} {length : Nat} {chunk : Chunk}
    (among : chunk ∈ pageChunks address length) :
    chunk.start < length ∧ chunk.start + chunk.length ≤ length ∧
      (address.value + chunk.start) % 4096 + chunk.length ≤ 4096 := by
  obtain ⟨i, below, rfl⟩ := List.mem_map.mp among
  rw [List.mem_range] at below
  split at below
  · omega
  · refine ⟨?_, ?_, ?_⟩
    all_goals
      dsimp only
      omega

/-- No piece is empty, and every piece but the first one begins with its page. -/
theorem begins_of_mem_pageChunks {address : VirtualAddress} {length : Nat} {chunk : Chunk}
    (among : chunk ∈ pageChunks address length) :
    0 < chunk.length ∧ (chunk.start = 0 ∨ (address.value + chunk.start) % 4096 = 0) := by
  obtain ⟨i, below, rfl⟩ := List.mem_map.mp among
  rw [List.mem_range] at below
  split at below
  · omega
  · dsimp only
    omega

/-- Reading the pieces in turn is reading the whole. -/
theorem Contiguous.read {mem : Contents} {start n total : Nat} {chunks : List Chunk}
    {pieces : List (List UInt8)} (cut : Contiguous n chunks total)
    (each : List.Forall₂ (fun chunk bytes => bytes = mem.read (start + chunk.start) chunk.length)
      chunks pieces) : pieces.flatten = mem.read (start + n) (total - n) := by
  induction each generalizing n with
  | nil =>
    obtain rfl : n = total := cut
    rw [Nat.sub_self]
    rfl
  | @cons chunk bytes rest pieces here each ih =>
    obtain ⟨rfl, cut⟩ := cut
    have sum : total - chunk.start = chunk.length + (total - (chunk.start + chunk.length)) := by
      have := cut.le
      omega
    rw [List.flatten_cons, ih cut, here, sum, Contents.read_add, Nat.add_assoc]

end PagedMemory
