import PagedMemory.Address

/-!
# The layout of physical memory

Memory is cut at three boundaries. Below `low` lies the kernel, which is never
counted. From `low` to `mainStart` frames are counted but reserved when the
machine starts, and from `mainStart` to `high` they are handed out. A layout is
accepted if the boundaries are page aligned, in order, and the counted part fits
into the table of counts.
-/

namespace PagedMemory

/-- The size of a frame in bytes. -/
def pageBytes : Nat := 4096

def entriesPerTable : Nat := 1024

/-- The stretch of linear addresses that one directory slot covers. -/
def directorySpan : Nat := 4194304

/-- Where kernel memory ends unless a layout says otherwise: 1 MiB. -/
def lowMemory : Nat := 0x100000

/-- The most memory that can be counted: 15 MiB. -/
def pagingMemory : Nat := 15728640

def pagingPages : Nat := pagingMemory / pageBytes

/-- Where memory ends unless a layout says otherwise: 16 MiB. -/
def highMemory : Nat := lowMemory + pagingMemory

/-- The count a reserved frame starts with. -/
def reservedCount : Nat := 100

/-- The stretch of linear addresses that one process owns: 64 MiB. -/
def taskSize : Nat := 67108864

def blockBytes : Nat := 1024

def blocksPerPage : Nat := 4

/-- How many entries of each table are cloned at linear address zero. -/
def lowCloneEntries : Nat := 160

def maxArgumentPages : Nat := 32

@[ext] structure Layout where
  low : PhysicalAddress
  mainStart : PhysicalAddress
  high : PhysicalAddress
deriving DecidableEq

inductive LayoutError
  | unaligned
  | unordered
  | tooLarge (high : Nat)
deriving DecidableEq

def LayoutError.message : LayoutError → String
  | .unaligned => "memory boundaries must be page aligned"
  | .unordered => "expected low_mem <= main_memory_start <= high_memory"
  | .tooLarge high =>
    "high memory " ++ Text.hexLower 0 high ++ " exceeds the trackable paging memory"

namespace Layout

/-- The usual memory of 16 MiB with nothing reserved. -/
def standard : Layout :=
  ⟨⟨lowMemory, by decide⟩, ⟨lowMemory, by decide⟩, ⟨highMemory, by decide⟩⟩

/-- The number of counted frames; none if the end lies below the start. -/
def trackedFrames? (l : Layout) : Option Nat :=
  (l.high.offsetFrom? l.low).map (· / pageBytes)

/-- The number of counted frames. -/
def trackedFrames (l : Layout) : Nat :=
  (l.high.value - l.low.value) / 4096

/-- The number of counted frames that are never handed out. -/
def reservedFrames (l : Layout) : Nat :=
  (l.mainStart.value - l.low.value) / 4096

/-- The three boundaries make sense together. -/
structure Valid (l : Layout) : Prop where
  aligned : l.low.isAligned .small ∧ l.mainStart.isAligned .small ∧ l.high.isAligned .small
  low_le : l.low.value ≤ l.mainStart.value
  mainStart_le : l.mainStart.value ≤ l.high.value
  fits : l.high.value - l.low.value ≤ pagingMemory

def validate (l : Layout) : Except LayoutError Unit :=
  if !(l.low.isAligned .small && l.mainStart.isAligned .small && l.high.isAligned .small) then
    .error .unaligned
  else if l.low.value > l.mainStart.value || l.mainStart.value > l.high.value then
    .error .unordered
  else if l.high.value - l.low.value > pagingMemory then
    .error (.tooLarge l.high.value)
  else
    .ok ()

theorem validate_eq_ok_iff {l : Layout} : l.validate = .ok () ↔ l.Valid := by
  unfold validate
  split
  · next unaligned =>
    simp only [reduceCtorEq, false_iff]
    intro valid
    simp [valid.aligned] at unaligned
  · next aligned =>
    split
    · next unordered =>
      simp only [reduceCtorEq, false_iff]
      intro valid
      have := valid.low_le
      have := valid.mainStart_le
      simp only [Bool.or_eq_true, decide_eq_true_eq] at unordered
      omega
    · next ordered =>
      simp only [Bool.or_eq_true, decide_eq_true_eq, not_or] at ordered
      split
      · next large =>
        simp only [reduceCtorEq, false_iff]
        intro valid
        have := valid.fits
        omega
      · next fits =>
        simp only [true_iff]
        refine ⟨?_, by omega, by omega, by omega⟩
        simpa [Bool.and_assoc, and_assoc] using aligned

end Layout

end PagedMemory
