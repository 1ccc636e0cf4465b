import PagedMemory.Address

/-!
# Entries of directories and tables

An entry is kept decoded, one field for each group of bits, and becomes a 32-bit
word only where it is stored. Every word is the word of exactly one entry, so
reading back an entry that was written gives the entry itself.

A present entry whose dirty bit is clear has not been written through, so its
frame still holds what was put there when it was mapped. The bit is kept when an
entry is copied or write-protected; nothing in this library clears it.
-/

namespace PagedMemory

@[ext] structure Entry where
  present : Bool
  writable : Bool
  userAccess : Bool
  writeThrough : Bool
  cacheDisabled : Bool
  accessed : Bool
  dirty : Bool
  pat : Bool
  isGlobal : Bool
  osAvailable : Fin 8
  frame : FrameId
deriving DecidableEq

namespace Entry

/-- Nothing set: the entry of an empty slot. -/
def zero : Entry :=
  ⟨false, false, false, false, false, false, false, false, false, 0, .first⟩

/-- Present, writable and open to user code: a link or a private page. -/
def userWritable : Entry :=
  { zero with present := true, writable := true, userAccess := true }

/-- Present, read-only and open to user code: a page with several owners. -/
def userReadOnly : Entry :=
  { zero with present := true, userAccess := true }

/-- The 32-bit word that stores the entry. -/
def toWord (e : Entry) : Nat :=
  e.present.toNat + 2 * e.writable.toNat + 4 * e.userAccess.toNat +
    8 * e.writeThrough.toNat + 16 * e.cacheDisabled.toNat + 32 * e.accessed.toNat +
    64 * e.dirty.toNat + 128 * e.pat.toNat + 256 * e.isGlobal.toNat +
    512 * e.osAvailable.val + 4096 * e.frame.index

/-- The entry that the low 32 bits of a word store. -/
def ofWord (w : Nat) : Entry where
  present := w % 2 == 1
  writable := w / 2 % 2 == 1
  userAccess := w / 4 % 2 == 1
  writeThrough := w / 8 % 2 == 1
  cacheDisabled := w / 16 % 2 == 1
  accessed := w / 32 % 2 == 1
  dirty := w / 64 % 2 == 1
  pat := w / 128 % 2 == 1
  isGlobal := w / 256 % 2 == 1
  osAvailable := ⟨w / 512 % 8, Nat.mod_lt _ (by decide)⟩
  frame := ⟨w / 4096 % 1048576, Nat.mod_lt _ (by decide)⟩

theorem toWord_lt (e : Entry) : e.toWord < 4294967296 := by
  have frame : e.frame.index < 1048576 := e.frame.index_lt
  have os := e.osAvailable.isLt
  have bit (b : Bool) : b.toNat ≤ 1 := Bool.toNat_le b
  have := bit e.present
  have := bit e.writable
  have := bit e.userAccess
  have := bit e.writeThrough
  have := bit e.cacheDisabled
  have := bit e.accessed
  have := bit e.dirty
  have := bit e.pat
  have := bit e.isGlobal
  simp only [toWord]
  omega

private theorem testBit_eq {b : Bool} {x : Nat} (h : x % 2 = b.toNat) : (x % 2 == 1) = b := by
  cases b <;> simp_all

private theorem toNat_testBit (x : Nat) : (x % 2 == 1).toNat = x % 2 := by
  rcases Nat.mod_two_eq_zero_or_one x with h | h <;> simp [h]

@[simp] theorem ofWord_toWord (e : Entry) : ofWord e.toWord = e := by
  have frame : e.frame.index < 1048576 := e.frame.index_lt
  have os := e.osAvailable.isLt
  have bit (b : Bool) : b.toNat ≤ 1 := Bool.toNat_le b
  have := bit e.present
  have := bit e.writable
  have := bit e.userAccess
  have := bit e.writeThrough
  have := bit e.cacheDisabled
  have := bit e.accessed
  have := bit e.dirty
  have := bit e.pat
  have := bit e.isGlobal
  ext <;> simp only [ofWord, toWord]
  iterate 9 (rw [testBit_eq]; omega)
  · omega
  · omega

@[simp] theorem toWord_ofWord (w : Nat) : (ofWord w).toWord = w % 4294967296 := by
  simp only [ofWord, toWord, toNat_testBit]
  omega

@[simp] theorem toWord_zero : zero.toWord = 0 := rfl

/-- The frame an entry refers to, if it refers to one. -/
def target (e : Entry) : Option FrameId :=
  if e.present then some e.frame else none

/-- Present and not written through since it was mapped. -/
def isClean (e : Entry) : Bool :=
  e.present && !e.dirty

/-- The entry that refers to `frame` with the given flags. It is present, and bit 7
is clear: it would ask for a large page in a directory. -/
def make (frame : FrameId) (flags : Entry) : Entry :=
  { flags with present := true, pat := false, frame := frame }

/-- The directory entry that links the page table in `table`. -/
def link (table : FrameId) : Entry :=
  make table userWritable

def writeProtected (e : Entry) : Entry :=
  { e with writable := false }

def madeWritable (e : Entry) : Entry :=
  { e with writable := true }

/-- What an access leaves behind: the accessed bit, after a write the dirty bit too. -/
def touched (write : Bool) (e : Entry) : Entry :=
  { e with accessed := true, dirty := e.dirty || write }

@[simp] theorem target_eq_some_iff {e : Entry} {f : FrameId} :
    e.target = some f ↔ e.present = true ∧ e.frame = f := by
  simp [target]

@[simp] theorem target_eq_none_iff {e : Entry} :
    e.target = none ↔ e.present = false := by
  simp [target]

@[simp] theorem target_make (f : FrameId) (flags : Entry) :
    (make f flags).target = some f := rfl

/-- The text of an entry of a page table. -/
def tableText (e : Entry) : String :=
  "PtEntry(" ++ Text.hexLower 8 e.toWord ++ ")"

/-- The text of an entry of a page directory. -/
def directoryText (e : Entry) : String :=
  "PdEntry(" ++ Text.hexLower 8 e.toWord ++ ")"

/-- The text that names every field. -/
def fieldsText (e : Entry) : String :=
  "PageEntryBits \x7b present: " ++ toString e.present ++
    ", writable: " ++ toString e.writable ++
    ", user_access: " ++ toString e.userAccess ++
    ", write_through: " ++ toString e.writeThrough ++
    ", cache_disabled: " ++ toString e.cacheDisabled ++
    ", accessed: " ++ toString e.accessed ++
    ", dirty: " ++ toString e.dirty ++
    ", pat: " ++ toString e.pat ++
    ", global_translation: " ++ toString e.isGlobal ++
    ", os_available: " ++ toString e.osAvailable.val ++
    ", frame_number: " ++ toString e.frame.index ++ " \x7d"

end Entry

end PagedMemory
