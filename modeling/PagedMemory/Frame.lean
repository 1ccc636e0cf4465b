import PagedMemory.Entry
import PagedMemory.Slot

/-!
# The bytes of a frame

A frame is 4096 bytes. A page directory or page table is the same frame read as
1024 little-endian words, so a store of bytes can change entries and a store of
an entry changes exactly four bytes. `getElem_setWord` says which ones, and
`word_setWord` that words do not overlap.
-/

namespace PagedMemory

abbrev Frame := Vector UInt8 4096

namespace Frame

def zero : Frame :=
  Vector.replicate 4096 0

/-- The little-endian word in bytes `4 * i` to `4 * i + 3`. -/
def word (f : Frame) (i : Slot) : Nat :=
  f[4 * i.val].toNat + 256 * f[4 * i.val + 1].toNat + 65536 * f[4 * i.val + 2].toNat +
    16777216 * f[4 * i.val + 3].toNat

/-- Stores the low 32 bits of `w` as the word of slot `i`. -/
def setWord (f : Frame) (i : Slot) (w : Nat) : Frame :=
  (((f.set (4 * i.val) (UInt8.ofNat w)).set (4 * i.val + 1) (UInt8.ofNat (w / 256))).set
    (4 * i.val + 2) (UInt8.ofNat (w / 65536))).set (4 * i.val + 3) (UInt8.ofNat (w / 16777216))

def entry (f : Frame) (i : Slot) : Entry :=
  Entry.ofWord (f.word i)

def setEntry (f : Frame) (i : Slot) (e : Entry) : Frame :=
  f.setWord i e.toWord

/-- The entries that are present, with their slots in ascending order. -/
def presentEntries (f : Frame) : List (Slot × Entry) :=
  (allSlots.map fun i => (i, f.entry i)).filter fun p => p.2.present

def presentCount (f : Frame) : Nat :=
  allSlots.countP fun i => (f.entry i).present

/-- Stores bytes from `start` on; what would lie past the end is dropped. -/
def write (f : Frame) (start : Nat) : List UInt8 → Frame
  | [] => f
  | b :: bs => write (f.setIfInBounds start b) (start + 1) bs

/-- The `length` bytes from `start` on, fewer at the end of the frame. -/
def read (f : Frame) (start length : Nat) : List UInt8 :=
  (f.toList.drop start).take length

/-- Stores zero in every byte from `start` on. -/
def clearFrom (f : Frame) (start : Nat) : Frame :=
  f.write start (List.replicate (4096 - start) 0)

theorem word_lt (f : Frame) (i : Slot) : f.word i < 4294967296 := by
  have := f[4 * i.val].toNat_lt
  have := f[4 * i.val + 1].toNat_lt
  have := f[4 * i.val + 2].toNat_lt
  have := f[4 * i.val + 3].toNat_lt
  simp only [word]
  omega

/-- Storing a word changes its four bytes and no other. -/
theorem getElem_setWord (f : Frame) (i : Slot) (w j : Nat) (h : j < 4096) :
    (f.setWord i w)[j] =
      if j / 4 = i.val then UInt8.ofNat (w >>> (8 * (j % 4))) else f[j] := by
  have second : w >>> 8 = w / 256 := Nat.shiftRight_eq_div_pow w 8
  have third : w >>> 16 = w / 65536 := Nat.shiftRight_eq_div_pow w 16
  have fourth : w >>> 24 = w / 16777216 := Nat.shiftRight_eq_div_pow w 24
  simp only [setWord, Vector.getElem_set]
  have : j % 4 = 0 ∨ j % 4 = 1 ∨ j % 4 = 2 ∨ j % 4 = 3 := by omega
  by_cases inside : j / 4 = i.val
  · rcases this with r | r | r | r <;> simp only [r, inside, if_true] <;> grind
  · grind

theorem word_setWord_self (f : Frame) (i : Slot) (w : Nat) :
    (f.setWord i w).word i = w % 4294967296 := by
  have byte (n : Nat) : (UInt8.ofNat n).toNat = n % 256 := by simp
  simp only [word, getElem_setWord]
  rw [if_pos (by omega), if_pos (by omega), if_pos (by omega), if_pos (by omega)]
  simp only [byte]
  have r0 : 4 * i.val % 4 = 0 := by omega
  have r1 : (4 * i.val + 1) % 4 = 1 := by omega
  have r2 : (4 * i.val + 2) % 4 = 2 := by omega
  have r3 : (4 * i.val + 3) % 4 = 3 := by omega
  simp only [r0, r1, r2, r3]
  omega

theorem word_setWord_of_ne (f : Frame) {i j : Slot} (w : Nat) (h : j ≠ i) :
    (f.setWord i w).word j = f.word j := by
  have : j.val ≠ i.val := fun e => h (Fin.ext e)
  simp only [word, getElem_setWord]
  rw [if_neg (by omega), if_neg (by omega), if_neg (by omega), if_neg (by omega)]

@[simp] theorem entry_setEntry_self (f : Frame) (i : Slot) (e : Entry) :
    (f.setEntry i e).entry i = e := by
  simp only [entry, setEntry, word_setWord_self]
  rw [Nat.mod_eq_of_lt e.toWord_lt, Entry.ofWord_toWord]

theorem entry_setEntry_of_ne (f : Frame) {i j : Slot} (e : Entry) (h : j ≠ i) :
    (f.setEntry i e).entry j = f.entry j := by
  simp only [entry, setEntry, word_setWord_of_ne f _ h]

@[simp] theorem entry_zero (i : Slot) : zero.entry i = Entry.zero := by
  simp only [entry, word, zero, Vector.getElem_replicate]
  rfl

theorem word_eq_of_entry {f g : Frame} {i : Slot} (same : f.entry i = g.entry i) :
    f.word i = g.word i := by
  have words := congrArg Entry.toWord same
  simp only [entry, Entry.toWord_ofWord] at words
  rwa [Nat.mod_eq_of_lt (f.word_lt i), Nat.mod_eq_of_lt (g.word_lt i)] at words

/-- A frame holds nothing but its entries. -/
theorem ext_entry {f g : Frame} (same : ∀ i, f.entry i = g.entry i) : f = g := by
  refine Vector.ext fun j inside => ?_
  obtain ⟨i, r, small, rfl⟩ : ∃ (i : Slot) (r : Nat), r < 4 ∧ j = 4 * i.val + r :=
    ⟨⟨j / 4, by omega⟩, j % 4, by omega, (Nat.div_add_mod j 4).symm⟩
  have words := word_eq_of_entry (same i)
  have byte (b : UInt8) : b.toNat < 256 := b.toNat_lt
  have := byte f[4 * i.val]
  have := byte f[4 * i.val + 1]
  have := byte f[4 * i.val + 2]
  have := byte f[4 * i.val + 3]
  have := byte g[4 * i.val]
  have := byte g[4 * i.val + 1]
  have := byte g[4 * i.val + 2]
  have := byte g[4 * i.val + 3]
  simp only [word] at words
  apply UInt8.toNat_inj.mp
  -- The bytes of a word are its digits.
  have digit : r = 0 ∨ r = 1 ∨ r = 2 ∨ r = 3 := by omega
  rcases digit with rfl | rfl | rfl | rfl
  · show (f[4 * i.val]).toNat = (g[4 * i.val]).toNat
    omega
  · omega
  · omega
  · omega

theorem setEntry_entry (f : Frame) (i : Slot) : f.setEntry i (f.entry i) = f := by
  refine ext_entry fun j => ?_
  by_cases same : j = i
  · rw [same, entry_setEntry_self]
  · exact entry_setEntry_of_ne f _ same

theorem mem_presentEntries {f : Frame} {i : Slot} {e : Entry} :
    (i, e) ∈ f.presentEntries ↔ f.entry i = e ∧ e.present = true := by
  simp only [presentEntries, List.mem_filter, List.mem_map, mem_allSlots, true_and,
    Prod.mk.injEq, exists_eq_left]

theorem length_presentEntries (f : Frame) : f.presentEntries.length = f.presentCount := by
  simp only [presentEntries, presentCount, ← List.countP_eq_length_filter, List.countP_map]
  rfl

/-- A store of bytes changes the bytes it covers and no other. -/
theorem getElem_write (f : Frame) (start : Nat) (bytes : List UInt8) (j : Nat) (h : j < 4096) :
    (f.write start bytes)[j] =
      if start ≤ j then bytes[j - start]?.getD f[j] else f[j] := by
  induction bytes generalizing f start with
  | nil => simp [write]
  | cons b bs ih =>
    rw [write, ih]
    by_cases same : start = j
    · subst same
      rw [if_neg (by omega), if_pos (Nat.le_refl _)]
      simp [Vector.setIfInBounds]
    · rw [Vector.getElem_setIfInBounds_ne h same]
      by_cases above : start ≤ j
      · rw [if_pos (by omega), if_pos above]
        have : j - start = (j - (start + 1)) + 1 := by omega
        rw [this, List.getElem?_cons_succ]
      · rw [if_neg (by omega), if_neg above]

end Frame

end PagedMemory
