import Mathlib.Data.Nat.Digits.Defs
import PagedMemory.Proofs.Start

/-!
# One memory under three readings

A frame is written to byte by byte, entry by entry or as a whole, and what is written in one way is
read in another. Here memory is nothing but bytes (`Ram.flat`), and what a store does to it is said
of the bytes alone (`Store.update`), without a word about entries. Every sequence of stores has the
effect that its stores have in turn (`Store.flat_foldl`), and so the readings agree at any time:
directories and tables are the same 1024 little-endian words, and what counts as present are the
words whose lowest bit is set.
-/

namespace PagedMemory

/-! ## The words of a frame -/

namespace Frame

/-- The value of the four bytes of a slot, the lowest first. -/
def littleEndian (x : Frame) (i : Slot) : Nat :=
  Nat.ofDigits 256 ((x.read (4 * i.val) 4).map UInt8.toNat)

theorem word_eq_littleEndian (x : Frame) (i : Slot) : x.word i = x.littleEndian i := by
  have bytes : x.read (4 * i.val) 4 =
      [x[4 * i.val], x[4 * i.val + 1], x[4 * i.val + 2], x[4 * i.val + 3]] := by
    refine List.ext_getElem ?_ fun d h h' => ?_
    · simp only [read, List.length_take, List.length_drop, Vector.length_toList, List.length_cons,
        List.length_nil]
      omega
    · simp only [read, List.getElem_take, List.getElem_drop, Vector.getElem_toList]
      have digit : d = 0 ∨ d = 1 ∨ d = 2 ∨ d = 3 := by
        simp only [List.length_cons, List.length_nil] at h'
        omega
      rcases digit with rfl | rfl | rfl | rfl <;> rfl
  simp only [littleEndian, bytes, word, List.map_cons, List.map_nil, Nat.ofDigits_cons,
    Nat.ofDigits_nil]
  omega

/-- What an entry is read from gives the entry back. -/
theorem toWord_entry (x : Frame) (i : Slot) : (x.entry i).toWord = x.littleEndian i := by
  rw [entry, Entry.toWord_ofWord, Nat.mod_eq_of_lt (x.word_lt i), word_eq_littleEndian]

theorem presentCount_eq (x : Frame) :
    x.presentCount = allSlots.countP fun i => (x.littleEndian i).testBit 0 := by
  refine List.countP_congr fun i _ => ?_
  rw [← word_eq_littleEndian, Nat.testBit_zero, entry, Entry.ofWord, beq_iff_eq, decide_eq_true_eq]

end Frame

/-- Memory byte by byte, zeros past its end. -/
def Ram.flat (r : Ram) (f : FrameId) (k : Fin 4096) : UInt8 :=
  (r.bytes f)[k.val]

/-! ## Stores -/

/-- A write to a frame: of bytes in a row, of an entry of the directory or table that it holds,
of zeros, or of what another frame holds. -/
inductive Store
  | bytes (f : FrameId) (start : Nat) (data : List UInt8) (fits : start + data.length ≤ 4096)
  | entry (f : FrameId) (i : Slot) (e : Entry)
  | zero (f : FrameId)
  | copy (source target : FrameId)

namespace Store

def perform : Store → Kernel Unit
  | bytes f start data _ => modifyFrame f fun x => x.write start data
  | entry f i e => writeEntry f i e
  | zero f => zeroFrame f
  | copy source target => copyFrame source target

/-- The frame that is written to. -/
def target : Store → FrameId
  | bytes f _ _ _ => f
  | entry f _ _ => f
  | zero f => f
  | copy _ target => target

/-- The frames that the store names are frames of memory. -/
def Within (size : Nat) : Store → Prop
  | copy source target => source.index < size ∧ target.index < size
  | s => s.target.index < size

/-- A byte of the frame that is written to, after the store. -/
def byte (b : FrameId → Fin 4096 → UInt8) (k : Fin 4096) : Store → UInt8
  | bytes f start data _ => if start ≤ k.val then data[k.val - start]?.getD (b f k) else b f k
  | entry f i e =>
    if k.val / 4 = i.val then UInt8.ofNat (e.toWord >>> (8 * (k.val % 4))) else b f k
  | zero _ => 0
  | copy source _ => b source k

/-- What the store does to bytes. -/
def update (b : FrameId → Fin 4096 → UInt8) (s : Store) : FrameId → Fin 4096 → UInt8 :=
  fun g k => if g = s.target then s.byte b k else b g k

/-- What the frame that is written to holds afterwards. -/
def change (r : Ram) : Store → Frame → Frame
  | bytes _ start data _, x => x.write start data
  | entry _ i e, x => x.setEntry i e
  | zero _, _ => Frame.zero
  | copy source _, _ => r.bytes source

/-- Memory after the store. -/
def apply (r : Ram) (s : Store) : Ram :=
  r.modify s.target (s.change r)

@[simp] theorem size_apply (r : Ram) (s : Store) : (apply r s).size = r.size :=
  Ram.size_modify r s.target (s.change r)

variable {r : Ram} {s : Store} {m : Machine} {source target : FrameId}

theorem Within.target_lt {size : Nat} (within : s.Within size) : s.target.index < size := by
  cases s with
  | copy source target => exact within.2
  | _ => exact within

/-! ## One store -/

/-- What was written to is told byte by byte. -/
theorem getElem_change (r : Ram) (s : Store) (k : Fin 4096) :
    (s.change r (r.bytes s.target))[k.val] = s.byte r.flat k := by
  cases s with
  | bytes f start data fits => exact Frame.getElem_write _ _ _ _ _
  | entry f i e => exact Frame.getElem_setWord _ _ _ _ _
  | zero f => exact Vector.getElem_replicate _
  | copy source target => rfl

theorem flat_apply (within : s.Within r.size) : (apply r s).flat = s.update r.flat := by
  funext g k
  unfold update
  split
  · next here =>
    rw [here, ← getElem_change, Ram.flat, apply, Ram.bytes_modify_self _ within.target_lt]
  · next elsewhere =>
    rw [Ram.flat, apply, Ram.bytes_modify_of_ne _ elsewhere]
    rfl

theorem copyFrame_eq (hs : source.index < m.ram.size) (ht : target.index < m.ram.size) :
    copyFrame source target m =
      .ok ((), { m with ram := m.ram.modify target fun _ => m.ram.bytes source }) := by
  have found := Ram.frame?_eq_bytes hs
  by_cases same : source = target
  · subst same
    have fixed : m.ram.modify source (fun _ => m.ram.bytes source) = m.ram :=
      Ram.modify_of_fixed fun x held => Option.some.inj (found.symm.trans held)
    simp only [copyFrame, if_true, fixed]
  · simp only [copyFrame, if_neg same, found, if_pos ht]

/-- To copy a frame and to copy its bytes is the same. -/
theorem copyBytes_eq (hs : source.index < m.ram.size) (ht : target.index < m.ram.size) :
    copyBytes source target m =
      .ok ((), { m with ram := m.ram.modify target fun _ => m.ram.bytes source }) :=
  bind_eq_ok_iff.mpr ⟨_, m, inspect_eq_ok_iff.mpr ⟨Ram.frame_eq_bytes hs, rfl⟩,
    modifyFrame_eq_ok_iff.mpr ⟨ht, rfl⟩⟩

theorem perform_eq (within : s.Within m.ram.size) :
    s.perform m = .ok ((), { m with ram := apply m.ram s }) := by
  cases s with
  | bytes f start data fits => exact modifyFrame_eq_ok_iff.mpr ⟨within, rfl⟩
  | entry f i e => exact modifyFrame_eq_ok_iff.mpr ⟨within, rfl⟩
  | zero f => exact modifyFrame_eq_ok_iff.mpr ⟨within, rfl⟩
  | copy source target => exact copyFrame_eq within.1 within.2

/-- No other frame is written to. -/
theorem frame?_of_perform {m' : Machine} {g : FrameId} (run : s.perform m = .ok ((), m'))
    (other : g ≠ s.target) : m'.ram.frame? g = m.ram.frame? g := by
  have modified {change : Frame → Frame} (run : modifyFrame s.target change m = .ok ((), m')) :
      m'.ram.frame? g = m.ram.frame? g := by
    obtain ⟨-, rfl⟩ := modifyFrame_eq_ok_iff.mp run
    exact Ram.frame?_modify_of_ne _ _ other
  cases s with
  | bytes f start data fits => exact modified run
  | entry f i e => exact modified run
  | zero f => exact modified run
  | copy source target =>
    simp only [perform, copyFrame] at run
    split at run
    · cases run
      rfl
    · split at run
      · cases run
      · split at run
        · cases run
          exact Ram.frame?_modify_of_ne _ _ other
        · cases run

/-- An entry is stored in four bytes, as the digits of its word. -/
theorem flat_of_writeEntry {m' : Machine} {f : FrameId} {i : Slot} {e : Entry}
    (run : writeEntry f i e m = .ok ((), m')) (g : FrameId) (k : Fin 4096) :
    m'.ram.flat g k = if g = f ∧ k.val / 4 = i.val then UInt8.ofNat (e.toWord >>> (8 * (k.val % 4)))
      else m.ram.flat g k := by
  obtain ⟨inside, rfl⟩ := modifyFrame_eq_ok_iff.mp run
  have stored := flat_apply (s := .entry f i e) (r := m.ram) inside
  refine (congrFun (congrFun stored g) k).trans ?_
  by_cases here : g = f
  · subst here
    simp only [update, target, byte, if_true, true_and]
  · simp only [update, target, here, false_and, if_false]

/-! ## Stores in turn -/

section Turn

variable {stores : List Store}

theorem size_foldl_apply (r : Ram) (stores : List Store) :
    (stores.foldl apply r).size = r.size := by
  induction stores generalizing r with
  | nil => rfl
  | cons s rest ih => rw [List.foldl_cons, ih, size_apply]

/-- What a sequence of stores leaves behind follows from the bytes that were there before. -/
theorem flat_foldl (within : ∀ s ∈ stores, s.Within r.size) :
    (stores.foldl apply r).flat = stores.foldl update r.flat := by
  induction stores generalizing r with
  | nil => rfl
  | cons s rest ih =>
    rw [List.foldl_cons, List.foldl_cons, ← flat_apply (within s List.mem_cons_self)]
    refine ih fun s' later => ?_
    rw [size_apply]
    exact within s' (List.mem_cons_of_mem s later)

theorem forM_perform (within : ∀ s ∈ stores, s.Within m.ram.size) :
    stores.forM perform m = .ok ((), { m with ram := stores.foldl apply m.ram }) := by
  induction stores generalizing m with
  | nil => rfl
  | cons s rest ih =>
    refine bind_eq_ok_iff.mpr ⟨(), _, perform_eq (within s List.mem_cons_self), ?_⟩
    refine ih fun s' later => ?_
    rw [size_apply]
    exact within s' (List.mem_cons_of_mem s later)

end Turn

end Store

/-- Stores to frames of memory, of whatever kinds and in whatever order, all take place. After them
every byte is what the stores make of the bytes from before; the entries of every frame, whether it
is taken for a directory or for a table, are the little-endian words of its bytes; and those with
the lowest bit set are counted as present. From there on an entry is stored in its four bytes, no
store changes a frame that it does not write to, and both ways of copying a frame are the same. -/
theorem stores_meet_in_the_bytes {m : Machine} {stores : List Store}
    (within : ∀ s ∈ stores, s.Within m.ram.size) :
    ∃ m', stores.forM Store.perform m = .ok ((), m') ∧ m' = { m with ram := m'.ram } ∧
      m'.ram.size = m.ram.size ∧
      (∀ f : FrameId, f.index < m.ram.size → ∃ x, m'.ram.frame f = .ok x ∧
        (∀ k : Fin 4096, x[k.val] = stores.foldl Store.update m.ram.flat f k) ∧
        (∀ i, ∃ e, m'.ram.entry f i = .ok e ∧ e.toWord = x.littleEndian i) ∧
        x.presentCount = allSlots.countP fun i => (x.littleEndian i).testBit 0) ∧
      (∀ f i e m₂, writeEntry f i e m' = .ok ((), m₂) → ∀ g k, m₂.ram.flat g k =
        if g = f ∧ k.val / 4 = i.val then UInt8.ofNat (e.toWord >>> (8 * (k.val % 4)))
        else m'.ram.flat g k) ∧
      (∀ s : Store, ∀ m₂, s.perform m' = .ok ((), m₂) → ∀ g, g ≠ s.target →
        m₂.ram.frame? g = m'.ram.frame? g) ∧
      ∀ source target : FrameId, source.index < m.ram.size → target.index < m.ram.size →
        copyFrame source target m' = copyBytes source target m' := by
  have size : (stores.foldl Store.apply m.ram).size = m.ram.size := Store.size_foldl_apply _ _
  refine ⟨_, Store.forM_perform within, rfl, size, fun f inside => ?_,
    fun f i e m₂ run => Store.flat_of_writeEntry run, fun s m₂ run g => Store.frame?_of_perform run,
    fun source target hs ht => ?_⟩
  · have inside' : f.index < (stores.foldl Store.apply m.ram).size := size.symm ▸ inside
    refine ⟨_, Ram.frame_eq_bytes inside', fun k => ?_, fun i =>
      ⟨_, Ram.entry_eq_bytes inside' i, Frame.toWord_entry _ i⟩, Frame.presentCount_eq _⟩
    exact congrFun (congrFun (Store.flat_foldl within) f) k
  · rw [Store.copyFrame_eq, Store.copyBytes_eq]
    all_goals
      rw [size]
      assumption

section Tiny

/-- A frame is written to by the byte and by the entry, and then copied. -/
def tinyStores : List Store :=
  [.bytes (tinyFrame 3) 7 [255, 1, 2] (by decide),
    .entry (tinyFrame 3) ⟨2, by decide⟩ (.link (tinyFrame 4)), .copy (tinyFrame 3) (tinyFrame 5)]

/-- The entry takes the place of two of the bytes, and the copy has what is left of all. -/
theorem stores_meet_in_the_bytes_tiny :
    (∀ s ∈ tinyStores, s.Within Machine.tiny.ram.size) ∧
    ∃ m' x, tinyStores.forM Store.perform .tiny = .ok ((), m') ∧
      m'.ram.frame (tinyFrame 5) = .ok x ∧ x[7] = 255 ∧ x[8] = 0x07 ∧ x[9] = 0x40 ∧ x[10] = 0 := by
  have within : ∀ s ∈ tinyStores, s.Within Machine.tiny.ram.size := by
    have size : Machine.tiny.ram.size = 8 := by decide
    rw [size]
    simp [tinyStores, Store.Within, Store.target, tinyFrame]
  obtain ⟨m', run, -, -, frames, -⟩ := stores_meet_in_the_bytes within
  obtain ⟨x, held, bytes, -⟩ := frames (tinyFrame 5) (by decide)
  -- What was in memory before does not matter.
  have byte (k : Fin 4096) (c : UInt8)
      (updated : ∀ b, tinyStores.foldl Store.update b (tinyFrame 5) k = c) : x[k.val] = c :=
    (bytes k).trans (updated _)
  exact ⟨within, m', x, run, held, byte 7 _ fun _ => rfl, byte 8 _ fun _ => rfl,
    byte 9 _ fun _ => rfl, byte 10 _ fun _ => rfl⟩

end Tiny

end PagedMemory
