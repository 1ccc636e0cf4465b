import Mathlib.Data.Finset.Basic
import PagedMemory.Proofs.Contract
import PagedMemory.Space.Basic

/-!
# What a machine shows

The page tables of all live spaces lie in the memory that they describe, so one store
can change a byte of one process or the whole of another. A `View` takes the two apart:
the tables as functions of a space and a pair of slots, the counts, and the bytes of
the frames that hold neither tables nor nothing. `Machine.Shows` says that a machine
looks like a view.

Frames that are free are left out of a view, and so are the bytes of a table beside its
entries. Operations are described by what they do to the view: two machines that show
the same view differ at most in bytes that nobody can reach.
-/

namespace PagedMemory

namespace Ram

/-- The bytes of a frame, zeros past the end of memory. -/
def bytes (r : Ram) (f : FrameId) : Frame :=
  (r.frame? f).getD Frame.zero

theorem frame?_eq_bytes {r : Ram} {f : FrameId} (inside : f.index < r.size) :
    r.frame? f = some (r.bytes f) := by
  cases found : r.frame? f with
  | none =>
    have := frame?_eq_none_iff.mp found
    omega
  | some b => simp only [bytes, found, Option.getD_some]

theorem frame_eq_bytes {r : Ram} {f : FrameId} (inside : f.index < r.size) :
    r.frame f = .ok (r.bytes f) := by
  simp only [frame, frame?_eq_bytes inside]

theorem entry_eq_bytes {r : Ram} {f : FrameId} (inside : f.index < r.size) (i : Slot) :
    r.entry f i = .ok ((r.bytes f).entry i) := by
  simp only [entry, frame?_eq_bytes inside]

theorem entry_congr {r r' : Ram} {f : FrameId} (same : r'.frame? f = r.frame? f) (i : Slot) :
    r'.entry f i = r.entry f i := by
  simp only [entry, same]

theorem bytes_modify_self {r : Ram} {f : FrameId} (change : Frame → Frame)
    (inside : f.index < r.size) : (r.modify f change).bytes f = change (r.bytes f) := by
  rw [bytes, frame?_modify_self, frame?_eq_bytes inside]
  rfl

theorem bytes_modify_of_ne {r : Ram} {f g : FrameId} (change : Frame → Frame) (h : g ≠ f) :
    (r.modify f change).bytes g = r.bytes g := by
  simp only [bytes, frame?_modify_of_ne r change h]

end Ram

/-- The directory slot and the table slot of a page. -/
abbrev Place := Slot × Slot

namespace Space

/-- The page table that a directory slot links. -/
def link (s : Space) (r : Ram) (i : Slot) : Option FrameId :=
  ((r.bytes s.root).entry i).target

/-- The entry of a page, that of an empty slot if no page table covers the page. -/
def leaf (s : Space) (r : Ram) (k : Place) : Entry :=
  match s.link r k.1 with
  | some table => (r.bytes table).entry k.2
  | none => .zero

/-- An entry of the space maps the page of an address. -/
def Maps (s : Space) (r : Ram) (va : VirtualAddress) : Prop :=
  (s.leaf r va.splitSlots).present = true

theorem leaf_of_link {s : Space} {r : Ram} {i j : Slot} {table : FrameId}
    (linked : s.link r i = some table) : s.leaf r (i, j) = (r.bytes table).entry j := by
  simp only [leaf, linked]

theorem leaf_of_vacant {s : Space} {r : Ram} {i j : Slot} (vacant : s.link r i = none) :
    s.leaf r (i, j) = .zero := by
  simp only [leaf, vacant]

theorem link_congr {s : Space} {r r' : Ram} (root : r'.bytes s.root = r.bytes s.root)
    (i : Slot) : s.link r' i = s.link r i := by
  simp only [link, root]

/-- The entries of a space follow from the bytes of its directory and tables. -/
theorem leaf_congr {s : Space} {r r' : Ram} (root : r'.bytes s.root = r.bytes s.root)
    {k : Place} (tables : ∀ t, s.link r k.1 = some t → r'.bytes t = r.bytes t) :
    s.leaf r' k = s.leaf r k := by
  simp only [leaf, link_congr root]
  cases linked : s.link r k.1 with
  | none => rfl
  | some t => simp only [tables t linked]

theorem tableAt_eq {s : Space} {r : Ram} (inside : s.root.index < r.size) (i : Slot) :
    s.tableAt r i = .ok (s.link r i) := by
  simp only [tableAt, Ram.entry_eq_bytes inside, Except.map, link]

/-- The directory of a space and the page tables that it links lie in memory. -/
structure Inside (s : Space) (r : Ram) : Prop where
  root : s.root.index < r.size
  table : ∀ i t, s.link r i = some t → t.index < r.size

theorem entry_eq {s : Space} {r : Ram} {va : VirtualAddress} (inside : s.Inside r) :
    s.entry r va =
      .ok ((s.link r va.directorySlot).map fun _ => s.leaf r va.splitSlots) := by
  simp only [entry, tableOf, tableAt_eq inside.root]
  cases linked : s.link r va.directorySlot with
  | none => rfl
  | some t =>
    simp only [Ram.entry_eq_bytes (inside.table _ t linked), Except.map, Option.map_some,
      Address.splitSlots, leaf_of_link linked]

end Space

/-- What can be seen of a machine with a set of live spaces. -/
structure View where
  layout : Layout
  /-- The number of frames that memory has. -/
  size : Nat
  config : Config
  live : Finset Space
  link : Space → Slot → Option FrameId
  leaf : Space → Place → Entry
  count : FrameId → Nat
  bytes : FrameId → Frame
  flushes : Nat
  reads : Array (DeviceId × BlockNumber)
  terminations : Array (Pid × MemoryError)

namespace View

/-- Whether the references to a frame are counted. -/
def tracks (v : View) (f : FrameId) : Bool :=
  v.layout.low.value ≤ f.base.value && f.base.value < v.layout.high.value

/-- The frame is tracked and nobody refers to it. -/
def Free (v : View) (f : FrameId) : Prop :=
  v.tracks f = true ∧ v.count f = 0

/-- The frame holds a directory or a page table. -/
def Structural (v : View) (f : FrameId) : Prop :=
  ∃ s ∈ v.live, s.root = f ∨ ∃ i, v.link s i = some f

/-- The bytes of the frame are not part of the view. -/
def Hidden (v : View) (f : FrameId) : Prop :=
  v.Free f ∨ v.Structural f

/-- Directories and tables lie in memory, and no frame serves as two of them. -/
structure Separate (v : View) : Prop where
  root_inside : ∀ s ∈ v.live, s.root.index < v.size
  table_inside : ∀ s ∈ v.live, ∀ i t, v.link s i = some t → t.index < v.size
  table_ne_root : ∀ s ∈ v.live, ∀ i t, v.link s i = some t → ∀ s' ∈ v.live, s'.root ≠ t
  table_unique : ∀ s ∈ v.live, ∀ i t, v.link s i = some t →
    ∀ s' ∈ v.live, ∀ i', v.link s' i' = some t → s' = s ∧ i' = i

/-- The layout is accepted and memory ends where it says. -/
def Fits (v : View) : Prop :=
  v.layout.Valid ∧ v.size = v.layout.high.value / 4096

section Frames

variable {v : View} {f : FrameId}

theorem tracks_iff : v.tracks f = true ↔
    v.layout.low.value ≤ f.index * 4096 ∧ f.index * 4096 < v.layout.high.value := by
  rw [tracks, Bool.and_eq_true, decide_eq_true_eq, decide_eq_true_eq]
  simp only [Page.value_base, PageSize.bytes]

theorem Fits.base_lt (fits : v.Fits) (inside : f.index < v.size) :
    f.base.value < v.layout.high.value := by
  have := fits.2
  simp only [Page.value_base, PageSize.bytes]
  omega

theorem Fits.inside (fits : v.Fits) (tracked : v.tracks f = true) : f.index < v.size := by
  have size := fits.2
  have aligned := fits.1.aligned.2.2
  simp only [Address.isAligned, PageSize.bytes, beq_iff_eq] at aligned
  have := tracks_iff.mp tracked
  omega

theorem Fits.base_lt_low (fits : v.Fits) (inside : f.index < v.size)
    (untracked : ¬ v.tracks f = true) : f.base.value < v.layout.low.value := by
  have := fits.base_lt inside
  rw [tracks_iff] at untracked
  simp only [Page.value_base, PageSize.bytes] at *
  omega

theorem ne_table_of_data {s : Space} {i : Slot} {t : FrameId} (data : ¬ v.Structural f)
    (hs : s ∈ v.live) (linked : v.link s i = some t) : t ≠ f := by
  rintro rfl
  exact data ⟨s, hs, .inr ⟨i, linked⟩⟩

theorem ne_root_of_data {s : Space} (data : ¬ v.Structural f) (hs : s ∈ v.live) :
    s.root ≠ f :=
  fun same => data ⟨s, hs, .inl same⟩

end Frames

/-! ## Changes of a view -/

def setLeaf (v : View) (s : Space) (k : Place) (e : Entry) : View :=
  { v with leaf := fun s' k' => if s' = s ∧ k' = k then e else v.leaf s' k' }

def setLink (v : View) (s : Space) (i : Slot) (table : Option FrameId) : View :=
  { v with link := fun s' i' => if s' = s ∧ i' = i then table else v.link s' i' }

def setBytes (v : View) (f : FrameId) (b : Frame) : View :=
  { v with bytes := fun g => if g = f then b else v.bytes g }

def setCount (v : View) (f : FrameId) (n : Nat) : View :=
  { v with count := fun g => if g = f then n else v.count g }

/-- A free frame gets its first owner, who finds some bytes in it. -/
def grant (v : View) (f : FrameId) (b : Frame) : View :=
  (v.setCount f 1).setBytes f b

def retain (v : View) (f : FrameId) : View :=
  v.setCount f (if v.tracks f then v.count f + 1 else v.count f)

def release (v : View) (f : FrameId) : View :=
  v.setCount f (if v.tracks f then v.count f - 1 else v.count f)

def flushed (v : View) : View :=
  { v with flushes := v.flushes + 1 }

theorem Separate.setLeaf {v : View} (sep : v.Separate) (s : Space) (k : Place) (e : Entry) :
    (v.setLeaf s k e).Separate :=
  { sep with }

@[simp] theorem leaf_setLeaf_self (v : View) (s : Space) (k : Place) (e : Entry) :
    (v.setLeaf s k e).leaf s k = e :=
  if_pos ⟨rfl, rfl⟩

theorem leaf_setLeaf_of_ne {v : View} {s s' : Space} {k k' : Place} (e : Entry)
    (other : ¬ (s' = s ∧ k' = k)) : (v.setLeaf s k e).leaf s' k' = v.leaf s' k' :=
  if_neg other

theorem setLeaf_comm {v : View} {s s' : Space} {k k' : Place} (e e' : Entry) (apart : s ≠ s') :
    (v.setLeaf s k e).setLeaf s' k' e' = (v.setLeaf s' k' e').setLeaf s k e := by
  simp only [setLeaf]
  congr
  funext s₁ k₁
  by_cases first : s₁ = s ∧ k₁ = k
  · rw [if_pos first, if_neg fun second => apart (first.1.symm.trans second.1), if_pos first]
  · rw [if_neg first, if_neg first]

@[simp] theorem bytes_setBytes_self (v : View) (f : FrameId) (b : Frame) :
    (v.setBytes f b).bytes f = b :=
  if_pos rfl

theorem bytes_setBytes_of_ne {v : View} {f g : FrameId} (b : Frame) (other : g ≠ f) :
    (v.setBytes f b).bytes g = v.bytes g :=
  if_neg other

@[simp] theorem setCount_self (v : View) (f : FrameId) : v.setCount f (v.count f) = v := by
  simp only [setCount]
  congr
  funext g
  split
  · next same => rw [same]
  · rfl

theorem retain_of_tracked {v : View} {f : FrameId} (tracked : v.tracks f = true) :
    v.retain f = v.setCount f (v.count f + 1) := by
  rw [retain, if_pos tracked]

theorem retain_of_untracked {v : View} {f : FrameId} (untracked : ¬ v.tracks f = true) :
    v.retain f = v := by
  rw [retain, if_neg untracked, setCount_self]

theorem release_of_tracked {v : View} {f : FrameId} (tracked : v.tracks f = true) :
    v.release f = v.setCount f (v.count f - 1) := by
  rw [release, if_pos tracked]

theorem release_of_untracked {v : View} {f : FrameId} (untracked : ¬ v.tracks f = true) :
    v.release f = v := by
  rw [release, if_neg untracked, setCount_self]

/-- Giving up the last reference frees the frame. -/
theorem free_release {v : View} {f : FrameId} (tracked : v.tracks f = true)
    (one : v.count f = 1) : (v.release f).Free f := by
  rw [release_of_tracked tracked, one]
  exact ⟨tracked, if_pos rfl⟩

/-- A frame in use is no more free with one more reference. -/
theorem free_retain {v : View} {f g : FrameId} (used : ¬ v.Free f) :
    (v.retain f).Free g ↔ v.Free g := by
  by_cases same : g = f
  · rw [same]
    refine iff_of_false ?_ used
    rintro ⟨tracked, zero⟩
    change v.tracks f = true at tracked
    rw [retain, if_pos tracked] at zero
    exact Nat.succ_ne_zero _ ((if_pos rfl).symm.trans zero)
  · have count : (v.retain f).count g = v.count g := if_neg same
    unfold Free
    rw [count]
    rfl

end View

/-- The machine looks like the view. -/
structure Machine.Shows (m : Machine) (v : View) : Prop where
  layout : m.pool.layout = v.layout
  size : m.ram.size = v.size
  config : m.config = v.config
  link : ∀ s ∈ v.live, ∀ i, s.link m.ram i = v.link s i
  leaf : ∀ s ∈ v.live, ∀ k, s.leaf m.ram k = v.leaf s k
  count : ∀ f, v.tracks f = true → m.pool.count f = v.count f
  bytes : ∀ f, ¬ v.Hidden f → m.ram.bytes f = v.bytes f
  flushes : m.flushes = v.flushes
  reads : m.reads = v.reads
  terminations : m.terminations = v.terminations

/-- What the machine shows if these spaces are live. -/
def Machine.view (m : Machine) (live : Finset Space) : View where
  layout := m.pool.layout
  size := m.ram.size
  config := m.config
  live := live
  link := fun s i => s.link m.ram i
  leaf := fun s k => s.leaf m.ram k
  count := m.pool.count
  bytes := m.ram.bytes
  flushes := m.flushes
  reads := m.reads
  terminations := m.terminations

theorem Machine.Shows.space_inside {m : Machine} {v : View} {s : Space} (shows : m.Shows v)
    (sep : v.Separate) (hs : s ∈ v.live) : s.Inside m.ram where
  root := shows.size ▸ sep.root_inside s hs
  table i t linked := shows.size ▸ sep.table_inside s hs i t ((shows.link s hs i).symm.trans linked)

theorem Machine.shows_view (m : Machine) (live : Finset Space) : m.Shows (m.view live) :=
  ⟨rfl, rfl, rfl, fun _ _ _ => rfl, fun _ _ _ => rfl, fun _ _ => rfl, fun _ _ => rfl, rfl, rfl, rfl⟩

end PagedMemory
