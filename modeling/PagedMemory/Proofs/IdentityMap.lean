import PagedMemory.Proofs.Start

/-!
# What the kernel maps

The loop over the directory slots makes one page table after the other, in frames that are
themselves among those that are mapped. What it leaves behind is stated as a function of the
memory before (`Ram.identityMapped`), whatever that memory held: nothing of the old contents is
left in the directory or in a table, and nothing else is written to.

The directory and the tables are told frame by frame. From there on a lookup takes two steps, and
the last table that is linked may be filled in part.
-/

namespace PagedMemory

/-! ## Filling a frame -/

namespace Frame

/-- The frame after entries have been stored in some of its slots. -/
def fill (x : Frame) (entries : Slot → Entry) (slots : List Slot) : Frame :=
  slots.foldl (fun x i => x.setEntry i (entries i)) x

theorem entry_fill (x : Frame) (entries : Slot → Entry) (slots : List Slot) (j : Slot) :
    (x.fill entries slots).entry j = if j ∈ slots then entries j else x.entry j := by
  induction slots generalizing x with
  | nil => rfl
  | cons i rest ih =>
    show ((x.setEntry i (entries i)).fill entries rest).entry j = _
    rw [ih]
    by_cases later : j ∈ rest
    · rw [if_pos later, if_pos (List.mem_cons_of_mem i later)]
    · rw [if_neg later]
      by_cases now : j = i
      · rw [now, entry_setEntry_self, if_pos List.mem_cons_self]
      · rw [entry_setEntry_of_ne _ _ now, if_neg (List.not_mem_cons_of_ne_of_not_mem now later)]

end Frame

/-- Entries that are written one after the other fill the frame. -/
theorem forM_writeEntry {m : Machine} {t : FrameId} (inside : t.index < m.ram.size)
    (entries : Slot → Entry) (slots : List Slot) :
    slots.forM (fun j => writeEntry t j (entries j)) m =
      .ok ((), { m with ram := m.ram.modify t fun x => x.fill entries slots }) := by
  induction slots generalizing m with
  | nil =>
    have untouched : m.ram.modify t (fun x => x.fill entries []) = m.ram :=
      Ram.modify_of_fixed fun _ _ => rfl
    rw [untouched]
    rfl
  | cons i rest ih =>
    refine bind_eq_ok_iff.mpr ⟨(), _, modifyFrame_eq_ok_iff.mpr ⟨inside, rfl⟩, ?_⟩
    rw [ih (by rwa [Ram.size_modify]), Ram.modify_modify]
    rfl

/-! ## The tables of the kernel -/

theorem Space.kernelTable_injective : Function.Injective kernelTable := fun _ _ same =>
  Fin.ext (Nat.succ.inj (congrArg Page.index same))

/-- The page table that the kernel makes for a slot when it maps `pages` frames. -/
def Space.identityTable (pages : Nat) (i : Slot) : Frame :=
  Frame.zero.fill (fun j => .make (identityFrame i j) .userWritable)
    (allSlots.filter fun j => i.val * 1024 + j.val < pages)

theorem Space.entry_identityTable (pages : Nat) (i j : Slot) :
    (identityTable pages i).entry j =
      if i.val * 1024 + j.val < pages then .make (identityFrame i j) .userWritable else .zero := by
  rw [identityTable, Frame.entry_fill, Frame.entry_zero]
  exact if_congr (by simp) rfl rfl

namespace Ram

variable {pages : Nat} {r : Ram} {slots : List Slot} {f : FrameId}

/-- Memory after the page table of a slot has been made and linked. -/
def tabulate (pages : Nat) (r : Ram) (i : Slot) : Ram :=
  (r.modify (Space.kernelTable i) fun _ => Space.identityTable pages i).modify Space.kernel.root
    fun x => x.setEntry i (.link (Space.kernelTable i))

/-- The slots for which the kernel makes a page table. -/
def identitySlots (pages : Nat) : List Slot :=
  allSlots.filter fun i => i.val * 1024 < pages

theorem nodup_identitySlots (pages : Nat) : (identitySlots pages).Nodup :=
  nodup_allSlots.filter _

theorem mem_identitySlots {i : Slot} : i ∈ identitySlots pages ↔ i.val * 1024 < pages := by
  simp [identitySlots]

/-- Memory after the space of the kernel has been made. It is irreducible, as comparing two
machines would run the loop otherwise. -/
@[irreducible] def identityMapped (r : Ram) (pages : Nat) : Ram :=
  (identitySlots pages).foldl (tabulate pages) (r.modify Space.kernel.root fun _ => Frame.zero)

theorem identityMapped_eq (r : Ram) (pages : Nat) : r.identityMapped pages =
    (identitySlots pages).foldl (tabulate pages)
      (r.modify Space.kernel.root fun _ => Frame.zero) := by
  unfold identityMapped
  rfl

@[simp] theorem size_tabulate (pages : Nat) (r : Ram) (i : Slot) :
    (tabulate pages r i).size = r.size := by
  rw [tabulate, size_modify, size_modify]

@[simp] theorem size_foldl_tabulate (pages : Nat) (r : Ram) (slots : List Slot) :
    (slots.foldl (tabulate pages) r).size = r.size := by
  induction slots generalizing r with
  | nil => rfl
  | cons i rest ih => rw [List.foldl_cons, ih, size_tabulate]

/-- Only the directory and the table of the slot are written to. -/
theorem frame?_tabulate_of_ne {i : Slot} (root : f ≠ Space.kernel.root)
    (table : f ≠ Space.kernelTable i) : (tabulate pages r i).frame? f = r.frame? f := by
  rw [tabulate, frame?_modify_of_ne _ _ root, frame?_modify_of_ne _ _ table]

theorem frame?_foldl_tabulate_of_ne (root : f ≠ Space.kernel.root)
    (tables : ∀ i ∈ slots, f ≠ Space.kernelTable i) :
    (slots.foldl (tabulate pages) r).frame? f = r.frame? f := by
  induction slots generalizing r with
  | nil => rfl
  | cons i rest ih =>
    rw [List.foldl_cons, ih fun i' later => tables i' (List.mem_cons_of_mem i later),
      frame?_tabulate_of_ne root (tables i List.mem_cons_self)]

/-- A table that has been made is not written to for any other slot. -/
theorem bytes_foldl_tabulate {i : Slot} (once : slots.Nodup) (among : i ∈ slots)
    (inside : (Space.kernelTable i).index < r.size) :
    (slots.foldl (tabulate pages) r).bytes (Space.kernelTable i) = Space.identityTable pages i := by
  have apart := Space.kernelTable_ne_root i
  induction slots generalizing r with
  | nil => cases among
  | cons first rest ih =>
    obtain ⟨fresh, once⟩ := List.nodup_cons.mp once
    rw [List.foldl_cons]
    rcases List.mem_cons.mp among with rfl | later
    · rw [bytes, frame?_foldl_tabulate_of_ne apart fun i' later same =>
        fresh (Space.kernelTable_injective same ▸ later)]
      show (tabulate pages r i).bytes (Space.kernelTable i) = _
      rw [tabulate, bytes_modify_of_ne _ apart, bytes_modify_self _ inside]
    · exact ih once later (by rwa [size_tabulate])

/-- The directory is filled slot by slot. -/
theorem bytes_root_foldl_tabulate (inside : Space.kernel.root.index < r.size) :
    (slots.foldl (tabulate pages) r).bytes Space.kernel.root =
      (r.bytes Space.kernel.root).fill (fun i => .link (Space.kernelTable i)) slots := by
  induction slots generalizing r with
  | nil => rfl
  | cons i rest ih =>
    have first : (tabulate pages r i).bytes Space.kernel.root =
        (r.bytes Space.kernel.root).setEntry i (.link (Space.kernelTable i)) := by
      rw [tabulate, bytes_modify_self _ (by rwa [size_modify]),
        bytes_modify_of_ne _ (Space.kernelTable_ne_root i).symm]
    rw [List.foldl_cons, ih (by rwa [size_tabulate]), first]
    rfl

end Ram

/-! ## The space of the kernel -/

theorem Address.slots_value (va : VirtualAddress) :
    va.directorySlot.val * 1024 + va.tableSlot.val = va.value / 4096 := by
  simp only [directorySlot, tableSlot]
  omega

section Kernel

variable {pages : Nat} {r : Ram} {i j : Slot} {va : VirtualAddress}

/-- Two frames have room for the directory and one table, and a table more takes more frames. -/
theorem Space.kernelTable_lt (room : 2 ≤ pages) (used : i.val * 1024 < pages) :
    (kernelTable i).index < pages := by
  show i.val + 1 < pages
  omega

theorem Ram.size_identityMapped (r : Ram) (pages : Nat) :
    (r.identityMapped pages).size = r.size := by
  rw [identityMapped_eq, size_foldl_tabulate, size_modify]

/-- The frames behind the last table hold what they held before. -/
theorem Ram.frame?_identityMapped_of_lt {f : FrameId} (behind : (pages + 1023) / 1024 < f.index) :
    (r.identityMapped pages).frame? f = r.frame? f := by
  have root : f ≠ Space.kernel.root := by
    rintro rfl
    exact absurd behind (Nat.not_lt_zero _)
  rw [identityMapped_eq, frame?_foldl_tabulate_of_ne root, frame?_modify_of_ne _ _ root]
  rintro i used rfl
  have := mem_identitySlots.mp used
  change (pages + 1023) / 1024 < i.val + 1 at behind
  omega

namespace Space

variable (room : 2 ≤ pages) (backed : pages ≤ r.size)

include room backed

theorem root_lt : kernel.root.index < r.size := by
  show 0 < r.size
  omega

theorem link_identityMapped : kernel.link (r.identityMapped pages) i =
    if i.val * 1024 < pages then some (kernelTable i) else none := by
  have inside := root_lt room backed
  rw [link, Ram.identityMapped_eq, Ram.bytes_root_foldl_tabulate (by rwa [Ram.size_modify]),
    Ram.bytes_modify_self _ inside, Frame.entry_fill, Frame.entry_zero]
  simp only [Ram.mem_identitySlots]
  split <;> rfl

theorem inside_identityMapped : kernel.Inside (r.identityMapped pages) where
  root := by
    rw [Ram.size_identityMapped]
    exact root_lt room backed
  table i t linked := by
    rw [link_identityMapped room backed] at linked
    split at linked
    · next used =>
      cases linked
      rw [Ram.size_identityMapped]
      exact Nat.lt_of_lt_of_le (kernelTable_lt room used) backed
    · cases linked

/-- The tables map a frame at its own address, up to the last one and no further. -/
theorem leaf_identityMapped : kernel.leaf (r.identityMapped pages) (i, j) =
    if i.val * 1024 + j.val < pages then .make (identityFrame i j) .userWritable else .zero := by
  have linked := link_identityMapped (i := i) room backed
  by_cases used : i.val * 1024 < pages
  · rw [if_pos used] at linked
    have inside : (kernelTable i).index < r.size :=
      Nat.lt_of_lt_of_le (kernelTable_lt room used) backed
    rw [leaf_of_link linked, Ram.identityMapped_eq, Ram.bytes_foldl_tabulate
      (Ram.nodup_identitySlots pages) (Ram.mem_identitySlots.mpr used) (by rwa [Ram.size_modify]),
      entry_identityTable]
  · rw [if_neg used] at linked
    have unused : ¬ i.val * 1024 + j.val < pages :=
      fun h => used (Nat.lt_of_le_of_lt (Nat.le_add_right _ _) h)
    rw [leaf_of_vacant linked, if_neg unused]

/-- A page below the end of the mapped frames has an entry of its own. -/
theorem entry_identityMapped (below : va.value / 4096 < pages) :
    kernel.entry (r.identityMapped pages) va = .ok (some
      (.make (identityFrame va.directorySlot va.tableSlot) .userWritable)) := by
  have inside := inside_identityMapped room backed
  have page := va.slots_value
  have used : va.directorySlot.val * 1024 < pages :=
    Nat.lt_of_le_of_lt (Nat.le.intro page) below
  rw [entry_eq inside, link_identityMapped room backed, if_pos used,
    Address.splitSlots, leaf_identityMapped room backed, page, if_pos below]
  rfl

theorem locate_identityMapped (below : va.value / 4096 < pages) :
    kernel.locate (r.identityMapped pages) va = .ok (some ⟨va.value, va.value_lt⟩) := by
  have own : (identityFrame va.directorySlot va.tableSlot).join (va.offset .small) =
      ⟨va.value, va.value_lt⟩ := by
    ext
    show (va.directorySlot.val * 1024 + va.tableSlot.val) * 4096 + va.value % 4096 = va.value
    rw [va.slots_value, Nat.div_add_mod']
  rw [locate, entry_identityMapped room backed below, ← own]
  rfl

theorem locate_identityMapped_of_le (above : pages ≤ va.value / 4096) :
    kernel.locate (r.identityMapped pages) va = .ok none := by
  have inside := inside_identityMapped room backed
  have empty : kernel.leaf (r.identityMapped pages) va.splitSlots = .zero := by
    rw [Address.splitSlots, leaf_identityMapped room backed, va.slots_value,
      if_neg (Nat.not_lt.mpr above)]
  rw [locate, entry_eq inside, empty]
  cases kernel.link (r.identityMapped pages) va.directorySlot <;> rfl

end Space

end Kernel

/-! ## Making it -/

section Making

variable {pages : Nat} {m : Machine}

theorem mapIdentity_eq {i : Slot} (root : Space.kernel.root.index < m.ram.size)
    (table : (Space.kernelTable i).index < m.ram.size) :
    Space.mapIdentity pages i m = .ok ((), { m with ram := m.ram.tabulate pages i }) := by
  have zeroed : zeroFrame (Space.kernelTable i) m = .ok ((), { m with
      ram := m.ram.modify (Space.kernelTable i) fun _ => Frame.zero }) :=
    modifyFrame_eq_ok_iff.mpr ⟨table, rfl⟩
  unfold Space.mapIdentity
  rw [bind_of_run zeroed, bind_of_run (forM_writeEntry (by rwa [Ram.size_modify]) _ _),
    Ram.modify_modify]
  exact modifyFrame_eq_ok_iff.mpr ⟨by rwa [Ram.size_modify], rfl⟩

theorem forM_mapIdentity {slots : List Slot} (root : Space.kernel.root.index < m.ram.size)
    (tables : ∀ i ∈ slots, (Space.kernelTable i).index < m.ram.size) :
    slots.forM (Space.mapIdentity pages) m =
      .ok ((), { m with ram := slots.foldl (Ram.tabulate pages) m.ram }) := by
  induction slots generalizing m with
  | nil => rfl
  | cons i rest ih =>
    refine bind_eq_ok_iff.mpr ⟨(), _, mapIdentity_eq root (tables i List.mem_cons_self), ?_⟩
    refine ih (by rwa [Ram.size_tabulate]) fun i' later => ?_
    rw [Ram.size_tabulate]
    exact tables i' (List.mem_cons_of_mem i later)

/-- Nothing but the counter of flushes can stop the kernel from making its space. -/
theorem initKernel_eq_ok_iff {s : Space} {m' : Machine}
    (low : pages = m.pool.layout.low.value / 4096) (room : 2 ≤ pages)
    (backed : pages ≤ m.ram.size) :
    Space.initKernel m = .ok (s, m') ↔ m.flushes + 1 < flushLimit ∧ s = Space.kernel ∧
      m' = { m with
        ram := m.ram.identityMapped pages
        flushes := m.flushes + 1
        events := m.events.push (.kernelMapped m.pool.layout.low.value) } := by
  have root := Space.root_lt room backed
  have zeroed : zeroFrame Space.kernel.root m = .ok ((), { m with
      ram := m.ram.modify Space.kernel.root fun _ => Frame.zero }) :=
    modifyFrame_eq_ok_iff.mpr ⟨root, rfl⟩
  have mapped : (Ram.identitySlots pages).forM (Space.mapIdentity pages) { m with
      ram := m.ram.modify Space.kernel.root fun _ => Frame.zero } =
        .ok ((), { m with ram := m.ram.identityMapped pages }) := by
    rw [Ram.identityMapped_eq]
    refine forM_mapIdentity (by rwa [Ram.size_modify]) fun i used => ?_
    rw [Ram.size_modify]
    exact Nat.lt_of_lt_of_le (Space.kernelTable_lt room (Ram.mem_identitySlots.mp used)) backed
  have upToFlush : Space.initKernel m = (do
      flush
      remark (.kernelMapped m.pool.layout.low.value)
      return Space.kernel : Kernel Space) { m with ram := m.ram.identityMapped pages } := by
    subst low
    have seen : inspect (fun m => .ok m.pool.layout) m = .ok (m.pool.layout, m) := rfl
    exact (bind_of_run seen).trans ((bind_of_run zeroed).trans (bind_of_run mapped))
  rw [upToFlush, bind_eq_ok_iff]
  constructor
  · rintro ⟨_, m₁, flushed, run⟩
    obtain ⟨counted, rfl⟩ := flush_eq_ok_iff.mp flushed
    cases run
    exact ⟨counted, rfl, rfl⟩
  · rintro ⟨counted, rfl, rfl⟩
    exact ⟨(), _, flush_eq_ok_iff.mpr ⟨counted, rfl⟩, rfl⟩

end Making

/-- Whatever memory held before, as long as it reaches past the kernel's part of it, the kernel gets
a space in which the addresses of its own memory are those of the frames there, open to be written
to by anyone, and no other address is mapped. The directory and the tables are the first frames of
that memory, one table for every 4 MiB that have begun, and only they are written to. No count
changes, and the cache is emptied once: only if that cannot be counted, the kernel stops. -/
theorem kernel_space_is_identity {m : Machine} (room : 8192 ≤ m.pool.layout.low.value)
    (backed : m.pool.layout.low.value / 4096 ≤ m.ram.size) :
    ((∃ cause, Space.initKernel m = .error cause) ↔ flushLimit ≤ m.flushes + 1) ∧
    ∀ s m', Space.initKernel m = .ok (s, m') →
      (∀ va : VirtualAddress, va.value < m.pool.layout.low.value →
        s.locate m'.ram va = .ok (some ⟨va.value, va.value_lt⟩) ∧
        ∃ e, s.entry m'.ram va = .ok (some e) ∧ e.present = true ∧ e.writable = true ∧
          e.userAccess = true) ∧
      (∀ va : VirtualAddress, m.pool.layout.low.value ≤ va.value →
        s.locate m'.ram va = .ok none) ∧
      (∀ f : FrameId, (m.pool.layout.low.value + 4194303) / 4194304 < f.index →
        m'.ram.frame? f = m.ram.frame? f) ∧
      (∀ f : FrameId, f.index ≤ (m.pool.layout.low.value + 4194303) / 4194304 →
        f.base.value + 4096 ≤ m.pool.layout.low.value) ∧
      m'.ram.size = m.ram.size ∧
      m' = { m with ram := m'.ram, flushes := m.flushes + 1, events := m'.events } := by
  have aligned := m.pool.valid.aligned.1
  simp only [Address.isAligned, PageSize.bytes, beq_iff_eq] at aligned
  have two : 2 ≤ m.pool.layout.low.value / 4096 := by omega
  constructor
  · constructor
    · rintro ⟨cause, stop⟩
      by_contra counted
      have run := (initKernel_eq_ok_iff rfl two backed).mpr ⟨Nat.not_le.mp counted, rfl, rfl⟩
      cases stop.symm.trans run
    · intro full
      cases run : Space.initKernel m with
      | error cause => exact ⟨cause, rfl⟩
      | ok result =>
        obtain ⟨counted, -⟩ := (initKernel_eq_ok_iff (s := result.1) rfl two backed).mp run
        exact absurd full (Nat.not_le.mpr counted)
  · intro s m' run
    obtain ⟨-, rfl, rfl⟩ := (initKernel_eq_ok_iff rfl two backed).mp run
    refine ⟨fun va below => ?_, fun va above => ?_, fun f behind => ?_, fun f among => ?_,
      Ram.size_identityMapped _ _, rfl⟩
    · have page : va.value / 4096 < m.pool.layout.low.value / 4096 := by omega
      exact ⟨Space.locate_identityMapped two backed page, _,
        Space.entry_identityMapped two backed page, rfl, rfl, rfl⟩
    · exact Space.locate_identityMapped_of_le two backed (by omega)
    · exact Ram.frame?_identityMapped_of_lt (by omega)
    · rw [Page.value_base, PageSize.bytes]
      omega

section Spanning

/-- A layout in which the memory of the kernel takes a second page table for its last page. -/
def Layout.spanning : Layout :=
  ⟨⟨4198400, by decide⟩, ⟨4198400, by decide⟩, ⟨4231168, by decide⟩⟩

theorem Layout.valid_spanning : Layout.spanning.Valid :=
  ⟨by decide, by decide, by decide, by decide⟩

/-- A machine with memory that was in use before. -/
def Machine.spanning : Machine :=
  { Machine.start .standard .spanning Layout.valid_spanning .lowest 0 with
    ram := ⟨Array.replicate 1033 (Vector.replicate 4096 255)⟩ }

/-- The second table maps one page, and the frame behind it is not written to. -/
theorem kernel_space_is_identity_spanning :
    8192 ≤ Machine.spanning.pool.layout.low.value ∧ 1025 ≤ Machine.spanning.ram.size ∧
    ∃ s m', Space.initKernel .spanning = .ok (s, m') ∧
      s.locate m'.ram (Slot.join 1 0) = .ok (some (Space.identityFrame 1 0).base) ∧
      s.locate m'.ram (Slot.join 1 1) = .ok none ∧
      m'.ram.frame? (tinyFrame 3) = Machine.spanning.ram.frame? (tinyFrame 3) := by
  have room : 8192 ≤ Machine.spanning.pool.layout.low.value := by decide
  have size : Machine.spanning.ram.size = 1033 := Array.size_replicate
  have backed : Machine.spanning.pool.layout.low.value / 4096 ≤ Machine.spanning.ram.size := by
    rw [size]
    decide
  have counted : ¬ flushLimit ≤ Machine.spanning.flushes + 1 := by decide
  obtain ⟨stops, made⟩ := kernel_space_is_identity room backed
  cases run : Space.initKernel .spanning with
  | error cause => exact absurd (stops.mp ⟨cause, run⟩) counted
  | ok result =>
    obtain ⟨below, above, others, -⟩ := made result.1 result.2 run
    exact ⟨room, size ▸ by decide, result.1, result.2, rfl, (below (Slot.join 1 0) (by decide)).1,
      above (Slot.join 1 1) (by decide), others (tinyFrame 3) (by decide)⟩

end Spanning

end PagedMemory
