import PagedMemory.Proofs.Auditing

/-!
# Walks and lookups

A lookup takes an address apart into two slots; a walk goes through the slots and puts addresses
together. Both find the same: a walk lists what lookups would find at the start of every page, in
ascending order, and the report counts what the walk lists under each page table. All that is
asked of memory is that the directory and the tables lie in it.

The pages of the linear address space and the pairs of slots correspond to each other, one to one
(`Address.bijective_splitSlots`).
-/

namespace PagedMemory

/-! ## Slots and pages -/

namespace Slot

theorem value_join (i j : Slot) : (join i j).value = i.val <<< 22 ||| j.val <<< 12 := by
  have below : j.val <<< 12 < 2 ^ 22 := by
    rw [Nat.shiftLeft_eq]
    have := j.isLt
    omega
  rw [← Nat.shiftLeft_add_eq_or_of_lt below, Nat.shiftLeft_eq, Nat.shiftLeft_eq]
  rfl

/-- The addresses of table entries ascend in the order of the pairs of slots. -/
theorem join_lt_join {i i' j j' : Slot} :
    (join i j).value < (join i' j').value ↔ i < i' ∨ i = i' ∧ j < j' := by
  have := j.isLt
  have := j'.isLt
  rw [Fin.lt_def, Fin.lt_def, Fin.ext_iff]
  simp only [join]
  omega

@[simp] theorem directorySlot_base (i : Slot) : i.base.directorySlot = i := by
  ext
  simp only [Address.directorySlot, base]
  omega

end Slot

namespace Address

theorem tableSlot_eq_shift (va : VirtualAddress) :
    va.tableSlot.val = va.value >>> 12 &&& 0x3FF := by
  have mask : (0x3FF : Nat) = 2 ^ 10 - 1 := rfl
  rw [mask, Nat.and_two_pow_sub_one_eq_mod, Nat.shiftRight_eq_div_pow]
  rfl

/-- Different pages have different slots, and every pair of slots has a page. -/
theorem bijective_splitSlots :
    Function.Bijective fun page : Page .virtual .small => page.base.splitSlots := by
  refine Function.bijective_iff_has_inverse.mpr
    ⟨fun k => (Slot.join k.1 k.2).page .small, fun page => ?_, fun k => ?_⟩
  · show (Slot.join page.base.directorySlot page.base.tableSlot).page .small = page
    rw [join_slots, page_alignDown, page_base]
  · show ((Slot.join k.1 k.2).alignDown .small).splitSlots = k
    rw [splitSlots_alignDown, splitSlots, directorySlot_join, tableSlot_join]

end Address

/-! ## What a walk lists -/

theorem Frame.ascending_presentEntries (b : Frame) :
    b.presentEntries.Pairwise fun x y => x.1 < y.1 := by
  have sorted := (List.sortedLT_finRange 1024).pairwise
  exact (sorted.map (fun i => (i, b.entry i)) fun _ _ below => below).filter _

namespace Space

variable {s : Space} {r : Ram} {i : Slot}

/-- The pages that the page table of a slot maps, with their entries. -/
def pagesBelow (r : Ram) (linked : Slot × FrameId) : List (VirtualAddress × Entry) :=
  (r.bytes linked.2).presentEntries.map fun entry => (Slot.join linked.1 entry.1, entry.2)

/-- The pages that a space maps, with their entries. -/
def pages (s : Space) (r : Ram) : List (VirtualAddress × Entry) :=
  ((s.linked r).map (pagesBelow r)).flatten

theorem ascending_linked (s : Space) (r : Ram) :
    (s.linked r).Pairwise fun x y => x.1 < y.1 :=
  (Frame.ascending_presentEntries _).map _ fun _ _ below => below

theorem mem_pagesBelow {linked : Slot × FrameId} {va : VirtualAddress} {e : Entry} :
    (va, e) ∈ pagesBelow r linked ↔
      ∃ j, (r.bytes linked.2).entry j = e ∧ e.present = true ∧ Slot.join linked.1 j = va := by
  simp only [pagesBelow, List.mem_map, Prod.exists, Frame.mem_presentEntries, Prod.mk.injEq]
  constructor
  · rintro ⟨j, _, ⟨found, present⟩, joined, rfl⟩
    exact ⟨j, found, present, joined⟩
  · rintro ⟨j, found, present, joined⟩
    exact ⟨j, e, ⟨found, present⟩, joined, rfl⟩

theorem directorySlot_of_mem_pagesBelow {linked : Slot × FrameId} {x : VirtualAddress × Entry}
    (listed : x ∈ pagesBelow r linked) : x.1.directorySlot = linked.1 := by
  obtain ⟨j, -, -, joined⟩ := mem_pagesBelow.mp listed
  rw [← joined, Address.directorySlot_join]

/-- A page is listed exactly if a lookup of its first address finds a present entry. -/
theorem mem_pages (inside : s.Inside r) {va : VirtualAddress} {e : Entry} :
    (va, e) ∈ s.pages r ↔
      va.isAligned .small = true ∧ s.entry r va = .ok (some e) ∧ e.present = true := by
  have lookup : s.entry r va = _ := entry_eq inside
  simp only [pages, List.mem_flatten, List.mem_map, Prod.exists, mem_linked]
  constructor
  · rintro ⟨_, ⟨i, t, link, rfl⟩, listed⟩
    obtain ⟨j, found, present, rfl⟩ := mem_pagesBelow.mp listed
    refine ⟨?_, ?_, present⟩
    · simp only [Address.isAligned, Slot.join, PageSize.bytes, beq_iff_eq]
      omega
    · rw [lookup, Address.directorySlot_join, link, Address.splitSlots,
        Address.directorySlot_join, Address.tableSlot_join, leaf_of_link link, found]
      rfl
  · rintro ⟨aligned, found, present⟩
    rw [lookup] at found
    cases link : s.link r va.directorySlot with
    | none =>
      rw [link] at found
      cases found
    | some t =>
      rw [link, Address.splitSlots, leaf_of_link link] at found
      cases found
      refine ⟨_, ⟨va.directorySlot, t, link, rfl⟩, mem_pagesBelow.mpr ⟨_, rfl, present, ?_⟩⟩
      rw [Address.join_slots, Address.alignDown_of_aligned aligned]

/-- Pages are listed table by table, and under each table slot by slot. -/
theorem ascending_pages (s : Space) (r : Ram) :
    (s.pages r).Pairwise fun x y => x.1.value < y.1.value := by
  refine List.pairwise_flatten.mpr ⟨?_, ?_⟩
  · rintro _ listed
    obtain ⟨linked, -, rfl⟩ := List.mem_map.mp listed
    refine (Frame.ascending_presentEntries _).map _ fun _ _ below => ?_
    exact Slot.join_lt_join.mpr (.inr ⟨rfl, below⟩)
  · refine (s.ascending_linked r).map _ fun first second below x hx y hy => ?_
    obtain ⟨j, -, -, here⟩ := mem_pagesBelow.mp hx
    obtain ⟨j', -, -, there⟩ := mem_pagesBelow.mp hy
    rw [← here, ← there]
    exact Slot.join_lt_join.mpr (.inl below)

/-! ## What the report counts -/

/-- Where tables are listed once, the pages under one of them are told by their directory slot. -/
theorem countP_pagesBelow {l : List (Slot × FrameId)} {linked : Slot × FrameId}
    (ascending : l.Pairwise fun x y => x.1 < y.1) (listed : linked ∈ l) :
    (l.map (pagesBelow r)).flatten.countP (fun x => x.1.directorySlot = linked.1) =
      (pagesBelow r linked).length := by
  have own : (pagesBelow r linked).countP (fun x => x.1.directorySlot = linked.1) =
      (pagesBelow r linked).length :=
    List.countP_eq_length.mpr fun x hx => decide_eq_true (directorySlot_of_mem_pagesBelow hx)
  have foreign {other : Slot × FrameId} (apart : other.1 ≠ linked.1)
      {x : VirtualAddress × Entry} (hx : x ∈ pagesBelow r other) :
      ¬ decide (x.1.directorySlot = linked.1) = true := by
    rwa [decide_eq_true_eq, directorySlot_of_mem_pagesBelow hx]
  induction l with
  | nil => cases listed
  | cons first rest ih =>
    obtain ⟨above, ascending⟩ := List.pairwise_cons.mp ascending
    rw [List.map_cons, List.flatten_cons, List.countP_append]
    rcases List.mem_cons.mp listed with rfl | later
    · rw [own, List.countP_eq_zero.mpr, Nat.add_zero]
      intro x hx
      obtain ⟨_, piece, hx⟩ := List.mem_flatten.mp hx
      obtain ⟨other, member, rfl⟩ := List.mem_map.mp piece
      exact foreign (Fin.ne_of_gt (above other member)) hx
    · rw [ih ascending later, List.countP_eq_zero.mpr, Nat.zero_add]
      exact fun x hx => foreign (Fin.ne_of_lt (above linked later)) hx

theorem countP_pages {linked : Slot × FrameId} (listed : linked ∈ s.linked r) :
    (s.pages r).countP (fun x => x.1.directorySlot = linked.1) =
      (r.bytes linked.2).presentCount := by
  rw [pages, countP_pagesBelow (s.ascending_linked r) listed, pagesBelow, List.length_map,
    Frame.length_presentEntries]

/-- How many of the listed pages lie under each page table. -/
def pageCounts (s : Space) (r : Ram) : List (Slot × Nat) :=
  (s.linked r).map fun linked =>
    (linked.1, (s.pages r).countP fun x => x.1.directorySlot = linked.1)

theorem usage_eq (inside : s.Inside r) : s.usage r = .ok (s.pageCounts r) := by
  have each : ∀ linked ∈ s.linked r,
      ((r.frame linked.2).map fun table => (linked.1, table.presentCount)) =
        .ok (linked.1, (s.pages r).countP fun x => x.1.directorySlot = linked.1) := by
    intro linked listed
    rw [Ram.frame_eq_bytes (inside.table _ _ (mem_linked.mp listed)), countP_pages listed]
    rfl
  rw [usage, tables_eq inside]
  exact mapM_eq_ok each

end Space

section Report

variable {s : Space} {m : Machine} {report : MemoryReport}

theorem Ends.remark {stops : Halt → Prop} (e : Event) :
    Ends (PagedMemory.remark e) m stops fun _ m' => m'.ram = m.ram :=
  Ends.intro rfl rfl

/-- The report comes about unless there are no statistics. -/
theorem reportMemory_ends (inside : s.Inside m.ram) :
    Ends (reportMemory s) m (fun cause => m.pool.stats = .error cause) fun report _ =>
      m.pool.stats = .ok report.frames ∧ report.tables = s.pageCounts m.ram := by
  refine Ends.bind (P := fun frames m' => m.pool.stats = .ok frames ∧ m'.ram = m.ram)
    (Ends.look (fun _ stats => ⟨stats, rfl⟩) fun _ none => none) ?_
  rintro frames m₁ ⟨stats, same₁⟩
  refine (Ends.remark _).bind fun _ m₂ same₂ => ?_
  have usage : s.usage m₂.ram = .ok (s.pageCounts m.ram) := by
    rw [same₂, same₁, Space.usage_eq inside]
  refine Ends.bind (P := fun tables _ => tables = s.pageCounts m.ram)
    (Ends.inspect usage rfl) ?_
  rintro tables m₃ counted
  refine Ends.bind (P := fun _ _ => True) ?_ fun _ _ _ => Ends.pure ⟨stats, counted⟩
  exact Ends.forM (fun _ _ => True) (fun _ _ _ _ => (Ends.remark _).mono fun _ _ _ => trivial)
    _ _ trivial

theorem reportMemory_iff (inside : s.Inside m.ram) :
    (∃ m', reportMemory s m = .ok (report, m')) ↔
      m.pool.stats = .ok report.frames ∧ report.tables = s.pageCounts m.ram := by
  have ends := reportMemory_ends inside
  constructor
  · rintro ⟨m', run⟩
    exact ends.of_run run
  · rintro ⟨stats, tables⟩
    cases run : reportMemory s m with
    | error cause => cases stats.symm.trans (ends.of_error run)
    | ok result =>
      obtain ⟨other, m'⟩ := result
      obtain ⟨stats', tables'⟩ := ends.of_run run
      have same : report = other := by
        cases report
        cases other
        cases stats.symm.trans stats'
        cases tables.trans tables'.symm
        rfl
      exact ⟨m', same ▸ rfl⟩

end Report

/-- A walk lists a page exactly if a lookup finds a present entry for it, and a page table exactly
if a lookup finds it from the base of its slot, both in ascending order. The report counts what the
walk lists under each table. Taking addresses apart and putting them together are inverse to each
other, and tell all pages apart. -/
theorem walks_agree_with_lookups {s : Space} {m : Machine} (inside : s.Inside m.ram) :
    (∃ tables pages, s.tables m.ram = .ok tables ∧ s.mappings m.ram = .ok pages ∧
      (∀ va e, (va, e) ∈ pages ↔ va.isAligned .small = true ∧
        s.entry m.ram va = .ok (some e) ∧ e.present = true) ∧
      pages.Pairwise (fun x y => x.1.value < y.1.value) ∧
      (∀ i t, (i, t) ∈ tables ↔ s.tableOf m.ram i.base = .ok (some t)) ∧
      tables.Pairwise (fun x y => x.1 < y.1) ∧
      ∀ report, (∃ m', reportMemory s m = .ok (report, m')) ↔
        m.pool.stats = .ok report.frames ∧ report.tables = tables.map fun table =>
          (table.1, pages.countP fun x => x.1.directorySlot = table.1)) ∧
    (∀ i j : Slot, (Slot.join i j).splitSlots = (i, j) ∧
      (Slot.join i j).value = i.val <<< 22 ||| j.val <<< 12) ∧
    (∀ va : VirtualAddress, Slot.join va.directorySlot va.tableSlot = va.alignDown .small ∧
      va.directorySlot.val = (va.page .large).index ∧
      va.tableSlot.val = va.value >>> 12 &&& 0x3FF) ∧
    Function.Bijective fun page : Page .virtual .small => page.base.splitSlots := by
  refine ⟨⟨s.linked m.ram, s.pages m.ram, Space.tables_eq inside, Space.mappings_eq inside,
    fun va e => Space.mem_pages inside, s.ascending_pages m.ram, fun i t => ?_,
    s.ascending_linked m.ram, fun report => reportMemory_iff inside⟩,
    fun i j => ⟨?_, Slot.value_join i j⟩,
    fun va => ⟨Address.join_slots va, rfl, va.tableSlot_eq_shift⟩, Address.bijective_splitSlots⟩
  · rw [Space.mem_linked, Space.tableOf, Slot.directorySlot_base, Space.tableAt_eq inside.root,
      Except.ok.injEq]
  · rw [Address.splitSlots, Address.directorySlot_join, Address.tableSlot_join]

section Tiny

/-- The walk comes to the two pages in order, each under its own table, and to no page between
them that is not present. -/
theorem walks_agree_with_lookups_small :
    tinySpace.Inside smallSpread.2.ram ∧
    ∃ tables pages report m', tinySpace.tables smallSpread.2.ram = .ok tables ∧
      tinySpace.mappings smallSpread.2.ram = .ok pages ∧
      (tinyPage, .make (tinyFrame 3) .userWritable) ∈ pages ∧
      (tinyNext, .make (tinyFrame 5) .userWritable) ∈ pages ∧
      (∀ e, (tinyBehind, e) ∉ pages) ∧
      pages.Pairwise (fun x y => x.1.value < y.1.value) ∧
      (0, tinyFrame 4) ∈ tables ∧ (1, tinyFrame 6) ∈ tables ∧ (∀ t, (2, t) ∉ tables) ∧
      tables.Pairwise (fun x y => x.1 < y.1) ∧
      reportMemory tinySpace smallSpread.2 = .ok (report, m') ∧
      report.frames = ⟨7, 2, 5, 0⟩ ∧
      report.tables = tables.map fun table =>
        (table.1, pages.countP fun x => x.1.directorySlot = table.1) := by
  have sound := reaches_smallSpread.sound fun _ _ _ h => h
  have live : tinySpace ∈ smallSpread.1.live := by decide +kernel
  have inside := Machine.inside_of_sound sound live
  have first : tinySpace.entry smallSpread.2.ram tinyPage =
      .ok (some (.make (tinyFrame 3) .userWritable)) := by decide +kernel
  have second : tinySpace.entry smallSpread.2.ram tinyNext =
      .ok (some (.make (tinyFrame 5) .userWritable)) := by decide +kernel
  have between : tinySpace.entry smallSpread.2.ram tinyBehind = .ok (some .zero) := by
    decide +kernel
  have stats : smallSpread.2.pool.stats = .ok ⟨7, 2, 5, 0⟩ := by decide +kernel
  obtain ⟨⟨tables, pages, walk, walk', listed, ascending, linked, ascending', report⟩, -⟩ :=
    walks_agree_with_lookups inside
  obtain ⟨m', run⟩ := (report ⟨⟨7, 2, 5, 0⟩, tables.map fun table =>
    (table.1, pages.countP fun x => x.1.directorySlot = table.1)⟩).mpr ⟨stats, rfl⟩
  refine ⟨inside, tables, pages, _, m', walk, walk', (listed _ _).mpr ⟨by decide, first, rfl⟩,
    (listed _ _).mpr ⟨by decide, second, rfl⟩, fun e here => ?_, ascending,
    (linked _ _).mpr (by decide +kernel), (linked _ _).mpr (by decide +kernel),
    fun t here => ?_, ascending', run, rfl, rfl⟩
  · obtain ⟨-, found, present⟩ := (listed _ _).mp here
    cases between.symm.trans found
    cases present
  · have vacant : tinySpace.tableOf smallSpread.2.ram (Slot.base 2) = .ok none := by
      decide +kernel
    cases vacant.symm.trans ((linked _ _).mp here)

end Tiny

end PagedMemory
