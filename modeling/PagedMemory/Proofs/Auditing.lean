import PagedMemory.Audit
import PagedMemory.Proofs.FreedRanges
import PagedMemory.Proofs.Leaks

/-!
# What the audit finds

The audit walks a list of spaces and looks at the frames in two passes: first at those that
are handed out, then at those that are free or reserved and yet referenced. Nothing is
assumed of the machine but that the walk stays within memory. A space may be listed twice,
and then its references count twice.

The frames of both passes come in ascending order, so that what is reported is the lowest
frame of its kind.
-/

namespace PagedMemory

open Finset

/-! ## The references of a list of spaces -/

/-- How many references a list of spaces makes to a frame: as a directory, as a page table
and as a mapped page, once more for every time that a space is listed. -/
def listedReferences (r : Ram) (spaces : List Space) (f : FrameId) : Nat :=
  spaces.countP (fun s => s.root = f) + (spaces.map fun s => #{i : Slot | s.link r i = some f}).sum +
    (spaces.map fun s => #{k : Place | (s.leaf r k).target = some f}).sum

theorem countP_eq_card {α : Type} [DecidableEq α] {l : List α} (once : l.Nodup) (p : α → Prop)
    [DecidablePred p] : l.countP (fun x => p x) = #{x ∈ l.toFinset | p x} := by
  rw [List.countP_eq_length_filter, ← List.toFinset_card_of_nodup (once.filter _)]
  congr 1
  ext x
  simp

theorem toFinset_allSlots : allSlots.toFinset = univ :=
  List.toFinset_finRange 1024

theorem sum_allSlots (g : Slot → Nat) : (allSlots.map g).sum = ∑ i, g i := by
  rw [← List.sum_toFinset g nodup_allSlots, toFinset_allSlots]

theorem countP_allSlots (p : Slot → Prop) [DecidablePred p] :
    allSlots.countP (fun i => p i) = #{i : Slot | p i} := by
  rw [countP_eq_card nodup_allSlots, toFinset_allSlots]

theorem count_presentEntries (b : Frame) (f : FrameId) :
    (b.presentEntries.map fun found => found.2.frame).count f =
      #{i : Slot | (b.entry i).target = some f} := by
  rw [← countP_allSlots, List.count, List.countP_map, Frame.presentEntries, List.countP_filter,
    List.countP_map]
  congr 1
  funext i
  simp [Entry.target_eq_some_iff, Bool.and_comm, beq_eq_decide]

section Listed

variable {r : Ram} {spaces : List Space} {s : Space}

theorem listedReferences_cons (f : FrameId) :
    listedReferences r (s :: spaces) f = (if s.root = f then 1 else 0) +
      #{i : Slot | s.link r i = some f} + #{k : Place | (s.leaf r k).target = some f} +
        listedReferences r spaces f := by
  simp only [listedReferences, List.countP_cons, List.map_cons, List.sum_cons, decide_eq_true_eq]
  omega

/-- Where every space is listed once, the references are those of the set of spaces. -/
theorem listedReferences_eq (once : spaces.Nodup) (f : FrameId) :
    listedReferences r spaces f = rootReferences spaces.toFinset f +
      linkReferences r spaces.toFinset f + leafReferences r spaces.toFinset f := by
  rw [listedReferences, countP_eq_card once, rootReferences, linkReferences, leafReferences,
    List.sum_toFinset _ once, List.sum_toFinset _ once]

/-- The places below one directory slot that map a frame. -/
theorem sum_leaves (f : FrameId) :
    #{k : Place | (s.leaf r k).target = some f} =
      ∑ i : Slot, #{j : Slot | (s.leaf r (i, j)).target = some f} := by
  simp only [Finset.card_filter, Fintype.sum_prod_type]

end Listed

/-- A walk that succeeds at every step returns what the steps return. -/
theorem mapM_eq_ok {α β : Type} {f : α → Except Halt β} {g : α → β} {l : List α}
    (steps : ∀ x ∈ l, f x = .ok (g x)) : l.mapM f = .ok (l.map g) := by
  induction l with
  | nil => rfl
  | cons x l ih =>
    have rest := ih fun y hy => steps y (List.mem_cons_of_mem x hy)
    rw [List.mapM_cons, steps x List.mem_cons_self, rest]
    rfl

namespace Space

variable {r : Ram} {s : Space}

/-- The page tables that a space links, with their slots. -/
def linked (s : Space) (r : Ram) : List (Slot × FrameId) :=
  (r.bytes s.root).presentEntries.map fun found => (found.1, found.2.frame)

theorem tables_eq (inside : s.Inside r) : s.tables r = .ok (s.linked r) := by
  simp only [tables, Ram.frame_eq_bytes inside.root, Except.map, linked]

theorem mem_linked {i : Slot} {t : FrameId} :
    (i, t) ∈ s.linked r ↔ s.link r i = some t := by
  simp [linked, Frame.mem_presentEntries, link, Entry.target_eq_some_iff, and_comm]

theorem sum_linked (g : Slot × FrameId → Nat) :
    ((s.linked r).map g).sum = ∑ i, (s.link r i).elim 0 fun t => g (i, t) := by
  have entries (l : List Slot) : ((((l.map fun i => (i, (r.bytes s.root).entry i)).filter
      fun found => found.2.present).map fun found => (found.1, found.2.frame)).map g).sum =
        (l.map fun i => ((r.bytes s.root).entry i).target.elim 0 fun t => g (i, t)).sum := by
    induction l with
    | nil => rfl
    | cons i l ih =>
      rw [List.map_cons, List.filter_cons, List.map_cons, List.sum_cons, ← ih, Entry.target]
      split <;> simp
  rw [← sum_allSlots]
  exact entries allSlots

theorem mappings_eq (inside : s.Inside r) : s.mappings r =
    .ok ((s.linked r).map fun found => (r.bytes found.2).presentEntries.map fun entry =>
      (Slot.join found.1 entry.1, entry.2)).flatten := by
  have walk := mapM_eq_ok (l := s.linked r) (f := tableMappings r) fun found linked => by
    have table := inside.table found.1 found.2 (mem_linked.mp linked)
    rw [tableMappings, Ram.frame_eq_bytes table]
    rfl
  rw [mappings, tables_eq inside]
  dsimp only
  rw [walk]
  rfl

/-- The walk of a space meets every frame as often as the space refers to it. -/
theorem references_eq (inside : s.Inside r) : ∃ found, s.references r = .ok found ∧
    ∀ f, found.count f = (if s.root = f then 1 else 0) + #{i : Slot | s.link r i = some f} +
      #{k : Place | (s.leaf r k).target = some f} := by
  refine ⟨_, by rw [references, tables_eq inside, mappings_eq inside], fun f => ?_⟩
  have tables : ((s.linked r).map Prod.snd).count f = #{i : Slot | s.link r i = some f} := by
    rw [linked, List.map_map]
    exact count_presentEntries _ f
  -- The walk of the pages goes table by table, and so are the places counted.
  have below (i : Slot) : #{j : Slot | (s.leaf r (i, j)).target = some f} =
      (s.link r i).elim 0 fun t => #{j : Slot | ((r.bytes t).entry j).target = some f} := by
    cases linked : s.link r i with
    | none =>
      have nothing : Entry.zero.target ≠ some f := nofun
      simp [leaf_of_vacant linked, nothing]
    | some t => simp [leaf_of_link linked]
  have pages : ((((s.linked r).map fun found => (r.bytes found.2).presentEntries.map fun entry =>
      (Slot.join found.1 entry.1, entry.2)).flatten).map fun mapping => mapping.2.frame).count f =
        #{k : Place | (s.leaf r k).target = some f} := by
    rw [sum_leaves, Finset.sum_congr rfl fun i _ => below i, List.map_flatten, List.map_map,
      List.count_flatten, List.map_map,
      ← sum_linked fun found => #{j : Slot | ((r.bytes found.2).entry j).target = some f}]
    apply congrArg List.sum
    apply List.map_congr_left
    intro found _
    rw [← count_presentEntries, Function.comp_apply, Function.comp_apply, List.map_map]
    rfl
  rw [List.count_cons, List.count_append, tables, pages]
  simp only [beq_iff_eq]
  omega

end Space

/-- The audit compares the counts with all references that the spaces make. -/
theorem checkCounts_eq {m : Machine} {spaces : List Space}
    (inside : ∀ s ∈ spaces, s.Inside m.ram) : ∃ found,
      checkCounts spaces m = .ok (firstMismatch m.pool found) ∧
        ∀ f, found.count f = listedReferences m.ram spaces f := by
  have walk : ∃ lists, (spaces.mapM fun s : Space => s.references m.ram) = .ok lists ∧
      ∀ f, lists.flatten.count f = listedReferences m.ram spaces f := by
    induction spaces with
    | nil => exact ⟨[], rfl, fun _ => rfl⟩
    | cons s spaces ih =>
      obtain ⟨found, run, counts⟩ := Space.references_eq (inside s List.mem_cons_self)
      obtain ⟨lists, rest, others⟩ := ih fun s' hs' => inside s' (List.mem_cons_of_mem s hs')
      refine ⟨found :: lists, by rw [List.mapM_cons, run, rest]; rfl, fun f => ?_⟩
      rw [List.flatten_cons, List.count_append, counts, others, listedReferences_cons]
  obtain ⟨lists, run, counts⟩ := walk
  exact ⟨lists.flatten, by rw [checkCounts, run]; rfl, counts⟩

/-! ## The two passes -/

/-- The frame is the lowest one with a property. -/
def LowestFrame (P : FrameId → Prop) (f : FrameId) : Prop :=
  P f ∧ ∀ g, P g → f.index ≤ g.index

namespace FramePool

variable {p : FramePool} {f : FrameId} {references : List FrameId}

/-- The frame is handed out and its count is not the number of its references. -/
def Miscounts (p : FramePool) (R : FrameId → Nat) (f : FrameId) : Prop :=
  p.layout.mainStart.value ≤ f.base.value ∧ f.base.value < p.layout.high.value ∧
    p.count f ≠ 0 ∧ p.count f ≠ R f

/-- The frame is referenced although it is free or reserved. -/
def Strays (p : FramePool) (R : FrameId → Nat) (f : FrameId) : Prop :=
  p.manages f = true ∧ 0 < R f ∧ (p.count f = 0 ∨ f.base.value < p.layout.mainStart.value)

theorem manages_iff_bounds : p.manages f = true ↔
    p.layout.low.value ≤ f.base.value ∧ f.base.value < p.layout.high.value := by
  rw [manages, Bool.and_eq_true, decide_eq_true_eq, decide_eq_true_eq]

/-- The reserved frames come first. -/
theorem lt_reservedFrames_iff (i : Fin p.counts.size) :
    i.val < p.layout.reservedFrames ↔ (p.frame i).base.value < p.layout.mainStart.value := by
  have low := p.valid.aligned.1
  have main := p.valid.aligned.2.1
  have ordered := p.valid.low_le
  simp only [Address.isAligned, PageSize.bytes, beq_iff_eq] at low main
  simp only [Layout.reservedFrames, Page.value_base, PageSize.bytes, index_frame, first]
  omega

theorem mem_drop_finRange {n k : Nat} {i : Fin n} :
    i ∈ (List.finRange n).drop k ↔ k ≤ i.val := by
  constructor
  · intro member
    obtain ⟨j, bound, rfl⟩ := List.mem_drop_iff_getElem.mp member
    simp
  · intro above
    apply List.mem_drop_iff_getElem.mpr
    exact ⟨i.val - k, by simp; omega, by simp [Nat.add_sub_cancel' above]⟩

theorem mem_allocated {n : Nat} : (f, n) ∈ p.allocated ↔
    p.layout.mainStart.value ≤ f.base.value ∧ f.base.value < p.layout.high.value ∧
      p.count f = n ∧ n ≠ 0 := by
  simp only [allocated, List.mem_filter, List.mem_map, mem_drop_finRange, Prod.mk.injEq,
    bne_iff_ne, ← Nat.not_lt, lt_reservedFrames_iff, ← count_frame]
  constructor
  · rintro ⟨⟨i, above, rfl, rfl⟩, counted⟩
    exact ⟨above, (manages_iff_bounds.mp (p.manages_frame i)).2, rfl, counted⟩
  · rintro ⟨above, below, rfl, counted⟩
    have low := p.valid.low_le
    obtain ⟨i, rfl⟩ := exists_frame_eq (manages_iff_bounds.mpr (by omega) : p.manages f = true)
    exact ⟨⟨i, above, rfl, rfl⟩, counted⟩

theorem mem_strayFrames : f ∈ strayFrames p references ↔ p.Strays (references.count ·) f := by
  simp only [strayFrames, List.mem_map, List.mem_filter, List.mem_finRange, true_and,
    Bool.and_eq_true, Bool.or_eq_true, decide_eq_true_eq, beq_iff_eq, List.contains_iff_mem,
    lt_reservedFrames_iff, Strays, List.count_pos_iff]
  constructor
  · rintro ⟨i, ⟨unused, referenced⟩, rfl⟩
    exact ⟨p.manages_frame i, referenced, unused.symm⟩
  · rintro ⟨managed, referenced, unused⟩
    obtain ⟨i, rfl⟩ := exists_frame_eq managed
    exact ⟨i, ⟨unused.symm, referenced⟩, rfl⟩

theorem index_lt_index {i j : Fin p.counts.size} (below : i < j) :
    (p.frame i).index < (p.frame j).index := by
  simpa using below

theorem ascending_allocated : p.allocated.Pairwise fun x y => x.1.index < y.1.index := by
  have sorted := (List.sortedLT_finRange p.counts.size).pairwise.drop
    (i := p.layout.reservedFrames)
  apply List.Pairwise.filter
  exact sorted.map _ fun _ _ => index_lt_index

theorem ascending_strayFrames :
    (strayFrames p references).Pairwise fun f g => f.index < g.index := by
  have sorted := (List.sortedLT_finRange p.counts.size).pairwise
  exact (sorted.filter _).map _ fun _ _ => index_lt_index

end FramePool

/-- A search through an ascending list finds the lowest element. -/
theorem find?_lowest {α : Type} {key : α → Nat} {l : List α} {test : α → Bool} {x : α}
    (ascending : l.Pairwise fun x y => key x < key y) (found : l.find? test = some x) :
    (x ∈ l ∧ test x = true) ∧ ∀ y ∈ l, test y = true → key x ≤ key y := by
  obtain ⟨passes, before, after, rfl, failed⟩ := List.find?_eq_some_iff_append.mp found
  refine ⟨⟨by simp, passes⟩, fun y member good => ?_⟩
  rcases List.mem_append.mp member with early | late
  · exact absurd good (by simpa using failed y early)
  · rcases List.mem_cons.mp late with rfl | late
    · exact Nat.le_refl _
    · exact Nat.le_of_lt ((List.pairwise_cons.mp (List.pairwise_append.mp ascending).2.1).1 y late)

theorem FramePool.manages_of_miscounts {p : FramePool} {R : FrameId → Nat} {f : FrameId}
    (miscounts : p.Miscounts R f) : p.manages f = true :=
  manages_iff_bounds.mpr ⟨Nat.le_trans p.valid.low_le miscounts.1, miscounts.2.1⟩

/-- The first pass reports the lowest frame that is miscounted, and the second pass the lowest
one that is referenced though it is free or reserved. -/
theorem firstMismatch_cases (p : FramePool) (references : List FrameId) :
    (firstMismatch p references = none ∧ (∀ f, ¬ p.Miscounts (references.count ·) f) ∧
      ∀ f, ¬ p.Strays (references.count ·) f) ∨
    ∃ f, firstMismatch p references = some ⟨f, references.count f, p.count f⟩ ∧
      (LowestFrame (p.Miscounts (references.count ·)) f ∨
        (∀ g, ¬ p.Miscounts (references.count ·) g) ∧
          LowestFrame (p.Strays (references.count ·)) f) := by
  have miscounts {f : FrameId} : p.Miscounts (references.count ·) f ↔
      (f, p.count f) ∈ p.allocated ∧ (references.count f != p.count f) = true := by
    rw [FramePool.mem_allocated, FramePool.Miscounts, bne_iff_ne,
      @ne_comm _ (references.count f)]
    simp only [true_and, and_assoc]
  -- The second pass is made only where the first one finds nothing, so its frames are counted right.
  unfold firstMismatch
  cases first : p.allocated.find? fun entry => references.count entry.1 != entry.2 with
  | some entry =>
    obtain ⟨f, n⟩ := entry
    obtain ⟨⟨member, differs⟩, lowest⟩ := find?_lowest FramePool.ascending_allocated first
    obtain ⟨-, -, rfl, -⟩ := FramePool.mem_allocated.mp member
    refine .inr ⟨f, rfl, .inl ⟨miscounts.mpr ⟨member, differs⟩, fun g other => ?_⟩⟩
    obtain ⟨member, differs⟩ := miscounts.mp other
    exact lowest _ member differs
  | none =>
    have counted (f : FrameId) : ¬ p.Miscounts (references.count ·) f := by
      intro other
      obtain ⟨member, differs⟩ := miscounts.mp other
      exact List.find?_eq_none.mp first _ member differs
    cases second : strayFrames p references with
    | nil =>
      refine .inl ⟨rfl, counted, fun f strays => ?_⟩
      have member := FramePool.mem_strayFrames.mpr strays
      rw [second] at member
      cases member
    | cons f others =>
      have ascending := @FramePool.ascending_strayFrames p references
      rw [second] at ascending
      have strays {g : FrameId} : p.Strays (references.count ·) g ↔ g ∈ f :: others := by
        rw [← second, FramePool.mem_strayFrames]
      refine .inr ⟨f, rfl, .inr ⟨counted, strays.mpr List.mem_cons_self, fun g other => ?_⟩⟩
      rcases List.mem_cons.mp (strays.mp other) with rfl | later
      · exact Nat.le_refl _
      · exact Nat.le_of_lt ((List.pairwise_cons.mp ascending).1 g later)

theorem firstMismatch_eq_none_iff {p : FramePool} {references : List FrameId} :
    firstMismatch p references = none ↔ (∀ f, ¬ p.Miscounts (references.count ·) f) ∧
      ∀ f, ¬ p.Strays (references.count ·) f := by
  rcases firstMismatch_cases p references with ⟨none, clean⟩ | ⟨f, some, lowest⟩
  · exact iff_of_true none clean
  · rw [some]
    apply iff_of_false nofun
    rintro ⟨counted, unused⟩
    rcases lowest with lowest | lowest
    · exact counted f lowest.1
    · exact unused f lowest.2.1

/-- The counts of all frames that are not reserved are right, and no reserved frame is
referenced. -/
def FramePool.Balanced (p : FramePool) (R : FrameId → Nat) : Prop :=
  (∀ f : FrameId, p.layout.mainStart.value ≤ f.base.value → f.base.value < p.layout.high.value →
    p.refCount? f = some (R f)) ∧
  ∀ f : FrameId, p.layout.low.value ≤ f.base.value → f.base.value < p.layout.mainStart.value →
    R f = 0

theorem FramePool.balanced_iff {p : FramePool} {R : FrameId → Nat} :
    p.Balanced R ↔ (∀ f, ¬ p.Miscounts R f) ∧ ∀ f, ¬ p.Strays R f := by
  have low := p.valid.low_le
  have main := p.valid.mainStart_le
  have known {f : FrameId} (managed : p.manages f = true) : p.refCount? f = some (p.count f) :=
    if_pos managed
  constructor
  · rintro ⟨counted, unreferenced⟩
    constructor
    · intro f miscounts
      have right := counted f miscounts.1 miscounts.2.1
      rw [known (manages_of_miscounts miscounts), Option.some.injEq] at right
      exact miscounts.2.2.2 right
    · rintro f ⟨managed, referenced, unused⟩
      obtain ⟨above, below⟩ := manages_iff_bounds.mp managed
      by_cases reserved : f.base.value < p.layout.mainStart.value
      · have := unreferenced f above reserved
        omega
      · have right := counted f (by omega) below
        rw [known managed, Option.some.injEq] at right
        omega
  · rintro ⟨counted, clean⟩
    refine ⟨fun f above below => ?_, fun f above below => ?_⟩
    · have managed : p.manages f = true := manages_iff_bounds.mpr ⟨by omega, below⟩
      rw [known managed, Option.some.injEq]
      by_contra differs
      by_cases free : p.count f = 0
      · exact clean f ⟨managed, by omega, .inl free⟩
      · exact counted f ⟨above, below, free, differs⟩
    · have managed : p.manages f = true := manages_iff_bounds.mpr ⟨above, by omega⟩
      by_contra referenced
      exact clean f ⟨managed, by omega, .inr below⟩

variable {m : Machine} {spaces : List Space}

/-- Where every live space is listed once, a count is right exactly if nobody else is owed a
reference. -/
theorem Machine.Accounts.refCount?_eq_iff {owed : Owed}
    (accounts : m.Accounts spaces.toFinset owed) (once : spaces.Nodup) {f : FrameId}
    (managed : m.pool.manages f = true) :
    m.pool.refCount? f = some (listedReferences m.ram spaces f) ↔ owed f = 0 := by
  have counted := accounts f managed
  rw [FramePool.refCount?, if_pos managed, Option.some.injEq, listedReferences_eq once]
  omega

/-- The audit passes exactly if the counts and the references agree. -/
theorem checkCounts_eq_none_iff (inside : ∀ s ∈ spaces, s.Inside m.ram) :
    checkCounts spaces m = .ok none ↔ m.pool.Balanced (listedReferences m.ram spaces) := by
  obtain ⟨references, run, counts⟩ := checkCounts_eq inside
  have counted : (references.count ·) = listedReferences m.ram spaces := funext counts
  rw [run, Except.ok.injEq, firstMismatch_eq_none_iff, counted, FramePool.balanced_iff]

/-- The audit returns. It reports nothing exactly if the count of every frame that is not
reserved is the number of references to it and no reserved frame is referenced. What it
reports is the lowest frame that is handed out and miscounted or, if there is none, the lowest
that is referenced though it is free or reserved. -/
theorem audit_finds_every_mismatch (inside : ∀ s ∈ spaces, s.Inside m.ram) :
    ∃ found, checkCounts spaces m = .ok found ∧
      (found = none ↔ m.pool.Balanced (listedReferences m.ram spaces)) ∧
      ∀ mismatch, found = some mismatch →
        mismatch.expected = listedReferences m.ram spaces mismatch.frame ∧
        m.pool.refCount? mismatch.frame = some mismatch.actual ∧
        (LowestFrame (m.pool.Miscounts (listedReferences m.ram spaces)) mismatch.frame ∨
          (∀ f, ¬ m.pool.Miscounts (listedReferences m.ram spaces) f) ∧
            LowestFrame (m.pool.Strays (listedReferences m.ram spaces)) mismatch.frame) := by
  obtain ⟨references, run, counts⟩ := checkCounts_eq inside
  have counted : (references.count ·) = listedReferences m.ram spaces := funext counts
  refine ⟨_, run, ?_, fun mismatch found => ?_⟩
  · rw [firstMismatch_eq_none_iff, counted, FramePool.balanced_iff]
  · rw [← counted]
    rcases firstMismatch_cases m.pool references with ⟨none, -⟩ | ⟨f, some, lowest⟩
    · cases none.symm.trans found
    · cases some.symm.trans found
      refine ⟨rfl, if_pos ?_, lowest⟩
      rcases lowest with lowest | lowest
      · exact FramePool.manages_of_miscounts lowest.1
      · exact lowest.2.1.1

section Tiny

/-- The counts are right where one page is mapped. A list that leaves its space out is told
the lowest frame that the space holds. -/
theorem audit_finds_every_mismatch_tiny :
    checkCounts [tinySpace] tinyAfter.2 = .ok none ∧
    checkCounts [] tinyAfter.2 = .ok (some ⟨tinySpace.root, 0, 1⟩) := by
  have own : tinySpace ∈ tinyAfter.1.live := by decide +kernel
  have inside : ∀ s ∈ [tinySpace], s.Inside tinyAfter.2.ram := by
    simpa using Machine.inside_of_sound sound_tinyAfter own
  obtain ⟨found, run, balanced, -⟩ := audit_finds_every_mismatch inside
  have live : tinyAfter.1.live = [tinySpace].toFinset := by decide +kernel
  have held : tinyAfter.1.held = ∅ := by decide +kernel
  have accounts := Machine.accounts_of_sound sound_tinyAfter
  rw [live] at accounts
  have layout : tinyAfter.2.pool.layout = .tiny := by decide +kernel
  have unowed (f : FrameId) : tinyAfter.1.owed .tiny f = 0 := by
    rw [Books.owed, held, inHand_empty, add_zero]
    exact if_neg fun reserved => absurd reserved.1 (Nat.not_le.mpr reserved.2)
  rw [FramePool.Balanced, layout] at balanced
  refine ⟨?_, by decide +kernel⟩
  rw [run, balanced.mpr ⟨fun f above below => ?_, fun f above below => ?_⟩]
  · have managed : tinyAfter.2.pool.manages f = true := by
      rw [FramePool.manages_iff_bounds, layout]
      exact ⟨above, below⟩
    exact (accounts.refCount?_eq_iff (List.nodup_singleton tinySpace) managed).mpr (unowed f)
  · exact absurd above (Nat.not_le.mpr below)

end Tiny

end PagedMemory
