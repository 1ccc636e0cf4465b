import PagedMemory.Proofs.FailedForks

/-!
# What freeing a range does

A range covers the directory slots whose stretch of addresses it meets. Freeing it makes
these slots vacant and gives up one reference for each page that was mapped there, and one
for each page table, however often a frame was mapped (`Machine.Freed`). Nothing else that
any space links or maps is changed, and apart from the directory and the tables that were
given up no frame is written to.

The kernel stops where the range does not consist of whole slots within the address space,
and else only if the cache has been emptied too often to be counted.
-/

namespace PagedMemory

open Machine

/-! ## Ranges -/

/-- The range starts at a slot and ends, rounded up to whole slots, within the addresses. -/
def RangeAccepted (start : VirtualAddress) (size : Nat) : Prop :=
  start.value % directorySpan = 0 ∧
    start.value + (size + (directorySpan - 1)) / directorySpan * directorySpan ≤ 4294967296

/-- An address of the range lies in the stretch of the slot. -/
def Meets (start : VirtualAddress) (size : Nat) (i : Slot) : Prop :=
  ∃ x, start.value ≤ x ∧ x < start.value + size ∧ x / directorySpan = i.val

section Ranges

variable {operation : RangeOperation} {start : VirtualAddress} {size : Nat} {i : Slot}

instance : Decidable (RangeAccepted start size) :=
  inferInstanceAs (Decidable (_ ∧ _))

theorem isAligned_large_iff {va : VirtualAddress} :
    va.isAligned .large = true ↔ va.value % directorySpan = 0 := by
  simp only [Address.isAligned, PageSize.bytes, directorySpan, beq_iff_eq]

theorem exists_rangeSlots_iff :
    (∃ slots, rangeSlots operation start size = .ok slots) ↔ RangeAccepted start size := by
  have aligned : start.isAligned .large = true ↔ start.value % directorySpan = 0 :=
    isAligned_large_iff
  have fits : start.value % directorySpan = 0 →
      (start.directorySlot.val + (size + 4194303) / 4194304 ≤ 1024 ↔
        start.value + (size + (directorySpan - 1)) / directorySpan * directorySpan ≤
          4294967296) := by
    simp only [Address.directorySlot, directorySpan]
    omega
  constructor
  · rintro ⟨slots, range⟩
    obtain ⟨whole, within, -⟩ := rangeSlots_eq_ok_iff.mp range
    exact ⟨aligned.mp whole, (fits (aligned.mp whole)).mp within⟩
  · rintro ⟨whole, within⟩
    exact ⟨_, rangeSlots_eq_ok_iff.mpr ⟨aligned.mpr whole, (fits whole).mpr within, rfl⟩⟩

theorem meets_iff :
    Meets start size i ↔ start.value < (i.val + 1) * directorySpan ∧
      i.val * directorySpan < start.value + size ∧ 0 < size := by
  simp only [Meets, directorySpan]
  constructor
  · rintro ⟨x, above, below, slot⟩
    omega
  · rintro ⟨above, below, some⟩
    by_cases first : start.value ≤ i.val * 4194304
    · exact ⟨i.val * 4194304, first, below, by omega⟩
    · exact ⟨start.value, Nat.le_refl _, by omega, by omega⟩

instance : DecidablePred (Meets start size) :=
  fun _ => decidable_of_iff _ meets_iff.symm

/-- The slots of an accepted range are those that it meets. -/
theorem inRange_iff_meets (accepted : RangeAccepted start size) :
    InRange start size i ↔ Meets start size i := by
  have aligned := accepted.1
  rw [meets_iff]
  simp only [InRange, Address.directorySlot, directorySpan] at *
  omega

theorem mem_rangeSlots_iff_meets {slots : List Slot}
    (range : rangeSlots operation start size = .ok slots) : i ∈ slots ↔ Meets start size i :=
  (mem_rangeSlots_iff range).trans (inRange_iff_meets (exists_rangeSlots_iff.mp ⟨slots, range⟩))

end Ranges

/-! ## When freeing stops -/

section Stops

variable {m m' : Machine} {live : Finset Space} {owed : Owed} {s : Space}
  {start : VirtualAddress} {size : Nat} {slots : List Slot}

/-- A range that can be freed is freed, if the cache can be emptied once more. -/
theorem Machine.Shows.freeRange_stops {v : View} {o : Owed} (shows : m.Shows v) (sound : v.Sound o)
    (hs : s ∈ v.live) (range : rangeSlots .free start size = .ok slots) :
    Ends (s.freeRange start size) m
      (fun cause => cause = .overflow ∧ flushLimit ≤ m.flushes + 1)
      fun _ m' => m'.Shows (v.freed s slots).flushed := by
  have spends := (Spares.refl m).freeRange (P := fun _ => False) Nat.one_pos s start size
  refine (((shows.freeRange sound hs range).and spends).mono_stops ?_).mono fun _ _ => And.left
  rintro cause ⟨exhausts, halts⟩
  exact halts.flush_of_exhausts exhausts

/-- Every freed range was counted as a flush of the cache. -/
theorem Space.flushes_of_freeRange (run : s.freeRange start size m = .ok ((), m')) :
    m.flushes + 1 < flushLimit := by
  obtain ⟨slots, m₁, look, rest⟩ := bind_eq_ok_iff.mp run
  obtain ⟨_, m₂, free, noted⟩ := bind_eq_ok_iff.mp rest
  obtain ⟨_, m₃, note, emptied⟩ := bind_eq_ok_iff.mp noted
  have kept := (Flushes.forM s.flushes_freeSlot slots m₁).of_run free
  cases note
  obtain ⟨-, rfl⟩ := inspect_eq_ok_iff.mp look
  obtain ⟨room, -⟩ := flush_eq_ok_iff.mp emptied
  rwa [show m₂.flushes = m₁.flushes from kept] at room

/-- The kernel stops where the range is not accepted, and else if the cache has been emptied too
often to be counted. -/
theorem Machine.freeRange_stops_iff (sound : (m.view live).Sound owed) (hs : s ∈ live) :
    (∃ cause, s.freeRange start size m = .error cause) ↔
      ¬ RangeAccepted start size ∨ flushLimit ≤ m.flushes + 1 := by
  constructor
  · rintro ⟨cause, stop⟩
    by_cases accepted : RangeAccepted start size
    · obtain ⟨slots, range⟩ := exists_rangeSlots_iff.mpr accepted
      have stops := (m.shows_view live).freeRange_stops sound hs range
      exact .inr (stops.of_error stop).2
    · exact .inl accepted
  · intro reason
    cases run : s.freeRange start size m with
    | error cause => exact ⟨cause, rfl⟩
    | ok result =>
      obtain ⟨⟨⟩, m'⟩ := result
      rcases reason with refused | full
      · obtain ⟨slots, m₁, look, -⟩ := bind_eq_ok_iff.mp run
        exact absurd (exists_rangeSlots_iff.mp ⟨slots, (inspect_eq_ok_iff.mp look).1⟩) refused
      · have := Space.flushes_of_freeRange run
        omega

end Stops

/-! ## What is left -/

/-- The range of a space has been freed, and nothing else has happened. -/
structure Machine.Freed (m : Machine) (live : Finset Space) (s : Space) (start : VirtualAddress)
    (size : Nat) (m' : Machine) : Prop where
  /-- The slots that the range meets are vacant. -/
  vacant : ∀ i, Meets start size i → s.link m'.ram i = none
  /-- Every other directory entry of a live space is what it was. -/
  directories : ∀ s' ∈ live, ∀ i, ¬ (s' = s ∧ Meets start size i) →
    m'.ram.entry s'.root i = m.ram.entry s'.root i
  /-- Every other table entry of a live space is what it was. -/
  entries : ∀ s' ∈ live, ∀ k : Place, ¬ (s' = s ∧ Meets start size k.1) →
    s'.leaf m'.ram k = s'.leaf m.ram k
  tracked : ∀ f, m'.pool.manages f = m.pool.manages f
  /-- A frame has lost one reference for each page that mapped it, and one as a table. -/
  counts : ∀ f, m.pool.manages f = true → m.pool.count f = m'.pool.count f +
    (Finset.univ.filter fun k : Place =>
      Meets start size k.1 ∧ (s.leaf m.ram k).target = some f).card +
    if ∃ i, Meets start size i ∧ s.link m.ram i = some f then 1 else 0
  /-- No frame was written to but the directory and the tables that were given up. -/
  bytes : ∀ f, f ≠ s.root → (∀ i, Meets start size i → s.link m.ram i ≠ some f) →
    m'.ram.frame? f = m.ram.frame? f

section Effect

variable {m m' : Machine} {live : Finset Space} {owed : Owed} {s : Space}
  {start : VirtualAddress} {size : Nat} {slots : List Slot}

/-- Words outside the slots of the directory and outside the tables linked there. -/
def freeGuard (m : Machine) (s : Space) (start : VirtualAddress) (size : Nat) : Guard :=
  fun f j => ¬ (f = s.root ∧ Meets start size j) ∧
    ∀ i, Meets start size i → s.link m.ram i ≠ some f

theorem Machine.guards_free (sound : (m.view live).Sound owed) (hs : s ∈ live) :
    m.Guards (freeGuard m s start size) s (Meets start size) m where
  size := rfl
  word _ _ _ := rfl
  table i t meets linked := by
    refine ⟨fun guarded => guarded.1 ⟨rfl, meets⟩, ?_, fun j guarded => guarded.2 i meets linked⟩
    exact (sound.separate.table_ne_root s hs i t linked s hs).symm

/-- A frame is linked as a table in at most one of some slots. -/
theorem View.Sound.sum_tables {v : View} {o : Owed} (sound : v.Sound o) (hs : s ∈ v.live)
    (P : Slot → Prop) [DecidablePred P] (f : FrameId) :
    (∑ i, if P i ∧ v.link s i = some f then 1 else 0) =
      if ∃ i, P i ∧ v.link s i = some f then 1 else 0 := by
  by_cases table : ∃ i, P i ∧ v.link s i = some f
  · rw [if_pos table]
    obtain ⟨i, inside, linked⟩ := table
    rw [Finset.sum_eq_single i, if_pos ⟨inside, linked⟩]
    · intro i' _ other
      refine if_neg fun h => other ?_
      exact (sound.separate.table_unique s hs i f linked s hs i' h.2).2
    · exact fun absent => absurd (Finset.mem_univ i) absent
  · rw [if_neg table]
    exact Finset.sum_eq_zero fun i _ => if_neg fun h => table ⟨i, h⟩

/-- Each frame has lost as many references as the slots of the range have made to it. -/
theorem Machine.Shows.count_freed {v : View} {o : Owed} (shows : m'.Shows (v.freed s slots).flushed)
    (sound : v.Sound o) (hs : s ∈ v.live) {f : FrameId} (tracked : v.tracks f = true) :
    v.count f = (v.freed s slots).count f +
      (Finset.univ.filter fun k : Place => k.1 ∈ slots ∧ (v.leaf s k).target = some f).card +
      if ∃ i, i ∈ slots ∧ v.link s i = some f then 1 else 0 := by
  have acts : View.Acts (Frees s slots) v o (v.freed s slots) o := View.acts_freed hs fun _ h => h
  have live : (v.freed s slots).live = v.live := acts.live fun _ h => h.lasting
  -- Only cells of the space that is freed have changed, and only those under the slots.
  have others (s' : Space) (_ : s' ∈ v.live) (other : s' ≠ s) (c : Cell) :
      (v.freed s slots).refers s' c = v.refers s' c := by
    cases c with
    | root => rfl
    | link i => exact (View.link_freed v s slots s' i).trans (if_neg fun h => other h.1)
    | leaf k => exact congrArg Entry.target (View.leaf_freed_of_ne fun h => other h.1)
  have vacant (i : Slot) (h : i ∈ slots) : (v.freed s slots).link s i = none := by
    rw [View.link_freed, if_pos ⟨rfl, h⟩]
  have links (i : Slot) : hits (v.link s i) f = hits ((v.freed s slots).link s i) f +
      if i ∈ slots ∧ v.link s i = some f then 1 else 0 := by
    by_cases inside : i ∈ slots
    · rw [vacant i inside, hits_none, Pi.zero_apply, Nat.zero_add]
      simp only [hits, inside, true_and]
    · rw [View.link_freed, if_neg fun h => inside h.2, if_neg fun h => inside h.1, Nat.add_zero]
  have leaves (k : Place) : hits (v.leaf s k).target f =
      hits ((v.freed s slots).leaf s k).target f +
        if k.1 ∈ slots ∧ (v.leaf s k).target = some f then 1 else 0 := by
    by_cases inside : k.1 ∈ slots
    · have zero : (v.freed s slots).leaf s k = .zero :=
        shows.leaf_of_vacant (live.symm ▸ hs) (vacant k.1 inside) k.2
      have none : Entry.zero.target = none := rfl
      rw [zero, none, hits_none, Pi.zero_apply, Nat.zero_add]
      simp only [hits, inside, true_and]
    · rw [View.leaf_freed_of_ne fun h => inside h.2, if_neg fun h => inside h.1, Nat.add_zero]
  have exchanged := View.references_exchange hs live others f
  have uses := View.uses_add _ _ links leaves
  rw [sound.sum_tables hs, ← Finset.card_filter] at uses
  have before := sound.counted f tracked
  have after := (acts.sound sound).counted f ((acts.tracks f).trans tracked)
  omega

/-- The state after a range was freed. -/
theorem Machine.freed_of_freeRange (sound : (m.view live).Sound owed) (hs : s ∈ live)
    (run : s.freeRange start size m = .ok ((), m')) : m.Freed live s start size m' := by
  obtain ⟨slots, m₁, look, -⟩ := bind_eq_ok_iff.mp run
  have range := (inspect_eq_ok_iff.mp look).1
  have accepted := exists_rangeSlots_iff.mp ⟨slots, range⟩
  have covered (i : Slot) : i ∈ slots ↔ Meets start size i := mem_rangeSlots_iff_meets range
  have shows := ((m.shows_view live).freeRange sound hs range).of_run run
  have guards := ((guards_free sound hs).freeRange fun i h =>
    (inRange_iff_meets accepted).mp h).of_run run
  have acts : View.Acts (Frees s slots) (m.view live) owed ((m.view live).freed s slots) owed :=
    View.acts_freed hs fun _ h => h
  have kept : ((m.view live).freed s slots).live = live := acts.live fun _ h => h.lasting
  have live' {s' : Space} (hs' : s' ∈ live) : s' ∈ ((m.view live).freed s slots).flushed.live :=
    kept.symm ▸ hs'
  constructor
  · intro i meets
    rw [shows.link s (live' hs)]
    exact (View.link_freed _ s slots s i).trans (if_pos ⟨rfl, (covered i).mpr meets⟩)
  · intro s' hs' i outside
    apply guards.entry
    constructor
    · rintro ⟨same, meets⟩
      exact outside ⟨Space.ext same, meets⟩
    · exact fun i' _ linked => sound.separate.table_ne_root s hs i' _ linked s' hs' rfl
  · intro s' hs' k outside
    rw [shows.leaf s' (live' hs')]
    exact View.leaf_freed_of_ne fun h => outside ⟨h.1, (covered k.1).mp h.2⟩
  · intro f
    exact (shows.manages f).trans (acts.tracks f)
  · intro f managed
    have counted := shows.count_freed sound hs managed
    have after := shows.count f ((acts.tracks f).trans managed)
    simp only [covered] at counted
    rw [after]
    exact counted
  · intro f other unlinked
    exact guards.frame? fun j => ⟨fun h => other h.1, unlinked⟩

/-- A range with nothing in it is freed without a trace but for the flush. -/
theorem Space.freeRange_of_vacant (accepted : RangeAccepted start size)
    (vacant : ∀ i, Meets start size i → s.tableAt m.ram i = .ok none)
    (room : m.flushes + 1 < flushLimit) :
    s.freeRange start size m = .ok ((), { m with
      flushes := m.flushes + 1, events := m.events.push (.rangeFreed start size s.root) }) := by
  obtain ⟨slots, range⟩ := exists_rangeSlots_iff.mpr accepted
  have nothing : slots.forM s.freeSlot m = .ok ((), m) := by
    have within (i : Slot) (h : i ∈ slots) : s.tableAt m.ram i = .ok none :=
      vacant i ((mem_rangeSlots_iff_meets range).mp h)
    clear range
    induction slots with
    | nil => rfl
    | cons i rest ih =>
      have first : s.freeSlot i m = .ok ((), m) :=
        bind_eq_ok_iff.mpr ⟨none, m, inspect_eq_ok_iff.mpr ⟨within i List.mem_cons_self, rfl⟩, rfl⟩
      exact bind_eq_ok_iff.mpr
        ⟨(), m, first, ih fun i' h => within i' (List.mem_cons_of_mem _ h)⟩
  refine bind_eq_ok_iff.mpr ⟨slots, m, inspect_eq_ok_iff.mpr ⟨range, rfl⟩, ?_⟩
  refine bind_eq_ok_iff.mpr ⟨(), m, nothing, ?_⟩
  refine bind_eq_ok_iff.mpr ⟨(), _, rfl, ?_⟩
  exact flush_eq_ok_iff.mpr ⟨room, rfl⟩

end Effect

/-- Freeing an accepted range makes exactly those slots vacant that the range meets, gives up
exactly the references that they made, and comes to an end unless the cache has been emptied
too often to be counted. To free the range again empties the cache once more and changes
nothing else. -/
theorem freeing_clears_the_range {m : Machine} {live : Finset Space} {owed : Owed} {s : Space}
    (sound : (m.view live).Sound owed) (hs : s ∈ live) (start : VirtualAddress) (size : Nat) :
    ((∃ cause, s.freeRange start size m = .error cause) ↔
      ¬ RangeAccepted start size ∨ flushLimit ≤ m.flushes + 1) ∧
    ∀ m', s.freeRange start size m = .ok ((), m') →
      m.Freed live s start size m' ∧ m'.flushes = m.flushes + 1 ∧
      (m'.flushes + 1 < flushLimit → s.freeRange start size m' = .ok ((), { m' with
        flushes := m'.flushes + 1, events := m'.events.push (.rangeFreed start size s.root) })) := by
  refine ⟨Machine.freeRange_stops_iff sound hs, fun m' run => ?_⟩
  have freed := Machine.freed_of_freeRange sound hs run
  refine ⟨freed, (s.flushes_freeRange start size m).of_run run, fun room => ?_⟩
  obtain ⟨slots, m₁, look, -⟩ := bind_eq_ok_iff.mp run
  have accepted := exists_rangeSlots_iff.mp ⟨slots, (inspect_eq_ok_iff.mp look).1⟩
  have covered (i : Slot) (h : InRange start size i) : Meets start size i :=
    (inRange_iff_meets accepted).mp h
  have guards := ((Machine.guards_free sound hs).freeRange covered).of_run run
  have inside : s.root.index < m'.ram.size := by
    rw [guards.size]
    exact sound.separate.root_inside s hs
  refine Space.freeRange_of_vacant accepted (fun i meets => ?_) room
  rw [Space.tableAt_eq inside, freed.vacant i meets]

section Tiny

/-- One page table with one page is given up. -/
theorem freeing_clears_the_range_tiny :
    tinySpace.link tinyAfter.2.ram 0 ≠ none ∧
    ∃ m', tinySpace.freeRange .zero 1 tinyAfter.2 = .ok ((), m') ∧
      tinyAfter.2.Freed tinyAfter.1.live tinySpace .zero 1 m' := by
  have live : tinySpace ∈ tinyAfter.1.live := by decide +kernel
  have linked : tinySpace.link tinyAfter.2.ram 0 ≠ none := by decide +kernel
  have accepted : RangeAccepted .zero 1 := by decide
  have room : ¬ flushLimit ≤ tinyAfter.2.flushes + 1 := by decide +kernel
  obtain ⟨stops, freed⟩ := freeing_clears_the_range sound_tinyAfter live .zero 1
  cases run : tinySpace.freeRange .zero 1 tinyAfter.2 with
  | error cause => exact absurd (stops.mp ⟨cause, run⟩) (not_or.mpr ⟨not_not.mpr accepted, room⟩)
  | ok result => exact ⟨linked, result.2, rfl, (freed result.2 run).1⟩

end Tiny

end PagedMemory
