import PagedMemory.Proofs.FreedRanges

/-!
# What cloning a range does

Before anything is changed, every slot of the range is looked at in the child, and the first
one that links a page table stops the kernel (`CloneStops`). After that each page table of
the parent is given a counterpart in a frame that was free. The counterpart holds read-only
copies of what the parent maps, from the first pages of each slot only if the range starts at
zero, and the parent itself keeps no right to write to a page that is counted
(`Machine.RangeCloned`).

The counts follow from soundness before and after: beside the child nobody refers to
anything else than before, and the child refers to what it was given.
-/

namespace PagedMemory

open Machine

/-- How many entries of each table are cloned from a range. -/
def clonedBound (start : VirtualAddress) : Nat :=
  if start.value = 0 then lowCloneEntries else entriesPerTable

theorem mem_clonedEntries_iff {start : VirtualAddress} {j : Slot} :
    j ∈ Space.clonedEntries start ↔ j.val < clonedBound start := by
  unfold Space.clonedEntries clonedBound
  split
  · have window := mem_take_drop_allSlots 0 lowCloneEntries (i := j)
    rwa [List.drop_zero, Nat.zero_add, and_iff_right (Nat.zero_le _)] at window
  · exact iff_of_true (mem_allSlots j) j.isLt

/-! ## When cloning stops -/

section Stops

variable {m m' : Machine} {live : Finset Space} {owed : Owed} {p c s : Space}
  {start : VirtualAddress} {size : Nat} {i : Slot}

/-- The first slot of the range that is linked in the space stops the kernel, which has only
looked at the slots before. -/
def Machine.RefusedAt (m : Machine) (c : Space) (start : VirtualAddress) (size : Nat)
    (i : Slot) : Prop :=
  ∃ before after, rangeSlots .clone start size = .ok (before ++ i :: after) ∧
    before.forM c.requireVacant m = .ok ((), m) ∧ c.requireVacant i m = .error (.slotOccupied i)

/-- Why a range is not cloned. -/
inductive CloneStops (m : Machine) (c : Space) (start : VirtualAddress) (size : Nat) : Halt → Prop
  | occupied {i : Slot} (refused : m.RefusedAt c start size i) :
      CloneStops m c start size (.slotOccupied i)
  | other {cause : Halt}
      (vacant : ∀ slots, rangeSlots .clone start size = .ok slots →
        ∀ i ∈ slots, c.link m.ram i = none)
      (other : ∀ i, cause ≠ .slotOccupied i) : CloneStops m c start size cause

theorem Space.requireVacant_ends (inside : s.root.index < m.ram.size) (i : Slot) :
    Ends (s.requireVacant i) m (fun cause => cause = .slotOccupied i ∧ s.link m.ram i ≠ none)
      fun _ m' => m' = m ∧ s.link m.ram i = none := by
  refine Ends.bind (P := fun e m' => m' = m ∧ e.target = s.link m.ram i)
    (Ends.inspect (Ram.entry_eq_bytes inside i) ⟨rfl, rfl⟩) ?_
  rintro e _ ⟨rfl, target⟩
  rw [← target]
  split
  · next present =>
    apply Ends.halt
    exact ⟨rfl, fun none => by rw [Entry.target_eq_none_iff.mp none] at present; cases present⟩
  · next absent =>
    apply Ends.pure
    exact ⟨rfl, Entry.target_eq_none_iff.mpr (Bool.not_eq_true _ ▸ absent)⟩

/-- The check finds the first slot that is linked, or none. -/
theorem Space.requireVacant_slots (inside : s.root.index < m.ram.size) (slots : List Slot) :
    Ends (slots.forM s.requireVacant) m
      (fun cause => ∃ before i after, slots = before ++ i :: after ∧
        before.forM s.requireVacant m = .ok ((), m) ∧
        s.requireVacant i m = .error (.slotOccupied i) ∧ cause = .slotOccupied i)
      fun _ m' => m' = m ∧ ∀ i ∈ slots, s.link m.ram i = none := by
  induction slots with
  | nil => exact Ends.pure ⟨rfl, nofun⟩
  | cons i rest ih =>
    cases run : s.requireVacant i m with
    | error cause =>
      obtain ⟨rfl, -⟩ := (s.requireVacant_ends inside i).of_error run
      refine Ends.bind (P := fun _ _ => False) (Ends.of_stop run ?_) nofun
      exact ⟨[], i, rest, rfl, rfl, run, rfl⟩
    | ok result =>
      obtain ⟨same, vacant⟩ := (s.requireVacant_ends inside i).of_run run
      have kept : s.requireVacant i m = .ok ((), m) := run.trans (by rw [← same])
      apply Ends.bind (P := fun _ m' => m' = m) (Ends.intro kept rfl)
      rintro _ _ rfl
      refine (ih.mono_stops ?_).mono ?_
      · rintro cause ⟨before, i', after, rfl, checked, occupied, rfl⟩
        exact ⟨i :: before, i', after, rfl, bind_eq_ok_iff.mpr ⟨(), _, kept, checked⟩, occupied, rfl⟩
      · rintro _ m₂ ⟨same, others⟩
        exact ⟨same, List.forall_mem_cons.mpr ⟨vacant, others⟩⟩

/-- The slot is one of the range, and linked. -/
theorem Machine.RefusedAt.linked (refused : m.RefusedAt c start size i)
    (inside : c.root.index < m.ram.size) :
    RangeAccepted start size ∧ Meets start size i ∧ c.link m.ram i ≠ none := by
  obtain ⟨before, after, range, -, stop⟩ := refused
  refine ⟨exists_rangeSlots_iff.mp ⟨_, range⟩, (mem_rangeSlots_iff_meets range).mp ?_, ?_⟩
  · exact List.mem_append_right before List.mem_cons_self
  · exact ((c.requireVacant_ends inside i).of_error stop).2

theorem not_slotOccupied_of_range {operation : RangeOperation} {cause : Halt}
    (bad : rangeSlots operation start size = .error cause) : ∀ i, cause ≠ .slotOccupied i := by
  unfold rangeSlots at bad
  dsimp only at bad
  rintro i rfl
  split at bad
  · cases bad
  · split at bad <;> cases bad

/-- A range was cloned, as it is seen before and after. -/
structure Machine.ClonedAs (m : Machine) (live : Finset Space) (owed : Owed) (p c : Space)
    (start : VirtualAddress) (size : Nat) (slots : List Slot) (w : View) (m' : Machine) : Prop where
  range : rangeSlots .clone start size = .ok slots
  ready : (m.view live).Ready owed p c slots
  cloned : View.Cloned p c (Space.clonedEntries start) slots (m.view live) none w
  shows : m'.Shows w.flushed

/-- What comes of cloning a range into a live space. -/
theorem Machine.cloneRange_stops (sound : (m.view live).Sound owed)
    (hp : (m.view live).Parent p) (hc : c ∈ live) (apart : p ≠ c) (start : VirtualAddress)
    (size : Nat) :
    Tries (p.cloneRange c start size) m (CloneStops m c start size)
      (fun _ m' => ∃ slots w, m.ClonedAs live owed p c start size slots w m')
      (fun _ _ => ∃ slots, rangeSlots .clone start size = .ok slots ∧
        ∀ i ∈ slots, c.link m.ram i = none) := by
  cases range : rangeSlots .clone start size with
  | error cause =>
    have stops : Ends (p.cloneInto c start size) m (CloneStops m c start size)
        fun _ _ => False := by
      unfold Space.cloneInto demand
      rw [range]
      refine Ends.bind (P := fun _ _ => False) (Ends.of_stop rfl ?_) nofun
      apply CloneStops.other
      · intro slots found
        rw [range] at found
        cases found
      · exact not_slotOccupied_of_range range
    exact Tries.lift_bind stops nofun
  | ok slots =>
    by_cases vacant : ∀ i ∈ slots, c.link m.ram i = none
    · have ready := ready_of_vacant sound hp hc apart range vacant
      refine (((m.shows_view live).cloneRange ready range).mono_stops ?_).mono ?_ ?_
      · intro cause exhausts
        apply CloneStops.other
        · rintro _ found
          rw [range] at found
          cases found
          exact vacant
        · rintro i rfl
          cases exhausts
      · rintro _ m' ⟨w, cloned, shows⟩
        exact ⟨slots, w, range, ready, cloned, shows⟩
      · intro _ _ _
        exact ⟨slots, rfl, vacant⟩
    · have stops : Ends (p.cloneInto c start size) m (CloneStops m c start size)
          fun _ _ => False := by
        refine Ends.bind (P := fun found m' => found = slots ∧ m' = m)
          (Ends.demand range ⟨rfl, rfl⟩) ?_
        rintro _ _ ⟨rfl, rfl⟩
        have inside := sound.separate.root_inside c hc
        refine Ends.bind ((Space.requireVacant_slots inside _).mono_stops ?_) ?_
        · rintro cause ⟨before, i, after, rfl, checked, occupied, rfl⟩
          exact .occupied ⟨before, after, range, checked, occupied⟩
        · rintro _ m₁ ⟨-, free⟩
          exact absurd free vacant
      exact Tries.lift_bind stops nofun

end Stops

/-! ## What is cloned -/

/-- The entry of the parent maps a page of the range that is counted. -/
def Machine.Lapses (m : Machine) (p : Space) (start : VirtualAddress) (size : Nat) (k : Place) :
    Prop :=
  Meets start size k.1 ∧ k.2.val < clonedBound start ∧ (p.leaf m.ram k).present = true ∧
    m.pool.manages (p.leaf m.ram k).frame = true

instance {m : Machine} {p : Space} {start : VirtualAddress} {size : Nat} :
    DecidablePred (m.Lapses p start size) :=
  fun _ => inferInstanceAs (Decidable (_ ∧ _))

/-- A range of the parent has been cloned into a space, and nothing else has happened. -/
structure Machine.RangeCloned (m : Machine) (live : Finset Space) (p c : Space)
    (start : VirtualAddress) (size : Nat) (m' : Machine) : Prop where
  /-- Each page table of the range has a counterpart in a frame that was free. -/
  tables : ∀ i, Meets start size i → p.link m.ram i ≠ none → ∃ t, c.link m'.ram i = some t ∧
    m.pool.refCount? t = some 0 ∧ m'.pool.refCount? t = some 1
  /-- Where the parent has no page table, the child has none. -/
  vacant : ∀ i, Meets start size i → p.link m.ram i = none → c.link m'.ram i = none
  /-- The counterparts hold read-only copies of what is mapped, and nothing else. -/
  copies : ∀ k : Place, Meets start size k.1 → c.leaf m'.ram k =
    if k.2.val < clonedBound start ∧ (p.leaf m.ram k).present = true then
      (p.leaf m.ram k).writeProtected
    else .zero
  /-- The parent cannot write any more to the pages that are counted. -/
  parent : ∀ k : Place, p.leaf m'.ram k =
    if m.Lapses p start size k then (p.leaf m.ram k).writeProtected else p.leaf m.ram k
  tracked : ∀ f, m'.pool.manages f = m.pool.manages f
  /-- A frame has gained one reference for each copy that maps it, and one as a page table. -/
  counts : ∀ f, m.pool.manages f = true → m'.pool.count f = m.pool.count f +
    (Finset.univ.filter fun k : Place => Meets start size k.1 ∧ k.2.val < clonedBound start ∧
      (p.leaf m.ram k).target = some f).card +
    if ∃ i, Meets start size i ∧ c.link m'.ram i = some f then 1 else 0
  /-- Only directory slots that were given a page table have changed. -/
  directories : ∀ s, s ∈ live ∨ s = p →
    ∀ i, ¬ (s = c ∧ Meets start size i ∧ p.link m.ram i ≠ none) →
      m'.ram.entry s.root i = m.ram.entry s.root i
  /-- Every other entry of a live space is what it was. -/
  entries : ∀ s ∈ live, s ≠ p → ∀ k : Place, ¬ (s = c ∧ Meets start size k.1) →
    s.leaf m'.ram k = s.leaf m.ram k
  /-- No frame in use was written to but directories and page tables of live spaces. -/
  bytes : ∀ f, m.InUse f → ¬ (m.view live).Structural f → m'.ram.frame? f = m.ram.frame? f

section Effect

variable {m m' : Machine} {live : Finset Space} {owed : Owed} {p c s : Space}
  {start : VirtualAddress} {size : Nat} {slots : List Slot} {f : FrameId}

/-- A page that the parent could write to has a second reference now, from its copy. -/
theorem Machine.RangeCloned.refCount?_of_writable (cloned : m.RangeCloned live p c start size m')
    (sound : (m.view live).Sound owed) (hp : p ∈ live) {k : Place} (meets : Meets start size k.1)
    (below : k.2.val < clonedBound start) (present : (p.leaf m.ram k).present = true)
    (writable : (p.leaf m.ram k).writable = true) :
    m'.pool.refCount? (p.leaf m.ram k).frame = some 2 := by
  obtain ⟨tracked, one⟩ := sound.exclusive p hp k present writable
  change m.pool.manages (p.leaf m.ram k).frame = true at tracked
  change m.pool.count (p.leaf m.ram k).frame = 1 at one
  have maps : (p.leaf m.ram k).target = some (p.leaf m.ram k).frame :=
    Entry.target_eq_some_iff.mpr ⟨present, rfl⟩
  have copies : (Finset.univ.filter fun k' : Place => Meets start size k'.1 ∧
      k'.2.val < clonedBound start ∧
      (p.leaf m.ram k').target = some (p.leaf m.ram k).frame) = {k} := by
    ext k'
    rw [Finset.mem_filter_univ, Finset.mem_singleton]
    constructor
    · rintro ⟨-, -, same⟩
      exact Cell.leaf.inj (sound.sole tracked one hp (c := .leaf k) maps hp (d := .leaf k') same).2
    · rintro rfl
      exact ⟨meets, below, maps⟩
  have table : ¬ ∃ i, Meets start size i ∧ c.link m'.ram i = some (p.leaf m.ram k).frame := by
    rintro ⟨i, inside, linked⟩
    by_cases vacant : p.link m.ram i = none
    · rw [cloned.vacant i inside vacant] at linked
      cases linked
    · obtain ⟨t, made, free, -⟩ := cloned.tables i inside vacant
      rw [linked, Option.some.injEq] at made
      rw [← made, FramePool.refCount?, if_pos tracked, one] at free
      cases free
  have counted := cloned.counts _ tracked
  rw [copies, if_neg table, Finset.card_singleton, one] at counted
  rw [FramePool.refCount?, if_pos ((cloned.tracked _).trans tracked), counted]

/-! ### In memory -/

/-- Frames in use, but for the slots of the child that get a page table and the entries of the
parent that lose the right to be written to. -/
def cloneGuard (m : Machine) (p c : Space) (start : VirtualAddress) (size : Nat) : Guard :=
  fun f j => m.InUse f ∧ (∀ i, p.link m.ram i = some f → ¬ m.Lapses p start size (i, j)) ∧
    ¬ (f = c.root ∧ Meets start size j ∧ p.link m.ram j ≠ none)

/-- Only a live space maps what is counted. -/
theorem Machine.live_of_lapses (sound : (m.view live).Sound owed) (hp : (m.view live).Parent p)
    {k : Place} (lapses : m.Lapses p start size k) : p ∈ live := by
  obtain ⟨-, -, present, managed⟩ := lapses
  refine hp.resolve_right fun quiet => ?_
  rw [← m.sourceLeaf_view live] at present managed
  exact (quiet.sourceLeaf sound present).1 managed

/-- The page tables of a parent are no directories. -/
theorem Machine.root_ne_link (sound : (m.view live).Sound owed) (hp : (m.view live).Parent p)
    (hs : s ∈ live) {i : Slot} (linked : p.link m.ram i = some f) : s.root ≠ f := by
  rcases hp with live | quiet
  · exact sound.separate.table_ne_root p live i f linked s hs
  · rintro rfl
    exact (quiet.table i s.root linked).1 (sound.root s hs).1

theorem Machine.inUse_root (sound : (m.view live).Sound owed) (hp : (m.view live).Parent p)
    (hs : s ∈ live ∨ s = p) : m.InUse s.root := by
  have used (hs : s ∈ live) : m.InUse s.root := .of_count (sound.root s hs).2 Nat.one_ne_zero
  rcases hs with live | rfl
  · exact used live
  · rcases hp with live | quiet
    · exact used live
    · exact .of_unmanaged quiet.root.1

/-- Directories are guarded, but for the slots of the child that get a page table. -/
theorem Machine.guards_root (sound : (m.view live).Sound owed) (hp : (m.view live).Parent p)
    (hs : s ∈ live ∨ s = p) {j : Slot}
    (kept : ¬ (s = c ∧ Meets start size j ∧ p.link m.ram j ≠ none)) :
    cloneGuard m p c start size s.root j := by
  refine ⟨inUse_root sound hp hs, fun i linked lapses => ?_, fun h => kept ⟨Space.ext h.1, h.2⟩⟩
  have hp' := live_of_lapses sound hp lapses
  have hs' : s ∈ live := hs.elim id fun same => same ▸ hp'
  exact root_ne_link sound hp hs' linked rfl

theorem Machine.cloneable (sound : (m.view live).Sound owed) (hp : (m.view live).Parent p)
    (hc : c ∈ live) (apart : p ≠ c) :
    m.Cloneable (cloneGuard m p c start size) p c (Meets start size) (Space.clonedEntries start) := by
  constructor
  · intro i _
    exact guards_root sound hp (.inr rfl) fun h => apart h.1
  · intro i t meets linked
    constructor
    · exact fun guarded => guarded.2.2 ⟨rfl, meets, linked ▸ nofun⟩
    · exact (root_ne_link sound hp hc linked).symm
  · intro i t meets linked j copied guarded present managed
    rw [← Space.leaf_of_link linked] at present managed
    exact guarded.2.1 i linked ⟨meets, mem_clonedEntries_iff.mp copied, present, managed⟩

theorem Machine.guarding_clone (sound : (m.view live).Sound owed) (hc : c ∈ live)
    (vacant : ∀ i, Meets start size i → c.link m.ram i = none) :
    m.Guarding (cloneGuard m p c start size) c (Meets start size) m := by
  refine { size := rfl, word := fun _ _ _ => rfl, table := ?_, layout := rfl, used := ?_ }
  · intro i t meets linked
    rw [vacant i meets] at linked
    cases linked
  · rintro f (rfl | ⟨j, guarded⟩)
    · exact .of_count (sound.root c hc).2 Nat.one_ne_zero
    · exact guarded.1

/-! ### In the view -/

/-- A frame has gained as many references as the slots of the range now make to it. -/
theorem View.Cloned.count {v w : View} {o : Owed} {js : List Slot}
    (cloned : Cloned p c js slots v none w) (ready : v.Ready o p c slots) (distinct : js.Nodup)
    (covered : ∀ i ∈ slots, v.sourceLink p i = none →
      ∀ j, (v.sourceLeaf p (i, j)).present = false) {f : FrameId} (tracked : v.tracks f = true) :
    w.count f = v.count f +
      (Finset.univ.filter fun k : Place => (k.1 ∈ slots ∧ k.2 ∈ js) ∧
        (v.sourceLeaf p k).target = some f).card +
      if ∃ i, i ∈ slots ∧ w.link c i = some f then 1 else 0 := by
  have acts := cloned.acts ready distinct fun i (h : i ∈ slots) => h
  have live := cloned.live ready distinct
  have leaf := cloned.leaf ready distinct covered
  have others (s : Space) (_ : s ∈ v.live) (other : s ≠ c) (d : Cell) :
      w.refers s d = v.refers s d := by
    cases d with
    | root => rfl
    | link i => exact cloned.link_of_ne other i
    | leaf k =>
      rw [View.refers, View.refers, leaf]
      split
      · exact target_sharedLeaf other
      · rfl
  have links (i : Slot) : hits (w.link c i) f = hits (v.link c i) f +
      if i ∈ slots ∧ w.link c i = some f then 1 else 0 := by
    by_cases inside : i ∈ slots
    · rw [ready.vacant i inside, hits_none, Pi.zero_apply, Nat.zero_add]
      simp only [hits, inside, true_and]
    · rw [cloned.link_of_not_mem inside, if_neg fun h => inside h.1, Nat.add_zero]
  have leaves (k : Place) : hits (w.leaf c k).target f = hits (v.leaf c k).target f +
      if (k.1 ∈ slots ∧ k.2 ∈ js) ∧ (v.sourceLeaf p k).target = some f then 1 else 0 := by
    rw [leaf]
    by_cases inside : k.1 ∈ slots ∧ k.2 ∈ js
    · have blank : (v.leaf c k).target = none :=
        Entry.target_eq_none_iff.mpr (ready.blank k.1 inside.1 k.2)
      rw [if_pos inside, target_sharedLeaf_self blank, blank, hits_none, Pi.zero_apply, Nat.zero_add]
      simp only [hits, inside, true_and]
    · rw [if_neg inside, if_neg fun h => inside h.1, Nat.add_zero]
  have exchanged := View.references_exchange ready.target live others f
  have uses := View.uses_add _ _ links leaves
  have sound := acts.sound ready.sound
  rw [sound.sum_tables (live.symm ▸ ready.target), ← Finset.card_filter] at uses
  have before := ready.sound.counted f tracked
  have after := sound.counted f ((acts.tracks f).trans tracked)
  omega

/-! ### In the machine -/

/-- Where a parent has no page table it maps nothing. -/
theorem Machine.sourceLeaf_of_vacant {i : Slot} (vacant : (m.view live).sourceLink p i = none)
    (j : Slot) : ((m.view live).sourceLeaf p (i, j)).present = false := by
  rw [sourceLink_view] at vacant
  rw [sourceLeaf_view, Space.leaf_of_vacant vacant]
  rfl

/-- The memory of a quiet space is left alone. -/
theorem Machine.Shows.leaf_of_quiet {v : View} {o : Owed} {allowed : Change → Prop}
    (shows : m'.Shows v) (quiet : (m.view live).Quiet p) (sound : (m.view live).Sound owed)
    (acts : View.Acts allowed (m.view live) owed v o) (k : Place) :
    p.leaf m'.ram k = p.leaf m.ram k := by
  have kept {f : FrameId} (untracked : ¬ (m.view live).tracks f = true) :
      m'.ram.bytes f = m.ram.bytes f := by
    have untracked' : ¬ v.tracks f = true := by rwa [acts.tracks]
    rw [shows.bytes f ((acts.sound sound).not_hidden_of_untracked untracked')]
    exact acts.untracked sound untracked
  exact Space.leaf_congr (kept quiet.root.1) fun t linked => kept (quiet.table k.1 t linked).1

namespace Machine.ClonedAs

variable {w : View} (done : m.ClonedAs live owed p c start size slots w m')

include done

theorem acts : View.Acts (Clones (m.view live).live p c slots) (m.view live) owed w owed :=
  done.cloned.acts done.ready (nodup_clonedEntries start) fun _ h => h

theorem live_eq : w.live = live :=
  done.cloned.live done.ready (nodup_clonedEntries start)

theorem target : c ∈ w.flushed.live :=
  done.live_eq.symm ▸ done.ready.target

theorem sound : (m'.view live).Sound owed := by
  have shown := done.shows.sound_view (done.acts.sound done.ready.sound).flushed
  rwa [show w.flushed.live = live from done.live_eq] at shown

/-- The entries that were cloned are those under the slots that the range meets. -/
theorem leaf (hs : s ∈ live) (k : Place) : s.leaf m'.ram k =
    if Meets start size k.1 ∧ k.2.val < clonedBound start then (m.view live).sharedLeaf p c s k
    else s.leaf m.ram k := by
  rw [done.shows.leaf s (done.live_eq.symm ▸ hs), View.flushed,
    done.cloned.leaf done.ready (nodup_clonedEntries start) fun i _ => sourceLeaf_of_vacant]
  simp only [mem_rangeSlots_iff_meets done.range, mem_clonedEntries_iff]
  rfl

theorem link (i : Slot) : c.link m'.ram i = w.link c i :=
  done.shows.link c done.target i

theorem link_eq_none_iff {i : Slot} (meets : Meets start size i) :
    c.link m'.ram i = none ↔ p.link m.ram i = none := by
  rw [done.link, done.cloned.link_eq_none_iff done.ready (nodup_clonedEntries start)
    ((mem_rangeSlots_iff_meets done.range).mpr meets), sourceLink_view]

theorem count (managed : m.pool.manages f = true) :
    m'.pool.count f = m.pool.count f +
      (Finset.univ.filter fun k : Place => Meets start size k.1 ∧ k.2.val < clonedBound start ∧
        (p.leaf m.ram k).target = some f).card +
      if ∃ i, Meets start size i ∧ c.link m'.ram i = some f then 1 else 0 := by
  have counted := done.cloned.count done.ready (nodup_clonedEntries start)
    (fun i _ => sourceLeaf_of_vacant) (f := f) managed
  simp only [mem_rangeSlots_iff_meets done.range, mem_clonedEntries_iff, sourceLeaf_view,
    and_assoc, ← done.link] at counted
  rw [done.shows.count f ((done.acts.tracks f).trans managed)]
  exact counted

/-- A page table of the child has one reference and had none. -/
theorem table {i : Slot} (meets : Meets start size i) (linked : c.link m'.ram i = some f) :
    m.pool.refCount? f = some 0 ∧ m'.pool.refCount? f = some 1 := by
  obtain ⟨tracked, one⟩ := (done.acts.sound done.ready.sound).table c done.target i f
    ((done.link i).symm.trans linked)
  have managed : m.pool.manages f = true := (done.acts.tracks f).symm.trans tracked
  have managed' : m'.pool.manages f = true := (done.shows.manages f).trans tracked
  have counted := done.count managed
  have now : m'.pool.count f = 1 := (done.shows.count f tracked).trans one
  rw [if_pos ⟨i, meets, linked⟩, now] at counted
  have zero : m.pool.count f = 0 := by omega
  rw [FramePool.refCount?, FramePool.refCount?, if_pos managed, if_pos managed', zero, now]
  exact ⟨rfl, rfl⟩

theorem copy {k : Place} (meets : Meets start size k.1) : c.leaf m'.ram k =
    if k.2.val < clonedBound start ∧ (p.leaf m.ram k).present = true then
      (p.leaf m.ram k).writeProtected
    else .zero := by
  have blank : c.leaf m.ram k = .zero := Space.leaf_of_vacant (j := k.2)
    (done.ready.vacant k.1 ((mem_rangeSlots_iff_meets done.range).mpr meets))
  have before : (m.view live).leaf c k = .zero := blank
  rw [done.leaf done.ready.target, View.sharedLeaf_self, sourceLeaf_view, before, blank, ← ite_and]
  simp only [meets, true_and]

theorem parent (k : Place) : p.leaf m'.ram k =
    if m.Lapses p start size k then (p.leaf m.ram k).writeProtected else p.leaf m.ram k := by
  have sound := done.ready.sound
  rcases done.ready.source with hp | quiet
  · have before : (m.view live).leaf p k = p.leaf m.ram k := rfl
    rw [done.leaf hp, View.sharedLeaf, sourceLeaf_view, before, ← ite_and]
    refine if_congr ?_ rfl rfl
    constructor
    · rintro ⟨⟨meets, below⟩, present, same | ⟨-, -, managed⟩⟩
      · exact absurd same done.ready.apart
      · exact ⟨meets, below, present, managed⟩
    · rintro ⟨meets, below, present, managed⟩
      exact ⟨⟨meets, below⟩, present, .inr ⟨rfl, hp, managed⟩⟩
  · rw [if_neg fun lapses => quiet.not_live sound (live_of_lapses sound (.inr quiet) lapses)]
    exact done.shows.leaf_of_quiet quiet sound (done.acts.flushed .note) k

/-- Beside the two spaces nothing has changed. -/
theorem leaf_of_ne (hs : s ∈ live) (other : s ≠ p) {k : Place}
    (outside : ¬ (s = c ∧ Meets start size k.1)) : s.leaf m'.ram k = s.leaf m.ram k := by
  rw [done.leaf hs]
  split
  · next inside =>
    apply if_neg
    rintro ⟨-, same | ⟨same, -⟩⟩
    · exact outside ⟨same, inside.1⟩
    · exact other same
  · rfl

theorem rangeCloned (guards : m.Guards (cloneGuard m p c start size) c (Meets start size) m') :
    m.RangeCloned live p c start size m' where
  tables i meets linked := by
    obtain ⟨t, made⟩ :=
      Option.ne_none_iff_exists'.mp fun none => linked ((done.link_eq_none_iff meets).mp none)
    exact ⟨t, made, done.table meets made⟩
  vacant i meets := (done.link_eq_none_iff meets).mpr
  copies k := done.copy
  parent := done.parent
  tracked f := (done.shows.manages f).trans (done.acts.tracks f)
  counts f := done.count
  directories s hs i kept := guards.entry (guards_root done.ready.sound done.ready.source hs kept)
  entries s hs other k := done.leaf_of_ne hs other
  bytes f used data := by
    apply guards.frame?
    intro j
    refine ⟨used, fun i linked lapses => ?_, fun h => ?_⟩
    · exact data ⟨p, live_of_lapses done.ready.sound done.ready.source lapses, .inr ⟨i, linked⟩⟩
    · exact data ⟨c, done.ready.target, .inl h.1.symm⟩

end Machine.ClonedAs

/-- The state after a range was cloned, and its soundness. -/
theorem Machine.rangeCloned_of_cloneRange (sound : (m.view live).Sound owed)
    (hp : (m.view live).Parent p) (hc : c ∈ live) (apart : p ≠ c)
    (run : outcome (p.cloneRange c start size) m = .ok (.ok (), m')) :
    m.RangeCloned live p c start size m' ∧ (m'.view live).Sound owed := by
  obtain ⟨slots, w, done⟩ := (cloneRange_stops sound hp hc apart start size).done_of_run run
  have vacant (i : Slot) (meets : Meets start size i) : c.link m.ram i = none :=
    done.ready.vacant i ((mem_rangeSlots_iff_meets done.range).mpr meets)
  have accepted := exists_rangeSlots_iff.mp ⟨slots, done.range⟩
  have guards := ((guarding_clone sound hc vacant).cloneRange (cloneable sound hp hc apart)
    fun i inside => (inRange_iff_meets accepted).mp inside).done_of_run run
  exact ⟨done.rangeCloned guards, done.sound⟩

end Effect

/-- Cloning an accepted range into a live space with another directory stops at the first slot
of the range that is linked there, and has changed nothing by then. A range that was cloned
is copied exactly, and so are the references that it makes. -/
theorem cloning_copies_the_range {m : Machine} {live : Finset Space} {owed : Owed} {p c : Space}
    (sound : (m.view live).Sound owed) (hp : (m.view live).Parent p) (hc : c ∈ live)
    (apart : p ≠ c) (start : VirtualAddress) (size : Nat) :
    ((∃ i, outcome (p.cloneRange c start size) m = .error (.slotOccupied i)) ↔
      RangeAccepted start size ∧ ∃ i, Meets start size i ∧ c.link m.ram i ≠ none) ∧
    (∀ i, outcome (p.cloneRange c start size) m = .error (.slotOccupied i) →
      m.RefusedAt c start size i) ∧
    ∀ m', outcome (p.cloneRange c start size) m = .ok (.ok (), m') →
      m.RangeCloned live p c start size m' := by
  have stops := Machine.cloneRange_stops sound hp hc apart start size
  have refused {i : Slot} (stop : outcome (p.cloneRange c start size) m = .error (.slotOccupied i)) :
      m.RefusedAt c start size i := by
    cases stops.of_error stop with
    | occupied refused => exact refused
    | other _ other => exact absurd rfl (other i)
  refine ⟨⟨?_, ?_⟩, fun i => refused, fun m' run => ?_⟩
  · rintro ⟨i, stop⟩
    obtain ⟨accepted, linked⟩ := (refused stop).linked (sound.separate.root_inside c hc)
    exact ⟨accepted, i, linked⟩
  · rintro ⟨accepted, i, meets, linked⟩
    obtain ⟨slots, range⟩ := exists_rangeSlots_iff.mpr accepted
    have inside := (mem_rangeSlots_iff_meets range).mpr meets
    have occupied (vacant : ∀ i ∈ slots, c.link m.ram i = none) : False :=
      linked (vacant i inside)
    cases run : outcome (p.cloneRange c start size) m with
    | error cause =>
      cases stops.of_error run with
      | occupied => exact ⟨_, rfl⟩
      | other vacant => exact (occupied (vacant slots range)).elim
    | ok result =>
      obtain ⟨cause | _, m'⟩ := result
      · obtain ⟨slots', range', vacant⟩ := stops.failed_of_run run
        cases range.symm.trans range'
        exact (occupied vacant).elim
      · obtain ⟨slots', w, done⟩ := stops.done_of_run run
        cases range.symm.trans done.range
        exact (occupied done.ready.vacant).elim
  · exact (Machine.rangeCloned_of_cloneRange sound hp hc apart run).1

section Tiny

theorem sound_tinySpaces : (tinySpaces.2.view tinySpaces.1.live).Sound (tinySpaces.1.owed .tiny) :=
  reaches_tinySpaces.sound fun _ _ _ h => h

def tinyClone : Attempt Unit :=
  tinySpace.cloneRange tinyOther .zero 1

/-- What is computed of the state before. -/
theorem computed_tinySpaces :
    tinySpace ∈ tinySpaces.1.live ∧ tinyOther ∈ tinySpaces.1.live ∧
    tinySpace.leaf tinySpaces.2.ram (0, 1) = .make (tinyFrame 3) .userWritable ∧
    tinySpaces.2.pool.manages (tinyFrame 3) = true ∧
    tinySpace.link tinySpaces.2.ram 0 ≠ none ∧ tinyOther.link tinySpaces.2.ram 0 = none ∧
    tinySpaces.2.flushes + 1 < flushLimit ∧ (∀ n ∈ tinySpaces.2.pool.counts, n ≤ 1) ∧
    tinySpaces.2.pool.free.card = 2 := by
  decide +kernel

/-- Of the two free frames the clone takes one. -/
theorem run_tinyClone :
    outcome tinyClone tinySpaces.2 = .ok (.ok (), tinySpaces.2.after tinyClone) := by
  obtain ⟨first, other, -, -, -, vacant, unflushed, counts, two⟩ := computed_tinySpaces
  have range : rangeSlots .clone .zero 1 = .ok [0] := by decide +kernel
  have room : tinySpaces.2.RoomFor [0] := .of_le unflushed counts (by decide)
  have returns := Machine.cloneRange_returns_iff sound_tinySpaces (.inl first) other (by decide)
    range (List.forall_mem_singleton.mpr vacant) room
  apply Machine.run_after
  apply returns.mpr
  rw [two]
  exact List.countP_le_length.trans (by decide)

theorem refCount?_tinyClone :
    (tinySpaces.2.after tinyClone).pool.refCount? (tinyFrame 3) = some 2 := by
  obtain ⟨first, other, leaf, -⟩ := computed_tinySpaces
  have cloned := (Machine.rangeCloned_of_cloneRange sound_tinySpaces (.inl first) other (by decide)
    run_tinyClone).1
  have count := cloned.refCount?_of_writable sound_tinySpaces first (k := (0, 1)) (by decide)
    (by decide) (congrArg Entry.present leaf) (congrArg Entry.writable leaf)
  rwa [leaf] at count

/-- The slot with a page table cannot be cloned into, but it can be cloned. The page that is
mapped there is shared, and neither space can write to it any more. -/
theorem cloning_copies_the_range_tiny :
    (tinySpaces.2.view tinySpaces.1.live).Sound (tinySpaces.1.owed .tiny) ∧
    (∃ i, outcome (tinyOther.cloneRange tinySpace .zero 1) tinySpaces.2 =
      .error (.slotOccupied i)) ∧
    tinySpace.leaf tinySpaces.2.ram (0, 1) = .make (tinyFrame 3) .userWritable ∧
    outcome tinyClone tinySpaces.2 = .ok (.ok (), tinySpaces.2.after tinyClone) ∧
    tinySpaces.2.RangeCloned tinySpaces.1.live tinySpace tinyOther .zero 1
      (tinySpaces.2.after tinyClone) ∧
    (∃ t, tinyOther.link (tinySpaces.2.after tinyClone).ram 0 = some t) ∧
    tinyOther.leaf (tinySpaces.2.after tinyClone).ram (0, 1) =
      .make (tinyFrame 3) .userReadOnly ∧
    tinySpace.leaf (tinySpaces.2.after tinyClone).ram (0, 1) =
      .make (tinyFrame 3) .userReadOnly ∧
    (tinySpaces.2.after tinyClone).pool.refCount? (tinyFrame 3) = some 2 := by
  obtain ⟨first, other, leaf, managed, linked, -⟩ := computed_tinySpaces
  have apart : tinySpace ≠ tinyOther := by decide
  have meets : Meets .zero 1 0 := by decide
  have below : (1 : Slot).val < clonedBound .zero := by decide
  have occupied := (cloning_copies_the_range sound_tinySpaces (.inl other) first apart.symm .zero 1).1
  have cloned := (cloning_copies_the_range sound_tinySpaces (.inl first) other apart .zero 1).2.2 _
    run_tinyClone
  obtain ⟨t, table, -⟩ := cloned.tables 0 meets linked
  have copy := cloned.copies (0, 1) meets
  have parent := cloned.parent (0, 1)
  have lapses : tinySpaces.2.Lapses tinySpace .zero 1 (0, 1) := by
    unfold Machine.Lapses
    rw [leaf]
    exact ⟨meets, below, rfl, managed⟩
  rw [leaf, if_pos ⟨below, rfl⟩] at copy
  rw [if_pos lapses, leaf] at parent
  exact ⟨sound_tinySpaces, occupied.mpr ⟨by decide, 0, meets, linked⟩, leaf, run_tinyClone, cloned,
    ⟨t, table⟩, copy, parent, refCount?_tinyClone⟩

end Tiny

end PagedMemory
