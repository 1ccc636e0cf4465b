import PagedMemory.Proofs.ArgumentPages

/-!
# Mapping a single page

`Space.mapOne` names one page of one space. Directories, page tables and data share the frames,
so it takes an argument that nothing else moves: the only word that is written to belongs to that
page (`Machine.Writes`), and a page table that is made for it lies in a frame that was free and is
cleared before it is linked.

What is looked up for an address is compared before and after (`Space.KeepsAt`). A page for which
there is no page table looks like one with an empty entry, so that making a table is not seen.
-/

namespace PagedMemory

variable {m m' : Machine} {w : View} {live : Finset Space} {owed : Owed} {s p : Space}
  {va x : VirtualAddress} {f t : FrameId} {flags : Entry} {pages : Set (Space × Place)}

namespace Space

variable {r r' : Ram}

/-- The entry that is found for an address, empty if there is no page table for it. -/
def lookup (s : Space) (r : Ram) (va : VirtualAddress) : Except Halt Entry :=
  (s.entry r va).map (Option.getD · .zero)

/-- An address lies where it did, with the same rights. -/
def KeepsAt (s : Space) (r r' : Ram) (va : VirtualAddress) : Prop :=
  s.locate r' va = s.locate r va ∧ s.lookup r' va = s.lookup r va

theorem locate_eq (s : Space) (r : Ram) (va : VirtualAddress) :
    s.locate r va = (s.lookup r va).map fun e => e.target.map (·.join (va.offset .small)) := by
  unfold locate lookup
  cases s.entry r va with
  | error cause => rfl
  | ok found =>
    cases found with
    | none => rfl
    | some e => rfl

theorem KeepsAt.of_lookup (same : s.lookup r' va = s.lookup r va) : s.KeepsAt r r' va := by
  constructor
  · rw [locate_eq, locate_eq, same]
  · exact same

theorem lookup_eq (inside : s.Inside r) : s.lookup r va = .ok (s.leaf r va.splitSlots) := by
  rw [lookup, entry_eq inside]
  cases linked : s.link r va.directorySlot with
  | some t => rfl
  | none => exact congrArg Except.ok (leaf_of_vacant (j := va.tableSlot) linked).symm

end Space

namespace View

variable {v : View} {k : Place} {e : Entry}

theorem Separate.remap (sep : v.Separate) (s : Space) (k : Place) (e : Entry) :
    (v.remap s k e).Separate := by
  unfold View.remap
  split
  · exact { sep.setLeaf s k e with }
  · exact sep.setLeaf s k e

end View

namespace Machine

/-- Directories and page tables of a quiet space are left alone. -/
theorem Elsewhere.entry_of_quiet (elsewhere : m.Elsewhere live pages m')
    (sound : (m.view live).Sound owed) (quiet : (m.view live).Quiet p) (x : VirtualAddress) :
    p.entry m'.ram x = p.entry m.ram x := by
  -- A directory or page table that is not managed is no part of a live space.
  have untracked {f : FrameId} (foreign : ¬ (m.view live).tracks f = true) :
      m'.ram.frame? f = m.ram.frame? f := by
    apply elsewhere.bytes f (.of_unmanaged foreign)
    exact fun structural => sound.not_hidden_of_untracked foreign (.inr structural)
  have directory : p.tableOf m'.ram x = p.tableOf m.ram x := by
    rw [Space.tableOf, Space.tableOf, Space.tableAt, Space.tableAt,
      Ram.entry_congr (untracked quiet.root.1)]
  have table := Space.tableAt_eq (r := m.ram) quiet.root.2 x.directorySlot
  rw [Space.entry, Space.entry, directory, Space.tableOf, table]
  cases linked : p.link m.ram x.directorySlot with
  | none => rfl
  | some t =>
    have same := untracked (quiet.table _ t linked).1
    exact congrArg (·.map some) (Ram.entry_congr same x.tableSlot)

/-- An address is looked up as before if its entry is the same. -/
theorem Elsewhere.keepsAt (elsewhere : m.Elsewhere live pages m')
    (sound : (m.view live).Sound owed) (inside : ∀ s ∈ live, s.Inside m'.ram)
    (parent : (m.view live).Parent p)
    (same : p ∈ live → p.leaf m'.ram x.splitSlots = p.leaf m.ram x.splitSlots) :
    p.KeepsAt m.ram m'.ram x := by
  apply Space.KeepsAt.of_lookup
  obtain hp | quiet := parent
  · have before := (m.shows_view live).space_inside sound.separate hp
    rw [Space.lookup_eq (inside p hp), Space.lookup_eq before, same hp]
  · rw [Space.lookup, Space.lookup, elsewhere.entry_of_quiet sound quiet]

/-- The machine shows a view in which at most the entry of one page differs from what it was, and
has been written to in that page's own word only. -/
structure Rewrites (m : Machine) (live : Finset Space) (s : Space) (k : Place) (w : View)
    (m' : Machine) : Prop where
  shows : m'.Shows w
  separate : w.Separate
  lives : w.live = live
  leaf : ∀ p ∈ live, ∀ k', ¬ (p = s ∧ k' = k) → w.leaf p k' = p.leaf m.ram k'
  writes : m.Writes {s.word m.ram k} m'

namespace Rewrites

variable {k : Place} (rewrites : m.Rewrites live s k w m')

include rewrites

theorem leaf_eq (hp : p ∈ live) (k' : Place) : p.leaf m'.ram k' = w.leaf p k' :=
  rewrites.shows.leaf p (rewrites.lives.symm ▸ hp) k'

theorem inside (hp : p ∈ live) : p.Inside m'.ram :=
  rewrites.shows.space_inside rewrites.separate (rewrites.lives.symm ▸ hp)

theorem elsewhere (sound : (m.view live).Sound owed) (hs : s ∈ live) :
    m.Elsewhere live {(s, k)} m' := by
  apply Writes.elsewhere _ sound
  · rintro _ rfl
    exact hs
  · intro p hp k' outside
    rw [rewrites.leaf_eq hp]
    apply rewrites.leaf p hp
    rintro ⟨rfl, rfl⟩
    exact outside (Set.mem_singleton _)
  · rw [Set.image_singleton]
    exact rewrites.writes

/-- Other pages are looked up as before. -/
theorem keepsAt (sound : (m.view live).Sound owed) (hs : s ∈ live)
    (parent : (m.view live).Parent p) (other : ¬ (p = s ∧ x.splitSlots = k)) :
    p.KeepsAt m.ram m'.ram x := by
  apply (rewrites.elsewhere sound hs).keepsAt sound (fun _ => rewrites.inside) parent
  intro hp
  rw [rewrites.leaf_eq hp, rewrites.leaf p hp x.splitSlots other]

end Rewrites

/-- A page is mapped. Nothing else differs but for a page table, if one was missing. -/
structure MapsPage (m : Machine) (live : Finset Space) (s : Space) (va : VirtualAddress)
    (f : FrameId) (flags : Entry) (m' : Machine) : Prop where
  here : ∀ x : VirtualAddress, x.value / 4096 = va.value / 4096 →
    s.locate m'.ram x = .ok (some (f.join (x.offset .small))) ∧
      s.lookup m'.ram x = .ok (.make f flags)
  others : ∀ p, (m.view live).Parent p → ∀ x : VirtualAddress,
    ¬ (p = s ∧ x.value / 4096 = va.value / 4096) → p.KeepsAt m.ram m'.ram x
  bytes : ∀ g, m.InUse g → ¬ (m.view live).Structural g → m'.ram.frame? g = m.ram.frame? g
  linked : s.link m.ram va.directorySlot ≠ none → ∀ g, m'.pool.refCount? g = m.pool.refCount? g
  vacant : s.link m.ram va.directorySlot = none → ∃ t, m.pool.refCount? t = some 0 ∧
    s.link m'.ram va.directorySlot = some t ∧
    ∀ g, m'.pool.refCount? g = if g = t then some 1 else m.pool.refCount? g

/-- The frame of a page table that was made has its first reference. -/
theorem Shows.counts_of_covers {v : View} {i : Slot} (shows : m'.Shows v)
    (covers : (m.view live).Covers s i t w) (tracks : ∀ g, v.tracks g = w.tracks g)
    (count : v.count = w.count) :
    (s.link m.ram i ≠ none → ∀ g, m'.pool.refCount? g = m.pool.refCount? g) ∧
    (s.link m.ram i = none → m.pool.refCount? t = some 0 ∧
      ∀ g, m'.pool.refCount? g = if g = t then some 1 else m.pool.refCount? g) := by
  have before := m.shows_view live
  cases covers with
  | already linked =>
    have found : s.link m.ram i = some t := linked
    refine ⟨fun _ => before.refCount?_eq shows tracks fun g _ => congrFun count g, fun vacant => ?_⟩
    rw [found] at vacant
    cases vacant
  | anew vacant free =>
    have none' : s.link m.ram i = none := vacant
    refine ⟨fun linked => absurd none' linked, fun _ => ⟨free_view_iff.mp free, fun g => ?_⟩⟩
    have granted : v.count g = if g = t then 1 else m.pool.count g := congrFun count g
    have known : v.tracks g = (m.view live).tracks g := tracks g
    rw [shows.refCount?_eq_ite, before.refCount?_eq_ite, granted, known]
    split
    · next tracked =>
      split
      · rfl
      · rfl
    · next foreign =>
      rw [if_neg]
      rintro rfl
      exact foreign free.1

/-! ## The three operations -/

theorem ensureTable_rewrites (sound : (m.view live).Sound owed) (hs : s ∈ live)
    (run : outcome (s.ensureTable va) m = .ok (.ok t, m')) :
    ∃ w, m.Rewrites live s va.splitSlots w m' ∧ w.leaf = (m.view live).leaf := by
  obtain ⟨w, covers, shows⟩ := ((m.shows_view live).ensureTable sound hs va).done_of_run run
  have writes := ((Writes.refl m).ensureTable (fun _ busy => busy)
    (Set.mem_singleton _)).done_of_run run
  refine ⟨w, ⟨shows, (covers.sound hs sound).separate, covers.live, ?_, writes.1⟩, covers.leaf⟩
  intro p _ k _
  rw [covers.leaf]
  rfl

theorem tableOf_of_vacant (root : s.root.index < m.ram.size)
    (vacant : s.link m.ram va.directorySlot = none) : s.tableOf m.ram va = .ok none :=
  vacant ▸ Space.tableAt_eq root va.directorySlot

theorem updateEntry_of_vacant (vacant : s.link m.ram va.directorySlot = none)
    (root : s.root.index < m.ram.size) (change : Entry → Entry) :
    s.updateEntry va change m = .ok (none, m) := by
  have seen : s.findTable va m = .ok (none, m) :=
    inspect_eq_ok_iff.mpr ⟨tableOf_of_vacant root vacant, rfl⟩
  exact bind_eq_ok_iff.mpr ⟨none, m, seen, rfl⟩

theorem updateEntry_rewrites (sound : (m.view live).Sound owed) (hs : s ∈ live)
    {change : Entry → Entry} {found : Option Entry}
    (run : s.updateEntry va change m = .ok (found, m')) :
    ∃ w, m.Rewrites live s va.splitSlots w m' := by
  have writes := ((Writes.refl m).updateEntry (Set.mem_singleton _) change).of_run run
  cases linked : s.link m.ram va.directorySlot with
  | none =>
    have unchanged := updateEntry_of_vacant linked (sound.separate.root_inside s hs) change
    cases unchanged.symm.trans run
    exact ⟨_, m.shows_view live, sound.separate, rfl, fun _ _ _ _ => rfl, writes⟩
  | some t =>
    have shows := ((m.shows_view live).updateEntry sound.separate hs linked change).of_run run
    refine ⟨_, shows, sound.separate.setLeaf _ _ _, rfl, ?_, writes⟩
    intro p _ k other
    exact View.leaf_setLeaf_of_ne _ other

theorem mapOne_mapsPage (sound : (m.view live).Sound owed) (hs : s ∈ live)
    (run : outcome (s.mapOne f va flags) m = .ok (.ok (), m')) :
    m.MapsPage live s va f flags m' := by
  obtain ⟨t, w, covers, shows⟩ :=
    ((m.shows_view live).mapOne sound hs f va flags).done_of_run run
  have rewrites : m.Rewrites live s va.splitSlots
      (w.remap s va.splitSlots (.make f flags)) m' := by
    refine ⟨shows, (covers.sound hs sound).separate.remap _ _ _, ?_, ?_, ?_⟩
    · exact (w.live_remap _ _ _).trans covers.live
    · intro p _ k other
      rw [View.leaf_remap_of_ne _ other, covers.leaf]
      rfl
    · exact ((Writes.refl m).mapOne (fun _ busy => busy) (Set.mem_singleton _) f flags).done_of_run
        run
  obtain ⟨same, fresh⟩ := shows.counts_of_covers covers (w.tracks_remap _ _ _)
    (w.count_remap _ _ _)
  refine ⟨fun x page => ?_, fun p parent x other => ?_, (rewrites.elsewhere sound hs).bytes, same,
    fun vacant => ⟨t, (fresh vacant).1, ?_, (fresh vacant).2⟩⟩
  · have slots : x.splitSlots = va.splitSlots := Address.splitSlots_eq_iff.mpr page
    have found : s.lookup m'.ram x = .ok (.make f flags) := by
      rw [Space.lookup_eq (rewrites.inside hs), rewrites.leaf_eq hs, slots, View.leaf_remap_self]
    refine ⟨?_, found⟩
    rw [Space.locate_eq, found]
    rfl
  · apply rewrites.keepsAt sound hs parent
    rwa [Address.splitSlots_eq_iff]
  · rw [shows.link s (rewrites.lives.symm ▸ hs), View.link_remap, covers.link]

theorem alloc_of_full (full : ∀ g, ¬ (m.view live).Free g) : m.pool.alloc = none :=
  FramePool.alloc_eq_none_iff_used.mpr fun g free => full g (free_view_iff.mpr free)

/-- Where a page table is missing and no frame is left, no more than a remark is made. -/
theorem mapOne_full (vacant : s.tableOf m.ram va = .ok none) (full : m.pool.alloc = none) :
    ∃ events, outcome (s.mapOne f va flags) m =
      .ok (.error .outOfMemory, { m with events := events }) := by
  by_cases one : m.pool.refCount? f = some 1
  · exact ⟨m.events, mapOne_of_full one vacant full flags⟩
  · refine ⟨m.events.push (.sharedFrameMapped f va (m.pool.refCount? f)), ?_⟩
    unfold Space.mapOne
    refine (outcome_lift_bind_of_run (inspect_eq_ok_iff.mpr ⟨rfl, rfl⟩)).trans ?_
    rw [if_pos one]
    have recorded : remark (.sharedFrameMapped f va (m.pool.refCount? f)) m = .ok ((), _) := rfl
    refine (outcome_lift_bind_of_run recorded).trans ?_
    exact outcome_bind_of_fail (ensureTable_of_full vacant full)

end Machine

/-- Mapping a page changes what is looked up in that page and nowhere else. It changes no byte of
any frame in use that is not a directory or a page table, and takes a frame exactly if a page table
is missing; where it fails it changes nothing. Making a page table is not seen in any lookup, and
changing an entry is seen in lookups of its page only. -/
theorem mapping_touches_one_page (sound : (m.view live).Sound owed) (hs : s ∈ live)
    (f : FrameId) (va : VirtualAddress) (flags : Entry) :
    (∀ m', outcome (s.mapOne f va flags) m = .ok (.ok (), m') →
      m.MapsPage live s va f flags m') ∧
    (∀ cause m', outcome (s.mapOne f va flags) m = .ok (.error cause, m') →
      cause = .outOfMemory ∧ m' = { m with events := m'.events }) ∧
    (∀ cause, outcome (s.mapOne f va flags) m = .error cause → Exhausts cause) ∧
    (∀ result m', outcome (s.ensureTable va) m = .ok (result, m') →
      ∀ p, (m.view live).Parent p → ∀ x, p.KeepsAt m.ram m'.ram x) ∧
    ∀ change found m', s.updateEntry va change m = .ok (found, m') →
      ∀ p, (m.view live).Parent p → ∀ x : VirtualAddress,
        ¬ (p = s ∧ x.value / 4096 = va.value / 4096) → p.KeepsAt m.ram m'.ram x := by
  have shows := m.shows_view live
  have root := sound.separate.root_inside s hs
  refine ⟨fun m' => Machine.mapOne_mapsPage sound hs, fun cause m' run => ?_,
    fun cause => (shows.mapOne sound hs f va flags).of_error, fun result m' run p parent x => ?_,
    fun change found m' run p parent x other => ?_⟩
  · obtain ⟨-, vacant, full, -⟩ := (shows.mapOne sound hs f va flags).failed_of_run run
    obtain ⟨events, fails⟩ := Machine.mapOne_full (Machine.tableOf_of_vacant root vacant)
      (Machine.alloc_of_full full)
    cases fails.symm.trans run
    exact ⟨rfl, rfl⟩
  · cases result with
    | ok t =>
      obtain ⟨w, rewrites, leaf⟩ := Machine.ensureTable_rewrites sound hs run
      apply (rewrites.elsewhere sound hs).keepsAt sound (fun _ => rewrites.inside) parent
      intro hp
      rw [rewrites.leaf_eq hp, leaf]
      rfl
    | error cause =>
      obtain ⟨-, vacant, full, -⟩ := (shows.ensureTable sound hs va).failed_of_run run
      have fails := Machine.ensureTable_of_full (Machine.tableOf_of_vacant root vacant)
        (Machine.alloc_of_full full)
      cases fails.symm.trans run
      exact .of_lookup rfl
  · obtain ⟨w, rewrites⟩ := Machine.updateEntry_rewrites sound hs run
    apply rewrites.keepsAt sound hs parent
    rwa [Address.splitSlots_eq_iff]

section Tiny

/-- A page that is held is mapped where no page table is. -/
def tinyPlacing : Attempt Unit :=
  tinySpace.mapOne (tinyFrame 6) tinyNext .userWritable

/-- The page table takes the last frame. -/
theorem mapping_touches_one_page_tiny :
    outcome tinyPlacing tinyCrowded.2 = .ok (.ok (), tinyCrowded.2.after tinyPlacing) ∧
    tinyCrowded.2.MapsPage tinyCrowded.1.live tinySpace tinyNext (tinyFrame 6) .userWritable
      (tinyCrowded.2.after tinyPlacing) ∧
    tinySpace.link tinyCrowded.2.ram tinyNext.directorySlot = none := by
  have live : tinySpace ∈ tinyCrowded.1.live := by decide +kernel
  have run : outcome tinyPlacing tinyCrowded.2 =
      .ok (.ok (), tinyCrowded.2.after tinyPlacing) := Machine.run_of_product (by decide +kernel)
  have maps := (mapping_touches_one_page sound_tinyCrowded live (tinyFrame 6) tinyNext
    .userWritable).1 _ run
  exact ⟨run, maps, by decide +kernel⟩

end Tiny

end PagedMemory
