import PagedMemory.Proofs.ClonedRanges

/-!
# Forks that exit at once

A space that was cloned from a parent and is ended with the same range leaves nothing behind
but the pages of the parent that cannot be written to any more (`Machine.Restored`).

Making the space takes a frame that was free, cloning takes a reference for each page that is
copied and one for each page table, and freeing gives up just these, since the entries of
the child are the copies. Every frame that was in use before is written to by the clone
alone.
-/

namespace PagedMemory

open Machine

section Spaces

variable {m m' : Machine} {live : Finset Space} {owed : Owed} {p c s : Space} {r r' : Ram}
  {f : FrameId} {i : Slot}

/-! ## What is known of frames in use -/

theorem Machine.inUse_link (sound : (m.view live).Sound owed) (hp : (m.view live).Parent p)
    (hs : s ∈ live ∨ s = p) (linked : s.link m.ram i = some f) : m.InUse f := by
  have used (hs : s ∈ live) : m.InUse f := inUse_table sound hs linked
  rcases hs with live | rfl
  · exact used live
  · rcases hp with live | quiet
    · exact used live
    · exact .of_unmanaged (quiet.table i f linked).1

/-- Where the frames in use are the same, so are the directory and the entries of a space. -/
theorem Machine.entries_of_same (sound : (m.view live).Sound owed)
    (hp : (m.view live).Parent p) (hs : s ∈ live ∨ s = p)
    (links : ∀ i, s.link r i = s.link m.ram i)
    (same : ∀ f, m.InUse f → r'.frame? f = r.frame? f) :
    (∀ i, r'.entry s.root i = r.entry s.root i) ∧ ∀ k, s.leaf r' k = s.leaf r k := by
  have bytes (f : FrameId) (used : m.InUse f) : r'.bytes f = r.bytes f := by
    rw [Ram.bytes, Ram.bytes, same f used]
  have root := inUse_root sound hp hs
  constructor
  · intro i
    exact Ram.entry_congr (same s.root root) i
  · intro k
    apply Space.leaf_congr (bytes s.root root)
    intro t linked
    exact bytes t (inUse_link sound hp hs ((links k.1).symm.trans linked))

/-! ## A new space -/

/-- A space that maps nothing was made, and nothing else has happened. -/
structure Machine.Founded (m : Machine) (live : Finset Space) (owed : Owed) (p c : Space)
    (m' : Machine) : Prop where
  sound : (m'.view (insert c live)).Sound owed
  source : (m'.view (insert c live)).Parent p
  apart : p ≠ c
  vacant : ∀ i, c.link m'.ram i = none
  free : ¬ m.InUse c.root
  used : ∀ f, m.InUse f → m'.InUse f
  frames : ∀ f, m.InUse f → m'.ram.frame? f = m.ram.frame? f
  tracked : ∀ f, m'.pool.manages f = m.pool.manages f
  counts : ∀ f, m.pool.manages f = true →
    m'.pool.count f = m.pool.count f + if f = c.root then 1 else 0

theorem Machine.founded_of_create (sound : (m.view live).Sound owed)
    (hp : (m.view live).Parent p) :
    Tries Space.create m (fun _ => True) (fun c m' => m.Founded live owed p c m')
      fun _ _ => True := by
  have forkable : m.Forkable (fun f _ => m.InUse f) p (fun _ => False) [] :=
    ⟨fun _ _ used => used, nofun, nofun, nofun⟩
  have shown := ((m.shows_view live).create sound).mono_stops fun _ _ => trivial
  refine ((shown.and forkable.create).mono_stops fun _ _ => trivial).mono ?_ fun _ _ _ => trivial
  rintro c m' ⟨⟨free, shows⟩, unused, -, guarding⟩
  have ready := View.ready_founded sound hp free List.nodup_nil
  constructor
  · exact shows.sound_view ready.sound
  · exact shows.parent_view ready.sound ready.source
  · exact ready.apart
  · intro i
    exact (shows.link c ready.target i).trans (if_pos rfl)
  · exact unused
  · intro f used
    exact guarding.used f (.inr ⟨0, used⟩)
  · intro f used
    exact guarding.toGuards.frame? fun _ => used
  · exact shows.manages
  · intro f managed
    rw [shows.count f managed]
    by_cases same : f = c.root
    · have zero : m.pool.count c.root = 0 := free.2
      have one : ((m.view live).founded c).count c.root = 1 := if_pos rfl
      rw [if_pos same, same, zero, one]
    · rw [if_neg same]
      exact if_neg same

end Spaces

/-! ## There and back -/

/-- A space was cloned from a parent and ended again. Only pages that were cloned and are
counted cannot be written to by the parent any more. -/
structure Machine.Restored (m : Machine) (live : Finset Space) (p : Space)
    (start : VirtualAddress) (size : Nat) (m' : Machine) : Prop where
  counts : ∀ f, m'.pool.refCount? f = m.pool.refCount? f
  bytes : ∀ f, m.InUse f → ¬ (m.view live).Structural f → m'.ram.frame? f = m.ram.frame? f
  directories : ∀ s, s ∈ live ∨ s = p → ∀ i, m'.ram.entry s.root i = m.ram.entry s.root i
  entries : ∀ s ∈ live, s ≠ p → ∀ k, s.leaf m'.ram k = s.leaf m.ram k
  parent : ∀ k, p.leaf m'.ram k =
    if m.Lapses p start size k then (p.leaf m.ram k).writeProtected else p.leaf m.ram k

section Runs

variable {m m₀ m₁ m₂ m₃ : Machine} {live : Finset Space} {owed : Owed} {p c s : Space}
  {start : VirtualAddress} {size : Nat} {f : FrameId}

/-- The frames that the clone takes were free. -/
theorem Machine.RangeCloned.link_ne (cloned : m.RangeCloned live p c start size m₁)
    (used : m.InUse f) {i : Slot} (meets : Meets start size i) : c.link m₁.ram i ≠ some f := by
  intro linked
  by_cases vacant : p.link m.ram i = none
  · rw [cloned.vacant i meets vacant] at linked
    cases linked
  · obtain ⟨t, made, free, -⟩ := cloned.tables i meets vacant
    rw [linked] at made
    cases made
    exact used free

/-- The copies refer to a frame as often as what was copied. -/
theorem Machine.RangeCloned.card_copies (cloned : m.RangeCloned live p c start size m₁)
    (f : FrameId) :
    (Finset.univ.filter fun k : Place =>
      Meets start size k.1 ∧ (c.leaf m₁.ram k).target = some f) =
    Finset.univ.filter fun k : Place => Meets start size k.1 ∧ k.2.val < clonedBound start ∧
      (p.leaf m.ram k).target = some f := by
  apply Finset.filter_congr
  intro k _
  refine and_congr_right fun meets => ?_
  rw [cloned.copies k meets]
  split
  · next copied =>
    rw [and_iff_right copied.1]
    rfl
  · next absent =>
    constructor
    · intro maps
      cases maps
    · rintro ⟨below, maps⟩
      exact absurd ⟨below, (Entry.target_eq_some_iff.mp maps).1⟩ absent

/-- What freeing the range gives up is what cloning it took. -/
theorem Machine.count_of_freed (cloned : m.RangeCloned live p c start size m₁)
    (freed : m₁.Freed live c start size m₂) (managed : m.pool.manages f = true) :
    m₂.pool.count f = m.pool.count f := by
  have gained := cloned.counts f managed
  have lost := freed.counts f ((cloned.tracked f).trans managed)
  rw [cloned.card_copies] at lost
  omega

/-- A space was founded, was given a clone of the range, lost it again and ended. -/
structure Machine.ForkExit (m : Machine) (live : Finset Space) (owed : Owed) (p c : Space)
    (start : VirtualAddress) (size : Nat) (m₀ m₁ m₂ m₃ : Machine) : Prop where
  founded : m.Founded live owed p c m₀
  cloned : m₀.RangeCloned (insert c live) p c start size m₁
  freed : m₁.Freed (insert c live) c start size m₂
  released : m₂.pool.release c.root = .ok m₃.pool
  ram : m₃.ram = m₂.ram

namespace Machine.ForkExit

variable (exit : m.ForkExit live owed p c start size m₀ m₁ m₂ m₃)
  (sound : (m.view live).Sound owed) (hp : (m.view live).Parent p)

include exit

theorem refCount? (f : FrameId) : m₃.pool.refCount? f = m.pool.refCount? f := by
  have tracked₀ := exit.founded.tracked f
  have tracked₂ := (exit.freed.tracked f).trans (exit.cloned.tracked f)
  have tracked₃ := FramePool.manages_release exit.released f
  rw [FramePool.refCount?, FramePool.refCount?, tracked₃, tracked₂, tracked₀]
  split
  · next managed =>
    have given := exit.founded.counts f managed
    have level := count_of_freed exit.cloned exit.freed (tracked₀.trans managed)
    have taken := FramePool.count_release exit.released
      (tracked₂.trans (tracked₀.trans managed))
    congr 1
    omega
  · rfl

theorem root_ne (used : m.InUse f) : f ≠ c.root := by
  rintro rfl
  exact exit.founded.free used

/-- No frame that was in use at the beginning is written to when the child ends. -/
theorem frame?_eq (used : m.InUse f) : m₃.ram.frame? f = m₁.ram.frame? f := by
  rw [exit.ram]
  exact exit.freed.bytes f (exit.root_ne used) fun i meets =>
    exit.cloned.link_ne (exit.founded.used f used) meets

theorem data_of_data (used : m.InUse f) (data : ¬ (m.view live).Structural f)
    (links : ∀ s ∈ live, ∀ i, s.link m₀.ram i = s.link m.ram i) :
    ¬ (m₀.view (insert c live)).Structural f := by
  rintro ⟨s, hs, table⟩
  rcases Finset.mem_insert.mp hs with rfl | hs
  · rcases table with root | ⟨i, linked⟩
    · exact exit.root_ne used root.symm
    · have vacant : (m₀.view (insert s live)).link s i = none := exit.founded.vacant i
      rw [vacant] at linked
      cases linked
  · refine data ⟨s, hs, table.imp_right ?_⟩
    rintro ⟨i, linked⟩
    exact ⟨i, (links s hs i).symm.trans linked⟩

include sound hp in
theorem restored : m.Restored live p start size m₃ := by
  have ne (s : Space) (hs : s ∈ live ∨ s = p) : s ≠ c := by
    rintro rfl
    exact exit.root_ne (inUse_root sound hp hs) rfl
  -- The directory of the child is all that was new before the clone.
  have made (s : Space) (hs : s ∈ live ∨ s = p) :
      (∀ i, m₀.ram.entry s.root i = m.ram.entry s.root i) ∧
        ∀ k, s.leaf m₀.ram k = s.leaf m.ram k :=
    entries_of_same sound hp hs (fun _ => rfl) exit.founded.frames
  have directory (s : Space) (hs : s ∈ live ∨ s = p) (i : Slot) :
      m₁.ram.entry s.root i = m.ram.entry s.root i := by
    have hs' : s ∈ insert c live ∨ s = p := hs.imp_left Finset.mem_insert_of_mem
    rw [exit.cloned.directories s hs' i fun h => ne s hs h.1]
    exact (made s hs).1 i
  have ended (s : Space) (hs : s ∈ live ∨ s = p) :
      (∀ i, m₃.ram.entry s.root i = m₁.ram.entry s.root i) ∧
        ∀ k, s.leaf m₃.ram k = s.leaf m₁.ram k :=
    entries_of_same sound hp hs (fun i => Space.link_of_entry (directory s hs i))
      fun f used => exit.frame?_eq used
  constructor
  · exact exit.refCount?
  · intro f used data
    have data₀ := exit.data_of_data used data fun s hs i =>
      Space.link_of_entry ((made s (.inl hs)).1 i)
    rw [exit.frame?_eq used, exit.cloned.bytes f (exit.founded.used f used) data₀]
    exact exit.founded.frames f used
  · intro s hs i
    exact ((ended s hs).1 i).trans (directory s hs i)
  · intro s hs other k
    rw [(ended s (.inl hs)).2, exit.cloned.entries s (Finset.mem_insert_of_mem hs) other k
      fun h => ne s (.inl hs) h.1]
    exact (made s (.inl hs)).2 k
  · intro k
    have lapses : m₀.Lapses p start size k ↔ m.Lapses p start size k := by
      simp only [Lapses, (made p (.inr rfl)).2, exit.founded.tracked]
    rw [(ended p (.inr rfl)).2, exit.cloned.parent, (made p (.inr rfl)).2]
    simp only [lapses]

end Machine.ForkExit

theorem Space.createFrom_of_cloned (made : outcome Space.create m = .ok (.ok c, m₀))
    (cloned : outcome (p.cloneRange c start size) m₀ = .ok (.ok (), m₁)) :
    outcome (Space.createFrom (some p) start size) m = .ok (.ok c, m₁) := by
  unfold Space.createFrom
  rw [outcome_bind_of_run made]
  exact outcome_bind_of_run (outcome_undoing_of_run cloned)

/-- To make a clone is to found a space and to clone the range into it. -/
theorem Machine.founded_of_createFrom (sound : (m.view live).Sound owed)
    (hp : (m.view live).Parent p) (start : VirtualAddress) (size : Nat) :
    Tries (Space.createFrom (some p) start size) m (fun _ => True)
      (fun c m₁ => RangeAccepted start size ∧ (m₁.view (insert c live)).Sound owed ∧
        ∃ m₀, m.Founded live owed p c m₀ ∧ m₀.RangeCloned (insert c live) p c start size m₁)
      fun _ _ => True := by
  refine Tries.bind (founded_of_create sound hp) ?_
  intro c m₀ founded
  have target : c ∈ insert c live := Finset.mem_insert_self c live
  have clone := (cloneRange_stops founded.sound founded.source target founded.apart start size).with_run
  refine Tries.bind (P := fun _ m₁ => RangeAccepted start size ∧
    (m₁.view (insert c live)).Sound owed ∧
    ∃ m₀, m.Founded live owed p c m₀ ∧ m₀.RangeCloned (insert c live) p c start size m₁)
    (Tries.undoing ((clone.mono_stops fun _ _ => trivial).mono ?_ ?_)) fun _ m₁ post => ?_
  · rintro _ m₁ ⟨run, slots, w, done⟩
    obtain ⟨cloned, sound'⟩ :=
      rangeCloned_of_cloneRange founded.sound founded.source target founded.apart run
    exact ⟨exists_rangeSlots_iff.mp ⟨slots, done.range⟩, sound', m₀, founded, cloned⟩
  · intro _ m₁ _
    exact Ends.any _ m₁
  · exact Tries.pure post

end Runs

/-- Whoever forks and ends the child at once finds all counts, all other entries and all data
as before, and can tell the difference only by pages that lost the right to be written to. -/
theorem fork_then_exit_is_neutral {m m₁ : Machine} {live : Finset Space} {owed : Owed}
    {p c : Space} {start : VirtualAddress} {size : Nat} (sound : (m.view live).Sound owed)
    (hp : (m.view live).Parent p)
    (forked : outcome (Space.createFrom (some p) start size) m = .ok (.ok c, m₁)) :
    (∀ cause, c.destroy start size m₁ = .error cause →
      cause = .overflow ∧ flushLimit ≤ m₁.flushes + 1) ∧
    ∀ m₂, c.destroy start size m₁ = .ok ((), m₂) → m.Restored live p start size m₂ := by
  obtain ⟨accepted, sound', m₀, founded, cloned⟩ :=
    (Machine.founded_of_createFrom sound hp start size).done_of_run forked
  have target : c ∈ insert c live := Finset.mem_insert_self c live
  obtain ⟨slots, range⟩ := exists_rangeSlots_iff.mpr accepted
  refine ⟨fun cause => (Machine.destroy_stops sound' target range).of_error, fun m₃ run => ?_⟩
  obtain ⟨_, m₂, free, release⟩ := bind_eq_ok_iff.mp run
  obtain ⟨ram, released⟩ := (Ends.release m₂ c.root).of_run release
  have exit : m.ForkExit live owed p c start size m₀ m₁ m₂ m₃ :=
    ⟨founded, cloned, Machine.freed_of_freeRange sound' target free, released, ram⟩
  exact exit.restored sound hp

section Tiny

def tinyForkFirst : Attempt Space :=
  Space.createFrom (some tinySpace) .zero 1

theorem run_tinyForkFirst :
    outcome tinyForkFirst tinyAfter.2 = .ok (.ok tinyOther, tinySpaces.2.after tinyClone) := by
  have made : tinyAfter.2.product Space.create = some tinyOther := by decide +kernel
  have founded := Machine.run_of_product made
  have same : tinySpaces.2 = tinyAfter.2.after Space.create :=
    congrArg Prod.snd (Call.after_create founded .zero 0)
  rw [← same] at founded
  exact Space.createFrom_of_cloned founded run_tinyClone

/-- A clone with a page comes and goes. While it is there the page has two references. -/
theorem fork_then_exit_is_neutral_tiny :
    outcome tinyForkFirst tinyAfter.2 = .ok (.ok tinyOther, tinySpaces.2.after tinyClone) ∧
    tinySpace.leaf tinyAfter.2.ram (0, 1) = .make (tinyFrame 3) .userWritable ∧
    tinyAfter.2.pool.refCount? (tinyFrame 3) = some 1 ∧
    (tinySpaces.2.after tinyClone).pool.refCount? (tinyFrame 3) = some 2 ∧
    ∃ m₂, tinyOther.destroy .zero 1 (tinySpaces.2.after tinyClone) = .ok ((), m₂) ∧
      tinyAfter.2.Restored tinyAfter.1.live tinySpace .zero 1 m₂ ∧
      m₂.pool.refCount? (tinyFrame 3) = some 1 ∧
      tinySpace.leaf m₂.ram (0, 1) = .make (tinyFrame 3) .userReadOnly := by
  have live : tinySpace ∈ tinyAfter.1.live := by decide +kernel
  have before : tinySpace.leaf tinyAfter.2.ram (0, 1) = .make (tinyFrame 3) .userWritable := by
    decide +kernel
  have one : tinyAfter.2.pool.refCount? (tinyFrame 3) = some 1 := by decide +kernel
  have lapses : tinyAfter.2.Lapses tinySpace .zero 1 (0, 1) := by
    unfold Machine.Lapses
    rw [before]
    exact ⟨by decide, by decide, rfl, by decide +kernel⟩
  have room : ¬ flushLimit ≤ tinyAfter.2.flushes + 1 + 1 := by decide +kernel
  have flushed : (tinySpaces.2.after tinyClone).flushes = tinyAfter.2.flushes + 1 :=
    (Space.flushes_createFrom (some tinySpace) .zero 1 tinyAfter.2).done_of_run run_tinyForkFirst
  obtain ⟨stops, restored⟩ :=
    fork_then_exit_is_neutral sound_tinyAfter (.inl live) run_tinyForkFirst
  cases run : tinyOther.destroy .zero 1 (tinySpaces.2.after tinyClone) with
  | error cause => exact absurd (flushed ▸ (stops cause run).2) room
  | ok result =>
    have back := restored result.2 run
    have parent := back.parent (0, 1)
    rw [if_pos lapses, before] at parent
    exact ⟨run_tinyForkFirst, before, one, refCount?_tinyClone, result.2, rfl, back,
      (back.counts _).trans one, parent⟩

end Tiny

end PagedMemory
