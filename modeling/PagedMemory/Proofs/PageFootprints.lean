import Mathlib.Data.Set.Image
import PagedMemory.Proofs.FailedForks

/-!
# Where single pages are changed in memory

An answer to a fault changes the entry of one page, and where no page table covers the page it
links one. A view tells what becomes of entries and counts. It does not tell that no other word
of a directory and no byte of a frame in use has been written to.

This is said here of memory as it is. Of the frames that were in use, the operations below write
to a single word (`Machine.Writes`): the entry of the page, or the slot of the directory that is
vacant (`Space.word`). In a sound state this word belongs to no other page, so that everything
else is left alone (`Machine.Elsewhere`).
-/

namespace PagedMemory

variable {m₀ m m' : Machine} {s : Space} {f : FrameId}

namespace Ram

variable {r r' : Ram}

/-- Frames with the same words are the same. -/
theorem frame?_eq_of_entries (same : ∀ j, r'.entry f j = r.entry f j) :
    r'.frame? f = r.frame? f := by
  unfold entry at same
  cases found : r.frame? f with
  | none =>
    cases found' : r'.frame? f with
    | none => rfl
    | some b' =>
      rw [found, found'] at same
      cases same 0
  | some b =>
    cases found' : r'.frame? f with
    | none =>
      rw [found, found'] at same
      cases same 0
    | some b' =>
      rw [found, found'] at same
      exact congrArg some (Frame.ext_entry fun j => Except.ok.inj (same j))

theorem entry_modify_of_ne {g : FrameId} (change : Frame → Frame) (other : g ≠ f) (j : Slot) :
    (r.modify f change).entry g j = r.entry g j :=
  entry_congr (frame?_modify_of_ne r change other) j

theorem entry_modify_self {change : Frame → Frame} {j : Slot}
    (kept : ∀ b : Frame, (change b).entry j = b.entry j) :
    (r.modify f change).entry f j = r.entry f j := by
  unfold entry
  rw [frame?_modify_self]
  cases r.frame? f with
  | none => rfl
  | some b => exact congrArg Except.ok (kept b)

end Ram

/-- The word that is written to when a page is mapped: its entry if there is a page table for it,
and the slot of the directory if there is none. -/
def Space.word (s : Space) (r : Ram) (k : Place) : FrameId × Slot :=
  match s.link r k.1 with
  | some t => (t, k.2)
  | none => (s.root, k.1)

namespace Space

variable {r r' : Ram} {k : Place}

theorem word_of_link {t : FrameId} (linked : s.link r k.1 = some t) : s.word r k = (t, k.2) := by
  simp only [word, linked]

theorem word_of_vacant (vacant : s.link r k.1 = none) : s.word r k = (s.root, k.1) := by
  simp only [word, vacant]

theorem word_congr (root : r'.frame? s.root = r.frame? s.root) : s.word r' k = s.word r k := by
  have bytes : r'.bytes s.root = r.bytes s.root := congrArg (Option.getD · Frame.zero) root
  simp only [word, link_congr bytes]

end Space

namespace Machine

/-- Of the frames in use, nothing but these words has been written to. -/
def Writes (m₀ : Machine) (W : Set (FrameId × Slot)) (m : Machine) : Prop :=
  ∀ f j, m₀.InUse f → (f, j) ∉ W → m.ram.entry f j = m₀.ram.entry f j

/-- A change of one page above all: entries of other pages are what they were, directories are
but for slots that were vacant and lie above one of the pages, and so are the bytes of all frames in
use that hold neither. -/
structure Elsewhere (m : Machine) (live : Finset Space) (pages : Set (Space × Place))
    (m' : Machine) : Prop where
  directories : ∀ s ∈ live, ∀ i, (s.link m.ram i = none → ∀ j, (s, (i, j)) ∉ pages) →
    m'.ram.entry s.root i = m.ram.entry s.root i
  entries : ∀ s ∈ live, ∀ k, (s, k) ∉ pages → s.leaf m'.ram k = s.leaf m.ram k
  bytes : ∀ f, m.InUse f → ¬ (m.view live).Structural f → m'.ram.frame? f = m.ram.frame? f

namespace Elsewhere

variable {live : Finset Space} {pages pages' : Set (Space × Place)} {m₁ : Machine}

theorem refl (m : Machine) : m.Elsewhere live pages m :=
  ⟨fun _ _ _ _ => rfl, fun _ _ _ _ => rfl, fun _ _ _ => rfl⟩

theorem mono (elsewhere : m.Elsewhere live pages m') (more : pages ⊆ pages') :
    m.Elsewhere live pages' m' where
  directories s hs i outside :=
    elsewhere.directories s hs i fun vacant j here => outside vacant j (more here)
  entries s hs k outside := elsewhere.entries s hs k fun here => outside (more here)
  bytes := elsewhere.bytes

/-- If all of the pages are mapped, no directory has changed. -/
theorem directory (elsewhere : m.Elsewhere live pages m')
    (mapped : ∀ p ∈ pages, (p.1.leaf m.ram p.2).present = true) (hs : s ∈ live) (i : Slot) :
    m'.ram.entry s.root i = m.ram.entry s.root i := by
  refine elsewhere.directories s hs i fun vacant j here => ?_
  have present := mapped _ here
  rw [Space.leaf_of_vacant vacant] at present
  cases present

/-- One change after the other. Page tables that were made in between lie in frames that were
free. -/
theorem trans (first : m.Elsewhere live pages m₁) (rest : m₁.Elsewhere live pages' m')
    (used : ∀ f, m.InUse f → m₁.InUse f)
    (tables : ∀ s ∈ live, ∀ i t, s.link m₁.ram i = some t →
      s.link m.ram i = some t ∨ ¬ m.InUse t) :
    m.Elsewhere live (pages ∪ pages') m' where
  directories s hs i outside := by
    have same := first.directories s hs i fun vacant j here => outside vacant j (.inl here)
    rw [rest.directories s hs i, same]
    rw [Space.link_of_entry same]
    exact fun vacant j here => outside vacant j (.inr here)
  entries s hs k outside := by
    rw [rest.entries s hs k fun here => outside (.inr here)]
    exact first.entries s hs k fun here => outside (.inl here)
  bytes f busy data := by
    rw [rest.bytes f (used f busy), first.bytes f busy data]
    rintro ⟨s, hs, rfl | ⟨i, linked⟩⟩
    · exact data ⟨s, hs, .inl rfl⟩
    · rcases tables s hs i f linked with before | unused
      · exact data ⟨s, hs, .inr ⟨i, before⟩⟩
      · exact unused busy

end Elsewhere

namespace Lends

variable {W : Set (FrameId × Slot)}

/-- A frame that was lent was free. -/
theorem writes (lent : m₀.Lends f m) : m₀.Writes W m :=
  fun g j used _ => Ram.entry_congr (lent.frame g used) j

theorem word (lent : m₀.Lends f m) (root : m₀.InUse s.root) (k : Place) :
    s.word m.ram k = s.word m₀.ram k :=
  Space.word_congr (lent.frame s.root root)

theorem copyFrame (lent : m₀.Lends f m) (source : FrameId) :
    Ends (PagedMemory.copyFrame source f) m (fun _ => True) fun _ m' => m₀.Lends f m' := by
  by_cases same : source = f
  · have run : PagedMemory.copyFrame source f m = .ok ((), m) := by
      simp only [PagedMemory.copyFrame, if_pos same]
    exact Ends.intro run lent
  cases found : m.ram.frame? source with
  | none =>
    have stop : PagedMemory.copyFrame source f m = .error .copyOutside := by
      simp only [PagedMemory.copyFrame, if_neg same, found]
    exact Ends.of_stop stop trivial
  | some bytes =>
    by_cases inside : f.index < m.ram.size
    · have run : PagedMemory.copyFrame source f m =
          .ok ((), { m with ram := m.ram.modify f fun _ => bytes }) := by
        simp only [PagedMemory.copyFrame, if_neg same, found, if_pos inside]
      apply Ends.intro run
      exact (lent.modifyFrame fun _ => bytes).of_run (modifyFrame_eq_ok_iff.mpr ⟨inside, rfl⟩)
    · have stop : PagedMemory.copyFrame source f m = .error .copyOutside := by
        simp only [PagedMemory.copyFrame, if_neg same, found, if_neg inside]
      exact Ends.of_stop stop trivial

end Lends

namespace Writes

variable {W W' : Set (FrameId × Slot)} {va : VirtualAddress}

theorem refl (m : Machine) : m.Writes W m :=
  fun _ _ _ _ => rfl

theorem keep (writes : m₀.Writes W m) (ram : m'.ram = m.ram) : m₀.Writes W m' := by
  intro f j used spared
  rw [ram]
  exact writes f j used spared

theorem frame? (writes : m₀.Writes W m) (used : m₀.InUse f) (spared : ∀ j, (f, j) ∉ W) :
    m.ram.frame? f = m₀.ram.frame? f :=
  Ram.frame?_eq_of_entries fun j => writes f j used (spared j)

/-! ## Primitive operations -/

theorem modifyFrame (writes : m₀.Writes W m) {change : Frame → Frame}
    (kept : m₀.InUse f → ∀ j, (f, j) ∉ W → ∀ b : Frame, (change b).entry j = b.entry j) :
    Ends (PagedMemory.modifyFrame f change) m (fun _ => True) fun _ m' => m₀.Writes W m' := by
  refine (Ends.modifyFrame m f change).mono ?_
  rintro _ m₁ ⟨inside, rfl⟩ g j used spared
  by_cases same : g = f
  · subst same
    rw [Ram.entry_modify_self (kept used j spared)]
    exact writes g j used spared
  · rw [Ram.entry_modify_of_ne change same]
    exact writes g j used spared

theorem writeEntry (writes : m₀.Writes W m) {j : Slot} (here : m₀.InUse f → (f, j) ∈ W) (e : Entry) :
    Ends (PagedMemory.writeEntry f j e) m (fun _ => True) fun _ m' => m₀.Writes W m' := by
  apply writes.modifyFrame
  intro used j' spared b
  apply Frame.entry_setEntry_of_ne
  rintro rfl
  exact spared (here used)

theorem flush (writes : m₀.Writes W m) :
    Ends PagedMemory.flush m (fun _ => True) fun _ m' => m₀.Writes W m' := by
  apply Ends.flush
  · intro counted
    exact writes.keep rfl
  · intro overrun
    trivial

/-! ## Page tables and entries -/

/-- A page table that is made lies in a frame that was free before, as long as frames in use
stay in use. -/
theorem ensureTable (writes : m₀.Writes W m) (used : ∀ f, m₀.InUse f → m.InUse f)
    (here : s.word m.ram va.splitSlots ∈ W) :
    Tries (s.ensureTable va) m (fun _ => True)
      (fun t m' => m₀.Writes W m' ∧ (m₀.InUse t → (t, va.tableSlot) ∈ W))
      (fun _ m' => m₀.Writes W m') := by
  refine Tries.lift_bind (P := fun found m' => m' = m ∧ found = s.link m.ram va.directorySlot)
    (Ends.look (fun found seen => ⟨rfl, Space.eq_link_of_tableAt seen⟩) fun _ _ => trivial) ?_
  rintro found m₁ ⟨rfl, linked⟩
  cases found with
  | some t =>
    rw [Space.word_of_link (k := va.splitSlots) linked.symm] at here
    exact Tries.pure ⟨writes, fun _ => here⟩
  | none =>
    rw [Space.word_of_vacant (k := va.splitSlots) linked.symm] at here
    refine Tries.bind (P := fun t m' => m₀.Writes W m' ∧ ¬ m₀.InUse t)
      (Tries.lift_bind (Ends.allocFrame? m₁) ?_) ?_
    · rintro given m₂ ⟨ram, -, -, granted⟩
      cases given with
      | none => exact Tries.fail (writes.keep ram)
      | some t =>
        have free := (granted t rfl).1
        exact Tries.pure ⟨writes.keep ram, fun used' => free (used t used')⟩
    · rintro t m₂ ⟨writes₂, free⟩
      refine Tries.lift_bind (writes₂.modifyFrame fun used' => absurd used' free) ?_
      intro _ m₃ writes₃
      refine Tries.lift_bind (writes₃.writeEntry (fun _ => here) _) ?_
      intro _ m₄ writes₄
      refine Tries.lift_bind (P := fun _ m' => m₀.Writes W m')
        (Ends.intro rfl (writes₄.keep rfl)) ?_
      intro _ m₅ writes₅
      exact Tries.pure ⟨writes₅, fun used' => absurd used' free⟩

theorem updateEntry (writes : m₀.Writes W m) (here : s.word m.ram va.splitSlots ∈ W)
    (change : Entry → Entry) :
    Ends (s.updateEntry va change) m (fun _ => True) fun _ m' => m₀.Writes W m' := by
  refine Ends.bind (P := fun found m' => m' = m ∧ found = s.link m.ram va.directorySlot)
    (Ends.look (fun found seen => ⟨rfl, Space.eq_link_of_tableAt seen⟩) fun _ _ => trivial) ?_
  rintro found m₁ ⟨rfl, linked⟩
  cases found with
  | none => exact Ends.pure writes
  | some t =>
    rw [Space.word_of_link (k := va.splitSlots) linked.symm] at here
    apply (Ends.seen _ m₁).bind
    rintro e m₂ rfl
    apply (writes.writeEntry (fun _ => here) _).bind
    intro _ m₃ writes₃
    exact Ends.pure writes₃

theorem mapOne (writes : m₀.Writes W m) (used : ∀ f, m₀.InUse f → m.InUse f)
    (here : s.word m.ram va.splitSlots ∈ W) (f : FrameId) (flags : Entry) :
    Tries (s.mapOne f va flags) m (fun _ => True) (fun _ m' => m₀.Writes W m')
      (fun _ m' => m₀.Writes W m') := by
  unfold Space.mapOne
  refine Tries.lift_bind (Ends.seen _ m) ?_
  rintro count m₁ rfl
  refine Tries.optional
    (P := fun m' => m'.ram = m₁.ram ∧ m'.pool = m₁.pool) (fun _ => Ends.intro rfl ⟨rfl, rfl⟩)
    (fun _ => ⟨rfl, rfl⟩) ?_
  rintro m₂ ⟨ram, pool⟩
  have used₂ (f : FrameId) (h : m₀.InUse f) : m₂.InUse f := by
    have := used f h
    rwa [InUse, ← pool] at this
  refine ((writes.keep ram).ensureTable used₂ (ram ▸ here)).bind ?_
  rintro t m₃ ⟨writes₃, table⟩
  refine Tries.lift_bind (Ends.seen _ m₃) ?_
  rintro previous m₄ rfl
  refine Tries.lift_bind (writes₃.writeEntry table _) ?_
  intro _ m₅ writes₅
  split
  · refine Tries.lift_bind (P := fun _ m' => m₀.Writes W m')
      (Ends.intro rfl (writes₅.keep rfl)) ?_
    intro _ m₆ writes₆
    exact Tries.lift writes₆.flush
  · exact Tries.pure writes₅

/-! ## Answers to faults -/

/-- Before the page is mapped, nothing is written to but the frame that it will lie in. -/
theorem mapLoadedPage (env : Environment) (root : m.InUse s.root) (image : Image)
    (executable : ExecutableId) (offset : Nat) (va : VirtualAddress) :
    Tries (PagedMemory.mapLoadedPage env s image executable offset va) m (fun _ => True)
      (fun _ m' => m.Writes {s.word m.ram va.splitSlots} m') (fun _ _ => True) := by
  refine Tries.bind ((Unchanged.refl m).allocFrame.mono_failed fun _ _ _ => trivial) ?_
  intro f m₁ lent₁
  apply Tries.undoing
  have freed (m' : Machine) : Ends (PagedMemory.release f) m' (fun _ => True) fun _ _ => True :=
    Ends.any _ m'
  refine ((lent₁.loadPage env image executable offset).mono_failed fun _ m' _ => freed m').bind ?_
  intro _ m₂ lent₂
  have here := Set.mem_singleton_iff.mpr (lent₂.word root va.splitSlots)
  refine (lent₂.writes.mapOne (fun g => lent₂.used_of_used) here f .userWritable).mono_failed ?_
  intro cause m₃ _
  exact freed m₃

/-- A page is copied to a frame that was free. -/
theorem unsharePage (root : m.InUse s.root) (va : VirtualAddress) :
    Tries (PagedMemory.unsharePage s va) m (fun _ => True)
      (fun _ m' => m.Writes {s.word m.ram va.splitSlots} m') (fun _ _ => True) := by
  unfold PagedMemory.unsharePage
  refine Tries.lift_bind (Ends.seen _ m) ?_
  rintro found m₁ rfl
  cases found with
  | none => exact Tries.pure (refl m₁)
  | some entry =>
    dsimp only
    split
    · exact Tries.pure (refl m₁)
    split
    · refine Tries.lift_bind (refl (W := {s.word m₁.ram va.splitSlots}) m₁).flush ?_
      intro _ m₂ writes₂
      exact Tries.pure writes₂
    refine Tries.lift_bind (Ends.seen _ m₁) ?_
    rintro count m₂ rfl
    split
    · refine Tries.discard_bind ((refl m₂).updateEntry (Set.mem_singleton _) _) ?_
      intro m₃ writes₃
      refine Tries.lift_bind writes₃.flush ?_
      intro _ m₄ writes₄
      exact Tries.pure writes₄
    · refine Tries.bind ((Unchanged.refl m₂).allocFrame.mono_failed fun _ _ _ => trivial) ?_
      intro copy m₃ lent₃
      refine Tries.lift_bind (lent₃.copyFrame entry.frame) ?_
      intro _ m₄ lent₄
      have here := Set.mem_singleton_iff.mpr (lent₄.word root va.splitSlots)
      refine Tries.discard_bind (lent₄.writes.updateEntry here _) ?_
      intro m₅ writes₅
      refine Tries.lift_bind (Ends.release m₅ entry.frame) ?_
      rintro _ m₆ ⟨ram, -⟩
      refine Tries.lift_bind (writes₅.keep ram).flush ?_
      intro _ m₇ writes₇
      exact Tries.pure writes₇

/-! ## What is left alone -/

variable {live : Finset Space} {owed : Owed} {pages : Set (Space × Place)}

/-- The words of pages of live spaces belong to these pages alone. -/
theorem elsewhere (writes : m.Writes ((fun p => p.1.word m.ram p.2) '' pages) m')
    (sound : (m.view live).Sound owed) (within : ∀ p ∈ pages, p.1 ∈ live)
    (entries : ∀ s ∈ live, ∀ k, (s, k) ∉ pages → s.leaf m'.ram k = s.leaf m.ram k) :
    m.Elsewhere live pages m' := by
  refine ⟨?_, entries, ?_⟩
  · intro s hs i outside
    apply writes s.root i (.of_count (sound.root s hs).2 Nat.one_ne_zero)
    rintro ⟨⟨s', k⟩, inside, here⟩
    dsimp only at here
    have hs' := within _ inside
    cases linked : s'.link m.ram k.1 with
    | some t =>
      rw [Space.word_of_link linked, Prod.mk.injEq] at here
      exact sound.separate.table_ne_root s' hs' k.1 t linked s hs here.1.symm
    | none =>
      rw [Space.word_of_vacant linked, Prod.mk.injEq] at here
      obtain ⟨root, rfl⟩ := here
      cases Space.ext root
      exact outside linked k.2 inside
  · intro f used data
    apply writes.frame? used
    rintro j ⟨⟨s', k⟩, inside, here⟩
    dsimp only at here
    have hs' := within _ inside
    apply data
    cases linked : s'.link m.ram k.1 with
    | some t =>
      rw [Space.word_of_link linked, Prod.mk.injEq] at here
      exact ⟨s', hs', .inr ⟨k.1, here.1 ▸ linked⟩⟩
    | none =>
      rw [Space.word_of_vacant linked, Prod.mk.injEq] at here
      exact ⟨s', hs', .inl here.1⟩

end Writes

end Machine

end PagedMemory
