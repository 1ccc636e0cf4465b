import PagedMemory.Proofs.Primitive
import PagedMemory.Proofs.Sound

/-!
# Installing page tables and pages

`Space.ensureTable` either finds a table or links a fresh one that maps nothing
(`View.Covers`), so it changes no translation. `Space.mapOne` then replaces a single
entry. The reference that the caller held becomes that of the entry; one that the entry
made before is left to nobody.
-/

namespace PagedMemory

namespace View

variable {v v' : View} {owed : FrameId → Nat}

@[simp] theorem setBytes_grant (f : FrameId) (b b' : Frame) :
    (v.grant f b).setBytes f b' = v.grant f b' := by
  simp only [grant, setBytes]
  congr
  funext g
  split <;> rfl

/-- A free frame becomes a page table that maps nothing. -/
def linked (v : View) (s : Space) (i : Slot) (t : FrameId) : View :=
  (v.grant t Frame.zero).setLink s i (some t)

@[simp] theorem link_linked (v : View) (s : Space) (i : Slot) (t : FrameId) (s' : Space)
    (i' : Slot) :
    (v.linked s i t).link s' i' = if s' = s ∧ i' = i then some t else v.link s' i' := rfl

theorem link_linked_self (v : View) (s : Space) (i : Slot) (t : FrameId) :
    (v.linked s i t).link s i = some t :=
  if_pos ⟨rfl, rfl⟩

/-- The second view has the page table `t` in a directory slot, where the first one may
have none. -/
inductive Covers (v : View) (s : Space) (i : Slot) (t : FrameId) : View → Prop
  | already (linked : v.link s i = some t) : Covers v s i t v
  | anew (vacant : v.link s i = none) (free : v.Free t) : Covers v s i t (v.linked s i t)

namespace Covers

variable {s : Space} {i : Slot} {t : FrameId}

theorem link (covers : v.Covers s i t v') : v'.link s i = some t := by
  cases covers with
  | already linked => exact linked
  | anew => exact link_linked_self v s i t

theorem leaf (covers : v.Covers s i t v') : v'.leaf = v.leaf := by
  cases covers <;> rfl

theorem live (covers : v.Covers s i t v') : v'.live = v.live := by
  cases covers <;> rfl

theorem layout (covers : v.Covers s i t v') : v'.layout = v.layout := by
  cases covers <;> rfl

theorem size (covers : v.Covers s i t v') : v'.size = v.size := by
  cases covers <;> rfl

theorem reads (covers : v.Covers s i t v') : v'.reads = v.reads := by
  cases covers <;> rfl

theorem tracks (covers : v.Covers s i t v') (f : FrameId) : v'.tracks f = v.tracks f := by
  simp only [View.tracks, covers.layout]

/-- Only a frame that was free before changes its count or its bytes. -/
theorem of_not_free (covers : v.Covers s i t v') {f : FrameId} (used : ¬ v.Free f) :
    v'.count f = v.count f ∧ v'.bytes f = v.bytes f := by
  cases covers with
  | already => exact ⟨rfl, rfl⟩
  | anew vacant free =>
    have other : f ≠ t := by
      rintro rfl
      exact used free
    exact ⟨if_neg other, if_neg other⟩

theorem sound (covers : v.Covers s i t v') (hs : s ∈ v.live) (sound : v.Sound owed) :
    v'.Sound owed := by
  cases covers with
  | already => exact sound
  | anew vacant free =>
    have after := Sound.setLink (v := v.grant t Frame.zero) (i := i) hs
      (sound.grant free Frame.zero) (by
      rintro t' same
      cases same
      exact ⟨free.1, if_pos rfl⟩)
    have before : (v.grant t Frame.zero).link s i = none := vacant
    rwa [before, hits_none, add_zero] at after

end Covers

/-- The entry of a page is replaced; a page that was mapped before calls for a flush. -/
def remap (v : View) (s : Space) (k : Place) (e : Entry) : View :=
  if (v.leaf s k).present then (v.setLeaf s k e).flushed else v.setLeaf s k e

theorem remap_of_absent {s : Space} {k : Place} (absent : (v.leaf s k).present = false)
    (e : Entry) : v.remap s k e = v.setLeaf s k e := by
  rw [remap, absent]
  rfl

@[simp] theorem layout_remap (v : View) (s : Space) (k : Place) (e : Entry) :
    (v.remap s k e).layout = v.layout := by
  unfold remap
  split <;> rfl

@[simp] theorem size_remap (v : View) (s : Space) (k : Place) (e : Entry) :
    (v.remap s k e).size = v.size := by
  unfold remap
  split <;> rfl

@[simp] theorem config_remap (v : View) (s : Space) (k : Place) (e : Entry) :
    (v.remap s k e).config = v.config := by
  unfold remap
  split <;> rfl

@[simp] theorem live_remap (v : View) (s : Space) (k : Place) (e : Entry) :
    (v.remap s k e).live = v.live := by
  unfold remap
  split <;> rfl

@[simp] theorem link_remap (v : View) (s : Space) (k : Place) (e : Entry) :
    (v.remap s k e).link = v.link := by
  unfold remap
  split <;> rfl

@[simp] theorem count_remap (v : View) (s : Space) (k : Place) (e : Entry) :
    (v.remap s k e).count = v.count := by
  unfold remap
  split <;> rfl

@[simp] theorem bytes_remap (v : View) (s : Space) (k : Place) (e : Entry) :
    (v.remap s k e).bytes = v.bytes := by
  unfold remap
  split <;> rfl

@[simp] theorem tracks_remap (v : View) (s : Space) (k : Place) (e : Entry) (f : FrameId) :
    (v.remap s k e).tracks f = v.tracks f := by
  simp only [tracks, layout_remap]

theorem leaf_remap (v : View) (s : Space) (k : Place) (e : Entry) :
    (v.remap s k e).leaf = (v.setLeaf s k e).leaf := by
  unfold remap
  split <;> rfl

@[simp] theorem leaf_remap_self (v : View) (s : Space) (k : Place) (e : Entry) :
    (v.remap s k e).leaf s k = e := by
  rw [leaf_remap, leaf_setLeaf_self]

theorem leaf_remap_of_ne {s s' : Space} {k k' : Place} (e : Entry)
    (other : ¬ (s' = s ∧ k' = k)) : (v.remap s k e).leaf s' k' = v.leaf s' k' := by
  rw [leaf_remap, leaf_setLeaf_of_ne e other]

theorem Sound.remap {s : Space} {k : Place} {e : Entry} (hs : s ∈ v.live)
    (sound : v.Sound (owed + hits e.target))
    (inside : e.present = true → e.frame.index < v.size)
    (alone : e.present = true → e.writable = true →
      v.tracks e.frame = true ∧ v.count e.frame = 1) :
    (v.remap s k e).Sound (owed + hits (v.leaf s k).target) := by
  unfold View.remap
  split
  · exact (Sound.exchange hs sound inside alone).flushed
  · exact Sound.exchange hs sound inside alone

end View

namespace Machine.Shows

variable {m : Machine} {v : View} {owed : FrameId → Nat}

/-- A page that is mapped lies under a page table. -/
theorem link_of_present (shows : m.Shows v) {s : Space} (hs : s ∈ v.live) {k : Place}
    (present : (v.leaf s k).present = true) : ∃ t, v.link s k.1 = some t := by
  cases linked : v.link s k.1 with
  | some t => exact ⟨t, rfl⟩
  | none =>
    rw [← shows.leaf s hs, Space.leaf_of_vacant (j := k.2) ((shows.link s hs _).trans linked)]
      at present
    cases present

theorem leaf_of_vacant (shows : m.Shows v) {s : Space} (hs : s ∈ v.live) {i : Slot}
    (vacant : v.link s i = none) (j : Slot) : v.leaf s (i, j) = .zero := by
  rw [← shows.leaf s hs]
  exact Space.leaf_of_vacant ((shows.link s hs i).trans vacant)

/-- The entry of a page that is present is found. -/
theorem entry_of_present (shows : m.Shows v) (sep : v.Separate) {s : Space} (hs : s ∈ v.live)
    {va : VirtualAddress} (present : (v.leaf s va.splitSlots).present = true) :
    s.entry m.ram va = .ok (some (v.leaf s va.splitSlots)) := by
  obtain ⟨t, linked⟩ := shows.link_of_present hs present
  rw [shows.entry_eq sep hs, show v.link s va.directorySlot = some t from linked]
  rfl

/-- Whatever is found for a page that is not present is not present. -/
theorem absent_of_entry (shows : m.Shows v) (sep : v.Separate) {s : Space} (hs : s ∈ v.live)
    {va : VirtualAddress} (absent : (v.leaf s va.splitSlots).present = false) :
    ∃ found, s.entry m.ram va = .ok found ∧ ∀ e, found = some e → e.present = false := by
  refine ⟨_, shows.entry_eq sep hs va, ?_⟩
  intro e found
  obtain ⟨t, -, rfl⟩ := Option.map_eq_some_iff.mp found
  exact absent

/-- The entry found for an address, or that of an empty slot. -/
theorem findLeaf (shows : m.Shows v) (sep : v.Separate) {s : Space} (hs : s ∈ v.live)
    (va : VirtualAddress) :
    Ends (s.findEntry va) m Exhausts fun found m' =>
      found.getD .zero = v.leaf s va.splitSlots ∧ m'.Shows v := by
  refine (shows.findEntry sep hs va).mono ?_
  rintro found m' ⟨rfl, shows'⟩
  refine ⟨?_, shows'⟩
  cases linked : v.link s va.directorySlot with
  | some t => rfl
  | none => exact (shows.leaf_of_vacant hs linked va.tableSlot).symm

/-- A frame that was free is cleared for its first owner. -/
theorem clearGranted (sound : v.Sound owed) {f : FrameId} (free : v.Free f) {b : Frame}
    (shows : m.Shows (v.grant f b)) :
    Ends (PagedMemory.zeroFrame f) m Exhausts fun _ m' => m'.Shows (v.grant f Frame.zero) := by
  refine (shows.zeroFrame (sound.fits.inside free.1) (sound.not_hidden_grant free b)).mono
    fun _ m' shows' => ?_
  rwa [View.setBytes_grant] at shows'

/-- Once it is cleared, it can become a page table. -/
theorem linkGranted (sound : v.Sound owed) {t : FrameId} (free : v.Free t)
    (shows : m.Shows (v.grant t Frame.zero)) {s : Space} (hs : s ∈ v.live) {i : Slot}
    (vacant : v.link s i = none) :
    Ends (writeEntry s.root i (.link t)) m Exhausts fun _ m' => m'.Shows (v.linked s i t) :=
  shows.writeLinked (sound.grant free Frame.zero).separate hs vacant
    (sound.not_hidden_grant free Frame.zero) (if_pos rfl)

theorem ensureTable (shows : m.Shows v) (sound : v.Sound owed) {s : Space} (hs : s ∈ v.live)
    (va : VirtualAddress) :
    Tries (s.ensureTable va) m Exhausts
      (fun t m' => ∃ v', v.Covers s va.directorySlot t v' ∧ m'.Shows v')
      (fun cause m' => cause = .outOfMemory ∧ v.link s va.directorySlot = none ∧
        (∀ f, ¬ v.Free f) ∧ m'.Shows v) := by
  refine Tries.lift_bind (shows.findTable sound.separate hs va) ?_
  rintro found m₁ ⟨rfl, shows₁⟩
  cases linked : v.link s va.directorySlot with
  | some t => exact Tries.pure ⟨v, .already linked, shows₁⟩
  | none =>
    refine Tries.bind (P := fun t m' => v.Free t ∧ ∃ b, m'.Shows (v.grant t b))
      (shows₁.allocFrame.mono_failed fun cause m' h => ⟨h.1, rfl, h.2⟩) ?_
    rintro t m₂ ⟨free, b, shows₂⟩
    refine Tries.lift_bind (clearGranted sound free shows₂) fun _ m₃ shows₃ => ?_
    refine Tries.lift_bind (linkGranted sound free shows₃ hs linked) fun _ m₄ shows₄ => ?_
    refine Tries.lift_bind (shows₄.remark _) fun _ m₅ shows₅ => ?_
    exact Tries.pure ⟨_, .anew linked free, shows₅⟩

/-- Changing an entry under a page table that exists. -/
theorem updateEntry (shows : m.Shows v) (sep : v.Separate) {s : Space} (hs : s ∈ v.live)
    {va : VirtualAddress} {t : FrameId} (linked : v.link s va.directorySlot = some t)
    (change : Entry → Entry) :
    Ends (s.updateEntry va change) m Exhausts fun _ m' =>
      m'.Shows (v.setLeaf s va.splitSlots (change (v.leaf s va.splitSlots))) := by
  refine (shows.findTable sep hs va).bind ?_
  rintro found m₁ ⟨rfl, shows₁⟩
  rw [linked]
  refine (shows₁.readLeaf sep hs linked va.tableSlot).bind ?_
  rintro e m₂ ⟨rfl, shows₂⟩
  refine (shows₂.writeLeaf sep hs linked va.tableSlot _).bind fun _ m₃ shows₃ => ?_
  exact Ends.pure shows₃

theorem mapOne (shows : m.Shows v) (sound : v.Sound owed) {s : Space} (hs : s ∈ v.live)
    (frame : FrameId) (va : VirtualAddress) (flags : Entry) :
    Tries (s.mapOne frame va flags) m Exhausts
      (fun _ m' => ∃ t v', v.Covers s va.directorySlot t v' ∧
        m'.Shows (v'.remap s va.splitSlots (.make frame flags)))
      (fun cause m' => cause = .outOfMemory ∧ v.link s va.directorySlot = none ∧
        (∀ f, ¬ v.Free f) ∧ m'.Shows v) := by
  unfold Space.mapOne
  refine Tries.lift_bind (P := fun _ m' => m'.Shows v)
    ((shows.refCount? frame).mono fun _ _ h => h.2) fun count m₁ shows₁ => ?_
  refine Tries.optional (P := fun m' => m'.Shows v) (fun _ => shows₁.remark _)
    (fun _ => shows₁) fun m₂ shows₂ => ?_
  refine (shows₂.ensureTable sound hs va).bind ?_
  rintro t m₃ ⟨v', covers, shows₃⟩
  have hs' : s ∈ v'.live := covers.live ▸ hs
  have sep := (covers.sound hs sound).separate
  refine Tries.lift_bind (shows₃.readLeaf sep hs' covers.link va.tableSlot) ?_
  rintro previous m₄ ⟨rfl, shows₄⟩
  refine Tries.lift_bind (shows₄.writeLeaf sep hs' covers.link va.tableSlot
    (.make frame flags)) fun _ m₅ shows₅ => ?_
  split
  · next present =>
    refine Tries.lift_bind (shows₅.remark _) fun _ m₆ shows₆ => ?_
    refine Tries.lift (shows₆.flush.mono fun _ m₇ shows₇ => ⟨t, v', covers, ?_⟩)
    rwa [View.remap, if_pos]
    exact present
  · next absent =>
    refine Tries.pure ⟨t, v', covers, ?_⟩
    rwa [View.remap, if_neg]
    exact absent

end Machine.Shows

end PagedMemory
