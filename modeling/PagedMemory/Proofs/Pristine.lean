import PagedMemory.Proofs.Disk

/-!
# Clean pages of an image

A page whose dirty bit is clear has not been written through since it was mapped. If it
is a page of an image, it holds what the disk does (`View.Pristine`): it was loaded, or it
was shared with a page of which the same is true. What keeps this so is that a store needs
the dirty bit set, that every copy takes the bit with it, and that no two entries of
different origin ever map one frame. The frames of the kernel, which anybody may change,
are not among those that the owner of an image maps (`View.Tame`).

`Change.Faithful` says when a change respects the origin of the pages that it maps. Each
operation of a process makes such changes only.
-/

namespace PagedMemory

/-- The first address of a page. -/
abbrev Place.address (k : Place) : VirtualAddress :=
  Slot.join k.1 k.2

theorem Address.place_splitSlots (va : VirtualAddress) :
    Place.address va.splitSlots = va.alignDown .small :=
  join_slots va

@[simp] theorem Place.splitSlots_address (k : Place) : k.address.splitSlots = k := by
  rw [Address.splitSlots, Address.directorySlot_join, Address.tableSlot_join]

/-- The images that the owners of the live spaces run. -/
abbrev Ownership := Space → Image → Prop

/-- What a change maps belongs there according to the images of the owners. -/
def Change.Faithful (d : Disk) (owns : Ownership) : Change → Prop
  | .fill s k b => ∀ image executable offset, owns s image →
      image.source? k.address = some (executable, offset) → b = d.page executable image offset
  | .share s k s' k' _ => ∀ image', owns s' image' → ∃ image, owns s image ∧
      ∀ executable offset, image'.source? k'.address = some (executable, offset) →
        image.source? k.address = some (executable, offset) ∧ image.endData = image'.endData
  | .expose s _ => ∀ image, ¬ owns s image
  | .install _ _ _ => False
  | _ => True

namespace View

variable {v v' : View} {o o' : Owed} {d : Disk} {owns : Ownership}

/-- Every page that the owner of an image maps is tracked. -/
def Tame (v : View) (owns : Ownership) : Prop :=
  ∀ s ∈ v.live, ∀ image, owns s image → ∀ k, (v.leaf s k).present = true →
    v.tracks (v.leaf s k).frame = true

/-- Clean pages of images hold what the disk does. -/
def Pristine (v : View) (d : Disk) (owns : Ownership) : Prop :=
  ∀ s ∈ v.live, ∀ image, owns s image → ∀ k executable offset,
    image.source? k.address = some (executable, offset) → (v.leaf s k).isClean = true →
      v.bytes (v.leaf s k).frame = d.page executable image offset

namespace Tame

variable {s : Space} {k : Place} {e : Entry}

theorem setLeaf (tame : v.Tame owns)
    (tracked : ∀ image, owns s image → e.present = true → v.tracks e.frame = true) :
    (v.setLeaf s k e).Tame owns := by
  intro s' hs' image owner k'
  by_cases here : s' = s ∧ k' = k
  · obtain ⟨rfl, rfl⟩ := here
    rw [leaf_setLeaf_self]
    exact tracked image owner
  · rw [leaf_setLeaf_of_ne e here]
    exact tame s' hs' image owner k'

/-- The new entry maps what the old one did. -/
theorem reflag (tame : v.Tame owns) (hs : s ∈ v.live) (present : (v.leaf s k).present = true)
    (frame : e.frame = (v.leaf s k).frame) : (v.setLeaf s k e).Tame owns :=
  tame.setLeaf fun image owner _ => frame ▸ tame s hs image owner k present

theorem shared {s' : Space} {k' : Place} (tame : v.Tame owns) (hs : s ∈ v.live)
    (present : (v.leaf s k).present = true)
    (faithful : (Change.share s k s' k' e).Faithful d owns) :
    (v.aliased s k s' k').Tame owns := by
  have tracked (image' : Image) (owner : owns s' image') : v.tracks (v.leaf s k).frame = true := by
    obtain ⟨image, owner', -⟩ := faithful image' owner
    exact tame s hs image owner' k present
  unfold View.aliased
  split
  · have first : (v.setLeaf s k (v.leaf s k).writeProtected).Tame owns := tame.reflag hs present rfl
    exact first.setLeaf fun image' owner _ => tracked image' owner
  · exact tame.setLeaf fun image' owner _ => tracked image' owner

theorem founded (tame : v.Tame owns) : (v.founded s).Tame owns := by
  intro s' hs' image owner k present
  by_cases new : s' = s
  · rw [show (v.founded s).leaf s' k = .zero from if_pos new] at present
    cases present
  · have old : (v.founded s).leaf s' k = v.leaf s' k := if_neg new
    rw [old] at present ⊢
    exact tame s' ((Finset.mem_insert.mp hs').resolve_left new) image owner k present

/-- An owner may take up another image while its space maps nothing. -/
theorem inherit {owns' : Ownership} (tame : v.Tame owns)
    (known : ∀ s ∈ v.live, ∀ image, owns' s image →
      owns s image ∨ ∀ k, (v.leaf s k).present = false) : v.Tame owns' := by
  intro s hs image owner k present
  rcases known s hs image owner with before | blank
  · exact tame s hs image before k present
  · rw [blank k] at present
    cases present

end Tame

theorem Act.tame {c : Change} (act : Act v o c v' o') (faithful : c.Faithful d owns)
    (tame : v.Tame owns) : v'.Tame owns := by
  cases act with
  | fill hs absent free => exact tame.setLeaf fun _ _ _ => free.1
  | share hs hs' present absent => exact tame.shared hs present faithful
  | expose => exact tame.setLeaf fun image owner => absurd owner (faithful image)
  | permit hs tracked one => exact tame.setLeaf fun _ _ _ => tracked
  | copy hs present free => exact tame.setLeaf fun _ _ _ => free.1
  | touch hs present => exact tame.reflag hs present rfl
  | unmap hs =>
    have cleared {s : Space} {k : Place} : (v.setLeaf s k .zero).Tame owns :=
      tame.setLeaf fun _ _ present => by cases present
    unfold View.unmapped
    split
    · exact cleared
    · exact cleared
  | create free => exact tame.founded
  | destroy hs => exact fun s' hs' => tame s' (Finset.mem_of_mem_erase hs')
  | install => exact faithful.elim
  | _ => exact tame

theorem Acts.tame {allowed : Change → Prop} (acts : Acts allowed v o v' o')
    (faithful : ∀ c, allowed c → c.Faithful d owns) (tame : v.Tame owns) : v'.Tame owns :=
  acts.preserves (P := fun v _ => v.Tame owns)
    (fun c _ _ _ _ ok act h => act.tame (faithful c ok) h) tame

namespace Pristine

variable {s : Space} {k : Place} {e : Entry} {f : FrameId}

theorem setLeaf (pristine : v.Pristine d owns)
    (entry : ∀ image executable offset, owns s image →
      image.source? k.address = some (executable, offset) → e.isClean = true →
        v.bytes e.frame = d.page executable image offset) :
    (v.setLeaf s k e).Pristine d owns := by
  intro s' hs' image owner k' executable offset backed clean
  by_cases here : s' = s ∧ k' = k
  · obtain ⟨rfl, rfl⟩ := here
    rw [leaf_setLeaf_self] at clean ⊢
    exact entry image executable offset owner backed clean
  · rw [leaf_setLeaf_of_ne e here] at clean ⊢
    exact pristine s' hs' image owner k' executable offset backed clean

/-- The new entry maps what another entry of the same page maps, and is as clean. -/
theorem reflag (pristine : v.Pristine d owns) (hs : s ∈ v.live)
    (frame : e.frame = (v.leaf s k).frame)
    (clean : e.isClean = true → (v.leaf s k).isClean = true) :
    (v.setLeaf s k e).Pristine d owns := by
  refine pristine.setLeaf fun image executable offset owner backed h => ?_
  rw [frame]
  exact pristine s hs image owner k executable offset backed (clean h)

/-- Bytes that no clean entry maps may change. -/
theorem setBytes (pristine : v.Pristine d owns) (b : Frame)
    (unused : ∀ s ∈ v.live, ∀ k, (v.leaf s k).isClean = true → (v.leaf s k).frame ≠ f) :
    (v.setBytes f b).Pristine d owns := by
  intro s hs image owner k executable offset backed clean
  exact (bytes_setBytes_of_ne b (unused s hs k clean)).trans
    (pristine s hs image owner k executable offset backed clean)

theorem grant (pristine : v.Pristine d owns) (sound : v.Sound o) (free : v.Free f) (b : Frame) :
    (v.grant f b).Pristine d owns := by
  refine pristine.setBytes b fun s hs k clean same => ?_
  have present := (Bool.and_eq_true_iff.mp clean).1
  exact sound.refers_ne_free (c := .leaf k) hs free (same ▸ refers_leaf present)

theorem shared {s' : Space} {k' : Place} (pristine : v.Pristine d owns) (hs : s ∈ v.live)
    (faithful : (Change.share s k s' k' e).Faithful d owns) :
    (v.aliased s k s' k').Pristine d owns := by
  have clean (image' : Image) (executable : ExecutableId) (offset : Nat) (owner : owns s' image')
      (backed : image'.source? k'.address = some (executable, offset))
      (clean : (v.leaf s k).isClean = true) :
      v.bytes (v.leaf s k).frame = d.page executable image' offset := by
    obtain ⟨image, owner', same⟩ := faithful image' owner
    obtain ⟨backed', ends⟩ := same executable offset backed
    rw [d.page_congr ends.symm]
    exact pristine s hs image owner' k executable offset backed' clean
  unfold View.aliased
  split
  · have first : (v.setLeaf s k (v.leaf s k).writeProtected).Pristine d owns :=
      pristine.reflag hs rfl fun clean => clean
    exact first.setLeaf clean
  · exact pristine.setLeaf clean

theorem copied {g : FrameId} (pristine : v.Pristine d owns) (sound : v.Sound o) (hs : s ∈ v.live)
    (free : v.Free g) (present : (v.leaf s k).present = true) :
    (v.copied s k g).Pristine d owns := by
  have granted := pristine.grant sound free (v.bytes (v.leaf s k).frame)
  refine granted.setLeaf (s := s) (k := k) fun image executable offset owner backed clean => ?_
  have before : (v.leaf s k).isClean = true :=
    Bool.and_eq_true_iff.mpr ⟨present, (Bool.and_eq_true_iff.mp clean).2⟩
  exact (if_pos rfl).trans (pristine s hs image owner k executable offset backed before)

theorem stored {b : Frame} (pristine : v.Pristine d owns) (sound : v.Sound o) (hs : s ∈ v.live)
    (present : (v.leaf s k).present = true) (writable : (v.leaf s k).writable = true)
    (dirty : (v.leaf s k).dirty = true) :
    (v.setBytes (v.leaf s k).frame b).Pristine d owns := by
  refine pristine.setBytes b fun s' hs' k' clean same => ?_
  obtain ⟨present', undirty⟩ := Bool.and_eq_true_iff.mp clean
  obtain ⟨tracked, one⟩ := sound.exclusive s hs k present writable
  obtain ⟨rfl, cell⟩ := sound.sole tracked one hs (refers_leaf present) hs'
    (same ▸ refers_leaf present')
  cases cell
  rw [dirty] at undirty
  cases undirty

theorem founded (pristine : v.Pristine d owns) (sound : v.Sound o) (free : v.Free s.root) :
    (v.founded s).Pristine d owns := by
  have granted := pristine.grant sound free Frame.zero
  intro s' hs' image owner k executable offset backed clean
  by_cases new : s' = s
  · rw [show (v.founded s).leaf s' k = .zero from if_pos new] at clean
    cases clean
  · have old : (v.founded s).leaf s' k = v.leaf s' k := if_neg new
    rw [old] at clean ⊢
    exact granted s' ((Finset.mem_insert.mp hs').resolve_left new) image owner k executable offset
      backed clean

theorem ended {b : FrameId → Frame} (pristine : v.Pristine d owns) (sound : v.Sound o)
    (shown : ∀ f, ¬ v.Hidden f → b f = v.bytes f) : (v.ended s b).Pristine d owns := by
  intro s' hs' image owner k executable offset backed clean
  have live := Finset.mem_of_mem_erase hs'
  have present := (Bool.and_eq_true_iff.mp clean).1
  exact (shown _ (sound.not_hidden_of_leaf live (refers_leaf present))).trans
    (pristine s' live image owner k executable offset backed clean)

theorem inherit {owns' : Ownership} (pristine : v.Pristine d owns)
    (known : ∀ s ∈ v.live, ∀ image, owns' s image →
      owns s image ∨ ∀ k, (v.leaf s k).present = false) : v.Pristine d owns' := by
  intro s hs image owner k executable offset backed clean
  rcases known s hs image owner with before | blank
  · exact pristine s hs image before k executable offset backed clean
  · have present := (Bool.and_eq_true_iff.mp clean).1
    rw [blank k] at present
    cases present

end Pristine

theorem Act.pristine {c : Change} (act : Act v o c v' o') (faithful : c.Faithful d owns)
    (sound : v.Sound o) (pristine : v.Pristine d owns) : v'.Pristine d owns := by
  cases act with
  | link hs vacant free => exact pristine.grant sound free _
  | fill hs absent free =>
    exact (pristine.grant sound free _).setLeaf fun image executable offset owner backed _ =>
      (if_pos rfl).trans (faithful image executable offset owner backed)
  | share hs => exact pristine.shared hs faithful
  | expose => exact pristine.setLeaf fun image _ _ owner => absurd owner (faithful image)
  | permit hs => exact pristine.reflag hs rfl fun clean => clean
  | copy hs present free => exact pristine.copied sound hs free present
  | touch hs present =>
    refine pristine.reflag hs rfl fun clean => ?_
    obtain ⟨_, undirty⟩ := Bool.and_eq_true_iff.mp clean
    refine Bool.and_eq_true_iff.mpr ⟨present, ?_⟩
    rw [Entry.touched, Bool.not_or, Bool.and_eq_true_iff] at undirty
    exact undirty.1
  | store hs present writable dirty => exact pristine.stored sound hs present writable dirty
  | unmap hs =>
    have cleared {s : Space} {k : Place} : (v.setLeaf s k .zero).Pristine d owns :=
      pristine.setLeaf fun _ _ _ _ _ clean => by cases clean
    unfold View.unmapped
    split
    · exact cleared
    · exact cleared
  | create free => exact pristine.founded sound free
  | destroy hs shown => exact pristine.ended sound shown
  | hold free => exact pristine.grant sound free _
  | install => exact faithful.elim
  | _ => exact pristine

/-- Clean pages stay what they are as long as every change is faithful. -/
theorem Acts.pristine {allowed : Change → Prop} (acts : Acts allowed v o v' o')
    (faithful : ∀ c, allowed c → c.Faithful d owns) (sound : v.Sound o)
    (pristine : v.Pristine d owns) : v'.Pristine d owns :=
  (acts.preserves (P := fun v o => v.Sound o ∧ v.Pristine d owns)
    (fun c _ _ _ _ ok act h => ⟨act.sound h.1, act.pristine (faithful c ok) h.1 h.2⟩)
    ⟨sound, pristine⟩).2

end View

end PagedMemory
