import PagedMemory.Proofs.Mapping

/-!
# Changes of a view

Whatever the kernel does to tables, counts and frames is a sequence of a few kinds of
change. `View.Act` lists them with what the kernel has made sure of before, and names
each one by a `Change`; `View.Acts` is a sequence of changes whose names are restricted.

Every change preserves soundness (`Act.sound`), keeps the dirty bits of all entries of
one frame equal (`Act.agree`) and leaves the memory of the kernel alone
(`Act.untracked`). An operation only has to be described as a sequence of changes to
inherit the three.
-/

namespace PagedMemory

/-- References that are held beside the tables. -/
abbrev Owed := FrameId → Nat

/-- The name of a change. -/
inductive Change
  | note
  | link (s : Space) (i : Slot)
  | fill (s : Space) (k : Place) (b : Frame)
  | share (s : Space) (k : Place) (s' : Space) (k' : Place) (e : Entry)
  | expose (s : Space) (k : Place)
  | permit (s : Space) (k : Place)
  | copy (s : Space) (k : Place)
  | touch (s : Space) (k : Place) (write : Bool)
  | store (s : Space) (k : Place) (b : Frame)
  | unmap (s : Space) (k : Place)
  | unlink (s : Space) (i : Slot)
  | create (s : Space)
  | destroy (s : Space)
  | hold (f : FrameId)
  | yield (f : FrameId)
  | install (s : Space) (k : Place) (f : FrameId)

/-- No page comes into the hands of anybody, or leaves them. -/
def Change.Sparing : Change → Prop
  | .hold _ | .yield _ | .install _ _ _ => False
  | _ => True

namespace View

variable {v v' : View} {o o' : Owed}

/-! ## Composite changes -/

/-- A free frame is mapped for writing. -/
def filled (v : View) (s : Space) (k : Place) (f : FrameId) (b : Frame) : View :=
  (v.grant f b).setLeaf s k (.make f .userWritable)

/-- What one entry maps is mapped by another one too, read-only on both sides. The first
entry keeps its rights if nobody counts the references. -/
def aliased (v : View) (s : Space) (k : Place) (s' : Space) (k' : Place) : View :=
  if v.tracks (v.leaf s k).frame then
    ((v.setLeaf s k (v.leaf s k).writeProtected).setLeaf s' k'
      (v.leaf s k).writeProtected).retain (v.leaf s k).frame
  else
    v.setLeaf s' k' (v.leaf s k).writeProtected

/-- A page is moved to a frame of its own. -/
def copied (v : View) (s : Space) (k : Place) (g : FrameId) : View :=
  ((v.grant g (v.bytes (v.leaf s k).frame)).setLeaf s k
    (.make g { Entry.userWritable with dirty := (v.leaf s k).dirty })).release (v.leaf s k).frame

/-- An entry is cleared and its reference given up. -/
def unmapped (v : View) (s : Space) (k : Place) : View :=
  match (v.leaf s k).target with
  | some f => (v.setLeaf s k .zero).release f
  | none => v.setLeaf s k .zero

/-- A page table is unlinked and its reference given up. -/
def unlinked (v : View) (s : Space) (i : Slot) (t : FrameId) : View :=
  (v.release t).setLink s i none

/-- A free frame becomes the directory of a new space. -/
def founded (v : View) (s : Space) : View :=
  (v.grant s.root Frame.zero).opened s

/-- A space leaves and the reference to its directory is given up. -/
def ended (v : View) (s : Space) (b : FrameId → Frame) : View :=
  (v.closed s b).release s.root

section Leaves

variable {s s' : Space} {k k' : Place}

@[simp] theorem leaf_filled_self (v : View) (s : Space) (k : Place) (f : FrameId) (b : Frame) :
    (v.filled s k f b).leaf s k = .make f .userWritable :=
  leaf_setLeaf_self _ s k _

@[simp] theorem leaf_copied_self (v : View) (s : Space) (k : Place) (g : FrameId) :
    (v.copied s k g).leaf s k =
      .make g { Entry.userWritable with dirty := (v.leaf s k).dirty } :=
  leaf_setLeaf_self _ s k _

@[simp] theorem leaf_aliased_self (v : View) (s : Space) (k : Place) (s' : Space) (k' : Place) :
    (v.aliased s k s' k').leaf s' k' = (v.leaf s k).writeProtected := by
  unfold aliased
  split <;> exact leaf_setLeaf_self _ s' k' _

@[simp] theorem layout_aliased (v : View) (s : Space) (k : Place) (s' : Space) (k' : Place) :
    (v.aliased s k s' k').layout = v.layout := by
  unfold aliased
  split <;> rfl

@[simp] theorem size_aliased (v : View) (s : Space) (k : Place) (s' : Space) (k' : Place) :
    (v.aliased s k s' k').size = v.size := by
  unfold aliased
  split <;> rfl

@[simp] theorem config_aliased (v : View) (s : Space) (k : Place) (s' : Space) (k' : Place) :
    (v.aliased s k s' k').config = v.config := by
  unfold aliased
  split <;> rfl

@[simp] theorem live_aliased (v : View) (s : Space) (k : Place) (s' : Space) (k' : Place) :
    (v.aliased s k s' k').live = v.live := by
  unfold aliased
  split <;> rfl

@[simp] theorem link_aliased (v : View) (s : Space) (k : Place) (s' : Space) (k' : Place) :
    (v.aliased s k s' k').link = v.link := by
  unfold aliased
  split <;> rfl

@[simp] theorem bytes_aliased (v : View) (s : Space) (k : Place) (s' : Space) (k' : Place) :
    (v.aliased s k s' k').bytes = v.bytes := by
  unfold aliased
  split <;> rfl

@[simp] theorem flushes_aliased (v : View) (s : Space) (k : Place) (s' : Space) (k' : Place) :
    (v.aliased s k s' k').flushes = v.flushes := by
  unfold aliased
  split <;> rfl

@[simp] theorem reads_aliased (v : View) (s : Space) (k : Place) (s' : Space) (k' : Place) :
    (v.aliased s k s' k').reads = v.reads := by
  unfold aliased
  split <;> rfl

@[simp] theorem tracks_aliased (v : View) (s : Space) (k : Place) (s' : Space) (k' : Place)
    (f : FrameId) : (v.aliased s k s' k').tracks f = v.tracks f := by
  simp only [tracks, layout_aliased]

@[simp] theorem layout_unmapped (v : View) (s : Space) (k : Place) :
    (v.unmapped s k).layout = v.layout := by
  unfold unmapped
  split <;> rfl

@[simp] theorem size_unmapped (v : View) (s : Space) (k : Place) :
    (v.unmapped s k).size = v.size := by
  unfold unmapped
  split <;> rfl

@[simp] theorem config_unmapped (v : View) (s : Space) (k : Place) :
    (v.unmapped s k).config = v.config := by
  unfold unmapped
  split <;> rfl

@[simp] theorem live_unmapped (v : View) (s : Space) (k : Place) :
    (v.unmapped s k).live = v.live := by
  unfold unmapped
  split <;> rfl

@[simp] theorem link_unmapped (v : View) (s : Space) (k : Place) :
    (v.unmapped s k).link = v.link := by
  unfold unmapped
  split <;> rfl

@[simp] theorem bytes_unmapped (v : View) (s : Space) (k : Place) :
    (v.unmapped s k).bytes = v.bytes := by
  unfold unmapped
  split <;> rfl

theorem leaf_unmapped (v : View) (s : Space) (k : Place) :
    (v.unmapped s k).leaf = (v.setLeaf s k .zero).leaf := by
  unfold unmapped
  split <;> rfl

@[simp] theorem leaf_unmapped_self (v : View) (s : Space) (k : Place) :
    (v.unmapped s k).leaf s k = .zero := by
  rw [leaf_unmapped, leaf_setLeaf_self]

theorem leaf_unmapped_of_ne (other : ¬ (s' = s ∧ k' = k)) :
    (v.unmapped s k).leaf s' k' = v.leaf s' k' := by
  rw [leaf_unmapped, leaf_setLeaf_of_ne _ other]

@[simp] theorem link_unlinked (v : View) (s : Space) (i : Slot) (t : FrameId) (s' : Space)
    (i' : Slot) :
    (v.unlinked s i t).link s' i' = if s' = s ∧ i' = i then none else v.link s' i' := rfl

@[simp] theorem leaf_unlinked (v : View) (s : Space) (i : Slot) (t : FrameId) :
    (v.unlinked s i t).leaf = v.leaf := rfl

@[simp] theorem live_unlinked (v : View) (s : Space) (i : Slot) (t : FrameId) :
    (v.unlinked s i t).live = v.live := rfl

end Leaves

/-! ## Sequences of changes -/

/-- One change of a view, together with what is owed. -/
inductive Act (v : View) (o : Owed) : Change → View → Owed → Prop
  | note (n : Nat) (r : Array (DeviceId × BlockNumber)) (t : Array (Pid × MemoryError)) :
      Act v o .note { v with flushes := n, reads := r, terminations := t } o
  | link {s : Space} {i : Slot} {t : FrameId} (hs : s ∈ v.live) (vacant : v.link s i = none)
      (free : v.Free t) : Act v o (.link s i) (v.linked s i t) o
  | fill {s : Space} {k : Place} {f : FrameId} {b : Frame} (hs : s ∈ v.live)
      (absent : (v.leaf s k).present = false) (free : v.Free f) :
      Act v o (.fill s k b) (v.filled s k f b) o
  | share {s s' : Space} {k k' : Place} (hs : s ∈ v.live) (hs' : s' ∈ v.live)
      (present : (v.leaf s k).present = true) (absent : (v.leaf s' k').present = false) :
      Act v o (.share s k s' k' (v.leaf s k)) (v.aliased s k s' k') o
  | expose {s : Space} {k : Place} {e : Entry} (hs : s ∈ v.live)
      (absent : (v.leaf s k).present = false) (inside : e.frame.index < v.size)
      (untracked : ¬ v.tracks e.frame = true) :
      Act v o (.expose s k) (v.setLeaf s k e.writeProtected) o
  | permit {s : Space} {k : Place} (hs : s ∈ v.live)
      (tracked : v.tracks (v.leaf s k).frame = true) (one : v.count (v.leaf s k).frame = 1) :
      Act v o (.permit s k) (v.setLeaf s k (v.leaf s k).madeWritable) o
  | copy {s : Space} {k : Place} {g : FrameId} (hs : s ∈ v.live)
      (present : (v.leaf s k).present = true) (free : v.Free g) :
      Act v o (.copy s k) (v.copied s k g) o
  | touch {s : Space} {k : Place} {write : Bool} (hs : s ∈ v.live)
      (present : (v.leaf s k).present = true)
      (allowed : write = true → (v.leaf s k).writable = true) :
      Act v o (.touch s k write) (v.setLeaf s k ((v.leaf s k).touched write)) o
  | store {s : Space} {k : Place} {b : Frame} (hs : s ∈ v.live)
      (present : (v.leaf s k).present = true) (writable : (v.leaf s k).writable = true)
      (dirty : (v.leaf s k).dirty = true) :
      Act v o (.store s k b) (v.setBytes (v.leaf s k).frame b) o
  | unmap {s : Space} {k : Place} (hs : s ∈ v.live) : Act v o (.unmap s k) (v.unmapped s k) o
  | unlink {s : Space} {i : Slot} {t : FrameId} (hs : s ∈ v.live) (linked : v.link s i = some t)
      (empty : ∀ j, v.leaf s (i, j) = .zero) : Act v o (.unlink s i) (v.unlinked s i t) o
  | create {s : Space} (free : v.Free s.root) : Act v o (.create s) (v.founded s) o
  | destroy {s : Space} {b : FrameId → Frame} {o' : Owed} (hs : s ∈ v.live)
      (shown : ∀ f, ¬ v.Hidden f → b f = v.bytes f)
      (left : o' + hits (some s.root) = o + v.uses s) : Act v o (.destroy s) (v.ended s b) o'
  | hold {f : FrameId} {b : Frame} (free : v.Free f) :
      Act v o (.hold f) (v.grant f b) (o + hits (some f))
  | yield {f : FrameId} {o' : Owed} (held : o = o' + hits (some f)) :
      Act v o (.yield f) (v.release f) o'
  | install {s : Space} {k : Place} {f : FrameId} {o' : Owed} (hs : s ∈ v.live)
      (tracked : v.tracks f = true) (one : v.count f = 1) (held : o = o' + hits (some f)) :
      Act v o (.install s k f) (v.remap s k (.make f .userWritable))
        (o' + hits (v.leaf s k).target)

/-- A sequence of changes whose names are allowed. -/
inductive Acts (allowed : Change → Prop) (v : View) (o : Owed) : View → Owed → Prop
  | refl : Acts allowed v o v o
  | tail {c : Change} {v' v'' : View} {o' o'' : Owed} : Acts allowed v o v' o' → allowed c →
      Act v' o' c v'' o'' → Acts allowed v o v'' o''

namespace Acts

variable {allowed allowed' : Change → Prop} {v'' : View} {o'' : Owed}

theorem single {c : Change} (ok : allowed c) (act : Act v o c v' o') : Acts allowed v o v' o' :=
  .tail .refl ok act

theorem only {c : Change} (act : Act v o c v' o') : Acts (· = c) v o v' o' :=
  single rfl act

theorem trans (first : Acts allowed v o v' o') (rest : Acts allowed v' o' v'' o'') :
    Acts allowed v o v'' o'' := by
  induction rest with
  | refl => exact first
  | tail _ ok act ih => exact .tail ih ok act

theorem mono (acts : Acts allowed v o v' o') (imp : ∀ c, allowed c → allowed' c) :
    Acts allowed' v o v' o' := by
  induction acts with
  | refl => exact .refl
  | tail _ ok act ih => exact .tail ih (imp _ ok) act

theorem flushed (acts : Acts allowed v o v' o') (ok : allowed .note) :
    Acts allowed v o v'.flushed o' :=
  .tail acts ok (.note (v'.flushes + 1) v'.reads v'.terminations)

/-- What every allowed change preserves, a sequence preserves. -/
theorem preserves {P : View → Owed → Prop} (acts : Acts allowed v o v' o')
    (step : ∀ c v o v' o', allowed c → Act v o c v' o' → P v o → P v' o')
    (start : P v o) : P v' o' := by
  induction acts with
  | refl => exact start
  | tail _ ok act ih => exact step _ _ _ _ _ ok act ih

end Acts

theorem Covers.acts {allowed : Change → Prop} {s : Space} {i : Slot} {t : FrameId}
    (covers : v.Covers s i t v') (hs : s ∈ v.live) (ok : allowed (.link s i)) :
    Acts allowed v o v' o := by
  cases covers with
  | already => exact .refl
  | anew vacant free => exact .single ok (.link hs vacant free)

/-! ## Soundness -/

namespace Sound

variable {s s' : Space} {k k' : Place}

private theorem hits_of_absent (absent : (v.leaf s k).present = false) :
    hits (v.leaf s k).target = 0 := by
  rw [Entry.target_eq_none_iff.mpr absent, hits_none]

theorem linked {i : Slot} {t : FrameId} (sound : v.Sound o) (hs : s ∈ v.live)
    (vacant : v.link s i = none) (free : v.Free t) : (v.linked s i t).Sound o :=
  (Covers.anew vacant free).sound hs sound

theorem filled {f : FrameId} (sound : v.Sound o) (hs : s ∈ v.live)
    (absent : (v.leaf s k).present = false) (free : v.Free f) (b : Frame) :
    (v.filled s k f b).Sound o := by
  have mapped := exchange (v := v.grant f b) (k := k) (e := .make f .userWritable) hs
    (sound.grant free b) (fun _ => sound.fits.inside free.1) fun _ _ => ⟨free.1, if_pos rfl⟩
  have before : hits ((v.grant f b).leaf s k).target = 0 := hits_of_absent absent
  rwa [before, add_zero] at mapped

/-- A read-only entry may be added for a frame that nobody counts. -/
theorem exposed {e : Entry} (sound : v.Sound o) (hs : s ∈ v.live)
    (absent : (v.leaf s k).present = false) (inside : e.frame.index < v.size)
    (untracked : ¬ v.tracks e.frame = true) : (v.setLeaf s k e.writeProtected).Sound o := by
  refine setLeaf hs sound (fun f tracked => ?_) (fun _ => inside) fun _ writable => ?_
  · have other : e.writeProtected.target ≠ some f := by
      intro target
      rw [← (Entry.target_eq_some_iff.mp target).2] at tracked
      exact untracked tracked
    rw [hits_of_ne other, hits_of_absent absent, Pi.zero_apply]
  · cases writable

theorem aliased (sound : v.Sound o) (hs : s ∈ v.live) (hs' : s' ∈ v.live)
    (present : (v.leaf s k).present = true) (absent : (v.leaf s' k').present = false) :
    (v.aliased s k s' k').Sound o := by
  by_cases tracked : v.tracks (v.leaf s k).frame = true
  · rw [View.aliased, if_pos tracked]
    let w := v.setLeaf s k (v.leaf s k).writeProtected
    have here : w.leaf s k = (v.leaf s k).writeProtected := if_pos ⟨rfl, rfl⟩
    have apart : w.leaf s' k' = v.leaf s' k' := by
      refine if_neg ?_
      rintro ⟨rfl, rfl⟩
      rw [present] at absent
      cases absent
    have protect : w.Sound o := reflag hs sound rfl rfl fun _ writable => by cases writable
    have shared := retain_of_leaf (v := w) (k := k) hs protect (by rw [here]; exact present)
      (by rw [here]; rfl)
    rw [here] at shared
    have target : (v.leaf s k).writeProtected.target = some (v.leaf s k).frame :=
      Entry.target_eq_some_iff.mpr ⟨present, rfl⟩
    have mapped := exchange (v := w.retain (v.leaf s k).frame) (s := s') (k := k')
      (e := (v.leaf s k).writeProtected) hs' (by rw [target]; exact shared)
      (fun _ => sound.mapped s hs k present) fun _ writable => by cases writable
    have before : hits ((w.retain (v.leaf s k).frame).leaf s' k').target = 0 :=
      hits_of_absent (v := w) (by rw [apart]; exact absent)
    rwa [before, add_zero] at mapped
  · rw [View.aliased, if_neg tracked]
    exact sound.exposed hs' absent (sound.mapped s hs k present) tracked

theorem permitted (sound : v.Sound o) (hs : s ∈ v.live)
    (tracked : v.tracks (v.leaf s k).frame = true) (one : v.count (v.leaf s k).frame = 1) :
    (v.setLeaf s k (v.leaf s k).madeWritable).Sound o :=
  reflag hs sound rfl rfl fun _ _ => ⟨tracked, one⟩

theorem copied {g : FrameId} (sound : v.Sound o) (hs : s ∈ v.live)
    (present : (v.leaf s k).present = true) (free : v.Free g) :
    (v.copied s k g).Sound o := by
  have moved := exchange (v := v.grant g (v.bytes (v.leaf s k).frame)) (k := k)
    (e := .make g { Entry.userWritable with dirty := (v.leaf s k).dirty }) hs
    (sound.grant free _) (fun _ => sound.fits.inside free.1) fun _ _ => ⟨free.1, if_pos rfl⟩
  have before : ((v.grant g (v.bytes (v.leaf s k).frame)).leaf s k).target =
      some (v.leaf s k).frame := Entry.target_eq_some_iff.mpr ⟨present, rfl⟩
  rw [before] at moved
  exact moved.release

theorem touched {write : Bool} (sound : v.Sound o) (hs : s ∈ v.live) :
    (v.setLeaf s k ((v.leaf s k).touched write)).Sound o :=
  reflag hs sound rfl rfl fun present writable => sound.exclusive s hs k present writable

theorem unmapped (sound : v.Sound o) (hs : s ∈ v.live) : (v.unmapped s k).Sound o := by
  have cleared : (v.setLeaf s k .zero).Sound (o + hits (v.leaf s k).target) :=
    exchange hs sound (fun present => by cases present) fun present => by cases present
  unfold View.unmapped
  split
  · next f target =>
    rw [target] at cleared
    exact cleared.release
  · next target => rwa [target] at cleared

theorem unlinked {i : Slot} {t : FrameId} (sound : v.Sound o) (hs : s ∈ v.live)
    (linked : v.link s i = some t) : (v.unlinked s i t).Sound o := by
  have cleared : (v.setLink s i none).Sound (o + hits (v.link s i)) :=
    setLink hs sound fun t h => by cases h
  rw [linked] at cleared
  exact cleared.release

theorem founded (sound : v.Sound o) (free : v.Free s.root) : (v.founded s).Sound o := by
  have fresh : s ∉ v.live := fun hs => sound.not_free hs (c := .root) rfl free
  exact opened (v := v.grant s.root Frame.zero) fresh (sound.grant free Frame.zero)
    ⟨free.1, if_pos rfl⟩

theorem ended {b : FrameId → Frame} (sound : v.Sound o) (hs : s ∈ v.live)
    (left : o' + hits (some s.root) = o + v.uses s) : (v.ended s b).Sound o' := by
  have closed := sound.closed hs b
  rw [← left] at closed
  exact closed.release

theorem installed {f : FrameId} (sound : v.Sound (o + hits (some f))) (hs : s ∈ v.live)
    (tracked : v.tracks f = true) (one : v.count f = 1) :
    (v.remap s k (.make f .userWritable)).Sound (o + hits (v.leaf s k).target) :=
  remap hs sound (fun _ => sound.fits.inside tracked) fun _ _ => ⟨tracked, one⟩

end Sound

/-- Every change preserves soundness. -/
theorem Act.sound {c : Change} (act : Act v o c v' o') (sound : v.Sound o) : v'.Sound o' := by
  cases act with
  | note => exact { sound with }
  | link hs vacant free => exact sound.linked hs vacant free
  | fill hs absent free => exact sound.filled hs absent free _
  | share hs hs' present absent => exact sound.aliased hs hs' present absent
  | expose hs absent inside untracked => exact sound.exposed hs absent inside untracked
  | permit hs tracked one => exact sound.permitted hs tracked one
  | copy hs present free => exact sound.copied hs present free
  | touch hs => exact sound.touched hs
  | store => exact sound.setBytes _ _
  | unmap hs => exact sound.unmapped hs
  | unlink hs linked => exact sound.unlinked hs linked
  | create free => exact sound.founded free
  | destroy hs shown left => exact sound.ended hs left
  | hold free => exact sound.grant free _
  | yield held => exact (held ▸ sound).release
  | install hs tracked one held => exact (held ▸ sound).installed hs tracked one

theorem Acts.sound {allowed : Change → Prop} (acts : Acts allowed v o v' o')
    (sound : v.Sound o) : v'.Sound o' :=
  acts.preserves (fun _ _ _ _ _ _ act => act.sound) sound

/-! ## Settings -/

theorem Act.setting {c : Change} (act : Act v o c v' o') :
    v'.layout = v.layout ∧ v'.size = v.size ∧ v'.config = v.config := by
  cases act with
  | share => exact ⟨layout_aliased .., size_aliased .., config_aliased ..⟩
  | unmap => exact ⟨layout_unmapped .., size_unmapped .., config_unmapped ..⟩
  | install => exact ⟨layout_remap .., size_remap .., config_remap ..⟩
  | _ => exact ⟨rfl, rfl, rfl⟩

theorem Acts.setting {allowed : Change → Prop} (acts : Acts allowed v o v' o') :
    v'.layout = v.layout ∧ v'.size = v.size ∧ v'.config = v.config := by
  induction acts with
  | refl => exact ⟨rfl, rfl, rfl⟩
  | tail _ _ act ih =>
    obtain ⟨layout, size, config⟩ := act.setting
    exact ⟨layout.trans ih.1, size.trans ih.2.1, config.trans ih.2.2⟩

theorem Acts.tracks {allowed : Change → Prop} (acts : Acts allowed v o v' o') (f : FrameId) :
    v'.tracks f = v.tracks f := by
  simp only [View.tracks, acts.setting.1]

/-- Only two kinds of change make a space come or go. -/
theorem Act.live {c : Change} (act : Act v o c v' o') (lasting : ∀ s, c ≠ .create s ∧ c ≠ .destroy s) :
    v'.live = v.live := by
  cases act with
  | create => exact absurd rfl (lasting _).1
  | destroy => exact absurd rfl (lasting _).2
  | share => exact live_aliased ..
  | unmap => exact live_unmapped ..
  | install => exact live_remap ..
  | _ => rfl

theorem Acts.live {allowed : Change → Prop} (acts : Acts allowed v o v' o')
    (lasting : ∀ c, allowed c → ∀ s, c ≠ .create s ∧ c ≠ .destroy s) : v'.live = v.live := by
  induction acts with
  | refl => rfl
  | tail _ ok act ih => exact (act.live (lasting _ ok)).trans ih

/-! ## Memory that nobody counts -/

/-- Frames that are not tracked are mapped read-only, if at all. -/
theorem Act.untracked {c : Change} (act : Act v o c v' o') (sound : v.Sound o) {f : FrameId}
    (untracked : ¬ v.tracks f = true) : v'.bytes f = v.bytes f := by
  have granted {g : FrameId} (free : v.Free g) (b : Frame) : (v.grant g b).bytes f = v.bytes f := by
    refine bytes_setBytes_of_ne b ?_
    rintro rfl
    exact untracked free.1
  cases act with
  | link hs vacant free => exact granted free _
  | fill hs absent free => exact granted free _
  | copy hs present free => exact granted free _
  | create free => exact granted free _
  | hold free => exact granted free _
  | store hs present writable =>
    refine bytes_setBytes_of_ne _ ?_
    rintro rfl
    exact untracked (sound.exclusive _ hs _ present writable).1
  | destroy hs shown => exact shown f (sound.not_hidden_of_untracked untracked)
  | share => rw [bytes_aliased]
  | unmap => rw [bytes_unmapped]
  | install => rw [bytes_remap]
  | _ => rfl

theorem Acts.untracked {allowed : Change → Prop} (acts : Acts allowed v o v' o')
    (sound : v.Sound o) {f : FrameId} (untracked : ¬ v.tracks f = true) :
    v'.bytes f = v.bytes f := by
  induction acts with
  | refl => rfl
  | tail before _ act ih =>
    rw [← before.tracks] at untracked
    exact (act.untracked (before.sound sound) untracked).trans ih

/-! ## Dirty bits -/

/-- The entries that map a tracked frame have the same dirty bit. -/
def Agree (v : View) : Prop :=
  ∀ f, v.tracks f = true → ∀ s ∈ v.live, ∀ s' ∈ v.live, ∀ k k', (v.leaf s k).target = some f →
    (v.leaf s' k').target = some f → (v.leaf s' k').dirty = (v.leaf s k).dirty

namespace Agree

variable {s s' : Space} {k k' : Place} {e : Entry}

theorem setLeaf (agree : v.Agree)
    (others : ∀ f, v.tracks f = true → e.target = some f → ∀ s' ∈ v.live, ∀ k',
      ¬ (s' = s ∧ k' = k) → (v.leaf s' k').target = some f → (v.leaf s' k').dirty = e.dirty) :
    (v.setLeaf s k e).Agree := by
  intro f tracked s₁ h₁ s₂ h₂ k₁ k₂ target₁ target₂
  by_cases here₁ : s₁ = s ∧ k₁ = k <;> by_cases here₂ : s₂ = s ∧ k₂ = k
  · rw [here₁.1, here₁.2, here₂.1, here₂.2]
  · rw [here₁.1, here₁.2, leaf_setLeaf_self] at target₁ ⊢
    rw [leaf_setLeaf_of_ne e here₂] at target₂ ⊢
    exact others f tracked target₁ s₂ h₂ k₂ here₂ target₂
  · rw [here₂.1, here₂.2, leaf_setLeaf_self] at target₂ ⊢
    rw [leaf_setLeaf_of_ne e here₁] at target₁ ⊢
    exact (others f tracked target₂ s₁ h₁ k₁ here₁ target₁).symm
  · rw [leaf_setLeaf_of_ne e here₁] at target₁ ⊢
    rw [leaf_setLeaf_of_ne e here₂] at target₂ ⊢
    exact agree f tracked s₁ h₁ s₂ h₂ k₁ k₂ target₁ target₂

/-- The new entry maps what another entry with the same dirty bit does. -/
theorem setLeaf_of_twin (agree : v.Agree) (hs : s ∈ v.live) (target : e.target = (v.leaf s k).target)
    (dirty : e.dirty = (v.leaf s k).dirty) : (v.setLeaf s' k' e).Agree := by
  refine agree.setLeaf fun f tracked maps s₂ h₂ k₂ _ maps₂ => ?_
  rw [dirty]
  exact agree f tracked s hs s₂ h₂ k k₂ (target.symm.trans maps) maps₂

/-- The new entry maps a frame that no entry maps. -/
theorem setLeaf_of_unused (agree : v.Agree)
    (unused : ∀ f, v.tracks f = true → e.target = some f → ∀ s' ∈ v.live, ∀ k',
      ¬ (s' = s ∧ k' = k) → (v.leaf s' k').target ≠ some f) : (v.setLeaf s k e).Agree :=
  agree.setLeaf fun f tracked maps s' hs' k' other maps' =>
    absurd maps' (unused f tracked maps s' hs' k' other)

theorem aliased (agree : v.Agree) (hs : s ∈ v.live) : (v.aliased s k s' k').Agree := by
  unfold View.aliased
  split
  · have first : (v.setLeaf s k (v.leaf s k).writeProtected).Agree :=
      agree.setLeaf_of_twin (k := k) hs rfl rfl
    refine first.setLeaf_of_twin (k := k) hs ?_ ?_ <;> rw [leaf_setLeaf_self]
  · exact agree.setLeaf_of_twin (k := k) hs rfl rfl

theorem touched {write : Bool} (agree : v.Agree) (sound : v.Sound o) (hs : s ∈ v.live)
    (present : (v.leaf s k).present = true)
    (allowed : write = true → (v.leaf s k).writable = true) :
    (v.setLeaf s k ((v.leaf s k).touched write)).Agree := by
  cases write with
  | false => exact agree.setLeaf_of_twin (k := k) hs rfl (Bool.or_false _)
  | true =>
    -- The page is written to, so no other entry maps it.
    obtain ⟨tracked, one⟩ := sound.exclusive s hs k present (allowed rfl)
    refine agree.setLeaf_of_unused fun f _ maps s' hs' k' other maps' => other ?_
    obtain ⟨-, rfl⟩ := Entry.target_eq_some_iff.mp maps
    obtain ⟨rfl, cell⟩ := sound.sole tracked one hs (refers_leaf present) hs'
      (d := .leaf k') maps'
    exact ⟨rfl, Cell.leaf.inj cell⟩

theorem founded (agree : v.Agree) : (v.founded s).Agree := by
  have within {s' : Space} {k' : Place} {f : FrameId} (hs' : s' ∈ (v.founded s).live)
      (maps : ((v.founded s).leaf s' k').target = some f) :
      s' ∈ v.live ∧ (v.founded s).leaf s' k' = v.leaf s' k' := by
    by_cases new : s' = s
    · rw [show (v.founded s).leaf s' k' = .zero from if_pos new] at maps
      cases maps
    · exact ⟨(Finset.mem_insert.mp hs').resolve_left new, if_neg new⟩
  intro f tracked s₁ h₁ s₂ h₂ k₁ k₂ maps₁ maps₂
  obtain ⟨h₁, same₁⟩ := within h₁ maps₁
  obtain ⟨h₂, same₂⟩ := within h₂ maps₂
  rw [same₁] at maps₁ ⊢
  rw [same₂] at maps₂ ⊢
  exact agree f tracked s₁ h₁ s₂ h₂ k₁ k₂ maps₁ maps₂

theorem installed {f : FrameId} (agree : v.Agree) (sound : v.Sound (o + hits (some f)))
    (tracked : v.tracks f = true) (one : v.count f = 1) :
    (v.remap s k (.make f .userWritable)).Agree := by
  have mapped : (v.setLeaf s k (.make f .userWritable)).Agree := by
    refine agree.setLeaf_of_unused fun g _ maps s' hs' k' _ maps' => ?_
    cases maps
    have := sound.references_add_owed_pos tracked hs' (c := .leaf k') maps'
    rw [Pi.add_apply, hits_self] at this
    omega
  unfold View.remap
  split
  · exact mapped
  · exact mapped

end Agree

theorem Act.agree {c : Change} (act : Act v o c v' o') (sound : v.Sound o) (agree : v.Agree) :
    v'.Agree := by
  have fresh {w : View} {g : FrameId} {flags : Entry} {s : Space} {k : Place} (free : v.Free g)
      (same : w.leaf = v.leaf) (live : w.live = v.live) (before : w.Agree) :
      (w.setLeaf s k (.make g flags)).Agree := by
    refine before.setLeaf_of_unused fun f _ maps s' hs' k' _ maps' => ?_
    cases maps
    rw [same] at maps'
    exact sound.refers_ne_free (c := .leaf k') (live ▸ hs') free maps'
  cases act with
  | fill hs absent free => exact fresh (w := v.grant _ _) free rfl rfl agree
  | copy hs present free => exact fresh (w := v.grant _ _) free rfl rfl agree
  | share hs => exact agree.aliased hs
  | expose hs absent inside untracked =>
    refine agree.setLeaf_of_unused fun f tracked maps => ?_
    rw [← (Entry.target_eq_some_iff.mp maps).2] at tracked
    exact absurd tracked untracked
  | permit hs => exact agree.setLeaf_of_twin hs rfl rfl
  | touch hs present allowed => exact agree.touched sound hs present allowed
  | unmap hs =>
    have cleared {s : Space} {k : Place} : (v.setLeaf s k .zero).Agree :=
      agree.setLeaf_of_unused fun f _ maps => by cases maps
    unfold View.unmapped
    split
    · exact cleared
    · exact cleared
  | create => exact agree.founded
  | destroy hs shown =>
    exact fun f tracked s₁ h₁ s₂ h₂ => agree f tracked s₁ (Finset.mem_of_mem_erase h₁) s₂
      (Finset.mem_of_mem_erase h₂)
  | install hs tracked one held => exact agree.installed (held ▸ sound) tracked one
  | _ => exact agree

theorem Acts.agree {allowed : Change → Prop} (acts : Acts allowed v o v' o') (sound : v.Sound o)
    (agree : v.Agree) : v'.Agree :=
  (acts.preserves (P := fun v o => v.Sound o ∧ v.Agree)
    (fun _ _ _ _ _ _ act h => ⟨act.sound h.1, act.agree h.1 h.2⟩) ⟨sound, agree⟩).2

/-! ## Held pages -/

/-- A page that somebody holds the only reference to is not touched by what others do. -/
theorem Act.held {c : Change} (act : Act v o c v' o') (sound : v.Sound o) {f : FrameId}
    (tracked : v.tracks f = true) (held : 0 < o f) (one : v.count f = 1)
    (spared : c ≠ .yield f ∧ ∀ s k, c ≠ .install s k f) : 0 < o' f ∧ v'.count f = 1 := by
  have granted {g : FrameId} (free : v.Free g) : (if f = g then 1 else v.count f) = 1 := by
    split
    · rfl
    · exact one
  -- No cell refers to the page, since its holder has the only reference.
  have other {s : Space} {d : Cell} {g : FrameId} (hs : s ∈ v.live)
      (refers : v.refers s d = some g) : f ≠ g := by
    rintro rfl
    have := sound.references_add_owed_pos tracked hs refers
    omega
  cases act with
  | link hs vacant free => exact ⟨held, granted free⟩
  | fill hs absent free => exact ⟨held, granted free⟩
  | create free => exact ⟨held, granted free⟩
  | hold free =>
    refine ⟨?_, granted free⟩
    rw [Pi.add_apply]
    omega
  | copy hs present free =>
    exact ⟨held, (if_neg (other hs (refers_leaf present))).trans (granted free)⟩
  | share hs hs' present =>
    refine ⟨held, ?_⟩
    unfold View.aliased
    split
    · exact (if_neg (other hs (refers_leaf present))).trans one
    · exact one
  | @unmap s k hs =>
    refine ⟨held, ?_⟩
    unfold View.unmapped
    split
    · next g target => exact (if_neg (other hs (d := .leaf k) target)).trans one
    · exact one
  | @unlink s i t hs linked => exact ⟨held, (if_neg (other hs (d := .link i) linked)).trans one⟩
  | @destroy s b o' hs shown left =>
    refine ⟨?_, (if_neg (other hs (d := .root) rfl)).trans one⟩
    have sum := congrFun left f
    rw [Pi.add_apply, Pi.add_apply, hits_of_ne fun h => other hs (d := .root) rfl
      (Option.some.inj h).symm] at sum
    omega
  | @yield g o' given =>
    have apart : f ≠ g := fun same => spared.1 (same ▸ rfl)
    refine ⟨?_, (if_neg apart).trans one⟩
    rw [given, Pi.add_apply, hits_of_ne fun h => apart (Option.some.inj h).symm] at held
    exact held
  | @install s k g o' hs _ _ given =>
    have apart : f ≠ g := fun same => spared.2 s k (same ▸ rfl)
    rw [given, Pi.add_apply, hits_of_ne fun h => apart (Option.some.inj h).symm] at held
    refine ⟨?_, ?_⟩
    · rw [Pi.add_apply]
      omega
    · rw [count_remap]
      exact one
  | _ => exact ⟨held, one⟩

theorem Acts.held {allowed : Change → Prop} (acts : Acts allowed v o v' o') (sound : v.Sound o)
    {f : FrameId} (tracked : v.tracks f = true) (held : 0 < o f) (one : v.count f = 1)
    (spared : ∀ c, allowed c → c ≠ .yield f ∧ ∀ s k, c ≠ .install s k f) :
    0 < o' f ∧ v'.count f = 1 := by
  induction acts with
  | refl => exact ⟨held, one⟩
  | tail before ok act ih =>
    exact act.held (before.sound sound) ((before.tracks f).trans tracked) ih.1 ih.2 (spared _ ok)

end View

end PagedMemory
