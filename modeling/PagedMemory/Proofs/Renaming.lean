import Mathlib.Logic.Equiv.Basic
import PagedMemory.Proofs.Lifecycle
import PagedMemory.Proofs.Paging

/-!
# Other names for frames

Which free frame is handed out is a matter of policy, so two runs that do the same work
may use different frames for it. A `Renaming` says which frame of the second run stands
for a frame of the first. It also renames spaces, which are named by their directories,
and the frame numbers in their tables.

Two views are `Alike` under a renaming if they differ in nothing else. They need not agree
on bytes that no user can reach: what a free frame holds, or a page table, is left open.
Each kind of change keeps views alike if it is made to both of them, and a frame that is
free on one side may be matched with any frame that is free on the other (`Alike.fresh`).
-/

namespace PagedMemory

/-- Which frame of a second run stands for a frame of a first one. -/
abbrev Renaming := Equiv.Perm FrameId

namespace Space

variable {ρ : Renaming} {s s' : Space}

def rename (ρ : Renaming) (s : Space) : Space :=
  ⟨ρ s.root⟩

@[simp] theorem root_rename (ρ : Renaming) (s : Space) : (s.rename ρ).root = ρ s.root := rfl

@[simp] theorem rename_inj : s.rename ρ = s'.rename ρ ↔ s = s' := by
  rw [Space.ext_iff, Space.ext_iff, root_rename, root_rename, ρ.apply_eq_iff_eq]

theorem exists_rename_eq (ρ : Renaming) (s : Space) : ∃ s', Space.rename ρ s' = s :=
  ⟨⟨ρ.symm s.root⟩, Space.ext (ρ.apply_symm_apply s.root)⟩

end Space

namespace Entry

variable {ρ : Renaming} {e : Entry}

/-- What is left in an entry that is not present names no frame. -/
def rename (ρ : Renaming) (e : Entry) : Entry :=
  if e.present then { e with frame := ρ e.frame } else e

theorem rename_of_present (present : e.present = true) :
    e.rename ρ = { e with frame := ρ e.frame } :=
  if_pos present

theorem frame_rename (present : e.present = true) : (e.rename ρ).frame = ρ e.frame := by
  rw [rename_of_present present]

@[simp] theorem present_rename (ρ : Renaming) (e : Entry) : (e.rename ρ).present = e.present := by
  unfold rename
  split <;> rfl

@[simp] theorem writable_rename (ρ : Renaming) (e : Entry) :
    (e.rename ρ).writable = e.writable := by
  unfold rename
  split <;> rfl

@[simp] theorem dirty_rename (ρ : Renaming) (e : Entry) : (e.rename ρ).dirty = e.dirty := by
  unfold rename
  split <;> rfl

@[simp] theorem isClean_rename (ρ : Renaming) (e : Entry) : (e.rename ρ).isClean = e.isClean := by
  rw [isClean, isClean, present_rename, dirty_rename]

@[simp] theorem target_rename (ρ : Renaming) (e : Entry) :
    (e.rename ρ).target = e.target.map ρ := by
  unfold rename target
  split
  · simp
  · rfl

@[simp] theorem rename_writeProtected (ρ : Renaming) (e : Entry) :
    e.writeProtected.rename ρ = (e.rename ρ).writeProtected := by
  obtain ⟨present, _⟩ := e
  cases present <;> rfl

@[simp] theorem rename_madeWritable (ρ : Renaming) (e : Entry) :
    e.madeWritable.rename ρ = (e.rename ρ).madeWritable := by
  obtain ⟨present, _⟩ := e
  cases present <;> rfl

@[simp] theorem rename_touched (ρ : Renaming) (write : Bool) (e : Entry) :
    (e.touched write).rename ρ = (e.rename ρ).touched write := by
  obtain ⟨present, _⟩ := e
  cases present <;> rfl

/-- Entries name the same frames under renamings that agree on what they name. -/
theorem rename_congr {ρ' : Renaming} (same : ∀ f, e.target = some f → ρ' f = ρ f) :
    e.rename ρ' = e.rename ρ := by
  unfold rename
  split
  · next present => rw [same e.frame (target_eq_some_iff.mpr ⟨present, rfl⟩)]
  · rfl

end Entry

theorem hits_map (ρ : Renaming) (target : Option FrameId) (f : FrameId) :
    hits (target.map ρ) (ρ f) = hits target f := by
  cases target with
  | none => rfl
  | some g => simp [hits]

namespace View

/-- The frame can be reached by a user, or it is one of the pages in hand. -/
def Visible (v : View) (held : FrameId → Prop) (f : FrameId) : Prop :=
  held f ∨ ∃ s ∈ v.live, ∃ k, (v.leaf s k).target = some f

/-- The second view is the first one with other names for its frames. -/
structure Alike (ρ : Renaming) (held : FrameId → Prop) (v w : View) : Prop where
  layout : w.layout = v.layout
  size : w.size = v.size
  config : w.config = v.config
  flushes : w.flushes = v.flushes
  reads : w.reads = v.reads
  terminations : w.terminations = v.terminations
  tracks : ∀ f, v.tracks (ρ f) = v.tracks f
  untracked : ∀ f, ¬ v.tracks f = true → ρ f = f
  live : ∀ s : Space, s.rename ρ ∈ w.live ↔ s ∈ v.live
  link : ∀ s ∈ v.live, ∀ i, w.link (s.rename ρ) i = (v.link s i).map ρ
  leaf : ∀ s ∈ v.live, ∀ k, w.leaf (s.rename ρ) k = (v.leaf s k).rename ρ
  count : ∀ f, v.tracks f = true → w.count (ρ f) = v.count f
  bytes : ∀ f, v.Visible held f → w.bytes (ρ f) = v.bytes f

namespace Alike

variable {ρ : Renaming} {held held' : FrameId → Prop} {v w : View} {o : Owed} {s s' : Space}
  {f : FrameId} {i : Slot} {k k' : Place}

theorem refl (v : View) (held : FrameId → Prop) : v.Alike (Equiv.refl _) held v where
  layout := rfl
  size := rfl
  config := rfl
  flushes := rfl
  reads := rfl
  terminations := rfl
  tracks _ := rfl
  untracked _ _ := rfl
  live _ := Iff.rfl
  link s _ i := by
    rw [Equiv.coe_refl, Option.map_id]
    rfl
  leaf s _ k := by
    unfold Entry.rename
    split <;> rfl
  count _ _ := rfl
  bytes _ _ := rfl

theorem mono (alike : v.Alike ρ held w) (imp : ∀ f, held' f → held f) : v.Alike ρ held' w :=
  { alike with bytes := fun f shown => alike.bytes f (shown.imp_left (imp f)) }

/-- A page comes into hand that holds the same on both sides. -/
theorem hold (alike : v.Alike ρ held w) (same : w.bytes (ρ f) = v.bytes f) :
    v.Alike ρ (fun g => held g ∨ g = f) w := by
  refine { alike with bytes := fun g shown => ?_ }
  obtain (h | rfl) | mapped := shown
  · exact alike.bytes g (.inl h)
  · exact same
  · exact alike.bytes g (.inr mapped)

/-! ## What alike views have in common -/

theorem tracks' (alike : v.Alike ρ held w) (f : FrameId) : w.tracks (ρ f) = v.tracks f := by
  rw [← alike.tracks f]
  simp only [View.tracks, alike.layout]

theorem free_iff (alike : v.Alike ρ held w) : w.Free (ρ f) ↔ v.Free f := by
  constructor
  · rintro ⟨tracked, zero⟩
    rw [alike.tracks'] at tracked
    exact ⟨tracked, (alike.count f tracked).symm.trans zero⟩
  · rintro ⟨tracked, zero⟩
    exact ⟨(alike.tracks' f).trans tracked, (alike.count f tracked).trans zero⟩

theorem no_free (alike : v.Alike ρ held w) (full : ∀ f, ¬ w.Free f) (f : FrameId) : ¬ v.Free f :=
  fun free => full (ρ f) (alike.free_iff.mpr free)

theorem no_free' (alike : v.Alike ρ held w) (full : ∀ f, ¬ v.Free f) (f : FrameId) :
    ¬ w.Free f := by
  rw [← ρ.apply_symm_apply f, alike.free_iff]
  exact full _

theorem live' (alike : v.Alike ρ held w) (hs : s ∈ v.live) : s.rename ρ ∈ w.live :=
  (alike.live s).mpr hs

theorem refers (alike : v.Alike ρ held w) (hs : s ∈ v.live) (c : Cell) :
    w.refers (s.rename ρ) c = (v.refers s c).map ρ := by
  cases c with
  | root => rfl
  | link i => exact alike.link s hs i
  | leaf k => exact (congrArg Entry.target (alike.leaf s hs k)).trans (Entry.target_rename ρ _)

/-- Frames in use as tables, and frames that are free, are so on both sides. -/
theorem hidden (alike : v.Alike ρ held w) (h : w.Hidden (ρ f)) : v.Hidden f := by
  rcases h with free | ⟨s', hs', table⟩
  · exact .inl (alike.free_iff.mp free)
  · obtain ⟨s, rfl⟩ := Space.exists_rename_eq ρ s'
    have hs := (alike.live s).mp hs'
    refine .inr ⟨s, hs, ?_⟩
    rcases table with root | ⟨i, linked⟩
    · exact .inl (ρ.injective root)
    · rw [alike.link s hs, Option.map_eq_some_iff] at linked
      obtain ⟨g, linked, same⟩ := linked
      exact .inr ⟨i, ρ.injective same ▸ linked⟩

private theorem uses (alike : v.Alike ρ held w) (hs : s ∈ v.live) (f : FrameId) :
    w.uses (s.rename ρ) (ρ f) = v.uses s f := by
  refine Finset.sum_congr rfl fun c _ => ?_
  rw [alike.refers hs, hits_map]

private theorem references (alike : v.Alike ρ held w) (f : FrameId) :
    w.references (ρ f) = v.references f := by
  symm
  refine Finset.sum_bij (fun s _ => s.rename ρ) ?_ ?_ ?_ ?_
  · exact fun s hs => alike.live' hs
  · exact fun s _ s' _ same => Space.rename_inj.mp same
  · intro s' hs'
    obtain ⟨s, rfl⟩ := Space.exists_rename_eq ρ s'
    exact ⟨s, (alike.live s).mp hs', rfl⟩
  · exact fun s hs => (alike.uses hs f).symm

/-- What is alike to a sound view is sound. -/
theorem sound (alike : v.Alike ρ held w) (sound : v.Sound o) : w.Sound (o ∘ ρ.symm) := by
  have one {f : FrameId} (h : v.tracks f = true ∧ v.count f = 1) :
      w.tracks (ρ f) = true ∧ w.count (ρ f) = 1 :=
    ⟨(alike.tracks' f).trans h.1, (alike.count f h.1).trans h.2⟩
  have within {f : FrameId} (inside : f.index < v.size) : (ρ f).index < w.size := by
    rw [alike.size]
    by_cases tracked : v.tracks f = true
    · exact sound.fits.inside ((alike.tracks f).trans tracked)
    · rwa [alike.untracked f tracked]
  have root {s' : Space} (hs' : s' ∈ w.live) : ∃ s ∈ v.live, s' = s.rename ρ := by
    obtain ⟨s, rfl⟩ := Space.exists_rename_eq ρ s'
    exact ⟨s, (alike.live s).mp hs', rfl⟩
  constructor
  · exact ⟨alike.layout ▸ sound.fits.1, by rw [alike.size, alike.layout, sound.fits.2]⟩
  · intro g tracked
    obtain ⟨f, rfl⟩ := ρ.surjective g
    rw [alike.tracks'] at tracked
    rw [alike.count f tracked, alike.references, sound.counted f tracked, Function.comp_apply,
      ρ.symm_apply_apply]
  · intro s' hs'
    obtain ⟨s, hs, rfl⟩ := root hs'
    exact one (sound.root s hs)
  · intro s' hs' i t linked
    obtain ⟨s, hs, rfl⟩ := root hs'
    rw [alike.link s hs, Option.map_eq_some_iff] at linked
    obtain ⟨t, linked, rfl⟩ := linked
    exact one (sound.table s hs i t linked)
  · intro s' hs' k present
    obtain ⟨s, hs, rfl⟩ := root hs'
    rw [alike.leaf s hs, Entry.present_rename] at present
    rw [alike.leaf s hs, Entry.frame_rename present]
    exact within (sound.mapped s hs k present)
  · intro s' hs' k present writable
    obtain ⟨s, hs, rfl⟩ := root hs'
    rw [alike.leaf s hs, Entry.present_rename] at present
    rw [alike.leaf s hs, Entry.writable_rename] at writable
    rw [alike.leaf s hs, Entry.frame_rename present]
    exact one (sound.exclusive s hs k present writable)

/-! ## Matching free frames -/

/-- Views are alike under every renaming that agrees on the frames in use. -/
private theorem of_agree {ρ' : Renaming} (alike : v.Alike ρ held w) (sound : v.Sound o)
    (used : ∀ f, held f → ¬ v.Free f) (same : ∀ f, ¬ v.Free f → ρ' f = ρ f)
    (free : ∀ f, v.Free f → w.Free (ρ' f)) : v.Alike ρ' held w := by
  have space {s : Space} (hs : s ∈ v.live) : s.rename ρ' = s.rename ρ :=
    Space.ext (same _ (sound.not_free hs (c := .root) rfl))
  have ready := alike.sound sound
  refine { alike with
    tracks := fun f => ?_, untracked := fun f outside => ?_, live := fun s => ?_
    link := fun s hs i => ?_, leaf := fun s hs k => ?_, count := fun f tracked => ?_
    bytes := fun f shown => ?_ }
  · by_cases unused : v.Free f
    · have tracked := (free f unused).1
      rw [View.tracks, alike.layout] at tracked
      exact tracked.trans unused.1.symm
    · rw [same f unused]
      exact alike.tracks f
  · rw [same f fun unused => outside unused.1]
    exact alike.untracked f outside
  · by_cases unused : v.Free s.root
    · refine iff_of_false (fun hs => ?_) fun hs => ?_
      · exact ready.not_free hs (c := .root) rfl (free _ unused)
      · exact sound.not_free hs (c := .root) rfl unused
    · rw [show s.rename ρ' = s.rename ρ from Space.ext (same _ unused)]
      exact alike.live s
  · rw [space hs, alike.link s hs]
    cases linked : v.link s i with
    | none => rfl
    | some t => exact congrArg some (same t (sound.not_free hs (c := .link i) linked)).symm
  · rw [space hs, alike.leaf s hs]
    exact (Entry.rename_congr fun f target => same f (sound.not_free hs (c := .leaf k) target)).symm
  · by_cases unused : v.Free f
    · rw [(free f unused).2, unused.2]
    · rw [same f unused]
      exact alike.count f tracked
  · have visible : ¬ v.Free f := by
      rcases shown with h | ⟨s, hs, k, target⟩
      · exact used f h
      · exact sound.not_free hs (c := .leaf k) target
    rw [same f visible]
    exact alike.bytes f shown

/-- A free frame may stand for any other one. -/
theorem fresh {g : FrameId} (alike : v.Alike ρ held w) (sound : v.Sound o)
    (used : ∀ f, held f → ¬ v.Free f) (free : v.Free f) (free' : w.Free g) :
    ∃ ρ' : Renaming, ρ' f = g ∧ v.Alike ρ' held w ∧ ∀ x, ¬ v.Free x → ρ' x = ρ x := by
  -- The frame that stood for `f` and the one that is to stand for it change places. Both
  -- are free, so nothing in use is renamed.
  have same (x : FrameId) (hx : ¬ v.Free x) : (ρ.trans (Equiv.swap (ρ f) g)) x = ρ x := by
    refine Equiv.swap_apply_of_ne_of_ne (fun h => hx ?_) fun h => hx ?_
    · rwa [ρ.injective h]
    · rwa [← alike.free_iff, h]
  refine ⟨ρ.trans (Equiv.swap (ρ f) g), Equiv.swap_apply_left (ρ f) g,
    alike.of_agree sound used same fun x unused => ?_, same⟩
  show w.Free (Equiv.swap (ρ f) g (ρ x))
  by_cases first : ρ x = ρ f
  · rwa [first, Equiv.swap_apply_left]
  · by_cases second : ρ x = g
    · rw [second, Equiv.swap_apply_right]
      exact alike.free_iff.mpr free
    · rw [Equiv.swap_apply_of_ne_of_ne first second]
      exact alike.free_iff.mpr unused

/-! ## Single changes on both sides -/

theorem recorded (alike : v.Alike ρ held w) (device : DeviceId) (blocks : List BlockNumber) :
    (v.recorded device blocks).Alike ρ held (w.recorded device blocks) :=
  { alike with reads := congrArg (fun reads => blocks.foldl _ reads) alike.reads }

theorem terminated (alike : v.Alike ρ held w) (pid : Pid) (cause : MemoryError) :
    View.Alike ρ held { v with terminations := v.terminations.push (pid, cause) }
      { w with terminations := w.terminations.push (pid, cause) } :=
  { alike with terminations := congrArg (Array.push · _) alike.terminations }

theorem flushed (alike : v.Alike ρ held w) : v.flushed.Alike ρ held w.flushed :=
  { alike with flushes := congrArg (· + 1) alike.flushes }

theorem setCount (alike : v.Alike ρ held w) (f : FrameId) (n : Nat) :
    (v.setCount f n).Alike ρ held (w.setCount (ρ f) n) := by
  refine { alike with count := fun g tracked => ?_ }
  show (if ρ g = ρ f then n else w.count (ρ g)) = if g = f then n else v.count g
  simp only [ρ.apply_eq_iff_eq, alike.count g tracked]

theorem retain (alike : v.Alike ρ held w) (f : FrameId) :
    (v.retain f).Alike ρ held (w.retain (ρ f)) := by
  by_cases tracked : v.tracks f = true
  · rw [retain_of_tracked tracked, retain_of_tracked ((alike.tracks' f).trans tracked),
      alike.count f tracked]
    exact alike.setCount f _
  · rwa [retain_of_untracked tracked, retain_of_untracked fun h => tracked (alike.tracks' f ▸ h)]

theorem release (alike : v.Alike ρ held w) (f : FrameId) :
    (v.release f).Alike ρ held (w.release (ρ f)) := by
  by_cases tracked : v.tracks f = true
  · rw [release_of_tracked tracked, release_of_tracked ((alike.tracks' f).trans tracked),
      alike.count f tracked]
    exact alike.setCount f _
  · rwa [release_of_untracked tracked, release_of_untracked fun h => tracked (alike.tracks' f ▸ h)]

theorem setBytes (alike : v.Alike ρ held w) (f : FrameId) (b : Frame) :
    (v.setBytes f b).Alike ρ held (w.setBytes (ρ f) b) := by
  refine { alike with bytes := fun g shown => ?_ }
  show (if ρ g = ρ f then b else w.bytes (ρ g)) = if g = f then b else v.bytes g
  simp only [ρ.apply_eq_iff_eq, alike.bytes g shown]

theorem grant (alike : v.Alike ρ held w) (f : FrameId) (b : Frame) :
    (v.grant f b).Alike ρ held (w.grant (ρ f) b) :=
  (alike.setCount f 1).setBytes f b

theorem setLink (alike : v.Alike ρ held w) (s : Space) (i : Slot) (t : Option FrameId) :
    (v.setLink s i t).Alike ρ held (w.setLink (s.rename ρ) i (t.map ρ)) := by
  refine { alike with link := fun s' hs' i' => ?_ }
  show (if s'.rename ρ = s.rename ρ ∧ i' = i then t.map ρ else w.link (s'.rename ρ) i') =
    (if s' = s ∧ i' = i then t else v.link s' i').map ρ
  simp only [Space.rename_inj]
  split
  · rfl
  · exact alike.link s' hs' i'

/-- A new entry must lead to the same bytes on both sides. -/
theorem setLeaf (alike : v.Alike ρ held w) (s : Space) (k : Place) (e : Entry)
    (same : ∀ f, e.target = some f → w.bytes (ρ f) = v.bytes f) :
    (v.setLeaf s k e).Alike ρ held (w.setLeaf (s.rename ρ) k (e.rename ρ)) := by
  refine { alike with leaf := fun s' hs' k' => ?_, bytes := fun f shown => ?_ }
  · show (if s'.rename ρ = s.rename ρ ∧ k' = k then e.rename ρ else w.leaf (s'.rename ρ) k') =
      (if s' = s ∧ k' = k then e else v.leaf s' k').rename ρ
    simp only [Space.rename_inj]
    split
    · rfl
    · exact alike.leaf s' hs' k'
  · rcases shown with h | ⟨s', hs', k', target⟩
    · exact alike.bytes f (.inl h)
    · by_cases here : s' = s ∧ k' = k
      · rw [here.1, here.2, leaf_setLeaf_self] at target
        exact same f target
      · rw [leaf_setLeaf_of_ne e here] at target
        exact alike.bytes f (.inr ⟨s', hs', k', target⟩)

theorem opened (alike : v.Alike ρ held w) (s : Space) :
    (v.opened s).Alike ρ held (w.opened (s.rename ρ)) := by
  have before {s' : Space} (hs' : s' ∈ (v.opened s).live) (other : s' ≠ s) : s' ∈ v.live :=
    (Finset.mem_insert.mp hs').resolve_left other
  refine { alike with
    live := fun s' => ?_, link := fun s' hs' i => ?_, leaf := fun s' hs' k => ?_
    bytes := fun f shown => alike.bytes f (shown.imp_right ?_) }
  · show s'.rename ρ ∈ insert (s.rename ρ) w.live ↔ s' ∈ insert s v.live
    rw [Finset.mem_insert, Finset.mem_insert, Space.rename_inj, alike.live]
  · show (if s'.rename ρ = s.rename ρ then none else w.link (s'.rename ρ) i) =
      (if s' = s then none else v.link s' i).map ρ
    simp only [Space.rename_inj]
    split
    · rfl
    · next other => exact alike.link s' (before hs' other) i
  · show (if s'.rename ρ = s.rename ρ then Entry.zero else w.leaf (s'.rename ρ) k) =
      (if s' = s then Entry.zero else v.leaf s' k).rename ρ
    simp only [Space.rename_inj]
    split
    · rfl
    · next other => exact alike.leaf s' (before hs' other) k
  · rintro ⟨s', hs', k, target⟩
    by_cases new : s' = s
    · rw [show (v.opened s).leaf s' k = .zero from if_pos new] at target
      cases target
    · rw [show (v.opened s).leaf s' k = v.leaf s' k from if_neg new] at target
      exact ⟨s', before hs' new, k, target⟩

theorem closed (alike : v.Alike ρ held w) (s : Space) {b b' : FrameId → Frame}
    (same : ∀ f, v.Visible held f → b' (ρ f) = b f) :
    (v.closed s b).Alike ρ held (w.closed (s.rename ρ) b') := by
  refine { alike with
    live := fun s' => ?_
    link := fun s' hs' => alike.link s' (Finset.mem_of_mem_erase hs')
    leaf := fun s' hs' => alike.leaf s' (Finset.mem_of_mem_erase hs')
    bytes := fun f shown => same f (shown.imp_right ?_) }
  · show s'.rename ρ ∈ w.live.erase (s.rename ρ) ↔ s' ∈ v.live.erase s
    rw [Finset.mem_erase, Finset.mem_erase, ne_eq, Space.rename_inj, alike.live]
  · rintro ⟨s', hs', k, target⟩
    exact ⟨s', Finset.mem_of_mem_erase hs', k, target⟩

/-! ## Composite changes on both sides -/

theorem linked (alike : v.Alike ρ held w) (s : Space) (i : Slot) (t : FrameId) :
    (v.linked s i t).Alike ρ held (w.linked (s.rename ρ) i (ρ t)) :=
  (alike.grant t Frame.zero).setLink s i (some t)

/-- The flags of an entry change. -/
theorem reflagged (alike : v.Alike ρ held w) (hs : s ∈ v.live) {e : Entry}
    (target : e.target = (v.leaf s k).target) :
    (v.setLeaf s k e).Alike ρ held (w.setLeaf (s.rename ρ) k (e.rename ρ)) :=
  alike.setLeaf s k e fun f h => alike.bytes f (.inr ⟨s, hs, k, target ▸ h⟩)

theorem remap (alike : v.Alike ρ held w) (hs : s ∈ v.live) (k : Place) {f : FrameId}
    (h : held f) (flags : Entry) :
    (v.remap s k (.make f flags)).Alike ρ held
      (w.remap (s.rename ρ) k (.make (ρ f) flags)) := by
  have mapped : (v.setLeaf s k (.make f flags)).Alike ρ held
      (w.setLeaf (s.rename ρ) k (.make (ρ f) flags)) := by
    refine alike.setLeaf s k (.make f flags) fun g target => ?_
    cases target
    exact alike.bytes f (.inl h)
  unfold View.remap
  rw [alike.leaf s hs, Entry.present_rename]
  split
  · exact mapped.flushed
  · exact mapped

theorem aliased (alike : v.Alike ρ held w) (hs : s ∈ v.live)
    (present : (v.leaf s k).present = true) :
    (v.aliased s k s' k').Alike ρ held (w.aliased (s.rename ρ) k (s'.rename ρ) k') := by
  have reach {f : FrameId} (target : (v.leaf s k).writeProtected.target = some f) :
      w.bytes (ρ f) = v.bytes f := alike.bytes f (.inr ⟨s, hs, k, target⟩)
  unfold View.aliased
  rw [alike.leaf s hs, Entry.frame_rename present, alike.tracks', ← Entry.rename_writeProtected]
  split
  · have protect := alike.reflagged (k := k) (e := (v.leaf s k).writeProtected) hs rfl
    exact (protect.setLeaf s' k' _ fun f => reach).retain _
  · exact alike.setLeaf s' k' _ fun f => reach

theorem copied {g : FrameId} (alike : v.Alike ρ held w) (hs : s ∈ v.live)
    (present : (v.leaf s k).present = true) :
    (v.copied s k g).Alike ρ held (w.copied (s.rename ρ) k (ρ g)) := by
  have same : w.bytes (ρ (v.leaf s k).frame) = v.bytes (v.leaf s k).frame :=
    alike.bytes _ (.inr ⟨s, hs, k, Entry.target_eq_some_iff.mpr ⟨present, rfl⟩⟩)
  unfold View.copied
  rw [alike.leaf s hs, Entry.frame_rename present, Entry.dirty_rename, same]
  refine ((alike.grant g _).setLeaf s k (.make g _) fun f target => ?_).release _
  cases target
  exact (if_pos rfl).trans (if_pos rfl).symm

theorem unmapped (alike : v.Alike ρ held w) (hs : s ∈ v.live) (k : Place) :
    (v.unmapped s k).Alike ρ held (w.unmapped (s.rename ρ) k) := by
  have cleared : (v.setLeaf s k .zero).Alike ρ held (w.setLeaf (s.rename ρ) k .zero) :=
    alike.setLeaf s k .zero nofun
  unfold View.unmapped
  rw [alike.leaf s hs, Entry.target_rename]
  cases (v.leaf s k).target with
  | none => exact cleared
  | some f => exact cleared.release f

theorem unlinked (alike : v.Alike ρ held w) (s : Space) (i : Slot) (t : FrameId) :
    (v.unlinked s i t).Alike ρ held (w.unlinked (s.rename ρ) i (ρ t)) :=
  (alike.release t).setLink s i none

theorem founded (alike : v.Alike ρ held w) (s : Space) :
    (v.founded s).Alike ρ held (w.founded (s.rename ρ)) :=
  (alike.grant s.root Frame.zero).opened s

theorem cleared (alike : v.Alike ρ held w) (hs : s ∈ v.live) (i : Slot) (js : List Slot) :
    (v.cleared s i js).Alike ρ held (w.cleared (s.rename ρ) i js) := by
  induction js generalizing v w with
  | nil => exact alike
  | cons j js ih => exact ih (alike.unmapped hs (i, j)) (by rwa [live_unmapped])

theorem freedSlot (alike : v.Alike ρ held w) (hs : s ∈ v.live) (i : Slot) :
    (v.freedSlot s i).Alike ρ held (w.freedSlot (s.rename ρ) i) := by
  unfold View.freedSlot
  rw [alike.link s hs]
  cases v.link s i with
  | none => exact alike
  | some t => exact (alike.cleared hs i allSlots).unlinked s i t

theorem freed (alike : v.Alike ρ held w) (hs : s ∈ v.live) (slots : List Slot) :
    (v.freed s slots).Alike ρ held (w.freed (s.rename ρ) slots) := by
  induction slots generalizing v w with
  | nil => exact alike
  | cons i slots ih => exact ih (alike.freedSlot hs i) (by rwa [live_freedSlot])

/-- An entry of a live parent is cloned. -/
theorem clonedEntry {p : Space} (alike : v.Alike ρ held w) (hp : p ∈ v.live) (s : Space)
    (k : Place) :
    (v.clonedEntry p s k).Alike ρ held (w.clonedEntry (p.rename ρ) (s.rename ρ) k) := by
  unfold View.clonedEntry
  rw [sourceLeaf_of_live hp, sourceLeaf_of_live (alike.live' hp), alike.leaf p hp,
    Entry.present_rename, if_pos hp, if_pos (alike.live' hp)]
  split
  · next present => exact alike.aliased hp present
  · exact alike

theorem clonedTable {p : Space} (alike : v.Alike ρ held w) (hp : p ∈ v.live) (s : Space)
    (i : Slot) (js : List Slot) :
    (v.clonedTable p s i js).Alike ρ held (w.clonedTable (p.rename ρ) (s.rename ρ) i js) := by
  induction js generalizing v w with
  | nil => exact alike
  | cons j js ih =>
    exact ih (alike.clonedEntry hp s (i, j)) (by rwa [live_clonedEntry])

end Alike

end View

end PagedMemory
