import Mathlib.Order.Interval.Finset.Nat
import PagedMemory.Proofs.Pristine
import PagedMemory.Proofs.Start

/-!
# Where one frame can be mapped

The memory of a process starts at a base. All entries that map one tracked frame lie at the
same distance from the bases of their spaces (`View.Level`): a frame that was free is mapped
once, and after that a page only comes to be mapped a second time by sharing, which
`Change.Even` admits between two places at the same distance.

Two pages of one space are never at the same distance, so a space refers to a frame at most
once (`Level.uses_le_one`). Every space has a directory of its own, which no other space and
nobody else refers to, and this is what bounds the number of spaces by that of the frames
(`Sound.card_live_le`).
-/

namespace PagedMemory

/-- Where the memory of each space starts. -/
abbrev Bases := Space → Nat

/-- A page is shared between two places at the same distance from the bases of their spaces.
No page comes into anybody's hands. -/
def Change.Even (base : Bases) : Change → Prop
  | .share s k s' k' _ => k.address.value + base s' = k'.address.value + base s
  | .hold _ | .yield _ | .install _ _ _ => False
  | _ => True

/-- The change makes an entry map a frame that no entry mapped before. -/
def Change.Places (s : Space) (k : Place) : Change → Prop
  | .fill s' k' _ | .copy s' k' | .install s' k' _ => s' = s ∧ k' = k
  | _ => False

theorem Place.address_injective : Function.Injective Place.address := by
  intro k k' same
  rw [← Place.splitSlots_address k, same, Place.splitSlots_address]

namespace View

variable {v v' : View} {o o' : Owed} {s s' : Space} {k k' : Place} {f : FrameId}

/-! ## How a page comes to be mapped -/

/-- An entry that maps a frame after a change has mapped it before, maps what another one
does, or is the first one. -/
inductive Maps (v : View) (c : Change) (s : Space) (k : Place) (f : FrameId) : Prop
  | before (hs : s ∈ v.live) (maps : (v.leaf s k).target = some f)
  | shared {s' : Space} {k' : Place} {e : Entry} (named : c = .share s' k' s k e)
      (hs : s' ∈ v.live) (maps : (v.leaf s' k').target = some f)
  | first (placed : c.Places s k)
      (unused : ∀ s' ∈ v.live, ∀ k', (v.leaf s' k').target ≠ some f)

namespace Maps

variable {c : Change} {s₁ : Space} {k₁ : Place} {e : Entry}

/-- The new entry maps what the old one did. -/
private theorem reflagged (hs : s ∈ v.live) (target : e.target = (v.leaf s₁ k₁).target)
    (maps : ((v.setLeaf s₁ k₁ e).leaf s k).target = some f) : v.Maps c s k f := by
  refine .before hs ?_
  by_cases here : s = s₁ ∧ k = k₁
  · obtain ⟨rfl, rfl⟩ := here
    rwa [leaf_setLeaf_self, target] at maps
  · rwa [leaf_setLeaf_of_ne e here] at maps

/-- The new entry maps nothing that is tracked. -/
private theorem dropped (hs : s ∈ v.live) (other : e.target ≠ some f)
    (maps : ((v.setLeaf s₁ k₁ e).leaf s k).target = some f) : v.Maps c s k f := by
  refine .before hs ?_
  by_cases here : s = s₁ ∧ k = k₁
  · obtain ⟨rfl, rfl⟩ := here
    rw [leaf_setLeaf_self] at maps
    exact absurd maps other
  · rwa [leaf_setLeaf_of_ne e here] at maps

/-- The new entry maps a frame that was not mapped. -/
private theorem placed {g : FrameId} {flags : Entry} (hs : s ∈ v.live) (place : c.Places s₁ k₁)
    (unused : ∀ s' ∈ v.live, ∀ k', (v.leaf s' k').target ≠ some g)
    (maps : ((v.setLeaf s₁ k₁ (.make g flags)).leaf s k).target = some f) : v.Maps c s k f := by
  by_cases here : s = s₁ ∧ k = k₁
  · obtain ⟨rfl, rfl⟩ := here
    rw [leaf_setLeaf_self] at maps
    cases maps
    exact .first place unused
  · rw [leaf_setLeaf_of_ne _ here] at maps
    exact .before hs maps

private theorem aliased (hs : s ∈ v.live) (hs₁ : s₁ ∈ v.live)
    (maps : ((v.aliased s₁ k₁ s' k').leaf s k).target = some f) :
    v.Maps (.share s₁ k₁ s' k' e) s k f := by
  by_cases target : s = s' ∧ k = k'
  · obtain ⟨rfl, rfl⟩ := target
    rw [leaf_aliased_self] at maps
    exact .shared rfl hs₁ maps
  · unfold View.aliased at maps
    split at maps
    · change (((v.setLeaf s₁ k₁ _).setLeaf s' k' _).leaf s k).target = some f at maps
      rw [leaf_setLeaf_of_ne _ target] at maps
      exact reflagged (e := (v.leaf s₁ k₁).writeProtected) hs rfl maps
    · rw [leaf_setLeaf_of_ne _ target] at maps
      exact .before hs maps

end Maps

theorem Act.maps {c : Change} (act : Act v o c v' o') (sound : v.Sound o)
    (tracked : v.tracks f = true) (hs : s ∈ v'.live) (maps : (v'.leaf s k).target = some f) :
    v.Maps c s k f := by
  have unmapped {g : FrameId} (free : v.Free g) (s' : Space) (hs' : s' ∈ v.live) (k' : Place) :
      (v.leaf s' k').target ≠ some g := sound.refers_ne_free (c := .leaf k') hs' free
  cases act with
  | fill _ absent free => exact Maps.placed (v := v) hs ⟨rfl, rfl⟩ (unmapped free) maps
  | copy _ present free => exact Maps.placed (v := v) hs ⟨rfl, rfl⟩ (unmapped free) maps
  | @share s₁ s₂ k₁ k₂ hs₁ =>
    rw [live_aliased] at hs
    exact Maps.aliased hs hs₁ maps
  | expose _ _ _ untracked =>
    refine Maps.dropped hs (fun same => untracked ?_) maps
    obtain ⟨-, rfl⟩ := Entry.target_eq_some_iff.mp same
    exact tracked
  | @permit s₁ k₁ => exact Maps.reflagged (e := (v.leaf s₁ k₁).madeWritable) hs rfl maps
  | @touch s₁ k₁ write => exact Maps.reflagged (e := (v.leaf s₁ k₁).touched write) hs rfl maps
  | @unmap s₁ k₁ =>
    rw [live_unmapped] at hs
    rw [leaf_unmapped] at maps
    exact Maps.dropped hs (fun same => by cases same) maps
  | @create s₁ free =>
    by_cases new : s = s₁
    · rw [show (v.founded s₁).leaf s k = .zero from if_pos new] at maps
      cases maps
    · rw [show (v.founded s₁).leaf s k = v.leaf s k from if_neg new] at maps
      exact .before ((Finset.mem_insert.mp hs).resolve_left new) maps
  | destroy => exact .before (Finset.mem_of_mem_erase hs) maps
  | @install s₁ k₁ g _ _ tracked' one held =>
    have alone (s' : Space) (hs' : s' ∈ v.live) (k' : Place) : (v.leaf s' k').target ≠ some g := by
      intro refers
      have more := (held ▸ sound).references_add_owed_pos tracked' hs' (c := .leaf k') refers
      rw [Pi.add_apply, hits_self] at more
      omega
    rw [live_remap] at hs
    rw [leaf_remap] at maps
    exact Maps.placed hs ⟨rfl, rfl⟩ alone maps
  | _ => exact .before hs maps

/-! ## Entries at the same distance -/

/-- The entries that map a tracked frame are at the same distance from their bases. -/
def Level (base : Bases) (v : View) : Prop :=
  ∀ f, v.tracks f = true → ∀ s ∈ v.live, ∀ s' ∈ v.live, ∀ k k', (v.leaf s k).target = some f →
    (v.leaf s' k').target = some f → k.address.value + base s' = k'.address.value + base s

theorem level_initial {base : Bases} {config : Config} {layout : Layout} :
    Level base (initial config layout) :=
  fun _ _ _ hs => absurd hs (Finset.notMem_empty _)

namespace Level

variable {base base' : Bases}

/-- The base of a space may change while the space maps nothing. -/
theorem rebase (level : v.Level base)
    (same : ∀ s ∈ v.live, base' s = base s ∨ ∀ k, (v.leaf s k).present = false) :
    v.Level base' := by
  have kept {s : Space} {k : Place} {f : FrameId} (hs : s ∈ v.live)
      (maps : (v.leaf s k).target = some f) : base' s = base s := by
    refine (same s hs).resolve_right fun blank => ?_
    have present := (Entry.target_eq_some_iff.mp maps).1
    rw [blank k] at present
    cases present
  intro f tracked s hs s' hs' k k' maps maps'
  rw [kept hs maps, kept hs' maps']
  exact level f tracked s hs s' hs' k k' maps maps'

theorem act {c : Change} (level : v.Level base) (act : Act v o c v' o') (even : c.Even base)
    (sound : v.Sound o) : v'.Level base := by
  intro f tracked s hs s' hs' k k' maps maps'
  have before : v.tracks f = true := by rwa [View.tracks, ← act.setting.1]
  have apart (s s' : Space) (hs : s ∈ v.live) (hs' : s' ∈ v.live) (k k' : Place) :=
    level f before s hs s' hs' k k'
  -- What is shared is as far from its base as the page that it is shared with.
  have shared {s₁ s₂ : Space} {k₁ k₂ : Place} {e : Entry} (named : c = .share s₁ k₁ s₂ k₂ e) :
      k₁.address.value + base s₂ = k₂.address.value + base s₁ := by
    subst named
    exact even
  cases act.maps sound before hs maps with
  | before hs maps =>
    cases act.maps sound before hs' maps' with
    | before hs' maps' => exact apart s s' hs hs' k k' maps maps'
    | @shared s₁ k₁ e named hs₁ maps₁ =>
      have := apart s s₁ hs hs₁ k k₁ maps maps₁
      have := shared named
      omega
    | first _ unused => exact absurd maps (unused s hs k)
  | @shared s₁ k₁ e named hs₁ maps₁ =>
    cases act.maps sound before hs' maps' with
    | before hs' maps' =>
      have := apart s₁ s' hs₁ hs' k₁ k' maps₁ maps'
      have := shared named
      omega
    | @shared s₂ k₂ e' named' =>
      rw [named] at named'
      cases named'
      rfl
    | first _ unused => exact absurd maps₁ (unused s₁ hs₁ k₁)
  | first placed unused =>
    cases act.maps sound before hs' maps' with
    | before hs' maps' => exact absurd maps' (unused s' hs' k')
    | shared _ hs₂ maps₂ => exact absurd maps₂ (unused _ hs₂ _)
    | first placed' =>
      have same : s = s' ∧ k = k' := by
        cases c <;> first
          | exact placed.elim
          | exact ⟨placed.1.symm.trans placed'.1, placed.2.symm.trans placed'.2⟩
      rw [same.1, same.2]

theorem acts {allowed : Change → Prop} (level : v.Level base) (acts : Acts allowed v o v' o')
    (even : ∀ c, allowed c → c.Even base) (sound : v.Sound o) : v'.Level base :=
  (acts.preserves (P := fun v o => v.Sound o ∧ v.Level base)
    (fun c _ _ _ _ ok act h => ⟨act.sound h.1, h.2.act act (even c ok) h.1⟩) ⟨sound, level⟩).2

/-! ## Counting -/

/-- A space maps a frame in one place. -/
theorem place_unique (level : v.Level base) (tracked : v.tracks f = true) (hs : s ∈ v.live)
    (maps : (v.leaf s k).target = some f) (maps' : (v.leaf s k').target = some f) : k = k' :=
  Place.address_injective (Address.ext
    (Nat.add_right_cancel (level f tracked s hs s hs k k' maps maps')))

/-- A space refers to a frame from one cell. -/
theorem cell_unique (level : v.Level base) (sound : v.Sound o) (tracked : v.tracks f = true)
    (hs : s ∈ v.live) {c d : Cell} (refers : v.refers s c = some f)
    (refers' : v.refers s d = some f) : c = d := by
  have alone {c d : Cell} (one : v.count f = 1) (refers : v.refers s c = some f)
      (refers' : v.refers s d = some f) : d = c := (sound.sole tracked one hs refers hs refers').2
  -- A directory or page table has one reference, whatever the other cell is.
  have table {c : Cell} (refers : v.refers s c = some f) :
      v.count f = 1 ∨ ∃ k, c = .leaf k ∧ (v.leaf s k).target = some f := by
    cases c with
    | root =>
      cases refers
      exact .inl (sound.root s hs).2
    | link i => exact .inl (sound.table s hs i f refers).2
    | leaf k => exact .inr ⟨k, rfl, refers⟩
  rcases table refers with one | ⟨k, rfl, maps⟩
  · exact (alone one refers refers').symm
  · rcases table refers' with one | ⟨k', rfl, maps'⟩
    · exact alone one refers' refers
    · exact congrArg Cell.leaf (level.place_unique tracked hs maps maps')

theorem uses_le_one (level : v.Level base) (sound : v.Sound o) (tracked : v.tracks f = true)
    (hs : s ∈ v.live) : v.uses s f ≤ 1 := by
  have cells : v.uses s f = (Finset.univ.filter fun c => v.refers s c = some f).card :=
    (Finset.card_filter _ _).symm
  rw [cells, Finset.card_le_one]
  intro c hc d hd
  exact level.cell_unique sound tracked hs (Finset.mem_filter.mp hc).2 (Finset.mem_filter.mp hd).2

theorem references_le_card (level : v.Level base) (sound : v.Sound o)
    (tracked : v.tracks f = true) : v.references f ≤ v.live.card := by
  have each := Finset.sum_le_card_nsmul v.live (fun s => v.uses s f) 1
    fun s hs => level.uses_le_one sound tracked hs
  rwa [Nat.nsmul_eq_mul, Nat.mul_one] at each

end Level

/-! ## Frames enough -/

/-- Different spaces have different directories, which nobody else refers to. So there are no
more spaces, and frames that are owed to somebody, than frames that can be handed out. -/
theorem Sound.card_live_le {lost : Finset FrameId} (sound : v.Sound o)
    (reserved : ∀ f, v.layout.reserve f ≤ o f)
    (owed : ∀ f ∈ lost, v.tracks f = true ∧ v.layout.reserve f = 0 ∧ 0 < o f) :
    v.live.card + lost.card ≤ (v.layout.high.value - v.layout.mainStart.value) / 4096 := by
  have aligned := sound.fits.1.aligned
  simp only [Address.isAligned, PageSize.bytes, beq_iff_eq] at aligned
  have root (s : Space) (hs : s ∈ v.live) : v.tracks s.root = true ∧ o s.root = 0 := by
    obtain ⟨tracked, one⟩ := sound.root s hs
    have more := sound.references_add_owed_pos tracked hs (c := .root) rfl
    exact ⟨tracked, by omega⟩
  have apart : Disjoint (v.live.image Space.root) lost := by
    rw [Finset.disjoint_left]
    intro f hf hlost
    obtain ⟨s, hs, rfl⟩ := Finset.mem_image.mp hf
    exact (owed s.root hlost).2.2.ne' (root s hs).2
  have roots : (v.live.image Space.root).card = v.live.card := by
    refine Finset.card_image_of_injective _ fun s s' same => ?_
    cases s
    cases s'
    exact congrArg Space.mk same
  have inside (f : FrameId) (tracked : v.tracks f = true) (free : v.layout.reserve f = 0) :
      f.index ∈ Finset.Ico (v.layout.mainStart.value / 4096) (v.layout.high.value / 4096) := by
    have bounds := tracks_iff.mp tracked
    have past : v.layout.mainStart.value ≤ f.index * 4096 := by
      by_contra below
      have held : v.layout.reserve f = reservedCount := by
        refine if_pos ?_
        rw [Page.value_base]
        exact ⟨bounds.1, Nat.not_le.mp below⟩
      rw [held] at free
      cases free
    rw [Finset.mem_Ico]
    omega
  have frames : (v.live.image Space.root ∪ lost).card ≤
      (Finset.Ico (v.layout.mainStart.value / 4096) (v.layout.high.value / 4096)).card := by
    refine Finset.card_le_card_of_injOn Page.index ?_ fun f _ g _ => Page.ext
    intro f hf
    rcases Finset.mem_union.mp hf with hf | hf
    · obtain ⟨s, hs, rfl⟩ := Finset.mem_image.mp hf
      obtain ⟨tracked, none⟩ := root s hs
      exact inside s.root tracked (Nat.le_zero.mp (none ▸ reserved s.root))
    · exact inside f (owed f hf).1 (owed f hf).2.1
  rw [Nat.card_Ico, Finset.card_union_of_disjoint apart, roots] at frames
  omega

end View

end PagedMemory
