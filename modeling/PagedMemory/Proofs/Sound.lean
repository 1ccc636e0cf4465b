import PagedMemory.Proofs.References

/-!
# Sound views

In a sound view every count is the number of references made to the frame: those from
the cells of live spaces, and those that somebody else holds (`owed`). Directories and
page tables have one reference, and so has every frame that some entry lets a user
write to.

That a frame never serves as two tables, or as a table and a page, follows from the
counts alone (`Sound.sole`). The lemmas about single changes say how references move
between the cells and `owed`; the operations of the kernel are sequences of such
changes, in an order in which the view is sound in between.
-/

namespace PagedMemory.View

variable {v : View} {owed : FrameId → Nat}

/-- Counts equal references, tables and writable pages have one reference, and every
mapped frame lies in memory. -/
structure Sound (v : View) (owed : FrameId → Nat) : Prop where
  fits : v.Fits
  counted : ∀ f, v.tracks f = true → v.count f = v.references f + owed f
  root : ∀ s ∈ v.live, v.tracks s.root = true ∧ v.count s.root = 1
  table : ∀ s ∈ v.live, ∀ i t, v.link s i = some t → v.tracks t = true ∧ v.count t = 1
  mapped : ∀ s ∈ v.live, ∀ k, (v.leaf s k).present = true →
    (v.leaf s k).frame.index < v.size
  exclusive : ∀ s ∈ v.live, ∀ k, (v.leaf s k).present = true → (v.leaf s k).writable = true →
    v.tracks (v.leaf s k).frame = true ∧ v.count (v.leaf s k).frame = 1

theorem refers_leaf {s : Space} {k : Place} (present : (v.leaf s k).present = true) :
    v.refers s (.leaf k) = some (v.leaf s k).frame :=
  Entry.target_eq_some_iff.mpr ⟨present, rfl⟩

namespace Sound

/-- A frame with a count of one is referred to by one cell. -/
theorem sole (sound : v.Sound owed) {f : FrameId} (tracked : v.tracks f = true)
    (one : v.count f = 1) {s s' : Space} {c d : Cell} (hs : s ∈ v.live)
    (h : v.refers s c = some f) (hs' : s' ∈ v.live) (h' : v.refers s' d = some f) :
    s' = s ∧ d = c := by
  have counted := sound.counted f tracked
  exact references_eq_one (by omega) hs h hs' h'

/-- A frame that is referred to has a count, and nobody else holds a reference to a
frame whose count is used up. -/
theorem references_add_owed_pos (sound : v.Sound owed) {f : FrameId}
    (tracked : v.tracks f = true) {s : Space} {c : Cell} (hs : s ∈ v.live)
    (h : v.refers s c = some f) : 1 + owed f ≤ v.count f := by
  have counted := sound.counted f tracked
  have := references_pos hs h
  omega

theorem not_free (sound : v.Sound owed) {s : Space} {c : Cell} {f : FrameId} (hs : s ∈ v.live)
    (h : v.refers s c = some f) : ¬ v.Free f := by
  rintro ⟨tracked, zero⟩
  have := sound.references_add_owed_pos tracked hs h
  omega

theorem refers_ne_free (sound : v.Sound owed) {s : Space} {c : Cell} {f : FrameId}
    (hs : s ∈ v.live) (free : v.Free f) : v.refers s c ≠ some f :=
  fun h => sound.not_free hs h free

theorem separate (sound : v.Sound owed) : v.Separate where
  root_inside s hs := sound.fits.inside (sound.root s hs).1
  table_inside s hs i t linked := sound.fits.inside (sound.table s hs i t linked).1
  table_ne_root s hs i t linked s' hs' := by
    intro same
    obtain ⟨tracked, one⟩ := sound.table s hs i t linked
    have := sound.sole tracked one hs (c := .link i) linked hs' (d := .root)
      (congrArg some same)
    cases this.2
  table_unique s hs i t linked s' hs' i' linked' := by
    obtain ⟨tracked, one⟩ := sound.table s hs i t linked
    have := sound.sole tracked one hs (c := .link i) linked hs' (d := .link i') linked'
    exact ⟨this.1, Cell.link.inj this.2⟩

/-- A frame that an entry maps holds no table. -/
theorem not_structural_of_leaf (sound : v.Sound owed) {s : Space} {k : Place} {f : FrameId}
    (hs : s ∈ v.live) (h : v.refers s (.leaf k) = some f) : ¬ v.Structural f := by
  rintro ⟨s', hs', rfl | ⟨i, linked⟩⟩
  · obtain ⟨tracked, one⟩ := sound.root s' hs'
    have := sound.sole tracked one hs' (c := .root) rfl hs h
    cases this.2
  · obtain ⟨tracked, one⟩ := sound.table s' hs' i f linked
    have := sound.sole tracked one hs' (c := .link i) linked hs h
    cases this.2

theorem not_hidden_of_leaf (sound : v.Sound owed) {s : Space} {k : Place} {f : FrameId}
    (hs : s ∈ v.live) (h : v.refers s (.leaf k) = some f) : ¬ v.Hidden f := by
  rintro (free | structural)
  · exact sound.not_free hs h free
  · exact sound.not_structural_of_leaf hs h structural

theorem not_structural_of_free (sound : v.Sound owed) {f : FrameId} (free : v.Free f) :
    ¬ v.Structural f := by
  rintro ⟨s, hs, rfl | ⟨i, linked⟩⟩
  · exact sound.not_free hs (c := .root) rfl free
  · exact sound.not_free hs (c := .link i) linked free

/-- Tables are counted, so a frame that is not tracked holds none. -/
theorem not_hidden_of_untracked (sound : v.Sound owed) {f : FrameId}
    (untracked : ¬ v.tracks f = true) : ¬ v.Hidden f := by
  rintro (free | ⟨s, hs, rfl | ⟨i, linked⟩⟩)
  · exact untracked free.1
  · exact untracked (sound.root s hs).1
  · exact untracked (sound.table s hs i f linked).1

/-- The bytes of a frame come into sight when it is granted. -/
theorem not_hidden_grant (sound : v.Sound owed) {f : FrameId} (free : v.Free f) (b : Frame) :
    ¬ (v.grant f b).Hidden f := by
  rintro (again | structural)
  · exact Nat.one_ne_zero ((if_pos rfl).symm.trans again.2)
  · exact sound.not_structural_of_free free structural

/-! ## Single changes -/

theorem setBytes (sound : v.Sound owed) (f : FrameId) (b : Frame) :
    (v.setBytes f b).Sound owed :=
  { sound with }

theorem flushed (sound : v.Sound owed) : v.flushed.Sound owed :=
  { sound with }

/-- The new owner of a free frame holds a reference to it. -/
theorem grant (sound : v.Sound owed) {f : FrameId} (free : v.Free f) (b : Frame) :
    (v.grant f b).Sound (owed + hits (some f)) := by
  have apart {g : FrameId} (one : v.count g = 1) : g ≠ f := by
    rintro rfl
    exact Nat.one_ne_zero (one.symm.trans free.2)
  have kept {g : FrameId} (one : v.count g = 1) : (v.grant f b).count g = 1 :=
    (if_neg (apart one)).trans one
  refine { sound with counted := fun g tracked => ?_, root := ?_, table := ?_, exclusive := ?_ }
  · have counted := sound.counted g tracked
    have refs : (v.grant f b).references g = v.references g := rfl
    show (if g = f then 1 else v.count g) = _ + (owed g + hits (some f) g)
    rw [refs]
    split
    · next same =>
      subst same
      rw [hits_self]
      have := free.2
      omega
    · next other =>
      rw [hits_of_ne fun h => other (Option.some.inj h).symm]
      omega
  · exact fun s hs => ⟨(sound.root s hs).1, kept (sound.root s hs).2⟩
  · exact fun s hs i t linked =>
      ⟨(sound.table s hs i t linked).1, kept (sound.table s hs i t linked).2⟩
  · exact fun s hs k present writable =>
      ⟨(sound.exclusive s hs k present writable).1,
        kept (sound.exclusive s hs k present writable).2⟩

/-- A reference that somebody holds is given up. -/
theorem release {f : FrameId} (sound : v.Sound (owed + hits (some f))) :
    (v.release f).Sound owed := by
  by_cases tracked : v.tracks f = true
  · rw [View.release_of_tracked tracked]
    have held : owed f + 1 ≤ v.count f := by
      have counted := sound.counted f tracked
      rw [Pi.add_apply, hits_self] at counted
      omega
    -- A cell whose frame has a count of one refers to another frame than `f`.
    have kept {s : Space} {c : Cell} {g : FrameId} (hs : s ∈ v.live)
        (h : v.refers s c = some g) (ok : v.tracks g = true ∧ v.count g = 1) :
        (v.setCount f (v.count f - 1)).tracks g = true ∧
          (v.setCount f (v.count f - 1)).count g = 1 := by
      refine ⟨ok.1, (if_neg ?_).trans ok.2⟩
      rintro rfl
      have := sound.references_add_owed_pos ok.1 hs h
      rw [Pi.add_apply, hits_self] at this
      omega
    refine { sound with counted := fun g hg => ?_, root := ?_, table := ?_, exclusive := ?_ }
    · have counted := sound.counted g hg
      have refs : (v.setCount f (v.count f - 1)).references g = v.references g := rfl
      show (if g = f then v.count f - 1 else v.count g) = _ + owed g
      rw [refs]
      rw [Pi.add_apply] at counted
      split
      · next same =>
        subst same
        rw [hits_self] at counted
        omega
      · next other =>
        rw [hits_of_ne fun h => other (Option.some.inj h).symm] at counted
        omega
    · exact fun s hs => kept hs (c := .root) rfl (sound.root s hs)
    · exact fun s hs i t linked => kept hs (c := .link i) linked (sound.table s hs i t linked)
    · exact fun s hs k present writable =>
        kept hs (refers_leaf present) (sound.exclusive s hs k present writable)
  · rw [View.release_of_untracked tracked]
    refine { sound with counted := fun g hg => ?_ }
    have counted := sound.counted g hg
    rwa [Pi.add_apply, hits_of_ne, Nat.add_zero] at counted
    rintro same
    cases same
    exact tracked hg

/-- A reference is added to a frame that only read-only entries map. -/
theorem retain (sound : v.Sound owed) {f : FrameId}
    (shared : ∀ s ∈ v.live, ∀ c, v.refers s c = some f →
      ∃ k, c = .leaf k ∧ (v.leaf s k).writable = false) :
    (v.retain f).Sound (owed + hits (some f)) := by
  by_cases tracked : v.tracks f = true
  · rw [View.retain_of_tracked tracked]
    have kept {s : Space} {c : Cell} {g : FrameId} (hs : s ∈ v.live)
        (h : v.refers s c = some g) (other : ∀ k, c = .leaf k → (v.leaf s k).writable = true)
        (ok : v.tracks g = true ∧ v.count g = 1) :
        (v.setCount f (v.count f + 1)).tracks g = true ∧
          (v.setCount f (v.count f + 1)).count g = 1 := by
      refine ⟨ok.1, (if_neg ?_).trans ok.2⟩
      rintro rfl
      obtain ⟨k, rfl, protect⟩ := shared s hs c h
      rw [other k rfl] at protect
      cases protect
    refine { sound with counted := fun g hg => ?_, root := ?_, table := ?_, exclusive := ?_ }
    · have counted := sound.counted g hg
      have refs : (v.setCount f (v.count f + 1)).references g = v.references g := rfl
      show (if g = f then v.count f + 1 else v.count g) = _ + (owed g + hits (some f) g)
      rw [refs]
      split
      · next same =>
        subst same
        rw [hits_self]
        omega
      · next other =>
        rw [hits_of_ne fun h => other (Option.some.inj h).symm]
        omega
    · exact fun s hs => kept hs (c := .root) rfl (fun k h => by cases h) (sound.root s hs)
    · exact fun s hs i t linked =>
        kept hs (c := .link i) linked (fun k h => by cases h) (sound.table s hs i t linked)
    · intro s hs k present writable
      refine kept hs (refers_leaf present) ?_ (sound.exclusive s hs k present writable)
      rintro k' same
      cases same
      exact writable
  · rw [View.retain_of_untracked tracked]
    refine { sound with counted := fun g hg => ?_ }
    rw [Pi.add_apply, hits_of_ne, Nat.add_zero]
    · exact sound.counted g hg
    · rintro same
      cases same
      exact tracked hg

/-- An entry is replaced. The references that the entries make to a tracked frame and
those that are owed for it must add up to the same before and after. -/
theorem setLeaf {owed' : FrameId → Nat} {s : Space} {k : Place} {e : Entry} (hs : s ∈ v.live)
    (sound : v.Sound owed)
    (balance : ∀ f, v.tracks f = true →
      owed' f + hits e.target f = owed f + hits (v.leaf s k).target f)
    (inside : e.present = true → e.frame.index < v.size)
    (alone : e.present = true → e.writable = true →
      v.tracks e.frame = true ∧ v.count e.frame = 1) :
    (v.setLeaf s k e).Sound owed' := by
  have new : (v.setLeaf s k e).leaf s k = e := if_pos ⟨rfl, rfl⟩
  have old (s' : Space) (k' : Place) (other : ¬ (s' = s ∧ k' = k)) :
      (v.setLeaf s k e).leaf s' k' = v.leaf s' k' := if_neg other
  refine { sound with
    counted := fun f tracked => ?_, root := sound.root, table := sound.table,
    mapped := fun s' hs' k' => ?_, exclusive := fun s' hs' k' => ?_ }
  · have moved := references_update (w := v.setLeaf s k e) (c := .leaf k) hs rfl (by
      rintro s' hs' (_ | _ | k') other
      · rfl
      · rfl
      · refine congrArg Entry.target (old s' k' ?_)
        rintro ⟨rfl, rfl⟩
        exact other rfl rfl) f
    have counted := sound.counted f tracked
    have exchanged := balance f tracked
    have refers : (v.setLeaf s k e).refers s (.leaf k) = e.target := congrArg Entry.target new
    have target : v.refers s (.leaf k) = (v.leaf s k).target := rfl
    rw [refers, target] at moved
    have same : (v.setLeaf s k e).count f = v.count f := rfl
    omega
  · by_cases here : s' = s ∧ k' = k
    · obtain ⟨rfl, rfl⟩ := here
      rw [new]
      exact inside
    · rw [old s' k' here]
      exact sound.mapped s' hs' k'
  · by_cases here : s' = s ∧ k' = k
    · obtain ⟨rfl, rfl⟩ := here
      rw [new]
      exact alone
    · rw [old s' k' here]
      exact sound.exclusive s' hs' k'

/-- The reference of the new entry comes from its owner, that of the old one goes there. -/
theorem exchange {s : Space} {k : Place} {e : Entry} (hs : s ∈ v.live)
    (sound : v.Sound (owed + hits e.target))
    (inside : e.present = true → e.frame.index < v.size)
    (alone : e.present = true → e.writable = true →
      v.tracks e.frame = true ∧ v.count e.frame = 1) :
    (v.setLeaf s k e).Sound (owed + hits (v.leaf s k).target) := by
  refine setLeaf hs sound (fun f _ => ?_) inside alone
  rw [Pi.add_apply, Pi.add_apply, Nat.add_right_comm]

/-- Only the flags of an entry change. -/
theorem reflag {s : Space} {k : Place} {e : Entry} (hs : s ∈ v.live) (sound : v.Sound owed)
    (present : e.present = (v.leaf s k).present) (frame : e.frame = (v.leaf s k).frame)
    (alone : e.present = true → e.writable = true →
      v.tracks e.frame = true ∧ v.count e.frame = 1) :
    (v.setLeaf s k e).Sound owed := by
  have target : e.target = (v.leaf s k).target := by
    simp only [Entry.target, present, frame]
  refine setLeaf hs sound (fun f _ => by rw [target]) (fun shown => ?_) alone
  rw [present] at shown
  rw [frame]
  exact sound.mapped s hs k shown

/-- A frame that one read-only entry maps is mapped by read-only entries alone. -/
theorem retain_of_leaf {s : Space} {k : Place} (hs : s ∈ v.live) (sound : v.Sound owed)
    (present : (v.leaf s k).present = true) (protect : (v.leaf s k).writable = false) :
    (v.retain (v.leaf s k).frame).Sound (owed + hits (some (v.leaf s k).frame)) := by
  have here := refers_leaf present
  refine sound.retain fun s' hs' c h => ?_
  cases c with
  | root => exact absurd ⟨s', hs', .inl (Option.some.inj h)⟩ (sound.not_structural_of_leaf hs here)
  | link i => exact absurd ⟨s', hs', .inr ⟨i, h⟩⟩ (sound.not_structural_of_leaf hs here)
  | leaf k' =>
    refine ⟨k', rfl, ?_⟩
    obtain ⟨present', same⟩ := Entry.target_eq_some_iff.mp h
    by_contra writable
    rw [Bool.not_eq_false] at writable
    obtain ⟨tracked, one⟩ := sound.exclusive s' hs' k' present' writable
    rw [same] at tracked one
    obtain ⟨rfl, cell⟩ := sound.sole tracked one hs here hs' h
    cases cell
    rw [protect] at writable
    cases writable

/-- A link is replaced, with the same exchange of references. -/
theorem setLink {s : Space} {i : Slot} {target : Option FrameId} (hs : s ∈ v.live)
    (sound : v.Sound (owed + hits target))
    (alone : ∀ t, target = some t → v.tracks t = true ∧ v.count t = 1) :
    (v.setLink s i target).Sound (owed + hits (v.link s i)) := by
  have new : (v.setLink s i target).link s i = target := if_pos ⟨rfl, rfl⟩
  have old (s' : Space) (i' : Slot) (other : ¬ (s' = s ∧ i' = i)) :
      (v.setLink s i target).link s' i' = v.link s' i' := if_neg other
  refine { sound with
    counted := fun f tracked => ?_, root := sound.root, table := fun s' hs' i' => ?_,
    mapped := sound.mapped, exclusive := sound.exclusive }
  · have moved := references_update (w := v.setLink s i target) (c := .link i) hs rfl (by
      rintro s' hs' (_ | i' | _) other
      · rfl
      · refine old s' i' ?_
        rintro ⟨rfl, rfl⟩
        exact other rfl rfl
      · rfl) f
    have counted := sound.counted f tracked
    have refers : (v.setLink s i target).refers s (.link i) = target := new
    have target' : v.refers s (.link i) = v.link s i := rfl
    rw [refers, target'] at moved
    rw [Pi.add_apply] at counted ⊢
    have same : (v.setLink s i target).count f = v.count f := rfl
    omega
  · by_cases here : s' = s ∧ i' = i
    · obtain ⟨rfl, rfl⟩ := here
      rw [new]
      exact alone
    · rw [old s' i' here]
      exact sound.table s' hs' i'

/-- The owner of a frame makes it the directory of a space that maps nothing. -/
theorem opened {s : Space} (fresh : s ∉ v.live) (sound : v.Sound (owed + hits (some s.root)))
    (alone : v.tracks s.root = true ∧ v.count s.root = 1) : (v.opened s).Sound owed := by
  have leaf (s' : Space) (hs' : s' ∈ v.live) (k : Place) :
      (v.opened s).leaf s' k = v.leaf s' k := 
    if_neg fun (same : s' = s) => fresh (same ▸ hs')
  have empty (k : Place) : (v.opened s).leaf s k = .zero := if_pos rfl
  refine ⟨sound.fits, fun f tracked => ?_, ?_, ?_, ?_, ?_⟩
  · have counted := sound.counted f tracked
    have same : (v.opened s).count f = v.count f := rfl
    rw [references_opened fresh, same, counted, Pi.add_apply]
    omega
  · intro s' hs'
    rcases Finset.mem_insert.mp hs' with rfl | hs'
    · exact alone
    · exact sound.root s' hs'
  · intro s' hs' i t linked
    rcases Finset.mem_insert.mp hs' with rfl | hs'
    · have vacant : (v.opened s').link s' i = none := if_pos rfl
      rw [vacant] at linked
      cases linked
    · have same : (v.opened s).link s' i = v.link s' i :=
        if_neg fun (same : s' = s) => fresh (same ▸ hs')
      exact sound.table s' hs' i t (same.symm.trans linked)
  · intro s' hs' k
    rcases Finset.mem_insert.mp hs' with rfl | hs'
    · rw [empty]
      intro present
      cases present
    · rw [leaf s' hs']
      exact sound.mapped s' hs' k
  · intro s' hs' k
    rcases Finset.mem_insert.mp hs' with rfl | hs'
    · rw [empty]
      intro present
      cases present
    · rw [leaf s' hs']
      exact sound.exclusive s' hs' k

/-- The references made by a space that leaves are left to its owner. -/
theorem closed (sound : v.Sound owed) {s : Space} (hs : s ∈ v.live) (b : FrameId → Frame) :
    (v.closed s b).Sound (owed + v.uses s) := by
  have within {s' : Space} (hs' : s' ∈ (v.closed s b).live) : s' ∈ v.live :=
    Finset.mem_of_mem_erase hs'
  refine ⟨sound.fits, fun f tracked => ?_, fun s' hs' => sound.root s' (within hs'),
    fun s' hs' => sound.table s' (within hs'), fun s' hs' => sound.mapped s' (within hs'),
    fun s' hs' => sound.exclusive s' (within hs')⟩
  have counted := sound.counted f tracked
  rw [references_closed hs b] at counted
  have same : (v.closed s b).count f = v.count f := rfl
  rw [same, counted, Pi.add_apply]
  omega

end Sound

end PagedMemory.View

namespace PagedMemory.Machine

namespace Shows

variable {m : Machine} {v : View} {owed : FrameId → Nat}

theorem refers (shows : m.Shows v) {s : Space} (hs : s ∈ v.live) (c : Cell) :
    (m.view v.live).refers s c = v.refers s c := by
  cases c with
  | root => rfl
  | link i => exact shows.link s hs i
  | leaf k => exact congrArg Entry.target (shows.leaf s hs k)

/-- A machine that shows one sound view is sound in itself. -/
theorem sound_view (shows : m.Shows v) (sound : v.Sound owed) : (m.view v.live).Sound owed := by
  have tracks (f : FrameId) : (m.view v.live).tracks f = v.tracks f := by
    simp only [View.tracks, Machine.view, shows.layout]
  have one {f : FrameId} (h : v.tracks f = true ∧ v.count f = 1) :
      (m.view v.live).tracks f = true ∧ (m.view v.live).count f = 1 :=
    ⟨(tracks f).trans h.1, (shows.count f h.1).trans h.2⟩
  have leaf {s : Space} (hs : s ∈ v.live) (k : Place) : (m.view v.live).leaf s k = v.leaf s k :=
    shows.leaf s hs k
  refine ⟨?_, fun f tracked => ?_, fun s hs => one (sound.root s hs), fun s hs i t linked => ?_,
    fun s hs k present => ?_, fun s hs k present writable => ?_⟩
  · have valid := sound.fits.1
    rw [← shows.layout] at valid
    refine ⟨valid, ?_⟩
    show m.ram.size = m.pool.layout.high.value / 4096
    rw [shows.size, shows.layout, sound.fits.2]
  · rw [tracks] at tracked
    rw [View.references_congr (v := v) (w := m.view v.live) rfl fun s hs c => shows.refers hs c,
      ← sound.counted f tracked]
    exact shows.count f tracked
  · exact one (sound.table s hs i t ((shows.link s hs i).symm.trans linked))
  · rw [leaf hs] at present ⊢
    show _ < m.ram.size
    rw [shows.size]
    exact sound.mapped s hs k present
  · rw [leaf hs] at present writable ⊢
    exact one (sound.exclusive s hs k present writable)

end Shows

/-- In a sound state the directories and page tables of live spaces lie in memory. -/
theorem inside_of_sound {m : Machine} {live : Finset Space} {owed : FrameId → Nat} {s : Space}
    (sound : (m.view live).Sound owed) (hs : s ∈ live) : s.Inside m.ram :=
  (m.shows_view live).space_inside sound.separate hs

end PagedMemory.Machine
