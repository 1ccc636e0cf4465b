import PagedMemory.Proofs.View

/-!
# What the primitive operations do to a view

Each primitive operation of the machine is described once by the view it ends in. A
store into a page table changes one entry of one space, because no frame serves as two
tables; a store into a data frame changes no entry at all.

Apart from breaches that the preconditions rule out, the only reasons to stop are
counters that run out.
-/

namespace PagedMemory

/-- The kernel stops because a counter has no room left. -/
inductive Exhausts : Halt → Prop
  | flushes : Exhausts .overflow
  | references (f : FrameId) : Exhausts (.countOverflow f)

namespace Machine.Shows

variable {m : Machine} {v : View}

theorem manages (shows : m.Shows v) (f : FrameId) : m.pool.manages f = v.tracks f := by
  simp only [FramePool.manages, View.tracks, shows.layout]

theorem refCount?_eq_ite (shows : m.Shows v) (f : FrameId) :
    m.pool.refCount? f = if v.tracks f = true then some (v.count f) else none := by
  rw [FramePool.refCount?, shows.manages]
  split
  · next tracked => rw [shows.count f tracked]
  · rfl

theorem refCount?_eq_some_iff (shows : m.Shows v) {f : FrameId} {n : Nat} :
    m.pool.refCount? f = some n ↔ v.tracks f = true ∧ v.count f = n := by
  rw [shows.refCount?_eq_ite, Option.ite_none_right_eq_some, Option.some.injEq]

/-- What has been remarked is not part of a view. -/
theorem remarked (shows : m.Shows v) (events : Array Event) :
    Machine.Shows { m with events := events } v :=
  { shows with }

theorem flush (shows : m.Shows v) :
    Ends flush m Exhausts fun _ m' => m'.Shows v.flushed := by
  apply Ends.flush
  · intro counted
    exact { shows with flushes := congrArg (· + 1) shows.flushes }
  · intro overrun
    exact .flushes

theorem remark (shows : m.Shows v) (e : Event) :
    Ends (remark e) m Exhausts fun _ m' => m'.Shows v :=
  Ends.intro rfl (shows.remarked _)

theorem recordRead (shows : m.Shows v) (device : DeviceId) (block : BlockNumber) :
    Ends (recordRead device block) m Exhausts fun _ m' =>
      m'.Shows { v with reads := v.reads.push (device, block) } :=
  Ends.intro rfl { shows with reads := congrArg (Array.push · _) shows.reads }

theorem terminate (shows : m.Shows v) (pid : Pid) (cause : MemoryError) :
    Ends (terminate pid cause) m Exhausts fun _ m' =>
      m'.Shows { v with terminations := v.terminations.push (pid, cause) } :=
  Ends.intro rfl { shows with terminations := congrArg (Array.push · _) shows.terminations }

theorem currentConfig (shows : m.Shows v) :
    Ends currentConfig m Exhausts fun config m' => config = v.config ∧ m'.Shows v :=
  Ends.inspect rfl ⟨shows.config, shows⟩

theorem isManaged (shows : m.Shows v) (f : FrameId) :
    Ends (PagedMemory.manages f) m Exhausts fun tracked m' => tracked = v.tracks f ∧ m'.Shows v :=
  Ends.inspect rfl ⟨shows.manages f, shows⟩

theorem refCount? (shows : m.Shows v) (f : FrameId) :
    Ends (PagedMemory.refCount? f) m Exhausts fun n m' =>
      n = (if v.tracks f then some (v.count f) else none) ∧ m'.Shows v :=
  Ends.inspect rfl ⟨shows.refCount?_eq_ite f, shows⟩

/-! ## Counts -/

private theorem count_setCount (shows : m.Shows v) {f g : FrameId} (n : Nat)
    (hf : v.tracks f = true) (hg : v.tracks g = true) :
    (m.pool.setCount f n).count g = (v.setCount f n).count g := by
  rw [← shows.manages] at hf
  simp only [View.setCount]
  split
  · next same =>
    subst same
    exact FramePool.count_setCount_self n hf
  · next other =>
    rw [FramePool.count_setCount_of_ne n hf ((shows.manages g).trans hg) other,
      shows.count g hg]

/-- A free frame is handed out if there is one, with whatever it holds. -/
theorem allocFrame? (shows : m.Shows v) :
    Ends PagedMemory.allocFrame? m Exhausts fun given m' =>
      match given with
      | some f => v.Free f ∧ ∃ b, m'.Shows (v.grant f b)
      | none => (∀ f, ¬ v.Free f) ∧ m'.Shows v := by
  cases given : m.pool.alloc with
  | none =>
    refine Ends.intro (a := none) (by simp only [PagedMemory.allocFrame?, given]) ⟨?_, shows⟩
    rintro f ⟨tracked, free⟩
    refine FramePool.alloc_eq_none_iff.mp given f ((shows.manages f).trans tracked) ?_
    exact (shows.count f tracked).trans free
  | some pair =>
    obtain ⟨f, pool⟩ := pair
    obtain ⟨managed, free, rfl⟩ := FramePool.alloc_eq_some given
    have tracked : v.tracks f = true := (shows.manages f).symm.trans managed
    refine Ends.intro (a := some f) (by simp only [PagedMemory.allocFrame?, given]; rfl)
      ⟨⟨tracked, (shows.count f tracked).symm.trans free⟩, m.ram.bytes f, ?_⟩
    refine { shows with
      count := fun g hg => shows.count_setCount 1 tracked hg
      bytes := fun g shown => ?_ }
    show m.ram.bytes g = if g = f then _ else _
    split
    · next same => rw [same]
    · next other =>
      refine shows.bytes g fun hidden => shown ?_
      rcases hidden with ⟨hg, zero⟩ | structural
      · exact .inl ⟨hg, (if_neg other).trans zero⟩
      · exact .inr structural

theorem allocFrame (shows : m.Shows v) :
    Tries PagedMemory.allocFrame m Exhausts
      (fun f m' => v.Free f ∧ ∃ b, m'.Shows (v.grant f b))
      (fun cause m' => cause = .outOfMemory ∧ (∀ f, ¬ v.Free f) ∧ m'.Shows v) := by
  refine Tries.lift_bind shows.allocFrame? ?_
  rintro (_ | f) m' post
  · exact Tries.fail ⟨rfl, post⟩
  · exact Tries.pure post

/-- The count of a frame in use changes; nothing comes into sight by it. -/
private theorem recount (shows : m.Shows v) {f : FrameId} (n : Nat)
    (tracked : v.tracks f = true) (used : ¬ v.Free f) :
    Machine.Shows { m with pool := m.pool.setCount f n } (v.setCount f n) := by
  refine { shows with
    count := fun g hg => shows.count_setCount n tracked hg
    bytes := fun g shown => shows.bytes g fun hidden => shown ?_ }
  rcases hidden with free | structural
  · refine .inl ⟨free.1, (if_neg ?_).trans free.2⟩
    rintro rfl
    exact used free
  · exact .inr structural

private theorem not_below (shows : m.Shows v) {f : FrameId} (tracked : v.tracks f = true) :
    ¬ f.base.value < m.pool.layout.low.value := by
  rw [shows.layout]
  have := (View.tracks_iff.mp tracked).1
  simp only [Page.value_base, PageSize.bytes]
  omega

private theorem not_above (shows : m.Shows v) (fits : v.Fits) {f : FrameId}
    (inside : f.index < v.size) : ¬ m.pool.layout.high.value ≤ f.base.value := by
  rw [shows.layout]
  have := fits.base_lt inside
  omega

private theorem below (shows : m.Shows v) (fits : v.Fits) {f : FrameId}
    (inside : f.index < v.size) (untracked : ¬ v.tracks f = true) :
    f.base.value < m.pool.layout.low.value := by
  rw [shows.layout]
  exact fits.base_lt_low inside untracked

private theorem count_ne_zero (shows : m.Shows v) {f : FrameId} (tracked : v.tracks f = true)
    (used : ¬ v.Free f) : m.pool.count f ≠ 0 := by
  rw [shows.count f tracked]
  exact fun zero => used ⟨tracked, zero⟩

theorem retain (shows : m.Shows v) (fits : v.Fits) {f : FrameId} (inside : f.index < v.size)
    (used : ¬ v.Free f) :
    Ends (PagedMemory.retain f) m Exhausts fun _ m' => m'.Shows (v.retain f) := by
  by_cases tracked : v.tracks f = true
  · by_cases full : 65535 ≤ m.pool.count f
    · refine Ends.of_stop ?_ (.references f)
      simp only [PagedMemory.retain, FramePool.retain, if_neg (shows.not_below tracked),
        if_neg (shows.not_above fits inside), if_neg (shows.count_ne_zero tracked used),
        if_pos full]
    · rw [View.retain_of_tracked tracked, ← shows.count f tracked]
      refine Ends.intro (a := ()) ?_ (shows.recount (m.pool.count f + 1) tracked used)
      simp only [PagedMemory.retain, FramePool.retain, if_neg (shows.not_below tracked),
        if_neg (shows.not_above fits inside), if_neg (shows.count_ne_zero tracked used),
        if_neg full]
  · rw [View.retain_of_untracked tracked]
    refine Ends.intro (a := ()) ?_ shows
    simp only [PagedMemory.retain, FramePool.retain, if_pos (shows.below fits inside tracked)]

theorem release (shows : m.Shows v) (fits : v.Fits) {f : FrameId} (inside : f.index < v.size)
    (used : ¬ v.Free f) :
    Ends (PagedMemory.release f) m Exhausts fun _ m' => m'.Shows (v.release f) := by
  let events := if m.pool.refCount? f == some 1 then m.events.push (.frameFreed f) else m.events
  by_cases tracked : v.tracks f = true
  · rw [View.release_of_tracked tracked, ← shows.count f tracked]
    have after := shows.recount (m.pool.count f - 1) tracked used
    refine Ends.intro (a := ()) ?_ (after.remarked events)
    simp only [PagedMemory.release, FramePool.release, if_neg (shows.not_below tracked),
      if_neg (shows.not_above fits inside), if_neg (shows.count_ne_zero tracked used)]
    rfl
  · rw [View.release_of_untracked tracked]
    refine Ends.intro (a := ()) ?_ (shows.remarked events)
    simp only [PagedMemory.release, FramePool.release, if_pos (shows.below fits inside tracked)]
    rfl

/-! ## Memory -/

theorem inside (shows : m.Shows v) {f : FrameId} (h : f.index < v.size) :
    f.index < m.ram.size := by
  rwa [shows.size]

theorem readFrame (shows : m.Shows v) {f : FrameId} (inside : f.index < v.size)
    (shown : ¬ v.Hidden f) :
    Ends (PagedMemory.readFrame f) m Exhausts fun b m' => b = v.bytes f ∧ m'.Shows v :=
  Ends.inspect (Ram.frame_eq_bytes (shows.inside inside)) ⟨shows.bytes f shown, shows⟩

/-- A store into a frame without tables changes its bytes and nothing else. -/
theorem modifyFrame (shows : m.Shows v) {f : FrameId} (change : Frame → Frame)
    (inside : f.index < v.size) (shown : ¬ v.Hidden f) :
    Ends (PagedMemory.modifyFrame f change) m Exhausts fun _ m' =>
      m'.Shows (v.setBytes f (change (v.bytes f))) := by
  have data : ¬ v.Structural f := fun structural => shown (.inr structural)
  have here := shows.inside inside
  have root (s : Space) (hs : s ∈ v.live) :
      (m.ram.modify f change).bytes s.root = m.ram.bytes s.root :=
    Ram.bytes_modify_of_ne _ (View.ne_root_of_data data hs)
  refine Ends.intro (modifyFrame_eq_ok_iff.mpr ⟨here, rfl⟩) { shows with
    size := (m.ram.size_modify f change).trans shows.size
    link := fun s hs i => (Space.link_congr (root s hs) i).trans (shows.link s hs i)
    leaf := fun s hs k => ?_
    bytes := fun g visible => ?_ }
  · refine (Space.leaf_congr (root s hs) fun t linked => ?_).trans (shows.leaf s hs k)
    rw [shows.link s hs] at linked
    exact Ram.bytes_modify_of_ne _ (View.ne_table_of_data data hs linked)
  · show (m.ram.modify f change).bytes g = if g = f then _ else _
    split
    · next same =>
      rw [same, Ram.bytes_modify_self _ here, shows.bytes f shown]
    · next other =>
      rw [Ram.bytes_modify_of_ne _ other]
      exact shows.bytes g visible

theorem zeroFrame (shows : m.Shows v) {f : FrameId} (inside : f.index < v.size)
    (shown : ¬ v.Hidden f) :
    Ends (PagedMemory.zeroFrame f) m Exhausts fun _ m' =>
      m'.Shows (v.setBytes f Frame.zero) :=
  shows.modifyFrame _ inside shown

theorem copyFrame (shows : m.Shows v) {source target : FrameId} (apart : source ≠ target)
    (hs : source.index < v.size) (ht : target.index < v.size) (seen : ¬ v.Hidden source)
    (shown : ¬ v.Hidden target) :
    Ends (PagedMemory.copyFrame source target) m Exhausts fun _ m' =>
      m'.Shows (v.setBytes target (v.bytes source)) := by
  have store := shows.modifyFrame (fun _ => v.bytes source) ht shown
  have run : PagedMemory.copyFrame source target m =
      PagedMemory.modifyFrame target (fun _ => v.bytes source) m := by
    simp only [PagedMemory.copyFrame, if_neg apart, Ram.frame?_eq_bytes (shows.inside hs),
      PagedMemory.modifyFrame, if_pos (shows.inside ht), shows.bytes source seen]
  simpa only [Ends, run] using store

/-! ## Tables -/

theorem tableAt (shows : m.Shows v) (sep : v.Separate) {s : Space} (hs : s ∈ v.live)
    (i : Slot) :
    Ends (inspect fun m => s.tableAt m.ram i) m Exhausts fun found m' =>
      found = v.link s i ∧ m'.Shows v :=
  Ends.inspect (Space.tableAt_eq (shows.inside (sep.root_inside s hs)) i)
    ⟨shows.link s hs i, shows⟩

theorem findTable (shows : m.Shows v) (sep : v.Separate) {s : Space} (hs : s ∈ v.live)
    (va : VirtualAddress) :
    Ends (s.findTable va) m Exhausts fun found m' =>
      found = v.link s va.directorySlot ∧ m'.Shows v :=
  shows.tableAt sep hs va.directorySlot

/-- The entry of a page is found where a page table covers it. -/
theorem entry_eq (shows : m.Shows v) (sep : v.Separate) {s : Space} (hs : s ∈ v.live)
    (va : VirtualAddress) : s.entry m.ram va =
      .ok ((v.link s va.directorySlot).map fun _ => v.leaf s va.splitSlots) := by
  rw [← shows.link s hs, ← shows.leaf s hs]
  exact Space.entry_eq (shows.space_inside sep hs)

theorem findEntry (shows : m.Shows v) (sep : v.Separate) {s : Space} (hs : s ∈ v.live)
    (va : VirtualAddress) :
    Ends (s.findEntry va) m Exhausts fun found m' =>
      found = (v.link s va.directorySlot).map (fun _ => v.leaf s va.splitSlots) ∧
        m'.Shows v :=
  Ends.inspect (shows.entry_eq sep hs va) ⟨rfl, shows⟩

theorem readLeaf (shows : m.Shows v) (sep : v.Separate) {s : Space} (hs : s ∈ v.live)
    {i : Slot} {t : FrameId} (linked : v.link s i = some t) (j : Slot) :
    Ends (readEntry t j) m Exhausts fun e m' => e = v.leaf s (i, j) ∧ m'.Shows v := by
  have here := shows.inside (sep.table_inside s hs i t linked)
  refine Ends.inspect (Ram.entry_eq_bytes here j) ⟨?_, shows⟩
  rw [← shows.leaf s hs, Space.leaf_of_link ((shows.link s hs i).trans linked)]

theorem readLink (shows : m.Shows v) (sep : v.Separate) {s : Space} (hs : s ∈ v.live)
    (i : Slot) :
    Ends (readEntry s.root i) m Exhausts fun e m' => e.target = v.link s i ∧ m'.Shows v :=
  Ends.inspect (Ram.entry_eq_bytes (shows.inside (sep.root_inside s hs)) i)
    ⟨shows.link s hs i, shows⟩

/-- A store into a page table changes one entry of one space. -/
theorem writeLeaf (shows : m.Shows v) (sep : v.Separate) {s : Space} (hs : s ∈ v.live)
    {i : Slot} {t : FrameId} (linked : v.link s i = some t) (j : Slot) (e : Entry) :
    Ends (writeEntry t j e) m Exhausts fun _ m' => m'.Shows (v.setLeaf s (i, j) e) := by
  have here := shows.inside (sep.table_inside s hs i t linked)
  have root (s' : Space) (hs' : s' ∈ v.live) :
      (m.ram.modify t fun b => b.setEntry j e).bytes s'.root = m.ram.bytes s'.root :=
    Ram.bytes_modify_of_ne _ (sep.table_ne_root s hs i t linked s' hs')
  refine Ends.intro (modifyFrame_eq_ok_iff.mpr ⟨here, rfl⟩) { shows with
    size := (m.ram.size_modify _ _).trans shows.size
    link := fun s' hs' i' => (Space.link_congr (root s' hs') i').trans (shows.link s' hs' i')
    leaf := fun s' hs' k' => ?_
    bytes := fun g visible => ?_ }
  · show _ = if s' = s ∧ k' = (i, j) then e else v.leaf s' k'
    by_cases table : s' = s ∧ k'.1 = i
    · obtain ⟨rfl, rfl⟩ := table
      have after : s'.link (m.ram.modify t fun b => b.setEntry j e) k'.1 = some t :=
        ((Space.link_congr (root s' hs') _).trans (shows.link s' hs' _)).trans linked
      have before := (shows.link s' hs' k'.1).trans linked
      rw [Space.leaf_of_link (j := k'.2) after, Ram.bytes_modify_self _ here]
      by_cases same : k'.2 = j
      · rw [if_pos ⟨rfl, Prod.ext rfl same⟩, same, Frame.entry_setEntry_self]
      · rw [if_neg fun h => same (congrArg Prod.snd h.2), Frame.entry_setEntry_of_ne _ _ same,
          ← shows.leaf s' hs', Space.leaf_of_link (j := k'.2) before]
    · rw [if_neg fun h => table ⟨h.1, congrArg Prod.fst h.2⟩]
      refine (Space.leaf_congr (root s' hs') fun t' linked' => ?_).trans (shows.leaf s' hs' k')
      rw [shows.link s' hs'] at linked'
      refine Ram.bytes_modify_of_ne _ ?_
      rintro rfl
      exact table (sep.table_unique s hs i t' linked s' hs' k'.1 linked')
  · have apart : g ≠ t := fun same => visible (.inr ⟨s, hs, .inr ⟨i, same ▸ linked⟩⟩)
    exact (Ram.bytes_modify_of_ne _ apart).trans (shows.bytes g visible)

private theorem link_modify_root {s : Space} {r : Ram} (inside : s.root.index < r.size)
    (i i' : Slot) (e : Entry) :
    s.link (r.modify s.root fun b => b.setEntry i e) i' =
      if i' = i then e.target else s.link r i' := by
  rw [Space.link, Ram.bytes_modify_self _ inside]
  split
  · next same => rw [same, Frame.entry_setEntry_self]
  · next other => rw [Frame.entry_setEntry_of_ne _ _ other, Space.link]

/-- A store into a directory changes no entry, provided that the entries below the slot are those
of a cleared table, before as well as after. -/
private theorem leaf_modify_root {r : Ram} {s : Space} {i : Slot} {e : Entry}
    (here : s.root.index < r.size) (apart : ∀ i' t, s.link r i' = some t → t ≠ s.root)
    (before : ∀ j, s.leaf r (i, j) = .zero)
    (after : ∀ t, e.target = some t → t ≠ s.root ∧ ∀ j, (r.bytes t).entry j = .zero) (k : Place) :
    s.leaf (r.modify s.root fun b => b.setEntry i e) k = s.leaf r k := by
  by_cases slot : k.1 = i
  · have now : s.link (r.modify s.root fun b => b.setEntry i e) k.1 = e.target := by
      rw [link_modify_root here, if_pos slot]
    have cleared : s.leaf r k = .zero := by
      rw [← before k.2, ← slot]
    rw [cleared]
    cases target : e.target with
    | none => exact Space.leaf_of_vacant (j := k.2) (now.trans target)
    | some t =>
      rw [Space.leaf_of_link (j := k.2) (now.trans target)]
      obtain ⟨other, zero⟩ := after t target
      rw [Ram.bytes_modify_of_ne _ other]
      exact zero k.2
  · have now : s.link (r.modify s.root fun b => b.setEntry i e) k.1 = s.link r k.1 := by
      rw [link_modify_root here, if_neg slot]
    cases linked : s.link r k.1 with
    | none =>
      rw [Space.leaf_of_vacant (j := k.2) linked,
        Space.leaf_of_vacant (j := k.2) (now.trans linked)]
    | some t =>
      rw [Space.leaf_of_link (j := k.2) linked, Space.leaf_of_link (j := k.2) (now.trans linked),
        Ram.bytes_modify_of_ne _ (apart k.1 t linked)]

/-- A store into a directory changes one link, and no entry where only cleared tables come and
go. -/
private theorem writeLink (shows : m.Shows v) (sep : v.Separate) {s : Space} (hs : s ∈ v.live)
    (i : Slot) (e : Entry) (before : ∀ j, v.leaf s (i, j) = .zero)
    (after : ∀ t, e.target = some t → t ≠ s.root ∧ ∀ j, (m.ram.bytes t).entry j = .zero)
    (unlinked : ∀ g, ¬ (v.setLink s i e.target).Hidden g → ¬ v.Hidden g) :
    Ends (writeEntry s.root i e) m Exhausts fun _ m' => m'.Shows (v.setLink s i e.target) := by
  have here := shows.inside (sep.root_inside s hs)
  let r' := m.ram.modify s.root fun b => b.setEntry i e
  have others (s' : Space) (other : s' ≠ s) : r'.bytes s'.root = m.ram.bytes s'.root :=
    Ram.bytes_modify_of_ne _ fun same => other (Space.ext same)
  have apart (s' : Space) (hs' : s' ∈ v.live) (i' : Slot) (t : FrameId)
      (linked : s'.link m.ram i' = some t) : t ≠ s.root := by
    rw [shows.link s' hs'] at linked
    exact fun same => sep.table_ne_root s' hs' i' t linked s hs same.symm
  refine Ends.intro (modifyFrame_eq_ok_iff.mpr ⟨here, rfl⟩) { shows with
    size := (m.ram.size_modify _ _).trans shows.size
    link := fun s' hs' i' => ?_
    leaf := fun s' hs' k' => ?_
    bytes := fun g visible => ?_ }
  · show s'.link r' i' = if s' = s ∧ i' = i then e.target else v.link s' i'
    rw [← shows.link s' hs']
    by_cases same : s' = s
    · subst same
      rw [link_modify_root here]
      simp only [true_and]
    · rw [if_neg fun h => same h.1]
      exact Space.link_congr (others s' same) i'
  · show s'.leaf r' k' = v.leaf s' k'
    rw [← shows.leaf s' hs']
    by_cases same : s' = s
    · subst same
      refine leaf_modify_root here (apart s' hs') (fun j => ?_) after k'
      rw [shows.leaf s' hs', before]
    · exact Space.leaf_congr (others s' same) fun t linked =>
        Ram.bytes_modify_of_ne _ (apart s' hs' _ t linked)
  · have other : g ≠ s.root := fun same => visible (.inr ⟨s, hs, .inl same.symm⟩)
    exact (Ram.bytes_modify_of_ne _ other).trans (shows.bytes g (unlinked g visible))

/-- Linking a cleared frame in a vacant slot. -/
theorem writeLinked (shows : m.Shows v) (sep : v.Separate) {s : Space} (hs : s ∈ v.live)
    {i : Slot} (vacant : v.link s i = none) {t : FrameId} (shown : ¬ v.Hidden t)
    (cleared : v.bytes t = Frame.zero) :
    Ends (writeEntry s.root i (.link t)) m Exhausts fun _ m' =>
      m'.Shows (v.setLink s i (some t)) := by
  refine shows.writeLink sep hs i (.link t) (fun j => ?_) ?_ ?_
  · rw [← shows.leaf s hs]
    exact Space.leaf_of_vacant ((shows.link s hs i).trans vacant)
  · rintro t' same
    cases same
    refine ⟨fun same => shown (.inr ⟨s, hs, .inl same.symm⟩), fun j => ?_⟩
    show (m.ram.bytes t).entry j = _
    rw [shows.bytes t shown, cleared, Frame.entry_zero]
  · rintro g visible (free | ⟨s', hs', root | ⟨i', linked⟩⟩)
    · exact visible (.inl free)
    · exact visible (.inr ⟨s', hs', .inl root⟩)
    · refine visible (.inr ⟨s', hs', .inr ⟨i', ?_⟩⟩)
      refine (if_neg ?_).trans linked
      rintro ⟨rfl, rfl⟩
      rw [vacant] at linked
      cases linked

/-- Unlinking a table that maps nothing and has been given up before. -/
theorem writeUnlinked (shows : m.Shows v) (sep : v.Separate) {s : Space} (hs : s ∈ v.live)
    {i : Slot} {t : FrameId} (linked : v.link s i = some t) (free : v.Free t)
    (empty : ∀ j, v.leaf s (i, j) = .zero) :
    Ends (writeEntry s.root i .zero) m Exhausts fun _ m' => m'.Shows (v.setLink s i none) := by
  refine shows.writeLink sep hs i .zero empty ?_ ?_
  · rintro t' target
    cases target
  · rintro g visible (unused | ⟨s', hs', root | ⟨i', linked'⟩⟩)
    · exact visible (.inl unused)
    · exact visible (.inr ⟨s', hs', .inl root⟩)
    · by_cases same : s' = s ∧ i' = i
      · obtain ⟨rfl, rfl⟩ := same
        rw [linked] at linked'
        cases linked'
        exact visible (.inl free)
      · exact visible (.inr ⟨s', hs', .inr ⟨i', (if_neg same).trans linked'⟩⟩)

end Machine.Shows

end PagedMemory
