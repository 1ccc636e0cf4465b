import PagedMemory.Proofs.MissingPages

/-!
# Pages that are mapped a second time

A page that one space maps and that nobody has written to since can be mapped by another space as
well, or at another address of the same one. What comes of it depends on what was there before
alone. A page that may not be shared is refused (`tryToShare_of_refused`). If the goal lacks a page
table and no frame is free, the attempt fails (`tryToShare_of_full`). In both cases the machine is
the same as before. Otherwise both entries map the frame read-only (`Machine.Doubled`).

The page table for the goal is made before the first entry is written to. It can only lie in
another slot of the directory than the page that is shared, whose table is there already, so the
word of the latter is the same afterwards.
-/

namespace PagedMemory

variable {m m' : Machine} {owed : Owed} {source target : Space} {from' goal : VirtualAddress}
  {e : Entry} {f : FrameId}

namespace View

variable {v v' w : View} {k k' : Place}

/-- The page that is shared becomes read-only as well. -/
theorem leaf_aliased_source (tracked : v.tracks (v.leaf source k).frame = true) :
    (v.aliased source k target k').leaf source k = (v.leaf source k).writeProtected := by
  rw [aliased, if_pos tracked]
  by_cases same : source = target ∧ k = k'
  · obtain ⟨rfl, rfl⟩ := same
    exact leaf_setLeaf_self _ source k _
  · exact (leaf_setLeaf_of_ne _ same).trans (leaf_setLeaf_self v source k _)

/-- The frame that is shared has gained a reference, and no other one has. -/
theorem count_aliased (tracked : v.tracks (v.leaf source k).frame = true) (f : FrameId) :
    (v.aliased source k target k').count f =
      if f = (v.leaf source k).frame then v.count f + 1 else v.count f := by
  rw [aliased, if_pos tracked]
  show (if f = (v.leaf source k).frame then
    if v.tracks (v.leaf source k).frame then v.count (v.leaf source k).frame + 1
    else v.count (v.leaf source k).frame else v.count f) = _
  split
  · next same => rw [same]
  · rfl

theorem Covers.flushes {t : FrameId} {i : Slot} (covers : v.Covers target i t w) :
    w.flushes = v.flushes := by
  cases covers <;> rfl

namespace Shares

theorem live (shares : v.Shares source k target k' v') : v'.live = v.live := by
  obtain ⟨-, -, covers⟩ := shares
  exact (live_aliased _ source k target k').trans covers.live

theorem tracks (shares : v.Shares source k target k' v') (f : FrameId) :
    v'.tracks f = v.tracks f := by
  obtain ⟨-, -, covers⟩ := shares
  exact (tracks_aliased _ source k target k' f).trans (covers.tracks f)

theorem flushes (shares : v.Shares source k target k' v') : v'.flushes = v.flushes + 1 := by
  obtain ⟨-, -, covers⟩ := shares
  exact congrArg (· + 1) ((flushes_aliased _ source k target k').trans covers.flushes)

/-- The frame of the page, and that its references are counted, are known after the page table
has been made. -/
private theorem ready (shares : v.Shares source k target k' v') {t : FrameId} {i : Slot}
    (covers : v.Covers target i t w) : w.tracks (w.leaf source k).frame = true := by
  obtain ⟨ready, -, -⟩ := shares
  rw [covers.leaf, covers.tracks]
  exact (shareable_iff.mp ready).2

theorem leaf_source (shares : v.Shares source k target k' v') :
    v'.leaf source k = (v.leaf source k).writeProtected := by
  have whole := shares
  obtain ⟨-, -, covers⟩ := shares
  refine (leaf_aliased_source (whole.ready covers)).trans ?_
  rw [covers.leaf]

theorem leaf_of_ne {s : Space} {k₁ : Place} (shares : v.Shares source k target k' v')
    (first : ¬ (s = source ∧ k₁ = k)) (second : ¬ (s = target ∧ k₁ = k')) :
    v'.leaf s k₁ = v.leaf s k₁ := by
  obtain ⟨-, -, covers⟩ := shares
  refine (leaf_aliased_of_ne first second).trans ?_
  rw [covers.leaf]

/-- The page table of the second page was there before, or was free. -/
theorem table (shares : v.Shares source k target k' v') (used : ¬ v.Free (v.leaf source k).frame) :
    ∃ t, v'.link target k'.1 = some t ∧ (v.link target k'.1 = some t ∨
      v.link target k'.1 = none ∧ v.Free t ∧ v'.count t = 1) := by
  have whole := shares
  obtain ⟨-, -, covers⟩ := shares
  have linked := (congrFun (congrFun (link_aliased _ source k target k') target) k'.1).trans
    covers.link
  refine ⟨_, linked, ?_⟩
  have count := @count_aliased source target _ k k' (whole.ready covers)
  cases covers with
  | already before => exact .inl before
  | anew vacant free =>
    refine .inr ⟨vacant, free, (count _).trans ((if_neg ?_).trans (if_pos rfl))⟩
    intro same
    change _ = (v.leaf source k).frame at same
    exact used (same ▸ free)

theorem count_frame (shares : v.Shares source k target k' v')
    (used : ¬ v.Free (v.leaf source k).frame) :
    v'.count (v.leaf source k).frame = v.count (v.leaf source k).frame + 1 := by
  have whole := shares
  obtain ⟨-, -, covers⟩ := shares
  refine (count_aliased (whole.ready covers) _).trans ?_
  rw [covers.leaf, if_pos rfl, (covers.of_not_free used).1]

theorem count_of_ne (shares : v.Shares source k target k' v') (other : f ≠ (v.leaf source k).frame)
    (old : v'.link target k'.1 = some f → v.link target k'.1 = some f) :
    v'.count f = v.count f := by
  have whole := shares
  obtain ⟨-, -, covers⟩ := shares
  refine (count_aliased (whole.ready covers) f).trans ?_
  rw [covers.leaf, if_neg other]
  cases covers with
  | already => rfl
  | anew vacant free =>
    refine if_neg ?_
    rintro rfl
    have linked := (congrFun (congrFun (link_aliased _ source k target k') target) k'.1).trans
      (Covers.anew vacant free).link
    cases vacant.symm.trans (old linked)

end Shares

end View

variable {live : Finset Space}

namespace Machine

/-- The page of an address may be shared: it is present, nobody has written to it, and the
references to its frame are counted. -/
structure Shareable (m : Machine) (s : Space) (va : VirtualAddress) (e : Entry) : Prop where
  entry : s.entry m.ram va = .ok (some e)
  present : e.present = true
  clean : e.dirty = false
  counted : m.pool.manages e.frame = true

/-- The page with the entry `e` is mapped twice, read-only on both sides. A page table was made of a
free frame if there was none for the second page. -/
structure Doubled (m : Machine) (live : Finset Space) (source : Space) (from' : VirtualAddress)
    (target : Space) (goal : VirtualAddress) (e : Entry) (m' : Machine) : Prop where
  first : source.entry m'.ram from' = .ok (some e.writeProtected)
  second : target.entry m'.ram goal = .ok (some e.writeProtected)
  more : ∃ n, m.pool.refCount? e.frame = some n ∧ m'.pool.refCount? e.frame = some (n + 1)
  table : ∃ t, target.link m'.ram goal.directorySlot = some t ∧
    (target.link m.ram goal.directorySlot = some t ∨
      target.link m.ram goal.directorySlot = none ∧
        m.pool.refCount? t = some 0 ∧ m'.pool.refCount? t = some 1)
  counts : ∀ f, f ≠ e.frame →
    (target.link m'.ram goal.directorySlot = some f →
      target.link m.ram goal.directorySlot = some f) →
    m'.pool.refCount? f = m.pool.refCount? f
  flushes : m'.flushes = m.flushes + 1
  elsewhere : m.Elsewhere live {(source, from'.splitSlots), (target, goal.splitSlots)} m'

/-- What may be shared is what the view of the machine says may be shared. -/
theorem shareable_iff (sound : (m.view live).Sound owed) (hsource : source ∈ live) :
    m.Shareable source from' e ↔
      (m.view live).shareable source from'.splitSlots = true ∧
      source.leaf m.ram from'.splitSlots = e := by
  rw [shareable_view_iff sound hsource]
  constructor
  · intro ready
    exact ⟨ready.entry, ready.present, ready.clean, ready.counted⟩
  · rintro ⟨found, present, clean, counted⟩
    exact ⟨found, present, clean, counted⟩

/-! ## Attempts that change nothing -/

theorem tryToShare_of_refused (sound : (m.view live).Sound owed) (hsource : source ∈ live)
    (refused : ∀ e, ¬ m.Shareable source from' e) :
    outcome (tryToShare source from' target goal) m = .ok (.ok false, m) := by
  have found : source.entry m.ram from' = .ok ((source.link m.ram from'.directorySlot).map
      fun _ => source.leaf m.ram from'.splitSlots) :=
    Space.entry_eq (inside_of_sound sound hsource)
  unfold tryToShare
  refine (outcome_lift_bind_of_run (inspect_eq_ok_iff.mpr ⟨found, rfl⟩)).trans ?_
  cases source.link m.ram from'.directorySlot with
  | none => rfl
  | some t =>
    simp only [Option.map_some]
    refine (outcome_lift_bind_of_run (inspect_eq_ok_iff.mpr ⟨rfl, rfl⟩)).trans ?_
    rw [if_pos]
    · rfl
    · rw [Bool.not_eq_eq_eq_not, Bool.not_true, ← Bool.not_eq_true]
      intro ready
      exact refused _ ((shareable_iff sound hsource).mpr ⟨ready, rfl⟩)

/-- No page table can be made, and nothing else has been done by then. -/
theorem tryToShare_of_full (sound : (m.view live).Sound owed) (htarget : target ∈ live)
    (ready : m.Shareable source from' e) (vacant : target.link m.ram goal.directorySlot = none)
    (full : ∀ f, m.pool.refCount? f ≠ some 0) :
    outcome (tryToShare source from' target goal) m = .ok (.error .outOfMemory, m) := by
  have none : target.tableOf m.ram goal = .ok none :=
    (Space.tableAt_eq (sound.separate.root_inside target htarget) _).trans (congrArg _ vacant)
  unfold tryToShare
  refine (outcome_lift_bind_of_run (inspect_eq_ok_iff.mpr ⟨ready.entry, rfl⟩)).trans ?_
  dsimp only
  refine (outcome_lift_bind_of_run (inspect_eq_ok_iff.mpr ⟨rfl, rfl⟩)).trans ?_
  rw [ready.counted, Entry.isClean, ready.present, ready.clean, if_neg (by decide)]
  exact outcome_bind_of_fail (ensureTable_of_full none (FramePool.alloc_eq_none_iff_used.mpr full))

/-! ## The page that is shared -/

/-- Of the frames in use, only the entries of both pages are written to, or the vacant slot above
the second one. -/
theorem Writes.tryToShare (sound : (m.view live).Sound owed) (hsource : source ∈ live)
    (htarget : target ∈ live) (from' goal : VirtualAddress) :
    Tries (PagedMemory.tryToShare source from' target goal) m (fun _ => True)
      (fun _ m' => m.Writes {source.word m.ram from'.splitSlots,
        target.word m.ram goal.splitSlots} m') (fun _ _ => True) := by
  have shows := m.shows_view live
  unfold PagedMemory.tryToShare
  refine Tries.lift_bind ((shows.findEntry sound.separate hsource from').with_run.mono_stops
    fun _ _ => trivial) ?_
  rintro found m₁ ⟨run, rfl, -⟩
  obtain ⟨-, rfl⟩ := inspect_eq_ok_iff.mp run
  cases linked : (m₁.view live).link source from'.directorySlot with
  | none => exact Tries.pure (refl m₁)
  | some t₀ =>
    simp only [Option.map_some]
    refine Tries.lift_bind (Ends.seen _ m₁) ?_
    rintro tracked m₂ rfl
    split
    · exact Tries.pure (refl m₂)
    have here : target.word m₂.ram goal.splitSlots ∈
        ({source.word m₂.ram from'.splitSlots, target.word m₂.ram goal.splitSlots} : Set _) :=
      Set.mem_insert_of_mem _ (Set.mem_singleton _)
    have ensures := ((refl m₂).ensureTable (fun _ used => used) here).and
      (shows.ensureTable sound htarget goal)
    refine Tries.bind ((ensures.mono_failed fun _ _ _ => trivial).mono_stops
      fun _ _ => trivial) ?_
    rintro t m₃ ⟨⟨writes₃, table⟩, w, covers, shows₃⟩
    -- The page that is shared has its table already, wherever the new one has been linked.
    have linked' : source.link m₃.ram from'.directorySlot = some t₀ := by
      rw [shows₃.link source (covers.live ▸ hsource)]
      cases covers with
      | already => exact linked
      | anew vacant =>
        rw [View.link_linked, if_neg]
        · exact linked
        · rintro ⟨rfl, same⟩
          rw [← same, linked] at vacant
          cases vacant
    have word : source.word m₃.ram from'.splitSlots = source.word m₂.ram from'.splitSlots :=
      (Space.word_of_link (k := from'.splitSlots) linked').trans
        (Space.word_of_link (k := from'.splitSlots) linked).symm
    refine Tries.lift_bind (Ends.seen _ m₃) ?_
    rintro previous m₄ rfl
    split
    · exact Tries.lift_bind (P := fun _ _ => False) (Ends.halt trivial) nofun
    refine Tries.discard_bind (writes₃.updateEntry (word ▸ Set.mem_insert _ _) _) ?_
    intro m₅ writes₅
    refine Tries.lift_bind (writes₅.writeEntry table _) ?_
    intro _ m₆ writes₆
    refine Tries.lift_bind writes₆.flush ?_
    intro _ m₇ writes₇
    refine Tries.lift_bind (Ends.retain m₇ _) ?_
    rintro _ m₈ ⟨ram, -⟩
    exact Tries.pure (writes₇.keep ram)

theorem doubled_of_shares {v' : View} (sound : (m.view live).Sound owed) (hsource : source ∈ live)
    (htarget : target ∈ live)
    (shares : (m.view live).Shares source from'.splitSlots target goal.splitSlots v')
    (shows : m'.Shows v') (writes : m.Writes {source.word m.ram from'.splitSlots,
      target.word m.ram goal.splitSlots} m') :
    m.Doubled live source from' target goal (source.leaf m.ram from'.splitSlots) m' := by
  have acts : View.Acts (fun _ => True) (m.view live) owed v' owed :=
    shares.acts hsource htarget trivial trivial fun _ => trivial
  have separate := (acts.sound sound).separate
  have ready : (m.view live).shareable source from'.splitSlots = true := by
    obtain ⟨ready, -, -⟩ := shares
    exact ready
  have present : (source.leaf m.ram from'.splitSlots).present = true :=
    View.present_of_shareable ready
  have used := sound.not_free hsource (View.refers_leaf (v := m.view live) present)
  have lives (s : Space) (hs : s ∈ live) : s ∈ v'.live := shares.live.symm ▸ hs
  have linked := shows.link target (lives target htarget) goal.directorySlot
  have before := (m.shows_view live).refCount?_eq_ite
  have now (f : FrameId) : m'.pool.refCount? f =
      if (m.view live).tracks f = true then some (v'.count f) else none := by
    rw [shows.refCount?_eq_ite, shares.tracks]
  refine ⟨?_, ?_, ?_, ?_, ?_, shows.flushes.trans shares.flushes, ?_⟩
  · have leaf := shares.leaf_source
    have found := shows.entry_of_present separate (lives source hsource)
      ((congrArg Entry.present leaf).trans present)
    rwa [leaf] at found
  · have leaf := shares.leaf_goal
    have found := shows.entry_of_present separate (lives target htarget)
      ((congrArg Entry.present leaf).trans present)
    rwa [leaf] at found
  · have tracked := (View.shareable_iff.mp ready).2
    refine ⟨_, (before _).trans (if_pos tracked), ?_⟩
    exact (now _).trans ((if_pos tracked).trans (congrArg some (shares.count_frame used)))
  · obtain ⟨t, linked', old⟩ := shares.table used
    refine ⟨t, linked.trans linked', old.imp_right ?_⟩
    rintro ⟨vacant, free, one⟩
    refine ⟨vacant, free_view_iff.mp free, ?_⟩
    exact (now t).trans ((if_pos free.1).trans (congrArg some one))
  · intro f other old
    rw [linked] at old
    rw [now, before, shares.count_of_ne other old]
  · apply Writes.elsewhere _ sound
    · rintro _ (rfl | rfl)
      · exact hsource
      · exact htarget
    · intro s hs k outside
      rw [shows.leaf s (lives s hs)]
      apply shares.leaf_of_ne
      · rintro ⟨rfl, rfl⟩
        exact outside (Set.mem_insert _ _)
      · rintro ⟨rfl, rfl⟩
        exact outside (Set.mem_insert_of_mem _ (Set.mem_singleton _))
    · rwa [Set.image_pair]

end Machine

/-- Mapping a page a second time, where nothing is mapped yet. A page that is missing, that has been
written to or whose references are not counted is refused, and nothing changes. If a page table is
needed and no frame is free, the attempt fails, and nothing changes either. Otherwise both entries
map the frame read-only. Then alone the kernel can stop, and only if the cache has been emptied too
often to be counted. -/
theorem sharing_maps_the_page_twice (sound : (m.view live).Sound owed)
    (counted : ∀ f n, m.pool.refCount? f = some n → n < 65535)
    (hsource : source ∈ live) (htarget : target ∈ live)
    (missing : ∀ e, target.entry m.ram goal = .ok (some e) → e.present = false) :
    ((∀ e, ¬ m.Shareable source from' e) →
      outcome (tryToShare source from' target goal) m = .ok (.ok false, m)) ∧
    ∀ e, m.Shareable source from' e →
      (target.link m.ram goal.directorySlot = none → (∀ f, m.pool.refCount? f ≠ some 0) →
        outcome (tryToShare source from' target goal) m = .ok (.error .outOfMemory, m)) ∧
      ((target.link m.ram goal.directorySlot ≠ none ∨ ∃ f, m.pool.refCount? f = some 0) →
        ((∃ cause, outcome (tryToShare source from' target goal) m = .error cause) →
          flushLimit ≤ m.flushes + 1) ∧
        ∀ result m', outcome (tryToShare source from' target goal) m = .ok (result, m') →
          result = .ok true ∧ m.Doubled live source from' target goal e m') := by
  refine ⟨Machine.tryToShare_of_refused sound hsource, ?_⟩
  intro e ready
  refine ⟨Machine.tryToShare_of_full sound htarget ready, ?_⟩
  intro room
  have shows := m.shows_view live
  have absent : ((m.view live).leaf target goal.splitSlots).present = false := by
    by_contra present
    rw [Bool.not_eq_false] at present
    have gone := missing _ (shows.entry_of_present sound.separate htarget present)
    cases present.symm.trans gone
  have shares := shows.tryToShare sound hsource htarget from' goal absent
  have spends := (Machine.Spares.refl m).tryToShare Nat.one_pos source from' target goal
  obtain ⟨shareable, rfl⟩ := (Machine.shareable_iff sound hsource).mp ready
  constructor
  · rintro ⟨cause, stop⟩
    by_contra uncounted
    obtain ⟨f, -, managed, most⟩ := (spends.of_error stop).full_of_exhausts (shares.of_error stop)
      (Nat.not_le.mp uncounted)
    have less := counted f _ (if_pos managed)
    omega
  · intro result m' run
    cases result with
    | error cause =>
      obtain ⟨-, -, vacant, full, -⟩ := shares.failed_of_run run
      rcases room with linked | ⟨f, free⟩
      · exact absurd vacant linked
      · exact absurd (Machine.free_view_iff.mpr free) (full f)
    | ok shared =>
      have done := shares.done_of_run run
      cases shared with
      | false => exact absurd shareable (Bool.eq_false_iff.mp done.1)
      | true =>
        obtain ⟨v', shares', shows'⟩ := done
        have written := (Machine.Writes.tryToShare sound hsource htarget from' goal).done_of_run run
        exact ⟨rfl, Machine.doubled_of_shares sound hsource htarget shares' shows' written⟩

section Tiny

def tinyAgain : Attempt Bool :=
  tryToShare tinySpace tinyPage tinySpace tinyNext

/-- The page is mapped a second time in its own space, under a page table that has to be made. -/
theorem sharing_maps_the_page_twice_tiny :
    tinySpaces.2.Shareable tinySpace tinyPage (.make (tinyFrame 3) .userWritable) ∧
    tinySpace.link tinySpaces.2.ram tinyNext.directorySlot = none ∧
    outcome tinyAgain tinySpaces.2 = .ok (.ok true, tinySpaces.2.after tinyAgain) ∧
    tinySpaces.2.Doubled tinySpaces.1.live tinySpace tinyPage tinySpace tinyNext
      (.make (tinyFrame 3) .userWritable) (tinySpaces.2.after tinyAgain) := by
  have small : tinySpaces.2.pool.counts.all (· < 65535) = true := by decide +kernel
  have live : tinySpace ∈ tinySpaces.1.live := by decide +kernel
  have ready : tinySpaces.2.Shareable tinySpace tinyPage (.make (tinyFrame 3) .userWritable) :=
    ⟨by decide +kernel, rfl, rfl, by decide +kernel⟩
  have vacant : tinySpace.link tinySpaces.2.ram tinyNext.directorySlot = none := by decide +kernel
  have unmapped : tinySpace.entry tinySpaces.2.ram tinyNext = .ok none := by decide +kernel
  have missing (e : Entry) (found : tinySpace.entry tinySpaces.2.ram tinyNext = .ok (some e)) :
      e.present = false := by
    cases unmapped.symm.trans found
  have free : tinySpaces.2.pool.refCount? (tinyFrame 6) = some 0 := by decide +kernel
  have run : outcome tinyAgain tinySpaces.2 = .ok (.ok true, tinySpaces.2.after tinyAgain) :=
    Machine.run_of_product (by decide +kernel)
  have shared := (sharing_maps_the_page_twice sound_tinySpaces
    (fun f n counted => FramePool.lt_of_refCount? small counted) live live missing).2 _ ready
  exact ⟨ready, vacant, run, ((shared.2 (.inr ⟨_, free⟩)).2 _ _ run).2⟩

end Tiny

end PagedMemory
