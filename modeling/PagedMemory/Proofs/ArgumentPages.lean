import PagedMemory.Proofs.Unsharing

/-!
# Pages that change hands

The argument pages of a process are in somebody's hands until they are mapped, the last one first.
After any number of them a page table can be missing for which there is no frame. The page that
was to be mapped then is given up with all that are still to come, so that in the end every page is
either mapped or free, and in nobody's hands (`Machine.Handed`).

A page that has a single reference is mapped where nothing is mapped yet. What this does is known
to the last word (`mapOne_of_table`), so it neither empties the cache nor stops the kernel, and
neither does giving up pages that nobody else refers to (`Ends.releaseEach`). Nothing is given up
while pages are being mapped (`Machine.Adds`): a frame that is in use keeps its count until the
first failure, which is also the last one.
-/

namespace PagedMemory

variable {m₀ m m₁ m' : Machine} {live : Finset Space} {owed : Owed} {s : Space}
  {start va : VirtualAddress} {pages : List (Option FrameId)} {n : Nat} {f t : FrameId}

namespace Space

theorem argumentAt_iff {i : Nat} :
    ArgumentAt start i va ↔
      start.value + (taskSize - (maxArgumentPages - i) * pageBytes) = va.value := by
  rw [← Address.add?_eq_some_iff, ArgumentAt, Address.add]
  cases start.add? (taskSize - (maxArgumentPages - i) * pageBytes) with
  | none => exact iff_of_false nofun nofun
  | some b => rw [Except.ok.injEq, Option.some.injEq]

/-- Every argument page has an address if the whole stretch of the process has. -/
theorem exists_argumentAt (fits : start.value + taskSize ≤ 4294967296) {i : Nat}
    (few : i < maxArgumentPages) : ∃ va, ArgumentAt start i va := by
  refine ⟨⟨start.value + (taskSize - (maxArgumentPages - i) * pageBytes), ?_⟩,
    argumentAt_iff.mpr rfl⟩
  unfold taskSize maxArgumentPages pageBytes at *
  omega

/-- Where the given pages with an index of at least `n` go. -/
def argumentPlaces (s : Space) (start : VirtualAddress) (pages : List (Option FrameId)) (n : Nat) :
    Set (Space × Place) :=
  { p | p.1 = s ∧ ∃ i f va, n ≤ i ∧ pages[i]? = some (some f) ∧ ArgumentAt start i va ∧
    p.2 = va.splitSlots }

end Space

theorem mem_numbered_iff : f ∈ numbered pages n ↔ ∃ i, i < n ∧ pages[i]? = some (some f) := by
  unfold numbered
  rw [List.mem_filterMap]
  constructor
  · rintro ⟨_, mem, rfl⟩
    obtain ⟨i, found⟩ := List.mem_iff_getElem?.mp mem
    rw [List.getElem?_take] at found
    split at found
    · next below => exact ⟨i, below, found⟩
    · cases found
  · rintro ⟨i, below, found⟩
    refine ⟨some f, List.mem_iff_getElem?.mpr ⟨i, ?_⟩, rfl⟩
    rw [List.getElem?_take, if_pos below, found]

/-- No page is given twice. -/
theorem not_mem_numbered (distinct : (pages.filterMap id).Nodup) {i : Nat} (above : n ≤ i)
    (found : pages[i]? = some (some f)) : f ∉ numbered pages n := by
  rw [← List.take_append_drop n pages, List.filterMap_append] at distinct
  have later : f ∈ (pages.drop n).filterMap id := by
    refine List.mem_filterMap.mpr ⟨some f, List.mem_iff_getElem?.mpr ⟨i - n, ?_⟩, rfl⟩
    rw [List.getElem?_drop, Nat.add_sub_cancel' above, found]
  intro earlier
  exact (List.nodup_append.mp distinct).2.2 f earlier f later rfl

namespace Machine

/-! ## Pages that are given up -/

theorem release_of_one (one : m.pool.refCount? f = some 1) :
    release f m = .ok ((), { m with
      pool := m.pool.setCount f 0, events := m.events.push (.frameFreed f) }) := by
  obtain ⟨managed, single⟩ : m.pool.manages f = true ∧ m.pool.count f = 1 := by
    rwa [FramePool.refCount?, Option.ite_none_right_eq_some, Option.some.injEq] at one
  have bounds := managed
  rw [FramePool.manages, Bool.and_eq_true, decide_eq_true_eq, decide_eq_true_eq] at bounds
  have released : m.pool.release f = .ok (m.pool.setCount f 0) := by
    simp only [FramePool.release, if_neg (Nat.not_lt.mpr bounds.1),
      if_neg (Nat.not_le.mpr bounds.2), single, if_neg Nat.one_ne_zero, Nat.sub_self]
  simp only [release, released, one, beq_self_eq_true, if_true]

end Machine

/-- Pages with a single reference are free after they have been given up, each of them once. -/
theorem Ends.releaseEach {freed : List FrameId} (distinct : freed.Nodup) (m : Machine)
    (held : ∀ f ∈ freed, m.pool.refCount? f = some 1) :
    Ends (freed.forM PagedMemory.release) m (fun _ => False) fun _ m' =>
      m'.ram = m.ram ∧ m'.events.toList = m.events.toList ++ freed.map .frameFreed ∧
      (∀ f ∈ freed, m'.pool.refCount? f = some 0) ∧
      ∀ f, f ∉ freed → m'.pool.refCount? f = m.pool.refCount? f := by
  induction freed generalizing m with
  | nil => exact Ends.pure ⟨rfl, (List.append_nil _).symm, nofun, fun _ _ => rfl⟩
  | cons f freed ih =>
    obtain ⟨fresh, distinct⟩ := List.nodup_cons.mp distinct
    have one := held f List.mem_cons_self
    have managed : m.pool.manages f = true := by
      rw [FramePool.refCount?, Option.ite_none_right_eq_some] at one
      exact one.1
    have others (g : FrameId) (other : g ≠ f) :
        (m.pool.setCount f 0).refCount? g = m.pool.refCount? g :=
      FramePool.refCount?_setCount_of_ne 0 managed other
    refine Ends.bind (P := fun _ m' => m' = { m with
      pool := m.pool.setCount f 0, events := m.events.push (.frameFreed f) })
      (Ends.intro (Machine.release_of_one one) rfl) ?_
    rintro _ _ rfl
    refine (ih distinct _ fun g mem => ?_).mono ?_
    · have other : g ≠ f := by
        rintro rfl
        exact fresh mem
      exact (others g other).trans (held g (List.mem_cons_of_mem _ mem))
    · rintro _ m' ⟨ram, events, zero, same⟩
      refine ⟨ram, ?_, fun g mem => ?_, fun g spared => ?_⟩
      · rw [events, Array.toList_push, List.append_assoc]
        rfl
      · rcases List.mem_cons.mp mem with rfl | mem
        · rw [same _ fresh]
          exact FramePool.refCount?_setCount_self 0 managed
        · exact zero g mem
      · rw [List.mem_cons, not_or] at spared
        rw [same g spared.2, others g spared.1]

/-! ## A page where nothing was mapped -/

namespace Machine

theorem ensureTable_of_linked (linked : s.tableOf m.ram va = .ok (some t)) :
    outcome (s.ensureTable va) m = .ok (.ok t, m) :=
  (outcome_lift_bind_of_run (inspect_eq_ok_iff.mpr ⟨linked, rfl⟩)).trans rfl

theorem ensureTable_of_vacant {pool : FramePool} (vacant : s.tableOf m.ram va = .ok none)
    (given : m.pool.alloc = some (t, pool)) (inside : t.index < m.ram.size)
    (root : s.root.index < m.ram.size) :
    outcome (s.ensureTable va) m = .ok (.ok t, { m with
      ram := (m.ram.modify t fun _ => .zero).modify s.root fun b =>
        b.setEntry va.directorySlot (.link t)
      pool := pool
      events := (m.events.push (.frameAllocated t)).push (.tableLinked t va) }) := by
  have alloc : outcome allocFrame m = .ok (.ok t, { m with
      pool := pool, events := m.events.push (.frameAllocated t) }) := by
    refine (outcome_lift_bind_of_run (a := some t) ?_).trans rfl
    simp only [allocFrame?, given]
  refine (outcome_lift_bind_of_run (inspect_eq_ok_iff.mpr ⟨vacant, rfl⟩)).trans ?_
  refine (outcome_bind_of_run alloc).trans ?_
  refine (outcome_lift_bind_of_run (modifyFrame_eq_ok_iff.mpr ⟨?_, rfl⟩)).trans ?_
  · exact inside
  · refine (outcome_lift_bind_of_run (modifyFrame_eq_ok_iff.mpr ⟨?_, rfl⟩)).trans rfl
    exact (m.ram.size_modify t _).symm ▸ root

/-- Once there is a page table, the entry is written and nothing else is done. -/
theorem mapOne_of_table (one : m.pool.refCount? f = some 1)
    (made : outcome (s.ensureTable va) m = .ok (.ok t, m₁)) (inside : t.index < m₁.ram.size)
    (absent : ((m₁.ram.bytes t).entry va.tableSlot).present = false) (flags : Entry) :
    outcome (s.mapOne f va flags) m = .ok (.ok (), { m₁ with
      ram := m₁.ram.modify t fun b => b.setEntry va.tableSlot (.make f flags) }) := by
  unfold Space.mapOne
  refine (outcome_lift_bind_of_run (inspect_eq_ok_iff.mpr ⟨rfl, rfl⟩)).trans ?_
  rw [one, if_neg (not_not.mpr rfl)]
  refine (outcome_bind_of_run made).trans ?_
  refine (outcome_lift_bind_of_run (inspect_eq_ok_iff.mpr
    ⟨Ram.entry_eq_bytes inside va.tableSlot, rfl⟩)).trans ?_
  refine (outcome_lift_bind_of_run (modifyFrame_eq_ok_iff.mpr ⟨inside, rfl⟩)).trans ?_
  rw [absent]
  rfl

theorem mapOne_of_full (one : m.pool.refCount? f = some 1) (vacant : s.tableOf m.ram va = .ok none)
    (full : m.pool.alloc = none) (flags : Entry) :
    outcome (s.mapOne f va flags) m = .ok (.error .outOfMemory, m) := by
  unfold Space.mapOne
  refine (outcome_lift_bind_of_run (inspect_eq_ok_iff.mpr ⟨rfl, rfl⟩)).trans ?_
  rw [one, if_neg (not_not.mpr rfl)]
  exact outcome_bind_of_fail (ensureTable_of_full vacant full)

/-- Some pages have been mapped. No reference has been given up, and no frame has come into use
but for page tables. -/
structure Adds (m : Machine) (live : Finset Space) (places : Set (Space × Place)) (m' : Machine) :
    Prop where
  counts : ∀ f, m.InUse f → m'.pool.refCount? f = m.pool.refCount? f
  tables : ∀ s ∈ live, ∀ i t, s.link m'.ram i = some t →
    s.link m.ram i = some t ∨ ¬ m.InUse t
  journal : ∃ notes, m'.events.toList = m.events.toList ++ notes ∧ ∀ f, Event.frameFreed f ∉ notes
  elsewhere : m.Elsewhere live places m'

namespace Adds

variable {places places' : Set (Space × Place)}

theorem refl (m : Machine) : m.Adds live places m where
  counts _ _ := rfl
  tables _ _ _ _ linked := .inl linked
  journal := ⟨[], (List.append_nil _).symm, fun _ => List.not_mem_nil⟩
  elsewhere := .refl m

theorem mono (adds : m.Adds live places m') (more : places ⊆ places') : m.Adds live places' m' where
  __ := adds
  elsewhere := adds.elsewhere.mono more

theorem used (adds : m.Adds live places m') (busy : m.InUse f) : m'.InUse f := by
  rwa [InUse, adds.counts f busy]

theorem trans (first : m.Adds live places m₁) (rest : m₁.Adds live places' m') :
    m.Adds live (places ∪ places') m' where
  counts f busy := (rest.counts f (first.used busy)).trans (first.counts f busy)
  tables s hs i t linked := by
    rcases rest.tables s hs i t linked with before | unused
    · exact first.tables s hs i t before
    · exact .inr fun busy => unused (first.used busy)
  journal := by
    obtain ⟨notes, noted, kept⟩ := first.journal
    obtain ⟨notes', noted', kept'⟩ := rest.journal
    refine ⟨notes ++ notes', ?_, fun f mem => ?_⟩
    · rw [noted', noted, List.append_assoc]
    · exact (List.mem_append.mp mem).elim (kept f) (kept' f)
  elsewhere := first.elsewhere.trans rest.elsewhere (fun _ busy => first.used busy) first.tables

end Adds

/-- What is known of memory once a page has been mapped, from the counts and the journal. -/
private theorem adds_of_mapOne (sound : (m.view live).Sound (owed + hits (some f))) (hs : s ∈ live)
    (one : m.pool.refCount? f = some 1) (absent : (s.leaf m.ram va.splitSlots).present = false)
    (run : outcome (s.mapOne f va .userWritable) m = .ok (.ok (), m'))
    (counts : ∀ g, m.InUse g → m'.pool.refCount? g = m.pool.refCount? g)
    (journal : ∃ notes, m'.events.toList = m.events.toList ++ notes ∧
      ∀ g, Event.frameFreed g ∉ notes) :
    (m'.view live).Sound owed ∧ s.leaf m'.ram va.splitSlots = .make f .userWritable ∧
      m.Adds live {(s, va.splitSlots)} m' := by
  have shows := m.shows_view live
  obtain ⟨t, w, covers, shows'⟩ := (shows.mapOne sound hs f va .userWritable).done_of_run run
  obtain ⟨tracked, single⟩ := shows.refCount?_eq_some_iff.mp one
  have handed : View.Acts (fun _ => True) (m.view live) (owed + hits (some f))
      (w.remap s va.splitSlots (.make f .userWritable))
      (owed + hits ((m.view live).leaf s va.splitSlots).target) :=
    View.acts_handed (v := m.view live) hs tracked single covers trivial trivial
  have sound' := handed.sound sound
  rw [show ((m.view live).leaf s va.splitSlots).target = none from
    Entry.target_eq_none_iff.mpr absent, hits_none, add_zero] at sound'
  rw [View.remap_of_absent (by rw [covers.leaf]; exact absent)] at shows' sound'
  have lives : w.live = live := covers.live
  have now := shows'.sound_view sound'
  have kept (s' : Space) (hs' : s' ∈ live) : s' ∈ w.live := lives.symm ▸ hs'
  rw [show (w.setLeaf s va.splitSlots (.make f .userWritable)).live = live from lives] at now
  refine ⟨now, ?_, counts, ?_, journal, ?_⟩
  · exact (shows'.leaf s (kept s hs) _).trans (View.leaf_setLeaf_self w s va.splitSlots _)
  · intro s' hs' i u linked
    have before : w.link s' i = some u := (shows'.link s' (kept s' hs') i).symm.trans linked
    cases covers with
    | already => exact .inl before
    | anew vacant free =>
      rw [View.link_linked] at before
      split at before
      · cases before
        exact .inr (not_not.mpr (free_view_iff.mp free))
      · exact .inl before
  · have root : m.InUse s.root := .of_count (sound.root s hs).2 Nat.one_ne_zero
    have writes := ((Writes.refl m).mapOne (fun _ busy => busy) (Set.mem_singleton _) f
      .userWritable).done_of_run run
    apply Writes.elsewhere _ sound
    · rintro _ rfl
      exact hs
    · intro s' hs' k outside
      rw [shows'.leaf s' (kept s' hs'), View.leaf_setLeaf_of_ne, covers.leaf]
      · rfl
      · rintro ⟨rfl, rfl⟩
        exact outside (Set.mem_singleton _)
    · rwa [Set.image_singleton]

/-- A page that has a single reference is mapped where nothing is mapped, or fails to be without
leaving a trace. -/
theorem mapOne_adds (sound : (m.view live).Sound (owed + hits (some f))) (hs : s ∈ live)
    (one : m.pool.refCount? f = some 1) (absent : (s.leaf m.ram va.splitSlots).present = false) :
    Tries (s.mapOne f va .userWritable) m (fun _ => False)
      (fun _ m' => (m'.view live).Sound owed ∧
        s.leaf m'.ram va.splitSlots = .make f .userWritable ∧ m.Adds live {(s, va.splitSlots)} m')
      (fun cause m' => cause = .outOfMemory ∧ m' = m) := by
  have root := sound.separate.root_inside s hs
  have found := Space.tableAt_eq root va.directorySlot
  cases linked : s.link m.ram va.directorySlot with
  | some t =>
    rw [linked] at found
    rw [Address.splitSlots, Space.leaf_of_link linked] at absent
    have run := mapOne_of_table one (ensureTable_of_linked found)
      (sound.separate.table_inside s hs _ t linked) absent .userWritable
    refine Ends.intro run (adds_of_mapOne sound hs one ?_ run (fun _ _ => rfl) ?_)
    · rwa [Address.splitSlots, Space.leaf_of_link linked]
    · exact ⟨[], (List.append_nil _).symm, fun _ => List.not_mem_nil⟩
  | none =>
    rw [linked] at found
    cases given : m.pool.alloc with
    | none => exact Ends.intro (mapOne_of_full one found given .userWritable) ⟨rfl, rfl⟩
    | some pair =>
      obtain ⟨t, pool⟩ := pair
      obtain ⟨managed, zero, rfl⟩ := FramePool.alloc_eq_some given
      have inside : t.index < m.ram.size := sound.fits.inside managed
      have apart : t ≠ s.root := by
        rintro rfl
        exact Nat.one_ne_zero ((sound.root s hs).2.symm.trans zero)
      have made := ensureTable_of_vacant found given inside root
      have run := mapOne_of_table one made (by simpa using inside) ?_ .userWritable
      · refine Ends.intro run (adds_of_mapOne sound hs one absent run ?_ ?_)
        · intro g busy
          refine FramePool.refCount?_setCount_of_ne 1 managed ?_
          rintro rfl
          exact busy (by rw [FramePool.refCount?, if_pos managed, zero])
        · refine ⟨[.frameAllocated t, .tableLinked t va], ?_, ?_⟩
          · simp only [Array.toList_push, List.append_assoc]
            rfl
          · intro g mem
            simp at mem
      · rw [Ram.bytes_modify_of_ne _ apart, Ram.bytes_modify_self _ inside, Frame.entry_zero]
        rfl

/-! ## All pages -/

/-- The given pages with an index of at least `n` are mapped, and nobody else refers to them. The
others have been given up, each of them once. -/
structure Handed (m : Machine) (live : Finset Space) (s : Space) (start : VirtualAddress)
    (pages : List (Option FrameId)) (n : Nat) (m' : Machine) : Prop where
  mapped : ∀ i f, n ≤ i → pages[i]? = some (some f) → m'.pool.refCount? f = some 1 ∧
    ∃ va, Space.ArgumentAt start i va ∧ s.entry m'.ram va = .ok (some (.make f .userWritable))
  freed : ∀ i f, i < n → pages[i]? = some (some f) → m'.pool.refCount? f = some 0 ∧
    ∀ va e, Space.ArgumentAt start i va → s.entry m'.ram va = .ok (some e) → e.present = false
  counts : ∀ f, m.InUse f → f ∉ numbered pages n → m'.pool.refCount? f = m.pool.refCount? f
  journal : ∃ notes, m'.events.toList = m.events.toList ++ notes ++
    (numbered pages n).map .frameFreed ∧ ∀ f, Event.frameFreed f ∉ notes
  elsewhere : m.Elsewhere live (s.argumentPlaces start pages n) m'

/-- The given pages with an index of at least `n` have been mapped, and the others are still in the
hands of their holder. -/
structure Handing (m : Machine) (live : Finset Space) (owed : Owed) (s : Space)
    (start : VirtualAddress) (pages : List (Option FrameId)) (n : Nat) (m' : Machine) : Prop where
  sound : (m'.view live).Sound (owed + tally (numbered pages n))
  mapped : ∀ i f va, n ≤ i → pages[i]? = some (some f) → Space.ArgumentAt start i va →
    s.leaf m'.ram va.splitSlots = .make f .userWritable
  vacant : ∀ i f va, i < n → pages[i]? = some (some f) → Space.ArgumentAt start i va →
    (s.leaf m'.ram va.splitSlots).present = false
  adds : m.Adds live (s.argumentPlaces start pages n) m'

namespace Handing

theorem skip (handing : m.Handing live owed s start pages (n + 1) m')
    (none : pages[n]? = some none) : m.Handing live owed s start pages n m' where
  sound := by
    rw [← numbered_succ_of_none (.inl none)]
    exact handing.sound
  mapped i f va above found := by
    have other : n ≠ i := by
      rintro rfl
      cases none.symm.trans found
    exact handing.mapped i f va (by omega) found
  vacant i f va below := handing.vacant i f va (by omega)
  adds := by
    refine handing.adds.mono ?_
    rintro p ⟨here, i, f, va, above, at'⟩
    exact ⟨here, i, f, va, by omega, at'⟩

/-- One more page has been mapped. Those that were mapped before lie elsewhere. -/
theorem map (handing : m.Handing live owed s start pages (n + 1) m₁) (hs : s ∈ live)
    (few : pages.length ≤ maxArgumentPages) (found : pages[n]? = some (some f))
    (place : Space.ArgumentAt start n va)
    (sound : (m'.view live).Sound (owed + tally (numbered pages n)))
    (entry : s.leaf m'.ram va.splitSlots = .make f .userWritable)
    (adds : m₁.Adds live {(s, va.splitSlots)} m') : m.Handing live owed s start pages n m' := by
  have below {i : Nat} {g : FrameId} (found : pages[i]? = some (some g)) : i < 32 :=
    Nat.lt_of_lt_of_le (List.getElem?_eq_some_iff.mp found).1 few
  have kept {i : Nat} {g : FrameId} {va' : VirtualAddress} (other : i ≠ n)
      (found' : pages[i]? = some (some g)) (place' : Space.ArgumentAt start i va') :
      s.leaf m'.ram va'.splitSlots = s.leaf m₁.ram va'.splitSlots := by
    refine adds.elsewhere.entries s hs _ fun same => ?_
    have same := (Prod.mk.inj same).2
    rcases Nat.lt_or_gt_of_ne other with less | more
    · exact place'.splitSlots_ne place less (below found) same
    · exact place.splitSlots_ne place' more (below found') same.symm
  refine ⟨sound, fun i g va' above found' place' => ?_, fun i g va' less found' place' => ?_, ?_⟩
  · by_cases same : i = n
    · subst same
      cases found.symm.trans found'
      cases place.symm.trans place'
      exact entry
    · rw [kept same found' place']
      exact handing.mapped i g va' (by omega) found' place'
  · rw [kept (by omega) found' place']
    exact handing.vacant i g va' (by omega) found' place'
  · refine (handing.adds.trans adds).mono ?_
    rintro p (⟨here, i, g, va', above, at'⟩ | rfl)
    · exact ⟨here, i, g, va', by omega, at'⟩
    · exact ⟨rfl, n, f, va, Nat.le_refl n, found, place, rfl⟩

/-- A page that was in somebody's hands at first still has a single reference. -/
theorem one (handing : m.Handing live owed s start pages n m')
    (held : ∀ f ∈ pages.filterMap id, m.pool.refCount? f = some 1) {i : Nat}
    (found : pages[i]? = some (some f)) : m'.pool.refCount? f = some 1 := by
  have given := held f (List.mem_filterMap.mpr ⟨_, List.mem_of_getElem? found, rfl⟩)
  rw [handing.adds.counts f, given]
  rw [InUse, given]
  decide

/-- The pages that have not been mapped are given up. -/
theorem handed (handing : m.Handing live owed s start pages n m₁) (hs : s ∈ live)
    (distinct : (pages.filterMap id).Nodup)
    (held : ∀ f ∈ pages.filterMap id, m.pool.refCount? f = some 1)
    (fits : start.value + taskSize ≤ 4294967296) (few : pages.length ≤ maxArgumentPages)
    (sound : (m'.view live).Sound owed) (ram : m'.ram = m₁.ram)
    (events : m'.events.toList = m₁.events.toList ++ (numbered pages n).map .frameFreed)
    (zero : ∀ f ∈ numbered pages n, m'.pool.refCount? f = some 0)
    (same : ∀ f, f ∉ numbered pages n → m'.pool.refCount? f = m₁.pool.refCount? f) :
    m.Handed live s start pages n m' := by
  refine ⟨fun i f above found => ?_, fun i f below found => ?_, fun f busy spared => ?_, ?_, ?_⟩
  · have inside : i < maxArgumentPages :=
      Nat.lt_of_lt_of_le (List.getElem?_eq_some_iff.mp found).1 few
    obtain ⟨va, place⟩ := Space.exists_argumentAt fits inside
    have leaf := handing.mapped i f va above found place
    rw [← ram] at leaf
    have entry := (m'.shows_view live).entry_of_present sound.separate hs
      ((congrArg Entry.present leaf).trans rfl)
    refine ⟨?_, va, place, entry.trans (congrArg (Except.ok ∘ some) leaf)⟩
    rw [same f (not_mem_numbered distinct above found), handing.one held found]
  · refine ⟨zero f (mem_numbered_iff.mpr ⟨i, below, found⟩), fun va e place entry => ?_⟩
    rw [← leaf_of_entry sound hs entry, ram]
    exact handing.vacant i f va below found place
  · rw [same f spared, handing.adds.counts f busy]
  · obtain ⟨notes, noted, kept⟩ := handing.adds.journal
    exact ⟨notes, by rw [events, noted], kept⟩
  · have elsewhere := handing.adds.elsewhere
    refine ⟨?_, ?_, ?_⟩
    · rw [ram]
      exact elsewhere.directories
    · rw [ram]
      exact elsewhere.entries
    · rw [ram]
      exact elsewhere.bytes

theorem release (handing : m.Handing live owed s start pages n m₁) (hs : s ∈ live)
    (distinct : (pages.filterMap id).Nodup)
    (held : ∀ f ∈ pages.filterMap id, m.pool.refCount? f = some 1)
    (fits : start.value + taskSize ≤ 4294967296) (few : pages.length ≤ maxArgumentPages) :
    Ends ((numbered pages n).forM PagedMemory.release) m₁ (fun _ => False) fun _ m' =>
      (m'.view live).Sound owed ∧ m.Handed live s start pages n m' := by
  have some' : ((pages.take n).filterMap id).Sublist (pages.filterMap id) :=
    (List.take_sublist n pages).filterMap id
  have one (f : FrameId) (mem : f ∈ numbered pages n) : m₁.pool.refCount? f = some 1 := by
    obtain ⟨i, -, found⟩ := mem_numbered_iff.mp mem
    exact handing.one held found
  have shows := m₁.shows_view live
  have released := shows.releaseEach (s := s) (numbered pages n) m₁ handing.sound
    (fun f mem => (shows.refCount?_eq_some_iff.mp (one f mem)).1) fun _ mem => mem
  refine ((released.and (Ends.releaseEach (some'.nodup distinct) m₁ one)).mono ?_).mono_stops
    fun _ stop => stop.2
  rintro _ m' ⟨⟨w, acts, shows'⟩, ram, events, zero, same⟩
  have sound := shows'.sound_view (acts.sound handing.sound)
  rw [acts.live fun _ => Installs.lasting] at sound
  exact ⟨sound, handing.handed hs distinct held fits few sound ram events zero same⟩

/-- The rest of the pages is mapped, or given up from the first one that fails. -/
theorem installEach (hs : s ∈ live) (distinct : (pages.filterMap id).Nodup)
    (held : ∀ f ∈ pages.filterMap id, m.pool.refCount? f = some 1)
    (fits : start.value + taskSize ≤ 4294967296) (few : pages.length ≤ maxArgumentPages) (n : Nat)
    (inside : n ≤ pages.length) (m₁ : Machine)
    (handing : m.Handing live owed s start pages n m₁) :
    Tries (s.installEach start pages (pages.take n).zipIdx.reverse) m₁ (fun _ => False)
      (fun _ m' => (m'.view live).Sound owed ∧ m.Handed live s start pages 0 m')
      (fun cause m' => (m'.view live).Sound owed ∧ cause = .outOfMemory ∧
        ∃ k f, pages[k]? = some (some f) ∧ m.Handed live s start pages (k + 1) m') := by
  apply (Tries.installEach (m.Handing live owed s start pages) (fun _ _ none left => left.skip none)
    ?_ ?_ n inside m₁ handing).mono_done
  · intro _ m' handing'
    have sound : (m'.view live).Sound owed := handing'.sound
    exact ⟨sound, handing'.handed hs distinct held fits few sound rfl (List.append_nil _).symm nofun
      fun _ _ => rfl⟩
  · intro i f cause found unplaced
    obtain ⟨va, place⟩ := Space.exists_argumentAt fits
      (Nat.lt_of_lt_of_le (List.getElem?_eq_some_iff.mp found).1 few)
    cases place.symm.trans unplaced
  · intro i f va m₂ found place left
    have sound := left.sound
    rw [numbered_succ found, tally_concat, ← add_assoc] at sound
    have absent := left.vacant i f va (Nat.lt_succ_self i) found place
    apply (mapOne_adds sound hs (left.one held found) absent).mono
    · rintro _ m' ⟨sound', mapped, adds⟩
      exact left.map hs few found place sound' mapped adds
    · rintro cause _ ⟨rfl, rfl⟩
      apply (left.release hs distinct held fits few).mono
      rintro _ m' ⟨sound', handed⟩
      exact ⟨sound', rfl, i, f, found, handed⟩

end Handing

end Machine

/-- Argument pages that are in somebody's hands, go where nothing is mapped and are not needed
elsewhere change hands for good. Either all of them are mapped, or memory runs out at one of them:
then those above it are mapped, and it is given up with those below it. The kernel does not stop,
and nobody owes anything but what was owed beside the pages. -/
theorem argument_pages_change_hands
    (sound : (m.view live).Sound (owed + tally (pages.filterMap id))) (hs : s ∈ live)
    (fits : start.value + taskSize ≤ 4294967296) (few : pages.length ≤ maxArgumentPages)
    (distinct : (pages.filterMap id).Nodup)
    (held : ∀ f ∈ pages.filterMap id, m.pool.refCount? f = some 1)
    (missing : ∀ i f va e, pages[i]? = some (some f) → Space.ArgumentAt start i va →
      s.entry m.ram va = .ok (some e) → e.present = false) :
    ∃ result m', outcome (s.installArguments start pages) m = .ok (result, m') ∧
      (m'.view live).Sound owed ∧
      (result = .ok () ∧ m.Handed live s start pages 0 m' ∨
        result = .error .outOfMemory ∧
          ∃ k f, pages[k]? = some (some f) ∧ m.Handed live s start pages (k + 1) m') := by
  have whole : numbered pages pages.length = pages.filterMap id := by
    rw [numbered, List.take_length]
  have handing : m.Handing live owed s start pages pages.length m := by
    refine ⟨whole.symm ▸ sound, fun i f va above found => ?_, fun i f va _ found place => ?_,
      .refl m⟩
    · have := (List.getElem?_eq_some_iff.mp found).1
      omega
    · by_contra present
      rw [Bool.not_eq_false] at present
      have gone := missing i f va _ found place
        ((m.shows_view live).entry_of_present sound.separate hs present)
      cases present.symm.trans gone
  have installs : Tries (s.installArguments start pages) m (fun _ => False)
      (fun _ m' => (m'.view live).Sound owed ∧ m.Handed live s start pages 0 m')
      (fun cause m' => (m'.view live).Sound owed ∧ cause = .outOfMemory ∧
        ∃ k f, pages[k]? = some (some f) ∧ m.Handed live s start pages (k + 1) m') := by
    have each := handing.installEach hs distinct held fits few _ (Nat.le_refl _) m
    rw [List.take_length] at each
    unfold Space.installArguments
    rw [if_neg (Nat.not_lt.mpr few)]
    exact each
  obtain ⟨result, m', run, post⟩ := Ends.exists_run installs fun _ => id
  refine ⟨result, m', run, ?_⟩
  cases result with
  | ok => exact ⟨post.1, .inl ⟨rfl, post.2⟩⟩
  | error cause => exact ⟨post.1, .inr ⟨congrArg _ post.2.1, post.2.2⟩⟩

section Tiny

/-- The area of the arguments begins in the last pages of one slot of the directory and ends in the
first ones of the next. -/
def tinyStretch : VirtualAddress :=
  ⟨65536, by decide⟩

/-- One page goes to either slot, to both sides of the border between them. -/
def tinyArguments : List (Option FrameId) :=
  List.replicate 15 none ++ [some (tinyFrame 6), some (tinyFrame 5)]

def tinyInstall : Attempt Unit :=
  tinySpace.installArguments tinyStretch tinyArguments

/-- Two more pages have been taken by their holders, and one frame is free. -/
def tinyCrowded : Books × Machine :=
  Call.allocPage.after (Call.allocPage.after tinyAfter)

theorem reaches_tinyCrowded : Reaches (fun m b c => c.Allowed m b ∧ c.Thorough m) .standard .tiny
    .lowest tinyCrowded.2 tinyCrowded.1 :=
  .next (.next reaches_tinyAfter ⟨⟨trivial, trivial⟩, trivial⟩ (by decide +kernel))
    ⟨⟨trivial, trivial⟩, trivial⟩ (by decide +kernel)

/-- What is owed beside both pages. -/
def tinyRest : Owed :=
  Layout.tiny.reserve + inHand (tinyCrowded.1.held \ (tinyArguments.filterMap id).toFinset)

theorem sound_tinyCrowded :
    (tinyCrowded.2.view tinyCrowded.1.live).Sound
      (tinyRest + tally (tinyArguments.filterMap id)) := by
  have sound := reaches_tinyCrowded.sound fun _ _ _ h => h
  have among : ∀ f ∈ tinyArguments.filterMap id, f ∈ tinyCrowded.1.held := by decide +kernel
  rwa [Books.owed, inHand_sdiff (by decide) among, ← add_assoc] at sound

/-- The page behind the border takes the last frame for its page table, and the page before it is
given up. -/
theorem argument_pages_change_hands_tiny :
    outcome tinyInstall tinyCrowded.2 =
      .ok (.error .outOfMemory, tinyCrowded.2.after tinyInstall) ∧
    ((tinyCrowded.2.after tinyInstall).view tinyCrowded.1.live).Sound tinyRest ∧
    tinyCrowded.2.Handed tinyCrowded.1.live tinySpace tinyStretch tinyArguments 16
      (tinyCrowded.2.after tinyInstall) := by
  have live : tinySpace ∈ tinyCrowded.1.live := by decide +kernel
  have failed : tinyCrowded.2.failure tinyInstall = some .outOfMemory := by decide +kernel
  have held : ∀ f ∈ tinyArguments.filterMap id, tinyCrowded.2.pool.refCount? f = some 1 := by
    decide +kernel
  have missing (i : Nat) (f : FrameId) (va : VirtualAddress) (e : Entry)
      (found : tinyArguments[i]? = some (some f)) (place : Space.ArgumentAt tinyStretch i va)
      (entry : tinySpace.entry tinyCrowded.2.ram va = .ok (some e)) : e.present = false := by
    have nowhere : ∀ i < 17, tinySpace.entry tinyCrowded.2.ram
        (tinyStretch.wrappingAdd (taskSize - (maxArgumentPages - i) * pageBytes)) = .ok none := by
      decide +kernel
    have here : tinyStretch.wrappingAdd (taskSize - (maxArgumentPages - i) * pageBytes) = va :=
      Address.ext ((congrArg (· % 4294967296) (Space.argumentAt_iff.mp place)).trans
        (Nat.mod_eq_of_lt va.value_lt))
    have unmapped := nowhere i (List.getElem?_eq_some_iff.mp found).1
    rw [here, entry] at unmapped
    cases unmapped
  obtain ⟨result, m', run, sound, outcomes⟩ := argument_pages_change_hands sound_tinyCrowded live
    (by decide) (by decide) (by decide) held missing
  obtain ⟨⟩ := (Machine.run_of_failure failed).symm.trans run
  obtain ⟨done, -⟩ | ⟨-, k, f, found, handed⟩ := outcomes
  · cases done
  have given : ∀ k < 17, (tinyArguments[k]?.bind id).isSome = true → k = 15 ∨ k = 16 := by decide
  have one : (tinyCrowded.2.after tinyInstall).pool.refCount? (tinyFrame 5) = some 1 := by
    decide +kernel
  obtain rfl | rfl := given k (List.getElem?_eq_some_iff.mp found).1 (by rw [found]; rfl)
  · exact ⟨run, sound, handed⟩
  · cases (handed.freed 16 (tinyFrame 5) (by decide) rfl).1.symm.trans one

end Tiny

end PagedMemory
