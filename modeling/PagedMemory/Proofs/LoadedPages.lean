import PagedMemory.Proofs.Disk
import PagedMemory.Proofs.FreedRanges
import PagedMemory.Proofs.Processes
import PagedMemory.Proofs.Unsharing

/-!
# Pages that are loaded

A page of an image that is missing and that no other process shares is read from the device. It
comes to lie in a frame that was free (`Machine.Gained`), which holds the bytes of the executable
up to the end of the data. Nothing else is touched, and no block is read that is not behind the
page.

The bytes behind the data are cleared, with one exception. The end of the last page of the address
space is no 32-bit number, so the tail of this page is counted from one byte too far on: the byte
right behind the data is kept as the device has it.
-/

namespace PagedMemory

variable {m m' : Machine} {live : Finset Space} {owed : Owed} {env : Environment} {s : Space}
  {va : VirtualAddress} {kind : FaultKind} {image : Image} {executable : ExecutableId}
  {offset : Nat} {f : FrameId} {b : Frame}

namespace Image

/-- The bytes of a page that are not cleared are those of the data and, in the last page of the
address space, the one behind them. -/
theorem lt_tail_iff {j : Nat} (backed : offset < image.endData)
    (inside : offset + 4096 ≤ 4294967296) (h : j < 4096) :
    j < 4096 - image.tailLength offset ↔ offset + j < image.endData ∨
      offset = 4294963200 ∧ offset + j = image.endData := by
  unfold tailLength pageBytes
  omega

/-- A page of an image ends within the address space. -/
theorem page_inside (backed : image.source? (va.alignDown .small) = some (executable, offset)) :
    offset + 4096 ≤ 4294967296 := by
  have sum := (source?_eq_some_iff.mp backed).1
  have below := va.value_lt
  rw [Address.value_alignDown] at sum
  simp only [PageSize.bytes] at sum
  omega

end Image

namespace View

variable {v w : View} {i : Slot} {k : Place} {t g : FrameId}

theorem leaf_filled_of_ne {s' : Space} {k' : Place} (other : (s', k') ≠ (s, k)) :
    (v.filled s k f b).leaf s' k' = v.leaf s' k' := by
  apply leaf_setLeaf_of_ne (v := v.grant f b)
  rintro ⟨rfl, rfl⟩
  exact other rfl

/-- A frame that is free after a page table was made was free before. -/
theorem Covers.free_of_free (covers : v.Covers s i t w) (free : w.Free f) : v.Free f := by
  by_contra used
  have kept := (covers.of_not_free used).1
  exact used ⟨(covers.tracks f).symm.trans free.1, kept.symm.trans free.2⟩

/-- No frame in use is counted anew for a page that is filled, or for its page table. -/
theorem Covers.count_filled (covers : v.Covers s i t w) (free : w.Free f) (used : ¬ v.Free g) :
    (w.filled s k f b).count g = v.count g := by
  have other : g ≠ f := by
    rintro rfl
    exact used (covers.free_of_free free)
  exact (if_neg other).trans (covers.of_not_free used).1

end View

namespace Machine

/-- The page of an address, which was missing, has come to lie in the frame `f`, which was free,
and holds the bytes `b`. No other page has changed, and no other count of a frame in use. -/
structure Gained (m : Machine) (live : Finset Space) (s : Space) (va : VirtualAddress)
    (f : FrameId) (b : Frame) (m' : Machine) : Prop where
  free : m.pool.refCount? f = some 0
  entry : s.entry m'.ram va = .ok (some (.make f .userWritable))
  bytes : m'.ram.frame? f = some b
  one : m'.pool.refCount? f = some 1
  counts : ∀ g, m.pool.refCount? g ≠ some 0 → m'.pool.refCount? g = m.pool.refCount? g
  entries : ∀ s' ∈ live, ∀ k, (s', k) ≠ (s, va.splitSlots) →
    s'.leaf m'.ram k = s'.leaf m.ram k

/-- A page that was filled, after blocks may have been read for it, was gained. -/
theorem Shows.gained {reads : Array (DeviceId × BlockNumber)} {t : FrameId} {w : View}
    (shows : m'.Shows (w.filled s va.splitSlots f b)) (sound : (m.view live).Sound owed)
    (hs : s ∈ live) (absent : (s.leaf m.ram va.splitSlots).present = false)
    (covers : View.Covers { m.view live with reads := reads } s va.directorySlot t w)
    (free : w.Free f) : m.Gained live s va f b m' := by
  have before : View.Sound { m.view live with reads := reads } owed := { sound with }
  have hs' : s ∈ w.live := covers.live ▸ hs
  have vacant : (w.leaf s va.splitSlots).present = false := by
    rw [covers.leaf]
    exact absent
  have after : (w.filled s va.splitSlots f b).Sound owed :=
    (View.Act.fill hs' vacant free).sound (covers.sound hs before)
  have mapped := congrArg Entry.present (View.leaf_filled_self w s va.splitSlots f b)
  have unused : (m.view live).Free f := covers.free_of_free free
  refine ⟨free_view_iff.mp unused, ?_, ?_, ?_, ?_, ?_⟩
  · rw [shows.entry_of_present after.separate hs' mapped, View.leaf_filled_self]
  · have shown := after.not_hidden_of_leaf hs' (View.refers_leaf mapped)
    rw [View.leaf_filled_self] at shown
    have held := shows.frame?_eq (after.fits.inside free.1) shown
    exact held.trans (congrArg some (if_pos rfl))
  · exact shows.refCount?_eq_some_iff.mpr ⟨free.1, if_pos rfl⟩
  · intro g used
    have busy : ¬ (m.view live).Free g := fun free => used (free_view_iff.mp free)
    have tracks : (w.filled s va.splitSlots f b).tracks g = (m.view live).tracks g :=
      covers.tracks g
    rw [shows.refCount?_eq_ite, (m.shows_view live).refCount?_eq_ite, tracks,
      covers.count_filled free busy]
  · intro s' hs₁ k outside
    rw [shows.leaf s' (covers.live ▸ hs₁), View.leaf_filled_of_ne outside, covers.leaf]
    rfl

end Machine

/-! ## How a page comes to be loaded -/

/-- The page of an address has been mapped with what the device returned for it, and what was
noted apart from that does not matter. -/
inductive Environment.Loads (env : Environment) (s : Space) (va : VirtualAddress) (m : Machine) :
    Machine → Prop
  | intro {image : Image} {executable : ExecutableId} {offset : Nat} {m₁ : Machine}
      {events : Array Event} (runs : env.image env.current = some image)
      (backed : image.source? (va.alignDown .small) = some (executable, offset))
      (run : outcome (mapLoadedPage env s image executable offset (va.alignDown .small)) m =
        .ok (.ok (), m₁)) :
      Loads env s va m { m₁ with events := events }

namespace Environment

/-- Before a page is loaded, peers have been asked to no effect. -/
theorem loads_fillPage (env : Environment) (s : Space) (va : VirtualAddress) (m : Machine) :
    Tries (fillPage env env.current s va) m (fun _ => True)
      (fun how m' => how = .loaded → env.Loads s va m m') fun _ _ => True := by
  have kept := Machine.Unchanged.refl m
  unfold fillPage
  cases runs : env.image env.current with
  | none => exact Tries.fail trivial
  | some image =>
    cases backed : image.source? (va.alignDown .small) with
    | none =>
      simp only [backed]
      refine ((kept.mapEmptyPage s _).mono_failed fun _ _ _ => trivial).bind ?_
      intro _ m₁ _
      exact Tries.pure nofun
    | some source =>
      obtain ⟨executable, offset⟩ := source
      simp only [backed]
      refine ((kept.findShared _ s _ _ _).mono_failed fun _ _ _ => trivial).bind ?_
      intro shared m₁ refused
      cases shared with
      | true => exact Tries.pure nofun
      | false =>
        obtain rfl := refused rfl
        have maps := kept.mapLoadedPage env s image executable offset (va.alignDown .small)
        refine (maps.with_run.mono_failed fun _ _ _ => trivial).bind ?_
        rintro _ m₂ ⟨run, -⟩
        exact Tries.pure fun _ => .intro runs backed run

/-- Only a page that is missing is loaded. -/
theorem loads_of_run (sound : (m.view live).Sound owed) (hs : s ∈ live)
    (owner : env.addressSpace env.current = some s)
    (run : outcome (handleFault env kind va) m = .ok (.ok .loaded, m')) :
    (s.leaf m.ram va.splitSlots).present = false ∧ env.Loads s va m m' := by
  have shows := m.shows_view live
  cases mapped : ((m.view live).leaf s va.splitSlots).present with
  | true =>
    have resolved : Tries (resolveFault env kind va) m (fun _ => True)
        (fun how _ => how ≠ .loaded) fun _ _ => True := by
      apply Tries.resolveFault_of_present owner (shows.entry_of_present sound.separate hs mapped)
        mapped
      · intro _
        apply ((shows.unsharePage sound hs va).mono_stops fun _ _ => trivial).mono
        · intro how m₁ post
          cases how with
          | none =>
            rw [post.1] at mapped
            cases mapped
          | some how =>
            obtain ⟨v', unshares, -⟩ := post
            refine ⟨how, rfl, ?_⟩
            rintro rfl
            cases unshares
        · intro _ _ _
          trivial
      · intro _
        exact (Ends.any flush m).mono fun _ _ _ => nofun
    have handled : Tries (handleFault env kind va) m (fun _ => True)
        (fun how _ => how ≠ .loaded) fun _ _ => True :=
      resolved.handleFault (fun _ _ _ post => post) fun _ _ _ _ => trivial
    exact absurd rfl (handled.done_of_run run)
  | false =>
    obtain ⟨found, seen, absent⟩ := shows.absent_of_entry sound.separate hs mapped
    have handled : Tries (handleFault env kind va) m (fun _ => True)
        (fun how m' => how = .loaded → env.Loads s va m m') fun _ _ => True := by
      apply (Tries.resolveFault_of_absent owner seen absent (env.loads_fillPage s va m)).handleFault
      · intro how m₁ events loads same
        cases loads same with
        | @intro _ _ _ m₂ _ runs backed run =>
          show env.Loads s va m { m₂ with events := events }
          exact .intro runs backed run
      · intro _ _ _ _
        trivial
    exact ⟨mapped, handled.done_of_run run rfl⟩

/-- The blocks behind the page at an offset, on the device, without the holes. -/
def storedBlocks (env : Environment) (executable : ExecutableId) (offset : Nat) :
    List (DeviceId × BlockNumber) :=
  (((List.range' (1 + offset / 1024) 4).map (env.blockMap executable)).filter (· ≠ 0)).map
    fun block => (env.device executable, block)

theorem reads_recorded {v : View} {before : Frame}
    (complete : (env.pageRead executable offset before).failure = none) :
    (v.recorded (env.device executable) (env.pageRead executable offset before).reads).reads =
      v.reads ++ (env.storedBlocks executable offset).toArray := by
  have blocks : Image.blocks offset = List.range' (1 + offset / 1024) 4 :=
    List.range'_eq_map_range.symm
  unfold View.recorded storedBlocks
  rw [List.foldl_push_eq_append, ← blocks, ← (readBlocks_complete complete).1]
  rfl

end Environment

/-- A page that was loaded was gained. It holds what was read, no other block was read, and nothing
else has been written to. -/
theorem Machine.gained_of_loads (sound : (m.view live).Sound owed) (hs : s ∈ live)
    (absent : (s.leaf m.ram va.splitSlots).present = false) (loads : env.Loads s va m m') :
    ∃ image executable offset f before, env.image env.current = some image ∧
      image.source? (va.alignDown .small) = some (executable, offset) ∧
      (env.pageRead executable offset before).failure = none ∧
      m.Gained live s va f (env.loaded image executable offset before) m' ∧
      m'.reads = m.reads ++ (env.storedBlocks executable offset).toArray ∧
      m.Elsewhere live {(s, va.splitSlots)} m' := by
  cases loads with
  | @intro image executable offset m₁ events runs backed run =>
    have root : m.InUse s.root := .of_count (sound.root s hs).2 Nat.one_ne_zero
    have writes := (Writes.mapLoadedPage env root image executable offset
      (va.alignDown .small)).done_of_run run
    obtain ⟨f, before, t, w, complete, covers, free, shows⟩ :=
      ((m.shows_view live).mapLoadedPage sound env hs image executable offset
        (va.alignDown .small)).done_of_run run
    rw [Address.directorySlot_alignDown] at covers
    rw [Address.splitSlots_alignDown] at shows writes
    rw [View.remap_grant (v := (m.view live).recorded _ _) absent covers] at shows
    have gained : m.Gained live s va f (env.loaded image executable offset before)
        { m₁ with events := events } :=
      (shows.remarked events).gained sound hs absent covers free
    refine ⟨image, executable, offset, f, before, runs, backed, complete, gained, ?_, ?_⟩
    · have reads : m₁.reads = w.reads := shows.reads
      have kept : w.reads = ((m.view live).recorded (env.device executable)
          (env.pageRead executable offset before).reads).reads := covers.reads
      exact (reads.trans kept).trans (Environment.reads_recorded complete)
    · apply Writes.elsewhere _ sound
      · rintro _ rfl
        exact hs
      · exact gained.entries
      · rw [Set.image_singleton]
        exact writes.keep rfl

/-! ## What a loaded page holds -/

namespace Environment

variable {before : Frame} {j : Nat}

/-- A byte that is not cleared is that of the executable. -/
theorem imageByte_loaded (aligned : offset % 4096 = 0)
    (backed : image.source? (va.alignDown .small) = some (executable, offset))
    (complete : (env.pageRead executable offset before).failure = none) (h : j < 4096)
    (kept : offset + j < image.endData ∨ offset = 4294963200 ∧ offset + j = image.endData) :
    env.imageByte executable (offset + j) = .ok (env.loaded image executable offset before)[j] := by
  have short := (Image.source?_eq_some_iff.mp backed).2.1
  rw [env.imageByte_eq aligned h complete, env.getElem_loaded aligned h complete,
    if_pos ((Image.lt_tail_iff short (Image.page_inside backed) h).mpr kept)]

theorem loaded_eq_zero (aligned : offset % 4096 = 0)
    (backed : image.source? (va.alignDown .small) = some (executable, offset))
    (complete : (env.pageRead executable offset before).failure = none) (h : j < 4096)
    (behind : image.endData ≤ offset + j)
    (others : ¬ (offset = 4294963200 ∧ offset + j = image.endData)) :
    (env.loaded image executable offset before)[j] = 0 := by
  have short := (Image.source?_eq_some_iff.mp backed).2.1
  rw [env.getElem_loaded aligned h complete, if_neg]
  intro tail
  rcases (Image.lt_tail_iff short (Image.page_inside backed) h).mp tail with data | last
  · omega
  · exact others last

end Environment

/-- A page that was loaded was missing before, lies in a frame that was free, and can be written
to. Up to the end of the data it holds the bytes of the executable. The blocks behind it were read
in their order, and apart from the page nothing has changed. -/
theorem loaded_pages_hold_the_image (sound : (m.view live).Sound owed) (hs : s ∈ live)
    (owner : env.addressSpace env.current = some s) (runs : env.image env.current = some image)
    (start : image.startCode.isAligned .small = true)
    (run : outcome (handleFault env kind va) m = .ok (.ok .loaded, m')) :
    ∃ executable offset f b, image.executable = some executable ∧
      image.startCode.value + offset = (va.alignDown .small).value ∧
      m.Gained live s va f b m' ∧
      (∀ i (h : i < 4096), offset + i < image.endData →
        env.imageByte executable (offset + i) = .ok b[i]) ∧
      m'.reads = m.reads ++ (env.storedBlocks executable offset).toArray ∧
      m.Elsewhere live {(s, va.splitSlots)} m' := by
  obtain ⟨absent, loads⟩ := Environment.loads_of_run sound hs owner run
  obtain ⟨image', executable, offset, f, before, runs', backed, complete, gained, reads, elsewhere⟩ :=
    Machine.gained_of_loads sound hs absent loads
  cases runs.symm.trans runs'
  obtain ⟨sum, -, held⟩ := Image.source?_eq_some_iff.mp backed
  have aligned := Image.offset_aligned start backed
  refine ⟨executable, offset, f, _, held, sum, gained, ?_, reads, elsewhere⟩
  intro i h data
  exact Environment.imageByte_loaded aligned backed complete h (.inl data)

/-- The bytes of a loaded page that lie behind the data are zero. Only if the page is the last one
of the address space, the byte right behind the data is that of the executable. -/
theorem loaded_pages_clear_the_tail (sound : (m.view live).Sound owed) (hs : s ∈ live)
    (owner : env.addressSpace env.current = some s) (runs : env.image env.current = some image)
    (start : image.startCode.isAligned .small = true)
    (run : outcome (handleFault env kind va) m = .ok (.ok .loaded, m')) :
    ∃ executable offset f b, image.executable = some executable ∧
      image.startCode.value + offset = (va.alignDown .small).value ∧
      s.entry m'.ram va = .ok (some (.make f .userWritable)) ∧ m'.ram.frame? f = some b ∧
      ∀ i (h : i < 4096), image.endData ≤ offset + i →
        if offset = 4294963200 ∧ offset + i = image.endData then
          env.imageByte executable image.endData = .ok b[i]
        else
          b[i] = 0 := by
  obtain ⟨absent, loads⟩ := Environment.loads_of_run sound hs owner run
  obtain ⟨image', executable, offset, f, before, runs', backed, complete, gained, -, -⟩ :=
    Machine.gained_of_loads sound hs absent loads
  cases runs.symm.trans runs'
  obtain ⟨sum, -, held⟩ := Image.source?_eq_some_iff.mp backed
  have aligned := Image.offset_aligned start backed
  refine ⟨executable, offset, f, _, held, sum, gained.entry, gained.bytes, ?_⟩
  intro i h behind
  split
  · next last =>
    rw [← last.2]
    exact Environment.imageByte_loaded aligned backed complete h (.inr last)
  · next others => exact Environment.loaded_eq_zero aligned backed complete h behind others

section Tiny

/-- The first page of the image, which begins at block 1. -/
def tinyLoad : Attempt Resolution :=
  handleFault tinyReader .notPresent .zero

theorem loaded_pages_hold_the_image_tiny :
    outcome tinyLoad tinyAfter.2 = .ok (.ok .loaded, tinyAfter.2.after tinyLoad) ∧
    ∃ executable offset f b, some ⟨1⟩ = some executable ∧ 0 + offset = 0 ∧
      tinyAfter.2.Gained tinyAfter.1.live tinySpace .zero f b (tinyAfter.2.after tinyLoad) ∧
      (∀ i (h : i < 4096), offset + i < 65536 →
        tinyReader.imageByte executable (offset + i) = .ok b[i]) ∧
      (tinyAfter.2.after tinyLoad).reads =
        tinyAfter.2.reads ++ (tinyReader.storedBlocks executable offset).toArray ∧
      tinyAfter.2.Elsewhere tinyAfter.1.live {(tinySpace, Address.splitSlots .zero)}
        (tinyAfter.2.after tinyLoad) := by
  have live : tinySpace ∈ tinyAfter.1.live := by decide +kernel
  have owner : tinyReader.addressSpace tinyReader.current = some tinySpace := rfl
  have runs : tinyReader.image tinyReader.current = some ⟨some ⟨1⟩, .zero, 0, 65536, 65536⟩ := rfl
  have run : outcome tinyLoad tinyAfter.2 = .ok (.ok .loaded, tinyAfter.2.after tinyLoad) :=
    Machine.run_of_product (by decide +kernel)
  exact ⟨run, loaded_pages_hold_the_image sound_tinyAfter live owner runs (by decide) run⟩

/-- A process whose executable has no zeros and ends in the middle of the last page. -/
def tinyFull : Environment :=
  { Environment.solitary 1 (some tinySpace)
      (some ⟨some ⟨1⟩, .zero, 0, 4294965248, 4294965248⟩) with
    blockMap := fun _ block => block
    readBlock := fun _ _ => .ok (Vector.replicate 1024 7) }

def tinyLast : VirtualAddress :=
  ⟨4294963200, by decide⟩

def tinyLoadLast : Attempt Resolution :=
  handleFault tinyFull .notPresent tinyLast

theorem run_tinyLoadLast :
    outcome tinyLoadLast tinyAfter.2 = .ok (.ok .loaded, tinyAfter.2.after tinyLoadLast) :=
  Machine.run_of_product (by decide +kernel)

theorem loaded_pages_clear_the_tail_tiny :
    outcome tinyLoadLast tinyAfter.2 = .ok (.ok .loaded, tinyAfter.2.after tinyLoadLast) ∧
    ∃ executable offset f b, some ⟨1⟩ = some executable ∧ 0 + offset = 4294963200 ∧
      tinySpace.entry (tinyAfter.2.after tinyLoadLast).ram tinyLast =
        .ok (some (.make f .userWritable)) ∧
      (tinyAfter.2.after tinyLoadLast).ram.frame? f = some b ∧
      ∀ i (h : i < 4096), 4294965248 ≤ offset + i →
        if offset = 4294963200 ∧ offset + i = 4294965248 then
          tinyFull.imageByte executable 4294965248 = .ok b[i]
        else
          b[i] = 0 := by
  have live : tinySpace ∈ tinyAfter.1.live := by decide +kernel
  have owner : tinyFull.addressSpace tinyFull.current = some tinySpace := rfl
  have runs : tinyFull.image tinyFull.current =
      some ⟨some ⟨1⟩, .zero, 0, 4294965248, 4294965248⟩ := rfl
  exact ⟨run_tinyLoadLast,
    loaded_pages_clear_the_tail sound_tinyAfter live owner runs (by decide) run_tinyLoadLast⟩

/-- The data ends at offset 2048 of the last page, and the byte there is not cleared. -/
theorem last_page_keeps_a_byte :
    (tinyAfter.2.view tinyAfter.1.live).Sound (tinyAfter.1.owed .tiny) ∧
    tinySpace ∈ tinyAfter.1.live ∧ tinyFull.addressSpace tinyFull.current = some tinySpace ∧
    tinyFull.image tinyFull.current = some ⟨some ⟨1⟩, .zero, 0, 4294963200 + 2048, 4294965248⟩ ∧
    outcome tinyLoadLast tinyAfter.2 = .ok (.ok .loaded, tinyAfter.2.after tinyLoadLast) ∧
    ∃ f b, tinySpace.entry (tinyAfter.2.after tinyLoadLast).ram tinyLast =
        .ok (some (.make f .userWritable)) ∧
      (tinyAfter.2.after tinyLoadLast).ram.frame? f = some b ∧ b[2048] ≠ 0 := by
  have live : tinySpace ∈ tinyAfter.1.live := by decide +kernel
  have owner : tinyFull.addressSpace tinyFull.current = some tinySpace := rfl
  obtain ⟨absent, loads⟩ := Environment.loads_of_run sound_tinyAfter live owner run_tinyLoadLast
  obtain ⟨image, executable, offset, f, before, runs, backed, complete, gained, -, -⟩ :=
    Machine.gained_of_loads sound_tinyAfter live absent loads
  cases runs
  obtain ⟨sum, -, -⟩ := Image.source?_eq_some_iff.mp backed
  obtain rfl : offset = 4294963200 := (Nat.zero_add offset).symm.trans sum
  have last := Environment.imageByte_loaded rfl backed complete (by decide : 2048 < 4096)
    (.inr ⟨rfl, rfl⟩)
  have byte : tinyFull.imageByte executable (4294963200 + 2048) = .ok 7 := rfl
  refine ⟨sound_tinyAfter, live, rfl, rfl, run_tinyLoadLast, f, _, gained.entry, gained.bytes, ?_⟩
  rw [Except.ok.inj (last.symm.trans byte)]
  decide

end Tiny

end PagedMemory
