import PagedMemory.Proofs.Auditing
import PagedMemory.Proofs.SinglePages

/-!
# Pages that are mapped over

`Space.mapOne` replaces whatever the entry of a page held, and passes on the reference of its
caller. The reference of the entry that was there before is given up by nobody. Two operations can
get there: an empty page and the argument pages go to whatever addresses they are asked for.

The counts are right afterwards, beside one reference too many for each frame that was mapped over
(`Machine.Leaks`). These frames are never handed out again, and the audit reports the first of
them.
-/

namespace PagedMemory

variable {m m' : Machine} {v v' w : View} {live : Finset Space} {o owed lost : Owed} {s : Space}
  {start va : VirtualAddress} {pages : List (Option FrameId)} {n : Nat} {f t : FrameId} {k : Place}

/-! ## What lies where argument pages go -/

/-- The page that the argument page with an index goes to. -/
def argumentPlace (start : VirtualAddress) (i : Nat) : Option Place :=
  (start.add? (taskSize - (maxArgumentPages - i) * pageBytes)).map Address.splitSlots

/-- The frames that are mapped where the given pages with an index of at least `n` go. -/
def displaced (leaf : Place → Entry) (start : VirtualAddress) (pages : List (Option FrameId))
    (n : Nat) : List FrameId :=
  (pages.zipIdx.drop n).filterMap fun given =>
    given.1.bind fun _ => (argumentPlace start given.2).bind fun k => (leaf k).target

theorem argumentPlace_of (place : Space.ArgumentAt start n va) :
    argumentPlace start n = some va.splitSlots := by
  have found := Address.add?_eq_some_iff.mpr (Space.argumentAt_iff.mp place)
  rw [argumentPlace, found, Option.map_some]

section Displaced

variable {leaf : Place → Entry}

theorem drop_zipIdx {given : Option FrameId} (found : pages[n]? = some given) :
    pages.zipIdx.drop n = (given, n) :: pages.zipIdx.drop (n + 1) := by
  obtain ⟨inside, rfl⟩ := List.getElem?_eq_some_iff.mp found
  have inside' : n < pages.zipIdx.length := by rwa [List.length_zipIdx]
  rw [List.drop_eq_getElem_cons inside', List.getElem_zipIdx, Nat.zero_add]

theorem displaced_of_some (found : pages[n]? = some (some f))
    (place : Space.ArgumentAt start n va) : displaced leaf start pages n =
      (leaf va.splitSlots).target.toList ++ displaced leaf start pages (n + 1) := by
  rw [displaced, drop_zipIdx found]
  cases target : (leaf va.splitSlots).target with
  | none => simp [displaced, argumentPlace_of place, target]
  | some g => simp [displaced, argumentPlace_of place, target]

theorem displaced_of_none (found : pages[n]? = some none) :
    displaced leaf start pages n = displaced leaf start pages (n + 1) := by
  simp [displaced, drop_zipIdx found]

theorem displaced_length : displaced leaf start pages pages.length = [] := by
  rw [displaced, List.drop_of_length_le (Nat.le_of_eq List.length_zipIdx), List.filterMap_nil]

end Displaced

theorem tally_append (frames frames' : List FrameId) :
    tally (frames ++ frames') = tally frames + tally frames' :=
  funext fun _ => List.count_append

@[simp] theorem tally_toList (target : Option FrameId) : tally target.toList = hits target := by
  cases target with
  | none => rfl
  | some f => exact (tally_concat [] f).trans (zero_add _)

namespace View

/-- References have changed hands and some were lost. No frame in use has another count. -/
structure HandsOver (v : View) (owed lost : Owed) (v' : View) : Prop where
  live : v'.live = v.live
  layout : v'.layout = v.layout
  sound : v'.Sound (owed + lost)
  count : ∀ f, ¬ v.Free f → v'.count f = v.count f

namespace HandsOver

theorem tracks (handed : v.HandsOver owed lost v') (f : FrameId) : v'.tracks f = v.tracks f := by
  simp only [View.tracks, handed.layout]

theorem not_free (handed : v.HandsOver owed lost v') (used : ¬ v.Free f) : ¬ v'.Free f := by
  rintro ⟨tracked, zero⟩
  rw [handed.tracks] at tracked
  rw [handed.count f used] at zero
  exact used ⟨tracked, zero⟩

theorem trans {lost' : Owed} (first : v.HandsOver owed lost w)
    (rest : w.HandsOver (o + lost) lost' v') : v.HandsOver o (lost' + lost) v' where
  live := rest.live.trans first.live
  layout := rest.layout.trans first.layout
  sound := by
    rw [add_comm lost', ← add_assoc]
    exact rest.sound
  count f used := (rest.count f (first.not_free used)).trans (first.count f used)

/-- A page is handed over to an entry, which loses the reference that it held. -/
theorem remap (hs : s ∈ v.live) (sound : v.Sound (owed + hits (some f)))
    (tracked : v.tracks f = true) (one : v.count f = 1) (covers : v.Covers s k.1 t w) :
    v.HandsOver owed (hits (v.leaf s k).target) (w.remap s k (.make f .userWritable)) where
  live := (w.live_remap s k _).trans covers.live
  layout := (w.layout_remap s k _).trans covers.layout
  sound := by
    have acts : Acts (fun _ => True) _ _ _ _ :=
      acts_handed (o := owed) hs tracked one covers trivial trivial
    exact acts.sound sound
  count g used := (congrFun (w.count_remap s k _) g).trans (covers.of_not_free used).1

end HandsOver

end View

namespace Machine

namespace Shows

theorem mapEmptyPage_handsOver (shows : m.Shows v) (sound : v.Sound owed) (hs : s ∈ v.live)
    (va : VirtualAddress) :
    Tries (PagedMemory.mapEmptyPage s va) m Exhausts
      (fun _ m' => ∃ v', v.HandsOver owed (hits (v.leaf s va.splitSlots).target) v' ∧ m'.Shows v')
      (fun _ _ => True) := by
  apply (shows.mapEmptyPage sound hs va).mono
  · rintro _ m' ⟨f, b, t, w, -, covers, free, shows'⟩
    have made := (covers.sound hs sound).grant free b
    have hs' : s ∈ (w.grant f b).live := covers.live.symm ▸ hs
    have handed := View.HandsOver.remap (k := va.splitSlots) hs' made free.1 (if_pos rfl)
      (.already covers.link)
    have leaf : ((w.grant f b).leaf s va.splitSlots) = v.leaf s va.splitSlots :=
      congrFun (congrFun covers.leaf s) va.splitSlots
    rw [leaf] at handed
    refine ⟨_, ⟨handed.live.trans covers.live, handed.layout.trans covers.layout, handed.sound, ?_⟩,
      shows'⟩
    intro g used
    have kept := (covers.of_not_free used).1
    have other : g ≠ f := by
      rintro rfl
      exact used ⟨(covers.tracks g).symm.trans free.1, kept.symm.trans free.2⟩
    rw [View.count_remap]
    exact (if_neg other).trans kept
  · intro _ _ _
    trivial

/-- The pages below index `n` are left, and the others were handed over. Nothing has changed where
those that are left go. -/
structure HandingOver (v : View) (owed : Owed) (s : Space) (start : VirtualAddress)
    (pages : List (Option FrameId)) (n : Nat) (w : View) : Prop where
  handed : v.HandsOver (owed + tally (numbered pages n))
    (tally (displaced (v.leaf s) start pages n)) w
  holds : w.Holds (numbered pages n)
  leaf : ∀ i va, i < n → Space.ArgumentAt start i va →
    w.leaf s va.splitSlots = v.leaf s va.splitSlots

namespace HandingOver

theorem skip (left : HandingOver v owed s start pages (n + 1) w) (none : pages[n]? = some none) :
    HandingOver v owed s start pages n w := by
  obtain ⟨handed, holds, leaf⟩ := left
  rw [numbered_succ_of_none (.inl none)] at handed holds
  rw [← displaced_of_none none] at handed
  exact ⟨handed, holds, fun i va below => leaf i va (Nat.lt_succ_of_lt below)⟩

theorem hand {w' : View} (left : HandingOver v owed s start pages (n + 1) w) (hs : s ∈ v.live)
    (found : pages[n]? = some (some f)) (place : Space.ArgumentAt start n va) (few : n < 32)
    (covers : w.Covers s va.directorySlot t w') :
    HandingOver v owed s start pages n (w'.remap s va.splitSlots (.make f .userWritable)) := by
  obtain ⟨handed, holds, leaf⟩ := left
  rw [numbered_succ found] at handed holds
  rw [tally_concat, ← add_assoc] at handed
  have ready := handed.sound
  rw [add_right_comm] at ready
  have lives : s ∈ w.live := handed.live.symm ▸ hs
  have tracked := holds.tracked f (by simp)
  have one := holds.one f (by simp)
  refine ⟨?_, ?_, fun i va' below place' => ?_⟩
  · have last := View.HandsOver.remap (k := va.splitSlots) lives ready tracked one covers
    rw [leaf n va (Nat.lt_succ_self n) place] at last
    rw [displaced_of_some found place, tally_append, tally_toList]
    exact handed.trans last
  · have acts : View.Acts
        (fun c => c = .link s va.directorySlot ∨ c = .install s va.splitSlots f) _ _ _ _ :=
      View.acts_handed (o := owed + tally (displaced (v.leaf s) start pages (n + 1)) +
        tally (numbered pages n)) lives tracked one covers (.inl rfl) (.inr rfl)
    rw [add_right_comm owed] at ready
    exact holds.handed ready acts
  · rw [View.leaf_remap_of_ne _ fun same => place'.splitSlots_ne place below few same.2,
      covers.leaf]
    exact leaf i va' (Nat.lt_succ_of_lt below) place'

end HandingOver

/-- Pages with a single reference are mapped in turn, over whatever is mapped where they go. -/
theorem installEach_handsOver (start : VirtualAddress) (shows : m.Shows v) (hs : s ∈ v.live)
    (sound : v.Sound (owed + tally (pages.filterMap id))) (holds : v.Holds (pages.filterMap id))
    (few : pages.length ≤ maxArgumentPages) :
    Tries (s.installEach start pages (pages.take pages.length).zipIdx.reverse) m (fun _ => True)
      (fun _ m' => ∃ v', m'.Shows v' ∧
        v.HandsOver owed (tally (displaced (v.leaf s) start pages 0)) v')
      (fun _ _ => True) := by
  rw [← numbered_length] at sound holds
  have nothing : tally (displaced (v.leaf s) start pages pages.length) = 0 := by
    rw [displaced_length]
    rfl
  have start' : HandingOver v owed s start pages pages.length v := by
    refine ⟨⟨rfl, rfl, ?_, fun _ _ => rfl⟩, holds, fun _ _ _ _ => rfl⟩
    rwa [nothing, add_zero]
  apply (Tries.installEach (fun n m' => ∃ w, HandingOver v owed s start pages n w ∧ m'.Shows w)
    ?_ (fun _ _ _ _ _ => trivial) ?_ _ (Nat.le_refl _) m ⟨v, start', shows⟩).mono_done
  · rintro _ m' ⟨w, left, shows'⟩
    exact ⟨w, shows', left.handed⟩
  · rintro n m' none ⟨w, left, shows'⟩
    exact ⟨w, left.skip none, shows'⟩
  · rintro n f va m₁ found place ⟨w, left, shows₁⟩
    have inside : n < 32 := Nat.lt_of_lt_of_le (List.getElem?_eq_some_iff.mp found).1 few
    have sound₁ := left.handed.sound
    have lives : s ∈ w.live := left.handed.live.symm ▸ hs
    rw [add_right_comm] at sound₁
    apply ((shows₁.mapOne sound₁ lives f va .userWritable).mono_stops fun _ _ => trivial).mono
    · rintro _ m₂ ⟨t, w', covers, shows₂⟩
      exact ⟨_, left.hand hs found place inside covers, shows₂⟩
    · intro _ m' _
      exact (Ends.any _ m').mono fun _ _ _ => trivial

theorem installArguments_handsOver (shows : m.Shows v) (hs : s ∈ v.live)
    (sound : v.Sound (owed + tally (pages.filterMap id))) (holds : v.Holds (pages.filterMap id)) :
    Tries (s.installArguments start pages) m (fun _ => True)
      (fun _ m' => ∃ v', m'.Shows v' ∧
        v.HandsOver owed (tally (displaced (v.leaf s) start pages 0)) v')
      (fun _ _ => True) := by
  unfold Space.installArguments
  split
  · exact Tries.lift_bind (P := fun _ _ => False) (Ends.halt trivial) fun _ _ none => none.elim
  · next few =>
    have each := installEach_handsOver start shows hs sound holds (Nat.not_lt.mp few)
    rwa [List.take_length] at each

end Shows

/-- The counts are right but for one reference too many for every frame in a list. If nothing
else is owed, and reserved frames are not referenced, the audit reports it unless none of these
frames is counted. -/
structure Leaks (m : Machine) (live : Finset Space) (owed : Owed) (frames : List FrameId)
    (m' : Machine) : Prop where
  accounts : m'.Accounts live (owed + tally frames)
  audit : ∀ spaces : List Space, spaces.Nodup → spaces.toFinset = live →
    owed = m.pool.layout.reserve →
    (∀ f : FrameId, m.pool.layout.low.value ≤ f.base.value →
      f.base.value < m.pool.layout.mainStart.value → listedReferences m.ram spaces f = 0) →
    (checkCounts spaces m' = .ok none ↔ ∀ f ∈ frames, ¬ m.pool.manages f = true)

section Leaking

variable {held : Owed} {frames : List FrameId}

/-- A reserved frame that was not referenced neither is nor was replaced. -/
theorem reserved_of_handsOver (sound : (m.view live).Sound (m.pool.layout.reserve + held))
    (one : ∀ f, 0 < held f → m.pool.refCount? f = some 1)
    (handed : (m.view live).HandsOver m.pool.layout.reserve (tally frames) v') (shows : m'.Shows v')
    (accounts : m'.Accounts live (m.pool.layout.reserve + tally frames))
    (above : m.pool.layout.low.value ≤ f.base.value)
    (below : f.base.value < m.pool.layout.mainStart.value)
    (unreferenced : rootReferences live f + linkReferences m.ram live f +
      leafReferences m.ram live f = 0) :
    rootReferences live f + linkReferences m'.ram live f + leafReferences m'.ram live f = 0 ∧
      f ∉ frames := by
  have valid := m.pool.valid.mainStart_le
  have managed : m.pool.manages f = true :=
    FramePool.manages_iff_bounds.mpr ⟨above, Nat.lt_of_lt_of_le below valid⟩
  have reserve : m.pool.layout.reserve f = 100 := if_pos ⟨above, below⟩
  have counted := accounts_of_sound sound f managed
  rw [unreferenced, Pi.add_apply, reserve] at counted
  -- A frame in somebody's hands has a count of one, and the reserve alone is more.
  have unheld : held f = 0 := by
    by_contra held
    have single := one f (Nat.pos_of_ne_zero held)
    rw [FramePool.refCount?, if_pos managed, Option.some.injEq] at single
    omega
  have used : ¬ (m.view live).Free f := by
    rintro ⟨-, zero⟩
    have free : m.pool.count f = 0 := zero
    omega
  have same : m'.pool.count f = m.pool.count f :=
    (shows.count f ((handed.tracks f).trans managed)).trans (handed.count f used)
  have now := accounts f ((shows.manages f).trans ((handed.tracks f).trans managed))
  rw [same, Pi.add_apply, reserve] at now
  constructor
  · omega
  · apply List.count_eq_zero.mp
    change tally frames f = 0
    omega

theorem leaks_of_handsOver (sound : (m.view live).Sound (owed + held))
    (one : ∀ f, 0 < held f → m.pool.refCount? f = some 1)
    (handed : (m.view live).HandsOver owed (tally frames) v') (shows : m'.Shows v') :
    m.Leaks live owed frames m' := by
  have sound' := shows.sound_view handed.sound
  rw [show v'.live = live from handed.live] at sound'
  have accounts := accounts_of_sound sound'
  have layout : m'.pool.layout = m.pool.layout := shows.layout.trans handed.layout
  refine ⟨accounts, fun spaces once all nothing clean => ?_⟩
  subst all nothing
  have inside (s : Space) (listed : s ∈ spaces) : s.Inside m'.ram :=
    inside_of_sound sound' (List.mem_toFinset.mpr listed)
  have reserved {f : FrameId} (above : m.pool.layout.low.value ≤ f.base.value)
      (below : f.base.value < m.pool.layout.mainStart.value) :=
    reserved_of_handsOver sound one handed shows accounts above below
      ((listedReferences_eq once f).symm.trans (clean f above below))
  have right {f : FrameId} (above : m.pool.layout.mainStart.value ≤ f.base.value)
      (managed : m.pool.manages f = true) :
      m'.pool.refCount? f = some (listedReferences m'.ram spaces f) ↔ f ∉ frames := by
    have unreserved : m.pool.layout.reserve f = 0 := if_neg fun h => Nat.not_lt.mpr above h.2
    rw [accounts.refCount?_eq_iff once ((FramePool.manages_congr layout f).trans managed),
      Pi.add_apply, unreserved, Nat.zero_add]
    exact List.count_eq_zero
  rw [checkCounts_eq_none_iff inside, FramePool.Balanced, layout]
  constructor
  · rintro ⟨counted, -⟩ f lost managed
    obtain ⟨above, below⟩ := FramePool.manages_iff_bounds.mp managed
    by_cases low : f.base.value < m.pool.layout.mainStart.value
    · exact (reserved above low).2 lost
    · exact (right (Nat.not_lt.mp low) managed).mp (counted f (Nat.not_lt.mp low) below) lost
  · intro unmanaged
    refine ⟨fun f above below => ?_, fun f above below => ?_⟩
    · have managed : m.pool.manages f = true := FramePool.manages_iff_bounds.mpr
        ⟨Nat.le_trans m.pool.valid.low_le above, below⟩
      exact (right above managed).mpr fun lost => unmanaged f lost managed
    · rw [listedReferences_eq once]
      exact (reserved above below).1

end Leaking

end Machine

theorem Machine.leaks_of_mapEmptyPage (sound : (m.view live).Sound owed) (hs : s ∈ live)
    (run : outcome (mapEmptyPage s va) m = .ok (.ok (), m')) :
    m.Leaks live owed (s.leaf m.ram va.splitSlots).target.toList m' := by
  obtain ⟨v', handed, shows⟩ :=
    ((m.shows_view live).mapEmptyPage_handsOver sound hs va).done_of_run run
  rw [← tally_toList] at handed
  rw [← add_zero owed] at sound
  exact leaks_of_handsOver sound (fun _ none => absurd none (Nat.lt_irrefl 0)) handed shows

theorem Machine.leaks_of_installArguments
    (sound : (m.view live).Sound (owed + tally (pages.filterMap id))) (hs : s ∈ live)
    (distinct : (pages.filterMap id).Nodup)
    (held : ∀ f ∈ pages.filterMap id, m.pool.refCount? f = some 1)
    (run : outcome (s.installArguments start pages) m = .ok (.ok (), m')) :
    m.Leaks live owed (displaced (s.leaf m.ram) start pages 0) m' := by
  have shows := m.shows_view live
  have single (f : FrameId) (given : f ∈ pages.filterMap id) :=
    shows.refCount?_eq_some_iff.mp (held f given)
  have holds : (m.view live).Holds (pages.filterMap id) :=
    ⟨distinct, fun f given => (single f given).1, fun f given => (single f given).2⟩
  obtain ⟨v', shows', handed⟩ := (shows.installArguments_handsOver hs sound holds).done_of_run run
  exact leaks_of_handsOver sound (fun f given => held f (List.count_pos_iff.mp given)) handed
    shows'

/-- A page that is mapped over another one costs the reference of the entry that was there: the
counts are too high by it for good. This holds of an empty page, wherever it is mapped, and of
argument pages that are in somebody's hands. The audit passes afterwards exactly if nothing was
mapped over that is counted. -/
theorem replaced_pages_are_leaked (hs : s ∈ live) :
    (∀ va m', (m.view live).Sound owed → outcome (mapEmptyPage s va) m = .ok (.ok (), m') →
      m.Leaks live owed (s.leaf m.ram va.splitSlots).target.toList m') ∧
    ∀ start pages m', (m.view live).Sound (owed + tally (pages.filterMap id)) →
      (pages.filterMap id).Nodup → (∀ f ∈ pages.filterMap id, m.pool.refCount? f = some 1) →
      outcome (s.installArguments start pages) m = .ok (.ok (), m') →
        m.Leaks live owed (displaced (s.leaf m.ram) start pages 0) m' := by
  constructor
  · intro va m' sound run
    exact Machine.leaks_of_mapEmptyPage sound hs run
  · intro start pages m' sound distinct held run
    exact Machine.leaks_of_installArguments sound hs distinct held run

section Tiny

/-- The page that is mapped already is mapped again. -/
def tinyRemapping : Attempt Unit :=
  mapEmptyPage tinySpace tinyPage

/-- The second page behind the border that the area of the arguments crosses. -/
def tinyBorder : VirtualAddress :=
  ⟨67112960, by decide⟩

def tinyFilling : Call :=
  .mapEmpty tinySpace tinyBorder

/-- A page is mapped where an argument page goes, and the last frame is held. -/
def tinyStacked : Books × Machine :=
  Call.allocPage.after (tinyFilling.after tinyAfter)

def tinyArgument : List (Option FrameId) :=
  List.replicate 17 none ++ [some (tinyFrame 7)]

def tinyOverlay : Attempt Unit :=
  tinySpace.installArguments tinyStretch tinyArgument

theorem sound_tinyStacked : (tinyStacked.2.view tinyStacked.1.live).Sound
    (tinyStacked.1.owed .tiny) := by
  have allowed : tinyFilling.Allowed tinyAfter.2 tinyAfter.1 := by
    unfold tinyFilling Call.Allowed Call.Named Call.OntoUnmapped Space.Maps
    decide +kernel
  have reach : Reaches (fun m b c => c.Allowed m b ∧ c.Thorough m) .standard .tiny .lowest
      tinyStacked.2 tinyStacked.1 :=
    .next (.next reaches_tinyAfter ⟨allowed, trivial⟩ (by decide +kernel))
      ⟨⟨trivial, trivial⟩, trivial⟩ (by decide +kernel)
  exact reach.sound fun _ _ _ h => h

theorem run_tinyRemapping :
    outcome tinyRemapping tinyAfter.2 = .ok (.ok (), tinyAfter.2.after tinyRemapping) :=
  Machine.run_of_product (by decide +kernel)

theorem replaced_pages_are_leaked_tiny :
    tinyAfter.2.Leaks tinyAfter.1.live (tinyAfter.1.owed .tiny) [tinyFrame 3]
      (tinyAfter.2.after tinyRemapping) ∧
    tinyStacked.2.Leaks tinyStacked.1.live Layout.tiny.reserve [tinyFrame 5]
      (tinyStacked.2.after tinyOverlay) := by
  constructor
  · have live : tinySpace ∈ tinyAfter.1.live := by decide +kernel
    have leaks := (replaced_pages_are_leaked live).1 tinyPage _ sound_tinyAfter run_tinyRemapping
    have lost : (tinySpace.leaf tinyAfter.2.ram tinyPage.splitSlots).target.toList =
        [tinyFrame 3] := by decide +kernel
    rwa [lost] at leaks
  · have live : tinySpace ∈ tinyStacked.1.live := by decide +kernel
    have held : tinyStacked.1.held = {tinyFrame 7} := by decide +kernel
    have sound := sound_tinyStacked
    have among : ∀ f ∈ tinyArgument.filterMap id, f ∈ ({tinyFrame 7} : Finset FrameId) := by
      decide
    have rest : ({tinyFrame 7} : Finset FrameId) \ (tinyArgument.filterMap id).toFinset = ∅ := by
      decide
    rw [Books.owed, held, inHand_sdiff (by decide) among, rest, inHand_empty, zero_add] at sound
    have run : outcome tinyOverlay tinyStacked.2 = .ok (.ok (), tinyStacked.2.after tinyOverlay) :=
      Machine.run_of_product (by decide +kernel)
    have leaks := (replaced_pages_are_leaked live).2 tinyStretch tinyArgument _ sound (by decide)
      (by decide +kernel) run
    have lost : displaced (tinySpace.leaf tinyStacked.2.ram) tinyStretch tinyArgument 0 =
        [tinyFrame 5] := by decide +kernel
    rwa [lost] at leaks

/-- A reference that is owed to nobody may be left where a page was mapped over another one. -/
theorem replaced_page_can_leak :
    ¬ ∀ (m m' : Machine) (live : Finset Space) (owed : Owed) (s : Space) (va : VirtualAddress),
      (m.view live).Sound owed → s ∈ live →
        outcome (mapEmptyPage s va) m = .ok (.ok (), m') → m'.Accounts live owed := by
  intro always
  have live : tinySpace ∈ tinyAfter.1.live := by decide +kernel
  have leaks := Machine.leaks_of_mapEmptyPage sound_tinyAfter live run_tinyRemapping
  have lost : (tinySpace.leaf tinyAfter.2.ram tinyPage.splitSlots).target.toList =
      [tinyFrame 3] := by decide +kernel
  have managed : (tinyAfter.2.after tinyRemapping).pool.manages (tinyFrame 3) = true := by
    decide +kernel
  have counted := always _ _ _ _ _ _ sound_tinyAfter live run_tinyRemapping (tinyFrame 3) managed
  have leaked := leaks.accounts (tinyFrame 3) managed
  have once : tally [tinyFrame 3] (tinyFrame 3) = 1 := List.count_singleton_self
  rw [lost, counted, Pi.add_apply, once] at leaked
  omega

end Tiny

end PagedMemory
