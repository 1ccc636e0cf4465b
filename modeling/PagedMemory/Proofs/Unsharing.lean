import PagedMemory.Proofs.ClonedRanges
import PagedMemory.Proofs.PageFootprints

/-!
# Writes to pages that are read-only

A page becomes read-only when its frame is mapped a second time. A write to it is answered in one
of three ways. If no other reference to the frame is left, the entry gets back the right to write
(`Machine.Permitted`). Else the page moves to a frame of its own with the same bytes, and the
others keep the old one (`Machine.Parted`). If there is no frame to move to, the fault fails and
nothing has changed.

Which of the three it is depends on the count of the frame alone, whoever holds the references.
What else is mapped, and by whom, is the same afterwards.
-/

namespace PagedMemory

variable {m m' : Machine} {v : View} {live : Finset Space} {owed : Owed} {env : Environment}
  {s : Space} {va : VirtualAddress} {e : Entry} {f g : FrameId}

theorem FramePool.alloc_eq_none_iff_used {p : FramePool} :
    p.alloc = none ↔ ∀ f, p.refCount? f ≠ some 0 := by
  rw [alloc_eq_none_iff]
  unfold refCount?
  constructor
  · intro full f free
    split at free
    · next managed => exact full f managed (Option.some.inj free)
    · cases free
  · intro used f managed zero
    apply used f
    rw [if_pos managed, zero]

namespace View

variable {v' : View} {o : Owed} {how : Resolution} {k : Place}

theorem Unshares.sound (unshares : v.Unshares s k how v') (hs : s ∈ v.live) (sound : v.Sound o) :
    v'.Sound o := by
  cases unshares with
  | spurious => exact sound.flushed
  | madeWritable _ _ tracked one => exact ((Act.permit hs tracked one).sound sound).flushed
  | copied present _ _ free => exact ((Act.copy hs present free).sound sound).flushed

/-- An answer to a write changes no other entry. -/
theorem Unshares.leaf_of_ne {k' : Place} {s' : Space} (unshares : v.Unshares s k how v')
    (other : ¬ (s' = s ∧ k' = k)) : v'.leaf s' k' = v.leaf s' k' := by
  cases unshares with
  | spurious => rfl
  | madeWritable => exact leaf_setLeaf_of_ne _ other
  | copied => exact leaf_setLeaf_of_ne (v := v.grant _ _) _ other

theorem count_copied_self (apart : g ≠ (v.leaf s k).frame) : (v.copied s k g).count g = 1 :=
  (if_neg apart).trans (if_pos rfl)

/-- The frame that the page has left has lost a reference. -/
theorem count_copied_frame (apart : g ≠ (v.leaf s k).frame)
    (tracked : v.tracks (v.leaf s k).frame = true) (used : v.count (v.leaf s k).frame ≠ 0) :
    v.count (v.leaf s k).frame = (v.copied s k g).count (v.leaf s k).frame + 1 := by
  have granted : (v.grant g (v.bytes (v.leaf s k).frame)).count (v.leaf s k).frame =
      v.count (v.leaf s k).frame := if_neg apart.symm
  have released : (v.copied s k g).count (v.leaf s k).frame =
      (v.grant g (v.bytes (v.leaf s k).frame)).count (v.leaf s k).frame - 1 :=
    (if_pos rfl).trans (if_pos tracked)
  omega

theorem count_copied_of_ne (other : f ≠ g) (other' : f ≠ (v.leaf s k).frame) :
    (v.copied s k g).count f = v.count f :=
  (if_neg other').trans (if_neg other)

end View

namespace Machine

namespace Shows

/-- The bytes of a frame in sight, taken from memory. -/
theorem frame?_eq (shows : m.Shows v) (inside : f.index < v.size) (shown : ¬ v.Hidden f) :
    m.ram.frame? f = some (v.bytes f) := by
  rw [Ram.frame?_eq_bytes (shows.inside inside), shows.bytes f shown]

end Shows

theorem free_view_iff : (m.view live).Free f ↔ m.pool.refCount? f = some 0 :=
  (m.shows_view live).refCount?_eq_some_iff.symm

/-- The entry that is found for an address of a live space. -/
theorem leaf_of_entry (sound : (m.view live).Sound owed) (hs : s ∈ live)
    (found : s.entry m.ram va = .ok (some e)) : s.leaf m.ram va.splitSlots = e := by
  rw [Space.entry_eq (inside_of_sound sound hs), Except.ok.injEq, Option.map_eq_some_iff] at found
  obtain ⟨-, -, same⟩ := found
  exact same

/-! ## The answers -/

/-- The page keeps its frame and has got the right to be written to. -/
structure Permitted (m : Machine) (live : Finset Space) (s : Space) (va : VirtualAddress)
    (e : Entry) (m' : Machine) : Prop where
  entry : s.entry m'.ram va = .ok (some e.madeWritable)
  bytes : m'.ram.frame? e.frame = m.ram.frame? e.frame
  counts : ∀ f, m'.pool.refCount? f = m.pool.refCount? f
  elsewhere : m.Elsewhere live {(s, va.splitSlots)} m'

/-- The page has moved to the frame `g`, which was free. The frame that it has left has the same
bytes and one reference less, if its references are counted. -/
structure Parted (m : Machine) (live : Finset Space) (s : Space) (va : VirtualAddress)
    (e : Entry) (g : FrameId) (m' : Machine) : Prop where
  free : m.pool.refCount? g = some 0
  apart : g ≠ e.frame
  entry : s.entry m'.ram va =
    .ok (some (.make g { Entry.userWritable with dirty := e.dirty }))
  bytes : ∃ b, m.ram.frame? e.frame = some b ∧ m'.ram.frame? e.frame = some b ∧
    m'.ram.frame? g = some b
  one : m'.pool.refCount? g = some 1
  less : m.pool.refCount? e.frame = (m'.pool.refCount? e.frame).map (· + 1)
  counts : ∀ f, f ≠ g → f ≠ e.frame → m'.pool.refCount? f = m.pool.refCount? f
  elsewhere : m.Elsewhere live {(s, va.splitSlots)} m'

/-- An answer to a write is written to a single word of the frames in use. -/
theorem Writes.handleFault_of_present (root : m.InUse s.root)
    (owner : env.addressSpace env.current = some s) (found : s.entry m.ram va = .ok (some e))
    (present : e.present = true) :
    Tries (PagedMemory.handleFault env .writeProtect va) m (fun _ => True)
      (fun _ m' => m.Writes {s.word m.ram va.splitSlots} m') (fun _ _ => True) := by
  have spends := (Spares.refl m).unsharePage (P := fun _ => False) Nat.one_pos s va
  have writes := ((Writes.unsharePage root va).and spends).mono_stops fun _ _ => trivial
  refine Tries.handleFault_of_write (writes.mono ?_ fun _ _ _ => trivial) owner ?_
  · rintro result m₁ ⟨writes₁, -, absent⟩
    cases result with
    | none =>
      have := (absent rfl).2 e found
      rw [present] at this
      cases this
    | some how => exact ⟨how, rfl, writes₁⟩
  · intro how m₁ events writes₁
    exact writes₁.keep rfl

theorem allocFrame_of_full (full : m.pool.alloc = none) :
    outcome allocFrame m = .ok (.error .outOfMemory, m) := by
  refine (outcome_lift_bind_of_run (a := none) ?_).trans rfl
  simp only [allocFrame?, full]

/-- A page table that is missing cannot be made without a frame. -/
theorem ensureTable_of_full (vacant : s.tableOf m.ram va = .ok none)
    (full : m.pool.alloc = none) :
    outcome (s.ensureTable va) m = .ok (.error .outOfMemory, m) :=
  (outcome_lift_bind_of_run (inspect_eq_ok_iff.mpr ⟨vacant, rfl⟩)).trans
    (outcome_bind_of_fail (allocFrame_of_full full))

/-- Without a frame to move to nothing is done, not even to the counter of flushes. -/
theorem unsharePage_of_full (found : s.entry m.ram va = .ok (some e)) (present : e.present = true)
    (protect : e.writable = false) (several : m.pool.refCount? e.frame ≠ some 1)
    (full : m.pool.alloc = none) :
    outcome (unsharePage s va) m = .ok (.error .outOfMemory, m) := by
  unfold unsharePage
  refine (outcome_lift_bind_of_run (inspect_eq_ok_iff.mpr ⟨found, rfl⟩)).trans ?_
  dsimp only
  rw [present, protect, if_neg (by decide), if_neg (by decide)]
  refine (outcome_lift_bind_of_run (inspect_eq_ok_iff.mpr ⟨rfl, rfl⟩)).trans ?_
  rw [if_neg several]
  exact outcome_bind_of_fail (allocFrame_of_full full)

/-! ## Effects of an answer -/

section Effects

variable {v' : View}

theorem elsewhere_of_unshares {how : Resolution} (sound : (m.view live).Sound owed) (hs : s ∈ live)
    (unshares : (m.view live).Unshares s va.splitSlots how v') (same : v'.live = live)
    (shows : m'.Shows v') (writes : m.Writes {s.word m.ram va.splitSlots} m') :
    m.Elsewhere live {(s, va.splitSlots)} m' := by
  apply Writes.elsewhere _ sound
  · rintro _ rfl
    exact hs
  · intro s' hs' k outside
    rw [shows.leaf s' (same.symm ▸ hs')]
    apply unshares.leaf_of_ne
    rintro ⟨rfl, rfl⟩
    exact outside (Set.mem_singleton _)
  · rwa [Set.image_singleton]

/-- The frame of a page is in use and holds no table. -/
theorem frame?_of_elsewhere {pages : Set (Space × Place)} (sound : (m.view live).Sound owed)
    (hs : s ∈ live) (present : (s.leaf m.ram va.splitSlots).present = true)
    (elsewhere : m.Elsewhere live pages m') :
    m'.ram.frame? (s.leaf m.ram va.splitSlots).frame =
      m.ram.frame? (s.leaf m.ram va.splitSlots).frame := by
  have maps := View.refers_leaf (v := m.view live) present
  apply elsewhere.bytes
  · intro free
    exact sound.not_free hs maps (free_view_iff.mpr free)
  · exact sound.not_structural_of_leaf hs maps

theorem permitted_of_unshares (sound : (m.view live).Sound owed) (hs : s ∈ live)
    (unshares : (m.view live).Unshares s va.splitSlots .madeWritable v') (shows : m'.Shows v')
    (writes : m.Writes {s.word m.ram va.splitSlots} m') :
    m.Permitted live s va (s.leaf m.ram va.splitSlots) m' := by
  have sound' := unshares.sound hs sound
  cases unshares with
  | madeWritable present protect tracked one =>
    have elsewhere := elsewhere_of_unshares sound hs (.madeWritable present protect tracked one) rfl
      shows writes
    have leaf := View.leaf_setLeaf_self (m.view live) s va.splitSlots
      (s.leaf m.ram va.splitSlots).madeWritable
    refine ⟨?_, frame?_of_elsewhere sound hs present elsewhere, ?_, elsewhere⟩
    · rw [← leaf]
      apply shows.entry_of_present sound'.separate hs
      exact (congrArg Entry.present leaf).trans present
    · exact (m.shows_view live).refCount?_eq shows (fun _ => rfl) fun _ _ => rfl

theorem parted_of_unshares (sound : (m.view live).Sound owed) (hs : s ∈ live)
    (unshares : (m.view live).Unshares s va.splitSlots .copied v') (shows : m'.Shows v')
    (writes : m.Writes {s.word m.ram va.splitSlots} m') :
    ∃ g, m.Parted live s va (s.leaf m.ram va.splitSlots) g m' := by
  have sound' := unshares.sound hs sound
  cases unshares with
  | @copied g present protect shared free =>
    have elsewhere := elsewhere_of_unshares sound hs (.copied present protect shared free) rfl shows
      writes
    have maps := View.refers_leaf (v := m.view live) present
    have apart : g ≠ ((m.view live).leaf s va.splitSlots).frame := by
      rintro rfl
      exact sound.not_free hs maps free
    have leaf : ((m.view live).copied s va.splitSlots g).flushed.leaf s va.splitSlots = _ :=
      View.leaf_copied_self (m.view live) s va.splitSlots g
    have mapped := congrArg Entry.present leaf
    have found := shows.entry_of_present sound'.separate hs mapped
    have shown := sound'.not_hidden_of_leaf hs (View.refers_leaf mapped)
    rw [leaf] at found shown
    have held := (m.shows_view live).frame?_eq (sound.mapped s hs va.splitSlots present)
      (sound.not_hidden_of_leaf hs maps)
    have copied := shows.frame?_eq (sound.fits.inside free.1) shown
    have before := (m.shows_view live).refCount?_eq_ite
    have now (f : FrameId) : m'.pool.refCount? f = if (m.view live).tracks f = true then
        some (((m.view live).copied s va.splitSlots g).count f) else none :=
      shows.refCount?_eq_ite f
    refine ⟨g, free_view_iff.mp free, apart, found, ⟨_, held, ?_, ?_⟩, ?_, ?_, ?_, elsewhere⟩
    · exact (frame?_of_elsewhere sound hs present elsewhere).trans held
    · exact copied.trans (congrArg some (if_pos rfl))
    · rw [now, if_pos free.1, View.count_copied_self apart]
    · rw [before, now]
      split
      · next tracked =>
        have used (zero : (m.view live).count _ = 0) := sound.not_free hs maps ⟨tracked, zero⟩
        exact congrArg some (View.count_copied_frame apart tracked used)
      · rfl
    · intro f other other'
      rw [before, now, View.count_copied_of_ne other other']

end Effects

end Machine

/-- A write that finds no frame to move its page to fails, even if the cache has been emptied too
often to be counted. -/
theorem handleFault_of_full (owner : env.addressSpace env.current = some s)
    (found : s.entry m.ram va = .ok (some e)) (present : e.present = true)
    (protect : e.writable = false) (several : m.pool.refCount? e.frame ≠ some 1)
    (full : ∀ f, m.pool.refCount? f ≠ some 0) :
    Tries (handleFault env .writeProtect va) m (fun _ => False) (fun _ _ => False)
      fun cause _ => cause = .outOfMemory := by
  have run := Machine.unsharePage_of_full found present protect several
    (FramePool.alloc_eq_none_iff_used.mpr full)
  have unshares : Tries (unsharePage s va) m (fun _ => False) (fun how _ => ∃ r, how = some r ∧ False)
      fun cause _ => cause = .outOfMemory := Ends.intro run rfl
  exact unshares.handleFault_of_write owner fun _ _ _ => id

/-- A write to a page that is read-only gives back the right to write if the frame has a single
reference. Otherwise it fails for want of memory exactly if no frame is free, with nothing changed,
and else moves the page to a frame of its own. The kernel stops only if the cache has been emptied
too often to be counted. -/
theorem writing_unshares_the_page (sound : (m.view live).Sound owed) (hs : s ∈ live)
    (owner : env.addressSpace env.current = some s) (found : s.entry m.ram va = .ok (some e))
    (present : e.present = true) (protect : e.writable = false) :
    ((∃ cause, outcome (handleFault env .writeProtect va) m = .error cause) →
      flushLimit ≤ m.flushes + 1 ∧
        (m.pool.refCount? e.frame = some 1 ∨ ∃ f, m.pool.refCount? f = some 0)) ∧
    ∀ result m', outcome (handleFault env .writeProtect va) m = .ok (result, m') →
      (m.pool.refCount? e.frame = some 1 →
        result = .ok .madeWritable ∧ m.Permitted live s va e m') ∧
      (m.pool.refCount? e.frame ≠ some 1 →
        (result = .error .outOfMemory ↔ ∀ f, m.pool.refCount? f ≠ some 0) ∧
        (result = .error .outOfMemory → m.Intact live m') ∧
        (result ≠ .error .outOfMemory →
          result = .ok .copied ∧ ∃ g, m.Parted live s va e g m')) := by
  obtain rfl := Machine.leaf_of_entry sound hs found
  have shows := m.shows_view live
  have answers := shows.handleFault_of_protected sound hs owner present protect
  have root : m.InUse s.root := .of_count (sound.root s hs).2 Nat.one_ne_zero
  have writes := Machine.Writes.handleFault_of_present root owner found present
  have starves := handleFault_of_full owner found present protect
  constructor
  · rintro ⟨cause, stop⟩
    refine ⟨(answers.of_error stop).2, ?_⟩
    by_contra neither
    obtain ⟨several, used⟩ := not_or.mp neither
    exact (starves several (not_exists.mp used)).of_error stop
  · intro result m' run
    cases result with
    | error cause =>
      obtain ⟨rfl, several, full⟩ := answers.failed_of_run run
      rw [← shows.refCount?_eq_some_iff] at several
      have kept := (Machine.Unchanged.handleFault m env .writeProtect va).failed_of_run run
      refine ⟨fun one => absurd one several, fun _ => ⟨?_, fun _ => kept.intact sound, ?_⟩⟩
      · exact iff_of_true rfl fun f free => full f (Machine.free_view_iff.mpr free)
      · exact fun answered => absurd rfl answered
    | ok how =>
      obtain ⟨answered, v', unshares, shows'⟩ := answers.done_of_run run
      have written := writes.done_of_run run
      have whole := unshares
      cases unshares with
      | spurious => exact absurd rfl answered
      | madeWritable _ _ tracked one =>
        have sole := shows.refCount?_eq_some_iff.mpr ⟨tracked, one⟩
        have permitted := Machine.permitted_of_unshares sound hs whole shows' written
        exact ⟨fun _ => ⟨rfl, permitted⟩, fun several => absurd sole several⟩
      | copied _ _ shared free =>
        rw [← shows.refCount?_eq_some_iff] at shared
        have parted := Machine.parted_of_unshares sound hs whole shows' written
        refine ⟨fun one => absurd one shared, fun _ => ⟨?_, nofun, fun _ => ⟨rfl, parted⟩⟩⟩
        exact iff_of_false nofun fun used => used _ (Machine.free_view_iff.mp free)

section Tiny

def tinyWrite : Attempt Resolution :=
  handleFault tinyWriter .writeProtect tinyPage

/-- The page moves to the last free frame. -/
theorem writing_unshares_the_page_tiny :
    tinySpace.entry tinyAliased.2.ram tinyPage = .ok (some (.make (tinyFrame 3) .userReadOnly)) ∧
    outcome tinyWrite tinyAliased.2 = .ok (.ok .copied, tinyAliased.2.after tinyWrite) ∧
    ∃ g, tinyAliased.2.Parted tinyAliased.1.live tinySpace tinyPage
      (.make (tinyFrame 3) .userReadOnly) g (tinyAliased.2.after tinyWrite) := by
  have live : tinySpace ∈ tinyAliased.1.live := by decide +kernel
  have owner : tinyWriter.addressSpace tinyWriter.current = some tinySpace := rfl
  have found : tinySpace.entry tinyAliased.2.ram tinyPage =
      .ok (some (.make (tinyFrame 3) .userReadOnly)) := by decide +kernel
  have several : tinyAliased.2.pool.refCount? (tinyFrame 3) ≠ some 1 := by decide +kernel
  have run : outcome tinyWrite tinyAliased.2 = .ok (.ok .copied, tinyAliased.2.after tinyWrite) :=
    Machine.run_of_product (by decide +kernel)
  have answers := (writing_unshares_the_page sound_tinyAliased live owner found rfl rfl).2 _ _ run
  exact ⟨found, run, ((answers.2 several).2.2 nofun).2⟩

end Tiny

end PagedMemory
