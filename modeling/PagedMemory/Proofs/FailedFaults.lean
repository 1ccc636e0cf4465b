import PagedMemory.Proofs.ReferenceCounts
import PagedMemory.Proofs.Terminations

/-!
# Faults that fail

A fault can fail late: after a frame was taken, after some of its quarters were read from
the device, after every peer was asked. Whatever was done by then is undone, or was done to
a frame that nobody looks at. `Machine.Unchanged` says so of two machines as they are, not
of what they show: no count differs, and no byte of a frame that is in use.

The argument is about one borrowed frame. While an attempt works on it (`Machine.Lends`),
everything else is as it was before, and to give it back is to undo the loan. Nothing is
written elsewhere before the last step that can fail, the making of a page table, so no
assumption about the state is needed for any of this.
-/

namespace PagedMemory

variable {α : Type}

namespace FramePool

/-- To hand out a free frame and take it back leaves the counts as they were. -/
theorem setCount_setCount_of_free {p : FramePool} {f : FrameId} (free : p.count f = 0) :
    (p.setCount f 1).setCount f 0 = p := by
  have counts : (p.counts.setIfInBounds (f.index - p.first) 1).setIfInBounds
      (f.index - p.first) 0 = p.counts := by
    unfold count at free
    rw [Array.setIfInBounds_setIfInBounds]
    apply Array.ext
    · exact Array.size_setIfInBounds
    · intro i inside inside'
      rw [Array.getElem_setIfInBounds]
      split
      · next here =>
        rw [Array.getD_eq_getD_getElem?, here, Array.getElem?_eq_getElem inside'] at free
        exact free.symm
      · rfl
  cases p
  simp only [setCount, first] at counts ⊢
  congr

end FramePool

namespace Machine

variable {m₀ m m' : Machine} {f : FrameId}

/-- The second machine differs from the first one in its journal and in bytes of free
frames, if at all. -/
structure Unchanged (m m' : Machine) : Prop where
  pool : m'.pool = m.pool
  flushes : m'.flushes = m.flushes
  frame : ∀ f, m.pool.refCount? f ≠ some 0 → m'.ram.frame? f = m.ram.frame? f

/-- One frame that was free has been handed out since. -/
structure Lends (m : Machine) (f : FrameId) (m' : Machine) : Prop where
  free : m.pool.refCount? f = some 0
  pool : m'.pool = m.pool.setCount f 1
  flushes : m'.flushes = m.flushes
  frame : ∀ g, m.pool.refCount? g ≠ some 0 → m'.ram.frame? g = m.ram.frame? g

theorem Unchanged.refl (m : Machine) : m.Unchanged m :=
  ⟨rfl, rfl, fun _ _ => rfl⟩

/-- The journal and the bytes of free frames may change further. -/
theorem Unchanged.keep (kept : m₀.Unchanged m) (pool : m'.pool = m.pool)
    (flushes : m'.flushes = m.flushes) (ram : m'.ram = m.ram) : m₀.Unchanged m' where
  pool := pool.trans kept.pool
  flushes := flushes.trans kept.flushes
  frame f used := by
    rw [ram]
    exact kept.frame f used

namespace Lends

theorem keep (lent : m₀.Lends f m) (pool : m'.pool = m.pool) (flushes : m'.flushes = m.flushes)
    (ram : m'.ram = m.ram) : m₀.Lends f m' where
  free := lent.free
  pool := pool.trans lent.pool
  flushes := flushes.trans lent.flushes
  frame g used := by
    rw [ram]
    exact lent.frame g used

theorem manages (lent : m₀.Lends f m) : m₀.pool.manages f = true := by
  have free := lent.free
  rw [FramePool.refCount?] at free
  split at free
  · assumption
  · cases free

theorem count (lent : m₀.Lends f m) : m₀.pool.count f = 0 := by
  have free := lent.free
  rw [FramePool.refCount?, if_pos lent.manages] at free
  exact Option.some.inj free

/-- What is in use after the loan and was not lent was in use before it. -/
theorem used_of_used (lent : m₀.Lends f m) {g : FrameId} (used : m₀.pool.refCount? g ≠ some 0) :
    m.pool.refCount? g ≠ some 0 := by
  intro free
  rw [lent.pool, FramePool.refCount?, FramePool.manages_setCount] at free
  split at free
  · next managed =>
    apply used
    rw [FramePool.refCount?, if_pos managed]
    by_cases same : g = f
    · rw [same, lent.count]
    · rwa [FramePool.count_setCount_of_ne 1 lent.manages managed same] at free
  · cases free

/-- An attempt that leaves everything unchanged leaves the loan as it is. -/
theorem unchanged (lent : m₀.Lends f m) (kept : m.Unchanged m') : m₀.Lends f m' where
  free := lent.free
  pool := kept.pool.trans lent.pool
  flushes := kept.flushes.trans lent.flushes
  frame g used := (kept.frame g (lent.used_of_used used)).trans (lent.frame g used)

end Lends

end Machine

namespace Machine

variable {m₀ m : Machine} {f : FrameId} {s : Space} {env : Environment}

/-! ## A loan and its return -/

theorem Unchanged.remark (kept : m₀.Unchanged m) (e : Event) :
    Ends (PagedMemory.remark e) m (fun _ => True) fun _ m' => m₀.Unchanged m' :=
  Ends.intro rfl (kept.keep rfl rfl rfl)

theorem Unchanged.allocFrame (kept : m₀.Unchanged m) :
    Tries PagedMemory.allocFrame m (fun _ => True) (fun f m' => m₀.Lends f m')
      (fun _ m' => m₀.Unchanged m') := by
  refine Tries.lift_bind (P := fun given m' =>
    given.elim (m₀.Unchanged m') fun f => m₀.Lends f m') ?_ ?_
  · cases given : m.pool.alloc with
    | none =>
      have run : allocFrame? m = .ok (none, m) := by
        simp only [allocFrame?, given]
      exact Ends.intro run kept
    | some pair =>
      obtain ⟨f, pool⟩ := pair
      obtain ⟨managed, free, rfl⟩ := FramePool.alloc_eq_some given
      have run : allocFrame? m = .ok (some f, { m with
          pool := m.pool.setCount f 1, events := m.events.push (.frameAllocated f) }) := by
        simp only [allocFrame?, given]
      refine Ends.intro run ⟨?_, congrArg (·.setCount f 1) kept.pool, kept.flushes, kept.frame⟩
      rw [← kept.pool, FramePool.refCount?, if_pos managed, free]
  · intro given m₁ post
    cases given with
    | none => exact Tries.fail post
    | some f => exact Tries.pure post

theorem Lends.remark (lent : m₀.Lends f m) (e : Event) :
    Ends (PagedMemory.remark e) m (fun _ => True) fun _ m' => m₀.Lends f m' :=
  Ends.intro rfl (lent.keep rfl rfl rfl)

theorem Lends.recordRead (lent : m₀.Lends f m) (device : DeviceId) (block : BlockNumber) :
    Ends (PagedMemory.recordRead device block) m (fun _ => True) fun _ m' => m₀.Lends f m' :=
  Ends.intro rfl (lent.keep rfl rfl rfl)

/-- Whatever is written into the frame that was lent, no other frame notices. -/
theorem Lends.modifyFrame (lent : m₀.Lends f m) (change : Frame → Frame) :
    Ends (PagedMemory.modifyFrame f change) m (fun _ => True) fun _ m' => m₀.Lends f m' := by
  by_cases inside : f.index < m.ram.size
  · refine Ends.intro (modifyFrame_eq_ok_iff.mpr ⟨inside, rfl⟩) { lent with frame := ?_ }
    intro g used
    have other : g ≠ f := by
      intro same
      exact used (same ▸ lent.free)
    exact (Ram.frame?_modify_of_ne m.ram change other).trans (lent.frame g used)
  · have stop : PagedMemory.modifyFrame f change m = .error (.outsideMemory f) := by
      simp only [PagedMemory.modifyFrame, if_neg inside]
    exact Ends.of_stop stop trivial

theorem Lends.release (lent : m₀.Lends f m) :
    Ends (PagedMemory.release f) m (fun _ => True) fun _ m' => m₀.Unchanged m' := by
  have managed : m.pool.manages f = true := by
    rw [lent.pool]
    exact lent.manages
  have one : m.pool.count f = 1 := by
    rw [lent.pool]
    exact FramePool.count_setCount_self 1 lent.manages
  have low : ¬ f.base.value < m.pool.layout.low.value := by
    have bounds := Bool.and_eq_true_iff.mp managed
    have := of_decide_eq_true bounds.1
    omega
  have high : ¬ m.pool.layout.high.value ≤ f.base.value := by
    have bounds := Bool.and_eq_true_iff.mp managed
    have := of_decide_eq_true bounds.2
    omega
  have returned : m.pool.release f = .ok (m.pool.setCount f 0) := by
    simp only [FramePool.release, if_neg low, if_neg high, one, if_neg Nat.one_ne_zero]
  have run : PagedMemory.release f m = .ok ((), { m with
      pool := m.pool.setCount f 0
      events := if m.pool.refCount? f == some 1 then m.events.push (.frameFreed f)
        else m.events }) := by
    simp only [PagedMemory.release, returned]
  refine Ends.intro run ⟨?_, lent.flushes, lent.frame⟩
  show m.pool.setCount f 0 = m₀.pool
  rw [lent.pool]
  exact FramePool.setCount_setCount_of_free lent.count

/-! ## Attempts that fail -/

namespace Unchanged

/-- No page table is linked unless there is one. -/
theorem ensureTable (kept : m₀.Unchanged m) (s : Space) (va : VirtualAddress) :
    Tries (s.ensureTable va) m (fun _ => True) (fun _ _ => True)
      (fun _ m' => m₀.Unchanged m') := by
  refine Tries.lift_bind (Ends.seen _ m) ?_
  intro found m₁ same
  subst same
  cases found with
  | some t => exact Tries.pure trivial
  | none =>
    refine Tries.bind kept.allocFrame fun t m₂ _ => ?_
    refine Tries.lift_bind (Ends.any _ m₂) fun _ m₃ _ => ?_
    refine Tries.lift_bind (Ends.any _ m₃) fun _ m₄ _ => ?_
    refine Tries.lift_bind (Ends.any _ m₄) fun _ m₅ _ => ?_
    exact Tries.pure trivial

theorem mapOne (kept : m₀.Unchanged m) (s : Space) (f : FrameId) (va : VirtualAddress)
    (flags : Entry) :
    Tries (s.mapOne f va flags) m (fun _ => True) (fun _ _ => True)
      (fun _ m' => m₀.Unchanged m') := by
  unfold Space.mapOne
  refine Tries.lift_bind (Ends.seen _ m) ?_
  intro count m₁ same
  subst same
  refine Tries.optional (P := fun m' => m₀.Unchanged m') (fun _ => kept.remark _)
    (fun _ => kept) fun m₂ kept₂ => ?_
  refine (kept₂.ensureTable s va).bind fun t m₃ _ => ?_
  refine Tries.lift_bind (Ends.any _ m₃) fun previous m₄ _ => ?_
  refine Tries.lift_bind (Ends.any _ m₄) fun _ m₅ _ => ?_
  split
  · refine Tries.lift_bind (Ends.any _ m₅) fun _ m₆ _ => ?_
    exact Tries.lift (Ends.any _ m₆)
  · exact Tries.pure trivial

/-- A write that finds no page changes nothing either, so that the page may be filled. -/
theorem unsharePage (kept : m₀.Unchanged m) (s : Space) (va : VirtualAddress) :
    Tries (PagedMemory.unsharePage s va) m (fun _ => True)
      (fun how m' => how = none → m' = m) (fun _ m' => m₀.Unchanged m') := by
  unfold PagedMemory.unsharePage
  refine Tries.lift_bind (Ends.seen _ m) ?_
  intro found m₁ same
  subst same
  cases found with
  | none => exact Tries.pure fun _ => rfl
  | some entry =>
    dsimp only
    split
    · exact Tries.pure fun _ => rfl
    split
    · refine Tries.lift_bind (Ends.any _ m₁) fun _ m₂ _ => ?_
      exact Tries.pure nofun
    refine Tries.lift_bind (Ends.seen _ m₁) ?_
    intro count m₂ same
    subst same
    split
    · refine Tries.discard_bind (P := fun _ => True) (Ends.any _ m₂) fun m₃ _ => ?_
      refine Tries.lift_bind (Ends.any _ m₃) fun _ m₄ _ => ?_
      exact Tries.pure nofun
    · refine Tries.bind kept.allocFrame fun copy m₃ _ => ?_
      refine Tries.lift_bind (Ends.any _ m₃) fun _ m₄ _ => ?_
      refine Tries.discard_bind (P := fun _ => True) (Ends.any _ m₄) fun m₅ _ => ?_
      refine Tries.lift_bind (Ends.any _ m₅) fun _ m₆ _ => ?_
      refine Tries.lift_bind (Ends.any _ m₆) fun _ m₇ _ => ?_
      exact Tries.pure nofun

/-- No entry is write-protected before the table for the new one is there, and a peer that refuses
changes nothing at all. -/
theorem tryToShare (kept : m₀.Unchanged m) (source : Space) (address : VirtualAddress)
    (target : Space) (goal : VirtualAddress) :
    Tries (PagedMemory.tryToShare source address target goal) m (fun _ => True)
      (fun shared m' => shared = false → m' = m) (fun _ m' => m₀.Unchanged m') := by
  unfold PagedMemory.tryToShare
  refine Tries.lift_bind (Ends.seen _ m) ?_
  intro found m₁ same
  subst same
  cases found with
  | none => exact Tries.pure fun _ => rfl
  | some entry =>
    refine Tries.lift_bind (Ends.seen _ m₁) ?_
    intro tracked m₂ same
    subst same
    split
    · exact Tries.pure fun _ => rfl
    refine (kept.ensureTable target goal).bind fun t m₃ _ => ?_
    refine Tries.lift_bind (Ends.any _ m₃) fun previous m₄ _ => ?_
    split
    · exact Tries.lift_bind (P := fun _ _ => False) (Ends.halt trivial) nofun
    refine Tries.discard_bind (P := fun _ => True) (Ends.any _ m₄) fun m₅ _ => ?_
    refine Tries.lift_bind (Ends.any _ m₅) fun _ m₆ _ => ?_
    refine Tries.lift_bind (Ends.any _ m₆) fun _ m₇ _ => ?_
    refine Tries.lift_bind (Ends.any _ m₇) fun _ m₈ _ => ?_
    exact Tries.pure nofun

/-- The induction is on the peers that are still to be asked: the ones before refused. -/
theorem shareFirst (kept : m₀.Unchanged m) (pid : Pid) (executable : ExecutableId) (offset : Nat)
    (s : Space) (goal : VirtualAddress) (peers : List (Pid × Space × VirtualAddress)) :
    Tries (PagedMemory.shareFirst pid executable offset s goal peers) m (fun _ => True)
      (fun shared m' => shared = false → m' = m) (fun _ m' => m₀.Unchanged m') := by
  induction peers generalizing m with
  | nil => exact Tries.pure fun _ => rfl
  | cons peer rest ih =>
    obtain ⟨other, source, address⟩ := peer
    refine (kept.tryToShare source address s goal).bind ?_
    intro shared m₁ refused
    cases shared with
    | false =>
      obtain rfl := refused rfl
      exact ih kept
    | true =>
      refine Tries.lift_bind (Ends.any _ m₁) fun _ m₂ _ => ?_
      exact Tries.pure nofun

theorem findShared (kept : m₀.Unchanged m) (pid : Pid) (s : Space) (image : Image)
    (executable : ExecutableId) (offset : Nat) :
    Tries (PagedMemory.findShared env pid s image executable offset) m (fun _ => True)
      (fun shared m' => shared = false → m' = m) (fun _ m' => m₀.Unchanged m') := by
  refine Tries.lift_bind (Ends.seen _ m) ?_
  intro config m₁ same
  subst same
  split
  · unfold PagedMemory.sharePage
    split
    · exact Tries.pure fun _ => rfl
    split
    · exact Tries.pure fun _ => rfl
    · exact kept.shareFirst pid executable offset s _ _
  · exact Tries.pure fun _ => rfl

theorem mapEmptyPage (kept : m₀.Unchanged m) (s : Space) (va : VirtualAddress) :
    Tries (PagedMemory.mapEmptyPage s va) m (fun _ => True) (fun _ _ => True)
      (fun _ m' => m₀.Unchanged m') := by
  refine Tries.bind kept.allocFrame fun f m₁ lent₁ => ?_
  refine Tries.lift_bind (Ends.seen _ m₁) ?_
  intro config m₂ same
  subst same
  refine Tries.optional (P := fun m' => m₀.Lends f m') (fun _ => lent₁.modifyFrame _)
    (fun _ => lent₁) fun m₃ lent₃ => ?_
  apply Tries.undoing
  refine ((refl m₃).mapOne s f _ _).mono_failed ?_
  intro cause m₄ kept₄
  exact (lent₃.unchanged kept₄).release

end Unchanged

/-- A block that cannot be read leaves the quarters before it in the frame that was lent. -/
theorem Lends.loadPage (lent : m₀.Lends f m) (env : Environment) (image : Image)
    (executable : ExecutableId) (offset : Nat) :
    Tries (PagedMemory.loadPage env image executable offset f) m (fun _ => True)
      (fun _ m' => m₀.Lends f m') (fun _ m' => m₀.Lends f m') := by
  have read (device : DeviceId) (blocks : List BlockNumber) {m : Machine}
      (lent : m₀.Lends f m) : Ends (readPage env device blocks f) m (fun _ => True)
        fun _ m' => m₀.Lends f m' := by
    refine (Ends.seen _ m).bind ?_
    intro before m₁ same
    subst same
    refine (lent.modifyFrame _).bind fun _ m₂ lent₂ => ?_
    refine (Ends.forM (fun _ m' => m₀.Lends f m')
      (fun block _ _ lent => lent.recordRead device block) _ m₂ lent₂).bind ?_
    exact fun _ _ lent₃ => Ends.pure lent₃
  refine Tries.lift_bind (lent.remark _) fun _ m₁ lent₁ => ?_
  refine Tries.lift_bind (read _ _ lent₁) ?_
  intro failure m₂ lent₂
  cases failure with
  | none => exact Tries.lift (lent₂.modifyFrame _)
  | some cause => exact Tries.fail lent₂

namespace Unchanged

theorem mapLoadedPage (kept : m₀.Unchanged m) (env : Environment) (s : Space) (image : Image)
    (executable : ExecutableId) (offset : Nat) (va : VirtualAddress) :
    Tries (PagedMemory.mapLoadedPage env s image executable offset va) m (fun _ => True)
      (fun _ _ => True) (fun _ m' => m₀.Unchanged m') := by
  refine Tries.bind kept.allocFrame fun f m₁ lent₁ => ?_
  apply Tries.undoing
  have loading := (lent₁.loadPage env image executable offset).mono_failed
    fun _ _ lent₂ => lent₂.release
  refine loading.bind fun _ m₂ lent₂ => ?_
  refine ((refl m₂).mapOne s f va _).mono_failed ?_
  intro cause m₃ kept₃
  exact (lent₂.unchanged kept₃).release

theorem fillPage (kept : m₀.Unchanged m) (env : Environment) (pid : Pid) (s : Space)
    (va : VirtualAddress) :
    Tries (PagedMemory.fillPage env pid s va) m (fun _ => True) (fun _ _ => True)
      (fun _ m' => m₀.Unchanged m') := by
  unfold PagedMemory.fillPage
  dsimp only
  split
  · exact Tries.fail kept
  split
  · refine (kept.mapEmptyPage s _).bind fun _ m₁ _ => ?_
    exact Tries.pure trivial
  · refine (kept.findShared pid s _ _ _).bind ?_
    intro shared m₁ refused
    cases shared with
    | true => exact Tries.pure trivial
    | false =>
      obtain rfl := refused rfl
      refine (kept.mapLoadedPage env s _ _ _ _).bind fun _ m₂ _ => ?_
      exact Tries.pure trivial

theorem resolveFault (kept : m₀.Unchanged m) (env : Environment) (kind : FaultKind)
    (va : VirtualAddress) :
    Tries (PagedMemory.resolveFault env kind va) m (fun _ => True) (fun _ _ => True)
      (fun _ m' => m₀.Unchanged m') := by
  unfold PagedMemory.resolveFault
  split
  · exact Tries.fail kept
  cases kind with
  | writeProtect =>
    refine (kept.unsharePage _ va).bind ?_
    intro how m₁ absent
    cases how with
    | none =>
      obtain rfl := absent rfl
      exact kept.fillPage env env.current _ va
    | some how => exact Tries.pure trivial
  | notPresent =>
    refine Tries.lift_bind (Ends.seen _ m) ?_
    intro found m₁ same
    subst same
    cases found with
    | none => exact kept.fillPage env env.current _ va
    | some entry =>
      dsimp only
      split
      · refine Tries.lift_bind (Ends.any _ m₁) fun _ m₂ _ => ?_
        exact Tries.pure trivial
      · exact kept.fillPage env env.current _ va

theorem handleFault (m : Machine) (env : Environment) (kind : FaultKind) (va : VirtualAddress) :
    Tries (PagedMemory.handleFault env kind va) m (fun _ => True) (fun _ _ => True)
      (fun _ m' => m.Unchanged m') := by
  apply ((refl m).resolveFault env kind va).handleFault
  · intro how m₁ events _
    trivial
  · intro cause m₁ events kept
    exact kept.keep rfl rfl rfl

end Unchanged

end Machine

/-! ## What is left of the state -/

/-- What a state with these live spaces is made of is the same on both machines: the counts,
every entry of every directory and page table, and every byte of a frame that is in use or
not counted. -/
structure Machine.Intact (m : Machine) (live : Finset Space) (m' : Machine) : Prop where
  counts : ∀ f, m'.pool.refCount? f = m.pool.refCount? f
  directories : ∀ s ∈ live, ∀ i, m'.ram.entry s.root i = m.ram.entry s.root i
  tables : ∀ s ∈ live, ∀ i t, s.link m.ram i = some t → ∀ j, m'.ram.entry t j = m.ram.entry t j
  bytes : ∀ f, m.pool.refCount? f ≠ some 0 → m'.ram.frame? f = m.ram.frame? f
  flushes : m'.flushes = m.flushes

/-- Directories and page tables of a sound state are in use. -/
theorem Machine.Unchanged.intact {m m' : Machine} {live : Finset Space} {owed : Owed}
    (kept : m.Unchanged m') (sound : (m.view live).Sound owed) : m.Intact live m' := by
  have used {f : FrameId} (one : (m.view live).count f = 1) : m.pool.refCount? f ≠ some 0 := by
    have count : m.pool.count f = 1 := one
    rw [FramePool.refCount?, count]
    split <;> simp
  refine ⟨fun f => ?_, fun s hs i => ?_, fun s hs i t linked j => ?_, kept.frame, kept.flushes⟩
  · rw [kept.pool]
  · exact Ram.entry_congr (kept.frame _ (used (sound.root s hs).2)) i
  · exact Ram.entry_congr (kept.frame _ (used (sound.table s hs i t linked).2)) j

/-- A fault that fails changes nothing, for whatever reason it fails and however far it came,
and neither does a page without backing that cannot be mapped. -/
theorem failed_faults_change_nothing {m : Machine} {live : Finset Space} {owed : Owed}
    (sound : (m.view live).Sound owed) :
    (∀ env kind va cause m', outcome (handleFault env kind va) m = .ok (.error cause, m') →
      m.Intact live m') ∧
    ∀ s va cause m', outcome (mapEmptyPage s va) m = .ok (.error cause, m') →
      m.Intact live m' := by
  constructor
  · intro env kind va cause m' failed
    exact ((Machine.Unchanged.handleFault m env kind va).failed_of_run failed).intact sound
  · intro s va cause m' failed
    exact (((Machine.Unchanged.refl m).mapEmptyPage s va).failed_of_run failed).intact sound

section Tiny

/-- What an attempt fails with, if it fails. -/
def Machine.failure (m : Machine) (op : Attempt α) : Option MemoryError :=
  match outcome op m with
  | .ok (.error cause, _) => some cause
  | _ => none

theorem Machine.run_of_failure {m : Machine} {op : Attempt α} {cause : MemoryError}
    (h : m.failure op = some cause) : outcome op m = .ok (.error cause, m.after op) := by
  unfold failure at h
  unfold Machine.after
  split at h
  · next cause' m' run =>
    cases h
    rw [run]
  · cases h

/-- A process whose executable lies on a device that cannot be read from block 11 on. -/
def tinyReader : Environment :=
  { Environment.solitary 1 (some tinySpace) (some ⟨some ⟨1⟩, .zero, 0, 65536, 65536⟩) with
    blockMap := fun _ block => block
    readBlock := fun device block =>
      if block < 11 then .ok (Vector.replicate 1024 7) else .error ⟨device, block⟩ }

/-- The third page of the image, which begins at block 9. -/
def tinyUnread : Attempt Resolution :=
  handleFault tinyReader .notPresent (tinyPage.wrappingAdd 4096)

/-- The third quarter of the page cannot be read. -/
theorem failed_faults_change_nothing_tiny :
    (tinyAfter.2.view tinyAfter.1.live).Sound (tinyAfter.1.owed .tiny) ∧
    outcome tinyUnread tinyAfter.2 =
      .ok (.error (.imageRead ⟨0, 11⟩), tinyAfter.2.after tinyUnread) ∧
    tinyAfter.2.Intact tinyAfter.1.live (tinyAfter.2.after tinyUnread) := by
  have failed : tinyAfter.2.failure tinyUnread = some (.imageRead ⟨0, 11⟩) := by decide +kernel
  have run := Machine.run_of_failure failed
  exact ⟨sound_tinyAfter, run, (failed_faults_change_nothing sound_tinyAfter).1 _ _ _ _ _ run⟩

end Tiny

end PagedMemory
