import PagedMemory.Proofs.Unsharing

/-!
# Areas that the kernel may write to

The processor does not check what the kernel writes, so that the pages of an area are made writable
before it does. The area is gone through page by page. A page that is mapped and read-only is
answered like a write to it: it keeps its frame if it is the only one to use it, and moves to
another one otherwise (`Machine.Renewed`). Pages that use the same frame may lie in one area, and
the first answer decides about the second.

What has been done up to some page is told by the answers that were given (`Machine.Verified`). They
are noted in the journal, in this order, with the frames that were taken. An answer leaves all other
pages alone, so none of them is lost on the way, and the area ends with the last page that holds a
byte of it (`mem_touchedPages_iff`).
-/

namespace PagedMemory

variable {m m' m₁ : Machine} {live : Finset Space} {owed : Owed} {env : Environment} {s : Space}
  {address va : VirtualAddress} {size : Nat} {e : Entry} {f g : FrameId}

/-! ## The pages of an area -/

/-- The page holds some byte of the range, as far as that lies below 4 GiB. -/
def Place.Meets (k : Place) (address : VirtualAddress) (size : Nat) : Prop :=
  ∃ x : VirtualAddress, address.value ≤ x.value ∧ x.value < address.value + size ∧ k = x.splitSlots

/-- Page number `i` of a range. -/
private theorem value_touched {i : Nat}
    (inside : i < (4294967296 - (address.alignDown .small).value) / 4096) :
    ((address.alignDown .small).wrappingAdd (4096 * i)).value =
      address.value - address.value % 4096 + 4096 * i := by
  rw [Address.value_alignDown] at inside
  simp only [Address.wrappingAdd, Address.value_alignDown, PageSize.bytes] at inside ⊢
  omega

theorem mem_touchedPages_iff (some : 1 ≤ size) :
    va ∈ touchedPages address size ↔ ∃ x : VirtualAddress, address.value ≤ x.value ∧
      x.value < address.value + size ∧ va = x.alignDown .small := by
  have least := address.value_lt
  unfold touchedPages
  dsimp only
  rw [List.mem_map]
  constructor
  · rintro ⟨i, inside, rfl⟩
    obtain ⟨wanted, left⟩ := Nat.lt_min.mp (List.mem_range.mp inside)
    have value := value_touched left
    rw [Address.value_alignDown] at wanted left
    simp only [PageSize.bytes] at wanted left
    cases i with
    | zero =>
      refine ⟨address, Nat.le_refl _, by omega, Address.ext ?_⟩
      rw [value, Address.value_alignDown]
      rfl
    | succ i =>
      generalize (address.alignDown .small).wrappingAdd (4096 * (i + 1)) = va at value ⊢
      refine ⟨va, by omega, by omega, Address.ext ?_⟩
      rw [Address.value_alignDown]
      simp only [PageSize.bytes]
      omega
  · rintro ⟨x, above, below, rfl⟩
    have most := x.value_lt
    have left : (x.value - (address.value - address.value % 4096)) / 4096 <
        (4294967296 - (address.alignDown .small).value) / 4096 := by
      rw [Address.value_alignDown]
      simp only [PageSize.bytes]
      omega
    refine ⟨_, List.mem_range.mpr (Nat.lt_min.mpr ⟨?_, left⟩), Address.ext ?_⟩
    · rw [Address.value_alignDown]
      simp only [PageSize.bytes]
      omega
    · rw [value_touched left, Address.value_alignDown]
      simp only [PageSize.bytes]
      omega

theorem nodup_touchedPages : ((touchedPages address size).map Address.splitSlots).Nodup := by
  have bound := (address.alignDown .small).value_lt
  unfold touchedPages
  rw [List.map_map]
  refine (List.nodup_map_iff_inj_on List.nodup_range).mpr ?_
  intro i hi j hj same
  have first := value_touched (Nat.lt_min.mp (List.mem_range.mp hi)).2
  have second := value_touched (Nat.lt_min.mp (List.mem_range.mp hj)).2
  have page := Address.splitSlots_eq_iff.mp same
  rw [first, second] at page
  omega

/-! ## What the journal says -/

/-- What is noted when a page is made writable: the frame that it has moved to, if it had to, and
how the fault was resolved. -/
def Environment.notes (env : Environment) : VirtualAddress × Option FrameId → List Event
  | (va, none) => [.faultResolved .writeProtect va env.current .madeWritable]
  | (va, some g) => [.frameAllocated g, .faultResolved .writeProtect va env.current .copied]

namespace Machine

/-- Neither the pool nor the journal has changed. -/
structure Silent (m m' : Machine) : Prop where
  pool : m'.pool = m.pool
  events : m'.events = m.events

namespace Silent

theorem modifyFrame (m : Machine) (f : FrameId) (change : Frame → Frame) :
    Ends (PagedMemory.modifyFrame f change) m (fun _ => True) fun _ m' => m.Silent m' := by
  refine (Ends.modifyFrame m f change).mono ?_
  rintro _ m₁ ⟨-, rfl⟩
  exact ⟨rfl, rfl⟩

theorem copyFrame (m : Machine) (source target : FrameId) :
    Ends (PagedMemory.copyFrame source target) m (fun _ => True) fun _ m' => m.Silent m' := by
  cases run : PagedMemory.copyFrame source target m with
  | error cause => exact Ends.of_stop run trivial
  | ok result =>
    refine Ends.intro (a := ()) run ?_
    unfold PagedMemory.copyFrame at run
    split at run
    · cases run
      exact ⟨rfl, rfl⟩
    · split at run
      · cases run
      · split at run
        · cases run
          exact ⟨rfl, rfl⟩
        · cases run

theorem flush (m : Machine) :
    Ends PagedMemory.flush m (fun _ => True) fun _ m' => m.Silent m' := by
  apply Ends.flush
  · intro counted
    exact ⟨rfl, rfl⟩
  · intro overrun
    trivial

theorem updateEntry (m : Machine) (s : Space) (va : VirtualAddress) (change : Entry → Entry) :
    Ends (s.updateEntry va change) m (fun _ => True) fun _ m' => m.Silent m' := by
  refine (Ends.seen _ m).bind ?_
  rintro found m₁ rfl
  cases found with
  | none => exact Ends.pure ⟨rfl, rfl⟩
  | some t =>
    refine (Ends.seen _ m₁).bind ?_
    rintro e m₂ rfl
    refine (modifyFrame m₂ t _).bind ?_
    intro _ m₃ silent
    exact Ends.pure silent

end Silent

end Machine

/-- A frame that is handed out is noted, and is the only one that is counted anew. -/
theorem Tries.allocFrame_noted (m : Machine) :
    Tries allocFrame m (fun _ => True)
      (fun g m' => m.pool.refCount? g = some 0 ∧ m'.InUse g ∧
        m'.events = m.events.push (.frameAllocated g) ∧
        ∀ f, f ≠ g → m'.pool.refCount? f = m.pool.refCount? f)
      (fun _ _ => True) := by
  refine Tries.lift_bind (P := fun given m' => ∀ g, given = some g → m.pool.refCount? g = some 0 ∧
    m'.InUse g ∧ m'.events = m.events.push (.frameAllocated g) ∧
    ∀ f, f ≠ g → m'.pool.refCount? f = m.pool.refCount? f) ?_ ?_
  · cases given : m.pool.alloc with
    | none =>
      have run : allocFrame? m = .ok (none, m) := by simp only [allocFrame?, given]
      refine Ends.intro run ?_
      intro g taken
      cases taken
    | some pair =>
      obtain ⟨g, pool⟩ := pair
      obtain ⟨managed, free, rfl⟩ := FramePool.alloc_eq_some given
      have run : allocFrame? m = .ok (some g, { m with
          pool := m.pool.setCount g 1, events := m.events.push (.frameAllocated g) }) := by
        simp only [allocFrame?, given]
      refine Ends.intro run ?_
      rintro _ ⟨⟩
      refine ⟨?_, ?_, rfl, fun f other => ?_⟩
      · rw [FramePool.refCount?, if_pos managed, free]
      · exact .of_count (FramePool.count_setCount_self 1 managed) Nat.one_ne_zero
      · exact FramePool.refCount?_setCount_of_ne 1 managed other
  · rintro (_ | g) m₁ granted
    · exact Tries.fail trivial
    · exact Tries.pure (granted g rfl)

/-- One of several references is given up, which is not noted. -/
theorem Ends.release_of_several (several : m.pool.refCount? f ≠ some 1) :
    Ends (PagedMemory.release f) m (fun _ => True) fun _ m' => m'.events = m.events ∧
      ∀ g, g ≠ f → m'.pool.refCount? g = m.pool.refCount? g := by
  cases done : m.pool.release f with
  | error cause =>
    have stop : PagedMemory.release f m = .error cause := by simp only [PagedMemory.release, done]
    exact Ends.of_stop stop trivial
  | ok pool =>
    have run : PagedMemory.release f m = .ok ((), { m with pool := pool }) := by
      simp only [PagedMemory.release, done, beq_iff_eq, if_neg several]
    refine Ends.intro run ⟨rfl, fun g other => ?_⟩
    unfold FramePool.refCount?
    rw [FramePool.manages_release done]
    split
    · next tracked =>
      have kept := FramePool.count_release done tracked
      rw [if_neg other, Nat.add_zero] at kept
      rw [kept]
    · rfl

/-- A page that is made writable is not noted until the fault has been resolved, but a frame that
it is moved to is. -/
theorem unsharePage_noted (found : s.entry m.ram va = .ok (some e)) (present : e.present = true)
    (protect : e.writable = false) (used : m.InUse e.frame) :
    Tries (unsharePage s va) m (fun _ => True)
      (fun how m' => ∃ r, how = some r ∧ (r = .madeWritable ∧ m'.events = m.events ∨
        r = .copied ∧ ∃ g, m.pool.refCount? g = some 0 ∧ m'.InUse g ∧
          m'.events = m.events.push (.frameAllocated g)))
      (fun _ _ => True) := by
  unfold unsharePage
  refine Tries.lift_bind (P := fun found m' => found = some e ∧ m' = m)
    (Ends.inspect found ⟨rfl, rfl⟩) ?_
  rintro _ m₁ ⟨rfl, rfl⟩
  dsimp only
  rw [present, protect, if_neg (by decide), if_neg (by decide)]
  refine Tries.lift_bind (P := fun count m' => count = m₁.pool.refCount? e.frame ∧ m' = m₁)
    (Ends.inspect rfl ⟨rfl, rfl⟩) ?_
  rintro _ m₂ ⟨rfl, rfl⟩
  split
  · refine Tries.discard_bind (Machine.Silent.updateEntry m₂ s va _) ?_
    intro m₃ silent₃
    refine Tries.lift_bind (Machine.Silent.flush m₃) ?_
    intro _ m₄ silent₄
    exact Tries.pure ⟨_, rfl, .inl ⟨rfl, silent₄.events.trans silent₃.events⟩⟩
  · next several =>
    refine Tries.bind ((Tries.allocFrame_noted m₂).mono_failed fun _ _ _ => trivial) ?_
    rintro g m₃ ⟨free, granted, noted, counts⟩
    have apart : e.frame ≠ g := by
      rintro rfl
      exact used free
    refine Tries.lift_bind (Machine.Silent.copyFrame m₃ e.frame g) ?_
    intro _ m₄ silent₄
    refine Tries.discard_bind (Machine.Silent.updateEntry m₄ s va _) ?_
    intro m₅ silent₅
    have pool := silent₅.pool.trans silent₄.pool
    refine Tries.lift_bind (Ends.release_of_several (m := m₅) (f := e.frame) ?_) ?_
    · rw [pool, counts _ apart]
      exact several
    rintro _ m₆ ⟨events₆, counts₆⟩
    refine Tries.lift_bind (Machine.Silent.flush m₆) ?_
    intro _ m₇ silent₇
    refine Tries.pure ⟨_, rfl, .inr ⟨rfl, g, free, ?_, ?_⟩⟩
    · rw [Machine.InUse, silent₇.pool, counts₆ g apart.symm, pool]
      exact granted
    · rw [silent₇.events, events₆, silent₅.events, silent₄.events, noted]

/-- How a fault was resolved is the last thing that is noted. -/
theorem Tries.handleFault_noted {kind : FaultKind} {stops : Halt → Prop}
    {done : Resolution → Machine → Prop} {failed : MemoryError → Machine → Prop}
    (resolved : Tries (resolveFault env kind va) m stops done failed) :
    Tries (PagedMemory.handleFault env kind va) m stops
      (fun how m' => ∃ m₁, done how m₁ ∧ m' = { m₁ with
        events := m₁.events.push (.faultResolved kind va env.current how) })
      (fun _ _ => True) := by
  refine Ends.bind resolved ?_
  intro result m₁ post
  cases result with
  | error cause =>
    refine Ends.bind (P := fun _ _ => True) (Ends.intro rfl trivial) ?_
    intro _ m₂ _
    refine Ends.bind (P := fun _ _ => True) (Ends.intro rfl trivial) ?_
    intro _ m₃ _
    exact Ends.pure trivial
  | ok how =>
    refine Ends.bind (P := fun _ m' => m' = { m₁ with
      events := m₁.events.push (.faultResolved kind va env.current how) }) (Ends.intro rfl rfl) ?_
    rintro _ m₂ rfl
    exact Ends.pure ⟨m₁, post, rfl⟩

/-! ## One page -/

/-- The entry maps a page that must not be written to. -/
def Entry.isProtected (e : Entry) : Bool :=
  e.present && !e.writable

/-- The entry of a page that may be written to again, in the frame that it had or in another one. -/
def Entry.renewed (e : Entry) : Option FrameId → Entry
  | none => e.madeWritable
  | some g => .make g { Entry.userWritable with dirty := e.dirty }

namespace Entry

theorem present_renewed (present : e.present = true) (a : Option FrameId) :
    (e.renewed a).present = true := by
  cases a with
  | none => exact present
  | some g => rfl

theorem writable_renewed (a : Option FrameId) : (e.renewed a).writable = true := by
  cases a <;> rfl

theorem dirty_renewed (a : Option FrameId) : (e.renewed a).dirty = e.dirty := by
  cases a <;> rfl

end Entry

namespace Machine

/-- A page that was read-only can be written to. It has kept its frame, or has moved with its bytes
to one that was free. -/
structure Renewed (m : Machine) (live : Finset Space) (env : Environment) (s : Space)
    (a : VirtualAddress × Option FrameId) (m' : Machine) : Prop where
  journal : m'.events.toList = m.events.toList ++ env.notes a
  flushes : m'.flushes = m.flushes + 1
  entry : s.leaf m'.ram a.1.splitSlots = (s.leaf m.ram a.1.splitSlots).renewed a.2
  bytes : m'.ram.frame? (s.leaf m'.ram a.1.splitSlots).frame =
    m.ram.frame? (s.leaf m.ram a.1.splitSlots).frame
  free : ∀ g, a.2 = some g → m.pool.refCount? g = some 0
  taken : ∀ f, m.pool.refCount? f = some 0 → (m'.InUse f ↔ a.2 = some f)
  used : ∀ f, m.InUse f → m'.InUse f
  elsewhere : m.Elsewhere live {(s, a.1.splitSlots)} m'

theorem Permitted.renewed (permitted : m.Permitted live s va (s.leaf m.ram va.splitSlots) m')
    (sound : (m'.view live).Sound owed) (hs : s ∈ live) (flushes : m'.flushes = m.flushes + 1)
    (noted : m'.events =
      m.events.push (.faultResolved .writeProtect va env.current .madeWritable)) :
    m.Renewed live env s (va, none) m' := by
  have entry := leaf_of_entry sound hs permitted.entry
  refine ⟨?_, flushes, entry, ?_, nofun, ?_, ?_, permitted.elsewhere⟩
  · rw [noted, Array.toList_push]
    rfl
  · dsimp only
    rw [entry]
    exact permitted.bytes
  · intro f free
    refine iff_of_false ?_ nofun
    rw [InUse, permitted.counts]
    exact not_not.mpr free
  · intro f used
    rw [InUse, permitted.counts]
    exact used

/-- The only frame that has come into use is the one that the page has moved to. -/
theorem Parted.inUse_iff (parted : m.Parted live s va e g m') (free : m.pool.refCount? f = some 0) :
    m'.InUse f ↔ f = g := by
  constructor
  · intro used
    by_contra other
    have apart : f ≠ e.frame := by
      rintro rfl
      have less := parted.less
      rw [free] at less
      obtain ⟨_, -, more⟩ := Option.map_eq_some_iff.mp less.symm
      exact Nat.succ_ne_zero _ more
    exact used ((parted.counts f other apart).trans free)
  · rintro rfl
    rw [InUse, parted.one]
    decide

theorem Parted.renewed (parted : m.Parted live s va (s.leaf m.ram va.splitSlots) g m')
    (sound : (m'.view live).Sound owed) (hs : s ∈ live)
    (several : m.pool.refCount? (s.leaf m.ram va.splitSlots).frame ≠ some 1)
    (flushes : m'.flushes = m.flushes + 1)
    (noted : m'.events = (m.events.push (.frameAllocated g)).push
      (.faultResolved .writeProtect va env.current .copied)) :
    m.Renewed live env s (va, some g) m' := by
  have entry := leaf_of_entry sound hs parted.entry
  have less := parted.less
  refine ⟨?_, flushes, entry, ?_, ?_, ?_, ?_, parted.elsewhere⟩
  · rw [noted, Array.toList_push, Array.toList_push, List.append_assoc]
    rfl
  · dsimp only
    rw [entry]
    obtain ⟨b, before, -, after⟩ := parted.bytes
    exact after.trans before.symm
  · rintro _ ⟨⟩
    exact parted.free
  · intro f free
    rw [parted.inUse_iff free, Option.some.injEq, eq_comm]
  · intro f used
    by_cases same : f = g
    · rw [InUse, same, parted.one]
      decide
    · by_cases left : f = (s.leaf m.ram va.splitSlots).frame
      · subst left
        rintro none
        rw [none] at less
        exact several less
      · rw [InUse, parted.counts f same left]
        exact used

/-- A write to a read-only page makes it writable. Only the counter of flushes can stop the
kernel. -/
theorem handleFault_renews (sound : (m.view live).Sound owed) (hs : s ∈ live)
    (owner : env.addressSpace env.current = some s)
    (protect : (s.leaf m.ram va.splitSlots).isProtected = true) :
    Tries (PagedMemory.handleFault env .writeProtect va) m (fun _ => flushLimit ≤ m.flushes + 1)
      (fun _ m' => (m'.view live).Sound owed ∧ ∃ a, m.Renewed live env s (va, a) m')
      (fun _ _ => True) := by
  obtain ⟨present, readOnly⟩ := Bool.and_eq_true_iff.mp protect
  rw [Bool.not_eq_eq_eq_not, Bool.not_true] at readOnly
  have shows := m.shows_view live
  have found := shows.entry_of_present sound.separate hs present
  have root : m.InUse s.root := .of_count (sound.root s hs).2 Nat.one_ne_zero
  have used : m.InUse (s.leaf m.ram va.splitSlots).frame := fun free =>
    sound.not_free hs (View.refers_leaf (v := m.view live) present) (free_view_iff.mpr free)
  have answers := shows.handleFault_of_protected sound hs owner present readOnly
  have writes := Writes.handleFault_of_present root owner found present
  have noted := (Tries.resolveFault_of_write owner
    (unsharePage_noted found present readOnly used)).handleFault_noted
  refine (((answers.and writes).and noted).mono ?_ fun _ _ _ => trivial).mono_stops
    fun _ stop => stop.1.1.2
  rintro how m' ⟨⟨⟨answered, v', unshares, shows'⟩, written⟩, m₁, events, rfl⟩
  have same : v'.live = live := by
    cases unshares <;> rfl
  have sound' := unshares.sound hs sound
  have sound₁ := shows'.sound_view sound'
  rw [same] at sound₁
  refine ⟨sound₁, ?_⟩
  have whole := unshares
  cases unshares with
  | spurious => exact absurd rfl answered
  | madeWritable =>
    obtain ⟨-, quiet⟩ | ⟨other, -⟩ := events
    · have permitted := permitted_of_unshares sound hs whole shows' written
      refine ⟨none, permitted.renewed sound₁ hs shows'.flushes ?_⟩
      dsimp only
      rw [quiet]
    · cases other
  | copied _ _ shared =>
    obtain ⟨other, -⟩ | ⟨-, g', free, granted, quiet⟩ := events
    · cases other
    · rw [← shows.refCount?_eq_some_iff] at shared
      obtain ⟨g, parted⟩ := parted_of_unshares sound hs whole shows' written
      obtain rfl := (parted.inUse_iff free).mp granted
      refine ⟨some g', parted.renewed sound₁ hs shared shows'.flushes ?_⟩
      dsimp only
      rw [quiet]

/-- A page that is missing or can be written to is left as it is. -/
theorem verifyPage_renews (sound : (m.view live).Sound owed) (hs : s ∈ live)
    (owner : env.addressSpace env.current = some s) (va : VirtualAddress) :
    Tries (PagedMemory.verifyPage env s va) m (fun _ => flushLimit ≤ m.flushes + 1)
      (fun _ m' => ((s.leaf m.ram va.splitSlots).isProtected = false ∧ m' = m) ∨
        ((s.leaf m.ram va.splitSlots).isProtected = true ∧ (m'.view live).Sound owed ∧
          ∃ a, m.Renewed live env s (va, a) m'))
      (fun _ _ => True) := by
  have found : s.entry m.ram va =
      .ok ((s.link m.ram va.directorySlot).map fun _ => s.leaf m.ram va.splitSlots) :=
    Space.entry_eq (Machine.inside_of_sound sound hs)
  refine Tries.lift_bind (P := fun found m' =>
    found = (s.link m.ram va.directorySlot).map (fun _ => s.leaf m.ram va.splitSlots) ∧ m' = m)
    (Ends.inspect found ⟨rfl, rfl⟩) ?_
  rintro _ m₁ ⟨rfl, rfl⟩
  cases linked : s.link m₁.ram va.directorySlot with
  | none =>
    refine Tries.pure (.inl ⟨?_, rfl⟩)
    rw [Address.splitSlots, Space.leaf_of_vacant linked]
    rfl
  | some t =>
    simp only [Option.map_some]
    split
    · next protect =>
      refine Tries.discard ((handleFault_renews sound hs owner protect).mono_done ?_)
      intro _ m₂ renewed
      exact .inr ⟨protect, renewed⟩
    · next fine => exact Tries.pure (.inl ⟨Bool.eq_false_iff.mpr fine, rfl⟩)

/-! ## The pages of an area, one after the other -/

/-- These pages have been gone through. Those that were read-only have been answered, in this order,
and each answer has taken at most one frame. -/
structure Verified (m : Machine) (live : Finset Space) (env : Environment) (s : Space)
    (pages : List VirtualAddress) (answers : List (VirtualAddress × Option FrameId))
    (m' : Machine) : Prop where
  asked : answers.map Prod.fst = pages.filter fun va => (s.leaf m.ram va.splitSlots).isProtected
  journal : m'.events.toList = m.events.toList ++ answers.flatMap env.notes
  flushes : m'.flushes = m.flushes + answers.length
  entry : ∀ a ∈ answers, s.leaf m'.ram a.1.splitSlots =
    (s.leaf m.ram a.1.splitSlots).renewed a.2
  bytes : ∀ a ∈ answers, m'.ram.frame? (s.leaf m'.ram a.1.splitSlots).frame =
    m.ram.frame? (s.leaf m.ram a.1.splitSlots).frame
  distinct : (answers.filterMap Prod.snd).Nodup
  taken : ∀ f, f ∈ answers.filterMap Prod.snd ↔ m.pool.refCount? f = some 0 ∧ m'.InUse f
  used : ∀ f, m.InUse f → m'.InUse f
  elsewhere : m.Elsewhere live {p | p.1 = s ∧ ∃ a ∈ answers, p.2 = a.1.splitSlots} m'

namespace Verified

variable {pages : List VirtualAddress} {answers : List (VirtualAddress × Option FrameId)}
  {a : VirtualAddress × Option FrameId}

theorem start (m : Machine) : m.Verified live env s [] [] m where
  asked := rfl
  journal := (List.append_nil _).symm
  flushes := rfl
  entry := nofun
  bytes := nofun
  distinct := List.nodup_nil
  taken _ := iff_of_false nofun fun h => h.2 h.1
  used _ used := used
  elsewhere := .refl m

theorem skip (verified : m.Verified live env s pages answers m')
    (fine : (s.leaf m.ram va.splitSlots).isProtected = false) :
    m.Verified live env s (pages ++ [va]) answers m' where
  __ := verified
  asked := by
    rw [List.filter_append, ← verified.asked, List.filter_cons_of_neg (by simpa using fine)]
    exact (List.append_nil _).symm

/-- The pages that were answered are some of those that were gone through. -/
theorem mem_pages (verified : m.Verified live env s pages answers m') (mem : a ∈ answers) :
    a.1 ∈ pages ∧ (s.leaf m.ram a.1.splitSlots).isProtected = true := by
  have asked : a.1 ∈ answers.map Prod.fst := List.mem_map_of_mem mem
  rw [verified.asked] at asked
  exact List.mem_filter.mp asked

theorem length_le (verified : m.Verified live env s pages answers m') :
    answers.length ≤ pages.length := by
  have asked := congrArg List.length verified.asked
  rw [List.length_map] at asked
  rw [asked]
  exact List.length_filter_le _ _

/-- Every page that was answered is mapped, so no directory has changed. -/
theorem directory (verified : m.Verified live env s pages answers m') {s' : Space} (hs : s' ∈ live)
    (i : Slot) : m'.ram.entry s'.root i = m.ram.entry s'.root i := by
  apply verified.elsewhere.directory _ hs
  rintro ⟨_, _⟩ ⟨rfl, a, mem, rfl⟩
  exact (Bool.and_eq_true_iff.mp (verified.mem_pages mem).2).1

/-- A page that has not been gone through is what it was. -/
theorem leaf_fresh (verified : m.Verified live env s pages answers m') (hs : s ∈ live)
    (fresh : va.splitSlots ∉ pages.map Address.splitSlots) :
    s.leaf m'.ram va.splitSlots = s.leaf m.ram va.splitSlots := by
  refine verified.elsewhere.entries s hs va.splitSlots ?_
  rintro ⟨-, a, mem, same⟩
  apply fresh
  rw [show va.splitSlots = a.1.splitSlots from same]
  exact List.mem_map_of_mem (verified.mem_pages mem).1

section Renew

variable {renewed : Option FrameId}

/-- The frame that one more page takes is free until then. -/
private theorem taken_renew (verified : m.Verified live env s pages answers m₁)
    (renews : m₁.Renewed live env s (va, renewed) m') (f : FrameId) :
    f ∈ (answers ++ [(va, renewed)]).filterMap Prod.snd ↔
      m.pool.refCount? f = some 0 ∧ m'.InUse f := by
  have last : f ∈ [(va, renewed)].filterMap Prod.snd ↔ renewed = some f := by
    cases renewed <;> simp [eq_comm]
  rw [List.filterMap_append, List.mem_append, verified.taken, last]
  by_cases used : m₁.InUse f
  · have other : renewed ≠ some f := fun same => used (renews.free f same)
    have kept := iff_of_true used (renews.used f used)
    rw [or_iff_left other, kept]
  · have free : m.pool.refCount? f = some 0 := not_not.mp fun h => used (verified.used f h)
    rw [renews.taken f (not_not.mp used)]
    exact ⟨fun h => ⟨free, h.resolve_left fun h => used h.2⟩, fun h => .inr h.2⟩

private theorem distinct_renew (verified : m.Verified live env s pages answers m₁)
    (renews : m₁.Renewed live env s (va, renewed) m') :
    ((answers ++ [(va, renewed)]).filterMap Prod.snd).Nodup := by
  rw [List.filterMap_append]
  cases renewed with
  | none =>
    rw [show [(va, (none : Option FrameId))].filterMap Prod.snd = [] from rfl, List.append_nil]
    exact verified.distinct
  | some g =>
    refine List.Nodup.append verified.distinct (List.nodup_singleton g) ?_
    intro f mem here
    obtain rfl := List.mem_singleton.mp here
    exact ((verified.taken f).mp mem).2 (renews.free f rfl)

/-- One more page is answered, which has not been gone through before. -/
theorem renew (verified : m.Verified live env s pages answers m₁)
    (sound : (m.view live).Sound owed) (sound₁ : (m₁.view live).Sound owed) (hs : s ∈ live)
    (fresh : va.splitSlots ∉ pages.map Address.splitSlots)
    (protect : (s.leaf m₁.ram va.splitSlots).isProtected = true)
    (renews : m₁.Renewed live env s (va, renewed) m') :
    m.Verified live env s (pages ++ [va]) (answers ++ [(va, renewed)]) m' := by
  have before := verified.leaf_fresh hs fresh
  have after {a : VirtualAddress × Option FrameId} (mem : a ∈ answers) :
      s.leaf m'.ram a.1.splitSlots = s.leaf m₁.ram a.1.splitSlots := by
    refine renews.elsewhere.entries s hs _ fun same => fresh ?_
    rw [← (Prod.mk.inj same).2]
    exact List.mem_map_of_mem (verified.mem_pages mem).1
  have present (k : Place) (protect : (s.leaf m.ram k).isProtected = true) :
      (s.leaf m.ram k).present = true := (Bool.and_eq_true_iff.mp protect).1
  refine ⟨?_, ?_, ?_, ?_, ?_, verified.distinct_renew renews, verified.taken_renew renews, ?_, ?_⟩
  · rw [before] at protect
    have last : [va].filter (fun va => (s.leaf m.ram va.splitSlots).isProtected) = [va] :=
      List.filter_cons_of_pos protect
    rw [List.map_append, List.filter_append, verified.asked, last]
    rfl
  · rw [renews.journal, verified.journal, List.flatMap_append, List.append_assoc]
    simp only [List.flatMap_cons, List.flatMap_nil, List.append_nil]
  · rw [renews.flushes, verified.flushes, List.length_append]
    rfl
  · intro a mem
    rcases List.mem_append.mp mem with old | new
    · rw [after old, verified.entry a old]
    · obtain rfl := List.mem_singleton.mp new
      rw [renews.entry, before]
  · intro a mem
    rcases List.mem_append.mp mem with old | new
    · have mapped : (s.leaf m₁.ram a.1.splitSlots).present = true := by
        rw [verified.entry a old]
        exact Entry.present_renewed (present _ (verified.mem_pages old).2) a.2
      rw [after old, frame?_of_elsewhere sound₁ hs mapped renews.elsewhere, verified.bytes a old]
    · obtain rfl := List.mem_singleton.mp new
      rw [renews.bytes, before]
      exact frame?_of_elsewhere sound hs (present _ (before ▸ protect)) verified.elsewhere
  · exact fun f used => renews.used f (verified.used f used)
  · have tables (s' : Space) (hs' : s' ∈ live) (i : Slot) (t : FrameId)
        (linked : s'.link m₁.ram i = some t) : s'.link m.ram i = some t ∨ ¬ m.InUse t :=
      .inl ((Space.link_of_entry (verified.directory hs' i)).symm.trans linked)
    refine (verified.elsewhere.trans renews.elsewhere verified.used tables).mono ?_
    rintro ⟨s', k⟩ (⟨rfl, a, mem, rfl⟩ | same)
    · exact ⟨rfl, a, List.mem_append_left _ mem, rfl⟩
    · cases same
      exact ⟨rfl, _, List.mem_append_right _ (List.mem_singleton_self _), rfl⟩

end Renew

end Verified

/-- The loop goes through all pages of the area. An early end, like a wrong number of pages, would
leave some of them out. -/
theorem verifyArea_verifies (sound : (m.view live).Sound owed) (hs : s ∈ live)
    (owner : env.addressSpace env.current = some s) (address : VirtualAddress) (size : Nat) :
    Tries (PagedMemory.verifyArea env address size) m
      (fun _ => flushLimit ≤ m.flushes + (touchedPages address size).length)
      (fun _ m' => (m'.view live).Sound owed ∧
        ∃ answers, m.Verified live env s (touchedPages address size) answers m')
      (fun _ _ => True) := by
  unfold PagedMemory.verifyArea
  rw [owner]
  refine (Tries.forM_done (P := fun pages m₁ => (m₁.view live).Sound owed ∧
    ∃ answers, m.Verified live env s pages answers m₁) (Q := fun _ _ _ => True)
    ?_ ⟨sound, [], .start m⟩).mono_failed fun _ _ _ => trivial
  rintro pages va rest m₁ cut ⟨sound₁, answers, verified⟩
  have fresh : va.splitSlots ∉ pages.map Address.splitSlots := by
    have distinct : ((touchedPages address size).map Address.splitSlots).Nodup :=
      nodup_touchedPages
    rw [cut, List.map_append, List.map_cons] at distinct
    exact fun mem => (List.nodup_append.mp distinct).2.2 _ mem _ List.mem_cons_self rfl
  refine ((verifyPage_renews sound₁ hs owner va).mono_done ?_).mono_stops ?_
  · rintro _ m₂ (⟨fine, rfl⟩ | ⟨protect, sound₂, renewed, renews⟩)
    · rw [verified.leaf_fresh hs fresh] at fine
      exact ⟨sound₁, _, verified.skip fine⟩
    · exact ⟨sound₂, _, verified.renew sound sound₁ hs fresh protect renews⟩
  · intro _ stop
    have few := verified.length_le
    have pieces := congrArg List.length cut
    rw [List.length_append, List.length_cons] at pieces
    rw [verified.flushes] at stop
    omega

/-- The page of an address, which had the entry `e` and now has the entry `e'`, can be written to,
and nobody else refers to its frame. It holds what it held, and has been written to if it had. -/
structure Secured (m : Machine) (s : Space) (va : VirtualAddress) (e e' : Entry) (m' : Machine) :
    Prop where
  entry : s.entry m'.ram va = .ok (some e')
  present : e'.present = true
  writable : e'.writable = true
  dirty : e'.dirty = e.dirty
  one : m'.pool.refCount? e'.frame = some 1
  bytes : ∃ b, m.ram.frame? e.frame = some b ∧ m'.ram.frame? e'.frame = some b

/-- What making an area ready has done. Its pages can be written to, if they are mapped, and nothing
else has changed: no directory, no other entry, no byte of a frame that was in use. -/
structure Secures (m : Machine) (live : Finset Space) (env : Environment) (s : Space)
    (address : VirtualAddress) (size : Nat) (m' : Machine) : Prop where
  present : ∀ (x : VirtualAddress) e, address.value ≤ x.value → x.value < address.value + size →
    s.entry m.ram x = .ok (some e) → e.present = true → ∃ e', m.Secured s x e e' m'
  absent : ∀ x : VirtualAddress, address.value ≤ x.value → x.value < address.value + size →
    (∀ e, s.entry m.ram x = .ok (some e) → e.present = false) →
    s.entry m'.ram x = s.entry m.ram x
  directories : ∀ s' ∈ live, ∀ i, m'.ram.entry s'.root i = m.ram.entry s'.root i
  elsewhere : m.Elsewhere live { p | p.1 = s ∧ p.2.Meets address size ∧
    (s.leaf m.ram p.2).isProtected = true } m'
  answers : ∃ answers, m.Verified live env s (touchedPages address size) answers m'

/-- That nobody else refers to the frame follows from the right to write to it. -/
theorem secured_of_leaf (sound : (m.view live).Sound owed) (sound' : (m'.view live).Sound owed)
    (hs : s ∈ live) (before : (s.leaf m.ram va.splitSlots).present = true)
    (present : (s.leaf m'.ram va.splitSlots).present = true)
    (writable : (s.leaf m'.ram va.splitSlots).writable = true)
    (dirty : (s.leaf m'.ram va.splitSlots).dirty = (s.leaf m.ram va.splitSlots).dirty)
    (bytes : m'.ram.frame? (s.leaf m'.ram va.splitSlots).frame =
      m.ram.frame? (s.leaf m.ram va.splitSlots).frame) :
    m.Secured s va (s.leaf m.ram va.splitSlots) (s.leaf m'.ram va.splitSlots) m' := by
  have held := (m.shows_view live).frame?_eq (sound.mapped s hs va.splitSlots before)
    (sound.not_hidden_of_leaf hs (View.refers_leaf (v := m.view live) before))
  have found := (m'.shows_view live).entry_of_present sound'.separate hs present
  have one := (m'.shows_view live).refCount?_eq_some_iff.mpr
    (sound'.exclusive s hs va.splitSlots present writable)
  exact ⟨found, present, writable, dirty, one, _, held, bytes.trans held⟩

theorem Verified.secured {pages : List VirtualAddress}
    {answers : List (VirtualAddress × Option FrameId)}
    (verified : m.Verified live env s pages answers m') (sound : (m.view live).Sound owed)
    (sound' : (m'.view live).Sound owed) (hs : s ∈ live) (gone : va.alignDown .small ∈ pages)
    (present : (s.leaf m.ram va.splitSlots).present = true) :
    m.Secured s va (s.leaf m.ram va.splitSlots) (s.leaf m'.ram va.splitSlots) m' := by
  by_cases protect : (s.leaf m.ram va.splitSlots).isProtected = true
  · have asked : va.alignDown .small ∈ answers.map Prod.fst := by
      rw [verified.asked, List.mem_filter, Address.splitSlots_alignDown]
      exact ⟨gone, protect⟩
    obtain ⟨a, mem, here⟩ := List.mem_map.mp asked
    have place : a.1.splitSlots = va.splitSlots := by
      rw [here, Address.splitSlots_alignDown]
    have entry := verified.entry a mem
    have bytes := verified.bytes a mem
    rw [place] at entry bytes
    refine secured_of_leaf sound sound' hs present ?_ ?_ ?_ bytes
    · rw [entry]
      exact Entry.present_renewed present a.2
    · rw [entry]
      exact Entry.writable_renewed a.2
    · rw [entry]
      exact Entry.dirty_renewed a.2
  · have same : s.leaf m'.ram va.splitSlots = s.leaf m.ram va.splitSlots := by
      refine verified.elsewhere.entries s hs va.splitSlots ?_
      rintro ⟨-, a, mem, here⟩
      apply protect
      rw [show va.splitSlots = a.1.splitSlots from here]
      exact (verified.mem_pages mem).2
    have bytes := frame?_of_elsewhere sound hs present verified.elsewhere
    refine secured_of_leaf sound sound' hs present ?_ ?_ ?_ ?_
    · rw [same]
      exact present
    · rw [same]
      simpa [Entry.isProtected, present] using protect
    · rw [same]
    · rw [same]
      exact bytes

theorem Verified.secures {answers : List (VirtualAddress × Option FrameId)}
    (verified : m.Verified live env s (touchedPages address size) answers m')
    (sound : (m.view live).Sound owed) (sound' : (m'.view live).Sound owed) (hs : s ∈ live)
    (some : 1 ≤ size) : m.Secures live env s address size m' := by
  have elsewhere : m.Elsewhere live { p | p.1 = s ∧ p.2.Meets address size ∧
      (s.leaf m.ram p.2).isProtected = true } m' := by
    refine verified.elsewhere.mono ?_
    rintro ⟨_, _⟩ ⟨rfl, a, mem, rfl⟩
    obtain ⟨gone, protect⟩ := verified.mem_pages mem
    obtain ⟨x, above, below, here⟩ := (mem_touchedPages_iff some).mp gone
    refine ⟨rfl, ⟨x, above, below, ?_⟩, protect⟩
    rw [here, Address.splitSlots_alignDown]
  refine ⟨?_, ?_, fun s' hs' i => verified.directory hs' i, elsewhere, answers, verified⟩
  · intro x e above below found present
    obtain rfl := leaf_of_entry sound hs found
    have gone := (mem_touchedPages_iff some).mpr ⟨x, above, below, rfl⟩
    exact ⟨_, verified.secured sound sound' hs gone present⟩
  · intro x above below missing
    have absent : (s.leaf m.ram x.splitSlots).present = false := by
      by_contra present
      rw [Bool.not_eq_false] at present
      have gone := missing _ ((m.shows_view live).entry_of_present sound.separate hs present)
      cases present.symm.trans gone
    have same : s.leaf m'.ram x.splitSlots = s.leaf m.ram x.splitSlots := by
      refine elsewhere.entries s hs x.splitSlots ?_
      rintro ⟨-, -, protect⟩
      have present := (Bool.and_eq_true_iff.mp protect).1
      cases absent.symm.trans present
    rw [Space.entry_eq (inside_of_sound sound hs), Space.entry_eq (inside_of_sound sound' hs), same,
      Space.link_of_entry (verified.directory hs _)]

end Machine

/-- Making an area of the current process ready for the kernel to write to. Every page of it that is
mapped, up to the last one that it meets, can be written to afterwards, holds what it held, and has
a frame of its own. A page that is missing stays missing, and nothing else changes. Each page that
is copied takes one frame, and no other frame is taken. The kernel stops only if the cache has been
emptied too often to be counted. -/
theorem verified_areas_can_be_written (sound : (m.view live).Sound owed) (hs : s ∈ live)
    (owner : env.addressSpace env.current = some s) (some : 1 ≤ size) :
    ((∃ cause, outcome (verifyArea env address size) m = .error cause) →
      flushLimit ≤ m.flushes + 1048576) ∧
    ∀ m', outcome (verifyArea env address size) m = .ok (.ok (), m') →
      m.Secures live env s address size m' := by
  have verifies := Machine.verifyArea_verifies sound hs owner address size
  constructor
  · rintro ⟨cause, stop⟩
    have overrun := verifies.of_error stop
    have pages := length_touchedPages_le address size
    omega
  · intro m' run
    obtain ⟨sound', answers, verified⟩ := verifies.done_of_run run
    exact verified.secures sound sound' hs some

section Tiny

/-- The first space maps its page at two addresses, one behind the other. -/
def tinyDoubled : Books × Machine :=
  tinyDoubling.after tinySpaces

theorem sound_tinyDoubled :
    (tinyDoubled.2.view tinyDoubled.1.live).Sound (tinyDoubled.1.owed .tiny) := by
  have allowed : tinyDoubling.Allowed tinySpaces.2 tinySpaces.1 := by
    unfold tinyDoubling Call.Allowed Call.Named Call.OntoUnmapped Space.Maps
    decide +kernel
  have reach : Reaches (fun m b c => c.Allowed m b ∧ c.Thorough m) .standard .tiny .lowest
      tinyDoubled.2 tinyDoubled.1 :=
    .next reaches_tinySpaces ⟨allowed, trivial⟩ (by decide +kernel)
  exact reach.sound fun _ _ _ h => h

/-- The last byte of one page and the first byte of the next one. -/
def tinyVerify : Attempt Unit :=
  verifyArea tinyWriter ⟨8191, by decide⟩ 2

/-- The first page moves, after which the second one is the only one left to use the frame. -/
theorem verified_areas_can_be_written_tiny :
    outcome tinyVerify tinyDoubled.2 = .ok (.ok (), tinyDoubled.2.after tinyVerify) ∧
    tinySpace.entry tinyDoubled.2.ram tinyBehind = .ok (some (.make (tinyFrame 3) .userReadOnly)) ∧
    tinyDoubled.2.Secures tinyDoubled.1.live tinyWriter tinySpace ⟨8191, by decide⟩ 2
      (tinyDoubled.2.after tinyVerify) := by
  have live : tinySpace ∈ tinyDoubled.1.live := by decide +kernel
  have owner : tinyWriter.addressSpace tinyWriter.current = some tinySpace := rfl
  have run : outcome tinyVerify tinyDoubled.2 = .ok (.ok (), tinyDoubled.2.after tinyVerify) :=
    Machine.run_of_product (by decide +kernel)
  have readOnly : tinySpace.entry tinyDoubled.2.ram tinyBehind =
      .ok (some (.make (tinyFrame 3) .userReadOnly)) := by decide +kernel
  have verified := (verified_areas_can_be_written sound_tinyDoubled live owner (by decide)).2 _ run
  exact ⟨run, readOnly, verified⟩

end Tiny

end PagedMemory
