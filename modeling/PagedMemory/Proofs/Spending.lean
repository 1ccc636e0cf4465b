import PagedMemory.Space.Lifecycle
import PagedMemory.UserAccess
import PagedMemory.Proofs.Contract

/-!
# What operations spend

Two counters of a machine have an end: the counter of flushes and the count of a frame.
Here every operation on behalf of a process is given a bound on what it spends of them,
whatever state the machine is in. `Machine.Spends` bounds the flushes and says that no
process was ended; `Machine.Spares` says in addition that no count has reached its end.
`Machine.Halts` are the reasons to stop that such a bound leaves.

The contracts are stated from some earlier machine on, with what has been spent since.
Sharing a page is the only thing that adds to a count, and nothing is counted after it.
-/

namespace PagedMemory

variable {α : Type}

namespace Halt

/-- No counter came to its end. -/
def Plain : Halt → Prop
  | overflow | countOverflow _ => False
  | _ => True

theorem Plain.ne_overflow {cause : Halt} (plain : cause.Plain) : cause ≠ .overflow := by
  rintro rfl
  exact plain

end Halt

theorem Ram.plain_of_frame {r : Ram} {f : FrameId} {cause : Halt} (stop : r.frame f = .error cause) :
    cause.Plain := by
  unfold frame at stop
  split at stop
  · cases stop
  · cases stop
    trivial

theorem Ram.plain_of_entry {r : Ram} {f : FrameId} {i : Slot} {cause : Halt}
    (stop : r.entry f i = .error cause) : cause.Plain := by
  unfold entry at stop
  split at stop
  · cases stop
  · cases stop
    trivial

theorem Space.plain_of_tableAt {s : Space} {r : Ram} {i : Slot} {cause : Halt}
    (stop : s.tableAt r i = .error cause) : cause.Plain := by
  unfold tableAt at stop
  cases read : r.entry s.root i with
  | ok e =>
    rw [read] at stop
    cases stop
  | error cause' =>
    rw [read] at stop
    cases stop
    exact Ram.plain_of_entry read

theorem Space.plain_of_entry {s : Space} {r : Ram} {va : VirtualAddress} {cause : Halt}
    (stop : s.entry r va = .error cause) : cause.Plain := by
  unfold entry at stop
  split at stop
  · next t _ =>
    cases read : r.entry t va.tableSlot with
    | ok e =>
      rw [read] at stop
      cases stop
    | error cause' =>
      rw [read] at stop
      cases stop
      exact Ram.plain_of_entry read
  · cases stop
  · next cause' missing =>
    cases stop
    exact plain_of_tableAt missing

theorem Halt.plain_of_rangeSlots {operation : RangeOperation} {start : VirtualAddress} {size : Nat}
    {cause : Halt} (stop : rangeSlots operation start size = .error cause) : cause.Plain := by
  unfold rangeSlots at stop
  dsimp only at stop
  split at stop
  · cases stop
    trivial
  · split at stop
    · cases stop
    · cases stop
      trivial

namespace Machine

variable {m₀ m m' : Machine} {a b n N : Nat} {P : FrameId → Prop}

/-- The count of the frame has no room for one more reference. -/
def Full (m : Machine) (f : FrameId) : Prop :=
  m.pool.manages f = true ∧ 65535 ≤ m.pool.count f

/-- The cache was emptied at most `n` times and no process was ended. -/
structure Spends (n : Nat) (m m' : Machine) : Prop where
  flushes_ge : m.flushes ≤ m'.flushes
  flushes_le : m'.flushes ≤ m.flushes + n
  terminations : m'.terminations = m.terminations

/-- No count has come to its end either. -/
structure Spares (n : Nat) (m m' : Machine) : Prop extends Spends n m m' where
  full : ∀ f, m'.Full f → m.Full f

/-- What stops the kernel, if it is a counter, is the counter of flushes when it has no room
for `n` more, or the count of one of the frames `P`. -/
structure Halts (n : Nat) (m : Machine) (P : FrameId → Prop) (cause : Halt) : Prop where
  overruns : cause = .overflow → flushLimit ≤ m.flushes + n
  full : ∀ f, cause = .countOverflow f → P f

theorem Halts.of_plain {cause : Halt} (plain : cause.Plain) : m.Halts n P cause where
  overruns same := absurd same plain.ne_overflow
  full f same := by
    subst same
    exact plain.elim

namespace Halts

theorem inspect {look : Machine → Except Halt α}
    (plain : ∀ cause, look m = .error cause → cause.Plain) :
    Ends (PagedMemory.inspect look) m (m₀.Halts N P) fun x m' =>
      look m = .ok x ∧ m' = m := by
  apply Ends.look
  · intro x seen
    exact ⟨seen, rfl⟩
  · intro cause unseen
    exact .of_plain (plain cause unseen)

theorem readEntry (f : FrameId) (i : Slot) :
    Ends (PagedMemory.readEntry f i) m (m₀.Halts N P) fun e m' =>
      m.ram.entry f i = .ok e ∧ m' = m :=
  inspect fun _ stop => Ram.plain_of_entry stop

theorem readFrame (f : FrameId) :
    Ends (PagedMemory.readFrame f) m (m₀.Halts N P) fun b m' =>
      m.ram.frame f = .ok b ∧ m' = m :=
  inspect fun _ stop => Ram.plain_of_frame stop

theorem tableAt (s : Space) (i : Slot) :
    Ends (PagedMemory.inspect fun m => s.tableAt m.ram i) m (m₀.Halts N P) fun t m' =>
      s.tableAt m.ram i = .ok t ∧ m' = m :=
  inspect fun _ stop => Space.plain_of_tableAt stop

theorem findEntry (s : Space) (va : VirtualAddress) :
    Ends (s.findEntry va) m (m₀.Halts N P) fun e m' => s.entry m.ram va = .ok e ∧ m' = m :=
  inspect fun _ stop => Space.plain_of_entry stop

end Halts

/-- A count that is changed is full afterwards only if it was so before, unless it was
filled by the change. -/
theorem full_setCount {f g : FrameId} {k : Nat} (tracked : m.pool.manages f = true)
    (before : 65535 ≤ k → 65535 ≤ m.pool.count f)
    (full : (m.pool.setCount f k).manages g = true ∧ 65535 ≤ (m.pool.setCount f k).count g) :
    m.Full g := by
  obtain ⟨managed, most⟩ := full
  rw [FramePool.manages_setCount] at managed
  refine ⟨managed, ?_⟩
  by_cases same : g = f
  · subst same
    rw [FramePool.count_setCount_self k tracked] at most
    exact before most
  · rwa [FramePool.count_setCount_of_ne k tracked managed same] at most

theorem Halts.mono {Q : FrameId → Prop} {cause : Halt} (stop : m.Halts n P cause)
    (imp : ∀ f, P f → Q f) : m.Halts n Q cause :=
  { stop with full := fun f same => imp f (stop.full f same) }

namespace Spends

theorem refl (m : Machine) : m.Spends 0 m :=
  ⟨Nat.le_refl _, Nat.le_refl _, rfl⟩

theorem mono (spent : m.Spends a m') (le : a ≤ b) : m.Spends b m' :=
  { spent with flushes_le := by have := spent.flushes_le; omega }

theorem trans (first : m₀.Spends a m) (rest : m.Spends b m') : m₀.Spends (a + b) m' where
  flushes_ge := Nat.le_trans first.flushes_ge rest.flushes_ge
  flushes_le := by
    have := first.flushes_le
    have := rest.flushes_le
    omega
  terminations := rest.terminations.trans first.terminations

/-- Nothing more is spent where both the counter and the list stay what they are. -/
theorem keep (spent : m₀.Spends a m) (flushes : m'.flushes = m.flushes)
    (terminations : m'.terminations = m.terminations) : m₀.Spends a m' :=
  ⟨flushes ▸ spent.flushes_ge, flushes ▸ spent.flushes_le, terminations.trans spent.terminations⟩

theorem eq (spent : m.Spends 0 m') : m'.flushes = m.flushes :=
  Nat.le_antisymm spent.flushes_le spent.flushes_ge

theorem halts (spent : m₀.Spends a m) {cause : Halt} (stop : m.Halts b P cause)
    (room : a + b ≤ N) : m₀.Halts N P cause where
  overruns same := by
    have := spent.flushes_le
    have := stop.overruns same
    omega
  full := stop.full

end Spends

namespace Spares

theorem refl (m : Machine) : m.Spares 0 m :=
  { Spends.refl m with full := fun _ h => h }

theorem mono (spent : m.Spares a m') (le : a ≤ b) : m.Spares b m' :=
  { spent.toSpends.mono le with full := spent.full }

theorem trans (first : m₀.Spares a m) (rest : m.Spares b m') : m₀.Spares (a + b) m' :=
  { first.toSpends.trans rest.toSpends with full := fun f h => first.full f (rest.full f h) }

/-- Nothing more is spent where the pool stays what it is as well. -/
theorem keep (spent : m₀.Spares a m) (flushes : m'.flushes = m.flushes)
    (terminations : m'.terminations = m.terminations) (pool : m'.pool = m.pool) :
    m₀.Spares a m' :=
  { spent.toSpends.keep flushes terminations with
    full := fun f h => spent.full f (by rwa [Full, pool] at h) }

/-! ## Primitive operations -/

theorem remark (spent : m₀.Spares a m) (e : Event) :
    Ends (PagedMemory.remark e) m (m₀.Halts N P) fun _ m' => m₀.Spares a m' :=
  Ends.intro rfl (spent.keep rfl rfl rfl)

theorem recordRead (spent : m₀.Spares a m) (device : DeviceId) (block : BlockNumber) :
    Ends (PagedMemory.recordRead device block) m (m₀.Halts N P) fun _ m' => m₀.Spares a m' :=
  Ends.intro rfl (spent.keep rfl rfl rfl)

theorem flush (spent : m₀.Spares a m) (room : a < N) :
    Ends PagedMemory.flush m (m₀.Halts N P) fun _ m' => m₀.Spares (a + 1) m' := by
  have most := spent.flushes_le
  apply Ends.flush
  · intro counted
    refine spent.trans ?_
    exact { flushes_ge := Nat.le_succ _, flushes_le := Nat.le_refl _, terminations := rfl,
            full := fun _ h => h }
  · intro overrun
    exact ⟨fun _ => by omega, nofun⟩

theorem modifyFrame (spent : m₀.Spares a m) (f : FrameId) (change : Frame → Frame) :
    Ends (PagedMemory.modifyFrame f change) m (m₀.Halts N P) fun _ m' => m₀.Spares a m' := by
  by_cases inside : f.index < m.ram.size
  · exact Ends.intro (modifyFrame_eq_ok_iff.mpr ⟨inside, rfl⟩) (spent.keep rfl rfl rfl)
  · have stop : PagedMemory.modifyFrame f change m = .error (.outsideMemory f) := by
      simp only [PagedMemory.modifyFrame, if_neg inside]
    exact Ends.of_stop stop (.of_plain trivial)

theorem copyFrame (spent : m₀.Spares a m) (source target : FrameId) :
    Ends (PagedMemory.copyFrame source target) m (m₀.Halts N P) fun _ m' => m₀.Spares a m' := by
  by_cases same : source = target
  · refine Ends.intro (a := ()) ?_ spent
    simp only [PagedMemory.copyFrame, if_pos same]
  · cases found : m.ram.frame? source with
    | none =>
      have stop : PagedMemory.copyFrame source target m = .error .copyOutside := by
        simp only [PagedMemory.copyFrame, if_neg same, found]
      exact Ends.of_stop stop (.of_plain trivial)
    | some bytes =>
      by_cases inside : target.index < m.ram.size
      · have run : PagedMemory.copyFrame source target m =
            .ok ((), { m with ram := m.ram.modify target fun _ => bytes }) := by
          simp only [PagedMemory.copyFrame, if_neg same, found, if_pos inside]
        exact Ends.intro run (spent.keep rfl rfl rfl)
      · have stop : PagedMemory.copyFrame source target m = .error .copyOutside := by
          simp only [PagedMemory.copyFrame, if_neg same, found, if_neg inside]
        exact Ends.of_stop stop (.of_plain trivial)

/-- A frame that is handed out has one reference from then on. Where none is free, nothing
changes at all. -/
theorem allocFrame? (spent : m₀.Spares a m) :
    Ends PagedMemory.allocFrame? m (m₀.Halts N P) fun given m' =>
      m₀.Spares a m' ∧ (given = none → m' = m) := by
  cases given : m.pool.alloc with
  | none =>
    refine Ends.intro (a := none) ?_ ⟨spent, fun _ => rfl⟩
    simp only [PagedMemory.allocFrame?, given]
  | some pair =>
    obtain ⟨f, pool⟩ := pair
    obtain ⟨tracked, -, rfl⟩ := FramePool.alloc_eq_some given
    have after : m₀.Spares a { m with
        pool := m.pool.setCount f 1, events := m.events.push (.frameAllocated f) } :=
      { spent.toSpends.keep rfl rfl with
        full := fun g h => spent.full g (full_setCount tracked (fun full => by omega) h) }
    refine Ends.intro (a := some f) ?_ ⟨after, nofun⟩
    simp only [PagedMemory.allocFrame?, given]

theorem allocFrame (spent : m₀.Spares a m) :
    Tries PagedMemory.allocFrame m (m₀.Halts N P) (fun _ m' => m₀.Spares a m')
      (fun _ m' => m₀.Spares a m') := by
  refine Tries.lift_bind spent.allocFrame? ?_
  rintro (_ | f) m₁ ⟨spent₁, -⟩
  · exact Tries.fail spent₁
  · exact Tries.pure spent₁

theorem release (spent : m₀.Spares a m) (f : FrameId) :
    Ends (PagedMemory.release f) m (m₀.Halts N P) fun _ m' => m₀.Spares a m' := by
  let events := if m.pool.refCount? f == some 1 then m.events.push (.frameFreed f) else m.events
  by_cases low : f.base.value < m.pool.layout.low.value
  · have run : PagedMemory.release f m = .ok ((), { m with events := events }) := by
      simp only [PagedMemory.release, FramePool.release, if_pos low]
      rfl
    exact Ends.intro run (spent.keep rfl rfl rfl)
  by_cases high : m.pool.layout.high.value ≤ f.base.value
  · have stop : PagedMemory.release f m = .error (.freeNonexistent f) := by
      simp only [PagedMemory.release, FramePool.release, if_neg low, if_pos high]
    exact Ends.of_stop stop (.of_plain trivial)
  by_cases zero : m.pool.count f = 0
  · have stop : PagedMemory.release f m = .error (.freeFree f) := by
      simp only [PagedMemory.release, FramePool.release, if_neg low, if_neg high, if_pos zero]
    exact Ends.of_stop stop (.of_plain trivial)
  · have run : PagedMemory.release f m = .ok ((),
        { m with pool := m.pool.setCount f (m.pool.count f - 1), events := events }) := by
      simp only [PagedMemory.release, FramePool.release, if_neg low, if_neg high, if_neg zero]
      rfl
    exact Ends.intro run { spent.toSpends.keep rfl rfl with
      full := fun g h => spent.full g (full_setCount (FramePool.manages_of_bounds low high)
        (fun full => by omega) h) }

/-- The only operation that can fill a count; what follows it does not keep track of them. -/
theorem retain (spent : m₀.Spares a m) (f : FrameId) :
    Ends (PagedMemory.retain f) m (m₀.Halts N m₀.Full) fun _ m' => m₀.Spends a m' := by
  by_cases low : f.base.value < m.pool.layout.low.value
  · refine Ends.intro (a := ()) ?_ spent.toSpends
    simp only [PagedMemory.retain, FramePool.retain, if_pos low]
  by_cases high : m.pool.layout.high.value ≤ f.base.value
  · have stop : PagedMemory.retain f m = .error (.retainNonexistent f) := by
      simp only [PagedMemory.retain, FramePool.retain, if_neg low, if_pos high]
    exact Ends.of_stop stop (.of_plain trivial)
  by_cases zero : m.pool.count f = 0
  · have stop : PagedMemory.retain f m = .error (.retainFree f) := by
      simp only [PagedMemory.retain, FramePool.retain, if_neg low, if_neg high, if_pos zero]
    exact Ends.of_stop stop (.of_plain trivial)
  by_cases full : 65535 ≤ m.pool.count f
  · have stop : PagedMemory.retain f m = .error (.countOverflow f) := by
      simp only [PagedMemory.retain, FramePool.retain, if_neg low, if_neg high, if_neg zero,
        if_pos full]
    refine Ends.of_stop stop ⟨?_, ?_⟩
    · intro spend
      cases spend
    · intro g same
      cases same
      exact spent.full f ⟨FramePool.manages_of_bounds low high, full⟩
  · have run : PagedMemory.retain f m =
        .ok ((), { m with pool := m.pool.setCount f (m.pool.count f + 1) }) := by
      simp only [PagedMemory.retain, FramePool.retain, if_neg low, if_neg high, if_neg zero,
        if_neg full]
    exact Ends.intro run (spent.toSpends.keep rfl rfl)

/-! ## Ranges and spaces -/

theorem dropEntry (spent : m₀.Spares a m) (t : FrameId) (j : Slot) :
    Ends (Space.dropEntry t j) m (m₀.Halts N P) fun _ m' => m₀.Spares a m' := by
  refine (Halts.readEntry t j).bind ?_
  rintro entry _ ⟨-, rfl⟩
  split
  · exact (spent.release entry.frame).bind fun _ m₁ spent₁ => spent₁.modifyFrame t _
  · exact spent.modifyFrame t _

theorem freeSlot (spent : m₀.Spares a m) (s : Space) (i : Slot) :
    Ends (s.freeSlot i) m (m₀.Halts N P) fun _ m' => m₀.Spares a m' := by
  refine (Halts.tableAt s i).bind ?_
  rintro (_ | t) _ ⟨-, rfl⟩
  · exact Ends.pure spent
  · refine (Ends.forM (fun _ m' => m₀.Spares a m') (fun j _ _ spent => spent.dropEntry t j)
      allSlots _ spent).bind fun _ m₁ spent₁ => ?_
    exact (spent₁.release t).bind fun _ m₂ spent₂ => spent₂.modifyFrame s.root _

/-- No count is added to when a range is freed, and the cache is emptied once. -/
theorem freeRange (spent : m₀.Spares a m) (room : a < N) (s : Space) (start : VirtualAddress)
    (size : Nat) :
    Ends (s.freeRange start size) m (m₀.Halts N P) fun _ m' => m₀.Spares (a + 1) m' := by
  refine (Halts.inspect fun _ stop => Halt.plain_of_rangeSlots stop).bind ?_
  rintro slots _ ⟨-, rfl⟩
  refine (Ends.forM (fun _ m' => m₀.Spares a m') (fun i _ _ spent => spent.freeSlot s i) slots _
    spent).bind fun _ m₁ spent₁ => ?_
  exact (spent₁.remark _).bind fun _ m₂ spent₂ => spent₂.flush room

theorem destroy (spent : m₀.Spares a m) (room : a < N) (s : Space) (start : VirtualAddress)
    (size : Nat) :
    Ends (s.destroy start size) m (m₀.Halts N P) fun _ m' => m₀.Spares (a + 1) m' :=
  (spent.freeRange room s start size).bind fun _ _ spent₁ => spent₁.release s.root

/-! ## Page tables and pages -/

variable {s : Space} {env : Environment}

theorem ensureTable (spent : m₀.Spares a m) (s : Space) (va : VirtualAddress) :
    Tries (s.ensureTable va) m (m₀.Halts N P) (fun _ m' => m₀.Spares a m')
      (fun _ m' => m₀.Spares a m') := by
  refine Tries.lift_bind (Halts.tableAt s va.directorySlot) ?_
  rintro (_ | t) _ ⟨-, rfl⟩
  · refine Tries.bind spent.allocFrame fun t m₁ spent₁ => ?_
    refine Tries.lift_bind (spent₁.modifyFrame t _) fun _ m₂ spent₂ => ?_
    refine Tries.lift_bind (spent₂.modifyFrame s.root _) fun _ m₃ spent₃ => ?_
    refine Tries.lift_bind (spent₃.remark _) fun _ m₄ spent₄ => ?_
    exact Tries.pure spent₄
  · exact Tries.pure spent

theorem updateEntry (spent : m₀.Spares a m) (s : Space) (va : VirtualAddress)
    (change : Entry → Entry) :
    Ends (s.updateEntry va change) m (m₀.Halts N P) fun _ m' => m₀.Spares a m' := by
  refine (Halts.tableAt s va.directorySlot).bind ?_
  rintro (_ | t) _ ⟨-, rfl⟩
  · exact Ends.pure spent
  · refine (Halts.readEntry t va.tableSlot).bind ?_
    rintro e _ ⟨-, rfl⟩
    refine (spent.modifyFrame t _).bind fun _ m₁ spent₁ => ?_
    exact Ends.pure spent₁

theorem mapOne (spent : m₀.Spares a m) (room : a < N) (s : Space) (f : FrameId)
    (va : VirtualAddress) (flags : Entry) :
    Tries (s.mapOne f va flags) m (m₀.Halts N P) (fun _ m' => m₀.Spares (a + 1) m')
      (fun _ m' => m₀.Spares a m') := by
  unfold Space.mapOne
  refine Tries.lift_bind (Halts.inspect nofun) ?_
  rintro count _ ⟨-, rfl⟩
  refine Tries.optional (P := fun m' => m₀.Spares a m') (fun _ => spent.remark _)
    (fun _ => spent) fun m₁ spent₁ => ?_
  refine (spent₁.ensureTable s va).bind fun t m₂ spent₂ => ?_
  refine Tries.lift_bind (Halts.readEntry t va.tableSlot) ?_
  rintro previous _ ⟨-, rfl⟩
  refine Tries.lift_bind (spent₂.modifyFrame t _) fun _ m₃ spent₃ => ?_
  split
  · refine Tries.lift_bind (spent₃.remark _) fun _ m₄ spent₄ => ?_
    exact Tries.lift (spent₄.flush room)
  · exact Tries.pure (spent₃.mono (Nat.le_succ a))

/-! ## Answers to faults -/

/-- An answer to a write changes nothing if it finds that no page is present. -/
theorem unsharePage (spent : m₀.Spares a m) (room : a < N) (s : Space) (va : VirtualAddress) :
    Tries (PagedMemory.unsharePage s va) m (m₀.Halts N P)
      (fun result m' => m₀.Spares (a + 1) m' ∧ (result = none → m' = m ∧
        ∀ e, s.entry m.ram va = .ok (some e) → e.present = false))
      (fun _ m' => m₀.Spares a m') := by
  unfold PagedMemory.unsharePage
  refine Tries.lift_bind (Halts.findEntry s va) ?_
  rintro (_ | entry) _ ⟨seen, rfl⟩
  · refine Tries.pure ⟨spent.mono (Nat.le_succ a), fun _ => ⟨rfl, fun e found => ?_⟩⟩
    rw [seen] at found
    cases found
  dsimp only
  split
  · next absent =>
    refine Tries.pure ⟨spent.mono (Nat.le_succ a), fun _ => ⟨rfl, fun e found => ?_⟩⟩
    rw [seen] at found
    cases found
    simpa using absent
  split
  · refine Tries.lift_bind (spent.flush room) fun _ m₁ spent₁ => ?_
    exact Tries.pure ⟨spent₁, nofun⟩
  refine Tries.lift_bind (Halts.inspect nofun) ?_
  rintro count _ ⟨-, rfl⟩
  split
  · refine Tries.discard_bind (spent.updateEntry s va _) fun m₁ spent₁ => ?_
    refine Tries.lift_bind (spent₁.flush room) fun _ m₂ spent₂ => ?_
    exact Tries.pure ⟨spent₂, nofun⟩
  · refine Tries.bind spent.allocFrame fun copy m₁ spent₁ => ?_
    refine Tries.lift_bind (spent₁.copyFrame entry.frame copy) fun _ m₂ spent₂ => ?_
    refine Tries.discard_bind (spent₂.updateEntry s va _) fun m₃ spent₃ => ?_
    refine Tries.lift_bind (spent₃.release entry.frame) fun _ m₄ spent₄ => ?_
    refine Tries.lift_bind (spent₄.flush room) fun _ m₅ spent₅ => ?_
    exact Tries.pure ⟨spent₅, nofun⟩

/-- A peer that does not share the page costs nothing. -/
theorem tryToShare (spent : m₀.Spares a m) (room : a < N) (source : Space)
    (address : VirtualAddress) (target : Space) (goal : VirtualAddress) :
    Tries (PagedMemory.tryToShare source address target goal) m (m₀.Halts N m₀.Full)
      (fun shared m' => m₀.Spends (a + 1) m' ∧ (shared = false → m₀.Spares a m'))
      (fun _ m' => m₀.Spares a m') := by
  have refused {m' : Machine} (spent : m₀.Spares a m') :
      m₀.Spends (a + 1) m' ∧ (false = false → m₀.Spares a m') :=
    ⟨spent.toSpends.mono (Nat.le_succ a), fun _ => spent⟩
  unfold PagedMemory.tryToShare
  refine Tries.lift_bind (Halts.findEntry source address) ?_
  rintro (_ | entry) _ ⟨-, rfl⟩
  · exact Tries.pure (refused spent)
  refine Tries.lift_bind (Halts.inspect nofun) ?_
  rintro tracked _ ⟨-, rfl⟩
  split
  · exact Tries.pure (refused spent)
  refine Tries.bind (spent.ensureTable target goal) fun t m₁ spent₁ => ?_
  refine Tries.lift_bind (Halts.readEntry t goal.tableSlot) ?_
  rintro previous _ ⟨-, rfl⟩
  split
  · exact Tries.lift_bind (P := fun _ _ => False) (Ends.halt (.of_plain trivial)) nofun
  refine Tries.discard_bind (spent₁.updateEntry source address _) fun m₂ spent₂ => ?_
  refine Tries.lift_bind (spent₂.modifyFrame t _) fun _ m₃ spent₃ => ?_
  refine Tries.lift_bind (spent₃.flush room) fun _ m₄ spent₄ => ?_
  refine Tries.lift_bind (spent₄.retain entry.frame) fun _ m₅ spent₅ => ?_
  exact Tries.pure ⟨spent₅, nofun⟩

theorem shareFirst (pid : Pid) (executable : ExecutableId) (offset : Nat) (s : Space)
    (goal : VirtualAddress) (peers : List (Pid × Space × VirtualAddress)) (room : a < N)
    (m : Machine) (spent : m₀.Spares a m) :
    Tries (PagedMemory.shareFirst pid executable offset s goal peers) m (m₀.Halts N m₀.Full)
      (fun shared m' => m₀.Spends (a + 1) m' ∧ (shared = false → m₀.Spares a m'))
      (fun _ m' => m₀.Spares a m') := by
  induction peers generalizing m with
  | nil => exact Tries.pure ⟨spent.toSpends.mono (Nat.le_succ a), fun _ => spent⟩
  | cons peer rest ih =>
    obtain ⟨other, source, address⟩ := peer
    refine Tries.bind (spent.tryToShare room source address s goal) ?_
    rintro (_ | _) m₁ ⟨spent₁, refused⟩
    · exact ih m₁ (refused rfl)
    · refine Tries.lift_bind (P := fun _ m' => m₀.Spends (a + 1) m')
        (Ends.intro rfl (spent₁.keep rfl rfl)) fun _ m₂ spent₂ => ?_
      exact Tries.pure ⟨spent₂, nofun⟩

theorem findShared (spent : m₀.Spares a m) (room : a < N) (pid : Pid) (s : Space) (image : Image)
    (executable : ExecutableId) (offset : Nat) :
    Tries (PagedMemory.findShared env pid s image executable offset) m (m₀.Halts N m₀.Full)
      (fun shared m' => m₀.Spends (a + 1) m' ∧ (shared = false → m₀.Spares a m'))
      (fun _ m' => m₀.Spares a m') := by
  have refused : m₀.Spends (a + 1) m ∧ (false = false → m₀.Spares a m) :=
    ⟨spent.toSpends.mono (Nat.le_succ a), fun _ => spent⟩
  refine Tries.lift_bind (Halts.inspect nofun) ?_
  rintro config _ ⟨-, rfl⟩
  split
  · unfold PagedMemory.sharePage
    split
    · exact Tries.pure refused
    · split
      · exact Tries.pure refused
      · exact shareFirst pid executable offset s _ _ room _ spent
  · exact Tries.pure refused

theorem mapEmptyPage (spent : m₀.Spares a m) (room : a < N) (s : Space) (va : VirtualAddress) :
    Tries (PagedMemory.mapEmptyPage s va) m (m₀.Halts N P) (fun _ m' => m₀.Spares (a + 1) m')
      (fun _ m' => m₀.Spares a m') := by
  refine Tries.bind spent.allocFrame fun f m₁ spent₁ => ?_
  refine Tries.lift_bind (Halts.inspect nofun) ?_
  rintro config _ ⟨-, rfl⟩
  refine Tries.optional (P := fun m' => m₀.Spares a m') (fun _ => spent₁.modifyFrame f _)
    (fun _ => spent₁) fun m₂ spent₂ => ?_
  refine Tries.undoing ((spent₂.mapOne room s f _ _).mono_failed ?_)
  intro cause m₃ spent₃
  exact spent₃.release f

theorem loadPage (spent : m₀.Spares a m) (image : Image) (executable : ExecutableId)
    (offset : Nat) (f : FrameId) :
    Tries (PagedMemory.loadPage env image executable offset f) m (m₀.Halts N P)
      (fun _ m' => m₀.Spares a m') (fun _ m' => m₀.Spares a m') := by
  have read (device : DeviceId) (blocks : List BlockNumber) {m : Machine}
      (spent : m₀.Spares a m) : Ends (readPage env device blocks f) m (m₀.Halts N P)
        fun _ m' => m₀.Spares a m' := by
    refine (Halts.readFrame f).bind ?_
    rintro before _ ⟨-, rfl⟩
    refine (spent.modifyFrame f _).bind fun _ m₁ spent₁ => ?_
    refine (Ends.forM (fun _ m' => m₀.Spares a m')
      (fun block _ _ spent => spent.recordRead device block) _ m₁ spent₁).bind ?_
    exact fun _ _ spent₂ => Ends.pure spent₂
  refine Tries.lift_bind (spent.remark _) fun _ m₁ spent₁ => ?_
  refine Tries.lift_bind (read _ _ spent₁) ?_
  rintro (_ | cause) m₂ spent₂
  · exact Tries.lift (spent₂.modifyFrame f _)
  · exact Tries.fail spent₂

theorem mapLoadedPage (spent : m₀.Spares a m) (room : a < N) (s : Space) (image : Image)
    (executable : ExecutableId) (offset : Nat) (va : VirtualAddress) :
    Tries (PagedMemory.mapLoadedPage env s image executable offset va) m (m₀.Halts N P)
      (fun _ m' => m₀.Spares (a + 1) m') (fun _ m' => m₀.Spares a m') := by
  refine Tries.bind spent.allocFrame fun f m₁ spent₁ => ?_
  refine Tries.undoing ((Tries.bind (spent₁.loadPage image executable offset f)
    fun _ m₂ spent₂ => spent₂.mapOne room s f va _).mono_failed ?_)
  intro cause m₃ spent₃
  exact spent₃.release f

theorem fillPage (spent : m₀.Spares a m) (room : a < N) (pid : Pid) (s : Space)
    (va : VirtualAddress) :
    Tries (PagedMemory.fillPage env pid s va) m (m₀.Halts N m₀.Full)
      (fun _ m' => m₀.Spends (a + 1) m') (fun _ m' => m₀.Spares a m') := by
  unfold PagedMemory.fillPage
  dsimp only
  split
  · exact Tries.fail spent
  split
  · refine Tries.bind (spent.mapEmptyPage room s _) fun _ m₁ spent₁ => ?_
    exact Tries.pure spent₁.toSpends
  · refine Tries.bind (spent.findShared room pid s _ _ _) ?_
    rintro (_ | _) m₁ ⟨spent₁, refused⟩
    · refine Tries.bind ((refused rfl).mapLoadedPage room s _ _ _ _) fun _ m₂ spent₂ => ?_
      exact Tries.pure spent₂.toSpends
    · exact Tries.pure spent₁

theorem resolveFault (spent : m₀.Spares a m) (room : a < N) (kind : FaultKind)
    (va : VirtualAddress) :
    Tries (PagedMemory.resolveFault env kind va) m (m₀.Halts N m₀.Full)
      (fun _ m' => m₀.Spends (a + 1) m') (fun _ m' => m₀.Spares a m') := by
  unfold PagedMemory.resolveFault
  split
  · exact Tries.fail spent
  cases kind with
  | writeProtect =>
    refine Tries.bind (spent.unsharePage room _ va) ?_
    rintro (_ | how) m₁ ⟨spent₁, absent⟩
    · obtain ⟨rfl, -⟩ := absent rfl
      exact spent.fillPage room env.current _ va
    · exact Tries.pure spent₁.toSpends
  | notPresent =>
    refine Tries.lift_bind (Halts.findEntry _ va) ?_
    rintro (_ | entry) _ ⟨-, rfl⟩
    · exact spent.fillPage room env.current _ va
    · dsimp only
      split
      · refine Tries.lift_bind (spent.flush room) fun _ m₁ spent₁ => ?_
        exact Tries.pure spent₁.toSpends
      · exact spent.fillPage room env.current _ va

/-- A write to a page that is present adds to no count. -/
theorem resolveFault_of_present (spent : m₀.Spares a m) (room : a < N) {va : VirtualAddress}
    (owner : env.addressSpace env.current = some s) {e : Entry}
    (found : s.entry m.ram va = .ok (some e)) (present : e.present = true) :
    Tries (PagedMemory.resolveFault env .writeProtect va) m (m₀.Halts N P)
      (fun _ m' => m₀.Spends (a + 1) m') (fun _ m' => m₀.Spares a m') := by
  unfold PagedMemory.resolveFault
  rw [owner]
  refine Tries.bind (spent.unsharePage room s va) ?_
  rintro (_ | how) m₁ ⟨spent₁, absent⟩
  · have := (absent rfl).2 e found
    rw [present] at this
    cases this
  · exact Tries.pure spent₁.toSpends

/-- A fault that is not answered ends the current process. -/
theorem ending {op : Attempt Resolution} {stops : Halt → Prop}
    (h : Tries op m stops (fun _ m' => m.Spends 1 m') (fun _ m' => m.Spares 0 m'))
    (kind : FaultKind) (va : VirtualAddress) :
    Tries (ExceptT.mk do
      match ← outcome op with
      | .ok how =>
        PagedMemory.remark (.faultResolved kind va env.current how)
        return .ok how
      | .error cause =>
        PagedMemory.remark (.faultFailed kind va env.current cause)
        terminate env.current cause
        return .error cause) m stops (fun _ m' => m.Spends 1 m')
      (fun cause m' => m'.terminations = m.terminations.push (env.current, cause)) := by
  refine Ends.bind h ?_
  rintro (cause | how) m₁ spent₁
  · refine Ends.bind (P := fun _ m' => m'.terminations = m.terminations)
      (Ends.intro rfl spent₁.terminations) fun _ m₂ same => ?_
    refine Ends.bind (P := fun _ m' => m'.terminations = m.terminations.push (env.current, cause))
      (Ends.intro rfl (congrArg (Array.push · _) same)) fun _ m₃ ended => ?_
    exact Ends.pure ended
  · refine Ends.bind (P := fun _ m' => m.Spends 1 m') (Ends.intro rfl (spent₁.keep rfl rfl))
      fun _ m₂ spent₂ => ?_
    exact Ends.pure spent₂

end Spares

theorem handleFault (env : Environment) (m : Machine) (kind : FaultKind) (va : VirtualAddress) :
    Tries (PagedMemory.handleFault env kind va) m (m.Halts 1 m.Full) (fun _ m' => m.Spends 1 m')
      (fun cause m' => m'.terminations = m.terminations.push (env.current, cause)) :=
  Spares.ending ((Spares.refl m).resolveFault Nat.one_pos kind va) kind va

theorem handleFault_of_present {env : Environment} {s : Space} {va : VirtualAddress} {e : Entry}
    (owner : env.addressSpace env.current = some s) (found : s.entry m.ram va = .ok (some e))
    (present : e.present = true) :
    Tries (PagedMemory.handleFault env .writeProtect va) m (m.Halts 1 P)
      (fun _ m' => m.Spends 1 m')
      (fun cause m' => m'.terminations = m.terminations.push (env.current, cause)) :=
  Spares.ending ((Spares.refl m).resolveFault_of_present Nat.one_pos owner found present) _ va

end Machine

end PagedMemory
