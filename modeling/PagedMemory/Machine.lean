import PagedMemory.Event
import PagedMemory.FramePool
import PagedMemory.Ram

/-!
# The machine and its primitive operations

A machine is its memory, the pool of reference counts and the number of times the
cache of recent lookups was flushed. Beside these it keeps a journal of what an
observer outside can see: remarks, blocks read and processes ended.

An operation of the kernel (`Kernel`) changes the machine or stops it. One that may
fail and leave the kernel running is an `Attempt`; what it changed before it failed
stays changed.
-/

namespace PagedMemory

structure Config where
  /-- Pages without backing are cleared before they are mapped. -/
  zeroFill : Bool
  /-- Clean image pages are shared between processes of one executable. -/
  sharing : Bool
deriving DecidableEq

def Config.standard : Config :=
  ⟨true, true⟩

structure Machine where
  ram : Ram
  pool : FramePool
  flushes : Nat
  config : Config
  events : Array Event
  reads : Array (DeviceId × BlockNumber)
  terminations : Array (Pid × MemoryError)

abbrev Kernel := StateT Machine (Except Halt)

abbrev Attempt := ExceptT MemoryError Kernel

variable {α : Type}

def halt (cause : Halt) : Kernel α :=
  fun _ => .error cause

def fail (cause : MemoryError) : Attempt α :=
  ExceptT.mk (pure (.error cause))

/-- Looks at the machine without changing it. -/
def inspect (look : Machine → Except Halt α) : Kernel α := fun m =>
  match look m with
  | .ok a => .ok (a, m)
  | .error cause => .error cause

/-- What the operation produced, or the error it failed with. -/
def outcome (op : Attempt α) : Kernel (Except MemoryError α) :=
  op.run

/-- Runs `undo` if the operation fails, and fails with the same error. -/
def undoing (undo : Kernel Unit) (op : Attempt α) : Attempt α := ExceptT.mk do
  match ← outcome op with
  | .ok a => return .ok a
  | .error cause =>
    undo
    return .error cause

/-- A checked value, or the reason to stop. -/
def demand (value : Except Halt α) : Kernel α :=
  inspect fun _ => value

def remark (e : Event) : Kernel Unit :=
  modify fun m => { m with events := m.events.push e }

def recordRead (device : DeviceId) (block : BlockNumber) : Kernel Unit :=
  modify fun m => { m with reads := m.reads.push (device, block) }

/-- Ends a process that the kernel cannot go on serving. -/
def terminate (pid : Pid) (cause : MemoryError) : Kernel Unit :=
  modify fun m => { m with terminations := m.terminations.push (pid, cause) }

/-- The counter of flushes is 64 bits wide. -/
def flushLimit : Nat :=
  18446744073709551616

/-- Empties the cache in which the processor keeps recent lookups. -/
def flush : Kernel Unit := fun m =>
  if m.flushes + 1 < flushLimit then
    .ok ((), { m with flushes := m.flushes + 1 })
  else
    .error .overflow

def currentConfig : Kernel Config :=
  inspect fun m => .ok m.config

def readFrame (f : FrameId) : Kernel Frame :=
  inspect fun m => m.ram.frame f

def modifyFrame (f : FrameId) (change : Frame → Frame) : Kernel Unit := fun m =>
  if f.index < m.ram.size then
    .ok ((), { m with ram := m.ram.modify f change })
  else
    .error (.outsideMemory f)

def readEntry (f : FrameId) (i : Slot) : Kernel Entry :=
  inspect fun m => m.ram.entry f i

def writeEntry (f : FrameId) (i : Slot) (e : Entry) : Kernel Unit :=
  modifyFrame f fun bytes => bytes.setEntry i e

def zeroFrame (f : FrameId) : Kernel Unit :=
  modifyFrame f fun _ => Frame.zero

/-- Copies a frame onto another one; onto itself there is nothing to do. -/
def copyFrame (source target : FrameId) : Kernel Unit := fun m =>
  if source = target then
    .ok ((), m)
  else
    match m.ram.frame? source with
    | none => .error .copyOutside
    | some bytes =>
      if target.index < m.ram.size then
        .ok ((), { m with ram := m.ram.modify target fun _ => bytes })
      else
        .error .copyOutside

/-- Copies a frame by way of its bytes. -/
def copyBytes (source target : FrameId) : Kernel Unit := do
  let bytes ← readFrame source
  modifyFrame target fun _ => bytes

def manages (f : FrameId) : Kernel Bool :=
  inspect fun m => .ok (m.pool.manages f)

def refCount? (f : FrameId) : Kernel (Option Nat) :=
  inspect fun m => .ok (m.pool.refCount? f)

/-- Takes a free frame from the pool. -/
def allocFrame? : Kernel (Option FrameId) := fun m =>
  match m.pool.alloc with
  | none => .ok (none, m)
  | some (f, pool) =>
    .ok (some f, { m with pool := pool, events := m.events.push (.frameAllocated f) })

def allocFrame : Attempt FrameId := do
  match ← allocFrame? with
  | some f => return f
  | none => fail .outOfMemory

def retain (f : FrameId) : Kernel Unit := fun m =>
  match m.pool.retain f with
  | .ok pool => .ok ((), { m with pool := pool })
  | .error cause => .error cause

def release (f : FrameId) : Kernel Unit := fun m =>
  let last := m.pool.refCount? f == some 1
  match m.pool.release f with
  | .ok pool =>
    .ok ((), { m with
      pool := pool
      events := if last then m.events.push (.frameFreed f) else m.events })
  | .error cause => .error cause

section Runs

variable {β : Type} {m m' : Machine}

/-- A sequence runs to its end exactly if its first part does, and the rest from there. -/
theorem bind_eq_ok_iff {op : Kernel α} {next : α → Kernel β} {b : β} :
    (op >>= next) m = .ok (b, m') ↔
      ∃ a middle, op m = .ok (a, middle) ∧ next a middle = .ok (b, m') := by
  simp only [bind, StateT.bind, Except.bind]
  constructor
  · intro run
    split at run
    · cases run
    · next p first => exact ⟨p.1, p.2, first, run⟩
  · rintro ⟨a, middle, first, rest⟩
    rw [first]
    exact rest

/-- A sequence of attempts ends with the first error, or with the outcome of its rest. -/
theorem outcome_bind_eq_ok_iff {op : Attempt α} {next : α → Attempt β}
    {result : Except MemoryError β} :
    outcome (op >>= next) m = .ok (result, m') ↔
      (∃ a middle, outcome op m = .ok (.ok a, middle) ∧
        outcome (next a) middle = .ok (result, m')) ∨
      ∃ cause, outcome op m = .ok (.error cause, m') ∧ result = .error cause := by
  refine Iff.trans (@bind_eq_ok_iff _ _ m m' (outcome op) _ result) ?_
  constructor
  · rintro ⟨a | a, middle, first, rest⟩
    · cases rest
      exact .inr ⟨a, first, rfl⟩
    · exact .inl ⟨a, middle, first, rest⟩
  · rintro (⟨a, middle, first, rest⟩ | ⟨cause, first, rfl⟩)
    · exact ⟨.ok a, middle, first, rest⟩
    · exact ⟨.error cause, m', first, rfl⟩

@[simp] theorem outcome_pure (a : α) : outcome (pure a) m = .ok (.ok a, m) := rfl

@[simp] theorem outcome_fail (cause : MemoryError) :
    outcome (fail cause : Attempt α) m = .ok (.error cause, m) := rfl

@[simp] theorem halt_run (cause : Halt) : (halt cause : Kernel α) m = .error cause := rfl

/-- An operation of the kernel, taken as an attempt, does not fail. -/
theorem outcome_lift_eq_ok_iff {op : Kernel α} {result : Except MemoryError α} :
    outcome (liftM op : Attempt α) m = .ok (result, m') ↔
      ∃ a, op m = .ok (a, m') ∧ result = .ok a := by
  show (op >>= fun a => pure (Except.ok a)) m = _ ↔ _
  rw [bind_eq_ok_iff]
  constructor
  · rintro ⟨a, middle, first, rest⟩
    cases rest
    exact ⟨a, first, rfl⟩
  · rintro ⟨a, first, rfl⟩
    exact ⟨a, m', first, rfl⟩

/-! A sequence goes on where its first part has ended. -/

theorem bind_of_run {op : Kernel α} {next : α → Kernel β} {a : α} (run : op m = .ok (a, m')) :
    (op >>= next) m = next a m' := by
  simp only [bind, StateT.bind, Except.bind, run]

theorem outcome_bind_of_run {op : Attempt α} {next : α → Attempt β} {a : α}
    (run : outcome op m = .ok (.ok a, m')) : outcome (op >>= next) m = outcome (next a) m' := by
  show (outcome op >>= _) m = _
  simp only [bind, StateT.bind, Except.bind, run]
  rfl

theorem outcome_bind_of_fail {op : Attempt α} {next : α → Attempt β} {cause : MemoryError}
    (run : outcome op m = .ok (.error cause, m')) :
    outcome (op >>= next) m = .ok (.error cause, m') :=
  outcome_bind_eq_ok_iff.mpr (.inr ⟨cause, run, rfl⟩)

theorem outcome_lift_bind_of_run {op : Kernel α} {next : α → Attempt β} {a : α}
    (run : op m = .ok (a, m')) : outcome (liftM op >>= next) m = outcome (next a) m' :=
  outcome_bind_of_run (outcome_lift_eq_ok_iff.mpr ⟨a, run, rfl⟩)

theorem outcome_undoing_of_run {undo : Kernel Unit} {op : Attempt α} {a : α}
    (run : outcome op m = .ok (.ok a, m')) : outcome (undoing undo op) m = .ok (.ok a, m') := by
  show (outcome op >>= _) m = _
  rw [bind_of_run run]
  rfl

theorem outcome_undoing_of_fail {undo : Kernel Unit} {op : Attempt α} {cause : MemoryError}
    {m₁ : Machine} (run : outcome op m = .ok (.error cause, m₁)) (undone : undo m₁ = .ok ((), m')) :
    outcome (undoing undo op) m = .ok (.error cause, m') := by
  show (outcome op >>= _) m = _
  rw [bind_of_run run]
  exact bind_of_run undone

theorem inspect_eq_ok_iff {look : Machine → Except Halt α} {a : α} :
    inspect look m = .ok (a, m') ↔ look m = .ok a ∧ m' = m := by
  unfold inspect
  split
  · next seen =>
    rw [seen]
    constructor
    · intro run
      cases run
      exact ⟨rfl, rfl⟩
    · rintro ⟨h, rfl⟩
      cases h
      rfl
  · next stopped =>
    rw [stopped]
    constructor
    · intro run
      cases run
    · rintro ⟨h, -⟩
      cases h

theorem modifyFrame_eq_ok_iff {f : FrameId} {change : Frame → Frame} :
    modifyFrame f change m = .ok ((), m') ↔
      f.index < m.ram.size ∧ m' = { m with ram := m.ram.modify f change } := by
  unfold modifyFrame
  split
  · next inside =>
    constructor
    · intro run
      cases run
      exact ⟨inside, rfl⟩
    · rintro ⟨-, rfl⟩
      rfl
  · next outside =>
    constructor
    · intro run
      cases run
    · exact fun h => absurd h.1 outside

theorem flush_eq_ok_iff :
    flush m = .ok ((), m') ↔
      m.flushes + 1 < flushLimit ∧ m' = { m with flushes := m.flushes + 1 } := by
  unfold flush
  split
  · next room =>
    constructor
    · intro run
      cases run
      exact ⟨room, rfl⟩
    · rintro ⟨-, rfl⟩
      rfl
  · next full =>
    constructor
    · intro run
      cases run
    · exact fun h => absurd h.1 full

end Runs

end PagedMemory
