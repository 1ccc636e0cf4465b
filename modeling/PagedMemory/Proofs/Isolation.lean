import PagedMemory.Proofs.CleanPages
import PagedMemory.Proofs.Mirrors

/-!
# Isolation of processes

Processes come and go, fork, raise faults and copy to and from their memory, in any order
and with any outcome. `World.Evolves` runs such a world beside the memories that the
processes believe to have: plain functions, one for each process, which only the process
itself can change.

The world keeps mirroring these memories (`Mirrored`), although the pages behind them are
shared, copied and loaded on demand. A copy that fails has stored the pieces before the one
that could not be reached (`storedBefore`).
-/

namespace PagedMemory

/-- How many bytes of a buffer are stored before the first piece that cannot be. -/
def storedBefore (env : Environment) (address : VirtualAddress) (bytes : List UInt8) :
    List Chunk → Machine → Nat
  | [], _ => 0
  | chunk :: rest, m =>
    match outcome (copyChunkOut env address bytes chunk) m with
    | .ok (.ok (), m') => chunk.length + storedBefore env address bytes rest m'
    | _ => 0

namespace World

/-- One step of the world, and what it means for the memories of the processes. -/
inductive Moves (d : Disk) (w : World) (mems : Memories) : World → Memories → Prop
  | initKernel {m : Machine} {s : Space} (room : 8192 ≤ w.machine.pool.layout.low.value)
      (run : Space.initKernel w.machine = .ok (s, m)) : Moves d w mems ⟨m, w.tasks⟩ mems
  | spawn {pid : Pid} {image : Image} {start : VirtualAddress} {size : Nat} {s : Space}
      {m : Machine} (unused : w.tasks pid = none) (slotted : image.Slotted)
      (run : outcome (Space.createFrom none start size) w.machine = .ok (.ok s, m))
      (coherent : (w.tasks.set pid ⟨s, some image⟩).Coherent) :
      Moves d w mems ⟨m, w.tasks.set pid ⟨s, some image⟩⟩ (mems.set pid (d.initial image))
  | fork {pid child : Pid} {p : Task} {image : Image} {s : Space} {m : Machine}
      (runs : w.tasks pid = some p) (shown : p.image = some image)
      (unused : w.tasks child = none)
      (run : outcome (Space.createFrom (some p.space) image.startCode taskSize) w.machine =
        .ok (.ok s, m)) :
      Moves d w mems ⟨m, w.tasks.set child ⟨s, some image⟩⟩ (mems.set child (mems pid))
  | createFailed {parent : Option Space} {start : VirtualAddress} {size : Nat}
      {cause : MemoryError} {m : Machine} (owned : ∀ p, parent = some p → w.tasks.Owned p)
      (run : outcome (Space.createFrom parent start size) w.machine = .ok (.error cause, m)) :
      Moves d w mems ⟨m, w.tasks⟩ mems
  | exec {pid : Pid} {p : Task} {image image' : Image} {m : Machine}
      (runs : w.tasks pid = some p) (shown : p.image = some image) (slotted : image'.Slotted)
      (run : p.space.clear image.startCode taskSize w.machine = .ok ((), m))
      (coherent : (w.tasks.set pid ⟨p.space, some image'⟩).Coherent) :
      Moves d w mems ⟨m, w.tasks.set pid ⟨p.space, some image'⟩⟩ (mems.set pid (d.initial image'))
  | exit {pid : Pid} {p : Task} {start : VirtualAddress} {size : Nat} {m : Machine}
      (runs : w.tasks pid = some p) (run : p.space.destroy start size w.machine = .ok ((), m)) :
      Moves d w mems ⟨m, w.tasks.drop pid⟩ mems
  | fault {env : Environment} {kind : FaultKind} {va : VirtualAddress} {image : Image}
      {result : Except MemoryError Resolution} {m : Machine} (describes : env.Describes w.tasks d)
      (runs : w.tasks.Runs env.current image) (inside : image.Covers va)
      (run : outcome (handleFault env kind va) w.machine = .ok (result, m)) :
      Moves d w mems ⟨m, w.tasks⟩ mems
  | verify {env : Environment} {address : VirtualAddress} {size : Nat} {image : Image}
      {result : Except MemoryError Unit} {m : Machine} (describes : env.Describes w.tasks d)
      (runs : w.tasks.Runs env.current image) (inside : image.Spans address size)
      (run : outcome (verifyArea env address size) w.machine = .ok (result, m)) :
      Moves d w mems ⟨m, w.tasks⟩ mems
  | copyOut {env : Environment} {address : VirtualAddress} {bytes : List UInt8} {image : Image}
      {m : Machine} (describes : env.Describes w.tasks d)
      (runs : w.tasks.Runs env.current image) (inside : image.Spans address bytes.length)
      (run : outcome (copyToUser env address bytes) w.machine = .ok (.ok (), m)) :
      Moves d w mems ⟨m, w.tasks⟩ (mems.set env.current
        ((mems env.current).overwrite (address.value - image.startCode.value) bytes))
  | copyOutFailed {env : Environment} {address : VirtualAddress} {bytes : List UInt8}
      {image : Image} {cause : MemoryError} {m : Machine} (describes : env.Describes w.tasks d)
      (runs : w.tasks.Runs env.current image) (inside : image.Spans address bytes.length)
      (run : outcome (copyToUser env address bytes) w.machine = .ok (.error cause, m)) :
      Moves d w mems ⟨m, w.tasks⟩ (mems.set env.current
        ((mems env.current).overwrite (address.value - image.startCode.value)
          (bytes.take (storedBefore env address bytes (pageChunks address bytes.length)
            w.machine))))
  | copyIn {env : Environment} {address : VirtualAddress} {length : Nat} {image : Image}
      {result : Except MemoryError (List UInt8)} {m : Machine}
      (describes : env.Describes w.tasks d) (runs : w.tasks.Runs env.current image)
      (inside : image.Spans address length)
      (run : outcome (copyFromUser env address length) w.machine = .ok (result, m)) :
      Moves d w mems ⟨m, w.tasks⟩ mems

/-- The worlds that steps lead to, with the memories of their processes. -/
inductive Evolves (d : Disk) (config : Config) (layout : Layout) (policy : Policy) :
    World → Memories → Prop
  | boot {m : Machine} {mems : Memories} (start : Machine.boot config layout policy = .ok m) :
      Evolves d config layout policy ⟨m, fun _ => none⟩ mems
  | move {w w' : World} {mems mems' : Memories} (before : Evolves d config layout policy w mems)
      (moves : w.Moves d mems w' mems') : Evolves d config layout policy w' mems'

end World

/-! ## Slots -/

namespace Image

variable {image : Image} {address : VirtualAddress} {length : Nat}

/-- The directory slots of a slot cover what the slot does. -/
theorem Slotted.mem_slots (slotted : image.Slotted) {operation : RangeOperation}
    {slots : List Slot} (range : rangeSlots operation image.startCode taskSize = .ok slots)
    {k : Place} : k.1 ∈ slots ↔ image.Covers (Place.address k) := by
  have aligned := slotted.aligned
  rw [mem_rangeSlots_iff range]
  simp only [InRange, Covers, Place.address, Slot.join, Address.directorySlot, taskSize] at *
  omega

/-- Every piece of a range in the slot starts in the slot. -/
theorem Slotted.covers_chunk (slotted : image.Slotted) (inside : image.Spans address length)
    {chunk : Chunk} (among : chunk ∈ pageChunks address length) :
    (address.wrappingAdd chunk.start).value = address.value + chunk.start ∧
      image.Covers (address.wrappingAdd chunk.start) := by
  obtain ⟨below, -, -⟩ := of_mem_pageChunks among
  have ends := slotted.end_le
  obtain ⟨above, fits⟩ := inside
  have value : (address.wrappingAdd chunk.start).value = address.value + chunk.start := by
    show (address.value + chunk.start) % 4294967296 = _
    exact Nat.mod_eq_of_lt (by omega)
  refine ⟨value, ?_, ?_⟩
  · rw [value]
    omega
  · rw [value]
    omega

/-- Every page that a range in the slot touches lies in the slot. -/
theorem Slotted.covers_touched (slotted : image.Slotted) (inside : image.Spans address length)
    {va : VirtualAddress} (touched : va ∈ touchedPages address length) : image.Covers va := by
  have aligned := slotted.aligned
  have ends := slotted.end_le
  obtain ⟨above, fits⟩ := inside
  unfold touchedPages at touched
  obtain ⟨i, below, rfl⟩ := List.mem_map.mp touched
  rw [List.mem_range, Address.value_alignDown] at below
  simp only [PageSize.bytes] at below
  have value : ((address.alignDown .small).wrappingAdd (4096 * i)).value =
      (address.value - address.value % 4096 + 4096 * i) % 4294967296 := by
    show ((address.alignDown .small).value + 4096 * i) % 4294967296 = _
    rw [Address.value_alignDown]
    simp only [PageSize.bytes]
  unfold taskSize at *
  rw [Covers, value, taskSize]
  omega

end Image

/-! ## The invariant -/

/-- The view is settled and mirrors the memories of all processes, each in a slot of its own. -/
structure Mirrored (d : Disk) (tasks : Tasks) (mems : Memories) (v : View) (o : Owed) : Prop
    extends Settled d tasks v o where
  slotted : ∀ pid image, tasks.Runs pid image → image.Slotted
  zero : v.config.zeroFill = true
  mirrors : v.Mirrors d (tasks.Minds mems)

namespace Mirrored

variable {d : Disk} {tasks : Tasks} {mems : Memories} {m : Machine} {v v' u : View} {o o' : Owed}
  {env : Environment} {pid : Pid} {p : Task} {image : Image}

theorem mirror (mirrored : Mirrored d tasks mems v o) (runs : tasks pid = some p)
    (shown : p.image = some image) (k : Place) :
    image.Mirrors d (mems pid) k (v.seen p.space k) :=
  mirrored.mirrors p.space (mirrored.mem_live runs) image (mems pid) ⟨pid, p, runs, rfl, shown, rfl⟩ k

/-- A page that is present lies in the slot and holds what the memory does. -/
theorem present (mirrored : Mirrored d tasks mems v o) (runs : tasks pid = some p)
    (shown : p.image = some image) {k : Place} (present : (v.leaf p.space k).present = true) :
    image.Covers (Place.address k) ∧
      v.bytes (v.leaf p.space k).frame = image.slice (mems pid) k := by
  have mirror := mirrored.mirror runs shown k
  rwa [View.seen_of_present present] at mirror

theorem absent (mirrored : Mirrored d tasks mems v o) (runs : tasks pid = some p)
    (shown : p.image = some image) {k : Place} (absent : (v.leaf p.space k).present = false)
    (covers : image.Covers (Place.address k)) :
    image.slice (mems pid) k = image.slice (d.initial image) k := by
  have mirror := mirrored.mirror runs shown k
  rw [View.seen_of_absent absent] at mirror
  exact mirror covers

/-- Accesses of the current process to its slot change no memory. -/
theorem reached (mirrored : Mirrored d tasks mems v o) {within : VirtualAddress → Prop}
    (describes : env.Describes tasks d) (runs : tasks.Runs env.current image)
    (inside : ∀ va, within va → image.Covers va)
    (acts : View.Acts (env.Accesses v.config within) v o v' o) : Mirrored d tasks mems v' o := by
  have faithful (c : Change) (h : env.Accesses v.config within c) : c.Faithful d tasks.Owns :=
    h.faithful describes mirrored.apart mirrored.coherent
  have expected (c : Change) (h : env.Accesses v.config within c) :
      c.Expected d tasks.Owns (tasks.Minds mems) := by
    refine h.expected describes mirrored.apart mirrored.coherent mirrored.zero
      fun va here image' runs' => ?_
    obtain ⟨p, found, shown⟩ := runs
    obtain ⟨p', found', shown'⟩ := runs'
    rw [found] at found'
    cases found'
    rw [shown] at shown'
    cases shown'
    exact ⟨mirrored.slotted _ image ⟨p, found, shown⟩, inside va here⟩
  exact ⟨mirrored.lasting acts faithful (acts.live fun _ h => h.lasting), mirrored.slotted,
    acts.setting.2.2 ▸ mirrored.zero,
    acts.mirrors faithful expected mirrored.sound mirrored.pristine mirrored.mirrors⟩

/-- Storing bytes in a page of the current process that was reached for it. -/
theorem stored {va : VirtualAddress} {bytes : List UInt8} (mirrored : Mirrored d tasks mems u o)
    (runs : tasks pid = some p) (shown : p.image = some image) (inside : image.Covers va)
    (present : (u.leaf p.space va.splitSlots).present = true)
    (ready : (u.leaf p.space va.splitSlots).writable = true ∧
      (u.leaf p.space va.splitSlots).dirty = true)
    (fits : va.value % 4096 + bytes.length ≤ 4096) :
    Mirrored d tasks (mems.set pid ((mems pid).overwrite (va.value - image.startCode.value) bytes))
      (u.setBytes (u.leaf p.space va.splitSlots).frame
        ((u.bytes (u.leaf p.space va.splitSlots).frame).write (va.value % 4096) bytes)) o := by
  have hs := mirrored.mem_live runs
  have acts : View.Acts (fun c => ∃ b, c = .store p.space va.splitSlots b) u o
      (u.setBytes (u.leaf p.space va.splitSlots).frame
        ((u.bytes (u.leaf p.space va.splitSlots).frame).write (va.value % 4096) bytes)) o :=
    .single ⟨_, rfl⟩ (.store hs present ready.1 ready.2)
  refine ⟨mirrored.lasting acts ?_ rfl, mirrored.slotted, mirrored.zero,
    mirrored.mirrors.write mirrored.apart mirrored.sound runs shown
      (mirrored.slotted pid image ⟨p, runs, shown⟩) inside hs present ready.1 fits⟩
  rintro c ⟨b, rfl⟩
  trivial

/-! ## Copies -/

/-- Reaching the page of one piece of a buffer changes no memory. -/
theorem reached_chunk {address : VirtualAddress} {length : Nat} {chunk : Chunk}
    (mirrored : Mirrored d tasks mems v o) (describes : env.Describes tasks d)
    (runs : tasks.Runs env.current image) (inside : image.Spans address length)
    (here : chunk ∈ pageChunks address length)
    (leads : v.Leads (env.Accesses v.config (· = address.wrappingAdd chunk.start)) v') :
    Mirrored d tasks mems v' o := by
  obtain ⟨-, covers⟩ := (mirrored.slotted _ image runs).covers_chunk inside here
  refine mirrored.reached describes runs (fun va same => ?_) (leads.acts o)
  rw [same]
  exact covers

/-- One more piece of a buffer is stored in the page that was reached for it. -/
theorem copyChunk {address : VirtualAddress} {bytes : List UInt8} {chunk : Chunk} {s : Space}
    (mirrored : Mirrored d tasks (mems.set env.current ((mems env.current).overwrite
      (address.value - image.startCode.value) (bytes.take chunk.start))) v o)
    (describes : env.Describes tasks d) (runs : tasks env.current = some p)
    (shown : p.image = some image) (inside : image.Spans address bytes.length)
    (here : chunk ∈ pageChunks address bytes.length)
    (accessed : v.Accessed env (address.wrappingAdd chunk.start) true s u) :
    Mirrored d tasks (mems.set env.current ((mems env.current).overwrite
      (address.value - image.startCode.value) (bytes.take (chunk.start + chunk.length))))
      (u.setBytes (u.leaf s (address.wrappingAdd chunk.start).splitSlots).frame
        ((u.bytes (u.leaf s (address.wrappingAdd chunk.start).splitSlots).frame).write
          ((address.wrappingAdd chunk.start).value % 4096)
          ((bytes.drop chunk.start).take chunk.length))) o := by
  obtain ⟨value, covers⟩ :=
    (mirrored.slotted _ image ⟨p, runs, shown⟩).covers_chunk inside here
  obtain ⟨-, fits, page⟩ := of_mem_pageChunks here
  obtain ⟨q, found, rfl⟩ := describes.task accessed.owner
  rw [runs] at found
  cases found
  have reached := mirrored.reached_chunk describes ⟨p, runs, shown⟩ inside here accessed.toLeads
  have length : ((bytes.drop chunk.start).take chunk.length).length = chunk.length := by
    rw [List.length_take, List.length_drop]
    omega
  have fills : (address.wrappingAdd chunk.start).value % 4096 +
      ((bytes.drop chunk.start).take chunk.length).length ≤ 4096 := by
    rw [length, value]
    exact page
  have stored := reached.stored runs shown covers accessed.present (accessed.ready rfl) fills
  have place : (address.wrappingAdd chunk.start).value - image.startCode.value =
      address.value - image.startCode.value + (bytes.take chunk.start).length := by
    have := inside.1
    rw [value, List.length_take]
    omega
  rwa [Memories.set_self, Memories.set_set, place, Contents.overwrite_append,
    ← List.take_add] at stored

/-- Storing the pieces of a buffer one after the other, as far as they can be reached. -/
theorem copyChunks {address : VirtualAddress} {bytes : List UInt8}
    (describes : env.Describes tasks d) (runs : tasks env.current = some p)
    (shown : p.image = some image) (inside : image.Spans address bytes.length)
    (rest : List Chunk) : ∀ (n : Nat) (m : Machine) (v : View),
    (∀ chunk ∈ rest, chunk ∈ pageChunks address bytes.length) →
    Contiguous n rest bytes.length →
    Mirrored d tasks (mems.set env.current ((mems env.current).overwrite
      (address.value - image.startCode.value) (bytes.take n))) v o → m.Shows v →
    ∀ result m', outcome (rest.forM (copyChunkOut env address bytes)) m = .ok (result, m') →
      (result = .ok () → n + storedBefore env address bytes rest m = bytes.length) ∧
      ∃ v', Mirrored d tasks (mems.set env.current ((mems env.current).overwrite
        (address.value - image.startCode.value)
        (bytes.take (n + storedBefore env address bytes rest m)))) v' o ∧ m'.Shows v' := by
  induction rest with
  | nil =>
    intro n m v _ cut mirrored shows result m' run
    cases run
    exact ⟨fun _ => cut, v, mirrored, shows⟩
  | cons chunk rest ih =>
    intro n m v among cut mirrored shows result m' run
    obtain ⟨rfl, cut⟩ := cut
    have here := among chunk List.mem_cons_self
    have contract := shows.copyChunkOut mirrored.sound (mirrored.names describes) address bytes chunk
    change outcome (copyChunkOut env address bytes chunk >>= fun _ =>
      rest.forM (copyChunkOut env address bytes)) m = .ok (result, m') at run
    rcases outcome_bind_eq_ok_iff.mp run with ⟨_, m₁, first, last⟩ | ⟨cause, first, rfl⟩
    · have count : storedBefore env address bytes (chunk :: rest) m =
          chunk.length + storedBefore env address bytes rest m₁ := by
        rw [storedBefore, first]
      obtain ⟨s, u, accessed, shows₁⟩ := contract.done_of_run first
      have stored := mirrored.copyChunk describes runs shown inside here accessed
      rw [count, ← Nat.add_assoc]
      exact ih _ m₁ _ (fun c h => among c (List.mem_cons_of_mem _ h)) cut stored shows₁ result m' last
    · have none_stored : storedBefore env address bytes (chunk :: rest) m = 0 := by
        rw [storedBefore, first]
      obtain ⟨u, leads, shows₁⟩ := contract.failed_of_run first
      refine ⟨nofun, u, ?_, shows₁⟩
      rw [none_stored, Nat.add_zero]
      exact mirrored.reached_chunk describes ⟨p, runs, shown⟩ inside here leads

private theorem copyToUser_run {address : VirtualAddress} {bytes : List UInt8}
    (fits : address.value + bytes.length ≤ 4294967296) (m : Machine) :
    outcome (copyToUser env address bytes) m =
      outcome ((pageChunks address bytes.length).forM (copyChunkOut env address bytes)) m := by
  unfold copyToUser requireNoWrap
  rw [if_pos fits]
  rfl

/-- A copy to user memory stores what it is given, or the pieces that could be reached. -/
theorem copiedOut {address : VirtualAddress} {bytes : List UInt8}
    {result : Except MemoryError Unit} {m' : Machine} (mirrored : Mirrored d tasks mems v o)
    (shows : m.Shows v) (describes : env.Describes tasks d) (runs : tasks.Runs env.current image)
    (inside : image.Spans address bytes.length)
    (run : outcome (copyToUser env address bytes) m = .ok (result, m')) :
    (result = .ok () →
      storedBefore env address bytes (pageChunks address bytes.length) m = bytes.length) ∧
    ∃ v', Mirrored d tasks (mems.set env.current ((mems env.current).overwrite
      (address.value - image.startCode.value) (bytes.take
        (storedBefore env address bytes (pageChunks address bytes.length) m)))) v' o ∧
      m'.Shows v' := by
  have ends := (mirrored.slotted _ image runs).end_le
  obtain ⟨p, found, shown⟩ := runs
  rw [copyToUser_run (Nat.le_trans inside.2 ends)] at run
  have start : mems.set env.current ((mems env.current).overwrite
      (address.value - image.startCode.value) (bytes.take 0)) = mems := by
    rw [List.take_zero, Contents.overwrite_nil, Memories.set_same]
  have copied := copyChunks describes found shown inside (pageChunks address bytes.length) 0 m v
    (fun _ h => h) (contiguous_pageChunks address bytes.length) (start.symm ▸ mirrored) shows
    result m' run
  rwa [Nat.zero_add] at copied

/-- A copy from user memory that succeeds gives what the memory holds. -/
theorem copiedIn (mirrored : Mirrored d tasks mems v o) (shows : m.Shows v)
    (describes : env.Describes tasks d) (runs : tasks.Runs env.current image)
    {address : VirtualAddress} {length : Nat} (inside : image.Spans address length) :
    Tries (copyFromUser env address length) m Exhausts
      (fun bytes m' =>
        bytes = (mems env.current).read (address.value - image.startCode.value) length ∧
        ∃ v', Mirrored d tasks mems v' o ∧ m'.Shows v')
      (fun _ m' => ∃ v', Mirrored d tasks mems v' o ∧ m'.Shows v') := by
  have slotted := mirrored.slotted _ image runs
  obtain ⟨p, found, shown⟩ := runs
  refine (shows.copyFromUser (P := fun v => Mirrored d tasks mems v o)
    (Q := fun chunk bytes => bytes = (mems env.current).read
      (address.value - image.startCode.value + chunk.start) chunk.length)
    (Nat.le_trans inside.2 slotted.end_le) ?_ ?_ ?_ mirrored).mono ?_ fun _ _ h => h
  · exact fun w h => ⟨⟨o, h.sound⟩, h.names describes⟩
  · intro chunk among w w' h leads
    exact h.reached_chunk describes ⟨p, found, shown⟩ inside among leads
  · intro chunk among w s u h accessed h'
    obtain ⟨value, covers⟩ := slotted.covers_chunk inside among
    obtain ⟨-, -, fits⟩ := of_mem_pageChunks among
    obtain ⟨q, found', rfl⟩ := describes.task accessed.owner
    rw [found] at found'
    cases found'
    have position := Image.position_splitSlots slotted covers
    have above := inside.1
    have place : (address.wrappingAdd chunk.start).value - image.startCode.value =
        address.value - image.startCode.value + chunk.start := by omega
    rw [(h'.present found shown accessed.present).2, ← place, ← position]
    rw [← value] at fits
    exact Image.read_slice _ _ fits
  · rintro bytes m' ⟨pieces, w, each, rfl, h, shows'⟩
    have whole := (contiguous_pageChunks address length).read each
    rw [Nat.add_zero, Nat.sub_zero] at whole
    exact ⟨whole, w, h, shows'⟩

/-! ## Steps -/

/-- What is done for the current process in its slot. -/
theorem fault {va : VirtualAddress} {kind : FaultKind} {result : Except MemoryError Resolution}
    {m' : Machine} (mirrored : Mirrored d tasks mems v o) (shows : m.Shows v)
    (describes : env.Describes tasks d) (runs : tasks.Runs env.current image)
    (inside : image.Covers va)
    (run : outcome (handleFault env kind va) m = .ok (result, m')) :
    ∃ v', Mirrored d tasks mems v' o ∧ m'.Shows v' := by
  have named := mirrored.names describes
  have contract := shows.handleFault mirrored.sound named kind va
  have within : ∀ va', va' = va → image.Covers va' := by
    rintro va' rfl
    exact inside
  cases result with
  | ok how =>
    obtain ⟨s, v', owner, answers, shows'⟩ := contract.done_of_run run
    have acts := answers.acts (o := o) (named _ _ owner) named
    exact ⟨v', mirrored.reached describes runs within
      (acts.mono fun _ serves => .serve owner rfl serves), shows'⟩
  | error cause =>
    obtain ⟨reads, shows'⟩ := contract.failed_of_run run
    exact ⟨_, mirrored.reached describes runs within (.single .note (.note v.flushes reads _)),
      shows'⟩

theorem verify {address : VirtualAddress} {size : Nat} {result : Except MemoryError Unit}
    {m' : Machine} (mirrored : Mirrored d tasks mems v o) (shows : m.Shows v)
    (describes : env.Describes tasks d) (runs : tasks.Runs env.current image)
    (inside : image.Spans address size)
    (run : outcome (verifyArea env address size) m = .ok (result, m')) :
    ∃ v', Mirrored d tasks mems v' o ∧ m'.Shows v' := by
  have slotted := mirrored.slotted _ image runs
  have contract := shows.verifyArea mirrored.sound (mirrored.names describes) address size
  have after : (∃ v', v.Leads (env.Accesses v.config (· ∈ touchedPages address size)) v' ∧
      m'.Shows v') → ∃ v', Mirrored d tasks mems v' o ∧ m'.Shows v' := by
    rintro ⟨v', leads, shows'⟩
    exact ⟨v', mirrored.reached describes runs (fun _ h => slotted.covers_touched inside h)
      (leads.acts o), shows'⟩
  cases result with
  | ok => exact after (contract.done_of_run run)
  | error cause => exact after (contract.failed_of_run run)

/-- A process starts with a space that mirrors its memory. -/
theorem joined {start : VirtualAddress} {slots : List Slot} {parent : Option Space} {s : Space}
    {mem : Contents} (mirrored : Mirrored d tasks mems v o)
    (born : v.Born start slots parent s v') (ok : ∀ p, parent = some p → v.Parent p)
    (distinct : slots.Nodup) (unused : tasks pid = none) (slotted : image.Slotted)
    (inherits : ∀ p image', parent = some p → some image = some image' → tasks.Owns p image')
    (coherent : (tasks.set pid ⟨s, some image⟩).Coherent)
    (new : v'.Mirrors d (tasks.Minds mems) → ∀ k, image.Mirrors d mem k (v'.seen s k)) :
    Mirrored d (tasks.set pid ⟨s, some image⟩) (mems.set pid mem) v' o := by
  have acts := born.acts mirrored.sound ok distinct
  have fresh {image' : Image} : ¬ tasks.Owns s image' := fun owns =>
    born.fresh mirrored.sound ((mirrored.live s).mpr (Tasks.owned_of_owns owns))
  have before : v'.Mirrors d (tasks.Minds mems) :=
    acts.mirrors (fun c h => h.faithful fun p image' _ owns => absurd owns fresh)
      (fun c h => h.expected fun image' mem' minded => fresh minded.owns) mirrored.sound
      mirrored.pristine mirrored.mirrors
  refine ⟨mirrored.born born ok distinct unused inherits coherent, fun pid' image' runs => ?_,
    acts.setting.2.2 ▸ mirrored.zero,
    (before.mono fun _ _ _ => Tasks.minds_of_drop).join fun image' shown => ?_⟩
  · rcases Tasks.runs_set runs with old | shown
    · exact mirrored.slotted pid' image' old
    · cases shown
      exact slotted
  · cases shown
    exact new before

theorem spawn {start : VirtualAddress} {size : Nat} {s : Space} {m' : Machine}
    (mirrored : Mirrored d tasks mems v o) (shows : m.Shows v) (unused : tasks pid = none)
    (slotted : image.Slotted)
    (run : outcome (Space.createFrom none start size) m = .ok (.ok s, m'))
    (coherent : (tasks.set pid ⟨s, some image⟩).Coherent) :
    ∃ v', Mirrored d (tasks.set pid ⟨s, some image⟩) (mems.set pid (d.initial image)) v' o ∧
      m'.Shows v' := by
  have orphan (q : Space) (same : none = some q) : v.Parent q := by cases same
  obtain ⟨slots, v', -, distinct, born, shows'⟩ :=
    (shows.createFrom mirrored.sound orphan start size).done_of_run run
  refine ⟨v', mirrored.joined born orphan distinct unused slotted nofun coherent fun _ k => ?_,
    shows'⟩
  rw [born.seen_empty]
  exact fun _ => rfl

/-- A clone of a whole slot sees what the parent does. -/
theorem fork {child : Pid} {s : Space} {m' : Machine} (mirrored : Mirrored d tasks mems v o)
    (shows : m.Shows v) (runs : tasks pid = some p) (shown : p.image = some image)
    (unused : tasks child = none)
    (run : outcome (Space.createFrom (some p.space) image.startCode taskSize) m =
      .ok (.ok s, m')) :
    ∃ v', Mirrored d (tasks.set child ⟨s, some image⟩) (mems.set child (mems pid)) v' o ∧
      m'.Shows v' := by
  have slotted := mirrored.slotted pid image ⟨p, runs, shown⟩
  have hs := mirrored.mem_live runs
  have ok (q : Space) (same : some p.space = some q) : v.Parent q := by
    cases same
    exact .inl hs
  obtain ⟨slots, v', range, distinct, born, shows'⟩ :=
    (shows.createFrom mirrored.sound ok image.startCode taskSize).done_of_run run
  have range := range (by simp)
  refine ⟨v', mirrored.joined born ok distinct unused slotted ?_ ?_ fun before k => ?_, shows'⟩
  · rintro q image' same same'
    cases same
    cases same'
    exact ⟨pid, p, runs, rfl, shown⟩
  · rw [← shown]
    exact mirrored.coherent.fork runs
  · rw [born.seen_clone mirrored.sound hs distinct slotted.positive fun i vacant j => by
      rw [shows.leaf_of_vacant hs vacant]
      rfl]
    split
    · have live : p.space ∈ v'.live := by
        rw [born.live mirrored.sound ok distinct]
        exact Finset.mem_insert_of_mem hs
      exact before p.space live image (mems pid) ⟨pid, p, runs, rfl, shown, rfl⟩ k
    · next outside => exact fun covers => absurd ((slotted.mem_slots range).mpr covers) outside

theorem createFailed {parent : Option Space} {start : VirtualAddress} {size : Nat}
    {cause : MemoryError} {m' : Machine} (mirrored : Mirrored d tasks mems v o) (shows : m.Shows v)
    (owned : ∀ q, parent = some q → tasks.Owned q)
    (run : outcome (Space.createFrom parent start size) m = .ok (.error cause, m')) :
    ∃ v', Mirrored d tasks mems v' o ∧ m'.Shows v' := by
  have ok (q : Space) (same : parent = some q) : v.Parent q :=
    .inl ((mirrored.live q).mpr (owned q same))
  obtain ⟨v', live, rfl | ⟨s, slots, free, acts⟩, shows'⟩ :=
    (shows.createFrom mirrored.sound ok start size).failed_of_run run
  · exact ⟨_, mirrored, shows'⟩
  · have fresh {image : Image} : ¬ tasks.Owns s image := fun owns =>
      mirrored.sound.fresh free ((mirrored.live s).mpr (Tasks.owned_of_owns owns))
    exact ⟨v', ⟨mirrored.aborted free acts live, mirrored.slotted,
      acts.setting.2.2 ▸ mirrored.zero,
      acts.mirrors (fun c h => h.faithful fun q image' _ owns => absurd owns fresh)
        (fun c h => h.expected fun image' mem' minded => fresh minded.owns) mirrored.sound
        mirrored.pristine mirrored.mirrors⟩, shows'⟩

/-- Pages that are freed belong to a process that has no memory any more. -/
theorem freed {slots : List Slot} {allowed : Change → Prop} (mirrored : Mirrored d tasks mems v o)
    (runs : tasks pid = some p) (acts : View.Acts allowed v o v' o')
    (frees : ∀ c, allowed c → Frees p.space slots c ∨ c = .destroy p.space) :
    v'.Mirrors d ((tasks.drop pid).Minds mems) := by
  have faithful (c : Change) (h : allowed c) : c.Faithful d tasks.Owns := by
    rcases frees c h with frees | rfl
    · exact frees.faithful
    · trivial
  have expected (c : Change) (h : allowed c) :
      c.Expected d tasks.Owns ((tasks.drop pid).Minds mems) := by
    rcases frees c h with frees | rfl
    · exact frees.expected (Tasks.not_minds_drop mirrored.apart runs)
    · trivial
  exact acts.mirrors faithful expected mirrored.sound mirrored.pristine
    (mirrored.mirrors.mono fun _ _ _ => Tasks.minds_of_drop)

theorem exec {image' : Image} {m' : Machine} (mirrored : Mirrored d tasks mems v o)
    (shows : m.Shows v) (runs : tasks pid = some p) (shown : p.image = some image)
    (slotted' : image'.Slotted)
    (run : p.space.clear image.startCode taskSize m = .ok ((), m'))
    (coherent : (tasks.set pid ⟨p.space, some image'⟩).Coherent) :
    ∃ v', Mirrored d (tasks.set pid ⟨p.space, some image'⟩) (mems.set pid (d.initial image')) v' o ∧
      m'.Shows v' := by
  have slotted := mirrored.slotted pid image ⟨p, runs, shown⟩
  have hs := mirrored.mem_live runs
  obtain ⟨slots, range, shows'⟩ :=
    (shows.clear mirrored.sound hs image.startCode taskSize).of_run run
  have freed : View.Acts (Frees p.space slots) v o (v.freed p.space slots).flushed o :=
    (View.acts_freed hs fun _ h => h).flushed .note
  have live := freed.live fun _ h => h.lasting
  -- What is present lies in the slot, and the whole slot is freed.
  have blank (k : Place) : ((v.freed p.space slots).flushed.leaf p.space k).present = false := by
    by_cases inside : k.1 ∈ slots
    · have vacant : (v.freed p.space slots).flushed.link p.space k.1 = none :=
        (View.link_freed v p.space slots p.space k.1).trans (if_pos ⟨rfl, inside⟩)
      have zero := shows'.leaf_of_vacant (live ▸ hs) vacant k.2
      rw [zero]
      rfl
    · have same : (v.freed p.space slots).flushed.leaf p.space k = v.leaf p.space k :=
        View.leaf_freed_of_ne fun h => inside h.2
      rw [same, ← Bool.not_eq_true]
      exact fun present =>
        inside ((slotted.mem_slots range).mpr (mirrored.present runs shown present).1)
  have settled := mirrored.lasting freed (fun _ h => h.faithful) live
  refine ⟨_, ⟨settled.become runs blank coherent, fun pid' image₁ runs' => ?_,
    freed.setting.2.2 ▸ mirrored.zero,
    (mirrored.freed runs freed fun c h => .inl h).join fun image₁ shown' k => ?_⟩, shows'⟩
  · rcases Tasks.runs_set runs' with old | shown'
    · exact mirrored.slotted pid' image₁ old
    · cases shown'
      exact slotted'
  · cases shown'
    rw [View.seen_of_absent (blank k)]
    exact fun _ => rfl

theorem exit {start : VirtualAddress} {size : Nat} {m' : Machine}
    (mirrored : Mirrored d tasks mems v o) (shows : m.Shows v) (runs : tasks pid = some p)
    (run : p.space.destroy start size m = .ok ((), m')) :
    ∃ v' o', Mirrored d (tasks.drop pid) mems v' o' ∧ m'.Shows v' := by
  obtain ⟨slots, v', -, acts, live, shows'⟩ :=
    (shows.destroy mirrored.sound (mirrored.mem_live runs) start size).of_run run
  exact ⟨v', _, ⟨mirrored.ended runs acts live,
    fun pid' image' runs' => mirrored.slotted pid' image' (Tasks.runs_of_drop runs'),
    acts.setting.2.2 ▸ mirrored.zero, mirrored.freed runs acts fun _ h => h⟩, shows'⟩

theorem initKernel {s : Space} {m' : Machine} (mirrored : Mirrored d tasks mems v o)
    (shows : m.Shows v) (room : 8192 ≤ m.pool.layout.low.value)
    (run : Space.initKernel m = .ok (s, m')) :
    ∃ v', Mirrored d tasks mems v' o ∧ m'.Shows v' := by
  rw [shows.layout] at room
  obtain ⟨-, b, same, quiet, shows'⟩ := (shows.initKernel mirrored.sound room).of_run run
  refine ⟨_, ⟨mirrored.restored same quiet, mirrored.slotted, mirrored.zero,
    fun s hs image mem minded k => ?_⟩, shows'⟩
  have seen : (v.stored b).flushed.seen s k = v.seen s k :=
    View.seen_congr rfl fun present => same _ (mirrored.tame s hs image minded.owns k present)
  rw [seen]
  exact mirrored.mirrors s hs image mem minded k

theorem boot {config : Config} {layout : Layout} {policy : Policy} (zero : config.zeroFill = true)
    (start : Machine.boot config layout policy = .ok m) :
    Mirrored d (fun _ => none) mems (.initial config layout) layout.reserve :=
  ⟨(Populated.boot start).toSettled, nofun, zero, fun _ hs => absurd hs (Finset.notMem_empty _)⟩

end Mirrored

/-- Every step leaves the memories mirrored. -/
theorem World.Moves.mirrored {d : Disk} {w w' : World} {mems mems' : Memories} {v : View}
    {o : Owed} (moves : w.Moves d mems w' mems') (mirrored : Mirrored d w.tasks mems v o)
    (shows : w.machine.Shows v) :
    ∃ v' o', Mirrored d w'.tasks mems' v' o' ∧ w'.machine.Shows v' := by
  have same : (∃ v', Mirrored d w'.tasks mems' v' o ∧ w'.machine.Shows v') →
      ∃ v' o', Mirrored d w'.tasks mems' v' o' ∧ w'.machine.Shows v' :=
    fun ⟨v', after⟩ => ⟨v', o, after⟩
  cases moves with
  | initKernel room run => exact same (mirrored.initKernel shows room run)
  | spawn unused slotted run coherent =>
    exact same (mirrored.spawn shows unused slotted run coherent)
  | fork runs shown unused run => exact same (mirrored.fork shows runs shown unused run)
  | createFailed owned run => exact same (mirrored.createFailed shows owned run)
  | exec runs shown slotted run coherent =>
    exact same (mirrored.exec shows runs shown slotted run coherent)
  | exit runs run => exact mirrored.exit shows runs run
  | fault describes runs inside run => exact same (mirrored.fault shows describes runs inside run)
  | verify describes runs inside run => exact same (mirrored.verify shows describes runs inside run)
  | copyOut describes runs inside run =>
    obtain ⟨whole, v', after, shows'⟩ := mirrored.copiedOut shows describes runs inside run
    rw [whole rfl, List.take_length] at after
    exact ⟨v', o, after, shows'⟩
  | copyOutFailed describes runs inside run =>
    exact same (mirrored.copiedOut shows describes runs inside run).2
  | @copyIn env address length image result m describes runs inside run =>
    have contract := mirrored.copiedIn shows describes runs inside
    cases result with
    | ok bytes => exact same (contract.done_of_run run).2
    | error cause => exact same (contract.failed_of_run run)

theorem World.Evolves.mirrored {d : Disk} {config : Config} {layout : Layout} {policy : Policy}
    {w : World} {mems : Memories} (evolves : w.Evolves d config layout policy mems)
    (zero : config.zeroFill = true) :
    ∃ v o, Mirrored d w.tasks mems v o ∧ w.machine.Shows v := by
  induction evolves with
  | boot start => exact ⟨_, _, .boot zero start, (Machine.shows_boot start).2⟩
  | move before moves ih =>
    obtain ⟨v, o, mirrored, shows⟩ := ih
    exact moves.mirrored mirrored shows

section Tiny

def tinyFork : Attempt Space :=
  Space.createFrom ((tinyAlone.tasks 1).map Task.space) tinyImage.startCode taskSize

def tinyCopy (tasks : Tasks) (pid : Pid) (bytes : List UInt8) : Attempt Unit :=
  copyToUser (tasks.environment tinyDisk pid [1, 2]) tinyImage.startCode bytes

/-- A process has forked. -/
def tinyForked : World :=
  ⟨tinyAlone.machine.after tinyFork, tinyAlone.tasks.set 2 (tinyTask ⟨3, by decide⟩)⟩

/-- The parent has written to its first page. -/
def tinyWritten : World :=
  ⟨tinyForked.machine.after (tinyCopy tinyForked.tasks 1 [7]), tinyForked.tasks⟩

/-- So has the child. -/
def tinySplit : World :=
  ⟨tinyWritten.machine.after (tinyCopy tinyForked.tasks 2 [8, 9]), tinyForked.tasks⟩

def tinyMemories : Memories :=
  let first : Memories := Memories.set (fun _ _ => 0) 1 (tinyDisk.initial tinyImage)
  let forked := first.set 2 (first 1)
  let written := forked.set 1 ((forked 1).overwrite 0 [7])
  written.set 2 ((written 2).overwrite 0 [8, 9])

theorem slotted_tinyImage : tinyImage.Slotted :=
  ⟨by decide, by decide⟩

theorem spans_tinyImage {length : Nat} (short : length ≤ taskSize) :
    tinyImage.Spans tinyImage.startCode length :=
  ⟨Nat.le_refl _, Nat.add_le_add_left short _⟩

/-- What is computed of the run, in one go. -/
theorem computed_tinySplit :
    tinyAlone.machine.product tinyFork = some ⟨⟨3, by decide⟩⟩ ∧
    tinyForked.machine.product (tinyCopy tinyForked.tasks 1 [7]) = some () ∧
    tinyWritten.machine.product (tinyCopy tinyForked.tasks 2 [8, 9]) = some () ∧
    (tinyTask ⟨2, by decide⟩).space.Maps tinySplit.machine.ram tinyImage.startCode ∧
    (tinyTask ⟨3, by decide⟩).space.Maps tinySplit.machine.ram tinyImage.startCode := by
  unfold Space.Maps
  decide +kernel

theorem evolves_tinySplit :
    World.Evolves tinyDisk .standard .tiny .lowest tinySplit tinyMemories := by
  obtain ⟨fork, first, second, -⟩ := computed_tinySplit
  have idle : World.Evolves tinyDisk .standard .tiny .lowest _ fun _ _ => 0 :=
    .boot Machine.boot_tiny
  have alone : World.Evolves tinyDisk .standard .tiny .lowest tinyAlone _ :=
    .move idle (.spawn rfl slotted_tinyImage (Machine.run_of_product (by decide +kernel))
      (.of_image rfl fun _ _ => runs_tinyAlone))
  have runs : tinyAlone.tasks 1 = some (tinyTask ⟨2, by decide⟩) := rfl
  have unused : tinyAlone.tasks 2 = none := rfl
  have forked : World.Evolves tinyDisk .standard .tiny .lowest tinyForked _ :=
    .move alone (.fork runs rfl unused (Machine.run_of_product fork))
  have written : World.Evolves tinyDisk .standard .tiny .lowest tinyWritten _ :=
    .move forked (.copyOut (Tasks.describes_environment ..) ⟨_, rfl, rfl⟩
      (spans_tinyImage (by decide)) (Machine.run_of_product first))
  exact .move written (.copyOut (Tasks.describes_environment ..) ⟨_, rfl, rfl⟩
    (spans_tinyImage (by decide)) (Machine.run_of_product second))

end Tiny

/-- Whatever the others do, each process sees its own memory. A page that is present lies in the
slot of the process and holds what the memory does; where no page is present, the memory is
still what the process started with; and a copy from user memory that succeeds gives exactly
what the memory holds. -/
theorem processes_isolated {d : Disk} {config : Config} {layout : Layout} {policy : Policy}
    {w : World} {mems : Memories} (zero : config.zeroFill = true)
    (evolves : World.Evolves d config layout policy w mems) :
    ∀ pid p image, w.tasks pid = some p → p.image = some image →
      (∀ va, p.space.Maps w.machine.ram va → image.Covers va ∧
        (w.machine.ram.bytes (p.space.leaf w.machine.ram va.splitSlots).frame)[va.value % 4096] =
          mems pid (va.value - image.startCode.value)) ∧
      (∀ va, image.Covers va → ¬ p.space.Maps w.machine.ram va →
        mems pid (va.value - image.startCode.value) =
          d.initial image (va.value - image.startCode.value)) ∧
      ∀ env address length bytes m, env.Describes w.tasks d → env.current = pid →
        image.Spans address length →
        outcome (copyFromUser env address length) w.machine = .ok (.ok bytes, m) →
          bytes = (mems pid).read (address.value - image.startCode.value) length := by
  obtain ⟨v, o, mirrored, shows⟩ := evolves.mirrored zero
  intro pid p image runs shown
  have slotted := mirrored.slotted pid image ⟨p, runs, shown⟩
  have hs := mirrored.mem_live runs
  refine ⟨fun va maps => ?_, fun va covers unmapped => ?_,
    fun env address length bytes m describes same inside run => ?_⟩
  · rw [Space.Maps, shows.leaf p.space hs] at maps
    obtain ⟨covers, bytes⟩ := mirrored.present runs shown maps
    rw [slotted.covers_place] at covers
    rw [shows.leaf p.space hs, shows.bytes _ (mirrored.sound.not_hidden_of_leaf hs
      (View.refers_leaf maps)), bytes, Image.getElem_slice, Image.position_splitSlots slotted covers]
    exact ⟨covers, rfl⟩
  · rw [Space.Maps, shows.leaf p.space hs, Bool.not_eq_true] at unmapped
    have slices := mirrored.absent runs shown unmapped (slotted.covers_place.mpr covers)
    have inset : va.value % 4096 < 4096 := Nat.mod_lt _ (by decide)
    have bytes := congrArg (fun f : Frame => f[va.value % 4096]) slices
    simp only [Image.getElem_slice, Image.position_splitSlots slotted covers] at bytes
    exact bytes
  · subst same
    exact ((mirrored.copiedIn shows describes ⟨p, runs, shown⟩ inside).done_of_run run).1

theorem processes_isolated_tiny :
    World.Evolves tinyDisk .standard .tiny .lowest tinySplit tinyMemories ∧
    (tinyTask ⟨2, by decide⟩).space.Maps tinySplit.machine.ram tinyImage.startCode ∧
    (tinyTask ⟨3, by decide⟩).space.Maps tinySplit.machine.ram tinyImage.startCode ∧
    (tinySplit.machine.ram.bytes ((tinyTask ⟨2, by decide⟩).space.leaf tinySplit.machine.ram
      tinyImage.startCode.splitSlots).frame)[0] = 7 ∧
    (tinySplit.machine.ram.bytes ((tinyTask ⟨3, by decide⟩).space.leaf tinySplit.machine.ram
      tinyImage.startCode.splitSlots).frame)[0] = 8 := by
  have zero : Config.standard.zeroFill = true := rfl
  have isolated := processes_isolated zero evolves_tinySplit
  obtain ⟨-, -, -, parent, child⟩ := computed_tinySplit
  exact ⟨evolves_tinySplit, parent, child, ((isolated 1 _ tinyImage rfl rfl).1 _ parent).2,
    ((isolated 2 _ tinyImage rfl rfl).1 _ child).2⟩

end PagedMemory
