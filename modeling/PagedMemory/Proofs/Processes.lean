import PagedMemory.Proofs.Lifecycle
import PagedMemory.Proofs.Pristine
import PagedMemory.Proofs.Start
import PagedMemory.Proofs.UserMemory

/-!
# Processes and their images

Every process owns one space and may run one image. Processes start with an empty space or
as a fork of another one, whose image they then run; a space may also be cloned from that
of the kernel, which is no image of anybody. A new image is taken up only while the space
of the process maps nothing. Executables and the disk never change, but reading may fail,
and the order in which peers are asked is nobody's to rely on.

The lemmas about single operations say that they respect whose pages are whose
(`Change.Faithful`), so that what holds of clean pages survives every step.
-/

namespace PagedMemory

/-- A process, as far as memory is concerned. -/
structure Task where
  space : Space
  image : Option Image

abbrev Tasks := Pid → Option Task

/-- A machine and the processes that run on it. -/
structure World where
  machine : Machine
  tasks : Tasks

namespace Tasks

def Runs (tasks : Tasks) (pid : Pid) (image : Image) : Prop :=
  ∃ p, tasks pid = some p ∧ p.image = some image

/-- The space belongs to a process that runs the image. -/
def Owns (tasks : Tasks) : Ownership :=
  fun s image => ∃ pid p, tasks pid = some p ∧ p.space = s ∧ p.image = some image

def Owned (tasks : Tasks) (s : Space) : Prop :=
  ∃ pid p, tasks pid = some p ∧ p.space = s

/-- Every process owns a space of its own. -/
def Apart (tasks : Tasks) : Prop :=
  ∀ pid p pid' p', tasks pid = some p → tasks pid' = some p' → p.space = p'.space → pid = pid'

/-- Images start at a page, and processes that run one executable agree where its data ends. -/
structure Coherent (tasks : Tasks) : Prop where
  aligned : ∀ pid image, tasks.Runs pid image → image.startCode.isAligned .small = true
  ends : ∀ pid image pid' image' executable, tasks.Runs pid image → tasks.Runs pid' image' →
    image.executable = some executable → image'.executable = some executable →
      image.endData = image'.endData

/-- The tasks with a new one, or with one that runs something else. -/
def set (tasks : Tasks) (pid : Pid) (p : Task) : Tasks :=
  Function.update tasks pid (some p)

/-- The tasks without one of them. -/
def drop (tasks : Tasks) (pid : Pid) : Tasks :=
  Function.update tasks pid none

end Tasks

/-- The environment answers for these processes and reads from this disk. Which processes it
asks, and in which order, is left open. -/
structure Environment.Describes (env : Environment) (tasks : Tasks) (d : Disk) : Prop where
  addressSpace : ∀ pid, env.addressSpace pid = (tasks pid).map Task.space
  image : ∀ pid, env.image pid = (tasks pid).bind Task.image
  reads : env.Reads d

/-- An environment that asks some of the processes and whose disk always works. -/
def Tasks.environment (tasks : Tasks) (d : Disk) (current : Pid) (others : List Pid) :
    Environment where
  current := current
  processes := others
  addressSpace pid := (tasks pid).map Task.space
  image pid := (tasks pid).bind Task.image
  openCount _ := others.length
  device := d.device
  blockMap := d.blockMap
  readBlock device block := .ok (d.block device block)

theorem Tasks.describes_environment (tasks : Tasks) (d : Disk) (current : Pid)
    (others : List Pid) : (tasks.environment d current others).Describes tasks d := by
  refine ⟨fun _ => rfl, fun _ => rfl, rfl, rfl, fun device block bytes read => ?_⟩
  cases read
  rfl

namespace World

/-- What a process runs whose space is made from another one. -/
inductive Inherits (w : World) : Option Space → Option Image → Prop
  | fresh (image : Option Image) : Inherits w none image
  | fork {pid : Pid} {p : Task} (runs : w.tasks pid = some p) : Inherits w (some p.space) p.image
  | kernel (room : 8192 ≤ w.machine.pool.layout.low.value) : Inherits w (some Space.kernel) none

/-- One step of the world, whether what it attempts succeeds or fails. -/
inductive Step (d : Disk) (w : World) : World → Prop
  | initKernel {m : Machine} {s : Space} (room : 8192 ≤ w.machine.pool.layout.low.value)
      (run : Space.initKernel w.machine = .ok (s, m)) : Step d w ⟨m, w.tasks⟩
  | create {pid : Pid} {parent : Option Space} {image : Option Image} {start : VirtualAddress}
      {size : Nat} {s : Space} {m : Machine} (unused : w.tasks pid = none)
      (inherits : w.Inherits parent image)
      (run : outcome (Space.createFrom parent start size) w.machine = .ok (.ok s, m))
      (coherent : (w.tasks.set pid ⟨s, image⟩).Coherent) : Step d w ⟨m, w.tasks.set pid ⟨s, image⟩⟩
  | createFailed {parent : Option Space} {image : Option Image} {start : VirtualAddress}
      {size : Nat} {cause : MemoryError} {m : Machine} (inherits : w.Inherits parent image)
      (run : outcome (Space.createFrom parent start size) w.machine = .ok (.error cause, m)) :
      Step d w ⟨m, w.tasks⟩
  | become {pid : Pid} {p : Task} {image : Option Image} (runs : w.tasks pid = some p)
      (blank : ∀ k, (p.space.leaf w.machine.ram k).present = false)
      (coherent : (w.tasks.set pid ⟨p.space, image⟩).Coherent) :
      Step d w ⟨w.machine, w.tasks.set pid ⟨p.space, image⟩⟩
  | clear {s : Space} {start : VirtualAddress} {size : Nat} {m : Machine}
      (owned : w.tasks.Owned s) (run : s.clear start size w.machine = .ok ((), m)) :
      Step d w ⟨m, w.tasks⟩
  | exit {pid : Pid} {p : Task} {start : VirtualAddress} {size : Nat} {m : Machine}
      (runs : w.tasks pid = some p) (run : p.space.destroy start size w.machine = .ok ((), m)) :
      Step d w ⟨m, w.tasks.drop pid⟩
  | fault {env : Environment} {kind : FaultKind} {va : VirtualAddress}
      {result : Except MemoryError Resolution} {m : Machine} (describes : env.Describes w.tasks d)
      (run : outcome (handleFault env kind va) w.machine = .ok (result, m)) : Step d w ⟨m, w.tasks⟩
  | verify {env : Environment} {address : VirtualAddress} {size : Nat}
      {result : Except MemoryError Unit} {m : Machine} (describes : env.Describes w.tasks d)
      (run : outcome (verifyArea env address size) w.machine = .ok (result, m)) :
      Step d w ⟨m, w.tasks⟩
  | copyOut {env : Environment} {address : VirtualAddress} {bytes : List UInt8}
      {result : Except MemoryError Unit} {m : Machine} (describes : env.Describes w.tasks d)
      (run : outcome (copyToUser env address bytes) w.machine = .ok (result, m)) :
      Step d w ⟨m, w.tasks⟩
  | copyIn {env : Environment} {address : VirtualAddress} {length : Nat}
      {result : Except MemoryError (List UInt8)} {m : Machine} (describes : env.Describes w.tasks d)
      (run : outcome (copyFromUser env address length) w.machine = .ok (result, m)) :
      Step d w ⟨m, w.tasks⟩

/-- The worlds that steps lead to from a machine without processes. -/
inductive Reachable (d : Disk) (config : Config) (layout : Layout) (policy : Policy) :
    World → Prop
  | boot {m : Machine} (start : Machine.boot config layout policy = .ok m) :
      Reachable d config layout policy ⟨m, fun _ => none⟩
  | step {w w' : World} (before : Reachable d config layout policy w) (step : w.Step d w') :
      Reachable d config layout policy w'

end World

/-! ## What belongs where -/

theorem Image.offset_aligned {image : Image} {va : VirtualAddress} {executable : ExecutableId}
    {offset : Nat} (aligned : image.startCode.isAligned .small = true)
    (backed : image.source? (va.alignDown .small) = some (executable, offset)) :
    offset % 4096 = 0 := by
  have sum := (source?_eq_some_iff.mp backed).1
  rw [Address.value_alignDown] at sum
  simp only [Address.isAligned, PageSize.bytes, beq_iff_eq] at aligned sum
  omega

namespace Tasks

variable {tasks : Tasks} {s : Space} {pid pid' : Pid} {p : Task} {image : Image}

@[simp] theorem set_self : tasks.set pid p pid = some p := by
  unfold set
  exact Function.update_self ..

theorem set_of_ne (other : pid' ≠ pid) : tasks.set pid p pid' = tasks pid' := by
  unfold set
  exact Function.update_of_ne other ..

@[simp] theorem drop_self : tasks.drop pid pid = none := by
  unfold drop
  exact Function.update_self ..

theorem drop_of_ne (other : pid' ≠ pid) : tasks.drop pid pid' = tasks pid' := by
  unfold drop
  exact Function.update_of_ne other ..

theorem owned_of_owns (owns : tasks.Owns s image) : tasks.Owned s := by
  obtain ⟨pid, p, runs, space, -⟩ := owns
  exact ⟨pid, p, runs, space⟩

theorem owned_set : (tasks.set pid p).Owned p.space :=
  ⟨pid, p, set_self, rfl⟩

theorem owned_set_of_ne (unused : tasks pid = none) (other : s ≠ p.space) :
    (tasks.set pid p).Owned s ↔ tasks.Owned s := by
  constructor
  · rintro ⟨pid', q, runs, rfl⟩
    by_cases same : pid' = pid
    · subst same
      rw [set_self] at runs
      cases runs
      exact absurd rfl other
    · rw [set_of_ne same] at runs
      exact ⟨pid', q, runs, rfl⟩
  · rintro ⟨pid', q, runs, rfl⟩
    have differ : pid' ≠ pid := by
      rintro rfl
      rw [unused] at runs
      cases runs
    exact ⟨pid', q, (set_of_ne differ).trans runs, rfl⟩

theorem owned_set_iff (unused : tasks pid = none) :
    (tasks.set pid p).Owned s ↔ s = p.space ∨ tasks.Owned s := by
  by_cases same : s = p.space
  · subst same
    exact ⟨fun _ => .inl rfl, fun _ => owned_set⟩
  · rw [owned_set_of_ne unused same]
    exact ⟨.inr, fun h => h.resolve_left same⟩

/-- A process that runs something else keeps its space. -/
theorem owned_set_iff_of_runs (runs : tasks pid = some p) {image : Option Image} :
    (tasks.set pid ⟨p.space, image⟩).Owned s ↔ tasks.Owned s := by
  constructor
  · rintro ⟨pid', q, runs', rfl⟩
    by_cases same : pid' = pid
    · subst same
      rw [set_self] at runs'
      cases runs'
      exact ⟨pid', p, runs, rfl⟩
    · exact ⟨pid', q, (set_of_ne same).symm.trans runs', rfl⟩
  · rintro ⟨pid', q, runs', rfl⟩
    by_cases same : pid' = pid
    · subst same
      rw [runs] at runs'
      cases runs'
      exact owned_set
    · exact ⟨pid', q, (set_of_ne same).trans runs', rfl⟩

theorem owns_set (owns : (tasks.set pid p).Owns s image) :
    tasks.Owns s image ∨ s = p.space ∧ p.image = some image := by
  obtain ⟨pid', q, runs, rfl, shown⟩ := owns
  by_cases same : pid' = pid
  · subst same
    rw [set_self] at runs
    cases runs
    exact .inr ⟨rfl, shown⟩
  · rw [set_of_ne same] at runs
    exact .inl ⟨pid', q, runs, rfl, shown⟩

theorem Apart.set (apart : tasks.Apart)
    (alone : ∀ pid' q, tasks pid' = some q → q.space = p.space → pid' = pid) :
    (tasks.set pid p).Apart := by
  intro pid₁ p₁ pid₂ p₂ runs₁ runs₂ space
  by_cases same₁ : pid₁ = pid <;> by_cases same₂ : pid₂ = pid
  · rw [same₁, same₂]
  · rw [same₁, set_self] at runs₁
    rw [set_of_ne same₂] at runs₂
    cases runs₁
    exact absurd (alone pid₂ p₂ runs₂ space.symm) same₂
  · rw [set_of_ne same₁] at runs₁
    rw [same₂, set_self] at runs₂
    cases runs₂
    exact absurd (alone pid₁ p₁ runs₁ space) same₁
  · rw [set_of_ne same₁] at runs₁
    rw [set_of_ne same₂] at runs₂
    exact apart pid₁ p₁ pid₂ p₂ runs₁ runs₂ space

theorem runs_set (runs : (tasks.set pid p).Runs pid' image) :
    tasks.Runs pid' image ∨ p.image = some image := by
  obtain ⟨q, runs, shown⟩ := runs
  by_cases same : pid' = pid
  · rw [same, set_self] at runs
    cases runs
    exact .inr shown
  · rw [set_of_ne same] at runs
    exact .inl ⟨q, runs, shown⟩

/-- Processes that all run one image agree. -/
theorem Coherent.of_image (aligned : image.startCode.isAligned .small = true)
    (only : ∀ pid image', tasks.Runs pid image' → image' = image) : tasks.Coherent where
  aligned pid image' runs := only pid image' runs ▸ aligned
  ends pid₁ image₁ pid₂ image₂ _ runs₁ runs₂ _ _ := by
    rw [only pid₁ image₁ runs₁, only pid₂ image₂ runs₂]

/-- Processes that run what others do agree if these do. -/
theorem Coherent.of_runs {tasks' : Tasks} (coherent : tasks.Coherent)
    (imp : ∀ pid image, tasks'.Runs pid image → ∃ pid', tasks.Runs pid' image) :
    tasks'.Coherent where
  aligned pid image runs := by
    obtain ⟨pid', runs'⟩ := imp pid image runs
    exact coherent.aligned pid' image runs'
  ends pid₁ image₁ pid₂ image₂ executable runs₁ runs₂ := by
    obtain ⟨pid₁', runs₁'⟩ := imp pid₁ image₁ runs₁
    obtain ⟨pid₂', runs₂'⟩ := imp pid₂ image₂ runs₂
    exact coherent.ends pid₁' image₁ pid₂' image₂ executable runs₁' runs₂'

theorem Coherent.fork (coherent : tasks.Coherent) {child : Pid} (runs : tasks pid = some p) :
    (tasks.set child ⟨s, p.image⟩).Coherent := by
  refine coherent.of_runs fun pid' image runs' => ?_
  rcases runs_set runs' with before | shown
  · exact ⟨pid', before⟩
  · exact ⟨pid, p, runs, shown⟩

theorem eq_of_drop (runs : (tasks.drop pid) pid' = some p) :
    pid' ≠ pid ∧ tasks pid' = some p := by
  by_cases same : pid' = pid
  · rw [same, drop_self] at runs
    cases runs
  · rw [drop_of_ne same] at runs
    exact ⟨same, runs⟩

theorem Apart.drop (apart : tasks.Apart) : (tasks.drop pid).Apart :=
  fun pid₁ p₁ pid₂ p₂ runs₁ runs₂ =>
    apart pid₁ p₁ pid₂ p₂ (eq_of_drop runs₁).2 (eq_of_drop runs₂).2

theorem runs_of_drop (runs : (tasks.drop pid).Runs pid' image) : tasks.Runs pid' image := by
  obtain ⟨p, runs, shown⟩ := runs
  exact ⟨p, (eq_of_drop runs).2, shown⟩

theorem Coherent.drop (coherent : tasks.Coherent) : (tasks.drop pid).Coherent :=
  coherent.of_runs fun pid' _ runs => ⟨pid', runs_of_drop runs⟩

/-- A process that ends gives its space up and leaves the others theirs. -/
theorem owned_drop_iff (apart : tasks.Apart) (runs : tasks pid = some p) :
    (tasks.drop pid).Owned s ↔ s ≠ p.space ∧ tasks.Owned s := by
  constructor
  · rintro ⟨pid', q, runs', rfl⟩
    obtain ⟨differ, before⟩ := eq_of_drop runs'
    exact ⟨fun same => differ (apart pid' q pid p before runs same), pid', q, before, rfl⟩
  · rintro ⟨other, pid', q, runs', rfl⟩
    have differ : pid' ≠ pid := by
      rintro rfl
      rw [runs] at runs'
      cases runs'
      exact other rfl
    exact ⟨pid', q, (drop_of_ne differ).trans runs', rfl⟩

theorem owns_of_drop (owns : (tasks.drop pid).Owns s image) : tasks.Owns s image := by
  obtain ⟨pid', q, runs, space, shown⟩ := owns
  exact ⟨pid', q, (eq_of_drop runs).2, space, shown⟩

end Tasks

theorem World.Inherits.owns {w : World} {parent : Option Space} {image : Option Image}
    (inherits : w.Inherits parent image) (p : Space) (image' : Image) (same : parent = some p)
    (shown : image = some image') : w.tasks.Owns p image' := by
  cases inherits with
  | fresh => cases same
  | kernel => cases shown
  | @fork pid q runs =>
    cases same
    exact ⟨pid, q, runs, rfl, shown⟩

namespace Environment

variable {env : Environment} {tasks : Tasks} {d : Disk} {config : Config} {s : Space}
  {va : VirtualAddress} {c : Change}

theorem Describes.task (describes : env.Describes tasks d) {pid : Pid}
    (owner : env.addressSpace pid = some s) : ∃ p, tasks pid = some p ∧ p.space = s := by
  rw [describes.addressSpace] at owner
  exact Option.map_eq_some_iff.mp owner

theorem Describes.runs (describes : env.Describes tasks d) {pid : Pid} {image : Image}
    (runs : env.image pid = some image) : tasks.Runs pid image := by
  rw [describes.image] at runs
  exact Option.bind_eq_some_iff.mp runs

/-- The owner of a space runs one image. -/
theorem Describes.image_unique (describes : env.Describes tasks d) (apart : tasks.Apart)
    {pid : Pid} {image image' : Image} (owner : env.addressSpace pid = some s)
    (runs : env.image pid = some image) (owns : tasks.Owns s image') : image' = image := by
  obtain ⟨p, here, rfl⟩ := describes.task owner
  obtain ⟨pid', p', there, space, shown⟩ := owns
  cases apart pid' p' pid p there here space
  obtain ⟨q, here', shown'⟩ := describes.runs runs
  rw [there] at here'
  cases here'
  exact Option.some.inj (shown.symm.trans shown')

/-- A peer has the page that it is asked for in the same place of its own image. -/
theorem Describes.source?_of_peer (describes : env.Describes tasks d) (coherent : tasks.Coherent)
    {pid : Pid} {image : Image} {executable : ExecutableId} {offset : Nat}
    {peer : Pid × Space × VirtualAddress} (runs : env.image pid = some image)
    (asked : peer ∈ env.peers pid executable offset)
    (backed : image.source? (va.alignDown .small) = some (executable, offset)) :
    ∃ image', tasks.Owns peer.2.1 image' ∧ image'.endData = image.endData ∧
      image'.source? (Place.address peer.2.2.splitSlots) = some (executable, offset) := by
  obtain ⟨image', shown, named, executes, sum⟩ := of_mem_peers asked
  have theirs := describes.runs shown
  have ours := describes.runs runs
  obtain ⟨q, there, space⟩ := describes.task named
  obtain ⟨_, short, executes'⟩ := Image.source?_eq_some_iff.mp backed
  have ends := coherent.ends _ image' pid image executable theirs ours executes executes'
  have aligned := coherent.aligned _ image' theirs
  have offset_aligned := Image.offset_aligned (coherent.aligned pid image ours) backed
  obtain ⟨q', there', running⟩ := theirs
  rw [there] at there'
  cases there'
  refine ⟨image', ⟨_, q, there, space, running⟩, ends, ?_⟩
  have address := Address.add?_eq_some_iff.mp sum
  have starts : peer.2.2.isAligned .small = true := by
    simp only [Address.isAligned, PageSize.bytes, beq_iff_eq] at aligned ⊢
    omega
  rw [Address.place_splitSlots, Address.alignDown_of_aligned starts]
  exact Image.source?_eq_some_iff.mpr ⟨address, by omega, executes⟩

theorem Serves.faithful (serves : env.Serves config s va c) (describes : env.Describes tasks d)
    (apart : tasks.Apart) (coherent : tasks.Coherent)
    (owner : env.addressSpace env.current = some s) : c.Faithful d tasks.Owns := by
  cases serves with
  | note => trivial
  | link => trivial
  | permit => trivial
  | copy => trivial
  | @anonymous image b runs unbacked cleared =>
    intro image' executable offset owns backed
    rw [describes.image_unique apart owner runs owns, Address.place_splitSlots, unbacked] at backed
    cases backed
  | @loaded image executable offset before runs backed complete =>
    intro image' executable' offset' owns backed'
    obtain rfl := describes.image_unique apart owner runs owns
    rw [Address.place_splitSlots, backed] at backed'
    cases backed'
    exact describes.reads.loaded_eq_page
      (Image.offset_aligned (coherent.aligned _ image' (describes.runs runs)) backed) complete
  | @shared image executable offset peer e runs backed asked clean =>
    intro image' owns
    obtain rfl := describes.image_unique apart owner runs owns
    obtain ⟨image, owns', ends, backed''⟩ := describes.source?_of_peer coherent runs asked backed
    refine ⟨image, owns', fun executable' offset' backed' => ?_⟩
    rw [Address.place_splitSlots, backed] at backed'
    cases backed'
    exact ⟨backed'', ends⟩

theorem Accesses.faithful {within : VirtualAddress → Prop} (accesses : env.Accesses config within c)
    (describes : env.Describes tasks d) (apart : tasks.Apart) (coherent : tasks.Coherent) :
    c.Faithful d tasks.Owns := by
  cases accesses with
  | note => trivial
  | touch => trivial
  | serve owner _ serves => exact serves.faithful describes apart coherent owner

theorem Stores.faithful {within : VirtualAddress → Prop} (stores : env.Stores config within c)
    (describes : env.Describes tasks d) (apart : tasks.Apart) (coherent : tasks.Coherent) :
    c.Faithful d tasks.Owns := by
  cases stores with
  | store => trivial
  | access accesses => exact accesses.faithful describes apart coherent

end Environment

theorem Frees.faithful {d : Disk} {owns : Ownership} {s : Space} {slots : List Slot} {c : Change}
    (frees : Frees s slots c) : c.Faithful d owns := by
  cases frees <;> trivial

/-- A child whose owner runs anything runs the image of its parent. -/
theorem Creates.faithful {d : Disk} {owns : Ownership} {live : Finset Space}
    {parent : Option Space} {child : Space} {slots : List Slot} {c : Change}
    (creates : Creates live parent child slots c)
    (inherits : ∀ p image, parent = some p → owns child image → p ∈ live ∧ owns p image) :
    c.Faithful d owns := by
  cases creates with
  | create => trivial
  | destroy => trivial
  | free frees => exact frees.faithful
  | @clone p c source clones =>
    cases clones with
    | note => trivial
    | link => trivial
    | share =>
      intro image' owner
      exact ⟨image', (inherits p image' source owner).2, fun _ _ backed => ⟨backed, rfl⟩⟩
    | expose inside foreign =>
      intro image owner
      exact foreign (Finset.mem_insert_of_mem (inherits p image source owner).1)

end PagedMemory
