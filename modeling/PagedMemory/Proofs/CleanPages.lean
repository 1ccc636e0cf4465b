import PagedMemory.Proofs.Processes

/-!
# Clean pages in every run

`Populated` ties a world to a sound view in which the clean pages of every image hold what
the disk does. Each step preserves it, so it holds in every world that can be reached; this
is why a page may be shared instead of loaded, and why it does not matter with whom.
-/

namespace PagedMemory

/-- The spaces of the view are those of the processes, and clean pages of images are
pristine. -/
structure Settled (d : Disk) (tasks : Tasks) (v : View) (o : Owed) : Prop where
  sound : v.Sound o
  live : ∀ s, s ∈ v.live ↔ tasks.Owned s
  apart : tasks.Apart
  coherent : tasks.Coherent
  quiet : 8192 ≤ v.layout.low.value → v.Quiet Space.kernel
  tame : v.Tame tasks.Owns
  pristine : v.Pristine d tasks.Owns

/-- The machine shows such a view. -/
structure Populated (d : Disk) (w : World) (v : View) (o : Owed) : Prop extends
    Settled d w.tasks v o where
  shows : w.machine.Shows v

namespace Settled

variable {d : Disk} {tasks tasks' : Tasks} {v v' : View} {o o' : Owed} {env : Environment}
  {allowed : Change → Prop}

theorem mem_live (settled : Settled d tasks v o) {pid : Pid} {p : Task}
    (runs : tasks pid = some p) : p.space ∈ v.live :=
  (settled.live p.space).mpr ⟨pid, p, runs, rfl⟩

theorem names (settled : Settled d tasks v o) (describes : env.Describes tasks d) :
    env.Names v.live := by
  intro pid s owner
  obtain ⟨p, runs, rfl⟩ := describes.task owner
  exact settled.mem_live runs

/-- A sequence of changes that are faithful to those who own the spaces afterwards. -/
theorem acts (settled : Settled d tasks v o) (acts : View.Acts allowed v o v' o')
    (faithful : ∀ c, allowed c → c.Faithful d tasks'.Owns)
    (live : ∀ s, s ∈ v'.live ↔ tasks'.Owned s) (apart : tasks'.Apart) (coherent : tasks'.Coherent)
    (known : ∀ s ∈ v.live, ∀ image, tasks'.Owns s image →
      tasks.Owns s image ∨ ∀ k, (v.leaf s k).present = false) : Settled d tasks' v' o' where
  sound := acts.sound settled.sound
  live := live
  apart := apart
  coherent := coherent
  quiet room := (settled.quiet (acts.setting.1 ▸ room)).acts acts settled.sound
  tame := acts.tame faithful (settled.tame.inherit known)
  pristine := acts.pristine faithful settled.sound (settled.pristine.inherit known)

/-- A sequence of faithful changes by which no process comes or goes. -/
theorem lasting (settled : Settled d tasks v o) (acts : View.Acts allowed v o v' o)
    (faithful : ∀ c, allowed c → c.Faithful d tasks.Owns) (live : v'.live = v.live) :
    Settled d tasks v' o :=
  settled.acts acts faithful (fun s => live ▸ settled.live s) settled.apart settled.coherent
    fun _ _ _ owner => .inl owner

/-- What the current process does to pages of its own. -/
theorem served (settled : Settled d tasks v o) {within : VirtualAddress → Prop}
    (describes : env.Describes tasks d) (acts : View.Acts (env.Stores v.config within) v o v' o) :
    Settled d tasks v' o :=
  settled.lasting acts (fun _ h => h.faithful describes settled.apart settled.coherent)
    (acts.live fun _ h => h.lasting)

/-- A new process owns a space that was just made. -/
theorem born (settled : Settled d tasks v o) {start : VirtualAddress} {slots : List Slot}
    {parent : Option Space} {s : Space} {pid : Pid} {image : Option Image}
    (born : v.Born start slots parent s v') (ok : ∀ p, parent = some p → v.Parent p)
    (distinct : slots.Nodup) (unused : tasks pid = none)
    (inherits : ∀ p image', parent = some p → image = some image' → tasks.Owns p image')
    (coherent : (tasks.set pid ⟨s, image⟩).Coherent) : Settled d (tasks.set pid ⟨s, image⟩) v' o := by
  have fresh := born.fresh settled.sound
  have live := born.live settled.sound ok distinct
  refine settled.acts (born.acts settled.sound ok distinct) ?_ ?_ ?_ coherent ?_
  · refine fun c h => h.faithful fun p image' same owns => ?_
    rcases Tasks.owns_set owns with before | ⟨-, shown⟩
    · exact absurd ((settled.live s).mpr (Tasks.owned_of_owns before)) fresh
    · obtain ⟨pid', q, runs, rfl, shown'⟩ := inherits p image' same shown
      have differ : pid' ≠ pid := by
        rintro rfl
        rw [unused] at runs
        cases runs
      exact ⟨settled.mem_live runs, pid', q, (Tasks.set_of_ne differ).trans runs, rfl, shown'⟩
  · intro s'
    rw [live, Finset.mem_insert, settled.live, Tasks.owned_set_iff unused]
  · refine settled.apart.set fun pid' q runs same => absurd (settled.mem_live runs) ?_
    rwa [same]
  · intro s' hs' image' owns
    rcases Tasks.owns_set owns with before | ⟨rfl, -⟩
    · exact .inl before
    · exact absurd hs' fresh

/-- A space was being made and nobody owns it. -/
theorem aborted (settled : Settled d tasks v o) {parent : Option Space} {s : Space}
    {slots : List Slot} (free : v.Free s.root)
    (acts : View.Acts (Creates v.live parent s slots) v o v' o) (live : v'.live = v.live) :
    Settled d tasks v' o := by
  refine settled.lasting acts (fun c h => h.faithful fun p image' _ owns => ?_) live
  exact absurd ((settled.live s).mpr (Tasks.owned_of_owns owns)) (settled.sound.fresh free)

/-- A process takes up another image while its space maps nothing. -/
theorem become (settled : Settled d tasks v o) {pid : Pid} {p : Task} {image : Option Image}
    (runs : tasks pid = some p) (blank : ∀ k, (v.leaf p.space k).present = false)
    (coherent : (tasks.set pid ⟨p.space, image⟩).Coherent) :
    Settled d (tasks.set pid ⟨p.space, image⟩) v o := by
  have idle : View.Acts (fun _ => False) v o v o := .refl
  refine settled.acts idle nofun (fun s => ?_)
    (settled.apart.set fun pid' q runs' same => settled.apart pid' q pid p runs' runs same)
    coherent ?_
  · rw [settled.live, Tasks.owned_set_iff_of_runs runs]
  · intro s _ image' owns
    rcases Tasks.owns_set owns with before | ⟨rfl, -⟩
    · exact .inl before
    · exact .inr blank

/-- Memory that is not tracked is changed. -/
theorem restored (settled : Settled d tasks v o) {b : FrameId → Frame}
    (same : ∀ f, v.tracks f = true → b f = v.bytes f)
    (quiet : (v.stored b).flushed.Quiet Space.kernel) :
    Settled d tasks (v.stored b).flushed o := by
  refine { settled with
    sound := (settled.sound.stored b).flushed, quiet := fun _ => quiet
    pristine := fun s hs image owner k executable offset backed clean => ?_ }
  have present := (Bool.and_eq_true_iff.mp clean).1
  exact (same _ (settled.tame s hs image owner k present)).trans
    (settled.pristine s hs image owner k executable offset backed clean)

/-- A process ends together with its space. -/
theorem ended (settled : Settled d tasks v o) {pid : Pid} {p : Task} {slots : List Slot}
    (runs : tasks pid = some p)
    (acts : View.Acts (fun c => Frees p.space slots c ∨ c = .destroy p.space) v o v' o')
    (live : v'.live = v.live.erase p.space) : Settled d (tasks.drop pid) v' o' := by
  refine settled.acts acts ?_ (fun s => ?_) settled.apart.drop settled.coherent.drop
    fun _ _ _ owns => .inl (Tasks.owns_of_drop owns)
  · rintro c (frees | rfl)
    · exact frees.faithful
    · trivial
  · rw [live, Finset.mem_erase, settled.live, Tasks.owned_drop_iff settled.apart runs]

end Settled

namespace Populated

variable {d : Disk} {w : World} {m : Machine} {v : View} {o : Owed} {env : Environment}

/-- A clean page of an image, read from memory. -/
theorem bytes_of_clean (pop : Populated d w v o) {pid : Pid} {p : Task} {image : Image} {k : Place}
    {executable : ExecutableId} {offset : Nat} (runs : w.tasks pid = some p)
    (shown : p.image = some image) (backed : image.source? k.address = some (executable, offset))
    (clean : (p.space.leaf w.machine.ram k).isClean = true) :
    w.machine.ram.bytes (p.space.leaf w.machine.ram k).frame = d.page executable image offset := by
  have hs := pop.mem_live runs
  rw [pop.shows.leaf p.space hs] at clean ⊢
  have present := (Bool.and_eq_true_iff.mp clean).1
  rw [pop.shows.bytes _ (pop.sound.not_hidden_of_leaf hs (View.refers_leaf present))]
  exact pop.pristine p.space hs image ⟨pid, p, runs, rfl, shown⟩ k executable offset backed clean

/-! ## Steps -/

theorem initKernel (pop : Populated d w v o) {s : Space}
    (room : 8192 ≤ w.machine.pool.layout.low.value)
    (run : Space.initKernel w.machine = .ok (s, m)) : ∃ v', Populated d ⟨m, w.tasks⟩ v' o := by
  rw [pop.shows.layout] at room
  obtain ⟨-, b, same, quiet, shows⟩ := (pop.shows.initKernel pop.sound room).of_run run
  exact ⟨_, pop.restored same quiet, shows⟩

theorem parent (pop : Populated d w v o) {parent : Option Space} {image : Option Image}
    (inherits : w.Inherits parent image) (p : Space) (same : parent = some p) : v.Parent p := by
  cases inherits with
  | fresh => cases same
  | fork runs =>
    cases same
    exact .inl (pop.mem_live runs)
  | kernel room =>
    cases same
    exact .inr (pop.quiet (pop.shows.layout ▸ room))

theorem create (pop : Populated d w v o) {pid : Pid} {parent : Option Space}
    {image : Option Image} {start : VirtualAddress} {size : Nat} {s : Space}
    (unused : w.tasks pid = none) (inherits : w.Inherits parent image)
    (run : outcome (Space.createFrom parent start size) w.machine = .ok (.ok s, m))
    (coherent : (w.tasks.set pid ⟨s, image⟩).Coherent) :
    ∃ v', Populated d ⟨m, w.tasks.set pid ⟨s, image⟩⟩ v' o := by
  have ok := pop.parent inherits
  obtain ⟨slots, v', -, distinct, born, shows⟩ :=
    (pop.shows.createFrom pop.sound ok start size).done_of_run run
  exact ⟨v', pop.born born ok distinct unused inherits.owns coherent, shows⟩

theorem createFailed (pop : Populated d w v o) {parent : Option Space} {image : Option Image}
    {start : VirtualAddress} {size : Nat} {cause : MemoryError}
    (inherits : w.Inherits parent image)
    (run : outcome (Space.createFrom parent start size) w.machine = .ok (.error cause, m)) :
    ∃ v', Populated d ⟨m, w.tasks⟩ v' o := by
  obtain ⟨v', live, rfl | ⟨s, slots, free, acts⟩, shows⟩ :=
    (pop.shows.createFrom pop.sound (pop.parent inherits) start size).failed_of_run run
  · exact ⟨_, { pop with shows := shows }⟩
  · exact ⟨v', pop.aborted free acts live, shows⟩

theorem become (pop : Populated d w v o) {pid : Pid} {p : Task} {image : Option Image}
    (runs : w.tasks pid = some p) (blank : ∀ k, (p.space.leaf w.machine.ram k).present = false)
    (coherent : (w.tasks.set pid ⟨p.space, image⟩).Coherent) :
    Populated d ⟨w.machine, w.tasks.set pid ⟨p.space, image⟩⟩ v o := by
  have unmapped (k : Place) : (v.leaf p.space k).present = false := by
    rw [← pop.shows.leaf p.space (pop.mem_live runs)]
    exact blank k
  exact ⟨pop.toSettled.become runs unmapped coherent, pop.shows⟩

theorem clear (pop : Populated d w v o) {s : Space} {start : VirtualAddress} {size : Nat}
    (owned : w.tasks.Owned s) (run : s.clear start size w.machine = .ok ((), m)) :
    ∃ v', Populated d ⟨m, w.tasks⟩ v' o := by
  have hs := (pop.live s).mpr owned
  obtain ⟨slots, -, shows⟩ := (pop.shows.clear pop.sound hs start size).of_run run
  have freed : View.Acts (Frees s slots) v o (v.freed s slots).flushed o :=
    (View.acts_freed hs fun _ h => h).flushed .note
  exact ⟨_, pop.lasting freed (fun _ h => h.faithful) (freed.live fun _ h => h.lasting), shows⟩

theorem exit (pop : Populated d w v o) {pid : Pid} {p : Task} {start : VirtualAddress} {size : Nat}
    (runs : w.tasks pid = some p) (run : p.space.destroy start size w.machine = .ok ((), m)) :
    ∃ v' o', Populated d ⟨m, w.tasks.drop pid⟩ v' o' := by
  obtain ⟨slots, v', -, acts, live, shows⟩ :=
    (pop.shows.destroy pop.sound (pop.mem_live runs) start size).of_run run
  exact ⟨v', _, pop.ended runs acts live, shows⟩

/-- A fault that is answered maps what the answer says. -/
theorem answered (pop : Populated d w v o) (describes : env.Describes w.tasks d)
    {kind : FaultKind} {va : VirtualAddress} {how : Resolution}
    (run : outcome (handleFault env kind va) w.machine = .ok (.ok how, m)) :
    ∃ p v', w.tasks env.current = some p ∧ v.Answers env p.space va kind how v' ∧
      Populated d ⟨m, w.tasks⟩ v' o := by
  have named := pop.names describes
  obtain ⟨s, v', owner, answers, shows⟩ :=
    (pop.shows.handleFault pop.sound named kind va).done_of_run run
  obtain ⟨p, runs, rfl⟩ := describes.task owner
  have acts := answers.acts (o := o) (named _ _ owner) named
  have served : View.Acts (env.Stores v.config (· = va)) v o v' o :=
    acts.mono fun _ serves => .access (.serve owner rfl serves)
  exact ⟨p, v', runs, answers, pop.served describes served, shows⟩

/-- Whatever the kernel does for a process, clean pages stay pristine. -/
theorem requested (pop : Populated d w v o) (describes : env.Describes w.tasks d) {c : Request}
    (run : c.serve env w.machine = .ok ((), m)) : ∃ v', Populated d ⟨m, w.tasks⟩ v' o := by
  obtain ⟨v', leads, shows⟩ :=
    (pop.shows.request pop.sound (pop.names describes) c).of_run run
  exact ⟨v', pop.served describes (leads.acts o), shows⟩

/-- Every step leaves clean pages pristine. -/
theorem step {w' : World} (pop : Populated d w v o) (step : w.Step d w') :
    ∃ v' o', Populated d w' v' o' := by
  have same : (∃ v', Populated d w' v' o) → ∃ v' o', Populated d w' v' o' :=
    fun ⟨v', after⟩ => ⟨v', o, after⟩
  cases step with
  | initKernel room run => exact same (pop.initKernel room run)
  | create unused inherits run coherent => exact same (pop.create unused inherits run coherent)
  | createFailed inherits run => exact same (pop.createFailed inherits run)
  | become runs blank coherent => exact ⟨v, o, pop.become runs blank coherent⟩
  | clear owned run => exact same (pop.clear owned run)
  | exit runs run => exact pop.exit runs run
  | fault describes run =>
    exact same (pop.requested describes (c := .fault _ _) (discard_run run))
  | verify describes run =>
    exact same (pop.requested describes (c := .verify _ _) (discard_run run))
  | copyOut describes run =>
    exact same (pop.requested describes (c := .copyOut _ _) (discard_run run))
  | copyIn describes run =>
    exact same (pop.requested describes (c := .copyIn _ _) (discard_run run))

theorem boot {config : Config} {layout : Layout} {policy : Policy}
    (start : Machine.boot config layout policy = .ok m) :
    Populated d ⟨m, fun _ => none⟩ (.initial config layout) layout.reserve := by
  obtain ⟨valid, shows⟩ := Machine.shows_boot start
  exact {
    shows := shows
    sound := View.sound_initial valid
    live := fun s => ⟨fun hs => absurd hs (Finset.notMem_empty s), nofun⟩
    apart := nofun
    coherent := ⟨nofun, nofun⟩
    quiet := View.quiet_initial valid
    tame := fun _ hs => absurd hs (Finset.notMem_empty _)
    pristine := fun _ hs => absurd hs (Finset.notMem_empty _) }

end Populated

namespace World.Reachable

variable {d : Disk} {config : Config} {layout : Layout} {policy : Policy} {w : World}

theorem populated (reach : Reachable d config layout policy w) : ∃ v o, Populated d w v o := by
  induction reach with
  | boot start => exact ⟨_, _, .boot start⟩
  | step before step ih =>
    obtain ⟨v, o, pop⟩ := ih
    exact pop.step step

end World.Reachable

/-- A page that was just shared or loaded is a clean page of the image. -/
theorem View.Answers.clean {v v' : View} {env : Environment} {s : Space} {va : VirtualAddress}
    {kind : FaultKind} {how : Resolution} (answers : v.Answers env s va kind how v')
    (found : how = .shared ∨ how = .loaded) :
    (v'.leaf s va.splitSlots).isClean = true ∧ ∃ image executable offset,
      env.image env.current = some image ∧
        image.source? (va.alignDown .small) = some (executable, offset) := by
  cases answers with
  | unshared unshares => cases unshares <;> simp at found
  | present => simp at found
  | filled absent fills =>
    cases fills with
    | anonymous => simp at found
    | @loaded image executable offset before f t w runs backed =>
      refine ⟨?_, image, executable, offset, runs, backed⟩
      rw [leaf_filled_self]
      rfl
    | @shared image executable offset peer v' runs backed chosen shares =>
      refine ⟨?_, image, executable, offset, runs, backed⟩
      obtain ⟨ready, -, covers⟩ := shares
      rw [flushed, leaf_aliased_self, covers.leaf]
      exact (shareable_iff.mp ready).1

section Tiny

/-- Every byte of a block but those of the holes is the number of the block. -/
def tinyDisk : Disk :=
  ⟨fun _ => 0, fun _ block => block, fun _ block => Vector.replicate 1024 (UInt8.ofNat block)⟩

def tinyImage : Image :=
  ⟨some ⟨1⟩, ⟨67108864, by decide⟩, 100, 100, 100⟩

def tinyTask (root : FrameId) : Task :=
  ⟨⟨root⟩, some tinyImage⟩

def tinyCreate : Attempt Space :=
  Space.createFrom none .zero 0

def tinyFault (tasks : Tasks) (pid : Pid) : Attempt Resolution :=
  handleFault (tasks.environment tinyDisk pid [1, 2]) .notPresent tinyImage.startCode

/-- A process has been started. -/
def tinyAlone : World :=
  ⟨Machine.tiny.after tinyCreate, Tasks.set (fun _ => none) 1 (tinyTask ⟨2, by decide⟩)⟩

/-- Its first page has been loaded, and another process has been started. -/
def tinyPair : World :=
  ⟨(tinyAlone.machine.after (tinyFault tinyAlone.tasks 1)).after tinyCreate,
    tinyAlone.tasks.set 2 (tinyTask ⟨5, by decide⟩)⟩

theorem runs_tinyAlone {pid : Pid} {image : Image} (runs : tinyAlone.tasks.Runs pid image) :
    image = tinyImage := by
  rcases Tasks.runs_set runs with ⟨_, none, _⟩ | shown
  · cases none
  · exact (Option.some.inj shown).symm

theorem runs_tinyPair {pid : Pid} {image : Image} (runs : tinyPair.tasks.Runs pid image) :
    image = tinyImage := by
  rcases Tasks.runs_set runs with before | shown
  · exact runs_tinyAlone before
  · exact (Option.some.inj shown).symm

theorem reachable_tinyPair : World.Reachable tinyDisk .standard .tiny .lowest tinyPair := by
  have alone : World.Reachable tinyDisk .standard .tiny .lowest tinyAlone :=
    .step (.boot Machine.boot_tiny) (.create rfl (.fresh _)
      (Machine.run_of_product (by decide +kernel)) (.of_image rfl fun _ _ => runs_tinyAlone))
  have loaded : outcome (tinyFault tinyAlone.tasks 1) tinyAlone.machine = .ok (.ok .loaded, _) :=
    Machine.run_of_product (by decide +kernel)
  exact .step (.step alone (.fault (Tasks.describes_environment ..) loaded)) (.create rfl
    (.fresh _) (Machine.run_of_product (by decide +kernel)) (.of_image rfl fun _ _ => runs_tinyPair))

end Tiny

/-- In every world that can be reached, a clean page of an image holds exactly what loading it
stores, into whichever frame and on whichever machine. When a fault is answered by sharing, the
page holds what it would if it had been loaded instead. -/
theorem clean_image_pages_pristine {d : Disk} {config : Config} {layout : Layout} {policy : Policy}
    {w : World} (reach : World.Reachable d config layout policy w) :
    (∀ pid p image k executable offset, w.tasks pid = some p → p.image = some image →
      image.source? (Place.address k) = some (executable, offset) →
      (p.space.leaf w.machine.ram k).isClean = true →
        w.machine.ram.bytes (p.space.leaf w.machine.ram k).frame =
          d.page executable image offset ∧
        ∀ env page m m', env.Reads d →
          outcome (loadPage env image executable offset page) m = .ok (.ok (), m') →
            m'.ram.bytes page = w.machine.ram.bytes (p.space.leaf w.machine.ram k).frame) ∧
    ∀ env kind va m, env.Describes w.tasks d →
      outcome (handleFault env kind va) w.machine = .ok (.ok .shared, m) →
        ∃ p image executable offset, w.tasks env.current = some p ∧ p.image = some image ∧
          image.source? (va.alignDown .small) = some (executable, offset) ∧
          m.ram.bytes (p.space.leaf m.ram va.splitSlots).frame = d.page executable image offset ∧
          ∀ env' m', env'.Describes w.tasks d → env'.current = env.current →
            outcome (handleFault env' kind va) w.machine = .ok (.ok .loaded, m') →
              m'.ram.bytes (p.space.leaf m'.ram va.splitSlots).frame =
                m.ram.bytes (p.space.leaf m.ram va.splitSlots).frame := by
  obtain ⟨v, o, pop⟩ := reach.populated
  -- What a page holds that was shared or loaded depends on the process alone.
  have mapped {env : Environment} {kind : FaultKind} {va : VirtualAddress} {how : Resolution}
      {m : Machine} (describes : env.Describes w.tasks d) (found : how = .shared ∨ how = .loaded)
      (run : outcome (handleFault env kind va) w.machine = .ok (.ok how, m)) :
      ∃ p image executable offset, w.tasks env.current = some p ∧ p.image = some image ∧
        image.source? (va.alignDown .small) = some (executable, offset) ∧
        m.ram.bytes (p.space.leaf m.ram va.splitSlots).frame = d.page executable image offset := by
    obtain ⟨p, v', runs, answers, pop'⟩ := pop.answered describes run
    obtain ⟨clean, image, executable, offset, shown, backed⟩ := answers.clean found
    obtain ⟨p', runs', shown'⟩ := describes.runs shown
    rw [runs] at runs'
    cases runs'
    refine ⟨p, image, executable, offset, runs, shown', backed, pop'.bytes_of_clean runs shown' ?_ ?_⟩
    · rwa [Address.place_splitSlots]
    · rwa [pop'.shows.leaf p.space (pop'.mem_live runs)]
  refine ⟨fun pid p image k executable offset runs shown backed clean => ?_,
    fun env kind va m describes run => ?_⟩
  · have bytes := pop.bytes_of_clean runs shown backed clean
    refine ⟨bytes, fun env page m m' reads run => ?_⟩
    have aligned : offset % 4096 = 0 := by
      rw [← Place.splitSlots_address k, Address.place_splitSlots] at backed
      exact Image.offset_aligned (pop.coherent.aligned pid image ⟨p, runs, shown⟩) backed
    rw [reads.loadPage aligned run, bytes]
  · obtain ⟨p, image, executable, offset, runs, shown, backed, bytes⟩ :=
      mapped describes (.inl rfl) run
    refine ⟨p, image, executable, offset, runs, shown, backed, bytes,
      fun env' m' describes' same run' => ?_⟩
    obtain ⟨p', image', executable', offset', runs', shown', backed', bytes'⟩ :=
      mapped describes' (.inr rfl) run'
    rw [same, runs] at runs'
    cases runs'
    rw [shown] at shown'
    cases shown'
    rw [backed] at backed'
    cases backed'
    rw [bytes', bytes]

theorem clean_image_pages_pristine_tiny :
    World.Reachable tinyDisk .standard .tiny .lowest tinyPair ∧
    ((tinyTask ⟨2, by decide⟩).space.leaf tinyPair.machine.ram (16, 0)).isClean = true ∧
    tinyPair.machine.ram.bytes
        ((tinyTask ⟨2, by decide⟩).space.leaf tinyPair.machine.ram (16, 0)).frame =
      tinyDisk.page ⟨1⟩ tinyImage 0 ∧
    ∃ m, outcome (tinyFault tinyPair.tasks 2) tinyPair.machine = .ok (.ok .shared, m) ∧
      m.ram.bytes ((tinyTask ⟨5, by decide⟩).space.leaf m.ram (16, 0)).frame =
        tinyDisk.page ⟨1⟩ tinyImage 0 := by
  have clean : ((tinyTask ⟨2, by decide⟩).space.leaf tinyPair.machine.ram (16, 0)).isClean =
      true := by decide +kernel
  have shared : outcome (tinyFault tinyPair.tasks 2) tinyPair.machine = .ok (.ok .shared, _) :=
    Machine.run_of_product (by decide +kernel)
  obtain ⟨pages, faults⟩ := clean_image_pages_pristine reachable_tinyPair
  refine ⟨reachable_tinyPair, clean, (pages 1 _ tinyImage (16, 0) ⟨1⟩ 0 rfl rfl rfl clean).1, _,
    shared, ?_⟩
  obtain ⟨p, image, executable, offset, runs, shown, backed, bytes, -⟩ :=
    faults _ _ _ _ (Tasks.describes_environment ..) shared
  cases runs
  cases shown
  cases backed
  exact bytes

end PagedMemory
