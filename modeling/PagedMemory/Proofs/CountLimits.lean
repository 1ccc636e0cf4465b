import PagedMemory.Proofs.CleanPages
import PagedMemory.Proofs.Leaks
import PagedMemory.Proofs.Offsets
import PagedMemory.Proofs.Overflows

/-!
# How far counts go

Processes come and go, fork, take up images and touch their memory (`World.Operates`). All
entries that map one frame stay at the same distance from where the images of their processes
start, so that a process never maps a frame twice, and the count of a frame is bounded by the
number of spaces.

An exit that frees less than the process has touched leaves references behind, one at most to
each frame, and a page table that nobody will ever free. The run counts such exits. The spaces
and these page tables together are no more than the frames there are, which is far less than
what a count can hold.
-/

namespace PagedMemory

open Finset

/-- Where the memory of a process starts, which without an image is at address zero. -/
def Task.base (p : Task) : Nat :=
  (p.image.map fun image => image.startCode.value).getD 0

/-- The environment answers for these processes. -/
structure Environment.Knows (env : Environment) (tasks : Tasks) : Prop where
  addressSpace : ∀ pid, env.addressSpace pid = (tasks pid).map Task.space
  image : ∀ pid, env.image pid = (tasks pid).bind Task.image

namespace World

/-- The worlds that a run of processes leads to, with the number of exits so far that left
page tables behind. A process starts with an empty space or as a fork of another one, whose
image it runs, and takes up an image while it maps nothing. -/
inductive Operates (config : Config) (layout : Layout) (policy : Policy) : Nat → World → Prop
  | boot {m : Machine} (start : Machine.boot config layout policy = .ok m) :
      Operates config layout policy 0 ⟨m, fun _ => none⟩
  | spawn {n : Nat} {w : World} {pid : Pid} {image : Option Image} {start : VirtualAddress}
      {size : Nat} {s : Space} {m : Machine} (before : Operates config layout policy n w)
      (unused : w.tasks pid = none)
      (aligned : ∀ i, image = some i → i.startCode.isAligned .small = true)
      (run : outcome (Space.createFrom none start size) w.machine = .ok (.ok s, m)) :
      Operates config layout policy n ⟨m, w.tasks.set pid ⟨s, image⟩⟩
  | fork {n : Nat} {w : World} {pid child : Pid} {p : Task} {start : VirtualAddress} {size : Nat}
      {s : Space} {m : Machine} (before : Operates config layout policy n w)
      (runs : w.tasks pid = some p) (unused : w.tasks child = none)
      (run : outcome (Space.createFrom (some p.space) start size) w.machine = .ok (.ok s, m)) :
      Operates config layout policy n ⟨m, w.tasks.set child ⟨s, p.image⟩⟩
  | refused {n : Nat} {w : World} {parent : Option Space} {start : VirtualAddress} {size : Nat}
      {cause : MemoryError} {m : Machine} (before : Operates config layout policy n w)
      (owned : ∀ p, parent = some p → w.tasks.Owned p)
      (run : outcome (Space.createFrom parent start size) w.machine = .ok (.error cause, m)) :
      Operates config layout policy n ⟨m, w.tasks⟩
  | clear {n : Nat} {w : World} {s : Space} {start : VirtualAddress} {size : Nat} {m : Machine}
      (before : Operates config layout policy n w) (owned : w.tasks.Owned s)
      (run : s.clear start size w.machine = .ok ((), m)) :
      Operates config layout policy n ⟨m, w.tasks⟩
  | become {n : Nat} {w : World} {pid : Pid} {p : Task} {image : Option Image}
      (before : Operates config layout policy n w) (runs : w.tasks pid = some p)
      (blank : ∀ k, (p.space.leaf w.machine.ram k).present = false)
      (aligned : ∀ i, image = some i → i.startCode.isAligned .small = true) :
      Operates config layout policy n ⟨w.machine, w.tasks.set pid ⟨p.space, image⟩⟩
  | exit {n : Nat} {w : World} {pid : Pid} {p : Task} {start : VirtualAddress} {size : Nat}
      {m : Machine} (before : Operates config layout policy n w) (runs : w.tasks pid = some p)
      (covered : ∀ i, p.space.link w.machine.ram i ≠ none → InRange start size i)
      (run : p.space.destroy start size w.machine = .ok ((), m)) :
      Operates config layout policy n ⟨m, w.tasks.drop pid⟩
  | exitLeaving {n : Nat} {w : World} {pid : Pid} {p : Task} {start : VirtualAddress} {size : Nat}
      {i : Slot} {m : Machine} (before : Operates config layout policy n w)
      (runs : w.tasks pid = some p) (linked : p.space.link w.machine.ram i ≠ none)
      (outside : ¬ InRange start size i)
      (run : p.space.destroy start size w.machine = .ok ((), m)) :
      Operates config layout policy (n + 1) ⟨m, w.tasks.drop pid⟩
  | request {n : Nat} {w : World} {env : Environment} {c : Request} {m : Machine}
      (before : Operates config layout policy n w) (knows : env.Knows w.tasks)
      (run : c.serve env w.machine = .ok ((), m)) :
      Operates config layout policy n ⟨m, w.tasks⟩

end World

/-! ## Changes at the same distance -/

theorem Frees.even {base : Bases} {s : Space} {slots : List Slot} {c : Change}
    (frees : Frees s slots c) : c.Even base := by
  cases frees <;> trivial

/-- A child is filled from the places of its parent. -/
theorem Creates.even {base : Bases} {live : Finset Space} {parent : Option Space} {child : Space}
    {slots : List Slot} {c : Change} (creates : Creates live parent child slots c)
    (same : ∀ p, parent = some p → base child = base p) : c.Even base := by
  cases creates with
  | create => trivial
  | destroy => trivial
  | free frees => exact frees.even
  | clone source clones =>
    cases clones with
    | share => exact congrArg _ (same _ source)
    | _ => trivial

namespace Environment

variable {env : Environment} {tasks : Tasks} {base : Bases} {config : Config} {s : Space}

theorem Knows.base_eq (knows : env.Knows tasks)
    (bases : ∀ pid p, tasks pid = some p → base p.space = p.base) {pid : Pid} {image : Image}
    (owner : env.addressSpace pid = some s) (runs : env.image pid = some image) :
    base s = image.startCode.value := by
  rw [knows.addressSpace] at owner
  rw [knows.image] at runs
  obtain ⟨p, task, rfl⟩ := Option.map_eq_some_iff.mp owner
  rw [task, Option.bind_some] at runs
  rw [bases pid p task, Task.base, runs]
  rfl

theorem Knows.aligned (knows : env.Knows tasks)
    (aligned : ∀ pid image, tasks.Runs pid image → image.startCode.isAligned .small = true)
    {pid : Pid} {image : Image} (runs : env.image pid = some image) :
    image.startCode.value % 4096 = 0 := by
  rw [knows.image] at runs
  have known := aligned pid image (Option.bind_eq_some_iff.mp runs)
  simpa only [Address.isAligned, PageSize.bytes, beq_iff_eq] using known

/-- A page is shared with one that has the same offset into the image of its process. -/
theorem Serves.even {va : VirtualAddress} {c : Change} (serves : env.Serves config s va c)
    (owner : env.addressSpace env.current = some s) (knows : env.Knows tasks)
    (bases : ∀ pid p, tasks pid = some p → base p.space = p.base)
    (aligned : ∀ pid image, tasks.Runs pid image → image.startCode.isAligned .small = true) :
    c.Even base := by
  cases serves with
  | @shared image executable offset peer e runs backed asked clean =>
    obtain ⟨theirs, shown, named, -, sum⟩ := of_mem_peers asked
    have here := (Image.source?_eq_some_iff.mp backed).1
    have ours := knows.aligned aligned runs
    have others := knows.aligned aligned shown
    have there := Address.add?_eq_some_iff.mp sum
    rw [Change.Even, Address.place_splitSlots, Address.place_splitSlots,
      knows.base_eq bases owner runs, knows.base_eq bases named shown]
    rw [Address.value_alignDown] at here ⊢
    rw [Address.value_alignDown]
    simp only [PageSize.bytes] at here ⊢
    omega
  | _ => trivial

theorem Stores.even {within : VirtualAddress → Prop} {c : Change}
    (stores : env.Stores config within c) (knows : env.Knows tasks)
    (bases : ∀ pid p, tasks pid = some p → base p.space = p.base)
    (aligned : ∀ pid image, tasks.Runs pid image → image.startCode.isAligned .small = true) :
    c.Even base := by
  cases stores with
  | store => trivial
  | access accesses =>
    cases accesses with
    | note => trivial
    | touch => trivial
    | serve owner _ serves => exact serves.even owner knows bases aligned

end Environment

/-! ## Bounded counts -/

namespace View

/-- Entries that map one frame are at one distance from the bases. Somebody else than the
spaces holds one reference to each frame that is `lost`, the reserve aside, and no more than
so many to any frame. -/
structure Limited (base : Bases) (v : View) (o : Owed) (lost : Finset FrameId) : Prop where
  sound : v.Sound o
  level : v.Level base
  reserved : ∀ f, v.layout.reserve f ≤ o f
  owed : ∀ f ∈ lost, v.tracks f = true ∧ v.layout.reserve f = 0 ∧ 0 < o f
  bounded : ∀ f, v.tracks f = true → o f ≤ v.layout.reserve f + lost.card

namespace Limited

variable {base : Bases} {v v' : View} {o o' : Owed} {lost : Finset FrameId} {s : Space}

theorem count_le (limited : v.Limited base o lost) {f : FrameId} (tracked : v.tracks f = true) :
    v.count f ≤ v.layout.reserve f + (v.live.card + lost.card) := by
  have counted := limited.sound.counted f tracked
  have spaces := limited.level.references_le_card limited.sound tracked
  have others := limited.bounded f tracked
  omega

theorem card_le (limited : v.Limited base o lost) :
    v.live.card + lost.card ≤ (v.layout.high.value - v.layout.mainStart.value) / 4096 :=
  limited.sound.card_live_le limited.reserved limited.owed

theorem roomy (limited : v.Limited base o lost) : v.Roomy := by
  intro f tracked
  have most := limited.count_le tracked
  have frames := limited.card_le
  have fits := limited.sound.fits.1.fits
  have low := limited.sound.fits.1.low_le
  have reserve : v.layout.reserve f ≤ reservedCount := by
    unfold Layout.reserve
    split
    · exact Nat.le_refl _
    · exact Nat.zero_le _
  unfold pagingMemory at fits
  unfold reservedCount at reserve
  omega

/-- Changes of which nothing comes into anybody's hands. -/
theorem acts {allowed : Change → Prop} (limited : v.Limited base o lost)
    (acts : Acts allowed v o v' o) (even : ∀ c, allowed c → c.Even base) :
    v'.Limited base o lost where
  sound := acts.sound limited.sound
  level := limited.level.acts acts even limited.sound
  reserved f := acts.setting.1 ▸ limited.reserved f
  owed f h := by
    rw [acts.tracks, acts.setting.1]
    exact limited.owed f h
  bounded f tracked := by
    rw [acts.tracks] at tracked
    rw [acts.setting.1]
    exact limited.bounded f tracked

theorem rebase {base' : Bases} (limited : v.Limited base o lost)
    (same : ∀ s ∈ v.live, base' s = base s ∨ ∀ k, (v.leaf s k).present = false) :
    v.Limited base' o lost :=
  { limited with level := limited.level.rebase same }

/-- What is left behind is part of what the space refers to. -/
private theorem strays_le_uses {slots : List Slot} (f : FrameId) :
    v.strays s slots f ≤ v.uses s f := by
  unfold strays uses
  apply sum_le_sum
  intro c _
  split
  · exact Nat.zero_le _
  · exact Nat.le_refl _

private theorem strays_pos {slots : List Slot} {c : Cell} {f : FrameId}
    (refers : v.refers s c = some f) (outside : ¬ c.Under slots) : 0 < v.strays s slots f := by
  have here : (if c.Under slots then 0 else hits (v.refers s c) f) ≤ v.strays s slots f := by
    unfold strays
    exact single_le_sum (f := fun c => if c.Under slots then 0 else hits (v.refers s c) f)
      (fun _ _ => Nat.zero_le _) (mem_univ c)
  rw [if_neg outside, refers, hits_self] at here
  exact here

/-- A space that is ended leaves at most one reference to a frame behind. If it does not free
all its page tables, one of them is lost. -/
theorem ended {allowed : Change → Prop} {slots : List Slot} {i : Slot} {t : FrameId}
    (limited : v.Limited base o lost) (hs : s ∈ v.live) (linked : v.link s i = some t)
    (outside : i ∉ slots) (acts : Acts allowed v o v' (o + v.strays s slots))
    (even : ∀ c, allowed c → c.Even base) :
    t ∉ lost ∧ v'.Limited base (o + v.strays s slots) (insert t lost) := by
  obtain ⟨tracked, one⟩ := limited.sound.table s hs i t linked
  have unowed : o t = 0 := by
    have more := limited.sound.references_add_owed_pos tracked hs (c := .link i) linked
    omega
  have unreserved : v.layout.reserve t = 0 := Nat.le_zero.mp (unowed ▸ limited.reserved t)
  have fresh : t ∉ lost := fun h => (limited.owed t h).2.2.ne' unowed
  have stray := strays_pos (c := .link i) linked outside
  have few (f : FrameId) (tracked : v.tracks f = true) : v.strays s slots f ≤ 1 :=
    Nat.le_trans (strays_le_uses f) (limited.level.uses_le_one limited.sound tracked hs)
  refine ⟨fresh, acts.sound limited.sound, limited.level.acts acts even limited.sound, ?_, ?_, ?_⟩
  · intro f
    rw [acts.setting.1]
    exact Nat.le_add_right_of_le (limited.reserved f)
  · intro f h
    rw [acts.tracks, acts.setting.1]
    rcases mem_insert.mp h with rfl | h
    · exact ⟨tracked, unreserved, Nat.add_pos_right _ stray⟩
    · obtain ⟨tracked, unreserved, pos⟩ := limited.owed f h
      exact ⟨tracked, unreserved, Nat.add_pos_left pos _⟩
  · intro f tracked
    rw [acts.tracks] at tracked
    rw [acts.setting.1, card_insert_of_notMem fresh, ← Nat.add_assoc]
    exact Nat.add_le_add (limited.bounded f tracked) (few f tracked)

end Limited

end View

/-- The processes own the live spaces, each with its image at its base, and counts are bounded. -/
structure Ordered (l : Layout) (tasks : Tasks) (v : View) (o : Owed) (lost : Finset FrameId) :
    Prop where
  layout : v.layout = l
  live : ∀ s, s ∈ v.live ↔ tasks.Owned s
  apart : tasks.Apart
  aligned : ∀ pid image, tasks.Runs pid image → image.startCode.isAligned .small = true
  limited : ∃ base : Bases, (∀ pid p, tasks pid = some p → base p.space = p.base) ∧
    v.Limited base o lost

namespace Ordered

variable {l : Layout} {tasks tasks' : Tasks} {v v' : View} {o o' : Owed} {lost : Finset FrameId}
  {env : Environment} {allowed : Change → Prop}

theorem sound (ordered : Ordered l tasks v o lost) : v.Sound o := by
  obtain ⟨base, -, limited⟩ := ordered.limited
  exact limited.sound

theorem mem_live (ordered : Ordered l tasks v o lost) {pid : Pid} {p : Task}
    (runs : tasks pid = some p) : p.space ∈ v.live :=
  (ordered.live p.space).mpr ⟨pid, p, runs, rfl⟩

theorem names (ordered : Ordered l tasks v o lost) (knows : env.Knows tasks) :
    env.Names v.live := by
  intro pid s owner
  rw [knows.addressSpace] at owner
  obtain ⟨p, runs, rfl⟩ := Option.map_eq_some_iff.mp owner
  exact ordered.mem_live runs

/-- Changes by which no process comes or goes. -/
theorem lasting (ordered : Ordered l tasks v o lost) (acts : View.Acts allowed v o v' o)
    (even : ∀ base : Bases, (∀ pid p, tasks pid = some p → base p.space = p.base) →
      ∀ c, allowed c → c.Even base) (live : v'.live = v.live) : Ordered l tasks v' o lost where
  layout := acts.setting.1.trans ordered.layout
  live s := live ▸ ordered.live s
  apart := ordered.apart
  aligned := ordered.aligned
  limited := by
    obtain ⟨base, bases, limited⟩ := ordered.limited
    exact ⟨base, bases, limited.acts acts (even base bases)⟩

/-- A new process owns a space that was just made. -/
theorem born (ordered : Ordered l tasks v o lost) {start : VirtualAddress} {slots : List Slot}
    {parent : Option Space} {s : Space} {pid : Pid} {image : Option Image}
    (born : v.Born start slots parent s v') (distinct : slots.Nodup) (unused : tasks pid = none)
    (inherits : ∀ p, parent = some p → ∃ pid' q, tasks pid' = some q ∧ q.space = p ∧ q.image = image)
    (aligned : ∀ i, image = some i → i.startCode.isAligned .small = true) :
    Ordered l (tasks.set pid ⟨s, image⟩) v' o lost := by
  have fresh := born.fresh ordered.sound
  have ok (p : Space) (same : parent = some p) : v.Parent p := by
    obtain ⟨pid', q, runs, rfl, -⟩ := inherits p same
    exact .inl (ordered.mem_live runs)
  have acts := born.acts ordered.sound ok distinct
  have live := born.live ordered.sound ok distinct
  refine ⟨acts.setting.1.trans ordered.layout, ?_, ?_, ?_, ?_⟩
  · intro s'
    rw [live, mem_insert, ordered.live, Tasks.owned_set_iff unused]
  · refine ordered.apart.set fun pid' q runs same => absurd (ordered.mem_live runs) ?_
    rwa [same]
  · intro pid' i runs
    rcases Tasks.runs_set runs with before | shown
    · exact ordered.aligned pid' i before
    · exact aligned i shown
  · obtain ⟨base, bases, limited⟩ := ordered.limited
    have kept {s' : Space} (hs' : s' ∈ v.live) :
        Function.update base s (Task.base ⟨s, image⟩) s' = base s' := by
      apply Function.update_of_ne
      rintro rfl
      exact fresh hs'
    have moved := limited.rebase fun s' hs' => .inl (kept hs')
    refine ⟨_, ?_, moved.acts acts fun c creates => creates.even fun p same => ?_⟩
    · intro pid' q runs
      by_cases here : pid' = pid
      · subst here
        rw [Tasks.set_self] at runs
        cases runs
        exact Function.update_self ..
      · rw [Tasks.set_of_ne here] at runs
        rw [kept (ordered.mem_live runs)]
        exact bases pid' q runs
    · obtain ⟨pid', q, runs, rfl, rfl⟩ := inherits p same
      rw [Function.update_self, kept (ordered.mem_live runs), bases pid' q runs]
      rfl

/-- The base of a space that is being made may be that of its parent. -/
theorem unborn (ordered : Ordered l tasks v o lost) {parent : Option Space} {s : Space}
    (free : v.Free s.root) (owned : ∀ p, parent = some p → tasks.Owned p) :
    ∃ base : Bases, (∀ pid p, tasks pid = some p → base p.space = p.base) ∧
      (∀ p, parent = some p → base s = base p) ∧ v.Limited base o lost := by
  have fresh := ordered.sound.fresh free
  obtain ⟨base, bases, limited⟩ := ordered.limited
  let base' : Bases := Function.update base s ((parent.map base).getD 0)
  have kept {s' : Space} (hs' : s' ∈ v.live) : base' s' = base s' := by
    apply Function.update_of_ne
    rintro rfl
    exact fresh hs'
  refine ⟨base', ?_, ?_, limited.rebase fun s' hs' => .inl (kept hs')⟩
  · intro pid q runs
    rw [kept (ordered.mem_live runs)]
    exact bases pid q runs
  · intro p same
    subst same
    rw [kept ((ordered.live p).mpr (owned p rfl))]
    exact Function.update_self ..

/-- A space was being made and nobody owns it. -/
theorem aborted (ordered : Ordered l tasks v o lost) {parent : Option Space} {s : Space}
    {slots : List Slot} (free : v.Free s.root) (owned : ∀ p, parent = some p → tasks.Owned p)
    (acts : View.Acts (Creates v.live parent s slots) v o v' o) (live : v'.live = v.live) :
    Ordered l tasks v' o lost := by
  refine ⟨acts.setting.1.trans ordered.layout, fun s' => live ▸ ordered.live s', ordered.apart,
    ordered.aligned, ?_⟩
  obtain ⟨base, bases, same, limited⟩ := ordered.unborn free owned
  exact ⟨base, bases, limited.acts acts fun c creates => creates.even same⟩

/-- A process takes up another image while its space maps nothing. -/
theorem become (ordered : Ordered l tasks v o lost) {pid : Pid} {p : Task} {image : Option Image}
    (runs : tasks pid = some p) (blank : ∀ k, (v.leaf p.space k).present = false)
    (aligned : ∀ i, image = some i → i.startCode.isAligned .small = true) :
    Ordered l (tasks.set pid ⟨p.space, image⟩) v o lost := by
  refine ⟨ordered.layout, ?_, ?_, ?_, ?_⟩
  · intro s
    rw [ordered.live, Tasks.owned_set_iff_of_runs runs]
  · exact ordered.apart.set fun pid' q runs' same => ordered.apart pid' q pid p runs' runs same
  · intro pid' i runs'
    rcases Tasks.runs_set runs' with before | shown
    · exact ordered.aligned pid' i before
    · exact aligned i shown
  · obtain ⟨base, bases, limited⟩ := ordered.limited
    let base' : Bases := Function.update base p.space (Task.base ⟨p.space, image⟩)
    have moved : v.Limited base' o lost := by
      apply limited.rebase
      intro s _
      by_cases same : s = p.space
      · exact .inr (same ▸ blank)
      · exact .inl (Function.update_of_ne same ..)
    refine ⟨base', ?_, moved⟩
    intro pid' q runs'
    by_cases here : pid' = pid
    · subst here
      rw [Tasks.set_self] at runs'
      cases runs'
      exact Function.update_self ..
    · rw [Tasks.set_of_ne here] at runs'
      have other : q.space ≠ p.space := fun same => here (ordered.apart pid' q pid p runs' runs same)
      exact (Function.update_of_ne other ..).trans (bases pid' q runs')

/-- A process ends together with its space. -/
theorem ended (ordered : Ordered l tasks v o lost) {pid : Pid} {p : Task} {lost' : Finset FrameId}
    (runs : tasks pid = some p) (setting : v'.layout = v.layout)
    (live : v'.live = v.live.erase p.space)
    (limited : ∀ base, v.Limited base o lost → v'.Limited base o' lost') :
    Ordered l (tasks.drop pid) v' o' lost' := by
  refine ⟨setting.trans ordered.layout, ?_, ordered.apart.drop, ?_, ?_⟩
  · intro s
    rw [live, mem_erase, ordered.live, Tasks.owned_drop_iff ordered.apart runs]
  · intro pid' image runs'
    exact ordered.aligned pid' image (Tasks.runs_of_drop runs')
  · obtain ⟨base, bases, before⟩ := ordered.limited
    exact ⟨base, fun pid' q runs' => bases pid' q (Tasks.eq_of_drop runs').2, limited base before⟩

end Ordered

/-! ## Runs -/

namespace World

variable {layout : Layout} {n : Nat} {w : World} {m : Machine} {start : VirtualAddress}
  {size : Nat} {pid : Pid} {p : Task}

/-- The processes are ordered, with one lost frame for each exit that left page tables behind. -/
def Orderly (layout : Layout) (n : Nat) (w : World) : Prop :=
  ∃ v o lost, Ordered layout w.tasks v o lost ∧ lost.card = n ∧ w.machine.Shows v

namespace Orderly

theorem boot {config : Config} {policy : Policy} (start : Machine.boot config layout policy = .ok m) :
    Orderly layout 0 ⟨m, fun _ => none⟩ := by
  obtain ⟨valid, shows⟩ := Machine.shows_boot start
  refine ⟨_, layout.reserve, ∅, ⟨rfl, ?_, nofun, nofun, fun _ => 0, nofun, ?_⟩, rfl, shows⟩
  · intro s
    exact ⟨fun hs => absurd hs (notMem_empty s), nofun⟩
  · exact ⟨View.sound_initial valid, View.level_initial, fun _ => Nat.le_refl _,
      fun f h => absurd h (notMem_empty f), fun _ _ => Nat.le_refl _⟩

theorem spawn (orderly : Orderly layout n w) {image : Option Image} {s : Space}
    (unused : w.tasks pid = none)
    (aligned : ∀ i, image = some i → i.startCode.isAligned .small = true)
    (run : outcome (Space.createFrom none start size) w.machine = .ok (.ok s, m)) :
    Orderly layout n ⟨m, w.tasks.set pid ⟨s, image⟩⟩ := by
  obtain ⟨v, o, lost, ordered, same, shows⟩ := orderly
  obtain ⟨slots, v', -, distinct, born, shows'⟩ :=
    (shows.createFrom ordered.sound (fun _ h => by cases h) start size).done_of_run run
  exact ⟨v', o, lost, ordered.born born distinct unused (fun _ h => by cases h) aligned, same, shows'⟩

theorem fork (orderly : Orderly layout n w) {child : Pid} {s : Space} (runs : w.tasks pid = some p)
    (unused : w.tasks child = none)
    (run : outcome (Space.createFrom (some p.space) start size) w.machine = .ok (.ok s, m)) :
    Orderly layout n ⟨m, w.tasks.set child ⟨s, p.image⟩⟩ := by
  obtain ⟨v, o, lost, ordered, same, shows⟩ := orderly
  have ok (q : Space) (h : some p.space = some q) : v.Parent q := by
    cases h
    exact .inl (ordered.mem_live runs)
  obtain ⟨slots, v', -, distinct, born, shows'⟩ :=
    (shows.createFrom ordered.sound ok start size).done_of_run run
  refine ⟨v', o, lost, ordered.born born distinct unused ?_ ?_, same, shows'⟩
  · intro q h
    cases h
    exact ⟨pid, p, runs, rfl, rfl⟩
  · intro image shown
    exact ordered.aligned pid image ⟨p, runs, shown⟩

theorem refused (orderly : Orderly layout n w) {parent : Option Space} {cause : MemoryError}
    (owned : ∀ q, parent = some q → w.tasks.Owned q)
    (run : outcome (Space.createFrom parent start size) w.machine = .ok (.error cause, m)) :
    Orderly layout n ⟨m, w.tasks⟩ := by
  obtain ⟨v, o, lost, ordered, same, shows⟩ := orderly
  have ok (q : Space) (h : parent = some q) : v.Parent q := .inl ((ordered.live q).mpr (owned q h))
  obtain ⟨v', live, rfl | ⟨s, slots, free, acts⟩, shows'⟩ :=
    (shows.createFrom ordered.sound ok start size).failed_of_run run
  · exact ⟨_, o, lost, ordered, same, shows'⟩
  · exact ⟨v', o, lost, ordered.aborted free owned acts live, same, shows'⟩

theorem clear (orderly : Orderly layout n w) {s : Space} (owned : w.tasks.Owned s)
    (run : s.clear start size w.machine = .ok ((), m)) : Orderly layout n ⟨m, w.tasks⟩ := by
  obtain ⟨v, o, lost, ordered, same, shows⟩ := orderly
  have hs := (ordered.live s).mpr owned
  obtain ⟨slots, -, shows'⟩ := (shows.clear ordered.sound hs start size).of_run run
  have freed : View.Acts (Frees s slots) v o (v.freed s slots).flushed o :=
    (View.acts_freed hs fun _ h => h).flushed .note
  exact ⟨_, o, lost, ordered.lasting freed (fun _ _ _ h => h.even)
    (freed.live fun _ h => h.lasting), same, shows'⟩

theorem become (orderly : Orderly layout n w) {image : Option Image} (runs : w.tasks pid = some p)
    (blank : ∀ k, (p.space.leaf w.machine.ram k).present = false)
    (aligned : ∀ i, image = some i → i.startCode.isAligned .small = true) :
    Orderly layout n ⟨w.machine, w.tasks.set pid ⟨p.space, image⟩⟩ := by
  obtain ⟨v, o, lost, ordered, same, shows⟩ := orderly
  have unmapped (k : Place) : (v.leaf p.space k).present = false := by
    rw [← shows.leaf p.space (ordered.mem_live runs)]
    exact blank k
  exact ⟨v, o, lost, ordered.become runs unmapped aligned, same, shows⟩

theorem exit (orderly : Orderly layout n w) (runs : w.tasks pid = some p)
    (covered : ∀ i, p.space.link w.machine.ram i ≠ none → InRange start size i)
    (run : p.space.destroy start size w.machine = .ok ((), m)) :
    Orderly layout n ⟨m, w.tasks.drop pid⟩ := by
  obtain ⟨v, o, lost, ordered, same, shows⟩ := orderly
  have hs := ordered.mem_live runs
  obtain ⟨slots, v', range, acts, live, shows'⟩ :=
    (shows.destroy ordered.sound hs start size).of_run run
  have none_left : v.strays p.space slots = 0 := by
    apply shows.strays_eq_zero hs
    intro i linked
    rw [← shows.link p.space hs] at linked
    exact (mem_rangeSlots_iff range).mpr (covered i linked)
  rw [none_left, add_zero] at acts
  refine ⟨v', o, lost, ordered.ended runs acts.setting.1 live fun base before => ?_, same, shows'⟩
  exact before.acts acts fun c h => h.elim Frees.even fun same => same ▸ trivial

/-- An exit that does not free all page tables loses one of them. -/
theorem exitLeaving (orderly : Orderly layout n w) {i : Slot} (runs : w.tasks pid = some p)
    (linked : p.space.link w.machine.ram i ≠ none) (outside : ¬ InRange start size i)
    (run : p.space.destroy start size w.machine = .ok ((), m)) :
    Orderly layout (n + 1) ⟨m, w.tasks.drop pid⟩ := by
  obtain ⟨v, o, lost, ordered, rfl, shows⟩ := orderly
  have hs := ordered.mem_live runs
  obtain ⟨slots, v', range, acts, live, shows'⟩ :=
    (shows.destroy ordered.sound hs start size).of_run run
  rw [shows.link p.space hs] at linked
  obtain ⟨t, linked⟩ := Option.ne_none_iff_exists'.mp linked
  have kept : i ∉ slots := fun inside => outside ((mem_rangeSlots_iff range).mp inside)
  have ended (base : Bases) (before : v.Limited base o lost) :=
    before.ended hs linked kept acts fun c h => h.elim Frees.even fun same => same ▸ trivial
  refine ⟨v', o + v.strays p.space slots, insert t lost,
    ordered.ended runs acts.setting.1 live ?_, ?_, shows'⟩
  · intro base before
    exact (ended base before).2
  · obtain ⟨base, -, before⟩ := ordered.limited
    exact card_insert_of_notMem (ended base before).1

theorem request (orderly : Orderly layout n w) {env : Environment} {c : Request}
    (knows : env.Knows w.tasks) (run : c.serve env w.machine = .ok ((), m)) :
    Orderly layout n ⟨m, w.tasks⟩ := by
  obtain ⟨v, o, lost, ordered, same, shows⟩ := orderly
  obtain ⟨v', leads, shows'⟩ := (shows.request ordered.sound (ordered.names knows) c).of_run run
  have acts := leads.acts o
  refine ⟨v', o, lost, ordered.lasting acts ?_ (acts.live fun _ h => h.lasting), same, shows'⟩
  intro base bases c stores
  exact stores.even knows bases ordered.aligned

end Orderly

/-- Every world of a run is orderly. -/
theorem Operates.orderly {config : Config} {policy : Policy}
    (run : Operates config layout policy n w) : Orderly layout n w := by
  induction run with
  | boot start => exact .boot start
  | spawn _ unused aligned run ih => exact ih.spawn unused aligned run
  | fork _ runs unused run ih => exact ih.fork runs unused run
  | refused _ owned run ih => exact ih.refused owned run
  | clear _ owned run ih => exact ih.clear owned run
  | become _ runs blank aligned ih => exact ih.become runs blank aligned
  | exit _ runs covered run ih => exact ih.exit runs covered run
  | exitLeaving _ runs linked outside run ih => exact ih.exitLeaving runs linked outside run
  | request _ knows run ih => exact ih.request knows run

end World

/-- In every world of a run, a process maps a frame that is handed out in one place at most. The
count of such a frame is at most the number of spaces and of exits that left page tables behind;
together these are no more than the frames that can be handed out. So whatever a process or the
kernel does next, no count overflows. -/
theorem counts_stay_limited {config : Config} {layout : Layout} {policy : Policy} {n : Nat}
    {w : World} (run : World.Operates config layout policy n w) :
    (∀ s f k k', w.tasks.Owned s → w.machine.pool.manages f = true →
      (s.leaf w.machine.ram k).target = some f → (s.leaf w.machine.ram k').target = some f →
        k = k') ∧
    (∃ live : Finset Space, (∀ s, s ∈ live ↔ w.tasks.Owned s) ∧
      (∀ f, layout.mainStart.value ≤ f.base.value → f.base.value < layout.high.value →
        w.machine.pool.count f ≤ live.card + n) ∧
      live.card + n ≤ (layout.high.value - layout.mainStart.value) / 4096 ∧
      (layout.high.value - layout.mainStart.value) / 4096 ≤ 3840) ∧
    ∀ f, (∀ parent start size, (∀ p, parent = some p → w.tasks.Owned p) →
        outcome (Space.createFrom parent start size) w.machine ≠ .error (.countOverflow f)) ∧
      (∀ (s : Space) start size, s.clear start size w.machine ≠ .error (.countOverflow f)) ∧
      (∀ (s : Space) start size, s.destroy start size w.machine ≠ .error (.countOverflow f)) ∧
      ∀ env c, env.Knows w.tasks → Request.serve env c w.machine ≠ .error (.countOverflow f) := by
  obtain ⟨v, o, lost, ordered, rfl, shows⟩ := run.orderly
  obtain ⟨base, bases, limited⟩ := ordered.limited
  obtain rfl := ordered.layout
  have valid := ordered.sound.fits.1
  refine ⟨?_, ⟨v.live, ordered.live, ?_, limited.card_le, ?_⟩, fun f => ⟨?_, ?_, ?_, ?_⟩⟩
  · intro s f k k' owned managed maps maps'
    have hs := (ordered.live s).mpr owned
    rw [shows.leaf s hs] at maps maps'
    exact limited.level.place_unique (shows.manages f ▸ managed) hs maps maps'
  · intro f above below
    have tracked : v.tracks f = true := by
      have := valid.low_le
      rw [View.tracks, Bool.and_eq_true, decide_eq_true_eq, decide_eq_true_eq]
      omega
    have unreserved : v.layout.reserve f = 0 := if_neg fun h => Nat.not_lt.mpr above h.2
    have most := limited.count_le tracked
    rwa [unreserved, Nat.zero_add, ← shows.count f tracked] at most
  · have fits := valid.fits
    have low := valid.low_le
    unfold pagingMemory at fits
    omega
  · intro parent start size owned stop
    have ok (p : Space) (h : parent = some p) : v.Parent p := .inl ((ordered.live p).mpr (owned p h))
    have room (s : Space) (w' : View) (free : v.Free s.root) (acts : View.Acts
        (fun c => ∃ slots, Creates v.live parent s slots c) v o w' o) : w'.Roomy := by
      obtain ⟨base', -, same, limited'⟩ := ordered.unborn free owned
      have even (c : Change) (made : ∃ slots, Creates v.live parent s slots c) :
          c.Even base' := by
        obtain ⟨slots, creates⟩ := made
        exact creates.even same
      exact (limited'.acts acts even).roomy
    exact Ends.of_error (shows.createFrom_uncounted ordered.sound ok start size room) stop f rfl
  · intro s start size stop
    exact (Modest.clear s start size w.machine).of_error stop f rfl
  · intro s start size stop
    exact (Modest.destroy s start size w.machine).of_error stop f rfl
  · intro env c knows stop
    have room (w' : View) (acts : View.Acts (env.Stores v.config fun _ => True) v o w' o) :
        w'.Roomy :=
      (limited.acts acts fun c stores => stores.even knows bases ordered.aligned).roomy
    exact (shows.request_uncounted ordered.sound (ordered.names knows) room c).of_error stop f rfl

section Tiny

/-- The second process has shared the page that the first one loaded. -/
def tinyShared : World :=
  ⟨tinyPair.machine.after (tinyFault tinyPair.tasks 2), tinyPair.tasks⟩

theorem Tasks.knows_environment (tasks : Tasks) (d : Disk) (current : Pid) (others : List Pid) :
    (tasks.environment d current others).Knows tasks :=
  ⟨fun _ => rfl, fun _ => rfl⟩

theorem operates_tinyShared : World.Operates .standard .tiny .lowest 0 tinyShared := by
  have aligned (i : Image) (same : some tinyImage = some i) :
      i.startCode.isAligned .small = true := by
    cases same
    rfl
  have alone : World.Operates .standard .tiny .lowest 0 tinyAlone :=
    .spawn (.boot Machine.boot_tiny) rfl aligned (Machine.run_of_product (by decide +kernel))
  have fault : outcome (tinyFault tinyAlone.tasks 1) tinyAlone.machine = .ok (.ok .loaded, _) :=
    Machine.run_of_product (by decide +kernel)
  have loaded : World.Operates .standard .tiny .lowest 0 ⟨_, tinyAlone.tasks⟩ :=
    .request (c := .fault .notPresent tinyImage.startCode) alone
      (Tasks.knows_environment _ tinyDisk 1 [1, 2]) (discard_run fault)
  have pair : World.Operates .standard .tiny .lowest 0 tinyPair :=
    .spawn (w := ⟨tinyAlone.machine.after (tinyFault tinyAlone.tasks 1), tinyAlone.tasks⟩) loaded
      rfl aligned (Machine.run_of_product (by decide +kernel))
  have shared : outcome (tinyFault tinyPair.tasks 2) tinyPair.machine = .ok (.ok .shared, _) :=
    Machine.run_of_product (by decide +kernel)
  exact .request (c := .fault .notPresent tinyImage.startCode) pair
    (Tasks.knows_environment _ tinyDisk 2 [1, 2]) (discard_run shared)

end Tiny

/-- Two processes map one frame, whose count is the number of spaces. -/
theorem counts_stay_limited_tiny :
    World.Operates .standard .tiny .lowest 0 tinyShared ∧
    tinyShared.machine.pool.count ⟨3, by decide⟩ = 2 ∧
    (∃ live : Finset Space, (∀ s, s ∈ live ↔ tinyShared.tasks.Owned s) ∧ 2 ≤ live.card + 0) ∧
    ∀ f, outcome (Space.createFrom none .zero 0) tinyShared.machine ≠ .error (.countOverflow f) := by
  have two : tinyShared.machine.pool.count ⟨3, by decide⟩ = 2 := by decide +kernel
  obtain ⟨-, ⟨live, owned, counts, -⟩, never⟩ := counts_stay_limited operates_tinyShared
  refine ⟨operates_tinyShared, two, ⟨live, owned, ?_⟩, fun f => (never f).1 none .zero 0 nofun⟩
  rw [← two]
  exact counts ⟨3, by decide⟩ (by decide) (by decide)

section Tiny

/-- The process that touches its memory at address zero. -/
def strayTask : Task :=
  ⟨tinySpace, some ⟨none, strayStart, 0, 0, 0⟩⟩

def strayTasks : Tasks :=
  Tasks.set (fun _ => none) 1 strayTask

theorem strayTasks_apply (pid : Pid) : strayTasks pid = if pid = 1 then some strayTask else none := by
  split
  · next here =>
    rw [here]
    exact Tasks.set_self
  · next other => exact Tasks.set_of_ne other

theorem knows_strayUser : strayUser.Knows strayTasks := by
  constructor
  · intro pid
    rw [strayTasks_apply]
    show (if pid = 1 then some tinySpace else none) = _
    split <;> rfl
  · intro pid
    rw [strayTasks_apply]
    show (if pid = 1 then strayTask.image else none) = _
    split <;> rfl

theorem operates_strayGone :
    World.Operates .standard .tiny .lowest 1 ⟨strayGone, fun _ => none⟩ := by
  have born : World.Operates .standard .tiny .lowest 0 ⟨strayBorn, strayTasks⟩ := by
    refine .spawn (.boot Machine.boot_tiny) rfl ?_ (Machine.run_of_product (by decide +kernel))
    intro image same
    cases same
    rfl
  have touched : World.Operates .standard .tiny .lowest 0 ⟨strayTouched, strayTasks⟩ :=
    .request born knows_strayUser (Machine.run_of_lift (by decide +kernel))
  have linked : strayTask.space.link strayTouched.ram 0 ≠ none := by decide +kernel
  have gone : strayTask.space.destroy strayStart taskSize strayTouched = .ok ((), strayGone) :=
    Machine.run_of_lift (by decide +kernel)
  have runs : strayTasks 1 = some strayTask := Tasks.set_self
  have exited : World.Operates .standard .tiny .lowest 1 ⟨strayGone, strayTasks.drop 1⟩ :=
    .exitLeaving touched runs linked (by decide) gone
  have nobody : strayTasks.drop 1 = fun _ => none := by
    funext pid
    by_cases here : pid = 1
    · rw [here, Tasks.drop_self]
    · rw [Tasks.drop_of_ne here, strayTasks_apply, if_neg here]
  rwa [nobody] at exited

end Tiny

/-- The count of a frame may exceed the number of spaces after an exit. -/
theorem counts_can_outnumber_spaces :
    ¬ ∀ (config : Config) (layout : Layout) (policy : Policy) (n : Nat) (w : World)
      (live : Finset Space) (f : FrameId), World.Operates config layout policy n w →
        (∀ s, s ∈ live ↔ w.tasks.Owned s) → layout.mainStart.value ≤ f.base.value →
          f.base.value < layout.high.value → w.machine.pool.count f ≤ live.card := by
  intro always
  have nobody (s : Space) : s ∈ (∅ : Finset Space) ↔ Tasks.Owned (fun _ => none) s :=
    ⟨fun hs => absurd hs (notMem_empty s), nofun⟩
  have none_left := always _ _ _ _ _ ∅ ⟨3, by decide⟩ operates_strayGone nobody (by decide)
    (by decide)
  have one : strayGone.pool.count ⟨3, by decide⟩ = 1 := by decide +kernel
  rw [one, card_empty] at none_left
  exact Nat.not_succ_le_zero 0 none_left

end PagedMemory
