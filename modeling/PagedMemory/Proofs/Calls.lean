import PagedMemory.Proofs.Flushing
import PagedMemory.Proofs.Holding
import PagedMemory.Proofs.Start
import PagedMemory.Proofs.UserMemory

/-!
# Runs of the memory manager

The users of the memory manager make one call after the other, in any order and with any
outcome. They keep books of which spaces are live and which pages they hold. What they
must observe at the least is stated by `Call.Named`. An allowed call maps onto unmapped pages
in addition (`Call.Allowed`), and one that is thorough as well loses no reference
(`Call.Thorough`).

`Kept` ties a machine and the books of its users to a sound view. Every call preserves it
(`Call.kept`), so it holds after every run (`Reaches.kept`). A call that takes away what
the processor may have looked up also empties the cache.
-/

namespace PagedMemory

/-- What the users of the memory manager know: the live spaces and the pages in hand. -/
structure Books where
  live : Finset Space
  held : Finset FrameId

/-- A call of the memory manager. -/
inductive Call
  | initKernel
  | create (parent : Option Space) (start : VirtualAddress) (size : Nat)
  | clear (s : Space) (start : VirtualAddress) (size : Nat)
  | destroy (s : Space) (start : VirtualAddress) (size : Nat)
  | allocPage
  | freePage (page : FrameId)
  | install (s : Space) (start : VirtualAddress) (pages : List (Option FrameId))
  | mapEmpty (s : Space) (va : VirtualAddress)
  | share (source : Space) (address : VirtualAddress) (target : Space) (goal : VirtualAddress)
  | fault (env : Environment) (kind : FaultKind) (va : VirtualAddress)
  | verify (env : Environment) (address : VirtualAddress) (size : Nat)
  | copyOut (env : Environment) (address : VirtualAddress) (bytes : List UInt8)
  | copyIn (env : Environment) (address : VirtualAddress) (length : Nat)

/-- The space is live, or it is that of the kernel and the first two frames are left to it. -/
def Books.Knows (b : Books) (m : Machine) (s : Space) : Prop :=
  s ∈ b.live ∨ s = Space.kernel ∧ 8192 ≤ m.pool.layout.low.value

namespace Call

/-- Runs the call, whether it succeeds or fails, and keeps the books. -/
def serve (c : Call) (b : Books) : Kernel Books :=
  match c with
  | .initKernel => do
    discard Space.initKernel
    return b
  | .create parent start size => do
    match ← outcome (Space.createFrom parent start size) with
    | .ok s => return { b with live := insert s b.live }
    | .error _ => return b
  | .clear s start size => do
    s.clear start size
    return b
  | .destroy s start size => do
    s.destroy start size
    return { b with live := b.live.erase s }
  | .allocPage => do
    match ← outcome PagedMemory.allocPage with
    | .ok page => return { b with held := insert page b.held }
    | .error _ => return b
  | .freePage page => do
    release page
    return { b with held := b.held.erase page }
  | .install s start pages => do
    discard (outcome (s.installArguments start pages))
    return { b with held := b.held \ (pages.filterMap id).toFinset }
  | .mapEmpty s va => do
    discard (outcome (mapEmptyPage s va))
    return b
  | .share source address target goal => do
    discard (outcome (tryToShare source address target goal))
    return b
  | .fault env kind va => do
    discard (outcome (handleFault env kind va))
    return b
  | .verify env address size => do
    discard (outcome (verifyArea env address size))
    return b
  | .copyOut env address bytes => do
    discard (outcome (copyToUser env address bytes))
    return b
  | .copyIn env address length => do
    discard (outcome (copyFromUser env address length))
    return b

/-- The call names live spaces and pages in hand only and leaves the first two frames to the
kernel if there is one. -/
def Named (m : Machine) (b : Books) : Call → Prop
  | .initKernel => 8192 ≤ m.pool.layout.low.value
  | .create parent _ _ => ∀ p, parent = some p → b.Knows m p
  | .clear s _ _ => s ∈ b.live
  | .destroy s _ _ => s ∈ b.live
  | .allocPage => True
  | .freePage page => page ∈ b.held
  | .install s _ pages => s ∈ b.live ∧ (pages.filterMap id).Nodup ∧
      ∀ page ∈ pages.filterMap id, page ∈ b.held
  | .mapEmpty s _ => s ∈ b.live
  | .share source _ target _ => source ∈ b.live ∧ target ∈ b.live
  | .fault env _ _ => env.Names b.live
  | .verify env _ _ => env.Names b.live
  | .copyOut env _ _ => env.Names b.live
  | .copyIn env _ _ => env.Names b.live

/-- The call maps onto pages that are not mapped. Argument pages may replace others. -/
def OntoUnmapped (m : Machine) : Call → Prop
  | .mapEmpty s va => ¬ s.Maps m.ram va
  | .share _ _ target goal => ¬ target.Maps m.ram goal
  | _ => True

/-- The call names live spaces and pages in hand only, maps onto pages that are not mapped
and leaves the first two frames to the kernel if there is one. -/
def Allowed (m : Machine) (b : Books) (c : Call) : Prop :=
  c.Named m b ∧ c.OntoUnmapped m

/-- No reference is lost: a space is destroyed over a range that covers whatever it links,
and argument pages replace no others. -/
def Thorough (m : Machine) : Call → Prop
  | .destroy s start size => ∀ i, s.link m.ram i ≠ none → InRange start size i
  | .install s start pages => ∀ i page va, pages[i]? = some (some page) →
      Space.ArgumentAt start i va → ¬ s.Maps m.ram va
  | _ => True

end Call

/-- The machines and books that allowed calls lead to from the start. -/
inductive Reaches (allowed : Machine → Books → Call → Prop) (config : Config) (layout : Layout)
    (policy : Policy) : Machine → Books → Prop
  | boot {m : Machine} (start : Machine.boot config layout policy = .ok m) :
      Reaches allowed config layout policy m ⟨∅, ∅⟩
  | call {m m' : Machine} {b b' : Books} {c : Call}
      (before : Reaches allowed config layout policy m b) (ok : allowed m b c)
      (run : c.serve b m = .ok (b', m')) : Reaches allowed config layout policy m' b'

/-- Where a call leads to, unless it stops the kernel. -/
def Call.after (c : Call) (r : Books × Machine) : Books × Machine :=
  match c.serve r.1 r.2 with
  | .ok r' => r'
  | .error _ => r

theorem Call.run_of_toBool {c : Call} {r : Books × Machine}
    (runs : (c.serve r.1 r.2).toBool = true) : c.serve r.1 r.2 = .ok (c.after r) := by
  unfold after
  cases run : c.serve r.1 r.2 with
  | ok r' => rfl
  | error cause =>
    rw [run] at runs
    cases runs

theorem Call.after_create {b : Books} {m m' : Machine} {s : Space}
    (made : outcome Space.create m = .ok (.ok s, m')) (start : VirtualAddress) (size : Nat) :
    (Call.create none start size).after (b, m) = ({ b with live := insert s b.live }, m') := by
  have born : outcome (Space.createFrom none start size) m = .ok (.ok s, m') := by
    unfold Space.createFrom
    exact outcome_bind_of_run made
  have run : (Call.create none start size).serve b m =
      .ok ({ b with live := insert s b.live }, m') := bind_of_run born
  unfold after
  rw [run]

theorem Reaches.next {allowed : Machine → Books → Call → Prop} {config : Config} {layout : Layout}
    {policy : Policy} {r : Books × Machine} {c : Call}
    (before : Reaches allowed config layout policy r.2 r.1) (ok : allowed r.2 r.1 c)
    (runs : (c.serve r.1 r.2).toBool = true) :
    Reaches allowed config layout policy (c.after r).2 (c.after r).1 :=
  .call before ok (c.run_of_toBool runs)

theorem Reaches.mono {allowed allowed' : Machine → Books → Call → Prop} {config : Config}
    {layout : Layout} {policy : Policy} {m : Machine} {b : Books}
    (reach : Reaches allowed config layout policy m b)
    (imp : ∀ m b c, allowed m b c → allowed' m b c) : Reaches allowed' config layout policy m b := by
  induction reach with
  | boot start => exact .boot start
  | call before ok run ih => exact .call ih (imp _ _ _ ok) run

/-! ## What is owed -/

/-- The references to pages in hand. -/
def inHand (held : Finset FrameId) : Owed :=
  fun f => if f ∈ held then 1 else 0

theorem inHand_empty : inHand ∅ = 0 := by
  funext f
  exact if_neg (Finset.notMem_empty f)

theorem inHand_insert {held : Finset FrameId} {f : FrameId} (fresh : f ∉ held) :
    inHand (insert f held) = inHand held + hits (some f) := by
  funext g
  by_cases same : g = f
  · subst same
    simp [inHand, fresh, hits_self]
  · simp [inHand, same, hits_of_ne (f := g) fun h => same (Option.some.inj h).symm]

theorem inHand_erase {held : Finset FrameId} {f : FrameId} (h : f ∈ held) :
    inHand held = inHand (held.erase f) + hits (some f) := by
  rw [← inHand_insert (Finset.notMem_erase f held), Finset.insert_erase h]

theorem inHand_sdiff {held : Finset FrameId} {pages : List FrameId} (distinct : pages.Nodup)
    (among : ∀ f ∈ pages, f ∈ held) :
    inHand held = inHand (held \ pages.toFinset) + tally pages := by
  funext f
  simp only [inHand, tally, Pi.add_apply, Finset.mem_sdiff, List.mem_toFinset, distinct.count]
  by_cases given : f ∈ pages
  · simp [given, among f given]
  · simp [given]

/-- What is owed beside the tables, as far as the books know. -/
def Books.owed (b : Books) (l : Layout) : Owed :=
  l.reserve + inHand b.held

theorem Books.owed_pos {b : Books} {f : FrameId} (h : f ∈ b.held) (l : Layout) (lost : Owed) :
    0 < (b.owed l + lost) f := by
  have : inHand b.held f = 1 := if_pos h
  rw [Pi.add_apply, Books.owed, Pi.add_apply]
  omega

/-! ## The invariant -/

/-- The machine shows a sound view in which dirty bits agree. What is owed is what the books
know of and what was lost. -/
structure Kept (l : Layout) (m : Machine) (b : Books) (v : View) (lost : Owed) : Prop where
  shows : m.Shows v
  layout : v.layout = l
  live : v.live = b.live
  sound : v.Sound (b.owed l + lost)
  agree : v.Agree
  quiet : 8192 ≤ l.low.value → v.Quiet Space.kernel
  held : ∀ f ∈ b.held, v.tracks f = true ∧ v.count f = 1

/-- The books are in order after a call, and nothing more is lost if it was thorough. What
could be looked up before can be looked up still, unless the cache was emptied. -/
def KeptAfter (l : Layout) (v : View) (lost : Owed) (thorough : Prop) (b : Books) (m : Machine) :
    Prop :=
  ∃ v' lost', Kept l m b v' lost' ∧ v.Upholds v' ∧ (thorough → lost' = lost)

namespace Kept

variable {l : Layout} {m m' : Machine} {b b' : Books} {v v' : View} {lost lost' : Owed}
  {env : Environment} {thorough : Prop}

theorem holds (kept : Kept l m b v lost) {pages : List FrameId} (distinct : pages.Nodup)
    (among : ∀ f ∈ pages, f ∈ b.held) : v.Holds pages :=
  ⟨distinct, fun f h => (kept.held f (among f h)).1, fun f h => (kept.held f (among f h)).2⟩

/-- Any sequence of changes that leaves the pages still in hand alone. -/
theorem acts {allowed : Change → Prop} (kept : Kept l m b v lost)
    (acts : View.Acts allowed v (b.owed l + lost) v' (b'.owed l + lost')) (shows : m'.Shows v')
    (live : v'.live = b'.live) (held : ∀ f ∈ b'.held, f ∈ b.held ∧
      ∀ c, allowed c → c ≠ .yield f ∧ ∀ s k, c ≠ .install s k f) :
    Kept l m' b' v' lost' where
  shows := shows
  layout := acts.setting.1.trans kept.layout
  live := live
  sound := acts.sound kept.sound
  agree := acts.agree kept.sound kept.agree
  quiet room := (kept.quiet room).acts acts kept.sound
  held f h := by
    obtain ⟨before, spared⟩ := held f h
    obtain ⟨tracked, one⟩ := kept.held f before
    exact ⟨(acts.tracks f).trans tracked,
      (acts.held kept.sound tracked (Books.owed_pos before l lost) one spared).2⟩

/-- A sequence of changes that leaves all pages in hand alone. -/
theorem sparing {allowed : Change → Prop} (kept : Kept l m b v lost)
    (acts : View.Acts allowed v (b.owed l + lost) v' (b.owed l + lost'))
    (spared : ∀ c, allowed c → c.Sparing) (shows : m'.Shows v') {live : Finset Space}
    (same : v'.live = live) : Kept l m' ⟨live, b.held⟩ v' lost' := by
  have acts : View.Acts allowed v (b.owed l + lost) v'
    (Books.owed ⟨live, b.held⟩ l + lost') := acts
  refine kept.acts acts shows same fun f h => ⟨h, fun c ok => ⟨?_, ?_⟩⟩
  · rintro rfl
    exact spared _ ok
  · rintro s k rfl
    exact spared _ ok

/-- A sequence of changes by which no space comes or goes either. -/
theorem lasting {allowed : Change → Prop} (kept : Kept l m b v lost) (leads : v.Leads allowed v')
    (spared : ∀ c, allowed c → c.Sparing)
    (lasts : ∀ c, allowed c → ∀ s, c ≠ .create s ∧ c ≠ .destroy s) (shows : m'.Shows v') :
    KeptAfter l v lost thorough b m' :=
  ⟨v', lost, kept.sparing (leads.acts _) spared shows
    (((leads.acts (b.owed l + lost)).live lasts).trans kept.live), leads.upholds, fun _ => rfl⟩

/-- Nothing can be looked up after the cache has been emptied. -/
theorem upholds (kept : Kept l m b v lost) (shows : m'.Shows v') (more : m.flushes < m'.flushes) :
    v.Upholds v' := by
  rw [kept.shows.flushes, shows.flushes] at more
  exact .inl more

/-! ## Calls -/

/-- A call that only the machine is changed by. -/
theorem served {α : Type} {op : Kernel α} {stops : Halt → Prop}
    (h : Ends op m stops fun _ m' => KeptAfter l v lost thorough b m') :
    Ends (do discard op; return b) m (fun _ => True) (KeptAfter l v lost thorough) :=
  ((Ends.discard h).mono_stops fun _ _ => trivial).bind fun _ _ kept => Ends.pure kept

/-- An attempt that only the machine is changed by. -/
theorem tried {α : Type} {op : Attempt α} {stops : Halt → Prop}
    (h : Tries op m stops (fun _ m' => KeptAfter l v lost thorough b m')
      (fun _ m' => KeptAfter l v lost thorough b m')) :
    Ends (do discard (outcome op); return b) m (fun _ => True) (KeptAfter l v lost thorough) := by
  refine served (Ends.mono h ?_)
  rintro (cause | a) m' kept
  · exact kept
  · exact kept

private theorem unchanged (kept : Kept l m b v lost) (shows : m'.Shows v) :
    KeptAfter l v lost thorough b m' :=
  ⟨v, lost, { kept with shows := shows }, .refl v, fun _ => rfl⟩

theorem initKernel (kept : Kept l m b v lost) (room : 8192 ≤ l.low.value) :
    Ends Space.initKernel m Exhausts fun _ m' => KeptAfter l v lost thorough b m' := by
  refine (kept.shows.initKernel kept.sound (kept.layout.symm ▸ room)).mono ?_
  rintro _ m₁ ⟨-, bytes, same, quiet, shows⟩
  have upholds : v.Upholds (v.stored bytes).flushed := .of_flushed (Nat.le_refl _)
  exact ⟨_, lost, { kept with
    shows := shows
    sound := (kept.sound.stored bytes).flushed
    agree := kept.agree
    quiet := fun _ => quiet }, upholds, fun _ => rfl⟩

theorem create (kept : Kept l m b v lost) {parent : Option Space}
    (ok : ∀ p, parent = some p → v.Parent p) (start : VirtualAddress) (size : Nat) :
    Ends ((Call.create parent start size).serve b) m (fun _ => True)
      (KeptAfter l v lost thorough) := by
  refine Ends.bind ((kept.shows.createFrom kept.sound ok start size).and
    (Space.flushes_createFrom parent start size m) |>.mono_stops fun _ _ => trivial) ?_
  rintro (cause | s) m₁ ⟨post, spent⟩
  · rcases spent with rfl | more
    · exact Ends.pure (kept.unchanged kept.shows)
    · obtain ⟨v', live, rfl | ⟨s, slots, free, acts⟩, shows⟩ := post
      · exact Ends.pure (kept.unchanged shows)
      · exact Ends.pure ⟨v', lost, kept.sparing acts (fun _ h => h.sparing) shows
          (live.trans kept.live), kept.upholds shows more, fun _ => rfl⟩
  · obtain ⟨slots, v', -, distinct, born, shows⟩ := post
    have live := born.live kept.sound ok distinct
    have upholds : v.Upholds v' := by
      cases born with
      | empty free => exact .inr (.founded (kept.sound.fresh free) free)
      | clone => exact kept.upholds shows (Nat.lt_of_lt_of_eq (Nat.lt_succ_self _) spent.symm)
    exact Ends.pure ⟨v', lost, kept.sparing (born.acts kept.sound ok distinct)
      (fun _ h => h.sparing) shows (by rw [live, kept.live]), upholds, fun _ => rfl⟩

theorem clear (kept : Kept l m b v lost) {s : Space} (hs : s ∈ b.live) (start : VirtualAddress)
    (size : Nat) :
    Ends (s.clear start size) m (fun _ => True) fun _ m' => KeptAfter l v lost thorough b m' := by
  rw [← kept.live] at hs
  refine ((kept.shows.clear kept.sound hs start size).and (s.flushes_clear start size m)
    |>.mono_stops fun _ _ => trivial).mono ?_
  rintro _ m₁ ⟨⟨slots, -, shows⟩, once⟩
  refine kept.lasting ⟨fun o => (View.acts_freed hs fun _ h => h).flushed .note, ?_⟩
    (fun _ h => h.sparing) (fun _ h => h.lasting) shows
  exact kept.upholds shows (Nat.lt_of_lt_of_eq (Nat.lt_succ_self _) once.symm)

theorem destroy (kept : Kept l m b v lost) {s : Space} (hs : s ∈ b.live) (start : VirtualAddress)
    (size : Nat) :
    Ends (s.destroy start size) m (fun _ => True) fun _ m' => KeptAfter l v lost
      (∀ i, s.link m.ram i ≠ none → InRange start size i) ⟨b.live.erase s, b.held⟩ m' := by
  rw [← kept.live] at hs
  refine ((kept.shows.destroy kept.sound hs start size).and (s.flushes_destroy start size m)
    |>.mono_stops fun _ _ => trivial).mono ?_
  rintro _ m₁ ⟨⟨slots, v', range, acts, live, shows⟩, once⟩
  rw [add_assoc] at acts
  refine ⟨v', lost + v.strays s slots, kept.sparing acts ?_ shows (live.trans (by rw [kept.live])),
    kept.upholds shows (Nat.lt_of_lt_of_eq (Nat.lt_succ_self _) once.symm), fun covers => ?_⟩
  · rintro c (frees | rfl)
    · exact frees.sparing
    · trivial
  · rw [kept.shows.strays_eq_zero hs, add_zero]
    refine fun i linked => (mem_rangeSlots_iff range).mpr (covers i ?_)
    rwa [kept.shows.link s hs]

theorem allocPage (kept : Kept l m b v lost) :
    Ends (Call.allocPage.serve b) m (fun _ => True) (KeptAfter l v lost thorough) := by
  refine Ends.bind ((kept.shows.allocPage kept.sound).mono_stops fun _ _ => trivial) ?_
  rintro (cause | f) m₁ post
  · exact Ends.pure (kept.unchanged post.2.2)
  · obtain ⟨free, shows⟩ := post
    have fresh : f ∉ b.held := fun h =>
      Nat.one_ne_zero ((kept.held f h).2.symm.trans free.2)
    have act : View.Act v (b.owed l + lost) (.hold f) (v.grant f Frame.zero)
        (b.owed l + lost + hits (some f)) := .hold free
    have acts : View.Acts (fun _ => True) v (b.owed l + lost) (v.grant f Frame.zero)
        (b.owed l + lost + hits (some f)) := .single trivial act
    refine Ends.pure ⟨_, lost, {
      shows := shows, layout := kept.layout, live := kept.live, sound := ?_,
      agree := act.agree kept.sound kept.agree
      quiet := fun room => (kept.quiet room).acts acts kept.sound
      held := ?_ }, act.upholds kept.sound trivial, fun _ => rfl⟩
    · have after := act.sound kept.sound
      rwa [Books.owed, inHand_insert fresh, ← add_assoc, add_right_comm]
    · intro g h
      rcases Finset.mem_insert.mp h with rfl | h
      · exact ⟨free.1, if_pos rfl⟩
      · obtain ⟨tracked, one⟩ := kept.held g h
        exact ⟨tracked, (act.held kept.sound tracked (Books.owed_pos h l lost) one
          ⟨nofun, nofun⟩).2⟩

theorem freePage (kept : Kept l m b v lost) {f : FrameId} (h : f ∈ b.held) :
    Ends (release f) m Exhausts fun _ m' =>
      KeptAfter l v lost thorough ⟨b.live, b.held.erase f⟩ m' := by
  refine (kept.shows.freePage kept.sound (kept.held f h).1 (Books.owed_pos h l lost)).mono ?_
  rintro _ m₁ shows
  have acts : View.Acts (· = .yield f) v (b.owed l + lost) (v.release f)
      (Books.owed ⟨b.live, b.held.erase f⟩ l + lost) := by
    refine .single rfl (.yield ?_)
    rw [Books.owed, inHand_erase h, ← add_assoc, add_right_comm]
    rfl
  refine ⟨_, lost, kept.acts acts shows kept.live fun g hg => ?_,
    acts.upholds kept.sound fun _ h => h ▸ trivial, fun _ => rfl⟩
  refine ⟨Finset.mem_of_mem_erase hg, ?_⟩
  rintro c rfl
  refine ⟨fun same => Finset.ne_of_mem_erase hg ?_, nofun⟩
  cases same
  rfl

theorem install (kept : Kept l m b v lost) {s : Space} (hs : s ∈ b.live) (start : VirtualAddress)
    {pages : List (Option FrameId)} (distinct : (pages.filterMap id).Nodup)
    (among : ∀ f ∈ pages.filterMap id, f ∈ b.held) :
    Tries (s.installArguments start pages) m (fun _ => True)
      (fun _ m' => KeptAfter l v lost (∀ i page va, pages[i]? = some (some page) →
        Space.ArgumentAt start i va → ¬ s.Maps m.ram va)
        ⟨b.live, b.held \ (pages.filterMap id).toFinset⟩ m')
      (fun _ m' => KeptAfter l v lost (∀ i page va, pages[i]? = some (some page) →
        Space.ArgumentAt start i va → ¬ s.Maps m.ram va)
        ⟨b.live, b.held \ (pages.filterMap id).toFinset⟩ m') := by
  rw [← kept.live] at hs
  let left : Books := ⟨b.live, b.held \ (pages.filterMap id).toFinset⟩
  have owed : b.owed l + lost = left.owed l + lost + tally (pages.filterMap id) := by
    rw [Books.owed, inHand_sdiff distinct among, ← add_assoc, add_right_comm]
    rfl
  have after {m' : Machine} (done : Machine.Shows.Installed v (left.owed l + lost) s start pages
      pages.length m') : KeptAfter l v lost (∀ i page va, pages[i]? = some (some page) →
        Space.ArgumentAt start i va → ¬ s.Maps m.ram va) left m' := by
    obtain ⟨v', more, acts, none_lost, shows⟩ := done
    rw [numbered, List.take_length, ← owed, add_assoc] at acts
    refine ⟨v', lost + more, kept.acts acts shows ?_ fun f h => ?_,
      acts.upholds kept.sound fun _ h => h.gentle, fun vacant => ?_⟩
    · exact (acts.live fun _ h => h.lasting).trans kept.live
    · obtain ⟨before, spared⟩ := Finset.mem_sdiff.mp h
      rw [List.mem_toFinset] at spared
      refine ⟨before, fun c ok => ⟨?_, ?_⟩⟩
      · rintro rfl
        cases ok with
        | yield given => exact spared given
      · rintro s' k rfl
        cases ok with
        | install given => exact spared given
    · rw [none_lost, add_zero]
      intro i page va _ found place
      have unmapped := vacant i page va found place
      rwa [Space.Maps, kept.shows.leaf s hs, Bool.not_eq_true] at unmapped
  exact (kept.shows.installArguments hs (owed ▸ kept.sound) (kept.holds distinct among)).mono
    (fun _ _ => after) fun _ _ => after

theorem mapEmpty (kept : Kept l m b v lost) {s : Space} (hs : s ∈ b.live) (va : VirtualAddress) :
    Tries (mapEmptyPage s va) m Exhausts
      (fun _ m' => KeptAfter l v lost (¬ s.Maps m.ram va) b m')
      (fun _ m' => KeptAfter l v lost (¬ s.Maps m.ram va) b m') := by
  rw [← kept.live] at hs
  refine (kept.shows.mapEmptyPage kept.sound hs va).mono ?_ fun _ _ h => kept.unchanged h.2
  rintro _ m₁ ⟨f, bytes, t, w, -, covers, free, shows⟩
  -- The page passes through the hands of the kernel.
  have made : View.Acts (fun c => c = .link s va.directorySlot ∨ c = .hold f) v (b.owed l + lost)
      (w.grant f bytes) (b.owed l + lost + hits (some f)) :=
    .tail (covers.acts hs (.inl rfl)) (.inr rfl) (.hold free)
  have acts : View.Acts (fun c => (c = .link s va.directorySlot ∨ c = .hold f) ∨
      c = .install s va.splitSlots f) v (b.owed l + lost)
      ((w.grant f bytes).remap s va.splitSlots (.make f .userWritable))
      (b.owed l + (lost + hits (v.leaf s va.splitSlots).target)) := by
    rw [← add_assoc, ← covers.leaf]
    exact .tail (made.mono fun _ => .inl) (.inr rfl)
      (.install (covers.live ▸ hs : s ∈ w.live) free.1 (if_pos rfl) rfl)
  have fresh (g : FrameId) (h : g ∈ b.held) : g ≠ f := by
    rintro rfl
    obtain ⟨tracked, one⟩ := kept.held g h
    have used : ¬ v.Free g := fun free => Nat.one_ne_zero (one.symm.trans free.2)
    have same := (covers.of_not_free used).1
    exact Nat.one_ne_zero ((same.trans one).symm.trans free.2)
  refine ⟨_, _, kept.acts acts shows ((acts.live ?_).trans kept.live) fun g h => ⟨h, ?_⟩,
    acts.upholds kept.sound ?_, fun unmapped => ?_⟩
  · rintro c ((rfl | rfl) | rfl) s' <;> exact ⟨nofun, nofun⟩
  · rintro c ((rfl | rfl) | rfl)
    · exact ⟨nofun, nofun⟩
    · exact ⟨nofun, nofun⟩
    · refine ⟨nofun, fun s' k same => fresh g h ?_⟩
      cases same
      rfl
  · rintro c ((rfl | rfl) | rfl) <;> trivial
  · rw [Space.Maps, kept.shows.leaf s hs, Bool.not_eq_true] at unmapped
    rw [Entry.target_eq_none_iff.mpr unmapped, hits_none, add_zero]

theorem share (kept : Kept l m b v lost) {source target : Space} (hs : source ∈ b.live)
    (ht : target ∈ b.live) (address goal : VirtualAddress) :
    Tries (tryToShare source address target goal) m (fun _ => True)
      (fun _ m' => KeptAfter l v lost thorough b m')
      (fun _ m' => KeptAfter l v lost thorough b m') := by
  rw [← kept.live] at hs ht
  cases mapped : (v.leaf target goal.splitSlots).present with
  | true =>
    exact (kept.shows.tryToShare_of_present kept.sound hs ht address mapped).mono
      (fun _ _ h => kept.unchanged h.2) fun _ _ => False.elim
  | false =>
    refine ((kept.shows.tryToShare kept.sound hs ht address goal mapped).mono_stops
      fun _ _ => trivial).mono ?_ fun _ _ h => kept.unchanged h.2.2.2.2
    rintro (_ | _) m₁ post
    · exact kept.unchanged post.2
    · obtain ⟨v', shares, shows⟩ := post
      have leads : v.Leads (fun c => c.Sparing ∧ ∀ s, c ≠ .create s ∧ c ≠ .destroy s) v' :=
        ⟨fun _ => shares.acts hs ht ⟨trivial, fun _ => ⟨nofun, nofun⟩⟩
          ⟨trivial, fun _ => ⟨nofun, nofun⟩⟩ fun _ => ⟨trivial, fun _ => ⟨nofun, nofun⟩⟩,
          shares.upholds⟩
      exact kept.lasting leads (fun _ h => h.1) (fun _ h => h.2) shows

theorem request (kept : Kept l m b v lost) (named : env.Names b.live) (c : Request) :
    Ends (c.serve env) m (fun _ => True) fun _ m' => KeptAfter l v lost thorough b m' := by
  rw [← kept.live] at named
  refine (kept.shows.request kept.sound named c).mono ?_
  rintro _ m₁ ⟨w, leads, shows⟩
  exact kept.lasting leads (fun _ h => h.sparing) (fun _ h => h.lasting) shows

/-- The space of the kernel can be cloned like a live one. -/
theorem parent (kept : Kept l m b v lost) {p : Space} (ok : b.Knows m p) : v.Parent p := by
  unfold Books.Knows at ok
  rw [kept.shows.layout, kept.layout] at ok
  rcases ok with live | ⟨rfl, room⟩
  · exact .inl (kept.live.symm ▸ live)
  · exact .inr (kept.quiet room)

end Kept

/-- A stronger demand loses no more. -/
theorem KeptAfter.mono {l : Layout} {v : View} {lost : Owed} {thorough thorough' : Prop}
    {b : Books} {m : Machine} (h : KeptAfter l v lost thorough b m) (imp : thorough' → thorough) :
    KeptAfter l v lost thorough' b m := by
  obtain ⟨v', lost', kept, upholds, none_lost⟩ := h
  exact ⟨v', lost', kept, upholds, fun h => none_lost (imp h)⟩

/-- One call leaves the books in order. -/
theorem Call.kept {l : Layout} {m : Machine} {b : Books} {v : View} {lost : Owed} {c : Call}
    (named : c.Named m b) (kept : Kept l m b v lost) :
    Ends (c.serve b) m (fun _ => True) (KeptAfter l v lost (c.Allowed m b ∧ c.Thorough m)) := by
  cases c with
  | initKernel =>
    refine Kept.served (kept.initKernel ?_)
    rwa [← kept.layout, ← kept.shows.layout]
  | create parent start size =>
    exact kept.create (fun p same => kept.parent (named p same)) start size
  | clear s start size => exact (kept.clear named start size).bind fun _ _ => Ends.pure
  | destroy s start size =>
    exact ((kept.destroy named start size).mono fun _ _ h => h.mono And.right).bind
      fun _ _ => Ends.pure
  | allocPage => exact kept.allocPage
  | freePage page =>
    exact ((kept.freePage named).mono_stops fun _ _ => trivial).bind fun _ _ => Ends.pure
  | install s start pages =>
    obtain ⟨hs, distinct, among⟩ := named
    exact Kept.tried ((kept.install hs start distinct among).mono
      (fun _ _ h => h.mono And.right) fun _ _ h => h.mono And.right)
  | mapEmpty s va =>
    exact Kept.tried ((kept.mapEmpty named va).mono (fun _ _ h => h.mono fun h => h.1.2)
      fun _ _ h => h.mono fun h => h.1.2)
  | share source address target goal =>
    exact Kept.tried (kept.share named.1 named.2 address goal)
  | fault env kind va => exact (kept.request named (.fault kind va)).bind fun _ _ => Ends.pure
  | verify env address size =>
    exact (kept.request named (.verify address size)).bind fun _ _ => Ends.pure
  | copyOut env address bytes =>
    exact (kept.request named (.copyOut address bytes)).bind fun _ _ => Ends.pure
  | copyIn env address length =>
    exact (kept.request named (.copyIn address length)).bind fun _ _ => Ends.pure

/-! ## Runs -/

theorem Kept.boot {config : Config} {layout : Layout} {policy : Policy} {m : Machine}
    (start : Machine.boot config layout policy = .ok m) :
    Kept layout m ⟨∅, ∅⟩ (.initial config layout) 0 := by
  obtain ⟨valid, shows⟩ := Machine.shows_boot start
  have owed : Books.owed ⟨∅, ∅⟩ layout + 0 = layout.reserve := by
    rw [add_zero, Books.owed, inHand_empty, add_zero]
  exact {
    shows := shows, layout := rfl, live := rfl
    sound := owed.symm ▸ View.sound_initial valid
    agree := View.agree_initial
    quiet := View.quiet_initial valid
    held := fun f h => absurd h (Finset.notMem_empty f) }

namespace Reaches

variable {allowed : Machine → Books → Call → Prop} {config : Config} {layout : Layout}
  {policy : Policy} {m : Machine} {b : Books}

/-- The books are in order after every run. -/
theorem kept (reach : Reaches allowed config layout policy m b)
    (imp : ∀ m b c, allowed m b c → c.Allowed m b) : ∃ v lost, Kept layout m b v lost := by
  induction reach with
  | boot start => exact ⟨_, _, .boot start⟩
  | call before ok run ih =>
    obtain ⟨v, lost, kept⟩ := ih
    obtain ⟨v', lost', kept', -⟩ := (Call.kept (imp _ _ _ ok).1 kept).of_run run
    exact ⟨v', lost', kept'⟩

/-- Nothing is lost in a run of thorough calls. -/
theorem kept_of_thorough (reach : Reaches allowed config layout policy m b)
    (imp : ∀ m b c, allowed m b c → c.Allowed m b ∧ c.Thorough m) :
    ∃ v, Kept layout m b v 0 := by
  induction reach with
  | boot start => exact ⟨_, .boot start⟩
  | call before ok run ih =>
    obtain ⟨v, kept⟩ := ih
    have observed := imp _ _ _ ok
    obtain ⟨v', lost', kept', -, none_lost⟩ := (Call.kept observed.1.1 kept).of_run run
    exact ⟨v', none_lost observed ▸ kept'⟩

/-- What is reached by thorough calls is sound, with nothing owed but what is in the books. -/
theorem sound (reach : Reaches allowed config layout policy m b)
    (imp : ∀ m b c, allowed m b c → c.Allowed m b ∧ c.Thorough m) :
    (m.view b.live).Sound (b.owed layout) := by
  obtain ⟨v, kept⟩ := reach.kept_of_thorough imp
  have sound := kept.shows.sound_view kept.sound
  rwa [kept.live, add_zero] at sound

end Reaches

end PagedMemory
