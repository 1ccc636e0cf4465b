import PagedMemory.FaultHandling
import PagedMemory.Proofs.Changes

/-!
# Coming by a page

There are four ways in which a process comes by a page that it can use: its entry
becomes writable, the page is copied, it is shared with a peer, or a fresh frame is
mapped, either cleared or with a page of an image in it. Each of them is described by
the view it ends in.

None of them leaves anything behind when it fails, save for the blocks that were read:
a frame that was taken is given back, and no page table has been made by then.
-/

namespace PagedMemory

/-- What the blocks behind an image page make of a frame. -/
def Environment.pageRead (env : Environment) (executable : ExecutableId) (offset : Nat)
    (before : Frame) : PageRead :=
  readBlocks (env.readBlock (env.device executable)) before 0
    ((Image.blocks offset).map (env.blockMap executable))

/-- What a loaded image page holds, given what the frame held before. -/
def Environment.loaded (env : Environment) (image : Image) (executable : ExecutableId)
    (offset : Nat) (before : Frame) : Frame :=
  (env.pageRead executable offset before).frame.clearFrom (4096 - image.tailLength offset)

/-- A peer runs the executable, in a space and at an address that the environment names. -/
theorem Environment.of_mem_peers {env : Environment} {pid : Pid} {executable : ExecutableId}
    {offset : Nat} {peer : Pid × Space × VirtualAddress}
    (asked : peer ∈ env.peers pid executable offset) :
    ∃ image, env.image peer.1 = some image ∧ env.addressSpace peer.1 = some peer.2.1 ∧
      image.executable = some executable ∧ image.startCode.add? offset = some peer.2.2 := by
  obtain ⟨other, _, h⟩ := List.mem_filterMap.mp asked
  split at h
  · cases h
  · split at h
    · next image space shown named =>
      split at h
      · next runs =>
        obtain ⟨address, sum, rfl⟩ := Option.map_eq_some_iff.mp h
        exact ⟨image, shown, named, runs, sum⟩
      · cases h
    · cases h

theorem Environment.addressSpace_of_peer {env : Environment} {pid : Pid} {executable : ExecutableId}
    {offset : Nat} {peer : Pid × Space × VirtualAddress}
    (asked : peer ∈ env.peers pid executable offset) :
    env.addressSpace peer.1 = some peer.2.1 := by
  obtain ⟨_, _, named, _⟩ := of_mem_peers asked
  exact named

namespace View

variable {v v' : View} {o : Owed}

/-- A write to a present page was answered. -/
inductive Unshares (v : View) (s : Space) (k : Place) : Resolution → View → Prop
  | spurious (present : (v.leaf s k).present = true) (writable : (v.leaf s k).writable = true) :
      Unshares v s k .spurious v.flushed
  | madeWritable (present : (v.leaf s k).present = true)
      (protect : (v.leaf s k).writable = false) (tracked : v.tracks (v.leaf s k).frame = true)
      (one : v.count (v.leaf s k).frame = 1) :
      Unshares v s k .madeWritable (v.setLeaf s k (v.leaf s k).madeWritable).flushed
  | copied {g : FrameId} (present : (v.leaf s k).present = true)
      (protect : (v.leaf s k).writable = false)
      (shared : ¬ (v.tracks (v.leaf s k).frame = true ∧ v.count (v.leaf s k).frame = 1))
      (free : v.Free g) : Unshares v s k .copied (v.copied s k g).flushed

/-- Whether a page may be shared with another process. -/
def shareable (v : View) (s : Space) (k : Place) : Bool :=
  (v.leaf s k).isClean && v.tracks (v.leaf s k).frame

section Shareable

variable {s : Space} {k : Place}

theorem shareable_iff : v.shareable s k = true ↔
    (v.leaf s k).isClean = true ∧ v.tracks (v.leaf s k).frame = true :=
  Bool.and_eq_true_iff

theorem present_of_shareable (ready : v.shareable s k = true) :
    (v.leaf s k).present = true :=
  (Bool.and_eq_true_iff.mp (shareable_iff.mp ready).1).1

end Shareable

/-- The peer that an image page is shared with: the first one that can share it, if pages
are shared at all. -/
def peer? (v : View) (env : Environment) (pid : Pid) (executable : ExecutableId) (offset : Nat) :
    Option (Pid × Space × VirtualAddress) :=
  if v.config.sharing = true ∧ 2 ≤ env.openCount executable then
    (env.peers pid executable offset).find? fun peer => v.shareable peer.2.1 peer.2.2.splitSlots
  else
    none

/-- A page was mapped from another space. -/
inductive Shares (v : View) (source : Space) (from' : Place) (target : Space) (goal : Place) :
    View → Prop
  | intro {t : FrameId} {w : View} (ready : v.shareable source from' = true)
      (absent : (v.leaf target goal).present = false) (covers : v.Covers target goal.1 t w) :
      Shares v source from' target goal (w.aliased source from' target goal).flushed

@[simp] theorem setBytes_setBytes (f : FrameId) (b b' : Frame) :
    (v.setBytes f b).setBytes f b' = v.setBytes f b' := by
  simp only [setBytes]
  congr
  funext g
  split <;> rfl

/-- Blocks were read from a device. -/
def recorded (v : View) (device : DeviceId) (blocks : List BlockNumber) : View :=
  { v with reads := blocks.foldl (fun reads block => reads.push (device, block)) v.reads }

theorem bytes_recorded (device : DeviceId) (blocks : List BlockNumber) :
    (v.recorded device blocks).bytes = v.bytes := rfl

theorem setBytes_recorded (device : DeviceId) (blocks : List BlockNumber) (f : FrameId)
    (b : Frame) : (v.recorded device blocks).setBytes f b =
      (v.setBytes f b).recorded device blocks := rfl

theorem Sound.recorded (sound : v.Sound o) (device : DeviceId) (blocks : List BlockNumber) :
    (v.recorded device blocks).Sound o :=
  { sound with }

/-- A frame that was granted before a page table was made might as well have been granted
afterwards. -/
theorem Covers.of_grant {s : Space} {i : Slot} {t f : FrameId} {b : Frame} (free : v.Free f)
    (covers : (v.grant f b).Covers s i t v') :
    ∃ w, v.Covers s i t w ∧ w.Free f ∧ v' = w.grant f b := by
  generalize granted : v.grant f b = u at covers
  cases covers with
  | already linked =>
    subst granted
    exact ⟨v, .already linked, free, rfl⟩
  | anew vacant unused =>
    subst granted
    have apart : t ≠ f := by
      rintro rfl
      exact Nat.one_ne_zero ((if_pos rfl).symm.trans unused.2)
    have before : v.Free t := ⟨unused.1, (if_neg apart).symm.trans unused.2⟩
    refine ⟨v.linked s i t, .anew vacant before,
      ⟨free.1, (if_neg (Ne.symm apart)).trans free.2⟩, ?_⟩
    simp only [linked, grant, setLink, setBytes, setCount]
    congr 1 <;> funext g
    all_goals
      split
      · next here => rw [if_neg (here ▸ apart)]
      · rfl

/-- A fresh frame that is mapped where nothing was fills the page. -/
theorem remap_grant {s : Space} {k : Place} (absent : (v.leaf s k).present = false)
    {t f : FrameId} {b : Frame} {w : View} (covers : v.Covers s k.1 t w) :
    (w.grant f b).remap s k (.make f .userWritable) = w.filled s k f b := by
  have vacant : ((w.grant f b).leaf s k).present = false := by
    rw [← absent]
    exact congrArg (fun leaf => (leaf s k).present) covers.leaf
  rw [remap_of_absent vacant]
  rfl

end View

namespace Machine.Shows

variable {m : Machine} {v : View} {o : Owed}

/-- Giving back a frame that nothing was done with. -/
theorem ungrant {f : FrameId} {b : Frame} (shows : m.Shows (v.grant f b)) (sound : v.Sound o)
    (free : v.Free f) :
    Ends (PagedMemory.release f) m Exhausts fun _ m' => m'.Shows v := by
  have used : ¬ (v.grant f b).Free f := fun again => sound.not_hidden_grant free b (.inl again)
  refine (shows.release sound.fits (sound.fits.inside free.1) used).mono fun _ m' shows' => ?_
  have tracked : (v.grant f b).tracks f = true := free.1
  rw [View.release_of_tracked tracked] at shows'
  have count (g : FrameId) : ((v.grant f b).setCount f ((v.grant f b).count f - 1)).count g =
      v.count g := by
    show (if g = f then (if f = f then 1 else v.count f) - 1 else
      if g = f then 1 else v.count g) = v.count g
    split
    · next same => rw [if_pos rfl, same, free.2]
    · rfl
  refine { shows' with
    count := fun g hg => (shows'.count g hg).trans (count g)
    bytes := fun g shown => ?_ }
  refine (shows'.bytes g fun hidden => shown ?_).trans (if_neg ?_)
  · rcases hidden with ⟨hg, zero⟩ | structural
    · exact .inl ⟨hg, (count g).symm.trans zero⟩
    · exact .inr structural
  · rintro rfl
    exact shown (.inl free)

/-- Copying a page to a fresh frame and mapping the copy in its place. -/
private theorem moveTo (sound : v.Sound o) {s : Space} (hs : s ∈ v.live)
    {va : VirtualAddress} {t : FrameId} (linked : v.link s va.directorySlot = some t)
    (present : (v.leaf s va.splitSlots).present = true) {g : FrameId} (free : v.Free g) {b : Frame}
    (granted : m.Shows (v.grant g b)) {done : Option Resolution → Machine → Prop}
    {failed : MemoryError → Machine → Prop}
    (ends : ∀ m', m'.Shows (v.copied s va.splitSlots g).flushed → done (some .copied) m') :
    Tries (do
        PagedMemory.copyFrame (v.leaf s va.splitSlots).frame g
        discard (s.updateEntry va fun _ =>
          .make g { Entry.userWritable with dirty := (v.leaf s va.splitSlots).dirty })
        PagedMemory.release (v.leaf s va.splitSlots).frame
        PagedMemory.flush
        return some Resolution.copied) m Exhausts done failed := by
  have maps := View.refers_leaf present
  have used : ¬ v.Free (v.leaf s va.splitSlots).frame := sound.not_free hs maps
  have apart : (v.leaf s va.splitSlots).frame ≠ g := fun same => used (same ▸ free)
  have inside := sound.mapped s hs va.splitSlots present
  have ready := sound.grant free b
  refine Tries.lift_bind (granted.copyFrame apart inside (sound.fits.inside free.1)
    (ready.not_hidden_of_leaf hs maps) (sound.not_hidden_grant free b)) fun _ m₁ shows₁ => ?_
  have before : (v.grant g b).bytes (v.leaf s va.splitSlots).frame =
      v.bytes (v.leaf s va.splitSlots).frame := View.bytes_setBytes_of_ne b apart
  rw [View.setBytes_grant, before] at shows₁
  refine Tries.discard_bind (shows₁.updateEntry (sound.grant free _).separate hs linked _)
    fun m₂ shows₂ => ?_
  refine Tries.lift_bind (shows₂.release sound.fits inside fun again => used ?_)
    fun _ m₃ shows₃ => ?_
  · exact ⟨again.1, (if_neg apart).symm.trans again.2⟩
  refine Tries.lift_bind shows₃.flush fun _ m₄ shows₄ => ?_
  exact Tries.pure (ends m₄ shows₄)

theorem unsharePage (shows : m.Shows v) (sound : v.Sound o) {s : Space} (hs : s ∈ v.live)
    (va : VirtualAddress) :
    Tries (PagedMemory.unsharePage s va) m Exhausts
      (fun result m' =>
        match result with
        | some how => ∃ v', v.Unshares s va.splitSlots how v' ∧ m'.Shows v'
        | none => (v.leaf s va.splitSlots).present = false ∧ m'.Shows v)
      (fun cause m' => cause = .outOfMemory ∧ (v.leaf s va.splitSlots).present = true ∧
        (v.leaf s va.splitSlots).writable = false ∧
        ¬ (v.tracks (v.leaf s va.splitSlots).frame = true ∧
          v.count (v.leaf s va.splitSlots).frame = 1) ∧
        (∀ f, ¬ v.Free f) ∧ m'.Shows v) := by
  unfold PagedMemory.unsharePage
  refine Tries.lift_bind (shows.findEntry sound.separate hs va) ?_
  rintro found m₁ ⟨rfl, shows₁⟩
  cases linked : v.link s va.directorySlot with
  | none =>
    refine Tries.pure ⟨?_, shows₁⟩
    rw [Address.splitSlots, shows₁.leaf_of_vacant hs linked]
    rfl
  | some t =>
    simp only [Option.map_some]
    split
    · next absent =>
      exact Tries.pure ⟨by simpa using absent, shows₁⟩
    · next present =>
      rw [Bool.not_eq_eq_eq_not, Bool.not_true, Bool.not_eq_false] at present
      split
      · next writable =>
        refine Tries.lift_bind shows₁.flush fun _ m₂ shows₂ => ?_
        exact Tries.pure ⟨_, .spurious present writable, shows₂⟩
      · next protect =>
        rw [Bool.not_eq_true] at protect
        refine Tries.lift_bind (shows₁.refCount? (v.leaf s va.splitSlots).frame) ?_
        rintro n m₂ ⟨count, shows₂⟩
        split
        · next single =>
          rw [count, Option.ite_none_right_eq_some, Option.some.injEq] at single
          obtain ⟨tracked, one⟩ := single
          refine Tries.discard_bind (shows₂.updateEntry sound.separate hs linked _)
            fun m₃ shows₃ => ?_
          refine Tries.lift_bind shows₃.flush fun _ m₄ shows₄ => ?_
          exact Tries.pure ⟨_, .madeWritable present protect tracked one, shows₄⟩
        · next shared =>
          rw [count, Option.ite_none_right_eq_some, Option.some.injEq] at shared
          refine Tries.bind (P := fun g m' => v.Free g ∧ ∃ b, m'.Shows (v.grant g b))
            (shows₂.allocFrame.mono_failed ?_) ?_
          · rintro cause m' ⟨rfl, full, shows'⟩
            exact ⟨rfl, present, protect, shared, full, shows'⟩
          · rintro g m₃ ⟨free, b, shows₃⟩
            refine moveTo sound hs linked present free shows₃ fun m' shows' => ?_
            exact ⟨_, .copied present protect shared free, shows'⟩

/-- Protecting a page that can be shared and mapping it a second time, in a table that is there. -/
private theorem aliasTo (sound : v.Sound o) {source target : Space} (hs : source ∈ v.live)
    (ht : target ∈ v.live) {address goal : VirtualAddress}
    (ready : v.shareable source address.splitSlots = true) {t : FrameId} {w : View}
    (covers : v.Covers target goal.directorySlot t w) (shows : m.Shows w)
    {done : Bool → Machine → Prop} {failed : MemoryError → Machine → Prop}
    (ends : ∀ m', m'.Shows
      (w.aliased source address.splitSlots target goal.splitSlots).flushed → done true m') :
    Tries (do
        discard (source.updateEntry address fun _ =>
          (v.leaf source address.splitSlots).writeProtected)
        PagedMemory.writeEntry t goal.tableSlot (v.leaf source address.splitSlots).writeProtected
        PagedMemory.flush
        PagedMemory.retain (v.leaf source address.splitSlots).frame
        return true) m Exhausts done failed := by
  have sep := (covers.sound ht sound).separate
  have hs' : source ∈ w.live := covers.live ▸ hs
  have ht' : target ∈ w.live := covers.live ▸ ht
  have tracked := (View.shareable_iff.mp ready).2
  have present : (w.leaf source address.splitSlots).present = true := by
    rw [covers.leaf]
    exact View.present_of_shareable ready
  obtain ⟨t', linked⟩ := shows.link_of_present hs' present
  refine Tries.discard_bind (shows.updateEntry sep hs' linked _) fun m₁ shows₁ => ?_
  refine Tries.lift_bind (shows₁.writeLeaf (sep.setLeaf _ _ _) ht' covers.link goal.tableSlot _)
    fun _ m₂ shows₂ => ?_
  refine Tries.lift_bind shows₂.flush fun _ m₃ shows₃ => ?_
  have inside := sound.mapped source hs _ (View.present_of_shareable ready)
  have used := sound.not_free hs (View.refers_leaf (View.present_of_shareable ready))
  refine Tries.lift_bind (shows₃.retain (covers.sound ht sound).fits (covers.size.symm ▸ inside)
    fun again => used ?_) fun _ m₄ shows₄ => ?_
  · rw [View.Free, ← covers.tracks, ← (covers.of_not_free used).1]
    exact again
  refine Tries.pure (ends m₄ ?_)
  rwa [View.aliased, covers.leaf, covers.tracks, if_pos tracked]

theorem tryToShare (shows : m.Shows v) (sound : v.Sound o) {source target : Space}
    (hs : source ∈ v.live) (ht : target ∈ v.live) (address goal : VirtualAddress)
    (absent : (v.leaf target goal.splitSlots).present = false) :
    Tries (PagedMemory.tryToShare source address target goal) m Exhausts
      (fun shared m' =>
        match shared with
        | true => ∃ v', v.Shares source address.splitSlots target goal.splitSlots v' ∧ m'.Shows v'
        | false => v.shareable source address.splitSlots = false ∧ m'.Shows v)
      (fun cause m' => cause = .outOfMemory ∧ v.shareable source address.splitSlots = true ∧
        v.link target goal.directorySlot = none ∧ (∀ f, ¬ v.Free f) ∧ m'.Shows v) := by
  unfold PagedMemory.tryToShare
  refine Tries.lift_bind (shows.findEntry sound.separate hs address) ?_
  rintro found m₁ ⟨rfl, shows₁⟩
  cases linked : v.link source address.directorySlot with
  | none =>
    refine Tries.pure ⟨?_, shows₁⟩
    rw [View.shareable, Address.splitSlots, shows₁.leaf_of_vacant hs linked]
    rfl
  | some t =>
    simp only [Option.map_some]
    refine Tries.lift_bind (shows₁.isManaged (v.leaf source address.splitSlots).frame) ?_
    rintro tracked m₂ ⟨rfl, shows₂⟩
    split
    · next refused =>
      refine Tries.pure ⟨?_, shows₂⟩
      rwa [Bool.not_eq_eq_eq_not, Bool.not_true] at refused
    · next ready =>
      rw [Bool.not_eq_eq_eq_not, Bool.not_true, Bool.not_eq_false] at ready
      refine Tries.bind (P := fun t m' => ∃ w, v.Covers target goal.directorySlot t w ∧ m'.Shows w)
        ((shows₂.ensureTable sound ht goal).mono_failed ?_) ?_
      · rintro cause m' ⟨rfl, vacant, full, shows'⟩
        exact ⟨rfl, ready, vacant, full, shows'⟩
      rintro t' m₃ ⟨w, covers, shows₃⟩
      refine Tries.lift_bind (shows₃.readLeaf (covers.sound ht sound).separate
        (covers.live ▸ ht) covers.link goal.tableSlot) ?_
      rintro previous m₄ ⟨rfl, shows₄⟩
      rw [covers.leaf, if_neg (by rw [Bool.not_eq_true]; exact absent)]
      refine aliasTo sound hs ht ready covers shows₄ fun m' shows' => ?_
      exact ⟨_, .intro ready absent covers, shows'⟩

/-- Onto a page that is present nothing is shared, and no page table is missing for it. -/
theorem tryToShare_of_present (shows : m.Shows v) (sound : v.Sound o) {source target : Space}
    (hs : source ∈ v.live) (ht : target ∈ v.live) (address : VirtualAddress)
    {goal : VirtualAddress} (present : (v.leaf target goal.splitSlots).present = true) :
    Tries (PagedMemory.tryToShare source address target goal) m (fun _ => True)
      (fun shared m' => shared = false ∧ m'.Shows v) (fun _ _ => False) := by
  unfold PagedMemory.tryToShare
  refine Tries.lift_bind ((shows.findEntry sound.separate hs address).mono_stops
    fun _ _ => trivial) ?_
  rintro found m₁ ⟨rfl, shows₁⟩
  cases v.link source address.directorySlot with
  | none => exact Tries.pure ⟨rfl, shows₁⟩
  | some t' =>
    simp only [Option.map_some]
    refine Tries.lift_bind ((shows₁.isManaged _).mono_stops fun _ _ => trivial) ?_
    rintro tracked m₂ ⟨-, shows₂⟩
    split
    · exact Tries.pure ⟨rfl, shows₂⟩
    · refine Tries.bind (((shows₂.ensureTable sound ht goal).mono_failed
        ?_).mono_stops fun _ _ => trivial) ?_
      · rintro cause m₃ ⟨-, vacant, -⟩
        obtain ⟨t₁, linked⟩ := shows₂.link_of_present ht present
        exact Option.some_ne_none t₁ (linked.symm.trans vacant)
      rintro t₁ m₃ ⟨w, covers, shows₃⟩
      have same : w.leaf target (goal.directorySlot, goal.tableSlot) = v.leaf target goal.splitSlots := by
        rw [covers.leaf]
        rfl
      refine Tries.lift_bind ((shows₃.readLeaf (covers.sound ht sound).separate
        (covers.live ▸ ht) covers.link goal.tableSlot).mono_stops fun _ _ => trivial) ?_
      rintro previous m₄ ⟨rfl, -⟩
      rw [if_pos (by rw [same]; exact present)]
      exact Tries.lift_bind (P := fun _ _ => False) (Ends.halt trivial) nofun

theorem shareFirst (sound : v.Sound o) (pid : Pid) (executable : ExecutableId) (offset : Nat)
    {s : Space} (hs : s ∈ v.live) {goal : VirtualAddress}
    (absent : (v.leaf s goal.splitSlots).present = false)
    (peers : List (Pid × Space × VirtualAddress)) (named : ∀ peer ∈ peers, peer.2.1 ∈ v.live)
    (m : Machine) (shows : m.Shows v) :
    Tries (PagedMemory.shareFirst pid executable offset s goal peers) m Exhausts
      (fun shared m' =>
        match shared with
        | true => ∃ peer v', peers.find? (fun peer => v.shareable peer.2.1 peer.2.2.splitSlots) =
            some peer ∧ v.Shares peer.2.1 peer.2.2.splitSlots s goal.splitSlots v' ∧ m'.Shows v'
        | false => peers.find? (fun peer => v.shareable peer.2.1 peer.2.2.splitSlots) = none ∧
            m'.Shows v)
      (fun cause m' => cause = .outOfMemory ∧
        (∃ peer, peers.find? (fun peer => v.shareable peer.2.1 peer.2.2.splitSlots) = some peer) ∧
        v.link s goal.directorySlot = none ∧ (∀ f, ¬ v.Free f) ∧ m'.Shows v) := by
  induction peers generalizing m with
  | nil => exact Tries.pure ⟨rfl, shows⟩
  | cons peer rest ih =>
    obtain ⟨other, source, address⟩ := peer
    have hsource : source ∈ v.live := named _ List.mem_cons_self
    refine Tries.bind ((shows.tryToShare sound hsource hs address goal absent).mono_failed ?_) ?_
    · rintro cause m' ⟨rfl, ready, rest⟩
      exact ⟨rfl, ⟨_, List.find?_cons_of_pos ready⟩, rest⟩
    · rintro (_ | _) m₁ post
      · obtain ⟨refused, shows₁⟩ := post
        have skip : ((other, source, address) :: rest).find?
            (fun peer => v.shareable peer.2.1 peer.2.2.splitSlots) =
            rest.find? fun peer => v.shareable peer.2.1 peer.2.2.splitSlots :=
          List.find?_cons_of_neg (by rw [Bool.not_eq_true]; exact refused)
        rw [skip]
        exact ih (fun peer h => named peer (List.mem_cons_of_mem _ h)) m₁ shows₁
      · obtain ⟨v', shares, shows₁⟩ := post
        refine Tries.lift_bind (shows₁.remark _) fun _ m₂ shows₂ => ?_
        have ready : v.shareable source address.splitSlots = true := by
          cases shares with
          | intro ready => exact ready
        exact Tries.pure ⟨_, v', List.find?_cons_of_pos ready, shares, shows₂⟩

theorem findShared (shows : m.Shows v) (sound : v.Sound o) {env : Environment}
    (named : ∀ pid s, env.addressSpace pid = some s → s ∈ v.live) (pid : Pid) {s : Space}
    (hs : s ∈ v.live) {image : Image} (executable : ExecutableId) {offset : Nat}
    {goal : VirtualAddress} (at' : image.startCode.add? offset = some goal)
    (absent : (v.leaf s goal.splitSlots).present = false) :
    Tries (PagedMemory.findShared env pid s image executable offset) m Exhausts
      (fun shared m' =>
        match shared with
        | true => ∃ peer v', v.peer? env pid executable offset = some peer ∧
            v.Shares peer.2.1 peer.2.2.splitSlots s goal.splitSlots v' ∧ m'.Shows v'
        | false => v.peer? env pid executable offset = none ∧ m'.Shows v)
      (fun cause m' => cause = .outOfMemory ∧
        (∃ peer, v.peer? env pid executable offset = some peer) ∧
        v.link s goal.directorySlot = none ∧ (∀ f, ¬ v.Free f) ∧ m'.Shows v) := by
  refine Tries.lift_bind shows.currentConfig ?_
  rintro config m₁ ⟨rfl, shows₁⟩
  unfold View.peer? PagedMemory.sharePage
  split
  · next sharing =>
    split
    · next few =>
      rw [if_neg fun h => absurd h.2 (Nat.not_le.mpr few)]
      exact Tries.pure ⟨rfl, shows₁⟩
    · next many =>
      rw [if_pos ⟨sharing, Nat.not_lt.mp many⟩, at']
      exact shareFirst sound pid executable offset hs absent _
        (fun peer asked => named _ _ (Environment.addressSpace_of_peer asked)) m₁ shows₁
  · next alone =>
    rw [if_neg fun h => alone h.1]
    exact Tries.pure ⟨rfl, shows₁⟩

/-! ## Pages of a frame of their own -/

private theorem recordReads (device : DeviceId) (blocks : List BlockNumber) (m : Machine)
    {v : View} (shows : m.Shows v) :
    Ends (blocks.forM (PagedMemory.recordRead device)) m Exhausts fun _ m' =>
      m'.Shows (v.recorded device blocks) := by
  induction blocks generalizing m v with
  | nil => exact Ends.pure shows
  | cons block rest ih =>
    exact (shows.recordRead device block).bind fun _ m' shows' => ih m' shows'

theorem readPage (shows : m.Shows v) (env : Environment) (device : DeviceId)
    (blocks : List BlockNumber) {page : FrameId} (inside : page.index < v.size)
    (shown : ¬ v.Hidden page) :
    Ends (PagedMemory.readPage env device blocks page) m Exhausts fun failure m' =>
      failure = (readBlocks (env.readBlock device) (v.bytes page) 0 blocks).failure ∧
      m'.Shows ((v.setBytes page
        (readBlocks (env.readBlock device) (v.bytes page) 0 blocks).frame).recorded device
        (readBlocks (env.readBlock device) (v.bytes page) 0 blocks).reads) := by
  refine (shows.readFrame inside shown).bind ?_
  rintro before m₁ ⟨rfl, shows₁⟩
  refine (shows₁.modifyFrame _ inside shown).bind fun _ m₂ shows₂ => ?_
  refine (recordReads device _ m₂ shows₂).bind fun _ m₃ shows₃ => ?_
  exact Ends.pure ⟨rfl, shows₃⟩

theorem loadPage (shows : m.Shows v) (env : Environment) (image : Image)
    (executable : ExecutableId) (offset : Nat) {page : FrameId} (inside : page.index < v.size)
    (shown : ¬ v.Hidden page) :
    Tries (PagedMemory.loadPage env image executable offset page) m Exhausts
      (fun _ m' => (env.pageRead executable offset (v.bytes page)).failure = none ∧
        m'.Shows ((v.setBytes page (env.loaded image executable offset (v.bytes page))).recorded
          (env.device executable) (env.pageRead executable offset (v.bytes page)).reads))
      (fun cause m' => ∃ error b, cause = .imageRead error ∧
        (env.pageRead executable offset (v.bytes page)).failure = some error ∧
        m'.Shows ((v.setBytes page b).recorded (env.device executable)
          (env.pageRead executable offset (v.bytes page)).reads)) := by
  refine Tries.lift_bind (shows.remark _) fun _ m₁ shows₁ => ?_
  refine Tries.lift_bind (shows₁.readPage env _ _ inside shown) ?_
  rintro failure m₂ ⟨ended, shows₂⟩
  change failure = (env.pageRead executable offset (v.bytes page)).failure at ended
  cases failure with
  | some error => exact Tries.fail ⟨error, _, rfl, ended.symm, shows₂⟩
  | none =>
    refine Tries.lift ((shows₂.modifyFrame _ inside shown).mono fun _ m₃ shows₃ => ?_)
    refine ⟨ended.symm, ?_⟩
    simp only [View.bytes_recorded, View.setBytes_recorded, View.bytes_setBytes_self,
      View.setBytes_setBytes] at shows₃
    exact shows₃

/-- A page with cleared memory, or with whatever the frame held before. -/
theorem mapEmptyPage (shows : m.Shows v) (sound : v.Sound o) {s : Space} (hs : s ∈ v.live)
    (va : VirtualAddress) :
    Tries (PagedMemory.mapEmptyPage s va) m Exhausts
      (fun _ m' => ∃ f b t w, (v.config.zeroFill = true → b = Frame.zero) ∧
        v.Covers s va.directorySlot t w ∧ w.Free f ∧
        m'.Shows ((w.grant f b).remap s va.splitSlots (.make f .userWritable)))
      (fun cause m' => cause = .outOfMemory ∧ m'.Shows v) := by
  refine Tries.bind (shows.allocFrame.mono_failed fun cause m' h => ⟨h.1, h.2.2⟩) ?_
  rintro f m₁ ⟨free, b₀, shows₁⟩
  refine Tries.lift_bind shows₁.currentConfig ?_
  rintro config m₂ ⟨rfl, shows₂⟩
  refine Tries.optional
    (P := fun m' => ∃ b, (v.config.zeroFill = true → b = Frame.zero) ∧ m'.Shows (v.grant f b))
    (fun _ => ?_) (fun keep => ⟨b₀, fun clear => absurd clear keep, shows₂⟩) ?_
  · exact (clearGranted sound free shows₂).mono fun _ m' shows' => ⟨Frame.zero, fun _ => rfl, shows'⟩
  rintro m₃ ⟨b, cleared, shows₃⟩
  refine Tries.undoing ((shows₃.mapOne (sound.grant free b) hs f _ _).mono ?_ ?_)
  · rintro _ m₄ ⟨t, v', covers, shows₄⟩
    rw [Address.directorySlot_alignDown] at covers
    rw [Address.splitSlots_alignDown] at shows₄
    obtain ⟨w, before, unused, rfl⟩ := covers.of_grant free
    exact ⟨f, b, t, w, cleared, before, unused, shows₄⟩
  · rintro cause m₄ ⟨rfl, -, -, shows₄⟩
    exact (shows₄.ungrant sound free).mono fun _ m₅ shows₅ => ⟨rfl, shows₅⟩

theorem mapLoadedPage (shows : m.Shows v) (sound : v.Sound o) (env : Environment) {s : Space}
    (hs : s ∈ v.live) (image : Image) (executable : ExecutableId) (offset : Nat)
    (va : VirtualAddress) :
    Tries (PagedMemory.mapLoadedPage env s image executable offset va) m Exhausts
      (fun _ m' => ∃ f before t w, (env.pageRead executable offset before).failure = none ∧
        (v.recorded (env.device executable)
          (env.pageRead executable offset before).reads).Covers s va.directorySlot t w ∧
        w.Free f ∧ m'.Shows ((w.grant f (env.loaded image executable offset before)).remap s
          va.splitSlots (.make f .userWritable)))
      (fun cause m' => (cause = .outOfMemory ∨ ∃ error, cause = .imageRead error) ∧
        ∃ reads, m'.Shows { v with reads := reads }) := by
  refine Tries.bind (shows.allocFrame.mono_failed fun cause m' h => ⟨.inl h.1, v.reads, h.2.2⟩) ?_
  rintro f m₁ ⟨free, b, shows₁⟩
  have filled : (v.grant f b).bytes f = b := if_pos rfl
  refine Tries.undoing (Tries.bind ((shows₁.loadPage env image executable offset
    (sound.fits.inside free.1) (sound.not_hidden_grant free b)).mono_failed ?_) ?_)
  · rintro cause m₂ ⟨error, b', rfl, -, shows₂⟩
    rw [View.setBytes_grant, filled] at shows₂
    exact (ungrant shows₂ (sound.recorded _ _) free).mono fun _ m₃ shows₃ =>
      ⟨.inr ⟨error, rfl⟩, _, shows₃⟩
  · rintro _ m₂ ⟨complete, shows₂⟩
    rw [View.setBytes_grant, filled] at shows₂
    rw [filled] at complete
    have ready := sound.recorded (env.device executable) (env.pageRead executable offset b).reads
    refine (shows₂.mapOne (ready.grant free _) hs f va _).mono ?_ ?_
    · rintro _ m₃ ⟨t, v', covers, shows₃⟩
      obtain ⟨w, before, unused, rfl⟩ := View.Covers.of_grant (v := v.recorded _ _) free covers
      exact ⟨f, b, t, w, complete, before, unused, shows₃⟩
    · rintro cause m₃ ⟨rfl, -, -, shows₃⟩
      exact (ungrant shows₃ ready free).mono fun _ m₄ shows₄ => ⟨.inl rfl, _, shows₄⟩

end Machine.Shows

end PagedMemory
