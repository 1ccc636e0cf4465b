import PagedMemory.Proofs.Paging

/-!
# Answering faults

An answer is described by the view it ends in: `View.Unshares` for a write to a page
that is present, `View.Fills` for a page that is missing, `View.Answers` for both. A
fault that is not answered changes nothing but the blocks read and the processes ended.

Every answer is a sequence of changes (`Answers.acts`) which `Environment.Serves`
admits: they concern the page of the fault alone, save that the entry of a peer may
lose its right to write.
-/

namespace PagedMemory

theorem Image.source?_eq_some_iff {image : Image} {address : VirtualAddress}
    {executable : ExecutableId} {offset : Nat} :
    image.source? address = some (executable, offset) ↔
      image.startCode.value + offset = address.value ∧ offset < image.endData ∧
        image.executable = some executable := by
  unfold source? offsetOf? Address.offsetFrom? backing?
  constructor
  · intro backed
    obtain ⟨offset', distance, held⟩ := Option.bind_eq_some_iff.mp backed
    obtain ⟨executable', inside, same⟩ := Option.map_eq_some_iff.mp held
    cases same
    split at distance
    · next below =>
      cases distance
      split at inside
      · next short => exact ⟨by omega, short, inside⟩
      · cases inside
    · cases distance
  · rintro ⟨sum, short, runs⟩
    have distance : address.value - image.startCode.value = offset := by omega
    rw [if_pos (by omega), Option.bind_some, distance, if_pos short, runs]
    rfl

theorem Address.add?_eq_some_iff {a b : VirtualAddress} {n : Nat} :
    a.add? n = some b ↔ a.value + n = b.value := by
  unfold add? ofValue?
  constructor
  · intro sum
    split at sum
    · cases sum
      rfl
    · cases sum
  · intro sum
    simp only [sum, dif_pos b.value_lt]

/-- An image page lies as far behind the start of the code as its offset says. -/
theorem Image.add?_of_source? {image : Image} {address : VirtualAddress}
    {executable : ExecutableId} {offset : Nat}
    (backed : image.source? address = some (executable, offset)) :
    image.startCode.add? offset = some address :=
  Address.add?_eq_some_iff.mpr (source?_eq_some_iff.mp backed).1

namespace View

variable {v v' : View} {o : Owed}

/-- A page that was missing was filled. -/
inductive Fills (v : View) (env : Environment) (pid : Pid) (s : Space) (va : VirtualAddress) :
    Resolution → View → Prop
  | anonymous {image : Image} {f t : FrameId} {b : Frame} {w : View}
      (runs : env.image pid = some image)
      (unbacked : image.source? (va.alignDown .small) = none)
      (cleared : v.config.zeroFill = true → b = Frame.zero)
      (covers : v.Covers s va.directorySlot t w) (free : w.Free f) :
      Fills v env pid s va .anonymous (w.filled s va.splitSlots f b)
  | shared {image : Image} {executable : ExecutableId} {offset : Nat}
      {peer : Pid × Space × VirtualAddress} {v' : View} (runs : env.image pid = some image)
      (backed : image.source? (va.alignDown .small) = some (executable, offset))
      (chosen : v.peer? env pid executable offset = some peer)
      (shares : v.Shares peer.2.1 peer.2.2.splitSlots s va.splitSlots v') :
      Fills v env pid s va .shared v'
  | loaded {image : Image} {executable : ExecutableId} {offset : Nat} {before : Frame}
      {f t : FrameId} {w : View} (runs : env.image pid = some image)
      (backed : image.source? (va.alignDown .small) = some (executable, offset))
      (alone : v.peer? env pid executable offset = none)
      (complete : (env.pageRead executable offset before).failure = none)
      (covers : (v.recorded (env.device executable)
        (env.pageRead executable offset before).reads).Covers s va.directorySlot t w)
      (free : w.Free f) :
      Fills v env pid s va .loaded
        (w.filled s va.splitSlots f (env.loaded image executable offset before))

/-- A page that was missing could not be filled. At most some blocks were read. -/
inductive Unfilled (v : View) (env : Environment) (pid : Pid) (s : Space) (va : VirtualAddress) :
    MemoryError → View → Prop
  | unknown (nobody : env.image pid = none) : Unfilled v env pid s va .unknownProcess v
  | anonymous {image : Image} (runs : env.image pid = some image)
      (unbacked : image.source? (va.alignDown .small) = none) :
      Unfilled v env pid s va .outOfMemory v
  | shared {image : Image} {executable : ExecutableId} {offset : Nat}
      {peer : Pid × Space × VirtualAddress} (runs : env.image pid = some image)
      (backed : image.source? (va.alignDown .small) = some (executable, offset))
      (chosen : v.peer? env pid executable offset = some peer)
      (vacant : v.link s va.directorySlot = none) (full : ∀ f, ¬ v.Free f) :
      Unfilled v env pid s va .outOfMemory v
  | loaded {image : Image} {executable : ExecutableId} {offset : Nat} {cause : MemoryError}
      {reads : Array (DeviceId × BlockNumber)} (runs : env.image pid = some image)
      (backed : image.source? (va.alignDown .small) = some (executable, offset))
      (alone : v.peer? env pid executable offset = none)
      (reason : cause = .outOfMemory ∨ ∃ error, cause = .imageRead error) :
      Unfilled v env pid s va cause { v with reads := reads }

theorem Unfilled.view_eq {env : Environment} {pid : Pid} {s : Space} {va : VirtualAddress}
    {cause : MemoryError} (unfilled : v.Unfilled env pid s va cause v') :
    ∃ reads, v' = { v with reads := reads } := by
  cases unfilled <;> exact ⟨_, rfl⟩

/-- A fault was answered. -/
inductive Answers (v : View) (env : Environment) (s : Space) (va : VirtualAddress) :
    FaultKind → Resolution → View → Prop
  | unshared {how : Resolution} {v' : View} (unshares : v.Unshares s va.splitSlots how v') :
      Answers v env s va .writeProtect how v'
  | present (present : (v.leaf s va.splitSlots).present = true) :
      Answers v env s va .notPresent .spurious v.flushed
  | filled {kind : FaultKind} {how : Resolution} {v' : View}
      (absent : (v.leaf s va.splitSlots).present = false)
      (fills : v.Fills env env.current s va how v') : Answers v env s va kind how v'

end View

namespace Tries

variable {m : Machine} {env : Environment} {s : Space} {kind : FaultKind} {va : VirtualAddress}
  {stops : Halt → Prop} {done : Resolution → Machine → Prop}
  {failed failed' : MemoryError → Machine → Prop}

/-- A write to a page that is missing is left for the page to be filled. -/
theorem unsharePage_of_absent {done : Option Resolution → Machine → Prop} {found : Option Entry}
    (seen : s.entry m.ram va = .ok found) (absent : ∀ e, found = some e → e.present = false)
    (post : done none m) : Tries (unsharePage s va) m stops done failed := by
  unfold unsharePage
  refine Tries.lift_bind (P := fun e m' => e = found ∧ m' = m) (Ends.inspect seen ⟨rfl, rfl⟩) ?_
  rintro e m₁ ⟨rfl, rfl⟩
  cases e with
  | none => exact Tries.pure post
  | some e =>
    dsimp only
    rw [absent e rfl, if_pos (by decide)]
    exact Tries.pure post

/-- Whatever kind of fault it was, a page that is missing is filled. -/
theorem resolveFault_of_absent {found : Option Entry}
    (owner : env.addressSpace env.current = some s) (seen : s.entry m.ram va = .ok found)
    (absent : ∀ e, found = some e → e.present = false)
    (fills : Tries (fillPage env env.current s va) m stops done failed) :
    Tries (resolveFault env kind va) m stops done failed := by
  unfold resolveFault
  rw [owner]
  cases kind with
  | writeProtect =>
    refine Tries.bind (P := fun how m' => how = none ∧ m' = m)
      (unsharePage_of_absent seen absent ⟨rfl, rfl⟩) ?_
    rintro how m₁ ⟨rfl, rfl⟩
    exact fills
  | notPresent =>
    refine Tries.lift_bind (P := fun e m' => e = found ∧ m' = m) (Ends.inspect seen ⟨rfl, rfl⟩) ?_
    rintro e m₁ ⟨rfl, rfl⟩
    cases e with
    | none => exact fills
    | some e =>
      dsimp only
      rw [absent e rfl, if_neg (by decide)]
      exact fills

/-- A write to a page that is present is answered as `unsharePage` answers it. -/
theorem resolveFault_of_write (owner : env.addressSpace env.current = some s)
    (unshares : Tries (unsharePage s va) m stops (fun how m' => ∃ r, how = some r ∧ done r m')
      failed) : Tries (resolveFault env .writeProtect va) m stops done failed := by
  unfold resolveFault
  rw [owner]
  apply unshares.bind
  rintro how m₁ ⟨r, rfl, post⟩
  exact Tries.pure post

/-- A page that is present is not filled: a write is answered, and else the cache was stale. -/
theorem resolveFault_of_present {e : Entry} (owner : env.addressSpace env.current = some s)
    (seen : s.entry m.ram va = .ok (some e)) (present : e.present = true)
    (unshares : kind = .writeProtect → Tries (unsharePage s va) m stops
      (fun how m' => ∃ r, how = some r ∧ done r m') failed)
    (flushes : kind = .notPresent → Ends flush m stops fun _ m' => done .spurious m') :
    Tries (resolveFault env kind va) m stops done failed := by
  cases kind with
  | writeProtect => exact resolveFault_of_write owner (unshares rfl)
  | notPresent =>
    unfold resolveFault
    rw [owner]
    refine Tries.lift_bind (P := fun found m' => found = some e ∧ m' = m)
      (Ends.inspect seen ⟨rfl, rfl⟩) ?_
    rintro found m₁ ⟨rfl, rfl⟩
    dsimp only
    rw [if_pos present]
    apply Tries.lift_bind (flushes rfl)
    intro _ m₂ post
    exact Tries.pure post

/-- How a fault was resolved is noted, and a failure ends the process. -/
theorem handleFault
    (resolved : Tries (resolveFault env kind va) m stops done failed)
    (answered : ∀ how m' events, done how m' → done how { m' with events := events })
    (ended : ∀ cause m' events, failed cause m' → failed' cause { m' with
      events := events, terminations := m'.terminations.push (env.current, cause) }) :
    Tries (PagedMemory.handleFault env kind va) m stops done failed' := by
  refine Ends.bind resolved ?_
  intro result m₁ post
  cases result with
  | error cause =>
    refine Ends.bind (P := fun _ m' => ∃ events, m' = { m₁ with events := events })
      (Ends.intro rfl ⟨_, rfl⟩) ?_
    rintro _ m₂ ⟨events, rfl⟩
    refine Ends.bind (P := fun _ m' => failed' cause m')
      (Ends.intro rfl (ended cause m₁ events post)) ?_
    intro _ m₃ post₃
    exact Ends.pure post₃
  | ok how =>
    refine Ends.bind (P := fun _ m' => done how m') (Ends.intro rfl (answered how m₁ _ post)) ?_
    intro _ m₂ post₂
    exact Ends.pure post₂

theorem handleFault_of_write {failed : MemoryError → Prop}
    (unshares : Tries (unsharePage s va) m stops (fun how m' => ∃ r, how = some r ∧ done r m')
      fun cause _ => failed cause)
    (owner : env.addressSpace env.current = some s)
    (answered : ∀ how m' events, done how m' → done how { m' with events := events }) :
    Tries (PagedMemory.handleFault env .writeProtect va) m stops done fun cause _ => failed cause :=
  (resolveFault_of_write owner unshares).handleFault answered fun _ _ _ post => post

end Tries

/-- The environment names live spaces only. -/
def Environment.Names (env : Environment) (live : Finset Space) : Prop :=
  ∀ pid s, env.addressSpace pid = some s → s ∈ live

/-- An environment with one process, which may or may not have memory and an image. -/
def Environment.solitary (current : Pid) (space : Option Space) (image : Option Image) :
    Environment where
  current := current
  processes := [current]
  addressSpace := fun pid => if pid = current then space else none
  image := fun pid => if pid = current then image else none
  openCount := fun _ => 0
  device := fun _ => 0
  blockMap := fun _ _ => 0
  readBlock := fun device block => .error ⟨device, block⟩

theorem Environment.names_solitary {s : Space} {live : Finset Space} (hs : s ∈ live) (current : Pid)
    (image : Option Image) : (Environment.solitary current (some s) image).Names live := by
  intro pid s' owner
  unfold solitary at owner
  dsimp only at owner
  split at owner
  · cases owner
    exact hs
  · cases owner

namespace Machine.Shows

variable {m : Machine} {v : View} {o : Owed} {env : Environment} {s : Space}

theorem fillPage (shows : m.Shows v) (sound : v.Sound o) (named : env.Names v.live) (pid : Pid)
    (hs : s ∈ v.live) {va : VirtualAddress} (absent : (v.leaf s va.splitSlots).present = false) :
    Tries (PagedMemory.fillPage env pid s va) m Exhausts
      (fun how m' => ∃ v', v.Fills env pid s va how v' ∧ m'.Shows v')
      (fun cause m' => ∃ v', v.Unfilled env pid s va cause v' ∧ m'.Shows v') := by
  unfold PagedMemory.fillPage
  cases runs : env.image pid with
  | none => exact Tries.fail ⟨v, .unknown runs, shows⟩
  | some image =>
    cases backed : image.source? (va.alignDown .small) with
    | none =>
      simp only [backed]
      refine Tries.bind ((shows.mapEmptyPage sound hs (va.alignDown .small)).mono_failed ?_) ?_
      · rintro cause m₁ ⟨rfl, shows₁⟩
        exact ⟨v, .anonymous runs backed, shows₁⟩
      rintro _ m₁ ⟨f, b, t, w, cleared, covers, free, shows₁⟩
      rw [Address.directorySlot_alignDown] at covers
      rw [Address.splitSlots_alignDown] at shows₁
      rw [View.remap_grant absent covers] at shows₁
      exact Tries.pure ⟨_, .anonymous runs backed cleared covers free, shows₁⟩
    | some source =>
      obtain ⟨executable, offset⟩ := source
      simp only [backed]
      refine Tries.bind ((shows.findShared sound named pid hs executable
        (Image.add?_of_source? backed) (by rwa [Address.splitSlots_alignDown])).mono_failed ?_) ?_
      · rintro cause m₁ ⟨rfl, ⟨peer, chosen⟩, vacant, full, shows₁⟩
        rw [Address.directorySlot_alignDown] at vacant
        exact ⟨v, .shared runs backed chosen vacant full, shows₁⟩
      rintro (_ | _) m₁ post
      · obtain ⟨alone, shows₁⟩ := post
        refine Tries.bind ((shows₁.mapLoadedPage sound env hs image executable offset
          (va.alignDown .small)).mono_failed ?_) ?_
        · rintro cause m₂ ⟨reason, reads, shows₂⟩
          exact ⟨_, .loaded runs backed alone reason, shows₂⟩
        rintro _ m₂ ⟨f, before, t, w, complete, covers, free, shows₂⟩
        rw [Address.directorySlot_alignDown] at covers
        rw [Address.splitSlots_alignDown] at shows₂
        rw [View.remap_grant (v := v.recorded _ _) absent covers] at shows₂
        exact Tries.pure ⟨_, .loaded runs backed alone complete covers free, shows₂⟩
      · obtain ⟨peer, v', chosen, shares, shows₁⟩ := post
        rw [Address.splitSlots_alignDown] at shares
        exact Tries.pure ⟨v', .shared runs backed chosen shares, shows₁⟩

theorem resolveFault (shows : m.Shows v) (sound : v.Sound o) (named : env.Names v.live)
    (kind : FaultKind) (va : VirtualAddress) :
    Tries (PagedMemory.resolveFault env kind va) m Exhausts
      (fun how m' => ∃ s v', env.addressSpace env.current = some s ∧
        v.Answers env s va kind how v' ∧ m'.Shows v')
      (fun _ m' => ∃ reads, m'.Shows { v with reads := reads }) := by
  cases owner : env.addressSpace env.current with
  | none =>
    unfold PagedMemory.resolveFault
    rw [owner]
    exact Tries.fail ⟨_, shows⟩
  | some s =>
    have hs := named _ s owner
    cases mapped : (v.leaf s va.splitSlots).present with
    | false =>
      obtain ⟨found, seen, absent⟩ := shows.absent_of_entry sound.separate hs mapped
      apply Tries.resolveFault_of_absent owner seen absent
      apply (shows.fillPage sound named env.current hs mapped).mono
      · rintro how m' ⟨v', fills, shows'⟩
        exact ⟨s, v', rfl, .filled mapped fills, shows'⟩
      · rintro cause m' ⟨v', unfilled, shows'⟩
        obtain ⟨reads, rfl⟩ := unfilled.view_eq
        exact ⟨reads, shows'⟩
    | true =>
      apply Tries.resolveFault_of_present owner (shows.entry_of_present sound.separate hs mapped)
        mapped
      · rintro rfl
        refine (shows.unsharePage sound hs va).mono ?_ fun cause m' h => ⟨_, h.2.2.2.2.2⟩
        intro how m' post
        cases how with
        | none =>
          rw [post.1] at mapped
          cases mapped
        | some how =>
          obtain ⟨v', unshares, shows'⟩ := post
          exact ⟨how, rfl, s, v', rfl, .unshared unshares, shows'⟩
      · rintro rfl
        apply shows.flush.mono
        intro _ m' shows'
        exact ⟨s, _, rfl, .present mapped, shows'⟩

/-- A fault is answered for the space of the current process, or ends that process. -/
theorem handleFault (shows : m.Shows v) (sound : v.Sound o) (named : env.Names v.live)
    (kind : FaultKind) (va : VirtualAddress) :
    Tries (PagedMemory.handleFault env kind va) m Exhausts
      (fun how m' => ∃ s v', env.addressSpace env.current = some s ∧
        v.Answers env s va kind how v' ∧ m'.Shows v')
      (fun cause m' => ∃ reads, m'.Shows { v with
        reads := reads, terminations := v.terminations.push (env.current, cause) }) := by
  apply (shows.resolveFault sound named kind va).handleFault
  · rintro how m₁ events ⟨s, v', owner, answers, shows₁⟩
    exact ⟨s, v', owner, answers, shows₁.remarked events⟩
  · rintro cause m₁ events ⟨reads, shows₁⟩
    exact ⟨reads, { shows₁ with terminations := congrArg (Array.push · _) shows₁.terminations }⟩

end Machine.Shows

/-! ## Answers as sequences of changes -/

/-- The changes that answering a fault of the current process at an address may make. -/
inductive Environment.Serves (env : Environment) (config : Config) (s : Space)
    (va : VirtualAddress) : Change → Prop
  | note : Serves env config s va .note
  | link : Serves env config s va (.link s va.directorySlot)
  | anonymous {image : Image} {b : Frame} (runs : env.image env.current = some image)
      (unbacked : image.source? (va.alignDown .small) = none)
      (cleared : config.zeroFill = true → b = Frame.zero) :
      Serves env config s va (.fill s va.splitSlots b)
  | loaded {image : Image} {executable : ExecutableId} {offset : Nat} {before : Frame}
      (runs : env.image env.current = some image)
      (backed : image.source? (va.alignDown .small) = some (executable, offset))
      (complete : (env.pageRead executable offset before).failure = none) :
      Serves env config s va (.fill s va.splitSlots (env.loaded image executable offset before))
  | shared {image : Image} {executable : ExecutableId} {offset : Nat}
      {peer : Pid × Space × VirtualAddress} {e : Entry}
      (runs : env.image env.current = some image)
      (backed : image.source? (va.alignDown .small) = some (executable, offset))
      (asked : peer ∈ env.peers env.current executable offset) (clean : e.isClean = true) :
      Serves env config s va (.share peer.2.1 peer.2.2.splitSlots s va.splitSlots e)
  | permit : Serves env config s va (.permit s va.splitSlots)
  | copy : Serves env config s va (.copy s va.splitSlots)

theorem Environment.Serves.lasting {env : Environment} {config : Config} {s : Space}
    {va : VirtualAddress} {c : Change} (h : env.Serves config s va c) (s' : Space) :
    c ≠ .create s' ∧ c ≠ .destroy s' := by
  cases h <;> exact ⟨nofun, nofun⟩

theorem Environment.Serves.sparing {env : Environment} {config : Config} {s : Space}
    {va : VirtualAddress} {c : Change} (h : env.Serves config s va c) : c.Sparing := by
  cases h <;> trivial

namespace View

variable {v v' : View} {o : Owed} {env : Environment} {s : Space} {va : VirtualAddress}

theorem Unshares.acts {how : Resolution} (unshares : v.Unshares s va.splitSlots how v')
    (hs : s ∈ v.live) (config : Config) : Acts (env.Serves config s va) v o v' o := by
  cases unshares with
  | spurious => exact Acts.refl.flushed .note
  | madeWritable present protect tracked one =>
    exact (Acts.single .permit (.permit hs tracked one)).flushed .note
  | copied present protect shared free =>
    exact (Acts.single .copy (.copy hs present free)).flushed .note

/-- A page is filled after the page table for it has been made. -/
theorem Covers.acts_filled {allowed : Change → Prop} {k : Place} {f t : FrameId} {b : Frame}
    {w : View} (covers : v.Covers s k.1 t w) (hs : s ∈ v.live)
    (absent : (v.leaf s k).present = false) (free : w.Free f) (link : allowed (.link s k.1))
    (fill : allowed (.fill s k b)) : Acts allowed v o (w.filled s k f b) o :=
  .tail (covers.acts hs link) fill (.fill (covers.live ▸ hs) (by rwa [covers.leaf]) free)

/-- A page is shared after the page table for it has been made. -/
theorem Shares.acts {allowed : Change → Prop} {source : Space} {k k' : Place}
    (shares : v.Shares source k s k' v') (hs : source ∈ v.live) (ht : s ∈ v.live)
    (note : allowed .note) (link : allowed (.link s k'.1))
    (share : (v.leaf source k).isClean = true → allowed (.share source k s k' (v.leaf source k))) :
    Acts allowed v o v' o := by
  obtain ⟨ready, vacant, covers⟩ := shares
  refine (Acts.tail (covers.acts ht link) (share (shareable_iff.mp ready).1) ?_).flushed note
  rw [← covers.leaf]
  refine .share (covers.live ▸ hs) (covers.live ▸ ht) ?_ ?_
  · rw [covers.leaf]
    exact present_of_shareable ready
  · rwa [covers.leaf]

theorem Fills.acts {how : Resolution} (fills : v.Fills env env.current s va how v')
    (hs : s ∈ v.live) (named : env.Names v.live)
    (absent : (v.leaf s va.splitSlots).present = false) :
    Acts (env.Serves v.config s va) v o v' o := by
  cases fills with
  | anonymous runs unbacked cleared covers free =>
    exact covers.acts_filled hs absent free .link (.anonymous runs unbacked cleared)
  | @loaded image executable offset before f t w runs backed alone complete covers free =>
    have read : Acts (env.Serves v.config s va) v o (v.recorded (env.device executable)
        (env.pageRead executable offset before).reads) o :=
      .single .note (.note v.flushes _ v.terminations)
    exact read.trans (covers.acts_filled (v := v.recorded _ _) hs absent free .link
      (.loaded runs backed complete))
  | shared runs backed chosen shares =>
    unfold View.peer? at chosen
    split at chosen
    · have asked := List.mem_of_find?_eq_some chosen
      have hpeer := named _ _ (Environment.addressSpace_of_peer asked)
      exact shares.acts hpeer hs .note .link fun clean => .shared runs backed asked clean
    · cases chosen

theorem Answers.acts {kind : FaultKind} {how : Resolution} (answers : v.Answers env s va kind how v')
    (hs : s ∈ v.live) (named : env.Names v.live) : Acts (env.Serves v.config s va) v o v' o := by
  cases answers with
  | unshared unshares => exact unshares.acts hs v.config
  | present => exact Acts.refl.flushed .note
  | filled absent fills => exact fills.acts hs named absent

end View

end PagedMemory
