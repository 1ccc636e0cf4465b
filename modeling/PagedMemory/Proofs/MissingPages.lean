import PagedMemory.Proofs.LoadedPages

/-!
# How missing pages are filled

A page that no executable backs is given a frame of its own. An image page is shared with another
process if one offers it (`Environment.Offers`), that is, runs the same executable, maps the page
and has not written to it. The processes are asked in the order in which the environment lists
them, and the first one that offers the page is taken (`Environment.FirstOffer`). The page is read
from the device only if there is none.

Whether the kind of the fault is a missing page or a write makes no difference. A page that cannot
be filled for want of a frame is left as it was.
-/

namespace PagedMemory

variable {m m' : Machine} {live : Finset Space} {owed : Owed} {env : Environment}
  {s source : Space} {va from' : VirtualAddress} {kind : FaultKind} {image : Image}
  {executable : ExecutableId} {offset : Nat} {f : FrameId} {e : Entry} {pid other q : Pid}

/-! ## Offers -/

/-- What may be shared is told by the entry that is found. -/
theorem Machine.shareable_view_iff (sound : (m.view live).Sound owed) (hs : s ∈ live) :
    (m.view live).shareable s va.splitSlots = true ∧ s.leaf m.ram va.splitSlots = e ↔
      s.entry m.ram va = .ok (some e) ∧ e.present = true ∧ e.dirty = false ∧
        m.pool.manages e.frame = true := by
  rw [View.shareable_iff]
  constructor
  · rintro ⟨⟨clean, counted⟩, rfl⟩
    obtain ⟨present, unwritten⟩ := Bool.and_eq_true_iff.mp clean
    have found := (m.shows_view live).entry_of_present sound.separate hs present
    refine ⟨found, present, ?_, counted⟩
    rwa [Bool.not_eq_eq_eq_not, Bool.not_true] at unwritten
  · rintro ⟨found, present, clean, counted⟩
    obtain rfl := leaf_of_entry sound hs found
    refine ⟨⟨?_, counted⟩, rfl⟩
    show (s.leaf m.ram va.splitSlots).isClean = true
    rw [Entry.isClean, present, clean]
    rfl

namespace Environment

/-- Another process with the executable maps the page at an offset of it, has not written to it,
and references to the frame are counted. -/
structure Offers (env : Environment) (m : Machine) (executable : ExecutableId) (offset : Nat)
    (q : Pid) (source : Space) (from' : VirtualAddress) (e : Entry) : Prop where
  other : q ≠ env.current
  space : env.addressSpace q = some source
  runs : ∃ image, env.image q = some image ∧ image.executable = some executable ∧
    image.startCode.value + offset = from'.value
  entry : source.entry m.ram from' = .ok (some e)
  present : e.present = true
  clean : e.dirty = false
  counted : m.pool.manages e.frame = true

/-- No process that is listed before offers the page. -/
def FirstOffer (env : Environment) (m : Machine) (executable : ExecutableId) (offset : Nat)
    (q : Pid) (source : Space) (from' : VirtualAddress) (e : Entry) : Prop :=
  ∃ before after, env.processes = before ++ q :: after ∧
    (∀ q' ∈ before, ∀ source from' e, ¬ env.Offers m executable offset q' source from' e) ∧
    env.Offers m executable offset q source from' e

/-- The space and the address at which a process is asked for the page, if it is asked. -/
def peerOf (env : Environment) (pid : Pid) (executable : ExecutableId) (offset : Nat)
    (other : Pid) : Option (Pid × Space × VirtualAddress) :=
  if other = pid then none
  else
    match env.image other, env.addressSpace other with
    | some image, some space =>
      if image.executable = some executable then
        (image.startCode.add? offset).map fun address => (other, space, address)
      else none
    | _, _ => none

theorem peers_eq : env.peers pid executable offset =
    env.processes.filterMap (env.peerOf pid executable offset) := rfl

theorem peerOf_eq_some_iff {peer : Pid × Space × VirtualAddress} :
    env.peerOf pid executable offset other = some peer ↔
      other ≠ pid ∧ peer.1 = other ∧ env.addressSpace other = some peer.2.1 ∧
        ∃ image, env.image other = some image ∧ image.executable = some executable ∧
          image.startCode.value + offset = peer.2.2.value := by
  obtain ⟨named, source, from'⟩ := peer
  unfold peerOf
  constructor
  · intro asked
    split at asked
    · cases asked
    next apart =>
    split at asked
    · next image space runs space' =>
      split at asked
      · next held =>
        obtain ⟨address, sum, same⟩ := Option.map_eq_some_iff.mp asked
        cases same
        exact ⟨apart, rfl, space', image, runs, held, Address.add?_eq_some_iff.mp sum⟩
      · cases asked
    · cases asked
  · rintro ⟨apart, rfl, space, image, runs, held, sum⟩
    dsimp only at space sum ⊢
    rw [if_neg apart, runs, space]
    dsimp only
    rw [if_pos held, Address.add?_eq_some_iff.mpr sum]
    rfl

/-- What a process offers is what the kernel finds when it asks it. -/
theorem offers_iff (sound : (m.view live).Sound owed) (named : env.Names live) :
    env.Offers m executable offset q source from' e ↔
      env.peerOf env.current executable offset q = some (q, source, from') ∧
      (m.view live).shareable source from'.splitSlots = true ∧
      source.leaf m.ram from'.splitSlots = e := by
  rw [peerOf_eq_some_iff]
  constructor
  · intro offers
    have ready := (Machine.shareable_view_iff sound (named q source offers.space)).mpr
      ⟨offers.entry, offers.present, offers.clean, offers.counted⟩
    exact ⟨⟨offers.other, rfl, offers.space, offers.runs⟩, ready⟩
  · rintro ⟨⟨apart, -, space, runs⟩, ready⟩
    obtain ⟨found, present, clean, counted⟩ :=
      (Machine.shareable_view_iff sound (named q source space)).mp ready
    exact ⟨apart, space, runs, found, present, clean, counted⟩

theorem any_peerOf_iff (sound : (m.view live).Sound owed) (named : env.Names live) :
    (env.peerOf env.current executable offset q).any
        (fun peer => (m.view live).shareable peer.2.1 peer.2.2.splitSlots) = true ↔
      ∃ source from' e, env.Offers m executable offset q source from' e := by
  rw [Option.any_eq_true]
  constructor
  · rintro ⟨⟨q', source, from'⟩, asked, ready⟩
    obtain rfl : q' = q := (peerOf_eq_some_iff.mp asked).2.1
    exact ⟨source, from', _, (offers_iff sound named).mpr ⟨asked, ready, rfl⟩⟩
  · rintro ⟨source, from', e, offers⟩
    obtain ⟨asked, ready, -⟩ := (offers_iff sound named).mp offers
    exact ⟨_, asked, ready⟩

/-- Of several offers the first one is taken. -/
theorem exists_firstOffer (sound : (m.view live).Sound owed) (named : env.Names live)
    (sharing : m.config.sharing = true) (twice : 2 ≤ env.openCount executable)
    (offered : ∃ q ∈ env.processes, ∃ source from' e, env.Offers m executable offset q source from' e) :
    ∃ q source from' e, env.FirstOffer m executable offset q source from' e ∧
      (m.view live).peer? env env.current executable offset = some (q, source, from') := by
  obtain ⟨q₀, mem, offers₀⟩ := offered
  have some' : (env.processes.find? fun q => (env.peerOf env.current executable offset q).any
      fun peer => (m.view live).shareable peer.2.1 peer.2.2.splitSlots).isSome = true :=
    List.find?_isSome.mpr ⟨q₀, mem, (any_peerOf_iff sound named).mpr offers₀⟩
  obtain ⟨q, found⟩ := Option.isSome_iff_exists.mp some'
  obtain ⟨ready, before, after, order, refused⟩ := List.find?_eq_some_iff_append.mp found
  obtain ⟨source, from', e, offers⟩ := (any_peerOf_iff sound named).mp ready
  refine ⟨q, source, from', e, ⟨before, after, order, ?_, offers⟩, ?_⟩
  · intro q' earlier source from' e offers
    have asked := refused q' earlier
    rw [(any_peerOf_iff sound named).mpr ⟨source, from', e, offers⟩] at asked
    cases asked
  · unfold View.peer?
    rw [if_pos ⟨sharing, twice⟩, peers_eq, List.find?_filterMap, found]
    exact ((offers_iff sound named).mp offers).1

theorem peer?_of_no_offer (sound : (m.view live).Sound owed) (named : env.Names live)
    (nobody : ¬ (m.config.sharing = true ∧ 2 ≤ env.openCount executable ∧
      ∃ q ∈ env.processes, ∃ source from' e, env.Offers m executable offset q source from' e)) :
    (m.view live).peer? env env.current executable offset = none := by
  unfold View.peer?
  split
  · next asks =>
    have found : env.processes.find? (fun q => (env.peerOf env.current executable offset q).any
        fun peer => (m.view live).shareable peer.2.1 peer.2.2.splitSlots) = none := by
      rw [List.find?_eq_none]
      intro q mem
      rw [any_peerOf_iff sound named]
      intro offers
      exact nobody ⟨asks.1, asks.2, q, mem, offers⟩
    rw [peers_eq, List.find?_filterMap, found]
    rfl
  · rfl

end Environment

/-! ## Answers -/

theorem Image.source?_eq_none {address : VirtualAddress}
    (unbacked : image.executable = none ∨ address.value < image.startCode.value ∨
      image.endData ≤ address.value - image.startCode.value) : image.source? address = none := by
  rw [Option.eq_none_iff_forall_ne_some]
  rintro ⟨executable, offset⟩ backed
  obtain ⟨sum, short, held⟩ := source?_eq_some_iff.mp backed
  rcases unbacked with nothing | below | behind
  · rw [held] at nothing
    cases nothing
  · omega
  · omega

/-- A page of a process that is known cannot be filled for want of a frame or of a block. -/
theorem View.Unfilled.reason {v v' : View} {cause : MemoryError}
    (unfilled : v.Unfilled env pid s va cause v') (runs : env.image pid = some image) :
    cause = .outOfMemory ∨ ∃ error, cause = .imageRead error := by
  cases unfilled with
  | unknown nobody => cases runs.symm.trans nobody
  | anonymous => exact .inl rfl
  | shared => exact .inl rfl
  | loaded _ _ _ reason => exact reason

namespace View.Shares

variable {v v' : View} {k k' : Place}

theorem reads (shares : v.Shares source k s k' v') : v'.reads = v.reads := by
  obtain ⟨-, -, covers⟩ := shares
  exact (reads_aliased _ source k s k').trans covers.reads

/-- The page is mapped to the frame of the other one, read-only. -/
theorem leaf_goal (shares : v.Shares source k s k' v') :
    v'.leaf s k' = (v.leaf source k).writeProtected := by
  obtain ⟨-, -, covers⟩ := shares
  rw [← covers.leaf]
  exact leaf_aliased_self _ source k s k'

end View.Shares

namespace Machine

/-- What comes of a fault on a page that no executable backs. -/
structure AnswersEmpty (m : Machine) (live : Finset Space) (s : Space) (va : VirtualAddress)
    (result : Except MemoryError Resolution) (m' : Machine) : Prop where
  reads : m'.reads = m.reads
  result : result = .error .outOfMemory ∨ result = .ok .anonymous ∧
    ∃ f b, (m.config.zeroFill = true → b = Frame.zero) ∧ m.Gained live s va f b m'

/-- What comes of a fault on a page that is offered with the entry `e`. -/
structure AnswersShared (m : Machine) (s : Space) (va : VirtualAddress) (e : Entry)
    (result : Except MemoryError Resolution) (m' : Machine) : Prop where
  reads : m'.reads = m.reads
  failure : result = .error .outOfMemory ↔
    s.link m.ram va.directorySlot = none ∧ ∀ f, m.pool.refCount? f ≠ some 0
  success : result ≠ .error .outOfMemory →
    result = .ok .shared ∧ s.entry m'.ram va = .ok (some e.writeProtected)

/-- What comes of a fault on an image page that nobody offers. -/
structure AnswersAlone (m : Machine) (live : Finset Space) (s : Space) (va : VirtualAddress)
    (result : Except MemoryError Resolution) (m' : Machine) : Prop where
  success : ∀ how, result = .ok how → how = .loaded
  failure : ∀ cause, result = .error cause →
    cause = .outOfMemory ∨ ∃ error, cause = .imageRead error
  entries : ∀ s' ∈ live, ∀ k, (s', k) ≠ (s, va.splitSlots) →
    s'.leaf m'.ram k = s'.leaf m.ram k

/-- A page that is missing is filled or not, whatever kind of fault it was. -/
theorem Shows.handleFault_of_absent {v : View} (shows : m.Shows v) (sound : v.Sound owed)
    (named : env.Names v.live) (hs : s ∈ v.live) (owner : env.addressSpace env.current = some s)
    (absent : (v.leaf s va.splitSlots).present = false) (kind : FaultKind) :
    Tries (PagedMemory.handleFault env kind va) m Exhausts
      (fun how m' => ∃ v', v.Fills env env.current s va how v' ∧ m'.Shows v')
      (fun cause m' => ∃ v' terminations, v.Unfilled env env.current s va cause v' ∧
        m'.Shows { v' with terminations := terminations }) := by
  obtain ⟨found, seen, missing⟩ := shows.absent_of_entry sound.separate hs absent
  have fills := shows.fillPage sound named env.current hs absent
  apply (Tries.resolveFault_of_absent owner seen missing fills).handleFault
  · rintro how m₁ events ⟨v', fills, shows₁⟩
    exact ⟨v', fills, shows₁.remarked events⟩
  · rintro cause m₁ events ⟨v', unfilled, shows₁⟩
    have ended : Machine.Shows { m₁ with
        events := events, terminations := m₁.terminations.push (env.current, cause) }
        { v' with terminations := m₁.terminations.push (env.current, cause) } :=
      { shows₁ with terminations := rfl }
    exact ⟨v', _, unfilled, ended⟩

/-- What handling a fault on a missing page has ended in. -/
def Settles (m : Machine) (live : Finset Space) (env : Environment) (s : Space)
    (va : VirtualAddress) (result : Except MemoryError Resolution) (m' : Machine) : Prop :=
  match result with
  | .ok how => ∃ v', (m.view live).Fills env env.current s va how v' ∧ m'.Shows v'
  | .error cause => ∃ v' terminations, (m.view live).Unfilled env env.current s va cause v' ∧
      m'.Shows { v' with terminations := terminations }

namespace Settles

variable {result : Except MemoryError Resolution}

theorem answersEmpty (settles : m.Settles live env s va result m')
    (sound : (m.view live).Sound owed) (hs : s ∈ live)
    (absent : (s.leaf m.ram va.splitSlots).present = false)
    (runs : env.image env.current = some image)
    (unbacked : image.source? (va.alignDown .small) = none) : m.AnswersEmpty live s va result m' := by
  have never {image' : Image} {x : ExecutableId × Nat} (runs' : env.image env.current = some image')
      (backed : image'.source? (va.alignDown .small) = some x) : False := by
    cases runs.symm.trans runs'
    cases unbacked.symm.trans backed
  cases result with
  | ok how =>
    obtain ⟨v', fills, shows⟩ := settles
    cases fills with
    | @anonymous _ f t b w _ _ cleared covers free =>
      have covers' : View.Covers { m.view live with reads := m.reads } s va.directorySlot t w :=
        covers
      have gained := shows.gained sound hs absent covers' free
      exact ⟨shows.reads.trans covers.reads, .inr ⟨rfl, f, b, cleared, gained⟩⟩
    | shared runs' backed => exact (never runs' backed).elim
    | loaded runs' backed => exact (never runs' backed).elim
  | error cause =>
    obtain ⟨v', terminations, unfilled, shows⟩ := settles
    cases unfilled with
    | unknown nobody => cases runs.symm.trans nobody
    | anonymous => exact ⟨shows.reads, .inl rfl⟩
    | shared runs' backed => exact (never runs' backed).elim
    | loaded runs' backed => exact (never runs' backed).elim

/-- The page table that the page lacks is made of the last free frame, if there is one. -/
theorem answersShared (settles : m.Settles live env s va result m')
    (sound : (m.view live).Sound owed) (named : env.Names live) (hs : s ∈ live)
    (absent : (s.leaf m.ram va.splitSlots).present = false)
    (runs : env.image env.current = some image)
    (backed : image.source? (va.alignDown .small) = some (executable, offset))
    (chosen : (m.view live).peer? env env.current executable offset = some (q, source, from')) :
    m.AnswersShared s va (source.leaf m.ram from'.splitSlots) result m' := by
  cases result with
  | ok how =>
    obtain ⟨v', fills, shows⟩ := settles
    have acts : View.Acts (env.Serves m.config s va) (m.view live) owed v' owed :=
      fills.acts hs named absent
    have sound' := acts.sound sound
    have hs' : s ∈ v'.live := (acts.live fun _ h => h.lasting) ▸ hs
    have answers : (m.view live).Answers env s va .notPresent how v' := .filled absent fills
    have mapped := answers.leaf_present
    cases fills with
    | anonymous runs' unbacked =>
      cases runs.symm.trans runs'
      cases backed.symm.trans unbacked
    | loaded runs' backed' alone =>
      cases runs.symm.trans runs'
      cases backed.symm.trans backed'
      cases chosen.symm.trans alone
    | shared runs' backed' chosen' shares =>
      cases runs.symm.trans runs'
      cases backed.symm.trans backed'
      cases chosen.symm.trans chosen'
      refine ⟨shows.reads.trans shares.reads, ?_, ?_⟩
      · refine iff_of_false nofun ?_
        rintro ⟨vacant, full⟩
        obtain ⟨-, -, covers⟩ := shares
        cases covers with
        | already linked => cases vacant.symm.trans linked
        | anew _ free => exact full _ (free_view_iff.mp free)
      · intro _
        have found := shows.entry_of_present sound'.separate hs' mapped
        rw [shares.leaf_goal] at found
        exact ⟨rfl, found⟩
  | error cause =>
    obtain ⟨v', terminations, unfilled, shows⟩ := settles
    cases unfilled with
    | unknown nobody => cases runs.symm.trans nobody
    | anonymous runs' unbacked =>
      cases runs.symm.trans runs'
      cases backed.symm.trans unbacked
    | shared _ _ _ vacant full =>
      refine ⟨shows.reads, iff_of_true rfl ⟨vacant, ?_⟩, fun other => absurd rfl other⟩
      exact fun f free => full f (free_view_iff.mpr free)
    | loaded runs' backed' alone =>
      cases runs.symm.trans runs'
      cases backed.symm.trans backed'
      cases chosen.symm.trans alone

theorem answersAlone (settles : m.Settles live env s va result m')
    (sound : (m.view live).Sound owed) (hs : s ∈ live)
    (absent : (s.leaf m.ram va.splitSlots).present = false)
    (runs : env.image env.current = some image)
    (backed : image.source? (va.alignDown .small) = some (executable, offset))
    (alone : (m.view live).peer? env env.current executable offset = none) :
    m.AnswersAlone live s va result m' := by
  cases result with
  | ok how =>
    obtain ⟨v', fills, shows⟩ := settles
    cases fills with
    | anonymous runs' unbacked =>
      cases runs.symm.trans runs'
      cases backed.symm.trans unbacked
    | shared runs' backed' chosen =>
      cases runs.symm.trans runs'
      cases backed.symm.trans backed'
      cases chosen.symm.trans alone
    | loaded _ _ _ _ covers free =>
      refine ⟨?_, nofun, (shows.gained sound hs absent covers free).entries⟩
      rintro _ ⟨⟩
      rfl
  | error cause =>
    obtain ⟨v', terminations, unfilled, shows⟩ := settles
    have reason := unfilled.reason runs
    obtain ⟨reads, rfl⟩ := unfilled.view_eq
    refine ⟨nofun, ?_, fun s' hs' k _ => shows.leaf s' hs' k⟩
    rintro _ ⟨⟩
    exact reason

end Settles

end Machine

/-- A page that is missing is filled, whatever kind of fault it was. Without an executable behind
it, it gets a frame of its own. If pages are shared, the executable is held open twice and another
process offers the page, the first one that does shares it, and the fault fails for want of memory
exactly if the page lacks a page table and no frame is free. No block is read for either. In all
other cases the page is loaded, or the fault fails, and no other page changes. The kernel stops only
if the cache has been emptied too often to be counted. -/
theorem missing_pages_are_filled (sound : (m.view live).Sound owed)
    (counted : ∀ f n, m.pool.refCount? f = some n → n < 65535) (named : env.Names live)
    (owner : env.addressSpace env.current = some s) (runs : env.image env.current = some image)
    (missing : ∀ e, s.entry m.ram va = .ok (some e) → e.present = false) (kind : FaultKind) :
    ((∃ cause, outcome (handleFault env kind va) m = .error cause) →
      flushLimit ≤ m.flushes + 1) ∧
    ∀ result m', outcome (handleFault env kind va) m = .ok (result, m') →
      (image.executable = none ∨ (va.alignDown .small).value < image.startCode.value ∨
          image.endData ≤ (va.alignDown .small).value - image.startCode.value →
        m.AnswersEmpty live s va result m') ∧
      ∀ executable offset, image.executable = some executable →
        image.startCode.value + offset = (va.alignDown .small).value → offset < image.endData →
        ((m.config.sharing = true ∧ 2 ≤ env.openCount executable ∧ ∃ q ∈ env.processes,
            ∃ source from' e, env.Offers m executable offset q source from' e) →
          ∃ q source from' e, env.FirstOffer m executable offset q source from' e ∧
            m.AnswersShared s va e result m') ∧
        (¬ (m.config.sharing = true ∧ 2 ≤ env.openCount executable ∧ ∃ q ∈ env.processes,
            ∃ source from' e, env.Offers m executable offset q source from' e) →
          m.AnswersAlone live s va result m') := by
  have hs := named _ s owner
  have shows := m.shows_view live
  have absent : (s.leaf m.ram va.splitSlots).present = false := by
    by_contra present
    rw [Bool.not_eq_false] at present
    have gone := missing _ (shows.entry_of_present sound.separate hs present)
    cases present.symm.trans gone
  constructor
  · rintro ⟨cause, stop⟩
    by_contra room
    have served : Served env owed m := ⟨_, shows, sound, named⟩
    obtain ⟨f, -, managed, most⟩ := (served.handleFault (Nat.not_le.mp room) kind va).of_error stop
    have less := counted f _ (if_pos managed)
    omega
  intro result m' run
  have handled := shows.handleFault_of_absent sound named hs owner absent kind
  have settles : m.Settles live env s va result m' := by
    cases result with
    | ok how => exact handled.done_of_run run
    | error cause => exact handled.failed_of_run run
  constructor
  · intro unbacked
    exact settles.answersEmpty sound hs absent runs (Image.source?_eq_none unbacked)
  intro executable offset held sum short
  have backed := Image.source?_eq_some_iff.mpr ⟨sum, short, held⟩
  constructor
  · rintro ⟨sharing, twice, offered⟩
    obtain ⟨q, source, from', e, first, chosen⟩ :=
      Environment.exists_firstOffer sound named sharing twice offered
    refine ⟨q, source, from', e, first, ?_⟩
    obtain ⟨-, -, -, -, offers⟩ := first
    obtain ⟨-, -, rfl⟩ := (Environment.offers_iff sound named).mp offers
    exact settles.answersShared sound named hs absent runs backed chosen
  · intro nobody
    exact settles.answersAlone sound hs absent runs backed
      (Environment.peer?_of_no_offer sound named nobody)

section Tiny

theorem FramePool.lt_of_refCount? {p : FramePool} {n : Nat}
    (small : p.counts.all (· < 65535) = true) (counted : p.refCount? f = some n) : n < 65535 := by
  unfold refCount? at counted
  split at counted
  · rw [← Option.some.inj counted, count, Array.getD_eq_getD_getElem?]
    cases found : p.counts[f.index - p.first]? with
    | none => decide
    | some c =>
      have bounded := Array.all_eq_true'.mp small c (Array.mem_of_getElem? found)
      exact of_decide_eq_true bounded
  · cases counted

/-- Two processes with one executable, of which the first one has its page. -/
def tinySharers : Environment where
  current := 2
  processes := [1, 2]
  addressSpace pid := if pid = 1 then some tinySpace else if pid = 2 then some tinyOther else none
  image _ := some ⟨some ⟨1⟩, .zero, 0, 65536, 65536⟩
  openCount _ := 2
  device _ := 0
  blockMap _ _ := 0
  readBlock device block := .error ⟨device, block⟩

theorem names_tinySharers : tinySharers.Names tinySpaces.1.live := by
  have first : tinySpace ∈ tinySpaces.1.live := by decide +kernel
  have other : tinyOther ∈ tinySpaces.1.live := by decide +kernel
  intro pid s owner
  unfold tinySharers at owner
  dsimp only at owner
  split at owner
  · cases owner
    exact first
  · split at owner
    · cases owner
      exact other
    · cases owner

def tinyMissing : Attempt Resolution :=
  handleFault tinySharers .notPresent tinyPage

theorem missing_pages_are_filled_tiny :
    outcome tinyMissing tinySpaces.2 = .ok (.ok .shared, tinySpaces.2.after tinyMissing) ∧
    ∃ q source from' e, tinySharers.FirstOffer tinySpaces.2 ⟨1⟩ 4096 q source from' e ∧
      tinySpaces.2.AnswersShared tinyOther tinyPage e (.ok .shared)
        (tinySpaces.2.after tinyMissing) := by
  have small : tinySpaces.2.pool.counts.all (· < 65535) = true := by decide +kernel
  have owner : tinySharers.addressSpace tinySharers.current = some tinyOther := rfl
  have runs : tinySharers.image tinySharers.current = some ⟨some ⟨1⟩, .zero, 0, 65536, 65536⟩ := rfl
  have vacant : tinyOther.entry tinySpaces.2.ram tinyPage = .ok none := by decide +kernel
  have missing (e : Entry) (found : tinyOther.entry tinySpaces.2.ram tinyPage = .ok (some e)) :
      e.present = false := by
    cases vacant.symm.trans found
  have run : outcome tinyMissing tinySpaces.2 =
      .ok (.ok .shared, tinySpaces.2.after tinyMissing) := Machine.run_of_product (by decide +kernel)
  have offers : tinySharers.Offers tinySpaces.2 ⟨1⟩ 4096 1 tinySpace tinyPage
      (.make (tinyFrame 3) .userWritable) :=
    ⟨by decide, rfl, ⟨_, rfl, rfl, rfl⟩, by decide +kernel, rfl, rfl, by decide +kernel⟩
  have filled := (missing_pages_are_filled sound_tinySpaces
    (fun f n counted => FramePool.lt_of_refCount? small counted) names_tinySharers owner runs missing
    .notPresent).2 _ _ run
  have backed := filled.2 ⟨1⟩ 4096 rfl rfl (by decide)
  exact ⟨run, backed.1 ⟨by decide +kernel, by decide, 1, by decide, _, _, _, offers⟩⟩

end Tiny

end PagedMemory
