import PagedMemory.Proofs.ReferenceCounts
import PagedMemory.Proofs.Terminations

/-!
# What stops the kernel

Whatever a process does, the kernel answers: with success, or with an error that the
process is ended for. In a sound view the only reasons to stop are counters that run out
(`Exhausts`), and what an answer spends is bounded (`Machine.Spends`), so that a counter
of flushes with some room left does not run out either.

There remains the count of a frame. Only sharing a page adds to it, so it has to be full
when the page is shared, and the page that was asked for must be missing. After a page has
been shared the same access adds to no count again.
-/

namespace PagedMemory

variable {α β : Type}

/-- The attempt comes to an end, successful or not, or stops for one of these reasons. -/
def Returns (op : Attempt α) (m : Machine) (stops : Halt → Prop) : Prop :=
  Tries op m stops (fun _ _ => True) fun _ _ => True

/-- So many flushes are enough for access to all pages that a process has. -/
def flushReserve : Nat :=
  maxTries * 1048576

/-- The kernel stops because a frame has no room for one more reference. -/
def Machine.Crowded (m : Machine) (cause : Halt) : Prop :=
  ∃ f, cause = .countOverflow f ∧ m.Full f

theorem length_pageChunks_le {address : VirtualAddress} {length : Nat}
    (fits : address.value + length ≤ 4294967296) : (pageChunks address length).length ≤ 1048576 := by
  unfold pageChunks
  simp only [List.length_map, List.length_range]
  split
  · exact Nat.zero_le _
  · omega

theorem length_touchedPages_le (address : VirtualAddress) (size : Nat) :
    (touchedPages address size).length ≤ 1048576 := by
  unfold touchedPages
  simp only [List.length_map, List.length_range]
  omega

theorem faultOf_of_present {e : Entry} {write : Bool} {kind : FaultKind}
    (present : e.present = true) (raised : faultOf e write = some kind) :
    kind = .writeProtect := by
  unfold faultOf at raised
  rw [present, if_neg (by decide)] at raised
  split at raised
  · cases raised
    rfl
  · cases raised

/-- With room for the flushes, a counter that runs out is the count of a frame. -/
theorem Machine.Halts.full_of_exhausts {m : Machine} {n : Nat} {P : FrameId → Prop} {cause : Halt}
    (stop : m.Halts n P cause) (exhausts : Exhausts cause) (room : m.flushes + n < flushLimit) :
    ∃ f, cause = .countOverflow f ∧ P f := by
  cases exhausts with
  | flushes =>
    have := stop.overruns rfl
    omega
  | references f => exact ⟨f, rfl, stop.full f rfl⟩

/-- What only empties the cache, and that once, stops only where this cannot be counted. -/
theorem Machine.Halts.flush_of_exhausts {m : Machine} {cause : Halt}
    (halts : m.Halts 1 (fun _ => False) cause) (exhausts : Exhausts cause) :
    cause = .overflow ∧ flushLimit ≤ m.flushes + 1 := by
  cases exhausts with
  | flushes => exact ⟨rfl, halts.overruns rfl⟩
  | references f => exact (halts.full f rfl).elim

/-- A copy has room for the flushes of all its pieces. -/
theorem Machine.Halts.full_of_chunks {m : Machine} {P : FrameId → Prop} {cause : Halt}
    {address : VirtualAddress} {length : Nat}
    (stop : m.Halts (maxTries * (pageChunks address length).length) P cause)
    (exhausts : Exhausts cause) (room : m.flushes + flushReserve < flushLimit)
    (fits : address.value + length ≤ 4294967296) : ∃ f, cause = .countOverflow f ∧ P f := by
  apply stop.full_of_exhausts exhausts
  have pieces := Nat.mul_le_mul_left maxTries (length_pageChunks_le fits)
  exact Nat.lt_of_le_of_lt (Nat.add_le_add_left pieces m.flushes) room

namespace View

variable {v v' : View} {env : Environment} {s : Space} {va : VirtualAddress}

/-- A fault that was answered leaves a page behind. -/
theorem Answers.leaf_present {kind : FaultKind} {how : Resolution}
    (answers : v.Answers env s va kind how v') : (v'.leaf s va.splitSlots).present = true := by
  cases answers with
  | unshared unshares =>
    cases unshares with
    | spurious present => exact present
    | madeWritable present =>
      rw [flushed, leaf_setLeaf_self]
      exact present
    | copied =>
      rw [flushed, leaf_copied_self]
      rfl
  | present present => exact present
  | filled absent fills =>
    cases fills with
    | anonymous =>
      rw [leaf_filled_self]
      rfl
    | loaded =>
      rw [leaf_filled_self]
      rfl
    | shared _ _ _ shares =>
      obtain ⟨ready, _, covers⟩ := shares
      rw [flushed, leaf_aliased_self, covers.leaf]
      exact present_of_shareable ready

end View

namespace Machine.Shows

variable {m : Machine} {v : View} {o : Owed} {env : Environment}

/-- The answer to the fault of an access adds to a count only if no page was found. -/
private theorem handleFault_crowded {s : Space} {va : VirtualAddress} {write : Bool}
    {kind : FaultKind} {found : Option Entry}
    (owner : env.addressSpace env.current = some s) (seen : s.entry m.ram va = .ok found)
    (raised : faultOf (found.getD .zero) write = some kind) :
    Tries (PagedMemory.handleFault env kind va) m
      (m.Halts 1 fun f => m.Full f ∧ (found.getD .zero).present = false)
      (fun _ m' => m.Spends 1 m')
      (fun cause m' => m'.terminations = m.terminations.push (env.current, cause)) := by
  by_cases present : (found.getD .zero).present = true
  · cases faultOf_of_present present raised
    cases found with
    | none => cases present
    | some e => exact handleFault_of_present owner seen present
  · rw [Bool.not_eq_true] at present
    exact (Machine.handleFault env m kind va).mono_stops fun cause stop =>
      stop.mono fun f full => ⟨full, present⟩

/-- An access that adds to a count that is full finds no page. -/
theorem accessWithin_crowded (sound : v.Sound o) (named : env.Names v.live) {s : Space}
    (owner : env.addressSpace env.current = some s) (va : VirtualAddress) (write : Bool)
    (tries : Nat) (m : Machine) (shows : m.Shows v) :
    Returns (PagedMemory.accessWithin env va write tries) m fun cause =>
      ∀ f, cause = .countOverflow f → m.Full f ∧ (v.leaf s va.splitSlots).present = false := by
  have hs := named _ s owner
  induction tries generalizing m v with
  | zero => exact Tries.halt nofun
  | succ tries ih =>
    unfold PagedMemory.accessWithin Returns
    rw [owner]
    have never {cause : Halt} (stop : m.Halts 0 (fun _ => False) cause) (f : FrameId)
        (same : cause = .countOverflow f) :
        m.Full f ∧ (v.leaf s va.splitSlots).present = false :=
      (stop.full f same).elim
    refine Tries.lift_bind (((shows.findLeaf sound.separate hs va).and
      (Halts.findEntry s va)).mono_stops fun cause stop => never stop.2) ?_
    rintro found _ ⟨⟨leaf, -⟩, seen, rfl⟩
    rw [← leaf] at never ⊢
    dsimp only
    cases raised : faultOf (found.getD .zero) write with
    | none =>
      refine Tries.discard_bind (P := fun _ => True) ?_ fun _ _ => Tries.pure trivial
      exact (((Spares.refl _).updateEntry s va _).mono fun _ _ _ => trivial).mono_stops
        fun cause stop => never stop
    | some kind =>
      refine Tries.bind (P := fun _ m' => ∃ v', (v'.leaf s va.splitSlots).present = true ∧
        v'.Sound o ∧ v'.live = v.live ∧ m'.Shows v') (Tries.discard ?_) ?_
      · refine (((shows.handleFault sound named kind va).and
          (handleFault_crowded owner seen raised)).mono ?_
          fun _ _ _ => trivial).mono_stops fun cause stop => stop.2.full
        rintro how m₁ ⟨⟨s', v', owner', answers, shows₁⟩, -⟩
        rw [owner] at owner'
        cases owner'
        have acts : View.Acts (env.Serves v.config s va) v o v' o := answers.acts hs named
        exact ⟨v', answers.leaf_present, acts.sound sound, acts.live fun _ h => h.lasting, shows₁⟩
      · rintro _ m₂ ⟨v', present, sound', live, shows₂⟩
        refine (ih sound' (live ▸ named) m₂ shows₂ (live ▸ hs)).mono_stops fun cause stop f same => ?_
        have := (stop f same).2
        rw [present] at this
        cases this

theorem access_crowded (shows : m.Shows v) (sound : v.Sound o) (named : env.Names v.live)
    (va : VirtualAddress) (write : Bool) :
    Returns (PagedMemory.access env va write) m fun cause =>
      ∀ f, cause = .countOverflow f → m.Full f := by
  cases owner : env.addressSpace env.current with
  | none =>
    unfold PagedMemory.access PagedMemory.accessWithin Returns
    rw [owner]
    exact Tries.fail trivial
  | some s =>
    refine (accessWithin_crowded sound named owner va write maxTries m shows).mono_stops ?_
    exact fun cause stop f same => (stop f same).1

end Machine.Shows

/-- The machine shows a sound view in which the environment names live spaces only. -/
def Served (env : Environment) (owed : Owed) (m : Machine) : Prop :=
  ∃ v, m.Shows v ∧ v.Sound owed ∧ env.Names v.live

namespace Served

variable {m m' : Machine} {owed : Owed} {env : Environment}

/-- A counter runs out. If it is the count of a frame, that is full by now. -/
def Stops (m : Machine) (cause : Halt) : Prop :=
  Exhausts cause ∧ ∀ f, cause = .countOverflow f → m.Full f

theorem copyChunkOut (served : Served env owed m) (address : VirtualAddress) (bytes : List UInt8)
    (chunk : Chunk) :
    Tries (PagedMemory.copyChunkOut env address bytes chunk) m (Stops m)
      (fun _ m' => Served env owed m') fun _ _ => True := by
  obtain ⟨v, shows, sound, named⟩ := served
  have crowded : Returns (PagedMemory.copyChunkOut env address bytes chunk) m fun cause =>
      ∀ f, cause = .countOverflow f → m.Full f := by
    refine Tries.bind (shows.access_crowded sound named _ true) fun f m₁ _ => ?_
    have stored (change : Frame → Frame) : Ends (modifyFrame f change) m₁
        (m₁.Halts 0 fun _ => False) fun _ _ => True :=
      ((Machine.Spares.refl m₁).modifyFrame f change).mono fun _ _ _ => trivial
    refine Tries.lift ((stored _).mono_stops ?_)
    exact fun cause stop f same => (stop.full f same).elim
  refine ((shows.copyChunkOut sound named address bytes chunk).and crowded).mono ?_
    fun _ _ _ => trivial
  rintro _ m₁ ⟨⟨s, w, accessed, shows₁⟩, -⟩
  have live : w.live = v.live := (accessed.acts owed).live_of_accesses
  exact ⟨_, shows₁, ((accessed.acts owed).sound sound).setBytes _ _, live ▸ named⟩

theorem copyChunkIn (served : Served env owed m) (address : VirtualAddress) (chunk : Chunk) :
    Tries (PagedMemory.copyChunkIn env address chunk) m (Stops m)
      (fun _ m' => Served env owed m') fun _ _ => True := by
  obtain ⟨v, shows, sound, named⟩ := served
  have crowded : Returns (PagedMemory.copyChunkIn env address chunk) m fun cause =>
      ∀ f, cause = .countOverflow f → m.Full f := by
    refine Tries.bind (shows.access_crowded sound named _ false) fun f m₁ _ => ?_
    have read : Ends (readFrame f) m₁ (m₁.Halts 0 fun _ => False) fun _ _ => True :=
      (Machine.Halts.readFrame f).mono fun _ _ _ => trivial
    refine Tries.lift_bind (P := fun _ _ => True) (read.mono_stops ?_)
      fun _ _ _ => Tries.pure trivial
    exact fun cause stop f same => (stop.full f same).elim
  refine ((shows.copyChunkIn sound named address chunk).and crowded).mono ?_ fun _ _ _ => trivial
  rintro _ m₁ ⟨⟨s, w, accessed, -, shows₁⟩, -⟩
  have live : w.live = v.live := (accessed.acts owed).live_of_accesses
  exact ⟨w, shows₁, (accessed.acts owed).sound sound, live ▸ named⟩

end Served

/-- Some pieces of a buffer were stored, and then the kernel stopped at a count that is full. -/
def CrowdedOut (env : Environment) (address : VirtualAddress) (bytes : List UInt8) (m : Machine)
    (cause : Halt) : Prop :=
  ∃ before chunk after m', pageChunks address bytes.length = before ++ chunk :: after ∧
    outcome (before.forM (copyChunkOut env address bytes)) m = .ok (.ok (), m') ∧ m'.Crowded cause

/-- Some pieces of a buffer were fetched, and then the kernel stopped at a count that is full. -/
def CrowdedIn (env : Environment) (address : VirtualAddress) (length : Nat) (m : Machine)
    (cause : Halt) : Prop :=
  ∃ before chunk after pieces m', pageChunks address length = before ++ chunk :: after ∧
    outcome (before.mapM (copyChunkIn env address)) m = .ok (.ok pieces, m') ∧ m'.Crowded cause

namespace Served

variable {m : Machine} {owed : Owed} {env : Environment}

theorem handleFault (served : Served env owed m) (room : m.flushes + 1 < flushLimit)
    (kind : FaultKind) (va : VirtualAddress) :
    Returns (PagedMemory.handleFault env kind va) m m.Crowded := by
  obtain ⟨v, shows, sound, named⟩ := served
  have both := (shows.handleFault sound named kind va).and (Machine.handleFault env m kind va)
  refine (both.mono (fun _ _ _ => trivial) fun _ _ _ => trivial).mono_stops ?_
  rintro cause ⟨exhausts, stop⟩
  exact stop.full_of_exhausts exhausts room

theorem verifyArea (served : Served env owed m) (room : m.flushes + 1048576 < flushLimit)
    (address : VirtualAddress) (size : Nat) :
    Returns (PagedMemory.verifyArea env address size) m fun _ => False := by
  obtain ⟨v, shows, sound, named⟩ := served
  have both := (shows.verifyArea sound named address size).and
    (Machine.Spends.verifyArea (P := fun _ => False) m address size)
  refine (both.mono (fun _ _ _ => trivial) fun _ _ _ => trivial).mono_stops ?_
  rintro cause ⟨exhausts, stop⟩
  have pages := length_touchedPages_le address size
  obtain ⟨f, same, never⟩ := stop.full_of_exhausts exhausts (by omega)
  exact never

theorem copyToUser (served : Served env owed m) (room : m.flushes + flushReserve < flushLimit)
    {address : VirtualAddress} {bytes : List UInt8}
    (fits : address.value + bytes.length ≤ 4294967296) :
    Returns (PagedMemory.copyToUser env address bytes) m (CrowdedOut env address bytes m) := by
  have loop := Tries.forM_stops (Served env owed)
    (fun chunk _ served => served.copyChunkOut address bytes chunk)
    (pageChunks address bytes.length) m served
  have copy : Returns (PagedMemory.copyToUser env address bytes) m fun cause =>
      ∃ before chunk after m', pageChunks address bytes.length = before ++ chunk :: after ∧
      outcome (before.forM (PagedMemory.copyChunkOut env address bytes)) m = .ok (.ok (), m') ∧
      Stops m' cause := by
    unfold PagedMemory.copyToUser requireNoWrap
    rw [if_pos fits]
    refine Tries.lift_bind (P := fun _ m' => m' = m) (Ends.pure rfl) fun _ _ same => ?_
    rw [same]
    exact loop
  have both := copy.and (Machine.Spends.copyToUser m address bytes)
  refine (both.mono (fun _ _ _ => trivial) fun _ _ _ => trivial).mono_stops ?_
  rintro cause ⟨⟨before, chunk, after, m', cut, run, exhausts, full⟩, stop⟩
  obtain ⟨f, rfl, -⟩ := stop.full_of_chunks exhausts room fits
  exact ⟨before, chunk, after, m', cut, run, f, rfl, full f rfl⟩

theorem copyFromUser (served : Served env owed m) (room : m.flushes + flushReserve < flushLimit)
    {address : VirtualAddress} {length : Nat} (fits : address.value + length ≤ 4294967296) :
    Returns (PagedMemory.copyFromUser env address length) m (CrowdedIn env address length m) := by
  have loop := Tries.mapM_stops (Served env owed)
    (fun chunk _ served => served.copyChunkIn address chunk) (pageChunks address length) m served
  have copy : Returns (PagedMemory.copyFromUser env address length) m fun cause =>
      ∃ before chunk after pieces m', pageChunks address length = before ++ chunk :: after ∧
      outcome (before.mapM (PagedMemory.copyChunkIn env address)) m = .ok (.ok pieces, m') ∧
      Stops m' cause := by
    unfold PagedMemory.copyFromUser requireNoWrap
    rw [if_pos fits]
    refine Tries.lift_bind (P := fun _ m' => m' = m) (Ends.pure rfl) fun _ _ same => ?_
    rw [same]
    exact loop.bind fun _ _ _ => Tries.pure trivial
  have both := copy.and (Machine.Spends.copyFromUser m address length)
  refine (both.mono (fun _ _ _ => trivial) fun _ _ _ => trivial).mono_stops ?_
  rintro cause ⟨⟨before, chunk, after, fetched, m', cut, run, exhausts, full⟩, stop⟩
  obtain ⟨f, rfl, -⟩ := stop.full_of_chunks exhausts room fits
  exact ⟨before, chunk, after, fetched, m', cut, run, f, rfl, full f rfl⟩

end Served

/-- The kernel goes on running whatever a process does. In a sound state, with room for some
flushes and an environment that names live spaces only, a fault is answered or ends the process,
and so do copies that lie below 4 GiB, unless the kernel stops at a frame whose count has come to
its end already. Making pages writable never stops it. -/
theorem user_activity_returns {m : Machine} {live : Finset Space} {owed : Owed} {env : Environment}
    (sound : (m.view live).Sound owed) (named : env.Names live)
    (room : m.flushes + flushReserve < flushLimit) :
    (∀ kind va, Returns (handleFault env kind va) m m.Crowded) ∧
    (∀ address size, Returns (verifyArea env address size) m fun _ => False) ∧
    (∀ address bytes, address.value + bytes.length ≤ 4294967296 →
      Returns (copyToUser env address bytes) m (CrowdedOut env address bytes m)) ∧
    ∀ address length, address.value + length ≤ 4294967296 →
      Returns (copyFromUser env address length) m (CrowdedIn env address length m) := by
  have served : Served env owed m := ⟨_, m.shows_view live, sound, named⟩
  have less : m.flushes + 1048576 < flushLimit := by
    unfold flushReserve maxTries at room
    omega
  refine ⟨?_, ?_, ?_, ?_⟩
  · intro kind va
    exact served.handleFault (by omega) kind va
  · intro address size
    exact served.verifyArea less address size
  · intro address bytes fits
    exact served.copyToUser room fits
  · intro address length fits
    exact served.copyFromUser room fits

/-- A copy to a shared page and one to a missing page go on after the fault that they raise. -/
theorem user_activity_returns_tiny :
    (tinyAliased.2.view tinyAliased.1.live).Sound (tinyAliased.1.owed .tiny) ∧
    tinyWriter.Names tinyAliased.1.live ∧ tinyAliased.2.flushes + flushReserve < flushLimit ∧
    tinySpace.entry tinyAliased.2.ram tinyPage = .ok (some (.make (tinyFrame 3) .userReadOnly)) ∧
    Returns (copyToUser tinyWriter tinyPage [1, 2, 3]) tinyAliased.2
      (CrowdedOut tinyWriter tinyPage [1, 2, 3] tinyAliased.2) ∧
    tinyAliased.2.product (copyToUser tinyWriter tinyPage [1, 2, 3]) = some () ∧
    tinySpace.entry tinyAliased.2.ram tinyBehind = .ok (some .zero) ∧
    Returns (copyToUser tinyWriter tinyBehind [1, 2, 3]) tinyAliased.2
      (CrowdedOut tinyWriter tinyBehind [1, 2, 3] tinyAliased.2) ∧
    tinyAliased.2.product (copyToUser tinyWriter tinyBehind [1, 2, 3]) = some () := by
  have named : tinyWriter.Names tinyAliased.1.live :=
    Environment.names_solitary (by decide +kernel) 1 _
  have room : tinyAliased.2.flushes + flushReserve < flushLimit := by decide +kernel
  have shared : tinySpace.entry tinyAliased.2.ram tinyPage =
      .ok (some (.make (tinyFrame 3) .userReadOnly)) := by decide +kernel
  have missing : tinySpace.entry tinyAliased.2.ram tinyBehind = .ok (some .zero) := by
    decide +kernel
  have copies := (user_activity_returns sound_tinyAliased named room).2.2.1
  exact ⟨sound_tinyAliased, named, room, shared, copies _ _ (by decide), by decide +kernel,
    missing, copies _ _ (by decide), by decide +kernel⟩

end PagedMemory
