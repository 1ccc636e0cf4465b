import PagedMemory.UserAccess
import PagedMemory.Proofs.Lookups

/-!
# Access to user memory

An access is tried again after every fault that was answered, and every answer brings
the page closer to what the access needs (`Answers.faults_lt`): two answers always
suffice, which is why three tries do.

What an access leaves is a view in which the page can be used (`View.Accessed`). It
comes about by changes that `Environment.Accesses` admits; a copy to user memory stores
bytes in pages that were reached in this way, and in no others.

Whatever a process asks for (`Request`), it is served by one sequence of such changes to
the pages that it asks for (`Machine.Shows.request`).
-/

namespace PagedMemory

/-- How many faults an access to a page meets at most. -/
def faultsAhead (e : Entry) (write : Bool) : Nat :=
  if e.present = false then if write then 2 else 1
  else if write && !e.writable then 1 else 0

theorem faultOf_eq_none_iff {e : Entry} {write : Bool} :
    faultOf e write = none ↔
      e.present = true ∧ (write = true → e.writable = true) := by
  unfold faultOf
  cases e.present <;> cases e.writable <;> cases write <;> simp

/-- The changes that access to some addresses of the current process may make. -/
inductive Environment.Accesses (env : Environment) (config : Config)
    (within : VirtualAddress → Prop) : Change → Prop
  | note : Accesses env config within .note
  | serve {s : Space} {va : VirtualAddress} {c : Change}
      (owner : env.addressSpace env.current = some s) (inside : within va)
      (serves : env.Serves config s va c) : Accesses env config within c
  | touch {s : Space} {va : VirtualAddress} {write : Bool}
      (owner : env.addressSpace env.current = some s) (inside : within va) :
      Accesses env config within (.touch s va.splitSlots write)

/-- The changes that copying to some addresses of the current process may make. -/
inductive Environment.Stores (env : Environment) (config : Config)
    (within : VirtualAddress → Prop) : Change → Prop
  | access {c : Change} (accesses : env.Accesses config within c) : Stores env config within c
  | store {s : Space} {va : VirtualAddress} {b : Frame}
      (owner : env.addressSpace env.current = some s) (inside : within va) :
      Stores env config within (.store s va.splitSlots b)

theorem Environment.Accesses.mono {env : Environment} {config : Config}
    {within within' : VirtualAddress → Prop} {c : Change} (h : env.Accesses config within c)
    (imp : ∀ va, within va → within' va) : env.Accesses config within' c := by
  cases h with
  | note => exact .note
  | serve owner inside serves => exact .serve owner (imp _ inside) serves
  | touch owner inside => exact .touch owner (imp _ inside)

namespace View

variable {v v' : View} {o o' : Owed} {env : Environment} {s : Space} {va : VirtualAddress}

/-- An answered fault leaves fewer of them ahead. -/
theorem Answers.faults_lt {kind : FaultKind} {how : Resolution} {write : Bool}
    (answers : v.Answers env s va kind how v')
    (raised : faultOf (v.leaf s va.splitSlots) write = some kind) :
    faultsAhead (v'.leaf s va.splitSlots) write < faultsAhead (v.leaf s va.splitSlots) write := by
  have none_ahead {e : Entry} (present : e.present = true) (writable : e.writable = true) :
      faultsAhead e write = 0 := by
    simp [faultsAhead, present, writable]
  cases answers with
  | unshared unshares =>
    have present : (v.leaf s va.splitSlots).present = true := by
      cases unshares <;> assumption
    have wants : write = true ∧ (v.leaf s va.splitSlots).writable = false := by
      simpa [faultOf, present] using raised
    have ahead : faultsAhead (v.leaf s va.splitSlots) write = 1 := by
      simp [faultsAhead, present, wants]
    rw [ahead, Nat.lt_one_iff]
    cases unshares with
    | spurious _ writable =>
      rw [wants.2] at writable
      cases writable
    | madeWritable =>
      rw [flushed, leaf_setLeaf_self]
      exact none_ahead present rfl
    | copied =>
      rw [flushed, leaf_copied_self]
      exact none_ahead rfl rfl
  | present present =>
    simp [faultOf, present] at raised
  | filled absent fills =>
    have ahead : faultsAhead (v.leaf s va.splitSlots) write = if write then 2 else 1 := by
      simp [faultsAhead, absent]
    have fresh {w : View} {f : FrameId} {b : Frame} :
        faultsAhead ((w.filled s va.splitSlots f b).leaf s va.splitSlots) write = 0 := by
      rw [leaf_filled_self]
      exact none_ahead rfl rfl
    rw [ahead]
    cases fills with
    | anonymous => rw [fresh]; split <;> omega
    | loaded => rw [fresh]; split <;> omega
    | shared _ _ _ shares =>
      cases shares with
      | intro ready _ covers =>
        have present := present_of_shareable ready
        rw [flushed, leaf_aliased_self, covers.leaf]
        have last {e : Entry} (present : e.present = true) :
            faultsAhead e.writeProtected write = if write then 1 else 0 := by
          simp [faultsAhead, Entry.writeProtected, present]
        rw [last present]
        cases write <;> decide

/-- The page of an address of the current process can be used. -/
structure Accessed (v : View) (env : Environment) (va : VirtualAddress) (write : Bool) (s : Space)
    (w : View) : Prop extends v.Leads (env.Accesses v.config (· = va)) w where
  owner : env.addressSpace env.current = some s
  present : (w.leaf s va.splitSlots).present = true
  accessed : (w.leaf s va.splitSlots).accessed = true
  ready : write = true →
    (w.leaf s va.splitSlots).writable = true ∧ (w.leaf s va.splitSlots).dirty = true

end View

theorem Environment.Accesses.lasting {env : Environment} {config : Config}
    {within : VirtualAddress → Prop} {c : Change} (h : env.Accesses config within c) (s : Space) :
    c ≠ .create s ∧ c ≠ .destroy s := by
  cases h with
  | note => exact ⟨nofun, nofun⟩
  | touch => exact ⟨nofun, nofun⟩
  | serve _ _ serves => exact serves.lasting s

theorem Environment.Stores.lasting {env : Environment} {config : Config}
    {within : VirtualAddress → Prop} {c : Change} (h : env.Stores config within c) (s : Space) :
    c ≠ .create s ∧ c ≠ .destroy s := by
  cases h with
  | access accesses => exact accesses.lasting s
  | store => exact ⟨nofun, nofun⟩

theorem Environment.Stores.sparing {env : Environment} {config : Config}
    {within : VirtualAddress → Prop} {c : Change} (h : env.Stores config within c) :
    c.Sparing := by
  cases h with
  | store => trivial
  | access accesses =>
    cases accesses with
    | note => trivial
    | touch => trivial
    | serve _ _ serves => exact serves.sparing

theorem View.Acts.live_of_accesses {v v' : View} {o o' : Owed} {env : Environment}
    {config : Config} {within : VirtualAddress → Prop}
    (acts : View.Acts (env.Accesses config within) v o v' o') : v'.live = v.live :=
  acts.live fun _ h => h.lasting

theorem View.Leads.config {v v' : View} {allowed : Change → Prop} (leads : v.Leads allowed v') :
    v'.config = v.config :=
  (leads.acts 0).setting.2.2

theorem View.Leads.trans_accesses {v v' w : View} {env : Environment}
    {within : VirtualAddress → Prop} (leads : v.Leads (env.Accesses v.config within) v')
    (more : v'.Leads (env.Accesses v'.config within) w) :
    v.Leads (env.Accesses v.config within) w :=
  leads.trans (leads.config ▸ more)

/-- Changes that reach a page extend a sequence of changes. -/
theorem View.Leads.extend {v w w' : View} {env : Environment} {within : VirtualAddress → Prop}
    {va : VirtualAddress} (leads : v.Leads (env.Stores v.config within) w) (inside : within va)
    (more : w.Leads (env.Accesses w.config (· = va)) w') :
    v.Leads (env.Stores v.config within) w' := by
  refine leads.trans ((leads.config ▸ more).mono fun _ h => .access (h.mono ?_))
  rintro va' rfl
  exact inside

namespace View.Accessed

variable {v v' w : View} {o : Owed} {env : Environment} {va : VirtualAddress} {write : Bool}
  {s : Space}

/-- A page that allows the access is only marked. -/
theorem of_usable (sound : v.Sound o) (hs : s ∈ v.live)
    (owner : env.addressSpace env.current = some s)
    (present : (v.leaf s va.splitSlots).present = true)
    (allowed : write = true → (v.leaf s va.splitSlots).writable = true) :
    v.Accessed env va write s
      (v.setLeaf s va.splitSlots ((v.leaf s va.splitSlots).touched write)) := by
  refine ⟨?_, owner, ?_, ?_, fun writes => ?_⟩
  · exact .single (.touch owner rfl) (fun _ => .touch hs present allowed) sound trivial
  · rwa [leaf_setLeaf_self]
  · rw [leaf_setLeaf_self]
    rfl
  · rw [leaf_setLeaf_self, writes]
    exact ⟨allowed writes, Bool.or_true _⟩

/-- The faults that were answered first belong to the access. -/
theorem after (accessed : v'.Accessed env va write s w)
    (leads : v.Leads (env.Accesses v.config (· = va)) v') : v.Accessed env va write s w :=
  { accessed with toLeads := leads.trans_accesses accessed.toLeads }

end View.Accessed

namespace Machine.Shows

variable {m : Machine} {v : View} {o : Owed} {env : Environment}

theorem accessWithin (sound : v.Sound o) (named : env.Names v.live) (va : VirtualAddress)
    (write : Bool) (tries : Nat) (m : Machine) (shows : m.Shows v)
    (some_left : 0 < tries) (enough : ∀ s, env.addressSpace env.current = some s →
      faultsAhead (v.leaf s va.splitSlots) write < tries) :
    Tries (PagedMemory.accessWithin env va write tries) m Exhausts
      (fun f m' => ∃ s w, v.Accessed env va write s w ∧ f = (w.leaf s va.splitSlots).frame ∧
        m'.Shows w)
      (fun _ m' => ∃ w, v.Leads (env.Accesses v.config (· = va)) w ∧ m'.Shows w) := by
  induction tries generalizing m v with
  | zero => exact absurd some_left (Nat.lt_irrefl 0)
  | succ tries ih =>
    unfold PagedMemory.accessWithin
    cases owner : env.addressSpace env.current with
    | none => exact Tries.fail ⟨v, .refl v, shows⟩
    | some s =>
      have hs := named _ s owner
      refine Tries.lift_bind (shows.findLeaf sound.separate hs va) ?_
      rintro found m₁ ⟨leaf, shows₁⟩
      simp only [leaf]
      cases raised : faultOf (v.leaf s va.splitSlots) write with
      | none =>
        obtain ⟨present, allowed⟩ := faultOf_eq_none_iff.mp raised
        obtain ⟨t, linked⟩ := shows₁.link_of_present hs present
        refine Tries.discard_bind (shows₁.updateEntry sound.separate hs linked _)
          fun m₂ shows₂ => ?_
        refine Tries.pure ⟨s, _, .of_usable sound hs owner present allowed, ?_, shows₂⟩
        rw [View.leaf_setLeaf_self]
        rfl
      | some kind =>
        have ahead := enough s owner
        refine Tries.bind (P := fun _ m' => ∃ how v', v.Answers env s va kind how v' ∧ m'.Shows v')
          (Tries.discard ((shows₁.handleFault sound named kind va).mono ?_ ?_)) ?_
        · rintro how m₂ ⟨s', v', owner', answers, shows₂⟩
          rw [owner] at owner'
          cases owner'
          exact ⟨how, v', answers, shows₂⟩
        · rintro cause m₂ ⟨reads, shows₂⟩
          exact ⟨_, .reported .note reads _, shows₂⟩
        · rintro _ m₂ ⟨how, v', answers, shows₂⟩
          have leads : v.Leads (env.Accesses v.config (· = va)) v' :=
            (answers.leads hs named).mono fun _ serves => .serve owner rfl serves
          have fewer := answers.faults_lt raised
          have live := (leads.acts o).live_of_accesses
          refine (ih ((leads.acts o).sound sound) (live ▸ named) m₂ shows₂ (by omega) ?_).mono ?_ ?_
          · intro s' owner'
            rw [owner] at owner'
            cases owner'
            omega
          · rintro f m₃ ⟨s', w, accessed, frame, shows₃⟩
            exact ⟨s', w, accessed.after leads, frame, shows₃⟩
          · rintro cause m₃ ⟨w, rest, shows₃⟩
            exact ⟨w, leads.trans_accesses rest, shows₃⟩

/-- Two answers make any page usable, so the third try succeeds if no fault fails. -/
theorem access (shows : m.Shows v) (sound : v.Sound o) (named : env.Names v.live)
    (va : VirtualAddress) (write : Bool) :
    Tries (PagedMemory.access env va write) m Exhausts
      (fun f m' => ∃ s w, v.Accessed env va write s w ∧ f = (w.leaf s va.splitSlots).frame ∧
        m'.Shows w)
      (fun _ m' => ∃ w, v.Leads (env.Accesses v.config (· = va)) w ∧ m'.Shows w) := by
  refine accessWithin sound named va write maxTries m shows (by decide) fun s _ => ?_
  unfold faultsAhead maxTries
  split
  · split <;> omega
  · split <;> omega

theorem copyChunkOut (shows : m.Shows v) (sound : v.Sound o) (named : env.Names v.live)
    (address : VirtualAddress) (bytes : List UInt8) (chunk : Chunk) :
    Tries (PagedMemory.copyChunkOut env address bytes chunk) m Exhausts
      (fun _ m' => ∃ s w, v.Accessed env (address.wrappingAdd chunk.start) true s w ∧
        m'.Shows (w.setBytes (w.leaf s (address.wrappingAdd chunk.start).splitSlots).frame
          ((w.bytes (w.leaf s (address.wrappingAdd chunk.start).splitSlots).frame).write
            ((address.wrappingAdd chunk.start).offset .small).value
            ((bytes.drop chunk.start).take chunk.length))))
      (fun _ m' => ∃ w, v.Leads (env.Accesses v.config (· = address.wrappingAdd chunk.start)) w ∧
        m'.Shows w) := by
  refine Tries.bind (shows.access sound named _ true) ?_
  rintro f m₁ ⟨s, w, accessed, rfl, shows₁⟩
  have ready := (accessed.acts o).sound sound
  have hs : s ∈ w.live := (accessed.acts o).live_of_accesses ▸ named _ s accessed.owner
  refine Tries.lift ((shows₁.modifyFrame _ (ready.mapped s hs _ accessed.present)
    (ready.not_hidden_of_leaf hs (View.refers_leaf accessed.present))).mono fun _ m₂ shows₂ => ?_)
  exact ⟨s, w, accessed, shows₂⟩

theorem copyChunkIn (shows : m.Shows v) (sound : v.Sound o) (named : env.Names v.live)
    (address : VirtualAddress) (chunk : Chunk) :
    Tries (PagedMemory.copyChunkIn env address chunk) m Exhausts
      (fun bytes m' => ∃ s w, v.Accessed env (address.wrappingAdd chunk.start) false s w ∧
        bytes = Frame.read (w.bytes (w.leaf s (address.wrappingAdd chunk.start).splitSlots).frame)
          ((address.wrappingAdd chunk.start).offset .small).value chunk.length ∧ m'.Shows w)
      (fun _ m' => ∃ w, v.Leads (env.Accesses v.config (· = address.wrappingAdd chunk.start)) w ∧
        m'.Shows w) := by
  refine Tries.bind (shows.access sound named _ false) ?_
  rintro f m₁ ⟨s, w, accessed, rfl, shows₁⟩
  have ready := (accessed.acts o).sound sound
  have hs : s ∈ w.live := (accessed.acts o).live_of_accesses ▸ named _ s accessed.owner
  refine Tries.lift_bind (shows₁.readFrame (ready.mapped s hs _ accessed.present)
    (ready.not_hidden_of_leaf hs (View.refers_leaf accessed.present))) ?_
  rintro frame m₂ ⟨rfl, shows₂⟩
  exact Tries.pure ⟨s, w, accessed, rfl, shows₂⟩

/-! ## Loops over a range -/

private theorem requireNoWrap (shows : m.Shows v) {address : VirtualAddress} {length : Nat}
    (fits : address.value + length ≤ 4294967296) :
    Ends (PagedMemory.requireNoWrap address length) m Exhausts fun _ m' => m'.Shows v := by
  unfold PagedMemory.requireNoWrap
  rw [if_pos fits]
  exact Ends.pure shows

/-- A copy to user memory, given what holds of the view after each piece. -/
theorem copyToUser {P : List Chunk → View → Prop} {address : VirtualAddress}
    {bytes : List UInt8} (fits : address.value + bytes.length ≤ 4294967296)
    (ready : ∀ done w, P done w → (∃ o, w.Sound o) ∧ env.Names w.live)
    (reach : ∀ done chunk rest w w', pageChunks address bytes.length = done ++ chunk :: rest →
      P done w → w.Leads (env.Accesses w.config (· = address.wrappingAdd chunk.start)) w' →
      P done w')
    (store : ∀ done chunk rest w s u, pageChunks address bytes.length = done ++ chunk :: rest →
      P done w → w.Accessed env (address.wrappingAdd chunk.start) true s u →
      P (done ++ [chunk])
        (u.setBytes (u.leaf s (address.wrappingAdd chunk.start).splitSlots).frame
          ((u.bytes (u.leaf s (address.wrappingAdd chunk.start).splitSlots).frame).write
            ((address.wrappingAdd chunk.start).offset .small).value
            ((bytes.drop chunk.start).take chunk.length))))
    (shows : m.Shows v) (start : P [] v) :
    Tries (PagedMemory.copyToUser env address bytes) m Exhausts
      (fun _ m' => ∃ w, P (pageChunks address bytes.length) w ∧ m'.Shows w)
      (fun _ m' => ∃ done chunk rest w, pageChunks address bytes.length = done ++ chunk :: rest ∧
        P done w ∧ m'.Shows w) := by
  refine Tries.lift_bind (shows.requireNoWrap fits) fun _ m₁ shows₁ => ?_
  refine (Tries.forM_done (P := fun done m' => ∃ w, P done w ∧ m'.Shows w)
    (Q := fun done _ m' => ∃ w, P done w ∧ m'.Shows w) ?_ ⟨v, start, shows₁⟩).mono_failed ?_
  · rintro done chunk rest m₂ cut ⟨w, h, shows₂⟩
    obtain ⟨⟨o, sound⟩, named⟩ := ready done w h
    refine (shows₂.copyChunkOut sound named address bytes chunk).mono ?_ ?_
    · rintro _ m₃ ⟨s, u, accessed, shows₃⟩
      exact ⟨_, store done chunk rest w s u cut h accessed, shows₃⟩
    · rintro cause m₃ ⟨u, leads, shows₃⟩
      exact ⟨u, reach done chunk rest w u cut h leads, shows₃⟩
  · rintro cause m' ⟨done, chunk, rest, m₂, cut, -, -, w, h, shows'⟩
    exact ⟨done, chunk, rest, w, cut, h, shows'⟩

/-- A copy from user memory, given what holds of the view throughout and of each piece. -/
theorem copyFromUser {P : View → Prop} {Q : Chunk → List UInt8 → Prop}
    {address : VirtualAddress} {length : Nat} (fits : address.value + length ≤ 4294967296)
    (ready : ∀ w, P w → (∃ o, w.Sound o) ∧ env.Names w.live)
    (reach : ∀ chunk ∈ pageChunks address length, ∀ w w', P w →
      w.Leads (env.Accesses w.config (· = address.wrappingAdd chunk.start)) w' → P w')
    (read : ∀ chunk ∈ pageChunks address length, ∀ w s u, P w →
      w.Accessed env (address.wrappingAdd chunk.start) false s u → P u → Q chunk
        (Frame.read (u.bytes (u.leaf s (address.wrappingAdd chunk.start).splitSlots).frame)
          ((address.wrappingAdd chunk.start).offset .small).value chunk.length))
    (shows : m.Shows v) (start : P v) :
    Tries (PagedMemory.copyFromUser env address length) m Exhausts
      (fun bytes m' => ∃ pieces w, List.Forall₂ Q (pageChunks address length) pieces ∧
        bytes = pieces.flatten ∧ P w ∧ m'.Shows w)
      (fun _ m' => ∃ w, P w ∧ m'.Shows w) := by
  refine Tries.lift_bind (shows.requireNoWrap fits) fun _ m₁ shows₁ => ?_
  refine Tries.bind (Tries.mapM (Q := Q) (fun rest m' => ∃ w,
    (∀ chunk ∈ rest, chunk ∈ pageChunks address length) ∧ P w ∧ m'.Shows w) ?_ _ m₁
    ⟨v, fun _ h => h, start, shows₁⟩) ?_
  · rintro chunk rest m₂ ⟨w, among, h, shows₂⟩
    obtain ⟨⟨o, sound⟩, named⟩ := ready w h
    have here := among chunk List.mem_cons_self
    refine (shows₂.copyChunkIn sound named address chunk).mono ?_ ?_
    · rintro bytes m₃ ⟨s, u, accessed, rfl, shows₃⟩
      have after := reach chunk here w u h accessed.toLeads
      exact ⟨read chunk here w s u h accessed after, u,
        fun c hc => among c (List.mem_cons_of_mem _ hc), after, shows₃⟩
    · rintro cause m₃ ⟨u, leads, shows₃⟩
      exact ⟨u, reach chunk here w u h leads, shows₃⟩
  · rintro pieces m₂ ⟨each, w, -, h, shows₂⟩
    exact Tries.pure ⟨pieces, w, each, rfl, h, shows₂⟩

theorem verifyPage (shows : m.Shows v) (sound : v.Sound o) (named : env.Names v.live) {s : Space}
    (owner : env.addressSpace env.current = some s) (va : VirtualAddress) :
    Tries (PagedMemory.verifyPage env s va) m Exhausts
      (fun _ m' => ∃ w, v.Leads (env.Accesses v.config (· = va)) w ∧ m'.Shows w)
      (fun _ m' => ∃ w, v.Leads (env.Accesses v.config (· = va)) w ∧ m'.Shows w) := by
  have hs := named _ s owner
  refine Tries.lift_bind (shows.findEntry sound.separate hs va) ?_
  rintro found m₁ ⟨rfl, shows₁⟩
  cases linked : v.link s va.directorySlot with
  | none => exact Tries.pure ⟨v, .refl v, shows₁⟩
  | some t =>
    simp only [Option.map_some]
    split
    · refine Tries.discard ((shows₁.handleFault sound named .writeProtect va).mono ?_ ?_)
      · rintro how m₂ ⟨s', v', owner', answers, shows₂⟩
        rw [owner] at owner'
        cases owner'
        exact ⟨v', (answers.leads hs named).mono fun _ serves => .serve owner rfl serves, shows₂⟩
      · rintro cause m₂ ⟨reads, shows₂⟩
        exact ⟨_, .reported .note reads _, shows₂⟩
    · exact Tries.pure ⟨v, .refl v, shows₁⟩

theorem verifyArea (shows : m.Shows v) (sound : v.Sound o) (named : env.Names v.live)
    (address : VirtualAddress) (size : Nat) :
    Tries (PagedMemory.verifyArea env address size) m Exhausts
      (fun _ m' => ∃ w, v.Leads (env.Accesses v.config (· ∈ touchedPages address size)) w ∧
        m'.Shows w)
      (fun _ m' => ∃ w, v.Leads (env.Accesses v.config (· ∈ touchedPages address size)) w ∧
        m'.Shows w) := by
  unfold PagedMemory.verifyArea
  cases owner : env.addressSpace env.current with
  | none => exact Tries.fail ⟨v, .refl v, shows⟩
  | some s =>
    refine (Tries.forM (fun rest m' => (∀ va ∈ rest, va ∈ touchedPages address size) ∧ ∃ w,
      v.Leads (env.Accesses v.config (· ∈ touchedPages address size)) w ∧ m'.Shows w)
      ?_ _ m ⟨fun _ h => h, v, .refl v, shows⟩).mono (fun _ _ h => h.2) fun _ _ h => h
    rintro va rest m₁ ⟨among, w, leads, shows₁⟩
    have here := among va List.mem_cons_self
    have extend {u : View} (more : w.Leads (env.Accesses w.config (· = va)) u) :
        v.Leads (env.Accesses v.config (· ∈ touchedPages address size)) u := by
      refine leads.trans ((leads.config ▸ more).mono fun _ h => h.mono ?_)
      rintro va' rfl
      exact here
    refine (shows₁.verifyPage ((leads.acts o).sound sound)
      ((leads.acts o).live_of_accesses ▸ named) owner va).mono ?_ ?_
    · rintro _ m₂ ⟨u, more, shows₂⟩
      exact ⟨fun va' h => among va' (List.mem_cons_of_mem _ h), u, extend more, shows₂⟩
    · rintro cause m₂ ⟨u, more, shows₂⟩
      exact ⟨u, extend more, shows₂⟩

/-! ## Whole copies as sequences of changes -/

/-- The start of some piece of a buffer. -/
def ChunkStart (address : VirtualAddress) (length : Nat) (va : VirtualAddress) : Prop :=
  ∃ chunk ∈ pageChunks address length, va = address.wrappingAdd chunk.start

/-- A copy stores in the pages of the range. If the range wraps around, the kernel stops. -/
theorem copyToUser_leads (shows : m.Shows v) (sound : v.Sound o) (named : env.Names v.live)
    (address : VirtualAddress) (bytes : List UInt8) :
    Tries (PagedMemory.copyToUser env address bytes) m (fun _ => True)
      (fun _ m' => ∃ w, v.Leads (env.Stores v.config (ChunkStart address bytes.length)) w ∧
        m'.Shows w)
      (fun _ m' => ∃ w, v.Leads (env.Stores v.config (ChunkStart address bytes.length)) w ∧
        m'.Shows w) := by
  by_cases fits : address.value + bytes.length ≤ 4294967296
  · have live {w : View} (leads : v.Leads
        (env.Stores v.config (ChunkStart address bytes.length)) w) : w.live = v.live :=
      (leads.acts o).live fun _ h => h.lasting
    refine ((copyToUser (v := v) (P := fun _ w => v.Leads
      (env.Stores v.config (ChunkStart address bytes.length)) w) fits ?_ ?_ ?_ shows
      (.refl v)).mono_stops fun _ _ => trivial).mono_failed ?_
    · exact fun done w leads => ⟨⟨o, (leads.acts o).sound sound⟩, live leads ▸ named⟩
    · intro done chunk rest w w' cut leads more
      exact leads.extend ⟨chunk, by simp [cut], rfl⟩ more
    · intro done chunk rest w s u cut leads accessed
      have inside : ChunkStart address bytes.length (address.wrappingAdd chunk.start) :=
        ⟨chunk, by simp [cut], rfl⟩
      have reached := leads.extend inside accessed.toLeads
      have hs : s ∈ u.live := live reached ▸ named _ s accessed.owner
      exact reached.trans (.single (.store accessed.owner inside) (fun _ => .store hs
        accessed.present (accessed.ready rfl).1 (accessed.ready rfl).2)
        ((reached.acts o).sound sound) trivial)
    · rintro cause m' ⟨done, chunk, rest, w, -, leads, shows'⟩
      exact ⟨w, leads, shows'⟩
  · unfold PagedMemory.copyToUser PagedMemory.requireNoWrap
    rw [if_neg fits]
    exact Tries.lift_bind (P := fun _ _ => False) (Ends.halt trivial) nofun

/-- A copy reaches the pages of the range. If the range wraps around, the kernel stops. -/
theorem copyFromUser_leads (shows : m.Shows v) (sound : v.Sound o) (named : env.Names v.live)
    (address : VirtualAddress) (length : Nat) :
    Tries (PagedMemory.copyFromUser env address length) m (fun _ => True)
      (fun _ m' => ∃ w, v.Leads (env.Stores v.config (ChunkStart address length)) w ∧ m'.Shows w)
      (fun _ m' => ∃ w, v.Leads (env.Stores v.config (ChunkStart address length)) w ∧
        m'.Shows w) := by
  by_cases fits : address.value + length ≤ 4294967296
  · refine ((copyFromUser (v := v) (Q := fun _ _ => True) (P := fun w => v.Leads
      (env.Stores v.config (ChunkStart address length)) w) fits ?_ ?_
      (fun _ _ _ _ _ _ _ _ => trivial) shows (.refl v)).mono_stops fun _ _ => trivial).mono ?_
      fun _ _ h => h
    · intro w leads
      exact ⟨⟨o, (leads.acts o).sound sound⟩, (leads.acts o).live (fun _ h => h.lasting) ▸ named⟩
    · exact fun chunk among w w' leads more => leads.extend ⟨chunk, among, rfl⟩ more
    · rintro bytes m' ⟨pieces, w, -, -, leads, shows'⟩
      exact ⟨w, leads, shows'⟩
  · unfold PagedMemory.copyFromUser PagedMemory.requireNoWrap
    rw [if_neg fits]
    exact Tries.lift_bind (P := fun _ _ => False) (Ends.halt trivial) nofun

end Machine.Shows

/-! ## Requests -/

/-- What a process makes the kernel do for it. -/
inductive Request
  | fault (kind : FaultKind) (va : VirtualAddress)
  | verify (address : VirtualAddress) (size : Nat)
  | copyOut (address : VirtualAddress) (bytes : List UInt8)
  | copyIn (address : VirtualAddress) (length : Nat)

namespace Request

/-- Serves the current process, whether that succeeds or fails. -/
def serve (env : Environment) : Request → Kernel Unit
  | fault kind va => discard (outcome (handleFault env kind va))
  | verify address size => discard (outcome (verifyArea env address size))
  | copyOut address bytes => discard (outcome (copyToUser env address bytes))
  | copyIn address length => discard (outcome (copyFromUser env address length))

/-- The addresses whose pages are asked for. -/
def Touches : Request → VirtualAddress → Prop
  | fault _ va => (· = va)
  | verify address size => (· ∈ touchedPages address size)
  | copyOut address bytes => Machine.Shows.ChunkStart address bytes.length
  | copyIn address length => Machine.Shows.ChunkStart address length

end Request

namespace Machine.Shows

variable {α : Type} {m : Machine} {v : View} {o : Owed} {env : Environment}

private theorem attempted {op : Attempt α} {allowed allowed' : Change → Prop} {stops : Halt → Prop}
    (h : Tries op m stops (fun _ m' => ∃ w, v.Leads allowed w ∧ m'.Shows w)
      (fun _ m' => ∃ w, v.Leads allowed w ∧ m'.Shows w)) (imp : ∀ c, allowed c → allowed' c) :
    Ends (discard (outcome op)) m (fun _ => True)
      fun _ m' => ∃ w, v.Leads allowed' w ∧ m'.Shows w := by
  refine Ends.discard (Ends.mono (Ends.mono_stops h fun _ _ => trivial) ?_)
  rintro (cause | a) m' ⟨w, leads, shows⟩
  · exact ⟨w, leads.mono imp, shows⟩
  · exact ⟨w, leads.mono imp, shows⟩

/-- A request changes what the pages that it asks for need, and nothing else. -/
theorem request (shows : m.Shows v) (sound : v.Sound o) (named : env.Names v.live) (c : Request) :
    Ends (c.serve env) m (fun _ => True) fun _ m' =>
      ∃ w, v.Leads (env.Stores v.config c.Touches) w ∧ m'.Shows w := by
  cases c with
  | fault kind va =>
    refine attempted ((shows.handleFault sound named kind va).mono ?_ ?_) fun _ => .access
    · rintro how m' ⟨s, w, owner, answers, shows'⟩
      exact ⟨w, (answers.leads (named _ s owner) named).mono fun _ => .serve owner rfl, shows'⟩
    · rintro cause m' ⟨reads, shows'⟩
      exact ⟨_, .reported .note reads _, shows'⟩
  | verify address size =>
    exact attempted (shows.verifyArea sound named address size) fun _ => .access
  | copyOut address bytes =>
    exact attempted (shows.copyToUser_leads sound named address bytes) fun _ h => h
  | copyIn address length =>
    exact attempted (shows.copyFromUser_leads sound named address length) fun _ h => h

end Machine.Shows

end PagedMemory
