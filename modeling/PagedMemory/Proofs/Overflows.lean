import PagedMemory.Proofs.Halting

/-!
# Where counts overflow

Only a page that is mapped a second time adds to a count, so most operations never stop
because a count is full, whatever machine they are run on (`Modest`). Cloning a range and
answering faults do add to counts. They stop there only in a state in which some count has
come to its end, and never if there is room in every view that they go through
(`View.Roomy`).
-/

namespace PagedMemory

open Machine

variable {α β : Type}

/-- What stopped the kernel is not a count. -/
def Halt.Uncounted (cause : Halt) : Prop :=
  ∀ f, cause ≠ .countOverflow f

theorem Halt.uncounted_of_plain {cause : Halt} (plain : cause.Plain) : cause.Uncounted := by
  intro f same
  subst same
  exact plain

/-- No count stops the kernel if none of the frames is left that could. -/
theorem Machine.Halts.uncounted {m : Machine} {n : Nat} {P : FrameId → Prop} {cause : Halt}
    (stop : m.Halts n P cause) (never : ∀ f, ¬ P f) : cause.Uncounted :=
  fun f same => never f (stop.full f same)

/-- The operation never stops because a count is full. -/
def Modest (op : Kernel α) : Prop :=
  ∀ m, Ends op m Halt.Uncounted fun _ _ => True

namespace Modest

variable {op : Kernel α}

theorem inspect {look : Machine → Except Halt α}
    (plain : ∀ m cause, look m = .error cause → cause.Plain) :
    Modest (PagedMemory.inspect look) := by
  intro m
  apply Ends.look
  · intro x seen
    trivial
  · intro cause unseen
    exact Halt.uncounted_of_plain (plain m cause unseen)

/-- What stops the operation on any machine is named by a bound that leaves no count out. -/
theorem of_halts {n : Nat} {post : Machine → α → Machine → Prop}
    (h : ∀ m, Ends op m (m.Halts n fun _ => False) (post m)) : Modest op :=
  fun m => ((h m).mono_stops fun _ stop => stop.uncounted fun _ => id).mono fun _ _ _ => trivial

theorem flush : Modest PagedMemory.flush :=
  of_halts fun m => (Spares.refl m).flush Nat.one_pos

theorem remark (e : Event) : Modest (PagedMemory.remark e) :=
  of_halts (n := 0) fun m => (Spares.refl m).remark e

theorem modifyFrame (f : FrameId) (change : Frame → Frame) :
    Modest (PagedMemory.modifyFrame f change) :=
  of_halts (n := 0) fun m => (Spares.refl m).modifyFrame f change

theorem release (f : FrameId) : Modest (PagedMemory.release f) :=
  of_halts (n := 0) fun m => (Spares.refl m).release f

theorem allocFrame? : Modest PagedMemory.allocFrame? :=
  of_halts (n := 0) fun m => (Spares.refl m).allocFrame?

theorem tableAt (s : Space) (i : Slot) :
    Modest (PagedMemory.inspect fun m => s.tableAt m.ram i) :=
  inspect fun _ _ => Space.plain_of_tableAt

end Modest

/-! ## Operations that add to no count -/

namespace Modest

theorem freeRange (s : Space) (start : VirtualAddress) (size : Nat) :
    Modest (s.freeRange start size) :=
  of_halts fun m => (Spares.refl m).freeRange Nat.one_pos s start size

theorem clear (s : Space) (start : VirtualAddress) (size : Nat) : Modest (s.clear start size) :=
  freeRange s start size

theorem destroy (s : Space) (start : VirtualAddress) (size : Nat) :
    Modest (s.destroy start size) :=
  of_halts fun m => (Spares.refl m).destroy Nat.one_pos s start size

theorem create (m : Machine) : Returns Space.create m Halt.Uncounted := by
  have allocated : Returns allocFrame m Halt.Uncounted :=
    (((Spares.refl m).allocFrame (N := 0) (P := fun _ => False)).mono (fun _ _ _ => trivial)
      fun _ _ _ => trivial).mono_stops fun _ stop => stop.uncounted fun _ => id
  apply Tries.bind allocated
  intro f m₁ _
  exact Tries.lift_bind (modifyFrame f _ m₁) fun _ _ _ => Tries.pure trivial

end Modest

/-! ## Cloning -/

/-- Every count has room for one more reference. -/
def View.Roomy (v : View) : Prop :=
  ∀ f, v.tracks f = true → v.count f < 65535

theorem Space.cloneEntry_crowded (source target : FrameId) (i : Slot) (m : Machine) :
    Ends (Space.cloneEntry source target i) m (m.Halts 0 m.Full) fun _ _ => True := by
  refine (Halts.readEntry source i).bind ?_
  rintro entry _ ⟨-, rfl⟩
  split
  · refine ((Spares.refl _).modifyFrame target _).bind fun _ m₁ spent₁ => ?_
    refine Ends.bind (P := fun _ m' => m' = m₁) (Ends.inspect rfl rfl) ?_
    rintro tracked _ rfl
    split
    · refine (spent₁.modifyFrame source _).bind fun _ m₂ spent₂ => ?_
      exact (spent₂.retain entry.frame).mono fun _ _ _ => trivial
    · exact Ends.pure trivial
  · exact Ends.pure trivial

namespace Machine.Shows

variable {m : Machine} {v : View} {o : Owed} {parent child : Space}

theorem not_full (shows : m.Shows v) (roomy : v.Roomy) (f : FrameId) : ¬ m.Full f := by
  rintro ⟨managed, full⟩
  rw [shows.manages] at managed
  rw [shows.count f managed] at full
  exact Nat.not_le.mpr (roomy f managed) full

/-- If a table cannot be cloned, it is for a count that is full when those entries have been
cloned that come before. -/
theorem cloneEntries_uncounted {allowed : Change → Prop} {i : Slot} {source target : FrameId}
    {js slots : List Slot} (shows : m.Shows v) (sound : v.Sound o) (ok : v.Parent parent)
    (hc : child ∈ v.live) (apart : parent ≠ child)
    (theirs : v.sourceLink parent i = some source) (ours : v.link child i = some target)
    (distinct : js.Nodup) (blank : ∀ j ∈ js, (v.leaf child (i, j)).present = false)
    (inside : i ∈ slots) (clones : ∀ c, Clones v.live parent child slots c → allowed c)
    (room : ∀ w, View.Acts allowed v o w o → w.Roomy) :
    Ends (js.forM (Space.cloneEntry source target)) m Halt.Uncounted fun _ _ => True := by
  refine (Ends.forM_stops (Space.cloneEntry_crowded source target) js m).mono_stops ?_
  rintro cause ⟨done, j, rest, m', rfl, run, stop⟩
  have distinct' : done.Nodup := distinct.sublist (List.sublist_append_left _ _)
  have blank' (j' : Slot) (h : j' ∈ done) : (v.leaf child (i, j')).present = false :=
    blank j' (List.mem_append_left _ h)
  have shows' := (cloneEntries done m shows sound ok hc apart theirs ours distinct' blank').of_run run
  have acts : View.Acts allowed v o (v.clonedTable parent child i done) o :=
    (View.acts_clonedTable sound ok hc distinct' blank' inside).mono clones
  exact stop.uncounted (shows'.not_full (room _ acts))

theorem cloneSlots_uncounted {allowed : Change → Prop} {js slots : List Slot}
    (distinct : js.Nodup) (rest : List Slot) (m : Machine) (shows : m.Shows v)
    (ready : v.Ready o parent child rest) (inside : ∀ i ∈ rest, i ∈ slots)
    (clones : ∀ c, Clones v.live parent child slots c → allowed c)
    (room : ∀ w, View.Acts allowed v o w o → w.Roomy) :
    Ends (parent.cloneSlots child js rest) m Halt.Uncounted fun _ _ => True := by
  induction rest generalizing m v with
  | nil => exact Ends.pure trivial
  | cons i rest ih =>
    have inside' (i' : Slot) (h : i' ∈ rest) : i' ∈ slots := inside i' (List.mem_cons_of_mem _ h)
    refine Ends.bind (((shows.sourceTable ready.sound ready.source i).and
      (Modest.tableAt parent i m)).mono_stops fun _ => And.right) ?_
    rintro found m₁ ⟨⟨rfl, shows₁⟩, -⟩
    cases linked : v.sourceLink parent i with
    | none => exact ih m₁ shows₁ ready.tail inside' clones room
    | some t =>
      refine Ends.bind ((shows₁.allocFrame?.and (Modest.allocFrame? m₁)).mono_stops
        fun _ => And.right) ?_
      rintro (_ | g) m₂ ⟨post, -⟩
      · exact Ends.pure trivial
      · obtain ⟨free, b, shows₂⟩ := post
        refine Ends.bind (((clearGranted ready.sound free shows₂).and
          (Modest.modifyFrame g _ m₂)).mono_stops fun _ => And.right) ?_
        rintro _ m₃ ⟨shows₃, -⟩
        refine Ends.bind (((linkGranted ready.sound free shows₃ ready.target
          (ready.vacant i List.mem_cons_self)).and
          (Modest.modifyFrame child.root _ m₃)).mono_stops fun _ => And.right) ?_
        rintro _ m₄ ⟨shows₄, -⟩
        have made := ready.made free (inside i List.mem_cons_self)
        have theirs := (ready.sourceLink_linked free i).trans linked
        have ours := View.link_linked_self v child i g
        have source := ready.source.acts made ready.sound rfl
        have blank (j : Slot) (_ : j ∈ js) := ready.blank i List.mem_cons_self j
        refine Ends.bind (((cloneEntries js m₄ shows₄ (made.sound ready.sound) source ready.target
          ready.apart theirs ours distinct blank).and
          (cloneEntries_uncounted shows₄ (made.sound ready.sound) source ready.target ready.apart
          theirs ours distinct blank (inside i List.mem_cons_self) clones
          fun w more => room w ((made.mono clones).trans more))).mono_stops fun _ => And.right) ?_
        rintro _ m₅ ⟨shows₅, -⟩
        have first := (ready.acts free distinct (inside i List.mem_cons_self)).mono clones
        refine ih m₅ shows₅ (ready.next free distinct) inside' ?_ fun w more => room w (first.trans more)
        rwa [View.live_clonedTable]

theorem cloneInto_uncounted {allowed : Change → Prop} {start : VirtualAddress} {size : Nat}
    (shows : m.Shows v) (ready : ∀ slots, rangeSlots .clone start size = .ok slots →
      v.Ready o parent child slots ∧ ∀ c, Clones v.live parent child slots c → allowed c)
    (room : ∀ w, View.Acts allowed v o w o → w.Roomy) :
    Ends (parent.cloneInto child start size) m Halt.Uncounted fun _ _ => True := by
  refine Ends.bind (P := fun slots m' => rangeSlots .clone start size = .ok slots ∧ m' = m) ?_ ?_
  · apply Ends.look
    · intro slots range
      exact ⟨range, rfl⟩
    · intro cause bad
      exact Halt.uncounted_of_plain (Halt.plain_of_rangeSlots bad)
  · rintro slots _ ⟨range, rfl⟩
    obtain ⟨ready, clones⟩ := ready slots range
    refine Ends.bind (Ends.forM (fun _ m' => m'.Shows v) ?_ slots _ shows) fun _ m₁ shows₁ => ?_
    · intro i rest m₁ shows₁
      have read : Ends (readEntry child.root i) m₁ (m₁.Halts 0 fun _ => False) fun _ m' => m' = m₁ :=
        (Halts.readEntry child.root i).mono fun _ _ => And.right
      refine (read.mono_stops fun _ stop => stop.uncounted fun _ => id).bind ?_
      rintro entry _ rfl
      split
      · exact Ends.halt (Halt.uncounted_of_plain trivial)
      · exact Ends.pure shows₁
    · exact cloneSlots_uncounted (nodup_clonedEntries start) slots m₁ shows₁ ready (fun _ h => h)
        clones room

/-- Making a space does not stop at a count if there is room in all that it goes through. -/
theorem createFrom_uncounted (shows : m.Shows v) (sound : v.Sound o) {parent : Option Space}
    (ok : ∀ p, parent = some p → v.Parent p) (start : VirtualAddress) (size : Nat)
    (room : ∀ s w, v.Free s.root →
      View.Acts (fun c => ∃ slots, Creates v.live parent s slots c) v o w o → w.Roomy) :
    Returns (Space.createFrom parent start size) m Halt.Uncounted := by
  have created := ((shows.create sound).and (Modest.create m)).mono_stops fun _ => And.right
  refine (created.mono (fun _ _ h => h.1) fun _ _ _ => trivial).bind ?_
  rintro s m₁ ⟨free, shows₁⟩
  cases parent with
  | none => exact Tries.pure trivial
  | some p =>
    refine Tries.bind (P := fun _ _ => True) (Tries.undoing ?_) fun _ _ _ => Tries.pure trivial
    have cloned : Returns (p.cloneRange s start size) m₁ Halt.Uncounted := by
      let allowed : Change → Prop := fun c => ∃ slots, Creates v.live (some p) s slots c
      have made : View.Acts allowed v o (v.founded s) o := .single ⟨[], .create⟩ (.create free)
      have ready (slots : List Slot) (range : rangeSlots .clone start size = .ok slots) :
          (v.founded s).Ready o p s slots ∧
            ∀ c, Clones (v.founded s).live p s slots c → allowed c :=
        ⟨View.ready_founded sound (ok p rfl) free (nodup_rangeSlots range),
          fun c clones => ⟨slots, .clone rfl clones⟩⟩
      have into := shows₁.cloneInto_uncounted ready fun w more => room s w free (made.trans more)
      refine Tries.lift_bind into ?_
      rintro (_ | i) m₂ -
      · refine Tries.lift_bind (Modest.remark _ m₂) fun _ m₃ _ => ?_
        exact Tries.lift (Modest.flush m₃)
      · refine Tries.lift_bind (Modest.remark _ m₂) fun _ m₃ _ => ?_
        refine Tries.lift_bind (Modest.freeRange s start size m₃) fun _ m₄ _ => ?_
        exact Tries.fail trivial
    exact cloned.mono_failed fun _ m' _ => Modest.release s.root m'

/-! ## Requests -/

section Requests

variable {env : Environment}

/-- The state after some pieces of a copy. -/
private def Copying (env : Environment) (v : View) (m : Machine) : Prop :=
  ∃ w, v.Leads (env.Stores v.config fun _ => True) w ∧ m.Shows w

private theorem Copying.resume (copying : Copying env v m) (sound : v.Sound o)
    (named : env.Names v.live) :
    ∃ w, v.Leads (env.Stores v.config fun _ => True) w ∧ m.Shows w ∧ w.Sound o ∧
      env.Names w.live := by
  obtain ⟨w, leads, shows⟩ := copying
  have live : w.live = v.live := (leads.acts o).live fun _ h => h.lasting
  exact ⟨w, leads, shows, (leads.acts o).sound sound, live ▸ named⟩

private theorem copyChunkOut_uncounted (address : VirtualAddress) (sound : v.Sound o) (named : env.Names v.live)
    (room : ∀ w, View.Acts (env.Stores v.config fun _ => True) v o w o → w.Roomy)
    (copying : Copying env v m) (bytes : List UInt8) (chunk : Chunk) :
    Tries (PagedMemory.copyChunkOut env address bytes chunk) m Halt.Uncounted
      (fun _ m' => Copying env v m') fun _ _ => True := by
  obtain ⟨w, leads, shows, sound', named'⟩ := copying.resume sound named
  have served : Served env o m := ⟨w, shows, sound', named'⟩
  have both := (served.copyChunkOut address bytes chunk).and
    (shows.copyChunkOut sound' named' address bytes chunk)
  refine (both.mono ?_ fun _ _ _ => trivial).mono_stops ?_
  · rintro _ m₁ ⟨-, s, u, accessed, shows₁⟩
    have reached := leads.extend trivial accessed.toLeads
    have hs : s ∈ u.live := by
      rw [(reached.acts o).live fun _ h => h.lasting]
      exact named _ s accessed.owner
    exact ⟨_, reached.trans (.single (.store accessed.owner trivial) (fun _ => .store hs
      accessed.present (accessed.ready rfl).1 (accessed.ready rfl).2)
      ((reached.acts o).sound sound) trivial), shows₁⟩
  · rintro cause ⟨⟨-, full⟩, -⟩ f same
    exact shows.not_full (room w (leads.acts o)) f (full f same)

private theorem copyChunkIn_uncounted (address : VirtualAddress) (sound : v.Sound o) (named : env.Names v.live)
    (room : ∀ w, View.Acts (env.Stores v.config fun _ => True) v o w o → w.Roomy)
    (copying : Copying env v m) (chunk : Chunk) :
    Tries (PagedMemory.copyChunkIn env address chunk) m Halt.Uncounted
      (fun _ m' => Copying env v m') fun _ _ => True := by
  obtain ⟨w, leads, shows, sound', named'⟩ := copying.resume sound named
  have served : Served env o m := ⟨w, shows, sound', named'⟩
  have both := (served.copyChunkIn address chunk).and
    (shows.copyChunkIn sound' named' address chunk)
  refine (both.mono ?_ fun _ _ _ => trivial).mono_stops ?_
  · rintro _ m₁ ⟨-, s, u, accessed, -, shows₁⟩
    exact ⟨u, leads.extend trivial accessed.toLeads, shows₁⟩
  · rintro cause ⟨⟨-, full⟩, -⟩ f same
    exact shows.not_full (room w (leads.acts o)) f (full f same)

private theorem requireNoWrap_uncounted (address : VirtualAddress) (length : Nat) :
    Ends (PagedMemory.requireNoWrap address length) m Halt.Uncounted fun _ m' => m' = m := by
  unfold PagedMemory.requireNoWrap
  split
  · exact Ends.pure rfl
  · exact Ends.halt (Halt.uncounted_of_plain trivial)

/-- A request does not stop at a count if there is room in all that it goes through. -/
theorem request_uncounted (shows : m.Shows v) (sound : v.Sound o) (named : env.Names v.live)
    (room : ∀ w, View.Acts (env.Stores v.config fun _ => True) v o w o → w.Roomy) (c : Request) :
    Ends (c.serve env) m Halt.Uncounted fun _ _ => True := by
  have start : Copying env v m := ⟨v, .refl v, shows⟩
  -- An attempt that is discarded stops where it would have stopped.
  have attempted {α : Type} {op : Attempt α} (h : Returns op m Halt.Uncounted) :
      Ends (discard (outcome op)) m Halt.Uncounted fun _ _ => True :=
    Ends.discard (Ends.mono h fun _ _ _ => trivial)
  cases c with
  | fault kind va =>
    apply attempted
    refine ((Machine.handleFault env m kind va).mono (fun _ _ _ => trivial)
      fun _ _ _ => trivial).mono_stops fun _ stop => ?_
    exact stop.uncounted (shows.not_full (room v .refl))
  | verify address size =>
    apply attempted
    refine ((Machine.Spends.verifyArea (P := fun _ => False) m address size).mono
      (fun _ _ _ => trivial) fun _ _ _ => trivial).mono_stops fun _ stop => ?_
    exact stop.uncounted fun _ => id
  | copyOut address bytes =>
    apply attempted
    refine Tries.lift_bind (requireNoWrap_uncounted address bytes.length) ?_
    rintro _ _ rfl
    have each (chunk : Chunk) (rest : List Chunk) (m₁ : Machine) (copying : Copying env v m₁) :=
      copyChunkOut_uncounted address sound named room copying bytes chunk
    have copied := Tries.forM (fun _ m' => Copying env v m') each (pageChunks address bytes.length)
      _ start
    exact copied.mono (fun _ _ _ => trivial) fun _ _ h => h
  | copyIn address length =>
    apply attempted
    refine Tries.lift_bind (requireNoWrap_uncounted address length) ?_
    rintro _ _ rfl
    have each (chunk : Chunk) (rest : List Chunk) (m₁ : Machine) (copying : Copying env v m₁) :=
      (copyChunkIn_uncounted address sound named room copying chunk).mono
        (fun _ _ h => And.intro trivial h) fun _ _ h => h
    have copied := Tries.mapM (Q := fun _ _ => True) (fun _ m' => Copying env v m') each
      (pageChunks address length) _ start
    exact copied.bind fun _ _ _ => Tries.pure trivial

end Requests

end Machine.Shows

end PagedMemory
