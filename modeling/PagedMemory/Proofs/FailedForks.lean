import PagedMemory.Proofs.FailedFaults
import PagedMemory.Proofs.Footprints
import PagedMemory.Proofs.Supplies

/-!
# Forks that fail

A fork runs out of memory before its first page table or after any number of them, and
what was cloned by then is freed again. Two things are shown of it.

Where it writes: of the frames that are in use, only to the page tables of the parent
(`createFrom_spares`). This is about memory as it is.

What it leaves (`View.Leftover`): links, counts and the entries of all spaces are those
from before, except that a page of the parent may have become read-only. The induction is
on the sequence of changes that the fork made; that the counts are right again follows from
soundness before and after. The pages that lost their right to be written to have a count
of one, so the next write to one of them gives it back.
-/

namespace PagedMemory

variable {m m' : Machine} {p : Space} {f : FrameId}

/-! ## Where a fork writes -/

namespace Machine

/-- The frame is in use and no page table of the space. -/
def Fixed (m : Machine) (p : Space) (f : FrameId) : Prop :=
  m.InUse f ∧ ∀ i, p.link m.ram i ≠ some f

/-- Whether it fails or not, a fork writes to page tables of the parent and to frames that
were free, and to no other frame. -/
theorem createFrom_spares (root : m.Fixed p p.root)
    (tables : ∀ i t, p.link m.ram i = some t → m.InUse t) (start : VirtualAddress) (size : Nat) :
    Tries (Space.createFrom (some p) start size) m (fun _ => True)
      (fun _ m' => ∀ f, m.Fixed p f → m'.ram.frame? f = m.ram.frame? f)
      (fun _ m' => ∀ f, m.Fixed p f → m'.ram.frame? f = m.ram.frame? f) := by
  have forkable : m.Forkable (fun f _ => m.Fixed p f) p (fun _ => True)
      (Space.clonedEntries start) := by
    refine ⟨fun f _ fixed => fixed.1, fun _ _ => root, fun i t _ linked => tables i t linked, ?_⟩
    intro i t _ linked j _ fixed
    exact absurd linked (fixed.2 i)
  have everywhere (i : Slot) (_ : InRange start size i) : True := trivial
  refine (forkable.createFrom everywhere).mono ?_ ?_
  · intro c m' guards f fixed
    exact guards.frame? fun _ => fixed
  · intro cause m' spared f fixed
    exact spared f fun _ => fixed

end Machine

/-! ## What a fork leaves -/

namespace View

variable {v w w' : View} {o ow ow' : Owed} {parent child : Space} {slots : List Slot}

/-- What can have become of an entry while a space is cloned: a page of the parent that is
counted has lost the right to be written to. -/
def Lapsed (v : View) (parent : Space) (slots : List Slot) (s : Space) (k : Place) (e : Entry) :
    Prop :=
  e = v.leaf s k ∨ s = parent ∧ k.1 ∈ slots ∧ (v.leaf s k).present = true ∧
    v.tracks (v.leaf s k).frame = true ∧ e = (v.leaf s k).writeProtected

/-- In the second view the spaces of the first one have the same page tables and, but for
rights, the same pages. -/
structure Leftover (v : View) (parent : Space) (slots : List Slot) (w : View) : Prop where
  tracks : ∀ f, w.tracks f = v.tracks f
  link : ∀ s ∈ v.live, ∀ i, w.link s i = v.link s i
  leaf : ∀ s ∈ v.live, ∀ k, v.Lapsed parent slots s k (w.leaf s k)

namespace Leftover

theorem refl (v : View) (parent : Space) (slots : List Slot) : v.Leftover parent slots v :=
  ⟨fun _ => rfl, fun _ _ _ => rfl, fun _ _ _ => .inl rfl⟩

/-- A change that concerns no space of the first view. -/
theorem keep (left : v.Leftover parent slots w) (layout : w'.layout = w.layout)
    (link : ∀ s ∈ v.live, ∀ i, w'.link s i = w.link s i)
    (leaf : ∀ s ∈ v.live, ∀ k, w'.leaf s k = w.leaf s k) : v.Leftover parent slots w' where
  tracks f := by
    rw [← left.tracks]
    simp only [View.tracks, layout]
  link s hs i := (link s hs i).trans (left.link s hs i)
  leaf s hs k := by
    rw [leaf s hs k]
    exact left.leaf s hs k

theorem target (left : v.Leftover parent slots w) {s : Space} (hs : s ∈ v.live) (k : Place) :
    (w.leaf s k).target = (v.leaf s k).target := by
  rcases left.leaf s hs k with same | ⟨-, -, -, -, same⟩
  · rw [same]
  · rw [same]
    rfl

theorem refers (left : v.Leftover parent slots w) {s : Space} (hs : s ∈ v.live) (d : Cell) :
    w.refers s d = v.refers s d := by
  cases d with
  | root => rfl
  | link i => exact left.link s hs i
  | leaf k => exact left.target hs k

/-- The pages of a slot that is cloned lose their rights on the side of the parent. -/
theorem aliased (left : v.Leftover parent slots w) (fresh : child ∉ v.live) {k : Place}
    (inside : k.1 ∈ slots) (present : (w.leaf parent k).present = true) :
    v.Leftover parent slots (w.aliased parent k child k) := by
  have apart {s : Space} (hs : s ∈ v.live) (k' : Place) : ¬ (s = child ∧ k' = k) :=
    fun same => fresh (same.1 ▸ hs)
  refine ⟨fun f => ?_, fun s hs i => ?_, fun s hs k' => ?_⟩
  · rw [tracks_aliased]
    exact left.tracks f
  · rw [link_aliased]
    exact left.link s hs i
  · by_cases here : s = parent ∧ k' = k
    · obtain ⟨rfl, rfl⟩ := here
      by_cases tracked : w.tracks (w.leaf s k').frame = true
      · have lost : (w.aliased s k' child k').leaf s k' = (w.leaf s k').writeProtected := by
          rw [View.aliased, if_pos tracked]
          exact (leaf_setLeaf_of_ne _ (apart hs k')).trans (leaf_setLeaf_self _ s k' _)
        rw [lost]
        rw [left.tracks] at tracked
        rcases left.leaf s hs k' with same | ⟨-, -, mapped, counted, same⟩
        · rw [same] at tracked present ⊢
          exact .inr ⟨rfl, inside, present, tracked, rfl⟩
        · rw [same]
          exact .inr ⟨rfl, inside, mapped, counted, rfl⟩
      · have kept : (w.aliased s k' child k').leaf s k' = w.leaf s k' := by
          rw [View.aliased, if_neg tracked]
          exact leaf_setLeaf_of_ne _ (apart hs k')
        rw [kept]
        exact left.leaf s hs k'
    · rw [leaf_aliased_of_ne here (apart hs k')]
      exact left.leaf s hs k'

/-- Nothing that happens while a space is made, or while it is undone, concerns the spaces
from before in any other way. -/
theorem act {c : Change} (left : v.Leftover parent slots w) (fresh : child ∉ v.live)
    (creates : Creates v.live (some parent) child slots c) (act : Act w ow c w' ow') :
    v.Leftover parent slots w' := by
  have apart {s : Space} (hs : s ∈ v.live) : s ≠ child := fun same => fresh (same ▸ hs)
  cases creates with
  | create =>
    cases act with
    | create free =>
      exact left.keep rfl (fun s hs i => if_neg (apart hs)) fun s hs k => if_neg (apart hs)
  | destroy =>
    cases act with
    | destroy => exact left.keep rfl (fun _ _ _ => rfl) fun _ _ _ => rfl
  | clone source clones =>
    cases source
    cases clones with
    | note =>
      cases act with
      | note => exact left.keep rfl (fun _ _ _ => rfl) fun _ _ _ => rfl
    | link =>
      cases act with
      | link =>
        exact left.keep rfl (fun s hs i => if_neg fun same => apart hs same.1) fun _ _ _ => rfl
    | share inside =>
      cases act with
      | share hs hs' present => exact left.aliased fresh inside present
    | expose =>
      cases act with
      | expose =>
        exact left.keep rfl (fun _ _ _ => rfl) fun s hs k =>
          leaf_setLeaf_of_ne _ fun same => apart hs same.1
  | free frees =>
    cases frees with
    | note =>
      cases act with
      | note => exact left.keep rfl (fun _ _ _ => rfl) fun _ _ _ => rfl
    | unmap =>
      cases act with
      | unmap =>
        exact left.keep (layout_unmapped ..) (fun s hs i => by rw [link_unmapped]) fun s hs k =>
          leaf_unmapped_of_ne fun same => apart hs same.1
    | unlink =>
      cases act with
      | unlink =>
        exact left.keep rfl (fun s hs i => if_neg fun same => apart hs same.1) fun _ _ _ => rfl

theorem acts (fresh : child ∉ v.live)
    (acts : Acts (Creates v.live (some parent) child slots) v o w ow) :
    v.Leftover parent slots w := by
  induction acts with
  | refl => exact refl v parent slots
  | tail _ creates act ih => exact ih.act fresh creates act

/-- If the same spaces are live and as much is owed, the counts are the same. -/
theorem count (left : v.Leftover parent slots w) (live : w.live = v.live) (before : v.Sound o)
    (after : w.Sound o) {f : FrameId} (tracked : v.tracks f = true) : w.count f = v.count f := by
  have same : w.references f = v.references f :=
    references_congr live (fun s hs d => left.refers hs d) f
  have counted := before.counted f tracked
  have recounted := after.counted f ((left.tracks f).trans tracked)
  omega

end Leftover

end View

/-! ## What the parent gets back -/

namespace Machine.Shows

variable {v : View} {o : Owed} {s : Space} {env : Environment} {va : VirtualAddress}

/-- A write to a page that is present but read-only is answered, or fails for want of a frame.
Only the counter of flushes can stop the kernel. -/
theorem handleFault_of_protected (shows : m.Shows v) (sound : v.Sound o) (hs : s ∈ v.live)
    (owner : env.addressSpace env.current = some s)
    (present : (v.leaf s va.splitSlots).present = true)
    (protect : (v.leaf s va.splitSlots).writable = false) :
    Tries (PagedMemory.handleFault env .writeProtect va) m
      (fun cause => cause = .overflow ∧ flushLimit ≤ m.flushes + 1)
      (fun how m' => how ≠ .spurious ∧ ∃ v', v.Unshares s va.splitSlots how v' ∧ m'.Shows v')
      (fun cause _ => cause = .outOfMemory ∧
        ¬ (v.tracks (v.leaf s va.splitSlots).frame = true ∧
          v.count (v.leaf s va.splitSlots).frame = 1) ∧ ∀ f, ¬ v.Free f) := by
  have unshared : Tries (PagedMemory.unsharePage s va) m Exhausts
      (fun result m' => ∃ how, result = some how ∧ how ≠ .spurious ∧
        ∃ v', v.Unshares s va.splitSlots how v' ∧ m'.Shows v')
      (fun cause _ => cause = .outOfMemory ∧
        ¬ (v.tracks (v.leaf s va.splitSlots).frame = true ∧
          v.count (v.leaf s va.splitSlots).frame = 1) ∧ ∀ f, ¬ v.Free f) := by
    refine (shows.unsharePage sound hs va).mono ?_ fun _ _ h => ⟨h.1, h.2.2.2.1, h.2.2.2.2.1⟩
    intro result m₁ post
    cases result with
    | none =>
      rw [post.1] at present
      cases present
    | some how =>
      refine ⟨how, rfl, ?_, post⟩
      rintro rfl
      obtain ⟨v', unshares, -⟩ := post
      cases unshares with
      | spurious _ writable =>
        rw [protect] at writable
        cases writable
  have answered := unshared.handleFault_of_write owner (by
    rintro how m₁ events ⟨answered, v', unshares, shows₁⟩
    exact ⟨answered, v', unshares, shows₁.remarked events⟩)
  have spends := handleFault_of_present (P := fun _ => False) owner
    (shows.entry_of_present sound.separate hs present) present
  refine ((answered.and spends).mono_stops ?_).mono (fun _ _ => And.left) fun _ _ => And.left
  rintro cause ⟨exhausts, halts⟩
  exact halts.flush_of_exhausts exhausts

/-- A write to a page with a single reference is answered by giving back the right to it. -/
theorem regains (shows : m.Shows v) (sound : v.Sound o) (hs : s ∈ v.live)
    (owner : env.addressSpace env.current = some s)
    (present : (v.leaf s va.splitSlots).present = true)
    (protect : (v.leaf s va.splitSlots).writable = false)
    (tracked : v.tracks (v.leaf s va.splitSlots).frame = true)
    (one : v.count (v.leaf s va.splitSlots).frame = 1) (room : m.flushes + 1 < flushLimit) :
    ∃ m', outcome (PagedMemory.handleFault env .writeProtect va) m = .ok (.ok .madeWritable, m') ∧
      m'.Shows (v.setLeaf s va.splitSlots (v.leaf s va.splitSlots).madeWritable).flushed := by
  obtain ⟨result, m', run, post⟩ := Ends.exists_run
    (shows.handleFault_of_protected sound hs owner present protect) (by
    rintro cause ⟨-, overrun⟩
    omega)
  cases result with
  | error cause => exact (post.2.1 ⟨tracked, one⟩).elim
  | ok how =>
    obtain ⟨answered, v', unshares, shows'⟩ := post
    cases unshares with
    | spurious => exact absurd rfl answered
    | madeWritable => exact ⟨m', run, shows'⟩
    | copied _ _ shared => exact absurd ⟨tracked, one⟩ shared

end Machine.Shows

/-! ## The state after a fork that failed -/

/-- The right to write that an entry of the parent had is given back at the next write to
its page, without a frame being handed out for that. -/
def Machine.Recovers (m : Machine) (parent : Space) (va : VirtualAddress) (e : Entry) : Prop :=
  ∀ env : Environment, env.addressSpace env.current = some parent → m.flushes + 1 < flushLimit →
    ∃ m', outcome (PagedMemory.handleFault env .writeProtect va) m = .ok (.ok .madeWritable, m') ∧
      (∀ f, m'.pool.refCount? f = m.pool.refCount? f) ∧ parent.leaf m'.ram va.splitSlots = e

/-- What a fork of `parent` that failed leaves of a machine whose spaces are `live`. An entry
of the parent that maps a page of the range may have lost the right to be written to. -/
structure Machine.Unforked (m : Machine) (live : Finset Space) (parent : Space)
    (start : VirtualAddress) (size : Nat) (m' : Machine) : Prop where
  counts : ∀ f, m'.pool.refCount? f = m.pool.refCount? f
  bytes : ∀ f, m.Fixed parent f → m'.ram.frame? f = m.ram.frame? f
  directories : ∀ s ∈ live, ∀ i, m'.ram.entry s.root i = m.ram.entry s.root i
  entries : ∀ s ∈ live, ∀ k, s.leaf m'.ram k = s.leaf m.ram k ∨
    s = parent ∧ InRange start size k.1 ∧ (s.leaf m.ram k).present = true ∧
      m.pool.manages (s.leaf m.ram k).frame = true ∧
      s.leaf m'.ram k = (s.leaf m.ram k).writeProtected
  recovery : ∀ va, (parent.leaf m.ram va.splitSlots).writable = true →
    (parent.leaf m'.ram va.splitSlots).writable = false →
      m'.Recovers parent va (parent.leaf m.ram va.splitSlots)

theorem Entry.madeWritable_writeProtected {e : Entry} (writable : e.writable = true) :
    e.writeProtected.madeWritable = e := by
  simp only [madeWritable, writeProtected, ← writable]

section Tables

variable {live : Finset Space} {o : Owed}

theorem Machine.fixed_root (sound : (m.view live).Sound o) (hp : p ∈ live) {s : Space}
    (hs : s ∈ live) : m.Fixed p s.root := by
  refine ⟨.of_count (sound.root s hs).2 Nat.one_ne_zero, fun i linked => ?_⟩
  exact sound.separate.table_ne_root p hp i s.root linked s hs rfl

theorem Machine.inUse_table (sound : (m.view live).Sound o) (hp : p ∈ live) {i : Slot}
    {t : FrameId} (linked : p.link m.ram i = some t) : m.InUse t :=
  .of_count (sound.table p hp i t linked).2 Nat.one_ne_zero

/-- On two machines that show the same counts every frame has the same count. -/
theorem Machine.Shows.refCount?_eq {v w : View} (shows : m.Shows v) (shows' : m'.Shows w)
    (tracks : ∀ f, w.tracks f = v.tracks f)
    (count : ∀ f, v.tracks f = true → w.count f = v.count f) (f : FrameId) :
    m'.pool.refCount? f = m.pool.refCount? f := by
  rw [shows.refCount?_eq_ite, shows'.refCount?_eq_ite, tracks]
  split
  · next tracked => rw [count f tracked]
  · rfl

end Tables

/-- A fork fails only for want of memory, after any number of page tables, and then nobody
can tell that it was tried, except by pages of the parent that the next write to them makes
writable again. -/
theorem failed_forks_leave_no_trace {live : Finset Space} {owed : Owed} {parent : Space}
    {start : VirtualAddress} {size : Nat} {slots : List Slot} {cause : MemoryError}
    (sound : (m.view live).Sound owed) (hp : parent ∈ live)
    (range : rangeSlots .clone start size = .ok slots)
    (failed : outcome (Space.createFrom (some parent) start size) m = .ok (.error cause, m')) :
    cause = .outOfMemory ∧ m.Unforked live parent start size m' := by
  have shows := m.shows_view live
  have ok : ∀ q, some parent = some q → (m.view live).Parent q := by
    rintro _ ⟨⟩
    exact .inl hp
  obtain ⟨rfl, v', live', done, shows'⟩ :=
    (shows.createFromRange sound ok fun _ => range).failed_of_run failed
  have spared := (Machine.createFrom_spares (Machine.fixed_root sound hp hp)
    (fun i t => Machine.inUse_table sound hp) start size).failed_of_run failed
  obtain ⟨left, sound'⟩ : (m.view live).Leftover parent slots v' ∧ v'.Sound owed := by
    rcases done with rfl | ⟨child, free, acts⟩
    · exact ⟨.refl _ parent slots, sound⟩
    · exact ⟨.acts (sound.fresh free) acts, acts.sound sound⟩
  have hp' : parent ∈ v'.live := live' ▸ hp
  have entry {s : Space} (hs : s ∈ live) (k : Place) : s.leaf m'.ram k = v'.leaf s k :=
    shows'.leaf s (live' ▸ hs) k
  have counts (f : FrameId) (tracked : (m.view live).tracks f = true) :
      v'.count f = (m.view live).count f := left.count live' sound sound' tracked
  have entries (s : Space) (hs : s ∈ live) (k : Place) : s.leaf m'.ram k = s.leaf m.ram k ∨
      s = parent ∧ InRange start size k.1 ∧ (s.leaf m.ram k).present = true ∧
        m.pool.manages (s.leaf m.ram k).frame = true ∧
        s.leaf m'.ram k = (s.leaf m.ram k).writeProtected := by
    rw [entry hs]
    rcases left.leaf s hs k with same | ⟨same, inside, present, tracked, lapsed⟩
    · exact .inl same
    · exact .inr ⟨same, (mem_rangeSlots_iff range).mp inside, present, tracked, lapsed⟩
  refine ⟨rfl, ⟨shows.refCount?_eq shows' left.tracks counts, spared, fun s hs i => ?_, entries,
    fun va writable protect => ?_⟩⟩
  · exact Ram.entry_congr (spared _ (Machine.fixed_root sound hp hs)) i
  · intro env owner room
    obtain ⟨-, -, present, tracked, lapsed⟩ := (entries parent hp va.splitSlots).resolve_left
      fun same => by
        rw [same, writable] at protect
        cases protect
    have now : v'.leaf parent va.splitSlots = (parent.leaf m.ram va.splitSlots).writeProtected :=
      (entry hp va.splitSlots).symm.trans lapsed
    have one : v'.count (v'.leaf parent va.splitSlots).frame = 1 := by
      rw [now]
      exact (counts _ tracked).trans (sound.exclusive parent hp _ present writable).2
    obtain ⟨m'', run, shows''⟩ := shows'.regains sound' hp' owner (by rw [now]; exact present)
      (by rw [now]; rfl) (by rw [now]; exact (left.tracks _).trans tracked) one room
    refine ⟨m'', run, shows'.refCount?_eq shows'' (fun _ => rfl) fun _ _ => rfl, ?_⟩
    rw [shows''.leaf parent hp', View.flushed, View.leaf_setLeaf_self, now]
    exact Entry.madeWritable_writeProtected writable

/-! ## Where a fork runs out -/

section Stuck

variable {live : Finset Space} {owed : Owed} {c s : Space} {start : VirtualAddress} {size : Nat}
  {slots : List Slot}

/-- Ending a space with its range stops at most for want of a flush. Other spaces keep what they
map. -/
theorem Machine.destroy_stops (sound : (m.view live).Sound owed) (hs : s ∈ live)
    (range : rangeSlots .free start size = .ok slots) :
    Ends (s.destroy start size) m
      (fun cause => cause = .overflow ∧ flushLimit ≤ m.flushes + 1)
      fun _ m' => ∀ s' ∈ live, s' ≠ s → ∀ k, s'.leaf m'.ram k = s'.leaf m.ram k := by
  have shown := (m.shows_view live).destroyRange sound hs range
  have spends := (Spares.refl m).destroy (P := fun _ => False) Nat.one_pos s start size
  refine ((shown.and spends).mono_stops ?_).mono ?_
  · rintro cause ⟨exhausts, halts⟩
    exact halts.flush_of_exhausts exhausts
  · rintro _ m' ⟨⟨v', -, same, leaves, shows⟩, -⟩ s' hs' other k
    have kept : s' ∈ v'.live := same ▸ Finset.mem_erase.mpr ⟨other, hs'⟩
    rw [shows.leaf s' kept, leaves, View.leaf_freed_of_ne fun h => other h.1]
    rfl

/-- A fork fails if the clone of its range was cut off at some slot, when all that it made has
been given up. Other spaces keep what they mapped when it was cut off. -/
theorem Machine.fork_fails_of_left {m₀ m₁ : Machine} {i : Slot}
    (sound : (m.view live).Sound owed) (hp : (m.view live).Parent p)
    (range : rangeSlots .clone start size = .ok slots)
    (made : outcome Space.create m = .ok (.ok c, m₀))
    (left : p.cloneInto c start size m₀ = .ok (some i, m₁)) (room : m₀.flushes + 1 < flushLimit) :
    ∃ m', outcome (Space.createFrom (some p) start size) m = .ok (.error .outOfMemory, m') ∧
      ∀ s ∈ live, ∀ k, s.leaf m'.ram k = s.leaf m₁.ram k := by
  obtain ⟨free, shows₀⟩ := ((m.shows_view live).create sound).done_of_run made
  have ready := View.ready_founded sound hp free (nodup_rangeSlots range)
  obtain ⟨w, cloned, shows₁⟩ := (shows₀.cloneInto ready range).of_run left
  have same : w.live = insert c live := cloned.live ready (nodup_clonedEntries start)
  have sound₁ := (cloned.acts ready (nodup_clonedEntries start) fun _ h => h).sound ready.sound
  have unflushed : m₁.flushes = m₀.flushes := (p.flushes_cloneInto c start size m₀).of_run left
  -- What is left to do is to end the child.
  let m₂ : Machine := { m₁ with events := m₁.events.push (.cloneRolledBack i.base) }
  have sound₂ : (m₂.view (insert c live)).Sound owed :=
    same ▸ (shows₁.remarked (m₁.events.push (.cloneRolledBack i.base))).sound_view sound₁
  have destroyed := Machine.destroy_stops sound₂ (Finset.mem_insert_self c live)
    (rangeSlots_free_of_clone range)
  obtain ⟨_, m', ended, kept⟩ := destroyed.exists_run (by
    rintro cause ⟨-, overrun⟩
    exact Nat.not_lt.mpr (unflushed ▸ overrun) room)
  obtain ⟨_, m₃, freed, released⟩ := bind_eq_ok_iff.mp ended
  have remarked : remark (.cloneRolledBack i.base) m₁ = .ok ((), m₂) := rfl
  have cut : outcome (p.cloneRange c start size) m₀ = .ok (.error .outOfMemory, m₃) := by
    unfold Space.cloneRange
    rw [outcome_lift_bind_of_run left]
    exact (outcome_lift_bind_of_run remarked).trans (outcome_lift_bind_of_run freed)
  refine ⟨m', ?_, fun s hs k => kept s (Finset.mem_insert_of_mem hs) ?_ k⟩
  · unfold Space.createFrom
    rw [outcome_bind_of_run made]
    exact outcome_bind_of_fail (outcome_undoing_of_fail cut released)
  · rintro rfl
    exact sound.fresh free hs

/-- A fork fails if there are fewer frames than page tables when the child has its directory.
The pages of the parent that were cloned by then are read-only. -/
theorem Machine.fork_cut_off {m₀ : Machine} (sound : (m.view live).Sound owed) (hp : p ∈ live)
    (range : rangeSlots .clone start size = .ok slots)
    (made : outcome Space.create m = .ok (.ok c, m₀)) (room : m₀.RoomFor slots)
    (scarce : m₀.pool.free.card < slots.countP fun i => (p.link m.ram i).isSome) :
    ∃ before i after m', slots = before ++ i :: after ∧
      (before.countP fun i => (p.link m.ram i).isSome) = m₀.pool.free.card ∧
      outcome (Space.createFrom (some p) start size) m = .ok (.error .outOfMemory, m') ∧
      ∀ k, p.leaf m'.ram k =
        if (k.1 ∈ before ∧ k.2 ∈ Space.clonedEntries start) ∧ (p.leaf m.ram k).present = true ∧
            m.pool.manages (p.leaf m.ram k).frame = true then
          (p.leaf m.ram k).writeProtected
        else p.leaf m.ram k := by
  obtain ⟨free, shows₀⟩ := ((m.shows_view live).create sound).done_of_run made
  have ready := View.ready_founded sound (.inl hp) free (nodup_rangeSlots range)
  have distinct := nodup_clonedEntries start
  have hp₀ : p ∈ ((m.view live).founded c).live := Finset.mem_insert_of_mem hp
  have link (i : Slot) : ((m.view live).founded c).sourceLink p i = p.link m.ram i :=
    (if_pos hp₀).trans (if_neg ready.apart)
  have leaf (k : Place) : ((m.view live).founded c).leaf p k = p.leaf m.ram k :=
    if_neg ready.apart
  have covered (i : Slot) (vacant : ((m.view live).founded c).sourceLink p i = none) (j : Slot) :
      (((m.view live).founded c).sourceLeaf p (i, j)).present = false := by
    rw [View.sourceLeaf_of_live hp₀, leaf]
    exact congrArg Entry.present (Space.leaf_of_vacant ((link i).symm.trans vacant))
  obtain ⟨left, m₁, run, -, w, cloned, shows₁⟩ := shows₀.cloneInto_returns ready range room
  have whole := cloned.left_eq_none_iff ready distinct shows₀.mem_free_iff
  simp only [link] at whole
  cases left with
  | none => exact absurd (whole.mp rfl) (Nat.not_le.mpr scarce)
  | some i =>
    obtain ⟨before, after, split, -, used, first⟩ := cloned.cut ready distinct shows₀.mem_free_iff
    obtain ⟨m', failed, kept⟩ :=
      Machine.fork_fails_of_left sound (.inl hp) range made run room.flushes
    simp only [link] at used
    refine ⟨before, i, after, m', split, used, failed, fun k => ?_⟩
    have begun : ((m.view live).founded c).Ready owed p c before :=
      ready.sublist (split ▸ List.sublist_append_left before (i :: after))
    have entry : p.leaf m'.ram k = w.leaf p k :=
      (kept p hp k).trans (shows₁.leaf p ((cloned.live ready distinct).symm ▸ hp₀) k)
    rw [entry, first.leaf begun distinct fun i _ => covered i, View.sharedLeaf,
      View.sourceLeaf_of_live hp₀, leaf, ← ite_and]
    refine if_congr (and_congr_right fun _ => and_congr_right fun _ => ?_) rfl rfl
    exact ⟨fun h => (h.resolve_left ready.apart).2.2, fun managed => .inr ⟨rfl, hp₀, managed⟩⟩

end Stuck

section Tiny

def smallMade : Books × Machine :=
  (Call.create none .zero 0).after (⟨∅, ∅⟩, Machine.small)

def smallMapped : Books × Machine :=
  tinyMapping.after smallMade

def smallMapping : Call :=
  .mapEmpty tinySpace tinyNext

/-- A space with a page under each of two page tables, which leaves two of seven frames. -/
def smallSpread : Books × Machine :=
  smallMapping.after smallMapped

def smallChild : Space :=
  ⟨tinyFrame 7⟩

/-- The last frame but one has become the directory of a child. -/
def smallBorn : Machine :=
  smallSpread.2.after Space.create

/-- What is computed of these states. -/
theorem computed_smallBorn :
    ((Call.create none .zero 0).serve ⟨∅, ∅⟩ Machine.small).toBool = true ∧
    tinyMapping.Allowed smallMade.2 smallMade.1 ∧
    (tinyMapping.serve smallMade.1 smallMade.2).toBool = true ∧
    smallMapping.Allowed smallMapped.2 smallMapped.1 ∧
    (smallMapping.serve smallMapped.1 smallMapped.2).toBool = true ∧
    tinySpace ∈ smallSpread.1.live ∧
    tinySpace.leaf smallSpread.2.ram tinyPage.splitSlots =
      .make (tinyFrame 3) .userWritable ∧
    smallSpread.2.pool.manages (tinyFrame 3) = true ∧
    ([0, 1].countP fun i => (tinySpace.link smallSpread.2.ram i).isSome) = 2 ∧
    smallSpread.2.product Space.create = some smallChild ∧
    smallBorn.flushes + 1 < flushLimit ∧ (∀ n ∈ smallBorn.pool.counts, n ≤ 1) ∧
    smallBorn.pool.free.card = 1 := by
  unfold tinyMapping smallMapping Call.Allowed Call.Named Call.OntoUnmapped Space.Maps
  decide +kernel

theorem reaches_smallSpread : Reaches (fun m b c => c.Allowed m b ∧ c.Thorough m) .standard .small
    .lowest smallSpread.2 smallSpread.1 := by
  obtain ⟨makes, first, maps, second, spreads, -⟩ := computed_smallBorn
  have start : Reaches (fun m b c => c.Allowed m b ∧ c.Thorough m) .standard .small .lowest
      Machine.small ⟨∅, ∅⟩ := .boot Machine.boot_small
  have made := start.next (r := (⟨∅, ∅⟩, Machine.small)) (c := .create none .zero 0)
    ⟨⟨nofun, trivial⟩, trivial⟩ makes
  exact .next (.next made ⟨first, trivial⟩ maps) ⟨second, trivial⟩ spreads

/-- No frame is left for the second page table. The page under the first one could be written to
before, and the next write gives that right back. -/
theorem failed_forks_leave_no_trace_small :
    (smallSpread.2.view smallSpread.1.live).Sound (smallSpread.1.owed .small) ∧
    tinySpace ∈ smallSpread.1.live ∧ rangeSlots .clone .zero 8388608 = .ok [0, 1] ∧
    ∃ m', outcome (Space.createFrom (some tinySpace) .zero 8388608) smallSpread.2 =
        .ok (.error .outOfMemory, m') ∧
      smallSpread.2.Unforked smallSpread.1.live tinySpace .zero 8388608 m' ∧
      (tinySpace.leaf m'.ram tinyPage.splitSlots).writable = false ∧
      m'.Recovers tinySpace tinyPage (.make (tinyFrame 3) .userWritable) := by
  have sound := reaches_smallSpread.sound fun _ _ _ h => h
  obtain ⟨-, -, -, -, -, live, before, managed, two, made, unflushed, counts, one⟩ :=
    computed_smallBorn
  have range : rangeSlots .clone .zero 8388608 = .ok [0, 1] := by decide +kernel
  have room : smallBorn.RoomFor [0, 1] := .of_le unflushed counts (by decide)
  obtain ⟨first, i, rest, m', split, used, run, leaf⟩ := Machine.fork_cut_off sound live range
    (Machine.run_of_product made) room (by rw [two]; exact one.trans_lt Nat.one_lt_two)
  have unforked := (failed_forks_leave_no_trace sound live range run).2
  have listed : tinyPage.splitSlots.2 ∈ Space.clonedEntries .zero := by decide +kernel
  have reached : tinyPage.splitSlots.1 ∈ first := by
    cases first with
    | nil => exact absurd (used.trans one) Nat.zero_ne_one
    | cons slot slots =>
      have here : tinyPage.splitSlots.1 = slot := (List.cons.inj split).1
      rw [here]
      exact List.mem_cons_self
  have after : (tinySpace.leaf m'.ram tinyPage.splitSlots).writable = false := by
    rw [leaf, before, if_pos ⟨⟨reached, listed⟩, rfl, managed⟩]
    rfl
  have recovers := unforked.recovery tinyPage (congrArg Entry.writable before) after
  rw [before] at recovers
  exact ⟨sound, live, range, m', run, unforked, after, recovers⟩

end Tiny

end PagedMemory
