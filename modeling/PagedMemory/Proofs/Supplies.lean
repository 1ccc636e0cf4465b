import PagedMemory.Proofs.Flushing
import PagedMemory.Proofs.Overflows

/-!
# What a clone takes

Cloning a range takes one free frame for each page table that the parent has there, and
nothing else from the pool, so it is known beforehand whether there are enough
(`Cloned.left_eq_none_iff`). If there are not, the slots before the first one that got no
table have been cloned whole (`Cloned.cut`).

Nothing else keeps a range from being cloned as long as the counters have room: a frame
gains at most one reference for each cell of the child under the range
(`Acts.count_le_of_clones`).
-/

namespace PagedMemory

open Finset

/-! ## Free frames -/

namespace FramePool

variable {p : FramePool} {f : FrameId}

/-- The frames that can be handed out. -/
def free (p : FramePool) : Finset FrameId :=
  (univ.image p.frame).filter fun f => p.count f = 0

theorem mem_free_iff : f ∈ p.free ↔ p.manages f = true ∧ p.count f = 0 := by
  have tracked : f ∈ univ.image p.frame ↔ p.manages f = true := by
    simp only [mem_image, mem_univ, true_and]
    constructor
    · rintro ⟨i, rfl⟩
      exact p.manages_frame i
    · exact exists_frame_eq
  rw [free, mem_filter, tracked]

theorem count_mem (managed : p.manages f = true) : p.count f ∈ p.counts := by
  obtain ⟨i, rfl⟩ := exists_frame_eq managed
  rw [count_frame]
  exact Array.getElem_mem i.isLt

end FramePool

/-- Beside the directory there are a link and 1024 entries for each slot. -/
theorem Cell.card_under_le (slots : List Slot) :
    (univ.filter (Cell.Under slots)).card ≤ 1 + 1025 * slots.length := by
  have links : (univ.filter fun i : Slot => i ∈ slots) = slots.toFinset := by
    ext i
    simp
  have leaves : (univ.filter fun k : Place => k.1 ∈ slots) = slots.toFinset ×ˢ univ := by
    ext k
    simp
  have split : (univ.filter (Cell.Under slots)).card =
      1 + slots.toFinset.card + (slots.toFinset ×ˢ (univ : Finset Slot)).card := by
    rw [← leaves, ← links, card_filter, sum_cells, card_filter, card_filter]
    rfl
  rw [split, card_product, card_univ, Fintype.card_fin]
  have few := slots.toFinset_card_le
  omega

namespace View

variable {v v' w : View} {o o' : Owed} {parent child : Space} {i : Slot}
  {js slots rest : List Slot} {g : FrameId}

theorem free_linked (v : View) (s : Space) (i : Slot) (g f : FrameId) :
    (v.linked s i g).Free f ↔ f ≠ g ∧ v.Free f := by
  have count : (v.linked s i g).count f = if f = g then 1 else v.count f := rfl
  unfold Free
  rw [count]
  split
  · next same => exact ⟨fun h => absurd h.2 Nat.one_ne_zero, fun h => absurd same h.1⟩
  · next other => exact ⟨fun h => ⟨other, h⟩, fun h => h.2⟩

/-- A page that is cloned was in use before. -/
theorem free_clonedEntry (sound : v.Sound o) (child : Space) (k : Place) (f : FrameId) :
    (v.clonedEntry parent child k).Free f ↔ v.Free f := by
  unfold clonedEntry
  split
  · next present =>
    split
    · next live =>
      rw [sourceLeaf_of_live live] at present
      unfold aliased
      split
      · exact free_retain (v := (v.setLeaf parent k _).setLeaf child k _)
          (sound.not_free live (refers_leaf present))
      · exact Iff.rfl
    · exact Iff.rfl
  · exact Iff.rfl

theorem free_clonedTable (sound : v.Sound o) (ok : v.Parent parent) (hs : child ∈ v.live)
    (distinct : js.Nodup) (blank : ∀ j ∈ js, (v.leaf child (i, j)).present = false)
    (f : FrameId) : (v.clonedTable parent child i js).Free f ↔ v.Free f := by
  induction js generalizing v with
  | nil => exact Iff.rfl
  | cons j js ih =>
    obtain ⟨fresh, distinct⟩ := List.nodup_cons.mp distinct
    have first := acts_clonedEntry sound ok hs (blank j List.mem_cons_self)
      (List.mem_singleton_self i)
    have live := live_clonedEntry v parent child (i, j)
    rw [clonedTable_cons, ih (first.sound sound) (ok.acts first sound live) (live.symm ▸ hs)
      distinct (blank_clonedEntry fresh blank), free_clonedEntry sound]

/-- Filling a slot takes the frame of its page table. -/
theorem Ready.free_next (ready : v.Ready o parent child (i :: rest)) (free : v.Free g)
    (distinct : js.Nodup) (f : FrameId) :
    ((v.linked child i g).clonedTable parent child i js).Free f ↔ f ≠ g ∧ v.Free f := by
  have made := ready.made free (List.mem_cons_self : i ∈ i :: rest)
  rw [free_clonedTable (made.sound ready.sound) (ready.source.acts made ready.sound rfl)
    ready.target distinct fun j _ => ready.blank i List.mem_cons_self j, free_linked]

theorem Ready.mem_erase_iff (ready : v.Ready o parent child (i :: rest)) (taken : v.Free g)
    (distinct : js.Nodup) {frames : Finset FrameId} (free : ∀ f, f ∈ frames ↔ v.Free f)
    (f : FrameId) : f ∈ frames.erase g ↔
      ((v.linked child i g).clonedTable parent child i js).Free f := by
  rw [mem_erase, ready.free_next taken distinct, free]

theorem frames_eq_empty {frames : Finset FrameId} (free : ∀ f, f ∈ frames ↔ v.Free f)
    (full : ∀ f, ¬ v.Free f) : frames = ∅ :=
  eq_empty_of_forall_notMem fun f h => full f ((free f).mp h)

namespace Cloned

variable {left : Option Slot}

/-- All slots are cloned exactly if there are frames for the page tables. -/
theorem left_eq_none_iff (cloned : Cloned parent child js rest v left v')
    (ready : v.Ready o parent child rest) (distinct : js.Nodup) {frames : Finset FrameId}
    (free : ∀ f, f ∈ frames ↔ v.Free f) :
    left = none ↔ (rest.countP fun i => (v.sourceLink parent i).isSome) ≤ frames.card := by
  -- A page table that is made lowers both sides by one.
  induction cloned generalizing frames with
  | done => exact iff_of_true rfl (Nat.zero_le _)
  | vacant vacant more ih =>
    rw [List.countP_cons_of_neg (by simp [vacant])]
    exact ih ready.tail free
  | full linked full =>
    rw [List.countP_cons_of_pos (by simp [linked]), frames_eq_empty free full, card_empty]
    exact iff_of_false nofun (Nat.not_succ_le_zero _)
  | @table v v' i rest left t g linked taken more ih =>
    have fewer := ih (ready.next taken distinct) (ready.mem_erase_iff taken distinct free)
    simp only [ready.sourceLink_next taken distinct] at fewer
    rw [fewer, List.countP_cons_of_pos (by simp [linked]),
      ← card_erase_add_one ((free g).mpr taken), Nat.add_le_add_iff_right]

/-- The slots before the first one that got no page table were cloned whole, and have used up
all frames. -/
theorem cut (cloned : Cloned parent child js rest v (some i) v')
    (ready : v.Ready o parent child rest) (distinct : js.Nodup) {frames : Finset FrameId}
    (free : ∀ f, f ∈ frames ↔ v.Free f) :
    ∃ before after, rest = before ++ i :: after ∧ (v.sourceLink parent i).isSome ∧
      (before.countP fun i => (v.sourceLink parent i).isSome) = frames.card ∧
      Cloned parent child js before v none v' := by
  generalize stuck : some i = left at cloned
  induction cloned generalizing frames with
  | done => cases stuck
  | @vacant v v' i' rest left vacant more ih =>
    obtain ⟨before, after, rfl, linked, used, whole⟩ := ih ready.tail free stuck
    refine ⟨i' :: before, after, rfl, linked, ?_, .vacant vacant whole⟩
    rw [List.countP_cons_of_neg (by simp [vacant]), used]
  | @full v i' rest t linked full =>
    cases stuck
    refine ⟨[], rest, rfl, by simp [linked], ?_, .done⟩
    rw [frames_eq_empty free full, card_empty, List.countP_nil]
  | @table v v' i' rest left t g linked taken more ih =>
    obtain ⟨before, after, rfl, behind, used, whole⟩ :=
      ih (ready.next taken distinct) (ready.mem_erase_iff taken distinct free) stuck
    simp only [ready.sourceLink_next taken distinct] at behind used
    refine ⟨i' :: before, after, rfl, behind, ?_, .table linked taken whole⟩
    rw [List.countP_cons_of_pos (by simp [linked]), used]
    exact card_erase_add_one ((free g).mpr taken)

end Cloned

/-! ## Counts -/

/-- What a clone changes is under the slots of the child, but for rights. -/
theorem Acts.refers_of_clones {live : Finset Space}
    (acts : Acts (Clones live parent child slots) v o w o') {s : Space} {d : Cell}
    (outside : ¬ (s = child ∧ d.Under slots)) : w.refers s d = v.refers s d := by
  induction acts with
  | refl => rfl
  | @tail c v₁ v₂ o₁ o₂ _ clones act ih =>
    refine Eq.trans ?_ ih
    cases clones with
    | note =>
      cases act
      rfl
    | link inside =>
      cases act
      cases d with
      | root => rfl
      | link i =>
        apply if_neg
        rintro ⟨same, rfl⟩
        exact outside ⟨same, inside⟩
      | leaf k => rfl
    | share inside =>
      cases act
      cases d with
      | root => rfl
      | link i => exact congrFun (congrFun (link_aliased v₁ parent _ child _) s) i
      | leaf k =>
        apply target_aliased_of_ne
        rintro ⟨same, rfl⟩
        exact outside ⟨same, inside⟩
    | expose inside =>
      cases act
      cases d with
      | root => rfl
      | link i => rfl
      | leaf k =>
        refine congrArg Entry.target (leaf_setLeaf_of_ne _ ?_)
        rintro ⟨same, rfl⟩
        exact outside ⟨same, inside⟩

/-- A count grows by no more than the child has cells under the slots. -/
theorem Acts.count_le_of_clones {live : Finset Space}
    (acts : Acts (Clones live parent child slots) v o w o) (sound : v.Sound o)
    (hc : child ∈ v.live) {f : FrameId} (tracked : v.tracks f = true) :
    w.count f ≤ v.count f + (univ.filter (Cell.Under slots)).card := by
  -- Both views are sound, so the counts differ as the references of the child do.
  have same : w.live = v.live := acts.live fun _ h => h.lasting
  have exchanged := references_exchange hc same
    (fun s _ other d => acts.refers_of_clones fun h => other h.1) f
  have uses : w.uses child f ≤ v.uses child f + (univ.filter (Cell.Under slots)).card := by
    rw [View.uses, View.uses, card_filter, ← sum_add_distrib]
    refine sum_le_sum fun d _ => ?_
    by_cases inside : d.Under slots
    · rw [if_pos inside]
      exact (hits_le_one _ f).trans (Nat.le_add_left 1 _)
    · rw [acts.refers_of_clones fun h => inside h.2]
      exact Nat.le_add_right _ _
  have before := sound.counted f tracked
  have after := (acts.sound sound).counted f ((acts.tracks f).trans tracked)
  omega

end View

/-! ## Running to the end -/

/-- The counters have room for what cloning the slots adds to them. -/
structure Machine.RoomFor (m : Machine) (slots : List Slot) : Prop where
  flushes : m.flushes + 1 < flushLimit
  counts : ∀ n ∈ m.pool.counts, n + (1 + 1025 * slots.length) < 65535

section Runs

variable {m : Machine} {v : View} {o : Owed} {p c : Space} {start : VirtualAddress} {size : Nat}
  {slots : List Slot}

theorem Machine.RoomFor.of_le {n : Nat} (flushes : m.flushes + 1 < flushLimit)
    (counts : ∀ k ∈ m.pool.counts, k ≤ n) (fits : n + (1 + 1025 * slots.length) < 65535) :
    m.RoomFor slots :=
  ⟨flushes, fun k held => Nat.lt_of_le_of_lt (Nat.add_le_add_right (counts k held) _) fits⟩

theorem Machine.RoomFor.roomy {w : View} (room : m.RoomFor slots) (shows : m.Shows v)
    (ready : v.Ready o p c slots) (acts : View.Acts (Clones v.live p c slots) v o w o) :
    w.Roomy := by
  intro f tracked
  have tracked' : v.tracks f = true := (acts.tracks f).symm.trans tracked
  have grown := acts.count_le_of_clones ready.sound ready.target tracked'
  have cells := Cell.card_under_le slots
  have small := room.counts _ (FramePool.count_mem ((shows.manages f).trans tracked'))
  rw [shows.count f tracked'] at small
  omega

/-- With room in the counters, cloning goes on until no page table is left or all is done. -/
theorem Machine.Shows.cloneInto_returns (shows : m.Shows v) (ready : v.Ready o p c slots)
    (range : rangeSlots .clone start size = .ok slots) (room : m.RoomFor slots) :
    ∃ left m', p.cloneInto c start size m = .ok (left, m') ∧ m'.flushes = m.flushes ∧
      ∃ w, View.Cloned p c (Space.clonedEntries start) slots v left w ∧ m'.Shows w := by
  have uncounted : Ends (p.cloneInto c start size) m Halt.Uncounted fun _ _ => True := by
    refine shows.cloneInto_uncounted (fun slots' range' => ?_) fun w => room.roomy shows ready
    cases range.symm.trans range'
    exact ⟨ready, fun _ h => h⟩
  have ends := ((shows.cloneInto ready range).and uncounted).and (p.flushes_cloneInto c start size m)
  obtain ⟨left, m', run, ⟨cloned, -⟩, same⟩ := ends.exists_run (by
    rintro cause ⟨⟨exhausts, uncounted⟩, overruns⟩
    cases exhausts with
    | flushes => exact Nat.not_le.mpr (Nat.lt_of_succ_lt room.flushes) (overruns rfl)
    | references f => exact uncounted f rfl)
  exact ⟨left, m', run, same, cloned⟩

theorem Machine.Shows.mem_free_iff (shows : m.Shows v) (f : FrameId) :
    f ∈ m.pool.free ↔ v.Free f := by
  rw [FramePool.mem_free_iff, shows.manages]
  exact and_congr_right fun tracked => by rw [shows.count f tracked]

/-- A range is cloned exactly if there is a free frame for each page table of the parent. -/
theorem Machine.cloneRange_returns_iff {live : Finset Space} {owed : Owed}
    (sound : (m.view live).Sound owed) (hp : (m.view live).Parent p) (hc : c ∈ live)
    (apart : p ≠ c) (range : rangeSlots .clone start size = .ok slots)
    (vacant : ∀ i ∈ slots, c.link m.ram i = none) (room : m.RoomFor slots) :
    (∃ m', outcome (p.cloneRange c start size) m = .ok (.ok (), m')) ↔
      (slots.countP fun i => (p.link m.ram i).isSome) ≤ m.pool.free.card := by
  have shows := m.shows_view live
  have ready := ready_of_vacant sound hp hc apart range vacant
  obtain ⟨left, m₁, run, same, w, cloned, -⟩ := shows.cloneInto_returns ready range room
  have whole := cloned.left_eq_none_iff ready (nodup_clonedEntries start) shows.mem_free_iff
  simp only [sourceLink_view] at whole
  rw [← whole]
  unfold Space.cloneRange
  rw [outcome_lift_bind_of_run run]
  cases left with
  | none =>
    let m₂ : Machine :=
      { m₁ with events := m₁.events.push (.rangeCloned start size p.root c.root) }
    have noted : remark (.rangeCloned start size p.root c.root) m₁ = .ok ((), m₂) := rfl
    let m₃ : Machine := { m₂ with flushes := m₂.flushes + 1 }
    have emptied : flush m₂ = .ok ((), m₃) :=
      flush_eq_ok_iff.mpr ⟨same ▸ room.flushes, rfl⟩
    refine iff_of_true ⟨m₃, (outcome_lift_bind_of_run noted).trans ?_⟩ rfl
    exact outcome_lift_eq_ok_iff.mpr ⟨(), emptied, rfl⟩
  | some i =>
    refine iff_of_false ?_ nofun
    rintro ⟨m', ended⟩
    have fails : Tries (do
        remark (.cloneRolledBack i.base)
        c.freeRange start size
        fail .outOfMemory) m₁ (fun _ => True) (fun (_ : Unit) _ => False) fun _ _ => True :=
      Tries.lift_bind (Ends.any _ m₁) fun _ m₂ _ =>
        Tries.lift_bind (Ends.any _ m₂) fun _ _ _ => Tries.fail trivial
    exact fails.done_of_run ended

end Runs

end PagedMemory
