import Mathlib.Algebra.BigOperators.Group.Finset.Piecewise
import PagedMemory.Space.Lifecycle
import PagedMemory.Proofs.Cloning

/-!
# Spaces that come and go

A space is born empty or as a clone (`View.Born`). When memory runs out while it is
cloned, what has been cloned is freed again and the directory is given back, so that
nothing of the space remains. A space that is destroyed leaves behind only what it maps
outside the range that was freed.
-/

namespace PagedMemory

theorem rangeSlots_free_of_clone {start : VirtualAddress} {size : Nat} {slots : List Slot}
    (range : rangeSlots .clone start size = .ok slots) :
    rangeSlots .free start size = .ok slots :=
  rangeSlots_eq_ok_iff.mpr (rangeSlots_eq_ok_iff.mp range)

theorem nodup_rangeSlots {operation : RangeOperation} {start : VirtualAddress} {size : Nat}
    {slots : List Slot} (range : rangeSlots operation start size = .ok slots) : slots.Nodup := by
  obtain ⟨-, -, rfl⟩ := rangeSlots_eq_ok_iff.mp range
  exact (nodup_allSlots.sublist (List.drop_sublist _ _)).sublist (List.take_sublist _ _)

theorem nodup_clonedEntries (start : VirtualAddress) : (Space.clonedEntries start).Nodup := by
  unfold Space.clonedEntries
  split
  · exact nodup_allSlots.sublist (List.take_sublist _ _)
  · exact nodup_allSlots

/-- The changes that making a space may make. -/
inductive Creates (live : Finset Space) (parent : Option Space) (child : Space)
    (slots : List Slot) : Change → Prop
  | create : Creates live parent child slots (.create child)
  | clone {p : Space} {c : Change} (source : parent = some p)
      (clones : Clones (insert child live) p child slots c) : Creates live parent child slots c
  | free {c : Change} (frees : Frees child slots c) : Creates live parent child slots c
  | destroy : Creates live parent child slots (.destroy child)

theorem Creates.sparing {live : Finset Space} {parent : Option Space} {child : Space}
    {slots : List Slot} {c : Change} (h : Creates live parent child slots c) : c.Sparing := by
  cases h with
  | create => trivial
  | destroy => trivial
  | clone _ clones => exact clones.sparing
  | free frees => exact frees.sparing

/-- The reference of the cell is given up when the slots are freed and the space is ended. -/
def Cell.Under (slots : List Slot) : Cell → Prop
  | .root => True
  | .link i => i ∈ slots
  | .leaf k => k.1 ∈ slots

instance (slots : List Slot) : DecidablePred (Cell.Under slots)
  | .root => inferInstanceAs (Decidable True)
  | .link i => inferInstanceAs (Decidable (i ∈ slots))
  | .leaf k => inferInstanceAs (Decidable (k.1 ∈ slots))

namespace View

variable {v v' : View} {o o' : Owed} {s : Space} {slots : List Slot}

/-- A space was made, empty or as a clone of its parent. -/
inductive Born (v : View) (start : VirtualAddress) (slots : List Slot) :
    Option Space → Space → View → Prop
  | empty {s : Space} (free : v.Free s.root) : Born v start slots none s (v.founded s)
  | clone {p s : Space} {w : View} (free : v.Free s.root)
      (cloned : Cloned p s (Space.clonedEntries start) slots (v.founded s) none w) :
      Born v start slots (some p) s w.flushed

theorem Sound.fresh (sound : v.Sound o) (free : v.Free s.root) : s ∉ v.live :=
  fun hs => sound.not_free hs (c := .root) rfl free

/-- A space that was just made is ready to be filled. -/
theorem ready_founded {p : Space} (sound : v.Sound o) (ok : v.Parent p) (free : v.Free s.root)
    (distinct : slots.Nodup) : (v.founded s).Ready o p s slots := by
  have made : Acts (fun _ => True) v o (v.founded s) o := .single trivial (.create free)
  have apart : p ≠ s := by
    rintro rfl
    rcases ok with live | quiet
    · exact sound.fresh free live
    · exact quiet.root.1 free.1
  refine ⟨made.sound sound, ?_, Finset.mem_insert_self s v.live, apart, distinct,
    fun i _ => if_pos rfl, fun i _ j => ?_⟩
  · rcases ok with live | quiet
    · exact .inl (Finset.mem_insert_of_mem live)
    · exact .inr (quiet.acts made sound)
  · have blank : (v.founded s).leaf s (i, j) = .zero := if_pos rfl
    rw [blank]
    rfl

theorem Cloned.live {p : Space} {js : List Slot} {left : Option Slot}
    (cloned : Cloned p s js slots v left v') (ready : v.Ready o p s slots) (distinct : js.Nodup) :
    v'.live = v.live :=
  (cloned.acts ready distinct fun _ h => h).live fun _ h => h.lasting

/-- The references that a space has beside those from its directory and from some slots. -/
def strays (v : View) (s : Space) (slots : List Slot) : Owed :=
  fun f => ∑ c : Cell, if c.Under slots then 0 else hits (v.refers s c) f

namespace Born

variable {start : VirtualAddress} {parent : Option Space}

theorem fresh (born : v.Born start slots parent s v') (sound : v.Sound o) : s ∉ v.live := by
  cases born with
  | empty free => exact sound.fresh free
  | clone free => exact sound.fresh free

theorem live (born : v.Born start slots parent s v') (sound : v.Sound o)
    (ok : ∀ p, parent = some p → v.Parent p) (distinct : slots.Nodup) :
    v'.live = insert s v.live := by
  cases born with
  | empty free => rfl
  | @clone p s w free cloned =>
    exact cloned.live (ready_founded sound (ok p rfl) free distinct) (nodup_clonedEntries start)

theorem acts (born : v.Born start slots parent s v') (sound : v.Sound o)
    (ok : ∀ p, parent = some p → v.Parent p) (distinct : slots.Nodup) :
    Acts (Creates v.live parent s slots) v o v' o := by
  cases born with
  | empty free => exact .single .create (.create free)
  | @clone p s w free cloned =>
    have ready := ready_founded sound (ok p rfl) free distinct
    have made : Acts (Creates v.live (some p) s slots) v o (v.founded s) o :=
      .single .create (.create free)
    refine (made.trans ((cloned.acts ready (nodup_clonedEntries start) fun _ h => h).mono
      fun c h => .clone rfl h)).flushed (.clone rfl .note)

end Born

end View

/-- A range is ready to be cloned as soon as it is vacant in the child. -/
theorem Machine.ready_of_vacant {m : Machine} {live : Finset Space} {owed : Owed} {p c : Space}
    {start : VirtualAddress} {size : Nat} {slots : List Slot} (sound : (m.view live).Sound owed)
    (hp : (m.view live).Parent p) (hc : c ∈ live) (apart : p ≠ c)
    (range : rangeSlots .clone start size = .ok slots)
    (vacant : ∀ i ∈ slots, c.link m.ram i = none) : (m.view live).Ready owed p c slots where
  sound := sound
  source := hp
  target := hc
  apart := apart
  distinct := nodup_rangeSlots range
  vacant := vacant
  blank i inside j := congrArg Entry.present (Space.leaf_of_vacant (j := j) (vacant i inside))

namespace Machine.Shows

variable {m : Machine} {v : View} {o : Owed} {s : Space}

/-! ## Birth -/

/-- A cleared frame is the directory of a space that maps nothing. -/
private theorem opened (shows : m.Shows (v.grant s.root Frame.zero)) (sound : v.Sound o)
    (free : v.Free s.root) : m.Shows (v.founded s) := by
  have cleared : m.ram.bytes s.root = Frame.zero :=
    (shows.bytes s.root (sound.not_hidden_grant free Frame.zero)).trans (if_pos rfl)
  have vacant (i : Slot) : s.link m.ram i = none := by
    rw [Space.link, cleared, Frame.entry_zero]
    rfl
  refine { shows with
    link := fun s' hs' i => ?_, leaf := fun s' hs' k => ?_, bytes := fun f shown => ?_ }
  · show s'.link m.ram i = if s' = s then none else v.link s' i
    split
    · next same => rw [same, vacant]
    · next other => exact shows.link s' ((Finset.mem_insert.mp hs').resolve_left other) i
  · show s'.leaf m.ram k = if s' = s then .zero else v.leaf s' k
    split
    · next same =>
      rw [same]
      exact Space.leaf_of_vacant (j := k.2) (vacant k.1)
    · next other => exact shows.leaf s' ((Finset.mem_insert.mp hs').resolve_left other) k
  · refine shows.bytes f fun hidden => shown ?_
    rcases hidden with unused | ⟨s', hs', table⟩
    · exact .inl unused
    · refine .inr ⟨s', Finset.mem_insert_of_mem hs', table.imp_right ?_⟩
      rintro ⟨i, linked⟩
      refine ⟨i, (if_neg ?_).trans linked⟩
      rintro rfl
      exact sound.fresh free hs'

theorem create (shows : m.Shows v) (sound : v.Sound o) :
    Tries Space.create m Exhausts (fun s m' => v.Free s.root ∧ m'.Shows (v.founded s))
      (fun cause m' => cause = .outOfMemory ∧ (∀ f, ¬ v.Free f) ∧ m'.Shows v) := by
  refine Tries.bind shows.allocFrame ?_
  rintro f m₁ ⟨free, b, shows₁⟩
  refine Tries.lift_bind (clearGranted sound free shows₁) fun _ m₂ shows₂ => ?_
  exact Tries.pure ⟨free, opened (s := ⟨f⟩) shows₂ sound free⟩

private theorem requireVacant (shows : m.Shows v) (sound : v.Sound o) (hs : s ∈ v.live) {i : Slot}
    (vacant : v.link s i = none) :
    Ends (s.requireVacant i) m Exhausts fun _ m' => m'.Shows v := by
  refine (shows.readLink sound.separate hs i).bind ?_
  rintro e m₁ ⟨target, shows₁⟩
  rw [vacant, Entry.target_eq_none_iff] at target
  rw [target]
  exact Ends.pure shows₁

theorem cloneInto {parent child : Space} {start : VirtualAddress} {size : Nat}
    {slots : List Slot} (shows : m.Shows v) (ready : v.Ready o parent child slots)
    (range : rangeSlots .clone start size = .ok slots) :
    Ends (parent.cloneInto child start size) m Exhausts fun left m' => ∃ v',
      View.Cloned parent child (Space.clonedEntries start) slots v left v' ∧ m'.Shows v' := by
  unfold Space.cloneInto
  refine Ends.bind (P := fun found m' => found = slots ∧ m'.Shows v)
    (Ends.demand range ⟨rfl, shows⟩) ?_
  rintro _ m₁ ⟨rfl, shows₁⟩
  refine (Ends.forM (fun rest m' => (∀ i ∈ rest, v.link child i = none) ∧ m'.Shows v) ?_ _ m₁
    ⟨ready.vacant, shows₁⟩).bind ?_
  · rintro i rest m₂ ⟨vacant, shows₂⟩
    refine (shows₂.requireVacant ready.sound ready.target (vacant i List.mem_cons_self)).mono ?_
    exact fun _ m₃ shows₃ => ⟨fun i' h => vacant i' (List.mem_cons_of_mem _ h), shows₃⟩
  · rintro _ m₂ ⟨-, shows₂⟩
    exact cloneSlots (nodup_clonedEntries start) _ m₂ shows₂ ready

theorem cloneRange {parent child : Space} {start : VirtualAddress} {size : Nat}
    {slots : List Slot} (shows : m.Shows v) (ready : v.Ready o parent child slots)
    (range : rangeSlots .clone start size = .ok slots) :
    Tries (parent.cloneRange child start size) m Exhausts
      (fun _ m' => ∃ w, View.Cloned parent child (Space.clonedEntries start) slots v none w ∧
        m'.Shows w.flushed)
      (fun cause m' => cause = .outOfMemory ∧ ∃ i w,
        View.Cloned parent child (Space.clonedEntries start) slots v (some i) w ∧
        m'.Shows (w.freed child slots).flushed) := by
  refine Tries.lift_bind (shows.cloneInto ready range) ?_
  rintro (_ | i) m₁ ⟨w, cloned, shows₁⟩
  · refine Tries.lift_bind (shows₁.remark _) fun _ m₂ shows₂ => ?_
    exact Tries.lift (shows₂.flush.mono fun _ m₃ shows₃ => ⟨w, cloned, shows₃⟩)
  · have acts := cloned.acts ready (nodup_clonedEntries start) fun i (h : i ∈ slots) => h
    have live := cloned.live ready (nodup_clonedEntries start)
    refine Tries.lift_bind (shows₁.remark _) fun _ m₂ shows₂ => ?_
    refine Tries.lift_bind (shows₂.freeRange (acts.sound ready.sound) (live.symm ▸ ready.target)
      (rangeSlots_free_of_clone range)) fun _ m₃ shows₃ => ?_
    exact Tries.fail ⟨rfl, i, w, cloned, shows₃⟩

/-! ## Death -/

private theorem closed (shows : m.Shows v) (s : Space) :
    m.Shows (v.closed s m.ram.bytes) :=
  { shows with
    link := fun s' hs' => shows.link s' (Finset.mem_of_mem_erase hs')
    leaf := fun s' hs' => shows.leaf s' (Finset.mem_of_mem_erase hs')
    bytes := fun _ _ => rfl }

/-- A space ends when the reference to its directory is given up. -/
theorem releaseRoot (shows : m.Shows v) (sound : v.Sound o) (hs : s ∈ v.live) :
    Ends s.releaseRoot m Exhausts fun _ m' =>
      ∃ b, (∀ f, ¬ v.Hidden f → b f = v.bytes f) ∧ m'.Shows (v.ended s b) := by
  obtain ⟨tracked, one⟩ := sound.root s hs
  refine ((shows.closed s).release sound.fits (sound.fits.inside tracked) ?_).mono
    fun _ m' shows' => ⟨m.ram.bytes, shows.bytes, shows'⟩
  rintro ⟨-, zero⟩
  have same : (v.closed s m.ram.bytes).count s.root = v.count s.root := rfl
  rw [same, one] at zero
  exact Nat.one_ne_zero zero

/-- A space that maps nothing refers to its directory only. -/
theorem uses_of_vacant (shows : m.Shows v) (hs : s ∈ v.live) (vacant : ∀ i, v.link s i = none) :
    v.uses s = hits (some s.root) := by
  funext f
  refine View.uses_eq_of_empty vacant (fun k => ?_) f
  have zero := shows.leaf_of_vacant hs (vacant k.1) k.2
  rw [zero]
  rfl

/-- A range that cannot be freed stops the kernel. -/
private theorem clear_of_bad_range (s : Space) {start : VirtualAddress} {size : Nat} {cause : Halt}
    (bad : rangeSlots .free start size = .error cause) :
    Ends (s.clear start size) m (fun _ => True) fun _ _ => False := by
  unfold Space.clear Space.freeRange demand
  rw [bad]
  exact Ends.bind (P := fun _ _ => False) (Ends.of_stop rfl trivial) nofun

theorem clear (shows : m.Shows v) (sound : v.Sound o) (hs : s ∈ v.live) (start : VirtualAddress)
    (size : Nat) :
    Ends (s.clear start size) m (fun _ => True) fun _ m' => ∃ slots,
      rangeSlots .free start size = .ok slots ∧ m'.Shows (v.freed s slots).flushed := by
  cases range : rangeSlots .free start size with
  | ok slots =>
    exact ((shows.freeRange sound hs range).mono_stops fun _ _ => trivial).mono
      fun _ m' shows' => ⟨slots, rfl, shows'⟩
  | error cause => exact (clear_of_bad_range s range).mono fun _ _ => False.elim

/-- What a space refers to when a range has been freed. -/
private theorem uses_freed {slots : List Slot} (shows : m.Shows (v.freed s slots).flushed)
    (hs : s ∈ (v.freed s slots).flushed.live) (f : FrameId) :
    (v.freed s slots).uses s f = v.strays s slots f + hits (some s.root) f := by
  have root : hits (some s.root) f = ∑ c, if c = Cell.root then hits (some s.root) f else 0 := by
    rw [Finset.sum_ite_eq', if_pos (Finset.mem_univ _)]
  rw [root, View.uses, View.strays, ← Finset.sum_add_distrib]
  refine Finset.sum_congr rfl fun c _ => ?_
  cases c with
  | root =>
    rw [if_pos (show Cell.root.Under slots from trivial), if_pos rfl, Nat.zero_add]
    rfl
  | link i =>
    rw [if_neg (by simp : Cell.link i ≠ .root), Nat.add_zero, View.refers, View.link_freed]
    by_cases inside : i ∈ slots
    · rw [if_pos ⟨rfl, inside⟩, if_pos (show (Cell.link i).Under slots from inside)]
      rfl
    · rw [if_neg fun h => inside h.2, if_neg (show ¬ (Cell.link i).Under slots from inside)]
      rfl
  | leaf k =>
    rw [if_neg (by simp : Cell.leaf k ≠ .root), Nat.add_zero, View.refers]
    by_cases inside : k.1 ∈ slots
    · have vacant : (v.freed s slots).link s k.1 = none := by
        rw [View.link_freed, if_pos ⟨rfl, inside⟩]
      have zero : (v.freed s slots).leaf s k = .zero := shows.leaf_of_vacant hs vacant k.2
      rw [zero, if_pos (show (Cell.leaf k).Under slots from inside)]
      rfl
    · rw [View.leaf_freed_of_ne fun h => inside h.2,
        if_neg (show ¬ (Cell.leaf k).Under slots from inside)]
      rfl

/-- A range is freed and the space ended. What the space refers to outside the range is
left to nobody. -/
theorem destroyRange (shows : m.Shows v) (sound : v.Sound o) (hs : s ∈ v.live)
    {start : VirtualAddress} {size : Nat} {slots : List Slot}
    (range : rangeSlots .free start size = .ok slots) :
    Ends (s.destroy start size) m Exhausts fun _ m' => ∃ v',
      View.Acts (fun c => Frees s slots c ∨ c = .destroy s) v o v' (o + v.strays s slots) ∧
      v'.live = v.live.erase s ∧ v'.leaf = (v.freed s slots).leaf ∧ m'.Shows v' := by
  refine (shows.freeRange sound hs range).bind fun _ m₁ shows₁ => ?_
  have freed : View.Acts (Frees s slots) v o (v.freed s slots).flushed o :=
    (View.acts_freed hs fun _ h => h).flushed .note
  have live := freed.live fun _ h => h.lasting
  have hs' : s ∈ (v.freed s slots).flushed.live := live ▸ hs
  refine (shows₁.releaseRoot (freed.sound sound) hs').mono ?_
  rintro _ m₂ ⟨b, shown, shows₂⟩
  have uses : (v.freed s slots).flushed.uses s = v.strays s slots + hits (some s.root) :=
    funext (shows₁.uses_freed hs')
  have ended : View.Act (v.freed s slots).flushed o (.destroy s)
      ((v.freed s slots).flushed.ended s b) (o + v.strays s slots) :=
    .destroy hs' shown (by rw [uses, add_assoc])
  refine ⟨_, .tail (freed.mono fun _ h => .inl h) (.inr rfl) ended, ?_, rfl, shows₂⟩
  show (v.freed s slots).flushed.live.erase s = v.live.erase s
  rw [live]

theorem destroy (shows : m.Shows v) (sound : v.Sound o) (hs : s ∈ v.live) (start : VirtualAddress)
    (size : Nat) :
    Ends (s.destroy start size) m (fun _ => True) fun _ m' => ∃ slots v',
      rangeSlots .free start size = .ok slots ∧
      View.Acts (fun c => Frees s slots c ∨ c = .destroy s) v o v' (o + v.strays s slots) ∧
      v'.live = v.live.erase s ∧ m'.Shows v' := by
  cases range : rangeSlots .free start size with
  | ok slots =>
    exact ((shows.destroyRange sound hs range).mono_stops fun _ _ => trivial).mono
      fun _ _ ⟨v', acts, live, _, shows'⟩ => ⟨slots, v', rfl, acts, live, shows'⟩
  | error cause => exact (clear_of_bad_range s range).bind nofun

/-- There are no other references if the slots cover what the space links. -/
theorem strays_eq_zero {slots : List Slot} (shows : m.Shows v) (hs : s ∈ v.live)
    (covers : ∀ i, v.link s i ≠ none → i ∈ slots) : v.strays s slots = 0 := by
  funext f
  refine Finset.sum_eq_zero fun c _ => ?_
  split
  · rfl
  · next outside =>
    have none : v.refers s c = none := by
      cases c with
      | root => exact absurd trivial outside
      | link i => exact not_not.mp fun linked => outside (covers i linked)
      | leaf k =>
        have vacant : v.link s k.1 = none := not_not.mp fun linked => outside (covers k.1 linked)
        have zero : v.leaf s k = .zero := shows.leaf_of_vacant hs vacant k.2
        rw [View.refers, zero]
        rfl
    rw [none]
    rfl

/-! ## Both -/

/-- A space is made, or nothing is left of the attempt but read-only entries. -/
theorem createFromRange (shows : m.Shows v) (sound : v.Sound o) {parent : Option Space}
    (ok : ∀ p, parent = some p → v.Parent p) {start : VirtualAddress} {size : Nat}
    {slots : List Slot} (range : parent ≠ none → rangeSlots .clone start size = .ok slots) :
    Tries (Space.createFrom parent start size) m Exhausts
      (fun s m' => ∃ v', v.Born start slots parent s v' ∧ m'.Shows v')
      (fun cause m' => cause = .outOfMemory ∧ ∃ v', v'.live = v.live ∧
        (v' = v ∨ ∃ s, v.Free s.root ∧ View.Acts (Creates v.live parent s slots) v o v' o) ∧
        m'.Shows v') := by
  refine Tries.bind ((shows.create sound).mono_failed ?_) ?_
  · rintro cause m₁ ⟨rfl, full, shows₁⟩
    exact ⟨rfl, v, rfl, .inl rfl, shows₁⟩
  · rintro s m₁ ⟨free, shows₁⟩
    cases parent with
    | none => exact Tries.pure ⟨_, .empty free, shows₁⟩
    | some p =>
      have found := range (by simp)
      have distinct := nodup_rangeSlots found
      have ready := View.ready_founded sound (ok p rfl) free distinct
      refine Tries.bind (P := fun _ m' => ∃ w, View.Cloned p s (Space.clonedEntries start) slots
        (v.founded s) none w ∧ m'.Shows w.flushed) (Tries.undoing
        ((shows₁.cloneRange ready found).mono_failed ?_)) ?_
      · rintro cause m₂ ⟨rfl, i, w, cloned, shows₂⟩
        have entries := nodup_clonedEntries start
        have hs : s ∈ w.live := (cloned.live ready entries).symm ▸ ready.target
        have undone : View.Acts (Creates v.live (some p) s slots) v o (w.freed s slots).flushed o := by
          refine View.Acts.flushed ?_ (.free .note)
          refine (View.Acts.single .create (.create free)).trans (View.Acts.trans
            ((cloned.acts ready entries fun _ h => h).mono fun c h => .clone rfl h)
            ((View.acts_freed hs fun _ h => h).mono fun c h => .free h))
        have live : (w.freed s slots).flushed.live = w.live :=
          (View.acts_freed (o := o) hs fun _ h => h).live fun _ h => h.lasting
        refine (shows₂.releaseRoot (undone.sound sound) (live.symm ▸ hs)).mono ?_
        rintro _ m₃ ⟨b, shown, shows₃⟩
        have vacant (i : Slot) : (w.freed s slots).flushed.link s i = none := by
          show (w.freed s slots).link s i = none
          rw [View.link_freed]
          split
          · rfl
          · next outside =>
            rw [cloned.link_of_not_mem fun h => outside ⟨rfl, h⟩]
            exact if_pos rfl
        have left := shows₂.uses_of_vacant (live.symm ▸ hs) vacant
        refine ⟨rfl, _, ?_, .inr ⟨s, free, undone.tail .destroy
          (.destroy (live.symm ▸ hs) shown (by rw [left]))⟩, shows₃⟩
        show (w.freed s slots).flushed.live.erase s = v.live
        rw [live, cloned.live ready entries]
        exact Finset.erase_insert (sound.fresh free)
      · rintro _ m₂ ⟨w, cloned, shows₂⟩
        exact Tries.pure ⟨_, .clone free cloned, shows₂⟩

/-- If the range cannot be cloned, no space is made: memory runs out or the kernel stops. -/
private theorem createFrom_of_bad_range (shows : m.Shows v) (sound : v.Sound o) {parent : Space}
    {start : VirtualAddress} {size : Nat} {cause : Halt}
    (bad : rangeSlots .clone start size = .error cause) :
    Tries (Space.createFrom (some parent) start size) m (fun _ => True) (fun _ _ => False)
      (fun _ m' => m'.Shows v) := by
  refine Tries.bind (((shows.create sound).mono_failed fun _ _ h => h.2.2).mono_stops
    fun _ _ => trivial) ?_
  rintro s m₁ -
  have stops : Ends (parent.cloneInto s start size) m₁ (fun _ => True) fun _ _ => False := by
    unfold Space.cloneInto demand
    rw [bad]
    exact Ends.bind (P := fun _ _ => False) (Ends.of_stop rfl trivial) nofun
  exact Tries.bind (P := fun _ _ => False) (Tries.undoing (Tries.lift_bind stops nofun)) nofun

/-- A space is made, or nothing is left of the attempt but read-only entries. A range that
cannot be cloned stops the kernel. -/
theorem createFrom (shows : m.Shows v) (sound : v.Sound o) {parent : Option Space}
    (ok : ∀ p, parent = some p → v.Parent p) (start : VirtualAddress) (size : Nat) :
    Tries (Space.createFrom parent start size) m (fun _ => True)
      (fun s m' => ∃ slots v', (parent ≠ none → rangeSlots .clone start size = .ok slots) ∧
        slots.Nodup ∧ v.Born start slots parent s v' ∧ m'.Shows v')
      (fun _ m' => ∃ v', v'.live = v.live ∧
        (v' = v ∨ ∃ s slots, v.Free s.root ∧
          View.Acts (Creates v.live parent s slots) v o v' o) ∧ m'.Shows v') := by
  have made (slots : List Slot) (distinct : slots.Nodup)
      (range : parent ≠ none → rangeSlots .clone start size = .ok slots) :
      Tries (Space.createFrom parent start size) m (fun _ => True)
        (fun s m' => ∃ slots v', (parent ≠ none → rangeSlots .clone start size = .ok slots) ∧
          slots.Nodup ∧ v.Born start slots parent s v' ∧ m'.Shows v')
        (fun _ m' => ∃ v', v'.live = v.live ∧
          (v' = v ∨ ∃ s slots, v.Free s.root ∧
            View.Acts (Creates v.live parent s slots) v o v' o) ∧ m'.Shows v') := by
    refine ((shows.createFromRange sound ok range).mono_stops fun _ _ => trivial).mono ?_ ?_
    · rintro s m' ⟨v', born, shows'⟩
      exact ⟨slots, v', range, distinct, born, shows'⟩
    · rintro cause m' ⟨-, v', live, same | ⟨s, free, acts⟩, shows'⟩
      · exact ⟨v', live, .inl same, shows'⟩
      · exact ⟨v', live, .inr ⟨s, slots, free, acts⟩, shows'⟩
  cases parent with
  | none => exact made [] List.nodup_nil fun h => absurd rfl h
  | some p =>
    cases range : rangeSlots .clone start size with
    | ok slots =>
      rw [range] at made
      exact made slots (nodup_rangeSlots range) fun _ => rfl
    | error cause =>
      exact (shows.createFrom_of_bad_range sound range).mono (fun _ _ => False.elim)
        fun _ m' shows' => ⟨v, rfl, .inl rfl, shows'⟩

end Machine.Shows

end PagedMemory
