import PagedMemory.Space.Lifecycle
import PagedMemory.Proofs.Spending

/-!
# When the cache is emptied

How often an operation empties the cache is a cost that adds up along the operation:
`Flushes n op` says that it is `n`, whatever machine `op` is run on, unless the kernel
stops. Freeing a range takes entries away, and cloning one takes the right to write from
those of the parent; either empties the cache once, whether it succeeds or runs out of
memory.

Making a space is the one call whose cost depends on how it ends. A clone has been paid
for however it ended, and where not even a directory could be had, nothing has changed.
-/

namespace PagedMemory

open Machine

variable {α β : Type}

/-- The operation empties the cache exactly `n` times. The counter of flushes stops it only
if it has no room for so many more. -/
def Flushes (n : Nat) (op : Kernel α) : Prop :=
  ∀ m, Ends op m (fun cause => cause = .overflow → flushLimit ≤ m.flushes + n)
    fun _ m' => m'.flushes = m.flushes + n

namespace Flushes

variable {a b : Nat} {op : Kernel α}

theorem pure (x : α) : Flushes 0 (Pure.pure x : Kernel α) :=
  fun _ => Ends.pure rfl

theorem bind {next : α → Kernel β} (first : Flushes a op) (rest : ∀ x, Flushes b (next x)) :
    Flushes (a + b) (op >>= next) := by
  intro m
  refine ((first m).mono_stops fun cause stop same => ?_).bind fun x m₁ same =>
    (((rest x) m₁).mono_stops fun cause stop overrun => ?_).mono fun _ m₂ more => ?_
  · exact Nat.le_trans (stop same) (Nat.add_le_add_left (Nat.le_add_right a b) _)
  · rw [← Nat.add_assoc, ← same]
    exact stop overrun
  · rw [more, same, Nat.add_assoc]

/-- What comes before an operation costs nothing. -/
theorem after {next : α → Kernel β} (first : Flushes 0 op) (rest : ∀ x, Flushes b (next x)) :
    Flushes b (op >>= next) :=
  Nat.zero_add b ▸ first.bind rest

theorem forM {f : β → Kernel Unit} (body : ∀ x, Flushes 0 (f x)) (xs : List β) :
    Flushes 0 (xs.forM f) := by
  induction xs with
  | nil => exact pure ()
  | cons x xs ih => exact (body x).after fun _ => ih

theorem halt {cause : Halt} (plain : cause.Plain) :
    Flushes a (PagedMemory.halt cause : Kernel α) :=
  fun _ => Ends.halt fun same => absurd same plain.ne_overflow

theorem inspect {look : Machine → Except Halt α}
    (plain : ∀ m cause, look m = .error cause → cause.Plain) :
    Flushes 0 (PagedMemory.inspect look) := by
  intro m
  apply Ends.look
  · intro x seen
    rfl
  · intro cause unseen
    exact fun same => absurd same (plain m cause unseen).ne_overflow

theorem readEntry (f : FrameId) (i : Slot) : Flushes 0 (PagedMemory.readEntry f i) :=
  inspect fun _ _ => Ram.plain_of_entry

theorem tableAt (s : Space) (i : Slot) :
    Flushes 0 (PagedMemory.inspect fun m => s.tableAt m.ram i) :=
  inspect fun _ _ => Space.plain_of_tableAt

theorem rangeSlots (operation : RangeOperation) (start : VirtualAddress) (size : Nat) :
    Flushes 0 (demand (PagedMemory.rangeSlots operation start size)) :=
  inspect fun _ _ => Halt.plain_of_rangeSlots

theorem manages (f : FrameId) : Flushes 0 (PagedMemory.manages f) :=
  fun _ => Ends.intro rfl rfl

theorem flush : Flushes 1 PagedMemory.flush := by
  intro m
  apply Ends.flush
  · intro room
    rfl
  · intro overrun _
    exact overrun

theorem of_spends (h : ∀ m, Ends op m (m.Halts 0 m.Full) fun _ m' => m.Spends 0 m') :
    Flushes 0 op :=
  fun m => ((h m).mono_stops fun _ stop => stop.overruns).mono fun _ _ spent => spent.eq

theorem remark (e : Event) : Flushes 0 (PagedMemory.remark e) :=
  fun _ => Ends.intro rfl rfl

theorem modifyFrame (f : FrameId) (change : Frame → Frame) :
    Flushes 0 (PagedMemory.modifyFrame f change) :=
  of_spends fun m => ((Spares.refl m).modifyFrame f change).mono fun _ _ h => h.toSpends

theorem retain (f : FrameId) : Flushes 0 (PagedMemory.retain f) :=
  of_spends fun m => (Spares.refl m).retain f

theorem release (f : FrameId) : Flushes 0 (PagedMemory.release f) :=
  of_spends fun m => ((Spares.refl m).release f).mono fun _ _ h => h.toSpends

theorem allocFrame? : Flushes 0 PagedMemory.allocFrame? :=
  of_spends fun m => (Spares.refl m).allocFrame?.mono fun _ _ h => h.1.toSpends

/-- What the kernel does in an attempt costs what it costs outside. -/
theorem lift (h : Flushes a op) : Flushes a (outcome (liftM op : Attempt α)) :=
  h.bind fun x => pure (Except.ok x)

theorem lift_bind {next : α → Attempt β} (first : Flushes a op)
    (rest : ∀ x, Flushes b (outcome (next x))) :
    Flushes (a + b) (outcome (liftM op >>= next)) := by
  -- What the kernel does in an attempt does not fail, so the rest is always run.
  have unlifted : outcome (liftM op >>= next) = op >>= fun x => outcome (next x) :=
    ExceptT.run_bind_lift op next
  rw [unlifted]
  exact first.bind rest

theorem lift_after {next : α → Attempt β} (first : Flushes 0 op)
    (rest : ∀ x, Flushes b (outcome (next x))) : Flushes b (outcome (liftM op >>= next)) :=
  Nat.zero_add b ▸ first.lift_bind rest

/-- An attempt costs the same whether it succeeds or fails. -/
theorem tries {op : Attempt α} (h : Flushes a (outcome op)) (m : Machine) :
    Tries op m (fun _ => True) (fun _ m' => m'.flushes = m.flushes + a)
      (fun _ m' => m'.flushes = m.flushes + a) := by
  refine ((h m).mono_stops fun _ _ => trivial).mono ?_
  rintro (cause | x) m' same
  · exact same
  · exact same

end Flushes

namespace Space

/-! ## Ranges -/

theorem flushes_dropEntry (table : FrameId) (i : Slot) : Flushes 0 (dropEntry table i) := by
  refine (Flushes.readEntry table i).after fun entry => ?_
  split
  · exact (Flushes.release entry.frame).after fun _ => .modifyFrame table _
  · exact .modifyFrame table _

theorem flushes_freeSlot (s : Space) (slot : Slot) : Flushes 0 (s.freeSlot slot) := by
  refine (Flushes.tableAt s slot).after fun table => ?_
  cases table with
  | none => exact .pure ()
  | some table =>
    refine (Flushes.forM (flushes_dropEntry table) allSlots).after fun _ => ?_
    exact (Flushes.release table).after fun _ => .modifyFrame s.root _

theorem flushes_freeRange (s : Space) (start : VirtualAddress) (size : Nat) :
    Flushes 1 (s.freeRange start size) := by
  refine (Flushes.rangeSlots .free start size).after fun slots => ?_
  refine (Flushes.forM s.flushes_freeSlot slots).after fun _ => ?_
  exact (Flushes.remark _).after fun _ => .flush

theorem flushes_cloneEntry (source target : FrameId) (i : Slot) :
    Flushes 0 (cloneEntry source target i) := by
  refine (Flushes.readEntry source i).after fun entry => ?_
  split
  · refine (Flushes.modifyFrame target _).after fun _ => ?_
    refine (Flushes.manages entry.frame).after fun tracked => ?_
    split
    · exact (Flushes.modifyFrame source _).after fun _ => .retain entry.frame
    · exact .pure ()
  · exact .pure ()

theorem flushes_cloneSlots (parent child : Space) (entries slots : List Slot) :
    Flushes 0 (parent.cloneSlots child entries slots) := by
  induction slots with
  | nil => exact .pure none
  | cons slot rest ih =>
    refine (Flushes.tableAt parent slot).after fun source => ?_
    cases source with
    | none => exact ih
    | some source =>
      refine Flushes.allocFrame?.after fun target => ?_
      cases target with
      | none => exact .pure (some slot)
      | some target =>
        refine (Flushes.modifyFrame target _).after fun _ => ?_
        refine (Flushes.modifyFrame child.root _).after fun _ => ?_
        exact (Flushes.forM (flushes_cloneEntry source target) entries).after fun _ => ih

theorem flushes_cloneInto (parent child : Space) (start : VirtualAddress) (size : Nat) :
    Flushes 0 (parent.cloneInto child start size) := by
  refine (Flushes.rangeSlots .clone start size).after fun slots => ?_
  refine (Flushes.forM (fun slot => ?_) slots).after fun _ =>
    parent.flushes_cloneSlots child (clonedEntries start) slots
  refine (Flushes.readEntry child.root slot).after fun entry => ?_
  split
  · exact .halt trivial
  · exact .pure ()

theorem flushes_cloneRange (parent child : Space) (start : VirtualAddress) (size : Nat) :
    Flushes 1 (outcome (parent.cloneRange child start size)) := by
  refine Flushes.lift_after (parent.flushes_cloneInto child start size) fun left => ?_
  cases left with
  | none => exact Flushes.lift_after (Flushes.remark _) fun _ => Flushes.flush.lift
  | some slot =>
    refine Flushes.lift_after (Flushes.remark _) fun _ => ?_
    refine Flushes.lift_bind (b := 0) (child.flushes_freeRange start size) fun _ => ?_
    exact Flushes.pure (Except.error MemoryError.outOfMemory)

/-! ## Whole spaces -/

theorem flushes_create (m : Machine) :
    Tries create m (fun _ => True) (fun _ m' => m'.flushes = m.flushes) (fun _ m' => m' = m) := by
  have allocated : Tries allocFrame m (fun _ => True) (fun _ m' => m'.flushes = m.flushes)
      (fun _ m' => m' = m) := by
    refine Tries.lift_bind ((Spares.refl m).allocFrame? (N := 0) (P := m.Full)
      |>.mono_stops fun _ _ => trivial) ?_
    rintro (_ | f) m₁ ⟨spent, full⟩
    · exact Tries.fail (full rfl)
    · exact Tries.pure spent.toSpends.eq
  refine allocated.bind fun f m₁ same => ?_
  have cleared : Ends (zeroFrame f) m₁ (fun _ => True) fun _ m' => m'.flushes = m₁.flushes :=
    (Flushes.modifyFrame f _ m₁).mono_stops fun _ _ => trivial
  refine Tries.lift_bind cleared fun _ m₂ same' => ?_
  exact Tries.pure (same'.trans same)

/-- A clone has emptied the cache, whether it was made or given up. -/
theorem flushes_createFrom (parent : Option Space) (start : VirtualAddress) (size : Nat)
    (m : Machine) :
    Tries (createFrom parent start size) m (fun _ => True)
      (fun _ m' => m'.flushes = m.flushes + if parent = none then 0 else 1)
      (fun _ m' => m' = m ∨ m.flushes < m'.flushes) := by
  refine Tries.bind ((flushes_create m).mono_failed fun _ _ => .inl) ?_
  intro child m₁ same
  cases parent with
  | none => exact Tries.pure same
  | some parent =>
    refine Tries.bind (P := fun _ m' => m'.flushes = m.flushes + 1) (Tries.undoing ?_)
      fun _ _ more => Tries.pure more
    refine ((parent.flushes_cloneRange child start size).tries m₁).mono ?_ ?_
    · intro _ m₂ more
      rw [more, same]
    · intro _ m₂ more
      refine ((Flushes.release child.root m₂).mono_stops fun _ _ => trivial).mono
        fun _ m₃ same' => .inr ?_
      rw [same', more, same]
      exact Nat.lt_succ_self _

theorem flushes_clear (s : Space) (start : VirtualAddress) (size : Nat) :
    Flushes 1 (s.clear start size) :=
  s.flushes_freeRange start size

theorem flushes_destroy (s : Space) (start : VirtualAddress) (size : Nat) :
    Flushes 1 (s.destroy start size) :=
  (s.flushes_clear start size).bind fun _ => .release s.root

end Space

end PagedMemory
