import PagedMemory.Boot
import PagedMemory.Proofs.KernelSpace

/-!
# The first view

A machine that has just started has no spaces and cleared memory, and what keeps its
reserved frames from being handed out is owed to nobody in particular. The kernel has no
tables yet, which makes it as quiet as it is ever after.
-/

namespace PagedMemory

/-- The references that keep reserved frames from being handed out. -/
def Layout.reserve (l : Layout) : Owed :=
  fun f => if l.low.value ≤ f.base.value ∧ f.base.value < l.mainStart.value then reservedCount
    else 0

@[simp] theorem Ram.bytes_cleared (n : Nat) (f : FrameId) : (cleared n).bytes f = Frame.zero := by
  simp only [bytes, frame?, cleared, Array.getElem?_replicate]
  split <;> rfl

namespace FramePool

/-- Only reserved frames have a count at the start. -/
theorem count_boot {layout : Layout} {policy : Policy} {valid : layout.Valid} {f : FrameId}
    (tracked : (boot layout policy valid).manages f = true) :
    (boot layout policy valid).count f = layout.reserve f := by
  have bounds := manages_iff.1 tracked
  have aligned := valid.aligned
  have low := valid.low_le
  have high := valid.mainStart_le
  have size := (boot layout policy valid).size_counts
  simp only [Address.isAligned, PageSize.bytes, beq_iff_eq] at aligned
  have first : (boot layout policy valid).first = layout.low.value / 4096 := rfl
  have tracks : (boot layout policy valid).layout.trackedFrames = layout.trackedFrames := rfl
  rw [size, tracks, first] at bounds
  have inside : f.index - layout.low.value / 4096 < layout.trackedFrames := by omega
  have position : (boot layout policy valid).count f =
      if f.index - layout.low.value / 4096 < layout.reservedFrames then reservedCount else 0 := by
    unfold count
    rw [first]
    simp [boot, Array.getD_eq_getD_getElem?, inside]
  have reserved : f.index - layout.low.value / 4096 < layout.reservedFrames ↔
      layout.low.value ≤ f.base.value ∧ f.base.value < layout.mainStart.value := by
    simp only [Layout.reservedFrames, Page.value_base, PageSize.bytes]
    omega
  rw [position, Layout.reserve]
  simp only [reserved]

end FramePool

namespace View

/-- No space is live, memory is cleared and nothing is handed out. -/
def initial (config : Config) (layout : Layout) : View where
  layout := layout
  size := layout.high.value / 4096
  config := config
  live := ∅
  link := fun _ _ => none
  leaf := fun _ _ => .zero
  count := layout.reserve
  bytes := fun _ => Frame.zero
  flushes := 0
  reads := #[]
  terminations := #[]

variable {config : Config} {layout : Layout}

theorem sound_initial (valid : layout.Valid) : (initial config layout).Sound layout.reserve where
  fits := ⟨valid, rfl⟩
  counted f _ := by
    have none : (initial config layout).references f = 0 := Finset.sum_empty
    rw [none, Nat.zero_add]
    rfl
  root _ hs := absurd hs (Finset.notMem_empty _)
  table _ hs := absurd hs (Finset.notMem_empty _)
  mapped _ hs := absurd hs (Finset.notMem_empty _)
  exclusive _ hs := absurd hs (Finset.notMem_empty _)

theorem agree_initial : (initial config layout).Agree :=
  fun _ _ _ hs => absurd hs (Finset.notMem_empty _)

theorem quiet_initial (valid : layout.Valid) (room : 8192 ≤ layout.low.value) :
    (initial config layout).Quiet Space.kernel :=
  .of_identity (v := initial config layout) ⟨valid, rfl⟩ room (.of_zero rfl)

end View

/-- A machine that has just started shows the first view. -/
theorem Machine.shows_boot {config : Config} {layout : Layout} {policy : Policy} {m : Machine}
    (start : Machine.boot config layout policy = .ok m) :
    layout.Valid ∧ m.Shows (.initial config layout) := by
  unfold Machine.boot at start
  split at start
  · next verdict =>
    cases start
    have valid := Layout.validate_eq_ok_iff.mp verdict
    refine ⟨valid, {
      layout := rfl, config := rfl, flushes := rfl, reads := rfl, terminations := rfl
      size := Array.size_replicate
      link := fun _ hs => absurd hs (Finset.notMem_empty _)
      leaf := fun _ hs => absurd hs (Finset.notMem_empty _)
      count := fun f tracked => FramePool.count_boot tracked
      bytes := fun f _ => Ram.bytes_cleared _ f }⟩
  · cases start

/-! ## Runs that can be computed -/

section Computed

variable {α : Type} {m : Machine} {op : Attempt α}

/-- What an attempt produces, if it succeeds. -/
def Machine.product (m : Machine) (op : Attempt α) : Option α :=
  match outcome op m with
  | .ok (.ok a, _) => some a
  | _ => none

/-- The machine after an attempt, unless it stops the kernel. -/
def Machine.after (m : Machine) (op : Attempt α) : Machine :=
  match outcome op m with
  | .ok (_, m') => m'
  | .error _ => m

theorem Machine.run_of_product {a : α} (h : m.product op = some a) :
    outcome op m = .ok (.ok a, m.after op) := by
  unfold product at h
  unfold Machine.after
  split at h
  · next b m' run =>
    cases h
    rw [run]
  · cases h

theorem Machine.run_of_lift {op : Kernel α} {a : α} (h : m.product (liftM op) = some a) :
    op m = .ok (a, m.after (liftM op)) := by
  obtain ⟨b, run, same⟩ := outcome_lift_eq_ok_iff.mp (run_of_product h)
  cases same
  exact run

theorem Machine.run_after {a : α} (h : ∃ m', outcome op m = .ok (.ok a, m')) :
    outcome op m = .ok (.ok a, m.after op) := by
  obtain ⟨m', run⟩ := h
  unfold Machine.after
  rw [run]

end Computed

section Tiny

/-- A layout with six frames that can be handed out. -/
def Layout.tiny : Layout :=
  ⟨⟨8192, by decide⟩, ⟨8192, by decide⟩, ⟨32768, by decide⟩⟩

theorem Layout.valid_tiny : Layout.tiny.Valid :=
  ⟨by decide, by decide, by decide, by decide⟩

/-- A machine that has just started with six free frames. -/
def Machine.tiny : Machine :=
  { Machine.start .standard .tiny Layout.valid_tiny .lowest Layout.tiny.high.value with
    events := #[.memoryFound 32768 8192] ++ #[.framesAvailable 6 6] }

theorem Machine.boot_tiny : Machine.boot .standard .tiny .lowest = .ok .tiny := rfl

/-- A layout with one frame more. -/
def Layout.small : Layout :=
  ⟨⟨8192, by decide⟩, ⟨8192, by decide⟩, ⟨36864, by decide⟩⟩

theorem Layout.valid_small : Layout.small.Valid :=
  ⟨by decide, by decide, by decide, by decide⟩

/-- A machine that has just started with seven free frames. -/
def Machine.small : Machine :=
  { Machine.start .standard .small Layout.valid_small .lowest Layout.small.high.value with
    events := #[.memoryFound 36864 8192] ++ #[.framesAvailable 7 7] }

theorem Machine.boot_small : Machine.boot .standard .small .lowest = .ok .small := rfl

/-- The eight frames of a tiny machine, counted round and round. -/
def tinyFrame (n : Nat) : FrameId :=
  ⟨n % 8, Nat.lt_trans (Nat.mod_lt n (by decide)) (by decide)⟩

end Tiny

end PagedMemory
