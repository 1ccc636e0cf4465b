import PagedMemory.Halt

/-!
# Reference counts of frames

The pool keeps one count per tracked frame. A count of zero means free; every
other count is the number of references held to the frame. Frames below the
tracked part belong to the kernel and may be retained and released without
effect, frames above it do not exist.

Frames between `low` and `mainStart` start with a count of `reservedCount`, which
keeps them from being handed out while nobody releases them.
-/

namespace PagedMemory

/-- Which free frame is handed out next. -/
inductive Policy
  | highest
  | lowest
deriving DecidableEq

structure FramePool where
  layout : Layout
  valid : layout.Valid
  policy : Policy
  counts : Array Nat
  size_counts : counts.size = layout.trackedFrames

structure FrameStats where
  total : Nat
  free : Nat
  used : Nat
  reserved : Nat
deriving DecidableEq

namespace FramePool

/-- The pool of a machine that has just started. -/
def boot (layout : Layout) (policy : Policy) (valid : layout.Valid) : FramePool where
  layout := layout
  valid := valid
  policy := policy
  counts := Array.ofFn fun i : Fin layout.trackedFrames =>
    if i.val < layout.reservedFrames then reservedCount else 0
  size_counts := Array.size_ofFn

/-- The index of the first tracked frame. -/
def first (p : FramePool) : Nat :=
  p.layout.low.value / 4096

/-- The tracked frame that owns the count at position `i`. -/
def frame (p : FramePool) (i : Fin p.counts.size) : FrameId :=
  ⟨p.first + i.val, by
    have bound : i.val < p.layout.trackedFrames := p.size_counts ▸ i.isLt
    rw [Layout.trackedFrames] at bound
    have := p.layout.high.value_lt
    simp only [PageSize.count, first]
    omega⟩

/-- Whether the frame is tracked. -/
def manages (p : FramePool) (f : FrameId) : Bool :=
  p.layout.low.value ≤ f.base.value && f.base.value < p.layout.high.value

/-- The count of a tracked frame. -/
def count (p : FramePool) (f : FrameId) : Nat :=
  p.counts.getD (f.index - p.first) 0

def refCount? (p : FramePool) (f : FrameId) : Option Nat :=
  if p.manages f then some (p.count f) else none

def setCount (p : FramePool) (f : FrameId) (n : Nat) : FramePool :=
  { p with
    counts := p.counts.setIfInBounds (f.index - p.first) n
    size_counts := by rw [Array.size_setIfInBounds, p.size_counts] }

/-- The last position below `n` with a count of zero. -/
def highestFree (counts : Array Nat) : (n : Nat) → n ≤ counts.size → Option (Fin counts.size)
  | 0, _ => none
  | n + 1, h => if counts[n] = 0 then some ⟨n, h⟩ else highestFree counts n (Nat.le_of_succ_le h)

/-- The position of the free frame that the policy hands out next. -/
def pick (p : FramePool) : Option (Fin p.counts.size) :=
  match p.policy with
  | .highest => highestFree p.counts p.counts.size (Nat.le_refl _)
  | .lowest => p.counts.findFinIdx? (· == 0)

/-- The free frame that the policy hands out next. -/
def nextFree? (p : FramePool) : Option FrameId :=
  p.pick.map p.frame

/-- Hands out a free frame with one reference. -/
def alloc (p : FramePool) : Option (FrameId × FramePool) :=
  match p.nextFree? with
  | some f => some (f, p.setCount f 1)
  | none => none

/-- Adds a reference to a frame that has one. -/
def retain (p : FramePool) (f : FrameId) : Except Halt FramePool :=
  if f.base.value < p.layout.low.value then
    .ok p
  else if p.layout.high.value ≤ f.base.value then
    .error (.retainNonexistent f)
  else
    let n := p.count f
    if n = 0 then .error (.retainFree f)
    else if 65535 ≤ n then .error (.countOverflow f)
    else .ok (p.setCount f (n + 1))

/-- Takes a reference away; the frame is free when none is left. -/
def release (p : FramePool) (f : FrameId) : Except Halt FramePool :=
  if f.base.value < p.layout.low.value then
    .ok p
  else if p.layout.high.value ≤ f.base.value then
    .error (.freeNonexistent f)
  else
    let n := p.count f
    if n = 0 then .error (.freeFree f)
    else .ok (p.setCount f (n - 1))

/-- How many frames are tracked, free, in use and reserved. The reserved frames are
counted as they were at the start, so the books do not balance once enough of
them have been released. -/
def stats (p : FramePool) : Except Halt FrameStats :=
  let total := p.counts.size
  let free := p.counts.count 0
  let reserved := p.layout.reservedFrames
  if free + reserved ≤ total then
    .ok ⟨total, free, total - free - reserved, reserved⟩
  else
    .error .overflow

/-- The frames in use with their counts, in ascending order, reserved ones left out. -/
def allocated (p : FramePool) : List (FrameId × Nat) :=
  (((List.finRange p.counts.size).drop p.layout.reservedFrames).map
    fun i => (p.frame i, p.counts[i])).filter fun entry => entry.2 != 0

@[simp] theorem layout_setCount (p : FramePool) (f : FrameId) (n : Nat) :
    (p.setCount f n).layout = p.layout := rfl

@[simp] theorem first_setCount (p : FramePool) (f : FrameId) (n : Nat) :
    (p.setCount f n).first = p.first := rfl

@[simp] theorem manages_setCount (p : FramePool) (f g : FrameId) (n : Nat) :
    (p.setCount f n).manages g = p.manages g := rfl

theorem manages_congr {p p' : FramePool} (layout : p'.layout = p.layout) (f : FrameId) :
    p'.manages f = p.manages f := by
  simp only [manages, layout]

/-- A frame is tracked exactly if its index lies in the counted part. -/
theorem manages_iff {p : FramePool} {f : FrameId} :
    p.manages f = true ↔ p.first ≤ f.index ∧ f.index < p.first + p.counts.size := by
  have aligned := p.valid.aligned
  have low := p.valid.low_le
  have high := p.valid.mainStart_le
  rw [p.size_counts]
  simp only [Address.isAligned, PageSize.bytes, beq_iff_eq] at aligned
  simp only [manages, Bool.and_eq_true, decide_eq_true_eq]
  simp only [Page.value_base, PageSize.bytes, first, Layout.trackedFrames]
  omega

theorem count_setCount_self {p : FramePool} {f : FrameId} (n : Nat) (h : p.manages f) :
    (p.setCount f n).count f = n := by
  have bounds := manages_iff.1 h
  simp only [count, setCount, first, Array.getD_eq_getD_getElem?] at *
  rw [Array.getElem?_setIfInBounds_self_of_lt (by omega)]
  rfl

theorem count_setCount_of_ne {p : FramePool} {f g : FrameId} (n : Nat)
    (hf : p.manages f) (hg : p.manages g) (h : g ≠ f) :
    (p.setCount f n).count g = p.count g := by
  have indexes : g.index ≠ f.index := fun e => h (Page.ext e)
  have bf := manages_iff.1 hf
  have bg := manages_iff.1 hg
  simp only [count, setCount, first, Array.getD_eq_getD_getElem?] at *
  rw [Array.getElem?_setIfInBounds_ne (by omega)]

theorem refCount?_setCount_self {p : FramePool} {f : FrameId} (n : Nat) (h : p.manages f) :
    (p.setCount f n).refCount? f = some n := by
  rw [refCount?, manages_setCount, if_pos h, count_setCount_self n h]

theorem refCount?_setCount_of_ne {p : FramePool} {f g : FrameId} (n : Nat) (hf : p.manages f)
    (h : g ≠ f) : (p.setCount f n).refCount? g = p.refCount? g := by
  unfold refCount?
  rw [manages_setCount]
  split
  · next hg => rw [count_setCount_of_ne n hf hg h]
  · rfl

@[simp] theorem index_frame (p : FramePool) (i : Fin p.counts.size) :
    (p.frame i).index = p.first + i.val := rfl

theorem manages_frame (p : FramePool) (i : Fin p.counts.size) : p.manages (p.frame i) := by
  have := i.isLt
  rw [manages_iff, index_frame]
  omega

theorem count_frame (p : FramePool) (i : Fin p.counts.size) :
    p.count (p.frame i) = p.counts[i] := by
  simp only [count, index_frame, Nat.add_sub_cancel_left]
  simp [Array.getD]

/-- The tracked frames are those that own a count. -/
theorem exists_frame_eq {p : FramePool} {f : FrameId} (h : p.manages f) :
    ∃ i, p.frame i = f := by
  have bounds := manages_iff.1 h
  refine ⟨⟨f.index - p.first, by omega⟩, Page.ext ?_⟩
  simp only [index_frame]
  omega

theorem highestFree_eq_some {counts : Array Nat} {n : Nat} {h : n ≤ counts.size}
    {i : Fin counts.size} (found : highestFree counts n h = some i) :
    counts[i] = 0 ∧ ∀ j : Fin counts.size, i < j → j.val < n → counts[j] ≠ 0 := by
  induction n with
  | zero => simp [highestFree] at found
  | succ n ih =>
    rw [highestFree] at found
    split at found
    · next zero =>
      cases found
      exact ⟨zero, fun j above below => by have : n < j.val := above; omega⟩
    · next taken =>
      obtain ⟨zero, above⟩ := ih found
      refine ⟨zero, fun j higher below => ?_⟩
      by_cases last : j.val = n
      · simpa [← last] using taken
      · exact above j higher (by omega)

theorem highestFree_eq_none {counts : Array Nat} {n : Nat} {h : n ≤ counts.size}
    (full : highestFree counts n h = none) (j : Fin counts.size) (below : j.val < n) :
    counts[j] ≠ 0 := by
  induction n with
  | zero => omega
  | succ n ih =>
    rw [highestFree] at full
    split at full
    · cases full
    · next taken =>
      by_cases last : j.val = n
      · simpa [← last] using taken
      · exact ih full (by omega)

theorem count_of_pick {p : FramePool} {i : Fin p.counts.size} (picked : p.pick = some i) :
    p.counts[i] = 0 := by
  unfold pick at picked
  split at picked
  · exact (highestFree_eq_some picked).1
  · simpa using (Array.findFinIdx?_eq_some_iff.1 picked).1

theorem pick_eq_none {p : FramePool} (full : p.pick = none) (j : Fin p.counts.size) :
    p.counts[j] ≠ 0 := by
  unfold pick at full
  split at full
  · exact highestFree_eq_none full j j.isLt
  · simpa using Array.findFinIdx?_eq_none_iff.1 full p.counts[j] (Array.getElem_mem j.isLt)

/-- What is handed out was free, and nothing but its count changes. -/
theorem alloc_eq_some {p p' : FramePool} {f : FrameId} (given : p.alloc = some (f, p')) :
    p.manages f = true ∧ p.count f = 0 ∧ p' = p.setCount f 1 := by
  unfold alloc nextFree? at given
  cases picked : p.pick with
  | none => simp [picked] at given
  | some i =>
    simp only [picked, Option.map_some, Option.some.injEq, Prod.mk.injEq] at given
    obtain ⟨rfl, rfl⟩ := given
    exact ⟨p.manages_frame i, (p.count_frame i).trans (count_of_pick picked), rfl⟩

/-- Nothing is handed out exactly if no frame is free. -/
theorem alloc_eq_none_iff {p : FramePool} :
    p.alloc = none ↔ ∀ f, p.manages f = true → p.count f ≠ 0 := by
  unfold alloc nextFree?
  cases picked : p.pick with
  | none =>
    simp only [Option.map_none, true_iff]
    intro f tracked
    obtain ⟨i, rfl⟩ := exists_frame_eq tracked
    rw [count_frame]
    exact pick_eq_none picked i
  | some i =>
    simp only [Option.map_some, reduceCtorEq, false_iff]
    intro taken
    exact taken _ (p.manages_frame i) ((p.count_frame i).trans (count_of_pick picked))

theorem manages_of_bounds {p : FramePool} {f : FrameId}
    (low : ¬ f.base.value < p.layout.low.value) (high : ¬ p.layout.high.value ≤ f.base.value) :
    p.manages f = true := by
  rw [manages, Bool.and_eq_true, decide_eq_true_eq, decide_eq_true_eq]
  omega

theorem not_manages_of_below {p : FramePool} {f : FrameId}
    (below : f.base.value < p.layout.low.value) : ¬ p.manages f = true := by
  rw [manages, Bool.and_eq_true, decide_eq_true_eq]
  omega

/-- A frame that has references gets one more, or lies below the tracked ones. -/
theorem retain_cases {p p' : FramePool} {f : FrameId} (done : p.retain f = .ok p') :
    (¬ p.manages f = true ∧ p' = p) ∨
      (p.manages f = true ∧ p.count f ≠ 0 ∧ p' = p.setCount f (p.count f + 1)) := by
  simp only [retain] at done
  split at done
  · next below =>
    cases done
    exact .inl ⟨not_manages_of_below below, rfl⟩
  · next low =>
    split at done
    · cases done
    · next high =>
      split at done
      · cases done
      · next held =>
        split at done
        · cases done
        · cases done
          exact .inr ⟨manages_of_bounds low high, held, rfl⟩

/-- A frame that has references loses one of them, or lies below the tracked ones. -/
theorem release_cases {p p' : FramePool} {f : FrameId} (done : p.release f = .ok p') :
    (¬ p.manages f = true ∧ p' = p) ∨
      (p.manages f = true ∧ p.count f ≠ 0 ∧ p' = p.setCount f (p.count f - 1)) := by
  simp only [release] at done
  split at done
  · next below =>
    cases done
    exact .inl ⟨not_manages_of_below below, rfl⟩
  · next low =>
    split at done
    · cases done
    · next high =>
      split at done
      · cases done
      · next held =>
        cases done
        exact .inr ⟨manages_of_bounds low high, held, rfl⟩

end FramePool

end PagedMemory
