import PagedMemory.Proofs.Auditing
import PagedMemory.Proofs.Reservation

/-!
# The books of the pool

What the pool does follows from the calls that it has served. The references that a frame
started with and those made since, less those taken away, are the balance of the frame
(`PoolLog.balance`), and this is its count. So the balances decide which frame is handed out
next (`Policy.Chooses`) and which calls stop the kernel (`PoolCall.Breaks`).

A count has 16 bits, and a frame is found by its distance from the first tracked one. On an
accepted layout all these numbers stay in range (`FramePool.InRange`).
-/

namespace PagedMemory

/-- The frame with the highest or the lowest index among those with a property. -/
def Policy.Chooses (policy : Policy) (P : FrameId → Prop) (f : FrameId) : Prop :=
  P f ∧ ∀ g, P g → match policy with
    | .highest => g.index ≤ f.index
    | .lowest => f.index ≤ g.index

theorem Policy.Chooses.unique {policy : Policy} {P : FrameId → Prop} {f g : FrameId}
    (first : policy.Chooses P f) (second : policy.Chooses P g) : f = g := by
  have here := first.2 g second.1
  have there := second.2 f first.1
  apply Page.ext
  cases policy with
  | highest => exact Nat.le_antisymm there here
  | lowest => exact Nat.le_antisymm here there

/-- The references to the frame are counted. -/
def Layout.Tracks (layout : Layout) (f : FrameId) : Prop :=
  layout.low.value ≤ f.base.value ∧ f.base.value < layout.high.value

/-- The reasons for which a call stops the kernel, by how many references there are to each
frame. -/
inductive PoolCall.Breaks (layout : Layout) (count : FrameId → Nat) : PoolCall → Halt → Prop
  | retainNonexistent {f : FrameId} (above : layout.high.value ≤ f.base.value) :
      Breaks layout count (.retain f) (.retainNonexistent f)
  | retainFree {f : FrameId} (tracked : layout.Tracks f) (free : count f = 0) :
      Breaks layout count (.retain f) (.retainFree f)
  | countOverflow {f : FrameId} (tracked : layout.Tracks f) (full : count f = 65535) :
      Breaks layout count (.retain f) (.countOverflow f)
  | freeNonexistent {f : FrameId} (above : layout.high.value ≤ f.base.value) :
      Breaks layout count (.release f) (.freeNonexistent f)
  | freeFree {f : FrameId} (tracked : layout.Tracks f) (free : count f = 0) :
      Breaks layout count (.release f) (.freeFree f)

theorem PoolCall.Breaks.congr {layout : Layout} {count count' : FrameId → Nat} {c : PoolCall}
    {cause : Halt} (breaks : c.Breaks layout count cause)
    (same : ∀ f, layout.Tracks f → count' f = count f) : c.Breaks layout count' cause := by
  cases breaks with
  | retainNonexistent above => exact .retainNonexistent above
  | retainFree tracked free => exact .retainFree tracked ((same _ tracked).trans free)
  | countOverflow tracked full => exact .countOverflow tracked ((same _ tracked).trans full)
  | freeNonexistent above => exact .freeNonexistent above
  | freeFree tracked free => exact .freeFree tracked ((same _ tracked).trans free)

namespace PoolLog

/-- What is left of the references to a frame. -/
def balance (log : PoolLog) (layout : Layout) (f : FrameId) : Nat :=
  layout.reserve f + log.made f - log.taken f

/-- All references to a tracked frame have been given up. -/
def Spent (log : PoolLog) (layout : Layout) (f : FrameId) : Prop :=
  layout.Tracks f ∧ log.balance layout f = 0

end PoolLog

namespace FramePool

variable {p p' : FramePool} {f : FrameId} {c : PoolCall} {answer : Option FrameId}
  {calls : List PoolCall} {log : PoolLog} {cause : Halt}

theorem manages_iff_tracks : p.manages f = true ↔ p.layout.Tracks f :=
  manages_iff_bounds

/-- Frames below the tracked ones may be retained and released without effect. -/
theorem serve_of_below (below : f.base.value < p.layout.low.value) :
    p.serve (.retain f) = .ok (none, p) ∧ p.serve (.release f) = .ok (none, p) := by
  have retained : p.retain f = .ok p := if_pos below
  have released : p.release f = .ok p := if_pos below
  constructor
  · rw [serve, retained]
    rfl
  · rw [serve, released]
    rfl

/-! ## What is handed out -/

/-- The frame is tracked and nobody holds it. -/
def Idle (p : FramePool) (f : FrameId) : Prop :=
  p.layout.Tracks f ∧ p.count f = 0

theorem chooses_of_pick {i : Fin p.counts.size} (picked : p.pick = some i) :
    p.policy.Chooses p.Idle (p.frame i) := by
  have mine : p.Idle (p.frame i) :=
    ⟨manages_iff_tracks.mp (p.manages_frame i), (p.count_frame i).trans (count_of_pick picked)⟩
  refine ⟨mine, fun g idle => ?_⟩
  obtain ⟨j, rfl⟩ := exists_frame_eq (manages_iff_tracks.mpr idle.1)
  have free := (p.count_frame j).symm.trans idle.2
  unfold pick at picked
  cases order : p.policy with
  | highest =>
    simp only [order] at picked
    have last := (highestFree_eq_some picked).2 j
    show (p.frame j).index ≤ (p.frame i).index
    rw [index_frame, index_frame]
    by_contra above
    exact last (by rw [Fin.lt_def]; omega) j.isLt free
  | lowest =>
    simp only [order] at picked
    have first := (Array.findFinIdx?_eq_some_iff.mp picked).2 j
    show (p.frame i).index ≤ (p.frame j).index
    rw [index_frame, index_frame]
    by_contra below
    exact first (by rw [Fin.lt_def]; omega) (beq_iff_eq.mpr free)

/-- The frame that the policy chooses among the free ones is handed out, if there is one. -/
theorem alloc_eq_some_iff :
    p.alloc = some (f, p') ↔ p.policy.Chooses p.Idle f ∧ p' = p.setCount f 1 := by
  cases picked : p.pick with
  | none =>
    have refused : p.alloc = none := by
      simp only [alloc, nextFree?, picked, Option.map_none]
    rw [refused]
    refine iff_of_false nofun ?_
    rintro ⟨⟨⟨tracked, free⟩, -⟩, -⟩
    exact alloc_eq_none_iff.mp refused f (manages_iff_tracks.mpr tracked) free
  | some i =>
    have given : p.alloc = some (p.frame i, p.setCount (p.frame i) 1) := by
      simp only [alloc, nextFree?, picked, Option.map_some]
    have chosen := chooses_of_pick picked
    rw [given, Option.some.injEq, Prod.mk.injEq]
    constructor
    · rintro ⟨rfl, rfl⟩
      exact ⟨chosen, rfl⟩
    · rintro ⟨other, rfl⟩
      rw [chosen.unique other]
      exact ⟨rfl, rfl⟩

theorem alloc_eq_none_iff_idle : p.alloc = none ↔ ∀ f, ¬ p.Idle f := by
  rw [alloc_eq_none_iff]
  refine forall_congr' fun f => ?_
  rw [manages_iff_tracks, Idle, not_and]

theorem serve_alloc_eq_some_iff :
    (∃ q, p.serve .alloc = .ok (some f, q)) ↔ p.policy.Chooses p.Idle f := by
  have given (q : FramePool) : p.serve .alloc = .ok (some f, q) ↔ p.alloc = some (f, q) := by
    simp only [serve]
    cases p.alloc <;> simp [Prod.ext_iff]
  simp only [given, alloc_eq_some_iff, exists_and_left, exists_eq, and_true]

theorem serve_alloc_eq_none_iff :
    p.serve .alloc = .ok (none, p') ↔ (∀ f, ¬ p.Idle f) ∧ p' = p := by
  rw [← alloc_eq_none_iff_idle]
  simp only [serve]
  cases p.alloc <;> simp [eq_comm]

/-! ## What stops the kernel -/

/-- No count leaves its 16 bits. -/
def Bounded (p : FramePool) : Prop :=
  ∀ f, p.layout.Tracks f → p.count f ≤ 65535

theorem retain_eq_error_iff (bounded : p.Bounded) :
    p.retain f = .error cause ↔ (PoolCall.retain f).Breaks p.layout p.count cause := by
  have ordered := Nat.le_trans p.valid.low_le p.valid.mainStart_le
  have limit := bounded f
  constructor
  · intro stopped
    simp only [retain] at stopped
    split at stopped
    · cases stopped
    · next low =>
      split at stopped
      · next above =>
        cases stopped
        exact .retainNonexistent above
      · next below =>
        have tracked : p.layout.Tracks f := ⟨Nat.not_lt.mp low, Nat.not_le.mp below⟩
        split at stopped
        · next free =>
          cases stopped
          exact .retainFree tracked free
        · split at stopped
          · next full =>
            cases stopped
            exact .countOverflow tracked (Nat.le_antisymm (limit tracked) full)
          · cases stopped
  · intro breaks
    cases breaks with
    | retainNonexistent above =>
      rw [retain, if_neg (by omega), if_pos above]
    | retainFree tracked free =>
      obtain ⟨low, high⟩ := tracked
      rw [retain, if_neg (by omega), if_neg (by omega)]
      exact if_pos free
    | countOverflow tracked full =>
      obtain ⟨low, high⟩ := tracked
      rw [retain, if_neg (by omega), if_neg (by omega)]
      simp [full]

theorem release_eq_error_iff :
    p.release f = .error cause ↔ (PoolCall.release f).Breaks p.layout p.count cause := by
  have ordered := Nat.le_trans p.valid.low_le p.valid.mainStart_le
  constructor
  · intro stopped
    simp only [release] at stopped
    split at stopped
    · cases stopped
    · next low =>
      split at stopped
      · next above =>
        cases stopped
        exact .freeNonexistent above
      · next below =>
        split at stopped
        · next free =>
          cases stopped
          exact .freeFree ⟨Nat.not_lt.mp low, Nat.not_le.mp below⟩ free
        · cases stopped
  · intro breaks
    cases breaks with
    | freeNonexistent above =>
      rw [release, if_neg (by omega), if_pos above]
    | freeFree tracked free =>
      obtain ⟨low, high⟩ := tracked
      rw [release, if_neg (by omega), if_neg (by omega)]
      exact if_pos free

theorem serve_eq_error_iff (bounded : p.Bounded) :
    p.serve c = .error cause ↔ c.Breaks p.layout p.count cause := by
  cases c with
  | alloc =>
    refine iff_of_false (fun stopped => ?_) nofun
    simp only [serve] at stopped
    split at stopped <;> cases stopped
  | retain f =>
    rw [← retain_eq_error_iff bounded, serve]
    cases p.retain f <;> simp [Except.map]
  | release f =>
    rw [← release_eq_error_iff, serve]
    cases p.release f <;> simp [Except.map]

/-! ## What a run keeps -/

theorem Served.policy (served : p.Served c answer p') : p'.policy = p.policy := by
  cases served <;> rfl

/-- A count that has reached its limit is not raised. -/
theorem Bounded.serve (bounded : p.Bounded) (done : p.serve c = .ok (answer, p')) :
    p'.Bounded := by
  have served := served_of_serve done
  intro f tracked
  rw [served.layout] at tracked
  have limit := bounded f tracked
  have managed := manages_iff_tracks.mpr tracked
  cases served with
  | granted theirs free =>
    rw [count_setCount 1 theirs managed]
    split <;> omega
  | refused => exact limit
  | @retained g theirs held =>
    have room : p.count g ≠ 65535 := fun full => by
      have stopped := (serve_eq_error_iff bounded).mpr
        (.countOverflow (manages_iff_tracks.mp theirs) full)
      cases done.symm.trans stopped
    have limit' := bounded g (manages_iff_tracks.mp theirs)
    rw [count_setCount _ theirs managed]
    split <;> omega
  | @released g theirs held =>
    have limit' := bounded g (manages_iff_tracks.mp theirs)
    rw [count_setCount _ theirs managed]
    split <;> omega
  | ignored => exact limit

theorem policy_serveAll (run : p.serveAll calls = .ok (log, p')) : p'.policy = p.policy := by
  induction calls generalizing p log with
  | nil =>
    cases run
    rfl
  | cons c calls ih =>
    obtain ⟨answer, q, rest, first, more, -⟩ := serveAll_cons run
    exact (ih more).trans (served_of_serve first).policy

theorem Bounded.serveAll (bounded : p.Bounded) (run : p.serveAll calls = .ok (log, p')) :
    p'.Bounded := by
  induction calls generalizing p log with
  | nil =>
    cases run
    exact bounded
  | cons c calls ih =>
    obtain ⟨answer, q, rest, first, more, -⟩ := serveAll_cons run
    exact ih (bounded.serve first) more

/-! ## Where the counts are -/

/-- The boundaries of the layout, the positions of the counts and the indices of the frames are
related by sums and differences that stay in range. -/
structure InRange (p : FramePool) : Prop where
  /-- The table has a count for each tracked frame. -/
  size : p.layout.trackedFrames? = some p.counts.size
  /-- The reserved part lies within the table. -/
  reserved : ∃ d, p.layout.mainStart.offsetFrom? p.layout.low = some d ∧ d / 4096 ≤ p.counts.size
  /-- A tracked frame has a position in the table. -/
  position : ∀ f, p.layout.Tracks f →
    ∃ d, f.base.offsetFrom? p.layout.low = some d ∧ d / 4096 < p.counts.size
  /-- A position in the table has a tracked frame. -/
  frame : ∀ i < p.counts.size, ∃ f,
    Page.ofIndex? (p.layout.low.value / 4096 + i) = some f ∧ p.layout.Tracks f
  /-- A tracked frame lies in the memory that the layout promises. -/
  memory : ∀ f, p.layout.Tracks f → f.index < (Ram.cleared p.layout.high.value).size

theorem inRange (p : FramePool) : p.InRange where
  size := by
    have ordered := Nat.le_trans p.valid.low_le p.valid.mainStart_le
    rw [Layout.trackedFrames?, Address.offsetFrom?, if_pos ordered, p.size_counts]
    rfl
  reserved := by
    refine ⟨_, if_pos p.valid.low_le, ?_⟩
    exact p.reservedFrames_le
  position f tracked := by
    refine ⟨_, if_pos tracked.1, ?_⟩
    have aligned := p.valid.aligned
    simp only [Address.isAligned, PageSize.bytes, beq_iff_eq] at aligned
    obtain ⟨low, high⟩ := tracked
    rw [p.size_counts, Layout.trackedFrames]
    simp only [Page.value_base, PageSize.bytes] at *
    omega
  frame i inside := by
    refine ⟨p.frame ⟨i, inside⟩, ?_, manages_iff_tracks.mp (p.manages_frame _)⟩
    exact dif_pos (p.frame ⟨i, inside⟩).index_lt
  memory f tracked := by
    have aligned := p.valid.aligned.2.2
    simp only [Address.isAligned, PageSize.bytes, beq_iff_eq] at aligned
    have below := tracked.2
    simp only [Ram.cleared, Ram.size, Array.size_replicate]
    simp only [Page.value_base, PageSize.bytes] at below
    omega

/-! ## Runs from the start -/

section Start

variable {layout : Layout} {policy : Policy} {valid : layout.Valid}

theorem bounded_boot : (boot layout policy valid).Bounded := by
  intro f tracked
  rw [count_boot (manages_iff_tracks.mpr tracked), Layout.reserve]
  split
  · exact (by decide : reservedCount ≤ 65535)
  · exact Nat.zero_le _

/-- The count of a tracked frame is its balance. -/
theorem count_of_log (run : (boot layout policy valid).serveAll calls = .ok (log, p))
    (tracked : layout.Tracks f) :
    log.taken f ≤ layout.reserve f + log.made f ∧ p.count f = log.balance layout f := by
  have managed : (boot layout policy valid).manages f = true := manages_iff_tracks.mpr tracked
  have books := count_serveAll run managed
  rw [count_boot managed] at books
  unfold PoolLog.balance
  omega

end Start

end FramePool

open FramePool

/-- Over every run that does not stop, the count of a tracked frame is its balance. The next frame
that is handed out is the first one in the order of the policy with a balance of zero, and none is
handed out exactly if there is none. Calls that name a frame below the tracked ones have no effect,
a call stops the kernel exactly if the balances say so, and the frames in use are listed in
ascending order with their balances. No number leaves its range. -/
theorem pool_follows_its_log {layout : Layout} {policy : Policy} {valid : layout.Valid}
    {calls : List PoolCall} {log : PoolLog} {p : FramePool}
    (run : (boot layout policy valid).serveAll calls = .ok (log, p)) :
    (∀ f, layout.Tracks f → log.taken f ≤ layout.reserve f + log.made f ∧
      p.refCount? f = some (log.balance layout f) ∧ log.balance layout f ≤ 65535) ∧
    (∀ f, (∃ q, p.serve .alloc = .ok (some f, q)) ↔ policy.Chooses (log.Spent layout) f) ∧
    (∀ q, p.serve .alloc = .ok (none, q) ↔ (∀ f, ¬ log.Spent layout f) ∧ q = p) ∧
    (∀ f : FrameId, f.base.value < layout.low.value →
      p.serve (.retain f) = .ok (none, p) ∧ p.serve (.release f) = .ok (none, p)) ∧
    (∀ c cause, p.serve c = .error cause ↔ c.Breaks layout (log.balance layout) cause) ∧
    (∀ f n, (f, n) ∈ p.allocated ↔ layout.Tracks f ∧ layout.mainStart.value ≤ f.base.value ∧
      n = log.balance layout f ∧ n ≠ 0) ∧
    p.allocated.Pairwise (fun x y => x.1.index < y.1.index) ∧ p.layout = layout ∧ p.InRange := by
  have same : p.layout = layout := layout_serveAll run
  have bounded : p.Bounded := bounded_boot.serveAll run
  have counted (f : FrameId) (tracked : layout.Tracks f) := count_of_log run tracked
  have idle : p.Idle = log.Spent layout := by
    funext f
    rw [Idle, PoolLog.Spent, same]
    exact propext (and_congr_right fun tracked => by rw [(counted f tracked).2])
  have policies : p.policy = policy := policy_serveAll run
  refine ⟨fun f tracked => ?_, fun f => ?_, fun q => ?_, fun f below => ?_, fun c cause => ?_,
    fun f n => ?_, ascending_allocated, same, p.inRange⟩
  · obtain ⟨paid, count⟩ := counted f tracked
    have managed : p.manages f = true := manages_iff_tracks.mpr (same ▸ tracked)
    refine ⟨paid, ?_, count ▸ bounded f (same ▸ tracked)⟩
    exact (if_pos managed).trans (congrArg some count)
  · rw [← policies, ← idle, serve_alloc_eq_some_iff]
  · rw [serve_alloc_eq_none_iff, idle]
  · exact serve_of_below (same ▸ below)
  · rw [serve_eq_error_iff bounded, same]
    exact ⟨fun breaks => breaks.congr fun f tracked => (counted f tracked).2.symm,
      fun breaks => breaks.congr fun f tracked => (counted f tracked).2⟩
  · rw [mem_allocated, same]
    have low := valid.low_le
    constructor
    · rintro ⟨above, below, rfl, held⟩
      have tracked : layout.Tracks f := ⟨Nat.le_trans low above, below⟩
      exact ⟨tracked, above, (counted f tracked).2, held⟩
    · rintro ⟨tracked, above, rfl, held⟩
      exact ⟨above, tracked.2, (counted f tracked).2, held⟩

section Tiny

/-- A frame is given back, so that the next call finds it again. -/
def tinyTrading : List PoolCall :=
  [.alloc, .retain (tinyFrame 3), .release (tinyFrame 3), .release (tinyFrame 3)]

/-- The only frame that is not reserved is handed out, shared and given back twice. It can be
handed out again, and to release it once more stops the kernel. -/
theorem pool_follows_its_log_tiny :
    ∃ log p, FramePool.tinyReserved.serveAll tinyTrading = .ok (log, p) ∧
      log.balance .tinyReserved (tinyFrame 2) = 100 ∧
      log.balance .tinyReserved (tinyFrame 3) = 0 ∧
      (∃ q, p.serve .alloc = .ok (some (tinyFrame 3), q)) ∧
      p.serve (.release (tinyFrame 3)) = .error (.freeFree (tinyFrame 3)) ∧
      p.serve (.retain (tinyFrame 4)) = .error (.retainNonexistent (tinyFrame 4)) ∧
      p.serve (.release (tinyFrame 1)) = .ok (none, p) := by
  have logged : (FramePool.tinyReserved.serveAll tinyTrading).map Prod.fst =
      .ok [(.alloc, some (tinyFrame 3)), (.retain (tinyFrame 3), none),
        (.release (tinyFrame 3), none), (.release (tinyFrame 3), none)] := by decide +kernel
  obtain ⟨log, p, run, rfl⟩ := FramePool.exists_run _ logged
  obtain ⟨-, chosen, -, ignored, stops, -⟩ := pool_follows_its_log run
  have spent : PoolLog.Spent [(.alloc, some (tinyFrame 3)), (.retain (tinyFrame 3), none),
      (.release (tinyFrame 3), none), (.release (tinyFrame 3), none)] .tinyReserved
        (tinyFrame 3) := ⟨⟨by decide, by decide⟩, by decide⟩
  refine ⟨_, p, run, by decide, by decide, (chosen _).mpr ⟨spent, fun g other => ?_⟩,
    (stops _ _).mpr (.freeFree spent.1 spent.2), (stops _ _).mpr (.retainNonexistent (by decide)),
    (ignored _ (by decide)).2⟩
  show 3 ≤ g.index
  -- The other tracked frame is reserved, and its count is all there.
  have start : Layout.tinyReserved.low.value = 8192 := by decide
  have low := other.1.1
  rw [start, Page.value_base, PageSize.bytes] at low
  by_contra below
  obtain rfl : g = tinyFrame 2 := Page.ext (by show g.index = 2; omega)
  exact absurd other.2 (by decide)

end Tiny

end PagedMemory
