import PagedMemory.Proofs.Policies

/-!
# What becomes of reserved frames

A reserved frame is kept from being handed out by the count it starts with and by nothing
else. The pool keeps the same books about it as about any other frame: what was retained and
handed out has been added to the count, what was released taken away (`count_serveAll`).
So a reserved frame is handed out exactly when its releases have used up the count that it
started with. The statistics go on counting it as reserved, and do not add up any more once
fewer frames are in use than reserved ones are free.
-/

namespace PagedMemory

/-- A call to the pool. -/
inductive PoolCall
  | alloc
  | retain (f : FrameId)
  | release (f : FrameId)
deriving DecidableEq

/-- Calls that were served, each with the frame that it was answered with, if any. -/
abbrev PoolLog := List (PoolCall × Option FrameId)

namespace PoolLog

variable {log : PoolLog} {f : FrameId}

/-- How many references to a frame the calls have made. -/
def made (log : PoolLog) (f : FrameId) : Nat :=
  log.count (.retain f, none) + log.count (.alloc, some f)

/-- How many references to a frame the calls have taken away. -/
def taken (log : PoolLog) (f : FrameId) : Nat :=
  log.count (.release f, none)

theorem made_cons (entry : PoolCall × Option FrameId) :
    made (entry :: log) f = made [entry] f + made log f := by
  simp only [made, List.count_cons, List.count_nil]
  omega

theorem taken_cons (entry : PoolCall × Option FrameId) :
    taken (entry :: log) f = taken [entry] f + taken log f := by
  simp only [taken, List.count_cons, List.count_nil]
  omega

end PoolLog

namespace FramePool

variable {p p' : FramePool} {f g : FrameId} {c : PoolCall} {answer : Option FrameId}
  {calls : List PoolCall} {log : PoolLog}

/-- Serves one call. -/
def serve (p : FramePool) : PoolCall → Except Halt (Option FrameId × FramePool)
  | .alloc =>
    match p.alloc with
    | some (f, p') => .ok (some f, p')
    | none => .ok (none, p)
  | .retain f => (p.retain f).map fun p' => (none, p')
  | .release f => (p.release f).map fun p' => (none, p')

/-- Serves calls in turn, up to the first one that stops the kernel. -/
def serveAll (p : FramePool) : List PoolCall → Except Halt (PoolLog × FramePool)
  | [] => .ok ([], p)
  | c :: calls =>
    match p.serve c with
    | .error cause => .error cause
    | .ok (answer, p') => (p'.serveAll calls).map fun rest => ((c, answer) :: rest.1, rest.2)

/-- The frame is tracked and lies below those that are meant to be handed out. -/
def Reserves (p : FramePool) (f : FrameId) : Prop :=
  p.manages f = true ∧ f.base.value < p.layout.mainStart.value

/-- The reserved frames that nobody holds any more. -/
def lapsed (p : FramePool) : List FrameId :=
  (((List.finRange p.counts.size).take p.layout.reservedFrames).map p.frame).filter
    fun f => p.count f == 0

/-! ## What a call does -/

/-- A call, its answer and the pool after it. -/
inductive Served (p : FramePool) : PoolCall → Option FrameId → FramePool → Prop
  | granted {f : FrameId} (managed : p.manages f = true) (free : p.count f = 0) :
      Served p .alloc (some f) (p.setCount f 1)
  | refused (full : ∀ f, p.manages f = true → p.count f ≠ 0) : Served p .alloc none p
  | retained {f : FrameId} (managed : p.manages f = true) (held : p.count f ≠ 0) :
      Served p (.retain f) none (p.setCount f (p.count f + 1))
  | released {f : FrameId} (managed : p.manages f = true) (held : p.count f ≠ 0) :
      Served p (.release f) none (p.setCount f (p.count f - 1))
  | ignored {f : FrameId} {c : PoolCall} (named : c = .retain f ∨ c = .release f)
      (foreign : ¬ p.manages f = true) : Served p c none p

theorem served_of_serve (done : p.serve c = .ok (answer, p')) : p.Served c answer p' := by
  cases c with
  | alloc =>
    simp only [serve] at done
    split at done
    · next f q given =>
      cases done
      obtain ⟨managed, free, rfl⟩ := alloc_eq_some given
      exact .granted managed free
    · next full =>
      cases done
      exact .refused (alloc_eq_none_iff.mp full)
  | retain f =>
    simp only [serve] at done
    cases run : p.retain f with
    | error cause =>
      rw [run] at done
      cases done
    | ok q =>
      rw [run] at done
      cases done
      obtain ⟨foreign, rfl⟩ | ⟨managed, held, rfl⟩ := retain_cases run
      · exact .ignored (.inl rfl) foreign
      · exact .retained managed held
  | release f =>
    simp only [serve] at done
    cases run : p.release f with
    | error cause =>
      rw [run] at done
      cases done
    | ok q =>
      rw [run] at done
      cases done
      obtain ⟨foreign, rfl⟩ | ⟨managed, held, rfl⟩ := release_cases run
      · exact .ignored (.inr rfl) foreign
      · exact .released managed held

theorem Served.layout (served : p.Served c answer p') : p'.layout = p.layout := by
  cases served <;> rfl

/-- A change of the count of one frame is no change for any other. -/
theorem count_setCount {p : FramePool} {f g : FrameId} (n : Nat) (theirs : p.manages g = true)
    (managed : p.manages f = true) :
    (p.setCount g n).count f = if f = g then n else p.count f := by
  split
  · next same => rw [same, count_setCount_self n theirs]
  · next other => exact count_setCount_of_ne n theirs managed other

/-- The count of one frame changes, by as much as the call says. -/
theorem Served.count (served : p.Served c answer p') (managed : p.manages f = true) :
    p'.count f + PoolLog.taken [(c, answer)] f = p.count f + PoolLog.made [(c, answer)] f := by
  cases served with
  | @granted g theirs free =>
    rw [count_setCount 1 theirs managed]
    by_cases same : f = g
    · subst same
      simp [PoolLog.taken, PoolLog.made, free]
    · simp [PoolLog.taken, PoolLog.made, same, Ne.symm same]
  | refused => simp [PoolLog.taken, PoolLog.made]
  | @retained g theirs held =>
    rw [count_setCount _ theirs managed]
    by_cases same : f = g
    · subst same
      simp [PoolLog.taken, PoolLog.made]
    · simp [PoolLog.taken, PoolLog.made, same, Ne.symm same]
  | @released g theirs held =>
    rw [count_setCount _ theirs managed]
    by_cases same : f = g
    · subst same
      simp [PoolLog.taken, PoolLog.made]
      omega
    · simp [PoolLog.taken, PoolLog.made, same, Ne.symm same]
  | @ignored g c named foreign =>
    have other : g ≠ f := by
      rintro rfl
      exact foreign managed
    rcases named with rfl | rfl <;> simp [PoolLog.taken, PoolLog.made, other]

/-! ## What a run does -/

/-- A run of several calls goes through the pool after the first one. -/
theorem serveAll_cons (run : p.serveAll (c :: calls) = .ok (log, p')) :
    ∃ answer q rest, p.serve c = .ok (answer, q) ∧ q.serveAll calls = .ok (rest, p') ∧
      log = (c, answer) :: rest := by
  simp only [serveAll] at run
  split at run
  · cases run
  · next answer q first =>
    cases more : q.serveAll calls with
    | error cause =>
      rw [more] at run
      cases run
    | ok result =>
      rw [more] at run
      cases run
      exact ⟨answer, q, result.1, first, more, rfl⟩

theorem layout_serveAll (run : p.serveAll calls = .ok (log, p')) : p'.layout = p.layout := by
  induction calls generalizing p log with
  | nil =>
    cases run
    rfl
  | cons c calls ih =>
    obtain ⟨answer, q, rest, first, more, -⟩ := serveAll_cons run
    exact (ih more).trans (served_of_serve first).layout

/-- The books of a frame balance over every run. -/
theorem count_serveAll (run : p.serveAll calls = .ok (log, p')) (managed : p.manages f = true) :
    p'.count f + log.taken f = p.count f + log.made f := by
  induction calls generalizing p log with
  | nil =>
    cases run
    rfl
  | cons c calls ih =>
    obtain ⟨answer, q, rest, first, more, rfl⟩ := serveAll_cons run
    have served := served_of_serve first
    have step := served.count managed
    have steps := ih more ((manages_congr served.layout f).trans managed)
    rw [PoolLog.taken_cons, PoolLog.made_cons]
    omega

/-! ## Statistics -/

theorem reservedFrames_le (p : FramePool) : p.layout.reservedFrames ≤ p.counts.size := by
  have low := p.valid.low_le
  have high := p.valid.mainStart_le
  rw [p.size_counts, Layout.reservedFrames, Layout.trackedFrames]
  omega

private theorem count_counts_eq_countP (p : FramePool) :
    p.counts.count 0 = (List.finRange p.counts.size).countP fun i => p.count (p.frame i) == 0 := by
  simp only [count_frame]
  have listed : p.counts.toList = (List.finRange p.counts.size).map fun i => p.counts[i] :=
    (List.map_getElem_finRange p.counts.toList).symm
  rw [← Array.count_toList, listed, List.count_eq_countP, List.countP_map]
  rfl

/-- The frames that are not reserved are free or in use, and some of the free ones are
reserved. -/
theorem free_add_allocated (p : FramePool) :
    p.counts.count 0 + p.allocated.length + p.layout.reservedFrames =
      p.counts.size + p.lapsed.length := by
  let reserved := (List.finRange p.counts.size).take p.layout.reservedFrames
  let others := (List.finRange p.counts.size).drop p.layout.reservedFrames
  let free (i : Fin p.counts.size) : Bool := p.count (p.frame i) == 0
  have split : p.counts.count 0 = reserved.countP free + others.countP free := by
    rw [count_counts_eq_countP, ← List.countP_append, List.take_append_drop]
  have lapsed : p.lapsed.length = reserved.countP free := by
    rw [FramePool.lapsed, ← List.countP_eq_length_filter, List.countP_map]
    exact List.countP_congr fun i _ => by simp only [Function.comp, count_frame, free]
  have used : p.allocated.length = others.countP fun i => !free i := by
    rw [allocated, ← List.countP_eq_length_filter, List.countP_map]
    exact List.countP_congr fun i _ => by simp only [Function.comp, count_frame, free, bne]
  have whole : others.length = others.countP free + others.countP fun i => !free i := by
    rw [List.length_eq_countP_add_countP free]
    simp only [Bool.not_eq_true, Bool.decide_eq_false]
  have size : others.length = p.counts.size - p.layout.reservedFrames := by
    rw [List.length_drop, List.length_finRange]
  have := p.reservedFrames_le
  omega

/-- The statistics underflow when more reserved frames are free than others are in use. -/
theorem stats_eq_error_iff :
    p.stats = .error .overflow ↔ p.allocated.length < p.lapsed.length := by
  have books := p.free_add_allocated
  simp only [stats]
  split
  · next fits =>
    simp only [reduceCtorEq, false_iff]
    omega
  · next overflows =>
    simp only [true_iff]
    omega

theorem stats_cases (p : FramePool) :
    p.stats = .error .overflow ∨
      ∃ s, p.stats = .ok s ∧ s.total = p.counts.size ∧ s.reserved = p.layout.reservedFrames ∧
        s.free + s.used + s.reserved = s.total := by
  simp only [stats]
  split
  · next fits =>
    refine .inr ⟨_, rfl, rfl, rfl, ?_⟩
    show p.counts.count 0 + (p.counts.size - p.counts.count 0 - p.layout.reservedFrames) +
      p.layout.reservedFrames = p.counts.size
    omega
  · exact .inl rfl

/-- The frames listed as lapsed are reserved and free. -/
theorem of_mem_lapsed (listed : f ∈ p.lapsed) : p.Reserves f ∧ p.count f = 0 := by
  simp only [lapsed, List.mem_filter, List.mem_map, beq_iff_eq] at listed
  obtain ⟨⟨i, reserved, rfl⟩, free⟩ := listed
  refine ⟨⟨p.manages_frame i, ?_⟩, free⟩
  obtain ⟨j, below, rfl⟩ := List.mem_take_iff_getElem.mp reserved
  have aligned := p.valid.aligned
  simp only [Address.isAligned, PageSize.bytes, beq_iff_eq] at aligned
  simp only [Layout.reservedFrames, List.length_finRange] at below
  simp only [Page.value_base, PageSize.bytes, index_frame, List.getElem_finRange, Fin.val_cast,
    first]
  omega

/-! ## Runs from the start -/

theorem manages_boot {layout : Layout} {policy : Policy} {valid : layout.Valid}
    (run : (boot layout policy valid).serveAll calls = .ok (log, p)) (f : FrameId) :
    (boot layout policy valid).manages f = p.manages f :=
  (manages_congr (layout_serveAll run) f).symm

end FramePool

open FramePool

/-- A reserved frame starts with a count that nothing but its own releases takes away. As long
as it has some of it left, or references made since, it is not handed out, and while this
holds of all reserved frames, the statistics add up. They underflow when more reserved frames
have been given away than other frames are in use. -/
theorem reservation_lasts {layout : Layout} {policy : Policy} {valid : layout.Valid}
    {calls : List PoolCall} {log : PoolLog} {p : FramePool}
    (run : (boot layout policy valid).serveAll calls = .ok (log, p)) :
    (∀ f, p.Reserves f → p.count f + log.taken f = reservedCount + log.made f) ∧
    (∀ f p', p.alloc = some (f, p') → f.base.value < layout.mainStart.value →
      log.taken f = reservedCount + log.made f) ∧
    (p.stats = .error .overflow ↔ p.allocated.length < p.lapsed.length) ∧
    (∀ s, p.stats = .ok s → s.free + s.used + s.reserved = s.total) ∧
    ((∀ f, p.Reserves f → log.taken f < reservedCount + log.made f) →
      (∀ f p', p.alloc = some (f, p') → layout.mainStart.value ≤ f.base.value) ∧
      ∃ s, p.stats = .ok s ∧ s.free + s.used + s.reserved = s.total) := by
  have same : p.layout = layout := layout_serveAll run
  have books (f : FrameId) (reserved : p.Reserves f) :
      p.count f + log.taken f = reservedCount + log.made f := by
    obtain ⟨managed, below⟩ := reserved
    rw [same] at below
    rw [← manages_boot run] at managed
    have balance := count_serveAll run managed
    have tracked := managed
    rw [FramePool.manages, Bool.and_eq_true, decide_eq_true_eq, decide_eq_true_eq] at tracked
    rw [count_boot managed, Layout.reserve, if_pos ⟨tracked.1, below⟩] at balance
    exact balance
  have handed (f : FrameId) (p' : FramePool) (given : p.alloc = some (f, p'))
      (below : f.base.value < layout.mainStart.value) :
      log.taken f = reservedCount + log.made f := by
    obtain ⟨managed, free, -⟩ := alloc_eq_some given
    have balance := books f ⟨managed, same ▸ below⟩
    omega
  have sums (s : FrameStats) (found : p.stats = .ok s) : s.free + s.used + s.reserved = s.total := by
    obtain overflows | ⟨s', found', -, -, sum⟩ := p.stats_cases
    · rw [found] at overflows
      cases overflows
    · rw [found] at found'
      cases found'
      exact sum
  refine ⟨books, handed, stats_eq_error_iff, sums, fun kept => ⟨fun f p' given => ?_, ?_⟩⟩
  · by_contra below
    have reserved : p.Reserves f := ⟨(alloc_eq_some given).1, by rw [same]; omega⟩
    have := handed f p' given (by omega)
    have := kept f reserved
    omega
  · have none : p.lapsed = [] := by
      rw [List.eq_nil_iff_forall_not_mem]
      intro f listed
      obtain ⟨reserved, free⟩ := of_mem_lapsed listed
      have := books f reserved
      have := kept f reserved
      omega
    obtain overflows | ⟨s, found, -, -, sum⟩ := p.stats_cases
    · rw [stats_eq_error_iff, none] at overflows
      cases overflows
    · exact ⟨s, found, sum⟩

section Tiny

/-- A layout with one reserved frame and one that can be handed out. -/
def Layout.tinyReserved : Layout :=
  ⟨(tinyFrame 2).base, (tinyFrame 3).base, (tinyFrame 4).base⟩

theorem Layout.valid_tinyReserved : Layout.tinyReserved.Valid :=
  ⟨by decide, by decide, by decide, by decide⟩

def FramePool.tinyReserved : FramePool :=
  .boot .tinyReserved .lowest Layout.valid_tinyReserved

/-- The reserved frame is shared and given back once, the other one is handed out. -/
def tinyKeeping : List PoolCall :=
  [.retain (tinyFrame 2), .alloc, .release (tinyFrame 2), .alloc]

/-- The reserved frame is released as often as its count allows. -/
def tinySpending : List PoolCall :=
  List.replicate 100 (.release (tinyFrame 2))

theorem FramePool.exists_run {α : Type} {q : FramePool} {calls : List PoolCall}
    (look : PoolLog × FramePool → α) {a : α} (seen : (q.serveAll calls).map look = .ok a) :
    ∃ log p, q.serveAll calls = .ok (log, p) ∧ look (log, p) = a := by
  cases run : q.serveAll calls with
  | error cause =>
    rw [run] at seen
    cases seen
  | ok result =>
    rw [run] at seen
    cases seen
    exact ⟨result.1, result.2, rfl, rfl⟩

theorem reservation_lasts_tiny :
    ∃ log p, FramePool.tinyReserved.serveAll tinyKeeping = .ok (log, p) ∧
      (∀ f, p.Reserves f → p.count f + log.taken f = reservedCount + log.made f) ∧
      (∀ f p', p.alloc = some (f, p') → 12288 ≤ f.base.value) ∧
      ∃ s, p.stats = .ok s ∧ s.free + s.used + s.reserved = s.total := by
  have four : (FramePool.tinyReserved.serveAll tinyKeeping).map (fun result => result.1.length) =
      .ok 4 := by decide +kernel
  obtain ⟨log, p, run, logged⟩ := FramePool.exists_run _ four
  obtain ⟨books, -, -, -, kept⟩ := reservation_lasts run
  refine ⟨log, p, run, books, kept fun f _ => ?_⟩
  have few : log.taken f ≤ log.length := List.count_le_length
  rw [logged] at few
  have marker : reservedCount = 100 := rfl
  omega

/-- A reserved frame is handed out after as many releases as its count allows, and before that
the statistics have underflowed. -/
theorem reserved_frames_given_away :
    ∃ log p f p', FramePool.tinyReserved.serveAll tinySpending = .ok (log, p) ∧
      p.stats = .error .overflow ∧ p.alloc = some (f, p') ∧
      f.base.value < Layout.tinyReserved.mainStart.value := by
  have spent : (FramePool.tinyReserved.serveAll tinySpending).map
      (fun result => (result.2.stats, result.2.alloc.map Prod.fst)) =
        .ok (.error .overflow, some (tinyFrame 2)) := by decide +kernel
  obtain ⟨log, p, run, seen⟩ := FramePool.exists_run _ spent
  obtain ⟨overflows, given⟩ := Prod.ext_iff.mp seen
  obtain ⟨⟨f, p'⟩, given, rfl⟩ := Option.map_eq_some_iff.mp given
  exact ⟨log, p, _, p', run, overflows, given, by decide⟩

end Tiny

end PagedMemory
