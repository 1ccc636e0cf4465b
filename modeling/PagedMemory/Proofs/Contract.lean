import Mathlib.Data.List.Forall2
import PagedMemory.Machine

/-!
# Contracts of kernel operations

`Ends op m stops post` says what comes of running an operation on a machine: either
the kernel stops, for a reason that `stops` admits, or the operation ends with a result
and a machine that satisfy `post`. `Tries` is the same for an attempt, with one
postcondition for success and one for failure.

The rules follow the structure of the operation, so that a contract of a composite
operation is put together from those of its parts without running any of them again.
Only the primitive operations are ever opened.
-/

namespace PagedMemory

variable {α β : Type}

/-- Run from `m`, the operation stops for an admitted reason or ends as `post` says. -/
def Ends (op : Kernel α) (m : Machine) (stops : Halt → Prop) (post : α → Machine → Prop) :
    Prop :=
  match op m with
  | .ok (a, m') => post a m'
  | .error cause => stops cause

/-- Run from `m`, the attempt stops for an admitted reason, or succeeds as `done` says, or
fails as `failed` says. -/
def Tries (op : Attempt α) (m : Machine) (stops : Halt → Prop) (done : α → Machine → Prop)
    (failed : MemoryError → Machine → Prop) : Prop :=
  Ends (outcome op) m stops fun result m' =>
    match result with
    | .ok a => done a m'
    | .error cause => failed cause m'

/-- To discard a result is to go on without it. -/
theorem discard_eq_bind {F : Type → Type} [Monad F] [LawfulMonad F] (op : F α) :
    discard op = (op >>= fun _ => pure ()) := by
  simp only [discard, map_const, Function.comp, bind_pure_comp]

theorem discard_run {op : Kernel α} {m m' : Machine} {a : α} (run : op m = .ok (a, m')) :
    discard op m = .ok ((), m') := by
  rw [discard_eq_bind, bind_eq_ok_iff]
  exact ⟨a, m', run, rfl⟩

namespace Ends

variable {op : Kernel α} {m : Machine} {stops : Halt → Prop} {post post' : α → Machine → Prop}

theorem of_run {a : α} {m' : Machine} (h : Ends op m stops post) (run : op m = .ok (a, m')) :
    post a m' := by
  simpa only [Ends, run] using h

theorem of_error {cause : Halt} (h : Ends op m stops post) (run : op m = .error cause) :
    stops cause := by
  simpa only [Ends, run] using h

theorem intro {a : α} {m' : Machine} (run : op m = .ok (a, m')) (h : post a m') :
    Ends op m stops post := by
  simpa only [Ends, run] using h

theorem of_stop {cause : Halt} (run : op m = .error cause) (h : stops cause) :
    Ends op m stops post := by
  simpa only [Ends, run] using h

theorem mono (h : Ends op m stops post) (imp : ∀ a m', post a m' → post' a m') :
    Ends op m stops post' := by
  unfold Ends at *
  split at h
  · exact imp _ _ h
  · exact h

theorem mono_stops {stops' : Halt → Prop} (h : Ends op m stops post)
    (imp : ∀ cause, stops cause → stops' cause) : Ends op m stops' post := by
  unfold Ends at *
  split at h
  · exact h
  · exact imp _ h

/-- Two contracts of one operation hold together. -/
theorem and {stops' : Halt → Prop} (h : Ends op m stops post) (h' : Ends op m stops' post') :
    Ends op m (fun cause => stops cause ∧ stops' cause) fun a m' => post a m' ∧ post' a m' := by
  unfold Ends at *
  split
  · next run =>
    rw [run] at h h'
    exact ⟨h, h'⟩
  · next run =>
    rw [run] at h h'
    exact ⟨h, h'⟩

/-- An operation that has no reason to stop comes to an end. -/
theorem exists_run (h : Ends op m stops post) (never : ∀ cause, ¬ stops cause) :
    ∃ a m', op m = .ok (a, m') ∧ post a m' := by
  cases run : op m with
  | ok result => exact ⟨result.1, result.2, rfl, h.of_run run⟩
  | error cause => exact absurd (h.of_error run) (never cause)

/-- The run that a postcondition speaks of is known. -/
theorem with_run (h : Ends op m stops post) :
    Ends op m stops fun a m' => op m = .ok (a, m') ∧ post a m' := by
  unfold Ends at *
  split at h
  · next a m' run => exact ⟨run, h⟩
  · exact h

theorem bind {next : α → Kernel β} {P : α → Machine → Prop} {post : β → Machine → Prop}
    (first : Ends op m stops P) (rest : ∀ a m', P a m' → Ends (next a) m' stops post) :
    Ends (op >>= next) m stops post := by
  cases run : op m with
  | error cause =>
    refine of_stop ?_ (by simpa only [Ends, run] using first)
    simp only [Bind.bind, StateT.bind, Except.bind, run]
  | ok result =>
    have continued := rest _ _ (first.of_run run)
    have : (op >>= next) m = next result.1 result.2 := by
      simp only [Bind.bind, StateT.bind, Except.bind, run]
    simpa only [Ends, this] using continued

theorem pure {a : α} (h : post a m) : Ends (Pure.pure a) m stops post :=
  intro rfl h

theorem halt {cause : Halt} (h : stops cause) : Ends (PagedMemory.halt cause) m stops post :=
  of_stop rfl h

theorem inspect {look : Machine → Except Halt α} {a : α} (seen : look m = .ok a)
    (h : post a m) : Ends (PagedMemory.inspect look) m stops post :=
  intro (inspect_eq_ok_iff.mpr ⟨seen, rfl⟩) h

/-- Whatever is seen or not. -/
theorem look {look : Machine → Except Halt α} (seen : ∀ a, look m = .ok a → post a m)
    (unseen : ∀ cause, look m = .error cause → stops cause) :
    Ends (PagedMemory.inspect look) m stops post := by
  cases result : look m with
  | ok a => exact inspect result (seen a result)
  | error cause =>
    have stop : PagedMemory.inspect look m = .error cause := by
      simp only [PagedMemory.inspect, result]
    exact of_stop stop (unseen cause result)

/-- Nothing is claimed of a run. -/
theorem any (op : Kernel α) (m : Machine) : Ends op m (fun _ => True) fun _ _ => True := by
  cases run : op m with
  | ok result => exact intro run trivial
  | error cause => exact of_stop run trivial

/-- Looking at the machine leaves it as it is. -/
theorem seen (look : Machine → Except Halt α) (m : Machine) :
    Ends (PagedMemory.inspect look) m (fun _ => True) fun _ m' => m' = m :=
  Ends.look (fun _ _ => rfl) fun _ _ => trivial

/-- The cache is emptied as long as that can be counted. -/
theorem flush {post : Unit → Machine → Prop}
    (counted : m.flushes + 1 < flushLimit → post () { m with flushes := m.flushes + 1 })
    (overrun : flushLimit ≤ m.flushes + 1 → stops .overflow) :
    Ends PagedMemory.flush m stops post := by
  by_cases room : m.flushes + 1 < flushLimit
  · exact intro (flush_eq_ok_iff.mpr ⟨room, rfl⟩) (counted room)
  · have stop : PagedMemory.flush m = .error .overflow := by
      simp only [PagedMemory.flush, if_neg room]
    exact of_stop stop (overrun (Nat.not_lt.mp room))

/-- A value that is known to be right is taken as it is. -/
theorem demand {value : Except Halt α} {a : α} (known : value = .ok a) (h : post a m) :
    Ends (PagedMemory.demand value) m stops post :=
  inspect known h

theorem discard {post : Unit → Machine → Prop} (h : Ends op m stops fun _ m' => post () m') :
    Ends (Functor.discard op) m stops post := by
  rw [discard_eq_bind]
  exact h.bind fun _ _ p => pure p

/-- A loop over a list, with an assertion about what remains to be done. -/
theorem forM {f : β → Kernel Unit} (assertion : List β → Machine → Prop)
    (body : ∀ x xs m, assertion (x :: xs) m →
      Ends (f x) m stops fun _ m' => assertion xs m') :
    ∀ xs m, assertion xs m → Ends (xs.forM f) m stops fun _ m' => assertion [] m' := by
  intro xs
  induction xs with
  | nil =>
    intro m h
    exact pure h
  | cons x xs ih =>
    intro m h
    exact (body x xs m h).bind fun _ m' h' => ih m' h'

/-- A loop that stops does so at one of the elements, with those before it done. -/
theorem forM_stops {f : β → Kernel Unit} {stops : Machine → Halt → Prop}
    (body : ∀ x m, Ends (f x) m (stops m) fun _ _ => True) :
    ∀ xs m, Ends (xs.forM f) m (fun cause => ∃ before x after m', xs = before ++ x :: after ∧
      before.forM f m = .ok ((), m') ∧ stops m' cause) fun _ _ => True := by
  intro xs
  induction xs with
  | nil =>
    intro m
    exact pure trivial
  | cons x xs ih =>
    intro m
    refine bind (((body x m).with_run).mono_stops fun cause stop => ?_) ?_
    · exact ⟨[], x, xs, m, rfl, rfl, stop⟩
    · rintro _ m₁ ⟨run, -⟩
      refine (ih m₁).mono_stops ?_
      rintro cause ⟨before, y, after, m', rfl, runs, stop⟩
      exact ⟨x :: before, y, after, m', rfl, bind_eq_ok_iff.mpr ⟨(), m₁, run, runs⟩, stop⟩

end Ends

namespace Tries

variable {op : Attempt α} {m : Machine} {stops : Halt → Prop} {done done' : α → Machine → Prop}
  {failed failed' : MemoryError → Machine → Prop}

theorem done_of_run {a : α} {m' : Machine} (h : Tries op m stops done failed)
    (run : outcome op m = .ok (.ok a, m')) : done a m' := by
  unfold Tries at h
  exact h.of_run run

theorem failed_of_run {cause : MemoryError} {m' : Machine} (h : Tries op m stops done failed)
    (run : outcome op m = .ok (.error cause, m')) : failed cause m' := by
  unfold Tries at h
  exact h.of_run run

theorem mono (h : Tries op m stops done failed) (success : ∀ a m', done a m' → done' a m')
    (failure : ∀ cause m', failed cause m' → failed' cause m') :
    Tries op m stops done' failed' := by
  refine Ends.mono h ?_
  rintro (cause | a) m' p
  · exact failure cause m' p
  · exact success a m' p

theorem mono_done (h : Tries op m stops done failed)
    (success : ∀ a m', done a m' → done' a m') : Tries op m stops done' failed :=
  h.mono success fun _ _ p => p

theorem mono_failed (h : Tries op m stops done failed)
    (failure : ∀ cause m', failed cause m' → failed' cause m') : Tries op m stops done failed' :=
  h.mono (fun _ _ p => p) failure

theorem mono_stops {stops' : Halt → Prop} (h : Tries op m stops done failed)
    (imp : ∀ cause, stops cause → stops' cause) : Tries op m stops' done failed :=
  Ends.mono_stops h imp

/-- Two contracts of one attempt hold together. -/
theorem and {stops' : Halt → Prop} (h : Tries op m stops done failed)
    (h' : Tries op m stops' done' failed') :
    Tries op m (fun cause => stops cause ∧ stops' cause) (fun a m' => done a m' ∧ done' a m')
      (fun cause m' => failed cause m' ∧ failed' cause m') := by
  refine Ends.mono (Ends.and h h') ?_
  rintro (cause | a) m' p
  · exact p
  · exact p

/-- The run of an attempt that succeeds is known. -/
theorem with_run (h : Tries op m stops done failed) :
    Tries op m stops (fun a m' => outcome op m = .ok (.ok a, m') ∧ done a m') failed := by
  refine Ends.mono (Ends.with_run h) ?_
  rintro (cause | a) m' ⟨run, p⟩
  · exact p
  · exact ⟨run, p⟩

/-- An attempt is done with the first part that fails. -/
theorem bind {next : α → Attempt β} {P : α → Machine → Prop} {done : β → Machine → Prop}
    (first : Tries op m stops P failed)
    (rest : ∀ a m', P a m' → Tries (next a) m' stops done failed) :
    Tries (op >>= next) m stops done failed := by
  refine Ends.bind first ?_
  rintro (cause | a) m' p
  · exact Ends.pure p
  · exact rest a m' p

theorem pure {a : α} (h : done a m) : Tries (Pure.pure a) m stops done failed :=
  Ends.pure h

theorem fail {cause : MemoryError} (h : failed cause m) :
    Tries (PagedMemory.fail cause) m stops done failed :=
  Ends.pure h

theorem halt {cause : Halt} (h : stops cause) :
    Tries (PagedMemory.halt cause : Attempt α) m stops done failed :=
  Ends.halt h

/-- What the kernel does in an attempt does not fail. -/
theorem lift {op : Kernel α} (h : Ends op m stops done) : Tries (liftM op) m stops done failed := by
  show Ends (op >>= fun a => Pure.pure (Except.ok a)) m stops _
  exact h.bind fun _ _ p => Ends.pure p

/-- An attempt goes on after what the kernel does in it. -/
theorem lift_bind {op : Kernel α} {next : α → Attempt β} {P : α → Machine → Prop}
    {done : β → Machine → Prop} (first : Ends op m stops P)
    (rest : ∀ a m', P a m' → Tries (next a) m' stops done failed) :
    Tries (liftM op >>= next) m stops done failed :=
  (lift first).bind rest

/-- What the kernel may do before an attempt goes on. -/
theorem optional {c : Prop} [Decidable c] {first : Kernel Unit} {next : Unit → Attempt α}
    {P : Machine → Prop} (yes : c → Ends first m stops fun _ m' => P m') (no : ¬ c → P m)
    (rest : ∀ m', P m' → Tries (next ()) m' stops done failed) :
    Tries (if c then liftM first >>= next else next ()) m stops done failed := by
  split
  · next h => exact lift_bind (yes h) fun _ m' p => rest m' p
  · next h => exact rest m (no h)

theorem discard {P : Machine → Prop} (h : Tries op m stops (fun _ m' => P m') failed) :
    Tries (Functor.discard op) m stops (fun _ m' => P m') failed := by
  rw [discard_eq_bind]
  exact h.bind fun _ _ p => pure p

/-- What the kernel does in an attempt only for its effect. -/
theorem discard_bind {op : Kernel α} {next : Unit → Attempt β} {P : Machine → Prop}
    {done : β → Machine → Prop} (first : Ends op m stops fun _ m' => P m')
    (rest : ∀ m', P m' → Tries (next ()) m' stops done failed) :
    Tries (Functor.discard (liftM op : Attempt α) >>= next) m stops done failed :=
  (discard (lift first)).bind fun _ m' p => rest m' p

theorem undoing {undo : Kernel Unit} (h : Tries op m stops done fun cause m' =>
      Ends undo m' stops fun _ m'' => failed cause m'') :
    Tries (PagedMemory.undoing undo op) m stops done failed := by
  refine Ends.bind h ?_
  rintro (cause | a) m' p
  · exact Ends.bind p fun _ _ q => Ends.pure q
  · exact Ends.pure p

/-- A loop over a list, with an assertion about what remains to be done. -/
theorem forM {f : β → Attempt Unit} (assertion : List β → Machine → Prop)
    (body : ∀ x xs m, assertion (x :: xs) m →
      Tries (f x) m stops (fun _ m' => assertion xs m') failed) :
    ∀ xs m, assertion xs m → Tries (xs.forM f) m stops (fun _ m' => assertion [] m') failed := by
  intro xs
  induction xs with
  | nil =>
    intro m h
    exact pure h
  | cons x xs ih =>
    intro m h
    exact (body x xs m h).bind fun _ m' h' => ih m' h'

/-- A loop over a list, with an assertion about what has been done. If it fails, then at one of the
elements, with those before it done. -/
theorem forM_done {f : β → Attempt Unit} {P : List β → Machine → Prop}
    {Q : List β → β → Machine → Prop} {xs : List β}
    (body : ∀ before x after m₁, xs = before ++ x :: after → P before m₁ →
      Tries (f x) m₁ stops (fun _ m₂ => P (before ++ [x]) m₂) fun _ m₂ => Q before x m₂)
    (start : P [] m) : Tries (xs.forM f) m stops (fun _ m' => P xs m') fun cause m' =>
      ∃ before x after m₁, xs = before ++ x :: after ∧
        outcome (before.forM f) m = .ok (.ok (), m₁) ∧
        outcome (f x) m₁ = .ok (.error cause, m') ∧ Q before x m' := by
  refine (forM (fun rest m₁ => ∃ before, xs = before ++ rest ∧
    outcome (before.forM f) m = .ok (.ok (), m₁) ∧ P before m₁) ?_ _ m
    ⟨[], rfl, rfl, start⟩).mono_done ?_
  · rintro x rest m₁ ⟨before, cut, run, h⟩
    refine Ends.mono (Ends.with_run (body before x rest m₁ cut h)) ?_
    rintro (cause | _) m₂ ⟨here, h'⟩
    · exact ⟨before, x, rest, m₁, cut, run, here, h'⟩
    · refine ⟨before ++ [x], ?_, ?_, h'⟩
      · rw [cut, List.append_assoc, List.singleton_append]
      · have parts : (before ++ [x]).forM f = (before.forM f >>= fun _ => [x].forM f) :=
          List.forM_append
        rw [parts]
        exact (outcome_bind_of_run run).trans (outcome_bind_of_run here)
  · rintro _ m₁ ⟨before, cut, -, h⟩
    rw [List.append_nil] at cut
    exact cut ▸ h

/-- A loop that collects what is produced for each element of a list. -/
theorem mapM {γ : Type} {f : β → Attempt γ} {Q : β → γ → Prop}
    (assertion : List β → Machine → Prop)
    (body : ∀ x xs m, assertion (x :: xs) m →
      Tries (f x) m stops (fun y m' => Q x y ∧ assertion xs m') failed) :
    ∀ xs m, assertion xs m → Tries (xs.mapM f) m stops
      (fun ys m' => List.Forall₂ Q xs ys ∧ assertion [] m') failed := by
  intro xs
  induction xs with
  | nil =>
    intro m h
    exact pure ⟨.nil, h⟩
  | cons x xs ih =>
    intro m h
    rw [List.mapM_cons]
    refine (body x xs m h).bind fun y m' first => ?_
    refine (ih m' first.2).bind fun ys m'' rest => ?_
    exact pure ⟨.cons first.1 rest.1, rest.2⟩

/-- A loop that stops does so at one of the elements, with those before it done. -/
theorem forM_stops {f : β → Attempt Unit} {stops : Machine → Halt → Prop} (I : Machine → Prop)
    (body : ∀ x m, I m → Tries (f x) m (stops m) (fun _ m' => I m') fun _ _ => True) :
    ∀ xs m, I m → Tries (xs.forM f) m
      (fun cause => ∃ before x after m', xs = before ++ x :: after ∧
        outcome (before.forM f) m = .ok (.ok (), m') ∧ stops m' cause)
      (fun _ _ => True) fun _ _ => True := by
  intro xs
  induction xs with
  | nil =>
    intro m h
    exact pure trivial
  | cons x xs ih =>
    intro m h
    refine bind (((body x m h).with_run).mono_stops fun cause stop => ?_) ?_
    · exact ⟨[], x, xs, m, rfl, rfl, stop⟩
    · rintro _ m₁ ⟨run, h₁⟩
      refine (ih m₁ h₁).mono_stops ?_
      rintro cause ⟨before, y, after, m', rfl, runs, stop⟩
      exact ⟨x :: before, y, after, m', rfl,
        outcome_bind_eq_ok_iff.mpr (.inl ⟨(), m₁, run, runs⟩), stop⟩

theorem mapM_stops {γ : Type} {f : β → Attempt γ} {stops : Machine → Halt → Prop}
    (I : Machine → Prop)
    (body : ∀ x m, I m → Tries (f x) m (stops m) (fun _ m' => I m') fun _ _ => True) :
    ∀ xs m, I m → Tries (xs.mapM f) m
      (fun cause => ∃ before x after ys m', xs = before ++ x :: after ∧
        outcome (before.mapM f) m = .ok (.ok ys, m') ∧ stops m' cause)
      (fun _ _ => True) fun _ _ => True := by
  intro xs
  induction xs with
  | nil =>
    intro m h
    exact pure trivial
  | cons x xs ih =>
    intro m h
    rw [List.mapM_cons]
    refine bind (((body x m h).with_run).mono_stops fun cause stop => ?_) ?_
    · exact ⟨[], x, xs, [], m, rfl, rfl, stop⟩
    · rintro y m₁ ⟨run, h₁⟩
      refine bind (P := fun _ _ => True) ((ih m₁ h₁).mono_stops ?_) fun _ _ _ => pure trivial
      rintro cause ⟨before, z, after, ys, m', rfl, runs, stop⟩
      refine ⟨x :: before, z, after, y :: ys, m', rfl, ?_, stop⟩
      rw [List.mapM_cons]
      refine outcome_bind_eq_ok_iff.mpr (.inl ⟨y, m₁, run, ?_⟩)
      exact outcome_bind_eq_ok_iff.mpr (.inl ⟨ys, m', runs, rfl⟩)

end Tries

/-- A loop that changes nothing collects what each operation gives. -/
theorem outcome_mapM_of_fixed {γ : Type} {m : Machine} {f : β → Attempt γ} {g : β → γ} {xs : List β}
    (each : ∀ x ∈ xs, outcome (f x) m = .ok (.ok (g x), m)) :
    outcome (xs.mapM f) m = .ok (.ok (xs.map g), m) := by
  induction xs with
  | nil => rfl
  | cons x xs ih =>
    rw [List.mapM_cons]
    refine (outcome_bind_of_run (each x List.mem_cons_self)).trans ?_
    exact outcome_bind_of_run (ih fun y among => each y (List.mem_cons_of_mem _ among))

-- A contract is never checked by running the operation.
attribute [irreducible] Ends

end PagedMemory
