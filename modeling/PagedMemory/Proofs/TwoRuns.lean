import PagedMemory.Proofs.Contract

/-!
# Contracts of two runs

`Both op op' m n post` compares a run of `op` on one machine with a run of `op'` on
another: if both end, their results and their machines satisfy `post`. For two attempts,
`BothTry` demands in addition that both of them succeed or that both fail with the same
error.

Operations that keep two machines related and have equal results `Concur`. The rules
follow the structure of the two operations at once, and any two contracts of single runs
make one of both (`Both.of_ends`, `BothTry.of_tries`).
-/

namespace PagedMemory

variable {α β : Type}

/-- If both runs end, they end as `post` says. -/
def Both (op op' : Kernel α) (m n : Machine) (post : α → α → Machine → Machine → Prop) : Prop :=
  ∀ a m' b n', op m = .ok (a, m') → op' n = .ok (b, n') → post a b m' n'

/-- If both attempts end, both succeed as `done` says, or both fail with the same error as
`failed` says. -/
def BothTry (op op' : Attempt α) (m n : Machine) (done : α → α → Machine → Machine → Prop)
    (failed : Machine → Machine → Prop) : Prop :=
  Both (outcome op) (outcome op') m n fun result result' m' n' =>
    match result, result' with
    | .ok a, .ok b => done a b m' n'
    | .error cause, .error cause' => cause' = cause ∧ failed m' n'
    | _, _ => False

/-- Run on related machines, both operations have the same result and leave the machines
related. -/
def Concur (R : Machine → Machine → Prop) (op op' : Kernel α) : Prop :=
  ∀ m n, R m n → Both op op' m n fun a b m' n' => b = a ∧ R m' n'

def ConcurTry (R : Machine → Machine → Prop) (op op' : Attempt α) : Prop :=
  Concur R (outcome op) (outcome op')

namespace Both

variable {op op' : Kernel α} {m n : Machine} {post post' : α → α → Machine → Machine → Prop}

theorem of_ends {stops stops' : Halt → Prop} {P P' : α → Machine → Prop} (h : Ends op m stops P)
    (h' : Ends op' n stops' P') (imp : ∀ a b m' n', P a m' → P' b n' → post a b m' n') :
    Both op op' m n post :=
  fun a m' b n' run run' => imp a b m' n' (h.of_run run) (h'.of_run run')

theorem mono (h : Both op op' m n post) (imp : ∀ a b m' n', post a b m' n' → post' a b m' n') :
    Both op op' m n post' :=
  fun a m' b n' run run' => imp a b m' n' (h a m' b n' run run')

theorem bind {next next' : α → Kernel β} {P : α → α → Machine → Machine → Prop}
    {post : β → β → Machine → Machine → Prop} (first : Both op op' m n P)
    (rest : ∀ a b m' n', P a b m' n' → Both (next a) (next' b) m' n' post) :
    Both (op >>= next) (op' >>= next') m n post := by
  intro c m₂ d n₂ run run'
  obtain ⟨a, m₁, run₁, run₂⟩ := bind_eq_ok_iff.mp run
  obtain ⟨b, n₁, run₁', run₂'⟩ := bind_eq_ok_iff.mp run'
  exact rest a b m₁ n₁ (first a m₁ b n₁ run₁ run₁') c m₂ d n₂ run₂ run₂'

theorem pure {a b : α} (h : post a b m n) : Both (Pure.pure a) (Pure.pure b) m n post := by
  intro a' m' b' n' run run'
  cases run
  cases run'
  exact h

/-- A run that stops has nothing to be compared with. -/
theorem of_stop {cause : Halt} (stop : op m = .error cause) : Both op op' m n post := by
  intro a m' b n' run
  rw [stop] at run
  cases run

theorem halt {cause : Halt} : Both (PagedMemory.halt cause) op' m n post :=
  of_stop rfl

end Both

namespace BothTry

variable {op op' : Attempt α} {m n : Machine} {done done' : α → α → Machine → Machine → Prop}
  {failed failed' : Machine → Machine → Prop}

/-- Two contracts of single runs, of which neither allows for a success where the other one
allows for a failure. -/
theorem of_tries {stops stops' : Halt → Prop} {D D' : α → Machine → Prop}
    {F F' : MemoryError → Machine → Prop} (h : Tries op m stops D F) (h' : Tries op' n stops' D' F')
    (success : ∀ a b m' n', D a m' → D' b n' → done a b m' n')
    (failure : ∀ cause cause' m' n', F cause m' → F' cause' n' → cause' = cause ∧ failed m' n')
    (left : ∀ a cause m' n', D a m' → F' cause n' → False)
    (right : ∀ cause a m' n', F cause m' → D' a n' → False) : BothTry op op' m n done failed := by
  rintro (cause | a) m' (cause' | b) n' run run'
  · exact failure cause cause' m' n' (h.failed_of_run run) (h'.failed_of_run run')
  · exact (right cause b m' n' (h.failed_of_run run) (h'.done_of_run run')).elim
  · exact (left a cause' m' n' (h.done_of_run run) (h'.failed_of_run run')).elim
  · exact success a b m' n' (h.done_of_run run) (h'.done_of_run run')

theorem mono (h : BothTry op op' m n done failed)
    (success : ∀ a b m' n', done a b m' n' → done' a b m' n')
    (failure : ∀ m' n', failed m' n' → failed' m' n') : BothTry op op' m n done' failed' := by
  refine Both.mono h ?_
  rintro (cause | a) (cause' | b) m' n' p
  · exact ⟨p.1, failure m' n' p.2⟩
  · exact p
  · exact p
  · exact success a b m' n' p

theorem mono_failed (h : BothTry op op' m n done failed)
    (failure : ∀ m' n', failed m' n' → failed' m' n') : BothTry op op' m n done failed' :=
  h.mono (fun _ _ _ _ p => p) failure

theorem bind {next next' : α → Attempt β} {P : α → α → Machine → Machine → Prop}
    {done : β → β → Machine → Machine → Prop} (first : BothTry op op' m n P failed)
    (rest : ∀ a b m' n', P a b m' n' → BothTry (next a) (next' b) m' n' done failed) :
    BothTry (op >>= next) (op' >>= next') m n done failed := by
  refine Both.bind first ?_
  rintro (cause | a) (cause' | b) m' n' p
  · exact Both.pure p
  · exact p.elim
  · exact p.elim
  · exact rest a b m' n' p

theorem pure {a b : α} (h : done a b m n) : BothTry (Pure.pure a) (Pure.pure b) m n done failed :=
  Both.pure h

theorem fail {cause : MemoryError} (h : failed m n) :
    BothTry (PagedMemory.fail cause) (PagedMemory.fail cause) m n done failed :=
  Both.pure ⟨rfl, h⟩

theorem halt {cause : Halt} : BothTry (PagedMemory.halt cause : Attempt α) op' m n done failed :=
  Both.halt

theorem lift {op op' : Kernel α} (h : Both op op' m n done) :
    BothTry (liftM op) (liftM op') m n done failed := by
  show Both (op >>= fun a => Pure.pure (Except.ok a))
    (op' >>= fun a => Pure.pure (Except.ok a)) m n _
  exact h.bind fun _ _ _ _ p => Both.pure p

theorem lift_bind {op op' : Kernel α} {next next' : α → Attempt β}
    {P : α → α → Machine → Machine → Prop} {done : β → β → Machine → Machine → Prop}
    (first : Both op op' m n P)
    (rest : ∀ a b m' n', P a b m' n' → BothTry (next a) (next' b) m' n' done failed) :
    BothTry (liftM op >>= next) (liftM op' >>= next') m n done failed :=
  (lift first).bind rest

/-- What the kernel does in an attempt only for its effect. -/
theorem discard_bind {op op' : Kernel α} {next next' : Unit → Attempt β}
    {P : Machine → Machine → Prop} {done : β → β → Machine → Machine → Prop}
    (first : Both op op' m n fun _ _ m' n' => P m' n')
    (rest : ∀ m' n', P m' n' → BothTry (next ()) (next' ()) m' n' done failed) :
    BothTry (Functor.discard (liftM op : Attempt α) >>= next)
      (Functor.discard (liftM op' : Attempt α) >>= next') m n done failed := by
  rw [discard_eq_bind, discard_eq_bind]
  exact ((lift first).bind fun _ _ _ _ p => pure p).bind fun _ _ m' n' p => rest m' n' p

theorem undoing {undo undo' : Kernel Unit} (h : BothTry op op' m n done fun m' n' =>
      Both undo undo' m' n' fun _ _ m'' n'' => failed m'' n'') :
    BothTry (PagedMemory.undoing undo op) (PagedMemory.undoing undo' op') m n done failed := by
  refine Both.bind h ?_
  rintro (cause | a) (cause' | b) m' n' p
  · obtain ⟨rfl, p⟩ := p
    exact p.bind fun _ _ _ _ q => Both.pure ⟨rfl, q⟩
  · exact p.elim
  · exact p.elim
  · exact Both.pure p

end BothTry

namespace Concur

variable {R : Machine → Machine → Prop} {op op' : Kernel α}

theorem bind {next next' : α → Kernel β} (first : Concur R op op')
    (rest : ∀ a, Concur R (next a) (next' a)) : Concur R (op >>= next) (op' >>= next') := by
  intro m n h
  refine (first m n h).bind ?_
  rintro _ a m' n' ⟨rfl, h'⟩
  exact rest a m' n' h'

theorem pure (a : α) : Concur R (Pure.pure a) (Pure.pure a) :=
  fun _ _ h => Both.pure ⟨rfl, h⟩

end Concur

namespace ConcurTry

variable {R : Machine → Machine → Prop} {op op' : Attempt α}

theorem of_both (h : ∀ m n, R m n → BothTry op op' m n (fun a b m' n' => b = a ∧ R m' n') R) :
    ConcurTry R op op' := by
  intro m n r
  refine Both.mono (h m n r) ?_
  rintro (cause | a) (cause' | b) m' n' p
  · exact ⟨congrArg _ p.1, p.2⟩
  · exact p.elim
  · exact p.elim
  · exact ⟨congrArg _ p.1, p.2⟩

theorem both (h : ConcurTry R op op') {m n : Machine} (r : R m n) :
    BothTry op op' m n (fun a b m' n' => b = a ∧ R m' n') R := by
  refine Both.mono (h m n r) ?_
  rintro (cause | a) _ m' n' ⟨rfl, r'⟩
  · exact ⟨rfl, r'⟩
  · exact ⟨rfl, r'⟩

theorem bind {next next' : α → Attempt β} (first : ConcurTry R op op')
    (rest : ∀ a, ConcurTry R (next a) (next' a)) :
    ConcurTry R (op >>= next) (op' >>= next') := by
  refine Concur.bind first ?_
  rintro (cause | a)
  · exact Concur.pure _
  · exact rest a

theorem pure (a : α) : ConcurTry R (Pure.pure a) (Pure.pure a) :=
  Concur.pure _

theorem fail (cause : MemoryError) :
    ConcurTry R (PagedMemory.fail cause : Attempt α) (PagedMemory.fail cause) :=
  Concur.pure _

theorem lift {op op' : Kernel α} (h : Concur R op op') : ConcurTry R (liftM op) (liftM op') := by
  show Concur R (op >>= fun a => Pure.pure (Except.ok a)) (op' >>= fun a => Pure.pure (Except.ok a))
  exact h.bind fun a => Concur.pure _

theorem discard (h : ConcurTry R op op') :
    ConcurTry R (Functor.discard op) (Functor.discard op') := by
  rw [discard_eq_bind, discard_eq_bind]
  exact h.bind fun _ => pure ()

theorem forM {γ : Type} {f f' : γ → Attempt Unit} (body : ∀ x, ConcurTry R (f x) (f' x))
    (xs : List γ) : ConcurTry R (xs.forM f) (xs.forM f') := by
  induction xs with
  | nil => exact pure ()
  | cons x xs ih => exact (body x).bind fun _ => ih

theorem mapM {γ : Type} {f f' : γ → Attempt α} (body : ∀ x, ConcurTry R (f x) (f' x))
    (xs : List γ) : ConcurTry R (xs.mapM f) (xs.mapM f') := by
  induction xs with
  | nil => exact pure []
  | cons x xs ih =>
    rw [List.mapM_cons, List.mapM_cons]
    exact (body x).bind fun _ => ih.bind fun _ => pure _

end ConcurTry

end PagedMemory
