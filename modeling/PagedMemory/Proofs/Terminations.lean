import PagedMemory.Proofs.Faults
import PagedMemory.Proofs.Spending
import PagedMemory.Proofs.Start

/-!
# Whom a failure ends

A fault that cannot be answered ends the process that raised it. Access to user memory
meets faults on behalf of the current process, page by page, and the first one that is
not answered ends both the access and the process. No process is ended by an access
that succeeds, and none is ended twice.

One failure does not go through a fault: a process without memory is turned away before
any page is looked at, and lives on.
-/

namespace PagedMemory

/-- A failed access has ended the current process, unless that has no memory. -/
inductive Environment.Kills (env : Environment) (m : Machine) : MemoryError → Machine → Prop
  | of_owned {cause : MemoryError} {m' : Machine} (owned : env.addressSpace env.current ≠ none)
      (ended : m'.terminations = m.terminations.push (env.current, cause)) : Kills env m cause m'
  | of_unknown {m' : Machine} (unknown : env.addressSpace env.current = none)
      (same : m'.terminations = m.terminations) : Kills env m .unknownProcess m'

namespace Machine.Spends

variable {m₀ m : Machine} {a N : Nat} {P : FrameId → Prop} {env : Environment}

/-- The answer to a fault is added to what has been spent before. -/
theorem add {α : Type} {n : Nat} {op : Attempt α} (spent : m₀.Spends a m)
    (room : a + n ≤ N) (owned : env.addressSpace env.current ≠ none)
    (h : Tries op m (m.Halts n P) (fun _ m' => m.Spends n m')
      (fun cause m' => m'.terminations = m.terminations.push (env.current, cause))) :
    Tries op m (m₀.Halts N P) (fun _ m' => m₀.Spends (a + n) m')
      (env.Kills m₀) := by
  refine (h.mono (fun _ _ more => spent.trans more) ?_).mono_stops fun _ stop =>
    spent.halts stop room
  intro cause m' ended
  exact .of_owned owned (spent.terminations ▸ ended)

/-- So is what an operation of the kernel spends. -/
theorem run {α : Type} {n : Nat} {op : Kernel α} (spent : m₀.Spends a m) (room : a + n ≤ N)
    (h : Ends op m (m.Halts n P) fun _ m' => m.Spares n m') :
    Ends op m (m₀.Halts N P) fun _ m' => m₀.Spends (a + n) m' :=
  (h.mono fun _ _ more => spent.trans more.toSpends).mono_stops fun _ stop =>
    spent.halts stop room

/-- Each try meets one fault at most. -/
theorem accessWithin (va : VirtualAddress) (write : Bool) (tries a : Nat) (room : a + tries ≤ N)
    (m : Machine) (spent : m₀.Spends a m) :
    Tries (PagedMemory.accessWithin env va write tries) m (m₀.Halts N fun _ => True)
      (fun _ m' => m₀.Spends (a + tries) m')
      (env.Kills m₀) := by
  induction tries generalizing m a with
  | zero => exact Tries.halt (.of_plain trivial)
  | succ tries ih =>
    unfold PagedMemory.accessWithin
    cases owner : env.addressSpace env.current with
    | none =>
      exact Tries.fail (.of_unknown owner spent.terminations)
    | some s =>
      have owned : env.addressSpace env.current ≠ none := by simp [owner]
      refine Tries.lift_bind (Halts.findEntry s va) ?_
      rintro found _ ⟨-, rfl⟩
      dsimp only
      split
      · refine Tries.discard_bind (spent.run (by omega) ((Spares.refl _).updateEntry s va _))
          fun m₁ spent₁ => ?_
        exact Tries.pure (spent₁.mono (by omega))
      · next kind _ =>
        refine Tries.bind (Tries.discard (spent.add (n := 1) (by omega) owned
          ((handleFault env _ kind va).mono_stops fun _ stop => stop.mono fun _ _ => trivial)))
          fun _ m₁ spent₁ => ?_
        refine (ih (a + 1) (by omega) m₁ spent₁).mono_done fun _ m' spent' => ?_
        rwa [Nat.add_right_comm] at spent'

theorem copyChunkOut (spent : m₀.Spends a m) (room : a + maxTries ≤ N) (address : VirtualAddress)
    (bytes : List UInt8) (chunk : Chunk) :
    Tries (PagedMemory.copyChunkOut env address bytes chunk) m (m₀.Halts N fun _ => True)
      (fun _ m' => m₀.Spends (a + maxTries) m')
      (env.Kills m₀) := by
  refine Tries.bind (accessWithin _ true maxTries a room m spent) fun f m₁ spent₁ => ?_
  exact Tries.lift (spent₁.run room ((Spares.refl m₁).modifyFrame f _))

theorem copyChunkIn (spent : m₀.Spends a m) (room : a + maxTries ≤ N) (address : VirtualAddress)
    (chunk : Chunk) :
    Tries (PagedMemory.copyChunkIn env address chunk) m (m₀.Halts N fun _ => True)
      (fun _ m' => m₀.Spends (a + maxTries) m')
      (env.Kills m₀) := by
  refine Tries.bind (accessWithin _ false maxTries a room m spent) fun f m₁ spent₁ => ?_
  refine Tries.lift_bind (Halts.readFrame f) ?_
  rintro frame _ ⟨-, rfl⟩
  exact Tries.pure spent₁

/-- Only a page that is present is made writable, which adds to no count. -/
theorem verifyPage (spent : m₀.Spends a m) (room : a < N) {s : Space}
    (owner : env.addressSpace env.current = some s) (va : VirtualAddress) :
    Tries (PagedMemory.verifyPage env s va) m (m₀.Halts N P)
      (fun _ m' => m₀.Spends (a + 1) m')
      (env.Kills m₀) := by
  have owned : env.addressSpace env.current ≠ none := by simp [owner]
  refine Tries.lift_bind (Halts.findEntry s va) ?_
  rintro (_ | entry) _ ⟨seen, rfl⟩
  · exact Tries.pure (spent.mono (Nat.le_succ a))
  · dsimp only
    split
    · next needed =>
      have present : entry.present = true := (Bool.and_eq_true_iff.mp needed).1
      exact Tries.discard (spent.add room owned (handleFault_of_present owner seen present))
    · exact Tries.pure (spent.mono (Nat.le_succ a))

/-! ## Loops over a range -/

variable {β : Type} {k : Nat} {failed : MemoryError → Machine → Prop}

/-- A loop spends on every item what its body does. -/
theorem forM {f : β → Attempt Unit} {xs : List β} (start : m₀.Spends 0 m)
    (body : ∀ x a m₁, m₀.Spends a m₁ → a + k ≤ k * xs.length →
      Tries (f x) m₁ (m₀.Halts (k * xs.length) P) (fun _ m₂ => m₀.Spends (a + k) m₂) failed) :
    Tries (xs.forM f) m (m₀.Halts (k * xs.length) P)
      (fun _ m' => m₀.Spends (k * xs.length) m') failed := by
  refine (Tries.forM (fun rest m₁ => ∃ a, a + k * rest.length = k * xs.length ∧ m₀.Spends a m₁)
    ?_ xs m ⟨0, Nat.zero_add _, start⟩).mono_done ?_
  · rintro x rest m₁ ⟨a, sum, spent⟩
    rw [List.length_cons, Nat.mul_succ] at sum
    refine (body x a m₁ spent (by omega)).mono_done ?_
    intro _ m₂ more
    exact ⟨a + k, by omega, more⟩
  · rintro _ m₁ ⟨a, sum, spent⟩
    exact spent.mono (by omega)

/-- So does a loop that collects what is produced. -/
theorem mapM {γ : Type} {f : β → Attempt γ} {xs : List β} (start : m₀.Spends 0 m)
    (body : ∀ x a m₁, m₀.Spends a m₁ → a + k ≤ k * xs.length →
      Tries (f x) m₁ (m₀.Halts (k * xs.length) P) (fun _ m₂ => m₀.Spends (a + k) m₂) failed) :
    Tries (xs.mapM f) m (m₀.Halts (k * xs.length) P)
      (fun _ m' => m₀.Spends (k * xs.length) m') failed := by
  refine (Tries.mapM (Q := fun _ _ => True)
    (fun rest m₁ => ∃ a, a + k * rest.length = k * xs.length ∧ m₀.Spends a m₁)
    ?_ xs m ⟨0, Nat.zero_add _, start⟩).mono_done ?_
  · rintro x rest m₁ ⟨a, sum, spent⟩
    rw [List.length_cons, Nat.mul_succ] at sum
    refine (body x a m₁ spent (by omega)).mono_done ?_
    intro _ m₂ more
    exact ⟨trivial, a + k, by omega, more⟩
  · rintro ys m₁ ⟨-, a, sum, spent⟩
    exact spent.mono (by omega)

private theorem requireNoWrap (spent : m₀.Spends a m) (address : VirtualAddress) (length : Nat) :
    Ends (PagedMemory.requireNoWrap address length) m (m₀.Halts N P) fun _ m' =>
      m₀.Spends a m' := by
  unfold PagedMemory.requireNoWrap
  split
  · exact Ends.pure spent
  · exact Ends.halt (.of_plain trivial)

theorem copyToUser (m : Machine) (address : VirtualAddress) (bytes : List UInt8) :
    Tries (PagedMemory.copyToUser env address bytes) m
      (m.Halts (maxTries * (pageChunks address bytes.length).length) fun _ => True)
      (fun _ m' => m.Spends (maxTries * (pageChunks address bytes.length).length) m')
      (env.Kills m) := by
  refine Tries.lift_bind ((Spends.refl m).requireNoWrap address _) fun _ m₁ start => ?_
  apply start.forM
  intro chunk a m₂ spent room
  exact spent.copyChunkOut room address bytes chunk

theorem copyFromUser (m : Machine) (address : VirtualAddress) (length : Nat) :
    Tries (PagedMemory.copyFromUser env address length) m
      (m.Halts (maxTries * (pageChunks address length).length) fun _ => True)
      (fun _ m' => m.Spends (maxTries * (pageChunks address length).length) m')
      (env.Kills m) := by
  refine Tries.lift_bind ((Spends.refl m).requireNoWrap address _) fun _ m₁ start => ?_
  refine Tries.bind (start.mapM ?_) fun pieces m₂ spent => Tries.pure spent
  intro chunk a m₂ spent room
  exact spent.copyChunkIn room address chunk

/-- Where the process has no memory, that is found out before any page is looked at. -/
theorem verifyArea (m : Machine) (address : VirtualAddress) (size : Nat) :
    Tries (PagedMemory.verifyArea env address size) m
      (m.Halts (touchedPages address size).length P)
      (fun _ m' => m.Spends (touchedPages address size).length m')
      (env.Kills m) := by
  unfold PagedMemory.verifyArea
  rw [← Nat.one_mul (touchedPages address size).length]
  cases owner : env.addressSpace env.current with
  | none => exact Tries.fail (.of_unknown owner rfl)
  | some s =>
    apply (Spends.refl m).forM
    intro va a m₁ spent room
    exact spent.verifyPage room owner va

/-- Whatever a success spends, it ends no process. -/
theorem ends_none {α : Type} {n : Nat} {op : Attempt α} {stops : Halt → Prop}
    (h : Tries op m stops (fun _ m' => m.Spends n m') failed) :
    Tries op m (fun _ => True) (fun _ m' => m'.terminations = m.terminations) failed := by
  refine (h.mono_done ?_).mono_stops fun _ _ => trivial
  intro result m' spent
  exact spent.terminations

end Machine.Spends

/-- Success ends no process. A fault that is not answered ends the current one, with the cause
of the failure, and so does any failed access to its memory. An access on behalf of a process
without memory fails as well, but ends nobody. -/
theorem failures_end_current_process (env : Environment) (m : Machine) :
    (∀ kind va, Tries (handleFault env kind va) m (fun _ => True)
      (fun _ m' => m'.terminations = m.terminations)
      (fun cause m' => m'.terminations = m.terminations.push (env.current, cause))) ∧
    (∀ address size, Tries (verifyArea env address size) m (fun _ => True)
      (fun _ m' => m'.terminations = m.terminations) (env.Kills m)) ∧
    (∀ address bytes, Tries (copyToUser env address bytes) m (fun _ => True)
      (fun _ m' => m'.terminations = m.terminations) (env.Kills m)) ∧
    ∀ address length, Tries (copyFromUser env address length) m (fun _ => True)
      (fun _ m' => m'.terminations = m.terminations) (env.Kills m) := by
  refine ⟨?_, ?_, ?_, ?_⟩
  · intro kind va
    exact Machine.Spends.ends_none (Machine.handleFault env m kind va)
  · intro address size
    exact Machine.Spends.ends_none (Machine.Spends.verifyArea (P := m.Full) m address size)
  · intro address bytes
    exact Machine.Spends.ends_none (Machine.Spends.copyToUser m address bytes)
  · intro address length
    exact Machine.Spends.ends_none (Machine.Spends.copyFromUser m address length)

/-- Not every failed access ends the current process. -/
theorem unknown_process_lives_on :
    ¬ ∀ (env : Environment) (m : Machine) (address : VirtualAddress) (size : Nat),
      Tries (verifyArea env address size) m (fun _ => True)
        (fun _ m' => m'.terminations = m.terminations)
        (fun cause m' => m'.terminations = m.terminations.push (env.current, cause)) := by
  intro always
  have run : outcome (verifyArea (.solitary 7 none none) ⟨0, by decide⟩ 4096) .tiny =
      .ok (.error .unknownProcess, .tiny) := rfl
  have ended := (always (.solitary 7 none none) .tiny ⟨0, by decide⟩ 4096).failed_of_run run
  have sizes := congrArg Array.size ended
  rw [Array.size_push] at sizes
  omega

end PagedMemory
