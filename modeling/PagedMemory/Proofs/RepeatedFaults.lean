import PagedMemory.Proofs.Halting
import PagedMemory.Proofs.Unsharing

/-!
# Faults that come again

A fault can be raised a second time, for the same page, after it was answered: the processor may
have kept an old lookup, or another address of the page was used at the same time. Whatever the
first answer was, it left the page mapped, so that the second fault finds nothing to do
(`Machine.Dismisses`). It empties the cache, and that is all.

A write that is answered by sharing leaves the page read-only. The next write to it is one that has
to be answered. After every other answer to a write the page can be written to.
-/

namespace PagedMemory

variable {m m' : Machine} {v v' : View} {live : Finset Space} {owed : Owed} {env : Environment}
  {s : Space} {kind : FaultKind} {how : Resolution} {va a b : VirtualAddress} {e : Entry}

/-- A write that was not answered by sharing can be made. -/
theorem View.Answers.leaf_writable (answers : v.Answers env s va .writeProtect how v')
    (unshared : how ≠ .shared) : (v'.leaf s va.splitSlots).writable = true := by
  cases answers with
  | unshared unshares =>
    cases unshares with
    | spurious _ writable => exact writable
    | madeWritable =>
      rw [flushed, leaf_setLeaf_self]
      rfl
    | copied =>
      rw [flushed, leaf_copied_self]
      rfl
  | filled _ fills =>
    cases fills with
    | anonymous =>
      rw [leaf_filled_self]
      rfl
    | loaded =>
      rw [leaf_filled_self]
      rfl
    | shared => exact absurd rfl unshared

namespace Machine

/-- The fault is found to need no answer. The cache is emptied once more, unless this can no longer
be counted, and nothing else is different. -/
def Dismisses (m : Machine) (env : Environment) (kind : FaultKind) (va : VirtualAddress) : Prop :=
  Tries (PagedMemory.handleFault env kind va) m
    (fun cause => cause = .overflow ∧ flushLimit ≤ m.flushes + 1)
    (fun how m' => how = .spurious ∧
      m' = { m with flushes := m.flushes + 1, events := m'.events })
    fun _ _ => False

/-- A fault at a page that is mapped, and can be written to if that was the fault, needs no
answer. -/
theorem dismisses_of_entry (owner : env.addressSpace env.current = some s)
    (seen : s.entry m.ram va = .ok (some e)) (present : e.present = true)
    (writable : kind = .writeProtect → e.writable = true) : m.Dismisses env kind va := by
  have flushes {done : Unit → Machine → Prop}
      (post : done () { m with flushes := m.flushes + 1 }) :
      Ends flush m (fun cause => cause = .overflow ∧ flushLimit ≤ m.flushes + 1) done := by
    apply Ends.flush
    · intro room
      exact post
    · intro full
      exact ⟨rfl, full⟩
  have resolved : Tries (resolveFault env kind va) m
      (fun cause => cause = .overflow ∧ flushLimit ≤ m.flushes + 1)
      (fun how m' => how = .spurious ∧
        m' = { m with flushes := m.flushes + 1, events := m'.events }) fun _ _ => False := by
    apply Tries.resolveFault_of_present owner seen present
    · intro write
      unfold unsharePage
      refine Tries.lift_bind (P := fun found m' => found = some e ∧ m' = m)
        (Ends.inspect seen ⟨rfl, rfl⟩) ?_
      rintro _ m₁ ⟨rfl, rfl⟩
      dsimp only
      rw [present, writable write, if_neg (by decide), if_pos rfl]
      refine Tries.lift_bind (P := fun _ m' => m' = { m₁ with flushes := m₁.flushes + 1 })
        (flushes rfl) ?_
      rintro _ _ rfl
      exact Tries.pure ⟨.spurious, rfl, rfl, rfl⟩
    · intro _
      exact flushes ⟨rfl, rfl⟩
  apply Tries.handleFault resolved
  · rintro how m' events ⟨rfl, changed⟩
    rw [changed]
    exact ⟨rfl, rfl⟩
  · intro cause m' events impossible
    exact impossible

end Machine

/-- Once a fault has been answered, another one in the same page is dismissed if it is for a page
that is missing. If it was a write that was answered, and not by sharing, a write is dismissed
too. -/
theorem repeated_faults_are_harmless (sound : (m.view live).Sound owed) (named : env.Names live)
    (run : outcome (handleFault env kind a) m = .ok (.ok how, m'))
    (page : b.value / 4096 = a.value / 4096) :
    m'.Dismisses env .notPresent b ∧
      (kind = .writeProtect → how ≠ .shared → m'.Dismisses env .writeProtect b) := by
  obtain ⟨s, v', owner, answers, shows⟩ :=
    ((m.shows_view live).handleFault sound named kind a).done_of_run run
  have hs : s ∈ live := named _ s owner
  have acts := answers.acts (o := owed) hs named
  have hs' : s ∈ v'.live := (acts.live fun _ => Environment.Serves.lasting).symm ▸ hs
  have slots : b.splitSlots = a.splitSlots := Address.splitSlots_eq_iff.mpr page
  have present : (v'.leaf s b.splitSlots).present = true := by
    rw [slots]
    exact answers.leaf_present
  have seen := shows.entry_of_present (acts.sound sound).separate hs' present
  constructor
  · exact Machine.dismisses_of_entry owner seen present nofun
  · rintro rfl unshared
    apply Machine.dismisses_of_entry owner seen present
    intro _
    rw [slots]
    exact answers.leaf_writable unshared

section Tiny

/-- The page was copied for a write to its first byte, and now the second byte is written. -/
theorem repeated_faults_are_harmless_tiny :
    outcome tinyWrite tinyAliased.2 = .ok (.ok .copied, tinyAliased.2.after tinyWrite) ∧
    (tinyAliased.2.after tinyWrite).Dismisses tinyWriter .notPresent ⟨4097, by decide⟩ ∧
    (tinyAliased.2.after tinyWrite).Dismisses tinyWriter .writeProtect ⟨4097, by decide⟩ := by
  have live : tinySpace ∈ tinyAliased.1.live := by decide +kernel
  have named : tinyWriter.Names tinyAliased.1.live :=
    Environment.names_solitary live 1 (some (.anonymous .zero))
  have run : outcome tinyWrite tinyAliased.2 = .ok (.ok .copied, tinyAliased.2.after tinyWrite) :=
    Machine.run_of_product (by decide +kernel)
  obtain ⟨missing, write⟩ :=
    repeated_faults_are_harmless sound_tinyAliased named run (b := ⟨4097, by decide⟩) rfl
  exact ⟨run, missing, write rfl nofun⟩

end Tiny

end PagedMemory
