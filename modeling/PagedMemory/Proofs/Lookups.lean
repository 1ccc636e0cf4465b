import PagedMemory.Proofs.Faults

/-!
# What may be remembered of an entry

The processor keeps lookups that it has made, until the cache is emptied. A change of a
view does no harm to them if every entry that is present stays so, with the same frame
and no fewer rights (`View.Stands`). Where a change does harm, the kernel empties the
cache in the same operation; `View.Upholds` says that one or the other was done.

Most changes let every entry stand (`Act.upholds`). The others, which take away a page,
a right or a space, are always followed by a flush.
-/

namespace PagedMemory

/-- Whatever was looked up in the first entry is true of the second one. -/
def Entry.Stands (e e' : Entry) : Prop :=
  e.present = true → e'.present = true ∧ e'.frame = e.frame ∧
    (e.writable = true → e'.writable = true)

namespace Entry.Stands

variable {e e' e'' : Entry}

theorem refl (e : Entry) : e.Stands e :=
  fun present => ⟨present, rfl, id⟩

theorem trans (first : e.Stands e') (rest : e'.Stands e'') : e.Stands e'' := by
  intro present
  obtain ⟨present', frame, writable⟩ := first present
  obtain ⟨present'', frame', writable'⟩ := rest present'
  exact ⟨present'', frame'.trans frame, fun h => writable' (writable h)⟩

theorem of_absent (absent : e.present = false) (e' : Entry) : e.Stands e' := by
  intro present
  rw [absent] at present
  cases present

end Entry.Stands

/-- The change takes nothing away that could have been looked up. -/
def Change.Gentle : Change → Prop
  | .note | .share .. | .copy .. | .unmap .. | .unlink .. | .destroy _ => False
  | _ => True

namespace View

variable {v v' v'' : View} {o o' : Owed} {s : Space} {k : Place}

/-- The cache was not emptied, nor was there need to. -/
structure Stands (v v' : View) : Prop where
  layout : v'.layout = v.layout
  flushes : v'.flushes = v.flushes
  live : v.live ⊆ v'.live
  entries : ∀ s ∈ v.live, ∀ k, (v.leaf s k).Stands (v'.leaf s k)
  untracked : ∀ f, ¬ v.tracks f = true → v'.bytes f = v.bytes f

/-- The cache was emptied, or there was no need to. -/
def Upholds (v v' : View) : Prop :=
  v.flushes < v'.flushes ∨ v.Stands v'

theorem Stands.refl (v : View) : v.Stands v :=
  ⟨rfl, rfl, Finset.Subset.refl _, fun _ _ _ => .refl _, fun _ _ => rfl⟩

theorem Stands.trans (first : v.Stands v') (rest : v'.Stands v'') : v.Stands v'' where
  layout := rest.layout.trans first.layout
  flushes := rest.flushes.trans first.flushes
  live := first.live.trans rest.live
  entries s hs k := (first.entries s hs k).trans (rest.entries s (first.live hs) k)
  untracked f h := by
    have h' : ¬ v'.tracks f = true := by rwa [tracks, first.layout]
    exact (rest.untracked f h').trans (first.untracked f h)

namespace Upholds

theorem refl (v : View) : v.Upholds v :=
  .inr (.refl v)

theorem flushes_le (h : v.Upholds v') : v.flushes ≤ v'.flushes := by
  rcases h with more | stands
  · exact Nat.le_of_lt more
  · exact Nat.le_of_eq stands.flushes.symm

theorem trans (first : v.Upholds v') (rest : v'.Upholds v'') : v.Upholds v'' := by
  have before := first.flushes_le
  have after := rest.flushes_le
  rcases first with more | stands
  · exact .inl (Nat.lt_of_lt_of_le more after)
  · rcases rest with more | stands'
    · exact .inl (Nat.lt_of_le_of_lt before more)
    · exact .inr (stands.trans stands')

/-- The cache is emptied at the end. -/
theorem of_flushed (le : v.flushes ≤ v'.flushes) : v.Upholds v'.flushed :=
  .inl (Nat.lt_succ_of_le le)

/-- What is only reported to the outside harms no lookup. -/
theorem reported (v : View) (reads : Array (DeviceId × BlockNumber))
    (terminations : Array (Pid × MemoryError)) :
    v.Upholds { v with reads := reads, terminations := terminations } :=
  .inr ⟨rfl, rfl, Finset.Subset.refl _, fun _ _ _ => .refl _, fun _ _ => rfl⟩

end Upholds

/-- One entry is replaced by another that stands for it. -/
theorem Stands.setLeaf {e : Entry} (stands : (v.leaf s k).Stands e) : v.Stands (v.setLeaf s k e) where
  layout := rfl
  flushes := rfl
  live := Finset.Subset.refl _
  entries s' _ k' := by
    by_cases here : s' = s ∧ k' = k
    · obtain ⟨rfl, rfl⟩ := here
      rwa [leaf_setLeaf_self]
    · rw [leaf_setLeaf_of_ne e here]
      exact .refl _
  untracked _ _ := rfl

/-- A frame that is handed out was tracked, and no entry changes. -/
theorem Stands.grant {f : FrameId} (free : v.Free f) (b : Frame) : v.Stands (v.grant f b) :=
  { Stands.refl v with
    untracked := fun _ untracked => bytes_setBytes_of_ne b fun same => untracked (same ▸ free.1) }

theorem Upholds.remap (v : View) (s : Space) (k : Place) (e : Entry) : v.Upholds (v.remap s k e) := by
  unfold View.remap
  split
  · exact .of_flushed (Nat.le_refl _)
  · next absent => exact .inr (.setLeaf (.of_absent (Bool.not_eq_true _ ▸ absent) e))

theorem Stands.founded (fresh : s ∉ v.live) (free : v.Free s.root) : v.Stands (v.founded s) :=
  { Stands.grant free Frame.zero with
    live := Finset.subset_insert s v.live
    entries := fun s' hs' k => by
      have same : (v.founded s).leaf s' k = v.leaf s' k := if_neg fun (h : s' = s) => fresh (h ▸ hs')
      rw [same]
      exact .refl _ }

/-- Changes that take nothing away do no harm to lookups. -/
theorem Act.upholds {c : Change} (act : Act v o c v' o') (sound : v.Sound o) (gentle : c.Gentle) :
    v.Upholds v' := by
  cases act with
  | link hs vacant free => exact .inr { Stands.grant free Frame.zero with }
  | fill hs absent free =>
    exact .inr ((Stands.grant free _).trans (.setLeaf (.of_absent absent _)))
  | expose hs absent => exact .inr (.setLeaf (.of_absent absent _))
  | permit => exact .inr (.setLeaf fun present => ⟨present, rfl, fun _ => rfl⟩)
  | touch => exact .inr (.setLeaf fun present => ⟨present, rfl, id⟩)
  | store hs present writable =>
    obtain ⟨tracked, -⟩ := sound.exclusive _ hs _ present writable
    exact .inr { Stands.refl v with
      untracked := fun _ untracked => bytes_setBytes_of_ne _ fun same => untracked (same ▸ tracked) }
  | create free => exact .inr (.founded (fun hs => sound.not_free hs (c := .root) rfl free) free)
  | hold free => exact .inr (.grant free _)
  | yield => exact .inr { Stands.refl v with }
  | install => exact .remap v _ _ _
  | _ => exact gentle.elim

theorem Acts.upholds {allowed : Change → Prop} (acts : Acts allowed v o v' o') (sound : v.Sound o)
    (gentle : ∀ c, allowed c → c.Gentle) : v.Upholds v' := by
  induction acts with
  | refl => exact .refl v
  | tail before ok act ih => exact ih.trans (act.upholds (before.sound sound) (gentle _ ok))

/-! ## Answers to faults -/

variable {env : Environment} {va : VirtualAddress}

theorem Covers.stands {i : Slot} {t : FrameId} (covers : v.Covers s i t v') : v.Stands v' := by
  cases covers with
  | already => exact .refl v
  | anew vacant free => exact { Stands.grant free Frame.zero with }

theorem Unshares.upholds {how : Resolution} (unshares : v.Unshares s k how v') : v.Upholds v' := by
  cases unshares <;> exact .of_flushed (Nat.le_refl _)

theorem Shares.upholds {source : Space} {k' : Place} (shares : v.Shares source k s k' v') :
    v.Upholds v' := by
  obtain ⟨ready, absent, covers⟩ := shares
  refine .of_flushed (Nat.le_of_eq (covers.stands.flushes.symm.trans ?_))
  rw [flushes_aliased]

theorem Fills.upholds {how : Resolution} (fills : v.Fills env env.current s va how v')
    (absent : (v.leaf s va.splitSlots).present = false) : v.Upholds v' := by
  have filled {w : View} {f : FrameId} {b : Frame} (stands : v.Stands w)
      (same : w.leaf = v.leaf) (free : w.Free f) : v.Stands (w.filled s va.splitSlots f b) :=
    (stands.trans (.grant free b)).trans (.setLeaf (.of_absent (same ▸ absent) _))
  cases fills with
  | anonymous runs unbacked cleared covers free =>
    exact .inr (filled covers.stands covers.leaf free)
  | loaded runs backed alone complete covers free =>
    have read (device : DeviceId) (blocks : List BlockNumber) :
        v.Stands (v.recorded device blocks) := { Stands.refl v with }
    exact .inr (filled ((read _ _).trans covers.stands) covers.leaf free)
  | shared runs backed chosen shares => exact shares.upholds

theorem Answers.upholds {kind : FaultKind} {how : Resolution}
    (answers : v.Answers env s va kind how v') : v.Upholds v' := by
  cases answers with
  | unshared unshares => exact unshares.upholds
  | present => exact .of_flushed (Nat.le_refl _)
  | filled absent fills => exact fills.upholds absent

/-! ## Sequences of changes -/

/-- Allowed changes lead from one view to the other, and lookups are upheld. -/
structure Leads (v : View) (allowed : Change → Prop) (v' : View) : Prop where
  acts : ∀ o, Acts allowed v o v' o
  upholds : v.Upholds v'

namespace Leads

variable {allowed allowed' : Change → Prop}

theorem refl (v : View) : v.Leads allowed v :=
  ⟨fun _ => .refl, .refl v⟩

theorem trans (first : v.Leads allowed v') (rest : v'.Leads allowed v'') : v.Leads allowed v'' :=
  ⟨fun o => (first.acts o).trans (rest.acts o), first.upholds.trans rest.upholds⟩

theorem mono (leads : v.Leads allowed v') (imp : ∀ c, allowed c → allowed' c) :
    v.Leads allowed' v' :=
  ⟨fun o => (leads.acts o).mono imp, leads.upholds⟩

/-- A single change that takes nothing away. -/
theorem single {c : Change} (ok : allowed c) (act : ∀ o, Act v o c v' o) (sound : v.Sound o)
    (gentle : c.Gentle) : v.Leads allowed v' :=
  ⟨fun o => .single ok (act o), (act o).upholds sound gentle⟩

/-- What is only reported to the outside. -/
theorem reported (ok : allowed .note) (reads : Array (DeviceId × BlockNumber))
    (terminations : Array (Pid × MemoryError)) :
    v.Leads allowed { v with reads := reads, terminations := terminations } :=
  ⟨fun _ => .single ok (.note v.flushes reads terminations), .reported v reads terminations⟩

end Leads

theorem Answers.leads {kind : FaultKind} {how : Resolution}
    (answers : v.Answers env s va kind how v') (hs : s ∈ v.live) (named : env.Names v.live) :
    v.Leads (env.Serves v.config s va) v' :=
  ⟨fun _ => answers.acts hs named, answers.upholds⟩

end View

end PagedMemory
