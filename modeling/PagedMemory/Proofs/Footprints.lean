import PagedMemory.Space.Lifecycle
import PagedMemory.Proofs.Freeing

/-!
# Where spaces are made and freed in memory

A view does not tell where in memory an operation writes. This is said here of memory as it
is, word by word and in any state: the words that a guard names hold what they held in some
earlier machine (`Machine.Guards`).

Freeing a range of a space writes to its directory and to the tables linked there, so it is
enough that these are not guarded. Cloning writes to tables of the parent and to frames
that were free. The latter are told apart from guarded ones as long as those stay in use
(`Machine.Guarding`), that is, until the first reference is given up.
-/

namespace PagedMemory

variable {m₀ m m' : Machine} {p c : Space} {f g : FrameId}

/-! ## Frames in use -/

namespace FramePool

theorem used_setCount {pool : FramePool} {n : Nat} (managed : pool.manages f = true) (some : n ≠ 0)
    (used : pool.refCount? g ≠ .some 0) : (pool.setCount f n).refCount? g ≠ .some 0 := by
  by_cases same : g = f
  · rw [same, refCount?_setCount_self n managed]
    simpa using some
  · rwa [refCount?_setCount_of_ne n managed same]

theorem used_retain {pool pool' : FramePool} (done : pool.retain f = .ok pool')
    (used : pool.refCount? g ≠ some 0) : pool'.refCount? g ≠ some 0 := by
  obtain ⟨-, rfl⟩ | ⟨managed, -, rfl⟩ := retain_cases done
  · exact used
  · exact used_setCount managed (Nat.succ_ne_zero _) used

theorem manages_release {pool pool' : FramePool} (done : pool.release f = .ok pool')
    (g : FrameId) : pool'.manages g = pool.manages g := by
  obtain ⟨-, rfl⟩ | ⟨-, -, rfl⟩ := release_cases done
  · rfl
  · exact manages_setCount ..

/-- One reference to the frame is gone. -/
theorem count_release {pool pool' : FramePool} (done : pool.release f = .ok pool')
    (tracked : pool.manages g = true) :
    pool.count g = pool'.count g + if g = f then 1 else 0 := by
  obtain ⟨untracked, rfl⟩ | ⟨managed, some, rfl⟩ := release_cases done
  · have other : g ≠ f := by
      rintro rfl
      exact untracked tracked
    rw [if_neg other, Nat.add_zero]
  · by_cases same : g = f
    · rw [if_pos same, same, count_setCount_self _ managed]
      omega
    · rw [if_neg same, Nat.add_zero, count_setCount_of_ne _ managed tracked same]

theorem layout_retain {pool pool' : FramePool} (done : pool.retain f = .ok pool') :
    pool'.layout = pool.layout := by
  obtain ⟨-, rfl⟩ | ⟨-, -, rfl⟩ := retain_cases done
  · rfl
  · rfl

end FramePool

/-- Somebody refers to the frame, or nobody counts the references. -/
def Machine.InUse (m : Machine) (f : FrameId) : Prop :=
  m.pool.refCount? f ≠ some 0

theorem Machine.InUse.of_count {n : Nat} (one : m.pool.count f = n) (some : n ≠ 0) : m.InUse f := by
  unfold InUse
  rw [FramePool.refCount?, one]
  split
  · simpa using some
  · simp

theorem Machine.InUse.of_unmanaged (untracked : ¬ m.pool.manages f = true) : m.InUse f := by
  unfold InUse
  rw [FramePool.refCount?, if_neg untracked]
  simp

namespace Ends

/-- What is handed out was free, and is in use from then on like everything before. -/
theorem allocFrame? (m : Machine) :
    Ends PagedMemory.allocFrame? m (fun _ => True) fun given m' => m'.ram = m.ram ∧
      m'.pool.layout = m.pool.layout ∧ (∀ g, m.InUse g → m'.InUse g) ∧
      ∀ f, given = some f → ¬ m.InUse f ∧ m'.InUse f := by
  cases given : m.pool.alloc with
  | none =>
    have run : PagedMemory.allocFrame? m = .ok (none, m) := by
      simp only [PagedMemory.allocFrame?, given]
    refine intro run ⟨rfl, rfl, fun _ used => used, ?_⟩
    intro f taken
    cases taken
  | some pair =>
    obtain ⟨f, pool⟩ := pair
    obtain ⟨managed, free, rfl⟩ := FramePool.alloc_eq_some given
    have run : PagedMemory.allocFrame? m = .ok (some f, { m with
        pool := m.pool.setCount f 1, events := m.events.push (.frameAllocated f) }) := by
      simp only [PagedMemory.allocFrame?, given]
    have unused : ¬ m.InUse f := by
      intro used
      apply used
      rw [FramePool.refCount?, if_pos managed, free]
    have granted : (m.pool.setCount f 1).refCount? f ≠ some 0 := by
      rw [FramePool.refCount?_setCount_self 1 managed]
      simp
    refine intro run
      ⟨rfl, rfl, fun g used => FramePool.used_setCount managed Nat.one_ne_zero used, ?_⟩
    intro g same
    cases same
    exact ⟨unused, granted⟩

theorem retain (m : Machine) (f : FrameId) :
    Ends (PagedMemory.retain f) m (fun _ => True) fun _ m' => m'.ram = m.ram ∧
      m'.pool.layout = m.pool.layout ∧ ∀ g, m.InUse g → m'.InUse g := by
  cases done : m.pool.retain f with
  | error cause =>
    have run : PagedMemory.retain f m = .error cause := by
      simp only [PagedMemory.retain, done]
    exact of_stop run trivial
  | ok pool =>
    have run : PagedMemory.retain f m = .ok ((), { m with pool := pool }) := by
      simp only [PagedMemory.retain, done]
    exact intro run
      ⟨rfl, FramePool.layout_retain done, fun g used => FramePool.used_retain done used⟩

theorem release (m : Machine) (f : FrameId) :
    Ends (PagedMemory.release f) m (fun _ => True) fun _ m' =>
      m'.ram = m.ram ∧ m.pool.release f = .ok m'.pool := by
  cases done : m.pool.release f with
  | error cause =>
    have run : PagedMemory.release f m = .error cause := by
      simp only [PagedMemory.release, done]
    exact of_stop run trivial
  | ok pool =>
    have run : PagedMemory.release f m = .ok ((), { m with
        pool := pool
        events := if m.pool.refCount? f == some 1 then m.events.push (.frameFreed f)
          else m.events }) := by
      simp only [PagedMemory.release, done]
    exact intro run ⟨rfl, rfl⟩

theorem modifyFrame (m : Machine) (f : FrameId) (change : Frame → Frame) :
    Ends (PagedMemory.modifyFrame f change) m (fun _ => True) fun _ m' =>
      f.index < m.ram.size ∧ m' = { m with ram := m.ram.modify f change } := by
  by_cases inside : f.index < m.ram.size
  · exact intro (modifyFrame_eq_ok_iff.mpr ⟨inside, rfl⟩) ⟨inside, rfl⟩
  · have stop : PagedMemory.modifyFrame f change m = .error (.outsideMemory f) := by
      simp only [PagedMemory.modifyFrame, if_neg inside]
    exact of_stop stop trivial

end Ends

theorem Space.eq_link_of_tableAt {s : Space} {r : Ram} {i : Slot} {found : Option FrameId}
    (seen : s.tableAt r i = .ok found) : found = s.link r i := by
  unfold tableAt Ram.entry at seen
  unfold link Ram.bytes
  cases bytes : r.frame? s.root with
  | none =>
    rw [bytes] at seen
    cases seen
  | some b =>
    rw [bytes] at seen
    cases seen
    rfl

/-- What a directory links can be told from its entries. -/
theorem Space.link_of_entry {s : Space} {r r' : Ram} {i : Slot}
    (same : r'.entry s.root i = r.entry s.root i) :
    s.link r' i = s.link r i := by
  unfold Ram.entry at same
  unfold Space.link Ram.bytes
  cases before : r.frame? s.root with
  | none =>
    cases after : r'.frame? s.root with
    | none => rfl
    | some b =>
      rw [before, after] at same
      cases same
  | some b =>
    cases after : r'.frame? s.root with
    | none =>
      rw [before, after] at same
      cases same
    | some b' =>
      rw [before, after] at same
      exact congrArg Entry.target (Except.ok.inj same)

/-! ## Guarded words -/

/-- The words of memory that must keep what they hold. -/
abbrev Guard := FrameId → Slot → Prop

variable {G : Guard} {S : Slot → Prop} {entries : List Slot}

namespace Machine

/-- Guarded words hold what they held before. In the slots concerned, the space links frames
that are not guarded, and in these slots neither is its directory. -/
structure Guards (m₀ : Machine) (G : Guard) (c : Space) (S : Slot → Prop) (m : Machine) :
    Prop where
  size : m.ram.size = m₀.ram.size
  word : ∀ f j, G f j → (m.ram.bytes f).entry j = (m₀.ram.bytes f).entry j
  table : ∀ i t, S i → c.link m.ram i = some t → ¬ G c.root i ∧ t ≠ c.root ∧ ∀ j, ¬ G t j

/-- Guarded frames are still in use, so that none of them is handed out again. -/
structure Guarding (m₀ : Machine) (G : Guard) (c : Space) (S : Slot → Prop) (m : Machine) :
    Prop extends Guards m₀ G c S m where
  layout : m.pool.layout = m₀.pool.layout
  used : ∀ f, (f = c.root ∨ ∃ j, G f j) → m.InUse f

/-- The parent finds its tables where they were, and what is not guarded includes the entries
of these that lose the right to be written to, and the slots of the child for new tables. -/
structure Cloneable (m₀ : Machine) (G : Guard) (p c : Space) (S : Slot → Prop)
    (entries : List Slot) : Prop where
  root : ∀ i, S i → G p.root i
  slot : ∀ i t, S i → p.link m₀.ram i = some t → ¬ G c.root i ∧ t ≠ c.root
  page : ∀ i t, S i → p.link m₀.ram i = some t → ∀ j ∈ entries, G t j →
    ((m₀.ram.bytes t).entry j).present = true →
      ¬ m₀.pool.manages ((m₀.ram.bytes t).entry j).frame = true

namespace Guards

theorem keep (guards : m₀.Guards G c S m) (ram : m'.ram = m.ram) : m₀.Guards G c S m' where
  size := by
    rw [ram]
    exact guards.size
  word f j guarded := by
    rw [ram]
    exact guards.word f j guarded
  table i t concerned linked := by
    rw [ram] at linked
    exact guards.table i t concerned linked

theorem entry (guards : m₀.Guards G c S m) {j : Slot} (guarded : G f j) :
    m.ram.entry f j = m₀.ram.entry f j := by
  have size := guards.size
  by_cases inside : f.index < m₀.ram.size
  · rw [Ram.entry_eq_bytes inside, Ram.entry_eq_bytes (size ▸ inside), guards.word f j guarded]
  · have before := Ram.frame?_eq_none_iff.mpr (Nat.not_lt.mp inside)
    have after : m.ram.frame? f = none :=
      Ram.frame?_eq_none_iff.mpr (size ▸ Nat.not_lt.mp inside)
    simp only [Ram.entry, before, after]

/-- A frame with guarded words only is the same as before. -/
theorem frame? (guards : m₀.Guards G c S m) (guarded : ∀ j, G f j) :
    m.ram.frame? f = m₀.ram.frame? f := by
  have size := guards.size
  by_cases inside : f.index < m₀.ram.size
  · rw [Ram.frame?_eq_bytes inside, Ram.frame?_eq_bytes (size ▸ inside)]
    exact congrArg some (Frame.ext_entry fun j => guards.word f j (guarded j))
  · rw [Ram.frame?_eq_none_iff.mpr (Nat.not_lt.mp inside)]
    exact Ram.frame?_eq_none_iff.mpr (size ▸ Nat.not_lt.mp inside)

/-- A frame that is not the directory changes in words that are not guarded. -/
theorem modify (guards : m₀.Guards G c S m) {t : FrameId} (inside : t.index < m.ram.size)
    (apart : t ≠ c.root) {change : Frame → Frame}
    (spared : ∀ j b, G t j → (change b).entry j = b.entry j) :
    m₀.Guards G c S { m with ram := m.ram.modify t change } where
  size := (m.ram.size_modify t change).trans guards.size
  word f j guarded := by
    by_cases same : f = t
    · rw [same] at guarded ⊢
      rw [Ram.bytes_modify_self change inside, spared j _ guarded]
      exact guards.word t j guarded
    · rw [Ram.bytes_modify_of_ne change same]
      exact guards.word f j guarded
  table i t' concerned linked := by
    have root : (m.ram.modify t change).bytes c.root = m.ram.bytes c.root :=
      Ram.bytes_modify_of_ne change apart.symm
    rw [Space.link_congr root] at linked
    exact guards.table i t' concerned linked

theorem write (guards : m₀.Guards G c S m) {t : FrameId} (inside : t.index < m.ram.size)
    (apart : t ≠ c.root) {j : Slot} (loose : ¬ G t j) (e : Entry) :
    m₀.Guards G c S { m with ram := m.ram.modify t fun b => b.setEntry j e } := by
  refine guards.modify inside apart fun j' b guarded => Frame.entry_setEntry_of_ne b e ?_
  rintro rfl
  exact loose guarded

/-- The directory links a frame that is not guarded, or unlinks one. -/
theorem writeRoot (guards : m₀.Guards G c S m) (inside : c.root.index < m.ram.size) {i : Slot}
    (loose : ¬ G c.root i) {e : Entry}
    (target : ∀ t, e.target = some t → t ≠ c.root ∧ ∀ j, ¬ G t j) :
    m₀.Guards G c S { m with ram := m.ram.modify c.root fun b => b.setEntry i e } where
  size := (m.ram.size_modify _ _).trans guards.size
  word f j guarded := by
    by_cases same : f = c.root
    · have other : j ≠ i := by
        rintro rfl
        exact loose (same ▸ guarded)
      rw [same] at guarded ⊢
      rw [Ram.bytes_modify_self _ inside, Frame.entry_setEntry_of_ne _ _ other]
      exact guards.word c.root j guarded
    · rw [Ram.bytes_modify_of_ne _ same]
      exact guards.word f j guarded
  table i' t concerned linked := by
    rw [Space.link, Ram.bytes_modify_self _ inside] at linked
    by_cases same : i' = i
    · rw [same, Frame.entry_setEntry_self] at linked
      exact ⟨same ▸ loose, target t linked⟩
    · rw [Frame.entry_setEntry_of_ne _ _ same] at linked
      exact guards.table i' t concerned linked

end Guards

namespace Guarding

theorem keep (guarding : m₀.Guarding G c S m) (ram : m'.ram = m.ram)
    (layout : m'.pool.layout = m.pool.layout) (used : ∀ f, m.InUse f → m'.InUse f) :
    m₀.Guarding G c S m' :=
  { guarding.toGuards.keep ram with
    layout := layout.trans guarding.layout
    used := fun f guarded => used f (guarding.used f guarded) }

/-- A frame that is not in use is neither guarded nor the directory. -/
theorem loose_of_free (guarding : m₀.Guarding G c S m) (free : ¬ m.InUse f) :
    f ≠ c.root ∧ ∀ j, ¬ G f j := by
  constructor
  · intro same
    exact free (guarding.used f (.inl same))
  · intro j guarded
    exact free (guarding.used f (.inr ⟨j, guarded⟩))

end Guarding

/-! ## Freeing -/

namespace Guards

theorem release (guards : m₀.Guards G c S m) (f : FrameId) :
    Ends (PagedMemory.release f) m (fun _ => True) fun _ m' => m₀.Guards G c S m' :=
  (Ends.release m f).mono fun _ _ released => guards.keep released.1

theorem dropEntry (guards : m₀.Guards G c S m) {t : FrameId} (apart : t ≠ c.root) {j : Slot}
    (loose : ¬ G t j) :
    Ends (Space.dropEntry t j) m (fun _ => True) fun _ m' => m₀.Guards G c S m' := by
  have clear {m : Machine} (guards : m₀.Guards G c S m) :
      Ends (writeEntry t j .zero) m (fun _ => True) fun _ m' => m₀.Guards G c S m' := by
    refine (Ends.modifyFrame m t _).mono ?_
    rintro _ m' ⟨inside, rfl⟩
    exact guards.write inside apart loose .zero
  refine (Ends.seen _ m).bind ?_
  rintro entry _ rfl
  split
  · apply (guards.release entry.frame).bind
    intro _ m₁ guards₁
    exact clear guards₁
  · exact clear guards

theorem freeSlot (guards : m₀.Guards G c S m) {i : Slot} (concerned : S i) :
    Ends (c.freeSlot i) m (fun _ => True) fun _ m' => m₀.Guards G c S m' := by
  refine Ends.bind (P := fun found m' => m' = m ∧ found = c.link m.ram i)
    (Ends.look (fun found seen => ⟨rfl, Space.eq_link_of_tableAt seen⟩) fun _ _ => trivial) ?_
  rintro found _ ⟨rfl, linked⟩
  cases found with
  | none => exact Ends.pure guards
  | some t =>
    obtain ⟨slot, apart, loose⟩ := guards.table i t concerned linked.symm
    refine (Ends.forM (fun _ m' => m₀.Guards G c S m')
      (fun j _ m guards => guards.dropEntry apart (loose j)) allSlots _ guards).bind ?_
    intro _ m₁ guards₁
    apply (guards₁.release t).bind
    intro _ m₂ guards₂
    refine (Ends.modifyFrame m₂ c.root _).mono ?_
    rintro _ m₃ ⟨inside, rfl⟩
    exact guards₂.writeRoot inside slot nofun

theorem freeRange (guards : m₀.Guards G c S m) {start : VirtualAddress} {size : Nat}
    (concerned : ∀ i, InRange start size i → S i) :
    Ends (c.freeRange start size) m (fun _ => True) fun _ m' => m₀.Guards G c S m' := by
  refine Ends.bind (P := fun slots m' => m' = m ∧ rangeSlots .free start size = .ok slots)
    (Ends.look (fun slots range => ⟨rfl, range⟩) fun _ _ => trivial) ?_
  rintro slots _ ⟨rfl, range⟩
  refine Ends.bind (P := fun _ m' => m₀.Guards G c S m') ?_ ?_
  · refine (Ends.forM (fun rest m' => (∀ i ∈ rest, S i) ∧ m₀.Guards G c S m') ?_ slots _
      ⟨fun i h => concerned i ((mem_rangeSlots_iff range).mp h), guards⟩).mono fun _ _ => And.right
    rintro i rest m₁ ⟨within, guards₁⟩
    refine (guards₁.freeSlot (within i List.mem_cons_self)).mono fun _ m₂ guards₂ => ?_
    exact ⟨fun i' h => within i' (List.mem_cons_of_mem _ h), guards₂⟩
  · intro _ m₁ guards₁
    refine Ends.bind (P := fun _ m' => m₀.Guards G c S m') (Ends.intro rfl (guards₁.keep rfl)) ?_
    intro _ m₂ guards₂
    apply Ends.flush
    · exact fun _ => guards₂.keep rfl
    · exact fun _ => trivial

end Guards

/-! ## Cloning -/

namespace Guarding

theorem cloneEntry (guarding : m₀.Guarding G c S m) {source target : FrameId} {j : Slot}
    (theirs : source ≠ c.root)
    (page : G source j → ((m₀.ram.bytes source).entry j).present = true →
      ¬ m₀.pool.manages ((m₀.ram.bytes source).entry j).frame = true)
    (ours : target ≠ c.root ∧ ∀ j, ¬ G target j) :
    Ends (Space.cloneEntry source target j) m (fun _ => True) fun _ m' =>
      m₀.Guarding G c S m' := by
  refine Ends.bind (P := fun e m' => m' = m ∧ m'.ram.entry source j = .ok e)
    (Ends.look (fun e read => ⟨rfl, read⟩) fun _ _ => trivial) ?_
  rintro e m₁ ⟨rfl, read⟩
  split
  · next present =>
    refine (Ends.modifyFrame m₁ target _).bind ?_
    rintro _ m₂ ⟨inside, rfl⟩
    have guards₂ := guarding.toGuards.write inside ours.1 (ours.2 j) e.writeProtected
    refine Ends.bind (P := fun tracked m' => m' = _ ∧ tracked = m₁.pool.manages e.frame)
      (Ends.inspect rfl ⟨rfl, rfl⟩) ?_
    rintro tracked m₃ ⟨rfl, managed⟩
    split
    · next counted =>
      -- A guarded word would still hold an entry that nobody counts.
      have loose : ¬ G source j := by
        intro guarded
        have now : (m₀.ram.bytes source).entry j = e := by
          rw [guarding.toGuards.entry guarded] at read
          obtain ⟨b, found, same⟩ := Ram.entry_eq_ok_iff.mp read
          rw [Ram.bytes, found]
          exact same
        rw [managed, FramePool.manages_congr guarding.layout] at counted
        rw [now] at page
        exact page guarded present counted
      refine (Ends.modifyFrame _ source _).bind ?_
      rintro _ m₄ ⟨inside', rfl⟩
      have guards₄ := guards₂.write inside' theirs loose e.writeProtected
      have guarding₄ : m₀.Guarding G c S _ :=
        { guards₄ with layout := guarding.layout, used := guarding.used }
      refine (Ends.retain _ e.frame).mono ?_
      rintro _ m₅ ⟨ram, layout, used⟩
      exact guarding₄.keep ram layout used
    · exact Ends.pure { guards₂ with layout := guarding.layout, used := guarding.used }
  · exact Ends.pure guarding

/-- The induction is on the slots that are still to be cloned. -/
theorem cloneSlots (cloneable : m₀.Cloneable G p c S entries) (slots : List Slot)
    (concerned : ∀ i ∈ slots, S i) (m : Machine) (guarding : m₀.Guarding G c S m) :
    Ends (p.cloneSlots c entries slots) m (fun _ => True) fun _ m' => m₀.Guarding G c S m' := by
  induction slots generalizing m with
  | nil => exact Ends.pure guarding
  | cons i rest ih =>
    have here := concerned i List.mem_cons_self
    have rest' (i' : Slot) (h : i' ∈ rest) : S i' := concerned i' (List.mem_cons_of_mem _ h)
    refine Ends.bind (P := fun found m' => m' = m ∧ found = p.link m₀.ram i) ?_ ?_
    · refine Ends.look (fun found seen => ⟨rfl, ?_⟩) fun _ _ => trivial
      rw [Space.eq_link_of_tableAt seen, Space.link, Space.link,
        guarding.word p.root i (cloneable.root i here)]
    rintro found m₁ ⟨rfl, linked⟩
    cases found with
    | none => exact ih rest' m₁ guarding
    | some source =>
      obtain ⟨slot, theirs⟩ := cloneable.slot i source here linked.symm
      refine (Ends.allocFrame? m₁).bind ?_
      rintro given m₂ ⟨ram, layout, used, granted⟩
      have guarding₂ := guarding.keep ram layout used
      cases given with
      | none => exact Ends.pure guarding₂
      | some target =>
        have ours := guarding.loose_of_free (granted target rfl).1
        refine (Ends.modifyFrame m₂ target _).bind ?_
        rintro _ m₃ ⟨inside, rfl⟩
        have guards₃ : m₀.Guards G c S { m₂ with ram := m₂.ram.modify target fun _ => .zero } :=
          guarding₂.toGuards.modify inside ours.1 fun j _ guarded => absurd guarded (ours.2 j)
        refine (Ends.modifyFrame _ c.root _).bind ?_
        rintro _ m₄ ⟨inside', rfl⟩
        have guards₄ := guards₃.writeRoot inside' slot (e := .link target) fun t same =>
          Option.some.inj same ▸ ours
        have guarding₄ : m₀.Guarding G c S _ :=
          { guards₄ with layout := guarding₂.layout, used := guarding₂.used }
        refine (Ends.forM (fun rest m' => (∀ j ∈ rest, j ∈ entries) ∧ m₀.Guarding G c S m')
          ?_ entries _ ⟨fun _ h => h, guarding₄⟩).bind ?_
        · rintro j rest m₅ ⟨within, guarding₅⟩
          refine (guarding₅.cloneEntry theirs
            (cloneable.page i source here linked.symm j (within j List.mem_cons_self)) ours).mono
            fun _ m₆ guarding₆ => ?_
          exact ⟨fun j' h => within j' (List.mem_cons_of_mem _ h), guarding₆⟩
        · rintro _ m₅ ⟨-, guarding₅⟩
          exact ih rest' m₅ guarding₅

variable {start : VirtualAddress} {size : Nat}

theorem cloneInto (cloneable : m₀.Cloneable G p c S (Space.clonedEntries start))
    (concerned : ∀ i, InRange start size i → S i) (guarding : m₀.Guarding G c S m) :
    Ends (p.cloneInto c start size) m (fun _ => True) fun _ m' => m₀.Guarding G c S m' := by
  refine Ends.bind (P := fun slots m' => m' = m ∧ rangeSlots .clone start size = .ok slots)
    (Ends.look (fun slots range => ⟨rfl, range⟩) fun _ _ => trivial) ?_
  rintro slots m₁ ⟨rfl, range⟩
  refine Ends.bind (Ends.forM (fun _ m' => m' = m₁) ?_ slots m₁ rfl) ?_
  · intro slot _ m₂ same
    subst same
    refine (Ends.seen _ m₂).bind ?_
    intro entry m₃ same
    subst same
    split
    · exact Ends.halt trivial
    · exact Ends.pure rfl
  · rintro _ m₂ rfl
    exact cloneSlots cloneable slots (fun i h => concerned i ((mem_rangeSlots_iff range).mp h)) m₂
      guarding

theorem cloneRange (cloneable : m₀.Cloneable G p c S (Space.clonedEntries start))
    (concerned : ∀ i, InRange start size i → S i) (guarding : m₀.Guarding G c S m) :
    Tries (p.cloneRange c start size) m (fun _ => True) (fun _ m' => m₀.Guards G c S m')
      (fun _ m' => m₀.Guards G c S m') := by
  refine Tries.lift_bind (cloneInto cloneable concerned guarding) ?_
  intro left m₁ guarding₁
  have guards₁ := guarding₁.toGuards
  cases left with
  | some slot =>
    refine Tries.lift_bind (P := fun _ m' => m₀.Guards G c S m') (Ends.intro rfl (guards₁.keep rfl))
      fun _ m₂ guards₂ => ?_
    refine Tries.lift_bind (guards₂.freeRange concerned) fun _ m₃ guards₃ => ?_
    exact Tries.fail guards₃
  | none =>
    refine Tries.lift_bind (P := fun _ m' => m₀.Guards G c S m') (Ends.intro rfl (guards₁.keep rfl))
      fun _ m₂ guards₂ => ?_
    apply Tries.lift
    apply Ends.flush
    · exact fun _ => guards₂.keep rfl
    · exact fun _ => trivial

end Guarding

/-! ## Making a space -/

/-- What of memory a fork leaves alone, whether it fails or not. Nothing is guarded but frames
in use, and of the tables of the parent only what does not lose the right to be written to. -/
structure Forkable (m₀ : Machine) (G : Guard) (p : Space) (S : Slot → Prop)
    (entries : List Slot) : Prop where
  used : ∀ f j, G f j → m₀.InUse f
  root : ∀ i, S i → G p.root i
  table : ∀ i t, S i → p.link m₀.ram i = some t → m₀.InUse t
  page : ∀ i t, S i → p.link m₀.ram i = some t → ∀ j ∈ entries, G t j →
    ((m₀.ram.bytes t).entry j).present = true →
      ¬ m₀.pool.manages ((m₀.ram.bytes t).entry j).frame = true

/-- A new space lies in a frame that was free. -/
theorem Forkable.create (forkable : m.Forkable G p S entries) :
    Tries Space.create m (fun _ => True)
      (fun c m' => ¬ m.InUse c.root ∧ m.Cloneable G p c S entries ∧ m.Guarding G c S m')
      (fun _ m' => m'.ram = m.ram) := by
  refine Tries.bind (P := fun f m' => ¬ m.InUse f ∧ m'.ram = m.ram ∧
    m'.pool.layout = m.pool.layout ∧ (∀ g, m.InUse g → m'.InUse g) ∧ m'.InUse f) ?_ ?_
  · refine Tries.lift_bind (Ends.allocFrame? m) ?_
    rintro given m₁ ⟨ram, layout, used, granted⟩
    cases given with
    | none => exact Tries.fail ram
    | some f => exact Tries.pure ⟨(granted f rfl).1, ram, layout, used, (granted f rfl).2⟩
  · rintro f m₁ ⟨free, ram, layout, used, given⟩
    refine Tries.lift_bind (Ends.modifyFrame m₁ f _) ?_
    rintro _ m₂ ⟨inside, rfl⟩
    have loose (j : Slot) : ¬ G f j := fun guarded => free (forkable.used f j guarded)
    refine Tries.pure ⟨free, ?_, ?_⟩
    · refine ⟨forkable.root, fun i t concerned linked => ⟨loose i, ?_⟩, forkable.page⟩
      rintro rfl
      exact free (forkable.table i _ concerned linked)
    · refine ⟨⟨?_, fun g j guarded => ?_, fun i t _ linked => ?_⟩, layout, ?_⟩
      · rw [← ram]
        exact m₁.ram.size_modify _ _
      · have other : g ≠ f := by
          rintro rfl
          exact loose j guarded
        rw [← ram]
        exact congrArg (Frame.entry · j) (Ram.bytes_modify_of_ne _ other)
      · rw [Space.link, Ram.bytes_modify_self _ inside, Frame.entry_zero] at linked
        cases linked
      · rintro g (rfl | ⟨j, guarded⟩)
        · exact given
        · exact used g (forkable.used g j guarded)

theorem Forkable.createFrom {start : VirtualAddress} {size : Nat}
    (forkable : m.Forkable G p S (Space.clonedEntries start))
    (concerned : ∀ i, InRange start size i → S i) :
    Tries (Space.createFrom (some p) start size) m (fun _ => True)
      (fun c m' => m.Guards G c S m')
      (fun _ m' => ∀ f, (∀ j, G f j) → m'.ram.frame? f = m.ram.frame? f) := by
  refine Tries.bind (forkable.create.mono_failed fun _ m₁ ram f _ => by rw [ram]) ?_
  rintro c m₁ ⟨-, cloneable, guarding⟩
  refine Tries.bind (P := fun _ m' => m.Guards G c S m') (Tries.undoing
    ((guarding.cloneRange cloneable concerned).mono_failed ?_)) ?_
  · intro cause m₂ guards
    exact (guards.release c.root).mono fun _ m₃ guards₃ f => guards₃.frame?
  · intro _ m₂ guards
    exact Tries.pure guards

end Machine

end PagedMemory
