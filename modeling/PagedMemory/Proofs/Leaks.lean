import PagedMemory.Proofs.Halting

/-!
# What an exit leaves behind

A fault is answered wherever a process touches memory, but when its space is destroyed only
one range of it is freed. Every reference that the space makes from outside that range stays
counted, although nobody knows of it any more.

A `Lifetime` runs from the birth of a space over the requests of its process, between which
others are born, served and destroyed. Page tables appear only where the process asks for
pages (`Lifetime.living`), so a process that stays within its range leaves nothing behind
when it exits, and one that does not leaves exactly what it made outside.
-/

namespace PagedMemory

open Finset

instance (start : VirtualAddress) (size : Nat) : DecidablePred (InRange start size) :=
  fun _ => inferInstanceAs (Decidable (_ ∧ _))

/-- How many links and entries of a space outside a range refer to a frame. -/
def strayReferences (r : Ram) (s : Space) (start : VirtualAddress) (size : Nat) : Owed :=
  fun f => #{i : Slot | ¬ InRange start size i ∧ s.link r i = some f} +
    #{k : Place | ¬ InRange start size k.1 ∧ (s.leaf r k).target = some f}

/-- The count of every frame that is handed out is the number of references that live spaces
make to it and of those that are owed. -/
def Machine.Accounts (m : Machine) (live : Finset Space) (owed : Owed) : Prop :=
  ∀ f, m.pool.manages f = true → m.pool.count f = rootReferences live f +
    linkReferences m.ram live f + leafReferences m.ram live f + owed f

theorem Machine.accounts_of_sound {m : Machine} {live : Finset Space} {owed : Owed}
    (sound : (m.view live).Sound owed) : m.Accounts live owed := by
  intro f managed
  have counted := sound.counted f managed
  rwa [(m.shows_view live).references] at counted

theorem Machine.strays_view {m : Machine} {live : Finset Space} {s : Space}
    {start : VirtualAddress} {size : Nat} {slots : List Slot}
    (range : rangeSlots .free start size = .ok slots) :
    (m.view live).strays s slots = strayReferences m.ram s start size := by
  funext f
  have outside (i : Slot) (target : Option FrameId) : (if i ∈ slots then 0 else hits target f) =
      if ¬ InRange start size i ∧ target = some f then 1 else 0 := by
    have same := mem_rangeSlots_iff range (i := i)
    by_cases inside : InRange start size i
    · rw [if_pos (same.mpr inside), if_neg fun h => h.1 inside]
    · rw [if_neg fun h => inside (same.mp h), hits]
      simp only [inside, not_false_eq_true, true_and]
  rw [View.strays, sum_cells, strayReferences, Finset.card_filter, Finset.card_filter,
    if_pos (show Cell.root.Under slots from trivial), Nat.zero_add]
  refine congrArg₂ (· + ·) ?_ ?_
  · exact Finset.sum_congr rfl fun i _ => outside i _
  · exact Finset.sum_congr rfl fun k _ => outside k.1 _

/-! ## Where page tables appear -/

namespace View

variable {v v' : View} {o o' : Owed} {s : Space} {i : Slot}

/-- A page table appears only where one is linked. -/
theorem Act.link_eq_none {c : Change} (act : Act v o c v' o') (vacant : v.link s i = none)
    (other : c ≠ .link s i) : v'.link s i = none := by
  cases act with
  | @link s' i' t hs _ free =>
    rw [link_linked, if_neg]
    · exact vacant
    · rintro ⟨rfl, rfl⟩
      exact other rfl
  | share => rwa [link_aliased]
  | unmap => rwa [link_unmapped]
  | unlink =>
    rw [link_unlinked]
    split
    · rfl
    · exact vacant
  | create =>
    show (if _ then none else v.link s i) = none
    rw [vacant, ite_self]
  | install => rwa [link_remap]
  | _ => exact vacant

theorem Acts.link_eq_none {allowed : Change → Prop} (acts : Acts allowed v o v' o')
    (vacant : v.link s i = none) (other : ¬ allowed (.link s i)) : v'.link s i = none := by
  induction acts with
  | refl => exact vacant
  | tail _ ok act ih => exact act.link_eq_none ih fun same => other (same ▸ ok)

/-- A new space has page tables in the slots that were cloned. -/
theorem Born.link_eq_none {start : VirtualAddress} {slots : List Slot} {parent : Option Space}
    (born : v.Born start slots parent s v') (outside : i ∉ slots) : v'.link s i = none := by
  cases born with
  | empty => exact if_pos rfl
  | clone free cloned => exact (cloned.link_of_not_mem outside).trans (if_pos rfl)

end View

theorem Creates.child_of_link {live : Finset Space} {parent : Option Space} {child s : Space}
    {slots : List Slot} {i : Slot} (h : Creates live parent child slots (.link s i)) : s = child := by
  cases h with
  | clone _ clones =>
    cases clones
    rfl
  | free frees => cases frees

theorem Environment.Stores.of_link {env : Environment} {config : Config}
    {within : VirtualAddress → Prop} {s : Space} {i : Slot}
    (h : env.Stores config within (.link s i)) :
    env.addressSpace env.current = some s ∧ ∃ va, within va ∧ i = va.directorySlot := by
  cases h with
  | access accesses =>
    cases accesses with
    | @serve s' va c owner inside serves =>
      cases serves
      exact ⟨owner, va, inside, rfl⟩

/-! ## From birth to exit -/

/-- The states in the lifetime of a space that was born for a range, and whose process asks
for pages in some directory slots only. Others are born, served and destroyed in between, and
hand pages to their spaces. What is owed are the references that somebody else holds, and those
that earlier exits have left behind. -/
inductive Lifetime (s : Space) (start : VirtualAddress) (size : Nat) (within : Slot → Prop) :
    Machine → Finset Space → Owed → Prop
  | birth {m m' : Machine} {live : Finset Space} {owed : Owed} {parent : Option Space}
      (sound : (m.view live).Sound owed) (ok : ∀ p, parent = some p → p ∈ live)
      (run : outcome (Space.createFrom parent start size) m = .ok (.ok s, m')) :
      Lifetime s start size within m' (insert s live) owed
  | request {m m' : Machine} {live : Finset Space} {owed : Owed} {env : Environment} {c : Request}
      (before : Lifetime s start size within m live owed) (named : env.Names live)
      (inside : env.addressSpace env.current = some s →
        ∀ va, c.Touches va → within va.directorySlot)
      (run : c.serve env m = .ok ((), m')) : Lifetime s start size within m' live owed
  | create {m m' : Machine} {live : Finset Space} {owed : Owed} {parent : Option Space}
      {child : Space} {start' : VirtualAddress} {size' : Nat}
      (before : Lifetime s start size within m live owed) (ok : ∀ p, parent = some p → p ∈ live)
      (run : outcome (Space.createFrom parent start' size') m = .ok (.ok child, m')) :
      Lifetime s start size within m' (insert child live) owed
  | createFailed {m m' : Machine} {live : Finset Space} {owed : Owed} {parent : Option Space}
      {start' : VirtualAddress} {size' : Nat} {cause : MemoryError}
      (before : Lifetime s start size within m live owed) (ok : ∀ p, parent = some p → p ∈ live)
      (run : outcome (Space.createFrom parent start' size') m = .ok (.error cause, m')) :
      Lifetime s start size within m' live owed
  | clear {m m' : Machine} {live : Finset Space} {owed : Owed} {s' : Space}
      {start' : VirtualAddress} {size' : Nat} (before : Lifetime s start size within m live owed)
      (hs : s' ∈ live) (run : s'.clear start' size' m = .ok ((), m')) :
      Lifetime s start size within m' live owed
  | destroy {m m' : Machine} {live : Finset Space} {owed : Owed} {s' : Space}
      {start' : VirtualAddress} {size' : Nat} (before : Lifetime s start size within m live owed)
      (hs : s' ∈ live) (other : s' ≠ s) (run : s'.destroy start' size' m = .ok ((), m')) :
      Lifetime s start size within m' (live.erase s')
        (owed + strayReferences m.ram s' start' size')
  | hold {m m' : Machine} {live : Finset Space} {owed : Owed} {f : FrameId}
      (before : Lifetime s start size within m live owed)
      (run : outcome allocPage m = .ok (.ok f, m')) :
      Lifetime s start size within m' live (owed + hits (some f))
  | holdFailed {m m' : Machine} {live : Finset Space} {owed : Owed} {cause : MemoryError}
      (before : Lifetime s start size within m live owed)
      (run : outcome allocPage m = .ok (.error cause, m')) :
      Lifetime s start size within m' live owed
  | yield {m m' : Machine} {live : Finset Space} {owed : Owed} {f : FrameId}
      (before : Lifetime s start size within m live (owed + hits (some f)))
      (managed : m.pool.manages f = true) (run : release f m = .ok ((), m')) :
      Lifetime s start size within m' live owed
  | install {m m' : Machine} {live : Finset Space} {owed : Owed} {s' : Space}
      {start' : VirtualAddress} {pages : List (Option FrameId)} {result : Except MemoryError Unit}
      (before : Lifetime s start size within m live (owed + tally (pages.filterMap id)))
      (hs : s' ∈ live) (other : s' ≠ s) (distinct : (pages.filterMap id).Nodup)
      (single : ∀ f ∈ pages.filterMap id, m.pool.manages f = true ∧ m.pool.count f = 1)
      (vacant : ∀ i page va, pages[i]? = some (some page) → Space.ArgumentAt start' i va →
        ¬ s'.Maps m.ram va)
      (run : outcome (s'.installArguments start' pages) m = .ok (result, m')) :
      Lifetime s start size within m' live owed

/-- The machine is sound and the space lives, with page tables only where it was born with
them or its process asked for pages. -/
structure Living (s : Space) (start : VirtualAddress) (size : Nat) (within : Slot → Prop)
    (m : Machine) (live : Finset Space) (owed : Owed) : Prop where
  sound : (m.view live).Sound owed
  mem : s ∈ live
  vacant : ∀ i, ¬ InRange start size i → ¬ within i → s.link m.ram i = none

namespace Living

variable {s : Space} {start : VirtualAddress} {size : Nat} {within : Slot → Prop}
  {m m' : Machine} {live live' : Finset Space} {owed owed' : Owed} {v' : View}

/-- Changes that link page tables of the space only where its process asks for pages. -/
theorem acts {allowed : Change → Prop} (living : Living s start size within m live owed)
    (acts : View.Acts allowed (m.view live) owed v' owed') (shows : m'.Shows v')
    (same : v'.live = live') (mem : s ∈ live')
    (links : ∀ i, allowed (.link s i) → InRange start size i ∨ within i) :
    Living s start size within m' live' owed' where
  sound := same ▸ shows.sound_view (acts.sound living.sound)
  mem := mem
  vacant i outside spared := by
    rw [shows.link s (same ▸ mem)]
    exact acts.link_eq_none (living.vacant i outside spared) fun ok =>
      (links i ok).elim outside spared

theorem birth {parent : Option Space} (sound : (m.view live).Sound owed)
    (ok : ∀ p, parent = some p → p ∈ live)
    (run : outcome (Space.createFrom parent start size) m = .ok (.ok s, m')) :
    Living s start size within m' (insert s live) owed := by
  have parents : ∀ p, parent = some p → (m.view live).Parent p := fun p h => .inl (ok p h)
  obtain ⟨slots, v', range, distinct, born, shows⟩ :=
    ((m.shows_view live).createFrom sound parents start size).done_of_run run
  have same : v'.live = insert s live := born.live sound parents distinct
  refine ⟨?_, mem_insert_self s live, fun i outside _ => ?_⟩
  · exact same ▸ shows.sound_view ((born.acts sound parents distinct).sound sound)
  · rw [shows.link s (same ▸ mem_insert_self s live)]
    cases born with
    | empty => exact if_pos rfl
    | clone free cloned =>
      refine View.Born.link_eq_none (.clone free cloned) fun inside => outside ?_
      exact (mem_rangeSlots_iff (range nofun)).mp inside

theorem request {env : Environment} {c : Request}
    (living : Living s start size within m live owed) (named : env.Names live)
    (inside : env.addressSpace env.current = some s →
      ∀ va, c.Touches va → within va.directorySlot)
    (run : c.serve env m = .ok ((), m')) : Living s start size within m' live owed := by
  obtain ⟨w, leads, shows⟩ := ((m.shows_view live).request living.sound named c).of_run run
  have same : w.live = live := (leads.acts owed).live fun _ h => h.lasting
  refine living.acts (leads.acts owed) shows same living.mem ?_
  intro i stores
  obtain ⟨owner, va, touched, rfl⟩ := stores.of_link
  exact .inr (inside owner va touched)

theorem create {parent : Option Space} {child : Space} {start' : VirtualAddress} {size' : Nat}
    (living : Living s start size within m live owed) (ok : ∀ p, parent = some p → p ∈ live)
    (run : outcome (Space.createFrom parent start' size') m = .ok (.ok child, m')) :
    Living s start size within m' (insert child live) owed := by
  have parents : ∀ p, parent = some p → (m.view live).Parent p := fun p h => .inl (ok p h)
  obtain ⟨slots, v', range, distinct, born, shows⟩ :=
    ((m.shows_view live).createFrom living.sound parents start' size').done_of_run run
  have fresh : child ∉ live := born.fresh living.sound
  refine living.acts (born.acts living.sound parents distinct) shows
    (born.live living.sound parents distinct) (mem_insert_of_mem living.mem) ?_
  intro i creates
  exact absurd (creates.child_of_link ▸ living.mem) fresh

theorem createFailed {parent : Option Space} {start' : VirtualAddress} {size' : Nat}
    {cause : MemoryError} (living : Living s start size within m live owed)
    (ok : ∀ p, parent = some p → p ∈ live)
    (run : outcome (Space.createFrom parent start' size') m = .ok (.error cause, m')) :
    Living s start size within m' live owed := by
  have parents : ∀ p, parent = some p → (m.view live).Parent p := fun p h => .inl (ok p h)
  obtain ⟨v', same, rfl | ⟨child, slots, free, acts⟩, shows⟩ :=
    ((m.shows_view live).createFrom living.sound parents start' size').failed_of_run run
  · have nothing : View.Acts (fun _ => False) (m.view live) owed (m.view live) owed := .refl
    exact living.acts nothing shows rfl living.mem fun _ => False.elim
  · have fresh : child ∉ live := living.sound.fresh free
    refine living.acts acts shows same living.mem ?_
    intro i creates
    exact absurd (creates.child_of_link ▸ living.mem) fresh

theorem clear {s' : Space} {start' : VirtualAddress} {size' : Nat}
    (living : Living s start size within m live owed) (hs : s' ∈ live)
    (run : s'.clear start' size' m = .ok ((), m')) : Living s start size within m' live owed := by
  obtain ⟨slots, -, shows⟩ :=
    ((m.shows_view live).clear living.sound hs start' size').of_run run
  have freed : View.Acts (Frees s' slots) (m.view live) owed
      ((m.view live).freed s' slots).flushed owed := (View.acts_freed hs fun _ h => h).flushed .note
  exact living.acts freed shows (freed.live fun _ h => h.lasting) living.mem nofun

theorem destroy {s' : Space} {start' : VirtualAddress} {size' : Nat}
    (living : Living s start size within m live owed) (hs : s' ∈ live) (other : s' ≠ s)
    (run : s'.destroy start' size' m = .ok ((), m')) :
    Living s start size within m' (live.erase s')
      (owed + strayReferences m.ram s' start' size') := by
  obtain ⟨slots, v', range, acts, same, shows⟩ :=
    ((m.shows_view live).destroy living.sound hs start' size').of_run run
  rw [Machine.strays_view range] at acts
  refine living.acts acts shows same (mem_erase_of_ne_of_mem other.symm living.mem) ?_
  rintro i (frees | same)
  · cases frees
  · cases same

theorem hold {f : FrameId} (living : Living s start size within m live owed)
    (run : outcome allocPage m = .ok (.ok f, m')) :
    Living s start size within m' live (owed + hits (some f)) := by
  obtain ⟨free, shows⟩ := ((m.shows_view live).allocPage living.sound).done_of_run run
  have held : View.Acts (· = .hold f) (m.view live) owed ((m.view live).grant f Frame.zero)
      (owed + hits (some f)) := .single rfl (.hold free)
  exact living.acts held shows rfl living.mem nofun

theorem holdFailed {cause : MemoryError} (living : Living s start size within m live owed)
    (run : outcome allocPage m = .ok (.error cause, m')) :
    Living s start size within m' live owed := by
  obtain ⟨-, -, shows⟩ := ((m.shows_view live).allocPage living.sound).failed_of_run run
  have nothing : View.Acts (fun _ => False) (m.view live) owed (m.view live) owed := .refl
  exact living.acts nothing shows rfl living.mem fun _ => False.elim

theorem yield {f : FrameId} (living : Living s start size within m live (owed + hits (some f)))
    (managed : m.pool.manages f = true) (run : release f m = .ok ((), m')) :
    Living s start size within m' live owed := by
  have held : 0 < (owed + hits (some f)) f := by
    rw [Pi.add_apply, hits_self]
    exact Nat.succ_pos _
  have shows := ((m.shows_view live).freePage living.sound managed held).of_run run
  have given : View.Acts (· = .yield f) (m.view live) (owed + hits (some f))
      ((m.view live).release f) owed := .single rfl (.yield rfl)
  exact living.acts given shows rfl living.mem nofun

theorem install {s' : Space} {start' : VirtualAddress} {pages : List (Option FrameId)}
    {result : Except MemoryError Unit}
    (living : Living s start size within m live (owed + tally (pages.filterMap id)))
    (hs : s' ∈ live) (other : s' ≠ s) (distinct : (pages.filterMap id).Nodup)
    (single : ∀ f ∈ pages.filterMap id, m.pool.manages f = true ∧ m.pool.count f = 1)
    (vacant : ∀ i page va, pages[i]? = some (some page) → Space.ArgumentAt start' i va →
      ¬ s'.Maps m.ram va)
    (run : outcome (s'.installArguments start' pages) m = .ok (result, m')) :
    Living s start size within m' live owed := by
  have holds : (m.view live).Holds (pages.filterMap id) :=
    ⟨distinct, fun f h => (single f h).1, fun f h => (single f h).2⟩
  have done : Machine.Shows.Installed (m.view live) owed s' start' pages pages.length m' := by
    have shows := m.shows_view live
    cases result with
    | ok => exact (shows.installArguments hs living.sound holds).done_of_run run
    | error => exact (shows.installArguments hs living.sound holds).failed_of_run run
  obtain ⟨v', lost, acts, none_lost, shows⟩ := done
  rw [numbered, List.take_length, none_lost ?_, add_zero] at acts
  · refine living.acts acts shows (acts.live fun _ h => h.lasting) living.mem ?_
    intro i installs
    cases installs
    exact absurd rfl other
  · intro i f va _ found place
    have unmapped := vacant i f va found place
    rwa [Space.Maps, (m.shows_view live).leaf s' hs, Bool.not_eq_true] at unmapped

end Living

/-- Whatever happens in a lifetime, the machine stays sound and page tables appear only where
the process asks for pages. -/
theorem Lifetime.living {s : Space} {start : VirtualAddress} {size : Nat} {within : Slot → Prop}
    {m : Machine} {live : Finset Space} {owed : Owed}
    (lifetime : Lifetime s start size within m live owed) :
    Living s start size within m live owed := by
  induction lifetime with
  | birth sound ok run => exact .birth sound ok run
  | request _ named inside run ih => exact ih.request named inside run
  | create _ ok run ih => exact ih.create ok run
  | createFailed _ ok run ih => exact ih.createFailed ok run
  | clear _ hs run ih => exact ih.clear hs run
  | destroy _ hs other run ih => exact ih.destroy hs other run
  | hold _ run ih => exact ih.hold run
  | holdFailed _ run ih => exact ih.holdFailed run
  | yield _ managed run ih => exact ih.yield managed run
  | install _ hs other distinct single vacant run ih =>
    exact ih.install hs other distinct single vacant run

/-- There are no references from outside a range exactly if no page tables are linked there. -/
theorem strayReferences_eq_zero_iff {m : Machine} {s : Space} {start : VirtualAddress}
    {size : Nat} : strayReferences m.ram s start size = 0 ↔
      ∀ i, s.link m.ram i ≠ none → InRange start size i := by
  constructor
  · intro zero i linked
    by_contra outside
    obtain ⟨t, same⟩ := Option.ne_none_iff_exists'.mp linked
    have count := congrFun zero t
    rw [strayReferences, Pi.zero_apply, Nat.add_eq_zero_iff, card_eq_zero, card_eq_zero] at count
    exact filter_eq_empty_iff.mp count.1 (mem_univ i) ⟨outside, same⟩
  · intro covers
    have links (f : FrameId) : #{i | ¬ InRange start size i ∧ s.link m.ram i = some f} = 0 := by
      rw [card_eq_zero, filter_eq_empty_iff]
      rintro i - ⟨outside, linked⟩
      exact outside (covers i (by simp [linked]))
    have leaves (f : FrameId) :
        #{k : Place | ¬ InRange start size k.1 ∧ (s.leaf m.ram k).target = some f} = 0 := by
      rw [card_eq_zero, filter_eq_empty_iff]
      rintro k - ⟨outside, maps⟩
      refine outside (covers k.1 fun vacant => ?_)
      rw [Space.leaf_of_vacant (j := k.2) vacant] at maps
      cases maps
    funext f
    rw [strayReferences, links, leaves]
    rfl

/-- When a space is destroyed at the end of its lifetime, the counts are the references of the
other spaces and what was owed before, and those that the space made outside the range that is
freed. There are none if its process asked for pages in the range only, and there are some as
soon as a page table is linked outside. -/
theorem exit_leaves_strays {s : Space} {start : VirtualAddress} {size : Nat} {within : Slot → Prop}
    {m : Machine} {live : Finset Space} {owed : Owed} {slots : List Slot}
    (lifetime : Lifetime s start size within m live owed)
    (range : rangeSlots .free start size = .ok slots) :
    Ends (s.destroy start size) m Exhausts (fun _ m' =>
      m'.Accounts (live.erase s) (owed + strayReferences m.ram s start size)) ∧
    ((∀ i, within i → InRange start size i) → strayReferences m.ram s start size = 0) ∧
    (strayReferences m.ram s start size = 0 ↔
      ∀ i, s.link m.ram i ≠ none → InRange start size i) := by
  have living := lifetime.living
  refine ⟨?_, fun confined => ?_, strayReferences_eq_zero_iff⟩
  · refine ((m.shows_view live).destroyRange living.sound living.mem range).mono ?_
    rintro _ m' ⟨v', acts, same, -, shows⟩
    rw [Machine.strays_view range] at acts
    have sound := shows.sound_view (acts.sound living.sound)
    rw [same] at sound
    exact Machine.accounts_of_sound sound
  · rw [strayReferences_eq_zero_iff]
    intro i linked
    by_contra outside
    exact linked (living.vacant i outside fun touched => outside (confined i touched))

section Tiny

def strayStart : VirtualAddress :=
  Slot.base 16

/-- A process whose memory starts at 64 MiB, without an executable. -/
def strayUser : Environment :=
  .solitary 1 (some tinySpace) (some ⟨none, strayStart, 0, 0, 0⟩)

def strayBorn : Machine :=
  Machine.tiny.after (Space.createFrom none strayStart taskSize)

/-- The process has touched its memory at address zero. -/
def strayTouched : Machine :=
  strayBorn.after (liftM ((Request.fault .notPresent .zero).serve strayUser))

/-- The process has exited, and its memory from 64 MiB on has been freed. -/
def strayGone : Machine :=
  strayTouched.after (liftM (tinySpace.destroy strayStart taskSize))

theorem lifetime_strayTouched {within : Slot → Prop} (zero : within 0) :
    Lifetime tinySpace strayStart taskSize within strayTouched (insert tinySpace ∅)
      Layout.tiny.reserve := by
  obtain ⟨valid, shows⟩ := Machine.shows_boot Machine.boot_tiny
  have sound : (Machine.tiny.view ∅).Sound Layout.tiny.reserve :=
    shows.sound_view (View.sound_initial valid)
  have born : Lifetime tinySpace strayStart taskSize within strayBorn (insert tinySpace ∅)
      Layout.tiny.reserve :=
    .birth sound (fun _ h => by cases h) (Machine.run_of_product (by decide +kernel))
  refine .request born (Environment.names_solitary (mem_insert_self _ _) 1 _) ?_
    (Machine.run_of_lift (by decide +kernel))
  rintro - va rfl
  exact zero

end Tiny

theorem exit_leaves_strays_tiny :
    Lifetime tinySpace strayStart taskSize (fun i => i = 0) strayTouched (insert tinySpace ∅)
      Layout.tiny.reserve ∧
    rangeSlots .free strayStart taskSize = .ok ((allSlots.drop 16).take 16) ∧
    Ends (tinySpace.destroy strayStart taskSize) strayTouched Exhausts fun _ m' =>
      m'.Accounts ((insert tinySpace ∅ : Finset Space).erase tinySpace)
        (Layout.tiny.reserve + strayReferences strayTouched.ram tinySpace strayStart taskSize) := by
  have lifetime : Lifetime tinySpace strayStart taskSize (fun i => i = 0) strayTouched
      (insert tinySpace ∅) Layout.tiny.reserve := lifetime_strayTouched rfl
  have range : rangeSlots .free strayStart taskSize = .ok ((allSlots.drop 16).take 16) := rfl
  exact ⟨lifetime, range, (exit_leaves_strays lifetime range).1⟩

/-- A space that is destroyed may leave references behind. -/
theorem exit_can_leak :
    ¬ ∀ (s : Space) (start : VirtualAddress) (size : Nat) (m m' : Machine) (live : Finset Space)
      (owed : Owed), Lifetime s start size (fun _ => True) m live owed →
        s.destroy start size m = .ok ((), m') → m'.Accounts (live.erase s) owed := by
  intro always
  have run : tinySpace.destroy strayStart taskSize strayTouched = .ok ((), strayGone) :=
    Machine.run_of_lift (by decide +kernel)
  have accounts := always _ _ _ _ _ _ _ (lifetime_strayTouched trivial) run
  have empty : (insert tinySpace ∅ : Finset Space).erase tinySpace = ∅ := rfl
  rw [empty] at accounts
  have counted := accounts ⟨3, by decide⟩ (by decide +kernel)
  have one : strayGone.pool.count ⟨3, by decide⟩ = 1 := by decide +kernel
  have unreserved : Layout.tiny.reserve ⟨3, by decide⟩ = 0 := by decide
  rw [one, unreserved, rootReferences, linkReferences, leafReferences, sum_empty, sum_empty,
    filter_empty, card_empty] at counted
  exact Nat.one_ne_zero counted

end PagedMemory
