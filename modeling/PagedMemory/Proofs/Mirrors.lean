import PagedMemory.Proofs.Memory
import PagedMemory.Proofs.Processes
import PagedMemory.Proofs.Seen

/-!
# Spaces that mirror memories

A space mirrors the memory of its process if each page that is present shows what the memory
holds there, and a page that is missing has not been touched, so that the memory still holds
what the process started with. Nothing outside the slot of the process is present.

`Change.Expected` says when a change leaves all such memories alone: a page that appears is
filled with what was there at first, or shared with a clean page of the same origin. Stores
are the only changes by which a memory is written to (`View.Mirrors.store`).
-/

namespace PagedMemory

/-- The memories of all processes. -/
abbrev Memories := Pid → Contents

/-- What the owner of a space runs and keeps in mind. -/
abbrev Minding := Space → Image → Contents → Prop

namespace Memories

def set (mems : Memories) (pid : Pid) (mem : Contents) : Memories :=
  Function.update mems pid mem

variable {mems : Memories} {pid pid' : Pid} {mem : Contents}

@[simp] theorem set_self : mems.set pid mem pid = mem :=
  Function.update_self ..

theorem set_of_ne (other : pid' ≠ pid) : mems.set pid mem pid' = mems pid' :=
  Function.update_of_ne other ..

@[simp] theorem set_same : mems.set pid (mems pid) = mems :=
  Function.update_eq_self ..

theorem set_set (mem' : Contents) : (mems.set pid mem).set pid mem' = mems.set pid mem' :=
  Function.update_idem ..

end Memories

/-- The space belongs to a process that runs the image and has this memory. -/
def Tasks.Minds (tasks : Tasks) (mems : Memories) : Minding :=
  fun s image mem => ∃ pid p, tasks pid = some p ∧ p.space = s ∧ p.image = some image ∧
    mems pid = mem

namespace Tasks

variable {tasks : Tasks} {mems : Memories} {s : Space} {image : Image} {mem mem' : Contents}
  {pid : Pid} {p : Task}

theorem Minds.owns (minds : tasks.Minds mems s image mem) : tasks.Owns s image := by
  obtain ⟨pid, p, runs, space, shown, -⟩ := minds
  exact ⟨pid, p, runs, space, shown⟩

theorem minds_of_drop (minds : (tasks.drop pid).Minds mems s image mem) :
    tasks.Minds mems s image mem := by
  obtain ⟨pid', q, runs, rest⟩ := minds
  exact ⟨pid', q, (eq_of_drop runs).2, rest⟩

/-- A process that is gone minds its space no more. -/
theorem not_minds_drop (apart : tasks.Apart) (runs : tasks pid = some p) (image : Image)
    (mem : Contents) : ¬ (tasks.drop pid).Minds mems p.space image mem := by
  rintro ⟨pid', q, runs', space, -⟩
  obtain ⟨other, before⟩ := eq_of_drop runs'
  exact other (apart pid' q pid p before runs space)

theorem minds_set (minds : (tasks.set pid p).Minds (mems.set pid mem) s image mem') :
    (tasks.drop pid).Minds mems s image mem' ∨
      s = p.space ∧ p.image = some image ∧ mem' = mem := by
  obtain ⟨pid', q, runs, rfl, shown, rfl⟩ := minds
  by_cases same : pid' = pid
  · subst same
    rw [set_self] at runs
    cases runs
    exact .inr ⟨rfl, shown, Memories.set_self⟩
  · rw [set_of_ne same] at runs
    exact .inl ⟨pid', q, (drop_of_ne same).trans runs, rfl, shown, (Memories.set_of_ne same).symm⟩

end Tasks

/-- What is seen of a page is what the memory holds. A missing page has not been touched. -/
def Image.Mirrors (image : Image) (d : Disk) (mem : Contents) (k : Place) : Option Frame → Prop
  | some b => image.Covers (Place.address k) ∧ b = image.slice mem k
  | none => image.Covers (Place.address k) → image.slice mem k = image.slice (d.initial image) k

/-- Pages that appear for a process hold what its memory did at first, and nothing else of the
memory is changed. -/
def Change.Expected (d : Disk) (owns : Ownership) (minds : Minding) : Change → Prop
  | .fill s k b => ∀ image mem, minds s image mem →
      image.Covers (Place.address k) ∧ b = image.slice (d.initial image) k
  | .share s k s' k' e => ∀ image' mem', minds s' image' mem' →
      e.isClean = true ∧ image'.Covers (Place.address k') ∧ ∃ image executable offset,
        owns s image ∧ image.source? (Place.address k) = some (executable, offset) ∧
          d.page executable image offset = image'.slice (d.initial image') k'
  | .expose s _ | .store s _ _ | .unmap s _ | .create s | .install s _ _ =>
      ∀ image mem, ¬ minds s image mem
  | _ => True

namespace View

variable {v v' : View} {o o' : Owed} {d : Disk} {owns : Ownership} {minds : Minding}

/-- Every space mirrors the memory of its process. -/
def Mirrors (v : View) (d : Disk) (minds : Minding) : Prop :=
  ∀ s ∈ v.live, ∀ image mem, minds s image mem → ∀ k, image.Mirrors d mem k (v.seen s k)

theorem Act.mem_live {c : Change} (act : Act v o c v' o') {s : Space} (hs : s ∈ v'.live)
    (old : c ≠ .create s) : s ∈ v.live := by
  by_cases lasts : ∀ s', c ≠ .create s' ∧ c ≠ .destroy s'
  · rwa [act.live lasts] at hs
  · cases act with
    | @create s' free =>
      refine (Finset.mem_insert.mp hs).resolve_left ?_
      rintro rfl
      exact old rfl
    | destroy => exact Finset.mem_of_mem_erase hs
    | _ => exact absurd (fun _ => ⟨nofun, nofun⟩) lasts

namespace Mirrors

variable {s : Space} {k : Place}

/-- A missing page that belongs to the slot may be filled with what was there at first. -/
theorem appears {image : Image} {mem : Contents} {b : Frame} (mirrors : v.Mirrors d minds)
    (hs : s ∈ v.live) (minded : minds s image mem) (absent : (v.leaf s k).present = false)
    (covers : image.Covers (Place.address k)) (first : b = image.slice (d.initial image) k) :
    image.Mirrors d mem k (some b) := by
  have before := mirrors s hs image mem minded k
  rw [seen_of_absent absent] at before
  exact ⟨covers, first.trans (before covers).symm⟩

/-- A process joins with a space that mirrors its memory, or takes up another memory. -/
theorem join {tasks : Tasks} {mems : Memories} {pid : Pid} {p : Task} {mem : Contents}
    (mirrors : v.Mirrors d ((tasks.drop pid).Minds mems))
    (new : ∀ image, p.image = some image → ∀ k, image.Mirrors d mem k (v.seen p.space k)) :
    v.Mirrors d ((tasks.set pid p).Minds (mems.set pid mem)) := by
  intro s hs image mem' minded k
  rcases Tasks.minds_set minded with before | ⟨rfl, shown, rfl⟩
  · exact mirrors s hs image mem' before k
  · exact new image shown k

/-- Processes may be left out of account. -/
theorem mono {minds' : Minding} (mirrors : v.Mirrors d minds)
    (imp : ∀ s image mem, minds' s image mem → minds s image mem) : v.Mirrors d minds' :=
  fun s hs image mem minded => mirrors s hs image mem (imp s image mem minded)

end Mirrors

/-- A change that is expected leaves every memory mirrored. -/
theorem Act.mirrors {c : Change} (act : Act v o c v' o') (expected : c.Expected d owns minds)
    (sound : v.Sound o) (pristine : v.Pristine d owns) (mirrors : v.Mirrors d minds) :
    v'.Mirrors d minds := by
  intro s hs image mem minded k
  by_cases spares : c.Spares s k
  · have old : c ≠ .create s := by
      rintro rfl
      exact spares rfl
    have hs' := act.mem_live hs old
    rw [act.seen_of_spares sound hs' spares]
    exact mirrors s hs' image mem minded k
  · -- The change is made to this very page.
    cases act with
    | fill hs' absent free =>
      obtain ⟨rfl, rfl⟩ := not_not.mp spares
      obtain ⟨covers, first⟩ := expected image mem minded
      rw [seen_filled_self]
      exact mirrors.appears hs' minded absent covers first
    | share hs₀ hs' present absent =>
      obtain ⟨rfl, rfl⟩ := not_not.mp spares
      obtain ⟨clean, covers, image', executable, offset, owner, backed, page⟩ :=
        expected image mem minded
      rw [seen_aliased_self present, seen_of_present present]
      refine mirrors.appears hs' minded absent covers ?_
      rw [← page]
      exact pristine _ hs₀ image' owner _ executable offset backed clean
    | expose =>
      obtain ⟨rfl, -⟩ := not_not.mp spares
      exact absurd minded (expected image mem)
    | store =>
      obtain ⟨rfl, -⟩ := not_not.mp spares
      exact absurd minded (expected image mem)
    | unmap =>
      obtain ⟨rfl, -⟩ := not_not.mp spares
      exact absurd minded (expected image mem)
    | install =>
      obtain ⟨rfl, -⟩ := not_not.mp spares
      exact absurd minded (expected image mem)
    | create =>
      obtain rfl := not_not.mp spares
      exact absurd minded (expected image mem)
    | destroy =>
      obtain rfl := not_not.mp spares
      exact absurd rfl (Finset.ne_of_mem_erase hs)
    | _ => exact absurd trivial spares

theorem Acts.mirrors {allowed : Change → Prop} (acts : Acts allowed v o v' o')
    (faithful : ∀ c, allowed c → c.Faithful d owns)
    (expected : ∀ c, allowed c → c.Expected d owns minds) (sound : v.Sound o)
    (pristine : v.Pristine d owns) (mirrors : v.Mirrors d minds) : v'.Mirrors d minds :=
  (acts.preserves (P := fun v o => v.Sound o ∧ v.Pristine d owns ∧ v.Mirrors d minds)
    (fun c _ _ _ _ ok act h => ⟨act.sound h.1, act.pristine (faithful c ok) h.1 h.2.1,
      act.mirrors (expected c ok) h.1 h.2.1 h.2.2⟩) ⟨sound, pristine, mirrors⟩).2.2

namespace Mirrors

variable {tasks : Tasks} {mems : Memories} {pid : Pid} {p : Task} {image : Image} {k : Place}

/-- A store writes to the memory of the process whose page it is, and to no other. -/
theorem store {mem : Contents} {b : Frame} (mirrors : v.Mirrors d (tasks.Minds mems))
    (apart : tasks.Apart) (sound : v.Sound o) (runs : tasks pid = some p)
    (shown : p.image = some image) (hs : p.space ∈ v.live)
    (present : (v.leaf p.space k).present = true) (writable : (v.leaf p.space k).writable = true)
    (here : b = image.slice mem k) (elsewhere : ∀ k', image.Covers (Place.address k) →
      image.Covers (Place.address k') → k' ≠ k → image.slice mem k' = image.slice (mems pid) k') :
    (v.setBytes (v.leaf p.space k).frame b).Mirrors d (tasks.Minds (mems.set pid mem)) := by
  have covers : image.Covers (Place.address k) := by
    have before := mirrors p.space hs image (mems pid) ⟨pid, p, runs, rfl, shown, rfl⟩ k
    rw [seen_of_present present] at before
    exact before.1
  rintro s hs' image' mem' ⟨pid', q, runs', rfl, shown', rfl⟩ k'
  have before := mirrors q.space hs' image' (mems pid') ⟨pid', q, runs', rfl, shown', rfl⟩ k'
  by_cases same : pid' = pid
  · subst same
    rw [runs] at runs'
    cases runs'
    rw [shown] at shown'
    cases shown'
    rw [Memories.set_self]
    by_cases place : k' = k
    · subst place
      rw [seen_store_self present]
      exact ⟨covers, here⟩
    · rw [seen_store_of_ne sound hs hs present writable fun h => place h.2]
      cases seen : v.seen p.space k' with
      | none =>
        rw [seen] at before
        exact fun covers' => (elsewhere k' covers covers' place).trans (before covers')
      | some b' =>
        rw [seen] at before
        exact ⟨before.1, before.2.trans (elsewhere k' covers before.1 place).symm⟩
  · have other : q.space ≠ p.space := fun space => same (apart pid' q pid p runs' runs space)
    rw [Memories.set_of_ne same,
      seen_store_of_ne sound hs hs' present writable fun h => other h.1]
    exact before

/-- Bytes that lie in one page of the process are stored in it. -/
theorem write {va : VirtualAddress} {bytes : List UInt8} (mirrors : v.Mirrors d (tasks.Minds mems))
    (apart : tasks.Apart) (sound : v.Sound o) (runs : tasks pid = some p)
    (shown : p.image = some image) (slotted : image.Slotted) (inside : image.Covers va)
    (hs : p.space ∈ v.live) (present : (v.leaf p.space va.splitSlots).present = true)
    (writable : (v.leaf p.space va.splitSlots).writable = true)
    (fits : va.value % 4096 + bytes.length ≤ 4096) :
    (v.setBytes (v.leaf p.space va.splitSlots).frame
      ((v.bytes (v.leaf p.space va.splitSlots).frame).write (va.value % 4096) bytes)).Mirrors d
        (tasks.Minds (mems.set pid
          ((mems pid).overwrite (va.value - image.startCode.value) bytes))) := by
  rw [← Image.position_splitSlots slotted inside]
  refine mirrors.store apart sound runs shown hs present writable ?_
    fun k' covers covers' other => Image.slice_overwrite_of_ne slotted _ covers covers' other fits
  have before := mirrors p.space hs image (mems pid) ⟨pid, p, runs, rfl, shown, rfl⟩ va.splitSlots
  rw [seen_of_present present] at before
  rw [before.2, Image.write_slice]

end Mirrors

end View

/-! ## Spaces that are made or freed -/

namespace View

variable {v v' : View} {o : Owed} {s p : Space} {k : Place} {slots : List Slot}
  {start : VirtualAddress}

theorem seen_eq_page (v : View) (s : Space) (k : Place) :
    v.seen s k = (v.page s k).map fun shown => v.bytes shown.1 := by
  unfold seen page Entry.page
  split <;> rfl

theorem Born.seen_empty (born : v.Born start slots none s v') : v'.seen s k = none := by
  cases born with
  | empty free => exact seen_founded_self

/-- A clone sees what its parent does, in the range that was cloned. -/
theorem Born.seen_clone (born : v.Born start slots (some p) s v') (sound : v.Sound o)
    (live : p ∈ v.live) (distinct : slots.Nodup) (high : 0 < start.value)
    (covered : ∀ i, v.link p i = none → ∀ j, (v.leaf p (i, j)).present = false) :
    v'.seen s k = if k.1 ∈ slots then v'.seen p k else none := by
  cases born with
  | @clone p s w free cloned =>
    have ready := ready_founded sound (.inl live) free distinct
    have apart := ready.apart
    have old (k : Place) : (v.founded s).page p k = v.page p k :=
      congrArg Entry.page (if_neg apart)
    have blank : (v.founded s).page s k = none := by
      have zero : (v.founded s).leaf s k = .zero := if_pos rfl
      rw [View.page, zero]
      rfl
    have pages := cloned.page ready (nodup_clonedEntries start) (Finset.mem_insert_of_mem live)
      fun i vacant j => by
        rw [old]
        exact Entry.page_eq_none_iff.mpr (covered i ((if_neg apart).symm.trans vacant) j)
    have whole : k.2 ∈ Space.clonedEntries start := by
      rw [Space.clonedEntries, if_neg (Nat.pos_iff_ne_zero.mp high)]
      exact mem_allSlots k.2
    show w.seen s k = if k.1 ∈ slots then w.seen p k else none
    have source : w.page p k = (v.founded s).page p k := by
      rw [pages, if_neg fun h => apart h.1]
    rw [seen_eq_page, seen_eq_page, source, pages]
    by_cases inside : k.1 ∈ slots
    · rw [if_pos ⟨rfl, inside, whole⟩, if_pos inside]
    · rw [if_neg fun h => inside h.2.1, if_neg inside, blank]
      rfl

end View

/-! ## What operations may change -/

namespace Environment

variable {env : Environment} {tasks : Tasks} {mems : Memories} {d : Disk} {config : Config}
  {s : Space} {c : Change}

/-- An answer brings the page that was there at first. -/
theorem Serves.expected {va : VirtualAddress} (serves : env.Serves config s va c)
    (describes : env.Describes tasks d) (apart : tasks.Apart) (coherent : tasks.Coherent)
    (owner : env.addressSpace env.current = some s) (zero : config.zeroFill = true)
    (inside : ∀ image, tasks.Runs env.current image → image.Slotted ∧ image.Covers va) :
    c.Expected d tasks.Owns (tasks.Minds mems) := by
  have whole {image : Image} (runs : tasks.Runs env.current image) :
      image.Covers (Place.address va.splitSlots) :=
    (inside image runs).1.covers_place.mpr (inside image runs).2
  cases serves with
  | note => trivial
  | link => trivial
  | permit => trivial
  | copy => trivial
  | @anonymous image b runs unbacked cleared =>
    intro image' mem minded
    obtain rfl := describes.image_unique apart owner runs minded.owns
    have covers := whole (describes.runs runs)
    rw [← Address.place_splitSlots] at unbacked
    exact ⟨covers, (cleared zero).trans (d.slice_initial_of_unbacked covers unbacked).symm⟩
  | @loaded image executable offset before runs backed complete =>
    intro image' mem minded
    obtain rfl := describes.image_unique apart owner runs minded.owns
    have covers := whole (describes.runs runs)
    have aligned := Image.offset_aligned (inside image' (describes.runs runs)).1.isAligned backed
    refine ⟨covers, (describes.reads.loaded_eq_page aligned complete).trans ?_⟩
    rw [← Address.place_splitSlots] at backed
    exact (d.slice_initial_of_backed covers backed).symm
  | @shared image executable offset peer e runs backed asked clean =>
    intro image' mem minded
    obtain rfl := describes.image_unique apart owner runs minded.owns
    have covers := whole (describes.runs runs)
    obtain ⟨image, owns, ends, backed'⟩ := describes.source?_of_peer coherent runs asked backed
    refine ⟨clean, covers, image, executable, offset, owns, backed', (d.page_congr ends).trans ?_⟩
    rw [← Address.place_splitSlots] at backed
    exact (d.slice_initial_of_backed covers backed).symm

theorem Accesses.expected {within : VirtualAddress → Prop}
    (accesses : env.Accesses config within c) (describes : env.Describes tasks d)
    (apart : tasks.Apart) (coherent : tasks.Coherent) (zero : config.zeroFill = true)
    (inside : ∀ va, within va → ∀ image, tasks.Runs env.current image →
      image.Slotted ∧ image.Covers va) : c.Expected d tasks.Owns (tasks.Minds mems) := by
  cases accesses with
  | note => trivial
  | touch => trivial
  | serve owner here serves =>
    exact serves.expected describes apart coherent owner zero (inside _ here)

end Environment

theorem Frees.expected {d : Disk} {owns : Ownership} {minds : Minding} {s : Space}
    {slots : List Slot} {c : Change} (frees : Frees s slots c)
    (unminded : ∀ image mem, ¬ minds s image mem) : c.Expected d owns minds := by
  cases frees with
  | note => trivial
  | unlink => trivial
  | unmap => exact unminded

/-- A space that is made belongs to nobody yet. -/
theorem Creates.expected {d : Disk} {owns : Ownership} {minds : Minding} {live : Finset Space}
    {parent : Option Space} {child : Space} {slots : List Slot} {c : Change}
    (creates : Creates live parent child slots c) (unminded : ∀ image mem, ¬ minds child image mem) :
    c.Expected d owns minds := by
  cases creates with
  | create => exact unminded
  | destroy => trivial
  | free frees => exact frees.expected unminded
  | clone _ clones =>
    cases clones with
    | note => trivial
    | link => trivial
    | share => exact fun image mem minded => absurd minded (unminded image mem)
    | expose => exact unminded

end PagedMemory
