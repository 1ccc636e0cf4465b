import PagedMemory.Proofs.Disk
import PagedMemory.Proofs.Faults
import PagedMemory.Proofs.Twins

/-!
# Faults on twin machines

Environments are alike if they name corresponding spaces and agree on everything else.
Faults on twin machines in alike environments are answered in the same way, or fail with
the same error after the same blocks were read.

The two runs take the same turns because these depend on flags, counts and offsets alone.
The bytes of a frame that was taken are never looked at: it is cleared, filled from four
blocks or overwritten with a copy before it is mapped.
-/

namespace PagedMemory

/-- The environments name corresponding spaces and agree on everything else. -/
structure Environment.Alike (c : Pairs) (env env' : Environment) : Prop where
  current : env'.current = env.current
  processes : env'.processes = env.processes
  image : env'.image = env.image
  openCount : env'.openCount = env.openCount
  device : env'.device = env.device
  blockMap : env'.blockMap = env.blockMap
  readBlock : env'.readBlock = env.readBlock
  named : ∀ pid, Option.Rel c.spaces (env.addressSpace pid) (env'.addressSpace pid)

namespace Environment.Alike

variable {c : Pairs} {env env' : Environment}

theorem pageRead (alike : env.Alike c env') (executable : ExecutableId) (offset : Nat)
    (before : Frame) :
    env'.pageRead executable offset before = env.pageRead executable offset before := by
  rw [Environment.pageRead, alike.readBlock, alike.device, alike.blockMap]
  rfl

theorem loaded (alike : env.Alike c env') (image : Image) (executable : ExecutableId) (offset : Nat)
    (before : Frame) :
    env'.loaded image executable offset before = env.loaded image executable offset before := by
  rw [Environment.loaded, alike.pageRead]
  rfl

/-- The same peers are asked, at the same addresses of corresponding spaces. -/
theorem peers (alike : env.Alike c env') (pid : Pid) (executable : ExecutableId) (offset : Nat) :
    List.Forall₂ (fun a b => b.1 = a.1 ∧ c.spaces a.2.1 b.2.1 ∧ b.2.2 = a.2.2)
      (env.peers pid executable offset) (env'.peers pid executable offset) := by
  unfold Environment.peers
  rw [alike.processes, alike.image]
  refine List.rel_filterMap (R := Eq) ?_ (List.forall₂_refl _)
  rintro other _ rfl
  dsimp only
  split
  · exact .none
  · have named := alike.named other
    generalize env.addressSpace other = space at named ⊢
    generalize env'.addressSpace other = space' at named ⊢
    cases env.image other with
    | none => exact .none
    | some image =>
      cases named with
      | none => exact .none
      | some named =>
        dsimp only
        split
        · cases image.startCode.add? offset with
          | none => exact .none
          | some address => exact .some ⟨rfl, named, rfl⟩
        · exact .none

end Environment.Alike

namespace View

variable {c : Pairs} {o : Owed} {ρ : Renaming} {v v' w w' : View} {s s' a a' : Space} {k k' : Place}

/-- How a write to a present page is answered. -/
theorem Unshares.how_eq {how : Resolution} (unshares : v.Unshares s k how v') :
    how = if (v.leaf s k).writable then .spurious
      else if v.tracks (v.leaf s k).frame = true ∧ v.count (v.leaf s k).frame = 1 then .madeWritable
      else .copied := by
  cases unshares with
  | spurious _ writable => rw [if_pos writable]
  | madeWritable _ protect tracked one =>
    rw [if_neg (Bool.not_eq_true _ ▸ protect), if_pos ⟨tracked, one⟩]
  | copied _ protect shared => rw [if_neg (Bool.not_eq_true _ ▸ protect), if_neg shared]

theorem Unshares.present {how : Resolution} (unshares : v.Unshares s k how v') :
    (v.leaf s k).present = true := by
  cases unshares <;> assumption

/-- The page has to be copied and there is no frame left for the copy. -/
def Stuck (v : View) (s : Space) (k : Place) : Prop :=
  (v.leaf s k).present = true ∧ (v.leaf s k).writable = false ∧
    ¬ (v.tracks (v.leaf s k).frame = true ∧ v.count (v.leaf s k).frame = 1) ∧ ∀ f, ¬ v.Free f

theorem Unshares.not_stuck {how : Resolution} (unshares : v.Unshares s k how v') :
    ¬ v.Stuck s k := by
  rintro ⟨-, protect, shared, full⟩
  cases unshares with
  | spurious _ writable =>
    rw [protect] at writable
    cases writable
  | madeWritable _ _ tracked one => exact shared ⟨tracked, one⟩
  | copied _ _ _ free => exact full _ free

theorem Alike.only_reference {held : FrameId → Prop} {f : FrameId} (alike : v.Alike ρ held w) :
    (w.tracks (ρ f) = true ∧ w.count (ρ f) = 1) ↔ (v.tracks f = true ∧ v.count f = 1) := by
  rw [alike.tracks']
  refine and_congr_right fun tracked => ?_
  rw [alike.count f tracked]

theorem Alike.stuck_iff {held : FrameId → Prop} (alike : v.Alike ρ held w) (hs : s ∈ v.live) :
    w.Stuck (s.rename ρ) k ↔ v.Stuck s k := by
  unfold Stuck
  rw [alike.leaf s hs, Entry.present_rename, Entry.writable_rename]
  refine and_congr_right fun present => and_congr_right fun _ => ?_
  rw [Entry.frame_rename present, alike.only_reference]
  exact and_congr_right fun _ => ⟨alike.no_free, alike.no_free'⟩

theorem Alike.shareable {held : FrameId → Prop} (alike : v.Alike ρ held w) (hs : s ∈ v.live) :
    w.shareable (s.rename ρ) k = v.shareable s k := by
  unfold View.shareable
  rw [alike.leaf s hs, Entry.isClean_rename]
  cases clean : (v.leaf s k).isClean with
  | false => rfl
  | true =>
    have present := (Bool.and_eq_true_iff.mp clean).1
    rw [Entry.frame_rename present, alike.tracks']

namespace Twins

/-- A write to a present page is answered in the same way on both sides. -/
theorem unshares {how how' : Resolution} (t : v.Twins c o ρ w) (h : c.spaces s s')
    (unshares : v.Unshares s k how v') (unshares' : w.Unshares s' k how' w') :
    how' = how ∧ ∃ ρ' : Renaming, v'.Twins c o ρ' w' := by
  obtain ⟨hs, renamed⟩ := t.space s s' h
  have same : how' = how := by
    rw [unshares.how_eq, unshares'.how_eq, renamed, t.alike.leaf s hs, Entry.writable_rename,
      Entry.frame_rename unshares.present]
    simp only [t.alike.only_reference]
  subst same
  refine ⟨rfl, ?_⟩
  cases unshares with
  | spurious =>
    cases unshares'
    exact ⟨ρ, t.flushed⟩
  | madeWritable present protect tracked one =>
    cases unshares'
    subst renamed
    rw [t.alike.leaf s hs, ← Entry.rename_madeWritable]
    exact ⟨ρ, (t.act (.permit hs tracked one) trivial (t.alike.reflagged hs rfl)).flushed⟩
  | copied present _ _ free =>
    cases unshares' with
    | copied _ _ _ free' =>
      obtain ⟨ρ', t'⟩ := t.copied h present free free'
      exact ⟨ρ', t'.flushed⟩

/-- A page is mapped from another space on both sides. -/
theorem shares (t : v.Twins c o ρ w) (h : c.spaces s s') (ha : c.spaces a a')
    (shares : v.Shares a k' s k v') (shares' : w.Shares a' k' s' k w') :
    ∃ ρ' : Renaming, v'.Twins c o ρ' w' := by
  obtain ⟨ready, absent, covers⟩ := shares
  obtain ⟨-, -, covers'⟩ := shares'
  obtain ⟨ρ', t'⟩ := t.covers h covers covers'
  obtain ⟨hs, rfl⟩ := t'.space s s' h
  obtain ⟨hsource, rfl⟩ := t'.space a a' ha
  rw [← covers.leaf] at absent
  have present := present_of_shareable ready
  rw [← covers.leaf] at present
  exact ⟨ρ', (t'.act (.share hsource hs present absent) trivial
    (t'.alike.aliased hsource present)).flushed⟩

end Twins

end View

namespace Twins

variable {c : Pairs} {m n : Machine} {s s' a a' : Space}

theorem unsharePage (h : c.spaces s s') (va : VirtualAddress) :
    ConcurTry (Twins c) (PagedMemory.unsharePage s va) (PagedMemory.unsharePage s' va) := by
  refine .of_both ?_
  rintro m n ⟨o, ρ, v, w, t, shows, shows'⟩
  obtain ⟨hs, renamed⟩ := t.space s s' h
  have hs' := (t.live h).2
  have present : (w.leaf s' va.splitSlots).present = (v.leaf s va.splitSlots).present := by
    rw [renamed, t.alike.leaf s hs, Entry.present_rename]
  have stuck : w.Stuck s' va.splitSlots ↔ v.Stuck s va.splitSlots :=
    renamed ▸ t.alike.stuck_iff hs
  refine BothTry.of_tries (shows.unsharePage t.sound hs va) (shows'.unsharePage t.sound' hs' va)
    ?_ ?_ ?_ ?_
  · rintro (_ | how) (_ | how') m' n' post post'
    · exact ⟨rfl, o, ρ, v, w, t, post.2, post'.2⟩
    · obtain ⟨w', unshares', -⟩ := post'
      rw [unshares'.present, post.1] at present
      cases present
    · obtain ⟨v', unshares, -⟩ := post
      rw [unshares.present, post'.1] at present
      cases present
    · obtain ⟨v', unshares, h₁⟩ := post
      obtain ⟨w', unshares', h₁'⟩ := post'
      obtain ⟨rfl, ρ', t'⟩ := t.unshares h unshares unshares'
      exact ⟨rfl, o, ρ', v', w', t', h₁, h₁'⟩
  · rintro _ _ m' n' ⟨rfl, -, -, -, -, h₁⟩ ⟨rfl, -, -, -, -, h₁'⟩
    exact ⟨rfl, o, ρ, v, w, t, h₁, h₁'⟩
  · rintro (_ | how) _ m' n' post ⟨-, mapped, protect, shared, full, -⟩
    · rw [mapped, post.1] at present
      cases present
    · obtain ⟨v', unshares, -⟩ := post
      exact unshares.not_stuck (stuck.mp ⟨mapped, protect, shared, full⟩)
  · rintro _ (_ | how) m' n' ⟨-, mapped, protect, shared, full, -⟩ post
    · rw [mapped, post.1] at present
      cases present
    · obtain ⟨w', unshares, -⟩ := post
      exact unshares.not_stuck (stuck.mpr ⟨mapped, protect, shared, full⟩)

/-- The same page is shared or refused on both sides. -/
theorem tryToShare (hs : c.spaces s s') (ha : c.spaces a a') (address goal : VirtualAddress) :
    ConcurTry (Twins c) (PagedMemory.tryToShare a address s goal)
      (PagedMemory.tryToShare a' address s' goal) := by
  refine .of_both ?_
  rintro m n ⟨o, ρ, v, w, t, shows, shows'⟩
  obtain ⟨live, renamed⟩ := t.space s s' hs
  obtain ⟨source, renamed'⟩ := t.space a a' ha
  have live' := (t.live hs).2
  have source' := (t.live ha).2
  have shareable : w.shareable a' address.splitSlots = v.shareable a address.splitSlots :=
    renamed' ▸ t.alike.shareable source
  have same : (w.leaf s' goal.splitSlots).present = (v.leaf s goal.splitSlots).present := by
    rw [renamed, t.alike.leaf s live, Entry.present_rename]
  cases mapped : (v.leaf s goal.splitSlots).present with
  | true =>
    refine BothTry.of_tries (shows.tryToShare_of_present t.sound source live address mapped)
      (shows'.tryToShare_of_present t.sound' source' live' address (same.trans mapped)) ?_
      (fun _ _ _ _ stuck => stuck.elim) (fun _ _ _ _ _ stuck => stuck)
      fun _ _ _ _ stuck _ => stuck
    rintro _ _ m' n' ⟨rfl, h₁⟩ ⟨rfl, h₁'⟩
    exact ⟨rfl, o, ρ, v, w, t, h₁, h₁'⟩
  | false =>
    refine BothTry.of_tries (shows.tryToShare t.sound source live address goal mapped)
      (shows'.tryToShare t.sound' source' live' address goal (same.trans mapped)) ?_ ?_ ?_ ?_
    · rintro (_ | _) (_ | _) m' n' post post'
      · exact ⟨rfl, o, ρ, v, w, t, post.2, post'.2⟩
      · obtain ⟨w', ⟨ready, -, -⟩, -⟩ := post'
        rw [ready, post.1] at shareable
        cases shareable
      · obtain ⟨v', ⟨ready, -, -⟩, -⟩ := post
        rw [ready, post'.1] at shareable
        cases shareable
      · obtain ⟨v', shares, h₁⟩ := post
        obtain ⟨w', shares', h₁'⟩ := post'
        obtain ⟨ρ', t'⟩ := t.shares hs ha shares shares'
        exact ⟨rfl, o, ρ', v', w', t', h₁, h₁'⟩
    · rintro _ _ m' n' ⟨rfl, -, -, -, h₁⟩ ⟨rfl, -, -, -, h₁'⟩
      exact ⟨rfl, o, ρ, v, w, t, h₁, h₁'⟩
    · rintro (_ | _) _ m' n' post ⟨-, ready, vacant, full, -⟩
      · rw [ready, post.1] at shareable
        cases shareable
      · obtain ⟨v', ⟨-, -, covers⟩, -⟩ := post
        exact t.not_covers hs covers vacant full
    · rintro _ (_ | _) m' n' ⟨-, ready, vacant, full, -⟩ post
      · rw [ready, post.1] at shareable
        cases shareable
      · obtain ⟨w', ⟨-, -, covers⟩, -⟩ := post
        exact t.not_covers' hs covers vacant full

/-- The peers are asked in turn. -/
theorem shareFirst (pid : Pid) (executable : ExecutableId) (offset : Nat) (hs : c.spaces s s')
    (goal : VirtualAddress) {peers peers' : List (Pid × Space × VirtualAddress)}
    (related : List.Forall₂ (fun a b => b.1 = a.1 ∧ c.spaces a.2.1 b.2.1 ∧ b.2.2 = a.2.2)
      peers peers') :
    ConcurTry (Twins c) (PagedMemory.shareFirst pid executable offset s goal peers)
      (PagedMemory.shareFirst pid executable offset s' goal peers') := by
  induction related with
  | nil => exact .pure false
  | @cons peer peer' rest rest' first _ ih =>
    obtain ⟨other, a, address⟩ := peer
    obtain ⟨other', a', address'⟩ := peer'
    obtain ⟨rfl, ha, rfl⟩ := first
    refine (tryToShare hs ha _ goal).bind fun shared => ?_
    cases shared with
    | true => exact (ConcurTry.lift (remark c _ _)).bind fun _ => .pure true
    | false => exact ih

section Alike

variable {env env' : Environment}

theorem findShared (alike : env.Alike c env') (pid : Pid) (hs : c.spaces s s') (image : Image)
    (executable : ExecutableId) (offset : Nat) :
    ConcurTry (Twins c) (PagedMemory.findShared env pid s image executable offset)
      (PagedMemory.findShared env' pid s' image executable offset) := by
  refine .of_both fun m n t => BothTry.lift_bind t.currentConfig ?_
  rintro config _ m' n' ⟨rfl, -, t'⟩
  refine ConcurTry.both ?_ t'
  unfold PagedMemory.sharePage
  rw [alike.openCount]
  split
  · split
    · exact .pure false
    · cases image.startCode.add? offset with
      | none => exact .pure false
      | some goal =>
        exact shareFirst pid executable offset hs goal (alike.peers pid executable offset)
  · exact .pure false

end Alike

end Twins

/-- A page in hand is given up on both sides, if it was taken last. -/
private theorem giveUp {c : Pairs} {m n : Machine} {f g : FrameId} (apart : ¬ c.held f)
    (t : Twins (c.hold f g) m n) :
    Both (release f) (release g) m n fun _ _ m' n' => Twins c m' n' :=
  (t.release (.inr ⟨rfl, rfl⟩)).mono fun _ _ _ _ t' => t'.mono (.hold_drop apart g)

/-- A page that was taken last is mapped on both sides, or given up. -/
private theorem mapTaken {c : Pairs} {m n : Machine} {s s' : Space} {f g : FrameId}
    (hs : c.spaces s s') (apart : ¬ c.held f) (t : Twins (c.hold f g) m n) (va : VirtualAddress) :
    BothTry (s.mapOne f va .userWritable) (s'.mapOne g va .userWritable) m n
      (fun _ _ m' n' => Twins c m' n') fun m' n' =>
        Both (release f) (release g) m' n' fun _ _ m'' n'' => Twins c m'' n'' :=
  (t.mapOne hs (.inr ⟨rfl, rfl⟩) va).mono (fun _ _ _ _ t' => t'.mono (.hold_drop apart g))
    fun _ _ => giveUp apart

/-- A page of the image is read into a frame that was taken. -/
theorem Fresh.loadPage {c : Pairs} {m n : Machine} {f g : FrameId} {env env' : Environment}
    (fresh : Fresh c f g m n) (alike : env.Alike c env') (image : Image) (executable : ExecutableId)
    (offset : Nat) :
    BothTry (PagedMemory.loadPage env image executable offset f)
      (PagedMemory.loadPage env' image executable offset g) m n
      (fun _ _ m' n' => Twins (c.hold f g) m' n') (Fresh c f g) := by
  obtain ⟨o, ρ, v, w, b, b', t, free, rfl, free', shows, shows'⟩ := fresh
  have bytes : (v.grant f b).bytes f = b := if_pos rfl
  have bytes' : (w.grant (ρ f) b').bytes (ρ f) = b' := if_pos rfl
  have read := shows.loadPage env image executable offset (t.sound.fits.inside free.1)
    (t.sound.not_hidden_grant free b)
  have read' := shows'.loadPage env' image executable offset (t.sound'.fits.inside free'.1)
    (t.sound'.not_hidden_grant free' b')
  rw [bytes] at read
  simp only [bytes', alike.pageRead, alike.loaded, alike.device,
    env.reads_pageRead executable offset b' b, env.failure_pageRead executable offset b' b] at read'
  have r := t.recorded (env.device executable) (env.pageRead executable offset b).reads
  refine BothTry.of_tries read read' ?_ ?_ ?_ ?_
  · rintro _ _ m' n' ⟨complete, h⟩ ⟨-, h'⟩
    rw [env.loaded_congr image b' complete, View.setBytes_grant] at h'
    rw [View.setBytes_grant] at h
    exact ⟨_, ρ, _, _, r.hold free _, h, h'⟩
  · rintro _ _ m' n' ⟨error, c₁, rfl, failed, h⟩ ⟨error', c₂, rfl, failed', h'⟩
    rw [failed] at failed'
    cases failed'
    rw [View.setBytes_grant] at h h'
    exact ⟨rfl, o, ρ, _, _, c₁, c₂, r, free, rfl, free', h, h'⟩
  · rintro _ _ m' n' ⟨complete, -⟩ ⟨error, -, -, failed, -⟩
    rw [complete] at failed
    cases failed
  · rintro _ _ m' n' ⟨error, -, -, failed, -⟩ ⟨complete, -⟩
    rw [complete] at failed
    cases failed

namespace Twins

variable {c : Pairs} {s s' : Space} {env env' : Environment}

theorem mapEmptyPage (hs : c.spaces s s') (va : VirtualAddress) :
    ConcurTry (Twins c) (PagedMemory.mapEmptyPage s va) (PagedMemory.mapEmptyPage s' va) := by
  refine .of_both fun m n t => BothTry.bind t.allocFrame ?_
  intro f g m₁ n₁ fresh
  refine BothTry.lift_bind fresh.currentConfig ?_
  rintro config config' m₂ n₂ ⟨clears, clears', fresh₂⟩
  rw [if_pos clears, if_pos clears']
  refine BothTry.lift_bind fresh₂.zeroFrame fun _ _ m₃ n₃ t₃ => ?_
  exact (BothTry.undoing (mapTaken hs fresh.not_held t₃ _)).mono (fun _ _ _ _ t₄ => ⟨rfl, t₄⟩)
    fun _ _ t₄ => t₄

theorem mapLoadedPage (alike : env.Alike c env') (hs : c.spaces s s') (image : Image)
    (executable : ExecutableId) (offset : Nat) (va : VirtualAddress) :
    ConcurTry (Twins c) (PagedMemory.mapLoadedPage env s image executable offset va)
      (PagedMemory.mapLoadedPage env' s' image executable offset va) := by
  refine .of_both fun m n t => BothTry.bind t.allocFrame ?_
  intro f g m₁ n₁ fresh
  refine (BothTry.undoing (BothTry.bind ((fresh.loadPage alike image executable offset).mono
    (fun _ _ _ _ t₂ => t₂) fun _ _ fresh₂ => fresh₂.release) fun _ _ m₂ n₂ t₂ =>
      mapTaken hs fresh.not_held t₂ va)).mono (fun _ _ _ _ t₃ => ⟨rfl, t₃⟩) fun _ _ t₃ => t₃

theorem fillPage (alike : env.Alike c env') (pid : Pid) (hs : c.spaces s s')
    (va : VirtualAddress) :
    ConcurTry (Twins c) (PagedMemory.fillPage env pid s va)
      (PagedMemory.fillPage env' pid s' va) := by
  unfold PagedMemory.fillPage
  rw [alike.image]
  cases env.image pid with
  | none => exact .fail _
  | some image =>
    cases backed : image.source? (va.alignDown .small) with
    | none =>
      simp only [backed]
      exact (mapEmptyPage hs _).bind fun _ => .pure _
    | some source =>
      obtain ⟨executable, offset⟩ := source
      simp only [backed]
      refine (findShared alike pid hs image executable offset).bind fun shared => ?_
      cases shared with
      | true => exact .pure _
      | false => exact (mapLoadedPage alike hs image executable offset _).bind fun _ => .pure _

theorem resolveFault (alike : env.Alike c env') (kind : FaultKind) (va : VirtualAddress) :
    ConcurTry (Twins c) (PagedMemory.resolveFault env kind va)
      (PagedMemory.resolveFault env' kind va) := by
  unfold PagedMemory.resolveFault
  rw [alike.current]
  have named := alike.named env.current
  generalize env.addressSpace env.current = space at named ⊢
  generalize env'.addressSpace env.current = space' at named ⊢
  cases named with
  | none => exact .fail _
  | some hs =>
    cases kind with
    | writeProtect =>
      refine (unsharePage hs va).bind fun how => ?_
      cases how with
      | none => exact fillPage alike env.current hs va
      | some how => exact .pure how
    | notPresent =>
      refine .of_both fun m n t => BothTry.lift_bind (t.findEntry hs va) ?_
      rintro (_ | entry) _ m₁ n₁ ⟨⟨ρ, rfl⟩, t₁⟩
      · exact (fillPage alike env.current hs va).both t₁
      · simp only [Option.map_some, Entry.present_rename]
        refine ConcurTry.both ?_ t₁
        split
        · exact (ConcurTry.lift (flush c)).bind fun _ => .pure _
        · exact fillPage alike env.current hs va

/-- A fault is answered in the same way on both sides, or ends the process on both. -/
theorem handleFault (alike : env.Alike c env') (kind : FaultKind) (va : VirtualAddress) :
    ConcurTry (Twins c) (PagedMemory.handleFault env kind va)
      (PagedMemory.handleFault env' kind va) := by
  refine Concur.bind (resolveFault alike kind va) fun result => ?_
  rw [alike.current]
  cases result with
  | ok how => exact (remark c _ _).bind fun _ => .pure _
  | error cause =>
    exact (remark c _ _).bind fun _ => (terminate c env.current cause).bind fun _ => .pure _

end Twins

end PagedMemory
