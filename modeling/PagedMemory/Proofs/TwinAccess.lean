import PagedMemory.Proofs.TwinFaults
import PagedMemory.Proofs.UserMemory

/-!
# User memory of twin machines

An access to user memory reaches corresponding frames of twin machines, and what the
process can see in them is the same. So what is copied from user memory is equal on both
sides, and what is copied to it stays equal.
-/

namespace PagedMemory

/-- A page of a live space was reached on both sides. -/
def Reached (c : Pairs) (f g : FrameId) (m n : Machine) : Prop :=
  ∃ o ρ v w, View.Twins c o ρ v w ∧ (∃ s ∈ v.live, ∃ k, v.refers s (.leaf k) = some f) ∧ ρ f = g ∧
    m.Shows v ∧ n.Shows w

theorem View.Sound.inside_of_leaf {v : View} {o : Owed} {s : Space} {k : Place} {f : FrameId}
    (sound : v.Sound o) (hs : s ∈ v.live) (maps : v.refers s (.leaf k) = some f) :
    f.index < v.size := by
  obtain ⟨present, rfl⟩ := Entry.target_eq_some_iff.mp maps
  exact sound.mapped s hs k present

/-- A page that is mapped can be read and written on both sides. -/
theorem View.Twins.accessible {c : Pairs} {o : Owed} {ρ : Renaming} {v w : View} {s : Space}
    {k : Place} {f : FrameId} (t : v.Twins c o ρ w) (hs : s ∈ v.live)
    (maps : v.refers s (.leaf k) = some f) :
    (f.index < v.size ∧ ¬ v.Hidden f) ∧ (ρ f).index < w.size ∧ ¬ w.Hidden (ρ f) := by
  have hs' := t.alike.live' hs
  have maps' : w.refers (s.rename ρ) (.leaf k) = some (ρ f) := by
    rw [t.alike.refers hs, maps, Option.map_some]
  constructor
  · exact ⟨t.sound.inside_of_leaf hs maps, t.sound.not_hidden_of_leaf hs maps⟩
  · exact ⟨t.sound'.inside_of_leaf hs' maps', t.sound'.not_hidden_of_leaf hs' maps'⟩

namespace Reached

variable {c : Pairs} {m n : Machine} {f g : FrameId}

/-- The same bytes are read. -/
theorem readFrame (reached : Reached c f g m n) :
    Both (PagedMemory.readFrame f) (PagedMemory.readFrame g) m n fun a b m' n' =>
      b = a ∧ Twins c m' n' := by
  obtain ⟨o, ρ, v, w, t, ⟨s, hs, k, maps⟩, rfl, shows, shows'⟩ := reached
  obtain ⟨⟨inside, shown⟩, inside', shown'⟩ := t.accessible hs maps
  refine Both.of_ends (shows.readFrame inside shown) (shows'.readFrame inside' shown') ?_
  rintro _ _ m' n' ⟨rfl, h⟩ ⟨rfl, h'⟩
  exact ⟨t.alike.bytes f (.inr ⟨s, hs, k, maps⟩), o, ρ, v, w, t, h, h'⟩

/-- The same change is made to the same bytes. -/
theorem modifyFrame (reached : Reached c f g m n) (change : Frame → Frame) :
    Both (PagedMemory.modifyFrame f change) (PagedMemory.modifyFrame g change) m n
      fun _ _ m' n' => Twins c m' n' := by
  obtain ⟨o, ρ, v, w, t, ⟨s, hs, k, maps⟩, rfl, shows, shows'⟩ := reached
  obtain ⟨⟨inside, shown⟩, inside', shown'⟩ := t.accessible hs maps
  refine Both.of_ends (shows.modifyFrame change inside shown)
    (shows'.modifyFrame change inside' shown') fun _ _ m' n' h h' => ?_
  rw [t.alike.bytes f (.inr ⟨s, hs, k, maps⟩)] at h'
  exact ⟨o, ρ, _, _, ⟨t.sound.setBytes f _, t.alike.setBytes f _, t.clears, t.space, t.page⟩, h, h'⟩

end Reached

namespace Twins

variable {c : Pairs} {m n : Machine} {env env' : Environment}

/-- The entry of a page that can be used is touched on both sides. -/
private theorem touch {o : Owed} {ρ : Renaming} {v w : View} {s : Space} {va : VirtualAddress}
    {write : Bool} (t : View.Twins c o ρ v w) (hs : s ∈ v.live)
    (present : (v.leaf s va.splitSlots).present = true)
    (allowed : write = true → (v.leaf s va.splitSlots).writable = true) (shows : m.Shows v)
    (shows' : n.Shows w) :
    Both (s.updateEntry va (Entry.touched write))
      ((s.rename ρ).updateEntry va (Entry.touched write)) m n fun _ _ m' n' =>
        Reached c (v.leaf s va.splitSlots).frame (ρ (v.leaf s va.splitSlots).frame) m' n' := by
  have hs' := t.alike.live' hs
  have present' : (w.leaf (s.rename ρ) va.splitSlots).present = true := by
    rw [t.alike.leaf s hs, Entry.present_rename, present]
  obtain ⟨a, linked⟩ := shows.link_of_present hs present
  obtain ⟨a', linked'⟩ := shows'.link_of_present hs' present'
  refine Both.of_ends (shows.updateEntry t.sound.separate hs linked _)
    (shows'.updateEntry t.sound'.separate hs' linked' _) fun _ _ m' n' h h' => ?_
  rw [t.alike.leaf s hs, ← Entry.rename_touched] at h'
  refine ⟨o, ρ, _, _, t.act (.touch hs present allowed) trivial
    (t.alike.reflagged hs rfl), ⟨s, hs, va.splitSlots, ?_⟩, rfl, h, h'⟩
  rw [View.refers, View.leaf_setLeaf_self]
  exact Entry.target_eq_some_iff.mpr ⟨present, rfl⟩

theorem accessWithin (alike : env.Alike c env') (va : VirtualAddress) (write : Bool) (tries : Nat)
    (m n : Machine) (t : Twins c m n) :
    BothTry (PagedMemory.accessWithin env va write tries)
      (PagedMemory.accessWithin env' va write tries) m n (Reached c) (Twins c) := by
  induction tries generalizing m n with
  | zero => exact Both.halt
  | succ tries ih =>
    unfold PagedMemory.accessWithin
    rw [alike.current]
    have named := alike.named env.current
    generalize env.addressSpace env.current = space at named ⊢
    generalize env'.addressSpace env.current = space' at named ⊢
    cases named with
    | none => exact BothTry.fail t
    | @some s s' h =>
      obtain ⟨o, ρ, v, w, t, shows, shows'⟩ := t
      obtain ⟨hs, rfl⟩ := t.space s s' h
      refine BothTry.lift_bind (Both.of_ends (shows.findLeaf t.sound.separate hs va)
        (shows'.findLeaf t.sound'.separate (t.alike.live' hs) va)
        fun _ _ _ _ found found' => And.intro found found') ?_
      rintro found found' m₁ n₁ ⟨⟨leaf, shows₁⟩, leaf', shows₁'⟩
      rw [t.alike.leaf s hs] at leaf'
      have raised : faultOf ((v.leaf s va.splitSlots).rename ρ) write =
          faultOf (v.leaf s va.splitSlots) write := by
        rw [faultOf, Entry.present_rename, Entry.writable_rename, faultOf]
      simp only [leaf, leaf', raised]
      cases fault : faultOf (v.leaf s va.splitSlots) write with
      | none =>
        obtain ⟨present, allowed⟩ := faultOf_eq_none_iff.mp fault
        refine BothTry.discard_bind (touch t hs present allowed shows₁ shows₁')
          fun m₂ n₂ reached => ?_
        rw [Entry.frame_rename present]
        exact BothTry.pure reached
      | some kind =>
        have answered := (handleFault alike kind va).discard.both ⟨o, ρ, v, w, t, shows₁, shows₁'⟩
        exact answered.bind fun _ _ m₂ n₂ t₂ => ih m₂ n₂ t₂.2

theorem copyChunkOut (alike : env.Alike c env') (address : VirtualAddress) (bytes : List UInt8)
    (chunk : Chunk) :
    ConcurTry (Twins c) (PagedMemory.copyChunkOut env address bytes chunk)
      (PagedMemory.copyChunkOut env' address bytes chunk) := by
  refine .of_both fun m n t => BothTry.bind (accessWithin alike _ true maxTries m n t) ?_
  intro f g m₁ n₁ reached
  exact BothTry.lift ((reached.modifyFrame _).mono fun _ _ _ _ t₁ => ⟨rfl, t₁⟩)

theorem copyChunkIn (alike : env.Alike c env') (address : VirtualAddress) (chunk : Chunk) :
    ConcurTry (Twins c) (PagedMemory.copyChunkIn env address chunk)
      (PagedMemory.copyChunkIn env' address chunk) := by
  refine .of_both fun m n t => BothTry.bind (accessWithin alike _ false maxTries m n t) ?_
  intro f g m₁ n₁ reached
  refine BothTry.lift_bind reached.readFrame ?_
  rintro frame _ m₂ n₂ ⟨rfl, t₂⟩
  exact BothTry.pure ⟨rfl, t₂⟩

private theorem requireNoWrap (c : Pairs) (address : VirtualAddress) (length : Nat) :
    Concur (Twins c) (PagedMemory.requireNoWrap address length)
      (PagedMemory.requireNoWrap address length) := by
  unfold PagedMemory.requireNoWrap
  split
  · exact .pure ()
  · exact fun _ _ _ => Both.halt

theorem copyToUser (alike : env.Alike c env') (address : VirtualAddress) (bytes : List UInt8) :
    ConcurTry (Twins c) (PagedMemory.copyToUser env address bytes)
      (PagedMemory.copyToUser env' address bytes) :=
  (ConcurTry.lift (requireNoWrap c address bytes.length)).bind fun _ =>
    .forM (copyChunkOut alike address bytes) _

theorem copyFromUser (alike : env.Alike c env') (address : VirtualAddress) (length : Nat) :
    ConcurTry (Twins c) (PagedMemory.copyFromUser env address length)
      (PagedMemory.copyFromUser env' address length) :=
  (ConcurTry.lift (requireNoWrap c address length)).bind fun _ =>
    (ConcurTry.mapM (copyChunkIn alike address) _).bind fun _ => .pure _

theorem verifyPage {s s' : Space} (alike : env.Alike c env') (hs : c.spaces s s')
    (va : VirtualAddress) :
    ConcurTry (Twins c) (PagedMemory.verifyPage env s va) (PagedMemory.verifyPage env' s' va) := by
  refine .of_both fun m n t => BothTry.lift_bind (t.findEntry hs va) ?_
  rintro (_ | entry) _ m₁ n₁ ⟨⟨ρ, rfl⟩, t₁⟩
  · exact BothTry.pure ⟨rfl, t₁⟩
  · dsimp only [Option.map_some]
    rw [Entry.present_rename, Entry.writable_rename]
    refine ConcurTry.both ?_ t₁
    split
    · exact (handleFault alike _ va).discard
    · exact .pure ()

theorem verifyArea (alike : env.Alike c env') (address : VirtualAddress) (size : Nat) :
    ConcurTry (Twins c) (PagedMemory.verifyArea env address size)
      (PagedMemory.verifyArea env' address size) := by
  unfold PagedMemory.verifyArea
  rw [alike.current]
  have named := alike.named env.current
  generalize env.addressSpace env.current = space at named ⊢
  generalize env'.addressSpace env.current = space' at named ⊢
  cases named with
  | none => exact .fail _
  | some hs => exact .forM (verifyPage alike hs) _

end Twins

end PagedMemory
