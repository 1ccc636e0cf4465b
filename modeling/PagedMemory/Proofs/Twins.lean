import PagedMemory.Proofs.Holding
import PagedMemory.Proofs.Renaming
import PagedMemory.Proofs.TwoRuns

/-!
# Twin machines

Two machines are twins if they show sound views that are alike. The renaming between them
is left open, since it grows and changes with every frame that is handed out. What stays
is the correspondence of what the users of the machines know (`Pairs`): the spaces and the
pages in hand that both of them were given by the same step.

Every primitive operation keeps machines twins if it is given what corresponds. A frame
that was just taken holds different bytes on the two sides (`Fresh`), so it must be
overwritten before it counts as a page in hand.
-/

namespace PagedMemory

/-- Which spaces, and which pages in hand, of two machines correspond. -/
structure Pairs where
  spaces : Space → Space → Prop
  pages : FrameId → FrameId → Prop

namespace Pairs

def held (c : Pairs) (f : FrameId) : Prop :=
  ∃ g, c.pages f g

/-- A pair of pages comes into hand. -/
def hold (c : Pairs) (f g : FrameId) : Pairs :=
  { c with pages := fun x y => c.pages x y ∨ x = f ∧ y = g }

/-- A page leaves the hand of its holder. -/
def drop (c : Pairs) (f : FrameId) : Pairs :=
  { c with pages := fun x y => c.pages x y ∧ x ≠ f }

/-- A pair of spaces is made. -/
def join (c : Pairs) (s s' : Space) : Pairs :=
  { c with spaces := fun x y => c.spaces x y ∨ x = s ∧ y = s' }

/-- A space ends. -/
def part (c : Pairs) (s : Space) : Pairs :=
  { c with spaces := fun x y => c.spaces x y ∧ x ≠ s }

/-- What corresponds in the first way does so in the second way as well. -/
structure Within (c c' : Pairs) : Prop where
  spaces : ∀ s s', c.spaces s s' → c'.spaces s s'
  pages : ∀ f g, c.pages f g → c'.pages f g

theorem Within.drop (c : Pairs) (f : FrameId) : (c.drop f).Within c :=
  ⟨fun _ _ h => h, fun _ _ h => h.1⟩

theorem Within.part (c : Pairs) (s : Space) : (c.part s).Within c :=
  ⟨fun _ _ h => h.1, fun _ _ h => h⟩

theorem Within.hold_drop {c : Pairs} {f : FrameId} (apart : ¬ c.held f) (g : FrameId) :
    c.Within ((c.hold f g).drop f) := by
  refine ⟨fun _ _ h => h, fun x y h => ⟨.inl h, ?_⟩⟩
  rintro rfl
  exact apart ⟨y, h⟩

theorem Within.join_part {c : Pairs} {s : Space} (apart : ∀ s', ¬ c.spaces s s') (s' : Space) :
    c.Within ((c.join s s').part s) := by
  refine ⟨fun x y h => ⟨.inl h, ?_⟩, fun _ _ h => h⟩
  rintro rfl
  exact apart y h

end Pairs

/-- No space comes or goes, and no page comes into the hands of anybody or leaves them. -/
def Change.Steady : Change → Prop
  | .create _ | .destroy _ | .hold _ | .yield _ | .install _ _ _ => False
  | _ => True

theorem Change.Steady.sparing {d : Change} (steady : d.Steady) : d.Sparing := by
  cases d <;> first | exact steady | trivial

theorem Change.Steady.lasting {d : Change} (steady : d.Steady) (s : Space) :
    d ≠ .create s ∧ d ≠ .destroy s := by
  constructor <;> rintro rfl <;> exact steady

namespace View

/-- The views are alike, the first one is sound, and what corresponds is renamed. -/
structure Twins (c : Pairs) (o : Owed) (ρ : Renaming) (v w : View) : Prop where
  sound : v.Sound o
  alike : v.Alike ρ c.held w
  clears : v.config.zeroFill = true
  space : ∀ s s', c.spaces s s' → s ∈ v.live ∧ s' = s.rename ρ
  page : ∀ f g, c.pages f g → g = ρ f ∧ v.tracks f = true ∧ v.count f = 1 ∧ 0 < o f

namespace Twins

variable {c c' : Pairs} {o o' : Owed} {ρ : Renaming} {v v' w w' : View} {s s' : Space}
  {f g : FrameId} {i : Slot} {k : Place}

theorem sound' (t : v.Twins c o ρ w) : w.Sound (o ∘ ρ.symm) :=
  t.alike.sound t.sound

theorem live (t : v.Twins c o ρ w) (h : c.spaces s s') : s ∈ v.live ∧ s' ∈ w.live := by
  obtain ⟨hs, rfl⟩ := t.space s s' h
  exact ⟨hs, t.alike.live' hs⟩

theorem mono (t : v.Twins c o ρ w) (within : c'.Within c) : v.Twins c' o ρ w := by
  refine { t with
    alike := t.alike.mono ?_
    space := fun s s' h => t.space s s' (within.spaces s s' h)
    page := fun f g h => t.page f g (within.pages f g h) }
  rintro f ⟨g, h⟩
  exact ⟨g, within.pages f g h⟩

theorem used (t : v.Twins c o ρ w) (h : c.held f) : ¬ v.Free f := by
  obtain ⟨g, h⟩ := h
  obtain ⟨-, -, one, -⟩ := t.page f g h
  exact fun free => Nat.one_ne_zero (one.symm.trans free.2)

/-- A page in hand holds no table, since its holder has the only reference to it. -/
theorem shown (t : v.Twins c o ρ w) (h : v.Visible c.held f) : ¬ v.Hidden f := by
  obtain ⟨g, h⟩ | ⟨s, hs, k, target⟩ := h
  · obtain ⟨-, tracked, one, owed⟩ := t.page f g h
    have alone {s : Space} {d : Cell} (hs : s ∈ v.live) : v.refers s d ≠ some f := by
      intro refers
      have := t.sound.references_add_owed_pos tracked hs refers
      omega
    rintro (free | ⟨s, hs, root | ⟨i, linked⟩⟩)
    · exact t.used ⟨g, h⟩ free
    · exact alone (d := .root) hs (congrArg some root)
    · exact alone (d := .link i) hs linked
  · exact t.sound.not_hidden_of_leaf hs target

/-- A free frame may stand for any other one. -/
theorem fresh (t : v.Twins c o ρ w) (free : v.Free f) (free' : w.Free g) :
    ∃ ρ' : Renaming, ρ' f = g ∧ v.Twins c o ρ' w := by
  obtain ⟨ρ', new, alike, same⟩ := t.alike.fresh t.sound (fun _ => t.used) free free'
  refine ⟨ρ', new, { t with alike := alike, space := fun s s' h => ?_, page := fun x y h => ?_ }⟩
  · obtain ⟨hs, rfl⟩ := t.space s s' h
    exact ⟨hs, Space.ext (same _ (t.sound.not_free hs (c := .root) rfl)).symm⟩
  · obtain ⟨rfl, rest⟩ := t.page x y h
    exact ⟨(same x (t.used ⟨_, h⟩)).symm, rest⟩

/-- Changes that leave the pages in hand and the spaces that correspond alone. -/
theorem step {allowed : Change → Prop} (t : v.Twins c o ρ w) (acts : Acts allowed v o v' o')
    (spared : ∀ d, allowed d → ∀ f, c.held f → d ≠ .yield f ∧ ∀ s k, d ≠ .install s k f)
    (live : ∀ s s', c.spaces s s' → s ∈ v'.live) (alike : v'.Alike ρ c.held w') :
    v'.Twins c o' ρ w' := by
  refine ⟨acts.sound t.sound, alike, ?_, fun s s' h => ?_, fun f g h => ?_⟩
  · rw [acts.setting.2.2]
    exact t.clears
  · exact ⟨live s s' h, (t.space s s' h).2⟩
  · obtain ⟨same, tracked, one, owed⟩ := t.page f g h
    obtain ⟨owed', one'⟩ := acts.held t.sound tracked owed one fun d ok => spared d ok f ⟨g, h⟩
    exact ⟨same, (acts.tracks f).trans tracked, one', owed'⟩

/-- Changes by which no space comes or goes and no page changes hands. -/
theorem sparing {allowed : Change → Prop} (t : v.Twins c o ρ w) (acts : Acts allowed v o v' o')
    (spared : ∀ d, allowed d → d.Sparing)
    (lasting : ∀ d, allowed d → ∀ s, d ≠ .create s ∧ d ≠ .destroy s)
    (alike : v'.Alike ρ c.held w') : v'.Twins c o' ρ w' := by
  refine t.step acts (fun d ok f _ => ⟨?_, ?_⟩) (fun s s' h => ?_) alike
  · rintro rfl
    exact spared _ ok
  · rintro s k rfl
    exact spared _ ok
  · rw [acts.live lasting]
    exact (t.space s s' h).1

theorem act {d : Change} (t : v.Twins c o ρ w) (act : Act v o d v' o') (steady : d.Steady)
    (alike : v'.Alike ρ c.held w') : v'.Twins c o' ρ w' := by
  refine t.sparing (Acts.only act) ?_ ?_ alike
  · rintro _ rfl
    exact steady.sparing
  · rintro _ rfl
    exact steady.lasting

theorem flushed (t : v.Twins c o ρ w) : v.flushed.Twins c o ρ w.flushed :=
  t.act (.note (v.flushes + 1) v.reads v.terminations) trivial t.alike.flushed

theorem recorded (t : v.Twins c o ρ w) (device : DeviceId) (blocks : List BlockNumber) :
    (v.recorded device blocks).Twins c o ρ (w.recorded device blocks) :=
  t.act (.note v.flushes _ v.terminations) trivial (t.alike.recorded device blocks)

/-! ## Pages in hand -/

/-- A free frame comes into hand with the same bytes on both sides. -/
theorem hold (t : v.Twins c o ρ w) (free : v.Free f) (b : Frame) :
    (v.grant f b).Twins (c.hold f (ρ f)) (o + hits (some f)) ρ (w.grant (ρ f) b) := by
  have act : Act v o (.hold f) (v.grant f b) (o + hits (some f)) := .hold free
  have same : (w.grant (ρ f) b).bytes (ρ f) = (v.grant f b).bytes f :=
    (if_pos rfl).trans (if_pos rfl).symm
  refine ⟨act.sound t.sound, ((t.alike.grant f b).hold same).mono ?_, t.clears, t.space, ?_⟩
  · rintro x ⟨y, h | ⟨rfl, -⟩⟩
    · exact .inl ⟨y, h⟩
    · exact .inr rfl
  · rintro x y (h | ⟨rfl, rfl⟩)
    · obtain ⟨renamed, tracked, one, owed⟩ := t.page x y h
      obtain ⟨owed', one'⟩ := act.held t.sound tracked owed one ⟨nofun, nofun⟩
      exact ⟨renamed, tracked, one', owed'⟩
    · refine ⟨rfl, free.1, if_pos rfl, ?_⟩
      rw [Pi.add_apply, hits_self]
      omega

theorem not_held (t : v.Twins c o ρ w) (free : v.Free f) : ¬ c.held f :=
  fun h => t.used h free

/-- Of what is owed for a page in hand, one reference is that of its holder. -/
private theorem split (t : v.Twins c o ρ w) (h : c.pages f g) :
    ∃ o', o = o' + hits (some f) := by
  obtain ⟨-, -, -, owed⟩ := t.page f g h
  refine ⟨fun x => o x - hits (some f) x, funext fun x => ?_⟩
  by_cases same : x = f
  · rw [same, Pi.add_apply, hits_self]
    omega
  · rw [Pi.add_apply, hits_of_ne fun h => same (Option.some.inj h).symm]
    omega

theorem release (t : v.Twins c o ρ w) (h : c.pages f g) :
    ∃ o', (v.release f).Twins (c.drop f) o' ρ (w.release g) := by
  obtain ⟨rfl, -⟩ := t.page f g h
  obtain ⟨o', held⟩ := t.split h
  refine ⟨o', (t.mono (.drop c f)).step (Acts.only (.yield held))
    ?_ (fun s s' h => (t.space s s' h).1) ((t.mono (.drop c f)).alike.release f)⟩
  rintro _ rfl x ⟨y, -, other⟩
  refine ⟨?_, nofun⟩
  rintro same
  cases same
  exact other rfl

/-- A page in hand is mapped, which takes it out of the hand of its holder. -/
theorem install (t : v.Twins c o ρ w) (hs : s ∈ v.live) (h : c.pages f g) (k : Place) :
    ∃ o', (v.remap s k (.make f .userWritable)).Twins (c.drop f) o' ρ
      (w.remap (s.rename ρ) k (.make g .userWritable)) := by
  obtain ⟨rfl, tracked, one, -⟩ := t.page f g h
  obtain ⟨o', held⟩ := t.split h
  refine ⟨_, (t.mono (.drop c f)).step (Acts.only
    (.install hs tracked one held)) ?_ ?_ ((t.alike.remap hs k ⟨_, h⟩ .userWritable).mono ?_)⟩
  · rintro _ rfl x ⟨y, -, other⟩
    refine ⟨nofun, fun s' k' same => ?_⟩
    cases same
    exact other rfl
  · intro x y hx
    rw [View.live_remap]
    exact (t.space x y hx).1
  · rintro x ⟨y, hx, -⟩
    exact ⟨y, hx⟩

/-! ## Tables and spaces -/

/-- A page table is found on both sides, or made on both sides. -/
theorem covers {a a' : FrameId} (t : v.Twins c o ρ w) (h : c.spaces s s')
    (covers : v.Covers s i a v') (covers' : w.Covers s' i a' w') :
    ∃ ρ' : Renaming, v'.Twins c o ρ' w' := by
  obtain ⟨hs, rfl⟩ := t.space s s' h
  have link := t.alike.link s hs i
  cases covers with
  | already linked =>
    cases covers' with
    | already => exact ⟨ρ, t⟩
    | anew vacant =>
      rw [linked, vacant] at link
      cases link
  | anew vacant free =>
    cases covers' with
    | already linked =>
      rw [linked, vacant] at link
      cases link
    | anew _ free' =>
      obtain ⟨ρ', rfl, t'⟩ := t.fresh free free'
      obtain ⟨-, same⟩ := t'.space s _ h
      rw [same]
      exact ⟨ρ', t'.act (.link hs vacant free) trivial (t'.alike.linked s i a)⟩

/-- Where one side finds or makes a page table, the other one is not at a loss for it. -/
theorem not_covers {a : FrameId} (t : v.Twins c o ρ w) (h : c.spaces s s')
    (covers : v.Covers s i a v') (vacant : w.link s' i = none) (full : ∀ f, ¬ w.Free f) :
    False := by
  obtain ⟨hs, rfl⟩ := t.space s s' h
  cases covers with
  | already linked =>
    rw [t.alike.link s hs, linked] at vacant
    cases vacant
  | anew _ free => exact t.alike.no_free full a free

theorem not_covers' {a : FrameId} (t : v.Twins c o ρ w) (h : c.spaces s s')
    (covers : w.Covers s' i a w') (vacant : v.link s i = none) (full : ∀ f, ¬ v.Free f) :
    False := by
  obtain ⟨hs, rfl⟩ := t.space s s' h
  cases covers with
  | already linked =>
    rw [t.alike.link s hs, vacant] at linked
    cases linked
  | anew _ free => exact t.alike.no_free' full a free

theorem copied {g' : FrameId} (t : v.Twins c o ρ w) (h : c.spaces s s')
    (present : (v.leaf s k).present = true) (free : v.Free g) (free' : w.Free g') :
    ∃ ρ' : Renaming, (v.copied s k g).Twins c o ρ' (w.copied s' k g') := by
  obtain ⟨ρ', rfl, t'⟩ := t.fresh free free'
  obtain ⟨hs, rfl⟩ := t'.space s s' h
  exact ⟨ρ', t'.act (.copy hs present free) trivial (t'.alike.copied hs present)⟩

theorem founded (t : v.Twins c o ρ w) (free : v.Free s.root) (free' : w.Free s'.root) :
    ∃ ρ' : Renaming, (v.founded s).Twins (c.join s s') o ρ' (w.founded s') := by
  obtain ⟨ρ', new, t'⟩ := t.fresh free free'
  have same : s' = s.rename ρ' := Space.ext new.symm
  subst same
  have made := t'.step (Acts.only (.create free))
    (by rintro _ rfl; exact fun _ _ => ⟨nofun, nofun⟩)
    (fun x y h => Finset.mem_insert_of_mem (t'.space x y h).1) (t'.alike.founded s)
  refine ⟨ρ', { made with space := ?_ }⟩
  rintro x y (h | ⟨rfl, rfl⟩)
  · exact made.space x y h
  · exact ⟨Finset.mem_insert_self x v.live, rfl⟩

/-- A space ends. What it referred to beside its directory is left to nobody. -/
theorem ended (t : v.Twins c o ρ w) (h : c.spaces s s') {b b' : FrameId → Frame}
    (same : ∀ f, ¬ v.Hidden f → b f = v.bytes f) (same' : ∀ f, ¬ w.Hidden f → b' f = w.bytes f) :
    ∃ o', (v.ended s b).Twins (c.part s) o' ρ (w.ended s' b') := by
  obtain ⟨hs, rfl⟩ := t.space s s' h
  have root : 0 < v.uses s s.root := uses_pos (c := .root) rfl
  have left : (fun f => o f + (v.uses s f - hits (some s.root) f)) + hits (some s.root) =
      o + v.uses s := by
    funext f
    by_cases here : f = s.root
    · rw [Pi.add_apply, Pi.add_apply, here, hits_self]
      omega
    · rw [Pi.add_apply, Pi.add_apply, hits_of_ne fun h => here (Option.some.inj h).symm]
      omega
  refine ⟨_, (t.mono (.part c s)).step (Acts.only
    (.destroy hs same left)) (by rintro _ rfl; exact fun _ _ => ⟨nofun, nofun⟩) ?_ ?_⟩
  · rintro x y ⟨hx, other⟩
    exact Finset.mem_erase.mpr ⟨other, (t.space x y hx).1⟩
  · refine (t.alike.closed s fun f visible => ?_).release s.root
    rw [same f (t.shown visible), same' _ fun hidden => t.shown visible (t.alike.hidden hidden)]
    exact t.alike.bytes f visible

end Twins

end View

/-- Both machines show sound views that are alike. -/
def Twins (c : Pairs) (m n : Machine) : Prop :=
  ∃ o ρ v w, View.Twins c o ρ v w ∧ m.Shows v ∧ n.Shows w

/-- A frame was taken on both sides. What it holds is whatever was left in it. -/
def Fresh (c : Pairs) (f g : FrameId) (m n : Machine) : Prop :=
  ∃ o ρ v w b b', View.Twins c o ρ v w ∧ v.Free f ∧ ρ f = g ∧ w.Free g ∧
    m.Shows (v.grant f b) ∧ n.Shows (w.grant g b')

namespace Twins

variable {c c' : Pairs} {m n : Machine} {s s' : Space} {f g : FrameId}

theorem mono (t : Twins c m n) (within : c'.Within c) : Twins c' m n := by
  obtain ⟨o, ρ, v, w, t, shows⟩ := t
  exact ⟨o, ρ, v, w, t.mono within, shows⟩

/-- What has been remarked may differ. -/
theorem remark (c : Pairs) (e e' : Event) :
    Concur (Twins c) (PagedMemory.remark e) (PagedMemory.remark e') := by
  rintro m n ⟨o, ρ, v, w, t, shows, shows'⟩
  refine Both.of_ends (shows.remark e) (shows'.remark e') fun _ _ m' n' h h' => ?_
  exact ⟨rfl, o, ρ, v, w, t, h, h'⟩

theorem flush (c : Pairs) : Concur (Twins c) PagedMemory.flush PagedMemory.flush := by
  rintro m n ⟨o, ρ, v, w, t, shows, shows'⟩
  refine Both.of_ends shows.flush shows'.flush fun _ _ m' n' h h' => ?_
  exact ⟨rfl, o, ρ, _, _, t.flushed, h, h'⟩

theorem terminate (c : Pairs) (pid : Pid) (cause : MemoryError) :
    Concur (Twins c) (PagedMemory.terminate pid cause) (PagedMemory.terminate pid cause) := by
  rintro m n ⟨o, ρ, v, w, t, shows, shows'⟩
  refine Both.of_ends (shows.terminate pid cause) (shows'.terminate pid cause)
    fun _ _ m' n' h h' => ⟨rfl, o, ρ, _, _, ?_, h, h'⟩
  exact t.act (.note v.flushes v.reads _) trivial (t.alike.terminated pid cause)

/-- Both machines clear pages without backing, and share pages or do not. -/
theorem currentConfig (t : Twins c m n) :
    Both PagedMemory.currentConfig PagedMemory.currentConfig m n fun a b m' n' =>
      b = a ∧ a.zeroFill = true ∧ Twins c m' n' := by
  obtain ⟨o, ρ, v, w, t, shows, shows'⟩ := t
  refine Both.of_ends shows.currentConfig shows'.currentConfig ?_
  rintro _ _ m' n' ⟨rfl, h⟩ ⟨rfl, h'⟩
  exact ⟨t.alike.config, t.clears, o, ρ, v, w, t, h, h'⟩

/-- The entries found for an address have the same flags. -/
theorem findEntry (t : Twins c m n) (h : c.spaces s s') (va : VirtualAddress) :
    Both (s.findEntry va) (s'.findEntry va) m n fun a b m' n' =>
      (∃ ρ, b = a.map (Entry.rename ρ)) ∧ Twins c m' n' := by
  obtain ⟨o, ρ, v, w, t, shows, shows'⟩ := t
  obtain ⟨hs, rfl⟩ := t.space s s' h
  refine Both.of_ends (shows.findEntry t.sound.separate hs va)
    (shows'.findEntry t.sound'.separate (t.alike.live' hs) va) ?_
  rintro _ _ m' n' ⟨rfl, h⟩ ⟨rfl, h'⟩
  refine ⟨⟨ρ, ?_⟩, o, ρ, v, w, t, h, h'⟩
  rw [t.alike.link s hs, t.alike.leaf s hs, Option.map_map, Option.map_map]
  rfl

theorem release (t : Twins c m n) (h : c.pages f g) :
    Both (PagedMemory.release f) (PagedMemory.release g) m n fun _ _ m' n' =>
      Twins (c.drop f) m' n' := by
  obtain ⟨o, ρ, v, w, t, shows, shows'⟩ := t
  obtain ⟨o', t'⟩ := t.release h
  obtain ⟨rfl, tracked, -, owed⟩ := t.page f g h
  have owed' : 0 < (o ∘ ρ.symm) (ρ f) := by rwa [Function.comp_apply, ρ.symm_apply_apply]
  refine Both.of_ends (shows.freePage t.sound tracked owed)
    (shows'.freePage t.sound' ((t.alike.tracks' f).trans tracked) owed') fun _ _ m' n' h h' => ?_
  exact ⟨o', ρ, _, _, t', h, h'⟩

theorem mapOne (t : Twins c m n) (hs : c.spaces s s') (h : c.pages f g) (va : VirtualAddress) :
    BothTry (s.mapOne f va .userWritable) (s'.mapOne g va .userWritable) m n
      (fun _ _ m' n' => Twins (c.drop f) m' n') (Twins c) := by
  obtain ⟨o, ρ, v, w, t, shows, shows'⟩ := t
  obtain ⟨live, live'⟩ := t.live hs
  refine BothTry.of_tries (shows.mapOne t.sound live f va .userWritable)
    (shows'.mapOne t.sound' live' g va .userWritable) ?_ ?_ ?_ ?_
  · rintro _ _ m' n' ⟨a, v', covers, h₁⟩ ⟨a', w', covers', h₁'⟩
    obtain ⟨ρ', t'⟩ := t.covers hs covers covers'
    obtain ⟨live, rfl⟩ := t'.space s s' hs
    obtain ⟨o', t''⟩ := t'.install live h va.splitSlots
    exact ⟨o', ρ', _, _, t'', h₁, h₁'⟩
  · rintro _ _ m' n' ⟨rfl, -, -, h₁⟩ ⟨rfl, -, -, h₁'⟩
    exact ⟨rfl, o, ρ, v, w, t, h₁, h₁'⟩
  · rintro _ _ m' n' ⟨a, v', covers, -⟩ ⟨-, vacant, full, -⟩
    exact t.not_covers hs covers vacant full
  · rintro _ _ m' n' ⟨-, vacant, full, -⟩ ⟨a', w', covers', -⟩
    exact t.not_covers' hs covers' vacant full

/-- A frame is taken on both sides, or memory has run out on both. -/
theorem allocFrame (t : Twins c m n) :
    BothTry PagedMemory.allocFrame PagedMemory.allocFrame m n (Fresh c) (Twins c) := by
  obtain ⟨o, ρ, v, w, t, shows, shows'⟩ := t
  refine BothTry.of_tries shows.allocFrame shows'.allocFrame ?_ ?_ ?_ ?_
  · rintro f g m' n' ⟨free, b, h⟩ ⟨free', b', h'⟩
    obtain ⟨ρ', new, t'⟩ := t.fresh free free'
    exact ⟨o, ρ', v, w, b, b', t', free, new, free', h, h'⟩
  · rintro _ _ m' n' ⟨rfl, -, h⟩ ⟨rfl, -, h'⟩
    exact ⟨rfl, o, ρ, v, w, t, h, h'⟩
  · rintro f _ m' n' ⟨free, -⟩ ⟨-, full, -⟩
    exact t.alike.no_free full f free
  · rintro _ g m' n' ⟨-, full, -⟩ ⟨free, -⟩
    exact t.alike.no_free' full g free

end Twins

namespace Fresh

variable {c : Pairs} {m n : Machine} {f g : FrameId}

/-- A frame that was taken is not among the pages in hand. -/
theorem not_held (fresh : Fresh c f g m n) : ¬ c.held f := by
  obtain ⟨o, ρ, v, w, b, b', t, free, -⟩ := fresh
  exact t.not_held free

/-- Both machines clear pages without backing. -/
theorem currentConfig (fresh : Fresh c f g m n) :
    Both PagedMemory.currentConfig PagedMemory.currentConfig m n fun a b m' n' =>
      a.zeroFill = true ∧ b.zeroFill = true ∧ Fresh c f g m' n' := by
  obtain ⟨o, ρ, v, w, b, b', t, free, new, free', shows, shows'⟩ := fresh
  refine Both.of_ends shows.currentConfig shows'.currentConfig ?_
  rintro _ _ m' n' ⟨rfl, h⟩ ⟨rfl, h'⟩
  exact ⟨t.clears, (congrArg Config.zeroFill t.alike.config).trans t.clears,
    o, ρ, v, w, b, b', t, free, new, free', h, h'⟩

/-- Once it is cleared, the frame is a page in hand like any other. -/
theorem zeroFrame (fresh : Fresh c f g m n) :
    Both (PagedMemory.zeroFrame f) (PagedMemory.zeroFrame g) m n fun _ _ m' n' =>
      Twins (c.hold f g) m' n' := by
  obtain ⟨o, ρ, v, w, b, b', t, free, rfl, free', shows, shows'⟩ := fresh
  refine Both.of_ends (Machine.Shows.clearGranted t.sound free shows)
    (Machine.Shows.clearGranted t.sound' free' shows') fun _ _ m' n' h h' => ?_
  exact ⟨_, ρ, _, _, t.hold free Frame.zero, h, h'⟩

/-- A frame that nothing was done with is given back. -/
theorem release (fresh : Fresh c f g m n) :
    Both (PagedMemory.release f) (PagedMemory.release g) m n fun _ _ m' n' => Twins c m' n' := by
  obtain ⟨o, ρ, v, w, b, b', t, free, rfl, free', shows, shows'⟩ := fresh
  refine Both.of_ends (shows.ungrant t.sound free) (shows'.ungrant t.sound' free')
    fun _ _ m' n' h h' => ⟨o, ρ, v, w, t, h, h'⟩

end Fresh

end PagedMemory
