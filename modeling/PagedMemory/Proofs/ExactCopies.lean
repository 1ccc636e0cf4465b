import PagedMemory.Proofs.Memory
import PagedMemory.Proofs.Seen
import PagedMemory.Proofs.VerifiedAreas

/-!
# Copies are exact

What a process reads at an address is found through its tables (`Space.byte?`). A copy to user
memory goes through the range piece by piece. To make one page ready for the kernel, pages are
filled, shared with other processes and moved to other frames, among them pages of the same range.
None of this changes a byte that some process can read (`View.Leads.byte?`), and a page that has
been written to keeps its entry, since only pages without changes are shared
(`View.Leads.leaf_of_dirty`).

So the copy may be told by the bytes that have been stored so far (`Machine.Copied`), whether it is
complete or has been given up at some page. Every page that it has gone through is ready to be read,
which is why reading the range back changes nothing at all.
-/

namespace PagedMemory

variable {m m' m₁ : Machine} {v v' w : View} {o o' : Owed} {live : Finset Space} {owed : Owed}
  {env : Environment} {config : Config} {within : VirtualAddress → Prop} {s : Space} {k : Place}
  {e : Entry} {address va x : VirtualAddress} {bytes : List UInt8} {b : UInt8} {n : Nat}

/-! ## Addresses of a range -/

/-- The address is one of the `n` from another one on. -/
def Address.InRange (x address : VirtualAddress) (n : Nat) : Prop :=
  address.value ≤ x.value ∧ x.value < address.value + n

/-! ## Bytes that are read -/

theorem Address.inset_lt (x : VirtualAddress) : x.value % 4096 < 4096 :=
  Nat.mod_lt _ (by decide)

/-- The byte of a page at an address. -/
def Frame.byteAt (f : Frame) (x : VirtualAddress) : UInt8 :=
  f.get ⟨x.value % 4096, x.inset_lt⟩

/-- Reading a piece of a page that holds the bytes one by one. -/
theorem Frame.read_of_byteAt {frame : Frame} (inside : va.value % 4096 + bytes.length ≤ 4096)
    (holds : ∀ i < bytes.length, bytes[i]? = some (frame.byteAt (va.wrappingAdd i))) :
    Frame.read frame (va.offset .small).value bytes.length = bytes := by
  have offset : (va.offset .small).value = va.value % 4096 := rfl
  refine List.ext_getElem? fun i => ?_
  rw [Frame.read, offset, List.getElem?_take]
  split
  · next short =>
    have index : va.value % 4096 + i = (va.wrappingAdd i).value % 4096 := by
      simp only [Address.wrappingAdd]
      omega
    rw [holds i short, List.getElem?_drop, index, Vector.getElem?_toList]
    exact Vector.getElem?_eq_getElem _
  · next beyond => exact (List.getElem?_eq_none (Nat.not_lt.mp beyond)).symm

/-- The byte that a space reads at an address, if the page is present. -/
def Space.byte? (s : Space) (r : Ram) (x : VirtualAddress) : Option UInt8 :=
  match s.entry r x with
  | .ok (some e) => if e.present then (r.frame? e.frame).map (Frame.byteAt · x) else none
  | _ => none

/-- The page has been written to and can be written to again. -/
structure Entry.Settled (e : Entry) : Prop where
  present : e.present = true
  writable : e.writable = true
  accessed : e.accessed = true
  dirty : e.dirty = true

namespace View

/-- The byte that is seen at an address, if the page is present. -/
def byte? (v : View) (s : Space) (x : VirtualAddress) : Option UInt8 :=
  (v.seen s x.splitSlots).map (Frame.byteAt · x)

/-- Pages that are seen are neither filled nor shared with another one, and any other answer leaves
what is seen alone. -/
theorem Act.seen_of_accesses {c : Change} {b : Frame} (act : Act v o c v' o')
    (accesses : env.Accesses config within c) (sound : v.Sound o) (hs : s ∈ v.live)
    (seen : v.seen s k = some b) : v'.seen s k = some b := by
  by_cases spares : c.Spares s k
  · rwa [act.seen_of_spares sound hs spares]
  have filled {s' : Space} {k' : Place} (absent : (v.leaf s' k').present = false)
      (here : s = s' ∧ k = k') : v'.seen s k = some b := by
    obtain ⟨rfl, rfl⟩ := here
    rw [seen_of_absent absent] at seen
    cases seen
  cases accesses with
  | note => exact absurd trivial spares
  | touch => exact absurd trivial spares
  | serve owner inside serves =>
    cases serves with
    | anonymous =>
      cases act with
      | fill hs' absent free => exact filled absent (not_not.mp spares)
    | loaded =>
      cases act with
      | fill hs' absent free => exact filled absent (not_not.mp spares)
    | shared =>
      cases act with
      | share hs' hs'' present absent => exact filled absent (not_not.mp spares)
    | _ => exact absurd trivial spares

/-- A page with changes is never the source of another one, so its entry is changed only by an
access to the page itself. -/
theorem Act.leaf_of_dirty {c : Change} (act : Act v o c v' o')
    (accesses : env.Accesses config within c) (dirty : (v.leaf s k).dirty = true)
    (other : ∀ va, within va → k ≠ va.splitSlots) : v'.leaf s k = v.leaf s k := by
  have apart {s' : Space} {va : VirtualAddress} (inside : within va) :
      ¬ (s = s' ∧ k = va.splitSlots) := fun same => other va inside same.2
  cases accesses with
  | note =>
    cases act with
    | note => rfl
  | touch owner inside =>
    cases act with
    | touch => exact leaf_setLeaf_of_ne _ (apart inside)
  | serve owner inside serves =>
    cases serves with
    | note =>
      cases act with
      | note => rfl
    | link =>
      cases act with
      | link => rfl
    | anonymous =>
      cases act with
      | fill => exact leaf_setLeaf_of_ne _ (apart inside)
    | loaded =>
      cases act with
      | fill => exact leaf_setLeaf_of_ne _ (apart inside)
    | permit =>
      cases act with
      | permit => exact leaf_setLeaf_of_ne _ (apart inside)
    | copy =>
      cases act with
      | copy => exact leaf_setLeaf_of_ne _ (apart inside)
    | shared runs backed asked clean =>
      cases act with
      | share hs hs' present absent =>
        refine leaf_aliased_of_ne ?_ (apart inside)
        rintro ⟨rfl, rfl⟩
        rw [Entry.isClean, dirty, Bool.not_true, Bool.and_false] at clean
        cases clean

namespace Leads

/-- Whatever is done to reach a page, everybody reads what they did. -/
theorem byte? (leads : v.Leads (env.Accesses config within) w) (sound : v.Sound o)
    (hs : s ∈ v.live) (here : v.byte? s x = some b) : w.byte? s x = some b := by
  obtain ⟨frame, seen, rfl⟩ := Option.map_eq_some_iff.mp here
  have still := (leads.acts o).preserves
    (P := fun u o => u.Sound o ∧ s ∈ u.live ∧ u.seen s x.splitSlots = some frame)
    (fun _ _ _ _ _ accesses act h => ⟨act.sound h.1, act.live (fun _ => accesses.lasting _) ▸ h.2.1,
      act.seen_of_accesses accesses h.1 h.2.1 h.2.2⟩) ⟨sound, hs, seen⟩
  rw [View.byte?, still.2.2]
  rfl

theorem leaf_of_dirty (leads : v.Leads (env.Accesses config within) w)
    (dirty : (v.leaf s k).dirty = true) (other : ∀ va, within va → k ≠ va.splitSlots) :
    w.leaf s k = v.leaf s k := by
  refine (leads.acts 0).preserves (P := fun u _ => u.leaf s k = v.leaf s k) ?_ rfl
  intro c u o u' o' accesses act same
  exact (act.leaf_of_dirty accesses (same ▸ dirty) other).trans same

end Leads

end View

/-! ## Copying -/

namespace Machine

/-- Memory holds what can be seen. -/
theorem Shows.byte?_eq (shows : m.Shows v) (sound : v.Sound o) (hs : s ∈ v.live)
    (x : VirtualAddress) : s.byte? m.ram x = v.byte? s x := by
  unfold Space.byte?
  cases present : (v.leaf s x.splitSlots).present with
  | true =>
    have held := shows.frame?_eq (sound.mapped s hs _ present)
      (sound.not_hidden_of_leaf hs (View.refers_leaf present))
    rw [shows.entry_of_present sound.separate hs present, View.byte?, View.seen_of_present present]
    dsimp only
    rw [if_pos present, held]
  | false =>
    obtain ⟨found, entry, absent⟩ := shows.absent_of_entry sound.separate hs present
    rw [entry, View.byte?, View.seen_of_absent present]
    cases found with
    | none => rfl
    | some e =>
      dsimp only
      rw [absent e rfl]
      rfl

/-- The first `n` bytes of a buffer have been stored from an address of a space on, and every other
byte that could be read before reads as it did. -/
structure Copied (m : Machine) (live : Finset Space) (s : Space) (address : VirtualAddress)
    (bytes : List UInt8) (n : Nat) (m' : Machine) : Prop where
  entries : ∀ x : VirtualAddress, x.InRange address n →
    ∃ e, s.entry m'.ram x = .ok (some e) ∧ e.Settled
  stored : ∀ x : VirtualAddress, x.InRange address n →
    s.byte? m'.ram x = bytes[x.value - address.value]?
  kept : ∀ s' ∈ live, ∀ (x : VirtualAddress) b, ¬ (s' = s ∧ x.InRange address n) →
    s'.byte? m.ram x = some b → s'.byte? m'.ram x = some b

/-- A store in a page that can be written to is read there, and nowhere else. -/
theorem byte?_of_store {s' : Space} {frame : Frame} (sound₁ : (m₁.view live).Sound owed)
    (hs : s ∈ live) (hs' : s' ∈ live) (ready : (s.leaf m₁.ram va.splitSlots).Settled)
    (shows : m'.Shows ((m₁.view live).setBytes (s.leaf m₁.ram va.splitSlots).frame frame)) :
    s'.byte? m'.ram x = if s' = s ∧ x.splitSlots = va.splitSlots then some (frame.byteAt x)
      else s'.byte? m₁.ram x := by
  rw [shows.byte?_eq (sound₁.setBytes _ _) hs', (m₁.shows_view live).byte?_eq sound₁ hs',
    View.byte?, View.byte?]
  split
  · next here =>
    rw [here.1, here.2]
    exact congrArg (Option.map _) (View.seen_store_self (v := m₁.view live) ready.present)
  · next other =>
    exact congrArg (Option.map _) (View.seen_store_of_ne (v := m₁.view live) sound₁ hs hs'
      ready.present ready.writable other)

/-- What holds of the next piece if `n` bytes have been stored. It begins behind them, with its page
unless it is the first one, and ends in this page. -/
structure Next (address : VirtualAddress) (bytes : List UInt8) (n : Nat) (chunk : Chunk)
    (va : VirtualAddress) : Prop where
  place : va.value = address.value + n
  start : chunk.start = n
  inside : n + chunk.length ≤ bytes.length
  begins : n = 0 ∨ va.value % 4096 = 0
  ends : va.value % 4096 + chunk.length ≤ 4096

namespace Next

variable {chunk : Chunk}

/-- The pages that have been written to are none of those that the piece lies in. -/
theorem ne_splitSlots (next : Next address bytes n chunk va) (before : x.InRange address n) :
    x.splitSlots ≠ va.splitSlots := by
  rw [Ne, Address.splitSlots_eq_iff]
  have place := next.place
  obtain ⟨above, below⟩ := before
  obtain rfl | aligned := next.begins
  · omega
  · omega

/-- The addresses of the piece. -/
theorem inRange_add_iff (next : Next address bytes n chunk va) (fresh : ¬ x.InRange address n) :
    x.InRange address (n + chunk.length) ↔
      va.value ≤ x.value ∧ x.value < va.value + chunk.length := by
  unfold Address.InRange at *
  rw [next.place]
  omega

theorem splitSlots_eq (next : Next address bytes n chunk va) (above : va.value ≤ x.value)
    (below : x.value < va.value + chunk.length) : x.splitSlots = va.splitSlots := by
  rw [Address.splitSlots_eq_iff]
  have ends := next.ends
  omega

/-- The bytes of the page once the piece has been stored in it. -/
theorem byteAt_write (next : Next address bytes n chunk va) (before : Frame)
    (same : x.splitSlots = va.splitSlots) :
    (before.write (va.offset .small).value ((bytes.drop chunk.start).take chunk.length)).byteAt x =
      if va.value ≤ x.value ∧ x.value < va.value + chunk.length then
        bytes[x.value - address.value]?.getD (before.byteAt x)
      else before.byteAt x := by
  rw [Address.splitSlots_eq_iff] at same
  have place := next.place
  have ends := next.ends
  have offset : (va.offset .small).value = va.value % 4096 := rfl
  refine (Frame.getElem_write _ _ _ _ x.inset_lt).trans ?_
  rw [offset, next.start]
  by_cases above : va.value ≤ x.value
  · have index : n + (x.value % 4096 - va.value % 4096) = x.value - address.value := by omega
    rw [if_pos (by omega), List.getElem?_take, List.getElem?_drop, index]
    by_cases below : x.value < va.value + chunk.length
    · rw [if_pos (by omega), if_pos ⟨above, below⟩]
      rfl
    · rw [if_neg (by omega), if_neg fun within => below within.2]
      rfl
  · rw [if_neg (by omega), if_neg fun within => above within.1]
    rfl

end Next

namespace Copied

variable {chunk : Chunk}

theorem start (m : Machine) : m.Copied live s address bytes 0 m where
  entries := fun _ inside => absurd inside.2 (Nat.not_lt.mpr inside.1)
  stored := fun _ inside => absurd inside.2 (Nat.not_lt.mpr inside.1)
  kept := fun _ _ _ _ _ here => here

/-- Reaching for the page of the next piece. -/
theorem reach (copied : m.Copied live s address bytes n m₁)
    (next : Next address bytes n chunk va) (sound₁ : (m₁.view live).Sound owed) (hs : s ∈ live)
    (leads : (m₁.view live).Leads (env.Accesses config (· = va)) w) (shows : m'.Shows w) :
    m.Copied live s address bytes n m' := by
  have sound' := (leads.acts owed).sound sound₁
  have same : w.live = live := (leads.acts owed).live_of_accesses
  have read (s' : Space) (hs' : s' ∈ live) (x : VirtualAddress) (b : UInt8)
      (here : s'.byte? m₁.ram x = some b) : s'.byte? m'.ram x = some b := by
    rw [(m₁.shows_view live).byte?_eq sound₁ hs'] at here
    rw [shows.byte?_eq sound' (same ▸ hs')]
    exact leads.byte? sound₁ hs' here
  refine ⟨fun x before => ?_, fun x before => ?_, fun s' hs' x b outside here => ?_⟩
  · obtain ⟨e, found, settled⟩ := copied.entries x before
    obtain rfl := leaf_of_entry sound₁ hs found
    have leaf : w.leaf s x.splitSlots = s.leaf m₁.ram x.splitSlots := by
      refine leads.leaf_of_dirty settled.dirty ?_
      rintro va rfl
      exact next.ne_splitSlots before
    refine ⟨_, ?_, settled⟩
    rw [shows.entry_of_present sound'.separate (same ▸ hs) (leaf ▸ settled.present), leaf]
  · have within : x.value - address.value < bytes.length := by
      have := next.inside
      obtain ⟨above, below⟩ := before
      omega
    rw [List.getElem?_eq_getElem within]
    refine read s hs x _ ?_
    rw [copied.stored x before, List.getElem?_eq_getElem within]
  · exact read s' hs' x b (copied.kept s' hs' x b outside here)

/-- Storing the next piece once its page is ready. -/
theorem store (copied : m.Copied live s address bytes n m₁)
    (next : Next address bytes n chunk va) (sound₁ : (m₁.view live).Sound owed) (hs : s ∈ live)
    (ready : (s.leaf m₁.ram va.splitSlots).Settled)
    (shows : m'.Shows ((m₁.view live).setBytes (s.leaf m₁.ram va.splitSlots).frame
      ((m₁.ram.bytes (s.leaf m₁.ram va.splitSlots).frame).write (va.offset .small).value
        ((bytes.drop chunk.start).take chunk.length)))) :
    m.Copied live s address bytes (n + chunk.length) m' := by
  have read {s' : Space} (hs' : s' ∈ live) {x : VirtualAddress} :=
    byte?_of_store (x := x) sound₁ hs hs' ready shows
  refine ⟨fun x inside => ?_, fun x inside => ?_, fun s' hs' x b outside held => ?_⟩
  · have settled : (s.leaf m₁.ram x.splitSlots).Settled := by
      by_cases before : x.InRange address n
      · obtain ⟨e, found, settled⟩ := copied.entries x before
        rwa [leaf_of_entry sound₁ hs found]
      · obtain ⟨above, below⟩ := (next.inRange_add_iff before).mp inside
        rwa [next.splitSlots_eq above below]
    exact ⟨_, shows.entry_of_present (sound₁.setBytes _ _).separate hs settled.present, settled⟩
  · by_cases before : x.InRange address n
    · rw [read hs, if_neg fun same => next.ne_splitSlots before same.2, copied.stored x before]
    · have piece := (next.inRange_add_iff before).mp inside
      have same := next.splitSlots_eq piece.1 piece.2
      have within : x.value - address.value < bytes.length := by
        have := next.inside
        have := next.place
        omega
      rw [read hs, if_pos ⟨rfl, same⟩, next.byteAt_write _ same, if_pos piece,
        List.getElem?_eq_getElem within, Option.getD_some]
  · have outside' : ¬ (s' = s ∧ x.InRange address n) := by
      rintro ⟨rfl, above, below⟩
      exact outside ⟨rfl, above, by omega⟩
    have still := copied.kept s' hs' x b outside' held
    rw [read hs']
    split
    · next here =>
      obtain ⟨rfl, same⟩ := here
      have beyond : ¬ (va.value ≤ x.value ∧ x.value < va.value + chunk.length) := fun piece =>
        outside ⟨rfl, (next.inRange_add_iff fun before => outside' ⟨rfl, before⟩).mpr piece⟩
      rw [(m₁.shows_view live).byte?_eq sound₁ hs', View.byte?, same,
        View.seen_of_present (v := m₁.view live) ready.present] at still
      rw [next.byteAt_write _ same, if_neg beyond]
      exact still
    · exact still

end Copied

/-- The next piece, when those before it have been stored. -/
theorem next_of_pageChunks {before after : List Chunk} {chunk : Chunk}
    (fits : address.value + bytes.length ≤ 4294967296)
    (cut : pageChunks address bytes.length = before ++ chunk :: after) :
    Next address bytes (before.map Chunk.length).sum chunk (address.wrappingAdd chunk.start) := by
  have among : chunk ∈ pageChunks address bytes.length := by
    rw [cut]
    exact List.mem_append_right _ List.mem_cons_self
  have inside := of_mem_pageChunks among
  have begins := begins_of_mem_pageChunks among
  have contiguous := contiguous_pageChunks address bytes.length
  rw [cut] at contiguous
  obtain ⟨start, -⟩ := contiguous.of_append
  rw [Nat.zero_add] at start
  have place : (address.wrappingAdd chunk.start).value = address.value + chunk.start :=
    Nat.mod_eq_of_lt (by omega)
  rw [← start]
  exact ⟨place, rfl, inside.2.1, place ▸ begins.2, place ▸ inside.2.2⟩

/-- A piece is stored once its page has been reached, and not at all if that fails. -/
theorem Copied.copyChunkOut {chunk : Chunk} (copied : m.Copied live s address bytes n m₁)
    (next : Next address bytes n chunk (address.wrappingAdd chunk.start))
    (sound₁ : (m₁.view live).Sound owed) (named : env.Names live)
    (owner : env.addressSpace env.current = some s) :
    Tries (PagedMemory.copyChunkOut env address bytes chunk) m₁ Exhausts
      (fun _ m' => (m'.view live).Sound owed ∧
        m.Copied live s address bytes (n + chunk.length) m')
      (fun _ m' => m.Copied live s address bytes n m') := by
  have hs := named _ s owner
  refine Tries.bind (((m₁.shows_view live).access sound₁ named _ true).mono_failed ?_) ?_
  · rintro cause m₂ ⟨w, leads, shows₂⟩
    exact copied.reach next sound₁ hs leads shows₂
  · rintro f m₂ ⟨s', w, accessed, rfl, shows₂⟩
    obtain rfl : s = s' := Option.some.inj (owner.symm.trans accessed.owner)
    have same : w.live = live := (accessed.acts owed).live_of_accesses
    have sound₂ : (m₂.view live).Sound owed :=
      same ▸ shows₂.sound_view ((accessed.acts owed).sound sound₁)
    rw [← shows₂.leaf s (same ▸ hs)]
    have ready : (s.leaf m₂.ram (address.wrappingAdd chunk.start).splitSlots).Settled := by
      rw [shows₂.leaf s (same ▸ hs)]
      exact ⟨accessed.present, (accessed.ready rfl).1, accessed.accessed, (accessed.ready rfl).2⟩
    refine Tries.lift (((m₂.shows_view live).modifyFrame _ (sound₂.mapped s hs _ ready.present)
      (sound₂.not_hidden_of_leaf hs (View.refers_leaf (v := m₂.view live) ready.present))).mono
        fun _ m₃ shows₃ => ?_)
    exact ⟨shows₃.sound_view (sound₂.setBytes _ _),
      (copied.reach next sound₁ hs accessed.toLeads shows₂).store next sound₂ hs ready shows₃⟩

/-- A copy stores the pieces in turn. If it is given up, then at a piece whose page could not be
reached, with the pieces before it stored. -/
theorem copyToUser_copies (sound : (m.view live).Sound owed) (named : env.Names live)
    (owner : env.addressSpace env.current = some s)
    (fits : address.value + bytes.length ≤ 4294967296) :
    Tries (PagedMemory.copyToUser env address bytes) m Exhausts
      (fun _ m' => m.Copied live s address bytes bytes.length m')
      (fun cause m' => ∃ before chunk after m₁,
        pageChunks address bytes.length = before ++ chunk :: after ∧
        outcome (before.forM (PagedMemory.copyChunkOut env address bytes)) m = .ok (.ok (), m₁) ∧
        outcome (PagedMemory.copyChunkOut env address bytes chunk) m₁ = .ok (.error cause, m') ∧
        m.Copied live s address bytes chunk.start m') := by
  unfold PagedMemory.copyToUser requireNoWrap
  rw [if_pos fits]
  refine Tries.lift_bind (P := fun _ m' => m = m') (Ends.pure rfl) ?_
  rintro _ _ rfl
  refine (Tries.forM_done (P := fun before m₁ => (m₁.view live).Sound owed ∧
    m.Copied live s address bytes (before.map Chunk.length).sum m₁)
    (Q := fun _ chunk m' => m.Copied live s address bytes chunk.start m') ?_
    ⟨sound, .start m⟩).mono_done ?_
  · rintro before chunk after m₁ cut ⟨sound₁, copied⟩
    have next := next_of_pageChunks fits cut
    refine (copied.copyChunkOut next sound₁ named owner).mono ?_ ?_
    · rintro _ m₂ ⟨sound₂, copied₂⟩
      rw [List.map_append, List.sum_append, List.map_singleton, List.sum_singleton]
      exact ⟨sound₂, copied₂⟩
    · rintro cause m₂ copied₂
      rwa [next.start]
  · rintro _ m' ⟨-, copied⟩
    have contiguous := contiguous_pageChunks address bytes.length
    rw [← List.append_nil (pageChunks address bytes.length)] at contiguous
    have total : 0 + ((pageChunks address bytes.length).map Chunk.length).sum = bytes.length :=
      contiguous.of_append
    rwa [← total, Nat.zero_add]

end Machine

/-! ## Reading back -/

namespace Space

theorem entry_congr_slots {r : Ram} (same : x.splitSlots = va.splitSlots) :
    s.entry r x = s.entry r va := by
  obtain ⟨directory, table⟩ := Prod.mk.inj same
  rw [Space.entry, Space.entry, tableOf, tableOf, directory, table]

theorem table_of_entry {r : Ram} (found : s.entry r va = .ok (some e)) :
    ∃ t, s.tableOf r va = .ok (some t) ∧ r.entry t va.tableSlot = .ok e := by
  unfold Space.entry at found
  split at found
  · next t linked =>
    refine ⟨t, linked, ?_⟩
    cases entry : r.entry t va.tableSlot with
    | error cause =>
      rw [entry] at found
      cases found
    | ok e' =>
      rw [entry] at found
      cases found
      rfl
  · cases found
  · cases found

/-- The bytes of a page that is present. -/
theorem byte?_of_entry {r : Ram} {frame : Frame} (found : s.entry r va = .ok (some e))
    (present : e.present = true) (held : r.frame? e.frame = some frame)
    (same : x.splitSlots = va.splitSlots) : s.byte? r x = some (frame.byteAt x) := by
  rw [byte?, entry_congr_slots same, found]
  dsimp only
  rw [if_pos present, held, Option.map_some]

/-- An entry that stays as it is. -/
theorem updateEntry_of_fixed {change : Entry → Entry} (found : s.entry m.ram va = .ok (some e))
    (fixed : change e = e) : s.updateEntry va change m = .ok (some e, m) := by
  obtain ⟨t, linked, entry⟩ := table_of_entry found
  obtain ⟨frame, held, rfl⟩ := Ram.entry_eq_ok_iff.mp entry
  have inside : t.index < m.ram.size := by
    by_contra outside
    rw [Ram.frame?_eq_none_iff.mpr (Nat.not_lt.mp outside)] at held
    cases held
  have same : m.ram.modify t (fun b => b.setEntry va.tableSlot (frame.entry va.tableSlot)) =
      m.ram := by
    refine Ram.modify_of_fixed fun frame' held' => ?_
    rw [held] at held'
    cases held'
    exact frame.setEntry_entry _
  refine bind_eq_ok_iff.mpr ⟨_, m, inspect_eq_ok_iff.mpr ⟨linked, rfl⟩, ?_⟩
  refine bind_eq_ok_iff.mpr ⟨_, m, inspect_eq_ok_iff.mpr ⟨entry, rfl⟩, ?_⟩
  rw [fixed]
  refine bind_eq_ok_iff.mpr ⟨(), m, modifyFrame_eq_ok_iff.mpr ⟨inside, ?_⟩, rfl⟩
  rw [same]

end Space

namespace Machine

/-- To read a page that has been read before leaves no trace. -/
theorem access_of_accessed (owner : env.addressSpace env.current = some s)
    (found : s.entry m.ram va = .ok (some e)) (present : e.present = true)
    (accessed : e.accessed = true) :
    outcome (PagedMemory.access env va false) m = .ok (.ok e.frame, m) := by
  have fixed : e.touched false = e := by
    rw [Entry.touched, Bool.or_false, ← accessed]
  have fine : faultOf e false = none :=
    faultOf_eq_none_iff.mpr ⟨present, fun writes => absurd writes Bool.false_ne_true⟩
  show outcome (PagedMemory.accessWithin env va false (2 + 1)) m = _
  rw [PagedMemory.accessWithin, owner]
  refine (outcome_lift_bind_of_run (inspect_eq_ok_iff.mpr ⟨found, rfl⟩)).trans ?_
  dsimp only [Option.getD_some]
  rw [fine]
  dsimp only
  rw [discard_eq_bind, bind_assoc]
  exact outcome_lift_bind_of_run (Space.updateEntry_of_fixed found fixed)

theorem copyChunkIn_of_accessed {chunk : Chunk} {frame : Frame}
    (owner : env.addressSpace env.current = some s)
    (found : s.entry m.ram (address.wrappingAdd chunk.start) = .ok (some e))
    (present : e.present = true) (accessed : e.accessed = true)
    (held : m.ram.frame? e.frame = some frame) :
    outcome (PagedMemory.copyChunkIn env address chunk) m = .ok (.ok (Frame.read frame
      ((address.wrappingAdd chunk.start).offset .small).value chunk.length), m) := by
  have reach := access_of_accessed owner found present accessed
  refine (outcome_bind_of_run reach).trans ?_
  refine outcome_lift_bind_of_run (inspect_eq_ok_iff.mpr ⟨?_, rfl⟩)
  simp only [Ram.frame, held]

namespace Copied

variable {chunk : Chunk}

/-- The frame of a page that has been written to, and what it holds of the buffer. -/
theorem frame_of_inRange (copied : m.Copied live s address bytes n m') (most : n ≤ bytes.length)
    (inside : va.InRange address n) : ∃ e frame, s.entry m'.ram va = .ok (some e) ∧ e.Settled ∧
      m'.ram.frame? e.frame = some frame ∧ ∀ x : VirtualAddress, x.InRange address n →
        x.splitSlots = va.splitSlots →
          bytes[x.value - address.value]? = some (frame.byteAt x) := by
  obtain ⟨e, found, settled⟩ := copied.entries va inside
  have stored := copied.stored va inside
  have short : va.value - address.value < bytes.length := by
    obtain ⟨above, below⟩ := inside
    omega
  rw [Space.byte?, found, List.getElem?_eq_getElem short] at stored
  dsimp only at stored
  rw [if_pos settled.present] at stored
  obtain ⟨frame, held, -⟩ := Option.map_eq_some_iff.mp stored
  refine ⟨e, frame, found, settled, held, fun x within same => ?_⟩
  rw [← copied.stored x within, Space.byte?_of_entry found settled.present held same]

/-- A piece is read back where it was stored. -/
theorem copyChunkIn (copied : m.Copied live s address bytes bytes.length m')
    (fits : address.value + bytes.length ≤ 4294967296)
    (owner : env.addressSpace env.current = some s)
    (among : chunk ∈ pageChunks address bytes.length) :
    outcome (PagedMemory.copyChunkIn env address chunk) m' =
      .ok (.ok ((bytes.drop chunk.start).take chunk.length), m') := by
  obtain ⟨starts, inside, ends⟩ := of_mem_pageChunks among
  have place : (address.wrappingAdd chunk.start).value = address.value + chunk.start :=
    Nat.mod_eq_of_lt (by omega)
  generalize here : address.wrappingAdd chunk.start = va at place
  have first : va.InRange address bytes.length := ⟨by omega, by omega⟩
  obtain ⟨e, frame, found, settled, held, holds⟩ := copied.frame_of_inRange (Nat.le_refl _) first
  have length : ((bytes.drop chunk.start).take chunk.length).length = chunk.length := by
    rw [List.length_take, List.length_drop]
    omega
  have piece : Frame.read frame (va.offset .small).value
      ((bytes.drop chunk.start).take chunk.length).length =
        (bytes.drop chunk.start).take chunk.length := by
    refine Frame.read_of_byteAt (by omega) fun i short => ?_
    rw [length] at short
    have value : (va.wrappingAdd i).value = va.value + i := Nat.mod_eq_of_lt (by omega)
    have index : (va.wrappingAdd i).value - address.value = chunk.start + i := by omega
    have same : (va.wrappingAdd i).splitSlots = va.splitSlots := by
      rw [Address.splitSlots_eq_iff]
      omega
    rw [List.getElem?_take, if_pos short, List.getElem?_drop, ← index]
    exact holds _ ⟨by omega, by omega⟩ same
  rw [length] at piece
  rw [← here] at found
  rw [copyChunkIn_of_accessed owner found settled.present settled.accessed held, here, piece]

/-- Reading the range back gives what was stored, and changes nothing. -/
theorem copyFromUser (copied : m.Copied live s address bytes bytes.length m')
    (fits : address.value + bytes.length ≤ 4294967296)
    (owner : env.addressSpace env.current = some s) :
    outcome (PagedMemory.copyFromUser env address bytes.length) m' = .ok (.ok bytes, m') := by
  unfold PagedMemory.copyFromUser requireNoWrap
  rw [if_pos fits]
  refine (outcome_lift_bind_of_run (a := ()) rfl).trans ?_
  refine (outcome_bind_of_run (outcome_mapM_of_fixed fun chunk among =>
    copied.copyChunkIn fits owner among)).trans ?_
  rw [(contiguous_pageChunks address bytes.length).flatten, List.drop_zero]
  rfl

end Copied

/-- A copy was given up at a piece whose page could not be reached. The pieces before it have been
stored, and nothing else has. -/
structure CutShort (m : Machine) (live : Finset Space) (env : Environment) (s : Space)
    (address : VirtualAddress) (bytes : List UInt8) (cause : MemoryError) (chunk : Chunk)
    (m' : Machine) : Prop where
  failed : ∃ before after m₁, pageChunks address bytes.length = before ++ chunk :: after ∧
    outcome (before.forM (PagedMemory.copyChunkOut env address bytes)) m = .ok (.ok (), m₁) ∧
    outcome (PagedMemory.copyChunkOut env address bytes chunk) m₁ = .ok (.error cause, m')
  copied : m.Copied live s address bytes chunk.start m'

end Machine

/-- Copies to user memory are exact. A copy that succeeds has made every page of its range ready to
be written to and read, and has left all other bytes alone that could be read. Reading it back gives
the same bytes and raises no fault, since not even the journal changes. A copy that fails has stored
what lies before the page that it failed at, and nothing else. The pieces that are copied in turn
are not empty, make up the range, and lie in one page each. -/
theorem user_copies_are_exact (sound : (m.view live).Sound owed) (named : env.Names live)
    (owner : env.addressSpace env.current = some s)
    (fits : address.value + bytes.length ≤ 4294967296) :
    (∀ m', outcome (copyToUser env address bytes) m = .ok (.ok (), m') →
      m.Copied live s address bytes bytes.length m' ∧
      outcome (copyFromUser env address bytes.length) m' = .ok (.ok bytes, m')) ∧
    (∀ cause m', outcome (copyToUser env address bytes) m = .ok (.error cause, m') →
      ∃ chunk, m.CutShort live env s address bytes cause chunk m') ∧
    Contiguous 0 (pageChunks address bytes.length) bytes.length ∧
    ∀ chunk ∈ pageChunks address bytes.length, 0 < chunk.length ∧
      (address.value + chunk.start) % 4096 + chunk.length ≤ 4096 := by
  have copies := Machine.copyToUser_copies sound named owner fits
  refine ⟨fun m' run => ?_, fun cause m' run => ?_, contiguous_pageChunks _ _,
    fun chunk among => ?_⟩
  · have copied := copies.done_of_run run
    exact ⟨copied, copied.copyFromUser fits owner⟩
  · obtain ⟨before, chunk, after, m₁, cut, stored, failed, copied⟩ := copies.failed_of_run run
    exact ⟨chunk, ⟨before, after, m₁, cut, stored, failed⟩, copied⟩
  · exact ⟨(begins_of_mem_pageChunks among).1, (of_mem_pageChunks among).2.2⟩

section Tiny

/-- The owner of the first space, without an image. -/
def tinyUser : Environment :=
  .solitary 1 (some tinySpace) none

/-- The last byte of one page and the first byte of the next one. -/
def tinyStraddle (env : Environment) : Attempt Unit :=
  copyToUser env (tinyPage.wrappingAdd 4095) [1, 2]

/-- If the next page maps the same frame, the copy moves the first page and is read back from two
frames. If the next page is missing and cannot be filled, the first byte is stored alone. -/
theorem user_copies_are_exact_tiny :
    outcome (tinyStraddle tinyWriter) tinyDoubled.2 =
      .ok (.ok (), tinyDoubled.2.after (tinyStraddle tinyWriter)) ∧
    outcome (copyFromUser tinyWriter (tinyPage.wrappingAdd 4095) 2)
      (tinyDoubled.2.after (tinyStraddle tinyWriter)) =
        .ok (.ok [1, 2], tinyDoubled.2.after (tinyStraddle tinyWriter)) ∧
    outcome (tinyStraddle tinyUser) tinyAfter.2 =
      .ok (.error .unknownProcess, tinyAfter.2.after (tinyStraddle tinyUser)) ∧
    ∃ chunk, tinyAfter.2.CutShort tinyAfter.1.live tinyUser tinySpace (tinyPage.wrappingAdd 4095)
      [1, 2] .unknownProcess chunk (tinyAfter.2.after (tinyStraddle tinyUser)) := by
  have doubled : tinyWriter.Names tinyDoubled.1.live :=
    Environment.names_solitary (by decide +kernel) 1 _
  have single : tinyUser.Names tinyAfter.1.live :=
    Environment.names_solitary (by decide +kernel) 1 none
  have done : outcome (tinyStraddle tinyWriter) tinyDoubled.2 =
      .ok (.ok (), tinyDoubled.2.after (tinyStraddle tinyWriter)) :=
    Machine.run_of_product (by decide +kernel)
  have failed : outcome (tinyStraddle tinyUser) tinyAfter.2 =
      .ok (.error .unknownProcess, tinyAfter.2.after (tinyStraddle tinyUser)) :=
    Machine.run_of_failure (by decide +kernel)
  have exact₁ := (user_copies_are_exact sound_tinyDoubled doubled rfl (by decide)).1 _ done
  have exact₂ := (user_copies_are_exact sound_tinyAfter single rfl (by decide)).2.1 _ _ failed
  exact ⟨done, exact₁.2, failed, exact₂⟩

end Tiny

end PagedMemory
