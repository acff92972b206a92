/-
  Kds.Exec.CabinLedger

  One assertion's books: its directory, its pages and its log say the same thing.  `Balanced` is
  the invariant; `enter_landed` and `unreserve_balanced` are what one entry appended and one
  reservation taken back do to it.
-/

import Kds.Exec.AssertionLedger
import Kds.Exec.CabinDirectory

namespace Kds.Exec

open List BoundCabin CabinPages

-- Pages

/-- What never changes of an entry: its group, its value and its sign. -/
def CabinEntry.core (e : CabinEntry) : Nat × Int × Bool := (e.groupId, e.value, e.departure)

namespace CabinPages

variable {pages pages' : CabinPages} {loc : EntryAt} {x : Nat × Int × Bool}

def coreAt (pages : CabinPages) (loc : EntryAt) : Option (Nat × Int × Bool) :=
  (pages loc.1)[loc.2]?.map CabinEntry.core

/-- Every entry of `pages` is still there. -/
def Extends (pages pages' : CabinPages) : Prop :=
  ∀ loc x, pages.coreAt loc = some x → pages'.coreAt loc = some x

theorem coreAt_eq_some : pages.coreAt loc = some x ↔ ∃ e, pages.read loc = .ok e ∧ e.core = x := by
  unfold coreAt read
  cases (pages loc.1)[loc.2]? with
  | none => simp
  | some e => simp

theorem lt_length_of_coreAt (h : pages.coreAt loc = some x) : loc.2 < (pages loc.1).length := by
  obtain ⟨e, he, -⟩ := Option.map_eq_some_iff.mp h
  exact (List.getElem?_eq_some_iff.mp he).1

theorem coreAt_append (pages : CabinPages) (page : PageId) (e : CabinEntry) (loc : EntryAt) :
    (pages.append page e).coreAt loc =
      if loc = (page, (pages page).length) then some e.core else pages.coreAt loc := by
  obtain ⟨p, i⟩ := loc
  unfold coreAt append
  by_cases hp : p = page
  · subst hp
    rw [Function.update_self]
    by_cases hi : i = (pages p).length
    · subst hi
      simp
    · rw [if_neg (by simpa using hi), List.getElem?_append]
      by_cases hlt : i < (pages p).length
      · rw [if_pos hlt]
      · rw [if_neg hlt, List.getElem?_eq_none (by simp; omega),
          List.getElem?_eq_none (by simpa using hlt)]
  · rw [if_neg (by simp [hp]), Function.update_of_ne hp]

theorem length_append (pages : CabinPages) (page : PageId) (e : CabinEntry) (p : PageId) :
    (pages.append page e p).length = (pages p).length + if p = page then 1 else 0 := by
  unfold append
  by_cases hp : p = page
  · subst hp
    simp
  · simp [hp]

theorem length_write (pages : CabinPages) (loc : EntryAt) (e : CabinEntry) (p : PageId) :
    (pages.write loc e p).length = (pages p).length := by
  unfold write
  by_cases hp : p = loc.1
  · subst hp
    simp
  · simp [hp]

theorem setFlags_spec {loc : EntryAt} {move : CabinEntry → CabinEntry}
    (hmove : ∀ e, (move e).core = e.core) (hlt : loc.2 < (pages loc.1).length) :
    ∃ pages', pages.setFlags loc move = .ok pages' ∧ (∀ l, pages'.coreAt l = pages.coreAt l) ∧
      ∀ p, (pages' p).length = (pages p).length := by
  have hread : pages.read loc = .ok (pages loc.1)[loc.2] := by
    simp [read, List.getElem?_eq_getElem hlt]
  refine ⟨pages.write loc (move (pages loc.1)[loc.2]), by simp [setFlags, hread], ?_,
    fun p => length_write pages loc _ p⟩
  rintro ⟨p, i⟩
  unfold coreAt write
  by_cases hp : p = loc.1
  · subst hp
    rw [Function.update_self, List.getElem?_set]
    by_cases hi : loc.2 = i
    · subst hi
      rw [if_pos rfl, if_pos hlt, List.getElem?_eq_getElem hlt]
      exact congrArg some (hmove _)
    · rw [if_neg hi]
  · rw [Function.update_of_ne hp]

-- Sums over linked entries

/-- What the entry at a place weighs: itself, or its negative where a row left. -/
def weightAt (pages : CabinPages) (loc : EntryAt) : Int × Int :=
  match pages.coreAt loc with
  | some (_, value, departure) => if departure then (-1, -value) else (1, value)
  | none => (0, 0)

def totalOf (pages : CabinPages) (entries : List EntryAt) : Int × Int :=
  (entries.map pages.weightAt).sum

@[simp] theorem totalOf_nil (pages : CabinPages) : pages.totalOf [] = 0 := rfl

theorem totalOf_cons (pages : CabinPages) (loc : EntryAt) (entries : List EntryAt) :
    pages.totalOf (loc :: entries) = pages.weightAt loc + pages.totalOf entries := by
  simp [totalOf]

theorem totalOf_append (pages : CabinPages) (entries entries' : List EntryAt) :
    pages.totalOf (entries ++ entries') = pages.totalOf entries + pages.totalOf entries' := by
  simp [totalOf]

theorem totalOf_erase {loc : EntryAt} {entries : List EntryAt} (hmem : loc ∈ entries) :
    pages.totalOf (entries.erase loc) + pages.weightAt loc = pages.totalOf entries := by
  have hperm := ((perm_cons_erase hmem).map pages.weightAt).sum_eq
  rw [map_cons, sum_cons] at hperm
  unfold totalOf
  rw [hperm, add_comm]

theorem totalOf_congr {entries : List EntryAt}
    (h : ∀ loc ∈ entries, pages'.coreAt loc = pages.coreAt loc) :
    pages'.totalOf entries = pages.totalOf entries := by
  unfold totalOf
  congr 1
  exact map_congr_left fun loc hloc => by rw [weightAt, weightAt, h loc hloc]

end CabinPages

/-- Both counters fit the machine's. -/
def InRange (v : Int × Int) : Prop := InInt64 v.1 ∧ InInt64 v.2

instance (v : Int × Int) : Decidable (InRange v) := by unfold InRange; infer_instance

/-- The linked entries are on the pages under the group's id, and add up to the header. -/
structure Linked (pages : CabinPages) (h : GroupHeader) : Prop where
  entry : ∀ loc ∈ h.entries, ∃ value departure,
    pages.coreAt loc = some (h.groupId, value, departure) ∧ (departure = true → value ≠ -2 ^ 63)
  total : pages.totalOf h.entries = (h.count, h.sum)
  range : InRange (h.count, h.sum)

/-- Adding the entries up in their order passes through no number that does not fit. -/
def ResumsInRange (pages : CabinPages) (entries : List EntryAt) : Prop :=
  ∀ n, InRange (pages.totalOf (entries.take n))

variable {h : GroupHeader} {pages pages' : CabinPages}

theorem Linked.mono (hl : Linked pages h) (hext : pages.Extends pages') : Linked pages' h where
  entry loc hloc := by
    obtain ⟨value, departure, hat, hne⟩ := hl.entry loc hloc
    exact ⟨value, departure, hext _ _ hat, hne⟩
  total := by
    rw [← hl.total]
    refine totalOf_congr fun loc hloc => ?_
    obtain ⟨value, departure, hat, -⟩ := hl.entry loc hloc
    rw [hat, hext _ _ hat]
  range := hl.range

theorem ResumsInRange.mono (hl : Linked pages h)
    (hr : ResumsInRange pages h.entries) (hext : pages.Extends pages') :
    ResumsInRange pages' h.entries := by
  intro n
  have heq : pages'.totalOf (h.entries.take n) = pages.totalOf (h.entries.take n) := by
    refine totalOf_congr fun loc hloc => ?_
    obtain ⟨value, departure, hat, -⟩ := hl.entry loc (mem_of_mem_take hloc)
    rw [hat, hext _ _ hat]
  rw [heq]
  exact hr n

theorem linked_blank (pages : CabinPages) (hb : BoundCabin.Blank h) : Linked pages h := by
  obtain ⟨hcount, hsum, hentries⟩ := hb
  refine ⟨?_, ?_, ?_⟩
  · rw [hentries]
    intro loc hloc
    cases hloc
  · rw [hentries, hcount, hsum]
    rfl
  · rw [hcount, hsum]
    decide

-- Re-summing

theorem resum_eq {pages : CabinPages} {entries : List EntryAt} {acc : Int × Int}
    (hentry : ∀ loc ∈ entries, ∃ g value departure, pages.coreAt loc = some (g, value, departure) ∧
      (departure = true → value ≠ -2 ^ 63))
    (hrange : ∀ n, InRange (acc + pages.totalOf (entries.take n))) :
    resum pages entries acc = .ok (acc + pages.totalOf entries) := by
  induction entries generalizing acc with
  | nil => simp [resum]
  | cons loc rest ih =>
    obtain ⟨g, value, departure, hat, hne⟩ := hentry loc mem_cons_self
    obtain ⟨e, hread, hcore⟩ := coreAt_eq_some.mp hat
    have hweight : pages.weightAt loc = if departure then (-1, -value) else (1, value) := by
      rw [CabinPages.weightAt, hat]
    have hstep : InRange (acc + pages.weightAt loc) := by
      have := hrange 1
      rwa [take_succ_cons, totalOf_cons, take_zero,
        totalOf_nil, add_zero] at this
    have hrest := @ih (acc + pages.weightAt loc)
      (fun l hl => hentry l (mem_cons_of_mem _ hl)) (fun n => by
        have := hrange (n + 1)
        rwa [take_succ_cons, totalOf_cons, ← add_assoc] at this)
    obtain ⟨rfl, rfl, rfl⟩ : e.groupId = g ∧ e.value = value ∧ e.departure = departure := by
      simpa [CabinEntry.core] using hcore
    obtain ⟨hcount, hsum⟩ := hstep
    rw [totalOf_cons, ← add_assoc, ← hrest]
    rw [hweight] at hcount hsum ⊢
    obtain ⟨count, sum⟩ := acc
    rw [resum, hread]
    dsimp only
    cases hdep : e.departure with
    | true =>
      have hneg : negate64 e.value = -e.value := if_neg (hne hdep)
      simp only [hdep, if_true] at hcount hsum ⊢
      rw [checkedAdd_eq_some.mpr ⟨hcount, rfl⟩, hneg, checkedAdd_eq_some.mpr ⟨hsum, rfl⟩]
      rfl
    | false =>
      simp only [hdep, Bool.false_eq_true, if_false] at hcount hsum ⊢
      rw [checkedAdd_eq_some.mpr ⟨hcount, rfl⟩, checkedAdd_eq_some.mpr ⟨hsum, rfl⟩]
      rfl

theorem verifyAgainstEntries_eq_ok {groups : List GroupHeader}
    (hlinked : ∀ h ∈ groups, Linked pages h)
    (hresums : ∀ h ∈ groups, ResumsInRange pages h.entries) :
    verifyAgainstEntries pages groups = .ok () := by
  induction groups with
  | nil => rfl
  | cons h rest ih =>
    have hl := hlinked h mem_cons_self
    have hsum : resum pages h.entries (0, 0) = .ok (h.count, h.sum) := by
      have := @resum_eq pages h.entries 0
        (fun loc hloc => by
          obtain ⟨value, departure, hat, hne⟩ := hl.entry loc hloc
          exact ⟨_, value, departure, hat, hne⟩)
        (fun n => by rw [zero_add]; exact hresums h mem_cons_self n)
      rwa [zero_add, hl.total] at this
    rw [verifyAgainstEntries, hsum]
    simp only [and_self, if_true]
    exact ih (fun h' hm => hlinked h' (mem_cons_of_mem _ hm))
      (fun h' hm => hresums h' (mem_cons_of_mem _ hm))

-- The invariant

/-- Pages behind the tail are unused, and none holds more than it can. -/
structure EntryChain.Tidy (c : EntryChain) : Prop where
  behind : ∀ p, c.tail < p → c.pages p = []
  full : ∀ p, (c.pages p).length ≤ kMaxEntriesPerPage

theorem EntryChain.Tidy.next {c : EntryChain} (h : c.Tidy) :
    c.next.2 = (c.pages c.next.1).length ∧ c.next.2 < kMaxEntriesPerPage ∧ c.tail ≤ c.next.1 := by
  unfold EntryChain.next
  split
  · next hlt => exact ⟨rfl, hlt, le_refl _⟩
  · refine ⟨rfl, ?_, Nat.le_succ _⟩
    rw [h.behind _ (Nat.lt_succ_self _)]
    exact (by decide : 0 < kMaxEntriesPerPage)

/-- A record's group still has the id the record gave it. -/
def AssertRecord.Named (c : BoundCabin) : AssertRecord → Prop
  | .build _ entry key | .reserve _ entry key =>
    ∃ h, c.find key = some h ∧ h.groupId = entry.groupId
  | _ => True

/-- Directory, pages and log of one assertion agree. -/
structure Balanced (a : EnforcedAssertion) : Prop where
  numbered : a.cabin.Numbered
  linked : ∀ key h, a.cabin.find key = some h → Linked a.chain.pages h
  tidy : a.chain.Tidy
  replayed : ∀ flushed, ∃ r, replay a.chain.log { pages := flushed } = .ok r ∧
    a.cabin.Mirrors r.cabin ∧ ∀ p, (a.chain.pages p).length ≤ (r.pages p).length
  named : ∀ record ∈ a.chain.log, record.Named a.cabin

/-- Every group re-sums. -/
def Resums (a : EnforcedAssertion) : Prop :=
  ∀ key h, a.cabin.find key = some h → ResumsInRange a.chain.pages h.entries

theorem resumsInRange_nil (pages : CabinPages) : ResumsInRange pages [] := by
  intro n
  rw [take_nil]
  exact (by decide : InRange (0, 0))

variable {a : EnforcedAssertion}

theorem resums_iff :
    Resums a ↔ ∀ key, ResumsInRange a.chain.pages (a.cabin.entriesOf key) := by
  constructor
  · intro hr key
    cases hf : a.cabin.find key with
    | none =>
      rw [BoundCabin.entriesOf, hf]
      exact resumsInRange_nil _
    | some h =>
      rw [entriesOf_of_find hf]
      exact hr key h hf
  · intro hr key h hf
    rw [← entriesOf_of_find hf]
    exact hr key

theorem resums_empty (d : AssertionDecl) : Resums { decl := d, cabin := {} } := by
  intro key h hf
  cases hf

theorem balanced_empty (d : AssertionDecl) : Balanced { decl := d, cabin := {} } where
  numbered := numbered_empty
  linked key h hf := by cases hf
  tidy := ⟨fun _ _ => rfl, fun _ => Nat.zero_le _⟩
  replayed flushed := ⟨_, rfl, mirrors_empty, fun _ => Nat.zero_le _⟩
  named record hr := by cases hr

variable {c : BoundCabin}

theorem AssertRecord.Named.mono {c' : BoundCabin} {record : AssertRecord} (h : record.Named c)
    (hkeep : ∀ key h, c.find key = some h → ∃ h', c'.find key = some h' ∧ h'.groupId = h.groupId) :
    record.Named c' := by
  cases record with
  | build loc entry key =>
    obtain ⟨hd, hf, hid⟩ := h
    obtain ⟨hd', hf', hid'⟩ := hkeep key hd hf
    exact ⟨hd', hf', hid'.trans hid⟩
  | reserve loc entry key =>
    obtain ⟨hd, hf, hid⟩ := h
    obtain ⟨hd', hf', hid'⟩ := hkeep key hd hf
    exact ⟨hd', hf', hid'.trans hid⟩
  | commit page indexes => trivial
  | rollback loc delta departure key => trivial

theorem keeps_shift (c : BoundCabin) (key : List UInt8) (dCount dSum : Int)
    (g : List EntryAt → List EntryAt) (k : List UInt8) (h : GroupHeader) (hf : c.find k = some h) :
    ∃ h', (c.shift key dCount dSum g).find k = some h' ∧ h'.groupId = h.groupId := by
  rw [find_shift]
  by_cases hk : k = key
  · rw [if_pos hk, hf]
    exact ⟨_, rfl, rfl⟩
  · rw [if_neg hk, hf]
    exact ⟨h, rfl, rfl⟩

-- A group is born

theorem find_ensureGroup_cases {key k : List UInt8}
    (hf : (c.ensureGroup key).find k = some h) : c.find k = some h ∨ BoundCabin.Blank h := by
  by_cases hk : k = key
  · subst hk
    rw [find_ensureGroup_self] at hf
    cases hc : c.find k with
    | some h' =>
      rw [hc] at hf
      exact .inl hf
    | none =>
      rw [hc] at hf
      cases hf
      exact .inr ⟨rfl, rfl, rfl⟩
  · rw [find_ensureGroup_ne c hk] at hf
    exact .inl hf

theorem Balanced.ensureGroup (hb : Balanced a) {key : List UInt8} (hroom : a.cabin.Room key) :
    Balanced { a with cabin := a.cabin.ensureGroup key } where
  numbered := hb.numbered.ensureGroup hroom
  linked k h hf := by
    rcases find_ensureGroup_cases hf with hf | hblank
    · exact hb.linked k h hf
    · exact linked_blank _ hblank
  tidy := hb.tidy
  replayed flushed := by
    obtain ⟨r, hr, hm, hlen⟩ := hb.replayed flushed
    exact ⟨r, hr, hm.ensureGroup key, hlen⟩
  named record hr := by
    refine (hb.named record hr).mono fun k h hf => ?_
    by_cases hk : k = key
    · subst hk
      exact ⟨h, by rw [ensureGroup_of_find hf, hf], rfl⟩
    · exact ⟨h, by rw [find_ensureGroup_ne _ hk, hf], rfl⟩

theorem Resums.ensureGroup (hr : Resums a) (key : List UInt8) :
    Resums { a with cabin := a.cabin.ensureGroup key } := by
  intro k h hf
  rcases find_ensureGroup_cases hf with hf | ⟨-, -, hentries⟩
  · exact hr k h hf
  · rw [hentries]
    exact resumsInRange_nil _

-- One entry appended

/-- The group's header can take the entry: a departure finds its group, and its value has a
    negative. -/
def BoundCabin.Takes (c : BoundCabin) (p : PlannedEntry) : Prop :=
  InRange (c.headerAt p.key + p.weight) ∧
    (p.departure = true → (c.find p.key).isSome ∧ p.value ≠ -2 ^ 63)

/-- `a'` is `a` with one entry more, at `loc`. -/
structure Entered (a a' : EnforcedAssertion) (p : PlannedEntry) (loc : EntryAt) : Prop where
  decl : a'.decl = a.decl
  header : ∀ key, a'.cabin.headerAt key =
    a.cabin.headerAt key + if key = p.key then p.weight else 0
  entries : ∀ key, a'.cabin.entriesOf key =
    if key = p.key then a.cabin.entriesOf key ++ [loc] else a.cabin.entriesOf key
  pages : a.chain.pages.Extends a'.chain.pages
  fresh : a.chain.pages.coreAt loc = none
  there : ∃ groupId, a'.chain.pages.coreAt loc = some (groupId, p.value, p.departure)
  room : p.departure = true → ∀ key, a.cabin.Room key → a'.cabin.Room key
  keys : ∀ key, (a'.cabin.find key).isSome → (a.cabin.find key).isSome ∨ key = p.key

variable {p : PlannedEntry} {live : CabinPages} {indexes : List Nat} {r : Reservation}

theorem put_eq_shift (hf : c.find p.key = some h) (loc : EntryAt)
    (hr : InRange ((h.count, h.sum) + p.weight)) :
    (if p.departure then c.applyDeparture p.key p.value loc else c.apply p.key p.value loc) =
      .ok (c.shift p.key p.weight.1 p.weight.2 (· ++ [loc])) := by
  unfold PlannedEntry.weight at hr ⊢
  cases hdep : p.departure with
  | true =>
    rw [hdep] at hr
    exact applyDeparture_eq_shift hf loc hr.1 hr.2
  | false =>
    rw [hdep] at hr
    exact apply_eq_shift hf loc hr.1 hr.2

theorem EntryChain.Tidy.append {c : EntryChain} (h : c.Tidy) (e : CabinEntry)
    (log : List AssertRecord) :
    EntryChain.Tidy { pages := c.pages.append c.next.1 e, tail := c.next.1, log := log } := by
  obtain ⟨hnext, hlt, htail⟩ := h.next
  constructor
  · intro p hp
    have hne : p ≠ c.next.1 := Nat.ne_of_gt hp
    show Function.update c.pages c.next.1 _ p = []
    rw [Function.update_of_ne hne]
    exact h.behind p (Nat.lt_of_le_of_lt htail hp)
  · intro p
    show (c.pages.append c.next.1 e p).length ≤ _
    rw [CabinPages.length_append]
    have hfull := h.full p
    split
    · next hp =>
      rw [hp, ← hnext]
      omega
    · omega

variable {page : PageId}

theorem CabinPages.extends_append (e : CabinEntry) :
    pages.Extends (pages.append page e) := by
  intro loc x hx
  rw [coreAt_append]
  have hlt := lt_length_of_coreAt hx
  have hne : loc ≠ (page, (pages page).length) := by
    rintro rfl
    exact Nat.lt_irrefl _ hlt
  rw [if_neg hne, hx]

theorem replayEntryPage_ok (e : CabinEntry) (hlt : (live page).length < kMaxEntriesPerPage)
    (hlen : ∀ p, (live p).length ≤ (pages p).length) :
    ∃ pages', replayEntryPage pages (page, (live page).length) e = .ok pages' ∧
      ∀ p, (live.append page e p).length ≤ (pages' p).length := by
  unfold replayEntryPage
  dsimp only
  by_cases heq : (live page).length = (pages page).length
  · rw [if_pos heq, if_pos (heq ▸ hlt)]
    refine ⟨_, rfl, fun p => ?_⟩
    rw [CabinPages.length_append, CabinPages.length_append]
    have := hlen p
    omega
  · have hbelow : (live page).length < (pages page).length :=
      lt_of_le_of_ne (hlen page) heq
    rw [if_neg heq, if_pos hbelow]
    refine ⟨_, rfl, fun p => ?_⟩
    rw [CabinPages.length_append, CabinPages.length_write]
    have := hlen p
    by_cases hp : p = page
    · rw [if_pos hp, hp]
      omega
    · rw [if_neg hp]
      omega

theorem replayEntry_ok {r : Replaying} (p : PlannedEntry) (reserved : Bool)
    (hbuild : reserved = false → p.departure = false) (hn : c.Numbered) (hm : c.Mirrors r.cabin)
    (hf : c.find p.key = some h) (hr : InRange ((h.count, h.sum) + p.weight))
    (hlt : (live page).length < kMaxEntriesPerPage)
    (hlen : ∀ p, (live p).length ≤ (r.pages p).length) :
    let loc := (page, (live page).length)
    let e : CabinEntry := ⟨h.groupId, p.value, p.departure, reserved, false⟩
    ∃ r', replayEntry reserved loc e p.key r = .ok r' ∧
      (c.shift p.key p.weight.1 p.weight.2 (· ++ [loc])).Mirrors r'.cabin ∧
      ∀ p, (live.append page e p).length ≤ (r'.pages p).length := by
  intro loc e
  obtain ⟨pages', hpages, hlen'⟩ := replayEntryPage_ok e hlt hlen
  obtain ⟨c'', hadopt, hm', hf'⟩ := hm.adoptGroupId hn hf
  have hput := put_eq_shift hf' loc hr
  refine ⟨⟨c''.shift p.key p.weight.1 p.weight.2 (· ++ [loc]), pages'⟩, ?_,
    hm'.shift (hf'.trans hf.symm), hlen'⟩
  have hnot : (!reserved && p.departure) = false := by
    cases reserved with
    | true => rfl
    | false => simp [hbuild rfl]
  unfold replayEntry
  simp only [e, ne_eq, not_true_eq_false, if_false, hnot, Bool.false_eq_true]
  rw [hpages]
  dsimp only
  rw [hadopt]
  dsimp only
  rw [hput]

/-- One entry more is linked, and its weight is in the header. -/
theorem Linked.concat (hl : Linked pages h) {loc : EntryAt}
    (hthere : pages.coreAt loc = some (h.groupId, p.value, p.departure))
    (hne : p.departure = true → p.value ≠ -2 ^ 63)
    (hrange : InRange ((h.count, h.sum) + p.weight)) :
    Linked pages { h with
      count := h.count + p.weight.1, sum := h.sum + p.weight.2, entries :=
        h.entries ++ [loc] } := by
  refine ⟨fun l hloc => ?_, ?_, hrange⟩
  · rcases Lib.mem_snoc.mp hloc with hold | rfl
    · exact hl.entry l hold
    · exact ⟨p.value, p.departure, hthere, hne⟩
  · have hweight : pages.totalOf [loc] = p.weight := by
      rw [totalOf_cons, totalOf_nil, add_zero, CabinPages.weightAt, hthere]
      rfl
    rw [totalOf_append, hl.total, hweight]
    rfl

theorem ResumsInRange.concat {entries : List EntryAt} {loc : EntryAt}
    (hr : ResumsInRange pages entries) (hlast : InRange (pages.totalOf (entries ++ [loc]))) :
    ResumsInRange pages (entries ++ [loc]) := by
  intro n
  by_cases hle : n ≤ entries.length
  · rw [take_append_of_le_length hle]
    exact hr n
  · rw [take_of_length_le (by simp; omega)]
    exact hlast

/-- The directory an entry is entered into: an arrival's group is born first. -/
theorem EnforcedAssertion.exists_entered (hb : Balanced a)
    (hroom : p.departure = false → a.cabin.Room p.key) (htakes : a.cabin.Takes p) :
    ∃ c h, (if p.departure then a.cabin else a.cabin.ensureGroup p.key) = c ∧
      c.find p.key = some h ∧ Balanced { a with cabin := c } ∧
      (Resums a → Resums { a with cabin := c }) ∧
      (∀ k, c.headerAt k = a.cabin.headerAt k) ∧ (∀ k, c.entriesOf k = a.cabin.entriesOf k) := by
  cases hdep : p.departure with
  | true =>
    obtain ⟨h, hf⟩ := Option.isSome_iff_exists.mp (htakes.2 hdep).1
    exact ⟨a.cabin, h, rfl, hf, hb, id, fun _ => rfl, fun _ => rfl⟩
  | false =>
    exact ⟨a.cabin.ensureGroup p.key, _, rfl, find_ensureGroup_self _ _,
      hb.ensureGroup (hroom hdep), fun hr => hr.ensureGroup p.key,
      fun k => headerAt_ensureGroup _ _ k,
      fun k => entriesOf_ensureGroup _ _ k⟩

/-- **Spec of an append that lands.**  An entry the header takes is on its page, in its group's
    list and in the header, and its record folds to the same. -/
theorem EnforcedAssertion.enter_landed (hb : Balanced a) (reserved : Bool)
    (hbuild : reserved = false → p.departure = false)
    (hroom : p.departure = false → a.cabin.Room p.key) (htakes : a.cabin.Takes p) :
    ∃ a', a.enter .none reserved p = (a', .ok a.chain.next) ∧ Balanced a' ∧
      Entered a a' p a.chain.next ∧ (Resums a → Resums a') := by
  obtain ⟨c, h, hc, hf, hbc, hres, hheader, hentries⟩ := exists_entered hb hroom htakes
  have hrange : InRange ((h.count, h.sum) + p.weight) := by
    rw [← headerAt_of_find hf, hheader]
    exact htakes.1
  obtain ⟨hnext, hlt, -⟩ := hb.tidy.next
  have hpair : a.chain.next = (a.chain.next.1, (a.chain.pages a.chain.next.1).length) :=
    Prod.ext rfl hnext
  -- what is appended
  let e : CabinEntry := ⟨h.groupId, p.value, p.departure, reserved, false⟩
  let pages := a.chain.pages.append a.chain.next.1 e
  have hthere : pages.coreAt a.chain.next = some e.core := by
    show (a.chain.pages.append a.chain.next.1 e).coreAt a.chain.next = _
    rw [coreAt_append, if_pos hpair]
  have hext : a.chain.pages.Extends pages := extends_append e
  have hfresh : a.chain.pages.coreAt a.chain.next = none := by
    cases hcore : a.chain.pages.coreAt a.chain.next with
    | none => rfl
    | some x =>
      have := lt_length_of_coreAt hcore
      rw [hnext] at this
      exact absurd this (Nat.lt_irrefl _)
  have hl := hbc.linked p.key h hf
  have hnew := (hl.mono hext).concat hthere (fun hdep => (htakes.2 hdep).2) hrange
  let record := if reserved then AssertRecord.reserve a.chain.next e p.key
    else .build a.chain.next e p.key
  let a' : EnforcedAssertion := { a with
    cabin := c.shift p.key p.weight.1 p.weight.2 (· ++ [a.chain.next])
    chain := { pages := pages, tail := a.chain.next.1, log := a.chain.log ++ [record] } }
  refine ⟨a', ?_, ?_, ?_, ?_⟩
  · have hput := put_eq_shift hf a.chain.next hrange
    unfold EnforcedAssertion.enter EntryChain.append
    simp only [hc, hf, Option.map_some, Option.getD_some]
    rw [hput]
  · refine ⟨?_, ?_, hb.tidy.append e _, ?_, ?_⟩
    · have hn : c.Numbered := hbc.numbered
      show (c.shift p.key p.weight.1 p.weight.2 (· ++ [a.chain.next])).Numbered
      exact hn.shift
    · intro k h₁ hf₁
      rw [find_shift] at hf₁
      by_cases hk : k = p.key
      · rw [if_pos hk, hk, hf] at hf₁
        cases hf₁
        exact hnew
      · rw [if_neg hk] at hf₁
        exact (hbc.linked k h₁ hf₁).mono hext
    · intro flushed
      obtain ⟨r, hr, hm, hlen⟩ := hbc.replayed flushed
      obtain ⟨r', hr', hm', hlen'⟩ := replayEntry_ok p reserved hbuild hbc.numbered hm hf hrange
        (hnext ▸ hlt) hlen
      refine ⟨r', ?_, ?_, hlen'⟩
      · show replay (a.chain.log ++ [record]) _ = _
        rw [replay_append _ _ hr]
        have hrecord : replayAssertionRecord record r = .ok r' := by
          rw [← hr']
          show replayAssertionRecord (if reserved then AssertRecord.reserve a.chain.next e p.key
            else .build a.chain.next e p.key) r = _
          rw [← hpair]
          cases reserved <;> rfl
        rw [replay, hrecord]
        rfl
      · show (c.shift p.key p.weight.1 p.weight.2 (· ++ [a.chain.next])).Mirrors r'.cabin
        rw [hpair]
        exact hm'
    · intro rec hrec
      rcases Lib.mem_snoc.mp hrec with hold | rfl
      · exact (hbc.named rec hold).mono (keeps_shift c _ _ _ _)
      · obtain ⟨h', hf', hid⟩ := keeps_shift c p.key p.weight.1 p.weight.2
          (· ++ [a.chain.next]) p.key h hf
        show (if reserved then AssertRecord.reserve a.chain.next e p.key
          else .build a.chain.next e p.key).Named _
        cases reserved <;> exact ⟨h', hf', hid⟩
  · refine ⟨rfl, ?_, ?_, hext, hfresh, ⟨h.groupId, hthere⟩, ?_, ?_⟩
    · intro key
      show (c.shift _ _ _ _).headerAt key = _
      rw [headerAt_shift hf, hheader]
    · intro key
      show (c.shift _ _ _ _).entriesOf key = _
      rw [entriesOf_shift hf, hentries]
    · intro hdep key hr
      show (c.shift _ _ _ _).Room key
      rw [hdep, if_pos rfl] at hc
      rw [← hc]
      exact hr.shift
    · intro key hfound
      by_cases hk : key = p.key
      · exact .inr hk
      · refine .inl ?_
        change ((c.shift _ _ _ _).find key).isSome at hfound
        rw [find_shift, if_neg hk, ← hc] at hfound
        split at hfound
        · exact hfound
        · rwa [find_ensureGroup_ne _ hk] at hfound
  · intro hr k h₁ hf₁
    rw [find_shift] at hf₁
    by_cases hk : k = p.key
    · rw [if_pos hk, hk, hf] at hf₁
      cases hf₁
      exact ((hres hr p.key h hf).mono hl hext).concat (hnew.total.symm ▸ hrange)
    · rw [if_neg hk] at hf₁
      exact (hres hr k h₁ hf₁).mono (hbc.linked k h₁ hf₁) hext

theorem EnforcedAssertion.enter_unappended (hb : Balanced a)
    {p : PlannedEntry} (reserved : Bool) (status : Status)
    (hroom : p.departure = false → a.cabin.Room p.key) :
    ∃ a', a.enter (.unappended status) reserved p = (a', .error status) ∧ Balanced a' ∧
      a'.decl = a.decl ∧ a'.chain = a.chain ∧
        (∀ key, a'.cabin.headerAt key = a.cabin.headerAt key) ∧
      (∀ key, a'.cabin.entriesOf key = a.cabin.entriesOf key) ∧ (Resums a → Resums a') := by
  refine ⟨_, rfl, ?_⟩
  cases hdep : p.departure with
  | true => exact ⟨hb, rfl, rfl, fun _ => rfl, fun _ => rfl, id⟩
  | false =>
    exact ⟨hb.ensureGroup (hroom hdep), rfl, rfl,
      fun k => headerAt_ensureGroup _ _ k,
      fun k => entriesOf_ensureGroup _ _ k, fun hr => hr.ensureGroup p.key⟩

-- Flags moved, and one reservation taken back

/-- The same entries, their flags apart. -/
structure CabinPages.Same (pages pages' : CabinPages) : Prop where
  cores : ∀ loc, pages'.coreAt loc = pages.coreAt loc
  lengths : ∀ p, (pages' p).length = (pages p).length

theorem CabinPages.Same.refl (pages : CabinPages) : pages.Same pages :=
  ⟨fun _ => rfl, fun _ => rfl⟩

theorem CabinPages.Same.trans {p₁ p₂ p₃ : CabinPages} (h₁ : p₁.Same p₂) (h₂ : p₂.Same p₃) :
    p₁.Same p₃ :=
  ⟨fun loc => (h₂.cores loc).trans (h₁.cores loc), fun p => (h₂.lengths p).trans (h₁.lengths p)⟩

theorem CabinPages.Same.extends (h : pages.Same pages') :
    pages.Extends pages' := fun loc _ hx => (h.cores loc).trans hx

theorem EntryChain.Tidy.same {c : EntryChain} (h : c.Tidy) (hs : c.pages.Same pages)
    (log : List AssertRecord) :
    EntryChain.Tidy { pages := pages, tail := c.tail, log := log } where
  behind p hp := by
    have hlen := hs.lengths p
    rw [h.behind p hp] at hlen
    exact length_eq_zero_iff.mp hlen
  full p := by
    show (pages p).length ≤ _
    rw [hs.lengths p]
    exact h.full p

theorem clearAll_spec (hlt : ∀ i ∈ indexes, i < (pages page).length) :
    ∃ pages', clearAll page indexes pages = (pages', none) ∧ pages.Same pages' := by
  induction indexes generalizing pages with
  | nil => exact ⟨pages, rfl, .refl pages⟩
  | cons i rest ih =>
    obtain ⟨pages₁, hclear, hcores, hlens⟩ := @setFlags_spec _ (page, i)
      (fun e => { e with reserved := false }) (fun _ => rfl) (hlt i mem_cons_self)
    obtain ⟨pages', hrest, hsame⟩ := @ih pages₁ fun j hj => by
      rw [hlens]
      exact hlt j (mem_cons_of_mem _ hj)
    have hok : pages.clearReserved (page, i) = .ok pages₁ := hclear
    exact ⟨pages', by rw [clearAll, hok]; exact hrest,
      CabinPages.Same.trans ⟨hcores, hlens⟩ hsame⟩

theorem replayCommit_ok {page : PageId} {indexes : List Nat} {r : Replaying}
    (hlt : ∀ i ∈ indexes, i < (r.pages page).length) :
    ∃ r', replayCommit page indexes r = .ok r' ∧ r'.cabin = r.cabin ∧ r.pages.Same r'.pages := by
  induction indexes generalizing r with
  | nil => exact ⟨r, rfl, rfl, .refl r.pages⟩
  | cons i rest ih =>
    obtain ⟨pages₁, hclear, hcores, hlens⟩ := @setFlags_spec _ (page, i)
      (fun e => { e with reserved := false }) (fun _ => rfl) (hlt i mem_cons_self)
    obtain ⟨r', hrest, hcabin, hsame⟩ := @ih { r with pages := pages₁ } fun j hj => by
      show j < (pages₁ page).length
      rw [hlens]
      exact hlt j (mem_cons_of_mem _ hj)
    have hok : r.pages.clearReserved (page, i) = .ok pages₁ := hclear
    exact ⟨r', by rw [replayCommit, hok]; exact hrest, hcabin,
      CabinPages.Same.trans ⟨hcores, hlens⟩ hsame⟩

theorem Balanced.commitLogged (hb : Balanced a) (hs : a.chain.pages.Same pages)
    (hlt : ∀ i ∈ indexes, i < (a.chain.pages page).length) :
    Balanced { a with chain := {
      pages := pages, tail := a.chain.tail, log := a.chain.log ++ [.commit page indexes] } } where
  numbered := hb.numbered
  linked key h hf := (hb.linked key h hf).mono hs.extends
  tidy := hb.tidy.same hs _
  replayed flushed := by
    obtain ⟨r, hr, hm, hlen⟩ := hb.replayed flushed
    obtain ⟨r', hr', hcabin, hsame⟩ := @replayCommit_ok page indexes r fun i hi =>
      Nat.lt_of_lt_of_le (hlt i hi) (hlen page)
    refine ⟨r', ?_, hcabin ▸ hm, fun p => ?_⟩
    · show replay (a.chain.log ++ [.commit page indexes]) _ = _
      rw [replay_append _ _ hr, replay, replayAssertionRecord, hr']
      rfl
    · show (pages p).length ≤ _
      rw [hs.lengths, hsame.lengths]
      exact hlen p
  named record hr := by
    rcases Lib.mem_snoc.mp hr with hold | rfl
    · exact hb.named record hold
    · trivial

theorem Resums.same (hb : Balanced a) (hr : Resums a) (hs : a.chain.pages.Same pages)
    (log : List AssertRecord) :
    Resums { a with chain := { pages := pages, tail := a.chain.tail, log := log } } :=
  fun key h hf => (hr key h hf).mono (hb.linked key h hf) hs.extends

def Reservation.planned (r : Reservation) : PlannedEntry := ⟨r.key, r.departure, r.value⟩

theorem Reservation.planned_weight (r : Reservation) :
    r.planned.weight = (Meter.weight .count r, Meter.weight .sum r) := by
  unfold Reservation.planned PlannedEntry.weight Meter.weight
  split <;> rfl

/-- The directory with one reservation taken back. -/
def BoundCabin.without (c : BoundCabin) (r : Reservation) : BoundCabin :=
  c.shift r.key (-r.planned.weight.1) (-r.planned.weight.2) (·.erase r.loc)

theorem unreserve_eq_without (hf : c.find r.key = some h) (hloc : r.loc ∈ h.entries)
    (hr : InRange ((h.count, h.sum) - r.planned.weight)) : unreserve r c = .ok (c.without r) := by
  have hcount : InInt64 (h.count + -r.planned.weight.1) := by
    rw [← sub_eq_add_neg]
    exact hr.1
  have hsum : InInt64 (h.sum + -r.planned.weight.2) := by
    rw [← sub_eq_add_neg]
    exact hr.2
  unfold unreserve BoundCabin.without
  unfold Reservation.planned PlannedEntry.weight at hcount hsum ⊢
  cases hdep : r.departure with
  | true =>
    simp only [hdep, if_true, neg_neg] at hcount hsum ⊢
    exact forget_eq_shift hf _ _ _ hloc hcount hsum
  | false =>
    simp only [hdep, Bool.false_eq_true, if_false] at hcount hsum ⊢
    exact forget_eq_shift hf _ _ _ hloc hcount hsum

theorem replayRollback_ok {r : Replaying} {v : Reservation}
    (hm : c.Mirrors r.cabin) (hf : c.find v.key = some h) (hloc : v.loc ∈ h.entries)
    (hr : InRange ((h.count, h.sum) - v.planned.weight))
    (hlt : v.loc.2 < (r.pages v.loc.1).length) :
    ∃ r', replayRollback v.loc v.value v.departure v.key r = .ok r' ∧
      (c.without v).Mirrors r'.cabin ∧ ∀ p, (r'.pages p).length = (r.pages p).length := by
  have hf' : r.cabin.find v.key = some h := by
    rcases hm.headers v.key with heq | ⟨-, hblank⟩
    · rw [heq, hf]
    · obtain ⟨-, -, hnil⟩ := hblank h hf
      rw [hnil] at hloc
      cases hloc
  obtain ⟨pages', hmark, -, hlens⟩ := @setFlags_spec _ v.loc
    (fun e => { e with orphaned := true }) (fun _ => rfl) hlt
  have hok : r.pages.markOrphaned v.loc = .ok pages' := hmark
  refine ⟨⟨r.cabin.without v, pages'⟩, ?_, hm.shift (hf'.trans hf.symm), hlens⟩
  have hlinked : relink r.cabin v.loc v.key = .ok r.cabin := by
    simp [relink, hf', hloc]
  have hback : (if v.departure then r.cabin.unapplyDeparture v.key v.value v.loc
      else r.cabin.unapply v.key v.value v.loc) = .ok (r.cabin.without v) :=
    unreserve_eq_without hf' hloc hr
  unfold replayRollback
  rw [hok]
  dsimp only
  rw [hlinked]
  dsimp only
  rw [hback]

/-- **One reservation taken back.**  With its entry linked and the header in range, directory,
    pages and log agree again, whether the page got its mark or not. -/
theorem Balanced.takeBack (hb : Balanced a) {groupId : Nat} (hf : a.cabin.find r.key = some h)
    (hloc : r.loc ∈ h.entries)
    (hcore : a.chain.pages.coreAt r.loc = some (groupId, r.value, r.departure))
    (hr : InRange ((h.count, h.sum) - r.planned.weight)) (hs : a.chain.pages.Same pages) :
    Balanced { a with
      cabin := a.cabin.without r
      chain := {
        pages := pages, tail := a.chain.tail
        log := a.chain.log ++ [.rollback r.loc r.value r.departure r.key] } } where
  numbered := by
    show (a.cabin.without r).Numbered
    exact hb.numbered.shift
  linked k h₁ hf₁ := by
    dsimp only at hf₁ ⊢
    rw [BoundCabin.without, find_shift] at hf₁
    by_cases hk : k = r.key
    · rw [if_pos hk, hk, hf] at hf₁
      cases hf₁
      have hl := (hb.linked r.key h hf).mono hs.extends
      have hweight : pages.weightAt r.loc = r.planned.weight := by
        rw [CabinPages.weightAt, hs.cores, hcore]
        rfl
      refine ⟨fun loc hmem => hl.entry loc (mem_of_mem_erase hmem), ?_, ?_⟩
      · have htotal := @totalOf_erase pages _ _ hloc
        rw [hweight, hl.total] at htotal
        rw [eq_sub_of_add_eq htotal]
        rfl
      · exact hr
    · rw [if_neg hk] at hf₁
      exact (hb.linked k h₁ hf₁).mono hs.extends
  tidy := hb.tidy.same hs _
  replayed flushed := by
    obtain ⟨r₁, hr₁, hm, hlen⟩ := hb.replayed flushed
    obtain ⟨r', hr', hm', hlen'⟩ := replayRollback_ok hm hf hloc hr
      (Nat.lt_of_lt_of_le (lt_length_of_coreAt hcore) (hlen r.loc.1))
    refine ⟨r', ?_, hm', fun p => ?_⟩
    · show replay (a.chain.log ++ [.rollback r.loc r.value r.departure r.key]) _ = _
      rw [replay_append _ _ hr₁, replay, replayAssertionRecord, hr']
      rfl
    · show (pages p).length ≤ _
      rw [hs.lengths, hlen']
      exact hlen p
  named record hrec := by
    rcases Lib.mem_snoc.mp hrec with hold | rfl
    · exact (hb.named record hold).mono (keeps_shift _ _ _ _ _)
    · trivial

end Kds.Exec
