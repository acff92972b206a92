/-
  Kds.Exec.CabinRuns

  Runs of the enforcer over its pages and its log: in which runs every header equals its entries.

  A run can leave the books wrong in the places where an entry is on its page, or its record in the
  log, before something that still refuses: a header that cannot take the entry, a record the log
  does not accept, a page whose LSN cannot be stamped, a reversal that stops halfway.  And a
  group can fail to re-sum although its header is right, once an abort has taken an entry out of
  the middle.  `CabinMeets` excludes exactly these; `headers_equal_entries` is the rest.
-/

import Kds.Exec.CabinLedger
import Kds.Lib.Run
import Mathlib.Data.List.Dedup
import Mathlib.Data.List.Perm.Subperm

namespace Kds.Exec

open Lib List CabinState BoundCabin
open Function (update update_self update_of_ne)

-- The condition on a step

/-- An append lands on a header that can take it, or finds no page to write to. -/
def Lands (takes : Prop) : AppendFault → Prop
  | .none => takes
  | .unappended _ => True
  | .unlogged _ | .unstamped _ => False

/-- By what the leaving half of a plan has moved a group when the arriving half is reserved. -/
def leftBy (leaves : Option (List UInt8 × Int)) (key : List UInt8) : Int × Int :=
  match leaves with
  | some (k, value) => if key = k then (-1, -value) else 0
  | none => 0

/-- Both halves of a plan land, the second as far as it is reached. -/
def PlanMeets (faults : AppendFaults) (id : Nat) (c : BoundCabin) (plan : ReservePlan) : Prop :=
  (∀ key value, plan.leaves = some (key, value) →
    Lands (c.Takes ⟨key, true, value⟩) (faults id true)) ∧
  ((plan.leaves.isSome → faults id true = .none) → ∀ key value, plan.arrives = some (key, value) →
    c.Room key ∧
      Lands (InRange (c.headerAt key + leftBy plan.leaves key + (1, value))) (faults id false))

/-- The plan runs through. -/
def PlanLands (faults : AppendFaults) (id : Nat) (plan : ReservePlan) : Prop :=
  (plan.leaves.isSome → faults id true = .none) ∧ (plan.arrives.isSome → faults id false = .none)

/-- Every assertion the call reaches meets its part. -/
def CallMeets (live : Nat → Option EnforcedAssertion) (faults : AppendFaults)
    (planOf : LiveAssertion → StatusOr ReservePlan) : List Nat → Prop
  | [] => True
  | id :: rest =>
    match live id with
    | none => CallMeets live faults planOf rest
    | some a =>
      match planOf a.toLiveAssertion with
      | .error _ => True
      | .ok plan => PlanMeets faults id a.cabin plan ∧
          (PlanLands faults id plan → CallMeets live faults planOf rest)

/-- What a list of reservations moved one group of one assertion by. -/
def netAt (id : Nat) (key : List UInt8) (rs : List Reservation) : Int × Int :=
  (netOf .count id key rs, netOf .sum id key rs)

/-- The places of a list of reservations in one group of one assertion. -/
def placesIn (id : Nat) (key : List UInt8) (rs : List Reservation) : List EntryAt :=
  (rs.filter fun r => r.assertionId = id ∧ r.key = key).map (·.loc)

/-- An abort runs through: its records are logged and its pages found (the last page apart), each
    header stays in range, and what is left of each group re-sums. -/
structure AbortMeets (s : CabinState) (faults : Nat → SettleFault) (rs : List Reservation) :
    Prop where
  faultless : ∀ i < rs.length, faults i = .none ∨
    (i + 1 = rs.length ∧ ∀ e, faults i ≠ .unlogged e)
  unwinds : ∀ done r left, rs = done ++ r :: left → ∀ a, s.live r.assertionId = some a →
    InRange (a.cabin.headerAt r.key - netAt r.assertionId r.key (done ++ [r]))
  resums : ∀ r ∈ rs, ∀ a, s.live r.assertionId = some a → ResumsInRange a.chain.pages
    ((a.cabin.entriesOf r.key).diff (placesIn r.assertionId r.key rs))

/-- **The condition on a step.** -/
def CabinMeets (formatValue : Nat → AstValue → String) (s : CabinState) : CabinAction → Prop
  | .build d rows _ _ => (rows.map fun row => d.keyFor row 0).dedup.length < 2 ^ 32
  | .insert _ oid values faults => CallMeets s.live faults (insertPlan values) (s.byOid oid)
  | .update _ oid oldRow newRow faults =>
    CallMeets s.live faults (updatePlan formatValue oldRow newRow) (s.byOid oid)
  | .delete _ oid oldRow faults => CallMeets s.live faults (deletePlan oldRow) (s.byOid oid)
  | .commit _ _ => True
  | .abort t faults => AbortMeets s faults (s.pending t).reverse

-- The property

/-- Headers and entries agree, in memory and in what the log folds to. -/
structure HeadersEqualEntries (s : CabinState) : Prop where
  verified : ∀ id a, s.live id = some a →
    verifyAgainstEntries a.chain.pages a.cabin.groups = .ok ()
  summed : ∀ id a, s.live id = some a → ∀ h ∈ a.cabin.groups,
    a.chain.pages.totalOf h.entries = (h.count, h.sum) ∧ InInt64 h.count ∧ InInt64 h.sum
  numbered : ∀ id a, s.live id = some a → (a.cabin.groups.map (·.key)).Nodup ∧
    a.cabin.groups.map (·.groupId) = List.range' 1 a.cabin.groups.length ∧
      a.cabin.groups.length < 2 ^ 32
  kept : ∀ id a, s.live id = some a → ∀ record ∈ a.chain.log, record.Named a.cabin
  restored : ∀ t, s.pending t = [] → ∀ id key, s.moved t id key = (0, 0)
  replayed : ∀ id a, s.live id = some a → ∀ flushed, ∃ r,
    replay a.chain.log { pages := flushed } = .ok r ∧
      ∀ key, r.cabin.headerAt key = a.cabin.headerAt key

-- The invariant

def Reservation.place (r : Reservation) : Nat × EntryAt := (r.assertionId, r.loc)

/-- The reservation's entry is linked, with its value and its sign. -/
def Held (live : Nat → Option EnforcedAssertion) (r : Reservation) : Prop :=
  ∃ a groupId, live r.assertionId = some a ∧ r.loc ∈ a.cabin.entriesOf r.key ∧
    a.chain.pages.coreAt r.loc = some (groupId, r.value, r.departure)

/-- Every assertion's books balance, with `P` besides, and every pending reservation has an entry
    of its own.  `P` is that every group re-sums, save in the middle of an abort. -/
structure Books (P : EnforcedAssertion → Prop) (s : CabinState) : Prop where
  each : ∀ id a, s.live id = some a → a.decl.assertionId = id ∧ Balanced a ∧ P a
  order : ∀ oid, (s.byOid oid).Nodup
  listed : ∀ oid, ∀ id ∈ s.byOid oid, (s.live id).isSome
  held : ∀ t, ∀ r ∈ s.pending t, Held s.live r
  once : ∀ t, ((s.pending t).map Reservation.place).Nodup
  apart : ∀ t t', t ≠ t' → ∀ r ∈ s.pending t, ∀ r' ∈ s.pending t', r.place ≠ r'.place

/-- What a transaction's calls moved is what its pending reservations weigh. -/
def Charged (s : CabinState) : Prop :=
  ∀ t id key, s.moved t id key = netAt id key (s.pending t)

variable {s : CabinState}

theorem Books.holds (hb : Books Resums s) (hc : Charged s) : HeadersEqualEntries s where
  verified id a ha := by
    obtain ⟨-, hbal, hres⟩ := hb.each id a ha
    have hfind : ∀ h ∈ a.cabin.groups, a.cabin.find h.key = some h := fun h hm =>
      find_of_mem hbal.numbered.keys hm
    exact verifyAgainstEntries_eq_ok (fun h hm => hbal.linked h.key h (hfind h hm))
      (fun h hm => hres h.key h (hfind h hm))
  summed id a ha h hm := by
    obtain ⟨-, hbal, -⟩ := hb.each id a ha
    have hl := hbal.linked h.key h (find_of_mem hbal.numbered.keys hm)
    exact ⟨hl.total, hl.range⟩
  numbered id a ha := by
    have hn := (hb.each id a ha).2.1.numbered
    exact ⟨hn.keys, hn.ids, hn.fits⟩
  kept id a ha := (hb.each id a ha).2.1.named
  restored t ht id key := by
    rw [hc t id key, ht]
    rfl
  replayed id a ha flushed := by
    obtain ⟨r, hr, hm, -⟩ := (hb.each id a ha).2.1.replayed flushed
    exact ⟨r, hr, hm.headerAt⟩

theorem netAt_append (id : Nat) (key : List UInt8) (rs rs' : List Reservation) :
    netAt id key (rs ++ rs') = netAt id key rs + netAt id key rs' := by
  unfold netAt
  rw [netOf_append, netOf_append]
  rfl

theorem netAt_singleton (id : Nat) (key : List UInt8) (r : Reservation) :
    netAt id key [r] = if r.assertionId = id ∧ r.key = key then r.planned.weight else 0 := by
  unfold netAt
  rw [r.planned_weight]
  by_cases h : r.assertionId = id ∧ r.key = key
  · simp [netOf, h]
  · simp [netOf, h]

theorem netAt_reverse (id : Nat) (key : List UInt8) (rs : List Reservation) :
    netAt id key rs.reverse = netAt id key rs := by
  unfold netAt
  rw [netOf_reverse, netOf_reverse]

-- One reservation

variable {live : Nat → Option EnforcedAssertion} {r : Reservation}

variable {live' : Nat → Option EnforcedAssertion}

theorem Held.mono (h : Held live r) (hkeep : ∀ a, live r.assertionId = some a → ∃ a',
      live' r.assertionId = some a' ∧
        (r.loc ∈ a.cabin.entriesOf r.key → r.loc ∈ a'.cabin.entriesOf r.key) ∧
        a.chain.pages.Extends a'.chain.pages) : Held live' r := by
  obtain ⟨a, groupId, ha, hloc, hcore⟩ := h
  obtain ⟨a', ha', hentries, hext⟩ := hkeep a ha
  exact ⟨a', groupId, ha', hentries hloc, hext _ _ hcore⟩

section

variable {P : EnforcedAssertion → Prop}

variable {s : CabinState}

theorem Books.setLive (hb : Books P s) {id : Nat} {a a' : EnforcedAssertion}
    (ha : s.live id = some a) (hdecl : a'.decl = a.decl) (hbal : Balanced a') (hp : P a')
    (hpending : ∀ t, ∀ r ∈ s.pending t, r.assertionId = id →
      r.loc ∈ a.cabin.entriesOf r.key → r.loc ∈ a'.cabin.entriesOf r.key)
    (hext : a.chain.pages.Extends a'.chain.pages) : Books P (s.setLive id a') where
  each j b hj := by
    by_cases hji : j = id
    · subst hji
      rw [setLive_self] at hj
      cases hj
      exact ⟨hdecl ▸ (hb.each j a ha).1, hbal, hp⟩
    · rw [setLive_of_ne _ _ hji] at hj
      exact hb.each j b hj
  order := hb.order
  listed oid j hj := by
    by_cases hji : j = id
    · subst hji
      rw [setLive_self, Option.isSome_some]
    · rw [setLive_of_ne _ _ hji]
      exact hb.listed oid j hj
  held t r hr := by
    refine (hb.held t r hr).mono fun b hbr => ?_
    by_cases hid : r.assertionId = id
    · rw [hid, ha] at hbr
      cases hbr
      exact ⟨a', by rw [hid, setLive_self], hpending t r hr hid, hext⟩
    · refine ⟨b, ?_, fun h => h, fun _ _ h => h⟩
      rw [setLive_of_ne _ _ hid, hbr]
  once := hb.once
  apart := hb.apart

theorem Books.push {s : CabinState} (hb : Books P s) {t : TxnId} {r : Reservation}
    (hheld : Held s.live r) (hfresh : ∀ t', ∀ r' ∈ s.pending t', r'.place ≠ r.place) :
    Books P (s.setPending t (s.pending t ++ [r])) := by
  have hmem : ∀ t', ∀ r' ∈ (s.setPending t (s.pending t ++ [r])).pending t',
      r' ∈ s.pending t' ∨ (t' = t ∧ r' = r) := by
    intro t' r' hr'
    by_cases ht : t' = t
    · subst ht
      rw [setPending_self] at hr'
      rcases Lib.mem_snoc.mp hr' with hold | hnew
      · exact .inl hold
      · exact .inr ⟨rfl, hnew⟩
    · rw [setPending_of_ne _ _ ht] at hr'
      exact .inl hr'
  refine ⟨hb.each, hb.order, hb.listed, ?_, ?_, ?_⟩
  · intro t' r' hr'
    rcases hmem t' r' hr' with hold | ⟨-, rfl⟩
    · exact hb.held t' r' hold
    · exact hheld
  · intro t'
    by_cases ht : t' = t
    · subst ht
      rw [setPending_self, map_append, nodup_append]
      refine ⟨hb.once t', by simp, ?_⟩
      intro x hx y hy heq
      obtain ⟨r', hr', rfl⟩ := mem_map.mp hx
      rw [map_singleton, mem_singleton] at hy
      exact hfresh t' r' hr' (heq.trans hy)
    · rw [setPending_of_ne _ _ ht]
      exact hb.once t'
  · intro t₁ t₂ hne r₁ hr₁ r₂ hr₂
    rcases hmem t₁ r₁ hr₁ with hold₁ | ⟨rfl, rfl⟩
    · rcases hmem t₂ r₂ hr₂ with hold₂ | ⟨rfl, rfl⟩
      · exact hb.apart t₁ t₂ hne r₁ hold₁ r₂ hold₂
      · exact hfresh t₁ r₁ hold₁
    · rcases hmem t₂ r₂ hr₂ with hold₂ | ⟨rfl, rfl⟩
      · exact fun heq => hfresh t₂ r₂ hold₂ heq.symm
      · exact absurd rfl hne

theorem Books.charge {s' : CabinState} {t : TxnId} (hb : Books P s') : Books P (s.charge t s') :=
  ⟨hb.each, hb.order, hb.listed, hb.held, hb.once, hb.apart⟩

end

/-- What a reserving call of `t` may do besides: headers move by what joins its pending list. -/
structure Tallied (t : TxnId) (s s' : CabinState) : Prop where
  net : ∀ id key, s'.header id key - s.header id key =
    netAt id key (s'.pending t) - netAt id key (s.pending t)
  moved : s'.moved = s.moved
  byOid : s'.byOid = s.byOid
  others : ∀ t', t' ≠ t → s'.pending t' = s.pending t'

theorem Tallied.refl (t : TxnId) (s : CabinState) : Tallied t s s :=
  ⟨fun _ _ => by rw [sub_self, sub_self], rfl, rfl, fun _ _ => rfl⟩

variable {s₁ s₂ s₃ : CabinState}

variable {t : TxnId}

theorem Tallied.trans (h₁ : Tallied t s₁ s₂) (h₂ : Tallied t s₂ s₃) : Tallied t s₁ s₃ where
  net id key := by
    rw [← sub_add_sub_cancel, h₂.net, h₁.net, sub_add_sub_cancel]
  moved := h₂.moved.trans h₁.moved
  byOid := h₂.byOid.trans h₁.byOid
  others t' ht := (h₂.others t' ht).trans (h₁.others t' ht)

variable {id : Nat} {a : EnforcedAssertion} {faults : AppendFaults} {key : List UInt8}
    {all : List (List UInt8)}

theorem CabinState.header_of_live
    (ha : s.live id = some a) (key : List UInt8) : s.header id key = a.cabin.headerAt key := by
  simp [CabinState.header, ha]

theorem CabinState.header_setLive (s : CabinState) (id : Nat) (a : EnforcedAssertion) (j : Nat)
    (key : List UInt8) : (s.setLive id a).header j key =
      if j = id then a.cabin.headerAt key else s.header j key := by
  by_cases hj : j = id
  · subst hj
    simp [CabinState.header]
  · simp [CabinState.header, setLive_of_ne, hj]

/-- **Spec of `ReserveOne`.**  Where the entry lands or finds no page, the books stay balanced and
    the header moves by what joins the pending list. -/
theorem reserveEntry_spec (hb : Books Resums s) {t : TxnId} {id : Nat}
    {fault : AppendFault} {p : PlannedEntry} {a : EnforcedAssertion} (ha : s.live id = some a)
    (hroom : p.departure = false → a.cabin.Room p.key) (hlands : Lands (a.cabin.Takes p) fault) :
    ∃ s' err, reserveEntry t id fault p s = (s', err) ∧ Books Resums s' ∧ Tallied t s s' ∧
      (∀ j, j ≠ id → s'.live j = s.live j) ∧ (err = none → fault = .none) ∧
      ∃ a', s'.live id = some a' ∧ a'.decl = a.decl ∧ (fault = .none →
        (∀ key, a'.cabin.headerAt key = a.cabin.headerAt key + if key = p.key then p.weight
          else 0) ∧ (p.departure = true → ∀ key, a.cabin.Room key → a'.cabin.Room key)) := by
  obtain ⟨-, hbal, hres⟩ := hb.each id a ha
  cases fault with
  | none =>
    obtain ⟨a', henter, hbal', hentered, hres'⟩ := EnforcedAssertion.enter_landed hbal true
      (fun h => by cases h) hroom hlands
    let r : Reservation := ⟨id, p.key, p.departure, p.value, a.chain.next⟩
    have hkeep : ∀ key loc, loc ∈ a.cabin.entriesOf key → loc ∈ a'.cabin.entriesOf key := by
      intro key loc hloc
      rw [hentered.entries]
      split
      · exact mem_append_left _ hloc
      · exact hloc
    have hb₁ := hb.setLive ha hentered.decl hbal' (hres' hres)
      (fun _ r _ _ => hkeep r.key r.loc) hentered.pages
    obtain ⟨groupId, hthere⟩ := hentered.there
    have hheld : Held (s.setLive id a').live r := by
      refine ⟨a', groupId, update_self .., ?_, hthere⟩
      show a.chain.next ∈ a'.cabin.entriesOf p.key
      rw [hentered.entries, if_pos rfl]
      exact mem_concat_self
    have hfresh : ∀ t', ∀ r' ∈ (s.setLive id a').pending t', r'.place ≠ r.place := by
      intro t' r' hr' heq
      obtain ⟨b, g, hlive, -, hcore⟩ := hb.held t' r' hr'
      obtain ⟨hid, hloc⟩ := Prod.mk.inj heq
      rw [hid, ha] at hlive
      cases hlive
      rw [hloc, hentered.fresh] at hcore
      cases hcore
    refine ⟨(s.setLive id a').setPending t (s.pending t ++ [r]), none, ?_, hb₁.push hheld hfresh,
      ⟨?_, rfl, rfl, ?_⟩, fun j hj => update_of_ne hj .., fun _ => rfl, a',
      update_self .., hentered.decl, fun _ => ⟨hentered.header, hentered.room⟩⟩
    · rw [reserveEntry, ha]
      dsimp only
      rw [henter]
    · intro j key
      show (s.setLive id a').header j key - _ = netAt j key (update s.pending t _ t) - _
      rw [update_self, netAt_append, add_sub_cancel_left, netAt_singleton,
        header_setLive]
      by_cases hj : j = id
      · subst hj
        rw [if_pos rfl, header_of_live ha, hentered.header, add_sub_cancel_left]
        by_cases hk : key = p.key
        · rw [if_pos hk, if_pos ⟨rfl, hk.symm⟩]
          rfl
        · rw [if_neg hk, if_neg fun h => hk h.2.symm]
      · rw [if_neg hj, sub_self, if_neg fun h => hj h.1.symm]
    · intro t' ht
      exact update_of_ne ht ..
  | unappended status =>
    obtain ⟨a', henter, hbal', hdecl, hchain, hheader, hentries, hres'⟩ :=
      EnforcedAssertion.enter_unappended hbal true status hroom
    refine ⟨s.setLive id a', some status, ?_, ?_, ⟨?_, rfl, rfl, fun _ _ => rfl⟩,
      fun j hj => update_of_ne hj .., fun h => (by cases h), a', update_self ..,
      hdecl, fun h => (by cases h)⟩
    · rw [reserveEntry, ha]
      dsimp only
      rw [henter]
    · refine hb.setLive ha hdecl hbal' (hres' hres) (fun _ r _ _ hloc => hentries r.key ▸ hloc) ?_
      rw [hchain]
      exact fun _ _ h => h
    · intro j key
      show _ = netAt j key (s.pending t) - _
      rw [sub_self, header_setLive]
      by_cases hj : j = id
      · subst hj
        rw [if_pos rfl, header_of_live ha, hheader, sub_self]
      · rw [if_neg hj, sub_self]
  | unlogged status => exact hlands.elim
  | unstamped status => exact hlands.elim

-- The reserving calls

theorem reservePlan_spec (hb : Books Resums s) {plan : ReservePlan} (ha : s.live id = some a)
    (hmeets : PlanMeets faults id a.cabin plan) :
    ∃ s' err, reservePlan t id faults plan s = (s', err) ∧ Books Resums s' ∧ Tallied t s s' ∧
      (∀ j, j ≠ id → s'.live j = s.live j) ∧ (err = none → PlanLands faults id plan) := by
  obtain ⟨hleaves, harrives⟩ := hmeets
  obtain ⟨leaves, arrives⟩ := plan
  dsimp only at hleaves harrives
  -- the departure, if any
  obtain ⟨s₁, err₁, hrun₁, hb₁, htally₁, hother₁, hland₁, a₁, ha₁, hafter⟩ :
      ∃ s₁ err₁, reserveHalf t id faults true leaves s = (s₁, err₁) ∧ Books Resums s₁ ∧
        Tallied t s s₁ ∧ (∀ j, j ≠ id → s₁.live j = s.live j) ∧
        (err₁ = none → leaves.isSome → faults id true = .none) ∧
        ∃ a₁, s₁.live id = some a₁ ∧ (err₁ = none → ∀ key, a.cabin.Room key →
          a₁.cabin.Room key ∧ a₁.cabin.headerAt key = a.cabin.headerAt key +
            leftBy leaves key) := by
    cases leaves with
    | none =>
      refine ⟨s, none, rfl, hb, .refl t s, fun _ _ => rfl, fun _ h => (by cases h), a, ha, ?_⟩
      exact fun _ key hr => ⟨hr, (add_zero _).symm⟩
    | some half =>
      obtain ⟨key, value⟩ := half
      obtain ⟨s₁, err₁, hrun, hb₁, htally, hother, hland, a₁, ha₁, -, hafter⟩ :=
        reserveEntry_spec hb (t := t) ha (fun h => by cases h) (hleaves key value rfl)
      refine ⟨s₁, err₁, hrun, hb₁, htally, hother, fun h _ => hland h, a₁, ha₁, ?_⟩
      intro herr k hr
      obtain ⟨hheader, hroom⟩ := hafter (hland herr)
      exact ⟨hroom rfl k hr, hheader k⟩
  unfold reservePlan
  dsimp only
  rw [hrun₁]
  cases err₁ with
  | some e => exact ⟨s₁, some e, rfl, hb₁, htally₁, hother₁, fun h => (by cases h)⟩
  | none =>
    -- the arrival, if any
    cases arrives with
    | none =>
      exact ⟨s₁, none, rfl, hb₁, htally₁, hother₁, fun _ => ⟨hland₁ rfl, fun h => (by cases h)⟩⟩
    | some half =>
      obtain ⟨key, value⟩ := half
      obtain ⟨hroom, hlands⟩ := harrives (hland₁ rfl) key value rfl
      obtain ⟨hroom₁, hheader₁⟩ := hafter rfl key hroom
      have hlands₁ : Lands (a₁.cabin.Takes ⟨key, false, value⟩) (faults id false) := by
        cases hfault : faults id false with
        | none =>
          rw [hfault] at hlands
          refine ⟨?_, fun h => by cases h⟩
          show InRange (a₁.cabin.headerAt key + (1, value))
          rw [hheader₁]
          exact hlands
        | unappended status => trivial
        | unlogged status =>
          rw [hfault] at hlands
          exact hlands
        | unstamped status =>
          rw [hfault] at hlands
          exact hlands
      obtain ⟨s₂, err₂, hrun₂, hb₂, htally₂, hother₂, hland₂, -⟩ :=
        reserveEntry_spec hb₁ (t := t) ha₁ (fun _ => hroom₁) hlands₁
      exact ⟨s₂, err₂, hrun₂, hb₂, htally₁.trans htally₂,
        fun j hj => (hother₂ j hj).trans (hother₁ j hj),
        fun h => ⟨hland₁ rfl, fun _ => hland₂ h⟩⟩

theorem callMeets_congr {planOf : LiveAssertion → StatusOr ReservePlan} {ids : List Nat}
    (h : ∀ j ∈ ids, live' j = live j) :
    CallMeets live' faults planOf ids ↔ CallMeets live faults planOf ids := by
  induction ids with
  | nil => rfl
  | cons id rest ih =>
    have hrest := ih fun j hj => h j (mem_cons_of_mem _ hj)
    simp only [CallMeets, h id mem_cons_self, hrest]

/-- **A reserving call keeps the books**, whether it runs through, is refused by an assertion or
    stops where no page is to be had. -/
theorem reserveAll_spec (hb : Books Resums s) {t : TxnId} {faults : AppendFaults}
    {planOf : LiveAssertion → StatusOr ReservePlan} {ids : List Nat} (hnodup : ids.Nodup)
    (hmeets : CallMeets s.live faults planOf ids) :
    Books Resums (reserveAll t faults planOf ids s).1 ∧
      Tallied t s (reserveAll t faults planOf ids s).1 := by
  induction ids generalizing s with
  | nil => exact ⟨hb, .refl t s⟩
  | cons id rest ih =>
    obtain ⟨hfresh, hrest⟩ := nodup_cons.mp hnodup
    rw [CallMeets] at hmeets
    rw [reserveAll]
    cases ha : s.live id with
    | none =>
      simp only [ha] at hmeets ⊢
      exact ih hb hrest hmeets
    | some a =>
      simp only [ha] at hmeets ⊢
      cases hplan : planOf a.toLiveAssertion with
      | error e => exact ⟨hb, .refl t s⟩
      | ok plan =>
        simp only [hplan] at hmeets ⊢
        obtain ⟨s', err, hrun, hb', htally, hother, hland⟩ :=
          reservePlan_spec hb (t := t) ha hmeets.1
        rw [hrun]
        cases err with
        | some e => exact ⟨hb', htally⟩
        | none =>
          have hlater : CallMeets s'.live faults planOf rest := by
            rw [callMeets_congr fun j hj => hother j fun heq => hfresh (heq ▸ hj)]
            exact hmeets.2 (hland rfl)
          obtain ⟨hb'', htally'⟩ := ih hb' hrest hlater
          exact ⟨hb'', htally.trans htally'⟩

variable {s' : CabinState}

theorem Charged.charge (hc : Charged s) (h : Tallied t s s') :
    Charged (s.charge t s') := by
  intro t' id key
  by_cases ht : t' = t
  · subst ht
    show update s.moved t' _ t' id key = netAt id key (s'.pending t')
    rw [update_self, h.net, hc, add_sub_cancel]
  · show update s.moved t _ t' id key = netAt id key (s'.pending t')
    rw [update_of_ne ht, h.others t' ht]
    exact hc t' id key

-- Commit

variable {batches : List ((Nat × PageId) × List Nat)} {indexes : List Nat} {i : Nat}

theorem mem_addToBatch {place p : Nat × PageId} {index : Nat}
    (h : (p, indexes) ∈ addToBatch place index batches) (hi : i ∈ indexes) :
    (∃ others, (p, others) ∈ batches ∧ i ∈ others) ∨ (p = place ∧ i = index) := by
  induction batches with
  | nil =>
    simp only [addToBatch, mem_singleton, Prod.mk.injEq] at h
    obtain ⟨rfl, rfl⟩ := h
    exact .inr ⟨rfl, mem_singleton.mp hi⟩
  | cons b rest ih =>
    obtain ⟨q, others⟩ := b
    rw [addToBatch] at h
    split at h
    · next heq =>
      rcases mem_cons.mp h with hhead | htail
      · cases hhead
        rcases Lib.mem_snoc.mp hi with hold | hnew
        · exact .inl ⟨others, mem_cons_self, hold⟩
        · exact .inr ⟨heq, hnew⟩
      · exact .inl ⟨indexes, mem_cons_of_mem _ htail, hi⟩
    · split at h
      · rcases mem_cons.mp h with hhead | htail
        · cases hhead
          exact .inr ⟨rfl, mem_singleton.mp hi⟩
        · exact .inl ⟨indexes, htail, hi⟩
      · rcases mem_cons.mp h with hhead | htail
        · cases hhead
          exact .inl ⟨_, mem_cons_self, hi⟩
        · rcases ih htail with ⟨o, ho, hio⟩ | hnew
          · exact .inl ⟨o, mem_cons_of_mem _ ho, hio⟩
          · exact .inr hnew

variable {rs : List Reservation}

theorem mem_batchesOf {place : Nat × PageId} (h : (place, indexes) ∈ batchesOf live rs batches)
    (hi : i ∈ indexes) : (∃ others, (place, others) ∈ batches ∧ i ∈ others) ∨
      ∃ r ∈ rs, place = (r.assertionId, r.loc.1) ∧ i = r.loc.2 := by
  induction rs generalizing batches with
  | nil => exact .inl ⟨indexes, h, hi⟩
  | cons r rest ih =>
    rw [batchesOf] at h
    rcases ih h with ⟨others, hmem, hio⟩ | ⟨r', hr', heq⟩
    · split at hmem
      · rcases mem_addToBatch hmem hio with hold | hnew
        · exact .inl hold
        · exact .inr ⟨r, mem_cons_self, hnew⟩
      · exact .inl ⟨others, hmem, hio⟩
    · exact .inr ⟨r', mem_cons_of_mem _ hr', heq⟩

/-- What settling pages leaves as it was. -/
structure Settled (s s' : CabinState) : Prop where
  header : ∀ id key, s'.header id key = s.header id key
  pending : s'.pending = s.pending
  moved : s'.moved = s.moved
  pages : ∀ id a', s'.live id = some a' → ∃ a, s.live id = some a ∧
    a.chain.pages.Same a'.chain.pages

theorem Settled.refl (s : CabinState) : Settled s s :=
  ⟨fun _ _ => rfl, rfl, rfl, fun _ a' h => ⟨a', h, .refl _⟩⟩

theorem Settled.trans (h₁ : Settled s₁ s₂) (h₂ : Settled s₂ s₃) :
    Settled s₁ s₃ where
  header id key := (h₂.header id key).trans (h₁.header id key)
  pending := h₂.pending.trans h₁.pending
  moved := h₂.moved.trans h₁.moved
  pages id a' ha' := by
    obtain ⟨a₂, ha₂, hs₂⟩ := h₂.pages id a' ha'
    obtain ⟨a₁, ha₁, hs₁⟩ := h₁.pages id a₂ ha₂
    exact ⟨a₁, ha₁, hs₁.trans hs₂⟩

theorem settlePage_spec (hb : Books Resums s) (fault : SettleFault) {place : Nat × PageId}
    (hthere : ∀ a, s.live place.1 = some a → ∀ i ∈ indexes, i < (a.chain.pages place.2).length) :
    Books Resums (settlePage fault place indexes s).1 ∧
      Settled s (settlePage fault place indexes s).1 := by
  cases ha : s.live place.1 with
  | none =>
    simp only [settlePage, ha]
    exact ⟨hb, .refl s⟩
  | some a =>
    obtain ⟨-, hbal, hres⟩ := hb.each _ a ha
    obtain ⟨pages', hclear, hsame⟩ := clearAll_spec (hthere a ha)
    -- whichever pages are left, the books with the batch's record balance
    have hput : ∀ pages, a.chain.pages.Same pages →
        let a' : EnforcedAssertion := { a with chain := {
          pages := pages, tail := a.chain.tail
          log := a.chain.log ++ [.commit place.2 indexes] } }
        Books Resums (s.setLive place.1 a') ∧ Settled s (s.setLive place.1 a') := by
      intro pages hs a'
      refine ⟨hb.setLive ha rfl (hbal.commitLogged hs (hthere a ha)) (hres.same hbal hs _)
        (fun _ _ _ _ h => h) hs.extends, ⟨?_, rfl, rfl, ?_⟩⟩
      · intro j key
        rw [header_setLive]
        split
        · next hj => rw [hj, header_of_live ha]
        · rfl
      · intro j b hj
        by_cases hji : j = place.1
        · subst hji
          rw [setLive_self] at hj
          cases hj
          exact ⟨a, ha, hs⟩
        · rw [setLive_of_ne _ _ hji] at hj
          exact ⟨b, hj, .refl _⟩
    simp only [settlePage, ha, hclear]
    cases fault with
    | none => exact hput pages' hsame
    | unlogged e => exact ⟨hb, .refl s⟩
    | untouched e => exact hput a.chain.pages (.refl _)
    | unstamped e => exact hput pages' hsame

theorem settlePages_spec {s : CabinState} (hb : Books Resums s)
    (faults : Nat × PageId → SettleFault) {batches : List ((Nat × PageId) × List Nat)}
    (hthere : ∀ place indexes, (place, indexes) ∈ batches → ∀ a, s.live place.1 = some a →
      ∀ i ∈ indexes, i < (a.chain.pages place.2).length) :
    Books Resums (settlePages faults batches s).1 ∧ Settled s (settlePages faults batches s).1 := by
  induction batches generalizing s with
  | nil => exact ⟨hb, .refl s⟩
  | cons b rest ih =>
    obtain ⟨place, indexes⟩ := b
    obtain ⟨hb', hsettled⟩ := settlePage_spec hb (faults place)
      (hthere place indexes mem_cons_self)
    rw [settlePages]
    cases hrun : settlePage (faults place) place indexes s with
    | mk s' err =>
      rw [hrun] at hb' hsettled
      cases err with
      | some e => exact ⟨hb', hsettled⟩
      | none =>
        obtain ⟨hb'', hsettled'⟩ := @ih s' hb' fun p is hmem a' ha' i hi => by
          obtain ⟨a, ha, hs⟩ := hsettled.pages _ a' ha'
          rw [hs.lengths]
          exact hthere p is (mem_cons_of_mem _ hmem) a ha i hi
        exact ⟨hb'', hsettled.trans hsettled'⟩

theorem Books.clear {P : EnforcedAssertion → Prop} (hb : Books P s) (t : TxnId) :
    Books P (s.setPending t []) := by
  have hmem : ∀ t', ∀ r ∈ (s.setPending t []).pending t', r ∈ s.pending t' := by
    intro t' r hr
    by_cases ht : t' = t
    · subst ht
      rw [setPending_self] at hr
      cases hr
    · rwa [setPending_of_ne _ _ ht] at hr
  refine ⟨hb.each, hb.order, hb.listed, fun t' r hr => hb.held t' r (hmem t' r hr), fun t' => ?_,
    fun t₁ t₂ hne r₁ h₁ r₂ h₂ => hb.apart t₁ t₂ hne r₁ (hmem t₁ r₁ h₁) r₂ (hmem t₂ r₂ h₂)⟩
  by_cases ht : t' = t
  · subst ht
    rw [setPending_self]
    exact nodup_nil
  · rw [setPending_of_ne _ _ ht]
    exact hb.once t'

/-- **A commit keeps the books**, wherever it stops: entries lose their reserved flags, headers and
    entry lists stay. -/
theorem commitTxn_spec (hb : Books Resums s) (hc : Charged s) (t : TxnId)
    (faults : Nat × PageId → SettleFault) :
    Books Resums ((s.commitTxn t faults).1.settle t) ∧
      Charged ((s.commitTxn t faults).1.settle t) := by
  obtain ⟨hb', hsettled⟩ := @settlePages_spec (s.setPending t []) (hb.clear t) faults
    (batchesOf s.live (s.pending t) []) fun place indexes hmem a ha i hi => by
      rcases mem_batchesOf hmem hi with ⟨others, hnil, -⟩ | ⟨r, hr, hplace, rfl⟩
      · cases hnil
      · obtain ⟨b, groupId, hlive, -, hcore⟩ := hb.held t r hr
        have hsame : b = a := by
          rw [hplace] at ha
          exact Option.some.inj (hlive.symm.trans ha)
        rw [hplace, ← hsame]
        exact CabinPages.lt_length_of_coreAt hcore
  refine ⟨⟨hb'.each, hb'.order, hb'.listed, hb'.held, hb'.once, hb'.apart⟩, ?_⟩
  intro t' id key
  show update (s.commitTxn t faults).1.moved t _ t' id key = _
  have hpending : ((s.commitTxn t faults).1.settle t).pending = (s.setPending t []).pending :=
    hsettled.pending
  rw [hpending]
  by_cases ht : t' = t
  · subst ht
    rw [update_self, setPending_self]
    rfl
  · rw [update_of_ne ht, setPending_of_ne _ _ ht]
    have hmoved : (s.commitTxn t faults).1.moved = s.moved := hsettled.moved
    rw [hmoved]
    exact hc t' id key

-- Abort

/-- Reservations out of the pending map and not yet taken back. -/
structure Loose (s : CabinState) (rs : List Reservation) : Prop where
  held : ∀ r ∈ rs, Held s.live r
  once : (rs.map Reservation.place).Nodup
  apart : ∀ t, ∀ r' ∈ s.pending t, ∀ r ∈ rs, r'.place ≠ r.place

/-- `a'` is `a` without the entries of the reservations `rs`. -/
structure TookBack (id : Nat) (rs : List Reservation) (a a' : EnforcedAssertion) : Prop where
  header : ∀ key, a'.cabin.headerAt key = a.cabin.headerAt key - netAt id key rs
  entries : ∀ key, a'.cabin.entriesOf key = (a.cabin.entriesOf key).diff (placesIn id key rs)
  pages : a.chain.pages.Same a'.chain.pages

structure TakenFrom (rs : List Reservation) (s s' : CabinState) : Prop where
  missing : ∀ id, s.live id = none → s'.live id = none
  took : ∀ id a, s.live id = some a → ∃ a', s'.live id = some a' ∧ TookBack id rs a a'
  pending : s'.pending = s.pending
  moved : s'.moved = s.moved
  byOid : s'.byOid = s.byOid

theorem placesIn_append (id : Nat) (key : List UInt8) (rs rs' : List Reservation) :
    placesIn id key (rs ++ rs') = placesIn id key rs ++ placesIn id key rs' := by
  simp [placesIn]

theorem placesIn_singleton (id : Nat) (key : List UInt8) (r : Reservation) :
    placesIn id key [r] = if r.assertionId = id ∧ r.key = key then [r.loc] else [] := by
  unfold placesIn
  by_cases h : r.assertionId = id ∧ r.key = key
  · simp [h]
  · simp [h]

theorem TakenFrom.refl (s : CabinState) : TakenFrom [] s s where
  missing _ h := h
  took _ a ha := ⟨a, ha, fun _ => (sub_zero _).symm, fun _ => rfl, .refl _⟩
  pending := rfl
  moved := rfl
  byOid := rfl

theorem TakenFrom.trans {rs' : List Reservation}
    (h₁ : TakenFrom rs s₁ s₂) (h₂ : TakenFrom rs' s₂ s₃) : TakenFrom (rs ++ rs') s₁ s₃ where
  missing id h := h₂.missing id (h₁.missing id h)
  took id a ha := by
    obtain ⟨a₂, ha₂, ht₁⟩ := h₁.took id a ha
    obtain ⟨a₃, ha₃, ht₂⟩ := h₂.took id a₂ ha₂
    refine ⟨a₃, ha₃, fun key => ?_, fun key => ?_, ht₁.pages.trans ht₂.pages⟩
    · rw [ht₂.header, ht₁.header, netAt_append, sub_sub]
    · rw [ht₂.entries, ht₁.entries, placesIn_append, diff_append]
  pending := h₂.pending.trans h₁.pending
  moved := h₂.moved.trans h₁.moved
  byOid := h₂.byOid.trans h₁.byOid

variable {c : BoundCabin}

variable {h : GroupHeader}

theorem headerAt_without
    (hf : c.find r.key = some h) (id : Nat) (hid : r.assertionId = id) (key : List UInt8) :
    (c.without r).headerAt key = c.headerAt key - netAt id key [r] := by
  rw [BoundCabin.without, headerAt_shift hf, netAt_singleton]
  by_cases hk : key = r.key
  · rw [if_pos hk, if_pos ⟨hid, hk.symm⟩, sub_eq_add_neg]
    rfl
  · rw [if_neg hk, if_neg fun h => hk h.2.symm, sub_zero, add_zero]

theorem entriesOf_without
    (hf : c.find r.key = some h) (id : Nat) (hid : r.assertionId = id) (key : List UInt8) :
    (c.without r).entriesOf key = (c.entriesOf key).diff (placesIn id key [r]) := by
  rw [BoundCabin.without, entriesOf_shift hf, placesIn_singleton]
  by_cases hk : key = r.key
  · rw [if_pos hk, if_pos ⟨hid, hk.symm⟩, diff_cons, diff_nil]
  · rw [if_neg hk, if_neg fun h => hk h.2.symm, diff_nil]

/-- **One reservation of an abort.**  Its entry is linked, so it is found; with the header in range
    and the record logged, the books balance without it. -/
theorem abortEntry_spec (hb : Books (fun _ => True) s) {fault : SettleFault}
    {rest : List Reservation} (hl : Loose s (r :: rest)) (hfault : ∀ e, fault ≠ .unlogged e)
    (hrange : ∀ a, s.live r.assertionId = some a →
      InRange (a.cabin.headerAt r.key - netAt r.assertionId r.key [r])) :
    ∃ s' err, abortEntry fault r s = (s', err) ∧ Books (fun _ => True) s' ∧ Loose s' rest ∧
      TakenFrom [r] s s' ∧ (fault = .none → err = none) := by
  obtain ⟨a, groupId, ha, hloc, hcore⟩ := hl.held r mem_cons_self
  obtain ⟨h, hf, hmem⟩ := mem_entriesOf hloc
  obtain ⟨-, hbal, -⟩ := hb.each _ a ha
  have honce := hl.once
  rw [map_cons, nodup_cons] at honce
  obtain ⟨hnotin, hnodup⟩ := honce
  have hr : InRange ((h.count, h.sum) - r.planned.weight) := by
    have := hrange a ha
    rwa [netAt_singleton, if_pos ⟨rfl, rfl⟩, headerAt_of_find hf] at this
  have hback := unreserve_eq_without hf hmem hr
  obtain ⟨pages', hmark, hcores, hlens⟩ := @CabinPages.setFlags_spec _ r.loc
    (fun e => { e with orphaned := true }) (fun _ => rfl) (CabinPages.lt_length_of_coreAt hcore)
  have hmarked : a.chain.pages.markOrphaned r.loc = .ok pages' := hmark
  -- another reservation's entry is another one
  have hkeep : ∀ r' : Reservation, r'.place ≠ r.place → r'.assertionId = r.assertionId →
      r'.loc ∈ a.cabin.entriesOf r'.key → r'.loc ∈ (a.cabin.without r).entriesOf r'.key := by
    intro r' hne hid hin
    have hloc' : r'.loc ≠ r.loc := fun heq => hne (Prod.ext hid heq)
    rw [entriesOf_without hf _ rfl, placesIn_singleton]
    split
    · rw [diff_cons, diff_nil]
      exact (mem_erase_of_ne hloc').mpr hin
    · rwa [diff_nil]
  have hput : ∀ pages, a.chain.pages.Same pages →
      let a' : EnforcedAssertion := { a with
        cabin := a.cabin.without r
        chain := { pages := pages, tail := a.chain.tail
                   log := a.chain.log ++ [.rollback r.loc r.value r.departure r.key] } }
      Books (fun _ => True) (s.setLive r.assertionId a') ∧
        Loose (s.setLive r.assertionId a') rest ∧
        TakenFrom [r] s (s.setLive r.assertionId a') := by
    intro pages hs a'
    refine ⟨hb.setLive ha rfl (hbal.takeBack hf hmem hcore hr hs) trivial ?_ hs.extends, ?_, ?_⟩
    · intro t r' hr' hid hin
      exact hkeep r' (hl.apart t r' hr' r mem_cons_self) hid hin
    · refine ⟨fun r' hr' => ?_, hnodup, fun t r' hr' v hv =>
        hl.apart t r' hr' v (mem_cons_of_mem _ hv)⟩
      refine (hl.held r' (mem_cons_of_mem _ hr')).mono fun b hbr => ?_
      have hne : r'.place ≠ r.place := fun heq =>
        hnotin (heq ▸ mem_map_of_mem hr')
      by_cases hid : r'.assertionId = r.assertionId
      · rw [hid, ha] at hbr
        cases hbr
        exact ⟨a', by rw [hid, setLive_self], hkeep r' hne hid, hs.extends⟩
      · refine ⟨b, ?_, fun h => h, fun _ _ h => h⟩
        rw [setLive_of_ne _ _ hid, hbr]
    · refine ⟨fun j hj => ?_, fun j b hj => ?_, rfl, rfl, rfl⟩
      · have hji : j ≠ r.assertionId := fun heq => by
          rw [heq, ha] at hj
          cases hj
        rw [setLive_of_ne _ _ hji, hj]
      · by_cases hji : j = r.assertionId
        · subst hji
          rw [ha] at hj
          cases hj
          exact ⟨a', setLive_self .., headerAt_without hf _ rfl,
            entriesOf_without hf _ rfl, hs⟩
        · refine ⟨b, by rw [setLive_of_ne _ _ hji, hj], fun key => ?_, fun key => ?_,
            .refl _⟩
          · rw [netAt_singleton, if_neg fun h => hji h.1.symm, sub_zero]
          · rw [placesIn_singleton, if_neg fun h => hji h.1.symm, diff_nil]
  simp only [abortEntry, ha, hback, hmarked]
  cases fault with
  | none =>
    obtain ⟨hb', hl', ht⟩ := hput pages' ⟨hcores, hlens⟩
    exact ⟨_, _, rfl, hb', hl', ht, fun _ => rfl⟩
  | unlogged e => exact absurd rfl (hfault e)
  | untouched e =>
    obtain ⟨hb', hl', ht⟩ := hput a.chain.pages (.refl _)
    exact ⟨_, _, rfl, hb', hl', ht, fun h => (by cases h)⟩
  | unstamped e =>
    obtain ⟨hb', hl', ht⟩ := hput pages' ⟨hcores, hlens⟩
    exact ⟨_, _, rfl, hb', hl', ht, fun h => (by cases h)⟩

theorem abortEntries_spec {s : CabinState} (hb : Books (fun _ => True) s)
    {faults : Nat → SettleFault} {n : Nat} {rs : List Reservation} (hl : Loose s rs)
    (hfaults : ∀ i < rs.length, faults (n + i) = .none ∨
      (i + 1 = rs.length ∧ ∀ e, faults (n + i) ≠ .unlogged e))
    (hrange : ∀ done r left, rs = done ++ r :: left → ∀ a, s.live r.assertionId = some a →
      InRange (a.cabin.headerAt r.key - netAt r.assertionId r.key (done ++ [r]))) :
    Books (fun _ => True) (abortEntries faults n rs s).1 ∧
      TakenFrom rs s (abortEntries faults n rs s).1 := by
  induction rs generalizing s n with
  | nil => exact ⟨hb, .refl s⟩
  | cons r rest ih =>
    have hfirst := hfaults 0 (Nat.succ_pos _)
    rw [Nat.add_zero] at hfirst
    have hlogged : ∀ e, faults n ≠ .unlogged e := by
      rcases hfirst with hnone | ⟨-, hne⟩
      · rw [hnone]
        intro e h
        cases h
      · exact hne
    obtain ⟨s', err, hrun, hb', hl', htook, herr⟩ :=
      abortEntry_spec hb hl hlogged (hrange [] r rest rfl)
    rw [abortEntries, hrun]
    cases err with
    | some e =>
      -- only the last reservation may meet a fault
      rcases hfirst with hnone | ⟨hlast, -⟩
      · cases herr hnone
      · have hnil : rest = [] := by
          rw [length_cons] at hlast
          exact length_eq_zero_iff.mp (by omega)
        rw [hnil]
        exact ⟨hb', htook⟩
    | none =>
      have hnext : ∀ done v left, rest = done ++ v :: left → ∀ a',
          s'.live v.assertionId = some a' → InRange (a'.cabin.headerAt v.key -
            netAt v.assertionId v.key (done ++ [v])) := by
        intro done v left hsplit a' ha'
        cases ha : s.live v.assertionId with
        | none =>
          rw [htook.missing _ ha] at ha'
          cases ha'
        | some a =>
          obtain ⟨a₁, ha₁, hback⟩ := htook.took _ a ha
          rw [ha'] at ha₁
          cases ha₁
          have := hrange (r :: done) v left (by rw [hsplit]; rfl) a ha
          rw [cons_append, ← singleton_append, netAt_append, ← sub_sub] at this
          rw [hback.header]
          exact this
      obtain ⟨hb'', htook'⟩ := ih (n := n + 1) hb' hl' (fun i hi => by
        have := hfaults (i + 1) (Nat.succ_lt_succ hi)
        rw [length_cons] at this
        rw [Nat.add_assoc, Nat.add_comm 1 i]
        rcases this with hnone | ⟨hlast, hne⟩
        · exact .inl hnone
        · exact .inr ⟨by omega, hne⟩) hnext
      exact ⟨hb'', htook.trans htook'⟩

theorem ResumsInRange.same {pages pages' : CabinPages} {entries : List EntryAt}
    (hr : ResumsInRange pages entries) (hs : pages.Same pages') :
    ResumsInRange pages' entries := by
  intro n
  rw [CabinPages.totalOf_congr fun loc _ => hs.cores loc]
  exact hr n

theorem netAt_of_not_live (key : List UInt8) (hheld : ∀ r ∈ rs, Held live r)
    (hnone : live id = none) :
    netAt id key rs = (0, 0) := by
  induction rs with
  | nil => rfl
  | cons r rest ih =>
    have hne : ¬(r.assertionId = id ∧ r.key = key) := by
      rintro ⟨hid, -⟩
      obtain ⟨a, _, ha, -⟩ := hheld r mem_cons_self
      rw [hid, hnone] at ha
      cases ha
    rw [← singleton_append, netAt_append, netAt_singleton, if_neg hne,
      ih fun v hv => hheld v (mem_cons_of_mem _ hv)]
    rfl

/-- **An abort that runs through restores every header** to what it was without the transaction,
    and leaves the books balanced. -/
theorem abortTxn_books (hb : Books Resums s) (hc : Charged s) {faults : Nat → SettleFault}
    (hmeets : AbortMeets s faults (s.pending t).reverse) :
    Books Resums (s.charge t (s.abortTxn t faults).1) ∧
      Charged (s.charge t (s.abortTxn t faults).1) := by
  have hcleared := hb.clear t
  have hl : Loose (s.setPending t []) (s.pending t).reverse := by
    refine ⟨fun r hr => hb.held t r (mem_reverse.mp hr), ?_, ?_⟩
    · rw [map_reverse, nodup_reverse]
      exact hb.once t
    · intro t' r' hr' r hr
      by_cases ht : t' = t
      · subst ht
        rw [setPending_self] at hr'
        cases hr'
      · rw [setPending_of_ne _ _ ht] at hr'
        exact hb.apart t' t ht r' hr' r (mem_reverse.mp hr)
  obtain ⟨hb', htook⟩ := @abortEntries_spec (s.setPending t [])
    ⟨fun id a ha => ⟨(hb.each id a ha).1, (hb.each id a ha).2.1, trivial⟩, hcleared.order,
      hcleared.listed, hcleared.held, hcleared.once, hcleared.apart⟩ faults 0
    (s.pending t).reverse hl (fun i hi => by rw [Nat.zero_add]; exact hmeets.faultless i hi)
    hmeets.unwinds
  have hresums : ∀ id a', (s.abortTxn t faults).1.live id = some a' → Resums a' := by
    intro id a' ha'
    cases ha : s.live id with
    | none =>
      have : (s.abortTxn t faults).1.live id = none := htook.missing id ha
      rw [this] at ha'
      cases ha'
    | some a =>
      obtain ⟨a₁, ha₁, hback⟩ := htook.took id a ha
      have heq : a₁ = a' := Option.some.inj (ha₁.symm.trans ha')
      subst heq
      refine resums_iff.mpr fun key => ?_
      rw [hback.entries]
      refine ResumsInRange.same ?_ hback.pages
      cases hplaces : placesIn id key (s.pending t).reverse with
      | nil => exact resums_iff.mp (hb.each id a ha).2.2 key
      | cons loc _ =>
        -- some reservation of the list is in this group
        have hmem : loc ∈ placesIn id key (s.pending t).reverse := by
          rw [hplaces]
          exact mem_cons_self
        obtain ⟨r, hin, -⟩ := mem_map.mp hmem
        obtain ⟨hr, hkey⟩ := mem_filter.mp hin
        obtain ⟨rfl, rfl⟩ : r.assertionId = id ∧ r.key = key := by simpa using hkey
        rw [← hplaces]
        exact hmeets.resums r hr a ha
  refine ⟨Books.charge ⟨fun id a ha => ?_, hb'.order, hb'.listed, hb'.held, hb'.once, hb'.apart⟩,
    ?_⟩
  · exact ⟨(hb'.each id a ha).1, (hb'.each id a ha).2.1, hresums id a ha⟩
  · intro t' id key
    have hpending : (s.abortTxn t faults).1.pending = (s.setPending t []).pending := htook.pending
    show update s.moved t _ t' id key = netAt id key ((s.abortTxn t faults).1.pending t')
    rw [hpending]
    by_cases ht : t' = t
    · subst ht
      rw [update_self, setPending_self, hc t' id key]
      have hheader : (s.abortTxn t' faults).1.header id key =
          s.header id key - netAt id key (s.pending t') := by
        cases ha : s.live id with
        | none =>
          have hnone : (s.abortTxn t' faults).1.live id = none := htook.missing id ha
          have hzero := netAt_of_not_live key (fun r hr => hb.held t' r hr) ha
          simp [CabinState.header, hnone, ha, hzero]
        | some a =>
          obtain ⟨a₁, ha₁, hback⟩ := htook.took id a ha
          have hlive : (s.abortTxn t' faults).1.live id = some a₁ := ha₁
          rw [header_of_live ha, header_of_live hlive, hback.header,
            netAt_reverse]
      rw [hheader, sub_sub_cancel_left, add_neg_cancel]
      rfl
    · rw [update_of_ne ht, setPending_of_ne _ _ ht]
      exact hc t' id key

-- Build

variable {a' : EnforcedAssertion}

theorem enter_arrival_inv {fault : AppendFault} {value : Int} {loc : EntryAt}
    (h : a.enter fault false ⟨key, false, value⟩ = (a', .ok loc)) :
    fault = .none ∧ a.cabin.Takes ⟨key, false, value⟩ := by
  unfold EnforcedAssertion.enter EntryChain.append at h
  dsimp only at h
  cases fault with
  | none =>
    refine ⟨rfl, ?_, fun hdep => by cases hdep⟩
    simp only [Bool.false_eq_true, if_false] at h
    split at h
    · cases h
    · next cabin' happly =>
      have hf := find_ensureGroup_self a.cabin key
      rw [BoundCabin.apply, ensureGroup_of_find hf, hf] at happly
      dsimp only at happly
      split at happly
      · cases happly
      · next count hcount =>
        split at happly
        · cases happly
        · next sum hsum =>
          obtain ⟨hc, -⟩ := checkedAdd_eq_some.mp hcount
          obtain ⟨hs, -⟩ := checkedAdd_eq_some.mp hsum
          show InRange (a.cabin.headerAt key + (1, value))
          rw [← headerAt_ensureGroup a.cabin key key,
            headerAt_of_find hf]
          exact ⟨hc, hs⟩
  | unappended status => cases h
  | unlogged status => cases h
  | unstamped status => cases h

theorem room_of_few (hn : c.Numbered) (hkeys : ∀ h ∈ c.groups, h.key ∈ all)
    (hfew : all.dedup.length < 2 ^ 32) (hkey : key ∈ all) : c.Room key := by
  by_cases hfound : (c.find key).isSome
  · exact .inl hfound
  · refine .inr ?_
    have hnew : key ∉ c.groups.map (·.key) := fun hm =>
      hfound (find_isSome_of_key_mem hm)
    have hsub : key :: c.groups.map (·.key) ⊆ all.dedup := by
      intro k hk
      rw [mem_dedup]
      rcases mem_cons.mp hk with rfl | hold
      · exact hkey
      · obtain ⟨h, hm, rfl⟩ := mem_map.mp hold
        exact hkeys h hm
    have hnodup : (key :: c.groups.map (·.key)).Nodup := nodup_cons.mpr ⟨hnew, hn.keys⟩
    have hlen := (subperm_of_subset hnodup hsub).length_le
    rw [length_cons, length_map] at hlen
    omega

variable {formatValue : Nat → AstValue → String}

theorem buildRows_spec {faults : Nat → AppendFault} {n : Nat} {rows : List (List AstValue)}
    (h : buildRows formatValue faults n rows a = .ok a') (hbal : Balanced a) (hres : Resums a)
    (hkeys : ∀ g ∈ a.cabin.groups, g.key ∈ all) (hrows : ∀ row ∈ rows, a.decl.keyFor row 0 ∈ all)
    (hfew : all.dedup.length < 2 ^ 32) : Balanced a' ∧ Resums a' ∧ a'.decl = a.decl := by
  induction rows generalizing n a with
  | nil =>
    cases h
    exact ⟨hbal, hres, rfl⟩
  | cons row rest ih =>
    rw [buildRows] at h
    split at h
    · cases h
    · next a₁ loc henter =>
      obtain ⟨hfault, htakes⟩ := enter_arrival_inv henter
      rw [hfault] at henter
      have hroom := room_of_few hbal.numbered hkeys hfew (hrows row mem_cons_self)
      obtain ⟨a₂, henter₂, hbal₂, hentered, hres₂⟩ :=
        EnforcedAssertion.enter_landed hbal false (fun _ => rfl) (fun _ => hroom) htakes
      obtain ⟨rfl, -⟩ := Prod.mk.inj (henter.symm.trans henter₂)
      split at h
      · cases h
      · obtain ⟨hbal', hres', hdecl⟩ := ih h hbal₂ (hres₂ hres) (fun g hg => by
          have hfound := find_of_mem hbal₂.numbered.keys hg
          rcases hentered.keys g.key (by rw [hfound]; rfl) with hold | hnew
          · obtain ⟨g₀, hg₀⟩ := Option.isSome_iff_exists.mp hold
            obtain ⟨hm, hk⟩ := mem_of_find hg₀
            exact hk ▸ hkeys g₀ hm
          · rw [hnew]
            exact hrows row mem_cons_self) (fun r hr => by
          rw [hentered.decl]
          exact hrows r (mem_cons_of_mem _ hr))
        exact ⟨hbal', hres', hdecl.trans hentered.decl⟩

theorem Books.adopt (hb : Books Resums s) (hfresh : s.live a.decl.assertionId = none)
    (hbal : Balanced a) (hres : Resums a) :
    Books Resums (s.adopt a) where
  each id b hid := by
    by_cases hne : id = a.decl.assertionId
    · subst hne
      simp only [CabinState.adopt, update_self] at hid
      cases hid
      exact ⟨rfl, hbal, hres⟩
    · simp only [CabinState.adopt, update_of_ne hne] at hid
      exact hb.each id b hid
  order oid := by
    by_cases hoid : oid = a.decl.targetOid
    · subst hoid
      simp only [CabinState.adopt, update_self]
      rw [nodup_append]
      refine ⟨hb.order _, by simp, ?_⟩
      intro id hid j hj heq
      rw [mem_singleton] at hj
      have hlive := hb.listed _ id hid
      rw [heq, hj, hfresh] at hlive
      cases hlive
    · simp only [CabinState.adopt, update_of_ne hoid]
      exact hb.order oid
  listed oid id hid := by
    by_cases hne : id = a.decl.assertionId
    · subst hne
      simp [CabinState.adopt]
    · simp only [CabinState.adopt, update_of_ne hne]
      by_cases hoid : oid = a.decl.targetOid
      · subst hoid
        simp only [CabinState.adopt, update_self] at hid
        rcases Lib.mem_snoc.mp hid with hold | hnew
        · exact hb.listed _ id hold
        · exact absurd hnew hne
      · simp only [CabinState.adopt, update_of_ne hoid] at hid
        exact hb.listed oid id hid
  held t r hr := by
    refine (hb.held t r hr).mono fun b hbr => ⟨b, ?_, fun h => h, fun _ _ h => h⟩
    have hne : r.assertionId ≠ a.decl.assertionId := fun heq => by
      rw [heq, hfresh] at hbr
      cases hbr
    simp only [CabinState.adopt, update_of_ne hne]
    exact hbr
  once := hb.once
  apart := hb.apart

-- Runs

theorem cabinStep_books {action : CabinAction} (hb : Books Resums s) (hc : Charged s)
    (hmeets : CabinMeets formatValue s action) (hstep : cabinStep formatValue s action = some s') :
    Books Resums s' ∧ Charged s' := by
  cases action with
  | build d rows root faults =>
    simp only [cabinStep] at hstep
    split at hstep
    · cases hstep
    · next hfresh =>
      split at hstep
      · cases hstep
        exact ⟨hb, hc⟩
      · next a hbuild =>
        cases hstep
        unfold buildBoundCabin at hbuild
        split at hbuild
        · cases hbuild
        · have hrows : ∀ row ∈ rows, d.keyFor row 0 ∈ rows.map fun row => d.keyFor row 0 :=
            fun row hrow => mem_map.mpr ⟨row, hrow, rfl⟩
          obtain ⟨hbal, hres, hdecl⟩ := buildRows_spec hbuild (balanced_empty d)
            (resums_empty d) (fun g hg => by cases hg) hrows hmeets
          have hid : a.decl = d := hdecl
          exact ⟨hb.adopt (by rw [hid]; exact hfresh) hbal hres, hc⟩
  | insert t oid values faults =>
    cases hstep
    obtain ⟨hb', htally⟩ := reserveAll_spec hb (t := t) (hb.order oid) hmeets
    exact ⟨hb'.charge, hc.charge htally⟩
  | update t oid oldRow newRow faults =>
    cases hstep
    obtain ⟨hb', htally⟩ := reserveAll_spec hb (t := t) (hb.order oid) hmeets
    exact ⟨hb'.charge, hc.charge htally⟩
  | delete t oid oldRow faults =>
    cases hstep
    obtain ⟨hb', htally⟩ := reserveAll_spec hb (t := t) (hb.order oid) hmeets
    exact ⟨hb'.charge, hc.charge htally⟩
  | commit t faults =>
    cases hstep
    exact commitTxn_spec hb hc t faults
  | abort t faults =>
    cases hstep
    exact abortTxn_books hb hc hmeets

theorem books_initial : Books Resums {} where
  each _ _ h := by cases h
  order _ := nodup_nil
  listed _ _ h := by cases h
  held _ _ h := by cases h
  once _ := nodup_nil
  apart _ _ _ _ h := by cases h

/-- **Headers equal their entries.**  In every run whose appends land on headers that can take them
    or find no page, and whose aborts run through and leave groups that re-sum, every state has:
    each group verified against its entries, no counter out of range, ids dense, unique and kept by
    every record that named them, nothing left of a transaction that was aborted, and a log that
    folds, from whatever pages had reached the device, to the same headers. -/
theorem headers_equal_entries {formatValue : Nat → AstValue → String} {s : CabinState}
    (hreach : Reach (cabinStep formatValue) (CabinMeets formatValue) {} s) :
    HeadersEqualEntries s := by
  obtain ⟨hb, hc⟩ : Books Resums s ∧ Charged s := by
    refine @Reach.invariant _ _ _ _ (fun s => Books Resums s ∧ Charged s) _ _ hreach
      ⟨books_initial, fun _ _ _ => rfl⟩ ?_
    rintro t u action ⟨hb, hc⟩ hmeets hstep
    exact cabinStep_books hb hc hmeets hstep
  exact hb.holds hc

-- Runs on fixed inputs

/-- At most ten rows to a value of the second column. -/
def tenRows : AssertionDecl where
  assertionId := 7
  targetOid := 1
  name := "ten"
  aggregate := .count
  bound := 10
  groupCols := [1]

/-- The third column sums to at most 2^63 - 1 for each value of the second. -/
def boundedSum : AssertionDecl where
  assertionId := 8
  targetOid := 2
  name := "sum"
  aggregate := .sum
  bound := 2 ^ 63 - 1
  groupCols := [1]
  sumCol := 2
  sumColName := "c"

def sumRow (value : Int) : List AstValue := [.ofInt 0, .ofInt 1, .ofInt value]

def cabinSampleStep : CabinState → CabinAction → Option CabinState := cabinStep fun _ _ => ""

/-- A row reserved, a second one that finds no page, and the abort of both. -/
theorem unallocated_page_then_abort :
    ∃ s, Reach cabinSampleStep (CabinMeets fun _ _ => "") {} s ∧ s.live 7 ≠ none ∧
      HeadersEqualEntries s := by
  have hreach : Reach cabinSampleStep (CabinMeets fun _ _ => "") {} _ :=
    ((((Relation.ReflTransGen.refl.tail
      ⟨.build tenRows [] none (fun _ => .none), (by decide : (0 : Nat) < 2 ^ 32), rfl⟩).tail
      ⟨.insert 2 1 [.ofInt 5] (fun _ _ => .none),
        ⟨⟨fun _ _ h => (by cases h), fun _ _ _ h => (by
            cases h
            exact ⟨.inr (by decide : 0 < 2 ^ 32 - 1),
              (by decide : InRange ((0, 0) + (0, 0) + (1, 1)))⟩)⟩,
          fun _ => trivial⟩, rfl⟩).tail
      ⟨.insert 2 1 [.ofInt 5] (fun _ _ => .unappended (.outOfSpace "no page")),
        ⟨⟨fun _ _ h => (by cases h), fun _ _ _ h => (by cases h; exact ⟨.inl rfl, trivial⟩)⟩,
          fun _ => trivial⟩, rfl⟩).tail
      ⟨.abort 2 (fun _ => .none), ⟨fun _ _ => .inl rfl, fun done r left hsplit a ha => (by
        have hdone : done = [] := by
          have hlen := congrArg List.length hsplit
          change 1 = _ at hlen
          rw [length_append, length_cons] at hlen
          exact length_eq_zero_iff.mp (by omega)
        subst hdone
        obtain ⟨hr, -⟩ := List.cons.inj hsplit
        subst hr
        cases ha
        decide), fun r hr a ha => (by
        obtain rfl := mem_singleton.mp hr
        cases ha
        exact resumsInRange_nil _)⟩, rfl⟩)
  exact ⟨_, hreach, (by simp [CabinState.charge, CabinState.abortTxn]; decide),
    headers_equal_entries hreach⟩

/-- How the fold of an assertion's records fails, if it does. -/
def foldError (s : CabinState) (id : Nat) : Option StatusCode :=
  match s.live id with
  | none => none
  | some a =>
    match replay a.chain.log { pages := fun _ => [] } with
    | .ok _ => none
    | .error e => some e.code

/-- How re-summing an assertion's groups fails, if it does. -/
def verifyError (s : CabinState) (id : Nat) : Option StatusCode :=
  match s.live id with
  | none => none
  | some a =>
    match verifyAgainstEntries a.chain.pages a.cabin.groups with
    | .ok _ => none
    | .error e => some e.code

variable {code : StatusCode}

theorem not_holds_of_foldError (h : foldError s id = some code) : ¬ HeadersEqualEntries s := by
  intro hs
  unfold foldError at h
  cases ha : s.live id with
  | none => simp [ha] at h
  | some a =>
    obtain ⟨r, hr, -⟩ := hs.replayed id a ha fun _ => []
    simp [ha, hr] at h

theorem not_holds_of_verifyError (h : verifyError s id = some code) : ¬ HeadersEqualEntries s := by
  intro hs
  unfold verifyError at h
  cases ha : s.live id with
  | none => simp [ha] at h
  | some a => simp [ha, hs.verified id a ha] at h

def noFault : AppendFaults := fun _ _ => .none

/-- Three ways a run without a single page or log failure leaves the books wrong: a departure whose
    group is missing, and one whose header has no room for it, are in the log for good although the
    call failed and its transaction was aborted; and four arrivals, of which the first is aborted,
    no longer re-sum. -/
theorem refused_departure_stays_in_the_log :
    (∃ s, Reach cabinSampleStep (fun _ _ => True) {} s ∧ s.pending 2 = [] ∧
      foldError s 7 = some .corruption ∧ ¬ HeadersEqualEntries s) ∧
    (∃ s, Reach cabinSampleStep (fun _ _ => True) {} s ∧ s.pending 2 = [] ∧
      foldError s 8 = some .outOfRange ∧ ¬ HeadersEqualEntries s) ∧
    (∃ s, Reach cabinSampleStep (fun _ _ => True) {} s ∧
      verifyError s 8 = some .outOfRange ∧ ¬ HeadersEqualEntries s) := by
  refine ⟨?_, ?_, ?_⟩
  · obtain ⟨s, hreach, hp⟩ := @exists_reach_of_runList _ _ cabinSampleStep (fun _ _ => True)
      (fun _ _ => true) (fun _ _ _ => trivial)
      [.build tenRows [] none (fun _ => .none), .delete 2 1 [.ofInt 0, .ofInt 5] noFault,
        .abort 2 (fun _ => .none)] {}
      (fun s => s.pending 2 = [] ∧ foldError s 7 = some .corruption) (by decide +kernel)
    obtain ⟨hpending, herror⟩ := of_decide_eq_true hp
    exact ⟨s, hreach, hpending, herror, not_holds_of_foldError herror⟩
  · obtain ⟨s, hreach, hp⟩ := @exists_reach_of_runList _ _ cabinSampleStep (fun _ _ => True)
      (fun _ _ => true) (fun _ _ _ => trivial)
      [.build boundedSum [sumRow 5, sumRow (-5), sumRow (-2 ^ 63)] none (fun _ => .none),
        .delete 2 2 (sumRow 5) noFault, .abort 2 (fun _ => .none)] {}
      (fun s => s.pending 2 = [] ∧ foldError s 8 = some .outOfRange) (by decide +kernel)
    obtain ⟨hpending, herror⟩ := of_decide_eq_true hp
    exact ⟨s, hreach, hpending, herror, not_holds_of_foldError herror⟩
  · obtain ⟨s, hreach, hp⟩ := @exists_reach_of_runList _ _ cabinSampleStep (fun _ _ => True)
      (fun _ _ => true) (fun _ _ _ => trivial)
      [.build boundedSum [] none (fun _ => .none),
        .insert 2 2 (sumRow (-2 ^ 62)).tail noFault, .insert 3 2 (sumRow (2 ^ 63 - 1)).tail noFault,
        .insert 4 2 (sumRow (2 ^ 62)).tail noFault, .insert 5 2 (sumRow (-2 ^ 62)).tail noFault,
        .abort 2 (fun _ => .none)] {}
      (fun s => verifyError s 8 = some .outOfRange) (by decide +kernel)
    exact ⟨s, hreach, of_decide_eq_true hp, not_holds_of_verifyError (of_decide_eq_true hp)⟩

end Kds.Exec
