/-
  Kds.Exec.AssertionLedger

  The bookkeeping fact behind assertion enforcement: a group's header is a settled part plus
  what the pending reservations moved.  Three things are read off a group in the same way, its
  count, its sum and how often a place occurs among its entries, so they are three values of one
  type `Meter`, each with what it reads off a directory and what one reservation moves it by.

  `forEachOn_conserves` says that a statement moves a reading by exactly what it adds to its
  transaction's pending list, whether it succeeds or stops halfway; `abortTxn_spec` that the
  reversed walk takes exactly that back.
-/

import Kds.Exec.AssertionCheck
import Mathlib.Tactic.Linarith

namespace Kds.Exec

open List

/-- Something that is counted per group. -/
inductive Meter where
  | count
  | sum
  | entry (loc : EntryAt)

def BoundAggregate.meter : BoundAggregate → Meter
  | .count => .count
  | .sum => .sum

namespace Meter

/-- What the directory's header says. -/
def read (m : Meter) (c : BoundCabin) (key : List UInt8) : Int :=
  match m with
  | .count => c.countOf key
  | .sum => c.sumOf key
  | .entry loc => (c.entriesOf key).count loc

/-- What one reservation moved it by. -/
def weight (m : Meter) (r : Reservation) : Int :=
  match m with
  | .count => if r.departure then -1 else 1
  | .sum => if r.departure then -r.value else r.value
  | .entry loc => if r.loc = loc then 1 else 0

end Meter

/-- The net effect of a list of reservations on one group of one assertion. -/
def netOf (m : Meter) (id : Nat) (key : List UInt8) : List Reservation → Int
  | [] => 0
  | r :: rs => (if r.assertionId = id ∧ r.key = key then m.weight r else 0) + netOf m id key rs

@[simp] theorem netOf_nil (m : Meter) (id : Nat) (key : List UInt8) : netOf m id key [] = 0 := rfl

theorem netOf_append (m : Meter) (id : Nat) (key : List UInt8) (rs rs' : List Reservation) :
    netOf m id key (rs ++ rs') = netOf m id key rs + netOf m id key rs' := by
  induction rs with
  | nil => simp [netOf]
  | cons r rs ih =>
    rw [cons_append, netOf, netOf, ih]
    omega

theorem netOf_reverse (m : Meter) (id : Nat) (key : List UInt8) (rs : List Reservation) :
    netOf m id key rs.reverse = netOf m id key rs := by
  induction rs with
  | nil => rfl
  | cons r rs ih =>
    rw [reverse_cons, netOf_append, ih]
    simp only [netOf]
    omega

theorem netOf_entry_nonneg (loc : EntryAt) (id : Nat) (key : List UInt8) (rs : List Reservation) :
    0 ≤ netOf (.entry loc) id key rs := by
  induction rs with
  | nil => simp [netOf]
  | cons r rs ih =>
    have hw : 0 ≤ Meter.weight (.entry loc) r := by
      simp only [Meter.weight]
      split <;> omega
    simp only [netOf]
    split <;> omega

-- One statement

/-- What one assertion's part of a statement may do: the declaration stays, the header moves by
    what joins the pending list, and no other assertion's reservations are touched. -/
structure Conserves (a a' : LiveAssertion) (rs rs' : List Reservation) : Prop where
  decl : a'.decl = a.decl
  own : ∀ m key, m.read a'.cabin key - netOf m a.decl.assertionId key rs' =
    m.read a.cabin key - netOf m a.decl.assertionId key rs
  other : ∀ m id key, id ≠ a.decl.assertionId → netOf m id key rs' = netOf m id key rs

theorem Conserves.refl (a : LiveAssertion) (rs : List Reservation) : Conserves a a rs rs :=
  ⟨rfl, fun _ _ => rfl, fun _ _ _ _ => rfl⟩

theorem Conserves.trans {a₁ a₂ a₃ : LiveAssertion} {rs₁ rs₂ rs₃ : List Reservation}
    (h₁ : Conserves a₁ a₂ rs₁ rs₂) (h₂ : Conserves a₂ a₃ rs₂ rs₃) : Conserves a₁ a₃ rs₁ rs₃ := by
  refine ⟨h₂.decl.trans h₁.decl, ?_, ?_⟩
  · intro m key
    have := h₂.own m key
    rw [h₁.decl] at this
    rw [this, h₁.own]
  · intro m id key hid
    rw [h₂.other m id key (by rwa [h₁.decl]), h₁.other m id key hid]

theorem Meter.read_ensureGroup (m : Meter) (c : BoundCabin) (key k : List UInt8) :
    m.read (c.ensureGroup key) k = m.read c k := by
  cases m with
  | count => simp [read, (c.moved_ensureGroup key).count k]
  | sum => simp [read, (c.moved_ensureGroup key).sum k]
  | entry loc => simp [read, c.entriesOf_ensureGroup key k]

variable {r : Reservation}

variable {c : BoundCabin}

theorem Meter.read_moved {c' : BoundCabin}
    (hmoved : c.Moved c' r.key (if r.departure then -1 else 1)
      (if r.departure then -r.value else r.value))
    (hentries : ∀ k, c'.entriesOf k = if k = r.key then c.entriesOf k ++ [r.loc] else c.entriesOf k)
    (m : Meter) (k : List UInt8) :
    m.read c' k = m.read c k + if k = r.key then m.weight r else 0 := by
  cases m with
  | count => exact hmoved.count k
  | sum => exact hmoved.sum k
  | entry loc =>
    simp only [read, weight, hentries]
    by_cases hk : k = r.key
    · by_cases hloc : r.loc = loc
      · simp [hk, hloc]
      · simp [hk, hloc]
    · simp [hk]

section

variable {chainAppend : Nat → StatusOr EntryAt} {formatValue : Nat → AstValue → String}

variable {a : LiveAssertion} {st st' : Reserving}

variable {key : List UInt8} {a' : LiveAssertion} {err : Option Status}

/-- **Spec of `ReserveOne`.**  Either way header and pending list stay in step; on success the
    pending list has grown by the reservation asked for. -/
theorem reserveOne_spec {departure : Bool} {value : Int}
    (h : reserveOne chainAppend key departure value a st = ((a', st'), err)) :
    Conserves a a' st.pending st'.pending ∧
      (err = none → ∃ loc, st'.pending =
        st.pending ++ [⟨a.decl.assertionId, key, departure, value, loc⟩]) := by
  have hborn : Conserves a (if departure then a else { a with cabin := a.cabin.ensureGroup key })
      st.pending st.pending := by
    cases departure with
    | true => exact .refl a st.pending
    | false => exact ⟨rfl, fun m k => by simp [Meter.read_ensureGroup], fun _ _ _ _ => rfl⟩
  unfold reserveOne at h
  dsimp only at h
  split at h
  · cases h
    exact ⟨hborn, fun hnone => by cases hnone⟩
  · next loc _ =>
    split at h
    · cases h
      exact ⟨hborn, fun hnone => by cases hnone⟩
    · next cabin hcabin =>
      cases h
      refine ⟨⟨rfl, ?_, ?_⟩, fun _ => ⟨loc, rfl⟩⟩
      · intro m k
        have hread : m.read cabin k = m.read a.cabin k + if k = key then
            m.weight ⟨a.decl.assertionId, key, departure, value, loc⟩ else 0 := by
          cases departure with
          | true =>
            obtain ⟨hmoved, hentries⟩ := BoundCabin.applyDeparture_ok hcabin
            exact Meter.read_moved (r := ⟨_, key, true, value, loc⟩) hmoved hentries m k
          | false =>
            obtain ⟨hmoved, hentries⟩ := BoundCabin.apply_ok hcabin
            rw [Meter.read_moved (r := ⟨a.decl.assertionId, key, false, value, loc⟩) hmoved
              hentries m k]
            simp [Meter.read_ensureGroup]
        simp only [netOf_append, netOf, true_and, hread]
        by_cases hk : k = key
        · simp only [hk, if_true]
          omega
        · have hk' : key ≠ k := fun heq => hk heq.symm
          simp only [hk, hk', if_false]
          omega
      · intro m id k hid
        have hid' : a.decl.assertionId ≠ id := fun heq => hid heq.symm
        simp [netOf_append, netOf, hid']

/-- What `forEachOn` needs to know of its body: header and pending list stay in step, and a
    success adds `adds` to the assertion's own groups and establishes `post`. -/
structure BodySpec (body : LiveAssertion → Reserving → Outcome (LiveAssertion × Reserving))
    (adds : AssertionDecl → List UInt8 → Int) (post : LiveAssertion → Prop) : Prop where
  conserves : ∀ {a st a' st' err}, body a st = ((a', st'), err) →
    Conserves a a' st.pending st'.pending
  success : ∀ {a st a' st'}, body a st = ((a', st'), none) →
    post a ∧ ∀ key, netOf a.decl.aggregate.meter a.decl.assertionId key st'.pending =
      netOf a.decl.aggregate.meter a.decl.assertionId key st.pending + adds a.decl key

/-- The readings of every assertion in `live` moved in step with the pending list. -/
def InStep (live live' : List LiveAssertion) (rs rs' : List Reservation) : Prop :=
  List.Forall₂ (fun a a' => a'.decl = a.decl ∧
    ∀ m key, m.read a'.cabin key - netOf m a.decl.assertionId key rs' =
      m.read a.cabin key - netOf m a.decl.assertionId key rs) live live'

variable {live : List LiveAssertion}

theorem inStep_of_other {rs rs' : List Reservation}
    (h : ∀ a ∈ live, ∀ m key, netOf m a.decl.assertionId key rs' =
      netOf m a.decl.assertionId key rs) : InStep live live rs rs' := by
  unfold InStep
  rw [List.forall₂_same]
  exact fun a ha => ⟨rfl, fun m key => by rw [h a ha]⟩

variable {oid : Oid}

variable {live' : List LiveAssertion}
  {body : LiveAssertion → Reserving → Outcome (LiveAssertion × Reserving)}
  {adds : AssertionDecl → List UInt8 → Int} {post : LiveAssertion → Prop}

/-- **One statement keeps headers and pending list in step**, whether it runs through or stops at
    an assertion's refusal, and touches no reservation of an assertion outside the list. -/
theorem forEachOn_conserves (hbody : BodySpec body adds post)
    (hnodup : (live.map (·.decl.assertionId)).Nodup)
    (h : forEachOn oid body live st = ((live', st'), err)) :
    InStep live live' st.pending st'.pending ∧
      ∀ m id key, id ∉ live.map (·.decl.assertionId) →
        netOf m id key st'.pending = netOf m id key st.pending := by
  induction live generalizing live' st st' err with
  | nil =>
    cases h
    exact ⟨.nil, fun _ _ _ _ => rfl⟩
  | cons a rest ih =>
    simp only [map_cons, nodup_cons] at hnodup
    obtain ⟨hfresh, hrest⟩ := hnodup
    have hne : ∀ b ∈ rest, b.decl.assertionId ≠ a.decl.assertionId := fun b hb heq =>
      hfresh (heq ▸ mem_map_of_mem hb)
    unfold forEachOn at h
    split at h
    · split at h
      · next a₁ st₁ e hb =>
        -- the body refused: the rest of the list was never visited
        cases h
        have hc := hbody.conserves hb
        refine ⟨.cons ⟨hc.decl, hc.own⟩ (inStep_of_other fun b hb m key =>
          hc.other m _ key (hne b hb)), ?_⟩
        intro m id key hid
        simp only [map_cons, mem_cons, not_or] at hid
        exact hc.other m id key hid.1
      · next a₁ st₁ hb =>
        cases h
        have hc := hbody.conserves hb
        obtain ⟨hstep, hother⟩ := ih hrest (Eq.refl (forEachOn oid body rest st₁))
        refine ⟨.cons ⟨hc.decl, ?_⟩ ?_, ?_⟩
        · intro m key
          rw [hother m _ key hfresh, hc.own]
        · refine List.Forall₂.imp ?_ ((List.forall₂_and_left _ _).mpr ⟨hne, hstep⟩)
          rintro b b' ⟨hb, hdecl, hown⟩
          refine ⟨hdecl, fun m key => ?_⟩
          rw [hown, hc.other m _ key hb]
        · intro m id key hid
          simp only [map_cons, mem_cons, not_or] at hid
          rw [hother m id key hid.2, hc.other m id key hid.1]
    · cases h
      obtain ⟨hstep, hother⟩ := ih hrest (Eq.refl (forEachOn oid body rest st))
      refine ⟨.cons ⟨rfl, fun m key => ?_⟩ hstep, ?_⟩
      · rw [hother m _ key hfresh]
      · intro m id key hid
        simp only [map_cons, mem_cons, not_or] at hid
        exact hother m id key hid.2

theorem forEachOn_success
    (hbody : BodySpec body adds post) (hnodup : (live.map (·.decl.assertionId)).Nodup)
    (h : forEachOn oid body live st = ((live', st'), none)) :
    ∀ a ∈ live, (a.decl.targetOid = oid → post a) ∧
      ∀ key, netOf a.decl.aggregate.meter a.decl.assertionId key st'.pending =
        netOf a.decl.aggregate.meter a.decl.assertionId key st.pending +
          if a.decl.targetOid = oid then adds a.decl key else 0 := by
  induction live generalizing live' st with
  | nil => simp
  | cons a rest ih =>
    simp only [map_cons, nodup_cons] at hnodup
    obtain ⟨hfresh, hrest⟩ := hnodup
    unfold forEachOn at h
    split at h
    · next hoid =>
      split at h
      · simp at h
      · next a₁ st₁ hb =>
        obtain ⟨hpost, hadds⟩ := hbody.success hb
        have hc := hbody.conserves hb
        have hloop : forEachOn oid body rest st₁ =
            (((forEachOn oid body rest st₁).1.1, st'), none) := by
          simp only [Prod.mk.injEq] at h
          ext <;> simp [h]
        obtain ⟨-, hother⟩ := forEachOn_conserves hbody hrest hloop
        intro b hb
        rcases mem_cons.mp hb with rfl | hb
        · refine ⟨fun _ => hpost, fun key => ?_⟩
          rw [hother _ _ key hfresh, hadds, if_pos hoid]
        · obtain ⟨hp, hn⟩ := ih hrest hloop b hb
          refine ⟨hp, fun key => ?_⟩
          have hne : b.decl.assertionId ≠ a.decl.assertionId := fun heq =>
            hfresh (heq ▸ mem_map_of_mem hb)
          rw [hn, hc.other _ _ key hne]
    · next hoid =>
      have hloop : forEachOn oid body rest st =
          (((forEachOn oid body rest st).1.1, st'), none) := by
        simp only [Prod.mk.injEq] at h
        ext <;> simp [h]
      obtain ⟨-, hother⟩ := forEachOn_conserves hbody hrest hloop
      intro b hb
      rcases mem_cons.mp hb with rfl | hb
      · refine ⟨fun h => absurd h hoid, fun key => ?_⟩
        rw [hother _ _ key hfresh, if_neg hoid, add_zero]
      · exact ih hrest hloop b hb

-- The three statements

/-- What a row contributes to a group of an assertion on its relation. -/
def AssertionDecl.rowValue (d : AssertionDecl) (key : List UInt8) (row : List AstValue) : Int :=
  if d.keyFor row 0 = key then d.contributionOf row 0 else 0

theorem weight_arrival (d : AssertionDecl) (key : List UInt8) (row : List AstValue) (fcp : Nat)
    (loc : EntryAt) :
    d.aggregate.meter.weight ⟨d.assertionId, key, false, d.contributionOf row fcp, loc⟩ =
      d.contributionOf row fcp := by
  unfold AssertionDecl.contributionOf
  cases d.aggregate <;> simp [Meter.weight, BoundAggregate.meter]

theorem weight_departure (d : AssertionDecl) (key : List UInt8) (row : List AstValue) (fcp : Nat)
    (loc : EntryAt) :
    d.aggregate.meter.weight ⟨d.assertionId, key, true, d.contributionOf row fcp, loc⟩ =
      -d.contributionOf row fcp := by
  unfold AssertionDecl.contributionOf
  cases d.aggregate <;> simp [Meter.weight, BoundAggregate.meter]

theorem reserveInsert_body (values : List AstValue) :
    BodySpec (fun a => reserveOne chainAppend (a.decl.keyFor values 1) false
        (a.decl.contributionOf values 1) a)
      (fun d key => if d.keyFor values 1 = key then d.contributionOf values 1 else 0)
      (fun _ => True) where
  conserves h := (reserveOne_spec h).1
  success {a st a' st'} h := by
    refine ⟨trivial, fun key => ?_⟩
    obtain ⟨loc, hpend⟩ := (reserveOne_spec h).2 rfl
    rw [hpend, netOf_append]
    simp [netOf, weight_arrival]

theorem reserveDelete_body (oldRow : List AstValue) :
    BodySpec (fun a => reserveOne chainAppend (a.decl.keyFor oldRow 0) true
        (a.decl.contributionOf oldRow 0) a)
      (fun d key => -d.rowValue key oldRow) (fun _ => True) where
  conserves h := (reserveOne_spec h).1
  success {a st a' st'} h := by
    refine ⟨trivial, fun key => ?_⟩
    obtain ⟨loc, hpend⟩ := (reserveOne_spec h).2 rfl
    rw [hpend, netOf_append]
    simp only [netOf, weight_departure, AssertionDecl.rowValue, true_and]
    split <;> omega

theorem reserveMove_spec {oldKey newKey : List UInt8} {oldContrib newContrib : Int}
    (h : reserveMove chainAppend oldKey newKey oldContrib newContrib a st = ((a', st'), err)) :
    Conserves a a' st.pending st'.pending ∧
      (err = none → ∃ loc loc', st'.pending = st.pending ++
        [⟨a.decl.assertionId, oldKey, true, oldContrib, loc⟩,
          ⟨a.decl.assertionId, newKey, false, newContrib, loc'⟩]) := by
  unfold reserveMove at h
  split at h
  · next left e hleft =>
    cases h
    exact ⟨(reserveOne_spec hleft).1, fun hnone => by cases hnone⟩
  · next left hleft =>
    obtain ⟨hc, hpend⟩ := reserveOne_spec hleft
    obtain ⟨hc', hpend'⟩ := reserveOne_spec h
    refine ⟨hc.trans hc', fun hnone => ?_⟩
    obtain ⟨loc, hloc⟩ := hpend rfl
    obtain ⟨loc', hloc'⟩ := hpend' hnone
    exact ⟨loc, loc', by rw [hloc', hloc, hc.decl, append_assoc]; rfl⟩

variable {values : List AstValue}

theorem check_eq_none {delta : Int} {fcp : Nat} (h : a.check formatValue key delta values fcp =
    none) :
    a.cabin.aggregateOf a.decl.aggregate key + delta ≤ a.decl.bound := by
  unfold LiveAssertion.check at h
  split at h
  · cases h
  · next r hr =>
    split at h
    · next hadm => exact BoundCabin.admit_ok hr hadm
    · cases h

/-- What an UPDATE's admission establishes: the group the new row joins has room for what the
    update adds to it. -/
def AdmittedUpdate (oldRow newRow : List AstValue) (a : LiveAssertion) : Prop :=
  let key := a.decl.keyFor newRow 0
  let added := a.decl.rowValue key newRow - a.decl.rowValue key oldRow
  0 < added → a.cabin.aggregateOf a.decl.aggregate key + added ≤ a.decl.bound

theorem updateOne_body (oldRow newRow : List AstValue) :
    BodySpec (updateOne chainAppend formatValue oldRow newRow)
      (fun d key => d.rowValue key newRow - d.rowValue key oldRow)
      (AdmittedUpdate oldRow newRow) where
  conserves {a st a' st' err} h := by
    unfold updateOne at h
    dsimp only at h
    split_ifs at h with hkey hsame
    · cases h
      exact .refl a st.pending
    · split at h
      · cases h
        exact .refl a st.pending
      · split at h
        · cases h
          exact .refl a st.pending
        · exact (reserveMove_spec h).1
    · split at h
      · cases h
        exact .refl a st.pending
      · exact (reserveMove_spec h).1
  success {a st a' st'} h := by
    have hmove : ∀ {a' st'}, reserveMove chainAppend (a.decl.keyFor oldRow 0)
        (a.decl.keyFor newRow 0) (a.decl.contributionOf oldRow 0) (a.decl.contributionOf newRow 0)
        a st = ((a', st'), none) → ∀ key,
        netOf a.decl.aggregate.meter a.decl.assertionId key st'.pending =
          netOf a.decl.aggregate.meter a.decl.assertionId key st.pending +
            (a.decl.rowValue key newRow - a.decl.rowValue key oldRow) := by
      intro a' st' h key
      obtain ⟨loc, loc', hpend⟩ := (reserveMove_spec h).2 rfl
      rw [hpend, netOf_append]
      simp only [netOf, weight_arrival, weight_departure, AssertionDecl.rowValue, true_and]
      split <;> split <;> omega
    unfold updateOne at h
    dsimp only at h
    unfold AdmittedUpdate
    dsimp only
    split_ifs at h with hkey hsame
    · -- the aggregate is invariant: nothing was reserved and nothing is added
      cases h
      refine ⟨?_, fun key => ?_⟩
      · simp [AssertionDecl.rowValue, hkey, hsame]
      · simp [AssertionDecl.rowValue, hkey, hsame]
    · split at h
      · cases h
      · next delta hdelta =>
        obtain ⟨-, rfl⟩ := checkedAdd_eq_some.mp hdelta
        split at h
        · cases h
        · next hcheck =>
          refine ⟨fun hpos => ?_, hmove h⟩
          have hval : a.decl.rowValue (a.decl.keyFor newRow 0) newRow -
              a.decl.rowValue (a.decl.keyFor newRow 0) oldRow =
              a.decl.contributionOf newRow 0 + -a.decl.contributionOf oldRow 0 := by
            simp [AssertionDecl.rowValue, hkey, sub_eq_add_neg]
          rw [hval] at hpos ⊢
          rw [if_pos hpos] at hcheck
          exact check_eq_none hcheck
    · split at h
      · cases h
      · next hcheck =>
        refine ⟨fun _ => ?_, hmove h⟩
        have hval : a.decl.rowValue (a.decl.keyFor newRow 0) newRow -
            a.decl.rowValue (a.decl.keyFor newRow 0) oldRow =
            a.decl.contributionOf newRow 0 := by
          simp [AssertionDecl.rowValue, hkey]
        rw [hval]
        exact check_eq_none hcheck

theorem admitInsert_eq_none (h : admitInsert formatValue oid values live = none) :
    ∀ a ∈ live, a.decl.targetOid = oid →
      a.cabin.aggregateOf a.decl.aggregate (a.decl.keyFor values 1) +
        a.decl.contributionOf values 1 ≤ a.decl.bound := by
  induction live with
  | nil => simp
  | cons a rest ih =>
    unfold admitInsert at h
    intro b hb hoid
    split_ifs at h with ha
    · split at h
      · cases h
      · next hcheck =>
        rcases mem_cons.mp hb with rfl | hb
        · exact check_eq_none hcheck
        · exact ih h b hb hoid
    · rcases mem_cons.mp hb with rfl | hb
      · exact absurd hoid ha
      · exact ih h b hb hoid

end

-- Abort

/-- Reversing `rs` in this order keeps every count and sum it passes through in range.  The
    source reports an overflow here and drops the rest of the list. -/
def UnwindInRange (live : List LiveAssertion) (rs : List Reservation) : Prop :=
  ∀ a ∈ live, ∀ key, ∀ done left, rs = done ++ left →
    InInt64 (a.cabin.countOf key - netOf .count a.decl.assertionId key done) ∧
      InInt64 (a.cabin.sumOf key - netOf .sum a.decl.assertionId key done)

/-- Every reservation still has its entry in the group it was made in. -/
def EntriesHeld (live : List LiveAssertion) (rs : List Reservation) : Prop :=
  ∀ a ∈ live, ∀ key loc, netOf (.entry loc) a.decl.assertionId key rs ≤
    ((a.cabin.entriesOf key).count loc : Int)

theorem unreserve_spec (hloc : r.loc ∈ c.entriesOf r.key)
    (hcount : InInt64 (c.countOf r.key - Meter.weight .count r))
    (hsum : InInt64 (c.sumOf r.key - Meter.weight .sum r)) :
    ∃ c', unreserve r c = .ok c' ∧
      ∀ m k, Meter.read m c' k = m.read c k - if k = r.key then m.weight r else 0 := by
  have key : ∀ {dCount dSum : Int} {e₁ e₂ e₃ : String}, dCount = -Meter.weight .count r →
      dSum = -Meter.weight .sum r → ∃ c', c.forget r.key dCount dSum r.loc e₁ e₂ e₃ = .ok c' ∧
        ∀ m k, Meter.read m c' k = m.read c k - if k = r.key then m.weight r else 0 := by
    rintro dCount dSum e₁ e₂ e₃ rfl rfl
    obtain ⟨c', hok, hmoved, hentries⟩ := BoundCabin.forget_spec e₁ e₂ e₃
      hloc (by rwa [← sub_eq_add_neg]) (by rwa [← sub_eq_add_neg])
    refine ⟨c', hok, fun m k => ?_⟩
    cases m with
    | count =>
      simp only [Meter.read, hmoved.count k]
      split <;> omega
    | sum =>
      simp only [Meter.read, hmoved.sum k]
      split <;> omega
    | entry loc =>
      simp only [Meter.read, Meter.weight, hentries k]
      by_cases hk : k = r.key
      · subst hk
        have hpos : 0 < (c.entriesOf r.key).count r.loc := count_pos_iff.mpr hloc
        by_cases hl : r.loc = loc
        · subst hl
          simp only [if_true, count_erase_self]
          omega
        · simp [hl, count_erase_of_ne (Ne.symm hl)]
      · simp [hk]
  unfold unreserve
  split
  · next hdep => exact key (by simp [Meter.weight, hdep]) (by simp [Meter.weight, hdep])
  · next hdep => exact key (by simp [Meter.weight, hdep]) (by simp [Meter.weight, hdep])

/-- `live'` is `live` with the reservations `rs` taken back. -/
def TakenBack (live live' : List LiveAssertion) (rs : List Reservation) : Prop :=
  List.Forall₂ (fun a a' => a'.decl = a.decl ∧ ∀ m key, Meter.read m a'.cabin key =
    m.read a.cabin key - netOf m a.decl.assertionId key rs) live live'

variable {rs : List Reservation} {live : List LiveAssertion}

theorem TakenBack.map_decl {live' : List LiveAssertion}
    (h : TakenBack live live' rs) : live'.map (·.decl) = live.map (·.decl) := by
  unfold TakenBack at h
  induction h with
  | nil => rfl
  | cons hd _ ih => simp [hd.1, ih]

theorem takenBack_of_fresh
    (h : ∀ a ∈ live, a.decl.assertionId ≠ r.assertionId) : TakenBack live live [r] := by
  unfold TakenBack
  rw [List.forall₂_same]
  intro a ha
  refine ⟨rfl, fun m key => ?_⟩
  simp [netOf, Ne.symm (h a ha)]

theorem unreserveIn_spec
    (hnodup : (live.map (·.decl.assertionId)).Nodup) (hentries : EntriesHeld live (r :: rs))
    (hrange : UnwindInRange live (r :: rs)) :
    ∃ live', unreserveIn r live = .ok live' ∧ TakenBack live live' [r] := by
  induction live with
  | nil => exact ⟨[], rfl, .nil⟩
  | cons a rest ih =>
    simp only [map_cons, nodup_cons] at hnodup
    obtain ⟨hfresh, hrest⟩ := hnodup
    unfold unreserveIn
    by_cases hid : a.decl.assertionId = r.assertionId
    · have hheld := hentries a (by simp) r.key r.loc
      have hnonneg := netOf_entry_nonneg r.loc a.decl.assertionId r.key rs
      obtain ⟨hcount, hsum⟩ := hrange a (by simp) r.key [r] rs rfl
      simp only [netOf, Meter.weight, hid, and_self, if_true] at hheld
      rw [hid] at hnonneg
      have hloc : r.loc ∈ a.cabin.entriesOf r.key := by
        refine count_pos_iff.mp ?_
        omega
      simp only [netOf, hid, and_self, if_true, add_zero] at hcount hsum
      obtain ⟨c', hok, hread⟩ := unreserve_spec hloc hcount hsum
      refine ⟨{ a with cabin := c' } :: rest, by simp [hid, hok], .cons ⟨rfl, ?_⟩ ?_⟩
      · intro m key
        simp only [hread, netOf, hid, true_and, add_zero]
        by_cases hk : key = r.key
        · simp [hk]
        · simp [hk, Ne.symm hk]
      · refine takenBack_of_fresh fun b hb heq => ?_
        exact hfresh (by rw [hid, ← heq]; exact mem_map_of_mem hb)
    · obtain ⟨rest', hok, htaken⟩ := ih hrest
        (fun b hb => hentries b (mem_cons_of_mem _ hb))
        (fun b hb => hrange b (mem_cons_of_mem _ hb))
      refine ⟨a :: rest', by simp [hid, hok], .cons ⟨rfl, ?_⟩ htaken⟩
      intro m key
      simp [netOf, Ne.symm hid]

theorem TakenBack.trans {l₁ l₂ l₃ : List LiveAssertion} {rs' : List Reservation}
    (h₁ : TakenBack l₁ l₂ rs) (h₂ : TakenBack l₂ l₃ rs') : TakenBack l₁ l₃ (rs ++ rs') := by
  unfold TakenBack at *
  induction h₁ generalizing l₃ with
  | nil =>
    cases h₂
    exact .nil
  | cons hd _ ih =>
    cases h₂ with
    | cons hd' htl' =>
      refine .cons ⟨hd'.1.trans hd.1, fun m key => ?_⟩ (ih htl')
      rw [hd'.2, hd.2, hd.1, netOf_append]
      omega

/-- **Spec of `AbortTxn`.**  With every entry still in place and no overflow on the way, the walk
    runs through and takes back exactly the reservations it was given. -/
theorem abortTxn_spec
    (hnodup : (live.map (·.decl.assertionId)).Nodup) (hentries : EntriesHeld live rs)
    (hrange : UnwindInRange live rs) :
    ∃ live', abortTxn rs live = (live', none) ∧ TakenBack live live' rs := by
  induction rs generalizing live with
  | nil =>
    refine ⟨live, rfl, ?_⟩
    unfold TakenBack
    rw [List.forall₂_same]
    exact fun a _ => ⟨rfl, fun m key => by simp⟩
  | cons r rs ih =>
    obtain ⟨live₁, hok, htaken⟩ := unreserveIn_spec hnodup hentries hrange
    have hids : live₁.map (·.decl.assertionId) = live.map (·.decl.assertionId) := by
      have := congrArg (List.map AssertionDecl.assertionId) htaken.map_decl
      simpa [map_map, Function.comp_def] using this
    have hback : ∀ a₁ ∈ live₁, ∃ a ∈ live, a₁.decl = a.decl ∧
        ∀ m key, Meter.read m a₁.cabin key =
          m.read a.cabin key - netOf m a.decl.assertionId key [r] := by
      intro a₁ ha₁
      obtain ⟨i, hi, rfl⟩ := mem_iff_getElem.mp ha₁
      have hi' : i < live.length := by rw [List.Forall₂.length_eq htaken]; exact hi
      exact ⟨live[i], getElem_mem hi', (List.Forall₂.get htaken hi' hi)⟩
    have hentries₁ : EntriesHeld live₁ rs := by
        intro a₁ ha₁ key loc
        obtain ⟨a, ha, hdecl, hread⟩ := hback a₁ ha₁
        have h₁ := hread (.entry loc) key
        have h₂ := hentries a ha key loc
        simp only [Meter.read, netOf] at h₁ h₂
        rw [hdecl]
        omega
    have hrange₁ : UnwindInRange live₁ rs := by
        intro a₁ ha₁ key done left hsplit
        obtain ⟨a, ha, hdecl, hread⟩ := hback a₁ ha₁
        obtain ⟨h₁, h₂⟩ := hrange a ha key (r :: done) left (by rw [hsplit]; rfl)
        have hc := hread .count key
        have hs := hread .sum key
        simp only [Meter.read] at hc hs
        rw [hdecl, hc, hs]
        simp only [netOf, add_zero] at h₁ h₂ ⊢
        rw [sub_sub, sub_sub]
        exact ⟨h₁, h₂⟩
    obtain ⟨live', hok', htaken'⟩ := ih (hids ▸ hnodup) hentries₁ hrange₁
    refine ⟨live', by rw [abortTxn, hok]; exact hok', ?_⟩
    exact htaken.trans htaken'

end Kds.Exec
