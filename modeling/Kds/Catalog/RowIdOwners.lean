/-
  Kds.Catalog.RowIdOwners

  Who has which row ids: an id the mark has passed was issued, is leased to one peer or is on its
  way to one in a grant, and never two of these.
-/

import Kds.Catalog.RowIdMarks
import Mathlib.Data.List.Nodup

namespace Kds.Catalog

open Function (update update_self update_of_ne)

-- One owner for each id

/-- The ids of a grant on its way. -/
def RowIdGrant.Holds (grant : RowIdGrant) (oid : Oid) (id : Nat) : Prop :=
  grant.oid = oid ∧ grant.first ≤ id ∧ id < grant.first + grant.count

/-- **One owner for each id**: a taken id was issued, is leased to one peer or is on its way in one
    grant, and never two of these. -/
structure Owned (s : RowIdState) : Prop where
  once : ∀ oid, (s.issued oid).Nodup
  issued : ∀ oid, ∀ id ∈ s.issued oid, id ∈ s.taken oid ∧ kFirstRowId ≤ id ∧ id ≤ kMaxKeystoneId
  leased : ∀ core oid id, (s.leaseOf core oid).Holds id →
    id ∈ s.taken oid ∧ id ∉ s.issued oid ∧ kFirstRowId ≤ id ∧ id ≤ kMaxKeystoneId
  apart : ∀ core core' oid id, (s.leaseOf core oid).Holds id → (s.leaseOf core' oid).Holds id →
    core = core'
  granted : ∀ grant ∈ s.grants, ∀ oid id, grant.Holds oid id →
    id ∈ s.taken oid ∧ id ∉ s.issued oid ∧ (kFirstRowId ≤ id ∧ id ≤ kMaxKeystoneId) ∧
      ∀ core, ¬ (s.leaseOf core oid).Holds id
  grantsApart : s.grants.Pairwise fun grant other =>
    ∀ oid id, grant.Holds oid id → ¬ other.Holds oid id

/-- A taken id without an owner. -/
def Free (s : RowIdState) (oid : Oid) (id : Nat) : Prop :=
  id ∈ s.taken oid ∧ id ∉ s.issued oid ∧ (kFirstRowId ≤ id ∧ id ≤ kMaxKeystoneId) ∧
    (∀ core, ¬ (s.leaseOf core oid).Holds id) ∧ ∀ grant ∈ s.grants, ¬ grant.Holds oid id

namespace Owned

variable {s : RowIdState} {oid : Oid} {grant : RowIdGrant}

theorem congr {s' : RowIdState} (h : Owned s) (hissued : s'.issued = s.issued)
    (htaken : ∀ oid, ∀ id ∈ s.taken oid, id ∈ s'.taken oid) (hleases : s'.leases = s.leases)
    (hgrants : s'.grants = s.grants) : Owned s' := by
  have hlease : ∀ core oid, s'.leaseOf core oid = s.leaseOf core oid := fun core oid => by
    rw [RowIdState.leaseOf, RowIdState.leaseOf, hleases]
  refine ⟨fun o => ?_, fun o id hid => ?_, fun core o id hid => ?_, fun core core' o id hid hid' =>
    ?_, fun grant hgrant o id hid => ?_, ?_⟩
  · rw [hissued]
    exact h.once o
  · rw [hissued] at hid
    obtain ⟨hin, hspell⟩ := h.issued o id hid
    exact ⟨htaken o id hin, hspell⟩
  · rw [hlease] at hid
    obtain ⟨hin, hrest⟩ := h.leased core o id hid
    rw [hissued]
    exact ⟨htaken o id hin, hrest⟩
  · rw [hlease] at hid hid'
    exact h.apart core core' o id hid hid'
  · rw [hgrants] at hgrant
    obtain ⟨hin, hout, hspell, hfree⟩ := h.granted grant hgrant o id hid
    rw [hissued]
    refine ⟨htaken o id hin, hout, hspell, fun core => ?_⟩
    rw [hlease]
    exact hfree core
  · rw [hgrants]
    exact h.grantsApart

theorem issue (h : Owned s) {ids : List Nat} (hnodup : ids.Nodup)
    (hids : ∀ id ∈ ids, Free s oid id) : Owned (s.issue oid ids) := by
  have hmem : ∀ {o id}, id ∈ (s.issue oid ids).issued o →
      (o = oid ∧ id ∈ ids) ∨ id ∈ s.issued o := by
    intro o id hid
    change id ∈ update s.issued oid (ids ++ s.issued oid) o at hid
    by_cases ho : o = oid
    · subst ho
      rw [update_self, List.mem_append] at hid
      exact hid.imp_left fun hin => ⟨rfl, hin⟩
    · rw [update_of_ne ho] at hid
      exact .inr hid
  refine ⟨fun o => ?_, fun o id hid => ?_, fun core o id hid => ?_, h.apart,
    fun grant hgrant o id hid => ?_, h.grantsApart⟩
  · show (update s.issued oid (ids ++ s.issued oid) o).Nodup
    by_cases ho : o = oid
    · subst ho
      rw [update_self]
      refine List.nodup_append.mpr ⟨hnodup, h.once o, fun id hid other hother heq => ?_⟩
      exact (hids id hid).2.1 (heq ▸ hother)
    · rw [update_of_ne ho]
      exact h.once o
  · rcases hmem hid with ⟨rfl, hin⟩ | hold
    · exact ⟨(hids id hin).1, (hids id hin).2.2.1⟩
    · exact h.issued o id hold
  · obtain ⟨hin, hout, hspell⟩ := h.leased core o id hid
    refine ⟨hin, fun hissued => ?_, hspell⟩
    rcases hmem hissued with ⟨rfl, hnew⟩ | hold
    · exact (hids id hnew).2.2.2.1 core hid
    · exact hout hold
  · obtain ⟨hin, hout, hspell, hfree⟩ := h.granted grant hgrant o id hid
    refine ⟨hin, fun hissued => ?_, hspell, hfree⟩
    rcases hmem hissued with ⟨rfl, hnew⟩ | hold
    · exact (hids id hnew).2.2.2.2 grant hgrant hid
    · exact hout hold

theorem not_owned (h : Owned s) {id : Nat} (hfresh : id ∉ s.taken oid) :
    id ∉ s.issued oid ∧ (∀ core, ¬ (s.leaseOf core oid).Holds id) ∧
      ∀ grant ∈ s.grants, ¬ grant.Holds oid id :=
  ⟨fun hin => hfresh (h.issued oid id hin).1, fun core hid => hfresh (h.leased core oid id hid).1,
    fun grant hgrant hid => hfresh (h.granted grant hgrant oid id hid).1⟩

theorem send (h : Owned s) (hids : ∀ o id, grant.Holds o id → Free s o id) :
    Owned { s with grants := s.grants ++ [grant] } := by
  refine ⟨h.once, h.issued, h.leased, h.apart, fun other hother o id hid => ?_, ?_⟩
  · rcases Lib.mem_snoc.mp hother with hold | rfl
    · exact h.granted other hold o id hid
    · obtain ⟨hin, hout, hspell, hfree, -⟩ := hids o id hid
      exact ⟨hin, hout, hspell, hfree⟩
  · refine List.pairwise_append.mpr ⟨h.grantsApart, List.pairwise_singleton .., ?_⟩
    intro other hother new hnew o id hid hid'
    rw [List.mem_singleton.mp hnew] at hid'
    exact (hids o id hid').2.2.2.2 other hother hid

theorem leaseOf_setLease (s : RowIdState) (core core' : Nat) (oid oid' : Oid) (lease : RowIdLease) :
    (s.setLease core oid lease).leaseOf core' oid' =
      if core' = core ∧ oid' = oid then lease else s.leaseOf core' oid' := by
  show (update s.leases core (update (s.leases core) oid (some lease)) core'
    oid').getD {} = _
  by_cases hcore : core' = core
  · subst hcore
    rw [update_self]
    by_cases ho : oid' = oid
    · subst ho
      rw [update_self, if_pos ⟨rfl, rfl⟩]
      rfl
    · rw [update_of_ne ho, if_neg fun h => ho h.2]
      rfl
  · rw [update_of_ne hcore, if_neg fun h => hcore h.1]
    rfl

theorem setLease (h : Owned s) {core : Nat} {lease : RowIdLease}
    (hids : ∀ id, lease.Holds id → (s.leaseOf core oid).Holds id ∨ Free s oid id) :
    Owned (s.setLease core oid lease) := by
  have hholds : ∀ {core' o id}, ((s.setLease core oid lease).leaseOf core' o).Holds id →
      (s.leaseOf core' o).Holds id ∨ (core' = core ∧ o = oid ∧ Free s oid id) := by
    intro core' o id hid
    rw [leaseOf_setLease] at hid
    split_ifs at hid with hhere
    · obtain ⟨rfl, rfl⟩ := hhere
      exact (hids id hid).imp_right fun hfree => ⟨rfl, rfl, hfree⟩
    · exact .inl hid
  refine ⟨h.once, h.issued, fun core' o id hid => ?_, fun core' core'' o id hid hid' => ?_,
    fun grant hgrant o id hid => ?_, h.grantsApart⟩
  · rcases hholds hid with hold | ⟨-, rfl, hin, hout, hspell, -⟩
    · exact h.leased core' o id hold
    · exact ⟨hin, hout, hspell⟩
  · rcases hholds hid with hold | ⟨rfl, rfl, -, -, -, hfree, -⟩
    · rcases hholds hid' with hold' | ⟨-, rfl, -, -, -, hfree, -⟩
      · exact h.apart core' core'' o id hold hold'
      · exact absurd hold (hfree core')
    · rcases hholds hid' with hold' | ⟨rfl, -⟩
      · exact absurd hold' (hfree core'')
      · rfl
  · obtain ⟨hin, hout, hspell, hfree⟩ := h.granted grant hgrant o id hid
    refine ⟨hin, hout, hspell, fun core' hlease => ?_⟩
    rcases hholds hlease with hold | ⟨-, rfl, -, -, -, -, hnone⟩
    · exact hfree core' hold
    · exact hnone grant hgrant hid

theorem arrive (h : Owned s) {i : Nat} (hget : s.grants[i]? = some grant) :
    Owned { s with grants := s.grants.eraseIdx i } ∧
      ∀ id, grant.Holds grant.oid id →
        Free { s with grants := s.grants.eraseIdx i } grant.oid id := by
  have hsub : (s.grants.eraseIdx i).Sublist s.grants := List.eraseIdx_sublist ..
  refine ⟨⟨h.once, h.issued, h.leased, h.apart, fun other hother =>
    h.granted other (hsub.subset hother), h.grantsApart.sublist hsub⟩, fun id hid => ?_⟩
  obtain ⟨hin, hout, hspell, hfree⟩ := h.granted grant (List.mem_of_getElem? hget) _ id hid
  refine ⟨hin, hout, hspell, hfree, fun other hother hid' => ?_⟩
  obtain ⟨j, hne, hj⟩ := List.mem_eraseIdx_iff_getElem?.mp hother
  have hpair := List.pairwise_iff_getElem.mp h.grantsApart
  obtain ⟨hi, rfl⟩ := List.getElem?_eq_some_iff.mp hget
  obtain ⟨hj', rfl⟩ := List.getElem?_eq_some_iff.mp hj
  rcases Nat.lt_or_gt_of_ne hne with hlt | hgt
  · exact hpair j i hj' hi hlt _ id hid' hid
  · exact hpair i j hi hj' hgt _ id hid hid'

theorem crash (h : Owned s) (lost : Nat) (survivor : Oid → Nat) :
    Owned (s.crashAndRedo lost survivor) := by
  refine ⟨h.once, h.issued, fun core o id hid => ?_, fun core core' o id hid => ?_,
    fun grant hgrant => ?_, List.Pairwise.nil⟩
  · exact absurd hid.2 (Nat.not_lt_zero id)
  · exact absurd hid.2 (Nat.not_lt_zero id)
  · cases hgrant

end Owned

end Kds.Catalog
