/-
  Kds.Txn.UndoKept

  What the purge of the undo log keeps: a record lies where it was put until its page is formatted
  again, and that happens only to pages whose writers are settled.  What it means for a writer to be
  settled is the caller's; a page is reclaimed by its bound, so every writer below the horizon has
  to be.
-/

import Kds.Txn.UndoPages
import Mathlib.Data.List.Infix
import Mathlib.Data.List.Nodup
import Mathlib.Data.List.TakeWhile

namespace Kds.Txn

open Lib Storage List
open Function (update update_self update_of_ne)

namespace UndoPages

/-- **The log's invariant.** -/
structure Kept (log : UndoPages) (Settled : Nat → Prop) : Prop where
  stored : ∀ e ∈ log.history, (log.store e.pageId).isSome
  packed : ∀ pageId page, log.store pageId = some page → page.Packed
  /-- A record lies where it was put until its page is formatted again. -/
  found : ∀ ptr e, log.entry ptr = some e → log.formattedAt e.pageId < ptr →
    ∃ page, log.store e.pageId = some page ∧ page.read e.offset = .ok e.version
  formatted : ∀ pageId, log.formattedAt pageId ≤ log.history.length
  tracked : ∀ t ∈ log.pages, (log.store t.pageId).isSome
  listed : ∀ pageId ∈ log.recycle, (log.store pageId).isSome
  distinct : (log.pages.map (·.pageId) ++ log.recycle).Nodup
  tail : log.tail = log.pages.getLast?.map (·.pageId)
  /-- A page was formatted again only when the writers on it were settled. -/
  stale : ∀ ptr e, log.entry ptr = some e → ptr ≤ log.formattedAt e.pageId → Settled e.writer
  reclaimed : ∀ e ∈ log.history, e.pageId ∈ log.recycle → Settled e.writer
  /-- A page's bound covers the records that lie on it. -/
  bounded : ∀ ptr e, log.entry ptr = some e → log.formattedAt e.pageId < ptr →
    ∀ t ∈ log.pages, t.pageId = e.pageId → e.writer ≤ t.maxTrxId

variable {log log' : UndoPages} {Settled : Nat → Prop} {ptr pageId trxId horizon : Nat}
  {e : UndoEntry} {answers : AppendAnswers} {version : UndoVersion}

theorem mem_history_of_entry (h : log.entry ptr = some e) : e ∈ log.history := by
  cases ptr with
  | zero => cases h
  | succ n => exact mem_of_getElem? h

theorem entry_of_mem_history (h : e ∈ log.history) : ∃ ptr, log.entry ptr = some e := by
  obtain ⟨n, hn⟩ := mem_iff_getElem?.mp h
  exact ⟨n + 1, hn⟩

theorem entry_congr (h : log'.history = log.history) (ptr : Nat) :
    log'.entry ptr = log.entry ptr := by
  cases ptr with
  | zero => rfl
  | succ n => exact congrArg (fun hist => hist[n]?) h

theorem ptr_le_of_entry (h : log.entry ptr = some e) : ptr ≤ log.history.length := by
  cases ptr with
  | zero => exact Nat.zero_le _
  | succ n => exact (List.getElem?_eq_some_iff.mp h).1

namespace Kept

theorem mono {Settled' : Nat → Prop} (h : log.Kept Settled)
    (himp : ∀ e ∈ log.history, Settled e.writer → Settled' e.writer) : log.Kept Settled' :=
  { h with
    stale := fun ptr e he hle => himp e (mem_history_of_entry he) (h.stale ptr e he hle)
    reclaimed := fun e he hp => himp e he (h.reclaimed e he hp) }

theorem ne_of_store_eq_none (h : log.Kept Settled) (hnone : log.store pageId = none) :
    (∀ e ∈ log.history, e.pageId ≠ pageId) ∧ (∀ t ∈ log.pages, t.pageId ≠ pageId) ∧
      pageId ∉ log.recycle := by
  refine ⟨fun e he heq => ?_, fun t ht heq => ?_, fun hmem => ?_⟩
  · have := h.stored e he
    rw [heq, hnone] at this
    cases this
  · have := h.tracked t ht
    rw [heq, hnone] at this
    cases this
  · have := h.listed pageId hmem
    rw [hnone] at this
    cases this

theorem reclaimSettledPages (h : log.Kept Settled)
    (hsettle : ∀ e ∈ log.history, e.writer < horizon → Settled e.writer) :
    (log.reclaimSettledPages horizon).Kept Settled := by
  let settled := log.pages.dropLast.takeWhile (·.maxTrxId < horizon)
  have hgrown : settled <+: log.pages :=
    (List.takeWhile_prefix _).trans (List.dropLast_prefix _)
  obtain ⟨rest, hrest⟩ := hgrown
  have hdrop : log.pages.drop settled.length = rest := by
    rw [← hrest, drop_left]
  have hbound : ∀ t ∈ settled, t ∈ log.pages ∧ t.maxTrxId < horizon := by
    intro t ht
    refine ⟨?_, by simpa using (mem_takeWhile_imp ht)⟩
    rw [← hrest]
    exact mem_append_left _ ht
  have hkept : ∀ t ∈ rest, t ∈ log.pages := by
    intro t ht
    rw [← hrest]
    exact mem_append_right _ ht
  have hperm : (rest.map (·.pageId) ++ (log.recycle ++ settled.map (·.pageId))).Perm
      (log.pages.map (·.pageId) ++ log.recycle) := by
    rw [← hrest, map_append]
    refine perm_append_comm.trans ?_
    rw [append_assoc, append_assoc]
    refine perm_append_comm.trans ?_
    rw [append_assoc]
  have hlast : rest.getLast? = log.pages.getLast? := by
    have hshort : settled.length ≤ log.pages.dropLast.length :=
      (List.takeWhile_prefix _).length_le
    rw [length_dropLast] at hshort
    cases hpages : log.pages.getLast? with
    | none =>
      rw [List.getLast?_eq_none_iff] at hpages
      rw [hpages] at hrest
      rw [(append_eq_nil_iff.mp hrest).2]
      rfl
    | some last =>
      have hne : rest ≠ [] := by
        intro hnil
        rw [hnil, append_nil] at hrest
        have hpos : 0 < log.pages.length := by
          rw [length_pos_iff]
          intro hz
          rw [hz] at hpages
          cases hpages
        rw [hrest] at hshort
        omega
      rw [← hrest, List.getLast?_append_of_ne_nil _ hne] at hpages
      exact hpages
  refine { h with
    tracked := fun t ht => h.tracked t (hkept t (hdrop ▸ ht))
    listed := fun p hp => ?_
    distinct := ?_
    tail := ?_
    reclaimed := fun e he hp => ?_
    bounded := fun ptr e he hfresh t ht => h.bounded ptr e he hfresh t (hkept t (hdrop ▸ ht)) }
  · rcases mem_append.mp hp with hold | hnew
    · exact h.listed p hold
    · obtain ⟨t, ht, rfl⟩ := mem_map.mp hnew
      exact h.tracked t (hbound t ht).1
  · show ((log.pages.drop settled.length).map (·.pageId) ++
      (log.recycle ++ settled.map (·.pageId))).Nodup
    rw [hdrop]
    exact hperm.nodup_iff.mpr h.distinct
  · show log.tail = (log.pages.drop settled.length).getLast?.map (·.pageId)
    rw [hdrop, hlast]
    exact h.tail
  · rcases mem_append.mp hp with hold | hnew
    · exact h.reclaimed e he hold
    · obtain ⟨t, ht, hpage⟩ := mem_map.mp hnew
      obtain ⟨ptr, hptr⟩ := entry_of_mem_history he
      by_cases hstale : ptr ≤ log.formattedAt e.pageId
      · exact h.stale ptr e hptr hstale
      · have hle := h.bounded ptr e hptr (by omega) t (hbound t ht).1 hpage
        exact hsettle e he (lt_of_le_of_lt hle (hbound t ht).2)

theorem format (h : log.Kept Settled)
    (hwriters : ∀ e ∈ log.history, e.pageId = pageId → Settled e.writer) :
    (log.format pageId).Kept Settled := by
  have hsome : ∀ p, (log.store p).isSome → ((log.format pageId).store p).isSome := by
    intro p hp
    show (update log.store pageId (some {}) p).isSome
    by_cases heq : p = pageId
    · rw [heq, update_self]
      rfl
    · rw [update_of_ne heq]
      exact hp
  have hfresh : ∀ {ptr e}, log.entry ptr = some e → (log.format pageId).formattedAt e.pageId < ptr →
      e.pageId ≠ pageId ∧ log.formattedAt e.pageId < ptr := by
    intro ptr e he hlt
    by_cases heq : e.pageId = pageId
    · have hlen := ptr_le_of_entry he
      have hat : (log.format pageId).formattedAt e.pageId = log.history.length := by
        rw [heq]
        exact update_self ..
      omega
    · have hat : (log.format pageId).formattedAt e.pageId = log.formattedAt e.pageId :=
        update_of_ne heq ..
      exact ⟨heq, hat ▸ hlt⟩
  have hentry : ∀ ptr, (log.format pageId).entry ptr = log.entry ptr := entry_congr rfl
  refine ⟨fun e he => hsome _ (h.stored e he), fun p page hp => ?_, fun ptr e he hlt => ?_,
    fun p => ?_, fun t ht => hsome _ (h.tracked t ht), fun p hp => hsome _ (h.listed p hp),
    h.distinct, h.tail, fun ptr e he hle => ?_, h.reclaimed, fun ptr e he hlt => ?_⟩
  · by_cases heq : p = pageId
    · have hpage : ({} : UndoPage) = page := by
        have : update log.store pageId (some {}) p = some page := hp
        rw [heq, update_self] at this
        exact Option.some.inj this
      rw [← hpage]
      exact UndoPage.packed_empty
    · have : update log.store pageId (some {}) p = some page := hp
      rw [update_of_ne heq] at this
      exact h.packed p page this
  · rw [hentry] at he
    obtain ⟨hne, hlt⟩ := hfresh he hlt
    obtain ⟨page, hpage, hread⟩ := h.found ptr e he hlt
    exact ⟨page, (update_of_ne hne ..).trans hpage, hread⟩
  · show update log.formattedAt pageId log.history.length p ≤ log.history.length
    by_cases heq : p = pageId
    · rw [heq, update_self]
    · rw [update_of_ne heq]
      exact h.formatted p
  · rw [hentry] at he
    by_cases heq : e.pageId = pageId
    · exact hwriters e (mem_history_of_entry he) heq
    · have hat : (log.format pageId).formattedAt e.pageId = log.formattedAt e.pageId :=
        update_of_ne heq ..
      exact h.stale ptr e he (hat ▸ hle)
  · rw [hentry] at he
    exact h.bounded ptr e he (hfresh he hlt).2

theorem track (h : log.Kept Settled) (hstore : (log.store pageId).isSome)
    (hformat : log.formattedAt pageId = log.history.length)
    (hpages : ∀ t ∈ log.pages, t.pageId ≠ pageId) (hrecycle : pageId ∉ log.recycle) :
    (log.track pageId).Kept Settled := by
  refine { h with
    tracked := fun t ht => ?_
    distinct := ?_
    tail := ?_
    bounded := fun ptr e he hlt t ht hpage => ?_ }
  · rcases Lib.mem_snoc.mp ht with hold | rfl
    · exact h.tracked t hold
    · exact hstore
  · show ((log.pages ++ [({ pageId := pageId } : TrackedPage)]).map (·.pageId) ++ log.recycle).Nodup
    rw [map_append, append_assoc]
    refine nodup_middle.mpr (nodup_cons.mpr ⟨fun hmem => ?_, h.distinct⟩)
    rcases mem_append.mp hmem with hin | hin
    · obtain ⟨t, ht, hpage⟩ := mem_map.mp hin
      exact hpages t ht hpage
    · exact hrecycle hin
  · show some pageId = (log.pages ++ [({ pageId := pageId } : TrackedPage)]).getLast?.map (·.pageId)
    rw [List.getLast?_concat]
    rfl
  · rcases Lib.mem_snoc.mp ht with hold | rfl
    · exact h.bounded ptr e he hlt t hold hpage
    · have hle := ptr_le_of_entry he
      have hlen : log.formattedAt e.pageId = log.history.length := by
        rw [← hpage]
        exact hformat
      have hlt' : log.formattedAt e.pageId < ptr := hlt
      have hle' : ptr ≤ log.history.length := hle
      omega

theorem dropRecycle (h : log.Kept Settled) {recycle : List Nat}
    (hsub : recycle.Sublist log.recycle) :
    ({ log with recycle := recycle } : UndoPages).Kept Settled :=
  { h with
    listed := fun p hp => h.listed p (hsub.subset hp)
    distinct := h.distinct.sublist (List.Sublist.append_left hsub _)
    reclaimed := fun e he hp => h.reclaimed e he (hsub.subset hp) }

end Kept

-- The page an append goes to

/-- What looking for a page leaves: the invariant, the records as they were, and the page found is
    the tail. -/
structure Found (log log' : UndoPages) (Settled : Nat → Prop) (out : StatusOr Nat) : Prop where
  kept : log'.Kept Settled
  history : log'.history = log.history
  tail : ∀ pageId, out = .ok pageId → log'.tail = some pageId

theorem Found.failed (h : log'.Kept Settled) (hhistory : log'.history = log.history) (s : Status) :
    Found log log' Settled (.error s) := ⟨h, hhistory, fun _ hok => by cases hok⟩

variable (answers trxId) in
theorem reuse_found (h : log.Kept Settled) (hlast : log.recycle.getLast? = some pageId) :
    Found log (log.reuse answers trxId pageId).1 Settled (log.reuse answers trxId pageId).2 := by
  have hmem : pageId ∈ log.recycle := mem_of_getLast? hlast
  have hformat : (log.format pageId).Kept Settled :=
    h.format fun e he hpage => h.reclaimed e he (hpage ▸ hmem)
  have hwiped : ∀ s, Found log (log.format pageId) Settled (.error s) := .failed hformat rfl
  rw [reuse]
  split_ifs
  · exact .failed h rfl _
  · exact .failed h rfl _
  · exact .failed h rfl _
  · exact hwiped _
  · have hsplit : log.recycle = log.recycle.dropLast ++ [pageId] := by
      rw [dropLast_append_getLast? pageId hlast]
    have hdistinct := h.distinct
    rw [hsplit, ← append_assoc] at hdistinct
    have hnot := (nodup_append.mp hdistinct).2.2
    refine ⟨(hformat.dropRecycle (dropLast_sublist _)).track ?_ ?_ ?_ ?_, rfl, ?_⟩
    · show (update log.store pageId (some {}) pageId).isSome
      rw [update_self]
      rfl
    · exact update_self ..
    · intro t ht hpage
      exact hnot _ (mem_append_left _ (mem_map.mpr ⟨t, ht, hpage⟩)) pageId
        (mem_singleton_self _) rfl
    · intro hin
      exact hnot _ (mem_append_right _ hin) pageId (mem_singleton_self _) rfl
    · intro p hp
      exact congrArg some (Except.ok.inj hp)

variable (answers trxId) in
theorem create_found (h : log.Kept Settled)
    (hnew : ∀ p, answers.created = some p → log.store p = none) :
    Found log (log.create answers trxId).1 Settled (log.create answers trxId).2 := by
  rw [create]
  cases hcreated : answers.created with
  | none => exact .failed h rfl _
  | some p =>
    obtain ⟨hhistory, hpages, hrecycle⟩ := h.ne_of_store_eq_none (hnew p hcreated)
    have hformat : (log.format p).Kept Settled :=
      h.format fun e he hpage => absurd hpage (hhistory e he)
    have hwiped : ∀ s, Found log (log.format p) Settled (.error s) := .failed hformat rfl
    dsimp only
    split_ifs
    · exact .failed h rfl _
    · exact hwiped _
    · exact hwiped _
    · refine ⟨hformat.track ?_ (update_self ..) hpages hrecycle, rfl, ?_⟩
      · show (update log.store p (some {}) p).isSome
        rw [update_self]
        rfl
      · intro q hq
        exact congrArg some (Except.ok.inj hq)

variable (answers trxId) in
theorem grow_found (h : log.Kept Settled)
    (hsettle : ∀ e ∈ log.history, e.writer < horizon → Settled e.writer)
    (hnew : ∀ p, answers.created = some p → log.store p = none) :
    Found log (log.grow answers horizon trxId).1 Settled (log.grow answers horizon trxId).2 := by
  have hreclaim := h.reclaimSettledPages hsettle
  rw [grow]
  cases hlast : (log.reclaimSettledPages horizon).recycle.getLast? with
  | some p =>
    have hfound := reuse_found trxId answers hreclaim hlast
    exact ⟨hfound.kept, hfound.history, hfound.tail⟩
  | none =>
    have hfound := create_found trxId answers hreclaim hnew
    exact ⟨hfound.kept, hfound.history, hfound.tail⟩

variable (answers trxId) in
theorem tailFor_found (h : log.Kept Settled)
    (hsettle : ∀ e ∈ log.history, e.writer < horizon → Settled e.writer)
    (hnew : ∀ p, answers.created = some p → log.store p = none) (need : Nat) :
    Found log (log.tailFor answers horizon trxId need).1 Settled
      (log.tailFor answers horizon trxId need).2 := by
  have hgrow := grow_found trxId answers h hsettle hnew
  rw [tailFor]
  cases htail : log.tail with
  | none => exact hgrow
  | some tail =>
    dsimp only
    split_ifs
    · exact .failed h rfl _
    · cases hpage : log.store tail with
      | none => exact .failed h rfl _
      | some page =>
        dsimp only
        split_ifs
        · refine ⟨h, rfl, fun p hp => ?_⟩
          rw [htail, Except.ok.inj hp]
        · exact hgrow

-- The record on it

theorem raise_history (log : UndoPages) (trxId : Nat) :
    (log.raise trxId).history = log.history := by
  rw [raise]
  split <;> rfl

theorem Kept.raise (h : log.Kept Settled) (trxId : Nat) : (log.raise trxId).Kept Settled ∧
    (log.raise trxId).tail = log.tail ∧
    ∀ t ∈ (log.raise trxId).pages, some t.pageId = log.tail → trxId ≤ t.maxTrxId := by
  cases hlast : log.pages.getLast? with
  | none =>
    have hraise : log.raise trxId = log := by rw [UndoPages.raise, hlast]
    rw [hraise]
    refine ⟨h, rfl, fun t ht => ?_⟩
    rw [List.getLast?_eq_none_iff.mp hlast] at ht
    cases ht
  | some last =>
    let raised : TrackedPage := { last with maxTrxId := max last.maxTrxId trxId }
    have hraise : log.raise trxId = { log with pages := log.pages.dropLast ++
        [raised] } := by
      rw [UndoPages.raise, hlast]
    rw [hraise]
    have hsplit : log.pages = log.pages.dropLast ++ [last] := by
      rw [dropLast_append_getLast? last hlast]
    have hids : (log.pages.dropLast ++
        [raised]).map (·.pageId) =
        log.pages.map (·.pageId) := by
      conv_rhs => rw [hsplit]
      rw [map_append, map_append]
      rfl
    have hmem : ∀ t ∈ log.pages.dropLast ++ [raised],
        ∃ u ∈ log.pages, u.pageId = t.pageId ∧ u.maxTrxId ≤ t.maxTrxId := by
      intro t ht
      rcases Lib.mem_snoc.mp ht with hold | rfl
      · exact ⟨t, mem_of_mem_dropLast hold, rfl, Nat.le_refl _⟩
      · exact ⟨last, mem_of_getLast? hlast, rfl, Nat.le_max_left _ _⟩
    have htail : log.tail = some last.pageId := by
      rw [h.tail, hlast]
      rfl
    refine ⟨{ h with
      tracked := fun t ht => ?_
      distinct := ?_
      tail := ?_
      bounded := fun ptr e he hlt t ht hpage => ?_ }, rfl, fun t ht htailPage => ?_⟩
    · obtain ⟨u, hu, hpage, -⟩ := hmem t ht
      exact hpage ▸ h.tracked u hu
    · show ((log.pages.dropLast ++ [raised]).map
        (·.pageId) ++ log.recycle).Nodup
      rw [hids]
      exact h.distinct
    · show log.tail = (log.pages.dropLast ++
        [raised]).getLast?.map (·.pageId)
      rw [List.getLast?_concat, htail]
      rfl
    · obtain ⟨u, hu, hsame, hle⟩ := hmem t ht
      exact (h.bounded ptr e he hlt u hu (hsame.trans hpage)).trans hle
    · rcases Lib.mem_snoc.mp ht with hold | rfl
      · exfalso
        have hdistinct := h.distinct
        rw [hsplit, map_append] at hdistinct
        have hnodup := (nodup_append.mp hdistinct).1
        have hdisjoint := (nodup_append.mp hnodup).2.2
        rw [htail] at htailPage
        exact hdisjoint _ (mem_map_of_mem hold) last.pageId
          (mem_singleton_self _) (Option.some.inj htailPage)
      · exact Nat.le_max_right _ _

/-- What an append leaves: the invariant, and one record more where it succeeds. -/
structure Appended (log log' : UndoPages) (Settled : Nat → Prop) (trxId : Nat)
    (version : UndoVersion) (out : StatusOr Nat) : Prop where
  kept : log'.Kept Settled
  failed : ∀ s, out = .error s → log'.history = log.history
  wrote : ∀ ptr, out = .ok ptr → ptr = log.history.length + 1 ∧
    ∃ pageId offset, log'.history = log.history ++ [⟨version, trxId, pageId, offset⟩]

theorem Appended.of_error (h : log'.Kept Settled) (hhistory : log'.history = log.history)
    (s : Status) : Appended log log' Settled trxId version (.error s) :=
  ⟨h, fun _ _ => hhistory, fun _ hok => by cases hok⟩

theorem Kept.put (h : log.Kept Settled) {page page' : UndoPage} {offset : Nat}
    (hpage : log.store pageId = some page) (happend : page.append version = .ok (page', offset)) :
    ({ log with store := update log.store pageId (some page') } : UndoPages).Kept
      Settled := by
  have hsome : ∀ p, (log.store p).isSome →
      (update log.store pageId (some page') p).isSome := by
    intro p hp
    by_cases heq : p = pageId
    · rw [heq, update_self]
      rfl
    · rw [update_of_ne heq]
      exact hp
  refine { h with
    stored := fun e he => hsome _ (h.stored e he)
    packed := fun p q hq => ?_
    found := fun ptr e he hlt => ?_
    tracked := fun t ht => hsome _ (h.tracked t ht)
    listed := fun p hp => hsome _ (h.listed p hp) }
  · have hq' : update log.store pageId (some page') p = some q := hq
    by_cases heq : p = pageId
    · rw [heq, update_self] at hq'
      cases hq'
      exact (h.packed pageId page hpage).append happend
    · rw [update_of_ne heq] at hq'
      exact h.packed p q hq'
  · obtain ⟨q, hq, hread⟩ := h.found ptr e he hlt
    by_cases heq : e.pageId = pageId
    · rw [heq, hpage] at hq
      cases hq
      refine ⟨page', ?_, UndoPage.read_append happend hread⟩
      show update log.store pageId (some page') e.pageId = some page'
      rw [heq, update_self]
    · exact ⟨q, (update_of_ne heq ..).trans hq, hread⟩

theorem Kept.record (h : log.Kept Settled) {page : UndoPage} {offset : Nat}
    (hpage : log.store pageId = some page) (hread : page.read offset = .ok version)
    (htail : log.tail = some pageId)
    (hbound : ∀ t ∈ log.pages, some t.pageId = log.tail → trxId ≤ t.maxTrxId) :
    ({ log with history := log.history ++ [⟨version, trxId, pageId, offset⟩] } : UndoPages).Kept
      Settled := by
  -- an entry of the longer history is an old one or the one just added
  have hentry : ∀ {ptr e},
      ({ log with history := log.history ++ [⟨version, trxId, pageId, offset⟩] } :
        UndoPages).entry ptr = some e →
      log.entry ptr = some e ∨
        (ptr = log.history.length + 1 ∧ e = ⟨version, trxId, pageId, offset⟩) := by
    intro ptr e he
    cases ptr with
    | zero => cases he
    | succ n =>
      have he' : (log.history ++ [⟨version, trxId, pageId, offset⟩])[n]? = some e := he
      rcases Nat.lt_or_ge n log.history.length with hn | hn
      · rw [List.getElem?_append_left hn] at he'
        exact .inl he'
      · have hn' : n = log.history.length := by
          have := (List.getElem?_eq_some_iff.mp he').1
          rw [length_append, length_singleton] at this
          omega
        rw [hn', List.getElem?_concat_length] at he'
        exact .inr ⟨by rw [hn'], (Option.some.inj he').symm⟩
  have hnotListed : pageId ∉ log.recycle := by
    intro hmem
    obtain ⟨t, ht, hid⟩ := Option.map_eq_some_iff.mp (h.tail.symm.trans htail)
    have hdisjoint := (nodup_append.mp h.distinct).2.2
    exact hdisjoint _ (mem_map_of_mem (mem_of_getLast? ht)) pageId hmem hid
  refine { h with
    stored := fun e he => ?_
    found := fun ptr e he hlt => ?_
    formatted := fun p => ?_
    stale := fun ptr e he hle => ?_
    reclaimed := fun e he hp => ?_
    bounded := fun ptr e he hlt t ht hid => ?_ }
  · rcases Lib.mem_snoc.mp he with hold | rfl
    · exact h.stored e hold
    · show (log.store pageId).isSome
      rw [hpage]
      rfl
  · rcases hentry he with hold | ⟨-, rfl⟩
    · exact h.found ptr e hold hlt
    · exact ⟨page, hpage, hread⟩
  · rw [length_append]
    exact Nat.le_add_right_of_le (h.formatted p)
  · rcases hentry he with hold | ⟨rfl, rfl⟩
    · exact h.stale ptr e hold hle
    · have := h.formatted pageId
      have hle' : log.history.length + 1 ≤ log.formattedAt pageId := hle
      omega
  · rcases Lib.mem_snoc.mp he with hold | rfl
    · exact h.reclaimed e hold hp
    · exact absurd hp hnotListed
  · rcases hentry he with hold | ⟨-, rfl⟩
    · exact h.bounded ptr e hold hlt t ht hid
    · apply hbound t ht
      rw [htail, hid]

variable (answers version) in
theorem place_appended (h : log.Kept Settled) (htail : log.tail = some pageId)
    (hbound : ∀ t ∈ log.pages, some t.pageId = log.tail → trxId ≤ t.maxTrxId) :
    Appended log (log.place answers trxId pageId version).1 Settled trxId version
      (log.place answers trxId pageId version).2 := by
  rw [place]
  by_cases hget : (!answers.getPage) = true
  · rw [if_pos hget]
    exact .of_error h rfl _
  rw [if_neg hget]
  cases hpage : log.store pageId with
  | none => exact .of_error h rfl _
  | some page =>
    dsimp only
    cases happend : page.append version with
    | error s => exact .of_error h rfl _
    | ok out =>
      obtain ⟨page', offset⟩ := out
      have hput := h.put hpage happend
      dsimp only
      by_cases hlog : (!answers.logUndoWrite) = true
      · rw [if_pos hlog]
        exact ⟨hput, fun _ _ => rfl, fun _ hok => by cases hok⟩
      · rw [if_neg hlog]
        refine ⟨hput.record (update_self ..)
          (UndoPage.read_append_self happend (h.packed pageId page hpage)) htail hbound,
          fun s hs => (by cases hs), fun ptr hptr => ?_⟩
        cases hptr
        exact ⟨rfl, pageId, offset, rfl⟩

variable (answers trxId version) in
theorem append_appended (h : log.Kept Settled)
    (hsettle : ∀ e ∈ log.history, e.writer < horizon → Settled e.writer)
    (hnew : ∀ p, answers.created = some p → log.store p = none) :
    Appended log (log.append answers horizon trxId version).1 Settled trxId version
      (log.append answers horizon trxId version).2 := by
  rw [append]
  split_ifs
  · exact .of_error h rfl _
  · have hfound := tailFor_found trxId answers h hsettle hnew
      (undoRecordHeaderSize + version.image.length)
    rcases hout : log.tailFor answers horizon trxId (undoRecordHeaderSize + version.image.length)
      with ⟨log', out⟩
    rw [hout] at hfound
    cases out with
    | error s => exact .of_error hfound.kept hfound.history _
    | ok p =>
      obtain ⟨hkept, htail, hbound⟩ := hfound.kept.raise trxId
      have hplace := place_appended answers version hkept
        (htail.trans (hfound.tail p rfl)) (htail ▸ hbound)
      have hhistory : (log'.raise trxId).history = log.history :=
        (raise_history log' trxId).trans hfound.history
      refine ⟨hplace.kept, fun s hs => ?_, fun ptr hptr => ?_⟩
      · exact (hplace.failed s hs).trans hhistory
      · have hwrote := hplace.wrote ptr hptr
        rw [hhistory] at hwrote
        exact hwrote

-- Reading what was not recycled

theorem Kept.read_of_not_recycled (h : log.Kept Settled) (hentry : log.entry ptr = some e)
    (hfresh : ¬ log.Recycled ptr) : log.read ptr = .ok e.version := by
  have hlt : log.formattedAt e.pageId < ptr := by
    by_contra hle
    exact hfresh ⟨e, hentry, by omega⟩
  obtain ⟨page, hpage, hread⟩ := h.found ptr e hentry hlt
  rw [UndoPages.read, address, hentry]
  dsimp only [Option.map_some]
  rw [hpage]
  exact hread

theorem Kept.not_recycled (h : log.Kept Settled) (hentry : log.entry ptr = some e)
    (hsettled : ¬ Settled e.writer) : ¬ log.Recycled ptr := by
  rintro ⟨e', he', hle⟩
  rw [hentry] at he'
  cases he'
  exact hsettled (h.stale ptr e hentry hle)

theorem unrecycled_read (hentry : log.entry ptr = some e) :
    log.unrecycled.read ptr = .ok e.version := by
  cases ptr with
  | zero => cases hentry
  | succ n =>
    have hget : log.history[n]? = some e := hentry
    rw [UndoLog.read, unrecycled, List.getElem?_map, hget]
    rfl

end UndoPages

end Kds.Txn
