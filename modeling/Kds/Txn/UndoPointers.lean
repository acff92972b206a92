/-
  Kds.Txn.UndoPointers

  Where undo pointers stand: beside the writer whose record they name, in tuple headers, in records
  and in trails.  Every write of a header, a rollback's too, keeps it so; and a transaction's
  records are linked from its newest to its oldest.
-/

import Kds.Txn.UndoReuse

namespace Kds.Txn

open Lib Storage List

-- Handles

theorem mem_update_live {m : TransactionManager} {txn t : Transaction}
    (h : t ∈ (m.update txn).live) : t = txn ∨ (t ∈ m.live ∧ t.id ≠ txn.id) := by
  obtain ⟨u, hu, rfl⟩ := mem_map.mp h
  split_ifs with hid
  · exact .inl rfl
  · exact .inr ⟨hu, hid⟩

-- Pointers and their writers

/-- A pointer beside a writer: none, or one of a record of that writer. -/
def Wrote (log : UndoPages) (trxId ptr : Nat) : Prop :=
  ptr = noUndoPtr ∨ ∃ e, log.entry ptr = some e ∧ e.writer = trxId

theorem Wrote.of_append {log log' : UndoPages} {trxId ptr : Nat} (h : Wrote log trxId ptr)
    (hgrown : log.history <+: log'.history) : Wrote log' trxId ptr := by
  rcases h with rfl | ⟨e, he, hwriter⟩
  · exact .inl rfl
  · refine .inr ⟨e, ?_, hwriter⟩
    obtain ⟨more, hmore⟩ := hgrown
    cases ptr with
    | zero => cases he
    | succ n =>
      have hget : log.history[n]? = some e := he
      show log'.history[n]? = some e
      rw [← hmore, List.getElem?_append_left (List.getElem?_eq_some_iff.mp hget).1]
      exact hget

/-- The pointer of the newest record of a writer. -/
def newestBy (trxId : Nat) (history : List UndoEntry) : Nat :=
  history.zipIdx.foldl (fun newest e => if e.1.writer = trxId then e.2 + 1 else newest) noUndoPtr

theorem newestBy_append (trxId : Nat) (history : List UndoEntry) (e : UndoEntry) :
    newestBy trxId (history ++ [e]) =
      if e.writer = trxId then history.length + 1 else newestBy trxId history := by
  rw [newestBy, zipIdx_append, foldl_append]
  simp only [zipIdx_cons, zipIdx_nil, foldl_cons, foldl_nil, Nat.zero_add]
  rfl

theorem newestBy_of_no_record {trxId : Nat} {history : List UndoEntry}
    (h : ∀ e ∈ history, e.writer ≠ trxId) : newestBy trxId history = noUndoPtr := by
  induction history using List.reverseRecOn with
  | nil => rfl
  | append_singleton history e ih =>
    rw [newestBy_append, if_neg (h e (mem_append_right _ (mem_singleton_self e)))]
    exact ih fun e' he' => h e' (mem_append_left _ he')

/-- A transaction's chain: its head is its newest record, and each of its records names the one
    before. -/
structure Chained (history : List UndoEntry) (txn : Transaction) : Prop where
  head : txn.lastUndoPtr = newestBy txn.id history
  links : ∀ older e newer, history = older ++ e :: newer → e.writer = txn.id →
    e.version.txnPrevUndoPtr = newestBy txn.id older

namespace Chained

variable {history : List UndoEntry} {txn : Transaction} {e : UndoEntry} {txn' : Transaction}

theorem split_append {older newer : List UndoEntry} {e' : UndoEntry}
    (h : history ++ [e] = older ++ e' :: newer) :
    (∃ newer', history = older ++ e' :: newer') ∨ (older = history ∧ e' = e) := by
  rcases eq_nil_or_concat newer with rfl | ⟨rest, last, rfl⟩
  · obtain ⟨hinit, hlast⟩ := append_inj' h rfl
    exact .inr ⟨hinit.symm, (List.cons.inj hlast).1.symm⟩
  · rw [concat_eq_append, ← cons_append, ← append_assoc] at h
    exact .inl ⟨rest, (append_inj' h rfl).1⟩

theorem other (h : Chained history txn) (hne : e.writer ≠ txn.id) :
    Chained (history ++ [e]) txn := by
  refine ⟨?_, fun older e' newer hsplit hwriter => ?_⟩
  · rw [newestBy_append, if_neg hne]
    exact h.head
  · rcases split_append hsplit with ⟨newer', hold⟩ | ⟨-, rfl⟩
    · exact h.links older e' newer' hold hwriter
    · exact absurd hwriter hne

theorem extend (h : Chained history txn) (hwriter : e.writer = txn.id)
    (hlink : e.version.txnPrevUndoPtr = txn.lastUndoPtr) (hid : txn'.id = txn.id)
    (hhead : txn'.lastUndoPtr = history.length + 1) : Chained (history ++ [e]) txn' := by
  refine ⟨?_, fun older e' newer hsplit hwriter' => ?_⟩
  · rw [hhead, hid, newestBy_append, if_pos hwriter]
  · rw [hid] at hwriter' ⊢
    rcases split_append hsplit with ⟨newer', hold⟩ | ⟨rfl, rfl⟩
    · exact h.links older e' newer' hold hwriter'
    · rw [hlink, h.head]

theorem congr (h : Chained history txn) (hid : txn'.id = txn.id)
    (hhead : txn'.lastUndoPtr = txn.lastUndoPtr) : Chained history txn' := by
  refine ⟨hhead.trans (hid ▸ h.head), fun older e newer hsplit hwriter => ?_⟩
  rw [hid] at hwriter ⊢
  exact h.links older e newer hsplit hwriter

end Chained

-- Headers on pages

/-- Every tuple on a page has a writer and a pointer that are so. -/
def HeadersOn (page : HeapPage) (P : Nat → Nat → Prop) : Prop :=
  ∀ slot tuple, page.tupleAt slot = some tuple → P tuple.trxId tuple.undoPtr

def Headers (pages : Nat → Option HeapPage) (P : Nat → Nat → Prop) : Prop :=
  ∀ pageId page, pages pageId = some page → HeadersOn page P

section Headers

variable {P : Nat → Nat → Prop} {pages : Nat → Option HeapPage} {page page' : HeapPage}

theorem Headers.update (h : Headers pages P) {pageId : Nat} (hpage : HeadersOn page P) :
    Headers (Function.update pages pageId (some page)) P := by
  intro other q hq
  by_cases heq : other = pageId
  · rw [heq, Function.update_self] at hq
    cases hq
    exact hpage
  · rw [Function.update_of_ne heq] at hq
    exact h other q hq

variable {payload : Bytes} {locateRow : Option RowLocator}

theorem HeadersOn.overwriteTuple (h : HeadersOn page P) {slot trxId ptr : Nat} (hnew : P trxId ptr)
    (hwrite : page.overwriteTuple slot payload trxId ptr = .ok page') : HeadersOn page' P := by
  obtain ⟨old, -, hat⟩ := HeapPage.tupleAt_overwriteTuple hwrite
  intro other tuple htuple
  rw [hat other] at htuple
  split_ifs at htuple with heq
  · cases htuple
    exact hnew
  · exact h other tuple htuple

theorem HeadersOn.deleteMark (h : HeadersOn page P) {slot trxId ptr : Nat} {tuple : HeapTuple}
    (hslot : page.tupleAt slot = some tuple) (hptr : tuple.undoPtr = ptr) (hnew : P trxId ptr)
    (hwrite : page.deleteMark slot trxId = .ok page') : HeadersOn page' P := by
  obtain ⟨old, hold, hat⟩ := HeapPage.tupleAt_deleteMark hwrite
  rw [hslot] at hold
  cases hold
  intro other found hfound
  rw [hat other] at hfound
  split_ifs at hfound with heq
  · cases hfound
    exact hptr ▸ hnew
  · exact h other found hfound

theorem HeadersOn.stampTuple (h : HeadersOn page P) {type : UndoRecordType} {slot trxId ptr : Nat}
    (hnew : P trxId ptr) (hwrite : Core.stampTuple page type slot payload trxId ptr = .ok page') :
    HeadersOn page' P := by
  obtain ⟨mid, hmid, hwrite⟩ := bind_eq_ok.mp hwrite
  have hover := h.overwriteTuple hnew hmid
  split_ifs at hwrite
  · obtain ⟨old, -, hat⟩ := HeapPage.tupleAt_overwriteTuple hmid
    have hslot := hat slot
    rw [if_pos rfl] at hslot
    exact hover.deleteMark hslot rfl hnew hwrite
  · cases hwrite
    exact hover

theorem HeadersOn.undoWrite (h : HeadersOn page P) {type : UndoRecordType}
    {pageId slot priorTrxId priorUndoPtr : Nat} {image : Bytes} {record : LogRecord}
    (hprior : P priorTrxId priorUndoPtr)
    (hwrite : undoWrite page type pageId slot image priorTrxId priorUndoPtr = .ok (page', record)) :
    HeadersOn page' P := by
  cases type with
  | insert =>
    obtain ⟨out, hout, heq⟩ := map_eq_ok.mp hwrite
    obtain ⟨rfl, -⟩ := Prod.mk.inj heq
    intro other tuple htuple
    rw [HeapPage.tupleAt_retireSlot hout other] at htuple
    split_ifs at htuple
    exact h other tuple htuple
  | overwrite =>
    obtain ⟨out, hout, heq⟩ := map_eq_ok.mp hwrite
    obtain ⟨rfl, -⟩ := Prod.mk.inj heq
    exact h.overwriteTuple hprior hout
  | deleteMark =>
    obtain ⟨out, hout, heq⟩ := map_eq_ok.mp hwrite
    obtain ⟨rfl, -⟩ := Prod.mk.inj heq
    obtain ⟨old, -, hat⟩ := HeapPage.tupleAt_clearDeleteMark hout
    intro other tuple htuple
    rw [hat other] at htuple
    split_ifs at htuple with heq
    · cases htuple
      exact hprior
    · exact h other tuple htuple

theorem Headers.compensate {store store' : Store} (h : Headers store.pages P) {entry : TrailEntry}
    {records : List LogRecord} (hprior : P entry.priorTrxId entry.priorUndoPtr)
    (hcomp : Txn.compensate store entry locateRow = .ok (store', records)) :
    Headers store'.pages P := by
  rw [Txn.compensate] at hcomp
  obtain ⟨⟨pageId, slot⟩, -, hcomp⟩ := bind_eq_ok.mp hcomp
  obtain ⟨page, hpage, hcomp⟩ := bind_eq_ok.mp hcomp
  obtain ⟨⟨page', record⟩, hundo, hcomp⟩ := bind_eq_ok.mp hcomp
  obtain ⟨rfl, -⟩ := Prod.mk.inj (Except.ok.inj hcomp)
  exact h.update ((h pageId page (Store.get_eq_ok.mp hpage)).undoWrite hprior hundo)

theorem Headers.unwind (trail : List TrailEntry) (store : Store)
    (out : List LogRecord × Option Status) (h : Headers store.pages P)
    (hprior : ∀ entry ∈ trail, P entry.priorTrxId entry.priorUndoPtr) :
    Headers (Txn.unwind locateRow trail store out).1.pages P := by
  induction trail generalizing store out with
  | nil => exact h
  | cons entry older ih =>
    obtain ⟨logged, failure⟩ := out
    have holder : ∀ e ∈ older, P e.priorTrxId e.priorUndoPtr := fun e he =>
      hprior e (mem_cons_of_mem _ he)
    rw [Txn.unwind]
    cases hcomp : Txn.compensate store entry locateRow with
    | error s => exact ih store _ h holder
    | ok result =>
      obtain ⟨store', records⟩ := result
      exact ih store' _ (h.compensate (hprior entry mem_cons_self) hcomp) holder

theorem Headers.abort {store : Store} (h : Headers store.pages P) {txn : Transaction}
    (locateRow : Option RowLocator)
    (hprior : ∀ entry ∈ txn.trail, P entry.priorTrxId entry.priorUndoPtr) :
    Headers (Txn.abort store txn locateRow).1.pages P := by
  rw [Txn.abort]
  split_ifs
  · exact h
  · exact Headers.unwind _ _ _ h fun entry he => hprior entry (mem_reverse.mp he)

end Headers

end Kds.Txn
