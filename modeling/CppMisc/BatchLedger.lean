import Mathlib

/-! The account of a component that takes items in, keeps them for a while and hands them
on in batches. Entries are numbered, so that equal items can be told apart, and the
account says where each entry is: handed on, still pending, or discarded. -/
namespace CppMisc.BatchLedger

/-- An item and how many items had been entered before it. -/
structure Entry (τ : Type*) where
  value : τ
  serial : ℕ
  deriving DecidableEq, Repr

structure Ledger (τ : Type*) where
  handed : List (List (Entry τ))
  pending : List (Entry τ)
  entered : List (Entry τ)
  /-- The serials of the discarded entries. -/
  discarded : List ℕ
  deriving DecidableEq, Repr

def flushed {τ : Type*} (items : List τ) : List (List τ) := if items.isEmpty then [] else [items]

@[simp] lemma flushed_flatten {τ : Type*} (items : List τ) : (flushed items).flatten = items := by
  cases items <;> simp [flushed]

lemma mem_flushed {τ : Type*} {items batch : List τ} :
    batch ∈ flushed items ↔ batch = items ∧ items ≠ [] := by
  cases items <;> simp [flushed]

namespace Ledger

variable {τ : Type*}

def empty : Ledger τ := ⟨[], [], [], []⟩

def next (l : Ledger τ) (value : τ) : Entry τ := ⟨value, l.entered.length⟩

def enter (l : Ledger τ) (value : τ) : Ledger τ :=
  { l with pending := l.pending ++ [l.next value], entered := l.entered ++ [l.next value] }

def flush (l : Ledger τ) : Ledger τ :=
  { l with handed := l.handed ++ flushed l.pending, pending := [] }

def discard (l : Ledger τ) : Ledger τ :=
  { l with pending := [], discarded := l.discarded ++ l.pending.map Entry.serial }

def kept (l : Ledger τ) : List (Entry τ) :=
  l.entered.filter fun e => decide (e.serial ∉ l.discarded)

/-- Every entry that is kept is in exactly one place, in order. -/
structure Balanced (l : Ledger τ) : Prop where
  batch_ne : ∀ batch ∈ l.handed, batch ≠ []
  serials : l.entered.map Entry.serial = List.range l.entered.length
  discarded_lt : ∀ i ∈ l.discarded, i < l.entered.length
  account : l.handed.flatten ++ l.pending = l.kept

lemma balanced_empty : Balanced (empty : Ledger τ) := by
  constructor <;> simp [empty, kept]

lemma Balanced.enter {l : Ledger τ} (h : l.Balanced) (value : τ) : (l.enter value).Balanced where
  batch_ne := h.batch_ne
  serials := by simp [Ledger.enter, next, h.serials, List.range_succ]
  discarded_lt i hi := (h.discarded_lt i hi).trans (by simp [Ledger.enter])
  account := by
    have hnew : l.entered.length ∉ l.discarded := fun hm => lt_irrefl _ (h.discarded_lt _ hm)
    have hkept : (l.enter value).kept = l.kept ++ [l.next value] := by
      simp only [kept, Ledger.enter, List.filter_append]
      congr 1
      simp [next, hnew]
    rw [hkept, ← h.account, List.append_assoc]
    rfl

lemma Balanced.flush {l : Ledger τ} (h : l.Balanced) : l.flush.Balanced where
  batch_ne batch hb := by
    rcases List.mem_append.mp hb with hb | hb
    · exact h.batch_ne batch hb
    · obtain ⟨rfl, hne⟩ := mem_flushed.mp hb
      exact hne
  serials := h.serials
  discarded_lt := h.discarded_lt
  account := by
    have hkept : l.flush.kept = l.kept := rfl
    rw [hkept, ← h.account]
    simp [Ledger.flush]

/-- What is pending has been entered, under serials that nothing handed on has. -/
lemma Balanced.nodup {l : Ledger τ} (h : l.Balanced) :
    ((l.handed.flatten ++ l.pending).map Entry.serial).Nodup := by
  have hsub : (l.kept.map Entry.serial).Sublist (l.entered.map Entry.serial) :=
    List.Sublist.map _ List.filter_sublist
  rw [h.account]
  exact hsub.nodup (by rw [h.serials]; exact List.nodup_range)

lemma Balanced.pending_lt {l : Ledger τ} (h : l.Balanced) {e : Entry τ} (he : e ∈ l.pending) :
    e.serial < l.entered.length := by
  have hmem : e ∈ l.kept := h.account ▸ List.mem_append_right _ he
  have hser := List.mem_map_of_mem (f := Entry.serial) (List.mem_filter.mp hmem).1
  rw [h.serials] at hser
  exact List.mem_range.mp hser

lemma Balanced.discard {l : Ledger τ} (h : l.Balanced) : l.discard.Balanced where
  batch_ne := h.batch_ne
  serials := h.serials
  discarded_lt i hi := by
    rcases List.mem_append.mp hi with hi | hi
    · exact h.discarded_lt i hi
    · obtain ⟨e, he, rfl⟩ := List.mem_map.mp hi
      exact h.pending_lt he
  account := by
    -- discarding filters the kept entries once more
    have hkept : l.discard.kept =
        l.kept.filter fun e => decide (e.serial ∉ l.pending.map Entry.serial) := by
      simp only [kept, Ledger.discard, List.filter_filter, List.mem_append, not_or,
        Bool.decide_and, Bool.and_comm]
    have hgone : l.pending.filter
        (fun e => decide (e.serial ∉ l.pending.map Entry.serial)) = [] := by
      rw [List.filter_eq_nil_iff]
      exact fun e he => by simpa using ⟨e, he, rfl⟩
    have hstay : l.handed.flatten.filter
        (fun e => decide (e.serial ∉ l.pending.map Entry.serial)) = l.handed.flatten := by
      have hnodup := h.nodup
      rw [List.map_append, List.nodup_append] at hnodup
      rw [List.filter_eq_self]
      exact fun e he => decide_eq_true fun hm =>
        hnodup.2.2 e.serial (List.mem_map_of_mem he) e.serial hm rfl
    rw [hkept, ← h.account, List.filter_append, hgone, hstay]
    simp [Ledger.discard]

/-- Where a batch is that was offered and not taken: it is the beginning of what is pending or of
a batch handed on later, or it was discarded. -/
def Retained (l : Ledger τ) (batch : List (Entry τ)) : Prop :=
  batch <+: l.pending ∨ (∃ later ∈ l.handed, batch <+: later) ∨
    ∀ e ∈ batch, e.serial ∈ l.discarded

lemma retained_pending (l : Ledger τ) : l.Retained l.pending := .inl List.prefix_rfl

lemma Retained.enter {l : Ledger τ} {batch : List (Entry τ)} (h : l.Retained batch) (value : τ) :
    (l.enter value).Retained batch :=
  h.imp_left fun hpending => hpending.trans (List.prefix_append _ _)

lemma Retained.flush {l : Ledger τ} {batch : List (Entry τ)} (h : l.Retained batch)
    (hne : batch ≠ []) : l.flush.Retained batch := by
  rcases h with hpending | ⟨later, hlater, hprefix⟩ | hdiscarded
  · refine .inr (.inl ⟨l.pending, List.mem_append_right _ (mem_flushed.mpr ⟨rfl, ?_⟩), hpending⟩)
    rintro hnil
    rw [hnil, List.prefix_nil] at hpending
    exact hne hpending
  · exact .inr (.inl ⟨later, List.mem_append_left _ hlater, hprefix⟩)
  · exact .inr (.inr hdiscarded)

lemma Retained.discard {l : Ledger τ} {batch : List (Entry τ)} (h : l.Retained batch) :
    l.discard.Retained batch := by
  rcases h with hpending | hlater | hdiscarded
  · exact .inr (.inr fun e he =>
      List.mem_append_right _ (List.mem_map_of_mem (hpending.subset he)))
  · exact .inr (.inl hlater)
  · exact .inr (.inr fun e he => List.mem_append_left _ (hdiscarded e he))

end Ledger

end CppMisc.BatchLedger
