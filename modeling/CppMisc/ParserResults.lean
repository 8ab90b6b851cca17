import CppMisc.ResultSlots

/-! The `Result`s that running a tree of `OrParser`s builds, copies and destroys on its way to the
one that it returns. -/
namespace CppMisc.Parsec
open OrderedChoice Results Runs

variable {ι : Type*} [DecidableEq ι] [Iterator ι UInt8]

/-- What happens to results in a call of `RunParser`, which of them is returned, and the number
that the next one will have. -/
structure Execution where
  events : List Event
  result : ℕ
  next : ℕ
  deriving DecidableEq, Repr

/-- `leftResult` is destroyed at the end of the call, behind the copy of it or the call of
`m_right`. -/
def Tree.execution (stream : Stream ι) : Tree → ℕ → Execution
  | .leaf p, n => ⟨[.build (p.runParser stream).hasError], n, n + 1⟩
  | .or left right, n =>
      let leftResult := left.execution stream n
      if !(left.runParser stream).hasError then
        ⟨leftResult.events ++ [.copy leftResult.result, .destroy leftResult.result],
          leftResult.next, leftResult.next + 1⟩
      else
        let rightResult := right.execution stream leftResult.next
        ⟨leftResult.events ++ rightResult.events ++ [.destroy leftResult.result],
          rightResult.result, rightResult.next⟩

variable (trivialItem : Bool)

/-- The call comes to its end with one more result, which has an error or not as it should. -/
structure Returned (s : Results) (call : Execution) (hasError : Bool) (s' : Results) : Prop where
  run : run (step trivialItem) s call.events = some s'
  next : s'.next = call.next
  le_result : s.next ≤ call.result
  existing : s'.existing = insert call.result s.existing
  hasError : s'.hasError call.result = hasError

lemma step_copy {s : Results} {j : ℕ} (h : j ∈ s.existing) :
    ∃ live, s.step trivialItem (.copy j) = some (s.extend (s.hasError j) live) := by
  simp only [step, if_pos h]
  exact ⟨_, rfl⟩

lemma step_destroy {s : Results} {i : ℕ} (h : i ∈ s.existing) :
    ∃ live, s.step trivialItem (.destroy i) =
      some { s with existing := s.existing.erase i, live } := by
  simp only [step, if_pos h]
  exact ⟨_, rfl⟩

variable {trivialItem}

lemma Returned.fresh {s s' : Results} {call : Execution} {hasError : Bool}
    (h : Returned trivialItem s call hasError s') (hs : Fresh s) : Fresh s' :=
  run_invariant (fun _ _ _ hi hstep => fresh_step trivialItem hi hstep) h.run hs

lemma Returned.mem {s s' : Results} {call : Execution} {hasError : Bool}
    (h : Returned trivialItem s call hasError s') : call.result ∈ s'.existing := by
  rw [h.existing]
  exact Finset.mem_insert_self _ _

/-- Of two new results the one that is not returned is destroyed. -/
lemma erase_insert_insert {s : Results} (h : Fresh s) {i j : ℕ} (hi : s.next ≤ i) (hne : i ≠ j) :
    (insert j (insert i s.existing)).erase i = insert j s.existing := by
  have hold : i ∉ s.existing := fun hmem => absurd (h.existing_lt i hmem) (Nat.not_lt.mpr hi)
  rw [Finset.erase_insert_of_ne hne.symm, Finset.erase_insert hold]

/-- `return leftResult` -/
lemma Returned.copied {s t : Results} {call : Execution} {hasError : Bool} (hs : Fresh s)
    (ht : Returned trivialItem s call hasError t) :
    ∃ s', Returned trivialItem s
      ⟨call.events ++ [.copy call.result, .destroy call.result], call.next, call.next + 1⟩
      hasError s' := by
  have hlt := (ht.fresh hs).existing_lt _ ht.mem
  obtain ⟨live, hcopy⟩ := step_copy trivialItem ht.mem
  obtain ⟨live', hdestroy⟩ := step_destroy trivialItem
    (s := t.extend (t.hasError call.result) live) (Finset.mem_insert_of_mem ht.mem)
  refine ⟨{ t.extend (t.hasError call.result) live with
    existing := (insert t.next t.existing).erase call.result, live := live' }, ?_⟩
  constructor
  · rw [run_append, ht.run, Option.bind_some, run_cons, hcopy, Option.bind_some, run_cons,
      hdestroy]
    rfl
  · exact congrArg Nat.succ ht.next
  · rw [← ht.next]
    exact ht.le_result.trans hlt.le
  · rw [ht.existing, erase_insert_insert hs ht.le_result hlt.ne, ht.next]
  · rw [← ht.next]
    exact (Function.update_self _ _ _).trans ht.hasError

/-- `return m_right.RunParser(stream)` -/
lemma Returned.dropped {s t u : Results} {call call' : Execution} {hasError hasError' : Bool}
    (hs : Fresh s) (ht : Returned trivialItem s call hasError t)
    (hu : Returned trivialItem t call' hasError' u) :
    ∃ s', Returned trivialItem s
      ⟨call.events ++ call'.events ++ [.destroy call.result], call'.result, call'.next⟩
      hasError' s' := by
  have hlt := (ht.fresh hs).existing_lt _ ht.mem
  have hmem : call.result ∈ u.existing := by
    rw [hu.existing]
    exact Finset.mem_insert_of_mem ht.mem
  have hne : call.result ≠ call'.result := (hlt.trans_le hu.le_result).ne
  obtain ⟨live, hdestroy⟩ := step_destroy trivialItem hmem
  refine ⟨{ u with existing := u.existing.erase call.result, live := live }, ?_⟩
  constructor
  · rw [run_append, run_append, ht.run, Option.bind_some, hu.run, Option.bind_some, run_cons,
      hdestroy]
    rfl
  · exact hu.next
  · exact (ht.le_result.trans hlt.le).trans hu.le_result
  · rw [hu.existing, ht.existing, erase_insert_insert hs ht.le_result hne]
  · exact hu.hasError

variable (trivialItem)

lemma Tree.exists_returned (tree : Tree) (stream : Stream ι) {s : Results} (h : Fresh s) :
    ∃ s', Returned trivialItem s (tree.execution stream s.next)
      (tree.runParser stream).hasError s' := by
  induction tree generalizing s with
  | leaf p => exact ⟨_, rfl, rfl, le_rfl, rfl, Function.update_self _ _ _⟩
  | or left right ihLeft ihRight =>
    obtain ⟨t, ht⟩ := ihLeft h
    cases hleft : (left.runParser stream).hasError with
    | false =>
      simp only [execution, runParser_or, orElse, hleft, Bool.not_false, if_true,
        Bool.false_eq_true, if_false]
      rw [hleft] at ht
      exact ht.copied h
    | true =>
      obtain ⟨u, hu⟩ := ihRight (ht.fresh h)
      rw [ht.next] at hu
      simp only [execution, runParser_or, orElse, hleft, Bool.not_true, Bool.false_eq_true,
        if_false, if_true]
      exact ht.dropped h hu

/-- The calls do with results what their values say: of all that were built on the way only the
one that is returned is left. -/
theorem Tree.execution_returns (tree : Tree) (stream : Stream ι) {s : Results} (h : Fresh s) :
    ∃ s', run (step trivialItem) s (tree.execution stream s.next).events = some s' ∧
      s.next ≤ (tree.execution stream s.next).result ∧
      s'.existing = insert (tree.execution stream s.next).result s.existing ∧
      s'.hasError (tree.execution stream s.next).result = (tree.runParser stream).hasError := by
  obtain ⟨s', hs'⟩ := tree.exists_returned trivialItem stream h
  exact ⟨s', hs'.run, hs'.le_result, hs'.existing, hs'.hasError⟩

/-- An item or else the end, at the end of a text, is two results of which the second stays. -/
theorem Tree.execution_returns_end :
    ∃ s', run (step true) empty
        ((Tree.or (.leaf .item) (.leaf .eos)).execution (makeStream ([] : List UInt8)) 0).events =
          some s' ∧ s'.existing = {1} := by
  obtain ⟨s', hrun, -, hexisting, -⟩ := (Tree.or (.leaf .item) (.leaf .eos)).execution_returns
    true (makeStream ([] : List UInt8)) fresh_empty
  exact ⟨s', hrun, hexisting⟩

/-- The results of a tree follow the protocol where there is no choice in it. -/
theorem Tree.follows_iff_leaf (tree : Tree) (stream : Stream ι) :
    Follows trivialItem (tree.execution stream 0).events ↔ ∃ p, tree = .leaf p := by
  obtain ⟨s, hs⟩ := tree.exists_returned trivialItem stream fresh_empty
  have hrun : run (step trivialItem) empty (tree.execution stream 0).events = some s := hs.run
  rw [follows_iff_build, along_iff_forall hrun]
  cases tree with
  | leaf p => exact iff_of_true (by simp [execution, Event.isBuild]) ⟨p, rfl⟩
  | or left right =>
    refine iff_of_false ?_ (by simp)
    intro hall
    have hdestroy := hall (.destroy (left.execution stream 0).result) ?_
    · cases hdestroy
    · cases hleft : (left.runParser stream).hasError with
      | false => simp [execution, hleft]
      | true => simp [execution, hleft]

end CppMisc.Parsec
