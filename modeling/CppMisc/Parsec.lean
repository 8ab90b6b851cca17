import CppMisc.OrderedChoice

/-! `parsec.cc`: streams, results and the parsers that run on them. The result of a choice is
that of one of its leaves. -/
namespace CppMisc.Parsec
open OrderedChoice

/-- What a stream asks of its iterators: `*iterator` and `std::next(iterator)`. -/
class Iterator (ι : Type*) (τ : outParam Type*) where
  deref : ι → τ
  next : ι → ι

structure Stream (ι : Type*) where
  front : ι
  back : ι
  deriving DecidableEq, Repr

namespace Stream

variable {ι τ : Type*} [Iterator ι τ]

def current (stream : Stream ι) : τ := Iterator.deref stream.front

def next (stream : Stream ι) : Stream ι := ⟨Iterator.next stream.front, stream.back⟩

def end_ [DecidableEq ι] (stream : Stream ι) : Bool := stream.front = stream.back

lemma end_iff [DecidableEq ι] (stream : Stream ι) :
    (stream.end_ = true ↔ stream.front = stream.back) ∧
      (stream.end_ = false ↔ stream.front ≠ stream.back) := by
  simp [end_]

end Stream

/-- An iterator into a container is the rest of it. -/
instance {τ : Type*} [Inhabited τ] : Iterator (List τ) τ := ⟨List.headI, List.tail⟩

def makeStream {τ : Type*} (iterable : List τ) : Stream (List τ) := ⟨iterable, []⟩

structure Error where
  line : Int32
  column : Int32
  message : String
  deriving DecidableEq, Repr

def Error.formattedMessage (e : Error) : String :=
  "(" ++ toString e.line ++ ", " ++ toString e.column ++ "): " ++ e.message

/-- `m_hasError` says which member of the union is meant, so the two go together. -/
inductive Result (τ σ : Type*)
  | ofItem (item : τ) (stream : σ)
  | ofError (error : Error) (stream : σ)
  deriving DecidableEq, Repr

namespace Result

variable {τ σ : Type*}

def hasError : Result τ σ → Bool
  | .ofItem _ _ => false
  | .ofError _ _ => true

def stream : Result τ σ → σ
  | .ofItem _ stream => stream
  | .ofError _ stream => stream

/-- The errors of `item()` and `error()` are the texts that they throw. -/
def item : Result τ σ → Except String τ
  | .ofItem item _ => .ok item
  | .ofError error _ =>
      .error ("Result::item() called on a result with error: " ++ error.formattedMessage)

def error : Result τ σ → Except String Error
  | .ofItem _ _ => .error "Result::error() called on a result without error."
  | .ofError error _ => .ok error

/-- Either accessor throws where the result is of the other kind, and only there. -/
lemma accessors (r : Result τ σ) :
    ((∃ item, r.item = .ok item) ↔ r.hasError = false) ∧
      ((∃ error, r.error = .ok error) ↔ r.hasError = true) := by
  cases r with
  | ofItem item stream => simp [Result.item, Result.error, hasError]
  | ofError error stream => simp [Result.item, Result.error, hasError]

lemma eq_ofError {r : Result τ σ} (h : r.hasError = true) :
    ∃ error, r = .ofError error r.stream := by
  cases r with
  | ofItem item stream => cases h
  | ofError error stream => exact ⟨error, rfl⟩

end Result

variable {ι τ σ : Type*} [DecidableEq ι]

def EosParser.runParser (stream : Stream ι) : Result UInt8 (Stream ι) :=
  if !stream.end_ then .ofError ⟨0, 0, "End of stream expected."⟩ stream
  else .ofItem 0 stream

def ItemParser.runParser [Iterator ι τ] (stream : Stream ι) : Result τ (Stream ι) :=
  if stream.end_ then .ofError ⟨0, 0, "End of stream."⟩ stream
  else .ofItem stream.current stream.next

def OrParser.runParser (left right : σ → Result τ σ) (stream : σ) : Result τ σ :=
  let leftResult := left stream
  if !leftResult.hasError then leftResult else right stream

lemma orParser_orElse (left right : σ → Result τ σ) (stream : σ) :
    OrParser.runParser left right stream =
      orElse Result.hasError (left stream) (right stream) := by
  cases h : (left stream).hasError with
  | false => simp [OrParser.runParser, orElse, h]
  | true => simp [OrParser.runParser, orElse, h]

/-! Trees of choices. -/

inductive Leaf
  | eos
  | item
  deriving DecidableEq, Repr

inductive Tree
  | leaf (p : Leaf)
  | or (left right : Tree)
  deriving DecidableEq, Repr

variable [Iterator ι UInt8]

def Leaf.runParser : Leaf → Stream ι → Result UInt8 (Stream ι)
  | .eos => EosParser.runParser
  | .item => ItemParser.runParser

def Tree.runParser : Tree → Stream ι → Result UInt8 (Stream ι)
  | .leaf p => p.runParser
  | .or left right => OrParser.runParser left.runParser right.runParser

/-- The leaves from left to right. -/
def Tree.leaves : Tree → List Leaf
  | .leaf p => [p]
  | .or left right => left.leaves ++ right.leaves

/-- What a leaf returns: an error leaves the stream as it is, and so does the end of it. -/
lemma Leaf.runParser_spec (p : Leaf) (stream : Stream ι) :
    ((p.runParser stream).hasError = true ↔
        (stream.end_ = true ∧ p = .item) ∨ (stream.end_ = false ∧ p = .eos)) ∧
      (p.runParser stream).stream =
        if (p.runParser stream).hasError = false ∧ p = .item then stream.next else stream := by
  cases p with
  | eos =>
    cases h : stream.end_ with
    | false => simp [runParser, EosParser.runParser, h, Result.hasError, Result.stream]
    | true => simp [runParser, EosParser.runParser, h, Result.hasError, Result.stream]
  | item =>
    cases h : stream.end_ with
    | false => simp [runParser, ItemParser.runParser, h, Result.hasError, Result.stream]
    | true => simp [runParser, ItemParser.runParser, h, Result.hasError, Result.stream]

lemma Tree.runParser_or (left right : Tree) (stream : Stream ι) :
    (Tree.or left right).runParser stream =
      orElse Result.hasError (left.runParser stream) (right.runParser stream) :=
  orParser_orElse _ _ stream

lemma Tree.chosen_leaves (tree : Tree) (stream : Stream ι) :
    chosen Result.hasError (tree.leaves.map fun p => p.runParser stream) =
      some (tree.runParser stream) := by
  induction tree with
  | leaf p => exact chosen_singleton _ _
  | or left right ihLeft ihRight =>
    rw [leaves, List.map_append, runParser_or]
    exact chosen_append ihLeft ihRight

/-- The first leaf that succeeds on the stream. -/
def Tree.winner (tree : Tree) (stream : Stream ι) : Option Leaf :=
  tree.leaves.find? fun p => !(p.runParser stream).hasError

lemma Tree.winner_of_succeeds {tree : Tree} {stream : Stream ι}
    (h : (tree.runParser stream).hasError = false) :
    ∃ p, tree.winner stream = some p ∧ tree.runParser stream = p.runParser stream := by
  have hfind := find?_of_succeeds (tree.chosen_leaves stream) h
  rw [List.find?_map] at hfind
  obtain ⟨p, hp, hr⟩ := Option.map_eq_some_iff.mp hfind
  exact ⟨p, hp, hr.symm⟩

lemma Tree.winner_of_fails {tree : Tree} {stream : Stream ι}
    (h : (tree.runParser stream).hasError = true) :
    tree.winner stream = none ∧
      ∃ p, tree.leaves.getLast? = some p ∧ tree.runParser stream = p.runParser stream := by
  obtain ⟨hfind, hlast⟩ := find?_of_fails (tree.chosen_leaves stream) h
  rw [List.find?_map, Option.map_eq_none_iff] at hfind
  rw [List.getLast?_map] at hlast
  obtain ⟨p, hp, hr⟩ := Option.map_eq_some_iff.mp hlast
  exact ⟨hfind, p, hp, hr.symm⟩

/-- When a tree fails: its leaves are all of one kind, and it is the wrong one. -/
lemma Tree.hasError_iff (tree : Tree) (stream : Stream ι) :
    (tree.runParser stream).hasError = true ↔
      (stream.end_ = true ∧ ∀ p ∈ tree.leaves, p = .item) ∨
        (stream.end_ = false ∧ ∀ p ∈ tree.leaves, p = .eos) := by
  rw [fails_chosen (tree.chosen_leaves stream), List.forall_mem_map]
  simp only [(Leaf.runParser_spec _ stream).1]
  cases stream.end_ with
  | false => simp
  | true => simp

/-- What a tree of choices returns: the result of the first leaf that succeeds on the stream,
or the error of the last one and the stream as it was. How the leaves are nested is of no
account, only a stream at which all of them fail makes the tree fail, and only an item that
is taken moves the stream on, by one. -/
theorem Tree.runParser_ordered (tree : Tree) (stream : Stream ι) :
    (∀ p, tree.winner stream = some p → tree.runParser stream = p.runParser stream) ∧
      (tree.winner stream = none →
        ∃ p error, tree.leaves.getLast? = some p ∧ p.runParser stream = .ofError error stream ∧
          tree.runParser stream = .ofError error stream) ∧
      (∀ tree' : Tree, tree'.leaves = tree.leaves →
        tree'.runParser stream = tree.runParser stream) ∧
      ((tree.runParser stream).hasError = true ↔
        (stream.front = stream.back ∧ ∀ p ∈ tree.leaves, p = .item) ∨
          (stream.front ≠ stream.back ∧ ∀ p ∈ tree.leaves, p = .eos)) ∧
      ((tree.runParser stream).hasError = false →
        ∃ p, tree.winner stream = some p ∧ (tree.runParser stream).stream =
          if p = .item then ⟨Iterator.next stream.front, stream.back⟩ else stream) := by
  refine ⟨?_, ?_, ?_, ?_, ?_⟩
  · intro p hp
    cases h : (tree.runParser stream).hasError with
    | true =>
      rw [(winner_of_fails h).1] at hp
      cases hp
    | false =>
      obtain ⟨p', hp', hr⟩ := winner_of_succeeds h
      obtain rfl := Option.some.inj (hp'.symm.trans hp)
      exact hr
  · intro hnone
    cases h : (tree.runParser stream).hasError with
    | true =>
      obtain ⟨-, p, hlast, hr⟩ := winner_of_fails h
      obtain ⟨error, herror⟩ := Result.eq_ofError h
      have hstream := (p.runParser_spec stream).2
      rw [← hr, h, if_neg (by simp)] at hstream
      rw [hstream] at herror
      exact ⟨p, error, hlast, hr ▸ herror, herror⟩
    | false =>
      obtain ⟨p, hp, -⟩ := winner_of_succeeds h
      rw [hnone] at hp
      cases hp
  · intro tree' hleaves
    have hchosen := tree'.chosen_leaves stream
    rw [hleaves, tree.chosen_leaves stream] at hchosen
    exact (Option.some.inj hchosen).symm
  · rw [tree.hasError_iff, stream.end_iff.1, stream.end_iff.2]
  · intro h
    obtain ⟨p, hp, hr⟩ := winner_of_succeeds h
    refine ⟨p, hp, ?_⟩
    have hstream := (p.runParser_spec stream).2
    rw [← hr, h] at hstream
    simpa [Stream.next] using hstream

/-- The parser that `main` runs, an item or else the end. -/
example : (Tree.or (.leaf .item) (.leaf .eos)).runParser (makeStream ([104, 105] : List UInt8)) =
    .ofItem 104 ⟨[105], []⟩ := rfl

end CppMisc.Parsec
