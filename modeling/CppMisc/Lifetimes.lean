import Mathlib

/-! Subobjects that are raw or live. Code constructs, assigns, reads and destroys them; what
is not live is raw. -/
namespace CppMisc.Lifetimes

/-- With `starts` an assignment makes a raw subobject live, as it does for trivial types. -/
inductive Act (κ : Type*)
  | construct (k : κ)
  | assign (k : κ) (starts : Bool)
  | read (k : κ)
  | destroy (k : κ)
  deriving DecidableEq, Repr

variable {κ : Type*} [DecidableEq κ]

/-- The live subobjects afterwards. -/
def Act.apply (live : Finset κ) : Act κ → Finset κ
  | .construct k => insert k live
  | .assign k starts => if starts then insert k live else live
  | .read _ => live
  | .destroy k => live.erase k

def applyAll (live : Finset κ) (acts : List (Act κ)) : Finset κ := acts.foldl Act.apply live

/-- Only what is live is assigned to or read. -/
def Act.Initialised (live : Finset κ) : Act κ → Prop
  | .construct _ => True
  | .assign k _ => k ∈ live
  | .read k => k ∈ live
  | .destroy _ => True

def Initialised (live : Finset κ) : List (Act κ) → Prop
  | [] => True
  | act :: acts => act.Initialised live ∧ Initialised (act.apply live) acts

variable {live : Finset κ} {k l : κ}

@[simp] lemma mem_construct : k ∈ (Act.construct l).apply live ↔ k = l ∨ k ∈ live :=
  Finset.mem_insert

@[simp] lemma mem_assign (starts : Bool) :
    k ∈ (Act.assign l starts).apply live ↔ (starts = true ∧ k = l) ∨ k ∈ live := by
  cases starts with
  | false => simp [Act.apply]
  | true => simp [Act.apply]

@[simp] lemma mem_read : k ∈ (Act.read l).apply live ↔ k ∈ live := Iff.rfl

@[simp] lemma mem_destroy : k ∈ (Act.destroy l).apply live ↔ k ≠ l ∧ k ∈ live :=
  Finset.mem_erase

@[simp] lemma applyAll_nil : applyAll live [] = live := rfl

@[simp] lemma applyAll_cons (act : Act κ) (acts : List (Act κ)) :
    applyAll live (act :: acts) = applyAll (act.apply live) acts := rfl

@[simp] lemma applyAll_append (acts acts' : List (Act κ)) :
    applyAll live (acts ++ acts') = applyAll (applyAll live acts) acts' :=
  List.foldl_append

lemma initialised_append {acts acts' : List (Act κ)} :
    Initialised live (acts ++ acts') ↔
      Initialised live acts ∧ Initialised (applyAll live acts) acts' := by
  induction acts generalizing live with
  | nil => simp [Initialised]
  | cons act acts ih => simp [Initialised, ih, and_assoc]

end CppMisc.Lifetimes
