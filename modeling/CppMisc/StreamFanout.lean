import CppMisc.StreamClosures

/-! `all` of `stream.cc`. Its loop calls a copy of each action, so what a closure captured
by value is as it was before every item, while the actions that it refers to move on. -/
namespace CppMisc.Actions
open ListSegments

variable {ω : Type}

/-- What is left of a call once the copy that was called is gone: the captured references of
`after` and the captured values of `before`. -/
def Action.restore {α : Type} : (after before : Action ω α) → Action ω α
  | .buffer a _ _, .buffer _ size buf => .buffer a size buf
  | .skip a _, .skip _ i => .skip a i
  | .take a _, .take _ i => .take a i
  | after, _ => after

def Action.callCopy {α : Type} (a : Action ω α) (t : α) : Action ω α × List ω :=
  let r := a.call t
  (r.1.restore a, r.2)

def Action.pushCopies {α : Type} : Action ω α → List α → List ω
  | _, [] => []
  | a, t :: ts => (a.callCopy t).2 ++ (a.callCopy t).1.pushCopies ts

/-- An action in a vector: one with a sink of its own, or what `never` or `all` returns. -/
inductive Member (ω α : Type) : Type 1
  | never : Member ω α
  | action (a : Action ω α) : Member ω α
  | all (as : List (Member ω α)) : Member ω α

variable {α : Type}

mutual

/-- A call of a copy; that of an `all` refers to the same vector. -/
def Member.callCopy : Member ω α → α → Member ω α × List ω
  | .never, _ => (.never, [])
  | .action a, t =>
      let r := a.callCopy t
      (.action r.1, r.2)
  | .all as, t =>
      let rs := callEach as t
      (.all (rs.map Prod.fst), (rs.map Prod.snd).flatten)

/-- The loop of `all`: each action after its turn and what its sink received. -/
def callEach : List (Member ω α) → α → List (Member ω α × List ω)
  | [], _ => []
  | a :: as, t => a.callCopy t :: callEach as t

end

def Member.call : Member ω α → α → Member ω α × List ω
  | .never, _ => (.never, [])
  | .action a, t =>
      let r := a.call t
      (.action r.1, r.2)
  | .all as, t =>
      let rs := callEach as t
      (.all (rs.map Prod.fst), (rs.map Prod.snd).flatten)

def Member.pushAll : Member ω α → List α → List ω
  | _, [] => []
  | m, t :: ts => (m.call t).2 ++ (m.call t).1.pushAll ts

def Member.pushCopies : Member ω α → List α → List ω
  | _, [] => []
  | m, t :: ts => (m.callCopy t).2 ++ (m.callCopy t).1.pushCopies ts

/-- What the sink of each action receives when the items are pushed into `all(as)`. -/
def effects : List (Member ω α) → List α → List (List ω)
  | as, [] => as.map fun _ => []
  | as, t :: ts =>
      List.zipWith (· ++ ·) ((callEach as t).map Prod.snd)
        (effects ((callEach as t).map Prod.fst) ts)

lemma callEach_eq (as : List (Member ω α)) (t : α) :
    callEach as t = as.map fun m => m.callCopy t := by
  induction as with
  | nil => rfl
  | cons m as ih => rw [callEach, ih, List.map_cons]

lemma effects_eq (as : List (Member ω α)) (ts : List α) :
    effects as ts = as.map fun m => m.pushCopies ts := by
  induction ts generalizing as with
  | nil => simp [effects, Member.pushCopies]
  | cons t ts ih =>
    rw [effects, ih, callEach_eq, List.map_map, List.map_map, List.map_map,
      List.zipWith_map_left, List.zipWith_map_right, List.zipWith_self]
    rfl

/-! A closure that captures no state of its own. -/

def Action.Stateless {α : Type} : Action ω α → Prop
  | .sink => True
  | .always _ _ => True
  | .buffer _ _ _ => False
  | .filter _ _ => True
  | .map _ _ => True
  | .skip _ _ => False
  | .take _ _ => False

lemma Action.Stateless.callCopy {a : Action ω α} (h : a.Stateless) (t : α) :
    a.callCopy t = a.call t ∧ (a.call t).1.Stateless := by
  cases a with
  | sink => exact ⟨rfl, trivial⟩
  | always a value => exact ⟨rfl, trivial⟩
  | filter a p =>
    by_cases hp : p t
    · simp [Action.callCopy, call, hp, restore, Stateless]
    · simp [Action.callCopy, call, hp, restore, Stateless]
  | map a m => exact ⟨rfl, trivial⟩
  | buffer a size buf => exact absurd h id
  | skip a i => exact absurd h id
  | take a i => exact absurd h id

lemma Action.Stateless.pushCopies {a : Action ω α} (h : a.Stateless) (ts : List α) :
    a.pushCopies ts = a.pushAll ts := by
  induction ts generalizing a with
  | nil => rfl
  | cons t ts ih =>
    obtain ⟨hcall, hnext⟩ := h.callCopy t
    rw [Action.pushCopies, hcall, ih hnext, pushAll]

/-! Copies of the closures that count or collect, and the closures themselves. -/

lemma pushCopies_skip (a : Action ω α) (i : ℤ) (ts : List α) :
    (Action.skip a i).pushCopies ts = if i ≤ 0 then a.pushAll ts else [] := by
  induction ts generalizing a with
  | nil => simp [Action.pushCopies, Action.pushAll]
  | cons t ts ih =>
    by_cases hi : i ≤ 0
    · have hcall : ¬ i > 0 := by omega
      simp [Action.pushCopies, Action.callCopy, Action.call, Action.restore, hcall, ih, hi,
        Action.pushAll]
    · have hcall : i > 0 := by omega
      simp [Action.pushCopies, Action.callCopy, Action.call, Action.restore, hcall, ih, hi]

lemma pushCopies_take (a : Action ω α) (i : ℤ) (ts : List α) :
    (Action.take a i).pushCopies ts = if i ≤ 0 then [] else a.pushAll ts := by
  induction ts generalizing a with
  | nil => simp [Action.pushCopies, Action.pushAll]
  | cons t ts ih =>
    by_cases hi : i ≤ 0
    · have hcall : ¬ i > 0 := by omega
      simp [Action.pushCopies, Action.callCopy, Action.call, Action.restore, hcall, ih, hi]
    · have hcall : i > 0 := by omega
      simp [Action.pushCopies, Action.callCopy, Action.call, Action.restore, hcall, ih, hi,
        Action.pushAll]

lemma pushCopies_buffer (a : Action ω (List α)) (size : ℤ) (buf ts : List α) :
    (Action.buffer a size buf).pushCopies ts =
      if size ≤ buf.length + 1 then a.pushAll (ts.map fun t => buf ++ [t]) else [] := by
  induction ts generalizing a with
  | nil => simp [Action.pushCopies, Action.pushAll]
  | cons t ts ih =>
    by_cases hsize : size ≤ buf.length + 1
    · simp [Action.pushCopies, Action.callCopy, Action.call, Action.restore, ih, hsize,
        Action.pushAll]
    · simp [Action.pushCopies, Action.callCopy, Action.call, Action.restore, ih, hsize]

lemma pushAll_skip_int (a : Action ω α) (i : ℤ) (ts : List α) :
    (Action.skip a i).pushAll ts = a.pushAll (ts.drop i.toNat) := by
  by_cases hi : i ≤ 0
  · have hcall : ¬ i > 0 := by omega
    rw [Int.toNat_of_nonpos hi, List.drop_zero]
    induction ts generalizing a with
    | nil => rfl
    | cons t ts ih => simp [Action.pushAll, Action.call, hcall, ih]
  · have hcast : i = (i.toNat : ℤ) := by omega
    conv_lhs => rw [hcast]
    exact pushAll_skip a i.toNat ts

lemma pushAll_take_int (a : Action ω α) (i : ℤ) (ts : List α) :
    (Action.take a i).pushAll ts = a.pushAll (ts.take i.toNat) := by
  by_cases hi : i ≤ 0
  · have hcall : ¬ i > 0 := by omega
    rw [Int.toNat_of_nonpos hi, List.take_zero]
    induction ts generalizing a with
    | nil => rfl
    | cons t ts ih =>
      have hrest := ih a
      simp [Action.pushAll, Action.call, hcall] at hrest ⊢
      exact hrest
  · have hcast : i = (i.toNat : ℤ) := by omega
    conv_lhs => rw [hcast]
    exact pushAll_take a i.toNat ts

/-- A buffer that starts empty. Where the size is not positive it hands on single items. -/
lemma pushAll_buffer_empty (a : Action ω (List α)) (size : ℤ) (ts : List α) :
    (Action.buffer a size []).pushAll ts = a.pushAll (fullChunks (max size 1).toNat ts) := by
  by_cases hsize : size ≤ 1
  · rw [max_eq_right hsize, Int.toNat_one, fullChunks_one]
    induction ts generalizing a with
    | nil => rfl
    | cons t ts ih => simp [Action.pushAll, Action.call, hsize, ih]
  · have hcast : size = ((max size 1).toNat : ℤ) := by omega
    conv_lhs => rw [hcast]
    exact pushAll_buffer a [] ts (by rw [List.length_nil]; omega)

/-- The lists that a buffer hands on, whatever it holds before the items. -/
def chunked (size : ℤ) (buf ts : List α) : List (List α) :=
  if size ≤ buf.length + 1 then
    (ts.take 1).map (fun t => buf ++ [t]) ++ fullChunks (max size 1).toNat (ts.drop 1)
  else fullChunks size.toNat (buf ++ ts)

lemma pushAll_chunked (a : Action ω (List α)) (size : ℤ) (buf ts : List α) :
    (Action.buffer a size buf).pushAll ts = a.pushAll (chunked size buf ts) := by
  unfold chunked
  split_ifs with hsize
  · cases ts with
    | nil => simp [Action.pushAll]
    | cons t ts =>
      simp [Action.pushAll, Action.call, hsize, pushAll_buffer_empty]
  · have hcast : size = (size.toNat : ℤ) := by omega
    conv_lhs => rw [hcast]
    exact pushAll_buffer a buf ts (by omega)

lemma chunked_one {size : ℤ} (hsize : size ≤ 1) (ts : List α) :
    chunked size [] ts = ts.map fun t => [t] := by
  rw [chunked, List.length_nil, Nat.cast_zero, zero_add, if_pos hsize, max_eq_right hsize,
    Int.toNat_one, fullChunks_one]
  show (ts.take 1).map (fun t => [t]) ++ (ts.drop 1).map (fun t => [t]) = _
  rw [← List.map_append, List.take_append_drop]

lemma pushAll_always {ρ : Type} (a : Action ω α) (t : α) (ts : List ρ) :
    (Action.always a t).pushAll ts = a.pushAll (ts.map fun _ => t) := by
  induction ts generalizing a with
  | nil => rfl
  | cons s ts ih => simp [Action.pushAll, Action.call, ih]

/-- The list function of a closure in the state that it is in. -/
def Action.meaning {α : Type} : Action ω α → List α → List ω
  | .sink, ts => ts
  | .always a t, ts => a.meaning (ts.map fun _ => t)
  | .buffer a size buf, ts => a.meaning (chunked size buf ts)
  | .filter a p, ts => a.meaning (ts.filter p)
  | .map a m, ts => a.meaning (ts.map m)
  | .skip a i, ts => a.meaning (ts.drop i.toNat)
  | .take a i, ts => a.meaning (ts.take i.toNat)

lemma Action.pushAll_meaning (a : Action ω α) (ts : List α) : a.pushAll ts = a.meaning ts := by
  induction a with
  | sink => exact pushAll_sink ts
  | always a t ih => rw [pushAll_always, ih, meaning]
  | buffer a size buf ih => rw [pushAll_chunked, ih, meaning]
  | filter a p ih => rw [pushAll_filter, ih, meaning]
  | map a m ih => rw [pushAll_map, ih, meaning]
  | skip a i ih => rw [pushAll_skip_int, ih, meaning]
  | take a i ih => rw [pushAll_take_int, ih, meaning]

/-- For these items the state that a closure captured makes no difference at its sink:
nothing behind the skipped items would get there, the items behind those that are taken add
nothing, and the chunks of a buffer amount to what its copies hand on. -/
def Action.Steady {α : Type} : Action ω α → List α → Prop
  | .sink, _ => True
  | .always _ _, _ => True
  | .filter _ _, _ => True
  | .map _ _, _ => True
  | .skip a i, ts => i ≤ 0 ∨ a.meaning (ts.drop i.toNat) = []
  | .take a i, ts => i ≤ 0 ∨ a.meaning ts = a.meaning (ts.take i.toNat)
  | .buffer a size buf, ts =>
      if size ≤ buf.length + 1 then
        (size ≤ 1 ∧ buf = []) ∨
          a.meaning (ts.map fun t => buf ++ [t]) = a.meaning (chunked size buf ts)
      else a.meaning (chunked size buf ts) = []

def Member.Steady : Member ω α → List α → Prop
  | .never, _ => True
  | .action a, ts => a.Steady ts
  | .all _, _ => True

lemma Action.pushCopies_eq_iff (a : Action ω α) (ts : List α) :
    a.pushCopies ts = a.pushAll ts ↔ a.Steady ts := by
  cases a with
  | sink =>
    have hstateless : Stateless (.sink : Action ω ω) := trivial
    exact iff_of_true (hstateless.pushCopies ts) trivial
  | always a t =>
    have hstateless : Stateless (.always a t : Action ω α) := trivial
    exact iff_of_true (hstateless.pushCopies ts) trivial
  | filter a p =>
    have hstateless : Stateless (.filter a p) := trivial
    exact iff_of_true (hstateless.pushCopies ts) trivial
  | map a m =>
    have hstateless : Stateless (.map a m) := trivial
    exact iff_of_true (hstateless.pushCopies ts) trivial
  | skip a i =>
    rw [pushCopies_skip, pushAll_skip_int, a.pushAll_meaning, a.pushAll_meaning, Steady]
    by_cases hi : i ≤ 0
    · rw [if_pos hi, Int.toNat_of_nonpos hi, List.drop_zero]
      exact iff_of_true rfl (.inl hi)
    · rw [if_neg hi, eq_comm, or_iff_right hi]
  | take a i =>
    rw [pushCopies_take, pushAll_take_int, a.pushAll_meaning, a.pushAll_meaning, Steady]
    by_cases hi : i ≤ 0
    · rw [if_pos hi, Int.toNat_of_nonpos hi, List.take_zero, ← a.pushAll_meaning]
      exact iff_of_true rfl (.inl hi)
    · rw [if_neg hi, or_iff_right hi]
  | buffer a size buf =>
    rw [pushCopies_buffer, pushAll_chunked, a.pushAll_meaning, a.pushAll_meaning, Steady]
    split_ifs with hsize
    · refine ⟨.inr, ?_⟩
      rintro (⟨hone, rfl⟩ | heq)
      · rw [chunked_one hone]
        rfl
      · exact heq
    · exact eq_comm

lemma Member.pushCopies_action (a : Action ω α) (ts : List α) :
    (Member.action a).pushCopies ts = a.pushCopies ts := by
  induction ts generalizing a with
  | nil => rfl
  | cons t ts ih => rw [pushCopies, callCopy, ih, Action.pushCopies]

lemma Member.pushAll_action (a : Action ω α) (ts : List α) :
    (Member.action a).pushAll ts = a.pushAll ts := by
  induction ts generalizing a with
  | nil => rfl
  | cons t ts ih => rw [pushAll, call, ih, Action.pushAll]

lemma Member.pushCopies_eq_iff (m : Member ω α) (ts : List α) :
    m.pushCopies ts = m.pushAll ts ↔ m.Steady ts := by
  cases m with
  | never =>
    refine iff_of_true ?_ trivial
    induction ts with
    | nil => rfl
    | cons t ts ih => rw [pushCopies, pushAll, callCopy, call, ih]
  | all as =>
    refine iff_of_true ?_ trivial
    induction ts generalizing as with
    | nil => rfl
    | cons t ts ih => rw [pushCopies, pushAll, callCopy, call, ih]
  | action a =>
    rw [pushCopies_action, pushAll_action]
    exact a.pushCopies_eq_iff ts

/-- When `all` fans out faithfully: exactly where the state of every action of the vector
makes no difference at its sink. -/
theorem effects_eq_iff (as : List (Member ω α)) (ts : List α) :
    (effects as ts = as.map fun m => m.pushAll ts) ↔ ∀ m ∈ as, m.Steady ts := by
  rw [effects_eq, List.map_inj_left]
  exact forall_congr' fun m => imp_congr_right fun _ => m.pushCopies_eq_iff ts

/-- `all` over a `take` and a `skip` of one item: the first sink receives all of the items
and the second one none. -/
theorem effects_take_skip :
    let as : List (Member ℕ ℕ) := [.action (take .sink 1), .action (skip .sink 1)]
    effects as [1, 2, 3] = [[1, 2, 3], []] ∧
      effects as [1, 2, 3] ≠ as.map fun m => m.pushAll [1, 2, 3] := by
  intro as
  have heffects : effects as [1, 2, 3] = [[1, 2, 3], []] := rfl
  have hdirect : (as.map fun m => m.pushAll [1, 2, 3]) = [[1], [2, 3]] := rfl
  refine ⟨heffects, ?_⟩
  rw [heffects, hdirect]
  simp

end CppMisc.Actions
