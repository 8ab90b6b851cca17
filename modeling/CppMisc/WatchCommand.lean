import CppMisc.DelimitedText
import CppMisc.NotifyEvents
import CppMisc.Numerals

/-! `handle` of `Main.cc` and the arguments of `wmain` that it works with: for which names a
command is run, and which command that is. -/
namespace CppMisc.Watch
open Numerals

abbrev WString := List UInt16

def wide (text : List Char) : WString := text.map fun c => UInt16.ofNat c.toNat

def space : UInt16 := 32

def comma : UInt16 := 44

/-- What `wmain` makes of its arguments where there are enough of them. -/
structure Settings where
  dir : WString
  extensions : List WString
  subcommand : WString
  deriving DecidableEq, Repr

def settings : List WString → Option Settings
  | _ :: dir :: extensions :: arg :: args =>
      some ⟨dir, split extensions comma, concat (arg :: args) [space]⟩
  | _ => none

/-- The line that `handle` prints and the command that it hands to the shell. -/
structure Handled where
  line : WString
  fullCommand : WString
  deriving DecidableEq, Repr

/-- None where no command is run. -/
def handle (global : ℕ) (action : UInt32) (name command : WString)
    (extensions : List WString) : Option Handled :=
  let run := extensions.any fun ext => endsWith name ext
  if run then
    let fullCommand := concat [command, name] [space]
    some ⟨wide ['#', '#', '#', '#', '#', '#', '#'] ++ wide (numeral false 10 global) ++
        wide [':', '('] ++ wide (numeral false 16 action.toNat) ++ wide [')', ' '] ++ name ++
        wide [' ', '-', ' '] ++ fullCommand ++ wide ['\n'], fullCommand⟩
  else none

lemma handle_isSome (global : ℕ) (action : UInt32) (name command : WString)
    (extensions : List WString) :
    (handle global action name command extensions).isSome = true ↔
      ∃ ext ∈ extensions, ext <:+ name := by
  simp only [handle]
  split_ifs with h
  · simpa [endsWith_iff] using h
  · simpa [endsWith_iff] using h

/-! Lists of extensions. -/

/-- Either a string that is not empty ends the name, or an empty one stands before the last. -/
lemma exists_split_suffix {exts : List WString} (hexts : ∀ ext ∈ exts, comma ∉ ext)
    (name : WString) :
    (∃ ext ∈ split (concat exts [comma]) comma, ext <:+ name) ↔
      (∃ ext ∈ exts, ext ≠ [] ∧ ext <:+ name) ∨ [] ∈ exts.dropLast := by
  rw [split_concat comma hexts]
  rcases List.eq_nil_or_concat exts with rfl | ⟨exts, last, rfl⟩
  · simp
  rw [List.concat_eq_append, List.getLast?_concat, List.dropLast_concat]
  have hsplit : (∃ ext ∈ exts, ext <:+ name) ↔
      (∃ ext ∈ exts, ext ≠ [] ∧ ext <:+ name) ∨ [] ∈ exts := by
    constructor
    · rintro ⟨ext, hext, hsuffix⟩
      rcases eq_or_ne ext [] with rfl | hne
      · exact .inr hext
      · exact .inl ⟨ext, hext, hne, hsuffix⟩
    · rintro (⟨ext, hext, -, hsuffix⟩ | hnil)
      · exact ⟨ext, hext, hsuffix⟩
      · exact ⟨[], hnil, List.nil_suffix⟩
  rcases eq_or_ne last [] with rfl | hlast
  · rw [if_pos rfl, hsplit]
    simp [List.mem_append, or_and_right, exists_or]
  · rw [if_neg (by simpa using hlast)]
    simp only [List.mem_append, List.mem_singleton, or_and_right, exists_or, exists_eq_left,
      hsplit, hlast, ne_eq, not_false_eq_true, true_and]
    exact or_right_comm

/-- An empty string stands before the last: there are two, or the only one is not the last. -/
lemma nil_mem_dropLast (exts : List WString) :
    [] ∈ exts.dropLast ↔
      2 ≤ exts.count [] ∨ (exts.count [] = 1 ∧ ¬ exts.getLast? = some []) := by
  rcases List.eq_nil_or_concat exts with rfl | ⟨exts, last, rfl⟩
  · simp
  rw [List.concat_eq_append, List.getLast?_concat, List.dropLast_concat, List.count_append,
    Option.some.injEq, ← List.one_le_count_iff]
  rcases eq_or_ne last [] with rfl | hlast
  · rw [List.count_singleton_self]
    simp only [not_true_eq_false, and_false, or_false]
    omega
  · rw [List.count_singleton, beq_eq_false_iff_ne.mpr hlast]
    simp only [hlast, not_false_eq_true, and_true, Bool.false_eq_true, if_false]
    omega

/-- When a reordered list of extensions decides alike about a name: where a string that is
not empty ends the name, or the strings that are empty are none or several, or an empty one
is the last in both orders or in neither. -/
theorem handle_perm_iff {exts exts' : List WString} (hperm : exts.Perm exts')
    (hexts : ∀ ext ∈ exts, comma ∉ ext) (global : ℕ) (action : UInt32) (name command : WString) :
    ((handle global action name command (split (concat exts [comma]) comma)).isSome =
        (handle global action name command (split (concat exts' [comma]) comma)).isSome) ↔
      (∃ ext ∈ exts, ext ≠ [] ∧ ext <:+ name) ∨ exts.count [] ≠ 1 ∨
        (exts.getLast? = some [] ↔ exts'.getLast? = some []) := by
  have hexts' : ∀ ext ∈ exts', comma ∉ ext := fun ext hext => hexts ext (hperm.mem_iff.mpr hext)
  have hsame : (∃ ext ∈ exts', ext ≠ [] ∧ ext <:+ name) ↔
      ∃ ext ∈ exts, ext ≠ [] ∧ ext <:+ name := by
    simp only [hperm.mem_iff]
  have hcount : exts'.count [] = exts.count [] := (hperm.count_eq []).symm
  rw [Bool.eq_iff_iff, handle_isSome, handle_isSome]
  rw [exists_split_suffix hexts, exists_split_suffix hexts', hsame, nil_mem_dropLast,
    nil_mem_dropLast, hcount]
  by_cases hmatch : ∃ ext ∈ exts, ext ≠ [] ∧ ext <:+ name
  · exact iff_of_true (iff_of_true (.inl hmatch) (.inl hmatch)) (.inl hmatch)
  rw [or_iff_right hmatch, or_iff_right hmatch, or_iff_right hmatch]
  by_cases hone : exts.count [] = 1
  · simp only [hone, true_and, ne_eq, not_true_eq_false, false_or]
    rw [or_iff_right (by norm_num), or_iff_right (by norm_num), not_iff_not]
  · exact iff_of_true (by simp only [hone, false_and]) (.inl hone)

theorem handle_perm_iff_headers :
    (handle 1 3 (wide ['a', '.', 'h']) (wide ['m', 'a', 'k', 'e'])
        (split (concat [wide ['.', 'c', 'c'], wide ['.', 'h']] [comma]) comma)).isSome =
      (handle 1 3 (wide ['a', '.', 'h']) (wide ['m', 'a', 'k', 'e'])
        (split (concat [wide ['.', 'h'], wide ['.', 'c', 'c']] [comma]) comma)).isSome := by
  refine (handle_perm_iff (List.Perm.swap _ _ _) ?_ _ _ _ _).mpr (.inr (.inl ?_))
  · simp [wide, comma]
  · simp [wide]

/-- An empty extension in front matches every name. At the end it is no extension. -/
theorem handle_not_perm :
    [[], wide ['.', 'c', 'c']].Perm [wide ['.', 'c', 'c'], []] ∧
      (handle 1 3 (wide ['a', '.', 'h']) (wide ['m', 'a', 'k', 'e'])
        (split (concat [[], wide ['.', 'c', 'c']] [comma]) comma)).isSome = true ∧
      (handle 1 3 (wide ['a', '.', 'h']) (wide ['m', 'a', 'k', 'e'])
        (split (concat [wide ['.', 'c', 'c'], []] [comma]) comma)).isSome = false := by
  refine ⟨List.Perm.swap _ _ _, ?_, ?_⟩
  · decide
  · decide

/-! Command lines. -/

/-- The string that a shell is given for the arguments behind the extensions and a name. -/
def fullCommand (args : List WString) (name : WString) : WString :=
  concat [concat args [space], name] [space]

/-- `wmain` and `handle` put this string together. -/
lemma handle_fullCommand {margs : List WString} {st : Settings} (hst : settings margs = some st)
    {global : ℕ} {action : UInt32} {name : WString} {h : Handled}
    (hh : handle global action name st.subcommand st.extensions = some h) :
    margs.drop 3 ≠ [] ∧ h.fullCommand = fullCommand (margs.drop 3) name := by
  rcases margs with _ | ⟨a, _ | ⟨dir, _ | ⟨exts, _ | ⟨arg, args⟩⟩⟩⟩
  · cases hst
  · cases hst
  · cases hst
  · cases hst
  · obtain rfl := Option.some.inj hst
    refine ⟨List.cons_ne_nil arg args, ?_⟩
    simp only [handle] at hh
    split_ifs at hh
    exact (congrArg Handled.fullCommand (Option.some.inj hh)).symm

lemma fullCommand_eq {args : List WString} (hargs : args ≠ []) (name : WString) :
    fullCommand args name = [space].intercalate (args ++ [name]) := by
  rw [fullCommand, concat_eq, concat_eq, intercalate_append [space] hargs (List.cons_ne_nil _ _)]
  simp

/-- The words of joined strings are those of one string after the other. -/
lemma splitOn_intercalate_flatMap (delimiter : UInt16) {xs : List WString} (hxs : xs ≠ []) :
    ([delimiter].intercalate xs).splitOn delimiter = xs.flatMap (List.splitOn delimiter) := by
  induction xs with
  | nil => exact absurd rfl hxs
  | cons x xs ih =>
    rcases eq_or_ne xs [] with rfl | hne
    · simp
    · rw [List.intercalate_cons_of_ne_nil hne, List.append_assoc, List.singleton_append,
        List.splitOn_append_cons_self, ih hne, List.flatMap_cons]

lemma splitOn_length_pos (delimiter : UInt16) (x : WString) :
    1 ≤ (x.splitOn delimiter).length :=
  List.length_pos_of_ne_nil (List.splitOn_ne_nil delimiter x)

lemma length_le_words (delimiter : UInt16) (xs : List WString) :
    xs.length ≤ (xs.flatMap (List.splitOn delimiter)).length := by
  induction xs with
  | nil => exact le_rfl
  | cons x xs ih =>
    have hx := splitOn_length_pos delimiter x
    rw [List.flatMap_cons, List.length_append, List.length_cons]
    omega

/-- A string that is the only word of itself. -/
lemma eq_of_splitOn_singleton {delimiter : UInt16} {x word : WString}
    (h : x.splitOn delimiter = [word]) : x = word := by
  have hjoined : [delimiter].intercalate (x.splitOn delimiter) = x :=
    List.intercalate_splitOn delimiter
  rw [h, List.intercalate_singleton] at hjoined
  exact hjoined.symm

lemma fullCommand_words {args : List WString} (hargs : args ≠ []) (name : WString) :
    (fullCommand args name).splitOn space =
      args.flatMap (List.splitOn space) ++ name.splitOn space := by
  rw [fullCommand_eq hargs, splitOn_intercalate_flatMap space (by simp), List.flatMap_append,
    List.flatMap_singleton]

/-- A delimiter in a string might as well stand between two strings. -/
lemma intercalate_delimiter (delimiter : UInt16) (xs ys : List WString) (u v : WString) :
    [delimiter].intercalate (xs ++ u :: v :: ys) =
      [delimiter].intercalate (xs ++ (u ++ delimiter :: v) :: ys) := by
  cases xs with
  | nil => simp [intercalate_cons]
  | cons x xs => simp [intercalate_cons]

lemma fullCommand_arg (u v : WString) (args : List WString) (name : WString) :
    fullCommand (u :: v :: args) name = fullCommand ((u ++ space :: v) :: args) name := by
  rw [fullCommand_eq (List.cons_ne_nil _ _), fullCommand_eq (List.cons_ne_nil _ _)]
  exact intercalate_delimiter space [] (args ++ [name]) u v

lemma fullCommand_name (arg u v : WString) :
    fullCommand [arg, u] v = fullCommand [arg] (u ++ space :: v) := by
  rw [fullCommand_eq (List.cons_ne_nil _ _), fullCommand_eq (List.cons_ne_nil _ _)]
  exact intercalate_delimiter space [arg] [] u v

lemma eq_of_fullCommand_words {arg name : WString} (harg : space ∉ arg) (hname : space ∉ name)
    {args' : List WString} {name' : WString} (hargs' : args' ≠ [])
    (h : fullCommand args' name' = fullCommand [arg] name) : args' = [arg] ∧ name' = name := by
  have hwords := congrArg (List.splitOn space) h
  rw [fullCommand_words hargs', fullCommand_words (List.cons_ne_nil _ _), List.flatMap_singleton,
    List.splitOn_eq_singleton harg, List.splitOn_eq_singleton hname] at hwords
  have hlen := congrArg List.length hwords
  rw [List.length_append, List.length_append, List.length_singleton,
    List.length_singleton] at hlen
  have hargsLen := length_le_words space args'
  have hnameLen := splitOn_length_pos space name'
  have hpos := List.length_pos_of_ne_nil hargs'
  obtain ⟨arg', rfl⟩ := List.length_eq_one_iff.mp (by omega : args'.length = 1)
  rw [List.flatMap_singleton] at hwords hlen
  have hargLen := splitOn_length_pos space arg'
  obtain ⟨harg', hname'⟩ := List.append_inj hwords
    (by rw [List.length_singleton]; omega)
  exact ⟨congrArg (fun x => [x]) (eq_of_splitOn_singleton harg'), eq_of_splitOn_singleton hname'⟩

/-- When a command line tells the arguments and the name apart: exactly where it has a single
space, between one argument and the name. -/
theorem fullCommand_unique_iff {args : List WString} (hargs : args ≠ []) (name : WString) :
    (∀ args' name', args' ≠ [] → fullCommand args' name' = fullCommand args name →
        args' = args ∧ name' = name) ↔
      ∃ arg, args = [arg] ∧ space ∉ arg ∧ space ∉ name := by
  constructor
  · intro hunique
    obtain ⟨arg, rest, rfl⟩ := List.exists_cons_of_ne_nil hargs
    rcases eq_or_ne rest [] with rfl | hrest
    · refine ⟨arg, rfl, ?_, ?_⟩
      · intro hspace
        obtain ⟨u, v, rfl⟩ := List.append_of_mem hspace
        have heq := hunique [u, v] name (List.cons_ne_nil _ _) (fullCommand_arg u v [] name)
        exact absurd (congrArg List.length heq.1) (by simp)
      · intro hspace
        obtain ⟨u, v, rfl⟩ := List.append_of_mem hspace
        have heq := hunique [arg, u] v (List.cons_ne_nil _ _) (fullCommand_name arg u v)
        exact absurd (congrArg List.length heq.1) (by simp)
    · -- two arguments look like one with a space in it
      obtain ⟨arg', rest, rfl⟩ := List.exists_cons_of_ne_nil hrest
      have heq := hunique ((arg ++ space :: arg') :: rest) name (List.cons_ne_nil _ _)
        (fullCommand_arg arg arg' rest name).symm
      exact absurd (congrArg List.length heq.1) (by simp)
  · rintro ⟨arg, rfl, harg, hname⟩ args' name' hargs' h
    exact eq_of_fullCommand_words harg hname hargs' h

theorem fullCommand_unique_iff_make :
    fullCommand [wide ['m', 'a', 'k', 'e'], []] (wide ['a', '.', 'c']) ≠
      fullCommand [wide ['m', 'a', 'k', 'e']] (wide ['a', '.', 'c']) := by
  intro h
  have hunique := (fullCommand_unique_iff (List.cons_ne_nil (wide ['m', 'a', 'k', 'e']) [])
    (wide ['a', '.', 'c'])).mpr ⟨_, rfl, by simp [wide, space], by simp [wide, space]⟩
  have hargs := (hunique _ _ (List.cons_ne_nil _ _) h).1
  exact absurd (congrArg List.length hargs) (by simp)

/-- The name `b c` and the argument `b` with the name `c`. -/
theorem fullCommand_not_unique :
    fullCommand [wide ['a']] (wide ['b', ' ', 'c']) =
        fullCommand [wide ['a'], wide ['b']] (wide ['c']) ∧
      [wide ['a']] ≠ [wide ['a'], wide ['b']] ∧ wide ['b', ' ', 'c'] ≠ wide ['c'] := by
  refine ⟨rfl, ?_, ?_⟩
  · simp
  · decide

end CppMisc.Watch
