import CppMisc.WatchCommand
import CppMisc.WatchLoop

/-! `wmain` of `Main.cc` from its arguments to its end, with the commands that it runs on the
way, and `FileWatcher::poll` of `FileWatcher.cc`, which waits for the changes itself. -/
namespace CppMisc.Watch
open ByteMemory

/-- What comes of the system calls of one round of the loop: `ReadDirectoryChangesW` fails, or
`GetQueuedCompletionStatus` does, with or without a packet, or the changes arrive. -/
inductive Answer
  | refused (code : UInt32)
  | failed (code : UInt32)
  | delivered (n : Notification)
  deriving DecidableEq, Repr

/-- How far `wmain` has come: it waits for changes, it has left the loop, it has printed its
usage, or it has caught an error. -/
inductive Ending
  | waiting
  | left
  | usage
  | caught (code : UInt32)
  deriving DecidableEq, Repr

structure Outcome where
  printed : List WString
  handled : List Handled
  ending : Ending
  deriving DecidableEq, Repr

/-- The `for` over the events of a round. -/
def handleAll (st : Settings) (events : List (FileWatchEvent × ℕ)) : List Handled :=
  events.filterMap fun r => handle r.2 r.1.action r.1.path st.subcommand st.extensions

/-- The loop from some round on. -/
def Watcher.loop (L : Layout) (fuel : ℕ) (st : Settings) :
    Watcher → List Answer → Option (List Handled × Ending)
  | _, [] => some ([], .waiting)
  | w, .refused code :: _ => w.port.buffer.map fun _ => ([], .caught code)
  | w, .failed code :: _ => (pollInternal2 w.port).map fun _ => ([], .caught code)
  | w, .delivered n :: answers =>
      (w.round L fuel n).bind fun r =>
        if n.data = -1 then some (handleAll st r.2, .left)
        else (r.1.loop L fuel st answers).map fun rest => (handleAll st r.2 ++ rest.1, rest.2)

def usage (program : WString) : List WString :=
  [wide "usage:".toList, wide "\t".toList ++ program ++
    wide " \\dir\\to\\watch extension command".toList]

def banner (st : Settings) : List WString :=
  [wide "Watching ".toList ++ st.dir,
    wide "For extentions '.".toList ++ concat st.extensions (wide "', '.".toList) ++
      wide "'".toList,
    wide "Will execute ".toList ++ st.subcommand ++ wide " [filename]".toList]

/-- `startup` is the error of a call in front of the loop, if there is one. -/
def wmain (L : Layout) (fuel : ℕ) (margs : List WString) (startup : Option UInt32)
    (answers : List Answer) : Option Outcome :=
  match settings margs with
  | none => some ⟨usage (margs.headD []), [], .usage⟩
  | some st =>
    match startup with
    | some code => some ⟨banner st, [], .caught code⟩
    | none => ((Watcher.atHead L (fun _ => 0) 0).loop L fuel st answers).map fun r =>
        ⟨banner st, r.1, r.2⟩

/-! What the rounds are about: an error, or changes to files. -/

inductive Round
  | fault (code : UInt32)
  | changes (events : List FileWatchEvent) (data : UInt64)
  deriving DecidableEq, Repr

/-- The changes are a well-formed chain in what is delivered. -/
def Answer.Reports : Answer → Round → Prop
  | .refused code, r => r = .fault code
  | .failed code, r => r = .fault code
  | .delivered n, r => ∃ events, r = .changes events n.data ∧
      ChainWithin (ofBytes n.bytes) n.bytes.length 0 events

/-- What the loop sees of the changes of a round. -/
def kept (events : List FileWatchEvent) : List FileWatchEvent :=
  if events.length = 1 then events else events.dropLast

/-- The changes of the rounds that the loop comes to. -/
def reported : List Round → List (List FileWatchEvent)
  | [] => []
  | .fault _ :: _ => []
  | .changes events data :: rounds => events :: if data = -1 then [] else reported rounds

def seen (rounds : List Round) : List FileWatchEvent := (reported rounds).flatMap kept

def ending : List Round → Ending
  | [] => .waiting
  | .fault code :: _ => .caught code
  | .changes _ data :: rounds => if data = -1 then .left else ending rounds

lemma seen_changes (events : List FileWatchEvent) (data : UInt64) (rounds : List Round) :
    seen (.changes events data :: rounds) =
      kept events ++ if data = -1 then [] else seen rounds := by
  rw [seen, reported, List.flatMap_cons]
  split_ifs <;> rfl

lemma handleAll_append (st : Settings) (gi : ℕ) (es fs : List FileWatchEvent) :
    handleAll st ((es ++ fs).zipIdx (gi + 1)) =
      handleAll st (es.zipIdx (gi + 1)) ++ handleAll st (fs.zipIdx (gi + es.length + 1)) := by
  rw [List.zipIdx_append, handleAll, List.filterMap_append, Nat.add_right_comm gi 1]
  rfl

lemma buffer_atHead (L : Layout) (mem : ℕ → UInt8) (gi : ℕ) :
    ∃ r, (Watcher.atHead L mem gi).port.buffer = some r := by
  simp [Watcher.atHead, Port.buffer, BufferPool.alloc, Port.new, BufferPool.new,
    slots_succ 2048 1999]

/-- One round sees what is kept of its changes, whatever is in the buffers. -/
lemma round_kept {n : Notification} {events : List FileWatchEvent}
    (h : ChainWithin (ofBytes n.bytes) n.bytes.length 0 events) (L : Layout) (mem : ℕ → UInt8)
    (gi : ℕ) {fuel : ℕ} (hfuel : events.length ≤ fuel) :
    ∃ mem', (Watcher.atHead L mem gi).round L fuel n =
      some (Watcher.atHead L mem' (gi + (kept events).length),
        (kept events).zipIdx (gi + 1)) := by
  have hat := h.chain (holds_writeBytes mem (L.values lastBuffer) n.bytes)
  rw [Nat.add_zero] at hat
  refine ⟨writeBytes mem (L.values lastBuffer) n.bytes, ?_⟩
  rw [round_atHead, hat.toEvents fuel hfuel, Option.map_some, ← kept]

lemma loop_reports (L : Layout) (st : Settings) {answers : List Answer} {rounds : List Round}
    (h : List.Forall₂ Answer.Reports answers rounds) :
    ∃ need, ∀ fuel, need ≤ fuel → ∀ mem gi,
      (Watcher.atHead L mem gi).loop L fuel st answers =
        some (handleAll st ((seen rounds).zipIdx (gi + 1)), ending rounds) := by
  induction h with
  | nil => exact ⟨0, fun fuel _ mem gi => rfl⟩
  | @cons a r answers rounds har _ ih =>
    cases a with
    | refused code =>
      obtain rfl : r = .fault code := har
      refine ⟨0, fun fuel _ mem gi => ?_⟩
      obtain ⟨s, hs⟩ := buffer_atHead L mem gi
      rw [Watcher.loop, hs]
      rfl
    | failed code =>
      obtain rfl : r = .fault code := har
      refine ⟨0, fun fuel _ mem gi => ?_⟩
      obtain ⟨s, hs⟩ := buffer_atHead L mem gi
      rw [Watcher.loop, pollInternal2, hs]
      rfl
    | delivered n =>
      obtain ⟨events, rfl, hchain⟩ := har
      obtain ⟨need, hneed⟩ := ih
      refine ⟨max events.length need, fun fuel hfuel mem gi => ?_⟩
      obtain ⟨mem', hround⟩ := round_kept hchain L mem gi ((le_max_left _ _).trans hfuel)
      rw [Watcher.loop, hround, Option.bind_some]
      dsimp only
      rw [seen_changes, ending]
      by_cases hdata : n.data = -1
      · rw [if_pos hdata, if_pos hdata, if_pos hdata, List.append_nil]
      · rw [if_neg hdata, if_neg hdata, if_neg hdata, hneed fuel ((le_max_right _ _).trans hfuel),
          Option.map_some, handleAll_append]

lemma wmain_watching {margs : List WString} {st : Settings} (hst : settings margs = some st)
    {answers : List Answer} {rounds : List Round}
    (h : List.Forall₂ Answer.Reports answers rounds) (L : Layout) :
    ∃ need, ∀ fuel, need ≤ fuel → wmain L fuel margs none answers =
      some ⟨banner st, handleAll st ((seen rounds).zipIdx 1), ending rounds⟩ := by
  obtain ⟨need, hneed⟩ := loop_reports L st h
  refine ⟨need, fun fuel hfuel => ?_⟩
  rw [wmain, hst]
  dsimp only
  rw [hneed fuel hfuel, Option.map_some]

/-- Three rounds: a source file, one beside a header, and an error. -/
def threeAnswers : List Answer :=
  [.delivered ⟨encode [⟨3, wide ['a', '.', 'c']⟩], 0⟩,
    .delivered ⟨encode [⟨3, wide ['b', '.', 'c']⟩, ⟨3, wide ['b', '.', 'h']⟩], 0⟩, .refused 5]

def threeRounds : List Round :=
  [.changes [⟨3, wide ['a', '.', 'c']⟩] 0,
    .changes [⟨3, wide ['b', '.', 'c']⟩, ⟨3, wide ['b', '.', 'h']⟩] 0, .fault 5]

lemma threeAnswers_report : List.Forall₂ Answer.Reports threeAnswers threeRounds := by
  refine .cons ⟨_, rfl, ?_⟩ (.cons ⟨_, rfl, ?_⟩ (.cons rfl .nil))
  · exact ⟨⟨by decide, by decide, by decide, by decide⟩, by decide⟩
  · exact ⟨20, by decide, ⟨by decide, by decide, by decide, by decide⟩, by decide,
      ⟨by decide, by decide, by decide, by decide⟩, by decide⟩

def makeArgs : List WString :=
  [wide ['w'], wide ['d'], wide ['.', 'c'], wide ['m', 'a', 'k', 'e']]

def makeSettings : Settings := ⟨wide ['d'], [wide ['.', 'c']], wide ['m', 'a', 'k', 'e']⟩

/-- What `wmain` does with its arguments for the changes that it is told of: in their order, and
numbered across the rounds, it handles each but the last of several in one round, until a round
fails or carries the key that ends the loop. -/
theorem wmain_handles {margs : List WString} {st : Settings} (hst : settings margs = some st)
    {answers : List Answer} {rounds : List Round}
    (h : List.Forall₂ Answer.Reports answers rounds) (L : Layout) :
    ∃ need, ∀ fuel, need ≤ fuel → wmain L fuel margs none answers =
      some ⟨banner st, ((seen rounds).zipIdx 1).filterMap fun r =>
        handle r.2 r.1.action r.1.path st.subcommand st.extensions, ending rounds⟩ :=
  wmain_watching hst h L

theorem wmain_handles_three : ∃ fuel, wmain .x64 fuel makeArgs none threeAnswers =
    some ⟨banner makeSettings,
      ([(1, wide ['a', '.', 'c']), (2, wide ['b', '.', 'c'])].filterMap fun r =>
        handle r.1 3 r.2 makeSettings.subcommand makeSettings.extensions), .caught 5⟩ := by
  have hst : settings makeArgs = some makeSettings := by decide
  obtain ⟨need, hneed⟩ := wmain_handles hst threeAnswers_report .x64
  exact ⟨need, hneed need le_rfl⟩

/-- The extensions let a command run for the change. -/
def Settings.selects (st : Settings) (e : FileWatchEvent) : Bool :=
  st.extensions.any fun ext => endsWith e.path ext

lemma handleAll_commands {margs : List WString} {st : Settings} (hst : settings margs = some st)
    (events : List FileWatchEvent) (k : ℕ) :
    (handleAll st (events.zipIdx k)).map Handled.fullCommand =
      (events.filter st.selects).map fun e => fullCommand (margs.drop 3) e.path := by
  induction events generalizing k with
  | nil => rfl
  | cons e es ih =>
    rw [List.zipIdx_cons, handleAll, List.filterMap_cons, ← handleAll, List.filter_cons]
    cases hh : handle k e.action e.path st.subcommand st.extensions with
    | none =>
      have hselects : st.selects e = false := by
        simp only [handle] at hh
        split_ifs at hh with hany
        simpa [Settings.selects] using hany
      rw [hselects, ih]
      rfl
    | some g =>
      have hselects : st.selects e = true := by
        simp only [handle] at hh
        split_ifs at hh with hany
        exact hany
      rw [hselects, if_pos rfl, List.map_cons, List.map_cons, ih,
        (handle_fullCommand hst hh).2]

lemma kept_sublist (events : List FileWatchEvent) : (kept events).Sublist events := by
  unfold kept
  split_ifs
  · exact List.Sublist.refl _
  · exact List.dropLast_sublist _

/-- Nothing that is selected is lost of the changes of a round. -/
lemma kept_filter_iff (events : List FileWatchEvent) (m : FileWatchEvent → Bool) :
    (kept events).filter m = events.filter m ↔
      ∀ e, events.getLast? = some e → m e = true → events.length = 1 := by
  unfold kept
  split_ifs with hone
  · simp [hone]
  · rcases List.eq_nil_or_concat events with rfl | ⟨es, e, rfl⟩
    · simp
    · rw [List.concat_eq_append] at hone ⊢
      rw [List.dropLast_concat, List.getLast?_concat, List.filter_append]
      have hlong : es ≠ [] := by
        rintro rfl
        exact hone rfl
      cases hm : m e with
      | false => simp [hm]
      | true => simp [hm, hlong]

lemma flatMap_kept_sublist (batches : List (List FileWatchEvent)) :
    (batches.flatMap kept).Sublist batches.flatten := by
  induction batches with
  | nil => exact List.Sublist.refl _
  | cons events batches ih => exact (kept_sublist events).append ih

lemma flatMap_kept_filter_iff (batches : List (List FileWatchEvent)) (m : FileWatchEvent → Bool) :
    (batches.flatMap kept).filter m = batches.flatten.filter m ↔
      ∀ events ∈ batches, (kept events).filter m = events.filter m := by
  induction batches with
  | nil => simp
  | cons events batches ih =>
    rw [List.forall_mem_cons, ← ih, List.flatMap_cons, List.flatten_cons, List.filter_append,
      List.filter_append]
    constructor
    · intro heq
      have hhead := (kept_sublist events).filter m
      have htail : ((batches.flatMap kept).filter m).Sublist (batches.flatten.filter m) :=
        (flatMap_kept_sublist batches).filter m
      have hlen := congrArg List.length heq
      rw [List.length_append, List.length_append] at hlen
      have hle := hhead.length_le
      have hle' := htail.length_le
      exact ⟨hhead.eq_of_length (by omega), htail.eq_of_length (by omega)⟩
    · rintro ⟨hhead, htail⟩
      rw [hhead, htail]

/-- When every reported change that an extension selects has its command run, in order: exactly
where no round reports several changes of which the last is selected. -/
theorem wmain_complete_iff {margs : List WString} {st : Settings}
    (hst : settings margs = some st) {answers : List Answer} {rounds : List Round}
    (h : List.Forall₂ Answer.Reports answers rounds) (L : Layout) :
    ∃ need, ∀ fuel, need ≤ fuel → ∃ o, wmain L fuel margs none answers = some o ∧
      (o.handled.map Handled.fullCommand =
          ((reported rounds).flatten.filter st.selects).map
            (fun e => fullCommand (margs.drop 3) e.path) ↔
        ∀ events ∈ reported rounds, ∀ e, events.getLast? = some e → st.selects e = true →
          events.length = 1) := by
  obtain ⟨need, hneed⟩ := wmain_watching hst h L
  refine ⟨need, fun fuel hfuel => ⟨_, hneed fuel hfuel, ?_⟩⟩
  rw [handleAll_commands hst]
  simp only [← kept_filter_iff]
  rw [← flatMap_kept_filter_iff]
  constructor
  · intro heq
    have hlen := congrArg List.length heq
    rw [List.length_map, List.length_map] at hlen
    exact ((flatMap_kept_sublist _).filter _).eq_of_length hlen
  · intro heq
    rw [seen, heq]

theorem wmain_complete_iff_three : ∃ fuel o, wmain .x64 fuel makeArgs none threeAnswers = some o ∧
    o.handled.map Handled.fullCommand =
      [wide ['m', 'a', 'k', 'e', ' ', 'a', '.', 'c'],
        wide ['m', 'a', 'k', 'e', ' ', 'b', '.', 'c']] := by
  have hst : settings makeArgs = some makeSettings := by decide
  obtain ⟨need, hneed⟩ := wmain_complete_iff hst threeAnswers_report .x64
  obtain ⟨o, ho, hiff⟩ := hneed need le_rfl
  refine ⟨need, o, ho, (hiff.mpr ?_).trans (by decide)⟩
  intro events hevents e he hselects
  have hall : events = [⟨3, wide ['a', '.', 'c']⟩] ∨
      events = [⟨3, wide ['b', '.', 'c']⟩, ⟨3, wide ['b', '.', 'h']⟩] := by
    simpa [reported, threeRounds] using hevents
  rcases hall with rfl | rfl
  · rfl
  · obtain rfl := Option.some.inj he
    exact absurd hselects (by decide)

/-! `FileWatcher::poll` waits for the changes itself, in a buffer that it clears first. -/

structure FileWatcher where
  buffer : ℕ
  bufferSize : UInt32
  mem : ℕ → UInt8

namespace FileWatcher

/-- The answer is the error of `ReadDirectoryChangesW` or what it leaves in the buffer. -/
def pollInternal (w : FileWatcher) (answer : Except UInt32 (List UInt8)) :
    FileWatcher × Except UInt32 ℕ :=
  let w := { w with mem := writeBytes w.mem w.buffer (List.replicate w.bufferSize.toNat 0) }
  match answer with
  | .error code => (w, .error code)
  | .ok bytes => ({ w with mem := writeBytes w.mem w.buffer bytes }, .ok w.buffer)

def poll (fuel : ℕ) (w : FileWatcher) (answer : Except UInt32 (List UInt8)) :
    Option (FileWatcher × Except UInt32 (List FileWatchEvent)) :=
  match w.pollInternal answer with
  | (w, .error code) => some (w, .error code)
  | (w, .ok notifications) =>
      (toEvents w.mem fuel notifications).map fun events => (w, .ok events)

/-- A caller that polls again when a poll throws. -/
def polls (fuel : ℕ) : FileWatcher → List (Except UInt32 (List UInt8)) →
    Option (List (Except UInt32 (List FileWatchEvent)))
  | _, [] => some []
  | w, answer :: answers =>
      (w.poll fuel answer).bind fun r => (r.1.polls fuel answers).map fun rest => r.2 :: rest

/-- What is delivered fits the buffer and is a well-formed chain of the changes, or nothing
where the system has lost count of them. -/
def Reports (w : FileWatcher) : Except UInt32 (List UInt8) →
    Except UInt32 (List FileWatchEvent) → Prop
  | .error code, r => r = .error code
  | .ok bytes, r => ∃ events, r = .ok events ∧ bytes.length ≤ w.bufferSize.toNat ∧
      (bytes = [] ∧ events = [] ∨ ChainWithin (ofBytes bytes) bytes.length 0 events)

/-- No change at all looks like one without an action to a file without a name. -/
def polled : Except UInt32 (List FileWatchEvent) → Except UInt32 (List FileWatchEvent)
  | .error code => .error code
  | .ok [] => .ok [⟨0, []⟩]
  | .ok (e :: es) => .ok (kept (e :: es))

/-- The buffer where nothing has been delivered is an entry without a name. -/
lemma chain_cleared {mem : ℕ → UInt8} {p size : ℕ} (hsize : 12 ≤ size) :
    Chain (writeBytes mem p (List.replicate size 0)) p [⟨0, []⟩] := by
  have hholds := holds_writeBytes mem p (List.replicate size 0)
  have hentry : List.replicate size 0 =
      entryBytes 0 ⟨0, []⟩ ++ List.replicate (size - 12) (0 : UInt8) := by
    have hzero : entryBytes 0 ⟨0, []⟩ = List.replicate 12 0 := by decide
    rw [hzero, List.replicate_append_replicate, Nat.add_sub_cancel' hsize]
  rw [hentry, Holds.append] at hholds
  rw [← hentry] at hholds
  exact entryAt_of_holds hholds.1 (by norm_num) (by norm_num)

/-- One poll, whatever is in the buffer. -/
lemma poll_reports {w : FileWatcher} (hsize : 12 ≤ w.bufferSize.toNat)
    {answer : Except UInt32 (List UInt8)} {report : Except UInt32 (List FileWatchEvent)}
    (h : w.Reports answer report) :
    ∃ need, ∀ fuel, need ≤ fuel → ∀ mem, ∃ mem',
      poll fuel { w with mem := mem } answer = some ({ w with mem := mem' }, polled report) := by
  cases answer with
  | error code =>
    obtain rfl : report = .error code := h
    exact ⟨0, fun fuel _ mem => ⟨_, rfl⟩⟩
  | ok bytes =>
    obtain ⟨events, rfl, -, hdelivered⟩ := h
    refine ⟨max 1 events.length, fun fuel hfuel mem => ?_⟩
    let cleared := writeBytes mem w.buffer (List.replicate w.bufferSize.toNat 0)
    refine ⟨writeBytes cleared w.buffer bytes, ?_⟩
    have hdecoded : toEvents (writeBytes cleared w.buffer bytes) fuel w.buffer =
        (polled (.ok events)).toOption := by
      rcases hdelivered with ⟨rfl, rfl⟩ | hchain
      · rw [writeBytes_nil]
        exact (chain_cleared hsize).toEvents fuel ((le_max_left _ _).trans hfuel)
      · have hat := hchain.chain (holds_writeBytes cleared w.buffer bytes)
        rw [Nat.add_zero] at hat
        rw [hat.toEvents fuel ((le_max_right _ _).trans hfuel)]
        cases events with
        | nil => exact absurd hat id
        | cons e es => rfl
    cases events with
    | nil =>
      simp only [poll, pollInternal]
      rw [hdecoded]
      rfl
    | cons e es =>
      simp only [poll, pollInternal]
      rw [hdecoded]
      rfl

/-- What a caller gets of any number of polls depends on what is delivered to them alone, and
nothing of one poll comes up in another: each gives the changes but the last of several, the
error of the call, or a change without a name where nothing is delivered. -/
theorem polls_report {w : FileWatcher} (hsize : 12 ≤ w.bufferSize.toNat)
    {answers : List (Except UInt32 (List UInt8))}
    {reports : List (Except UInt32 (List FileWatchEvent))}
    (h : List.Forall₂ w.Reports answers reports) :
    ∃ need, ∀ fuel, need ≤ fuel → ∀ mem,
      polls fuel { w with mem := mem } answers = some (reports.map polled) := by
  induction h with
  | nil => exact ⟨0, fun fuel _ mem => rfl⟩
  | cons hanswer _ ih =>
    obtain ⟨first, hfirst⟩ := poll_reports hsize hanswer
    obtain ⟨rest, hrest⟩ := ih
    refine ⟨max first rest, fun fuel hfuel mem => ?_⟩
    obtain ⟨mem', hpoll⟩ := hfirst fuel ((le_max_left _ _).trans hfuel) mem
    rw [polls, hpoll, Option.bind_some]
    dsimp only
    rw [hrest fuel ((le_max_right _ _).trans hfuel) mem', Option.map_some, List.map_cons]

/-- A change, an overflow and an error. -/
theorem polls_report_three : ∃ fuel, polls fuel ⟨0, 4096, fun _ => 255⟩
    [.ok (encode [added 97]), .ok [], .error 5] =
      some [.ok [added 97], .ok [⟨0, []⟩], .error 5] := by
  have hreports : List.Forall₂ (Reports ⟨0, 4096, fun _ => 255⟩)
      [.ok (encode [added 97]), .ok [], .error 5] [.ok [added 97], .ok [], .error 5] := by
    refine .cons ⟨_, rfl, by decide, .inr ?_⟩ (.cons ⟨_, rfl, by decide, .inl ⟨rfl, rfl⟩⟩
      (.cons rfl .nil))
    exact ⟨⟨by decide, by decide, by decide, by decide⟩, by decide⟩
  obtain ⟨need, hneed⟩ := polls_report (w := ⟨0, 4096, fun _ => 255⟩) (by decide) hreports
  exact ⟨need, hneed need le_rfl _⟩

end FileWatcher

end CppMisc.Watch
