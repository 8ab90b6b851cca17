import CppMisc.X86

/-! The procedures of `test.asm` and `rep_test/rep.s`: the remainder of a division by two taken
in two ways, and a buffer written with `rep stosq`. -/
namespace CppMisc.Assembly
open X86

inductive Label
  | ln3
  deriving DecidableEq, Repr

/-- `_test` -/
def test : List (Instr Label) :=
  [.op (.and32 .rcx (.imm (-2147483647))), .jge .ln3, .op (.dec32 .rcx),
    .op (.or32 .rcx (.imm (-2))), .op (.inc32 .rcx), .label .ln3, .op (.test32 .rcx .rcx),
    .op (.mov32 .rax (.imm 2)), .op (.mov32 .rdx (.imm 4)), .op (.cmovne32 .rax .rdx), .ret]

/-- `_test2` -/
def test2 : List (Instr Label) :=
  [.op (.and32 .rcx (.imm 1)), .op (.lea32 .rax .rcx 2 2), .ret]

def movMov : List (Instr Label) :=
  [.op (.mov64 .rax .rcx), .op (.mov64 .rcx .rdx), .op (.mov64i .rax 123), .ret]

def repMov : List (Instr Label) :=
  [.op (.mov64 .rdi .rcx), .op (.mov64 .rcx .rdx), .op (.mov8 .rax 61), .repStosq, .ret]

/-- The lowest bit and the sign are what is left of `ecx`. -/
lemma masked (x : BitVec 32) :
    x &&& (-2147483647) =
      (if x.msb then 2147483648#32 else 0) ||| if x.getLsbD 0 then 1 else 0 := by
  have hmask : (-2147483647 : BitVec 32) = BitVec.twoPow 32 31 ||| BitVec.twoPow 32 0 := by decide
  have hmsb : x.msb = x.getLsbD 31 := rfl
  rw [hmask, BitVec.and_or_distrib_left, BitVec.and_twoPow, BitVec.and_twoPow, hmsb]
  rfl

lemma umod_two (x : BitVec 32) : x % 2 = if x.getLsbD 0 then 1 else 0 := by
  have hbit : x.getLsbD 0 = decide (x.toNat % 2 = 1) := Nat.testBit_zero x.toNat
  have htwo : (2 : BitVec 32).toNat = 2 := rfl
  apply BitVec.eq_of_toNat_eq
  rw [hbit, BitVec.toNat_umod, htwo]
  rcases Nat.mod_two_eq_zero_or_one x.toNat with h | h
  · simp [h]
  · simp [h]

lemma neg_getLsbD_zero (x : BitVec 32) : (-x).getLsbD 0 = x.getLsbD 0 := by
  have hbit : ∀ y : BitVec 32, y.getLsbD 0 = decide (y.toNat % 2 = 1) :=
    fun y => Nat.testBit_zero y.toNat
  have hlt := x.isLt
  rw [hbit, hbit, BitVec.toNat_neg, decide_eq_decide]
  omega

lemma srem_two (x : BitVec 32) :
    x.srem 2 = if x.getLsbD 0 then if x.msb then -1 else 1 else 0 := by
  have htwo : (2 : BitVec 32).msb = false := by decide
  rw [BitVec.srem_eq, htwo]
  cases hmsb : x.msb with
  | false => exact umod_two x
  | true =>
    dsimp only
    rw [umod_two, neg_getLsbD_zero, if_pos rfl]
    split_ifs <;> decide

/-- What both ways leave in `eax`: two, or four for an odd number. -/
def twoOrFour (x : BitVec 32) : BitVec 64 := if x.getLsbD 0 then 4 else 2

/-- `_test` from the label on. -/
def testTail : List Op :=
  [.test32 .rcx .rcx, .mov32 .rax (.imm 2), .mov32 .rdx (.imm 4), .cmovne32 .rax .rdx]

lemma testTail_rax (n : Machine) :
    (n.after testTail).reg .rax = if n.get32 .rcx = 0 then 2 else 4 := by
  simp only [testTail, Machine.after_cons, Machine.after_nil, Op.apply, Operand.value,
    Machine.set32_reg, Function.update_self, Machine.set32_flags, Machine.setFlags_flags,
    logicFlags, BitVec.and_self, beq_iff_eq]
  split_ifs
  · rw [Machine.set32_get32_of_ne _ (by decide), Machine.set32_get32]
    rfl
  · rw [Machine.set32_get32]
    rfl

/-- `_test` from the label on leaves `ecx` as it is and asks whether it is zero. -/
lemma test_tail (n : Machine) :
    Reaches test ⟨n, .running 5⟩ ⟨n.after testTail, .running 10⟩ := by
  have hblock : BlockAt test 6 testTail := by decide
  exact (Reaches.label (l := .ln3) rfl n).trans (Reaches.block hblock n)

def testHead : List Op := [.and32 .rcx (.imm (-2147483647))]

/-- What the instructions that are jumped over do to a negative number. -/
def testNegative : List Op := [.dec32 .rcx, .or32 .rcx (.imm (-2)), .inc32 .rcx]

lemma testHead_spec (m : Machine) :
    (m.after testHead).get32 .rcx = m.get32 .rcx &&& (-2147483647) ∧
      (m.after testHead).flags.of = false ∧
      (m.after testHead).flags.sf = (m.get32 .rcx).msb := by
  refine ⟨?_, rfl, ?_⟩
  · simp [testHead, Op.apply, Operand.value]
  · have hmask : (-2147483647 : BitVec 32).msb = true := by decide
    simp only [testHead, Machine.after_cons, Machine.after_nil, Op.apply, Operand.value,
      Machine.setFlags_flags, logicFlags, BitVec.msb_and, hmask, Bool.and_true]

lemma testNegative_spec (m : Machine) :
    (m.after testNegative).get32 .rcx = (m.get32 .rcx - 1 ||| -2) + 1 := by
  simp [testNegative, Op.apply, Operand.value]

/-- From the label on, with the remainder in `ecx`. -/
lemma test_label {m n : Machine} (hn : m.Keeps [.rcx] n)
    (hrcx : n.get32 .rcx = (m.get32 .rcx).srem 2) :
    m.Keeps [.rax, .rcx, .rdx] (n.after testTail) ∧
      (n.after testTail).reg .rax = twoOrFour (m.get32 .rcx) ∧
      (n.after testTail).get32 .rcx = (m.get32 .rcx).srem 2 := by
  refine ⟨(hn.trans (n.after_keeps testTail)).mono (by decide), ?_, ?_⟩
  · rw [testTail_rax, hrcx, srem_two, twoOrFour]
    cases (m.get32 .rcx).getLsbD 0 with
    | false => rfl
    | true => cases (m.get32 .rcx).msb <;> rfl
  · rw [Machine.get32, n.after_reg (by decide), ← hrcx, Machine.get32]

/-- `_test` comes to its `ret` with the remainder of `ecx` in it. -/
lemma test_reaches (m : Machine) :
    ∃ n, Reaches test ⟨m, .running 0⟩ ⟨n, .running 10⟩ ∧ m.Keeps [.rax, .rcx, .rdx] n ∧
      n.reg .rax = twoOrFour (m.get32 .rcx) ∧ n.get32 .rcx = (m.get32 .rcx).srem 2 := by
  have hstart : BlockAt test 0 testHead := by decide
  have hhead := Reaches.block hstart m
  obtain ⟨hrcx, hof, hsf⟩ := testHead_spec m
  have hkeeps := m.after_keeps testHead
  cases hmsb : (m.get32 .rcx).msb with
  | false =>
    have hvalue : (m.after testHead).get32 .rcx = (m.get32 .rcx).srem 2 := by
      rw [hrcx, masked, srem_two, hmsb]
      cases (m.get32 .rcx).getLsbD 0 <;> rfl
    have hjump : Reaches test ⟨m.after testHead, .running 1⟩ ⟨m.after testHead, .running 5⟩ :=
      Reaches.jump (l := .ln3) rfl rfl (by rw [hof, hsf, hmsb])
    exact ⟨_, (hhead.trans hjump).trans (test_tail _), test_label hkeeps hvalue⟩
  | true =>
    have hvalue : ((m.after testHead).after testNegative).get32 .rcx =
        (m.get32 .rcx).srem 2 := by
      rw [testNegative_spec, hrcx, masked, srem_two, hmsb]
      cases (m.get32 .rcx).getLsbD 0 <;> decide
    have hon : Reaches test ⟨m.after testHead, .running 1⟩ ⟨m.after testHead, .running 2⟩ :=
      Reaches.noJump (l := .ln3) rfl (by rw [hof, hsf, hmsb]; decide)
    have hblock : BlockAt test 2 testNegative := by decide
    have hnegative := Reaches.block hblock (m.after testHead)
    exact ⟨_, ((hhead.trans hon).trans hnegative).trans (test_tail _),
      test_label ((hkeeps.trans (Machine.after_keeps _ testNegative)).mono (by decide)) hvalue⟩

def test2Ops : List Op := [.and32 .rcx (.imm 1), .lea32 .rax .rcx 2 2]

lemma test2_rax (m : Machine) : (m.after test2Ops).reg .rax = twoOrFour (m.get32 .rcx) := by
  have hone : (1 : BitVec 32) = BitVec.twoPow 32 0 := rfl
  simp only [test2Ops, Machine.after_cons, Machine.after_nil, Op.apply, Operand.value,
    Machine.set32_reg, Machine.setFlags_reg, Function.update_self, twoOrFour]
  rw [hone, BitVec.and_twoPow]
  cases (m.get32 .rcx).getLsbD 0 <;> decide

lemma twoOrFour_eq (x : BitVec 32) : twoOrFour x = if x.srem 2 = 0 then 2 else 4 := by
  rw [srem_two, twoOrFour]
  cases x.getLsbD 0 with
  | false => rfl
  | true => cases x.msb <;> rfl

/-- The two ways to say whether `ecx` is odd, with and without a jump, come to the same end from
every state: they go back to the caller with two or four in `rax`, and but for `rcx`, `rdx` and
the flags all is as it was; `_test` has the remainder, with its sign, in `ecx`. -/
theorem test_test2 (m : Machine) :
    ∃ m₁ m₂, Returns test m (m.load64 (m.reg .rsp)) m₁ ∧
      Returns test2 m (m.load64 (m.reg .rsp)) m₂ ∧
      m₁.reg .rax = (if (m.get32 .rcx).srem 2 = 0 then 2 else 4) ∧ m₂.reg .rax = m₁.reg .rax ∧
      m₁.get32 .rcx = (m.get32 .rcx).srem 2 ∧
      m₁.reg .rsp = m.reg .rsp + 8 ∧ m₂.reg .rsp = m.reg .rsp + 8 ∧
      m.Keeps [.rsp, .rax, .rcx, .rdx] m₁ ∧ m.Keeps [.rsp, .rax, .rcx] m₂ := by
  obtain ⟨n, hreach, hkeeps, hrax, hrcx⟩ := test_reaches m
  obtain ⟨hreturns, hleft⟩ := hreach.returns rfl hkeeps (by decide)
  have hblock : BlockAt test2 0 test2Ops := by decide
  have hkeeps₂ : m.Keeps [.rax, .rcx] (m.after test2Ops) :=
    (m.after_keeps test2Ops).mono (by decide)
  obtain ⟨hreturns₂, hleft₂⟩ := (Reaches.block hblock m).returns rfl hkeeps₂ (by decide)
  refine ⟨_, _, hreturns, hreturns₂, ?_, ?_, ?_, ?_, ?_, hleft, hleft₂⟩
  · rw [← twoOrFour_eq, ← hrax]
    rfl
  · exact (test2_rax m).trans hrax.symm
  · exact hrcx
  · rw [Machine.set64_reg, Function.update_self]
  · rw [Machine.set64_reg, Function.update_self]

def repOps : List Op := [.mov64 .rdi .rcx, .mov64 .rcx .rdx, .mov8 .rax 61]

/-- `rax` with the byte in its lowest place. -/
def pattern (m : Machine) : BitVec 64 := (m.reg .rax).extractLsb' 8 56 ++ 61#8

lemma repOps_spec (m : Machine) :
    (m.after repOps).reg .rdi = m.reg .rcx ∧ (m.after repOps).reg .rcx = m.reg .rdx ∧
      (m.after repOps).reg .rax = pattern m := by
  refine ⟨?_, ?_, ?_⟩ <;> simp [repOps, Op.apply, Machine.set8, pattern]

/-- The machine at the `ret` of `repMov`. -/
def repFilled (m : Machine) : Machine := (m.after repOps).filled

lemma repFilled_mem (m : Machine) (a : BitVec 64) :
    (repFilled m).mem a =
      if (a - m.reg .rcx).toNat < 8 * (m.reg .rdx).toNat then
        Machine.byteOf (pattern m) ((a - m.reg .rcx).toNat % 8)
      else m.mem a := by
  obtain ⟨hrdi, hrcx, hrax⟩ := repOps_spec m
  simp only [repFilled, Machine.filled, hrdi, hrcx, hrax, Machine.after_mem]

lemma repFilled_reg (m : Machine) {r : Reg} (h : r ∉ [.rax, .rcx, .rdi]) :
    (repFilled m).reg r = m.reg r := by
  rw [List.mem_cons, List.mem_cons, List.mem_singleton, not_or, not_or] at h
  have hkept : (m.after repOps).reg r = m.reg r :=
    m.after_reg (by simpa [repOps, Op.writes] using ⟨h.2.2, h.2.1, h.1⟩)
  rw [← hkept]
  exact (Function.update_of_ne h.2.1 _ _).trans (Function.update_of_ne h.2.2 _ _)

/-- The address that it goes back to is read behind the writing. -/
lemma repMov_returns {m : Machine} (hd : m.down = false) :
    Returns repMov m ((repFilled m).load64 (m.reg .rsp))
      ((repFilled m).set64 .rsp (m.reg .rsp + 8)) := by
  have hblock : BlockAt repMov 0 repOps := by decide
  have hd' : (m.after repOps).down = false := (m.after_down repOps).trans hd
  have hret : Reaches repMov ⟨repFilled m, .running 4⟩ _ := Reaches.ret rfl (repFilled m)
  rw [repFilled_reg m (by decide)] at hret
  exact ((Reaches.block hblock m).trans (Reaches.repStosq rfl hd')).trans hret

/-- What `repMov` does, from every state in which string instructions go to higher addresses: its
`size` counts quadwords, each of them gets the byte and what is left of `rax`, round the end of
the addresses if need be, and `rdi` is left behind them. -/
theorem repMov_fills {m : Machine} (hd : m.down = false) :
    ∃ a m', Returns repMov m a m' ∧ a = m'.load64 (m.reg .rsp) ∧
      (∀ b, m'.mem b =
        if (b - m.reg .rcx).toNat < 8 * (m.reg .rdx).toNat then
          Machine.byteOf (pattern m) ((b - m.reg .rcx).toNat % 8)
        else m.mem b) ∧
      m'.reg .rax = pattern m ∧ m'.reg .rcx = 0 ∧ m'.reg .rdi = m.reg .rcx + 8 * m.reg .rdx ∧
      m'.reg .rsp = m.reg .rsp + 8 ∧
      ∀ r, r ∉ [.rsp, .rax, .rcx, .rdi] → m'.reg r = m.reg r := by
  obtain ⟨hrdi, hrcx, hrax⟩ := repOps_spec m
  refine ⟨_, _, repMov_returns hd, rfl, repFilled_mem m, ?_, ?_, ?_, ?_, ?_⟩
  · simp [repFilled, Machine.filled, hrax]
  · simp [repFilled, Machine.filled]
  · simp [repFilled, Machine.filled, hrdi, hrcx]
  · rw [Machine.set64_reg, Function.update_self]
  · intro r hr
    rw [List.mem_cons, not_or] at hr
    rw [Machine.set64_reg, Function.update_of_ne hr.1, repFilled_reg m hr.2]

/-- A machine with these arguments, a stack, and the same byte everywhere. -/
def called (buffer size stack : BitVec 64) (b : BitVec 8) : Machine :=
  ⟨fun r => if r = .rcx then buffer else if r = .rdx then size else if r = .rsp then stack else 0,
    ⟨false, false, false, false⟩, false, fun _ => b⟩

theorem repMov_fills_two :
    ∃ a m', Returns repMov (called 4096 2 64 255) a m' ∧ m'.mem 4104 = 61 ∧ m'.mem 4105 = 0 ∧
      m'.mem 4112 = 255 := by
  obtain ⟨a, m', hreturns, -, hmem, -⟩ := repMov_fills (m := called 4096 2 64 255) rfl
  refine ⟨a, m', hreturns, ?_, ?_, ?_⟩
  · exact (hmem 4104).trans (by decide)
  · exact (hmem 4105).trans (by decide)
  · exact (hmem 4112).trans (by decide)

/-- `movMov` leaves the buffer alone and returns a number of its own. -/
lemma movMov_returns (m : Machine) :
    ∃ m', Returns movMov m (m.load64 (m.reg .rsp)) m' ∧ m'.reg .rax = 123 ∧
      m'.reg .rcx = m.reg .rdx ∧ m.Keeps [.rsp, .rax, .rcx] m' := by
  let ops : List Op := [.mov64 .rax .rcx, .mov64 .rcx .rdx, .mov64i .rax 123]
  have hblock : BlockAt movMov 0 ops := by decide
  have hkeeps : m.Keeps [.rax, .rcx] (m.after ops) := (m.after_keeps ops).mono (by decide)
  obtain ⟨hreturns, hleft⟩ := (Reaches.block hblock m).returns rfl hkeeps (by decide)
  refine ⟨_, hreturns, ?_, ?_, hleft⟩
  · simp [ops, Op.apply]
  · simp [ops, Op.apply]

end CppMisc.Assembly
