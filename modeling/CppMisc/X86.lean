import Mathlib

/-! A part of the x86-64: its registers, flags and memory, some of its instructions, and the
runs of a procedure from its first instruction to its `ret`. `PF` and `AF` are not modelled. -/
namespace CppMisc.X86

inductive Reg
  | rax | rcx | rdx | rbx | rsp | rbp | rsi | rdi
  | r8 | r9 | r10 | r11 | r12 | r13 | r14 | r15
  deriving DecidableEq, Repr

structure Flags where
  cf : Bool
  zf : Bool
  sf : Bool
  of : Bool
  deriving DecidableEq, Repr

@[ext] structure Machine where
  reg : Reg → BitVec 64
  flags : Flags
  /-- `DF`: string instructions go to lower addresses. -/
  down : Bool
  mem : BitVec 64 → BitVec 8

namespace Machine

def get32 (m : Machine) (r : Reg) : BitVec 32 := (m.reg r).setWidth 32

def set64 (m : Machine) (r : Reg) (v : BitVec 64) : Machine :=
  { m with reg := Function.update m.reg r v }

/-- Writing 32 bits of a register clears the others. -/
def set32 (m : Machine) (r : Reg) (v : BitVec 32) : Machine := m.set64 r (v.setWidth 64)

/-- Writing the lowest 8 bits of a register keeps the others. -/
def set8 (m : Machine) (r : Reg) (v : BitVec 8) : Machine :=
  m.set64 r ((m.reg r).extractLsb' 8 56 ++ v)

def setFlags (m : Machine) (flags : Flags) : Machine := { m with flags }

/-- The byte of a quadword that lies at a distance from its address. -/
def byteOf (v : BitVec 64) (i : ℕ) : BitVec 8 := v.extractLsb' (8 * i) 8

def load64 (m : Machine) (a : BitVec 64) : BitVec 64 :=
  m.mem (a + 7) ++ m.mem (a + 6) ++ m.mem (a + 5) ++ m.mem (a + 4) ++ m.mem (a + 3) ++
    m.mem (a + 2) ++ m.mem (a + 1) ++ m.mem a

def store64 (m : Machine) (a v : BitVec 64) : Machine :=
  { m with mem := fun b => if (b - a).toNat < 8 then byteOf v (b - a).toNat else m.mem b }

@[simp] lemma set64_reg (m : Machine) (r : Reg) (v : BitVec 64) :
    (m.set64 r v).reg = Function.update m.reg r v := rfl

@[simp] lemma set64_flags (m : Machine) (r : Reg) (v : BitVec 64) :
    (m.set64 r v).flags = m.flags := rfl

@[simp] lemma set64_down (m : Machine) (r : Reg) (v : BitVec 64) :
    (m.set64 r v).down = m.down := rfl

@[simp] lemma set64_mem (m : Machine) (r : Reg) (v : BitVec 64) :
    (m.set64 r v).mem = m.mem := rfl

@[simp] lemma set32_flags (m : Machine) (r : Reg) (v : BitVec 32) :
    (m.set32 r v).flags = m.flags := rfl

@[simp] lemma set32_down (m : Machine) (r : Reg) (v : BitVec 32) :
    (m.set32 r v).down = m.down := rfl

@[simp] lemma set32_mem (m : Machine) (r : Reg) (v : BitVec 32) :
    (m.set32 r v).mem = m.mem := rfl

lemma set32_reg (m : Machine) (r : Reg) (v : BitVec 32) :
    (m.set32 r v).reg = Function.update m.reg r (v.setWidth 64) := rfl

@[simp] lemma set32_get32 (m : Machine) (r : Reg) (v : BitVec 32) :
    (m.set32 r v).get32 r = v := by
  rw [get32, set32_reg, Function.update_self]
  simp

@[simp] lemma set32_get32_of_ne (m : Machine) {r r' : Reg} (h : r' ≠ r) (v : BitVec 32) :
    (m.set32 r v).get32 r' = m.get32 r' := by
  rw [get32, set32_reg, Function.update_of_ne h, get32]

@[simp] lemma setFlags_get32 (m : Machine) (flags : Flags) (r : Reg) :
    (m.setFlags flags).get32 r = m.get32 r := rfl

@[simp] lemma setFlags_reg (m : Machine) (flags : Flags) :
    (m.setFlags flags).reg = m.reg := rfl

@[simp] lemma setFlags_flags (m : Machine) (flags : Flags) :
    (m.setFlags flags).flags = flags := rfl

@[simp] lemma setFlags_down (m : Machine) (flags : Flags) :
    (m.setFlags flags).down = m.down := rfl

@[simp] lemma setFlags_mem (m : Machine) (flags : Flags) :
    (m.setFlags flags).mem = m.mem := rfl

end Machine

inductive Operand
  | reg (r : Reg)
  | imm (v : BitVec 32)
  deriving DecidableEq, Repr

def Operand.value (m : Machine) : Operand → BitVec 32
  | .reg r => m.get32 r
  | .imm v => v

/-- The instructions that go on to the next one. -/
inductive Op
  | mov32 (dst : Reg) (src : Operand)
  | mov64 (dst src : Reg)
  | mov64i (dst : Reg) (imm : BitVec 64)
  | mov8 (dst : Reg) (imm : BitVec 8)
  | and32 (dst : Reg) (src : Operand)
  | or32 (dst : Reg) (src : Operand)
  | test32 (left right : Reg)
  | inc32 (dst : Reg)
  | dec32 (dst : Reg)
  /-- The address is a multiple of a register and a displacement. -/
  | lea32 (dst index : Reg) (scale disp : BitVec 64)
  | cmovne32 (dst src : Reg)
  deriving DecidableEq, Repr

/-- The flags of an instruction that works bit by bit. -/
def logicFlags (v : BitVec 32) : Flags := ⟨false, v == 0, v.msb, false⟩

namespace Op

def apply (m : Machine) : Op → Machine
  | .mov32 dst src => m.set32 dst (src.value m)
  | .mov64 dst src => m.set64 dst (m.reg src)
  | .mov64i dst imm => m.set64 dst imm
  | .mov8 dst imm => m.set8 dst imm
  | .and32 dst src =>
      let v := m.get32 dst &&& src.value m
      (m.set32 dst v).setFlags (logicFlags v)
  | .or32 dst src =>
      let v := m.get32 dst ||| src.value m
      (m.set32 dst v).setFlags (logicFlags v)
  | .test32 left right => m.setFlags (logicFlags (m.get32 left &&& m.get32 right))
  | .inc32 dst =>
      let v := m.get32 dst + 1
      (m.set32 dst v).setFlags ⟨m.flags.cf, v == 0, v.msb, v == BitVec.intMin 32⟩
  | .dec32 dst =>
      let v := m.get32 dst - 1
      (m.set32 dst v).setFlags ⟨m.flags.cf, v == 0, v.msb, v == BitVec.intMax 32⟩
  | .lea32 dst index scale disp => m.set32 dst ((m.reg index * scale + disp).setWidth 32)
  | .cmovne32 dst src => m.set32 dst (if m.flags.zf then m.get32 dst else m.get32 src)

def writes : Op → List Reg
  | .mov32 dst _ => [dst]
  | .mov64 dst _ => [dst]
  | .mov64i dst _ => [dst]
  | .mov8 dst _ => [dst]
  | .and32 dst _ => [dst]
  | .or32 dst _ => [dst]
  | .test32 _ _ => []
  | .inc32 dst => [dst]
  | .dec32 dst => [dst]
  | .lea32 dst _ _ _ => [dst]
  | .cmovne32 dst _ => [dst]

@[simp] lemma apply_mem (m : Machine) (o : Op) : (o.apply m).mem = m.mem := by
  cases o <;> rfl

@[simp] lemma apply_down (m : Machine) (o : Op) : (o.apply m).down = m.down := by
  cases o <;> rfl

lemma apply_reg (m : Machine) {o : Op} {r : Reg} (h : r ∉ o.writes) :
    (o.apply m).reg r = m.reg r := by
  cases o <;> first
    | rfl
    | exact Function.update_of_ne (by simpa [writes] using h) _ _

end Op

/-- The machine behind a block of such instructions. -/
def Machine.after (m : Machine) (ops : List Op) : Machine := ops.foldl Op.apply m

namespace Machine

@[simp] lemma after_cons (m : Machine) (o : Op) (ops : List Op) :
    m.after (o :: ops) = (o.apply m).after ops := rfl

@[simp] lemma after_nil (m : Machine) : m.after [] = m := rfl

@[simp] lemma after_mem (m : Machine) (ops : List Op) : (m.after ops).mem = m.mem := by
  induction ops generalizing m with
  | nil => rfl
  | cons o ops ih => rw [after_cons, ih, Op.apply_mem]

@[simp] lemma after_down (m : Machine) (ops : List Op) : (m.after ops).down = m.down := by
  induction ops generalizing m with
  | nil => rfl
  | cons o ops ih => rw [after_cons, ih, Op.apply_down]

lemma after_reg (m : Machine) {ops : List Op} {r : Reg} (h : r ∉ ops.flatMap Op.writes) :
    (m.after ops).reg r = m.reg r := by
  induction ops generalizing m with
  | nil => rfl
  | cons o ops ih =>
    rw [List.flatMap_cons, List.mem_append, not_or] at h
    rw [after_cons, ih _ h.2, Op.apply_reg m h.1]

/-- The memory and all registers but some are as they were. -/
structure Keeps (rs : List Reg) (m m' : Machine) : Prop where
  reg : ∀ r, r ∉ rs → m'.reg r = m.reg r
  mem : m'.mem = m.mem
  down : m'.down = m.down

lemma Keeps.trans {rs rs' : List Reg} {m m' m'' : Machine} (h : m.Keeps rs m')
    (h' : m'.Keeps rs' m'') : m.Keeps (rs ++ rs') m'' where
  reg r hr := by
    rw [List.mem_append, not_or] at hr
    rw [h'.reg r hr.2, h.reg r hr.1]
  mem := h'.mem.trans h.mem
  down := h'.down.trans h.down

lemma Keeps.mono {rs rs' : List Reg} {m m' : Machine} (h : m.Keeps rs m') (hrs : rs ⊆ rs') :
    m.Keeps rs' m' :=
  ⟨fun r hr => h.reg r fun hin => hr (hrs hin), h.mem, h.down⟩

lemma after_keeps (m : Machine) (ops : List Op) :
    m.Keeps (ops.flatMap Op.writes) (m.after ops) :=
  ⟨fun _ hr => m.after_reg hr, m.after_mem ops, m.after_down ops⟩

lemma load64_congr {m m' : Machine} (h : m'.mem = m.mem) (a : BitVec 64) :
    m'.load64 a = m.load64 a := by
  rw [load64, load64, h]

end Machine

inductive Instr (L : Type*)
  | op (o : Op)
  | label (l : L)
  | jge (l : L)
  | repStosq
  | ret
  deriving DecidableEq, Repr

/-- One round of `rep stosq`. -/
def Machine.stosq (m : Machine) : Machine :=
  ((m.store64 (m.reg .rdi) (m.reg .rax)).set64 .rdi
    (if m.down then m.reg .rdi - 8 else m.reg .rdi + 8)).set64 .rcx (m.reg .rcx - 1)

inductive Control
  | running (index : ℕ)
  | returned (address : BitVec 64)
  deriving DecidableEq, Repr

structure Config where
  machine : Machine
  control : Control

section Code

variable {L : Type*} [DecidableEq L]

def target (code : List (Instr L)) (l : L) : Option ℕ :=
  code.findIdx? fun i => decide (i = .label l)

/-- None behind the return, and where there is no instruction or no such label. -/
def step (code : List (Instr L)) (c : Config) : Option Config :=
  match c.control with
  | .returned _ => none
  | .running i => (code[i]?).bind fun instr =>
    match instr with
    | .op o => some ⟨o.apply c.machine, .running (i + 1)⟩
    | .label _ => some ⟨c.machine, .running (i + 1)⟩
    | .jge l =>
        if c.machine.flags.sf = c.machine.flags.of then
          (target code l).map fun j => ⟨c.machine, .running j⟩
        else some ⟨c.machine, .running (i + 1)⟩
    | .repStosq =>
        if c.machine.reg .rcx = 0 then some ⟨c.machine, .running (i + 1)⟩
        else some ⟨c.machine.stosq, .running i⟩
    | .ret =>
        some ⟨c.machine.set64 .rsp (c.machine.reg .rsp + 8),
          .returned (c.machine.load64 (c.machine.reg .rsp))⟩

def Reaches (code : List (Instr L)) : Config → Config → Prop :=
  Relation.ReflTransGen fun c c' => step code c = some c'

/-- The procedure runs to its end and goes to the address with this machine. -/
def Returns (code : List (Instr L)) (m : Machine) (address : BitVec 64) (m' : Machine) : Prop :=
  Reaches code ⟨m, .running 0⟩ ⟨m', .returned address⟩

variable {code : List (Instr L)}

lemma Reaches.step {c d e : Config} (h : X86.step code c = some d) (hd : Reaches code d e) :
    Reaches code c e :=
  .head h hd

lemma Reaches.label {i : ℕ} {l : L} (hi : code[i]? = some (.label l)) (m : Machine) :
    Reaches code ⟨m, .running i⟩ ⟨m, .running (i + 1)⟩ :=
  .single (by simp only [X86.step, hi, Option.bind_some])

lemma Reaches.jump {i j : ℕ} {l : L} (hi : code[i]? = some (.jge l)) (hj : target code l = some j)
    {m : Machine} (hm : m.flags.sf = m.flags.of) :
    Reaches code ⟨m, .running i⟩ ⟨m, .running j⟩ :=
  .single (by simp only [X86.step, hi, Option.bind_some, hm, if_true, hj, Option.map_some])

lemma Reaches.noJump {i : ℕ} {l : L} (hi : code[i]? = some (.jge l)) {m : Machine}
    (hm : m.flags.sf ≠ m.flags.of) :
    Reaches code ⟨m, .running i⟩ ⟨m, .running (i + 1)⟩ :=
  .single (by simp only [X86.step, hi, Option.bind_some, hm, if_false])

lemma Reaches.ret {i : ℕ} (hi : code[i]? = some .ret) (m : Machine) :
    Reaches code ⟨m, .running i⟩
      ⟨m.set64 .rsp (m.reg .rsp + 8), .returned (m.load64 (m.reg .rsp))⟩ :=
  .single (by simp only [X86.step, hi, Option.bind_some])

/-- A procedure that comes to its `ret` and has kept the stack goes back to its caller. -/
lemma Reaches.returns {m n : Machine} {i : ℕ} {rs : List Reg}
    (h : Reaches code ⟨m, .running 0⟩ ⟨n, .running i⟩) (hi : code[i]? = some .ret)
    (hn : m.Keeps rs n) (hrs : .rsp ∉ rs) :
    Returns code m (m.load64 (m.reg .rsp)) (n.set64 .rsp (m.reg .rsp + 8)) ∧
      m.Keeps (.rsp :: rs) (n.set64 .rsp (m.reg .rsp + 8)) := by
  constructor
  · have hret := Reaches.ret hi n
    rw [hn.reg .rsp hrs, Machine.load64_congr hn.mem] at hret
    exact h.trans hret
  · refine ⟨fun r hr => ?_, hn.mem, hn.down⟩
    rw [List.mem_cons, not_or] at hr
    rw [Machine.set64_reg, Function.update_of_ne hr.1, hn.reg r hr.2]

/-- The instructions from an index on are those of the block. -/
def BlockAt (code : List (Instr L)) (i : ℕ) (ops : List Op) : Prop :=
  ∀ k o, ops[k]? = some o → code[i + k]? = some (.op o)

instance (code : List (Instr L)) (i : ℕ) (ops : List Op) : Decidable (BlockAt code i ops) :=
  decidable_of_iff (∀ k : Fin ops.length, code[i + k]? = some (.op ops[k])) <| by
    constructor
    · intro h k o hk
      obtain ⟨hlt, rfl⟩ := List.getElem?_eq_some_iff.mp hk
      exact h ⟨k, hlt⟩
    · intro h k
      exact h k _ (List.getElem?_eq_getElem k.isLt)

/-- A block is run through. -/
lemma Reaches.block {ops : List Op} {i : ℕ} (h : BlockAt code i ops) (m : Machine) :
    Reaches code ⟨m, .running i⟩ ⟨m.after ops, .running (i + ops.length)⟩ := by
  induction ops generalizing i m with
  | nil => exact .refl
  | cons o ops ih =>
    have hfirst : code[i]? = some (.op o) := h 0 o rfl
    refine .head (b := ⟨o.apply m, .running (i + 1)⟩) ?_ ?_
    · simp only [X86.step, hfirst, Option.bind_some]
    · have hrest : BlockAt code (i + 1) ops := by
        intro k p hp
        rw [Nat.add_assoc, Nat.add_comm 1]
        exact h (k + 1) p hp
      have hreach := ih hrest (o.apply m)
      rwa [Nat.add_assoc, Nat.add_comm 1] at hreach

/-- What `rep stosq` makes of a machine where it goes to higher addresses: every byte of the
`rcx` quadwords from `rdi` on, also where these go round the end of the addresses. -/
def Machine.filled (m : Machine) : Machine :=
  { m with
    reg := Function.update (Function.update m.reg .rdi (m.reg .rdi + 8 * m.reg .rcx)) .rcx 0
    mem := fun a =>
      if (a - m.reg .rdi).toNat < 8 * (m.reg .rcx).toNat then
        Machine.byteOf (m.reg .rax) ((a - m.reg .rdi).toNat % 8)
      else m.mem a }

lemma filled_of_zero {m : Machine} (h : m.reg .rcx = 0) : m.filled = m := by
  apply Machine.ext
  · have hrdi : m.reg .rdi + 8 * m.reg .rcx = m.reg .rdi := by rw [h, mul_zero, add_zero]
    rw [Machine.filled, hrdi, Function.update_eq_self, ← h, Function.update_eq_self]
  · rfl
  · rfl
  · funext a
    simp [Machine.filled, h]

/-- The first quadword and the others, whose bytes are the same where they come round to it. -/
lemma filled_byte {a p c : BitVec 64} (hc : c ≠ 0) :
    ((a - (p + 8)).toNat < 8 * (c - 1).toNat ∨ (a - p).toNat < 8 ↔
        (a - p).toNat < 8 * c.toNat) ∧
      ((a - (p + 8)).toNat < 8 * (c - 1).toNat →
        (a - (p + 8)).toNat % 8 = (a - p).toNat % 8) := by
  have hc' : c.toNat = (c - 1).toNat + 1 := by bv_omega
  have hd : (a - (p + 8)).toNat = ((a - p).toNat + (2 ^ 64 - 8)) % 2 ^ 64 := by bv_omega
  have hlt := (a - p).isLt
  omega

/-- One round and the rounds behind it. -/
lemma filled_stosq {m : Machine} (hd : m.down = false) (h : m.reg .rcx ≠ 0) :
    m.stosq.filled = m.filled := by
  have hrdi : m.stosq.reg .rdi = m.reg .rdi + 8 := by simp [Machine.stosq, hd]
  have hrcx : m.stosq.reg .rcx = m.reg .rcx - 1 := by simp [Machine.stosq]
  have hother : ∀ r, r ≠ .rcx → r ≠ .rdi → m.stosq.reg r = m.reg r := by
    intro r hrcx hrdi
    simp [Machine.stosq, Machine.store64, hrcx, hrdi]
  apply Machine.ext
  · funext r
    rw [Machine.filled, Machine.filled, hrdi, hrcx]
    dsimp only
    rcases eq_or_ne r .rcx with rfl | hr
    · rw [Function.update_self, Function.update_self]
    rw [Function.update_of_ne hr, Function.update_of_ne hr]
    rcases eq_or_ne r .rdi with rfl | hr'
    · rw [Function.update_self, Function.update_self]
      ring
    · rw [Function.update_of_ne hr', Function.update_of_ne hr', hother r hr hr']
  · rfl
  · rfl
  · funext a
    obtain ⟨hrange, hbyte⟩ := filled_byte (a := a) (p := m.reg .rdi) h
    rw [Machine.filled, Machine.filled, hrdi, hrcx, hother .rax (by decide) (by decide)]
    dsimp only
    by_cases hrest : (a - (m.reg .rdi + 8)).toNat < 8 * (m.reg .rcx - 1).toNat
    · rw [if_pos hrest, if_pos (hrange.mp (.inl hrest)), hbyte hrest]
    · rw [if_neg hrest]
      simp only [Machine.stosq, Machine.store64, Machine.set64_mem]
      by_cases hfirst : (a - m.reg .rdi).toNat < 8
      · rw [if_pos hfirst, if_pos (hrange.mp (.inr hfirst)), Nat.mod_eq_of_lt hfirst]
      · rw [if_neg hfirst, if_neg (fun hin => (hrange.mpr hin).elim hrest hfirst)]

/-- `rep stosq` comes to its end. -/
lemma Reaches.repStosq {i : ℕ} (hi : code[i]? = some .repStosq) {m : Machine}
    (hd : m.down = false) :
    Reaches code ⟨m, .running i⟩ ⟨m.filled, .running (i + 1)⟩ := by
  induction hn : (m.reg .rcx).toNat generalizing m with
  | zero =>
    have hzero : m.reg .rcx = 0 := BitVec.eq_of_toNat_eq hn
    rw [filled_of_zero hzero]
    refine .step ?_ .refl
    simp only [X86.step, hi, Option.bind_some, hzero, if_true]
  | succ n ih =>
    have hne : m.reg .rcx ≠ 0 := by
      intro hzero
      rw [hzero] at hn
      cases hn
    have hcount : (m.stosq.reg .rcx).toNat = n := by
      simp only [Machine.stosq, Machine.set64_reg, Function.update_self]
      bv_omega
    have hrest := ih (m := m.stosq) hd hcount
    rw [filled_stosq hd hne] at hrest
    refine .step ?_ hrest
    simp only [X86.step, hi, Option.bind_some, hne, if_false]

end Code

end CppMisc.X86
