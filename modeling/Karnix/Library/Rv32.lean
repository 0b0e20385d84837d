import Karnix.Library.Bytes
import Mathlib.Logic.Function.Basic

/-!
# RV32 assembly

A fragment of the 32-bit RISC-V instruction set with its assembly language.  A program is the list
of its lines; labels are lines that do nothing, and a jump goes on behind its label.  Every access
to the memory is logged.

`Reaches` says that the program ends and what it ends with; its rules follow the lines one by one.
Loops have a rule with an invariant, and rows of word loads and stores have one rule each.
-/

namespace Karnix.Library.Rv32

universe u

abbrev Word := BitVec 32

/-! ## Section 1: Lines and programs -/

/-- The registers under their ABI names. -/
inductive Reg where
  | ra | sp | gp | tp
  | t0 | t1 | t2 | t3 | t4 | t5 | t6
  | s0 | s1 | s2 | s3 | s4 | s5 | s6 | s7 | s8 | s9 | s10 | s11
  | a0 | a1 | a2 | a3 | a4 | a5 | a6 | a7
  deriving DecidableEq

/-- The lines, pseudo-instructions among them.  Immediates are given sign-extended. -/
inductive Line (L : Type u) where
  | label (l : L)
  | mv (rd rs : Reg)
  | li (rd : Reg) (imm : Word)
  | add (rd rs₁ rs₂ : Reg)
  | sub (rd rs₁ rs₂ : Reg)
  | or (rd rs₁ rs₂ : Reg)
  | and (rd rs₁ rs₂ : Reg)
  | addi (rd rs : Reg) (imm : Word)
  | andi (rd rs : Reg) (imm : Word)
  | xori (rd rs : Reg) (imm : Word)
  | slli (rd rs : Reg) (shamt : ℕ)
  | srli (rd rs : Reg) (shamt : ℕ)
  /-- `lb rd, off(rs)` -/
  | lb (rd : Reg) (off : Word) (rs : Reg)
  /-- `lw rd, off(rs)` -/
  | lw (rd : Reg) (off : Word) (rs : Reg)
  /-- `sb rs₂, off(rs)` -/
  | sb (rs₂ : Reg) (off : Word) (rs : Reg)
  /-- `sw rs₂, off(rs)` -/
  | sw (rs₂ : Reg) (off : Word) (rs : Reg)
  | beq (rs₁ rs₂ : Reg) (l : L)
  | bne (rs₁ rs₂ : Reg) (l : L)
  | blt (rs₁ rs₂ : Reg) (l : L)
  | bltu (rs₁ rs₂ : Reg) (l : L)
  | bgeu (rs₁ rs₂ : Reg) (l : L)
  | bgtu (rs₁ rs₂ : Reg) (l : L)
  | beqz (rs : Reg) (l : L)
  | j (l : L)
  | ret

abbrev Code (L : Type u) := List (Line L)

/-! ## Section 2: Runs -/

/-- A memory access: its address and its number of bytes. -/
inductive Access where
  | load (addr width : ℕ)
  | store (addr width : ℕ)

structure Machine where
  reg : Reg → Word
  mem : Memory Byte
  /-- The accesses so far, the last one first. -/
  log : List Access

/-- What a line does: it leads to the next one, to a label, or to the end. -/
inductive Outcome (L : Type u) where
  | next (m : Machine)
  | jump (l : L) (m : Machine)
  | halt

namespace Machine

variable (m : Machine)

def set (r : Reg) (v : Word) : Machine := { m with reg := Function.update m.reg r v }

def access (x : Access) : Machine := { m with log := x :: m.log }

/-- The little-endian word at an address. -/
def loadWord (a : Word) : Word :=
  leWord [m.mem a.toNat, m.mem (a + 1).toNat, m.mem (a + 2).toNat, m.mem (a + 3).toNat]

def storeByte (a : Word) (v : Byte) : Machine := { m with mem := m.mem.store a.toNat [v] }

/-- The bytes of a word go to their addresses, the low one first. -/
def storeWord (a v : Word) : Machine :=
  (((m.storeByte a (v.setWidth 8)).storeByte (a + 1) ((v >>> 8).setWidth 8)).storeByte (a + 2)
    ((v >>> 16).setWidth 8)).storeByte (a + 3) ((v >>> 24).setWidth 8)

end Machine

variable {L : Type u}

/-- A branch to `l`, which may be taken. -/
def branch (m : Machine) (l : L) (taken : Bool) : Outcome L := if taken then .jump l m else .next m

/-- One line: what it does with the machine, and where it leads. -/
def exec (m : Machine) : Line L → Outcome L
  | .label _ => .next m
  | .mv rd rs => .next (m.set rd (m.reg rs))
  | .li rd imm => .next (m.set rd imm)
  | .add rd rs₁ rs₂ => .next (m.set rd (m.reg rs₁ + m.reg rs₂))
  | .sub rd rs₁ rs₂ => .next (m.set rd (m.reg rs₁ - m.reg rs₂))
  | .or rd rs₁ rs₂ => .next (m.set rd (m.reg rs₁ ||| m.reg rs₂))
  | .and rd rs₁ rs₂ => .next (m.set rd (m.reg rs₁ &&& m.reg rs₂))
  | .addi rd rs imm => .next (m.set rd (m.reg rs + imm))
  | .andi rd rs imm => .next (m.set rd (m.reg rs &&& imm))
  | .xori rd rs imm => .next (m.set rd (m.reg rs ^^^ imm))
  | .slli rd rs shamt => .next (m.set rd (m.reg rs <<< shamt))
  | .srli rd rs shamt => .next (m.set rd (m.reg rs >>> shamt))
  | .lb rd off rs =>
    let a := m.reg rs + off
    .next ((m.access (.load a.toNat 1)).set rd ((m.mem a.toNat).signExtend 32))
  | .lw rd off rs =>
    let a := m.reg rs + off
    .next ((m.access (.load a.toNat 4)).set rd (m.loadWord a))
  | .sb rs₂ off rs =>
    let a := m.reg rs + off
    .next ((m.access (.store a.toNat 1)).storeByte a ((m.reg rs₂).setWidth 8))
  | .sw rs₂ off rs =>
    let a := m.reg rs + off
    .next ((m.access (.store a.toNat 4)).storeWord a (m.reg rs₂))
  | .beq rs₁ rs₂ l => branch m l (m.reg rs₁ == m.reg rs₂)
  | .bne rs₁ rs₂ l => branch m l (m.reg rs₁ != m.reg rs₂)
  | .blt rs₁ rs₂ l => branch m l ((m.reg rs₁).slt (m.reg rs₂))
  | .bltu rs₁ rs₂ l => branch m l ((m.reg rs₁).ult (m.reg rs₂))
  | .bgeu rs₁ rs₂ l => branch m l (!(m.reg rs₁).ult (m.reg rs₂))
  | .bgtu rs₁ rs₂ l => branch m l ((m.reg rs₂).ult (m.reg rs₁))
  | .beqz rs l => branch m l (m.reg rs == 0)
  | .j l => .jump l m
  | .ret => .halt

variable [DecidableEq L]

/-- The lines behind a label. -/
def after (l : L) : Code L → Code L
  | [] => []
  | .label l' :: rest => if l = l' then rest else after l rest
  | _ :: rest => after l rest

/-- The machine a program `p` ends with, from the lines `rest` of it on. -/
def run (p : Code L) : ℕ → Code L → Machine → Option Machine
  | _, [], _ => none
  | 0, _ :: _, _ => none
  | fuel + 1, line :: rest, m =>
    match exec m line with
    | .next m' => run p fuel rest m'
    | .jump l m' => run p fuel (after l p) m'
    | .halt => some m

/-- The program `p` ends with `m'`. -/
def Halts (p : Code L) (m m' : Machine) : Prop := ∃ fuel, run p fuel p m = some m'

/-! ## Section 3: Reaching a state -/

/-- From the lines `rest` on, the program ends with a machine that satisfies `Q`. -/
def Reaches (p rest : Code L) (m : Machine) (Q : Machine → Prop) : Prop :=
  ∃ fuel m', run p fuel rest m = some m' ∧ Q m'

variable {p rest : Code L} {line : Line L} {m m' : Machine} {Q : Machine → Prop} {l : L}

theorem run_mono {fuel k : ℕ} (h : run p fuel rest m = some m') :
    run p (fuel + k) rest m = some m' := by
  induction fuel generalizing rest m with
  | zero => cases rest <;> simp [run] at h
  | succ fuel ih =>
    cases rest with
    | nil => simp [run] at h
    | cons line rest =>
      rw [Nat.succ_add]
      unfold run at h ⊢
      cases he : exec m line <;> rw [he] at h
      · exact ih h
      · exact ih h
      · exact h

/-- A program ends in one way. -/
theorem Halts.unique {m₁ m₂ : Machine} (h₁ : Halts p m m₁) (h₂ : Halts p m m₂) : m₁ = m₂ := by
  obtain ⟨f₁, h₁⟩ := h₁
  obtain ⟨f₂, h₂⟩ := h₂
  apply Option.some.inj
  rw [← run_mono (k := f₂) h₁, Nat.add_comm, run_mono h₂]

theorem Reaches.next (h : exec m line = .next m') (hr : Reaches p rest m' Q) :
    Reaches p (line :: rest) m Q := by
  obtain ⟨fuel, m'', hrun, hQ⟩ := hr
  exact ⟨fuel + 1, m'', by simp only [run, h, hrun], hQ⟩

theorem Reaches.jump (h : exec m line = .jump l m') (hr : Reaches p (after l p) m' Q) :
    Reaches p (line :: rest) m Q := by
  obtain ⟨fuel, m'', hrun, hQ⟩ := hr
  exact ⟨fuel + 1, m'', by simp only [run, h, hrun], hQ⟩

theorem Reaches.halt (h : Q m) : Reaches p (.ret :: rest) m Q :=
  ⟨1, m, rfl, h⟩

/-- A branch goes to its label or on. -/
theorem Reaches.branch {c : Bool} (h : exec m line = branch m l c)
    (htaken : c = true → Reaches p (after l p) m Q) (hnot : c = false → Reaches p rest m Q) :
    Reaches p (line :: rest) m Q := by
  cases c with
  | true => exact Reaches.jump h (htaken rfl)
  | false => exact Reaches.next h (hnot rfl)

theorem Reaches.mono {Q' : Machine → Prop} (h : Reaches p rest m Q) (hQ : ∀ m', Q m' → Q' m') :
    Reaches p rest m Q' := by
  obtain ⟨fuel, m', hrun, hm'⟩ := h
  exact ⟨fuel, m', hrun, hQ m' hm'⟩

/-- **Run lemma.** A loop whose test is at its end, with an invariant that counts the rounds. -/
theorem Reaches.doWhile {I : ℕ → Machine → Prop} {n k : ℕ} {loop : Code L} (rest : Code L)
    (hround : ∀ k m, k < n → I k m →
      (∀ m', I (k + 1) m' → k + 1 < n → Reaches p loop m' Q) →
      (∀ m', I (k + 1) m' → k + 1 = n → Reaches p rest m' Q) → Reaches p loop m Q)
    (hend : ∀ m', I n m' → Reaches p rest m' Q) (hk : k < n) (hI : I k m) :
    Reaches p loop m Q := by
  induction hd : n - k generalizing k m with
  | zero => exact absurd hd (by omega)
  | succ d ih =>
    apply hround k m hk hI
    · intro m' hI' hlt
      exact ih hlt hI' (by omega)
    · rintro m' hI' rfl
      exact hend m' hI'

/-! ## Section 4: Registers and words -/

namespace Machine

@[simp] theorem set_reg (m : Machine) (r r' : Reg) (v : Word) :
    (m.set r v).reg r' = if r' = r then v else m.reg r' := Function.update_apply ..

@[simp] theorem set_mem (m : Machine) (r : Reg) (v : Word) : (m.set r v).mem = m.mem := rfl

@[simp] theorem set_log (m : Machine) (r : Reg) (v : Word) : (m.set r v).log = m.log := rfl

@[simp] theorem access_reg (m : Machine) (x : Access) : (m.access x).reg = m.reg := rfl

@[simp] theorem access_mem (m : Machine) (x : Access) : (m.access x).mem = m.mem := rfl

@[simp] theorem access_log (m : Machine) (x : Access) : (m.access x).log = x :: m.log := rfl

@[simp] theorem storeByte_reg (m : Machine) (a : Word) (v : Byte) :
    (m.storeByte a v).reg = m.reg := rfl

@[simp] theorem storeByte_log (m : Machine) (a : Word) (v : Byte) :
    (m.storeByte a v).log = m.log := rfl

@[simp] theorem storeByte_mem (m : Machine) (a : Word) (v : Byte) :
    (m.storeByte a v).mem = m.mem.store a.toNat [v] := rfl

@[simp] theorem storeWord_reg (m : Machine) (a v : Word) : (m.storeWord a v).reg = m.reg := rfl

@[simp] theorem storeWord_log (m : Machine) (a v : Word) : (m.storeWord a v).log = m.log := rfl

end Machine

/-- The word with a given value. -/
abbrev word (n : ℕ) : Word := BitVec.ofNat 32 n

theorem toNat_word {n : ℕ} (h : n < 2 ^ 32) : (word n).toNat = n := by
  rw [BitVec.toNat_ofNat, Nat.mod_eq_of_lt h]

theorem word_toNat (w : Word) : word w.toNat = w := by
  apply BitVec.eq_of_toNat_eq
  rw [BitVec.toNat_ofNat, Nat.mod_eq_of_lt w.isLt]

theorem word_add (a b : ℕ) : word a + word b = word (a + b) := (BitVec.ofNat_add a b).symm

theorem word_sub {a b : ℕ} (h : b ≤ a) : word a - word b = word (a - b) := by
  rw [BitVec.sub_eq_iff_eq_add, word_add, Nat.sub_add_cancel h]

theorem word_add_neg {a b : ℕ} (h : b ≤ a) : word a + -word b = word (a - b) := by
  rw [← BitVec.sub_eq_add_neg, word_sub h]

theorem word_add_neg_of_le {a b : ℕ} (h : a ≤ b) : word a + -word b = -word (b - a) := by
  rw [← word_sub h, BitVec.neg_sub, BitVec.add_comm]

theorem word_ult {a b : ℕ} (ha : a < 2 ^ 32) (hb : b < 2 ^ 32) :
    (word a).ult (word b) = decide (a < b) := by
  rw [BitVec.ult, toNat_word ha, toNat_word hb]

theorem word_inj {a b : ℕ} (ha : a < 2 ^ 32) (hb : b < 2 ^ 32) : word a = word b ↔ a = b := by
  rw [← BitVec.toNat_inj, toNat_word ha, toNat_word hb]

/-- The byte that a signed load has brought. -/
theorem setWidth_signExtend (b : Byte) : (b.signExtend 32 : Word).setWidth 8 = b := by
  apply BitVec.eq_of_getLsbD_eq
  intro i hi
  have h32 : i < 32 := Nat.lt_trans hi (by decide)
  rw [BitVec.getLsbD_setWidth, BitVec.getLsbD_signExtend, decide_eq_true hi, decide_eq_true h32,
    if_pos hi, Bool.true_and, Bool.true_and]

/-- In one half of the addresses a signed comparison does what an unsigned one does. -/
theorem word_slt {a b : ℕ} (ha : 2 ^ 31 ≤ a) (ha' : a < 2 ^ 32) (hb : 2 ^ 31 ≤ b)
    (hb' : b < 2 ^ 32) : (word a).slt (word b) = decide (a < b) := by
  rw [BitVec.slt_eq_ult, BitVec.msb_eq_decide, BitVec.msb_eq_decide, toNat_word ha', toNat_word hb',
    decide_eq_true ha, decide_eq_true hb, word_ult ha' hb']
  simp

/-- The low bits of a word. -/
theorem word_and_mask (n k : ℕ) (hk : k < 32) : word n &&& word (2 ^ k - 1) = word (n % 2 ^ k) := by
  apply BitVec.eq_of_toNat_eq
  have hle : 2 ^ k < 2 ^ 32 := Nat.pow_lt_pow_right (by decide) hk
  rw [BitVec.toNat_and, toNat_word (show 2 ^ k - 1 < 2 ^ 32 by omega),
    Nat.and_two_pow_sub_one_eq_mod,
    toNat_word (Nat.lt_trans (Nat.mod_lt n (Nat.two_pow_pos k)) hle), BitVec.toNat_ofNat,
    Nat.mod_mod_of_dvd n (Nat.pow_dvd_pow 2 hk.le)]

namespace Machine

variable {a : ℕ}

theorem loadWord_word (m : Machine) (h : a + 4 ≤ 2 ^ 32) :
    m.loadWord (word a) = leWord (m.mem.load a 4) := by
  have h1 : a + 1 < 2 ^ 32 := by omega
  have h2 : a + 2 < 2 ^ 32 := by omega
  have h3 : a + 3 < 2 ^ 32 := by omega
  rw [loadWord, show (1 : Word) = word 1 from rfl, show (2 : Word) = word 2 from rfl,
    show (3 : Word) = word 3 from rfl, word_add, word_add, word_add, toNat_word h1, toNat_word h2,
    toNat_word h3, toNat_word (by omega)]
  rfl

theorem storeWord_word (m : Machine) (v : Word) (h : a + 4 ≤ 2 ^ 32) :
    (m.storeWord (word a) v).mem = m.mem.store a (leBytes32 v) := by
  have h1 : a + 1 < 2 ^ 32 := by omega
  have h2 : a + 2 < 2 ^ 32 := by omega
  have h3 : a + 3 < 2 ^ 32 := by omega
  rw [storeWord, show (1 : Word) = word 1 from rfl, show (2 : Word) = word 2 from rfl,
    show (3 : Word) = word 3 from rfl, word_add, word_add, word_add]
  simp only [storeByte_mem]
  rw [toNat_word h1, toNat_word h2, toNat_word h3, toNat_word (by omega)]
  have hbytes : leBytes32 v =
      (([v.setWidth 8] ++ [(v >>> 8).setWidth 8]) ++ [(v >>> 16).setWidth 8]) ++
        [(v >>> 24).setWidth 8] := rfl
  rw [hbytes, Memory.store_append, Memory.store_append, Memory.store_append]
  rfl

/-- The bytes of a row of registers. -/
def bytes (m : Machine) (rs : List Reg) : List Byte := rs.flatMap fun r => leBytes32 (m.reg r)

theorem length_bytes (m : Machine) (rs : List Reg) : (m.bytes rs).length = 4 * rs.length := by
  induction rs with
  | nil => rfl
  | cons r rs ih =>
    rw [bytes, List.flatMap_cons, List.length_append, length_leBytes32, ← bytes, ih,
      List.length_cons, Nat.mul_succ, Nat.add_comm]

end Machine

/-! ## Section 5: Rows of word accesses -/

/-- Words from `o(base)` on go to the registers of a row. -/
def loads (base : Reg) (o : ℕ) : List Reg → Code L
  | [] => []
  | r :: rs => .lw r (word o) base :: loads base (o + 4) rs

/-- The registers of a row go to the words from `o(base)` on. -/
def stores (base : Reg) (o : ℕ) : List Reg → Code L
  | [] => []
  | r :: rs => .sw r (word o) base :: stores base (o + 4) rs

theorem Reaches.loads {base : Reg} {a o : ℕ} {rs : List Reg} (hbase : m.reg base = word a)
    (hfit : a + o + 4 * rs.length ≤ 2 ^ 32) (hnotMem : base ∉ rs) (hnodup : rs.Nodup)
    (hr : ∀ m', m'.mem = m.mem → (∀ r, r ∉ rs → m'.reg r = m.reg r) →
      m'.bytes rs = m.mem.load (a + o) (4 * rs.length) →
      (∀ x, x ∈ m'.log → x ∈ m.log ∨ ∃ i, i < rs.length ∧ x = .load (a + o + 4 * i) 4) →
      Reaches p rest m' Q) :
    Reaches p (Rv32.loads base o rs ++ rest) m Q := by
  induction rs generalizing m o with
  | nil => exact hr m rfl (fun _ _ => rfl) rfl fun x hx => .inl hx
  | cons r rs ih =>
    rw [List.length_cons] at hfit
    rw [List.mem_cons, not_or] at hnotMem
    rw [List.nodup_cons] at hnodup
    have haddr : m.reg base + word o = word (a + o) := by rw [hbase, word_add]
    have hvalue : m.loadWord (m.reg base + word o) = leWord (m.mem.load (a + o) 4) := by
      rw [haddr, Machine.loadWord_word m (by omega)]
    apply Reaches.next rfl
    apply ih _ (by omega) hnotMem.2 hnodup.2
    · intro m' hmem hreg hbytes hlog
      apply hr m' hmem
      · intro r' hr'
        rw [List.mem_cons, not_or] at hr'
        rw [hreg r' hr'.2, Machine.set_reg, if_neg hr'.1]
        rfl
      · -- the first register keeps its word, since the row has it only once
        have hfirst : m'.reg r = leWord (m.mem.load (a + o) 4) := by
          rw [hreg r hnodup.1, Machine.set_reg, if_pos rfl, hvalue]
        have hrest : m'.bytes rs = m.mem.load (a + o + 4) (4 * rs.length) := hbytes
        have hlen : (m.mem.load (a + o) 4).length ≤ 4 := (Memory.length_load ..).le
        rw [Machine.bytes, List.flatMap_cons, ← Machine.bytes, hfirst, hrest, leBytes32_leWord hlen,
          Memory.length_load, Nat.sub_self, List.replicate_zero, List.append_nil,
          ← Memory.load_add, List.length_cons, Nat.mul_add, Nat.add_comm (4 * rs.length)]
      · intro x hx
        rcases hlog x hx with hx | ⟨i, hi, rfl⟩
        · rcases List.mem_cons.mp hx with rfl | hx
          · refine .inr ⟨0, Nat.succ_pos _, ?_⟩
            rw [haddr, toNat_word (by omega)]
            rfl
          · exact .inl hx
        · refine .inr ⟨i + 1, Nat.succ_lt_succ hi, ?_⟩
          congr 1
          omega
    · rw [Machine.set_reg, if_neg hnotMem.1]
      exact hbase

theorem Reaches.stores {base : Reg} {a o : ℕ} {rs : List Reg} (hbase : m.reg base = word a)
    (hfit : a + o + 4 * rs.length ≤ 2 ^ 32)
    (hr : ∀ m', m'.reg = m.reg → m'.mem = m.mem.store (a + o) (m.bytes rs) →
      (∀ x, x ∈ m'.log → x ∈ m.log ∨ ∃ i, i < rs.length ∧ x = .store (a + o + 4 * i) 4) →
      Reaches p rest m' Q) :
    Reaches p (Rv32.stores base o rs ++ rest) m Q := by
  induction rs generalizing m o with
  | nil => exact hr m rfl (Memory.store_nil ..).symm fun x hx => .inl hx
  | cons r rs ih =>
    rw [List.length_cons] at hfit
    have haddr : m.reg base + word o = word (a + o) := by rw [hbase, word_add]
    apply Reaches.next rfl
    refine ih (show _ = word a from hbase) (by omega) ?_
    intro m' hreg hmem hlog
    apply hr m' hreg
    · rw [haddr, Machine.storeWord_word _ _ (by omega)] at hmem
      have hbytes : m.bytes (r :: rs) = leBytes32 (m.reg r) ++ m.bytes rs := rfl
      rw [hmem, hbytes, Memory.store_append]
      rfl
    · intro x hx
      rcases hlog x hx with hx | ⟨i, hi, rfl⟩
      · rcases List.mem_cons.mp hx with rfl | hx
        · refine .inr ⟨0, Nat.succ_pos _, ?_⟩
          rw [haddr, toNat_word (by omega)]
          rfl
        · exact .inl hx
      · refine .inr ⟨i + 1, Nat.succ_lt_succ hi, ?_⟩
        congr 1
        omega

/-! ## Section 6: Copies through registers -/

/-- A row of words from `o(src)` on goes to `o(dst)`. -/
theorem Reaches.copyWords {dst src : Reg} {d s o : ℕ} (rs : List Reg) (hdst : m.reg dst = word d)
    (hsrc : m.reg src = word s) (hd : d + o + 4 * rs.length ≤ 2 ^ 32)
    (hs : s + o + 4 * rs.length ≤ 2 ^ 32) (hdst' : dst ∉ rs) (hsrc' : src ∉ rs) (hnodup : rs.Nodup)
    (hr : ∀ m', m'.mem = m.mem.store (d + o) (m.mem.load (s + o) (4 * rs.length)) →
      (∀ r, r ∉ rs → m'.reg r = m.reg r) →
      (∀ x, x ∈ m'.log → x ∈ m.log ∨ ∃ i, i < rs.length ∧
        (x = .load (s + o + 4 * i) 4 ∨ x = .store (d + o + 4 * i) 4)) →
      Reaches p rest m' Q) :
    Reaches p (Rv32.loads src o rs ++ (Rv32.stores dst o rs ++ rest)) m Q := by
  apply Reaches.loads hsrc hs hsrc' hnodup
  intro m₁ hmem₁ hreg₁ hbytes₁ hlog₁
  apply Reaches.stores ((hreg₁ dst hdst').trans hdst) hd
  intro m₂ hreg₂ hmem₂ hlog₂
  apply hr m₂
  · rw [hmem₂, hmem₁, hbytes₁]
  · intro r hr'
    rw [hreg₂, hreg₁ r hr']
  · intro x hx
    rcases hlog₂ x hx with hx | ⟨i, hi, rfl⟩
    · rcases hlog₁ x hx with hx | ⟨i, hi, rfl⟩
      · exact .inl hx
      · exact .inr ⟨i, hi, .inl rfl⟩
    · exact .inr ⟨i, hi, .inr rfl⟩

/-- One byte, through the register `t`. -/
theorem Reaches.copyByte {t dst src : Reg} {d s : ℕ} (hdst : m.reg dst = word d)
    (hsrc : m.reg src = word s) (hd : d < 2 ^ 32) (hs : s < 2 ^ 32) (ht : dst ≠ t)
    (hr : ∀ m', m'.mem = m.mem.store d [m.mem s] → (∀ r, r ≠ t → m'.reg r = m.reg r) →
      (∀ x, x ∈ m'.log → x ∈ m.log ∨ x = .load s 1 ∨ x = .store d 1) → Reaches p rest m' Q) :
    Reaches p (.lb t 0 src :: .sb t 0 dst :: rest) m Q := by
  have hs' : (m.reg src + 0).toNat = s := by
    rw [hsrc, show (0 : Word) = word 0 from rfl, word_add, Nat.add_zero, toNat_word hs]
  have hd' : (m.reg dst + 0).toNat = d := by
    rw [hdst, show (0 : Word) = word 0 from rfl, word_add, Nat.add_zero, toNat_word hd]
  apply Reaches.next rfl
  apply Reaches.next rfl
  simp only [Machine.set_reg, if_neg ht, if_true, Machine.access_reg, hs', hd', setWidth_signExtend]
  apply hr
  · rw [Machine.storeByte_mem, hd']
    rfl
  · intro r hr'
    exact if_neg hr' |> (Machine.set_reg _ t r _).trans
  · intro x hx
    rcases List.mem_cons.mp hx with rfl | hx
    · exact .inr (.inr rfl)
    · rcases List.mem_cons.mp hx with rfl | hx
      · exact .inr (.inl rfl)
      · exact .inl hx

end Karnix.Library.Rv32
