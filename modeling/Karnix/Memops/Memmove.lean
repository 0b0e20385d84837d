import Karnix.Memops.Copying

/-!
# memmove

The way up copies bytes to the first word, then words, then bytes; the way down does the same from
the end.  Between buffers that are aligned differently there are only bytes.
-/

namespace Karnix.Memops

open Karnix.Library Karnix.Library.Rv32
open Reg

variable {Q : Machine → Prop} {m m₀ : Machine} {mem : Memory Byte} {dst src n k : ℕ}

/-! ## Section 1: What both ways have in common -/

/-- What `memmove` keeps for its caller: `s1` is in `t1`. -/
structure Kept (m₀ m : Machine) : Prop where
  t2 : m.reg t2 = m₀.reg a0
  t1 : m.reg t1 = m₀.reg s1
  s0 : m.reg s0 = m₀.reg s0

theorem Kept.keeps {m' : Machine} {changed : List Reg} (h : Kept m₀ m) (hkeeps : Keeps changed m m')
    (ht2 : Reg.t2 ∉ changed) (ht1 : Reg.t1 ∉ changed) (hs0 : Reg.s0 ∉ changed) : Kept m₀ m' :=
  ⟨(hkeeps _ ht2).trans h.t2, (hkeeps _ ht1).trans h.t1, (hkeeps _ hs0).trans h.s0⟩

theorem memmove_finish (hmem : m.mem = mem.store dst (mem.load src n)) (hkept : Kept m₀ m)
    (hlog : ∀ x ∈ m.log, Fits dst src n x) :
    Reaches memmove (after .finish memmove) m
      (Done m₀ (mem.store dst (mem.load src n)) (Fits dst src n)) := by
  apply Reaches.next rfl
  apply Reaches.next rfl
  exact Reaches.halt ⟨hmem, hkept.t2, hkept.s0, hkept.t1, hlog⟩

/-- `addi a4, s1, -1; xori a4, a4, -1; and a4, a2, a4` rounds down to whole words. -/
theorem word_and_not_align (x : ℕ) : word x &&& ((4 + -1) ^^^ -1 : Word) = word (4 * (x / 4)) := by
  have hmask : ((4 + -1) ^^^ -1 : Word) = ~~~ word 3 := by decide
  have hclear : word x &&& ~~~ word 3 = (word x >>> 2) <<< 2 := by
    apply BitVec.eq_of_getLsbD_eq
    intro i hi
    have h3 : (word 3).getLsbD i = decide (i < 2) := by
      rw [show word 3 = BitVec.ofNat 32 (2 ^ 2 - 1) from rfl, BitVec.getLsbD_ofNat,
        Nat.testBit_two_pow_sub_one]
      simp [hi]
    rw [BitVec.getLsbD_and, BitVec.getLsbD_not, h3, BitVec.getLsbD_shiftLeft,
      BitVec.getLsbD_ushiftRight]
    rcases Nat.lt_or_ge i 2 with h | h
    · simp [h]
    · simp [hi, Nat.not_lt.mpr h, Nat.add_sub_cancel' h]
  rw [hmask, hclear]
  apply BitVec.eq_of_toNat_eq
  rw [BitVec.toNat_shiftLeft, BitVec.toNat_ushiftRight, BitVec.toNat_ofNat, BitVec.toNat_ofNat,
    Nat.shiftLeft_eq, Nat.shiftRight_eq_div_pow]
  omega

/-! ## Section 2: Upwards -/

/-- Where the end of a range wraps, source and destination are the same. -/
theorem Copied.whole (hs : InSpace dst src n) (hle : dst ≤ src) {stop : ℕ}
    (h : Copied mem dst src n stop m) (hstop : stop = n ∨ dst + n = 2 ^ 32) :
    m.mem = mem.store dst (mem.load src n) := by
  rw [h.mem]
  rcases hstop with rfl | hwrap
  · rfl
  · have := hs.toSrc
    obtain rfl : dst = src := by omega
    rw [Memory.store_load_self, Memory.store_load_self]

theorem stopAt_cases : stopAt dst n k = n ∨ dst + n = 2 ^ 32 := by
  rw [stopAt]
  split_ifs with hw
  · exact .inr hw.1
  · exact .inl rfl

/-- The bytes, if there are any. -/
theorem memmove_bytes (hs : InSpace dst src n) (hle : dst ≤ src) (h : Copied mem dst src n k m)
    (hk : k ≤ n) (ha2 : m.reg a2 = word (n - k)) (hkept : Kept m₀ m) :
    Reaches memmove (after .bytes memmove) m
      (Done m₀ (mem.store dst (mem.load src n)) (Fits dst src n)) := by
  have hn := hs.size
  have hzero : (m.reg a2 == 0) = decide (k = n) := by
    rw [ha2, beq_eq_decide, show (0 : Word) = word 0 from rfl]
    apply decide_eq_decide.mpr
    rw [word_inj (by omega) (by decide)]
    omega
  apply Reaches.next rfl
  apply Reaches.branch rfl
  · intro hz
    obtain rfl : k = n := of_decide_eq_true (hzero.symm.trans hz)
    exact memmove_finish h.mem hkept h.accesses
  · intro hpos
    have hpos' : ¬ k = n := of_decide_eq_false (hzero.symm.trans hpos)
    apply Reaches.next rfl
    apply Reaches.next rfl
    have hstop : k < stopAt dst n k := lt_stopAt (by omega)
    have hcopied : Copied mem dst src n k (m.set a2 (m.reg a2 + m.reg a0)) :=
      ⟨h.mem, h.toDst, h.toSrc, h.accesses⟩
    have hkept₁ : Kept m₀ (m.set a2 (m.reg a2 + m.reg a0)) := ⟨hkept.t2, hkept.t1, hkept.s0⟩
    apply hcopied.bytes (l := MemmoveLabel.byte0) (t := a3) hs (.inl hle) (by decide) rfl hstop
      stopAt_le
    · intro m' i hki hi ha0 hkeeps
      have hlim : m'.reg a2 = word (dst + n) := by
        rw [hkeeps a2 (by decide), Machine.set_reg, if_pos rfl, ha2, h.toDst, word_add]
        congr 1
        omega
      show branch m' _ _ = _
      rw [ha0, hlim, tail_test hs.toDst hki hi]
    · intro m' hcopied' hkeeps
      have hkept' := hkept₁.keeps hkeeps (by decide) (by decide) (by decide)
      apply Reaches.next rfl
      exact memmove_finish (hcopied'.whole hs hle stopAt_cases) hkept' hcopied'.accesses

/-- The words and the tail.  The loop over words stops after the first if the end of the destination
wraps; then there is nothing left to copy. -/
theorem memmove_word0 (hs : InSpace dst src n) (hle : dst ≤ src) (hd4 : 4 ∣ dst + k)
    (hs4 : 4 ∣ src + k) (h : Copied mem dst src n k m) (hk : k + 4 ≤ n)
    (ha4 : m.reg a4 = word (dst + k + 4 * ((n - k) / 4))) (ha2 : m.reg a2 = word ((n - k) % 4))
    (h4 : m.reg s1 = word 4) (hkept : Kept m₀ m) :
    Reaches memmove (after .word0 memmove) m
      (Done m₀ (mem.store dst (mem.load src n)) (Fits dst src n)) := by
  have hd := hs.toDst
  rcases Nat.lt_or_ge (dst + k + 4 * ((n - k) / 4)) (2 ^ 32) with hlt | hwrap
  · refine h.words ((n - k) / 4) hs (.inl hle) h4 hd4 hs4 rfl (by omega) (by omega) ?_ ?_
    · intro m' i hi ha0 hkeeps
      show branch m' _ _ = _
      rw [ha0, hkeeps a4 (by decide), ha4, word_ult (by omega) hlt]
      exact congrArg _ (decide_eq_decide.mpr (by omega))
    · intro m' hcopied hkeeps
      apply Reaches.next rfl
      apply memmove_bytes hs hle hcopied (by omega)
      · rw [hkeeps a2 (by decide), ha2]
        congr 1
        omega
      · exact hkept.keeps hkeeps (by decide) (by decide) (by decide)
  · have hend : dst + n = 2 ^ 32 := by omega
    refine h.words 1 hs (.inl hle) h4 hd4 hs4 rfl (by omega) (by omega) ?_ ?_
    · intro m' i hi ha0 hkeeps
      have hzero : dst + k + 4 * ((n - k) / 4) = 2 ^ 32 := by omega
      have hlast : decide (i + 1 < 1) = false := decide_eq_false (by omega)
      show branch m' _ _ = _
      rw [hkeeps a4 (by decide), ha4, hzero, hlast]
      exact congrArg _ (decide_eq_false (Nat.not_lt_zero _))
    · intro m' hcopied hkeeps
      have hkept' := hkept.keeps hkeeps (by decide) (by decide) (by decide)
      have hzero : (m'.reg a2 == 0) = true := by
        rw [hkeeps a2 (by decide), ha2, show (n - k) % 4 = 0 by omega]
        rfl
      apply Reaches.next rfl
      apply Reaches.next rfl
      apply Reaches.branch rfl
      · intro _
        exact memmove_finish (hcopied.whole hs hle (.inr hend)) hkept' hcopied.accesses
      · intro hne
        exact absurd (hzero.symm.trans hne) Bool.true_eq_false.mp

/-- From the second label `1` of the way up on. -/
theorem memmove_aligned1 (hs : InSpace dst src n) (hle : dst ≤ src) (hd4 : 4 ∣ dst + k)
    (hs4 : 4 ∣ src + k) (h : Copied mem dst src n k m) (hk : k + 4 ≤ n)
    (ha2 : m.reg a2 = word (n - k)) (h4 : m.reg s1 = word 4) (hkept : Kept m₀ m) :
    Reaches memmove (after .aligned1 memmove) m
      (Done m₀ (mem.store dst (mem.load src n)) (Fits dst src n)) := by
  have hmask : m.reg a2 &&& ((m.reg s1 + -1) ^^^ -1) = word (4 * ((n - k) / 4)) := by
    rw [ha2, h4]
    exact word_and_not_align (n - k)
  apply Reaches.next rfl
  apply Reaches.next rfl
  apply Reaches.next rfl
  apply Reaches.next rfl
  apply Reaches.next rfl
  apply Reaches.next rfl
  apply Reaches.next rfl
  have hwidth : (m.reg s1 != 4) = false := by
    rw [h4]
    rfl
  apply Reaches.branch rfl
  · intro hne
    exact absurd (hwidth.symm.trans hne) Bool.false_ne_true
  intro _
  apply Reaches.next rfl
  refine memmove_word0 hs hle hd4 hs4 ?_ hk ?_ ?_ ?_ ?_
  · exact ⟨h.mem, h.toDst, h.toSrc, h.accesses⟩
  · show (m.reg a2 &&& ((m.reg s1 + -1) ^^^ -1)) + m.reg a0 = _
    rw [hmask, h.toDst, word_add, Nat.add_comm]
  · show m.reg a2 - (m.reg a2 &&& ((m.reg s1 + -1) ^^^ -1)) = _
    rw [hmask, ha2, word_sub (by omega)]
    congr 1
    omega
  · exact h4
  · exact ⟨hkept.t2, hkept.t1, hkept.s0⟩

/-- The head of the way up: bytes up to the first word. -/
theorem memmove_head (hs : InSpace dst src n) (hle : dst ≤ src) (halign : dst % 4 = src % 4)
    (h8 : 8 ≤ n) (h : Copied mem dst src n 0 m) (ha2 : m.reg a2 = word n)
    (ha4 : m.reg a4 = word (src % 4)) (h4 : m.reg s1 = word 4) (hkept : Kept m₀ m) :
    Reaches memmove (.sub a4 s1 a4 :: .sub a2 a2 a4 :: .add a4 a4 a0 :: .label .head0 ::
      after .head0 memmove) m (Done m₀ (mem.store dst (mem.load src n)) (Fits dst src n)) := by
  have hd := hs.toDst
  have hhead : m.reg s1 - m.reg a4 = word (4 - src % 4) := by
    rw [h4, ha4, word_sub (by omega)]
  apply Reaches.next rfl
  apply Reaches.next rfl
  apply Reaches.next rfl
  apply Reaches.next rfl
  have hpos : 0 < 4 - src % 4 := by omega
  refine Copied.bytes (l := MemmoveLabel.head0) (t := a3) (k := 0) hs (.inl hle) (by decide) rfl
    ⟨h.mem, h.toDst, h.toSrc, h.accesses⟩ hpos (by omega) ?_ ?_
  · intro m' i _ hi ha0 hkeeps
    have hlim : m'.reg a4 = word (dst + (4 - src % 4)) := by
      rw [hkeeps a4 (by decide)]
      show m.reg s1 - m.reg a4 + m.reg a0 = _
      rw [hhead, h.toDst, word_add, Nat.add_comm]
      rfl
    show branch m' _ _ = _
    rw [ha0, hlim, word_ult (by omega) (by omega)]
    exact congrArg _ (decide_eq_decide.mpr (by omega))
  · intro m' hcopied hkeeps
    apply Reaches.next rfl
    apply memmove_aligned1 hs hle (by omega) (by omega) hcopied (by omega)
    · rw [hkeeps a2 (by decide)]
      show m.reg a2 - (m.reg s1 - m.reg a4) = _
      rw [hhead, ha2, word_sub (by omega)]
    · rw [hkeeps s1 (by decide)]
      exact h4
    · exact ⟨(hkeeps t2 (by decide)).trans hkept.t2, (hkeeps t1 (by decide)).trans hkept.t1,
        (hkeeps s0 (by decide)).trans hkept.s0⟩

/-! ## Section 3: Downwards -/

theorem memmove_finishDown (h : CopiedDown mem dst src n 0 m) (hkept : Kept m₀ m) :
    Reaches memmove (after .finish memmove) m
      (Done m₀ (mem.store dst (mem.load src n)) (Fits dst src n)) :=
  memmove_finish h.mem hkept h.accesses

/-- The bytes in front of the words, if there are any. -/
theorem memmove_bytesR (hs : InSpace dst src n) (hb : src ≤ dst) (h : CopiedDown mem dst src n k m)
    (hk : k ≤ n) (ha2 : m.reg a2 = word k) (hkept : Kept m₀ m) :
    Reaches memmove (after .bytesR memmove) m
      (Done m₀ (mem.store dst (mem.load src n)) (Fits dst src n)) := by
  have hn := hs.size
  have hzero : (m.reg a2 == 0) = decide (k = 0) := by
    rw [ha2, beq_eq_decide]
    exact decide_eq_decide.mpr (word_inj (by omega) (by decide))
  apply Reaches.next rfl
  apply Reaches.branch rfl
  · intro hz
    obtain rfl : k = 0 := of_decide_eq_true (hzero.symm.trans hz)
    exact memmove_finishDown h hkept
  · intro hpos
    have hpos' : ¬ k = 0 := of_decide_eq_false (hzero.symm.trans hpos)
    apply Reaches.next rfl
    apply Reaches.next rfl
    have hkept₁ : Kept m₀ (m.set a5 (m.reg a0 - m.reg a2)) := ⟨hkept.t2, hkept.t1, hkept.s0⟩
    have hcopied : CopiedDown mem dst src n (0 + k) (m.set a5 (m.reg a0 - m.reg a2)) := by
      rw [Nat.zero_add]
      exact ⟨h.mem, h.toDst, h.toSrc, h.accesses⟩
    apply hcopied.bytes (l := MemmoveLabel.byte0R) (t := a3) a5 hs hb (by decide)
      (by decide) rfl (by omega) (by omega)
    · rw [Machine.set_reg, if_pos rfl, h.toDst, ha2, word_sub (by omega), Nat.add_sub_cancel]
      rfl
    · intro m' hcopied' hkeeps
      have hkept' := hkept₁.keeps hkeeps (by decide) (by decide) (by decide)
      apply Reaches.jump rfl
      exact memmove_finishDown hcopied' hkept'

/-- The words and what is in front of them. -/
theorem memmove_word0R (hs : InSpace dst src n) (hb : src ≤ dst) (hd4 : 4 ∣ dst + k)
    (hs4 : 4 ∣ src + k) (h : CopiedDown mem dst src n k m) (hk : k ≤ n) (h4k : 4 ≤ k)
    (ha4 : m.reg a4 = word (dst + k % 4)) (ha2 : m.reg a2 = word (k % 4))
    (h4 : m.reg s1 = word 4) (hkept : Kept m₀ m) :
    Reaches memmove (after .word0R memmove) m
      (Done m₀ (mem.store dst (mem.load src n)) (Fits dst src n)) := by
  have hwords : CopiedDown mem dst src n (k % 4 + 4 * (k / 4)) m := by rwa [Nat.mod_add_div]
  apply hwords.words hs hb h4 (by omega) (by omega) rfl (by omega) (by omega) ha4
  intro m' hcopied hkeeps
  apply Reaches.next rfl
  exact memmove_bytesR hs hb hcopied (by omega) ((hkeeps a2 (by decide)).trans ha2)
    (hkept.keeps hkeeps (by decide) (by decide) (by decide))

/-- From the label `1` of the way down on. -/
theorem memmove_aligned1R (hs : InSpace dst src n) (hb : src ≤ dst) (hd4 : 4 ∣ dst + k)
    (hs4 : 4 ∣ src + k) (h : CopiedDown mem dst src n k m) (hk : k ≤ n) (h4k : 4 ≤ k)
    (ha2 : m.reg a2 = word k) (h4 : m.reg s1 = word 4) (hkept : Kept m₀ m) :
    Reaches memmove (after .aligned1R memmove) m
      (Done m₀ (mem.store dst (mem.load src n)) (Fits dst src n)) := by
  have hmask : m.reg a2 &&& ((m.reg s1 + -1) ^^^ -1) = word (4 * (k / 4)) := by
    rw [ha2, h4]
    exact word_and_not_align k
  have hwidth : (m.reg s1 != 4) = false := by
    rw [h4]
    rfl
  apply Reaches.next rfl
  apply Reaches.next rfl
  apply Reaches.next rfl
  apply Reaches.next rfl
  apply Reaches.next rfl
  apply Reaches.next rfl
  apply Reaches.next rfl
  apply Reaches.branch rfl
  · intro hne
    exact absurd (hwidth.symm.trans hne) Bool.false_ne_true
  intro _
  apply Reaches.next rfl
  refine memmove_word0R hs hb hd4 hs4 ?_ hk h4k ?_ ?_ ?_ ?_
  · exact ⟨h.mem, h.toDst, h.toSrc, h.accesses⟩
  · show m.reg a0 - (m.reg a2 &&& ((m.reg s1 + -1) ^^^ -1)) = _
    rw [hmask, h.toDst, word_sub (by omega)]
    congr 1
    omega
  · show m.reg a2 - (m.reg a2 &&& ((m.reg s1 + -1) ^^^ -1)) = _
    rw [hmask, ha2, word_sub (by omega)]
    congr 1
    omega
  · exact h4
  · exact ⟨hkept.t2, hkept.t1, hkept.s0⟩

/-- The head of the way down: bytes down to the last word. -/
theorem memmove_headR (hs : InSpace dst src n) (hb : src ≤ dst) (halign : dst % 4 = src % 4)
    (h8 : 8 ≤ n) (h : CopiedDown mem dst src n n m) (ha2 : m.reg a2 = word n)
    (ha4 : m.reg a4 = word ((src + n) % 4)) (hr : (src + n) % 4 ≠ 0) (h4 : m.reg s1 = word 4)
    (hkept : Kept m₀ m) :
    Reaches memmove (.sub a2 a2 a4 :: .sub a5 a0 a4 :: .label .head0R :: after .head0R memmove) m
      (Done m₀ (mem.store dst (mem.load src n)) (Fits dst src n)) := by
  have hstart : ∀ v w, CopiedDown mem dst src n (n - (src + n) % 4 + (src + n) % 4)
      ((m.set a2 v).set a5 w) := by
    intro v w
    rw [Nat.sub_add_cancel (by omega)]
    exact ⟨h.mem, h.toDst, h.toSrc, h.accesses⟩
  apply Reaches.next rfl
  apply Reaches.next rfl
  apply Reaches.next rfl
  apply (hstart _ _).bytes (l := MemmoveLabel.head0R) (t := a3) a5 hs hb (by decide)
    (by decide) rfl (by omega) (by omega)
  · show m.reg a0 - m.reg a4 = _
    rw [h.toDst, ha4, word_sub (by omega)]
    congr 1
    omega
  · intro m' hcopied hkeeps
    apply Reaches.next rfl
    apply memmove_aligned1R hs hb (by omega) (by omega) hcopied (by omega) (by omega)
    · rw [hkeeps a2 (by decide)]
      show m.reg a2 - m.reg a4 = _
      rw [ha2, ha4, word_sub (by omega)]
    · rw [hkeeps s1 (by decide)]
      exact h4
    · exact ⟨(hkeeps t2 (by decide)).trans hkept.t2, (hkeeps t1 (by decide)).trans hkept.t1,
        (hkeeps s0 (by decide)).trans hkept.s0⟩

/-! ## Section 4: The whole function -/

/-- At the label `1` in front of the comparison of the two pointers. -/
structure Measured (m₀ : Machine) (mem : Memory Byte) (dst src n : ℕ) (m : Machine) : Prop where
  copied : Copied mem dst src n 0 m
  a2 : m.reg a2 = word n
  a4 : m.reg a4 = word (src % 4)
  a5 : m.reg a5 = word 8
  width : m.reg s1 = word (if dst % 4 = src % 4 then 4 else 0)
  kept : Kept m₀ m

/-- The test that both ways begin with. -/
theorem Measured.short (hn : n < 2 ^ 32) (h : Measured m₀ mem dst src n m) :
    (m.reg Reg.a2).ult (m.reg Reg.a5) = decide (n < 8) := by
  rw [h.a2, h.a5, word_ult hn (by decide)]

theorem Measured.unaligned (h : Measured m₀ mem dst src n m) :
    (m.reg s1 == 0) = decide (dst % 4 ≠ src % 4) := by
  rw [h.width]
  split_ifs with halign
  · rw [decide_eq_false (not_not.mpr halign)]
    rfl
  · rw [decide_eq_true halign]
    rfl

theorem Measured.width_of_aligned (h : Measured m₀ mem dst src n m) (halign : dst % 4 = src % 4) :
    m.reg s1 = word 4 := by
  rw [h.width, if_pos halign]

theorem memmove_up (hs : InSpace dst src n) (hle : dst ≤ src) (h : Measured m₀ mem dst src n m) :
    Reaches memmove (.bltu a2 a5 .bytes :: .beqz s1 .bytes :: .beqz a4 .aligned1 :: .sub a4 s1 a4 ::
      .sub a2 a2 a4 :: .add a4 a4 a0 :: .label .head0 :: after .head0 memmove) m
      (Done m₀ (mem.store dst (mem.load src n)) (Fits dst src n)) := by
  have hbytes : Reaches memmove (after .bytes memmove) m
      (Done m₀ (mem.store dst (mem.load src n)) (Fits dst src n)) :=
    memmove_bytes hs hle h.copied (Nat.zero_le n) h.a2 h.kept
  apply Reaches.branch rfl (fun _ => hbytes)
  intro hlong
  have h8 : ¬ n < 8 := of_decide_eq_false ((h.short hs.size).symm.trans hlong)
  apply Reaches.branch rfl (fun _ => hbytes)
  intro hwidth
  have halign : dst % 4 = src % 4 :=
    not_not.mp (of_decide_eq_false (h.unaligned.symm.trans hwidth))
  have h4 := h.width_of_aligned halign
  have hzero : (m.reg a4 == 0) = decide (src % 4 = 0) := by
    rw [h.a4, beq_eq_decide]
    exact decide_eq_decide.mpr (word_inj (by omega) (by decide))
  apply Reaches.branch rfl
  · intro hz
    have hs4 : src % 4 = 0 := of_decide_eq_true (hzero.symm.trans hz)
    exact memmove_aligned1 hs hle (by omega) (by omega) h.copied (by omega) h.a2 h4 h.kept
  · intro _
    exact memmove_head hs hle halign (by omega) h.copied h.a2 h.a4 h4 h.kept

/-- At the end of both ranges, for the way down. -/
theorem memmove_down (hs : InSpace dst src n) (hb : src ≤ dst) (h : Measured m₀ mem dst src n m) :
    Reaches memmove (after .reverse memmove) m
      (Done m₀ (mem.store dst (mem.load src n)) (Fits dst src n)) := by
  have hcopied : ∀ m', m'.mem = m.mem → m'.log = m.log → m'.reg a0 = m.reg a0 + m.reg a2 →
      m'.reg a1 = m.reg a1 + m.reg a2 → CopiedDown mem dst src n n m' := by
    intro m' hmem hlog ha0 ha1
    refine ⟨?_, ?_, ?_, fun x hx => h.copied.accesses x (hlog ▸ hx)⟩
    · rw [hmem, h.copied.mem, Nat.sub_self, Memory.load_zero, Memory.load_zero, Memory.store_nil,
        Memory.store_nil]
    · rw [ha0, h.copied.toDst, h.a2, word_add, Nat.add_zero]
    · rw [ha1, h.copied.toSrc, h.a2, word_add, Nat.add_zero]
  apply Reaches.next rfl
  apply Reaches.next rfl
  apply Reaches.branch rfl
  · intro _
    exact memmove_bytesR hs hb (hcopied _ rfl rfl rfl rfl) (Nat.le_refl n) h.a2
      ⟨h.kept.t2, h.kept.t1, h.kept.s0⟩
  intro hlong
  have h8 : ¬ n < 8 := of_decide_eq_false ((h.short hs.size).symm.trans hlong)
  apply Reaches.branch rfl
  · intro _
    exact memmove_bytesR hs hb (hcopied _ rfl rfl rfl rfl) (Nat.le_refl n) h.a2
      ⟨h.kept.t2, h.kept.t1, h.kept.s0⟩
  intro hwidth
  have halign : dst % 4 = src % 4 :=
    not_not.mp (of_decide_eq_false (h.unaligned.symm.trans hwidth))
  have h4 := h.width_of_aligned halign
  apply Reaches.next rfl
  apply Reaches.next rfl
  apply Reaches.next rfl
  have ha4 : (m.reg a4 + m.reg a2) &&& (m.reg s1 + -1) = word ((src + n) % 4) := by
    rw [h.a4, h.a2, h4, word_add]
    have hmask := word_and_mask (src % 4 + n) 2 (by decide)
    rw [show (src + n) % 4 = (src % 4 + n) % 4 by omega]
    exact hmask
  have hzero : ((m.reg a4 + m.reg a2) &&& (m.reg s1 + -1) == 0) = decide ((src + n) % 4 = 0) := by
    rw [ha4, beq_eq_decide]
    exact decide_eq_decide.mpr (word_inj (by omega) (by decide))
  apply Reaches.branch rfl
  · intro hz
    have hs4 : (src + n) % 4 = 0 := of_decide_eq_true (hzero.symm.trans hz)
    exact memmove_aligned1R hs hb (by omega) (by omega) (hcopied _ rfl rfl rfl rfl) (Nat.le_refl n)
      (by omega) h.a2 h4 ⟨h.kept.t2, h.kept.t1, h.kept.s0⟩
  · intro hz
    have hs4 : ¬ (src + n) % 4 = 0 := of_decide_eq_false (hzero.symm.trans hz)
    exact memmove_headR hs hb halign (by omega) (hcopied _ rfl rfl rfl rfl) h.a2 ha4 hs4 h4
      ⟨h.kept.t2, h.kept.t1, h.kept.s0⟩

/-- `memmove` ends, with all bytes copied. -/
theorem memmove_reaches (hs : InSpace dst src n) (hdst : dst < 2 ^ 32) (hsrc : src < 2 ^ 32)
    (h : Entry mem dst src n m) :
    Reaches memmove memmove m (Done m (mem.store dst (mem.load src n)) (Fits dst src n)) := by
  have hdirection : ∀ m', Measured m mem dst src n m' →
      Reaches memmove (after .direction memmove) m'
        (Done m (mem.store dst (mem.load src n)) (Fits dst src n)) := by
    intro m' h'
    have htest : (m'.reg a1).ult (m'.reg a0) = decide (src < dst) := by
      rw [h'.copied.toDst, h'.copied.toSrc, Nat.add_zero, Nat.add_zero, word_ult hsrc hdst]
    apply Reaches.branch rfl
    · intro hlt
      have hlt' : src < dst := of_decide_eq_true (htest.symm.trans hlt)
      exact memmove_down hs hlt'.le h'
    · intro hge
      have hge' : ¬ src < dst := of_decide_eq_false (htest.symm.trans hge)
      exact memmove_up hs (Nat.le_of_not_lt hge') h'
  have ha3 : m.reg a0 &&& 3 = word (dst % 4) := by
    rw [h.a0]
    exact word_and_align dst
  have ha4 : m.reg a1 &&& 3 = word (src % 4) := by
    rw [h.a1]
    exact word_and_align src
  have halign : (m.reg a0 &&& 3 == m.reg a1 &&& 3) = decide (dst % 4 = src % 4) := by
    rw [ha3, ha4, beq_eq_decide]
    exact decide_eq_decide.mpr (word_inj (by omega) (by omega))
  have hc := h.copied
  apply Reaches.next rfl
  apply Reaches.next rfl
  apply Reaches.next rfl
  apply Reaches.next rfl
  apply Reaches.next rfl
  apply Reaches.next rfl
  apply Reaches.branch rfl
  · intro heq
    have halign' : dst % 4 = src % 4 := of_decide_eq_true (halign.symm.trans heq)
    apply hdirection
    refine ⟨⟨hc.mem, hc.toDst, hc.toSrc, hc.accesses⟩, h.a2, ha4, rfl, ?_, ⟨rfl, rfl, rfl⟩⟩
    rw [if_pos halign']
    rfl
  · intro hne
    have halign' : ¬ dst % 4 = src % 4 := of_decide_eq_false (halign.symm.trans hne)
    apply Reaches.next rfl
    apply Reaches.next rfl
    apply hdirection
    refine ⟨⟨hc.mem, hc.toDst, hc.toSrc, hc.accesses⟩, h.a2, ha4, rfl, ?_, ⟨rfl, rfl, rfl⟩⟩
    rw [if_neg halign']
    rfl

end Karnix.Memops
