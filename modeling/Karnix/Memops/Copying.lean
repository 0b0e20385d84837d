import Karnix.Memops.Listing

/-!
# The loops of the copying functions

`memcpy` and `memmove` are made of the same loops, with other registers: bytes upwards or
downwards, and words.  Each loop has one lemma here, for any registers and any program around it.
-/

namespace Karnix.Memops

open Karnix.Library Karnix.Library.Rv32
open Reg

variable {L : Type} [DecidableEq L] {p rest : Code L} {l : L} {Q : Machine → Prop} {m : Machine}
variable {mem : Memory Byte} {dst src n k : ℕ}

/-- All registers but those of a list are as before. -/
def Keeps (changed : List Reg) (m m' : Machine) : Prop := ∀ r, r ∉ changed → m'.reg r = m.reg r

theorem Keeps.trans {changed : List Reg} {m m' m'' : Machine} (h : Keeps changed m m')
    (h' : Keeps changed m' m'') : Keeps changed m m'' :=
  fun r hr => (h' r hr).trans (h r hr)

/-- The place of an address in its word. -/
theorem word_and_align (a : ℕ) : word a &&& (SZREG - 1) = word (a % 4) :=
  word_and_mask a 2 (by decide)

/-- Both ranges end within the address space. -/
structure InSpace (dst src n : ℕ) : Prop where
  size : n < 2 ^ 32
  toDst : dst + n ≤ 2 ^ 32
  toSrc : src + n ≤ 2 ^ 32

/-! ## Section 1: The end of a range -/

/-- Where the loop over the tail stops that begins at `k`: an end of the destination at `2 ^ 32`
is 0 for it. -/
def stopAt (dst n k : ℕ) : ℕ := if dst + n = 2 ^ 32 ∧ k < n then k + 1 else n

theorem stopAt_of_le (hk : k ≤ n) (h : n ≤ k + 1) : stopAt dst n k = n := by
  rw [stopAt]
  split_ifs with hw
  · omega
  · rfl

theorem stopAt_le : stopAt dst n k ≤ n := by
  rw [stopAt]
  split_ifs with hw
  · exact hw.2
  · exact Nat.le_refl n

theorem lt_stopAt (hk : k < n) : k < stopAt dst n k := by
  rw [stopAt]
  split_ifs
  · exact Nat.lt_succ_self k
  · exact hk

/-- The test at the end of the loop. -/
theorem tail_test {i : ℕ} (hd : dst + n ≤ 2 ^ 32) (hki : k ≤ i) (hi : i < stopAt dst n k) :
    (word (dst + (i + 1))).ult (word (dst + n)) = decide (i + 1 < stopAt dst n k) := by
  have hin : i < n := Nat.lt_of_lt_of_le hi stopAt_le
  rw [stopAt] at hi ⊢
  split_ifs at hi ⊢ with hw
  · have hlast : ¬ i + 1 < k + 1 := by omega
    rw [hw.1, decide_eq_false hlast]
    rw [BitVec.ult, show (word (2 ^ 32)).toNat = 0 from rfl]
    exact decide_eq_false (Nat.not_lt_zero _)
  · rcases Nat.lt_or_ge (dst + n) (2 ^ 32) with hlt | hge
    · rw [word_ult (by omega) hlt]
      exact decide_eq_decide.mpr (by omega)
    · exact absurd ⟨Nat.le_antisymm hd hge, by omega⟩ hw

/-- Less than a word can only be left at an end that is not aligned. -/
theorem stopAt_aligned (hk : k ≤ n) (h4 : n < k + 4) (hd : 4 ∣ dst + k) : stopAt dst n k = n := by
  rw [stopAt]
  split_ifs with hw
  · omega
  · rfl

/-! ## Section 2: Upwards -/

/-- The first `k` of `n` bytes are copied, and the pointers are behind them. -/
structure Copied (mem : Memory Byte) (dst src n k : ℕ) (m : Machine) : Prop where
  mem : m.mem = mem.store dst (mem.load src k)
  toDst : m.reg a0 = word (dst + k)
  toSrc : m.reg a1 = word (src + k)
  accesses : ∀ x ∈ m.log, Fits dst src n x

/-- The registers and the memory of a call. -/
structure Entry (mem : Memory Byte) (dst src n : ℕ) (m : Machine) : Prop where
  mem : m.mem = mem
  a0 : m.reg a0 = word dst
  a1 : m.reg a1 = word src
  a2 : m.reg a2 = word n
  log : m.log = []

theorem Entry.copied (h : Entry mem dst src n m) : Copied mem dst src n 0 m := by
  refine ⟨?_, h.a0, h.a1, ?_⟩
  · rw [h.mem, Memory.load_zero, Memory.store_nil]
  · rw [h.log]
    simp

/-- The source is ahead of the destination, or apart from it. -/
def Ahead (dst src n : ℕ) : Prop := dst ≤ src ∨ src + n ≤ dst

/-- What is still to be copied is as it was. -/
theorem Ahead.extend (ha : Ahead dst src n) {c : ℕ} (hc : k + c ≤ n) :
    (mem.store dst (mem.load src k)).store (dst + k)
      ((mem.store dst (mem.load src k)).load (src + k) c) =
    mem.store dst (mem.load src (k + c)) := by
  have hdisjoint : (mem.store dst (mem.load src k)).load (src + k) c = mem.load (src + k) c := by
    apply Memory.load_store_of_disjoint
    rw [Memory.length_load]
    rcases ha with ha | ha <;> omega
  rw [hdisjoint, Memory.load_add, Memory.store_append, Memory.length_load]

/-- **Step lemma.** One byte upwards. -/
theorem Copied.byte {t : Reg} (hs : InSpace dst src n) (ha : Ahead dst src n) (ht : t ∉ [a0, a1])
    (h : Copied mem dst src n k m) (hk : k < n)
    (hr : ∀ m', Copied mem dst src n (k + 1) m' → Keeps [t, a0, a1] m m' → Reaches p rest m' Q) :
    Reaches p (.lb t 0 a1 :: .sb t 0 a0 :: .addi a1 a1 1 :: .addi a0 a0 1 :: rest) m Q := by
  have hd := hs.toDst
  have hs := hs.toSrc
  simp only [List.mem_cons, List.not_mem_nil, or_false, not_or] at ht
  apply Reaches.copyByte h.toDst h.toSrc (by omega) (by omega) (Ne.symm ht.1)
  intro m' hmem hreg hlog
  apply Reaches.next rfl
  apply Reaches.next rfl
  apply hr
  · refine ⟨?_, ?_, ?_, ?_⟩
    · show m'.mem = _
      rw [hmem, h.mem]
      exact ha.extend (c := 1) hk
    · rw [Machine.set_reg, if_pos rfl, Machine.set_reg, if_neg (by decide), hreg _ (Ne.symm ht.1),
        h.toDst]
      exact word_add (dst + k) 1
    · rw [Machine.set_reg, if_neg (by decide), Machine.set_reg, if_pos rfl, hreg _ (Ne.symm ht.2),
        h.toSrc]
      exact word_add (src + k) 1
    · intro x hx
      rcases hlog x hx with hx | rfl | rfl
      · exact h.accesses x hx
      · exact ⟨one_dvd _, by omega, by omega⟩
      · exact ⟨one_dvd _, by omega, by omega⟩
  · intro r hkeep
    simp only [List.mem_cons, List.not_mem_nil, or_false, not_or] at hkeep
    rw [Machine.set_reg, if_neg hkeep.2.1, Machine.set_reg, if_neg hkeep.2.2, hreg r hkeep.1]

/-- **Run lemma.** The loop over bytes, with the register `t` for the byte, and any test. -/
theorem Copied.bytes {t : Reg} {test : Line L} {stop : ℕ} (hs : InSpace dst src n)
    (ha : Ahead dst src n) (ht : t ∉ [a0, a1])
    (hcode : after l p = .lb t 0 a1 :: .sb t 0 a0 :: .addi a1 a1 1 :: .addi a0 a0 1 :: test :: rest)
    (h : Copied mem dst src n k m) (hk : k < stop) (hstop : stop ≤ n)
    (htest : ∀ m' i, k ≤ i → i < stop → m'.reg a0 = word (dst + (i + 1)) →
      Keeps [t, a0, a1] m m' → exec m' test = branch m' l (decide (i + 1 < stop)))
    (hr : ∀ m', Copied mem dst src n stop m' → Keeps [t, a0, a1] m m' → Reaches p rest m' Q) :
    Reaches p (after l p) m Q := by
  apply Reaches.doWhile rest (I := fun i m' => k ≤ i ∧ Copied mem dst src n i m' ∧
    Keeps [t, a0, a1] m m') ?_ (fun m' hI => hr m' hI.2.1 hI.2.2) hk
    ⟨Nat.le_refl k, h, fun _ _ => rfl⟩
  rintro i m' hi ⟨hki, hcopied, hkeeps⟩ hagain hdone
  rw [hcode]
  apply hcopied.byte hs ha ht (Nat.lt_of_lt_of_le hi hstop)
  intro m'' hcopied' hkeeps'
  have hkeeps'' := hkeeps.trans hkeeps'
  have hki' : k ≤ i + 1 := Nat.le_succ_of_le hki
  apply Reaches.branch (htest m'' i hki hi hcopied'.toDst hkeeps'')
  · intro hlt
    exact hagain m'' ⟨hki', hcopied', hkeeps''⟩ (of_decide_eq_true hlt)
  · intro hge
    have hge' : ¬ i + 1 < stop := of_decide_eq_false hge
    exact hdone m'' ⟨hki', hcopied', hkeeps''⟩ (by omega)

/-- **Step lemma.** One word upwards. -/
theorem Copied.word (hs : InSpace dst src n) (ha : Ahead dst src n) (h4 : m.reg s1 = Rv32.word 4)
    (hd4 : 4 ∣ dst + k) (hs4 : 4 ∣ src + k) (h : Copied mem dst src n k m) (hk : k + 4 ≤ n)
    (hr : ∀ m', Copied mem dst src n (k + 4) m' → Keeps [a3, a0, a1] m m' → Reaches p rest m' Q) :
    Reaches p (.lw a3 0 a1 :: .sw a3 0 a0 :: .add a1 a1 s1 :: .add a0 a0 s1 :: rest) m Q := by
  have hd := hs.toDst
  have hs := hs.toSrc
  apply Reaches.copyWords (o := 0) [a3] h.toDst h.toSrc
    (by rw [List.length_singleton]; omega) (by rw [List.length_singleton]; omega)
    (by decide) (by decide) (by decide)
  intro m' hmem hreg hlog
  apply Reaches.next rfl
  apply Reaches.next rfl
  apply hr
  · refine ⟨?_, ?_, ?_, ?_⟩
    · show m'.mem = _
      rw [hmem, h.mem]
      exact ha.extend hk
    · rw [Machine.set_reg, if_pos rfl, Machine.set_reg, if_neg (by decide), Machine.set_reg,
        if_neg (by decide), hreg a0 (by decide), hreg s1 (by decide), h.toDst, h4]
      exact word_add (dst + k) 4
    · rw [Machine.set_reg, if_neg (by decide), Machine.set_reg, if_pos rfl, hreg a1 (by decide),
        hreg s1 (by decide), h.toSrc, h4]
      exact word_add (src + k) 4
    · intro x hx
      rcases hlog x hx with hx | ⟨i, hi, hx⟩
      · exact h.accesses x hx
      · obtain rfl : i = 0 := Nat.lt_one_iff.mp hi
        rcases hx with rfl | rfl
        · exact ⟨hs4, by omega, by omega⟩
        · exact ⟨hd4, by omega, by omega⟩
  · intro r hkeep
    simp only [List.mem_cons, List.not_mem_nil, or_false, not_or] at hkeep
    rw [Machine.set_reg, if_neg hkeep.2.1, Machine.set_reg, if_neg hkeep.2.2,
      hreg r (by simpa using hkeep.1)]

/-- **Run lemma.** The loop over words, and any test. -/
theorem Copied.words {test : Line L} (rounds : ℕ) (hs : InSpace dst src n) (ha : Ahead dst src n)
    (h4 : m.reg s1 = Rv32.word 4) (hd4 : 4 ∣ dst + k) (hs4 : 4 ∣ src + k)
    (hcode : after l p =
      .lw a3 0 a1 :: .sw a3 0 a0 :: .add a1 a1 s1 :: .add a0 a0 s1 :: test :: rest)
    (h : Copied mem dst src n k m) (hrounds : 0 < rounds) (hn : k + 4 * rounds ≤ n)
    (htest : ∀ m' i, i < rounds → m'.reg a0 = Rv32.word (dst + (k + 4 * (i + 1))) →
      Keeps [a3, a0, a1] m m' → exec m' test = branch m' l (decide (i + 1 < rounds)))
    (hr : ∀ m', Copied mem dst src n (k + 4 * rounds) m' → Keeps [a3, a0, a1] m m' →
      Reaches p rest m' Q) :
    Reaches p (after l p) m Q := by
  apply Reaches.doWhile rest (I := fun i m' => Copied mem dst src n (k + 4 * i) m' ∧
    Keeps [a3, a0, a1] m m') ?_ (fun m' hI => hr m' hI.1 hI.2) hrounds
    ⟨h, fun _ _ => rfl⟩
  rintro i m' hi ⟨hcopied, hkeeps⟩ hagain hdone
  rw [hcode]
  apply hcopied.word hs ha ((hkeeps s1 (by decide)).trans h4) (by omega) (by omega) (by omega)
  intro m'' hcopied' hkeeps'
  have hkeeps'' := hkeeps.trans hkeeps'
  apply Reaches.branch (htest m'' i hi hcopied'.toDst hkeeps'')
  · intro hlt
    exact hagain m'' ⟨hcopied', hkeeps''⟩ (of_decide_eq_true hlt)
  · intro hge
    have hge' : ¬ i + 1 < rounds := of_decide_eq_false hge
    exact hdone m'' ⟨hcopied', hkeeps''⟩ (by omega)

/-! ## Section 3: Downwards -/

/-- All but the first `k` of `n` bytes are copied, and the pointers are in front of them. -/
structure CopiedDown (mem : Memory Byte) (dst src n k : ℕ) (m : Machine) : Prop where
  mem : m.mem = mem.store (dst + k) (mem.load (src + k) (n - k))
  toDst : m.reg a0 = word (dst + k)
  toSrc : m.reg a1 = word (src + k)
  accesses : ∀ x ∈ m.log, Fits dst src n x

/-- What is still to be copied is as it was, the source being behind. -/
theorem extend_down (hb : src ≤ dst) {c : ℕ} (hc : c ≤ k) (hk : k ≤ n) :
    (mem.store (dst + k) (mem.load (src + k) (n - k))).store (dst + (k - c))
      ((mem.store (dst + k) (mem.load (src + k) (n - k))).load (src + (k - c)) c) =
    mem.store (dst + (k - c)) (mem.load (src + (k - c)) (n - (k - c))) := by
  have hdisjoint : (mem.store (dst + k) (mem.load (src + k) (n - k))).load (src + (k - c)) c =
      mem.load (src + (k - c)) c :=
    Memory.load_store_of_disjoint mem _ (.inl (by omega))
  have hrest : n - (k - c) = c + (n - k) := by omega
  have hd : dst + k = dst + (k - c) + c := by omega
  have hs : src + k = src + (k - c) + c := by omega
  rw [hdisjoint, hrest, Memory.load_add, hd, hs,
    Memory.store_store_front mem _ (Memory.length_load ..)]

/-- **Step lemma.** One byte downwards. -/
theorem CopiedDown.byte {t : Reg} (hs : InSpace dst src n) (hb : src ≤ dst) (ht : t ∉ [a0, a1])
    (h : CopiedDown mem dst src n (k + 1) m) (hk : k < n)
    (hr : ∀ m', CopiedDown mem dst src n k m' → Keeps [t, a0, a1] m m' → Reaches p rest m' Q) :
    Reaches p (.addi a1 a1 (-1) :: .addi a0 a0 (-1) :: .lb t 0 a1 :: .sb t 0 a0 :: rest) m Q := by
  have hd := hs.toDst
  have hs := hs.toSrc
  simp only [List.mem_cons, List.not_mem_nil, or_false, not_or] at ht
  apply Reaches.next rfl
  apply Reaches.next rfl
  have hdst : m.reg a0 + -1 = word (dst + k) := h.toDst ▸ word_add_neg (Nat.le_add_left 1 (dst + k))
  have hsrc : m.reg a1 + -1 = word (src + k) := h.toSrc ▸ word_add_neg (Nat.le_add_left 1 (src + k))
  apply Reaches.copyByte (d := dst + k) (s := src + k)
  · rw [Machine.set_reg, if_pos rfl, Machine.set_reg, if_neg (by decide), hdst]
  · rw [Machine.set_reg, if_neg (by decide), Machine.set_reg, if_pos rfl, hsrc]
  · omega
  · omega
  · exact Ne.symm ht.1
  · intro m' hmem hreg hlog
    apply hr
    · refine ⟨?_, ?_, ?_, ?_⟩
      · rw [hmem]
        show m.mem.store (dst + k) (m.mem.load (src + k) 1) = _
        rw [h.mem]
        exact extend_down hb (Nat.le_add_left 1 k) hk
      · rw [hreg a0 (Ne.symm ht.1), Machine.set_reg, if_pos rfl, Machine.set_reg,
          if_neg (by decide), hdst]
      · rw [hreg a1 (Ne.symm ht.2), Machine.set_reg, if_neg (by decide), Machine.set_reg,
          if_pos rfl, hsrc]
      · intro x hx
        rcases hlog x hx with hx | rfl | rfl
        · exact h.accesses x hx
        · exact ⟨one_dvd _, by omega, by omega⟩
        · exact ⟨one_dvd _, by omega, by omega⟩
    · intro r hkeep
      simp only [List.mem_cons, List.not_mem_nil, or_false, not_or] at hkeep
      rw [hreg r hkeep.1, Machine.set_reg, if_neg hkeep.2.1, Machine.set_reg, if_neg hkeep.2.2]

/-- **Run lemma.** The loop over bytes downwards, from `k + rounds` to `k`. -/
theorem CopiedDown.bytes {t : Reg} {rounds : ℕ} (lim : Reg) (hs : InSpace dst src n)
    (hb : src ≤ dst) (ht : t ∉ [a0, a1]) (hlim : lim ∉ [t, a0, a1])
    (hcode : after l p = .addi a1 a1 (-1) :: .addi a0 a0 (-1) :: .lb t 0 a1 :: .sb t 0 a0 ::
      .bgtu a0 lim l :: rest)
    (h : CopiedDown mem dst src n (k + rounds) m) (hrounds : 0 < rounds) (hn : k + rounds ≤ n)
    (hstop : m.reg lim = word (dst + k))
    (hr : ∀ m', CopiedDown mem dst src n k m' → Keeps [t, a0, a1] m m' → Reaches p rest m' Q) :
    Reaches p (after l p) m Q := by
  apply Reaches.doWhile rest (I := fun i m' => CopiedDown mem dst src n (k + (rounds - i)) m' ∧
    Keeps [t, a0, a1] m m') ?_ ?_ hrounds ⟨h, fun _ _ => rfl⟩
  · rintro i m' hi ⟨hcopied, hkeeps⟩ hagain hdone
    have hleft : k + (rounds - i) = k + (rounds - (i + 1)) + 1 := by omega
    rw [hleft] at hcopied
    rw [hcode]
    apply hcopied.byte hs hb ht (by omega)
    intro m'' hcopied' hkeeps'
    have hkeeps'' := hkeeps.trans hkeeps'
    have hd := hs.toDst
    have htest : (m''.reg lim).ult (m''.reg a0) =
        decide (dst + k < dst + (k + (rounds - (i + 1)))) := by
      rw [hkeeps'' lim hlim, hstop, hcopied'.toDst, word_ult (by omega) (by omega)]
    apply Reaches.branch rfl
    · intro hlt
      rw [htest, decide_eq_true_eq] at hlt
      exact hagain m'' ⟨hcopied', hkeeps''⟩ (by omega)
    · intro hge
      rw [htest, decide_eq_false_iff_not] at hge
      exact hdone m'' ⟨hcopied', hkeeps''⟩ (by omega)
  · rintro m' ⟨hcopied, hkeeps⟩
    rw [Nat.sub_self, Nat.add_zero] at hcopied
    exact hr m' hcopied hkeeps

/-- **Step lemma.** One word downwards. -/
theorem CopiedDown.word (hs : InSpace dst src n) (hb : src ≤ dst) (h4 : m.reg s1 = Rv32.word 4)
    (hd4 : 4 ∣ dst + k) (hs4 : 4 ∣ src + k) (h : CopiedDown mem dst src n (k + 4) m)
    (hk : k + 4 ≤ n)
    (hr : ∀ m', CopiedDown mem dst src n k m' → Keeps [a3, a0, a1] m m' → Reaches p rest m' Q) :
    Reaches p (.sub a1 a1 s1 :: .sub a0 a0 s1 :: .lw a3 0 a1 :: .sw a3 0 a0 :: rest) m Q := by
  have hd := hs.toDst
  have hs := hs.toSrc
  apply Reaches.next rfl
  apply Reaches.next rfl
  have hdst : m.reg a0 - m.reg s1 = Rv32.word (dst + k) := by
    rw [h.toDst, h4, word_sub (by omega)]
    rfl
  have hsrc : m.reg a1 - m.reg s1 = Rv32.word (src + k) := by
    rw [h.toSrc, h4, word_sub (by omega)]
    rfl
  apply Reaches.copyWords (d := dst + k) (s := src + k) (o := 0) [a3]
  · rw [Machine.set_reg, if_pos rfl, Machine.set_reg, if_neg (by decide), Machine.set_reg,
      if_neg (by decide), hdst]
  · rw [Machine.set_reg, if_neg (by decide), Machine.set_reg, if_pos rfl, hsrc]
  · rw [List.length_singleton]
    omega
  · rw [List.length_singleton]
    omega
  · decide
  · decide
  · decide
  · intro m' hmem hreg hlog
    apply hr
    · refine ⟨?_, ?_, ?_, ?_⟩
      · rw [hmem]
        show m.mem.store (dst + k) (m.mem.load (src + k) 4) = _
        rw [h.mem]
        exact extend_down hb (Nat.le_add_left 4 k) hk
      · rw [hreg a0 (by decide), Machine.set_reg, if_pos rfl, Machine.set_reg,
          if_neg (by decide), Machine.set_reg, if_neg (by decide), hdst]
      · rw [hreg a1 (by decide), Machine.set_reg, if_neg (by decide), Machine.set_reg,
          if_pos rfl, hsrc]
      · intro x hx
        rcases hlog x hx with hx | ⟨i, hi, hx⟩
        · exact h.accesses x hx
        · obtain rfl : i = 0 := Nat.lt_one_iff.mp hi
          rcases hx with rfl | rfl
          · exact ⟨hs4, by omega, by omega⟩
          · exact ⟨hd4, by omega, by omega⟩
    · intro r hkeep
      simp only [List.mem_cons, List.not_mem_nil, or_false, not_or] at hkeep
      rw [hreg r (by simpa using hkeep.1), Machine.set_reg, if_neg hkeep.2.1, Machine.set_reg,
        if_neg hkeep.2.2]

/-- **Run lemma.** The loop over words downwards, from `k + 4 * rounds` to `k`. -/
theorem CopiedDown.words {rounds : ℕ} (hs : InSpace dst src n) (hb : src ≤ dst)
    (h4 : m.reg s1 = Rv32.word 4) (hd4 : 4 ∣ dst + k) (hs4 : 4 ∣ src + k)
    (hcode : after l p = .sub a1 a1 s1 :: .sub a0 a0 s1 :: .lw a3 0 a1 :: .sw a3 0 a0 ::
      .bltu a4 a0 l :: rest)
    (h : CopiedDown mem dst src n (k + 4 * rounds) m) (hrounds : 0 < rounds)
    (hn : k + 4 * rounds ≤ n) (hstop : m.reg a4 = Rv32.word (dst + k))
    (hr : ∀ m', CopiedDown mem dst src n k m' → Keeps [a3, a0, a1] m m' → Reaches p rest m' Q) :
    Reaches p (after l p) m Q := by
  apply Reaches.doWhile rest (I := fun i m' => CopiedDown mem dst src n (k + 4 * (rounds - i)) m' ∧
    Keeps [a3, a0, a1] m m') ?_ ?_ hrounds ⟨h, fun _ _ => rfl⟩
  · rintro i m' hi ⟨hcopied, hkeeps⟩ hagain hdone
    have hleft : k + 4 * (rounds - i) = k + 4 * (rounds - (i + 1)) + 4 := by omega
    rw [hleft] at hcopied
    rw [hcode]
    apply hcopied.word hs hb ((hkeeps s1 (by decide)).trans h4) (by omega) (by omega) (by omega)
    intro m'' hcopied' hkeeps'
    have hkeeps'' := hkeeps.trans hkeeps'
    have hd := hs.toDst
    have htest : (m''.reg a4).ult (m''.reg a0) =
        decide (dst + k < dst + (k + 4 * (rounds - (i + 1)))) := by
      rw [hkeeps'' a4 (by decide), hstop, hcopied'.toDst, word_ult (by omega) (by omega)]
    apply Reaches.branch rfl
    · intro hlt
      rw [htest, decide_eq_true_eq] at hlt
      exact hagain m'' ⟨hcopied', hkeeps''⟩ (by omega)
    · intro hge
      rw [htest, decide_eq_false_iff_not] at hge
      exact hdone m'' ⟨hcopied', hkeeps''⟩ (by omega)
  · rintro m' ⟨hcopied, hkeeps⟩
    rw [Nat.sub_self, Nat.mul_zero, Nat.add_zero] at hcopied
    exact hr m' hcopied hkeeps

end Karnix.Memops
