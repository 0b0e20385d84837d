import Karnix.Memops.Copying

/-!
# memcpy

Words are copied in chunks of 64, 32, 16, 8 and 4 bytes.  A chunk is entered in the middle of the
unrolled code, at the label for its size, and copied from its end to its beginning.
-/

namespace Karnix.Memops

open Karnix.Library Karnix.Library.Rv32
open Reg

variable {rest : Code MemcpyLabel} {Q : Machine → Prop} {m m₀ : Machine}
variable {mem : Memory Byte} {dst src n k c j : ℕ}

/-! ## Section 1: The tail -/

/-- What `memcpy` keeps for its caller. -/
structure Saved (m₀ m : Machine) : Prop where
  t2 : m.reg t2 = m₀.reg a0
  s0 : m.reg s0 = m₀.reg s0
  s1 : m.reg s1 = m₀.reg s1

theorem memcpy_bops (hs : InSpace dst src n) (ha : Ahead dst src n)
    (h : Copied mem dst src n k m) (hk : k ≤ n) (ha2 : m.reg a2 = word (n - k))
    (hsaved : Saved m₀ m) :
    Reaches memcpy (after .bops memcpy) m
      (Done m₀ (mem.store dst (mem.load src (stopAt dst n k))) (Fits dst src n)) := by
  have hd := hs.toDst
  have hdone : ∀ m', Copied mem dst src n (stopAt dst n k) m' → Saved m₀ m' →
      Reaches memcpy (after .done memcpy) m'
        (Done m₀ (mem.store dst (mem.load src (stopAt dst n k))) (Fits dst src n)) := by
    intro m' hcopied hsaved'
    apply Reaches.next rfl
    apply Reaches.halt
    exact ⟨hcopied.mem, hsaved'.t2, hsaved'.s0, hsaved'.s1, hcopied.accesses⟩
  have hn := hs.size
  have hleft : (m.reg a2 == 0) = decide (k = n) := by
    rw [ha2, beq_eq_decide, show (0 : Word) = word 0 from rfl]
    apply decide_eq_decide.mpr
    rw [word_inj (by omega) (by decide)]
    omega
  apply Reaches.branch rfl
  · intro hzero
    rw [hleft, decide_eq_true_eq] at hzero
    subst hzero
    apply hdone m _ hsaved
    rwa [stopAt_of_le hk (Nat.le_succ k)]
  · intro hpos
    rw [hleft, decide_eq_false_iff_not] at hpos
    have hlt : k < n := Nat.lt_of_le_of_ne hk hpos
    apply Reaches.next rfl
    apply Reaches.next rfl
    have hcopied : Copied mem dst src n k (m.set a2 (m.reg a2 + m.reg a0)) :=
      ⟨h.mem, h.toDst, h.toSrc, h.accesses⟩
    have hstop : k < stopAt dst n k := lt_stopAt hlt
    refine hcopied.bytes (l := MemcpyLabel.tail0) (t := a4) hs ha (by decide) rfl hstop stopAt_le
      ?_ ?_
    · intro m' i hki hi ha0 hkeeps
      have hlim : m'.reg a2 = word (dst + n) := by
        rw [hkeeps a2 (by decide), Machine.set_reg, if_pos rfl, ha2, h.toDst, word_add]
        congr 1
        omega
      show branch m' _ _ = _
      rw [ha0, hlim, tail_test hd hki hi]
    · intro m' hcopied' hkeeps
      apply Reaches.next rfl
      apply hdone m' hcopied'
      exact ⟨(hkeeps t2 (by decide)).trans hsaved.t2, (hkeeps s0 (by decide)).trans hsaved.s0,
        (hkeeps s1 (by decide)).trans hsaved.s1⟩

/-! ## Section 2: A chunk -/

/-- Between two chunks: `k` bytes are copied, and the number of those left is in `a2`. -/
structure Working (m₀ : Machine) (mem : Memory Byte) (dst src n k : ℕ) (m : Machine) : Prop where
  copied : Copied mem dst src n k m
  a2 : m.reg a2 = word (n - k)
  a7 : m.reg a7 = word 64
  t2 : m.reg t2 = m₀.reg Reg.a0
  t0 : m.reg t0 = m₀.reg s0
  t1 : m.reg t1 = m₀.reg s1

/-- Within a chunk of `c` bytes behind the first `k`, with the memory as it is now. -/
structure Chunk (m₀ : Machine) (mem : Memory Byte) (dst src n k c : ℕ) (now : Memory Byte)
    (m : Machine) : Prop where
  now : m.mem = now
  /-- No byte of the source was written. -/
  source : m.mem.load src n = mem.load src n
  toDst : m.reg a0 = word (dst + k)
  toSrc : m.reg a1 = word (src + k)
  a2 : m.reg a2 = word (n - k)
  a3 : m.reg a3 = word c
  a7 : m.reg a7 = word 64
  t2 : m.reg t2 = m₀.reg a0
  t0 : m.reg t0 = m₀.reg s0
  t1 : m.reg t1 = m₀.reg s1
  accesses : ∀ x ∈ m.log, Fits dst src n x

/-- The memory when the bytes of a chunk from `j` on are copied, and the first `k` of all. -/
def chunkMem (mem : Memory Byte) (dst src k c j : ℕ) : Memory Byte :=
  (mem.store dst (mem.load src k)).store (dst + k + j) (mem.load (src + k + j) (c - j))

/-- The next bytes of a chunk, in front of those already copied. -/
theorem chunkMem_front {w : ℕ} (h : j + w ≤ c) :
    (chunkMem mem dst src k c (j + w)).store (dst + k + j) (mem.load (src + k + j) w) =
      chunkMem mem dst src k c j := by
  have hrest : c - j = w + (c - (j + w)) := by omega
  rw [chunkMem, chunkMem, hrest, Memory.load_add, ← Nat.add_assoc, ← Nat.add_assoc,
    Memory.store_store_front _ _ (Memory.length_load ..)]

/-- A chunk begins with nothing copied. -/
theorem chunkMem_self : chunkMem mem dst src k c c = mem.store dst (mem.load src k) := by
  rw [chunkMem, Nat.sub_self, Memory.load_zero, Memory.store_nil]

/-- A whole chunk. -/
theorem chunkMem_zero : chunkMem mem dst src k c 0 = mem.store dst (mem.load src (k + c)) := by
  rw [chunkMem, Nat.add_zero, Nat.add_zero, Nat.sub_zero, Memory.load_add, Memory.store_append,
    Memory.length_load]

/-- Aligned pointers to ranges that are apart. -/
structure Words (dst src n k : ℕ) : Prop where
  space : InSpace dst src n
  apart : dst + n ≤ src ∨ src + n ≤ dst
  toDst : 4 ∣ dst + k
  toSrc : 4 ∣ src + k

theorem Words.ahead (hw : Words dst src n k) : Ahead dst src n := by
  rcases hw.apart with h | h
  · exact .inl (by omega)
  · exact .inr h

theorem Words.next (hw : Words dst src n k) (hc : 4 ∣ c) : Words dst src n (k + c) := by
  refine ⟨hw.space, hw.apart, ?_, ?_⟩
  · rw [← Nat.add_assoc]
    exact Nat.dvd_add hw.toDst hc
  · rw [← Nat.add_assoc]
    exact Nat.dvd_add hw.toSrc hc

/-- The upper half of the largest chunk, copied in two rows upwards. -/
theorem chunkMem_upper :
    ((chunkMem mem dst src k 64 64).store (dst + k + 32) (mem.load (src + k + 32) 16)).store
      (dst + k + 48) (mem.load (src + k + 48) 16) = chunkMem mem dst src k 64 32 := by
  rw [chunkMem_self, chunkMem, show 64 - 32 = 16 + 16 from rfl, Memory.load_add,
    Memory.store_append, Memory.length_load]

/-- A chunk begins. -/
theorem Working.chunk (hw : Words dst src n k) (hk : k ≤ n) (h : Working m₀ mem dst src n k m)
    (ha3 : m.reg a3 = word c) :
    Chunk m₀ mem dst src n k c (chunkMem mem dst src k c c) m := by
  refine ⟨h.copied.mem.trans chunkMem_self.symm, ?_, h.copied.toDst, h.copied.toSrc, h.a2, ha3,
    h.a7, h.t2, h.t0, h.t1, h.copied.accesses⟩
  rw [h.copied.mem]
  apply Memory.load_store_of_disjoint
  rw [Memory.length_load]
  rcases hw.apart with ha | ha <;> omega

/-- **Step lemma.** A row of words from `j` on. -/
theorem Chunk.row {now : Memory Byte} (rs : List Reg) (hw : Words dst src n k)
    (hrs : rs ⊆ [a4, a5, s0, s1]) (hnodup : rs.Nodup) (hj : 4 ∣ j)
    (hn : k + j + 4 * rs.length ≤ n) (h : Chunk m₀ mem dst src n k c now m)
    (hr : ∀ m', Chunk m₀ mem dst src n k c
      (now.store (dst + k + j) (mem.load (src + k + j) (4 * rs.length))) m' →
      Reaches memcpy rest m' Q) :
    Reaches memcpy (Rv32.loads a1 j rs ++ (Rv32.stores a0 j rs ++ rest)) m Q := by
  have hd := hw.space.toDst
  have hs := hw.space.toSrc
  have hout : ∀ r, r ∉ [a4, a5, s0, s1] → r ∉ rs := fun r hr hmem => hr (hrs hmem)
  apply Reaches.copyWords rs h.toDst h.toSrc (by omega) (by omega) (hout _ (by decide))
    (hout _ (by decide)) hnodup
  intro m' hmem hreg hlog
  have hkeeps : ∀ r, r ∉ [a4, a5, s0, s1] → m'.reg r = m.reg r := fun r hr => hreg r (hout r hr)
  have hload : m.mem.load (src + k + j) (4 * rs.length) =
      mem.load (src + k + j) (4 * rs.length) := by
    apply Memory.load_congr
    intro i hi
    exact Memory.eq_of_load_eq h.source (by omega) (by omega)
  apply hr
  refine ⟨?_, ?_, (hkeeps _ (by decide)).trans h.toDst, (hkeeps _ (by decide)).trans h.toSrc,
    (hkeeps _ (by decide)).trans h.a2, (hkeeps _ (by decide)).trans h.a3,
    (hkeeps _ (by decide)).trans h.a7, (hkeeps _ (by decide)).trans h.t2,
    (hkeeps _ (by decide)).trans h.t0, (hkeeps _ (by decide)).trans h.t1, ?_⟩
  · rw [hmem, hload, h.now]
  · rw [← h.source, hmem]
    apply Memory.load_store_of_disjoint
    rw [Memory.length_load]
    rcases hw.apart with ha | ha <;> omega
  · intro x hx
    have hdj := Nat.dvd_add hw.toDst hj
    have hsj := Nat.dvd_add hw.toSrc hj
    rcases hlog x hx with hx | ⟨i, hi, rfl | rfl⟩
    · exact h.accesses x hx
    · exact ⟨Nat.dvd_add hsj (Nat.dvd_mul_right 4 i), by omega, by omega⟩
    · exact ⟨Nat.dvd_add hdj (Nat.dvd_mul_right 4 i), by omega, by omega⟩

/-- A row in front of the bytes that are already copied. -/
theorem Chunk.front (rs : List Reg) (hw : Words dst src n k) (hrs : rs ⊆ [a4, a5, s0, s1])
    (hnodup : rs.Nodup) (hj : 4 ∣ j) (hjc : j + 4 * rs.length ≤ c) (hc : k + c ≤ n)
    (h : Chunk m₀ mem dst src n k c (chunkMem mem dst src k c (j + 4 * rs.length)) m)
    (hr : ∀ m', Chunk m₀ mem dst src n k c (chunkMem mem dst src k c j) m' →
      Reaches memcpy rest m' Q) :
    Reaches memcpy (Rv32.loads a1 j rs ++ (Rv32.stores a0 j rs ++ rest)) m Q := by
  apply h.row rs hw hrs hnodup hj (by omega)
  rw [chunkMem_front hjc]
  exact hr

/-! ## Section 3: The chunks one after the other -/

theorem memcpy_l5 (hw : Words dst src n k) (hc : k + c ≤ n) (hc4 : 4 ≤ c)
    (h : Chunk m₀ mem dst src n k c (chunkMem mem dst src k c 4) m)
    (hr : ∀ m', Working m₀ mem dst src n (k + c) m' → m'.reg a3 = word c →
      Reaches memcpy (after .l6 memcpy) m' Q) :
    Reaches memcpy (after .l5 memcpy) m Q := by
  apply Chunk.front (j := 0) [s1] hw (by decide) (by decide) (Nat.dvd_zero 4) hc4 hc h
  intro m' h'
  apply Reaches.next rfl
  apply Reaches.next rfl
  apply Reaches.next rfl
  apply Reaches.next rfl
  refine hr _ ⟨⟨?_, ?_, ?_, h'.accesses⟩, ?_, h'.a7, h'.t2, h'.t0, h'.t1⟩ h'.a3
  · exact h'.now.trans chunkMem_zero
  · show m'.reg a0 + m'.reg a3 = _
    rw [h'.toDst, h'.a3, word_add, Nat.add_assoc]
  · show m'.reg a1 + m'.reg a3 = _
    rw [h'.toSrc, h'.a3, word_add, Nat.add_assoc]
  · show m'.reg a2 - m'.reg a3 = _
    rw [h'.a2, h'.a3, word_sub (by omega), Nat.sub_sub]

theorem memcpy_l4 (hw : Words dst src n k) (hc : k + c ≤ n) (hc8 : 8 ≤ c)
    (h : Chunk m₀ mem dst src n k c (chunkMem mem dst src k c 8) m)
    (hr : ∀ m', Working m₀ mem dst src n (k + c) m' → m'.reg a3 = word c →
      Reaches memcpy (after .l6 memcpy) m' Q) :
    Reaches memcpy (after .l4 memcpy) m Q := by
  apply Chunk.front (j := 4) [s0] hw (by decide) (by decide) (Nat.dvd_refl 4) hc8 hc h
  intro m' h'
  apply Reaches.next rfl
  exact memcpy_l5 hw hc (by omega) h' hr

theorem memcpy_l3 (hw : Words dst src n k) (hc : k + c ≤ n) (hc16 : 16 ≤ c)
    (h : Chunk m₀ mem dst src n k c (chunkMem mem dst src k c 16) m)
    (hr : ∀ m', Working m₀ mem dst src n (k + c) m' → m'.reg a3 = word c →
      Reaches memcpy (after .l6 memcpy) m' Q) :
    Reaches memcpy (after .l3 memcpy) m Q := by
  apply Chunk.front (j := 8) [a4, a5] hw (by decide) (by decide) (by decide) hc16 hc h
  intro m' h'
  apply Reaches.next rfl
  exact memcpy_l4 hw hc (by omega) h' hr

theorem memcpy_l2 (hw : Words dst src n k) (hc : k + c ≤ n) (hc32 : 32 ≤ c)
    (h : Chunk m₀ mem dst src n k c (chunkMem mem dst src k c 32) m)
    (hr : ∀ m', Working m₀ mem dst src n (k + c) m' → m'.reg a3 = word c →
      Reaches memcpy (after .l6 memcpy) m' Q) :
    Reaches memcpy (after .l2 memcpy) m Q := by
  apply Chunk.front (j := 16) [a4, a5, s0, s1] hw (by decide) (by decide) (by decide) hc32
    hc h
  intro m' h'
  apply Reaches.next rfl
  exact memcpy_l3 hw hc (by omega) h' hr

theorem memcpy_l1 (hw : Words dst src n k) (hc : k + 64 ≤ n)
    (h : Chunk m₀ mem dst src n k 64 (chunkMem mem dst src k 64 64) m)
    (hr : ∀ m', Working m₀ mem dst src n (k + 64) m' → m'.reg a3 = word 64 →
      Reaches memcpy (after .l6 memcpy) m' Q) :
    Reaches memcpy (after .l1 memcpy) m Q := by
  -- the upper half goes upwards, in two rows
  apply Chunk.row (j := 32) [a4, a5, s0, s1] hw (by decide) (by decide) (by decide)
    (show k + 32 + 16 ≤ n by omega) h
  intro m₁ h₁
  apply Chunk.row (j := 48) [a4, a5, s0, s1] hw (by decide) (by decide) (by decide) hc h₁
  intro m₂ h₂
  apply Reaches.next rfl
  apply memcpy_l2 hw hc (by decide) ?_ hr
  rwa [← chunkMem_upper]

/-- The registers that the chunk loop works with do not change when `a3` is set. -/
theorem Working.setA3 (h : Working m₀ mem dst src n k m) (v : Word) :
    Working m₀ mem dst src n k (m.set a3 v) :=
  ⟨⟨h.copied.mem, h.copied.toDst, h.copied.toSrc, h.copied.accesses⟩, h.a2, h.a7, h.t2, h.t0, h.t1⟩

/-- One test for a chunk of `c` bytes: `a3` is halved, and a branch goes to the chunk if there are
that many bytes left. -/
theorem chunk_test {r : Reg} {l : MemcpyLabel} (hk : k ≤ n) (hn : n < 2 ^ 32)
    (hc : m.reg r >>> 1 = word c) (hc' : c < 2 ^ 32) (h : Working m₀ mem dst src n k m)
    (htaken : ∀ m', Working m₀ mem dst src n k m' → m'.reg a3 = word c → k + c ≤ n →
      Reaches memcpy (after l memcpy) m' Q)
    (hnot : ∀ m', Working m₀ mem dst src n k m' → m'.reg a3 = word c → n < k + c →
      Reaches memcpy rest m' Q) :
    Reaches memcpy (.srli a3 r 1 :: .bgeu a2 a3 l :: rest) m Q := by
  apply Reaches.next rfl
  have h' := h.setA3 (m.reg r >>> 1)
  have ha3 : (m.set a3 (m.reg r >>> 1)).reg a3 = word c := by
    rw [Machine.set_reg, if_pos rfl, hc]
  have htest : (!((m.set a3 (m.reg r >>> 1)).reg a2).ult ((m.set a3 (m.reg r >>> 1)).reg a3)) =
      decide (k + c ≤ n) := by
    rw [h'.a2, ha3, word_ult (by omega) hc', ← decide_not]
    exact decide_eq_decide.mpr (by omega)
  apply Reaches.branch rfl
  · intro hge
    rw [htest, decide_eq_true_eq] at hge
    exact htaken _ h' ha3 hge
  · intro hlt
    rw [htest, decide_eq_false_iff_not, Nat.not_le] at hlt
    exact hnot _ h' ha3 hlt

/-- A smaller chunk, or the tail. -/
theorem memcpy_l7 (hw : Words dst src n k) (hk : k ≤ n) (h : Working m₀ mem dst src n k m)
    (hr : ∀ m' c, 4 ∣ c → 0 < c → k + c ≤ n → Working m₀ mem dst src n (k + c) m' →
      m'.reg a3 = word c → Reaches memcpy (after .l6 memcpy) m' Q)
    (htail : ∀ m', n < k + 4 → Copied mem dst src n k m' → m'.reg a2 = word (n - k) →
      Saved m₀ m' → Reaches memcpy (after .bops memcpy) m' Q) :
    Reaches memcpy (after .l7 memcpy) m Q := by
  have hn := hw.space.size
  apply chunk_test (c := 32) hk hn (by rw [h.a7]; rfl) (by decide) h
  · intro m' h' ha3 hc
    exact memcpy_l2 hw hc (by decide) (h'.chunk hw hk ha3) fun m'' => hr m'' 32 (by decide)
      (by decide) hc
  intro m₁ h₁ ha3 h32
  apply chunk_test (c := 16) hk hn (by rw [ha3]; rfl) (by decide) h₁
  · intro m' h' ha3 hc
    exact memcpy_l3 hw hc (by decide) (h'.chunk hw hk ha3) fun m'' => hr m'' 16 (by decide)
      (by decide) hc
  intro m₂ h₂ ha3 h16
  apply chunk_test (c := 8) hk hn (by rw [ha3]; rfl) (by decide) h₂
  · intro m' h' ha3 hc
    exact memcpy_l4 hw hc (by decide) (h'.chunk hw hk ha3) fun m'' => hr m'' 8 (by decide)
      (by decide) hc
  intro m₃ h₃ ha3 h8
  apply chunk_test (c := 4) hk hn (by rw [ha3]; rfl) (by decide) h₃
  · intro m' h' ha3 hc
    exact memcpy_l5 hw hc (by decide) (h'.chunk hw hk ha3) fun m'' => hr m'' 4 (by decide)
      (by decide) hc
  intro m₄ h₄ ha3 h4
  apply Reaches.next rfl
  apply Reaches.next rfl
  apply Reaches.next rfl
  exact htail _ h4 ⟨h₄.copied.mem, h₄.copied.toDst, h₄.copied.toSrc, h₄.copied.accesses⟩ h₄.a2
    ⟨h₄.t2, h₄.t0, h₄.t1⟩

/-- **Run lemma.** From the end of a chunk on: `a3` is as the largest chunk needs it, as long as
there are bytes for one. -/
theorem memcpy_l6 (hw : Words dst src n k) (hk : k ≤ n) (h : Working m₀ mem dst src n k m)
    (ha3 : k + 64 ≤ n → m.reg a3 = word 64)
    (htail : ∀ m' k', k' ≤ n → n < k' + 4 → 4 ∣ dst + k' → Copied mem dst src n k' m' →
      m'.reg a2 = word (n - k') → Saved m₀ m' → Reaches memcpy (after .bops memcpy) m' Q) :
    Reaches memcpy (after .l6 memcpy) m Q := by
  induction hleft : n - k using Nat.strong_induction_on generalizing k m with
  | _ left ih =>
    subst hleft
    have hn := hw.space.size
    have htest : (!(m.reg a2).ult (m.reg a7)) = decide (k + 64 ≤ n) := by
      rw [h.a2, h.a7, word_ult (by omega) (by decide), ← decide_not]
      exact decide_eq_decide.mpr (by omega)
    apply Reaches.branch rfl
    · intro hge
      rw [htest, decide_eq_true_eq] at hge
      apply memcpy_l1 hw hge (h.chunk hw hk (ha3 hge))
      intro m' h' ha3'
      exact ih (n - (k + 64)) (by omega) (hw.next (by decide)) hge h' (fun _ => ha3') rfl
    · intro hlt
      rw [htest, decide_eq_false_iff_not, Nat.not_le] at hlt
      apply Reaches.next rfl
      apply memcpy_l7 hw hk h
      · intro m' c hc4 hc0 hc h' _
        exact ih (n - (k + c)) (by omega) (hw.next hc4) hc h' (fun hmore => by omega) rfl
      · intro m' h4 hcopied ha2 hsaved
        exact htail m' k hk h4 hw.toDst hcopied ha2 hsaved

/-- The first test: the loop is entered at its beginning, or behind it. -/
theorem memcpy_loop (hw : Words dst src n k) (hk : k ≤ n) (h : Working m₀ mem dst src n k m)
    (ha3 : m.reg a3 = word 64)
    (htail : ∀ m' k', k' ≤ n → n < k' + 4 → 4 ∣ dst + k' → Copied mem dst src n k' m' →
      m'.reg a2 = word (n - k') → Saved m₀ m' → Reaches memcpy (after .bops memcpy) m' Q) :
    Reaches memcpy (.bltu a2 a7 .l7 :: .label .l1 :: after .l1 memcpy) m Q := by
  have hn := hw.space.size
  have htest : (m.reg a2).ult (m.reg a7) = decide (n < k + 64) := by
    rw [h.a2, h.a7, word_ult (by omega) (by decide)]
    exact decide_eq_decide.mpr (by omega)
  apply Reaches.branch rfl
  · intro hlt
    rw [htest, decide_eq_true_eq] at hlt
    apply memcpy_l7 hw hk h
    · intro m' c hc4 _ hc h' _
      exact memcpy_l6 (hw.next hc4) hc h' (fun hmore => by omega) htail
    · intro m' h4 hcopied ha2' hsaved'
      exact htail m' k hk h4 hw.toDst hcopied ha2' hsaved'
  · intro hge
    rw [htest, decide_eq_false_iff_not, Nat.not_lt] at hge
    apply Reaches.next rfl
    apply memcpy_l1 hw hge (h.chunk hw hk ha3)
    intro m' h' ha3'
    exact memcpy_l6 (hw.next (by decide)) hge h' (fun _ => ha3') htail

/-- From the label `.Lmemcpy_main` on. -/
theorem memcpy_main (hw : Words dst src n k) (hk : k ≤ n) (h : Copied mem dst src n k m)
    (ha2 : m.reg a2 = word (n - k)) (hsaved : Saved m₀ m)
    (htail : ∀ m' k', k' ≤ n → n < k' + 4 → 4 ∣ dst + k' → Copied mem dst src n k' m' →
      m'.reg a2 = word (n - k') → Saved m₀ m' → Reaches memcpy (after .bops memcpy) m' Q) :
    Reaches memcpy (after .main memcpy) m Q := by
  apply Reaches.next rfl
  apply Reaches.next rfl
  apply Reaches.next rfl
  apply Reaches.next rfl
  apply memcpy_loop hw hk ?_ rfl htail
  exact ⟨⟨h.mem, h.toDst, h.toSrc, h.accesses⟩, ha2, rfl, hsaved.t2, hsaved.s0, hsaved.s1⟩

/-! ## Section 4: The whole function -/

/-- How many bytes `memcpy` copies: the loop over words does not compare addresses. -/
def memcpyStop (dst src n : ℕ) : ℕ := if 8 ≤ n ∧ dst % 4 = src % 4 then n else stopAt dst n 0

/-- From `.Lmemcpy_main` on, every byte is copied. -/
theorem memcpy_words (hw : Words dst src n k) (hk : k ≤ n) (h : Copied mem dst src n k m)
    (ha2 : m.reg a2 = word (n - k)) (hsaved : Saved m₀ m) :
    Reaches memcpy (after .main memcpy) m
      (Done m₀ (mem.store dst (mem.load src n)) (Fits dst src n)) := by
  apply memcpy_main hw hk h ha2 hsaved
  intro m' k' hk' h4 hd4 hcopied ha2' hsaved'
  have htail := memcpy_bops hw.space hw.ahead hcopied hk' ha2' hsaved'
  rwa [stopAt_aligned hk' h4 hd4] at htail

/-- The head: bytes up to the first word. -/
theorem memcpy_head (hs : InSpace dst src n) (hapart : dst + n ≤ src ∨ src + n ≤ dst)
    (hhigh : 2 ^ 31 ≤ dst) (h8 : 8 ≤ n) (halign : dst % 4 = src % 4)
    (h : Entry mem dst src n m) (ha3 : m.reg a3 = word (dst % 4)) (hsaved : Saved m₀ m) :
    Reaches memcpy (.addi a3 a3 (-SZREG) :: .add a2 a2 a3 :: .sub a3 a0 a3 :: .label .head0 ::
      after .head0 memcpy) m (Done m₀ (mem.store dst (mem.load src n)) (Fits dst src n)) := by
  have hd := hs.toDst
  apply Reaches.next rfl
  apply Reaches.next rfl
  apply Reaches.next rfl
  apply Reaches.next rfl
  have hneg : m.reg a3 + -SZREG = -word (4 - dst % 4) := by
    rw [ha3]
    exact word_add_neg_of_le (b := 4) (by omega)
  have hpos : 0 < 4 - dst % 4 := by omega
  have hahead : Ahead dst src n := by
    rcases hapart with ha | ha
    · exact .inl (by omega)
    · exact .inr ha
  refine Copied.bytes (l := MemcpyLabel.head0) (t := a5) (k := 0) hs hahead (by decide) rfl
    ⟨h.copied.mem, h.copied.toDst, h.copied.toSrc, h.copied.accesses⟩ hpos (by omega) ?_ ?_
  · intro m' i _ hi ha0 hkeeps
    have hlim : m'.reg a3 = word (dst + (4 - dst % 4)) := by
      rw [hkeeps a3 (by decide)]
      show m.reg a0 - (m.reg a3 + -SZREG) = _
      rw [hneg, h.a0, BitVec.sub_eq_add_neg, BitVec.neg_neg, word_add]
    show branch m' _ _ = _
    rw [ha0, hlim, word_slt (by omega) (by omega) (by omega) (by omega)]
    exact congrArg _ (decide_eq_decide.mpr (by omega))
  · intro m' hcopied hkeeps
    apply Reaches.next rfl
    refine memcpy_words ⟨hs, hapart, by omega, by omega⟩ (by omega) hcopied ?_
      ⟨(hkeeps t2 (by decide)).trans hsaved.t2, (hkeeps s0 (by decide)).trans hsaved.s0,
        (hkeeps s1 (by decide)).trans hsaved.s1⟩
    rw [hkeeps a2 (by decide)]
    show m.reg a2 + (m.reg a3 + -SZREG) = _
    rw [hneg, h.a2, word_add_neg (by omega)]

/-- `memcpy` ends, with the bytes up to its stop copied. -/
theorem memcpy_reaches (hs : InSpace dst src n) (hapart : dst + n ≤ src ∨ src + n ≤ dst)
    (hhigh : 8 ≤ n → 2 ^ 31 ≤ dst) (h : Entry mem dst src n m) :
    Reaches memcpy memcpy m
      (Done m (mem.store dst (mem.load src (memcpyStop dst src n))) (Fits dst src n)) := by
  have hd := hs.toDst
  have hn := hs.size
  have hahead : Ahead dst src n := by
    rcases hapart with ha | ha
    · exact .inl (by omega)
    · exact .inr ha
  -- from `bops` on, which copies byte by byte
  have hbytes : ∀ m', m'.mem = m.mem → m'.log = m.log →
      (∀ r, r ∉ [a3, a4, t2] → m'.reg r = m.reg r) → m'.reg t2 = m.reg a0 →
      Reaches memcpy (after .bops memcpy) m'
        (Done m (mem.store dst (mem.load src (stopAt dst n 0))) (Fits dst src n)) := by
    intro m' hmem hlog hreg ht2
    have hc := h.copied
    refine memcpy_bops hs hahead ⟨hmem.trans hc.mem, (hreg a0 (by decide)).trans hc.toDst,
      (hreg a1 (by decide)).trans hc.toSrc, fun x hx => hc.accesses x (hlog ▸ hx)⟩ (Nat.zero_le n)
      ((hreg a2 (by decide)).trans h.a2) ⟨ht2, hreg s0 (by decide), hreg s1 (by decide)⟩
  apply Reaches.next rfl
  apply Reaches.next rfl
  -- first test: fewer than 8 bytes
  have htest : (m.reg a2).ult (2 * SZREG) = decide (n < 8) := by
    rw [h.a2]
    exact word_ult hn (by decide)
  apply Reaches.branch rfl
  · intro hlt
    have h8 : n < 8 := of_decide_eq_true (htest.symm.trans hlt)
    rw [memcpyStop, if_neg (by omega)]
    apply hbytes
    · rfl
    · rfl
    · intro r hr
      simp only [List.mem_cons, List.not_mem_nil, or_false, not_or] at hr
      rw [Machine.set_reg, if_neg hr.1, Machine.set_reg, if_neg hr.2.2]
    · rfl
  intro hge
  have h8 : ¬ n < 8 := of_decide_eq_false (htest.symm.trans hge)
  apply Reaches.next rfl
  apply Reaches.next rfl
  -- second test: the pointers are not aligned alike
  have halign : (word dst &&& (SZREG - 1) != word src &&& (SZREG - 1)) =
      decide (dst % 4 ≠ src % 4) := by
    rw [word_and_align, word_and_align, bne, beq_eq_decide, ← decide_not]
    exact decide_eq_decide.mpr (not_congr (word_inj (by omega) (by omega)))
  apply Reaches.branch (c := word dst &&& (SZREG - 1) != word src &&& (SZREG - 1))
  · show branch _ _ (m.reg a0 &&& (SZREG - 1) != m.reg a1 &&& (SZREG - 1)) = _
    rw [h.a0, h.a1]
  · intro hne
    rw [halign, decide_eq_true_eq] at hne
    rw [memcpyStop, if_neg (by omega)]
    apply hbytes
    · rfl
    · rfl
    · intro r hr
      simp only [List.mem_cons, List.not_mem_nil, or_false, not_or] at hr
      rw [Machine.set_reg, if_neg hr.2.1, Machine.set_reg, if_neg hr.1, Machine.set_reg,
        if_neg hr.1, Machine.set_reg, if_neg hr.2.2]
    · rfl
  · intro heq
    rw [halign, decide_eq_false_iff_not, not_not] at heq
    rw [memcpyStop, if_pos ⟨by omega, heq⟩]
    -- third test: they are aligned
    have ha3 : m.reg a0 &&& (SZREG - 1) = word (dst % 4) := by rw [h.a0, word_and_align]
    have hzero : (m.reg a0 &&& (SZREG - 1) == 0) = decide (dst % 4 = 0) := by
      rw [ha3, beq_eq_decide]
      exact decide_eq_decide.mpr (word_inj (by omega) (by decide))
    apply Reaches.branch rfl
    · intro hz
      -- word by word from the beginning
      have hd4 : dst % 4 = 0 := of_decide_eq_true (hzero.symm.trans hz)
      have hc := h.copied
      exact memcpy_words (k := 0) ⟨hs, hapart, by omega, by omega⟩ (Nat.zero_le n)
        ⟨hc.mem, hc.toDst, hc.toSrc, hc.accesses⟩ h.a2 ⟨rfl, rfl, rfl⟩
    · intro _
      -- the bytes in front of the first whole word come first
      exact memcpy_head hs hapart (hhigh (by omega)) (by omega) heq ⟨h.mem, h.a0, h.a1, h.a2, h.log⟩
        ha3 ⟨rfl, rfl, rfl⟩

end Karnix.Memops
