import Karnix.Memops.Copying

/-!
# memset

The chunks are those of `memcpy`, and one size larger.  The byte is spread over a word before.
-/

namespace Karnix.Memops

open Karnix.Library Karnix.Library.Rv32
open Reg

variable {rest : Code MemsetLabel} {Q : Machine → Prop} {m m₀ : Machine}
variable {mem : Memory Byte} {dst n k w j : ℕ} {c : Byte}

/-- Nothing is loaded, and stores are aligned and within their range. -/
def OnlyStores (dst n : ℕ) : Access → Prop
  | .load _ _ => False
  | .store addr width => width ∣ addr ∧ Within dst n addr width

/-! ## Section 1: Bytes -/

/-- The first `k` of `n` bytes are set to `c`. -/
structure Filled (m₀ : Machine) (mem : Memory Byte) (dst n : ℕ) (c : Byte) (k : ℕ) (m : Machine) :
    Prop where
  mem : m.mem = mem.store dst (List.replicate k c)
  toDst : m.reg a5 = word (dst + k)
  value : (m.reg a1).setWidth 8 = c
  keeps : Keeps [a1, a2, a3, a4, a5] m₀ m
  accesses : ∀ x ∈ m.log, OnlyStores dst n x

theorem store_replicate_add :
    (mem.store dst (List.replicate k c)).store (dst + k) (List.replicate w c) =
      mem.store dst (List.replicate (k + w) c) := by
  rw [List.replicate_add, Memory.store_append, List.length_replicate]

/-- **Step lemma.** One byte more is filled. -/
theorem Filled.byte (hd : dst + n ≤ 2 ^ 32) (h : Filled m₀ mem dst n c k m) (hk : k < n)
    (hr : ∀ m', Filled m₀ mem dst n c (k + 1) m' → Keeps [a5] m m' → Reaches memset rest m' Q) :
    Reaches memset (.sb a1 0 a5 :: .addi a5 a5 1 :: rest) m Q := by
  have haddr : (m.reg a5 + 0).toNat = dst + k := by
    rw [h.toDst, show (0 : Word) = word 0 from rfl, word_add, Nat.add_zero, toNat_word (by omega)]
  apply Reaches.next rfl
  apply Reaches.next rfl
  apply hr
  · refine ⟨?_, ?_, h.value, ?_, ?_⟩
    · show m.mem.store (m.reg a5 + 0).toNat [(m.reg a1).setWidth 8] = _
      rw [haddr, h.value, h.mem]
      exact store_replicate_add (w := 1)
    · show m.reg a5 + 1 = _
      rw [h.toDst]
      exact word_add (dst + k) 1
    · intro r hr'
      rw [Machine.set_reg, if_neg (by simp at hr'; exact hr'.2.2.2.2)]
      exact h.keeps r hr'
    · intro x hx
      rcases List.mem_cons.mp hx with rfl | hx
      · rw [haddr]
        exact ⟨one_dvd _, by omega, by omega⟩
      · exact h.accesses x hx
  · intro r hr'
    rw [Machine.set_reg, if_neg (List.mem_singleton.not.mp hr')]
    rfl

/-- **Run lemma.** The loop over bytes, with any test. -/
theorem Filled.bytes {l : MemsetLabel} {test : Line MemsetLabel} {stop : ℕ}
    (hd : dst + n ≤ 2 ^ 32) (hcode : after l memset = .sb a1 0 a5 :: .addi a5 a5 1 :: test :: rest)
    (h : Filled m₀ mem dst n c k m) (hk : k < stop) (hstop : stop ≤ n)
    (htest : ∀ m' i, k ≤ i → i < stop → m'.reg a5 = word (dst + (i + 1)) → Keeps [a5] m m' →
      exec m' test = branch m' l (decide (i + 1 < stop)))
    (hr : ∀ m', Filled m₀ mem dst n c stop m' → Keeps [a5] m m' → Reaches memset rest m' Q) :
    Reaches memset (after l memset) m Q := by
  apply Reaches.doWhile rest (I := fun i m' => k ≤ i ∧ Filled m₀ mem dst n c i m' ∧ Keeps [a5] m m')
    ?_ (fun m' hI => hr m' hI.2.1 hI.2.2) hk ⟨Nat.le_refl k, h, fun _ _ => rfl⟩
  rintro i m' hi ⟨hki, hfilled, hkeeps⟩ hagain hdone
  rw [hcode]
  apply hfilled.byte hd (Nat.lt_of_lt_of_le hi hstop)
  intro m'' hfilled' hkeeps'
  have hkeeps'' := hkeeps.trans hkeeps'
  have hki' : k ≤ i + 1 := Nat.le_succ_of_le hki
  apply Reaches.branch (htest m'' i hki hi hfilled'.toDst hkeeps'')
  · intro hlt
    exact hagain m'' ⟨hki', hfilled', hkeeps''⟩ (of_decide_eq_true hlt)
  · intro hge
    have hge' : ¬ i + 1 < stop := of_decide_eq_false hge
    exact hdone m'' ⟨hki', hfilled', hkeeps''⟩ (by omega)

/-- The end of `memset`: the bytes that are left are filled one by one. -/
theorem memset_l9 {stop : ℕ} (h : Filled m₀ mem dst n c stop m) :
    Reaches memset (after .l9 memset) m
      (Done m₀ (mem.store dst (List.replicate stop c)) (OnlyStores dst n)) :=
  Reaches.halt ⟨h.mem, h.keeps _ (by decide), h.keeps _ (by decide), h.keeps _ (by decide),
    h.accesses⟩

/-- The tail, of one byte at least. -/
theorem memset_bops (hd : dst + n ≤ 2 ^ 32) (h : Filled m₀ mem dst n c k m) (hk : k < n)
    (ha2 : m.reg a2 = word (n - k)) :
    Reaches memset (after .bops memset) m
      (Done m₀ (mem.store dst (List.replicate (stopAt dst n k) c)) (OnlyStores dst n)) := by
  apply Reaches.next rfl
  apply Reaches.next rfl
  have hstop : k < stopAt dst n k := lt_stopAt hk
  have hfilled : Filled m₀ mem dst n c k (m.set a2 (m.reg a2 + m.reg a5)) := by
    refine ⟨h.mem, h.toDst, h.value, ?_, h.accesses⟩
    intro r hr
    rw [Machine.set_reg, if_neg (by simp at hr; exact hr.2.1)]
    exact h.keeps r hr
  apply hfilled.bytes (l := MemsetLabel.tail0) hd rfl hstop stopAt_le
  · intro m' i hki hi ha5 hkeeps
    have hlim : m'.reg a2 = word (dst + n) := by
      rw [hkeeps a2 (by decide), Machine.set_reg, if_pos rfl, ha2, h.toDst, word_add]
      congr 1
      omega
    show branch m' _ _ = _
    rw [ha5, hlim, tail_test hd hki hi]
  · intro m' hfilled' _
    apply Reaches.next rfl
    exact memset_l9 hfilled'

/-! ## Section 2: Chunks -/

/-- Between two chunks: what is filled, and what the registers hold. -/
structure Filling (m₀ : Machine) (mem : Memory Byte) (dst n : ℕ) (c : Byte) (k : ℕ) (m : Machine) :
    Prop where
  filled : Filled m₀ mem dst n c k m
  wide : leBytes32 (m.reg a1) = List.replicate 4 c
  a2 : m.reg a2 = word (n - k)
  a4 : m.reg a4 = word 128

/-- The memory when the bytes from `j` on of a chunk of `w` bytes are set, and the first `k`. -/
def fillMem (mem : Memory Byte) (dst : ℕ) (c : Byte) (k w j : ℕ) : Memory Byte :=
  (mem.store dst (List.replicate k c)).store (dst + k + j) (List.replicate (w - j) c)

/-- Within a chunk of `w` bytes: its bytes from `j` on are set. -/
structure FillChunk (m₀ : Machine) (mem : Memory Byte) (dst n : ℕ) (c : Byte) (k w j : ℕ)
    (m : Machine) : Prop where
  mem : m.mem = fillMem mem dst c k w j
  toDst : m.reg a5 = word (dst + k)
  wide : leBytes32 (m.reg a1) = List.replicate 4 c
  a2 : m.reg a2 = word (n - k)
  a3 : m.reg a3 = word w
  a4 : m.reg a4 = word 128
  keeps : Keeps [a1, Reg.a2, Reg.a3, Reg.a4, a5] m₀ m
  accesses : ∀ x ∈ m.log, OnlyStores dst n x

theorem fillMem_front {v : ℕ} (h : j + v ≤ w) :
    (fillMem mem dst c k w (j + v)).store (dst + k + j) (List.replicate v c) =
      fillMem mem dst c k w j := by
  have hrest : w - j = v + (w - (j + v)) := by omega
  rw [fillMem, fillMem, hrest, List.replicate_add, ← Nat.add_assoc,
    Memory.store_store_front _ _ List.length_replicate]

/-- The low byte of a word of equal bytes. -/
theorem setWidth_of_wide {v : Word} (h : leBytes32 v = List.replicate 4 c) : v.setWidth 8 = c :=
  List.cons.inj h |>.1

theorem Filling.chunk (h : Filling m₀ mem dst n c k m) (ha3 : m.reg a3 = word w) :
    FillChunk m₀ mem dst n c k w w m := by
  refine ⟨?_, h.filled.toDst, h.wide, h.a2, ha3, h.a4, h.filled.keeps, h.filled.accesses⟩
  rw [h.filled.mem, fillMem, Nat.sub_self, List.replicate_zero, Memory.store_nil]

/-- The bytes of a word, stored again and again. -/
theorem bytes_replicate (h : leBytes32 (m.reg a1) = List.replicate 4 c) (i : ℕ) :
    m.bytes (List.replicate i a1) = List.replicate (4 * i) c := by
  induction i with
  | zero => rfl
  | succ i ih =>
    have hcons : m.bytes (List.replicate (i + 1) a1) =
        leBytes32 (m.reg a1) ++ m.bytes (List.replicate i a1) := rfl
    rw [hcons, ih, h, ← List.replicate_add, Nat.mul_succ, Nat.add_comm]

/-- **Step lemma.** A row of `i` words, in front of the bytes that are already set. -/
theorem FillChunk.front {i : ℕ} (hd : dst + n ≤ 2 ^ 32) (hd4 : 4 ∣ dst + k) (hj : 4 ∣ j)
    (hjw : j + 4 * i ≤ w) (hw : k + w ≤ n) (h : FillChunk m₀ mem dst n c k w (j + 4 * i) m)
    (hr : ∀ m', FillChunk m₀ mem dst n c k w j m' → Reaches memset rest m' Q) :
    Reaches memset (Rv32.stores a5 j (List.replicate i a1) ++ rest) m Q := by
  have hlen : (List.replicate i a1).length = i := List.length_replicate
  apply Reaches.stores h.toDst (by rw [hlen]; omega)
  intro m' hreg hmem hlog
  apply hr
  refine ⟨?_, hreg ▸ h.toDst, hreg ▸ h.wide, hreg ▸ h.a2, hreg ▸ h.a3, hreg ▸ h.a4, ?_, ?_⟩
  · rw [hmem, bytes_replicate h.wide, h.mem, fillMem_front hjw]
  · intro r hr'
    rw [hreg]
    exact h.keeps r hr'
  · intro x hx
    have hdj := Nat.dvd_add hd4 hj
    rcases hlog x hx with hx | ⟨q, hq, rfl⟩
    · exact h.accesses x hx
    · rw [hlen] at hq
      exact ⟨Nat.dvd_add hdj (Nat.dvd_mul_right 4 q), by omega, by omega⟩

/-- The end of a chunk: the pointer goes on. -/
theorem memset_l5 (hd : dst + n ≤ 2 ^ 32) (hd4 : 4 ∣ dst + k) (hw : k + w ≤ n) (hw4 : 4 ≤ w)
    (h : FillChunk m₀ mem dst n c k w 4 m)
    (hr : ∀ m', Filling m₀ mem dst n c (k + w) m' → m'.reg a3 = word w →
      Reaches memset (after .l6 memset) m' Q) :
    Reaches memset (after .l5 memset) m Q := by
  apply FillChunk.front (i := 1) (j := 0) hd hd4 (Nat.dvd_zero 4) hw4 hw h
  intro m' h'
  apply Reaches.next rfl
  apply Reaches.next rfl
  apply Reaches.next rfl
  refine hr _ ⟨⟨?_, ?_, setWidth_of_wide h'.wide, ?_, h'.accesses⟩, h'.wide, ?_, h'.a4⟩ h'.a3
  · show m'.mem = _
    rw [h'.mem, fillMem, Nat.add_zero, Nat.sub_zero, store_replicate_add]
  · show m'.reg a5 + m'.reg a3 = _
    rw [h'.toDst, h'.a3, word_add, Nat.add_assoc]
  · intro r hr'
    simp only [List.mem_cons, List.not_mem_nil, or_false, not_or] at hr'
    rw [Machine.set_reg, if_neg hr'.2.1, Machine.set_reg, if_neg hr'.2.2.2.2]
    exact h'.keeps r (by simp [hr'])
  · show m'.reg a2 - m'.reg a3 = _
    rw [h'.a2, h'.a3, word_sub (by omega), Nat.sub_sub]

theorem memset_l4 (hd : dst + n ≤ 2 ^ 32) (hd4 : 4 ∣ dst + k) (hw : k + w ≤ n) (hw8 : 8 ≤ w)
    (h : FillChunk m₀ mem dst n c k w 8 m)
    (hr : ∀ m', Filling m₀ mem dst n c (k + w) m' → m'.reg a3 = word w →
      Reaches memset (after .l6 memset) m' Q) :
    Reaches memset (after .l4 memset) m Q := by
  apply FillChunk.front (i := 1) (j := 4) hd hd4 (by decide) hw8 hw h
  intro m' h'
  apply Reaches.next rfl
  exact memset_l5 hd hd4 hw (by omega) h' hr

theorem memset_l3 (hd : dst + n ≤ 2 ^ 32) (hd4 : 4 ∣ dst + k) (hw : k + w ≤ n) (hw16 : 16 ≤ w)
    (h : FillChunk m₀ mem dst n c k w 16 m)
    (hr : ∀ m', Filling m₀ mem dst n c (k + w) m' → m'.reg a3 = word w →
      Reaches memset (after .l6 memset) m' Q) :
    Reaches memset (after .l3 memset) m Q := by
  apply FillChunk.front (i := 2) (j := 8) hd hd4 (by decide) hw16 hw h
  intro m' h'
  apply Reaches.next rfl
  exact memset_l4 hd hd4 hw (by omega) h' hr

theorem memset_l2 (hd : dst + n ≤ 2 ^ 32) (hd4 : 4 ∣ dst + k) (hw : k + w ≤ n) (hw32 : 32 ≤ w)
    (h : FillChunk m₀ mem dst n c k w 32 m)
    (hr : ∀ m', Filling m₀ mem dst n c (k + w) m' → m'.reg a3 = word w →
      Reaches memset (after .l6 memset) m' Q) :
    Reaches memset (after .l2 memset) m Q := by
  apply FillChunk.front (i := 4) (j := 16) hd hd4 (by decide) hw32 hw h
  intro m' h'
  apply Reaches.next rfl
  exact memset_l3 hd hd4 hw (by omega) h' hr

theorem memset_l1 (hd : dst + n ≤ 2 ^ 32) (hd4 : 4 ∣ dst + k) (hw : k + w ≤ n) (hw64 : 64 ≤ w)
    (h : FillChunk m₀ mem dst n c k w 64 m)
    (hr : ∀ m', Filling m₀ mem dst n c (k + w) m' → m'.reg a3 = word w →
      Reaches memset (after .l6 memset) m' Q) :
    Reaches memset (after .l1 memset) m Q := by
  apply FillChunk.front (i := 8) (j := 32) hd hd4 (by decide) hw64 hw h
  intro m' h'
  apply Reaches.next rfl
  exact memset_l2 hd hd4 hw (by omega) h' hr

theorem memset_l0 (hd : dst + n ≤ 2 ^ 32) (hd4 : 4 ∣ dst + k) (hw : k + w ≤ n)
    (hw128 : 128 ≤ w)
    (h : FillChunk m₀ mem dst n c k w 128 m)
    (hr : ∀ m', Filling m₀ mem dst n c (k + w) m' → m'.reg a3 = word w →
      Reaches memset (after .l6 memset) m' Q) :
    Reaches memset (after .l0 memset) m Q := by
  apply FillChunk.front (i := 16) (j := 64) hd hd4 (by decide) hw128 hw h
  intro m' h'
  apply Reaches.next rfl
  exact memset_l1 hd hd4 hw (by omega) h' hr

/-! ## Section 3: The chunks one after the other -/

theorem Filling.setA3 (h : Filling m₀ mem dst n c k m) (v : Word) :
    Filling m₀ mem dst n c k (m.set a3 v) := by
  refine ⟨⟨h.filled.mem, h.filled.toDst, h.filled.value, ?_, h.filled.accesses⟩, h.wide, h.a2, h.a4⟩
  intro r hr
  rw [Machine.set_reg, if_neg (by simp at hr; exact hr.2.2.1)]
  exact h.filled.keeps r hr

/-- One test for a chunk of `w` bytes. -/
theorem fill_test {r : Reg} {l : MemsetLabel} (hk : k ≤ n) (hn : n < 2 ^ 32)
    (hw : m.reg r >>> 1 = word w) (hw' : w < 2 ^ 32) (h : Filling m₀ mem dst n c k m)
    (htaken : ∀ m', Filling m₀ mem dst n c k m' → m'.reg a3 = word w → k + w ≤ n →
      Reaches memset (after l memset) m' Q)
    (hnot : ∀ m', Filling m₀ mem dst n c k m' → m'.reg a3 = word w → n < k + w →
      Reaches memset rest m' Q) :
    Reaches memset (.srli a3 r 1 :: .bgeu a2 a3 l :: rest) m Q := by
  apply Reaches.next rfl
  have h' := h.setA3 (m.reg r >>> 1)
  have ha3 : (m.set a3 (m.reg r >>> 1)).reg a3 = word w := by
    rw [Machine.set_reg, if_pos rfl, hw]
  have htest : (!((m.set a3 (m.reg r >>> 1)).reg a2).ult ((m.set a3 (m.reg r >>> 1)).reg a3)) =
      decide (k + w ≤ n) := by
    rw [h'.a2, ha3, word_ult (by omega) hw', ← decide_not]
    exact decide_eq_decide.mpr (by omega)
  apply Reaches.branch rfl
  · intro hge
    exact htaken _ h' ha3 (of_decide_eq_true (htest.symm.trans hge))
  · intro hlt
    exact hnot _ h' ha3 (Nat.lt_of_not_le (of_decide_eq_false (htest.symm.trans hlt)))

/-- A smaller chunk, or the tail, with something left. -/
theorem memset_l7 (hd : dst + n ≤ 2 ^ 32) (hn : n < 2 ^ 32) (hd4 : 4 ∣ dst + k) (hk : k < n)
    (h : Filling m₀ mem dst n c k m)
    (hr : ∀ m' w, 4 ∣ w → 0 < w → k + w ≤ n → Filling m₀ mem dst n c (k + w) m' →
      Reaches memset (after .l6 memset) m' Q)
    (htail : ∀ m', n < k + 4 → Filling m₀ mem dst n c k m' →
      Reaches memset (after .bops memset) m' Q) :
    Reaches memset (after .l7 memset) m Q := by
  apply fill_test (w := 64) hk.le hn (by rw [h.a4]; rfl) (by decide) h
  · intro m' h' ha3 hw
    exact memset_l1 hd hd4 hw (by decide) (h'.chunk ha3) fun m'' h'' _ =>
      hr m'' 64 (by decide) (by decide) hw h''
  intro m₁ h₁ ha3 _
  apply fill_test (w := 32) hk.le hn (by rw [ha3]; rfl) (by decide) h₁
  · intro m' h' ha3 hw
    exact memset_l2 hd hd4 hw (by decide) (h'.chunk ha3) fun m'' h'' _ =>
      hr m'' 32 (by decide) (by decide) hw h''
  intro m₂ h₂ ha3 _
  apply fill_test (w := 16) hk.le hn (by rw [ha3]; rfl) (by decide) h₂
  · intro m' h' ha3 hw
    exact memset_l3 hd hd4 hw (by decide) (h'.chunk ha3) fun m'' h'' _ =>
      hr m'' 16 (by decide) (by decide) hw h''
  intro m₃ h₃ ha3 _
  apply fill_test (w := 8) hk.le hn (by rw [ha3]; rfl) (by decide) h₃
  · intro m' h' ha3 hw
    exact memset_l4 hd hd4 hw (by decide) (h'.chunk ha3) fun m'' h'' _ =>
      hr m'' 8 (by decide) (by decide) hw h''
  intro m₄ h₄ ha3 _
  apply fill_test (w := 4) hk.le hn (by rw [ha3]; rfl) (by decide) h₄
  · intro m' h' ha3 hw
    exact memset_l5 hd hd4 hw (by decide) (h'.chunk ha3) fun m'' h'' _ =>
      hr m'' 4 (by decide) (by decide) hw h''
  intro m₅ h₅ _ h4
  apply Reaches.next rfl
  exact htail m₅ h4 h₅

/-- The tail of less than a word, behind the words. -/
theorem memset_rest (hd : dst + n ≤ 2 ^ 32) (hd4 : 4 ∣ dst + k) (hk : k < n) (h4 : n < k + 4)
    (h : Filling m₀ mem dst n c k m) :
    Reaches memset (after .bops memset) m
      (Done m₀ (mem.store dst (List.replicate n c)) (OnlyStores dst n)) := by
  have htail := memset_bops hd h.filled hk h.a2
  rwa [stopAt_aligned hk.le h4 hd4] at htail

/-- **Run lemma.** From the end of a chunk on. -/
theorem memset_l6 (hd : dst + n ≤ 2 ^ 32) (hn : n < 2 ^ 32) (hd4 : 4 ∣ dst + k) (hk : k ≤ n)
    (h : Filling m₀ mem dst n c k m) (ha3 : k + 128 ≤ n → m.reg a3 = word 128) :
    Reaches memset (after .l6 memset) m
      (Done m₀ (mem.store dst (List.replicate n c)) (OnlyStores dst n)) := by
  induction hleft : n - k using Nat.strong_induction_on generalizing k m with
  | _ left ih =>
    subst hleft
    have htest : (!(m.reg a2).ult (m.reg a4)) = decide (k + 128 ≤ n) := by
      rw [h.a2, h.a4, word_ult (by omega) (by decide), ← decide_not]
      exact decide_eq_decide.mpr (by omega)
    have hzero : (m.reg a2 == 0) = decide (k = n) := by
      rw [h.a2, beq_eq_decide, show (0 : Word) = word 0 from rfl]
      apply decide_eq_decide.mpr
      rw [word_inj (by omega) (by decide)]
      omega
    apply Reaches.branch rfl
    · intro hge
      have hge' : k + 128 ≤ n := of_decide_eq_true (htest.symm.trans hge)
      apply memset_l0 hd hd4 hge' (by decide) (h.chunk (ha3 hge'))
      intro m' h' ha3'
      exact ih (n - (k + 128)) (by omega) (by omega) hge' h' (fun _ => ha3') rfl
    intro hlt
    have hlt' : ¬ k + 128 ≤ n := of_decide_eq_false (htest.symm.trans hlt)
    apply Reaches.branch rfl
    · intro hz
      obtain rfl : k = n := of_decide_eq_true (hzero.symm.trans hz)
      exact memset_l9 h.filled
    · intro hpos
      have hpos' : ¬ k = n := of_decide_eq_false (hzero.symm.trans hpos)
      apply Reaches.next rfl
      apply memset_l7 hd hn hd4 (by omega) h
      · intro m' w hw4 hw0 hw h'
        exact ih (n - (k + w)) (by omega) (by omega) hw h' (fun hmore => by omega) rfl
      · intro m' h4 h'
        exact memset_rest hd hd4 (by omega) h4 h'

/-- From the first test on. -/
theorem memset_loop (hd : dst + n ≤ 2 ^ 32) (hn : n < 2 ^ 32) (hd4 : 4 ∣ dst + k) (hk : k < n)
    (h : Filling m₀ mem dst n c k m) (ha3 : m.reg a3 = word 128) :
    Reaches memset (.bltu a2 a4 .l7 :: .label .l0 :: after .l0 memset) m
      (Done m₀ (mem.store dst (List.replicate n c)) (OnlyStores dst n)) := by
  have htest : (m.reg a2).ult (m.reg a4) = decide (n < k + 128) := by
    rw [h.a2, h.a4, word_ult (by omega) (by decide)]
    exact decide_eq_decide.mpr (by omega)
  apply Reaches.branch rfl
  · intro hlt
    have hlt' : n < k + 128 := of_decide_eq_true (htest.symm.trans hlt)
    apply memset_l7 hd hn hd4 hk h
    · intro m' w hw4 _ hw h'
      exact memset_l6 hd hn (by omega) hw h' (fun hmore => by omega)
    · intro m' h4 h'
      exact memset_rest hd hd4 hk h4 h'
  · intro hge
    have hge' : ¬ n < k + 128 := of_decide_eq_false (htest.symm.trans hge)
    apply Reaches.next rfl
    apply memset_l0 hd hd4 (by omega) (by decide) (h.chunk ha3)
    intro m' h' ha3'
    exact memset_l6 hd hn (by omega) (by omega) h' (fun _ => ha3')

/-! ## Section 4: The whole function -/

/-- The byte is spread over the whole word. -/
theorem leBytes32_spread (v : Word) :
    let low := v &&& 255
    let half := low ||| low <<< 8
    leBytes32 (half ||| half <<< 16) = List.replicate 4 (v.setWidth 8) := by
  intro low half
  have hlow : ∀ i, low.getLsbD i = (decide (i < 8) && v.getLsbD i) := by
    intro i
    have h255 : (255 : Word) = BitVec.ofNat 32 (2 ^ 8 - 1) := rfl
    simp only [low, BitVec.getLsbD_and, h255, BitVec.getLsbD_ofNat, Nat.testBit_two_pow_sub_one]
    rcases Nat.lt_or_ge i 8 with h | h
    · have : i < 32 := by omega
      simp [h, this]
    · simp [Nat.not_lt.mpr h]
  have hbyte : ∀ k, k < 4 → ((half ||| half <<< 16) >>> (8 * k)).setWidth 8 = v.setWidth 8 := by
    intro k hk
    apply BitVec.eq_of_getLsbD_eq
    intro i hi
    simp only [half, BitVec.getLsbD_setWidth, BitVec.getLsbD_ushiftRight, BitVec.getLsbD_or,
      BitVec.getLsbD_shiftLeft, hlow]
    interval_cases k <;> interval_cases i <;> simp
  have hfirst : (half ||| half <<< 16).setWidth 8 = v.setWidth 8 := by
    simpa using hbyte 0 (by decide)
  simp only [leBytes32, List.replicate_succ, List.replicate_zero, List.cons.injEq, and_true]
  exact ⟨hfirst, hbyte 1 (by decide), hbyte 2 (by decide), hbyte 3 (by decide)⟩

/-- From the label `1` on: the word is made. -/
theorem memset_word1 (hd : dst + n ≤ 2 ^ 32) (hn : n < 2 ^ 32) (hd4 : 4 ∣ dst + k) (hk : k < n)
    (h : Filled m₀ mem dst n c k m) (hwide : leBytes32 (m.reg a1) = List.replicate 4 c)
    (ha2 : m.reg a2 = word (n - k)) :
    Reaches memset (after .word1 memset) m
      (Done m₀ (mem.store dst (List.replicate n c)) (OnlyStores dst n)) := by
  apply Reaches.next rfl
  apply Reaches.next rfl
  refine memset_loop hd hn hd4 hk ⟨⟨h.mem, h.toDst, h.value, ?_, h.accesses⟩, hwide, ha2, rfl⟩ rfl
  intro r hr
  simp only [List.mem_cons, List.not_mem_nil, or_false, not_or] at hr
  rw [Machine.set_reg, if_neg hr.2.2.1, Machine.set_reg, if_neg hr.2.2.2.1]
  exact h.keeps r (by simp [hr])

/-- From the label `.Lmemset_main` on. -/
theorem memset_main (hd : dst + n ≤ 2 ^ 32) (hn : n < 2 ^ 32) (hd4 : 4 ∣ dst + k) (hk : k < n)
    (h : Filled m₀ mem dst n c k m) (ha2 : m.reg a2 = word (n - k)) :
    Reaches memset (after .main memset) m
      (Done m₀ (mem.store dst (List.replicate n c)) (OnlyStores dst n)) := by
  apply Reaches.branch rfl
  · intro hz
    have hz' : m.reg a1 = 0 := eq_of_beq hz
    apply memset_word1 hd hn hd4 hk h _ ha2
    rw [hz', ← h.value, hz']
    rfl
  · intro _
    apply Reaches.next rfl
    apply Reaches.next rfl
    apply Reaches.next rfl
    apply Reaches.next rfl
    apply Reaches.next rfl
    apply Reaches.next rfl
    have hwide := leBytes32_spread (m.reg a1)
    rw [h.value] at hwide
    refine memset_word1 hd hn hd4 hk ⟨h.mem, h.toDst, setWidth_of_wide hwide, ?_, h.accesses⟩
      hwide ha2
    intro r hr
    simp only [List.mem_cons, List.not_mem_nil, or_false, not_or] at hr
    simp only [Machine.set_reg, if_neg hr.1, if_neg hr.2.2.1]
    exact h.keeps r (by simp [hr])

/-- How many bytes `memset` sets: the loop over words does not compare addresses. -/
def memsetStop (dst n : ℕ) : ℕ := if 8 ≤ n then n else stopAt dst n 0

/-- The head: bytes up to the first word. -/
theorem memset_head (hd : dst + n ≤ 2 ^ 32) (hn : n < 2 ^ 32) (hhigh : 2 ^ 31 ≤ dst) (h8 : 8 ≤ n)
    (h : Filled m₀ mem dst n c 0 m) (ha2 : m.reg a2 = word n) (ha3 : m.reg a3 = word (dst % 4)) :
    Reaches memset (.addi a3 a3 (-SZREG) :: .add a2 a2 a3 :: .sub a3 a5 a3 :: .label .head0 ::
      after .head0 memset) m
      (Done m₀ (mem.store dst (List.replicate n c)) (OnlyStores dst n)) := by
  apply Reaches.next rfl
  apply Reaches.next rfl
  apply Reaches.next rfl
  apply Reaches.next rfl
  have hneg : m.reg a3 + -SZREG = -word (4 - dst % 4) := by
    rw [ha3]
    exact word_add_neg_of_le (b := 4) (by omega)
  have hpos : 0 < 4 - dst % 4 := by omega
  have hstart : Filled m₀ mem dst n c 0 (((m.set a3 (m.reg a3 + -SZREG)).set a2
      (m.reg a2 + (m.reg a3 + -SZREG))).set a3 (m.reg a5 - (m.reg a3 + -SZREG))) := by
    refine ⟨h.mem, h.toDst, h.value, ?_, h.accesses⟩
    intro r hr
    simp only [List.mem_cons, List.not_mem_nil, or_false, not_or] at hr
    simp only [Machine.set_reg, if_neg hr.2.1, if_neg hr.2.2.1]
    exact h.keeps r (by simp [hr])
  refine hstart.bytes (l := MemsetLabel.head0) hd rfl hpos (by omega) ?_ ?_
  · intro m' i _ hi ha5 hkeeps
    have hlim : m'.reg a3 = word (dst + (4 - dst % 4)) := by
      rw [hkeeps a3 (by decide)]
      show m.reg a5 - (m.reg a3 + -SZREG) = _
      rw [hneg, h.toDst, BitVec.sub_eq_add_neg, BitVec.neg_neg, word_add, Nat.add_zero]
    show branch m' _ _ = _
    rw [ha5, hlim, word_slt (by omega) (by omega) (by omega) (by omega)]
    exact congrArg _ (decide_eq_decide.mpr (by omega))
  · intro m' hfilled hkeeps
    apply Reaches.next rfl
    apply memset_main hd hn (by omega) (by omega) hfilled
    rw [hkeeps a2 (by decide)]
    show m.reg a2 + (m.reg a3 + -SZREG) = _
    rw [hneg, ha2, word_add_neg (by omega)]

/-- `memset` ends, with the bytes up to its stop set. -/
theorem memset_reaches (hd : dst + n ≤ 2 ^ 32) (hn : n < 2 ^ 32) (hhigh : 8 ≤ n → 2 ^ 31 ≤ dst)
    (hmem : m.mem = mem) (ha0 : m.reg a0 = word dst) (ha1 : (m.reg a1).setWidth 8 = c)
    (ha2 : m.reg a2 = word n) (hlog : m.log = []) :
    Reaches memset memset m
      (Done m (mem.store dst (List.replicate (memsetStop dst n) c)) (OnlyStores dst n)) := by
  have hfilled : Filled m mem dst n c 0 ((m.set a5 (m.reg a0)).set a3 (2 * SZREG)) := by
    refine ⟨hmem.trans (Memory.store_nil ..).symm, ha0, ha1, ?_, ?_⟩
    · intro r hr
      simp only [List.mem_cons, List.not_mem_nil, or_false, not_or] at hr
      simp only [Machine.set_reg, if_neg hr.2.2.1, if_neg hr.2.2.2.2]
    · intro x hx
      exact absurd (hlog ▸ hx : x ∈ []) List.not_mem_nil
  have hzero : (m.reg a2 == 0) = decide (n = 0) := by
    rw [ha2, beq_eq_decide]
    exact decide_eq_decide.mpr (word_inj hn (by decide))
  -- first test: nothing is to be set
  apply Reaches.branch rfl
  · intro hz
    obtain rfl : n = 0 := of_decide_eq_true (hzero.symm.trans hz)
    have hstop : memsetStop dst 0 = 0 := by
      rw [memsetStop, if_neg (by decide), stopAt_of_le (Nat.le_refl 0) (Nat.zero_le 1)]
    rw [hstop]
    exact Reaches.halt ⟨hmem.trans (Memory.store_nil ..).symm, rfl, rfl, rfl,
      fun x hx => absurd (hlog ▸ hx : x ∈ []) List.not_mem_nil⟩
  intro hpos
  have hpos' : ¬ n = 0 := of_decide_eq_false (hzero.symm.trans hpos)
  apply Reaches.next rfl
  apply Reaches.next rfl
  have htest : (m.reg a2).ult (2 * SZREG) = decide (n < 8) := by
    rw [ha2]
    exact word_ult hn (by decide)
  -- second test: fewer than 8 bytes
  apply Reaches.branch rfl
  · intro hlt
    have h8 : n < 8 := of_decide_eq_true (htest.symm.trans hlt)
    rw [memsetStop, if_neg (by omega)]
    exact memset_bops hd hfilled (by omega) ha2
  intro hge
  have h8 : ¬ n < 8 := of_decide_eq_false (htest.symm.trans hge)
  rw [memsetStop, if_pos (by omega)]
  apply Reaches.next rfl
  have ha3 : m.reg a0 &&& (SZREG - 1) = word (dst % 4) := by rw [ha0, word_and_align]
  have halign : (m.reg a0 &&& (SZREG - 1) == 0) = decide (dst % 4 = 0) := by
    rw [ha3, beq_eq_decide]
    exact decide_eq_decide.mpr (word_inj (by omega) (by decide))
  have hfilled' : Filled m mem dst n c 0 (((m.set a5 (m.reg a0)).set a3 (2 * SZREG)).set a3
      (m.reg a0 &&& (SZREG - 1))) := by
    refine ⟨hfilled.mem, hfilled.toDst, hfilled.value, ?_, hfilled.accesses⟩
    intro r hr
    rw [Machine.set_reg, if_neg (by simp at hr; exact hr.2.2.1)]
    exact hfilled.keeps r hr
  -- third test: the address is aligned
  apply Reaches.branch rfl
  · intro hz
    have hd4 : dst % 4 = 0 := of_decide_eq_true (halign.symm.trans hz)
    exact memset_main hd hn (by omega) (by omega) hfilled' ha2
  · intro _
    exact memset_head hd hn (hhigh (by omega)) (by omega) hfilled' ha2 ha3

end Karnix.Memops
