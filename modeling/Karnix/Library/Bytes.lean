import Karnix.Library.Memory
import Mathlib.Tactic.IntervalCases

/-!
# Bytes and words

Big-endian and little-endian views of 16- and 32-bit words, and images of C objects: a
fixed number of bytes in which ranges can be read and overwritten.
-/

namespace Karnix.Library

/-- A byte of memory or of a frame. -/
abbrev Byte := BitVec 8

/-- Bytes are compared by their values. -/
instance lawfulBEqByte : LawfulBEq Byte := inferInstance

/-! ## Words -/

/-- The word whose bytes are `hi, lo`, most significant first. -/
def be16 (hi lo : Byte) : BitVec 16 := hi.setWidth 16 <<< 8 ||| lo.setWidth 16

/-- The word whose bytes are `b₀, b₁, b₂, b₃`, most significant first. -/
def be32 (b₀ b₁ b₂ b₃ : Byte) : BitVec 32 :=
  b₀.setWidth 32 <<< 24 ||| b₁.setWidth 32 <<< 16 ||| b₂.setWidth 32 <<< 8 ||| b₃.setWidth 32

/-- The bytes of a word as a little-endian machine stores them. -/
def leBytes16 (w : BitVec 16) : List Byte := [w.setWidth 8, (w >>> 8).setWidth 8]

/-- The bytes of a word as a little-endian machine stores them. -/
def leBytes32 (w : BitVec 32) : List Byte :=
  [w.setWidth 8, (w >>> 8).setWidth 8, (w >>> 16).setWidth 8, (w >>> 24).setWidth 8]

@[simp] theorem length_leBytes16 (w : BitVec 16) : (leBytes16 w).length = 2 := rfl

@[simp] theorem length_leBytes32 (w : BitVec 32) : (leBytes32 w).length = 4 := rfl

theorem leBytes16_injective {w w' : BitVec 16} (h : leBytes16 w = leBytes16 w') : w = w' := by
  simp only [leBytes16, List.cons.injEq, and_true] at h
  apply BitVec.eq_of_getLsbD_eq
  intro i hi
  rcases Nat.lt_or_ge i 8 with hlow | hhigh
  · simpa [hlow] using congrArg (fun b => b.getLsbD i) h.1
  · have hbyte := congrArg (fun b => b.getLsbD (i - 8)) h.2
    have hi8 : i - 8 < 8 := Nat.sub_lt_left_of_lt_add hhigh hi
    simpa [BitVec.getLsbD_setWidth, BitVec.getLsbD_ushiftRight, hi8,
      Nat.add_sub_cancel' hhigh] using hbyte

theorem be16_high (hi lo : Byte) : ((be16 hi lo) >>> 8).setWidth 8 = hi := by
  apply BitVec.eq_of_getLsbD_eq
  intro i h
  simp only [be16, BitVec.getLsbD_or, BitVec.getLsbD_shiftLeft, BitVec.getLsbD_setWidth,
    BitVec.getLsbD_ushiftRight]
  interval_cases i <;> simp

theorem be16_low (hi lo : Byte) : (be16 hi lo).setWidth 8 = lo := by
  apply BitVec.eq_of_getLsbD_eq
  intro i h
  simp only [be16, BitVec.getLsbD_or, BitVec.getLsbD_shiftLeft, BitVec.getLsbD_setWidth]
  interval_cases i <;> simp

theorem be16_parts (c : BitVec 16) : be16 ((c >>> 8).setWidth 8) (c.setWidth 8) = c := by
  apply BitVec.eq_of_getLsbD_eq
  intro i hi
  simp only [be16, BitVec.getLsbD_or, BitVec.getLsbD_shiftLeft, BitVec.getLsbD_setWidth,
    BitVec.getLsbD_ushiftRight]
  interval_cases i <;> simp

/-- Reading the four bytes of a stored word backwards gives its big-endian bytes. -/
theorem reverse_leBytes32_be32 (b₀ b₁ b₂ b₃ : Byte) :
    (leBytes32 (be32 b₀ b₁ b₂ b₃)).reverse = [b₀, b₁, b₂, b₃] := by
  simp only [leBytes32, be32, List.reverse_cons, List.reverse_nil, List.nil_append,
    List.cons_append, List.cons.injEq, and_true]
  refine ⟨?_, ?_, ?_, ?_⟩ <;> apply BitVec.eq_of_getLsbD_eq <;> intro i hi <;>
    (interval_cases i <;> simp)

/-! ## Byte streams as words -/

/-- The word whose bytes are `bs`, least significant first, with zeros behind them. -/
def leWord : List Byte → BitVec 32
  | [] => 0
  | b :: bs => b.setWidth 32 ||| leWord bs <<< 8

/-- Four bytes to a word, the last word filled up with zeros. -/
def packWords : List Byte → List (BitVec 32)
  | b₀ :: b₁ :: b₂ :: b₃ :: bs => leWord [b₀, b₁, b₂, b₃] :: packWords bs
  | [] => []
  | bs => [leWord bs]

@[simp] theorem packWords_nil : packWords [] = [] := rfl

theorem packWords_of_ne_nil {bs : List Byte} (h : bs ≠ []) :
    packWords bs = leWord (bs.take 4) :: packWords (bs.drop 4) := by
  match bs with
  | [] => exact absurd rfl h
  | [_] | [_, _] | [_, _, _] => rfl
  | _ :: _ :: _ :: _ :: _ => rfl

theorem length_packWords (bs : List Byte) : (packWords bs).length = (bs.length + 3) / 4 := by
  induction bs using packWords.induct with
  | case1 b₀ b₁ b₂ b₃ bs ih =>
    rw [packWords, List.length_cons, ih]
    simp only [List.length_cons]
    omega
  | case2 => rfl
  | case3 bs h4 h0 =>
    match bs with
    | [] => exact absurd rfl h0
    | [_] | [_, _] | [_, _, _] => simp [packWords]
    | b₀ :: b₁ :: b₂ :: b₃ :: bs => exact absurd rfl (h4 b₀ b₁ b₂ b₃ bs)

/-- Whole words can be packed on their own. -/
theorem packWords_append {full : List Byte} (h : 4 ∣ full.length) (bs : List Byte) :
    packWords (full ++ bs) = packWords full ++ packWords bs := by
  induction full using packWords.induct with
  | case1 b₀ b₁ b₂ b₃ full ih =>
    have hfull : 4 ∣ full.length := (Nat.dvd_add_left (Nat.dvd_refl 4)).mp h
    exact congrArg (leWord [b₀, b₁, b₂, b₃] :: ·) (ih hfull)
  | case2 => rfl
  | case3 full h4 h0 =>
    match full with
    | [] => exact absurd rfl h0
    | [_] | [_, _] | [_, _, _] => exact absurd h (by simp)
    | b₀ :: b₁ :: b₂ :: b₃ :: bs => exact absurd rfl (h4 b₀ b₁ b₂ b₃ bs)

/-- One more byte goes to the next free place. -/
theorem leWord_concat (bs : List Byte) (b : Byte) :
    leWord (bs ++ [b]) = leWord bs ||| b.setWidth 32 <<< (8 * bs.length) := by
  induction bs with
  | nil => simp [leWord]
  | cons b' bs ih =>
    rw [List.cons_append, leWord, leWord, ih, BitVec.shiftLeft_or_distrib, ← BitVec.shiftLeft_add,
      BitVec.or_assoc, List.length_cons, Nat.mul_succ]

theorem getLsbD_leWord_of_ge {bs : List Byte} {i : ℕ} (h : 8 * bs.length ≤ i) :
    (leWord bs).getLsbD i = false := by
  induction bs generalizing i with
  | nil => simp [leWord]
  | cons b bs ih =>
    rw [List.length_cons, Nat.mul_succ] at h
    have h8 : 8 ≤ i := Nat.le_trans (Nat.le_add_left 8 _) h
    rw [leWord, BitVec.getLsbD_or, BitVec.getLsbD_shiftLeft, ih (Nat.le_sub_of_add_le h)]
    simp [BitVec.getLsbD_of_ge b i h8]

/-- The low byte of a word is its first one. -/
theorem setWidth_leWord (b : Byte) (bs : List Byte) : (leWord (b :: bs)).setWidth 8 = b := by
  apply BitVec.eq_of_getLsbD_eq
  intro i hi
  simp [leWord, hi]

theorem leWord_shiftRight {b : Byte} {bs : List Byte} (h : bs.length ≤ 3) :
    leWord (b :: bs) >>> 8 = leWord bs := by
  apply BitVec.eq_of_getLsbD_eq
  intro i hi
  rw [leWord, BitVec.getLsbD_ushiftRight, BitVec.getLsbD_or, BitVec.getLsbD_setWidth,
    BitVec.getLsbD_shiftLeft, BitVec.getLsbD_of_ge b (8 + i) (Nat.le_add_right 8 i)]
  rcases Nat.lt_or_ge (8 + i) 32 with hlt | hge
  · simp [hlt]
  · -- the word has at most three bytes, so that nothing was shifted out
    rw [getLsbD_leWord_of_ge (show 8 * bs.length ≤ i by omega)]
    simp [Nat.not_lt.mpr hge]

theorem leWord_shiftRight_drop {bs : List Byte} (h : bs.length ≤ 4) (k : ℕ) :
    leWord bs >>> (8 * k) = leWord (bs.drop k) := by
  induction k generalizing bs with
  | zero => rfl
  | succ k ih =>
    rw [Nat.mul_succ, Nat.add_comm, BitVec.shiftRight_add]
    cases bs with
    | nil =>
      have hzero : ∀ n, leWord ([] : List Byte) >>> n = leWord [] := fun n =>
        BitVec.zero_ushiftRight
      rw [List.drop_nil, hzero, hzero]
    | cons b bs =>
      have hbs : bs.length ≤ 3 := Nat.le_of_succ_le_succ h
      rw [leWord_shiftRight hbs, ih (Nat.le_succ_of_le hbs), List.drop_succ_cons]

/-- The bytes of a word that was made of at most four. -/
theorem leBytes32_leWord {bs : List Byte} (h : bs.length ≤ 4) :
    leBytes32 (leWord bs) = bs ++ List.replicate (4 - bs.length) 0 := by
  have hbyte : ∀ k, (leWord bs >>> (8 * k)).setWidth 8 = bs.getD k 0 := by
    intro k
    rw [leWord_shiftRight_drop h]
    rcases Nat.lt_or_ge k bs.length with hk | hk
    · rw [List.drop_eq_getElem_cons hk, setWidth_leWord, List.getD_eq_getElem?_getD,
        List.getElem?_eq_getElem hk,
        Option.getD_some]
    · rw [List.drop_eq_nil_of_le hk, List.getD_eq_getElem?_getD, List.getElem?_eq_none hk]
      rfl
  have hbytes : leBytes32 (leWord bs) = (List.range 4).map fun k => bs.getD k 0 := by
    rw [List.map_congr_left fun k _ => (hbyte k).symm]
    rfl
  rw [hbytes]
  match bs, h with
  | [], _ | [_], _ | [_, _], _ | [_, _, _], _ | [_, _, _, _], _ => rfl

/-- The word whose bytes were stored. -/
theorem leWord_leBytes32 (w : BitVec 32) : leWord (leBytes32 w) = w := by
  apply BitVec.eq_of_getLsbD_eq
  intro i hi
  simp only [leWord, leBytes32, BitVec.getLsbD_or, BitVec.getLsbD_shiftLeft,
    BitVec.getLsbD_setWidth, BitVec.getLsbD_ushiftRight]
  interval_cases i <;> simp

/-! ## C strings -/

/-- The bytes from address `a` on up to the first NUL, at most `n` of them. -/
def cString (m : Memory Byte) (a n : ℕ) : List Byte := (m.load a n).takeWhile fun b => b != 0

/-- `strlen`, in an array that ends `n` bytes behind `a`. -/
def strlen (m : Memory Byte) (a n : ℕ) : ℕ := (cString m a n).length

theorem cString_succ (m : Memory Byte) (a n : ℕ) :
    cString m a (n + 1) = if m a = 0 then [] else m a :: cString m (a + 1) n := by
  rw [cString, cString, Memory.load_succ, List.takeWhile_cons]
  by_cases h : m a = 0 <;> simp [h]

/-- A string whose first NUL is at `a + k`. -/
theorem cString_eq_load {m : Memory Byte} {a n k : ℕ} (hk : k < n)
    (hne : ∀ i, i < k → m (a + i) ≠ 0) (hnul : m (a + k) = 0) : cString m a n = m.load a k := by
  induction k generalizing a n with
  | zero =>
    obtain ⟨n, rfl⟩ := Nat.exists_eq_succ_of_ne_zero (Nat.ne_of_gt hk)
    exact (cString_succ m a n).trans (if_pos hnul)
  | succ k ih =>
    obtain ⟨n, rfl⟩ := Nat.exists_eq_succ_of_ne_zero (Nat.ne_of_gt (Nat.zero_lt_of_lt hk))
    have hrest : cString m (a + 1) n = m.load (a + 1) k := by
      apply ih (Nat.lt_of_succ_lt_succ hk)
      · intro i hi
        rw [Nat.add_assoc, Nat.add_comm 1 i]
        exact hne (i + 1) (Nat.succ_lt_succ hi)
      · rw [Nat.add_assoc, Nat.add_comm 1 k]
        exact hnul
    rw [cString_succ, if_neg (show m a ≠ 0 from hne 0 (Nat.succ_pos k)), hrest, Memory.load_succ]

/-- Where there is a NUL, `strlen` finds the first one. -/
theorem strlen_spec {m : Memory Byte} {a n k : ℕ} (hk : k < n) (hnul : m (a + k) = 0) :
    strlen m a n ≤ k ∧ m (a + strlen m a n) = 0 ∧ ∀ i, i < strlen m a n → m (a + i) ≠ 0 := by
  induction k using Nat.strong_induction_on with
  | _ k ih =>
    by_cases hfirst : ∃ j, j < k ∧ m (a + j) = 0
    · obtain ⟨j, hj, hj0⟩ := hfirst
      obtain ⟨hle, hrest⟩ := ih j hj (Nat.lt_trans hj hk) hj0
      exact ⟨Nat.le_trans hle hj.le, hrest⟩
    · have hne : ∀ i, i < k → m (a + i) ≠ 0 := fun i hi h0 => hfirst ⟨i, hi, h0⟩
      have hlen : strlen m a n = k := by
        rw [strlen, cString_eq_load hk hne hnul, Memory.length_load]
      rw [hlen]
      exact ⟨Nat.le_refl k, hnul, hne⟩

/-! ## Object images -/

/-- The bytes of a C object of size `n`. -/
structure Image (n : ℕ) where
  bytes : List Byte
  length_eq : bytes.length = n
  deriving DecidableEq

namespace Image

variable {n : ℕ}

/-- The `n` bytes found at address `a`. -/
def ofMemory (m : Memory Byte) (a n : ℕ) : Image n := ⟨m.load a n, Memory.length_load m a n⟩

/-- The image as a memory that starts with it. -/
def toMemory (img : Image n) : Memory Byte := fun k => (img.bytes[k]?).getD 0

/-- `len` bytes from offset `off` on. -/
def get (img : Image n) (off len : ℕ) : List Byte := img.toMemory.load off len

def set (img : Image n) (off : ℕ) (xs : List Byte) : Image n :=
  ofMemory (img.toMemory.store off xs) 0 n

@[ext] theorem ext {img img' : Image n} (h : img.bytes = img'.bytes) : img = img' := by
  cases img; cases img'; congr

theorem load_toMemory (img : Image n) : img.toMemory.load 0 n = img.bytes := by
  apply List.ext_getElem
  · simp [img.length_eq]
  · intro i h₁ h₂
    simp [toMemory, h₂]

theorem toMemory_ofMemory (m : Memory Byte) (a : ℕ) {k : ℕ} (h : k < n) :
    (ofMemory m a n).toMemory k = m (a + k) := by
  have hlen : k < (m.load a n).length := by simpa using h
  simp [toMemory, ofMemory, List.getElem?_eq_getElem hlen]

theorem get_ofMemory (m : Memory Byte) (a : ℕ) {off len : ℕ} (h : off + len ≤ n) :
    (ofMemory m a n).get off len = m.load (a + off) len := by
  apply List.map_congr_left
  intro i hi
  rw [toMemory_ofMemory m a (by have := List.mem_range.mp hi; omega), Nat.add_assoc]

theorem get_set_self (img : Image n) {off : ℕ} {xs : List Byte} (h : off + xs.length ≤ n) :
    (img.set off xs).get off xs.length = xs := by
  rw [set, get_ofMemory _ _ h, Nat.zero_add, Memory.load_store_self]

/-- A range apart from the one written is unchanged. -/
theorem get_set_of_disjoint (img : Image n) {off off' len : ℕ} (xs : List Byte)
    (hin : off' + len ≤ n) (h : off' + len ≤ off ∨ off + xs.length ≤ off') :
    (img.set off xs).get off' len = img.get off' len := by
  rw [set, get_ofMemory _ _ hin, Nat.zero_add, Memory.load_store_of_disjoint _ xs h, get]

@[simp] theorem length_get (img : Image n) (off len : ℕ) : (img.get off len).length = len := by
  simp [get]

/-- A memory that agrees with an image on its bytes holds that image. -/
theorem ofMemory_eq {m : Memory Byte} {img : Image n} (h : ∀ k, k < n → m k = img.toMemory k) :
    ofMemory m 0 n = img := by
  apply ext
  rw [← img.load_toMemory]
  apply Memory.load_congr
  intro k hk
  rw [Nat.zero_add]
  exact h k hk

end Image

end Karnix.Library
