import Karnix.Sd.Bounds

/-!
# The size of a card

`sdmmc_get_num_blocks` against the sizes that the two versions of the CSD register give, and what
the bounds checks of `sdmmc_read_block` and `sdmmc_write_block` make of the number.
-/

namespace Karnix.Sd

open Karnix.Library
open Karnix.Library.Program

/-! ## Section 1: The register -/

/-- A byte of the register. -/
def csdByte (csd : List Byte) (i : ℕ) : ℕ := (csd.getD i 0).toNat

/-- CSD_STRUCTURE: 0 for version 1, 1 for version 2. -/
def csdStructure (csd : List Byte) : ℕ := csdByte csd 0 / 64

/-- READ_BL_LEN: the power of two that a block of the card has bytes of. -/
def readBlLen (csd : List Byte) : ℕ := csdByte csd 5 % 16

/-- C_SIZE of version 1, 12 bits in bytes 6 to 8. -/
def cSizeV1 (csd : List Byte) : ℕ :=
  csdByte csd 6 % 4 * 1024 + csdByte csd 7 * 4 + csdByte csd 8 / 64

/-- C_SIZE_MULT, which lies in two bytes of the register. -/
def cSizeMult (csd : List Byte) : ℕ := csdByte csd 9 % 4 * 2 + csdByte csd 10 / 128

/-- C_SIZE of version 2, 22 bits in bytes 7 to 9. -/
def cSizeV2 (csd : List Byte) : ℕ :=
  csdByte csd 7 % 64 * 65536 + csdByte csd 8 * 256 + csdByte csd 9

/-- The number of 512-byte blocks, for the registers that the two versions allow. -/
def specBlocks (csd : List Byte) : Option ℕ :=
  if csdStructure csd = 1 then some ((cSizeV2 csd + 1) * 1024)
  else if csdStructure csd = 0 ∧ 9 ≤ readBlLen csd ∧ readBlLen csd ≤ 11 then
    some ((cSizeV1 csd + 1) * 2 ^ (cSizeMult csd + 2) * 2 ^ readBlLen csd / 512)
  else none

/-! ## Section 2: The number of blocks -/

theorem isVersion2_iff (b : Byte) : b &&& 0xc0 = 0x40 ↔ b.toNat / 64 = 1 := by
  revert b
  decide

theorem toNat_mult (b : Byte) : ((b &&& 0x80) >>> 7).toNat = b.toNat / 128 := by
  revert b
  decide

theorem toNat_low_nibble (b : Byte) : (b &&& ((0x0f : ℕ) : Byte)).toNat = b.toNat % 16 := by
  revert b
  decide

theorem toNat_low_pair (b : Byte) : (b &&& 0x03).toNat = b.toNat % 4 := by
  revert b
  decide

theorem toNat_high_pair (b : Byte) : (b >>> 6).toNat = b.toNat / 64 := by
  revert b
  decide

theorem toNat_low_pair_shift (b : Byte) : ((b &&& 0x03) <<< 1).toNat = b.toNat % 4 * 2 := by
  revert b
  decide

/-- The exponent of version 1 does not leave its 8 bits. -/
theorem toNat_exponent (b₅ b₉ b₁₀ : Byte) :
    ((b₅ &&& 0x0f) + ((b₁₀ &&& 0x80) >>> 7) + ((b₉ &&& 0x03) <<< 1) + 2).toNat =
      b₅.toNat % 16 + (b₉.toNat % 4 * 2 + b₁₀.toNat / 128) + 2 := by
  have htwo : (2 : Byte).toNat = 2 := rfl
  have h10 : b₁₀.toNat < 256 := b₁₀.isLt
  rw [BitVec.toNat_add, BitVec.toNat_add, BitVec.toNat_add, toNat_low_nibble, toNat_mult,
    toNat_low_pair_shift, htwo]
  omega

/-- Nor does the size of version 1 leave its 16 bits. -/
theorem toNat_sizeV1 (b₆ b₇ b₈ : Byte) :
    ((b₈ >>> 6).setWidth 16 + b₇.setWidth 16 <<< 2 + (b₆ &&& 0x03).setWidth 16 <<< 10 + 1 :
      BitVec 16).toNat = b₆.toNat % 4 * 1024 + b₇.toNat * 4 + b₈.toNat / 64 + 1 := by
  have hone : (1 : BitVec 16).toNat = 1 := rfl
  have h7 : b₇.toNat < 256 := b₇.isLt
  have h8 : b₈.toNat < 256 := b₈.isLt
  rw [BitVec.toNat_add, BitVec.toNat_add, BitVec.toNat_add, BitVec.toNat_shiftLeft,
    BitVec.toNat_shiftLeft, BitVec.toNat_setWidth, BitVec.toNat_setWidth, BitVec.toNat_setWidth,
    toNat_high_pair, toNat_low_pair, hone, Nat.shiftLeft_eq, Nat.shiftLeft_eq]
  omega

/-- The size of version 2 does: only its low 16 bits are read, and 1 is added to them. -/
theorem toNat_sizeV2 (b₈ b₉ : Byte) :
    (b₈.setWidth 16 <<< 8 + b₉.setWidth 16 + 1 : BitVec 16).toNat =
      (b₈.toNat * 256 + b₉.toNat + 1) % 65536 := by
  have hone : (1 : BitVec 16).toNat = 1 := rfl
  rw [BitVec.toNat_add, BitVec.toNat_add, BitVec.toNat_shiftLeft, BitVec.toNat_setWidth,
    BitVec.toNat_setWidth, hone, Nat.shiftLeft_eq]
  omega

/-- A 16-bit number shifted inside a word. -/
theorem toNat_shift (x : BitVec 16) {k : ℕ} (h : x.toNat * 2 ^ k < 2 ^ 32) :
    (x.setWidth 32 <<< k).toNat = x.toNat * 2 ^ k := by
  rw [BitVec.toNat_shiftLeft, Nat.shiftLeft_eq, BitVec.toNat_setWidth_of_le (by decide),
    Nat.mod_eq_of_lt h]

variable {csd : List Byte}

/-- A card of version 2 is measured right if its size fits. -/
theorem numBlocks_v2 (h : csdStructure csd = 1) :
    (sdmmcGetNumBlocks csd).toNat = (cSizeV2 csd + 1) * 1024 ↔ cSizeV2 csd + 1 < 65536 := by
  have hversion : csd.getD 0 0 &&& 0xc0 = 0x40 := (isVersion2_iff _).2 h
  have h8 : csdByte csd 8 < 256 := (csd.getD 8 0).isLt
  have h9 : csdByte csd 9 < 256 := (csd.getD 9 0).isLt
  have hsize := toNat_sizeV2 (csd.getD 8 0) (csd.getD 9 0)
  have hvalue : (sdmmcGetNumBlocks csd).toNat =
      (csdByte csd 8 * 256 + csdByte csd 9 + 1) % 65536 * 1024 := by
    rw [sdmmcGetNumBlocks]
    simp only [hversion, if_true]
    rw [toNat_shift _ (by rw [hsize]; omega), hsize]
    rfl
  rw [hvalue, cSizeV2]
  omega

/-- A card of version 1 is measured right. -/
theorem numBlocks_v1 (h : csdStructure csd = 0) (hlow : 9 ≤ readBlLen csd)
    (hhigh : readBlLen csd ≤ 11) :
    (sdmmcGetNumBlocks csd).toNat =
      (cSizeV1 csd + 1) * 2 ^ (cSizeMult csd + 2) * 2 ^ readBlLen csd / 512 := by
  have hversion : ¬ csd.getD 0 0 &&& 0xc0 = 0x40 := by
    rw [isVersion2_iff, ← csdByte, ← csdStructure, h]
    decide
  have hmult : cSizeMult csd ≤ 7 := by
    have h10 : csdByte csd 10 < 256 := (csd.getD 10 0).isLt
    rw [cSizeMult]
    omega
  have hsize := toNat_sizeV1 (csd.getD 6 0) (csd.getD 7 0) (csd.getD 8 0)
  have hexp := toNat_exponent (csd.getD 5 0) (csd.getD 9 0) (csd.getD 10 0)
  have hdist : (((csd.getD 5 0 &&& ((0x0f : ℕ) : Byte)) + ((csd.getD 10 0 &&& 0x80) >>> 7) +
      ((csd.getD 9 0 &&& 0x03) <<< 1) + 2 - 9).setWidth 5).toNat =
        cSizeMult csd + 2 + (readBlLen csd - 9) := by
    have hnine : (9 : Byte).toNat = 9 := rfl
    rw [BitVec.toNat_setWidth, BitVec.toNat_sub, hexp, hnine]
    unfold cSizeMult readBlLen csdByte at *
    omega
  -- 512 is 2 to the power of 9
  have hpow : (cSizeV1 csd + 1) * 2 ^ (cSizeMult csd + 2) * 2 ^ readBlLen csd / 512 =
      (cSizeV1 csd + 1) * 2 ^ (cSizeMult csd + 2 + (readBlLen csd - 9)) := by
    have hsplit : 2 ^ readBlLen csd = 2 ^ (readBlLen csd - 9) * 512 := by
      rw [show 512 = 2 ^ 9 from rfl, ← Nat.pow_add, Nat.sub_add_cancel hlow]
    rw [hsplit, ← Nat.mul_assoc, Nat.mul_div_cancel _ (by decide), Nat.mul_assoc, ← Nat.pow_add]
  have hfits : (cSizeV1 csd + 1) * 2 ^ (cSizeMult csd + 2 + (readBlLen csd - 9)) < 2 ^ 32 := by
    have hc : cSizeV1 csd + 1 ≤ 2 ^ 12 := by
      have h7 : csdByte csd 7 < 256 := (csd.getD 7 0).isLt
      have h8 : csdByte csd 8 < 256 := (csd.getD 8 0).isLt
      unfold cSizeV1
      omega
    calc (cSizeV1 csd + 1) * 2 ^ (cSizeMult csd + 2 + (readBlLen csd - 9))
        ≤ 2 ^ 12 * 2 ^ 11 := Nat.mul_le_mul hc (Nat.pow_le_pow_right (by decide) (by omega))
      _ < 2 ^ 32 := by decide
  rw [hpow, sdmmcGetNumBlocks]
  simp only [if_neg hversion]
  rw [toNat_shift]
  · rw [hsize, hdist]
    rfl
  · rw [hsize, hdist]
    exact hfits

/-- **The number of blocks.**  It is right unless a card of version 2 has 2 to the power of 26
blocks or more. -/
theorem numBlocks_iff {n : ℕ} (h : specBlocks csd = some n) :
    (sdmmcGetNumBlocks csd).toNat = n ↔ (csdStructure csd = 1 → n < 2 ^ 26) := by
  unfold specBlocks at h
  split at h
  · next hv2 =>
    obtain rfl := Option.some.inj h
    rw [numBlocks_v2 hv2]
    constructor
    · intro hlt _
      omega
    · intro hlt
      have hlt := hlt hv2
      omega
  · next hv2 =>
    split at h
    · next hv1 =>
      obtain rfl := Option.some.inj h
      exact iff_of_true (numBlocks_v1 hv1.1 hv1.2.1 hv1.2.2) fun hv => absurd hv hv2
    · cases h

/-! ## Section 3: The bounds checks -/

/-- A call that passes the other tests, for a card that was measured by the register `csd`. -/
structure Asked (csd : List Byte) (cards d : ℕ) (count : BitVec 32) (buf : ℕ) (s : Driver) :
    Prop where
  device : d < sdmmcDevices
  count : ¬ count < 1
  buf : buf ≠ 0
  ready : s.cardType cards d ≠ sdmmcTypeNone
  blocks : s.cardBlocks cards d = sdmmcGetNumBlocks csd

/-- Whatever the card answers, the blocks are refused as out of bounds, and nothing is sent. -/
def ReadRefused (cards d : ℕ) (blockNum count : BitVec 32) (buf : ℕ) (s : Driver) : Prop :=
  ∀ reads, sdmmcReadBlock cards d blockNum count buf { s with reads := reads } =
    (some sdmmcErrorBounds, { s with reads := reads })

/-- Whatever the card answers, the blocks are refused as out of bounds, and nothing is sent. -/
def WriteRefused (cards : ℕ) (outerRetry : ℤ) (d : ℕ) (blockNum count : BitVec 32) (buf : ℕ)
    (s : Driver) : Prop :=
  ∀ reads, sdmmcWriteBlock cards outerRetry d blockNum count buf { s with reads := reads } =
    (some sdmmcErrorBounds, { s with reads := reads })

variable {cards d buf : ℕ} {blockNum count : BitVec 32} {s : Driver}

theorem Asked.admitted_iff (h : Asked csd cards d count buf s) :
    Admitted cards d blockNum count buf s ↔ ¬ sdmmcGetNumBlocks csd < blockNum + count := by
  rw [Admitted, h.blocks]
  exact ⟨fun hadmitted => hadmitted.2.2.2.2,
    fun hin => ⟨h.device, h.count, h.buf, h.ready, hin⟩⟩

/-- The check of `sdmmc_read_block`. -/
theorem Asked.readRefused_iff (h : Asked csd cards d count buf s) :
    ReadRefused cards d blockNum count buf s ↔
      sdmmcGetNumBlocks csd < blockNum + count := by
  constructor
  · intro hrefused
    by_contra hin
    -- a call that is let through waits for a card that is silent
    obtain ⟨s', hrun, -⟩ := sdmmcReadBlock_silence (h.admitted_iff.2 hin)
    have heq := (hrefused silence).symm.trans hrun
    cases heq
  · intro hout reads
    have hload : load32 (typeAddr cards d) { s with reads := reads } =
        (some (s.cardType cards d), { s with reads := reads }) := rfl
    have hload' : load32 (blocksAddr cards d) { s with reads := reads } =
        (some (s.cardBlocks cards d), { s with reads := reads }) := rfl
    rw [sdmmcReadBlock, if_neg (Nat.not_le.2 h.device), if_neg h.count, if_neg h.buf,
      bind_of_some hload, if_neg h.ready, bind_of_some hload', h.blocks, if_pos hout]
    rfl

/-- The check of `sdmmc_write_block`. -/
theorem Asked.writeRefused_iff (h : Asked csd cards d count buf s)
    (hwp : ¬ blockNum < s.writeProtected) (outerRetry : ℤ) :
    WriteRefused cards outerRetry d blockNum count buf s ↔
      sdmmcGetNumBlocks csd < blockNum + count := by
  constructor
  · intro hrefused
    by_contra hin
    obtain ⟨s', hrun, -⟩ := sdmmcWriteBlock_silence outerRetry hwp (h.admitted_iff.2 hin)
    have heq := (hrefused silence).symm.trans hrun
    cases heq
  · intro hout reads
    have hread : Program.read (fun s : Driver => s.writeProtected) { s with reads := reads } =
        (some s.writeProtected, { s with reads := reads }) := rfl
    have hload' : load32 (blocksAddr cards d) { s with reads := reads } =
        (some (s.cardBlocks cards d), { s with reads := reads }) := rfl
    rw [sdmmcWriteBlock, bind_of_some hread, if_neg hwp, if_neg (Nat.not_le.2 h.device),
      if_neg h.count, if_neg h.buf, bind_of_some hload', h.blocks, if_pos hout]
    rfl

/-! ## Section 4: The size -/

/-- The number of blocks is `n`, and exactly the blocks below it can be read and, but for the
protected ones, written. -/
structure CapacityRight (csd : List Byte) (n cards d : ℕ) (blockNum count : BitVec 32) (buf : ℕ)
    (s : Driver) : Prop where
  value : (sdmmcGetNumBlocks csd).toNat = n
  read : ReadRefused cards d blockNum count buf s ↔ n < blockNum.toNat + count.toNat
  write : ¬ blockNum < s.writeProtected → ∀ outerRetry,
    (WriteRefused cards outerRetry d blockNum count buf s ↔ n < blockNum.toNat + count.toNat)

/-- **The size of a card.**  It is right, and a request is judged by it, exactly if a card of
version 2 has fewer than 2 to the power of 26 blocks and the sum of the request does not wrap to a
number of blocks that the card has. -/
theorem capacityRight_iff {n : ℕ} (hspec : specBlocks csd = some n)
    (h : Asked csd cards d count buf s) :
    CapacityRight csd n cards d blockNum count buf s ↔
      (csdStructure csd = 1 → n < 2 ^ 26) ∧
        (2 ^ 32 ≤ blockNum.toNat + count.toNat → n < blockNum.toNat + count.toNat - 2 ^ 32) := by
  have hb := blockNum.isLt
  have hc := count.isLt
  have hsum : (blockNum + count).toNat = (blockNum.toNat + count.toNat) % 2 ^ 32 :=
    BitVec.toNat_add _ _
  rw [← numBlocks_iff hspec]
  constructor
  · intro hright
    refine ⟨hright.value, fun hwrap => ?_⟩
    have hsize : n < 2 ^ 32 := hright.value ▸ (sdmmcGetNumBlocks csd).isLt
    have hrefused := hright.read.2 (Nat.lt_of_lt_of_le hsize hwrap)
    have hlt := BitVec.lt_def.1 (h.readRefused_iff.1 hrefused)
    rw [hsum, hright.value] at hlt
    omega
  · rintro ⟨hvalue, hwrap⟩
    have hlt : n < 2 ^ 32 := hvalue ▸ (sdmmcGetNumBlocks csd).isLt
    have hiff : sdmmcGetNumBlocks csd < blockNum + count ↔ n < blockNum.toNat + count.toNat := by
      rw [BitVec.lt_def, hsum, hvalue]
      omega
    exact ⟨hvalue, h.readRefused_iff.trans hiff,
      fun hwp outerRetry => (h.writeRefused_iff hwp outerRetry).trans hiff⟩

/-- The first card is one that takes block numbers, measured by the register `csd`. -/
def measured (csd : List Byte) : Driver :=
  { Driver.start with
    mem := (Driver.start.mem.store (typeAddr 0 0) (leBytes32 sdmmcTypeSdcV2HC)).store
      (blocksAddr 0 0) (leBytes32 (sdmmcGetNumBlocks csd)) }

/-- A register of version 2 whose C_SIZE is `b₇`, `b₈`, `b₉`. -/
def csdOf (b₇ b₈ b₉ : Byte) : List Byte :=
  [0x40, 0x0e, 0, 0x32, 0x5b, 0x59, 0, b₇, b₈, b₉, 0x7f, 0x80, 0x0a, 0x40, 0, 0x01]

theorem asked_measured (csd : List Byte) : Asked csd 0 0 1 0x1000 (measured csd) where
  device := by decide
  count := by decide
  buf := by decide
  ready := by
    have hload : (measured csd).mem.load (typeAddr 0 0) 4 = leBytes32 sdmmcTypeSdcV2HC := by
      show (Memory.store _ _ _).load _ _ = _
      rw [Memory.load_store_of_disjoint _ _ (Or.inl (by decide))]
      exact Memory.load_store_self _ _ (leBytes32 sdmmcTypeSdcV2HC)
    rw [Driver.cardType, hload, leWord_leBytes32]
    decide
  blocks := by
    have hload : (measured csd).mem.load (blocksAddr 0 0) 4 = leBytes32 (sdmmcGetNumBlocks csd) :=
      Memory.load_store_self _ _ (leBytes32 (sdmmcGetNumBlocks csd))
    rw [Driver.cardBlocks, hload]
    exact leWord_leBytes32 _

theorem capacityRight_small :
    CapacityRight (csdOf 0 0x3b 0x37) 15523840 0 0 15523839 1 0x1000
      (measured (csdOf 0 0x3b 0x37)) :=
  (capacityRight_iff (by decide) (asked_measured _)).2 ⟨by decide, by decide⟩

/-- A card of 63 gigabytes is taken for one of 28. -/
theorem not_capacityRight_large :
    specBlocks (csdOf 0x01 0xd5 0xff) = some 123207680 ∧
      ¬ CapacityRight (csdOf 0x01 0xd5 0xff) 123207680 0 0 123207679 1 0x1000
        (measured (csdOf 0x01 0xd5 0xff)) :=
  ⟨by decide, fun h => absurd h.value (by decide)⟩

end Karnix.Sd
