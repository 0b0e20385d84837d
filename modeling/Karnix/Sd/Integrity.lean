import Karnix.Library.CrcPolynomial
import Karnix.Sd.Transfers

/-!
# Integrity of received blocks

`sdmmc_rx_buf` runs its check-sum over the data and over the check-sum that the card sends behind
it.  The table it uses is that of `sdmmc_crc16_init_table`, so that it returns without an error
exactly if the two check-sums agree, and reports every burst of at most 16 bits.
-/

namespace Karnix.Sd

open Karnix.Library
open Karnix.Library.Program

/-! ## Section 1: The check-sum bit by bit -/

/-- One pass of the inner loop of `sdmmc_crc16_init_table`. -/
def crc16Bit (crc : BitVec 16) : BitVec 16 :=
  if crc &&& 0x8000 ≠ 0 then (crc <<< 1) ^^^ 0x1021 else crc <<< 1

/-- `sdmmc_crc16_init_table`: what the table would be filled with, if it was called. -/
def sdmmcCrc16InitTable : List (BitVec 16) :=
  (List.range 256).map fun i => crc16Bit^[8] (BitVec.ofNat 16 i <<< 8)

/-- The check-sum of the bytes `bs`, computed bit by bit. -/
def crc16Bitwise (bs : List Byte) : BitVec 16 :=
  bs.foldl (fun crc b => crc16Bit^[8] (crc ^^^ Crc.high 16 b)) 0

/-- The table is the one that would be computed. -/
theorem sdmmcCrc16Table_eq : sdmmcCrc16Table = sdmmcCrc16InitTable := by decide +kernel

theorem crc16Bit_eq_shiftLeft : crc16Bit = Crc.shiftLeft 0x1021 := by
  funext crc
  have hmsb : crc &&& 0x8000 ≠ 0 ↔ crc.msb = true := by
    have hmask : (0x8000 : BitVec 16) = BitVec.twoPow 16 15 := rfl
    rw [hmask, BitVec.and_twoPow, BitVec.msb_eq_getLsbD_last]
    cases crc.getLsbD 15 <;> decide
  unfold crc16Bit Crc.shiftLeft
  exact if_congr hmsb rfl rfl

/-- An entry of the table is a byte moved out of the register. -/
theorem table_entry (b : Byte) :
    sdmmcCrc16Table.getD b.toNat 0 = crc16Bit^[8] (Crc.high 16 b) := by
  revert b
  decide +kernel

/-- The lower byte is only moved up. -/
theorem crc16Bit_low (b : Byte) : crc16Bit^[8] (b.setWidth 16) = Crc.high 16 b := by
  revert b
  decide +kernel

/-- **A step of the table is eight steps of one bit.** -/
theorem crc16Step_eq (crc : BitVec 16) (b : Byte) :
    crc16Step crc b = crc16Bit^[8] (crc ^^^ Crc.high 16 b) := by
  -- the byte meets the upper half of the register
  have hsplit : crc ^^^ Crc.high 16 b =
      Crc.high 16 ((crc >>> 8).setWidth 8 ^^^ b) ^^^ (crc.setWidth 8).setWidth 16 := by
    apply BitVec.eq_of_getLsbD_eq
    intro i hi
    simp only [Crc.high, BitVec.shiftLeft_eq, BitVec.getLsbD_xor, BitVec.getLsbD_shiftLeft,
      BitVec.getLsbD_setWidth, BitVec.getLsbD_ushiftRight]
    interval_cases i <;> simp
  have hlow : crc <<< 8 = Crc.high 16 (crc.setWidth 8) := by
    apply BitVec.eq_of_getLsbD_eq
    intro i hi
    simp only [Crc.high, BitVec.shiftLeft_eq, BitVec.getLsbD_shiftLeft, BitVec.getLsbD_setWidth]
    interval_cases i <;> simp
  have hlinear : crc16Bit^[8] (crc ^^^ Crc.high 16 b) =
      crc16Bit^[8] (Crc.high 16 ((crc >>> 8).setWidth 8 ^^^ b)) ^^^
        crc16Bit^[8] ((crc.setWidth 8).setWidth 16) := by
    rw [hsplit, crc16Bit_eq_shiftLeft, Crc.shiftLeft_iterate_xor]
  rw [hlinear, ← table_entry, crc16Bit_low, ← hlow]
  rfl

theorem crc16_eq_crc16Bitwise (bs : List Byte) : crc16 bs = crc16Bitwise bs := by
  have hstep : crc16Step = fun crc b => crc16Bit^[8] (crc ^^^ Crc.high 16 b) := by
    funext crc b
    exact crc16Step_eq crc b
  rw [crc16, hstep]
  rfl

/-! ## Section 2: Errors -/

/-- The bits of a message as they come from the card, the most significant one of a byte first. -/
def wireBits (bs : List Byte) : List Bool := bs.flatMap fun b => (lsbBits b 8).reverse

/-- The check-sum is zero exactly if the bits, in their order, leave a register of zeros. -/
theorem crc16_eq_zero_iff (bs : List Byte) :
    crc16 bs = 0 ↔ Crc.bytes (0x8408 : BitVec 16) 0 (bs.map BitVec.reverse) = 0 := by
  have hreverse : (crc16 bs).reverse = Crc.bytes 0x8408 0 (bs.map BitVec.reverse) := by
    have hleft : crc16 bs = Crc.bytesLeft 0x1021 0 bs := by
      rw [crc16_eq_crc16Bitwise, crc16Bitwise, crc16Bit_eq_shiftLeft]
      rfl
    rw [hleft, Crc.reverse_bytesLeft (by decide)]
    rfl
  rw [← hreverse]
  exact BitVec.reverse_eq_zero_iff.symm

/-- **A burst of at most 16 bits is seen.** -/
theorem crc16_burst_ne_zero {bs e : List Byte} (hlen : bs.length = e.length)
    (hzero : crc16 bs = 0) (hburst : Crc.IsBurst 16 (wireBits e)) :
    crc16 (List.zipWith (· ^^^ ·) bs e) ≠ 0 := by
  have hmap : (List.zipWith (· ^^^ ·) bs e).map BitVec.reverse =
      List.zipWith (· ^^^ ·) (bs.map BitVec.reverse) (e.map BitVec.reverse) := by
    rw [List.map_zipWith, List.zipWith_map]
    simp only [Crc.reverse_xor]
  have hlen' : (bs.map BitVec.reverse).length = (e.map BitVec.reverse).length := by
    rw [List.length_map, List.length_map, hlen]
  rw [Ne, crc16_eq_zero_iff, hmap, Crc.bytes_zipWith (by decide) _ hlen',
    (crc16_eq_zero_iff bs).1 hzero, Crc.msgBits_reverse]
  exact fun h => Crc.bits_burst_ne_zero rfl (by decide) hburst (BitVec.zero_xor.symm.trans h)

/-! ## Section 3: The stream behind the token -/

/-- The bytes that come in with the words `reads`: those that are valid. -/
def validBytes (reads : List (BitVec 32)) : List Byte := (reads.filter rxValid).map byteOf

/-- The next byte of the stream, behind any number of words without one. -/
theorem exists_of_validBytes_cons {reads : List (BitVec 32)} {b : Byte} {bs : List Byte}
    (h : validBytes reads = b :: bs) :
    ∃ idle rx rest, reads = idle ++ rx :: rest ∧ (∀ x ∈ idle, rxValid x = false) ∧
      rxValid rx = true ∧ byteOf rx = b ∧ validBytes rest = bs := by
  induction reads with
  | nil => cases h
  | cons x reads ih =>
    cases hx : rxValid x with
    | true =>
      have hcons : validBytes (x :: reads) = byteOf x :: validBytes reads := by
        rw [validBytes, List.filter_cons_of_pos hx]
        rfl
      rw [hcons] at h
      obtain ⟨hb, hbs⟩ := List.cons.inj h
      exact ⟨[], x, reads, rfl, List.forall_mem_nil _, hx, hb, hbs⟩
    | false =>
      have hskip : validBytes (x :: reads) = validBytes reads := by
        rw [validBytes, List.filter_cons_of_neg (by simp [hx])]
        rfl
      obtain ⟨idle, rx, rest, rfl, hidle, hrx, hb, hbs⟩ := ih (hskip.symm.trans h)
      exact ⟨x :: idle, rx, rest, rfl, List.forall_mem_cons.2 ⟨hx, hidle⟩, hrx, hb, hbs⟩

/-- The poll passes over the words without a byte. -/
theorem pollData_of_idle {s : Driver} {idle rest : List (BitVec 32)} {rx : BitVec 32}
    (hreads : s.reads = idle ++ rx :: rest) (hidle : ∀ x ∈ idle, rxValid x = false)
    (hrx : rxValid rx = true) : pollData s = (some rx, { s with reads := rest }) := by
  have hdrop : s.reads.dropWhile (fun rx => !rxValid rx) = rx :: rest := by
    rw [hreads, List.dropWhile_append_of_pos fun x hx => by simp [hidle x hx],
      List.dropWhile_cons_of_neg (by simp [hrx])]
  rw [pollData, hdrop]

/-- **Run lemma.**  The loop takes in as many bytes as it is to, and leaves the words behind
them. -/
theorem rxLoop_of_stream {reg : ℕ} {bs : List Byte} {pre rest : List (BitVec 32)} {b : ℕ}
    {crc : BitVec 16} {s : Driver} (hreads : s.reads = pre ++ rest) (hbytes : validBytes pre = bs) :
    ∃ pre' s', rxLoop reg bs.length b crc s = (some (bs.foldl crc16Step crc), s') ∧
      s'.reads = pre' ++ rest ∧ s'.mem = s.mem.store b bs := by
  induction bs generalizing pre b crc s with
  | nil => exact ⟨pre, s, rfl, hreads, (Memory.store_nil s.mem b).symm⟩
  | cons c bs ih =>
    obtain ⟨idle, rx, pre', rfl, hidle, hrx, rfl, hrest⟩ := exists_of_validBytes_cons hbytes
    have hsplit := hreads.trans (List.append_assoc idle (rx :: pre') rest)
    have hpoll := pollData_of_idle hsplit hidle hrx
    -- the byte is stored, and the next one asked for
    obtain ⟨pre'', s', hrun, hleft, hmem⟩ := @ih pre' (b + 1) (crc16Step crc (byteOf rx))
      (storeReceived b (byteOf rx) (sendReceive reg 0xff
        { s with reads := pre' ++ rest }).2).2 rfl hrest
    refine ⟨pre'', s', ?_, hleft, ?_⟩
    · rw [List.length_cons, rxLoop_succ hpoll]
      exact hrun
    · rw [hmem]
      exact (Memory.store_append s.mem b [byteOf rx] bs).symm

/-- **Run lemma.**  Behind the token, the bytes of the stream are stored, and their check-sum
decides what is returned. -/
theorem sdmmcRxBuf_of_stream {reg buf : ℕ} {bytes : List Byte} {len : ℕ}
    (hlen : bytes.length = len + 2) {s s₁ : Driver}
    (htoken : sdmmcWaitR1Response reg 0xfe 1000 s = (some 0, s₁)) {pre rest : List (BitVec 32)}
    (hreads : s₁.reads = pre ++ rest) (hrest : rest ≠ []) (hbytes : validBytes pre = bytes) :
    ∃ s', sdmmcRxBuf reg buf len s =
        (some (if crc16 bytes ≠ 0 then sdmmcErrorCrc else sdmmcErrorOk), s') ∧
      s'.mem = s.mem.store buf bytes := by
  have hsilent := (keeps_sdmmcWaitR1Response (R := Silent) reg 0xfe 1000).of_eq htoken
  obtain ⟨pre', s₂, hloop, hleft, hmem⟩ := @rxLoop_of_stream reg bytes pre rest buf 0
    (sendReceive reg 0xff (beginReception buf len s₁).2).2 hreads hbytes
  -- one word more is read behind the last byte
  obtain ⟨x, words, hwords⟩ : ∃ x words, s₂.reads = x :: words := by
    rw [hleft]
    cases pre' with
    | cons x pre' => exact ⟨x, pre' ++ rest, rfl⟩
    | nil => exact List.exists_cons_of_ne_nil hrest
  have hread : readReg s₂ = (some x, { s₂ with reads := words }) := by rw [readReg, hwords]
  have hbegin : beginReception buf len s₁ = (some ⟨⟩, (beginReception buf len s₁).2) := rfl
  have hsend : sendReceive reg 0xff (beginReception buf len s₁).2 =
      (some ⟨⟩, (sendReceive reg 0xff (beginReception buf len s₁).2).2) := rfl
  refine ⟨{ s₂ with reads := words }, ?_, ?_⟩
  · rw [sdmmcRxBuf, bind_of_some htoken, if_neg (by decide), bind_of_some hbegin,
      bind_of_some hsend, ← hlen, bind_of_some hloop, bind_of_some hread, crc16]
    split <;> rfl
  · exact hmem.trans (congrArg (·.store buf bytes) hsilent.1)

/-! ## Section 4: Blocks -/

/-- A block with the check-sum that belongs to it. -/
def Genuine (sent : List Byte) : Prop :=
  ∃ data hi lo, sent = data ++ [hi, lo] ∧ be16 hi lo = crc16Bitwise data

theorem genuine_iff (data : List Byte) (hi lo : Byte) :
    be16 hi lo = crc16Bitwise data ↔ crc16 (data ++ [hi, lo]) = 0 := by
  rw [crc16_append_eq_zero, crc16_eq_crc16Bitwise]
  exact eq_comm

theorem Genuine.crc16_eq_zero {sent : List Byte} (h : Genuine sent) : crc16 sent = 0 := by
  obtain ⟨data, hi, lo, rfl, hcrc⟩ := h
  exact (genuine_iff data hi lo).1 hcrc

/-- **Integrity of a received block.**  For any stream of words behind the token, the data is
stored in order, and there is no error exactly if the two bytes behind it are its check-sum; so
there is one if a genuine block has been hit by a burst of at most 16 bits. -/
theorem rxIntegrity (reg buf len : ℕ) (s s₁ : Driver) (pre rest : List (BitVec 32))
    (data : List Byte) (hi lo : Byte)
    (htoken : sdmmcWaitR1Response reg 0xfe 1000 s = (some 0, s₁))
    (hreads : s₁.reads = pre ++ rest) (hrest : rest ≠ [])
    (hbytes : validBytes pre = data ++ [hi, lo]) (hlen : data.length = len) :
    ∃ ret s', sdmmcRxBuf reg buf len s = (some ret, s') ∧ s'.mem.load buf len = data ∧
      (ret = sdmmcErrorOk ↔ be16 hi lo = crc16Bitwise data) ∧
      (ret ≠ sdmmcErrorOk → ret = sdmmcErrorCrc) ∧
      ∀ sent e, Genuine sent → sent.length = e.length → Crc.IsBurst 16 (wireBits e) →
        data ++ [hi, lo] = List.zipWith (· ^^^ ·) sent e → ret = sdmmcErrorCrc := by
  have hall : (data ++ [hi, lo]).length = len + 2 := by
    rw [List.length_append, hlen]
    rfl
  obtain ⟨s', hrun, hmem⟩ := sdmmcRxBuf_of_stream hall htoken hreads hrest hbytes
  refine ⟨_, s', hrun, ?_, ?_, ?_, ?_⟩
  · rw [hmem, Memory.load_store_take _ _ (by omega), ← hlen, List.take_left]
  · rw [genuine_iff]
    by_cases hzero : crc16 (data ++ [hi, lo]) = 0
    · rw [if_neg (not_not.2 hzero)]
      exact iff_of_true rfl hzero
    · rw [if_pos hzero]
      exact iff_of_false (by decide) hzero
  · intro hne
    by_cases hzero : crc16 (data ++ [hi, lo]) = 0
    · rw [if_neg (not_not.2 hzero)] at hne
      exact absurd rfl hne
    · exact if_pos hzero
  · intro sent e hgenuine hsame hburst herror
    have hne := crc16_burst_ne_zero hsame hgenuine.crc16_eq_zero hburst
    rw [herror, if_pos hne]

theorem sdmmcWaitR1Response_of_token {reg : ℕ} {r1 : Byte} {s : Driver} {rx : BitVec 32}
    {rest : List (BitVec 32)} (hreads : s.reads = rx :: rest) (hrx : rxValid rx = true)
    (hr1 : byteOf rx = r1) :
    sdmmcWaitR1Response reg r1 1000 s =
      (some 0, { (sendReceive reg 0xff s).2 with reads := rest }) := by
  have htimeout : sdmmcTimeout = 524286 + 1 := rfl
  have hsend : sendReceive reg 0xff s = (some ⟨⟩, (sendReceive reg 0xff s).2) := rfl
  have hpoll := @pollData_of_idle (sendReceive reg 0xff s).2 [] rest rx hreads
    (List.forall_mem_nil _) hrx
  have hloop : waitR1Loop reg r1 sdmmcTimeout s =
      (some true, { (sendReceive reg 0xff s).2 with reads := rest }) := by
    rw [htimeout, waitR1Loop, bind_of_some hsend, bind_of_some hpoll, if_pos hr1]
    rfl
  rw [sdmmcWaitR1Response, bind_of_some hloop]
  rfl

/-- A block of four bytes, with words that bring none in between. -/
theorem rxIntegrity_block : ∃ ret s', sdmmcRxBuf 0 0x1000 4
      { Driver.start with
        reads := [0x800000fe, 0x80000041, 0, 0x80000000, 0x800000ff, 0, 0, 0x800000fe,
          0x80000015, 0x80000006, 0] } = (some ret, s') ∧
    s'.mem.load 0x1000 4 = [0x41, 0x00, 0xff, 0xfe] ∧ ret = sdmmcErrorOk := by
  have htoken := @sdmmcWaitR1Response_of_token 0 0xfe
    { Driver.start with
      reads := [0x800000fe, 0x80000041, 0, 0x80000000, 0x800000ff, 0, 0, 0x800000fe, 0x80000015,
        0x80000006, 0] }
    0x800000fe [0x80000041, 0, 0x80000000, 0x800000ff, 0, 0, 0x800000fe, 0x80000015, 0x80000006, 0]
    rfl (by decide) (by decide)
  obtain ⟨ret, s', hrun, hdata, hok, -⟩ := rxIntegrity 0 0x1000 4 _ _
    [0x80000041, 0, 0x80000000, 0x800000ff, 0, 0, 0x800000fe, 0x80000015, 0x80000006] [0]
    [0x41, 0x00, 0xff, 0xfe] 0x15 0x06 htoken rfl (by decide) (by decide) rfl
  exact ⟨ret, s', hrun, hdata, hok.2 (by decide +kernel)⟩

end Karnix.Sd
