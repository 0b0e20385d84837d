import Karnix.Sd.Transfers

/-!
# Which blocks are accessed

`sdmmc_read_block` and `sdmmc_write_block` compare the 32-bit sum of the first block and the
number of blocks with the size of the card, hold the number in an `int` to choose between a
command for one block and one for several, and multiply the first block by 512 for cards that take
byte addresses.
-/

namespace Karnix.Sd

open Karnix.Library
open Karnix.Library.Program

/-! ## Section 1: What an access may do -/

/-- `sdmmc_cards[d].type`, as it lies in memory. -/
def Driver.cardType (s : Driver) (cards d : ℕ) : BitVec 32 :=
  leWord (s.mem.load (typeAddr cards d) 4)

/-- `sdmmc_cards[d].blocks`, as it lies in memory. -/
def Driver.cardBlocks (s : Driver) (cards d : ℕ) : BitVec 32 :=
  leWord (s.mem.load (blocksAddr cards d) 4)

/-- The block that a card takes an address for. -/
def addressed (type addr : BitVec 32) : Option ℕ :=
  if type = sdmmcTypeSdcV2HC then some addr.toNat
  else if addr.toNat % sdmmcBlockSize = 0 then some (addr.toNat / sdmmcBlockSize) else none

/-- The command stops a transfer, or begins one of the blocks from `blockNum` on: of one block, or
of several. -/
def Addresses (single several : Byte) (type blockNum count : BitVec 32) (cmd : Byte)
    (arg : BitVec 32) : Prop :=
  cmd = 12 ∧ arg = 0 ∨
    cmd = (if count = 1 then single else several) ∧ addressed type arg = some blockNum.toNat

/-- A call of `sdmmc_read_block` that leads from `s` to `s'`: it is refused, or it accesses blocks
of the card only, and gets as many as were asked for if it succeeds. -/
def ReadConfined (cards d : ℕ) (blockNum count : BitVec 32) (s : Driver) (v : Option ℤ)
    (s' : Driver) : Prop :=
  (∃ e < 0, v = some e ∧ s'.sent = s.sent) ∨
    blockNum.toNat + count.toNat ≤ (s.cardBlocks cards d).toNat ∧
      (∀ c ∈ commands (spoken s s'), Addresses 17 18 (s.cardType cards d) blockNum count c.1 c.2) ∧
      (v = some 0 → ∃ rs earlier, s'.received = rs ++ earlier ++ s.received ∧
        rs.length = count.toNat ∧ ∀ r ∈ rs, r.Sound)

/-- A call of `sdmmc_write_block`: the same, and it does not access the protected blocks; what it
sends are blocks of 512 bytes with their check-sums. -/
def WriteConfined (cards d : ℕ) (blockNum count : BitVec 32) (s : Driver) (v : Option ℤ)
    (s' : Driver) : Prop :=
  (∃ e < 0, v = some e ∧ s'.sent = s.sent) ∨
    blockNum.toNat + count.toNat ≤ (s.cardBlocks cards d).toNat ∧
      s.writeProtected.toNat ≤ blockNum.toNat ∧
      (∀ c ∈ commands (spoken s s'), Addresses 24 25 (s.cardType cards d) blockNum count c.1 c.2) ∧
      (v = some 0 → ∃ earlier ws, spoken s s' = earlier ++ ws ∧ (commands ws).length = 1 ∧
        ws.countP isData = count.toNat * (sdmmcBlockSize + 2))

/-- The tests at the beginning of both functions. -/
def Admitted (cards d : ℕ) (blockNum count : BitVec 32) (buf : ℕ) (s : Driver) : Prop :=
  d < sdmmcDevices ∧ ¬ count < 1 ∧ buf ≠ 0 ∧ s.cardType cards d ≠ sdmmcTypeNone ∧
    ¬ s.cardBlocks cards d < blockNum + count

/-- The sum does not wrap, the number of blocks is an `int`, and the byte address does not wrap
for the cards that take one. -/
def Fits (type blockNum count : BitVec 32) : Prop :=
  blockNum.toNat + count.toNat < 0x100000000 ∧ count.toNat < 0x80000000 ∧
    (type ≠ sdmmcTypeSdcV2HC → blockNum.toNat < 0x800000)

instance (cards d : ℕ) (blockNum count : BitVec 32) (buf : ℕ) (s : Driver) :
    Decidable (Admitted cards d blockNum count buf s) := inferInstanceAs (Decidable (_ ∧ _))

instance (type blockNum count : BitVec 32) : Decidable (Fits type blockNum count) :=
  inferInstanceAs (Decidable (_ ∧ _))

variable {cards d buf : ℕ} {blockNum count type addr : BitVec 32} {s s' : Driver}

/-! ## Section 2: The tests at the beginning -/

theorem sdmmcReadBlock_refused (h : ¬ Admitted cards d blockNum count buf s) :
    ∃ e < 0, sdmmcReadBlock cards d blockNum count buf s = (some e, s) := by
  unfold sdmmcReadBlock
  split
  · exact ⟨_, by decide, rfl⟩
  · split
    · exact ⟨_, by decide, rfl⟩
    · split
      · exact ⟨_, by decide, rfl⟩
      · have hload : load32 (typeAddr cards d) s = (some (s.cardType cards d), s) := rfl
        rw [bind_of_some hload]
        split
        · exact ⟨_, by decide, rfl⟩
        · have hload' : load32 (blocksAddr cards d) s = (some (s.cardBlocks cards d), s) := rfl
          rw [bind_of_some hload']
          split
          · exact ⟨_, by decide, rfl⟩
          · rename_i hd hcount hbuf htype hblocks
            exact absurd ⟨Nat.not_le.1 hd, hcount, hbuf, htype, hblocks⟩ h

theorem sdmmcReadBlock_admitted (h : Admitted cards d blockNum count buf s) :
    sdmmcReadBlock cards d blockNum count buf s = (spiClearRxFifo >>= fun _ =>
      readRetry d (commandAddr (s.cardType cards d) blockNum) count buf sdmmcRetries) s := by
  obtain ⟨hd, hcount, hbuf, htype, hblocks⟩ := h
  have hload : load32 (typeAddr cards d) s = (some (s.cardType cards d), s) := rfl
  have hload' : load32 (blocksAddr cards d) s = (some (s.cardBlocks cards d), s) := rfl
  rw [sdmmcReadBlock, if_neg (Nat.not_le.2 hd), if_neg hcount, if_neg hbuf, bind_of_some hload,
    if_neg htype, bind_of_some hload', if_neg hblocks]

theorem sdmmcWriteBlock_refused (outerRetry : ℤ)
    (h : ¬ (¬ blockNum < s.writeProtected ∧ Admitted cards d blockNum count buf s)) :
    ∃ e < 0, sdmmcWriteBlock cards outerRetry d blockNum count buf s = (some e, s) := by
  have hread : Program.read (fun s : Driver => s.writeProtected) s =
      (some s.writeProtected, s) := rfl
  unfold sdmmcWriteBlock
  rw [bind_of_some hread]
  split
  · exact ⟨_, by decide, rfl⟩
  · split
    · exact ⟨_, by decide, rfl⟩
    · split
      · exact ⟨_, by decide, rfl⟩
      · split
        · exact ⟨_, by decide, rfl⟩
        · have hload : load32 (blocksAddr cards d) s = (some (s.cardBlocks cards d), s) := rfl
          rw [bind_of_some hload]
          split
          · exact ⟨_, by decide, rfl⟩
          · have hload' : load32 (typeAddr cards d) s = (some (s.cardType cards d), s) := rfl
            rw [bind_of_some hload']
            split
            · exact ⟨_, by decide, rfl⟩
            · rename_i hwp hd hcount hbuf hblocks htype
              exact absurd ⟨hwp, Nat.not_le.1 hd, hcount, hbuf, htype, hblocks⟩ h

theorem sdmmcWriteBlock_admitted (outerRetry : ℤ) (hwp : ¬ blockNum < s.writeProtected)
    (h : Admitted cards d blockNum count buf s) :
    sdmmcWriteBlock cards outerRetry d blockNum count buf s = (spiClearRxFifo >>= fun _ =>
      writeRetry d (commandAddr (s.cardType cards d) blockNum) count buf sdmmcRetries
        sdmmcErrorOk >>= fun ret =>
      if outerRetry = sdmmcRetries then pure sdmmcErrorWrite else pure ret) s := by
  obtain ⟨hd, hcount, hbuf, htype, hblocks⟩ := h
  have hread : Program.read (fun s : Driver => s.writeProtected) s =
      (some s.writeProtected, s) := rfl
  have hload : load32 (typeAddr cards d) s = (some (s.cardType cards d), s) := rfl
  have hload' : load32 (blocksAddr cards d) s = (some (s.cardBlocks cards d), s) := rfl
  rw [sdmmcWriteBlock, bind_of_some hread, if_neg hwp, if_neg (Nat.not_le.2 hd), if_neg hcount,
    if_neg hbuf, bind_of_some hload', if_neg hblocks, bind_of_some hload, if_neg htype]

/-! ## Section 3: Commands and addresses -/

theorem addressed_commandAddr :
    addressed type (commandAddr type blockNum) = some blockNum.toNat ↔
      (type ≠ sdmmcTypeSdcV2HC → blockNum.toNat < 0x800000) := by
  rw [addressed, commandAddr]
  by_cases htype : type = sdmmcTypeSdcV2HC
  · rw [if_pos htype, if_neg (Classical.not_not.2 htype)]
    exact iff_of_true rfl fun hne => absurd htype hne
  · rw [if_neg htype, if_pos htype]
    have hlt := blockNum.isLt
    have hmul : (blockNum * BitVec.ofNat 32 sdmmcBlockSize).toNat =
        blockNum.toNat * 512 % 4294967296 := by
      rw [BitVec.toNat_mul]
      rfl
    rw [hmul, sdmmcBlockSize, if_pos (by omega), Option.some.injEq]
    simp only [ne_eq, htype, not_false_eq_true, true_implies]
    omega

/-- The signed comparison tells one block from several unless the number is negative. -/
theorem toInt_lt_two_iff (hcount : ¬ count < 1) :
    (count.toInt < 2 ↔ count = 1) ↔ count.toNat < 0x80000000 := by
  have hpos : 0 < count.toNat := by
    rcases Nat.eq_zero_or_pos count.toNat with hzero | hpos
    · exact absurd (BitVec.lt_def.2 (hzero ▸ Nat.one_pos)) hcount
    · exact hpos
  have hlt := count.isLt
  have hint := BitVec.toInt_eq_toNat_cond count
  have hone : count = 1 ↔ count.toNat = 1 :=
    ⟨fun h => h ▸ rfl, fun h => BitVec.eq_of_toNat_eq h⟩
  rw [hone]
  split at hint <;> omega

theorem readCmd_eq_iff (hcount : ¬ count < 1) :
    readCmd count = (if count = 1 then 17 else 18) ↔ count.toNat < 0x80000000 := by
  rw [← toInt_lt_two_iff hcount, readCmd]
  by_cases hint : count.toInt < 2 <;> by_cases hone : count = 1 <;> simp [hint, hone]

theorem writeCmd_eq_iff (hcount : ¬ count < 1) :
    writeCmd count = (if count = 1 then 24 else 25) ↔ count.toNat < 0x80000000 := by
  rw [← toInt_lt_two_iff hcount, writeCmd]
  by_cases hint : count.toInt < 2 <;> by_cases hone : count = 1 <;> simp [hint, hone]

theorem blocksOf_eq (hcount : ¬ count < 1) (hlt : count.toNat < 0x80000000) :
    blocksOf count = count.toNat := by
  have hone := (toInt_lt_two_iff hcount).2 hlt
  rw [blocksOf]
  by_cases hint : count.toInt < 2
  · rw [if_pos hint, hone.1 hint]
    rfl
  · rw [if_neg hint]

/-- Where the sum does not wrap, the test keeps the blocks on the card. -/
theorem in_card {blocks : BitVec 32} (h : ¬ blocks < blockNum + count)
    (hsum : blockNum.toNat + count.toNat < 0x100000000) :
    blockNum.toNat + count.toNat ≤ blocks.toNat := by
  have hle := Nat.not_lt.1 fun hlt => h (BitVec.lt_def.2 hlt)
  rw [BitVec.toNat_add, Nat.mod_eq_of_lt hsum] at hle
  exact hle

/-! ## Section 4: Calls that fit -/

theorem pos_of_not_lt_one (hcount : ¬ count < 1) : 0 < count.toNat :=
  Nat.pos_of_ne_zero fun hzero => hcount (BitVec.lt_def.2 (hzero ▸ Nat.one_pos))

/-- The last attempt of a call that succeeds got all blocks. -/
theorem readRetry_ok (hpos : 0 < count.toNat) {retry : ℕ}
    (h : readRetry d addr count buf retry s = (some 0, s')) :
    ∃ rs earlier, s'.received = rs ++ earlier ++ s.received ∧ rs.length = blocksOf count ∧
      ∀ r ∈ rs, r.Sound := by
  -- on the attempts; those before the last one have left what they received
  induction retry generalizing s with
  | zero => cases h
  | succ retry ih =>
    rw [readRetry] at h
    obtain ⟨result, s₁, hattempt, h⟩ := exists_of_bind h
    cases result with
    | some ret =>
      cases h
      obtain ⟨rs, hgot⟩ := readAttempt_ok hattempt
      exact ⟨rs, [], by rw [List.append_nil, hgot.received], hgot.count, hgot.sound⟩
    | none =>
      have hkeeps : Keeps (Stores (fun _ => True) fun _ => True) (readAttempt d addr count buf) :=
        keeps_readAttempt d hpos fun _ _ => trivial
      obtain ⟨before, hbefore, -, -⟩ := hkeeps.of_eq hattempt
      obtain ⟨rs, earlier, hreceived, hcount, hsound⟩ := ih h
      refine ⟨rs, earlier ++ before, ?_, hcount, hsound⟩
      rw [hreceived, hbefore]
      simp only [List.append_assoc]

/-- Before the first command the FIFO is cleared. -/
theorem leads_access {ok : Byte → BitVec 32 → Prop} {p : Prog ℤ}
    (hp : Leads (Says d ok) (Stops d ok) p) :
    Leads (Says d ok) (Stops d ok) (spiClearRxFifo >>= fun _ => p) := by
  have hclear : Leads (Says d ok) (Stops d ok) spiClearRxFifo := leads_of_chat inferInstance
  infer_instance

theorem readConfined_of_fits (hadmitted : Admitted cards d blockNum count buf s)
    (hfits : Fits (s.cardType cards d) blockNum count) {v : Option ℤ}
    (h : sdmmcReadBlock cards d blockNum count buf s = (v, s')) :
    ReadConfined cards d blockNum count s v s' := by
  have hcount := hadmitted.2.1
  have hpos := pos_of_not_lt_one hcount
  have hcmd : Addresses 17 18 (s.cardType cards d) blockNum count (readCmd count)
      (commandAddr (s.cardType cards d) blockNum) :=
    Or.inr ⟨(readCmd_eq_iff hcount).2 hfits.2.1, addressed_commandAddr.2 hfits.2.2⟩
  rw [sdmmcReadBlock_admitted hadmitted] at h
  refine Or.inr ⟨in_card hadmitted.2.2.2.2 hfits.1, ?_, ?_⟩
  · have hretry := leads_readRetry (d := d) (Or.inl ⟨rfl, rfl⟩) hcmd buf sdmmcRetries
    exact (Leads.of_eq (leads_access hretry) h).allowed
  · rintro rfl
    obtain ⟨_, s₁, hclear, h⟩ := exists_of_bind h
    have hquiet := (keeps_spiClearRxFifo (R := Quiet)).of_eq hclear
    obtain ⟨rs, earlier, hreceived, hlen, hsound⟩ := readRetry_ok hpos h
    refine ⟨rs, earlier, ?_, hlen.trans (blocksOf_eq hcount hfits.2.1), hsound⟩
    rw [hreceived, hquiet.2]

/-- A call that writes with success sends all blocks in its last attempt. -/
theorem writeRetry_ok {retry : ℕ} {ret : ℤ} (hretry : 0 < retry)
    (h : writeRetry d addr count buf retry ret s = (some 0, s')) :
    ∃ earlier, ∃ s₁, Wrote d earlier s s₁ ∧
      SendsAfter d (writeCmd count) addr (blocksOf count * (sdmmcBlockSize + 2)) s₁ s' := by
  induction retry generalizing s ret with
  | zero => exact absurd hretry (Nat.lt_irrefl 0)
  | succ retry ih =>
    rw [writeRetry] at h
    obtain ⟨⟨b, r⟩, s₁, hattempt, h⟩ := exists_of_bind h
    rcases writeAttempt_ok hattempt with ⟨rfl, rfl, hsends⟩ | ⟨rfl, hne⟩
    · cases h
      exact ⟨[], s, rfl, hsends⟩
    · rcases Nat.eq_zero_or_pos retry with rfl | hpos
      · -- no attempt is left, and the error is returned
        cases h
        exact absurd rfl hne
      · have hleads : Leads (Says d fun _ _ => True) (Stops d fun _ _ => True)
            (writeAttempt d addr count buf) := leads_writeAttempt trivial buf
        obtain ⟨ws, hws, -⟩ := hleads.returns _ _ _ hattempt
        obtain ⟨earlier, s₂, hearlier, hsends⟩ := ih hpos h
        exact ⟨ws ++ earlier, s₂, hws.append hearlier, hsends⟩

theorem writeConfined_of_fits (hwp : ¬ blockNum < s.writeProtected)
    (hadmitted : Admitted cards d blockNum count buf s)
    (hfits : Fits (s.cardType cards d) blockNum count) {outerRetry : ℤ} {v : Option ℤ}
    (h : sdmmcWriteBlock cards outerRetry d blockNum count buf s = (v, s')) :
    WriteConfined cards d blockNum count s v s' := by
  have hcount := hadmitted.2.1
  have hcmd : Addresses 24 25 (s.cardType cards d) blockNum count (writeCmd count)
      (commandAddr (s.cardType cards d) blockNum) :=
    Or.inr ⟨(writeCmd_eq_iff hcount).2 hfits.2.1, addressed_commandAddr.2 hfits.2.2⟩
  have hprotected : s.writeProtected.toNat ≤ blockNum.toNat :=
    Nat.not_lt.1 fun hlt => hwp (BitVec.lt_def.2 hlt)
  rw [sdmmcWriteBlock_admitted outerRetry hwp hadmitted] at h
  refine Or.inr ⟨in_card hadmitted.2.2.2.2 hfits.1, hprotected, ?_, ?_⟩
  · have hretry := leads_writeRetry (d := d) hcmd buf sdmmcRetries sdmmcErrorOk
    have hall : Leads (Says d (Addresses 24 25 (s.cardType cards d) blockNum count))
        (Stops d (Addresses 24 25 (s.cardType cards d) blockNum count))
        (writeRetry d (commandAddr (s.cardType cards d) blockNum) count buf sdmmcRetries
          sdmmcErrorOk >>= fun ret =>
        if outerRetry = sdmmcRetries then pure sdmmcErrorWrite else pure ret) := inferInstance
    exact (Leads.of_eq (leads_access hall) h).allowed
  · rintro rfl
    obtain ⟨_, s₁, hclear, h⟩ := exists_of_bind h
    obtain ⟨ret, s₂, hretry, h⟩ := exists_of_bind h
    rcases exists_of_ite h with ⟨-, h⟩ | ⟨-, h⟩
    · cases h
    · cases h
      obtain ⟨fs, hfs, -⟩ := (chat_spiClearRxFifo (d := d)).of_eq hclear
      obtain ⟨earlier, s₃, hearlier, ws, hws, hcommands, hdata⟩ :=
        writeRetry_ok (by decide) hretry
      refine ⟨fs ++ earlier, ws, ((hfs.append hearlier).append hws).spoken, ?_, ?_⟩
      · rw [hcommands]
        rfl
      · rw [hdata, blocksOf_eq hcount hfits.2.1]

/-! ## Section 5: Calls that do not fit -/

/-- Reads of an empty FIFO and of the six bytes that come in while a command is sent; then
nothing more. -/
def silence : List (BitVec 32) := 0 :: List.replicate 6 0x800000ff

/-- A byte is sent, and one comes in. -/
theorem sdmmcReadwriteByte_of_valid {b : Byte} {rx : BitVec 32} {reads : List (BitVec 32)}
    (hvalid : rxValid rx = true) (h : s.reads = rx :: reads) :
    ∃ s₁, sdmmcReadwriteByte d b s = (some ((byteOf rx).toNat : ℤ), s₁) ∧ s₁.reads = reads := by
  have hsend : sendReceive d b s = (some ⟨⟩, (sendReceive d b s).2) := rfl
  have hread : readReg (sendReceive d b s).2 =
      (some rx, { (sendReceive d b s).2 with reads := reads }) := by
    rw [readReg]
    have hreads : (sendReceive d b s).2.reads = rx :: reads := h
    rw [hreads]
  have htimeout : sdmmcTimeout = 524286 + 1 := rfl
  refine ⟨{ (sendReceive d b s).2 with reads := reads }, ?_, rfl⟩
  rw [sdmmcReadwriteByte, bind_of_some hsend, htimeout, readwriteLoop, bind_of_some hread,
    if_pos hvalid]
  rfl

/-- The six bytes of a command are sent, and then the response is waited for. -/
theorem sdmmcSendCmd_frame (cmd : Byte) (arg : BitVec 32) (crc : Byte)
    {reads : List (BitVec 32)} (h : s.reads = List.replicate 6 0x800000ff ++ reads) :
    ∃ s₁, sdmmcSendCmd d cmd arg crc s = sdmmcGetR1Response d s₁ ∧
      Wrote d (frame cmd arg crc) s s₁ ∧ s₁.reads = reads := by
  have hvalid : rxValid 0x800000ff = true := rfl
  have hnote : noteCmd cmd s = (some ⟨⟩, (noteCmd cmd s).2) := rfl
  have h₀ : (noteCmd cmd s).2.reads = List.replicate 6 0x800000ff ++ reads := h
  obtain ⟨s₁, hrun₁, h₁⟩ := sdmmcReadwriteByte_of_valid (d := d) (b := cmd ||| 0x40) hvalid h₀
  obtain ⟨s₂, hrun₂, h₂⟩ := sdmmcReadwriteByte_of_valid (d := d)
    (b := (arg >>> 24).setWidth 8) hvalid h₁
  obtain ⟨s₃, hrun₃, h₃⟩ := sdmmcReadwriteByte_of_valid (d := d)
    (b := (arg >>> 16).setWidth 8) hvalid h₂
  obtain ⟨s₄, hrun₄, h₄⟩ := sdmmcReadwriteByte_of_valid (d := d)
    (b := (arg >>> 8).setWidth 8) hvalid h₃
  obtain ⟨s₅, hrun₅, h₅⟩ := sdmmcReadwriteByte_of_valid (d := d)
    (b := arg.setWidth 8) hvalid h₄
  obtain ⟨s₆, hrun₆, h₆⟩ := sdmmcReadwriteByte_of_valid (d := d) (b := crc) hvalid h₅
  refine ⟨s₆, ?_, ?_, h₆⟩
  · rw [sdmmcSendCmd, bind_of_some hnote, bind_of_some hrun₁, bind_of_some hrun₂,
      bind_of_some hrun₃, bind_of_some hrun₄, bind_of_some hrun₅, bind_of_some hrun₆]
  · exact ((((((wrote_nil (s := s) (by cases hnote; rfl)).append
      (wrote_sdmmcReadwriteByte hrun₁)).append (wrote_sdmmcReadwriteByte hrun₂)).append
      (wrote_sdmmcReadwriteByte hrun₃)).append (wrote_sdmmcReadwriteByte hrun₄)).append
      (wrote_sdmmcReadwriteByte hrun₅)).append (wrote_sdmmcReadwriteByte hrun₆)

/-- A command is sent as a whole, and its response does not come. -/
theorem sdmmcSendCmd_silence {cmd : Byte} (arg : BitVec 32) (crc : Byte) (hcmd : cmd < 0x40)
    (h : s.reads = List.replicate 6 0x800000ff) :
    ∃ said s', sdmmcSendCmd d cmd arg crc s = (none, s') ∧ Wrote d said s s' ∧
      commands said = [(cmd, arg)] := by
  rw [← List.append_nil (List.replicate 6 (0x800000ff : BitVec 32))] at h
  obtain ⟨s₆, hrun, hframe, h₆⟩ := sdmmcSendCmd_frame (d := d) cmd arg crc h
  have hwait : ∃ s', sdmmcGetR1Response d s₆ = (none, s') := by
    have htimeout : sdmmcTimeout = 524286 + 1 := rfl
    have hsend : sendReceive d 0xff s₆ = (some ⟨⟩, (sendReceive d 0xff s₆).2) := rfl
    have hpoll : pollData (sendReceive d 0xff s₆).2 =
        (none, { (sendReceive d 0xff s₆).2 with reads := [] }) := by
      rw [pollData]
      have hreads : (sendReceive d 0xff s₆).2.reads = [] := h₆
      rw [hreads]
      rfl
    refine ⟨{ (sendReceive d 0xff s₆).2 with reads := [] }, ?_⟩
    rw [sdmmcGetR1Response, htimeout, getR1Loop, bind_of_some hsend]
    exact bind_of_none hpoll
  obtain ⟨s', hwait⟩ := hwait
  obtain ⟨rest, hrest, hf⟩ := (chat_getR1Loop (d := d) sdmmcTimeout).of_eq hwait
  refine ⟨_, s', hrun.trans hwait, hframe.append hrest, ?_⟩
  rw [commands_frame hcmd, commands_of_forall fun w hw => (hf w hw).1]

/-- The card is selected and a command sent. -/
theorem attempt_silence {α : Type} {cmd : Byte} {arg : BitVec 32} {crc : Byte} (hcmd : cmd < 0x40)
    {f : ℤ → Prog α} (s : Driver) :
    ∃ s', (sdmmcSelect d deviceSs >>= fun _ => sdmmcSendCmd d cmd arg crc >>= f)
        { s with reads := List.replicate 6 0x800000ff } = (none, s') ∧
      commands (spoken s s') = [(cmd, arg)] := by
  have hselect : sdmmcSelect d deviceSs { s with reads := List.replicate 6 0x800000ff } =
      (some ⟨⟩, (sdmmcSelect d deviceSs { s with reads := List.replicate 6 0x800000ff }).2) := rfl
  obtain ⟨said, s', hrun, hsaid, hcommands⟩ := sdmmcSendCmd_silence (d := d) arg crc
    (s := (sdmmcSelect d deviceSs { s with reads := List.replicate 6 0x800000ff }).2) hcmd rfl
  refine ⟨s', ?_, ?_⟩
  · rw [bind_of_some hselect]
    exact bind_of_none hrun
  · have hwrote : Wrote d ((spiCmdEnableSs ||| deviceSs) :: said) s s' :=
      (wrote_writeData d (spiCmdEnableSs ||| deviceSs) s).append hsaid
    rw [hwrote.spoken, commands_word (by decide)]
    exact hcommands

theorem readAttempt_silence (addr count : BitVec 32) (buf : ℕ) (s : Driver) :
    ∃ s', readAttempt d addr count buf { s with reads := List.replicate 6 0x800000ff } =
        (none, s') ∧
      commands (spoken s s') = [(readCmd count, addr)] := by
  rw [readAttempt, readCmd]
  by_cases hone : count.toInt < 2
  · simp only [if_pos hone]
    exact attempt_silence (by decide) s
  · simp only [if_neg hone]
    exact attempt_silence (by decide) s

theorem writeAttempt_silence (addr count : BitVec 32) (buf : ℕ) (s : Driver) :
    ∃ s', writeAttempt d addr count buf { s with reads := List.replicate 6 0x800000ff } =
        (none, s') ∧
      commands (spoken s s') = [(writeCmd count, addr)] := by
  rw [writeAttempt, writeCmd]
  by_cases hone : count.toInt < 2
  · simp only [if_pos hone]
    exact attempt_silence (by decide) s
  · simp only [if_neg hone]
    exact attempt_silence (by decide) s

theorem spiClearRxFifo_silence (s : Driver) : spiClearRxFifo { s with reads := silence } =
    (some ⟨⟩, { s with reads := List.replicate 6 0x800000ff }) := rfl

theorem sdmmcReadBlock_silence (h : Admitted cards d blockNum count buf s) :
    ∃ s', sdmmcReadBlock cards d blockNum count buf { s with reads := silence } = (none, s') ∧
      commands (spoken s s') = [(readCmd count, commandAddr (s.cardType cards d) blockNum)] := by
  have hadmitted : Admitted cards d blockNum count buf { s with reads := silence } := h
  obtain ⟨s', hrun, hcommands⟩ := readAttempt_silence (d := d)
    (commandAddr (s.cardType cards d) blockNum) count buf s
  refine ⟨s', ?_, hcommands⟩
  have hretries : sdmmcRetries = 2 + 1 := rfl
  rw [sdmmcReadBlock_admitted hadmitted, bind_of_some (spiClearRxFifo_silence s), hretries,
    readRetry]
  exact bind_of_none hrun

theorem sdmmcWriteBlock_silence (outerRetry : ℤ) (hwp : ¬ blockNum < s.writeProtected)
    (h : Admitted cards d blockNum count buf s) :
    ∃ s', sdmmcWriteBlock cards outerRetry d blockNum count buf { s with reads := silence } =
        (none, s') ∧
      commands (spoken s s') = [(writeCmd count, commandAddr (s.cardType cards d) blockNum)] := by
  have hadmitted : Admitted cards d blockNum count buf { s with reads := silence } := h
  have hwp' : ¬ blockNum < ({ s with reads := silence } : Driver).writeProtected := hwp
  obtain ⟨s', hrun, hcommands⟩ := writeAttempt_silence (d := d)
    (commandAddr (s.cardType cards d) blockNum) count buf s
  refine ⟨s', ?_, hcommands⟩
  have hretries : sdmmcRetries = 2 + 1 := rfl
  rw [sdmmcWriteBlock_admitted outerRetry hwp' hadmitted,
    bind_of_some (spiClearRxFifo_silence s), hretries, writeRetry]
  exact bind_of_none (bind_of_none hrun)

/-- What the command says about a call that is confined, but does not return. -/
theorem fits_of_addresses {single several cmd : Byte} (hne : cmd ≠ 12)
    (hcmd : cmd = (if count = 1 then single else several) ↔ count.toNat < 0x80000000)
    {blocks : BitVec 32} (hblocks : blockNum.toNat + count.toNat ≤ blocks.toNat)
    (h : Addresses single several type blockNum count cmd (commandAddr type blockNum)) :
    Fits type blockNum count := by
  rcases h with ⟨hstop, -⟩ | ⟨hkind, haddr⟩
  · exact absurd hstop hne
  · exact ⟨Nat.lt_of_le_of_lt hblocks blocks.isLt, hcmd.1 hkind, addressed_commandAddr.1 haddr⟩

/-! ## Section 6: Both functions -/

/-- Whatever the card answers, the call is confined. -/
def ReadsInside (cards d : ℕ) (blockNum count : BitVec 32) (buf : ℕ) (s : Driver) : Prop :=
  ∀ reads v s', sdmmcReadBlock cards d blockNum count buf { s with reads := reads } = (v, s') →
    ReadConfined cards d blockNum count { s with reads := reads } v s'

/-- Whatever the card answers, the call is confined. -/
def WritesInside (cards : ℕ) (outerRetry : ℤ) (d : ℕ) (blockNum count : BitVec 32) (buf : ℕ)
    (s : Driver) : Prop :=
  ∀ reads v s', sdmmcWriteBlock cards outerRetry d blockNum count buf { s with reads := reads } =
    (v, s') → WriteConfined cards d blockNum count { s with reads := reads } v s'

theorem readsInside_iff :
    ReadsInside cards d blockNum count buf s ↔
      (Admitted cards d blockNum count buf s → Fits (s.cardType cards d) blockNum count) := by
  constructor
  · intro hinside hadmitted
    obtain ⟨s', hrun, hcommands⟩ := sdmmcReadBlock_silence hadmitted
    rcases hinside _ _ _ hrun with ⟨e, -, hsome, -⟩ | ⟨hblocks, hallowed, -⟩
    · cases hsome
    · have hcmd := hallowed (readCmd count, commandAddr (s.cardType cards d) blockNum)
        (hcommands ▸ List.mem_cons_self ..)
      refine fits_of_addresses ?_ (readCmd_eq_iff hadmitted.2.1) hblocks hcmd
      rw [readCmd]
      split <;> decide
  · intro hfits reads v s' hrun
    by_cases hadmitted : Admitted cards d blockNum count buf s
    · exact readConfined_of_fits (s := { s with reads := reads }) hadmitted (hfits hadmitted) hrun
    · obtain ⟨e, he, herror⟩ := sdmmcReadBlock_refused (s := { s with reads := reads }) hadmitted
      rw [herror] at hrun
      cases hrun
      exact Or.inl ⟨e, he, rfl, rfl⟩

theorem writesInside_iff (outerRetry : ℤ) :
    WritesInside cards outerRetry d blockNum count buf s ↔
      (¬ blockNum < s.writeProtected ∧ Admitted cards d blockNum count buf s →
        Fits (s.cardType cards d) blockNum count) := by
  constructor
  · rintro hinside ⟨hwp, hadmitted⟩
    obtain ⟨s', hrun, hcommands⟩ := sdmmcWriteBlock_silence outerRetry hwp hadmitted
    rcases hinside _ _ _ hrun with ⟨e, -, hsome, -⟩ | ⟨hblocks, -, hallowed, -⟩
    · cases hsome
    · have hcmd := hallowed (writeCmd count, commandAddr (s.cardType cards d) blockNum)
        (hcommands ▸ List.mem_cons_self ..)
      refine fits_of_addresses ?_ (writeCmd_eq_iff hadmitted.2.1) hblocks hcmd
      rw [writeCmd]
      split <;> decide
  · intro hfits reads v s' hrun
    by_cases hadmitted : ¬ blockNum < s.writeProtected ∧ Admitted cards d blockNum count buf s
    · exact writeConfined_of_fits (s := { s with reads := reads }) hadmitted.1 hadmitted.2
        (hfits hadmitted) hrun
    · obtain ⟨e, he, herror⟩ :=
        sdmmcWriteBlock_refused (s := { s with reads := reads }) outerRetry hadmitted
      rw [herror] at hrun
      cases hrun
      exact Or.inl ⟨e, he, rfl, rfl⟩

/-- **Accesses stay inside the card.**  For every card, and every block number, number of blocks
and buffer, that is so whatever the card answers exactly if the call is refused, or its sum and its
byte address do not wrap and its number of blocks is not negative as an `int`. -/
theorem sdBounds (cards d : ℕ) (blockNum count : BitVec 32) (buf : ℕ) (s : Driver) :
    (ReadsInside cards d blockNum count buf s ↔
      (Admitted cards d blockNum count buf s → Fits (s.cardType cards d) blockNum count)) ∧
    ∀ outerRetry, WritesInside cards outerRetry d blockNum count buf s ↔
      (¬ blockNum < s.writeProtected ∧ Admitted cards d blockNum count buf s →
        Fits (s.cardType cards d) blockNum count) :=
  ⟨readsInside_iff, fun outerRetry => writesInside_iff outerRetry⟩

/-- The first card takes block numbers, and has 65536 blocks. -/
def largeCard : Driver :=
  { Driver.start with
    mem := (Driver.start.mem.store (typeAddr 0 0) (leBytes32 sdmmcTypeSdcV2HC)).store
      (blocksAddr 0 0) (leBytes32 0x10000) }

/-- Two blocks are read from the last one that a block number can name on. -/
theorem not_readsInside_wrap : ¬ ReadsInside 0 0 0xffffffff 2 0x1000 largeCard := by
  intro hinside
  have hfits := readsInside_iff.1 hinside (by decide)
  exact absurd hfits.1 (by decide)

end Karnix.Sd
