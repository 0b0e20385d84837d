import Karnix.Sd.Driver

/-!
# SD cards

`sdmmc_init`, `sdmmc_read_block` and `sdmmc_write_block` of `sdmmc.c`.  `cards` is the address
of the array `sdmmc_cards`, whose elements have no padding.
-/

namespace Karnix.Sd

open Karnix.Library

/-! ## Section 1: `struct sdmmc_card_info` -/

/-- `sizeof(struct sdmmc_card_info)` -/
def cardSize : ℕ := 44

/-- `&sdmmc_cards[d]`, in the table at `cards`. -/
def cardAddr (cards d : ℕ) : ℕ := cards + d * cardSize

def typeAddr (cards d : ℕ) : ℕ := cardAddr cards d

def ocrAddr (cards d : ℕ) : ℕ := cardAddr cards d + 4

def blocksAddr (cards d : ℕ) : ℕ := cardAddr cards d + 8

def cidAddr (cards d : ℕ) : ℕ := cardAddr cards d + 12

def csdAddr (cards d : ℕ) : ℕ := cardAddr cards d + 28

def sdmmcTypeNone : BitVec 32 := 0

def sdmmcTypeSdcV1 : BitVec 32 := 1

def sdmmcTypeSdcV2 : BitVec 32 := 2

def sdmmcTypeSdcV2HC : BitVec 32 := 3

def sdmmcTypeMmcV3 : BitVec 32 := 4

/-- `sdmmc_devices[d].ss`: which select line the card is at. -/
def deviceSs : BitVec 32 := 0

/-- `sdmmc_get_num_blocks`.  `csize` and `n` are 16 and 8 bits wide. -/
def sdmmcGetNumBlocks (csd : List Byte) : BitVec 32 :=
  let byte (i : ℕ) : Byte := csd.getD i 0
  if byte 0 &&& 0xc0 = 0x40 then
    let csize : BitVec 16 := (byte 8).setWidth 16 <<< 8 + (byte 9).setWidth 16 + 1
    csize.setWidth 32 <<< 10
  else
    let n : Byte := (byte 5 &&& 0x0f) + ((byte 10 &&& 0x80) >>> 7) + ((byte 9 &&& 0x03) <<< 1) + 2
    let csize : BitVec 16 := (byte 8 >>> 6).setWidth 16 + (byte 7).setWidth 16 <<< 2
      + (byte 6 &&& 0x03).setWidth 16 <<< 10 + 1
    -- a shift takes the distance from the low five bits of `n - 9`
    csize.setWidth 32 <<< ((n - 9).setWidth 5).toNat

/-! ## Section 2: `sdmmc_init` -/

/-- The loops of `sdmmc_init`: `body` until it fails, or gives a response that `stop` accepts,
with `again` before each repetition. -/
def retryUntil (body : Prog ℤ) (again : Prog PUnit) (stop : ℤ → Bool) : ℕ → ℤ → Prog ℤ
  | 0, ret => pure ret
  | n + 1, _ => do
    let ret ← body
    if ret < 0 ∨ stop ret = true then pure ret
    else do
      again
      retryUntil body again stop n ret

/-- CMD55, and `cmd` if that did not fail. -/
def appCmd (d : ℕ) (arg : BitVec 32) : Prog ℤ := do
  let ret ← sdmmcSendCmdSel d deviceSs 55 0x0 0x01
  if ret < 0 then pure ret else sdmmcSendCmdSel d deviceSs 41 arg 0x01

/-- "SDC V2 init": the value to end with, if initialization does not go on. -/
def initV2 (cards d : ℕ) : Prog (Option ℤ) := do
  -- the rest of the R7 response
  let _ ← sdmmcReadwriteByte d 0xff
  let _ ← sdmmcReadwriteByte d 0xff
  let _ ← sdmmcReadwriteByte d 0xff
  let _ ← sdmmcReadwriteByte d 0xff
  sdmmcDeselect d deviceSs
  let ret ← retryUntil (appCmd d 0x40000000) (pure ⟨⟩) (· = 0) (sdmmcRetries * 10) 0
  if ret ≠ 0 then pure (some ret)
  else do
    sdmmcSelect d deviceSs
    let ret ← sdmmcSendCmd d 58 0x0 0x01
    if ret ≠ 0 then pure (some ret)
    else do
      -- a byte that times out is negative, and goes into `ocr` all the same
      let b₃ ← sdmmcReadwriteByte d 0xff
      let b₂ ← sdmmcReadwriteByte d 0xff
      let b₁ ← sdmmcReadwriteByte d 0xff
      let b₀ ← sdmmcReadwriteByte d 0xff
      let ocr := BitVec.ofInt 32 b₃ <<< 24 ||| BitVec.ofInt 32 b₂ <<< 16 |||
        BitVec.ofInt 32 b₁ <<< 8 ||| BitVec.ofInt 32 b₀
      let type := if ocr &&& 0x40000000 ≠ 0 then sdmmcTypeSdcV2HC else sdmmcTypeSdcV2
      storeBytes (typeAddr cards d) (leBytes32 type)
      storeBytes (ocrAddr cards d) (leBytes32 ocr)
      sdmmcDeselect d deviceSs
      pure none

/-- "SDC V1.x or MMC V3": the value to end with, if initialization does not go on. -/
def initV1 (cards d : ℕ) : Prog (Option ℤ) := do
  sdmmcDeselect d deviceSs
  let ret ← appCmd d 0x0
  if ret < 0 then pure (some ret)
  else do
    let v1 := decide (ret = 0)
    let ret ← retryUntil (if v1 then appCmd d 0x0 else sdmmcSendCmdSel d deviceSs 1 0x0 0x01)
      (pure ⟨⟩) (· = 0) sdmmcRetries 0
    if ret < 0 then pure (some ret)
    else if ret = 0 then do
      storeBytes (typeAddr cards d) (leBytes32 (if v1 then sdmmcTypeSdcV1 else sdmmcTypeMmcV3))
      pure none
    -- no response that is zero: the type stays unknown, but initialization goes on
    else pure none

/-- `sdmmc_init` from CMD0 on, up to the type of the card. -/
def identify (cards d : ℕ) : Prog (Option ℤ) := do
  let ret ← retryUntil (sdmmcSendCmdSel d deviceSs 0 0 0x95) (pure ⟨⟩) (· = 1) sdmmcRetries 0
  if ret < 0 then pure (some ret)
  else if ret ≠ 1 then pure (some sdmmcErrorInitFail)
  else do
    let ret ← retryUntil
      (do
        sdmmcSelect d deviceSs
        sdmmcSendCmd d 8 0x01aa 0x87)
      (sdmmcDeselect d deviceSs) (· < 0x7f) sdmmcRetries 0
    if ret < 0 then pure (some ret)
    else if ret = 1 then initV2 cards d
    else initV1 cards d

/-- `sdmmc_init` from CMD16 on: the two registers, and the number of blocks. -/
def readRegisters (cards d : ℕ) : Prog ℤ := do
  let _ ← sdmmcSendCmdSel d deviceSs 16 (BitVec.ofNat 32 sdmmcBlockSize) 0x01
  let ret ← sdmmcGetInfo d deviceSs 10 (cidAddr cards d)
  if ret < 0 then pure ret
  else do
    let ret ← sdmmcGetInfo d deviceSs 9 (csdAddr cards d)
    if ret < 0 then pure ret
    else do
      -- out of the register as it was stored
      let csd ← Program.read fun s => s.mem.load (csdAddr cards d) 16
      storeBytes (blocksAddr cards d) (leBytes32 (sdmmcGetNumBlocks csd))
      pure ret

/-- At least 74 clocks for the card to power on. -/
def powerOn (d : ℕ) : ℕ → Prog PUnit
  | 0 => pure ⟨⟩
  | n + 1 => do
    let _ ← sdmmcReadwriteByte d 0xff
    powerOn d n

/-- `sdmmc_init` after the type of the card is known, or initialization was given up. -/
def initRest (cards d : ℕ) : Option ℤ → Prog ℤ
  | some ret => pure ret
  | none => readRegisters cards d

/-- `sdmmc_init`: power on, find out the kind of the card, and read its registers. -/
def sdmmcInit (cards d : ℕ) : Prog ℤ :=
  if sdmmcDevices ≤ d then pure sdmmcErrorParams
  else do
    Program.modify fun s => { s with mem := s.mem.fill (cardAddr cards d) cardSize 0 }
    spiClearRxFifo
    sdmmcDeselect d deviceSs
    powerOn d 10
    let early ← identify cards d
    let ret ← initRest cards d early
    sdmmcDeselect d deviceSs
    pure ret

/-! ## Section 3: `sdmmc_read_block` -/

/-- The address for a command: a byte address, but for cards that count in blocks. -/
def commandAddr (type blockNum : BitVec 32) : BitVec 32 :=
  if type ≠ sdmmcTypeSdcV2HC then blockNum * BitVec.ofNat 32 sdmmcBlockSize else blockNum

/-- "again2": the card is waited for, and the attempt is over. -/
def readAgain2 (d : ℕ) : Prog (Option ℤ) := do
  let _ ← sdmmcWaitReady d
  sdmmcDeselect d deviceSs
  pure none

/-- "again": the card is told to stop, and the attempt is over. -/
def readAgain (d : ℕ) : Prog (Option ℤ) := do
  let ret ← sdmmcSendCmd d 12 0 0x01
  if ret < 0 then pure (some ret) else readAgain2 d

/-- The loop over the blocks after CMD18: whether all of them were received. -/
def readBlocks (d : ℕ) : ℕ → ℕ → Prog Bool
  | 0, _ => pure true
  | c + 1, b => do
    let ret ← sdmmcRxBuf d b sdmmcBlockSize
    if ret ≠ 0 then pure false else readBlocks d c (b + sdmmcBlockSize)

/-- One attempt to read: the value to return, or none where it is to be repeated. -/
def readAttempt (d : ℕ) (addr count : BitVec 32) (buf : ℕ) : Prog (Option ℤ) := do
  sdmmcSelect d deviceSs
  -- `count` is signed in this comparison
  if count.toInt < 2 then do
    let ret ← sdmmcSendCmd d 17 addr 0x01
    if ret ≠ 0 then readAgain2 d
    else do
      let ret ← sdmmcRxBuf d buf sdmmcBlockSize
      if ret ≠ 0 then readAgain2 d
      else do
        sdmmcDeselect d deviceSs
        pure (some ret)
  else do
    let ret ← sdmmcSendCmd d 18 addr 0x01
    if ret ≠ 0 then readAgain d
    else do
      let all ← readBlocks d count.toNat buf
      if all = false then readAgain d
      else do
        -- stop of transmission
        let ret ← sdmmcSendCmd d 12 0 0x01
        if ret < 0 then readAgain d
        else do
          let ret ← sdmmcWaitReady d
          sdmmcDeselect d deviceSs
          pure (some ret)

/-- The loop of `sdmmc_read_block`, with the attempts that are left. -/
def readRetry (d : ℕ) (addr count : BitVec 32) (buf : ℕ) : ℕ → Prog ℤ
  | 0 => pure sdmmcErrorRead
  | retry + 1 => do
    let result ← readAttempt d addr count buf
    match result with
    | some ret => pure ret
    | none => readRetry d addr count buf retry

/-- `sdmmc_read_block`: the arguments are checked, and the blocks read in a few attempts. -/
def sdmmcReadBlock (cards d : ℕ) (blockNum count : BitVec 32) (buf : ℕ) : Prog ℤ :=
  if sdmmcDevices ≤ d then pure sdmmcErrorParams
  else if count < 1 then pure sdmmcErrorParams
  else if buf = 0 then pure sdmmcErrorParams
  else do
    let type ← load32 (typeAddr cards d)
    if type = sdmmcTypeNone then pure sdmmcErrorNotReady
    else do
      let blocks ← load32 (blocksAddr cards d)
      -- the sum wraps around at 2^32
      if blocks < blockNum + count then pure sdmmcErrorBounds
      else do
        spiClearRxFifo
        readRetry d (commandAddr type blockNum) count buf sdmmcRetries

/-! ## Section 4: `sdmmc_write_block` -/

/-- "again": the card is told to stop, and the attempt is over with what it has come to. -/
def writeAgain (d : ℕ) (ret : ℤ) : Prog (Bool × ℤ) := do
  let _ ← sdmmcReadwriteByte d 0xfd
  let _ ← sdmmcReadwriteByte d 0xff
  sdmmcDeselect d deviceSs
  pure (false, ret)

/-- The loop over the blocks after CMD25: what `sdmmc_tx_buf` returned last. -/
def writeBlocks (d : ℕ) : ℕ → ℕ → ℤ → Prog ℤ
  | 0, _, ret => pure ret
  | c + 1, b, _ => do
    let ret ← sdmmcTxBuf d b sdmmcBlockSize 0xfc
    if ret ≠ 0 then pure ret
    else do
      let _ ← sdmmcWaitReady d
      writeBlocks d c (b + sdmmcBlockSize) ret

/-- The end of an attempt that did not fail. -/
def writeDone (d : ℕ) (ret : ℤ) : Prog (Bool × ℤ) := do
  let _ ← sdmmcWaitReady d
  sdmmcDeselect d deviceSs
  pure (true, ret)

/-- One attempt to write: whether the loop is left, and the value of `ret`. -/
def writeAttempt (d : ℕ) (addr count : BitVec 32) (buf : ℕ) : Prog (Bool × ℤ) := do
  sdmmcSelect d deviceSs
  if count.toInt < 2 then do
    let ret ← sdmmcSendCmd d 24 addr 0x01
    if ret ≠ 0 then writeAgain d ret
    else do
      let _ ← sdmmcReadwriteByte d 0xff
      let ret ← sdmmcTxBuf d buf sdmmcBlockSize 0xfe
      if ret ≠ 0 then writeAgain d ret
      else do
        let _ ← sdmmcWaitReady d
        writeDone d ret
  else do
    let ret ← sdmmcSendCmd d 25 addr 0x01
    if ret ≠ 0 then writeAgain d ret
    else do
      let _ ← sdmmcReadwriteByte d 0xff
      let ret ← writeBlocks d count.toNat buf ret
      if ret ≠ 0 then writeAgain d ret
      else do
        let _ ← sdmmcReadwriteByte d 0xfd
        let _ ← sdmmcReadwriteByte d 0xff
        writeDone d ret

/-- The loop of `sdmmc_write_block`: the value of `ret` after it. -/
def writeRetry (d : ℕ) (addr count : BitVec 32) (buf : ℕ) : ℕ → ℤ → Prog ℤ
  | 0, ret => pure ret
  | retry + 1, _ => do
    let result ← writeAttempt d addr count buf
    if result.1 = true then pure result.2 else writeRetry d addr count buf retry result.2

/-- `sdmmc_write_block`.  The loop has a variable `retry` of its own, so that the one tested
after it has whatever value `outerRetry` the stack left there. -/
def sdmmcWriteBlock (cards : ℕ) (outerRetry : ℤ) (d : ℕ) (blockNum count : BitVec 32)
    (buf : ℕ) : Prog ℤ := do
  let writeProtected ← Program.read fun s => s.writeProtected
  if blockNum < writeProtected then pure (-999)
  else if sdmmcDevices ≤ d then pure sdmmcErrorParams
  else if count < 1 then pure sdmmcErrorParams
  else if buf = 0 then pure sdmmcErrorParams
  else do
    let blocks ← load32 (blocksAddr cards d)
    if blocks < blockNum + count then pure sdmmcErrorBounds
    else do
      let type ← load32 (typeAddr cards d)
      if type = sdmmcTypeNone then pure sdmmcErrorNotReady
      else do
        spiClearRxFifo
        let ret ← writeRetry d (commandAddr type blockNum) count buf sdmmcRetries sdmmcErrorOk
        if outerRetry = sdmmcRetries then pure sdmmcErrorWrite else pure ret

end Karnix.Sd
