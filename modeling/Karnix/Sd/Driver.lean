import Karnix.Library.Bytes
import Karnix.Library.Program

/-!
# The SD card driver

`sdmmc.c`, on top of the SPI controller.  Each read of a register of the controller gives
whatever the environment has for it, so that the card may answer anything, at any time, or
not at all; a read that never comes is a wait that never ends.

Settings of the controller, delays and messages are left out.
-/

namespace Karnix.Sd

open Karnix.Library

/-! ## Section 1: The state -/

/-- A block or a register being received: where it goes, and the bytes of it that came in,
with the two bytes of its check-sum. -/
structure Reception where
  /-- The command it answers. -/
  cmd : Byte
  buf : ℕ
  len : ℕ
  bytes : List Byte
  deriving DecidableEq, Repr

/-- Memory, controllers, and what the cards have answered. -/
structure Driver where
  mem : Memory Byte
  /-- What further reads of registers will give. -/
  reads : List (BitVec 32)
  /-- The words written to the data register of each controller, the last one first. -/
  sent : List (ℕ × BitVec 32)
  /-- The last command. -/
  lastCmd : Byte
  /-- What was received, the last one first. -/
  received : List Reception
  /-- `sdmmc_write_protected_sectors` -/
  writeProtected : BitVec 32

/-- A piece of the driver. -/
abbrev Prog := Program Driver

/-- A read of a register. -/
def readReg : Prog (BitVec 32) := fun s =>
  match s.reads with
  | [] => (none, s)
  | rx :: reads => (some rx, { s with reads := reads })

/-- A write to the data register of controller `reg`. -/
def writeData (reg : ℕ) (w : BitVec 32) : Prog PUnit :=
  .modify fun s => { s with sent := (reg, w) :: s.sent }

def loadByte (a : ℕ) : Prog Byte := .read fun s => s.mem a

def load32 (a : ℕ) : Prog (BitVec 32) := .read fun s => leWord (s.mem.load a 4)

def storeBytes (a : ℕ) (bs : List Byte) : Prog PUnit :=
  .modify fun s => { s with mem := s.mem.store a bs }

/-! ## Section 2: `spi.h` and `spi.c` -/

def spiCmdSend : BitVec 32 := 0x00000000

def spiCmdSendReceive : BitVec 32 := 0x01000000

def spiCmdEnableSs : BitVec 32 := 0x11000000

def spiCmdDisableSs : BitVec 32 := 0x10000000

/-- `SPI_DATA_RX_VALID`: the word that was read holds a byte. -/
def rxValid (rx : BitVec 32) : Bool := rx.getLsbD 31

/-- `while(((rx = reg->data) & SPI_DATA_RX_VALID) == 0)` -/
def pollData : Prog (BitVec 32) := fun s =>
  -- without a valid word the loop never ends
  match s.reads.dropWhile fun rx => !rxValid rx with
  | [] => (none, { s with reads := [] })
  | rx :: reads => (some rx, { s with reads := reads })

/-- The reads of `spi_clear_rx_fifo`: the number of bytes pending, and a byte if there is one. -/
def clearReads : List (BitVec 32) → Option (List (BitVec 32))
  | [] => none
  | occupancy :: reads =>
    if occupancy = 0 then some reads
    else
      match reads with
      | [] => none
      | _ :: reads => clearReads reads

/-- `spi_clear_rx_fifo`: bytes are read until there is none, which need not come to an end. -/
def spiClearRxFifo : Prog PUnit := fun s =>
  match clearReads s.reads with
  | none => (none, { s with reads := [] })
  | some reads => (some ⟨⟩, { s with reads := reads })

/-- `spi_wait_tx_avail`: the space in the command FIFO, or zero. -/
def spiWaitTxAvail (minAvail : ℕ) : ℕ → Prog ℕ
  | 0 => pure 0
  | timeout + 1 => do
    let status ← readReg
    let avail := (status >>> 16).toNat
    if minAvail ≤ avail then pure avail else spiWaitTxAvail minAvail timeout

/-! ## Section 3: Bytes and responses -/

def sdmmcDevices : ℕ := 2

def sdmmcTimeout : ℕ := 0x07ffff

def sdmmcRetries : ℕ := 3

def sdmmcBlockSize : ℕ := 512

def sdmmcErrorOk : ℤ := 0

def sdmmcErrorParams : ℤ := -1

def sdmmcErrorTimeout : ℤ := -2

def sdmmcErrorNoResp : ℤ := -3

def sdmmcErrorInitFail : ℤ := -5

def sdmmcErrorNotReady : ℤ := -6

def sdmmcErrorCrc : ℤ := -7

def sdmmcErrorRead : ℤ := -8

def sdmmcErrorWrite : ℤ := -9

def sdmmcErrorBounds : ℤ := -10

/-- The byte in a word read from the data register. -/
def byteOf (rx : BitVec 32) : Byte := rx.setWidth 8

def sendReceive (reg : ℕ) (b : Byte) : Prog PUnit :=
  writeData reg (spiCmdSendReceive ||| b.setWidth 32)

/-- The loop of `sdmmc_wait_ready` -/
def waitReadyLoop (reg : ℕ) : ℕ → Prog ℤ
  | 0 => pure sdmmcErrorTimeout
  | i + 1 => do
    let rx ← readReg
    if rxValid rx then
      -- the card holds the line low while it is busy
      if byteOf rx = 0xff then pure sdmmcErrorOk
      else do
        sendReceive reg 0xff
        waitReadyLoop reg i
    else waitReadyLoop reg i

/-- `sdmmc_wait_ready`: the card is polled until it answers with ones. -/
def sdmmcWaitReady (reg : ℕ) : Prog ℤ := do
  sendReceive reg 0xff
  waitReadyLoop reg sdmmcTimeout

/-- The loop of `sdmmc_readwrite_byte` -/
def readwriteLoop : ℕ → Prog ℤ
  | 0 => pure sdmmcErrorTimeout
  | i + 1 => do
    let rx ← readReg
    if rxValid rx then pure (byteOf rx).toNat else readwriteLoop i

/-- `sdmmc_readwrite_byte`: a byte goes out, and the one that comes in is returned. -/
def sdmmcReadwriteByte (reg : ℕ) (txByte : Byte) : Prog ℤ := do
  sendReceive reg txByte
  readwriteLoop sdmmcTimeout

/-- `sdmmc_select`: the select line goes down. -/
def sdmmcSelect (reg : ℕ) (ss : BitVec 32) : Prog PUnit := writeData reg (spiCmdEnableSs ||| ss)

/-- `sdmmc_deselect`: the select line goes up, and the card gets eight clocks more. -/
def sdmmcDeselect (reg : ℕ) (ss : BitVec 32) : Prog PUnit := do
  writeData reg (spiCmdDisableSs ||| ss)
  let _ ← sdmmcReadwriteByte reg 0xff
  pure ⟨⟩

/-- The loop of `sdmmc_get_r1_response` -/
def getR1Loop (reg : ℕ) : ℕ → Prog ℤ
  | 0 => pure sdmmcErrorNoResp
  | i + 1 => do
    sendReceive reg 0xff
    let rx ← pollData
    -- a response begins with a zero bit
    if (byteOf rx).getLsbD 7 = false then pure (byteOf rx).toNat else getR1Loop reg i

/-- `sdmmc_get_r1_response`: the first byte that looks like a response. -/
def sdmmcGetR1Response (reg : ℕ) : Prog ℤ := getR1Loop reg sdmmcTimeout

/-- The inner loop of `sdmmc_wait_r1_response`: whether the response came. -/
def waitR1Loop (reg : ℕ) (r1 : Byte) : ℕ → Prog Bool
  | 0 => pure false
  | i + 1 => do
    sendReceive reg 0xff
    let rx ← pollData
    if byteOf rx = r1 then pure true else waitR1Loop reg r1 i

/-- `sdmmc_wait_r1_response`: bytes are passed over until that one comes. -/
def sdmmcWaitR1Response (reg : ℕ) (r1 : Byte) : ℕ → Prog ℤ
  | 0 => pure sdmmcErrorNoResp
  | retry + 1 => do
    let found ← waitR1Loop reg r1 sdmmcTimeout
    if found then pure sdmmcErrorOk else sdmmcWaitR1Response reg r1 retry

/-! ## Section 4: Receiving -/

/-- `sdmmc_crc16_table`, the constants of the source. -/
def sdmmcCrc16Table : List (BitVec 16) :=
  [0x0000, 0x1021, 0x2042, 0x3063, 0x4084, 0x50a5, 0x60c6, 0x70e7, 0x8108, 0x9129, 0xa14a, 0xb16b,
   0xc18c, 0xd1ad, 0xe1ce, 0xf1ef, 0x1231, 0x0210, 0x3273, 0x2252, 0x52b5, 0x4294, 0x72f7, 0x62d6,
   0x9339, 0x8318, 0xb37b, 0xa35a, 0xd3bd, 0xc39c, 0xf3ff, 0xe3de, 0x2462, 0x3443, 0x0420, 0x1401,
   0x64e6, 0x74c7, 0x44a4, 0x5485, 0xa56a, 0xb54b, 0x8528, 0x9509, 0xe5ee, 0xf5cf, 0xc5ac, 0xd58d,
   0x3653, 0x2672, 0x1611, 0x0630, 0x76d7, 0x66f6, 0x5695, 0x46b4, 0xb75b, 0xa77a, 0x9719, 0x8738,
   0xf7df, 0xe7fe, 0xd79d, 0xc7bc, 0x48c4, 0x58e5, 0x6886, 0x78a7, 0x0840, 0x1861, 0x2802, 0x3823,
   0xc9cc, 0xd9ed, 0xe98e, 0xf9af, 0x8948, 0x9969, 0xa90a, 0xb92b, 0x5af5, 0x4ad4, 0x7ab7, 0x6a96,
   0x1a71, 0x0a50, 0x3a33, 0x2a12, 0xdbfd, 0xcbdc, 0xfbbf, 0xeb9e, 0x9b79, 0x8b58, 0xbb3b, 0xab1a,
   0x6ca6, 0x7c87, 0x4ce4, 0x5cc5, 0x2c22, 0x3c03, 0x0c60, 0x1c41, 0xedae, 0xfd8f, 0xcdec, 0xddcd,
   0xad2a, 0xbd0b, 0x8d68, 0x9d49, 0x7e97, 0x6eb6, 0x5ed5, 0x4ef4, 0x3e13, 0x2e32, 0x1e51, 0x0e70,
   0xff9f, 0xefbe, 0xdfdd, 0xcffc, 0xbf1b, 0xaf3a, 0x9f59, 0x8f78, 0x9188, 0x81a9, 0xb1ca, 0xa1eb,
   0xd10c, 0xc12d, 0xf14e, 0xe16f, 0x1080, 0x00a1, 0x30c2, 0x20e3, 0x5004, 0x4025, 0x7046, 0x6067,
   0x83b9, 0x9398, 0xa3fb, 0xb3da, 0xc33d, 0xd31c, 0xe37f, 0xf35e, 0x02b1, 0x1290, 0x22f3, 0x32d2,
   0x4235, 0x5214, 0x6277, 0x7256, 0xb5ea, 0xa5cb, 0x95a8, 0x8589, 0xf56e, 0xe54f, 0xd52c, 0xc50d,
   0x34e2, 0x24c3, 0x14a0, 0x0481, 0x7466, 0x6447, 0x5424, 0x4405, 0xa7db, 0xb7fa, 0x8799, 0x97b8,
   0xe75f, 0xf77e, 0xc71d, 0xd73c, 0x26d3, 0x36f2, 0x0691, 0x16b0, 0x6657, 0x7676, 0x4615, 0x5634,
   0xd94c, 0xc96d, 0xf90e, 0xe92f, 0x99c8, 0x89e9, 0xb98a, 0xa9ab, 0x5844, 0x4865, 0x7806, 0x6827,
   0x18c0, 0x08e1, 0x3882, 0x28a3, 0xcb7d, 0xdb5c, 0xeb3f, 0xfb1e, 0x8bf9, 0x9bd8, 0xabbb, 0xbb9a,
   0x4a75, 0x5a54, 0x6a37, 0x7a16, 0x0af1, 0x1ad0, 0x2ab3, 0x3a92, 0xfd2e, 0xed0f, 0xdd6c, 0xcd4d,
   0xbdaa, 0xad8b, 0x9de8, 0x8dc9, 0x7c26, 0x6c07, 0x5c64, 0x4c45, 0x3ca2, 0x2c83, 0x1ce0, 0x0cc1,
   0xef1f, 0xff3e, 0xcf5d, 0xdf7c, 0xaf9b, 0xbfba, 0x8fd9, 0x9ff8, 0x6e17, 0x7e36, 0x4e55, 0x5e74,
   0x2e93, 0x3eb2, 0x0ed1, 0x1ef0]

/-- One more byte taken into the check-sum. -/
def crc16Step (crc : BitVec 16) (b : Byte) : BitVec 16 :=
  sdmmcCrc16Table.getD ((crc >>> 8).setWidth 8 ^^^ b).toNat 0 ^^^ crc <<< 8

def Reception.push (r : Reception) (b : Byte) : Reception := { r with bytes := r.bytes ++ [b] }

/-- The card begins to send a block or a register. -/
def beginReception (buf len : ℕ) : Prog PUnit :=
  .modify fun s => { s with received := ⟨s.lastCmd, buf, len, []⟩ :: s.received }

/-- `*(b++) = rx` -/
def storeReceived (a : ℕ) (b : Byte) : Prog PUnit := .modify fun s =>
  { s with
    mem := s.mem.store a [b]
    received :=
      match s.received with
      | [] => []
      | r :: rs => r.push b :: rs }

/-- The loop of `sdmmc_rx_buf` over the bytes still to come, and the check-sum after it. -/
def rxLoop (reg : ℕ) : ℕ → ℕ → BitVec 16 → Prog (BitVec 16)
  | 0, _, crc => pure crc
  | count + 1, b, crc => do
    let rx ← pollData
    -- the next byte is asked for before this one is stored
    sendReceive reg 0xff
    storeReceived b (byteOf rx)
    rxLoop reg count (b + 1) (crc16Step crc (byteOf rx))

/-- `sdmmc_rx_buf`: a block behind its token, with the check-sum behind it. -/
def sdmmcRxBuf (reg buf len : ℕ) : Prog ℤ := do
  let ret ← sdmmcWaitR1Response reg 0xfe 1000
  if ret < 0 then pure ret
  else do
    beginReception buf len
    sendReceive reg 0xff
    -- the two bytes of the check-sum are stored behind the data
    let crc ← rxLoop reg (len + 2) buf 0
    let _ ← readReg
    if crc ≠ 0 then pure sdmmcErrorCrc else pure sdmmcErrorOk

/-! ## Section 5: Sending -/

/-- The loop of `sdmmc_tx_buf` over the data bytes: whether there was space for all. -/
def txLoop (reg : ℕ) : ℕ → ℕ → Prog Bool
  | 0, _ => pure true
  | count + 1, b => do
    let avail ← spiWaitTxAvail 1 1000
    if avail = 0 then pure false
    else do
      let tx ← loadByte b
      writeData reg (spiCmdSend ||| tx.setWidth 32)
      txLoop reg count (b + 1)

/-- The loop of `sdmmc_tx_buf` that waits for the data response. -/
def txRespLoop (reg : ℕ) : ℕ → Prog ℤ
  | 0 => pure sdmmcErrorTimeout
  | i + 1 => do
    let ret ← sdmmcReadwriteByte reg 0xff
    if ret < 0 then pure ret
    else if BitVec.ofInt 32 ret &&& 0x1f = 0x05 then pure sdmmcErrorOk
    else txRespLoop reg i

/-- `sdmmc_tx_buf`: a token, a block and its check-sum, and what the card says to it. -/
def sdmmcTxBuf (reg buf len : ℕ) (cmd : Byte) : Prog ℤ := do
  let ret ← sdmmcWaitReady reg
  if ret < 0 then pure ret
  else do
    let _ ← sdmmcReadwriteByte reg cmd
    let fits ← txLoop reg len buf
    if fits = false then pure sdmmcErrorWrite
    else do
      let avail ← spiWaitTxAvail 2 1000
      if avail = 0 then pure sdmmcErrorWrite
      else do
        -- the check-sum is not calculated
        writeData reg spiCmdSend
        writeData reg spiCmdSend
        txRespLoop reg (sdmmcTimeout <<< 6)

/-! ## Section 6: Commands -/

/-- The command that what follows answers. -/
def noteCmd (cmd : Byte) : Prog PUnit := .modify fun s => { s with lastCmd := cmd }

/-- `sdmmc_send_cmd`: six bytes go out, and the response is waited for. -/
def sdmmcSendCmd (reg : ℕ) (cmd : Byte) (arg : BitVec 32) (crc : Byte) : Prog ℤ := do
  noteCmd cmd
  let _ ← sdmmcReadwriteByte reg (cmd ||| 0x40)
  let _ ← sdmmcReadwriteByte reg ((arg >>> 24).setWidth 8)
  let _ ← sdmmcReadwriteByte reg ((arg >>> 16).setWidth 8)
  let _ ← sdmmcReadwriteByte reg ((arg >>> 8).setWidth 8)
  let _ ← sdmmcReadwriteByte reg (arg.setWidth 8)
  let _ ← sdmmcReadwriteByte reg crc
  sdmmcGetR1Response reg

/-- `sdmmc_send_cmd_sel`: a command with the card selected for it alone. -/
def sdmmcSendCmdSel (reg : ℕ) (ss : BitVec 32) (cmd : Byte) (arg : BitVec 32) (crc : Byte) :
    Prog ℤ := do
  sdmmcSelect reg ss
  let ret ← sdmmcSendCmd reg cmd arg crc
  sdmmcDeselect reg ss
  pure ret

/-- `sdmmc_get_info`: a command that is answered with one of the registers of the card. -/
def sdmmcGetInfo (reg : ℕ) (ss : BitVec 32) (cmd : Byte) (infoBuf16 : ℕ) : Prog ℤ := do
  sdmmcSelect reg ss
  let resp ← sdmmcSendCmd reg cmd 0 0x01
  let ret ← (if resp < 0 then pure resp else sdmmcRxBuf reg infoBuf16 16)
  sdmmcDeselect reg ss
  pure ret

end Karnix.Sd
