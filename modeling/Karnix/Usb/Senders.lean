import Mathlib.Data.BitVec
import Karnix.Library.Runs

/-!
# USB senders

`USBSendLongToken`, `USBSendShortToken` and `USBSendData` of `Apb3USB10.scala`, one clock cycle
at a time, with what they share in `USBSendReceive`.

Every sender has a divider that marks the first clock of each bit time.  A sender that is not
`valid` gets its registers ready for the next packet.
-/

namespace Karnix.Usb

open Karnix.Library

/-! ## Section 1: Bit times -/

/-- What the lines `dm` and `dp` show. -/
inductive Symbol where
  | j | k | se0
  deriving DecidableEq, Repr

/-- `K` is true, as in `last_kj`. -/
def Symbol.ofKJ (kj : Bool) : Symbol := if kj then .k else .j

/-- A sender: what its registers become in a clock cycle and what it shows in it, both with
`clock_strobe`, and what they become while it is not `valid`. -/
structure Sender (σ : Type) where
  tick : Bool → σ → σ
  line : Bool → σ → Symbol
  idle : σ → σ

/-- The registers of a sender with its divider. -/
structure Strobed (σ : Type) where
  clockDiv : BitVec 8
  regs : σ

variable {σ : Type}

/-- `clock_strobe`, once in a bit time. -/
def Strobed.clockStrobe (s : Strobed σ) : Bool := s.clockDiv = 0

namespace Sender

/-- A clock cycle; the first argument is `valid`, and `clockDiv` is `io.clock_div`. -/
def next (S : Sender σ) (clockDiv : BitVec 8) (s : Strobed σ) (valid : Bool) : Strobed σ :=
  if valid then
    -- the strobe is in the clock with count 0, so that a bit time begins with it
    { clockDiv := if s.clockDiv = clockDiv then 0 else s.clockDiv + 1
      regs := S.tick s.clockStrobe s.regs }
  else { clockDiv := 0, regs := S.idle s.regs }

/-- The sender `t` clocks after `valid` has risen. -/
def stateAt (S : Sender σ) (clockDiv : BitVec 8) (s : Strobed σ) (t : ℕ) : Strobed σ :=
  trace (S.next clockDiv) (S.next clockDiv s false) (fun _ => true) t

/-- What the line shows in that clock cycle. -/
def lineAt (S : Sender σ) (clockDiv : BitVec 8) (s : Strobed σ) (t : ℕ) : Symbol :=
  S.line (S.stateAt clockDiv s t).clockStrobe (S.stateAt clockDiv s t).regs

end Sender

/-! ## Section 2: Tokens -/

/-- The registers of a token sender. -/
structure TokenRegs (w : ℕ) where
  bitCount : BitVec w
  lastKJ : Bool

/-- What a token sender does in a clock cycle. -/
inductive Slot where
  | ready | eopJ | eopSE0 | bit
  deriving DecidableEq

/-- A token sender with `w` bits of `bit_count`: `last` is the count it stops at, `slot` what it
does and `buffer` the bit it sends. -/
def sendToken {w : ℕ} (last : BitVec w) (slot : BitVec w → Bool → Slot) (buffer : BitVec w → Bool) :
    Sender (TokenRegs w) where
  tick strobe s :=
    { bitCount :=
        match slot s.bitCount strobe with
        -- `bit_count` is assigned again, which overrides `inc_bit_count`
        | .ready => last
        | _ => if strobe then s.bitCount + 1 else s.bitCount
      lastKJ :=
        match slot s.bitCount strobe with
        -- tokens call no `make_stuffing`, and `stuffing` stays false
        | .bit => if strobe && !buffer s.bitCount then !s.lastKJ else s.lastKJ
        | _ => s.lastKJ }
  line strobe s :=
    match slot s.bitCount strobe with
    | .ready | .eopJ => .j
    | .eopSE0 => .se0
    | .bit => .ofKJ (if strobe && !buffer s.bitCount then !s.lastKJ else s.lastKJ)
  idle _ := ⟨0, false⟩

/-- `ret` of `calc_crc5_usb` -/
def crc5Ret (d : ℕ → Bool) : List Bool :=
  [d 10 ^^ d 9 ^^ d 6 ^^ d 5 ^^ d 3 ^^ d 0 ^^ true,
    d 10 ^^ d 7 ^^ d 6 ^^ d 4 ^^ d 1 ^^ true,
    d 10 ^^ d 9 ^^ d 8 ^^ d 7 ^^ d 6 ^^ d 3 ^^ d 2 ^^ d 0 ^^ true,
    d 10 ^^ d 9 ^^ d 8 ^^ d 7 ^^ d 4 ^^ d 3 ^^ d 1,
    d 10 ^^ d 9 ^^ d 8 ^^ d 5 ^^ d 4 ^^ d 2 ^^ true]

/-- `calc_crc5_usb`: the check of a token, with its bits in the order of the line. -/
def calcCrc5Usb (din : BitVec 11) : BitVec 5 :=
  let ret : BitVec 5 := BitVec.ofBoolListLE (crc5Ret din.reverse.getLsbD)
  ret.reverse ^^^ 0b11111

/-- SYNC, PID and its complement, sent from the lowest bit on. -/
def syncPidBuffer (pid : BitVec 4) : BitVec 16 := ~~~ pid ++ pid ++ (0b10000000 : BitVec 8)

/-- `buffer` of `USBSendLongToken` -/
def longTokenBuffer (pid : BitVec 4) (addr : BitVec 7) (endp : BitVec 4) : BitVec 32 :=
  calcCrc5Usb (endp ++ addr) ++ endp ++ addr ++ syncPidBuffer pid

/-- The cases of `USBSendLongToken`. -/
def longTokenSlot (bitCount : BitVec 6) (strobe : Bool) : Slot :=
  if bitCount = 36 then .ready
  else if bitCount = 35 then .eopJ
  else if bitCount = 33 ∨ bitCount = 34 then .eopSE0
  -- up to this strobe the last bit is on the line
  else if bitCount = 32 ∧ strobe then .eopSE0
  else .bit

/-- `USBSendLongToken`: a token with an address and an endpoint. -/
def sendLongToken (pid : BitVec 4) (addr : BitVec 7) (endp : BitVec 4) : Sender (TokenRegs 6) :=
  sendToken 36 longTokenSlot fun bitCount =>
    (longTokenBuffer pid addr endp).getLsbD (bitCount.extractLsb' 0 5).toNat

/-- The cases of `USBSendShortToken`. -/
def shortTokenSlot (bitCount : BitVec 5) (strobe : Bool) : Slot :=
  if bitCount = 20 then .ready
  else if bitCount = 19 then .eopJ
  else if bitCount = 18 ∧ strobe then .eopSE0
  else if bitCount = 17 ∨ bitCount = 18 then .eopSE0
  else if bitCount = 16 ∧ strobe then .eopSE0
  else .bit

/-- `USBSendShortToken`: a token of its PID alone. -/
def sendShortToken (pid : BitVec 4) : Sender (TokenRegs 5) :=
  sendToken 20 shortTokenSlot fun bitCount =>
    (syncPidBuffer pid).getLsbD (bitCount.extractLsb' 0 4).toNat

/-! ## Section 3: Data packets -/

/-- `ret` of `calc_crc16_usb` -/
def crc16Ret (c d : ℕ → Bool) : List Bool :=
  [d 7 ^^ d 6 ^^ d 5 ^^ d 4 ^^ d 3 ^^ d 2 ^^ d 1 ^^ d 0 ^^ c 8 ^^ c 9 ^^ c 10 ^^ c 11 ^^ c 12 ^^
      c 13 ^^ c 14 ^^ c 15,
    d 7 ^^ d 6 ^^ d 5 ^^ d 4 ^^ d 3 ^^ d 2 ^^ d 1 ^^ c 9 ^^ c 10 ^^ c 11 ^^ c 12 ^^ c 13 ^^
      c 14 ^^ c 15,
    d 1 ^^ d 0 ^^ c 8 ^^ c 9,
    d 2 ^^ d 1 ^^ c 9 ^^ c 10,
    d 3 ^^ d 2 ^^ c 10 ^^ c 11,
    d 4 ^^ d 3 ^^ c 11 ^^ c 12,
    d 5 ^^ d 4 ^^ c 12 ^^ c 13,
    d 6 ^^ d 5 ^^ c 13 ^^ c 14,
    d 7 ^^ d 6 ^^ c 0 ^^ c 14 ^^ c 15,
    d 7 ^^ c 1 ^^ c 15,
    c 2, c 3, c 4, c 5, c 6,
    d 7 ^^ d 6 ^^ d 5 ^^ d 4 ^^ d 3 ^^ d 2 ^^ d 1 ^^ d 0 ^^ c 7 ^^ c 8 ^^ c 9 ^^ c 10 ^^ c 11 ^^
      c 12 ^^ c 13 ^^ c 14 ^^ c 15]

/-- `calc_crc16_usb`: the check of the payload, a byte further. -/
def calcCrc16Usb (crcIn : BitVec 16) (din : BitVec 8) : BitVec 16 :=
  BitVec.ofBoolListLE (crc16Ret crcIn.getLsbD din.getLsbD)

/-- `state` of `USBSendData`, in the order of its numbers from 0 on. -/
inductive DataState where
  | syncPid | data | crc16 | eopSE0 | eopSE0' | eopJ | ready
  deriving DecidableEq

structure DataRegs where
  state : DataState
  bitCount : BitVec 8
  ones : BitVec 3
  lastKJ : Bool
  crc16 : BitVec 16
  crcByte : BitVec 8

/-- What a data packet is made of; `len` is one less than the number of bits, or 127. -/
structure DataPacket where
  pid : BitVec 4
  data : BitVec 64
  len : BitVec 7

namespace DataRegs

/-- `stuffing`: behind six ones, so that a zero is put in. -/
def stuffing (s : DataRegs) : Bool := s.ones = 6

/-- `bit_to_send`, as the states assign it. -/
def bitToSend (p : DataPacket) (s : DataRegs) : Bool :=
  match s.state with
  | .syncPid => (syncPidBuffer p.pid).getLsbD (s.bitCount.extractLsb' 0 4).toNat
  | .data => p.data.getLsbD (s.bitCount.extractLsb' 0 6).toNat
  | .crc16 => (~~~ s.crc16.reverse).getLsbD (s.bitCount.extractLsb' 0 4).toNat
  | _ => false

/-- `new_kj` of `sendKJ` -/
def newKJ (s : DataRegs) (strobe bit : Bool) : Bool :=
  if strobe && (!bit || s.stuffing) then !s.lastKJ else s.lastKJ

/-- `make_stuffing`: the ones are counted, and the bits. -/
def makeStuffing (s : DataRegs) (strobe bit : Bool) : DataRegs :=
  if strobe then
    -- a stuff bit starts the count of ones again and does not advance `bit_count`
    { s with
      ones := if s.stuffing then 0 else if bit then s.ones + 1 else 0
      bitCount := if s.stuffing then s.bitCount else s.bitCount + 1 }
  else s

/-- The last strobe of the CRC, which shows `SE0` already. -/
def crcEnd (s : DataRegs) (strobe : Bool) : Bool := strobe && s.bitCount = 16

end DataRegs

/-- `USBSendData`: SYNC and PID, the payload, its check, and the end of the packet. -/
def sendData (p : DataPacket) : Sender DataRegs where
  tick strobe s :=
    let bit := s.bitToSend p
    let s' := s.makeStuffing strobe bit
    match s.state with
    | .syncPid =>
      let s' := { s' with lastKJ := s.newKJ strobe bit }
      -- no test of `stuffing` here, and none is needed
      if strobe && s.bitCount = 15 then
        { s' with bitCount := 0, state := if p.len = 0x7f then .crc16 else .data }
      else s'
    | .data =>
      let s' := { s' with lastKJ := s.newKJ strobe bit }
      if strobe && !s.stuffing then
        -- the bits of a byte come in from the top, the last one with count 7
        let crcByteNext := BitVec.ofBool bit ++ s.crcByte.extractLsb' 1 7
        let s' :=
          { s' with
            crc16 := if s.bitCount.extractLsb' 0 3 = 0b111 then
              calcCrc16Usb s.crc16 crcByteNext.reverse else s.crc16
            crcByte := crcByteNext }
        if s.bitCount = p.len.setWidth 8 then { s' with state := .crc16, bitCount := 0 } else s'
      else s'
    | .crc16 =>
      -- the packet ends here even if `stuffing` is set
      if s.crcEnd strobe then { s' with state := .eopSE0 }
      else { s' with lastKJ := s.newKJ strobe bit }
    | .eopSE0 => if strobe then { s' with state := .eopSE0' } else s'
    | .eopSE0' => if strobe then { s' with state := .eopJ } else s'
    | .eopJ => if strobe then { s' with state := .ready } else s'
    | .ready => s'
  line strobe s :=
    let bit := s.bitToSend p
    match s.state with
    | .syncPid | .data => .ofKJ (s.newKJ strobe bit)
    | .crc16 => if s.crcEnd strobe then .se0 else .ofKJ (s.newKJ strobe bit)
    | .eopSE0 => .se0
    -- `sendJ` comes behind `sendSE0` and wins
    | .eopSE0' => if strobe then .j else .se0
    | .eopJ | .ready => .j
  idle s := ⟨.syncPid, 0, 0, false, 0xFFFF, s.crcByte⟩

end Karnix.Usb
