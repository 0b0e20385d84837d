import Karnix.Library.Bytes
import Karnix.Library.CString
import Karnix.Library.Hex
import Karnix.Library.Runs
import Mathlib.Data.Nat.Digits.Lemmas
import Mathlib.Logic.Function.Basic

/-!
# The HEX loader and dumper

`cli_cmd_ihex` and `cli_cmd_ohex` of `cli.c`, with `strntoul` and `crc32`.

The loader is a step for each character that its input loop takes from the console; the
dumper returns the text it prints.
-/

namespace Karnix.Cli

open Karnix.Library

/-- What the processor finds at its 32-bit addresses. -/
abbrev AddressSpace := BitVec 32 → Byte

/-! ## Section 1: Numbers -/

/-- The digit of `strntoul`, which knows the small letters from a to d only. -/
def digitValue (c : Byte) : Option (BitVec 32) :=
  if 0x30 ≤ c ∧ c ≤ 0x39 then some (c.setWidth 32 - 0x30)
  else if 0x41 ≤ c ∧ c ≤ 0x46 then some (c.setWidth 32 - 0x41 + 10)
  else if 0x61 ≤ c ∧ c ≤ 0x64 then some (c.setWidth 32 - 0x61 + 10)
  else none

/-- `strntoul` with base 16: 0 as soon as there is a character that is not a digit. -/
def strntoul (buf : List Byte) : BitVec 32 :=
  (buf.foldlM (fun result c => (digitValue c).map (result * 16 + ·)) 0).getD 0

/-- `CRC32_POLYNOMIAL`, the one of Ethernet with its bits reversed. -/
def crc32Polynomial : BitVec 32 := 0xEDB88320

/-- One pass of the loop over the bits of a byte. -/
def crc32Bit (crc : BitVec 32) : BitVec 32 := (crc >>> 1) ^^^ (-(crc &&& 1) &&& crc32Polynomial)

/-- `crc32` with the polynomial of the command line. -/
def crc32 (data : List Byte) (previousCrc32 : BitVec 32) : BitVec 32 :=
  data.foldl (fun crc b => crc32Bit^[8] (crc ^^^ b.setWidth 32)) (previousCrc32 ^^^ 0xFFFFFFFF) ^^^
    0xFFFFFFFF

/-! ## Section 2: The loader -/

/-- What ends the input loop of `cli_cmd_ihex`. -/
inductive Exit where
  /-- The end-of-file record. -/
  | endOfFile
  /-- One of the characters taken for a user interrupt. -/
  | interrupt (c : Byte)
  deriving DecidableEq

/-- The memory, and the variables of `cli_cmd_ihex` that the records change. -/
structure Loader where
  mem : AddressSpace
  base : BitVec 32
  origin : BitVec 32
  start32 : BitVec 32
  bytesRead : BitVec 32
  crc : BitVec 32
  exit : Option Exit

/-- `cli_cmd_ihex`: the loader, the line it collects, and the lines it has given to `xprintf`. -/
structure Ihex where
  loader : Loader
  parseDataFlag : Bool
  str : Memory Byte
  idx : ℕ
  /-- What the `%s` of `"Too long: %s\r\n"` has stood for so far. -/
  told : List CString

/-- `strntoul(str + i, n, 16)` -/
def number (str : Memory Byte) (i n : ℕ) : BitVec 32 := strntoul (str.load i n)

/-- The loop that stores the data of a record. -/
def storeData (mem : AddressSpace) (dst : BitVec 32) (f : ℕ → Byte) (n : ℕ) : AddressSpace :=
  (List.range n).foldl (fun mem i => Function.update mem (dst + BitVec.ofNat 32 i) (f i)) mem

/-- A record whose length and checksum are right; `addr` is the target address. -/
def Loader.record (l : Loader) (addr : BitVec 32) (str : Memory Byte) (dataSize : ℕ) : Loader :=
  let offset := number str 2 4
  let type := number str 6 2
  if type = 0 then
    let mem := storeData l.mem (addr + l.base + offset)
      (fun i => (number str (i * 2 + 8) 2).setWidth 8) dataSize
    -- the check-sum is taken without the offset
    let data := (List.range dataSize).map fun i => mem (addr + l.base + BitVec.ofNat 32 i)
    { l with
      mem
      crc := crc32 data l.crc
      bytesRead := l.bytesRead + BitVec.ofNat 32 dataSize }
  else if type = 1 then { l with exit := some .endOfFile }
  else if type = 5 then { l with start32 := number str 8 8 }
  else if type = 4 then
    let tmp := number str 8 4 <<< 16
    -- the first page that is not page 0 is the origin
    let origin := if l.origin = 0 then tmp else l.origin
    { l with origin, base := tmp - origin }
  else l

/-- The sum over the bytes of the line but the last. -/
def lineSum (str : Memory Byte) (len : ℕ) : Byte :=
  Hex.byteSum ((List.range ((len - 2 + 1) / 2)).map fun i => (number str (i * 2) 2).setWidth 8)

/-- The end of a line. -/
def Loader.line (l : Loader) (addr : BitVec 32) (str : Memory Byte) : Loader :=
  let dataSize := (number str 0 2).toNat
  let len := strlen str 0 523
  -- a line with an error is skipped, and the loop goes on
  if len ≠ dataSize * 2 + 10 then l
  else if ~~~ lineSum str len + 1 ≠ (number str (8 + dataSize * 2) 2).setWidth 8 then l
  else l.record addr str dataSize

/-- One pass of the input loop, with the character `c`. -/
def Ihex.step (addr : BitVec 32) (s : Ihex) (c : Byte) : Ihex :=
  if s.loader.exit ≠ none then s
  else if c = 0x3a then { s with parseDataFlag := true, idx := 0 }
  else if c = 0x03 ∨ c = 0x04 ∨ c = 0x08 ∨ c = 0x7f then
    { s with loader := { s.loader with exit := some (.interrupt c) } }
  else if !s.parseDataFlag then s
  else if c = 0x0d ∨ c = 0x0a then
    let str := s.str.store s.idx [0]
    { s with str, loader := s.loader.line addr str, parseDataFlag := false }
  else
    let str := s.str.store s.idx [c]
    -- the buffer is full: the line is shown, and ends without being parsed
    if s.idx + 1 ≥ 522 then
      let str := str.store (s.idx + 1) [0]
      { s with
        str
        idx := s.idx + 1
        parseDataFlag := false
        told := s.told ++ [CString.ofBytes (str.load 0 523)] }
    else { s with str, idx := s.idx + 1 }

/-- `cli_cmd_ihex` before its first character; `str` is not initialised. -/
def Ihex.init (mem : AddressSpace) (str : Memory Byte) : Ihex :=
  ⟨⟨mem, 0, 0, 0, 0, 0, none⟩, false, str, 0, []⟩

/-- `cli_cmd_ihex` with the target address `addr`, fed with a text. -/
def cliCmdIhex (addr : BitVec 32) (mem : AddressSpace) (str : Memory Byte) (text : List Byte) :
    Ihex := run (Ihex.step addr) (Ihex.init mem str) text

/-! ## Section 3: The dumper -/

/-- The characters of a string. -/
def ascii (s : String) : List Byte := s.toList.map fun c => BitVec.ofNat 8 c.toNat

def crlf : List Byte := [0x0d, 0x0a]

/-- A small letter for the digits from 10 on. -/
def printDigit (d : ℕ) : Byte := BitVec.ofNat 8 (if d < 10 then 0x30 + d else 0x57 + d)

/-- A number without leading zeros. -/
def printNat (b v : ℕ) : List Byte :=
  if v = 0 then [0x30] else (Nat.digits b v).reverse.map printDigit

/-- `%p`: the digits behind `0x`, with no zeros in front. -/
def printPtr (v : BitVec 32) : List Byte := ascii "0x" ++ printNat 16 v.toNat

/-- The first line of `cli_cmd_ohex`. -/
def ohexHeader (addr len start32 : BitVec 32) : List Byte :=
  ascii "ohex: addr = " ++ printPtr addr ++ ascii ", len = " ++ printNat 10 len.toNat ++
    ascii ", entry = " ++ printPtr start32 ++ ascii ", press Ctrl-C to break." ++ crlf

/-- `OHEX_BYTES_PER_LINE`: the data of a line of a dump. -/
def ohexBytesPerLine : BitVec 32 := 16

/-- `hex_len` of the line at `offset`. -/
def hexLen (len offset : BitVec 32) : BitVec 32 :=
  if offset + ohexBytesPerLine ≤ len then ohexBytesPerLine else (len - offset) % ohexBytesPerLine

/-- The line at `offset`: length, offset, type, data and the check-sum over all of it. -/
def ohexLine (src : AddressSpace) (addr len offset : BitVec 32) : List Byte :=
  let n := hexLen len offset
  let data := (List.range n.toNat).map fun i => src (addr + (offset + BitVec.ofNat 32 i))
  let sum := n.setWidth 8 + (offset >>> 8).setWidth 8 + offset.setWidth 8 + 0 +
    Hex.byteSum data
  [0x3a] ++ Hex.digits 2 n.toNat ++ Hex.digits 4 (offset &&& 0xffff).toNat ++ Hex.digits 2 0 ++
    Hex.ofBytes data ++ Hex.digits 2 (~~~ sum + 1).toNat ++ crlf

/-- `(v >> i) & 0xff` -/
def octet (v : BitVec 32) (i : ℕ) : BitVec 32 := (v >>> i) &&& 0xff

/-- The record behind a line that ends at a multiple of 64K. -/
def ohexExtended (offset : BitVec 32) : List Byte :=
  let sum := 2 + 0 + 0 + 4 + octet offset 24 + octet offset 16
  ascii ":02000004" ++ Hex.digits 4 ((offset >>> 16) &&& 0xffff).toNat ++
    Hex.digits 2 ((~~~ sum + 1) &&& 0xff).toNat ++ crlf

/-- The two records at the end. -/
def ohexEnd (start32 : BitVec 32) : List Byte :=
  let sum := 4 + 0 + 0 + 5 + octet start32 24 + octet start32 16 + octet start32 8 + octet start32 0
  ascii ":04000005" ++ Hex.digits 8 start32.toNat ++
    Hex.digits 2 ((~~~ sum + 1) &&& 0xff).toNat ++ crlf ++ ascii ":00000001FF" ++ crlf

/-- The loop of `cli_cmd_ohex` from `offset` on, with what it prints and the offset at its end.
`key n` says whether a character has come from the console by the end of line `n`. -/
def ohexLoop (src : AddressSpace) (addr len : BitVec 32) (key : ℕ → Bool) :
    ℕ → ℕ → BitVec 32 → Option (List Byte × BitVec 32)
  | 0, _, _ => none
  | fuel + 1, n, offset =>
    -- `offset` wraps around close below 2^32, where the loop need not end
    if offset < len then
      let line := ohexLine src addr len offset
      let offset := offset + hexLen len offset
      -- a key ends the loop behind the line it came in
      if key n then some (line ++ ascii "ohex: User interrupt" ++ crlf, offset)
      else
        let extended := if offset &&& 0xffff = 0 then ohexExtended offset else []
        (ohexLoop src addr len key fuel (n + 1) offset).map fun rest =>
          (line ++ extended ++ rest.1, rest.2)
    else some ([], offset)

/-- `cli_cmd_ohex`, if `fuel` passes of its loop are enough. -/
def cliCmdOhex (src : AddressSpace) (addr len start32 : BitVec 32) (key : ℕ → Bool) (fuel : ℕ) :
    Option (List Byte) :=
  (ohexLoop src addr len key fuel 0 0).map fun body =>
    ohexHeader addr len start32 ++ body.1 ++ (if body.2 = len then ohexEnd start32 else []) ++
      ascii "ohex: end" ++ crlf ++ [0x04]

end Karnix.Cli
