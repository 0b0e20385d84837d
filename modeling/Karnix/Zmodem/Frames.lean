import Karnix.Library.Bytes
import Karnix.Library.Loops

/-!
# ZMODEM frames

`zmodem.c` sends and receives headers and data subpackets over the UART: bytes that the line
could take for flow control go out escaped behind a ZDLE, and a check-sum of 16 or of 32 bits
stands behind everything.  Its functions work on global variables, here the fields of `State`.
-/

namespace Karnix.Zmodem

open Karnix.Library
open Karnix.Library.Program

/-! ## Section 1: Constants -/

def xon : Byte := 0x11
def xoff : Byte := 0x13
/-- `CAN`, which is `ZDLE` too. -/
def can : Byte := 0x18
def zpad : Byte := 0x2a
def zdle : Byte := 0x18
def zbin : Byte := 0x41
def zhex : Byte := 0x42
def zbin32 : Byte := 0x43
def zrub0 : Byte := 0x6c
def zrub1 : Byte := 0x6d

/-! Frame types. -/

def zrqinit : Byte := 0
def zrinit : Byte := 1
def zsinit : Byte := 2
def zack : Byte := 3
def zfile : Byte := 4
def zskip : Byte := 5
def znak : Byte := 6
def zabort : Byte := 7
def zfin : Byte := 8
def zrpos : Byte := 9
def zdata : Byte := 10
def zeof : Byte := 11
def zcompl : Byte := 15
def zcan : Byte := 16
def zfreecnt : Byte := 17
def zcommand : Byte := 18

/-- What ends a data subpacket. -/
inductive FrameEnd where
  | zcrce | zcrcg | zcrcq | zcrcw
  deriving DecidableEq

def FrameEnd.byte : FrameEnd → Byte
  | zcrce => 0x68
  | zcrcg => 0x69
  | zcrcq => 0x6a
  | zcrcw => 0x6b

def frameEndOf (c : Byte) : Option FrameEnd :=
  if c = FrameEnd.zcrce.byte then some .zcrce
  else if c = FrameEnd.zcrcg.byte then some .zcrcg
  else if c = FrameEnd.zcrcq.byte then some .zcrcq
  else if c = FrameEnd.zcrcw.byte then some .zcrcw
  else none

/-- What the functions that receive return: a byte, or one of the codes beside the bytes. -/
inductive Code where
  | byte (b : Byte)
  /-- `frameend | GOTOR` -/
  | got (e : FrameEnd)
  | gotCan
  | error
  | timeout
  deriving DecidableEq

/-! ## Section 2: Check-sums -/

/-- The table of the generator 0x1021. -/
def crctab : List (BitVec 16) :=
  [0x0000, 0x1021, 0x2042, 0x3063, 0x4084, 0x50a5, 0x60c6, 0x70e7, 0x8108, 0x9129, 0xa14a,
   0xb16b, 0xc18c, 0xd1ad, 0xe1ce, 0xf1ef, 0x1231, 0x0210, 0x3273, 0x2252, 0x52b5, 0x4294,
   0x72f7, 0x62d6, 0x9339, 0x8318, 0xb37b, 0xa35a, 0xd3bd, 0xc39c, 0xf3ff, 0xe3de, 0x2462,
   0x3443, 0x0420, 0x1401, 0x64e6, 0x74c7, 0x44a4, 0x5485, 0xa56a, 0xb54b, 0x8528, 0x9509,
   0xe5ee, 0xf5cf, 0xc5ac, 0xd58d, 0x3653, 0x2672, 0x1611, 0x0630, 0x76d7, 0x66f6, 0x5695,
   0x46b4, 0xb75b, 0xa77a, 0x9719, 0x8738, 0xf7df, 0xe7fe, 0xd79d, 0xc7bc, 0x48c4, 0x58e5,
   0x6886, 0x78a7, 0x0840, 0x1861, 0x2802, 0x3823, 0xc9cc, 0xd9ed, 0xe98e, 0xf9af, 0x8948,
   0x9969, 0xa90a, 0xb92b, 0x5af5, 0x4ad4, 0x7ab7, 0x6a96, 0x1a71, 0x0a50, 0x3a33, 0x2a12,
   0xdbfd, 0xcbdc, 0xfbbf, 0xeb9e, 0x9b79, 0x8b58, 0xbb3b, 0xab1a, 0x6ca6, 0x7c87, 0x4ce4,
   0x5cc5, 0x2c22, 0x3c03, 0x0c60, 0x1c41, 0xedae, 0xfd8f, 0xcdec, 0xddcd, 0xad2a, 0xbd0b,
   0x8d68, 0x9d49, 0x7e97, 0x6eb6, 0x5ed5, 0x4ef4, 0x3e13, 0x2e32, 0x1e51, 0x0e70, 0xff9f,
   0xefbe, 0xdfdd, 0xcffc, 0xbf1b, 0xaf3a, 0x9f59, 0x8f78, 0x9188, 0x81a9, 0xb1ca, 0xa1eb,
   0xd10c, 0xc12d, 0xf14e, 0xe16f, 0x1080, 0x00a1, 0x30c2, 0x20e3, 0x5004, 0x4025, 0x7046,
   0x6067, 0x83b9, 0x9398, 0xa3fb, 0xb3da, 0xc33d, 0xd31c, 0xe37f, 0xf35e, 0x02b1, 0x1290,
   0x22f3, 0x32d2, 0x4235, 0x5214, 0x6277, 0x7256, 0xb5ea, 0xa5cb, 0x95a8, 0x8589, 0xf56e,
   0xe54f, 0xd52c, 0xc50d, 0x34e2, 0x24c3, 0x14a0, 0x0481, 0x7466, 0x6447, 0x5424, 0x4405,
   0xa7db, 0xb7fa, 0x8799, 0x97b8, 0xe75f, 0xf77e, 0xc71d, 0xd73c, 0x26d3, 0x36f2, 0x0691,
   0x16b0, 0x6657, 0x7676, 0x4615, 0x5634, 0xd94c, 0xc96d, 0xf90e, 0xe92f, 0x99c8, 0x89e9,
   0xb98a, 0xa9ab, 0x5844, 0x4865, 0x7806, 0x6827, 0x18c0, 0x08e1, 0x3882, 0x28a3, 0xcb7d,
   0xdb5c, 0xeb3f, 0xfb1e, 0x8bf9, 0x9bd8, 0xabbb, 0xbb9a, 0x4a75, 0x5a54, 0x6a37, 0x7a16,
   0x0af1, 0x1ad0, 0x2ab3, 0x3a92, 0xfd2e, 0xed0f, 0xdd6c, 0xcd4d, 0xbdaa, 0xad8b, 0x9de8,
   0x8dc9, 0x7c26, 0x6c07, 0x5c64, 0x4c45, 0x3ca2, 0x2c83, 0x1ce0, 0x0cc1, 0xef1f, 0xff3e,
   0xcf5d, 0xdf7c, 0xaf9b, 0xbfba, 0x8fd9, 0x9ff8, 0x6e17, 0x7e36, 0x4e55, 0x5e74, 0x2e93,
   0x3eb2, 0x0ed1, 0x1ef0]

/-- The table of the generator 0xedb88320. -/
def cr3tab : List (BitVec 32) :=
  [0x00000000, 0x77073096, 0xee0e612c, 0x990951ba, 0x076dc419, 0x706af48f, 0xe963a535, 0x9e6495a3,
   0x0edb8832, 0x79dcb8a4, 0xe0d5e91e, 0x97d2d988, 0x09b64c2b, 0x7eb17cbd, 0xe7b82d07, 0x90bf1d91,
   0x1db71064, 0x6ab020f2, 0xf3b97148, 0x84be41de, 0x1adad47d, 0x6ddde4eb, 0xf4d4b551, 0x83d385c7,
   0x136c9856, 0x646ba8c0, 0xfd62f97a, 0x8a65c9ec, 0x14015c4f, 0x63066cd9, 0xfa0f3d63, 0x8d080df5,
   0x3b6e20c8, 0x4c69105e, 0xd56041e4, 0xa2677172, 0x3c03e4d1, 0x4b04d447, 0xd20d85fd, 0xa50ab56b,
   0x35b5a8fa, 0x42b2986c, 0xdbbbc9d6, 0xacbcf940, 0x32d86ce3, 0x45df5c75, 0xdcd60dcf, 0xabd13d59,
   0x26d930ac, 0x51de003a, 0xc8d75180, 0xbfd06116, 0x21b4f4b5, 0x56b3c423, 0xcfba9599, 0xb8bda50f,
   0x2802b89e, 0x5f058808, 0xc60cd9b2, 0xb10be924, 0x2f6f7c87, 0x58684c11, 0xc1611dab, 0xb6662d3d,
   0x76dc4190, 0x01db7106, 0x98d220bc, 0xefd5102a, 0x71b18589, 0x06b6b51f, 0x9fbfe4a5, 0xe8b8d433,
   0x7807c9a2, 0x0f00f934, 0x9609a88e, 0xe10e9818, 0x7f6a0dbb, 0x086d3d2d, 0x91646c97, 0xe6635c01,
   0x6b6b51f4, 0x1c6c6162, 0x856530d8, 0xf262004e, 0x6c0695ed, 0x1b01a57b, 0x8208f4c1, 0xf50fc457,
   0x65b0d9c6, 0x12b7e950, 0x8bbeb8ea, 0xfcb9887c, 0x62dd1ddf, 0x15da2d49, 0x8cd37cf3, 0xfbd44c65,
   0x4db26158, 0x3ab551ce, 0xa3bc0074, 0xd4bb30e2, 0x4adfa541, 0x3dd895d7, 0xa4d1c46d, 0xd3d6f4fb,
   0x4369e96a, 0x346ed9fc, 0xad678846, 0xda60b8d0, 0x44042d73, 0x33031de5, 0xaa0a4c5f, 0xdd0d7cc9,
   0x5005713c, 0x270241aa, 0xbe0b1010, 0xc90c2086, 0x5768b525, 0x206f85b3, 0xb966d409, 0xce61e49f,
   0x5edef90e, 0x29d9c998, 0xb0d09822, 0xc7d7a8b4, 0x59b33d17, 0x2eb40d81, 0xb7bd5c3b, 0xc0ba6cad,
   0xedb88320, 0x9abfb3b6, 0x03b6e20c, 0x74b1d29a, 0xead54739, 0x9dd277af, 0x04db2615, 0x73dc1683,
   0xe3630b12, 0x94643b84, 0x0d6d6a3e, 0x7a6a5aa8, 0xe40ecf0b, 0x9309ff9d, 0x0a00ae27, 0x7d079eb1,
   0xf00f9344, 0x8708a3d2, 0x1e01f268, 0x6906c2fe, 0xf762575d, 0x806567cb, 0x196c3671, 0x6e6b06e7,
   0xfed41b76, 0x89d32be0, 0x10da7a5a, 0x67dd4acc, 0xf9b9df6f, 0x8ebeeff9, 0x17b7be43, 0x60b08ed5,
   0xd6d6a3e8, 0xa1d1937e, 0x38d8c2c4, 0x4fdff252, 0xd1bb67f1, 0xa6bc5767, 0x3fb506dd, 0x48b2364b,
   0xd80d2bda, 0xaf0a1b4c, 0x36034af6, 0x41047a60, 0xdf60efc3, 0xa867df55, 0x316e8eef, 0x4669be79,
   0xcb61b38c, 0xbc66831a, 0x256fd2a0, 0x5268e236, 0xcc0c7795, 0xbb0b4703, 0x220216b9, 0x5505262f,
   0xc5ba3bbe, 0xb2bd0b28, 0x2bb45a92, 0x5cb36a04, 0xc2d7ffa7, 0xb5d0cf31, 0x2cd99e8b, 0x5bdeae1d,
   0x9b64c2b0, 0xec63f226, 0x756aa39c, 0x026d930a, 0x9c0906a9, 0xeb0e363f, 0x72076785, 0x05005713,
   0x95bf4a82, 0xe2b87a14, 0x7bb12bae, 0x0cb61b38, 0x92d28e9b, 0xe5d5be0d, 0x7cdcefb7, 0x0bdbdf21,
   0x86d3d2d4, 0xf1d4e242, 0x68ddb3f8, 0x1fda836e, 0x81be16cd, 0xf6b9265b, 0x6fb077e1, 0x18b74777,
   0x88085ae6, 0xff0f6a70, 0x66063bca, 0x11010b5c, 0x8f659eff, 0xf862ae69, 0x616bffd3, 0x166ccf45,
   0xa00ae278, 0xd70dd2ee, 0x4e048354, 0x3903b3c2, 0xa7672661, 0xd06016f7, 0x4969474d, 0x3e6e77db,
   0xaed16a4a, 0xd9d65adc, 0x40df0b66, 0x37d83bf0, 0xa9bcae53, 0xdebb9ec5, 0x47b2cf7f, 0x30b5ffe9,
   0xbdbdf21c, 0xcabac28a, 0x53b39330, 0x24b4a3a6, 0xbad03605, 0xcdd70693, 0x54de5729, 0x23d967bf,
   0xb3667a2e, 0xc4614ab8, 0x5d681b02, 0x2a6f2b94, 0xb40bbe37, 0xc30c8ea1, 0x5a05df1b, 0x2d02ef8d]

def updcrc (cp : Byte) (crc : BitVec 16) : BitVec 16 :=
  crctab.getD ((crc >>> 8) &&& 255).toNat 0 ^^^ (crc <<< 8) ^^^ cp.setWidth 16

/-- `UPDC32`: the check-sum of 32 bits, a byte further. -/
def updc32 (b : Byte) (c : BitVec 32) : BitVec 32 :=
  cr3tab.getD ((c ^^^ b.setWidth 32) &&& 0xff).toNat 0 ^^^ ((c >>> 8) &&& 0x00FFFFFF)

/-- What the functions for 16 and for 32 bits differ in. -/
structure Fcs where
  width : ℕ
  start : BitVec width
  upd : Byte → BitVec width → BitVec width
  /-- The bytes sent behind the data. -/
  check : BitVec width → List Byte
  checkLength : ℕ
  good : BitVec width → Bool

/-- The check-sum over more bytes. -/
def Fcs.over (f : Fcs) (crc : BitVec f.width) (bs : List Byte) : BitVec f.width :=
  bs.foldl (fun crc c => f.upd c crc) crc

def fcs16 : Fcs where
  width := 16
  start := 0
  upd := updcrc
  check crc := [(updcrc 0 (updcrc 0 crc) >>> 8).setWidth 8, (updcrc 0 (updcrc 0 crc)).setWidth 8]
  checkLength := 2
  good crc := crc = 0

def fcs32 : Fcs where
  width := 32
  start := 0xFFFFFFFF
  upd := updc32
  check crc := leBytes32 (~~~crc)
  checkLength := 4
  good crc := crc = 0xDEBB20E3

/-! ## Section 3: The line and the globals -/

/-- What a call of `readline` returns. -/
inductive Reading where
  | byte (b : Byte)
  | timeout
  deriving DecidableEq

/-- The receiving side of the line: the `Lleft` bytes of `linbuf` that are not taken yet, and
what the next calls of `uart_read` will bring, where no byte is a timeout.  The list is as long
as one looks at the line. -/
structure Line where
  linbuf : List Byte
  reads : List (List Byte)

namespace Line

/-- What the next calls of `readline` return. -/
def readings (l : Line) : List Reading :=
  l.linbuf.map Reading.byte ++
    l.reads.flatMap fun r => if r = [] then [Reading.timeout] else r.map Reading.byte

/-- The line after a call of `readline`. -/
def next (l : Line) : Line :=
  match l.linbuf, l.reads with
  | _ :: rest, reads => ⟨rest, reads⟩
  | [], [] => l
  | [], r :: reads => ⟨r.tail, reads⟩

/-- What it returns, if it returns. -/
def peek (l : Line) : Option Reading :=
  match l.linbuf, l.reads with
  | c :: _, _ => some (.byte c)
  | [], [] => none
  | [], [] :: _ => some .timeout
  | [], (c :: _) :: _ => some (.byte c)

/-- No read brings more than `HOWMANY` bytes, the size of `linbuf`.  `uart_read` empties the FIFO,
and may store up to 15 bytes more than it is asked for. -/
def Fits (l : Line) : Prop := ∀ r ∈ l.reads, r.length ≤ 133

instance (l : Line) : Decidable l.Fits :=
  inferInstanceAs (Decidable (∀ r ∈ l.reads, r.length ≤ 133))

theorem Fits.next {l : Line} (h : l.Fits) : l.next.Fits := by
  obtain ⟨linbuf, reads⟩ := l
  cases linbuf with
  | cons c rest => exact h
  | nil =>
    cases reads with
    | nil => exact h
    | cons r reads => exact fun r' hr' => h r' (List.mem_cons_of_mem r hr')

theorem Fits.iterate {l : Line} (h : l.Fits) (n : ℕ) : (Line.next^[n] l).Fits := by
  induction n with
  | zero => exact h
  | succ n ih =>
    rw [Function.iterate_succ_apply']
    exact ih.next

end Line

/-- A header without its type. -/
abbrev Hdr := Vector Byte 4

structure State where
  line : Line
  /-- What has been sent. -/
  out : List Byte
  lastsent : Byte
  zctlesc : Bool
  txfcs32 : Bool
  crc32t : Bool
  znulls : ℕ
  /-- `ZBIN`, `ZBIN32`, `ZHEX`, or 0 -/
  rxframeind : Byte
  rxtype : Byte
  rxcount : ℕ
  rxhdr : Hdr
  txhdr : Hdr
  zrwindow : ℤ
  baudrate : ℤ
  zmodem : Bool
  mem : Memory Byte
  /-- The buffers. -/
  secbuf : ℕ
  attn : ℕ
  zModemPathname : ℕ
  zModemWriteAddress : BitVec 32
  zModemRxOffset : BitVec 32
  zModemRxBytes : BitVec 32
  zModemBytesleft : BitVec 32
  zModemMaxBytes : BitVec 32
  errors : ℕ
  thisbinary : Bool
  rxbinary : Bool
  rxascii : Bool
  eofseen : Bool
  /-- The two bytes behind `Filemode`, which `sscanf` takes for a part of it. -/
  behindFilemode : BitVec 16
  zconv : Byte
  tryzhdrtype : Byte

/-- The globals as the program begins. -/
def State.initial : State where
  line := ⟨[], []⟩
  out := []
  lastsent := 0
  zctlesc := false
  txfcs32 := false
  crc32t := false
  znulls := 0
  rxframeind := 0
  rxtype := 0
  rxcount := 0
  rxhdr := #v[0, 0, 0, 0]
  txhdr := #v[0, 0, 0, 0]
  zrwindow := 1400
  baudrate := 115200
  zmodem := true
  mem := fun _ => 0
  secbuf := 0
  attn := 0
  zModemPathname := 0
  zModemWriteAddress := 0
  zModemRxOffset := 0
  zModemRxBytes := 0
  zModemBytesleft := 0
  zModemMaxBytes := 0
  errors := 0
  thisbinary := false
  rxbinary := true
  rxascii := false
  eofseen := false
  behindFilemode := 0
  zconv := 0
  tryzhdrtype := zrinit

abbrev ZmodemM (α : Type) := Program State α

/-- The calls of `readline` that the line still answers. -/
def left (s : State) : ℕ := s.line.readings.length

/-- `readline`: the time is in what `uart_read` brings.  `linbuf` is no part of `mem`; a read that
does not fit it goes on into `secbuf`, which is behind it, and this is left out. -/
def readline : ZmodemM Reading := fun s => (s.line.peek, { s with line := s.line.next })

/-- `sendline` and `xsendline`; the UART takes every byte in the end. -/
def sendline (c : Byte) (s : State) : State := { s with out := s.out ++ [c] }

/-! ## Section 4: Sending -/

/-- `xsendline(ZDLE); c ^= 0100; xsendline(lastsent = c);` -/
def sendEscaped (c : Byte) (s : State) : State :=
  sendline (c ^^^ 0x40) { sendline zdle s with lastsent := c ^^^ 0x40 }

/-- `xsendline(lastsent = c);` -/
def sendPlain (c : Byte) (s : State) : State := sendline c { s with lastsent := c }

/-- `zsendline`: a byte is sent as it is, or behind an escape if a line could take it for something
else. -/
def zsendline (c : Byte) (s : State) : State :=
  if c = zdle then sendEscaped c s
  else if c = 0x0d ∨ c = 0x8d then
    if s.zctlesc = false ∧ s.lastsent &&& 0x7f ≠ 0x40 then sendPlain c s else sendEscaped c s
  else if c = 0x10 ∨ c = 0x11 ∨ c = 0x13 ∨ c = 0x90 ∨ c = 0x91 ∨ c = 0x93 then sendEscaped c s
  else if s.zctlesc = true ∧ c &&& 0x60 = 0 then sendEscaped c s
  else sendPlain c s

/-- The loops that send one byte after the other. -/
def zsendlines (bs : List Byte) (s : State) : State := bs.foldl (fun s c => zsendline c s) s

/-- What `zsbhdr` with 16 bits and `zsbh32` do. -/
def sendHeader (f : Fcs) (ind type : Byte) (hdr : Hdr) (s : State) : State :=
  zsendlines (f.check (f.over f.start (type :: hdr.toList)))
    (zsendlines hdr.toList (zsendline type (sendline ind s)))

def zsbh32 (hdr : Hdr) (type : Byte) : State → State := sendHeader fcs32 zbin32 type hdr

/-- `xsendline(ZPAD); xsendline(ZDLE); Crc32t = Txfcs32` -/
def startFrame (s : State) : State := { sendline zdle (sendline zpad s) with crc32t := s.txfcs32 }

/-- `zsbhdr`: a binary header, with the check-sum that is in use. -/
def zsbhdr (type : Byte) (hdr : Hdr) (s : State) : State :=
  let s := startFrame (if type = zdata then zsendlines (List.replicate s.znulls 0) s else s)
  if s.crc32t then zsbh32 hdr type s else sendHeader fcs16 zbin type hdr s

/-- The digits of `zputhex`. -/
def hexDigits : List Byte :=
  [0x30, 0x31, 0x32, 0x33, 0x34, 0x35, 0x36, 0x37, 0x38, 0x39, 0x61, 0x62, 0x63, 0x64, 0x65, 0x66]

/-- `zputhex`: the two digits of a byte. -/
def zputhex (c : Byte) (s : State) : State :=
  sendline (hexDigits.getD (c &&& 0xf).toNat 0)
    (sendline (hexDigits.getD ((c &&& 0xf0) >>> 4).toNat 0) s)

def zputhexs (bs : List Byte) (s : State) : State := bs.foldl (fun s c => zputhex c s) s

/-- `zshhdr`: a header in hexadecimal digits, with its line end, and an XON for most of them. -/
def zshhdr (type : Byte) (hdr : Hdr) (s : State) : State :=
  let s := sendline zhex (sendline zdle (sendline zpad (sendline zpad s)))
  let s := { zputhex type s with crc32t := false }
  let s := zputhexs hdr.toList s
  let s := zputhexs (fcs16.check (fcs16.over 0 (type :: hdr.toList))) s
  let s := sendline 0x8a (sendline 0x0d s)
  if type ≠ zfin ∧ type ≠ zack then sendline xon s else s

/-- What `zsdata` with 16 bits and `zsda32` do. -/
def sendData (f : Fcs) (buf : List Byte) (frameend : FrameEnd) (s : State) : State :=
  zsendlines (f.check (f.upd frameend.byte (f.over f.start buf)))
    (sendline frameend.byte (sendline zdle (zsendlines buf s)))

def zsda32 : List Byte → FrameEnd → State → State := sendData fcs32

/-- `zsdata`: a subpacket, with the check-sum that is in use. -/
def zsdata (buf : List Byte) (frameend : FrameEnd) (s : State) : State :=
  let s := if s.crc32t then zsda32 buf frameend s else sendData fcs16 buf frameend s
  if frameend = .zcrcw then sendline xon s else s

/-! ## Section 5: Bytes received -/

/-- The first `switch` of `zdlread`: go on with `again`, or take the byte. -/
def plainSwitch (zctlesc : Bool) (c : Byte) : Unit ⊕ Reading :=
  if c = zdle then .inr (.byte c)
  else if c = 0x13 ∨ c = 0x93 ∨ c = 0x11 ∨ c = 0x91 then .inl ⟨⟩
  else if zctlesc = true ∧ c &&& 0x60 = 0 then .inl ⟨⟩
  else .inr (.byte c)

/-- A round of the loop at `again`. -/
def plainRound (_ : Unit) : ZmodemM (Unit ⊕ Reading) := do
  let r ← readline
  let s ← read id
  match r with
  | .timeout => pure (.inr .timeout)
  | .byte c => pure (plainSwitch s.zctlesc c)

/-- `if (c == CAN && (c = readline(Rxtimeout)) < 0) return c;`, where a timeout falls through. -/
def afterCan : Reading → ZmodemM Reading
  | .byte c => if c = can then readline else pure (.byte c)
  | .timeout => pure .timeout

/-- The second `switch` of `zdlread`: go on with `again2`, or return. -/
def escapeSwitch (zctlesc : Bool) (c : Byte) : Unit ⊕ Code :=
  if c = can then .inr .gotCan
  else match frameEndOf c with
    | some e => .inr (.got e)
    | none =>
      if c = zrub0 then .inr (.byte 0x7f)
      else if c = zrub1 then .inr (.byte 0xff)
      else if c = 0x13 ∨ c = 0x93 ∨ c = 0x11 ∨ c = 0x91 then .inl ⟨⟩
      else if zctlesc = true ∧ c &&& 0x60 = 0 then .inl ⟨⟩
      else if c &&& 0x60 = 0x40 then .inr (.byte (c ^^^ 0x40))
      else .inr .error

/-- A round of the loop at `again2`. -/
def escapeRound (_ : Unit) : ZmodemM (Unit ⊕ Code) := do
  let r ← readline
  let r ← afterCan r
  let r ← afterCan r
  let r ← afterCan r
  let s ← read id
  match r with
  | .timeout => pure (.inr .timeout)
  | .byte c => pure (escapeSwitch s.zctlesc c)

/-- `zdlread`: the next code on the line; flow control is passed over. -/
def zdlread : ZmodemM Code := do
  match ← loop left plainRound ⟨⟩ with
  | .timeout => pure .timeout
  | .byte c => if c = zdle then loop left escapeRound ⟨⟩ else pure (.byte c)

/-- The `switch` of `noxrd7`, on a byte without its parity. -/
def noxrdSwitch (zctlesc : Bool) (c : Byte) : Unit ⊕ Reading :=
  if c = xon ∨ c = xoff then .inl ⟨⟩
  else if c = 0x0d ∨ c = 0x0a ∨ c = zdle then .inr (.byte c)
  else if zctlesc = true ∧ c &&& 0x60 = 0 then .inl ⟨⟩
  else .inr (.byte c)

/-- A round of `noxrd7`. -/
def noxrdRound (_ : Unit) : ZmodemM (Unit ⊕ Reading) := do
  let r ← readline
  let s ← read id
  match r with
  | .timeout => pure (.inr .timeout)
  | .byte c => pure (noxrdSwitch s.zctlesc (c &&& 0x7f))

/-- `noxrd7`: the next byte with its parity bit removed; flow control is passed over. -/
def noxrd7 : ZmodemM Reading := loop left noxrdRound ⟨⟩

/-- The value of a digit in `zgeth1`, if it is one. -/
def hexValue (c : Byte) : Option ℕ :=
  let n : ℤ := c.toNat - 0x30
  let n := if n > 9 then n - 39 else n
  if 0 ≤ n ∧ n < 16 then some n.toNat else none

/-- `zgeth1`, and `zgethex` -/
def zgethex : ZmodemM Code := do
  match ← noxrd7 with
  | .timeout => pure .timeout
  | .byte c =>
    match hexValue c with
    | none => pure .error
    | some n =>
      match ← noxrd7 with
      | .timeout => pure .timeout
      | .byte c =>
        match hexValue c with
        | none => pure .error
        | some m => pure (.byte (BitVec.ofNat 8 (m + n * 16)))

/-! ## Section 6: Headers received -/

/-- The next `n` bytes into the check-sum and by `put` into the state, or the code that came
instead of one. -/
def readBytes (get : ZmodemM Code) (f : Fcs) (put : ℕ → Byte → State → State) :
    ℕ → ℕ → BitVec f.width → ZmodemM ((BitVec f.width × Code) ⊕ BitVec f.width)
  | 0, _, crc => pure (.inr crc)
  | n + 1, i, crc => do
    match ← get with
    | .byte c => do
      modify (put i c)
      readBytes get f put n (i + 1) (f.upd c crc)
    | c => pure (.inl (crc, c))

/-- `*hdr++ = c` -/
def putHdr (i : ℕ) (c : Byte) (s : State) : State := { s with rxhdr := s.rxhdr.setIfInBounds i c }

/-- Nothing is stored. -/
def putNothing (_ : ℕ) (_ : Byte) (s : State) : State := s

/-- What `zrbhdr`, `zrbhdr32` and `zrhhdr` do; `rest` comes after a header that is right. -/
def receiveHeader (get : ZmodemM Code) (f : Fcs) (rest : ZmodemM Unit) : ZmodemM Code := do
  match ← get with
  | .byte t => do
    modify fun s => { s with rxtype := t }
    match ← readBytes get f putHdr 4 0 (f.upd t f.start) with
    | .inl r => pure r.2
    | .inr crc =>
      match ← readBytes get f putNothing f.checkLength 0 crc with
      | .inl r => pure r.2
      | .inr crc =>
        if f.good crc then do
          rest
          modify fun s => { s with zmodem := true }
          pure (.byte t)
        else pure .error
  | c => pure c

def zrbhdr : ZmodemM Code := receiveHeader zdlread fcs16 (pure ⟨⟩)

def zrbhdr32 : ZmodemM Code := receiveHeader zdlread fcs32 (pure ⟨⟩)

/-- Throw away possible cr/lf. -/
def throwCrLf : ZmodemM Unit := do
  match ← readline with
  | .byte c => if c = 0x0d then do let _ ← readline; pure ⟨⟩ else pure ⟨⟩
  | .timeout => pure ⟨⟩

def zrhhdr : ZmodemM Code := receiveHeader zgethex fcs16 throwCrLf

/-- The position in a header. -/
def rclhdr (hdr : Hdr) : BitVec 32 := leWord hdr.toList

/-- Where `zgethdr` goes on: at `again`, with what is left of the garbage count and of the CANs. -/
structure Search where
  n : ℤ
  cancount : ℤ

/-- The label `agn2`, and `startover` behind it. -/
def garbage (a : Search) : ZmodemM (Search ⊕ Code) :=
  if a.n - 1 = 0 then pure (.inr .error) else pure (.inl ⟨a.n - 1, 5⟩)

/-- The label `gotcan`. -/
def gotCanLabel (a : Search) : ZmodemM (Search ⊕ Code) :=
  if a.cancount - 1 ≤ 0 then pure (.inr (.byte zcan))
  else do
    match ← readline with
    | .timeout => pure (.inl ⟨a.n, a.cancount - 1⟩)
    | .byte c =>
      if c = FrameEnd.zcrcw.byte then pure (.inr .error)
      else if c = can then
        if a.cancount - 1 - 1 ≤ 0 then pure (.inr (.byte zcan))
        else pure (.inl ⟨a.n, a.cancount - 1 - 1⟩)
      else garbage a

/-- A round of the loop at `splat`. -/
def splatRound (_ : Unit) : ZmodemM (Unit ⊕ Reading) := do
  match ← noxrd7 with
  | .byte c => if c = zpad then pure (.inl ⟨⟩) else pure (.inr (.byte c))
  | .timeout => pure (.inr .timeout)

/-- What comes behind the ZDLE of a header. -/
def frameIndicator (a : Search) : ZmodemM (Search ⊕ Code) := do
  match ← noxrd7 with
  | .timeout => pure (.inr .timeout)
  | .byte c =>
    if c = zbin then do
      modify fun s => { s with rxframeind := zbin }
      let c ← zrbhdr
      pure (.inr c)
    else if c = zbin32 then do
      modify fun s => { s with rxframeind := zbin32 }
      let c ← zrbhdr32
      pure (.inr c)
    else if c = zhex then do
      modify fun s => { s with rxframeind := zhex }
      let c ← zrhhdr
      pure (.inr c)
    else if c = can then gotCanLabel a
    else garbage a

/-- A round of `zgethdr` from `again` on. -/
def searchRound (a : Search) : ZmodemM (Search ⊕ Code) := do
  match ← readline with
  | .timeout => pure (.inr .timeout)
  | .byte c =>
    if c = can then gotCanLabel a
    else if c = zpad ∨ c = zpad ||| 0x80 then do
      match ← loop left splatRound ⟨⟩ with
      | .timeout => pure (.inr .timeout)
      | .byte c => if c = zdle then frameIndicator ⟨a.n, 5⟩ else garbage a
    else garbage a

/-- `zgethdr` with `Rxhdr`: garbage is passed over until a header comes, or the patience ends. -/
def zgethdr : ZmodemM Code := do
  modify fun s => { s with rxframeind := 0, rxtype := 0 }
  let s ← read id
  match ← loop left searchRound ⟨s.zrwindow + s.baudrate, 5⟩ with
  | .gotCan => pure (.byte zcan)
  | c => pure c

/-! ## Section 7: Data received -/

/-- The label `crcfoo`, with the check-sum up to here and the code that came; `d` is the end of
the subpacket that has been seen. -/
def crcfooRound (f : Fcs) (stored : ℕ) (a : BitVec f.width × Code) :
    ZmodemM ((BitVec f.width × Code) ⊕ Code) :=
  match a.2 with
  | .got e => do
    match ← readBytes zdlread f putNothing f.checkLength 0 (f.upd e.byte a.1) with
    | .inl r => pure (.inl r)
    | .inr crc =>
      if f.good crc then do
        modify fun s => { s with rxcount := stored }
        pure (.inr (.got e))
      else pure (.inr .error)
  | .gotCan => pure (.inr (.byte zcan))
  | .timeout => pure (.inr .timeout)
  | .error => pure (.inr .error)
  | .byte c => pure (.inr (.byte c))

/-- The loop of `zrdata` and of `zrdat32`, which stops only behind byte `length`. -/
def readData (f : Fcs) (buf : ℕ) : ℕ → ℕ → BitVec f.width → ZmodemM Code
  | 0, _, _ => pure .error
  | n + 1, i, crc => do
    match ← zdlread with
    | .byte c => do
      modify fun s => { s with mem := s.mem.store (buf + i) [c] }
      readData f buf n (i + 1) (f.upd c crc)
    | c => loop left (crcfooRound f i) (crc, c)

def zrdat32 (buf length : ℕ) : ZmodemM Code := do
  modify fun s => { s with rxcount := 0 }
  readData fcs32 buf (length + 1) 0 fcs32.start

/-- `zrdata`: a subpacket with the check-sum of the header before it. -/
def zrdata (buf length : ℕ) : ZmodemM Code := do
  let s ← read id
  if s.rxframeind = zbin32 then zrdat32 buf length
  else do
    modify fun s => { s with rxcount := 0 }
    readData fcs16 buf (length + 1) 0 fcs16.start

end Karnix.Zmodem
