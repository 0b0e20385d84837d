import Karnix.Library.CString
import Karnix.Zmodem.Frames

/-!
# Files received

`wcreceive` shakes hands, and stores files at `ZModemWriteAddress`: `rzfile` asks for the bytes
from a position on, takes subpackets as long as they come in order, and asks again after every
error.
-/

namespace Karnix.Zmodem

open Karnix.Library
open Karnix.Library.Program

/-! ## Section 1: Constants -/

def ksize : ℕ := 1024
def zattnlen : ℕ := 32

/-- `CANFC32|CANFDX|CANOVIO|CANBRK`: what the receiver says that it can do. -/
def capabilities : Byte := 0x27
def tescctl : Byte := 0x40

/-- `ZF0` -/
def zf0 : Fin 4 := Fin.last 3

def zcbin : Byte := 1
def zcnl : Byte := 2
def cpmeof : Byte := 0x1a
def unixfile : BitVec 16 := 0x8000

/-- `OK` -/
def ok : Code := .byte 0

/-! ## Section 2: Strings in the memory -/

/-- The string at `a`, of at most `n` bytes. -/
def stringAt (m : Memory Byte) : ℕ → ℕ → List Byte
  | 0, _ => []
  | n + 1, a => if m a = 0 then [] else m a :: stringAt m n (a + 1)

/-- No string is longer than the memory. -/
def memorySize : ℕ := 2 ^ 32

/-- `isdigit` for the digits of a base up to ten. -/
def isDigitOf (base : ℕ) (b : Byte) : Bool := 0x30 ≤ b.toNat && b.toNat < 0x30 + base

/-- One number of `sscanf`: what it is, and the text behind it. -/
def scanNumber (base : ℕ) (text : List Byte) : Option (ℤ × List Byte) :=
  let text := text.dropWhile CString.isSpace
  let negative := text.head? = some 0x2d
  let text := if negative ∨ text.head? = some 0x2b then text.tail else text
  let digits := text.takeWhile (isDigitOf base)
  if digits = [] then none
  else
    let value : ℕ := digits.foldl (fun n b => n * base + (b.toNat - 0x30)) 0
    some (if negative then -(value : ℤ) else value, text.dropWhile (isDigitOf base))

/-- `%ld` stores no more than a `long` holds. -/
def clampLong (v : ℤ) : BitVec 32 := BitVec.ofInt 32 (max (-2147483648) (min 2147483647 v))

/-- `%o` stores no more than an `unsigned` holds. -/
def clampMode (v : ℤ) : BitVec 32 := BitVec.ofInt 32 (if v.natAbs < 2 ^ 32 then v else 4294967295)

/-- `sscanf(p, "%ld%lo%o", &ZModemBytesleft, &Modtime, &Filemode)`: the first of these, and the four
bytes at the last one, which is a `short`, as they are after it. -/
def scanInfo (text : List Byte) (bytesleft filemode : BitVec 32) : BitVec 32 × BitVec 32 :=
  match scanNumber 10 text with
  | none => (bytesleft, filemode)
  | some (size, text) =>
    match scanNumber 8 text with
    | none => (clampLong size, filemode)
    | some (_, text) =>
      match scanNumber 8 text with
      | none => (clampLong size, filemode)
      | some (mode, _) => (clampLong size, clampMode mode)

/-- `IsAnyLower`: the name has a small letter. -/
def isAnyLower (name : List Byte) : Bool := name.any fun b => 0x61 ≤ b && b ≤ 0x7a

/-- What `uncaps` makes of a character. -/
def uncap (b : Byte) : Byte := if 0x41 ≤ b ∧ b ≤ 0x5a then b + 0x20 else b

/-! ## Section 3: Small functions -/

/-- `stohdr`: a position goes into the header to be sent. -/
def stohdr (pos : BitVec 32) (s : State) : State :=
  { s with txhdr := #v[pos.setWidth 8, (pos >>> 8).setWidth 8, (pos >>> 16).setWidth 8,
      (pos >>> 24).setWidth 8] }

/-- `zshhdr` with `Txhdr` -/
def sendHex (type : Byte) (s : State) : State := zshhdr type s.txhdr s

/-- `purgeline`: what the UART holds is lost, and is not among what later calls bring. -/
def purgeline (s : State) : State := { s with line := { s.line with linbuf := [] } }

/-- `zmputs`, where the pause and the break are no bytes. -/
def zmputs (text : List Byte) (s : State) : State :=
  { s with out := s.out ++ text.filter fun c => c ≠ 0xde ∧ c ≠ 0xdd }

/-- `zmputs(Attn)`: the sequence that the sender has asked for to be interrupted. -/
def sendAttn (s : State) : State := zmputs (stringAt s.mem memorySize s.attn) s

/-- `canit`: the session is called off; ten backspaces take the characters from the screen again.
-/
def canit (s : State) : State :=
  { purgeline s with out := s.out ++ List.replicate 10 24 ++ List.replicate 10 8 ++ [0] }

/-- The rounds of `ackbibi`. -/
def ackbibiRounds : ℕ → ZmodemM Unit
  | 0 => pure ⟨⟩
  | n + 1 => do
    modify fun s => sendHex zfin (purgeline s)
    match ← readline with
    | .byte c => if c = 0x4f then do let _ ← readline; pure ⟨⟩ else ackbibiRounds n
    | .timeout => ackbibiRounds n

/-- `ackbibi`: the end of the session is acknowledged, and `OO` waited for. -/
def ackbibi : ZmodemM Unit := do
  modify (stohdr 0)
  ackbibiRounds 3

/-! ## Section 4: One file -/

/-- The file information behind the name. -/
def readInfo (name p : ℕ) (s : State) : State :=
  if s.mem p ≠ 0 then
    let info := scanInfo (stringAt s.mem memorySize p) 2000000000
      (s.behindFilemode ++ (0x1ff : BitVec 16))
    { s with
      zModemBytesleft := info.1
      behindFilemode := info.2.extractLsb' 16 16
      thisbinary := if info.2.setWidth 16 &&& unixfile ≠ 0 then true else s.thisbinary }
  else
    let text := stringAt s.mem memorySize name
    let s := { s with
      zModemBytesleft := 2000000000
      mem := s.mem.store name (text.map fun b => if b = 0x2f then 0x5f else b) }
    let last := name + text.length - 1
    if s.mem last = 0x2e then { s with mem := s.mem.store last [0] } else s

/-- The name in lower case, unless it has such letters. -/
def lowerName (name : ℕ) (s : State) : State :=
  let text := stringAt s.mem memorySize name
  if s.zmodem = false ∧ isAnyLower text = false then
    { s with mem := s.mem.store name (text.map uncap) }
  else s

/-- `strcpy(ZModemPathname, name)` -/
def copyName (name : ℕ) (s : State) : State :=
  { s with mem := s.mem.store s.zModemPathname (stringAt s.mem memorySize name ++ [0]) }

/-- What `procheader` finds out about the conversion. -/
def conversion (s : State) : State :=
  let binary : Bool := !s.rxascii || s.rxbinary
  let binary : Bool := if s.rxbinary = false ∧ s.zconv = zcnl then false else binary
  { s with thisbinary := if s.zconv = zcbin then true else binary }

/-- What `procheader` does before it looks at the size. -/
def takeHeader (name : ℕ) (s : State) : State :=
  let s := conversion s
  let p := name + 1 + (stringAt s.mem memorySize name).length
  copyName name (lowerName name (readInfo name p s))

/-- `procheader`: the name and the size of the file; one that is too large is refused. -/
def procheader (name : ℕ) : ZmodemM Code := do
  modify (takeHeader name)
  let s ← read id
  if s.zModemMaxBytes.slt s.zModemBytesleft then pure .error else pure ok

/-- `memcpy(ZModemWriteAddress + ZModemRxOffset, buf, n); ZModemRxOffset += n;` -/
def putBytes (buf n : ℕ) (s : State) : State :=
  { s with
    mem := s.mem.store (s.zModemWriteAddress + s.zModemRxOffset).toNat (s.mem.load buf n)
    zModemRxOffset := s.zModemRxOffset + BitVec.ofNat 32 n }

/-- The loop of `putsec` over text, at byte `i`; it copies as many bytes from the start of the
buffer as are left. -/
def putText (buf : ℕ) : ℕ → ℕ → State → State
  | 0, _, s => s
  | n + 1, i, s =>
    if s.mem (buf + i) = 0x0d then putText buf n (i + 1) s
    else if s.mem (buf + i) = cpmeof then { s with eofseen := true }
    else putText buf n (i + 1) (putBytes buf n s)

/-- `putsec`: data goes to the end of the file, as it is or as a text. -/
def putsec (buf n : ℕ) (s : State) : State :=
  if s.thisbinary then putBytes buf n s
  else if s.eofseen then s
  else putText buf n 0 s

/-- A subpacket is stored, and counted. -/
def storeSector (s : State) : State :=
  let s := putsec s.secbuf s.rxcount s
  { s with zModemRxBytes := s.zModemRxBytes + BitVec.ofNat 32 s.rxcount }

/-- `stohdr(ZModemRxBytes); zshhdr(type, Txhdr);` -/
def sendPosition (type : Byte) (s : State) : State := sendHex type (stohdr s.zModemRxBytes s)

/-- Where `rzfile` goes on, with the errors that are left: at `nxthdr` or at `moredata`. -/
structure Progress where
  n : ℕ
  moredata : Bool

/-- `continue` of the loop of `rzfile`: the position is asked for again. -/
def askAgain (n : ℕ) : ZmodemM (Progress ⊕ Code) := do
  modify (sendPosition zrpos)
  pure (.inl ⟨n, false⟩)

/-- `if ( --n < 0) return ERROR;` before something else. -/
def retry (n : ℕ) (next : ℕ → ZmodemM (Progress ⊕ Code)) : ZmodemM (Progress ⊕ Code) :=
  if n = 0 then pure (.inr .error) else next (n - 1)

/-- `zmputs(Attn); continue;` -/
def complain (n : ℕ) : ZmodemM (Progress ⊕ Code) := do
  modify sendAttn
  askAgain n

/-- `zrdata(secbuf, KSIZE); continue;` -/
def skipData (n : ℕ) : ZmodemM (Progress ⊕ Code) := do
  let s ← read id
  let _ ← zrdata s.secbuf ksize
  askAgain n

/-- What comes behind a subpacket. -/
def takeSector (e : FrameEnd) : ZmodemM (Progress ⊕ Code) := do
  modify storeSector
  match e with
  | .zcrcw => do
    modify fun s => sendline xon (sendPosition zack s)
    pure (.inl ⟨20, false⟩)
  | .zcrcq => do
    modify (sendPosition zack)
    pure (.inl ⟨20, true⟩)
  | .zcrcg => pure (.inl ⟨20, true⟩)
  | .zcrce => pure (.inl ⟨20, false⟩)

/-- The `switch` on what `zrdata` returns. -/
def dataSwitch (n : ℕ) : Code → ZmodemM (Progress ⊕ Code)
  | .got e => takeSector e
  | .error => retry n complain
  | .timeout => retry n askAgain
  | .gotCan => askAgain n
  | .byte c => if c = zcan then pure (.inr .error) else askAgain n

/-- From `moredata` on. -/
def dataRound (n : ℕ) : ZmodemM (Progress ⊕ Code) := do
  let s ← read id
  let c ← zrdata s.secbuf ksize
  dataSwitch n c

/-- The `switch` on what `zgethdr` returns. -/
def headerSwitch (n : ℕ) (c : Code) : ZmodemM (Progress ⊕ Code) := do
  let s ← read id
  match c with
  | .timeout => retry n skipData
  | .error => retry n complain
  | .byte c =>
    if c = znak then retry n skipData
    else if c = zfile then skipData n
    else if c = zeof then
      if rclhdr s.rxhdr ≠ s.zModemRxBytes then do
        modify fun s => { s with errors := 0 }
        pure (.inl ⟨n, false⟩)
      else pure (.inr (.byte zeof))
    else if c = zdata then
      if rclhdr s.rxhdr ≠ s.zModemRxBytes then retry n complain
      else pure (.inl ⟨n, true⟩)
    else pure (.inr .error)
  | _ => pure (.inr .error)

/-- From `nxthdr` on. -/
def headerRound (n : ℕ) : ZmodemM (Progress ⊕ Code) := do
  let c ← zgethdr
  headerSwitch n c

/-- A round of `rzfile`. -/
def rzfileRound (a : Progress) : ZmodemM (Progress ⊕ Code) :=
  if a.moredata then dataRound a.n else headerRound a.n

/-- What `rzfile` does behind `procheader`. -/
def receiveFile (c : Code) : ZmodemM Code :=
  if c = .error then do
    modify fun s => { s with tryzhdrtype := zabort }
    pure (.byte zabort)
  else do
    modify (sendPosition zrpos)
    loop left rzfileRound ⟨20, false⟩

/-- `rzfile`: one file, from the position on that is asked for first. -/
def rzfile : ZmodemM Code := do
  modify fun s => { s with eofseen := false }
  let s ← read id
  let c ← procheader s.secbuf
  receiveFile c

/-! ## Section 5: Sessions -/

/-- The header of an invitation: no buffer length, and the capability flags. -/
def invitation (s : State) : State :=
  let flags : Byte := if s.zctlesc then capabilities ||| tescctl else capabilities
  { s with txhdr := (stohdr 0 s).txhdr.setIfInBounds 3 flags }

/-- `if (tryzhdrtype == ZSKIP) tryzhdrtype = ZRINIT;` -/
def skipOnce (s : State) : State :=
  if s.tryzhdrtype = zskip then { s with tryzhdrtype := zrinit } else s

/-- What `tryz` does at the beginning of an attempt. -/
def announce (s : State) : State := skipOnce (sendHex s.tryzhdrtype (invitation s))

/-- `continue` of the loop of `tryz`. -/
def nextAttempt (n : ℕ) : ZmodemM (ℕ ⊕ Code) :=
  if n = 0 then pure (.inr .timeout)
  else do
    modify announce
    pure (.inl (n - 1))

/-- `zshhdr(type, Txhdr); goto again;` -/
def replyAgain (type : Byte) (n : ℕ) : ZmodemM (ℕ ⊕ Code) := do
  modify (sendHex type)
  pure (.inl n)

/-- A round of the loop that answers a command. -/
def completeRound (_ : Unit) : ZmodemM (Unit ⊕ Unit) := do
  modify fun s => { sendHex zcompl s with errors := s.errors + 1 }
  let s ← read id
  if s.errors < 20 then do
    let c ← zgethdr
    if c = .byte zfin then pure (.inr ⟨⟩) else pure (.inl ⟨⟩)
  else pure (.inr ⟨⟩)

/-- What `tryz` does with a command; it is not executed. -/
def answerCommand : ZmodemM (ℕ ⊕ Code) := do
  modify fun s => purgeline (stohdr 0 s)
  loop left completeRound ⟨⟩
  ackbibi
  pure (.inr (.byte zcompl))

/-- The `switch` of `tryz` on what `zgethdr` returns, where `n` attempts are left. -/
def tryzSwitch (n : ℕ) (c : Code) : ZmodemM (ℕ ⊕ Code) := do
  let s ← read id
  match c with
  | .byte c =>
    if c = zfile then do
      modify fun s => { s with zconv := s.rxhdr.get zf0, tryzhdrtype := zrinit }
      let c ← zrdata s.secbuf ksize
      if c = .got .zcrcw then pure (.inr (.byte zfile)) else replyAgain znak n
    else if c = zsinit then do
      modify fun s => { s with zctlesc := s.rxhdr.get zf0 &&& tescctl ≠ 0 }
      let c ← zrdata s.attn zattnlen
      if c = .got .zcrcw then replyAgain zack n else replyAgain znak n
    else if c = zfreecnt then do
      modify (stohdr s.zModemMaxBytes)
      replyAgain zack n
    else if c = zcommand then do
      let c ← zrdata s.secbuf ksize
      if c = .got .zcrcw then answerCommand else replyAgain znak n
    else if c = zcompl then pure (.inl n)
    else if c = zfin then do
      ackbibi
      pure (.inr (.byte zcompl))
    else if c = zcan then pure (.inr .error)
    else nextAttempt n
  | _ => nextAttempt n

/-- From `again` on. -/
def tryzRound (n : ℕ) : ZmodemM (ℕ ⊕ Code) := do
  let c ← zgethdr
  tryzSwitch n c

/-- `tryz`: the receiver is announced until the sender comes with something to do. -/
def tryz (attempts : ℕ) : ZmodemM Code :=
  if attempts = 0 then pure .timeout
  else do
    modify announce
    loop left tryzRound (attempts - 1)

/-- `rzfiles`, where `i` more files may come. -/
def rzfilesFrom (attempts : ℕ) : ℕ → ZmodemM Code
  | 0 => pure .error
  | i + 1 => do
    let c ← rzfile
    if c = .byte zeof ∨ c = .byte zskip then do
      let c ← tryz attempts
      if c = .byte zcompl then pure ok
      else if c = .byte zfile then rzfilesFrom attempts i
      else pure .error
    else if c = .byte zabort then pure .error
    else pure c

def rzfiles (attempts : ℕ) : ZmodemM Code := rzfilesFrom attempts 5

/-- What `wcreceive` sets. -/
def clearContext (maxbytes : BitVec 32) (filename secbuf attn : ℕ) (s : State) : State :=
  { s with
    zModemMaxBytes := maxbytes
    zModemPathname := filename
    secbuf := secbuf
    attn := attn
    eofseen := false
    zmodem := false
    errors := 0
    zModemRxBytes := 0
    zModemBytesleft := 0
    rxbinary := true
    rxascii := false
    thisbinary := false
    zconv := 0
    zctlesc := false
    zrwindow := 1400
    lastsent := 0
    tryzhdrtype := zrinit
    zModemRxOffset := 0
    mem := s.mem.fill secbuf (ksize + 1) 0 }

/-- The label `fubar`. -/
def fubar : ZmodemM Code := do
  modify canit
  pure .error

/-- What `wcreceive` does behind the handshake. -/
def receiveBatch (attempts : ℕ) (c : Code) : ZmodemM Code :=
  if c = ok then pure ok
  else if c = .byte zcompl then pure ok
  else if c = .error then fubar
  else if c = .timeout then pure .timeout
  else do
    let c ← rzfiles attempts
    if c = ok then pure ok else fubar

/-- `wcreceive`, with the buffers that it allocates. -/
def wcreceive (attempts : ℕ) (maxbytes : BitVec 32) (filename secbuf attn : ℕ) :
    ZmodemM Code := do
  modify fun s => purgeline (clearContext maxbytes filename secbuf attn s)
  let c ← tryz attempts
  receiveBatch attempts c

end Karnix.Zmodem
