import Karnix.Library.Bytes
import Karnix.Library.Runs

/-!
# The Ethernet driver

`mac_tx_packet` and `mac_rx` of `mac.c`.  Packets are chains of pbufs in a flat memory; the
FIFOs of the controller take and give 32-bit words, the first of each frame being its
length in bits.

The driver waits where the transmit FIFO is full, and where the receive FIFO is empty in the
middle of a frame, so it sees the words that arrive as one sequence `rx`.
-/

namespace Karnix.Mac

open Karnix.Library

/-! ## Section 1: Chains of pbufs -/

/-- A pbuf of a chain: where its payload lies, and how many bytes in front of it
`pbuf_header` may take in. -/
structure Pbuf where
  payload : ℕ
  len : ℕ
  room : ℕ
  deriving DecidableEq, Repr

/-- The number of bytes in a chain. -/
def totLen (p : List Pbuf) : ℕ := (p.map Pbuf.len).sum

/-- The bytes of a chain, one pbuf after the other. -/
def bytesOf (mem : Memory Byte) (p : List Pbuf) : List Byte :=
  p.flatMap fun q => mem.load q.payload q.len

/-- `ETH_PAD_SIZE`: the bytes in front of a frame that align its addresses. -/
def ethPadSize : ℕ := 2

/-- `pbuf_header` with a negative increment: nothing changes if the first pbuf is shorter. -/
def dropHeader (n : ℕ) : List Pbuf → List Pbuf
  | [] => []
  | q :: qs => (if n ≤ q.len then ⟨q.payload + n, q.len - n, q.room + n⟩ else q) :: qs

/-- `pbuf_header` with a positive increment: nothing changes if there is no room. -/
def reclaimHeader (n : ℕ) : List Pbuf → List Pbuf
  | [] => []
  | q :: qs => (if n ≤ q.room then ⟨q.payload - n, q.len + n, q.room - n⟩ else q) :: qs

@[simp] theorem totLen_nil : totLen [] = 0 := rfl

@[simp] theorem totLen_cons (q : Pbuf) (qs : List Pbuf) : totLen (q :: qs) = q.len + totLen qs :=
  List.sum_cons

@[simp] theorem bytesOf_nil (mem : Memory Byte) : bytesOf mem [] = [] := rfl

@[simp] theorem bytesOf_cons (mem : Memory Byte) (q : Pbuf) (qs : List Pbuf) :
    bytesOf mem (q :: qs) = mem.load q.payload q.len ++ bytesOf mem qs := rfl

@[simp] theorem length_bytesOf (mem : Memory Byte) (p : List Pbuf) :
    (bytesOf mem p).length = totLen p := by
  induction p with
  | nil => rfl
  | cons q qs ih => rw [bytesOf_cons, List.length_append, ih, Memory.length_load, totLen_cons]

/-- A header that was dropped can be taken in again. -/
theorem reclaimHeader_dropHeader {n : ℕ} {q : Pbuf} (h : n ≤ q.len) (qs : List Pbuf) :
    reclaimHeader n (dropHeader n (q :: qs)) = q :: qs := by
  simp [dropHeader, reclaimHeader, h]

/-- Behind the header lies what is left when it is dropped. -/
theorem drop_bytesOf {n : ℕ} {q : Pbuf} (h : n ≤ q.len) (mem : Memory Byte) (qs : List Pbuf) :
    (bytesOf mem (q :: qs)).drop n = bytesOf mem (dropHeader n (q :: qs)) := by
  obtain ⟨k, hk⟩ := Nat.exists_eq_add_of_le h
  rw [dropHeader, if_pos h, bytesOf_cons, bytesOf_cons, hk, Memory.load_add, List.append_assoc,
    List.drop_left' (Memory.length_load ..), Nat.add_sub_cancel_left]

/-! ## Section 2: `mac_tx_packet` -/

/-- The word being filled, and the words pushed into the FIFO so far. -/
structure TxFill where
  word : BitVec 32
  byteIdx : ℕ
  pushed : List (BitVec 32)

/-- One pass of the loop over the bytes of a pbuf. -/
def TxFill.putByte (t : TxFill) (b : Byte) : TxFill :=
  -- lowest byte first
  let word := t.word ||| b.setWidth 32 <<< (t.byteIdx * 8)
  if t.byteIdx = 3 then ⟨0, 0, t.pushed ++ [word]⟩ else ⟨word, t.byteIdx + 1, t.pushed⟩

/-- One pass of the loop over the chain. -/
def TxFill.putPbuf (mem : Memory Byte) (t : TxFill) (q : Pbuf) : TxFill :=
  (mem.load q.payload q.len).foldl TxFill.putByte t

/-- The words of the packet and, if it does not end with a whole word, the tail. -/
def TxFill.finish (t : TxFill) : List (BitVec 32) :=
  if t.byteIdx ≠ 0 then t.pushed ++ [t.word] else t.pushed

def errOk : ℤ := 0

def errArg : ℤ := -16

/-- What `mac_tx_packet` returns, the words it pushed, and the chain it leaves. -/
structure TxResult where
  ret : ℤ
  pushed : List (BitVec 32)
  p : List Pbuf

/-- `mac_tx_packet`.  A null pointer is a chain without pbufs. -/
def macTxPacket (netifNull : Bool) (p : List Pbuf) (mem : Memory Byte) : TxResult :=
  if netifNull ∨ p = [] then ⟨errArg, [], p⟩
  else
    -- the padding is not sent, and is taken in again at the end
    let p := dropHeader ethPadSize p
    let bits := BitVec.ofNat 32 (totLen p * 8)
    let t := p.foldl (TxFill.putPbuf mem) ⟨0, 0, []⟩
    ⟨errOk, bits :: t.finish, reclaimHeader ethPadSize p⟩

/-! ## Section 3: `mac_rx` -/

/-- What `mac_rx` works with while it copies a frame. -/
structure Copy where
  /-- How many words were taken out of the FIFO. -/
  pos : ℕ
  /-- The pbufs that `q` has not reached. -/
  next : List Pbuf
  qLeft : ℕ
  payload : ℕ
  byteId : ℕ
  word : BitVec 32
  mem : Memory Byte

/-- `q_left--` on a `uint32_t` -/
def dec32 (n : ℕ) : ℕ := if n = 0 then 2 ^ 32 - 1 else n - 1

/-- The beginning of the loop: go to the next pbuf if the last one is full, if there is
another one. -/
def Copy.enter (c : Copy) : Option Copy :=
  -- a pbuf of length 0 is not passed over: `q_left` goes below zero then
  if c.qLeft = 0 then
    match c.next with
    | [] => none
    | q :: qs => some { c with next := qs, qLeft := q.len, payload := q.payload }
  else some c

/-- Get another word if the last one is used up. -/
def Copy.fetch (rx : ℕ → BitVec 32) (c : Copy) : Copy :=
  if c.byteId = 0 then { c with word := rx c.pos, pos := c.pos + 1 } else c

/-- Store a byte of the word. -/
def Copy.put (c : Copy) : Copy :=
  { c with
    mem := c.mem.store c.payload [c.word.setWidth 8]
    word := c.word >>> 8
    byteId := (c.byteId + 1) % 4
    payload := c.payload + 1
    qLeft := dec32 c.qLeft }

/-- The loop over `bytesLeft` bytes, and how many of them were left when the chain ended. -/
def copyBytes (rx : ℕ → BitVec 32) : ℕ → Copy → Copy × ℕ
  | 0, c => (c, 0)
  | bytesLeft + 1, c =>
    match c.enter with
    | none => (c, bytesLeft + 1)
    | some c => copyBytes rx bytesLeft (c.fetch rx).put

/-- "Empty FIFO": the number of words taken after the loop that discards `bytesLeft` bytes. -/
def drain : ℕ → ℕ → ℕ
  | 0, pos => pos
  | bytesLeft + 1, pos => drain (bytesLeft + 1 - 4) (pos + 1)

/-- What happens to a pbuf. -/
inductive PbufEvent where
  | alloc
  /-- Given to a callback that owns it from then on. -/
  | receive
  /-- `default_netif.input`, and what it returns. -/
  | input (ret : ℤ)
  /-- `udp_sendto`, and what it returns. -/
  | sendto (ret : ℤ)
  | free
  deriving DecidableEq, Repr

/-- What the network stack and the hardware do during one pass of `mac_rx`. -/
structure FrameIo where
  /-- `pbuf_alloc(PBUF_RAW, length, PBUF_POOL)` -/
  pbufAlloc : ℕ → Option (List Pbuf)
  /-- What `default_netif.input` returns. -/
  inputRet : ℤ
  /-- What the stack does to the memory. -/
  stack : Memory Byte → Memory Byte
  /-- How many words a reset of the controller discards. -/
  lost : ℕ

/-- The driver between two passes of the loop of `mac_rx`. -/
structure Rx where
  pos : ℕ
  qLeft : ℕ
  payload : ℕ
  mem : Memory Byte
  /-- The bytes of each packet given to `default_netif.input`, with the padding in front. -/
  delivered : List (List Byte)

/-- The beginning of the copy of a frame into `p`: `q` is null and `byteId` zero. -/
def Rx.start (s : Rx) (p : List Pbuf) : Copy := ⟨s.pos + 1, p, s.qLeft, s.payload, 0, 0, s.mem⟩

/-- `bytes_left` for a frame of `bits` bits -/
def frameBytes (bits : BitVec 32) : ℕ := (bits + 7).toNat / 8

/-- The largest frame `mac_rx` accepts. -/
def maxFrame : ℕ := 2048

/-- One pass of the loop of `mac_rx`, and what happens in it to the pbuf it allocates.  Where
it leaves the loop, the next call starts with `q_left` zero. -/
def rxFrame (rx : ℕ → BitVec 32) (io : FrameIo) (s : Rx) : Rx × List PbufEvent :=
  let bytesLeft := frameBytes (rx s.pos)
  if maxFrame < bytesLeft then
    -- the controller is reset
    ({ s with pos := s.pos + 1 + io.lost, qLeft := 0 }, [])
  else
    match io.pbufAlloc (bytesLeft + ethPadSize) with
    -- no pbuf: the frame is discarded
    | none => ({ s with pos := drain bytesLeft (s.pos + 1), qLeft := 0 }, [])
    | some p =>
      let p := dropHeader ethPadSize p
      let r := copyBytes rx bytesLeft (s.start p)
      let p := reclaimHeader ethPadSize p
      if r.2 = 0 then
        -- freed here whatever `input` returns
        (⟨r.1.pos, r.1.qLeft, r.1.payload, io.stack r.1.mem, s.delivered ++ [bytesOf r.1.mem p]⟩,
          [.alloc, .input io.inputRet, .free])
      else
        -- not enough space in the chain
        (⟨drain r.2 r.1.pos, r.1.qLeft, r.1.payload, r.1.mem, s.delivered⟩, [.alloc, .free])

inductive RxEvent where
  /-- A word is pending, so the loop of `mac_rx` is run. -/
  | frame (io : FrameIo)
  /-- No word is pending, so `mac_rx` returns, and is called again some time. -/
  | leave

/-- What any sequence of calls of `mac_rx` does. -/
def rxStep (rx : ℕ → BitVec 32) (s : Rx) : RxEvent → Rx
  | .frame io => (rxFrame rx io s).1
  | .leave => { s with qLeft := 0 }

end Karnix.Mac
