import Karnix.Modbus.Recv

/-!
# Modbus over RTU and UDP: what reaches the wire

`modbus_rtu_poll` of `modbus_rtu.c`, from the point on where it has decided that a frame is
complete, and `modbus_udp_recv` and `modbus_udp_send` of `modbus_udp.c`.

Both keep the `int` returned by `modbus_recv` in an unsigned `tx_len`.  The frames that
`modbus_recv` answers with -1 therefore count as replies of 4294967295 bytes.
-/

namespace Karnix.Modbus

open Karnix.Library
open Karnix.Config

variable {b : Build}

/-! ## Section 1: The callers of `modbus_recv` -/

/-- What the network stack does during one call of `modbus_udp_recv`. -/
structure Net where
  /-- Whether `pbuf_alloc` finds memory for a pbuf of this length.  The pbuf then has one
  segment of exactly that length. -/
  pbufAlloc : BitVec 16 → Bool
  /-- Whether `udp_sendto` returns `ERR_OK`. -/
  sendOk : Bool

/-- How a frame reaches the device. -/
inductive Transport where
  | rtu
  | udp (net : Net)

/-- The local buffers of the caller before anything is written to them. -/
structure Locals where
  rxBuf : Memory Byte
  txBuf : Memory Byte

/-- How handling a frame ends. -/
inductive Outcome (b : Build) where
  /-- The bytes put on the wire, what `modbus_recv` wrote to the transmit buffer, and the
  state afterwards. -/
  | done (wire : List Byte) (tx : Option (Memory Byte)) (soc : Soc b)
  /-- Memory outside the program's objects was overwritten. -/
  | fault

/-- The tail of `modbus_rtu_poll`, for the bytes received since the last frame. -/
def modbusRtuPoll (io : RequestIo) (soc : Soc b) (loc : Locals) (frame : List Byte) : Outcome b :=
  if frame.length > 0 then
    let rx : Frame := ⟨loc.rxBuf.store 0 (frame.take 128), frame.length⟩
    let r := modbusRecv io soc rx loc.txBuf
    let txLen := BitVec.ofInt 32 r.ret
    .done (if txLen.toNat > 0 then (r.tx.getD loc.txBuf).load 0 txLen.toNat else []) r.tx r.soc
  else .done [] none soc

/-- `modbus_udp_send`: the payload sent, or `none` where the copy runs over the end of the
pbuf.  The payload ends with a zero byte. -/
def modbusUdpSend (net : Net) (buf : Memory Byte) (bufLen : BitVec 32) : Option (List Byte) :=
  -- `u16_t len = buf_len + 1`
  let len : BitVec 16 := (bufLen + 1).setWidth 16
  if !net.pbufAlloc len then some []
  else if len.setWidth 32 < bufLen + 1 then some []
  else if len.toNat < bufLen.toNat then none
  else some (if net.sendOk then buf.load 0 bufLen.toNat ++ [0] else [])

/-- `modbus_udp_recv`.  `frame` is the payload of the pbuf received. -/
def modbusUdpRecv (net : Net) (io : RequestIo) (soc : Soc b) (loc : Locals) (frame : List Byte) :
    Outcome b :=
  let rx : Frame := ⟨loc.rxBuf.store 0 frame, frame.length⟩
  let r := modbusRecv io soc rx loc.txBuf
  let txLen := BitVec.ofInt 32 r.ret
  if txLen.toNat > 0 then
    match modbusUdpSend net (r.tx.getD loc.txBuf) txLen with
    | some wire => .done wire r.tx r.soc
    | none => .fault
  else .done [] r.tx r.soc

/-- The frame as `modbus_recv` gets to see it. -/
def Transport.frame (t : Transport) (loc : Locals) (frame : List Byte) : Frame :=
  match t with
  | .rtu => ⟨loc.rxBuf.store 0 (frame.take 128), frame.length⟩
  | .udp _ => ⟨loc.rxBuf.store 0 frame, frame.length⟩

/-- Handle the bytes of a frame. -/
def Transport.deliver (t : Transport) (io : RequestIo) (soc : Soc b) (loc : Locals)
    (frame : List Byte) : Outcome b :=
  match t with
  | .rtu => modbusRtuPoll io soc loc frame
  | .udp net => modbusUdpRecv net io soc loc frame

/-- A rejected frame has no effect, and whatever is put on the wire is the beginning of the
transmit buffer as `modbus_recv` filled it. -/
def Outcome.Safe (soc : Soc b) (rejected : Prop) : Outcome b → Prop
  | .done wire tx soc' =>
    (rejected → wire = [] ∧ soc' = soc) ∧ wire.length ≤ modbusTxBufSize ∧
      wire <+: (tx.elim [] fun m => m.load 0 modbusTxBufSize)
  | .fault => False

/-! ## Section 2: Replies fit into the transmit buffer -/

/-- All of the transmit buffer from index `n` on is zero. -/
def ZeroFrom (n : ℕ) (tx : Memory Byte) : Prop := ∀ k, n ≤ k → k < modbusTxBufSize → tx k = 0

theorem ZeroFrom.store {n a : ℕ} {tx : Memory Byte} (h : ZeroFrom n tx) {xs : List Byte}
    (hfit : a + xs.length ≤ n) : ZeroFrom n (tx.store a xs) := by
  intro k hk hlt
  rw [Memory.store_of_ge tx xs (by omega)]
  exact h k hk hlt

theorem ZeroFrom.mono {n n' : ℕ} {tx : Memory Byte} (h : ZeroFrom n tx) (hle : n ≤ n') :
    ZeroFrom n' tx := fun k hk hlt => h k (by omega) hlt

theorem ZeroFrom.addCrc {n : ℕ} {tx : Memory Byte} (h : ZeroFrom n tx) :
    ZeroFrom (n + 2) (addCrc tx n) :=
  (h.mono (by omega)).store (by simp)

theorem zeroFrom_txStart (soc : Soc b) (rx : Frame) (tx : Memory Byte) :
    ZeroFrom 2 (txStart soc rx tx) := by
  refine ZeroFrom.store ?_ (by simp)
  intro k _ hlt
  exact Memory.fill_of_mem tx 0 (Nat.zero_le k) (by omega)

/-- A reply is shorter than the transmit buffer, and nothing lies behind it. -/
def Reply.Fits (r : Reply) : Prop := r.len < modbusTxBufSize ∧ ZeroFrom r.len r.tx

theorem fits_modbusError (soc : Soc b) (f errCode : Byte) {tx : Memory Byte}
    (h : ZeroFrom 2 tx) : (modbusError soc f errCode tx).Fits := by
  refine ⟨show 3 + 2 < 128 by decide, ZeroFrom.addCrc ?_⟩
  exact (h.mono (by omega)).store (by simp)

theorem fits_idReply {tx : Memory Byte} (h : ZeroFrom 2 tx) : (idReply b tx).Fits := by
  have hlen := length_idText_le b
  refine ⟨by simp only [idReply, modbusTxBufSize]; omega, ?_⟩
  -- the zero byte `sprintf` writes behind the text is overwritten by the check-sum
  intro k hk hlt
  simp only [idReply, Config.addCrc] at hk ⊢
  rw [Memory.store_of_ge _ _ (by simp; omega), Memory.store_of_ge _ _ (by simp; omega),
    Memory.store_of_ge _ _ (by simp; omega)]
  exact h k (by omega) hlt

theorem length_memcpyRev (m : Memory Byte) (src count : ℕ) :
    (memcpyRev m src count).length = count := by
  simp [memcpyRev]

theorem length_readMember_le {p : Parts} (config : Config p) (f : Field) (off len : ℕ) :
    (readMember config f off len).length ≤ len := by
  unfold readMember
  cases place? p f with
  | none => exact Nat.zero_le _
  | some m => simp

/-- The bytes of a register fit into the data field its reply announces. -/
theorem readReg_fits {io : RequestIo} {soc : Soc b} {reg : Option Reg} {r : ReadReply}
    (h : readReg io soc reg = some r) : r.pos + r.bytes.length ≤ r.len + 3 ∧ r.len ≤ 6 := by
  have hword : ∀ w, (readWordReg w).pos + (readWordReg w).bytes.length ≤ (readWordReg w).len + 3 ∧
      (readWordReg w).len ≤ 6 := by
    intro w
    simp [readWordReg, length_memcpyRev]
  have hmember : ∀ {f off len pos n}, pos + len ≤ n + 3 → n ≤ 6 →
      (⟨pos, readMember (configLoadOrDefault b.parts io.load soc.eeprom) f off len, n⟩ :
        ReadReply) = r → r.pos + r.bytes.length ≤ r.len + 3 ∧ r.len ≤ 6 := by
    rintro f off len pos n hfit hn rfl
    have := length_readMember_le (configLoadOrDefault b.parts io.load soc.eeprom) f off len
    exact ⟨by simp only; omega, hn⟩
  rcases reg with _ | reg
  · simp [readReg] at h
  · cases reg <;> simp only [readReg, Option.some.injEq, reduceCtorEq] at h <;>
      first
        | (subst h; exact hword _)
        | exact hmember (by decide) (by decide) h
        | (split_ifs at h; exact hmember (by decide) (by decide) (Option.some.inj h))

theorem fits_readReply (io : RequestIo) (soc : Soc b) (rx : Frame) {tx : Memory Byte}
    (h : ZeroFrom 2 tx) : (readReply io soc rx tx).Fits := by
  unfold readReply
  split_ifs with hqty
  · exact fits_modbusError soc _ _ h
  · cases hreg : readReg io soc (Reg.ofAddr? rx.regAddr) with
    | none =>
      have herr := fits_modbusError soc rx.func errAddrNotAvailable h
      refine ⟨show 5 + 3 + 2 < 128 by decide, ZeroFrom.addCrc ?_⟩
      exact (herr.2.mono (show 5 ≤ 5 + 3 by decide)).store (show 2 + 1 ≤ 5 + 3 by decide)
    | some r =>
      obtain ⟨hfit, hlen⟩ := readReg_fits hreg
      refine ⟨by simp only [modbusTxBufSize]; omega, ZeroFrom.addCrc ?_⟩
      exact ((h.mono (by omega)).store hfit).store (by simp)

theorem fits_writeReply (rx : Frame) (st : Stored b) (hret : st.ret ≤ 4) {tx : Memory Byte}
    (h : ZeroFrom 2 tx) : (writeReply rx st tx).Fits := by
  unfold writeReply
  split_ifs with hneg hsys
  · exact fits_modbusError st.soc _ _ h
  · exact fits_modbusError st.soc _ _ h
  · refine ⟨by simp only [modbusTxBufSize]; omega, ZeroFrom.addCrc ?_⟩
    exact ((h.mono (by omega)).store (by simp)).store (by simp)

/-- Every reply of `modbus_recv` fits into the transmit buffer. -/
theorem fits_accept (io : RequestIo) (soc : Soc b) (rx : Frame) (tx : Memory Byte) :
    (accept io soc rx tx).1.Fits := by
  have hstart := zeroFrom_txStart soc rx tx
  unfold accept
  split
  · exact fits_idReply hstart
  · exact fits_readReply io soc rx hstart
  · exact fits_readReply io soc rx hstart
  · exact fits_readReply io soc rx hstart
  · exact fits_writeReply rx _ (modbusStoreReg_ret_le ..) hstart
  · exact fits_writeReply rx _ (modbusStoreReg_ret_le ..) hstart
  · exact fits_writeReply rx _ (modbusStoreReg_ret_le ..) hstart
  · exact fits_writeReply rx _ (modbusStoreReg_ret_le ..) hstart
  · exact fits_modbusError soc _ _ hstart

/-! ## Section 3: From the reply to the wire -/

/-- A short frame is answered with -1, which the callers take for a length. -/
theorem toNat_ofInt_neg_one : (BitVec.ofInt 32 (-1)).toNat = 4294967295 := by decide

theorem toNat_ofInt_len {n : ℕ} (h : n < modbusTxBufSize) :
    (BitVec.ofInt 32 (n : ℤ)).toNat = n := by
  have hlt : n < 2 ^ 32 := h.trans (by decide)
  rw [BitVec.ofInt_natCast, BitVec.toNat_ofNat, Nat.mod_eq_of_lt hlt]

theorem prefix_txBuf {tx : Memory Byte} {n : ℕ} (h : n ≤ modbusTxBufSize) :
    tx.load 0 n <+: tx.load 0 modbusTxBufSize := by
  rw [← Memory.take_load tx 0 modbusTxBufSize n h]
  exact List.take_prefix _ _

/-- The zero byte `modbus_udp_send` adds is the one that follows the reply in the cleared
transmit buffer. -/
theorem Reply.Fits.load_succ {r : Reply} (h : r.Fits) :
    r.tx.load 0 r.len ++ [0] = r.tx.load 0 (r.len + 1) := by
  rw [Memory.load_add]
  have hzero := h.2 r.len (le_refl _) h.1
  simp [Memory.load, hzero]

/-- What `modbus_udp_send` sends of a reply is the beginning of the transmit buffer. -/
theorem modbusUdpSend_reply (net : Net) {r : Reply} (h : r.Fits) :
    ∃ wire, modbusUdpSend net r.tx (BitVec.ofInt 32 (r.len : ℤ)) = some wire ∧
      wire.length ≤ modbusTxBufSize ∧ wire <+: r.tx.load 0 modbusTxBufSize := by
  have hnil : ([] : List Byte) <+: r.tx.load 0 modbusTxBufSize := List.nil_prefix
  have hlen := toNat_ofInt_len h.1
  have hsmall : r.len < 128 := h.1
  -- a reply is far too short for the 16-bit length to wrap
  have hwant : ((BitVec.ofInt 32 (r.len : ℤ) + 1).setWidth 16).toNat = r.len + 1 := by
    rw [BitVec.toNat_setWidth, BitVec.toNat_add, hlen]
    simp only [BitVec.ofNat_eq_ofNat, BitVec.toNat_ofNat]
    omega
  unfold modbusUdpSend
  simp only [hlen, hwant]
  split_ifs with halloc hshort hover hsend
  · exact ⟨[], rfl, by simp, hnil⟩
  · exact ⟨[], rfl, by simp, hnil⟩
  · omega
  · refine ⟨_, rfl, ?_⟩
    rw [h.load_succ]
    have hfit : r.len + 1 ≤ modbusTxBufSize := hsmall
    exact ⟨by simpa using hfit, prefix_txBuf hfit⟩
  · exact ⟨[], rfl, by simp, hnil⟩

/-- A frame of at least five bytes is handled safely, over either transport. -/
theorem deliver_safe_of_long (t : Transport) (io : RequestIo) (soc : Soc b) (loc : Locals)
    {frame : List Byte} (hlong : 5 ≤ frame.length) :
    (t.deliver io soc loc frame).Safe soc (¬ soc.Accepts (t.frame loc frame)) := by
  have hlen : (t.frame loc frame).len = frame.length := by cases t <;> rfl
  by_cases hacc : soc.Accepts (t.frame loc frame)
  · -- the reply fits into the buffer
    have hrecv := modbusRecv_of_accepts hacc io loc.txBuf
    have hfits := fits_accept io soc (t.frame loc frame) loc.txBuf
    cases t with
    | rtu =>
      simp only [Transport.frame] at hrecv hfits hacc
      simp only [Transport.deliver, modbusRtuPoll, Transport.frame]
      rw [if_pos (by omega), hrecv]
      simp only [toNat_ofInt_len hfits.1, Option.getD_some]
      refine ⟨fun h => absurd hacc h, ?_⟩
      split_ifs
      · exact ⟨by simpa using hfits.1.le, prefix_txBuf hfits.1.le⟩
      · exact ⟨by simp, List.nil_prefix⟩
    | udp net =>
      simp only [Transport.frame] at hrecv hfits hacc
      simp only [Transport.deliver, modbusUdpRecv, Transport.frame]
      rw [hrecv]
      obtain ⟨wire, hsend, hwire⟩ := modbusUdpSend_reply net hfits
      simp only [hsend, Option.getD_some]
      split_ifs
      · exact ⟨fun h => absurd hacc h, hwire⟩
      · exact ⟨fun h => absurd hacc h, by simp, List.nil_prefix⟩
  · -- the frame is rejected with length zero
    have hrecv := modbusRecv_of_not_accepts hacc io loc.txBuf
    rw [if_neg (by omega)] at hrecv
    cases t with
    | rtu =>
      simp only [Transport.frame] at hrecv
      simp only [Transport.deliver, modbusRtuPoll]
      rw [if_pos (by omega), hrecv]
      simp [Outcome.Safe]
    | udp net =>
      simp only [Transport.frame] at hrecv
      simp only [Transport.deliver, modbusUdpRecv]
      rw [hrecv]
      simp [Outcome.Safe]

/-- A frame of one to four bytes makes `modbus_rtu_poll` send 4294967295 bytes. -/
theorem modbusRtuPoll_short (io : RequestIo) (soc : Soc b) (loc : Locals) {frame : List Byte}
    (hpos : frame ≠ []) (hshort : frame.length < 5) :
    modbusRtuPoll io soc loc frame = .done (loc.txBuf.load 0 4294967295) none soc := by
  have hlen : frame.length > 0 := List.length_pos_of_ne_nil hpos
  simp only [modbusRtuPoll, modbusRecv, if_pos hlen, if_pos hshort, toNat_ofInt_neg_one,
    Option.getD_none]
  rw [if_pos (by decide)]

/-- After a frame of less than five bytes `modbus_udp_send` asks for a pbuf of no bytes and,
when it gets one, copies 4294967295 bytes into it. -/
theorem modbusUdpRecv_short (net : Net) (io : RequestIo) (soc : Soc b) (loc : Locals)
    {frame : List Byte} (hshort : frame.length < 5) :
    modbusUdpRecv net io soc loc frame =
      if net.pbufAlloc 0 then .fault else .done [] none soc := by
  have hwant : (BitVec.ofInt 32 (-1) + 1 : BitVec 32) = 0 := by decide
  have hlen : ((0 : BitVec 32).setWidth 16 : BitVec 16) = 0 := by decide
  simp only [modbusUdpRecv, modbusRecv, if_pos hshort, toNat_ofInt_neg_one, modbusUdpSend,
    hwant, hlen]
  rw [if_pos (by decide)]
  cases net.pbufAlloc 0 <;> simp

/-! ## Section 4: When the callers behave -/

/-- The frame has at least the five bytes `modbus_recv` asks for.  Otherwise nothing goes
wrong only if nothing was received over RTU, or if no pbuf can be had. -/
def Transport.Handles (t : Transport) (frame : List Byte) : Prop :=
  5 ≤ frame.length ∨
    match t with
    | .rtu => frame = []
    | .udp net => net.pbufAlloc 0 = false

/-- **Rejected frames are silent, replies fit.**  Over either transport, for any bytes
received in any state: a rejected frame puts nothing on the wire and changes nothing, and
what is sent is a part of what `modbus_recv` wrote to the transmit buffer, if and only if
the frame is not one of the short ones that `modbus_recv` answers with -1. -/
theorem deliver_safe_iff (t : Transport) (io : RequestIo) (soc : Soc b) (loc : Locals)
    (frame : List Byte) :
    (t.deliver io soc loc frame).Safe soc (¬ soc.Accepts (t.frame loc frame)) ↔
      t.Handles frame := by
  -- short frames are where `modbus_recv` returns -1
  rcases Nat.lt_or_ge frame.length 5 with hshort | hlong
  · have hnot : ¬ 5 ≤ frame.length := Nat.not_le.mpr hshort
    cases t with
    | rtu =>
      simp only [Transport.Handles, hnot, false_or, Transport.deliver]
      constructor
      · intro hsafe
        by_contra hne
        rw [modbusRtuPoll_short io soc loc hne hshort] at hsafe
        have hbytes := hsafe.2.1
        simp [modbusTxBufSize] at hbytes
      · rintro rfl
        exact ⟨fun _ => ⟨rfl, rfl⟩, Nat.zero_le _, List.nil_prefix⟩
    | udp net =>
      simp only [Transport.Handles, hnot, false_or, Transport.deliver]
      rw [modbusUdpRecv_short net io soc loc hshort]
      cases net.pbufAlloc 0 with
      | true => simp [Outcome.Safe]
      | false => simp [Outcome.Safe]
  · exact iff_of_true (deliver_safe_of_long t io soc loc hlong) (Or.inl hlong)

/-- The build of `karnix_monitor`, with an empty font. -/
def monitorBuild : Build where
  hasMac := true
  hasHub := false
  hasCgaGraphics := false
  buildNumber := 1
  buildNumber_lt := by decide
  date := ascii "Jan  1 2025"
  length_date := by decide
  font6x8 := fun _ => 0
  font12x16 := fun _ => 0

/-- The state after power-up with an empty EEPROM. -/
def powerUp (b : Build) : Soc b where
  activeConfig := defaultConfig b.parts
  eeprom := fun _ => 0xff

/-- A bus on which every transfer is acknowledged, and a DAC without interrupt. -/
def quietIo : RequestIo where
  load := fun _ _ => .ack
  save := { page := fun _ => ⟨fun _ => .ack, fun _ => false⟩, poll := fun _ _ => .ack }
  dac := none

/-- The frame with the given bytes and their check-sum. -/
def frameOf (bytes : List Byte) : Frame where
  buf := addCrc (Memory.store (fun _ => 0) 0 bytes) bytes.length
  len := bytes.length + 2

/-- A write of one register, function 6, to the device with address 1. -/
def writeFrame (r : Reg) (v : List Byte) : Frame :=
  frameOf ([1, 6, 0, r.addr.setWidth 8, 0, 1, BitVec.ofNat 8 v.length] ++ v)

/-- A read of one register, function 3, from the device with address 1. -/
def readFrame (r : Reg) : Frame := frameOf [1, 3, 0, r.addr.setWidth 8, 0, 1]

/-- One byte of line noise, received over RTU, is rejected, and yet 4294967295 bytes are
sent, the uninitialised transmit buffer and the stack above it. -/
theorem rtu_noise_floods :
    ∃ wire, Transport.rtu.deliver quietIo (powerUp monitorBuild) ⟨fun _ => 0, fun _ => 0⟩ [0x55]
        = .done wire none (powerUp monitorBuild) ∧
      wire.length = 4294967295 ∧
      ¬ (Transport.rtu.deliver quietIo (powerUp monitorBuild) ⟨fun _ => 0, fun _ => 0⟩ [0x55]).Safe
        (powerUp monitorBuild)
        (¬ (powerUp monitorBuild).Accepts
          (Transport.rtu.frame ⟨fun _ => 0, fun _ => 0⟩ [0x55])) := by
  have hflood : modbusRtuPoll quietIo (powerUp monitorBuild) ⟨fun _ => 0, fun _ => 0⟩ [0x55] = _ :=
    modbusRtuPoll_short _ _ _ (by simp) (by decide)
  refine ⟨_, hflood, Memory.length_load _ _ _, ?_⟩
  intro hsafe
  rw [show Transport.rtu.deliver _ _ _ _ = _ from hflood] at hsafe
  have hbytes := hsafe.2.1
  simp [modbusTxBufSize] at hbytes

end Karnix.Modbus
