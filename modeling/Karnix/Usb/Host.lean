import Karnix.Library.Bytes
import Karnix.Usb.Senders

/-!
# USB requests of the driver

`usb10_in_request` and `usb10_out_request` of `usb10.c`, and the table of data PIDs they keep
for every endpoint.  What the controller, the wires and the device do is a parameter: a `Bus`
answers each command that the driver writes.

The driver polls the status register a bounded number of times; a bus answers at once, with
what the driver has seen when it stops polling.
-/

namespace Karnix.Usb

open Karnix.Library

/-! ## Section 1: PIDs -/

/-- `USB10_PID_DATA0`, `USB10_PID_DATA1`, `USB10_PID_ACK`, `USB10_PID_NAK`, `USB10_PID_STALL` -/
def pidData0 : Byte := 0b11000011
def pidData1 : Byte := 0b01001011
def pidAck : Byte := 0b11010010
def pidNak : Byte := 0b01011010
def pidStall : Byte := 0b00011110

/-- An element of `usb10_last_data_pid`. -/
structure LastDataPid where
  sent : Byte
  recv : Byte
  deriving DecidableEq, Repr

/-- `usb10_last_data_pid`, by address and endpoint. -/
abbrev LastDataPids := ℕ → ℕ → LastDataPid

/-- `MAX_ADDRESSES` and `MAX_ENDPOINTS` -/
def maxAddresses : ℕ := 4
def maxEndpoints : ℕ := 4

/-- `USB10_LOW_SPEED_DATA_SIZE`: the bytes of a packet at most. -/
def lowSpeedDataSize : ℕ := 8

/-- The table with the entry of one endpoint replaced. -/
def LastDataPids.set (pids : LastDataPids) (addr endp : ℕ) (last : LastDataPid) : LastDataPids :=
  fun a e => if a = addr ∧ e = endp then last else pids a e

@[simp] theorem LastDataPids.set_self (pids : LastDataPids) (addr endp : ℕ) (last : LastDataPid) :
    pids.set addr endp last addr endp = last := if_pos ⟨rfl, rfl⟩

theorem LastDataPids.set_of_ne (pids : LastDataPids) {a e addr endp : ℕ} (last : LastDataPid)
    (h : ¬ (a = addr ∧ e = endp)) : pids.set a e last addr endp = pids addr endp :=
  if_neg fun heq => h ⟨heq.1.symm, heq.2.symm⟩

/-- What a successful `usb10_bus_reset` leaves in the table. -/
def usb10BusReset (pids : LastDataPids) : LastDataPids := fun addr endp =>
  if addr < maxAddresses ∧ endp < maxEndpoints then ⟨pidData1, pidData0⟩ else pids addr endp

/-- The number of data packets for a buffer of this size; an empty buffer takes one, too. -/
def numOfDataPackets (size : ℕ) : ℕ :=
  if size = 0 then 1
  else if size % lowSpeedDataSize ≠ 0 then size / lowSpeedDataSize + 1
  else size / lowSpeedDataSize

/-! ## Section 2: The bus -/

/-- A received packet, as the registers of the receiver show it. -/
structure RxPacket where
  pid : Byte
  /-- The number of bits received, with PID and check-sum. -/
  len : Byte
  crc16Ok : Bool
  low : BitVec 32
  high : BitVec 32
  deriving DecidableEq, Repr

/-- What is behind the registers of the controller, with states `W`. -/
structure Bus (W : Type) where
  /-- Whether the controller stops being busy before a request. -/
  free : W → Bool
  /-- An IN token: the packet received before the driver gives up, if there is one. -/
  tokenIn : ℕ → ℕ → W → Option RxPacket × W
  /-- An ACK: whether the command completes. -/
  sendAck : W → Bool × W
  /-- An OUT token: whether the command completes. -/
  tokenOut : ℕ → ℕ → W → Bool × W
  /-- A data packet: whether the command completes. -/
  sendData : DataPacket → W → Bool × W
  /-- The PID received before the driver gives up, if there is one. -/
  answer : W → Option Byte × W

variable {W : Type}

/-! ## Section 3: `usb10_in_request` -/

/-- How an attempt ends: `goto again` while retries are left, `goto fail`, or with a result. -/
inductive Attempt (α : Type) where
  | again (ret : ℤ)
  | fail (ret : ℤ)
  | done (a : α)
  deriving DecidableEq

/-- The result of an attempt that is not repeated. -/
def Attempt.toExcept {α : Type} : Attempt α → Except ℤ α
  | .again ret => .error ret
  | .fail ret => .error ret
  | .done a => .ok a

/-- From the label `again_data` on, up to the point where the packet is taken. -/
def inAttempt (bus : Bus W) (addr endp : ℕ) (recv : Byte) (w : W) : Attempt RxPacket × W :=
  match bus.tokenIn addr endp w with
  | (none, w) => (.again (-6), w)
  | (some p, w) =>
    if p.pid = pidNak then (.fail (-8), w)
    else if p.pid = pidStall then (.fail (-12), w)
    else if !p.crc16Ok then (.again (-10), w)
    else
      -- the ACK goes out before the packet is looked at
      match bus.sendAck w with
      | (false, w) => (.fail (-7), w)
      | (true, w) =>
        if p.pid ≠ pidData0 ∧ p.pid ≠ pidData1 then (.again (-9), w)
        else if p.pid = recv then (.again (-10), w)
        else (.done p, w)

theorem inAttempt_none {bus : Bus W} {addr endp : ℕ} {recv : Byte} {w w' : W}
    (h : bus.tokenIn addr endp w = (none, w')) :
    inAttempt bus addr endp recv w = (.again (-6), w') := by
  simp only [inAttempt, h]

/-- A packet with a wrong check-sum is neither acknowledged nor taken. -/
theorem inAttempt_garbled {bus : Bus W} {addr endp : ℕ} (recv : Byte) {w w' : W} {p : RxPacket}
    (h : bus.tokenIn addr endp w = (some p, w')) (hcrc : p.crc16Ok = false) :
    inAttempt bus addr endp recv w = (.fail (-8), w') ∨
      inAttempt bus addr endp recv w = (.fail (-12), w') ∨
      inAttempt bus addr endp recv w = (.again (-10), w') := by
  simp only [inAttempt, h, hcrc]
  split_ifs
  · exact Or.inl rfl
  · exact Or.inr (Or.inl rfl)
  · exact Or.inr (Or.inr rfl)
  · exact absurd rfl ‹¬ (!false) = true›
  · exact absurd rfl ‹¬ (!false) = true›
  · exact absurd rfl ‹¬ (!false) = true›

/-- A data packet is acknowledged, and then taken unless its PID is the one taken last. -/
theorem inAttempt_data {bus : Bus W} {addr endp : ℕ} {recv : Byte} {w w₁ w₂ : W} {p : RxPacket}
    (h : bus.tokenIn addr endp w = (some p, w₁)) (hpid : p.pid = pidData0 ∨ p.pid = pidData1)
    (hcrc : p.crc16Ok = true) (hack : bus.sendAck w₁ = (true, w₂)) :
    inAttempt bus addr endp recv w =
      if p.pid = recv then (.again (-10), w₂) else (.done p, w₂) := by
  have hnak : p.pid ≠ pidNak := by
    rcases hpid with h | h <;> rw [h] <;> exact by decide
  have hstall : p.pid ≠ pidStall := by
    rcases hpid with h | h <;> rw [h] <;> exact by decide
  have hdata : ¬ (p.pid ≠ pidData0 ∧ p.pid ≠ pidData1) := fun hne => hpid.elim hne.1 hne.2
  simp only [inAttempt, h, hcrc, hack]
  rw [if_neg hnak, if_neg hstall, if_neg (by simp), if_neg hdata]

/-- An attempt repeated as long as it asks for it, `retry` times at most. -/
def attempts {α : Type} (attempt : W → Attempt α × W) : ℕ → W → Except ℤ α × W
  | retry, w =>
    match attempt w with
    | (.done a, w) => (.ok a, w)
    | (.fail ret, w) => (.error ret, w)
    | (.again ret, w) =>
      match retry with
      | 0 => (.error ret, w)
      | retry + 1 => attempts attempt retry w

/-- **Repetition rule.**  What an attempt does, and what an attempt without a result leaves
possible, all of them together do. -/
theorem attempts_rule {α : Type} {attempt : W → Attempt α × W} {P : W → Except ℤ α → W → Prop}
    (hstep : ∀ w, P w (attempt w).1.toExcept (attempt w).2)
    (htrans : ∀ w w₁ w₂ ret a, P w (.error ret) w₁ → P w₁ a w₂ → P w a w₂) (retry : ℕ) (w : W) :
    P w (attempts attempt retry w).1 (attempts attempt retry w).2 := by
  induction retry generalizing w with
  | zero =>
    have h := hstep w
    unfold attempts
    cases hrun : attempt w with
    | mk a w₁ =>
      rw [hrun] at h
      cases a with
      | again ret => exact h
      | fail ret => exact h
      | done a => exact h
  | succ retry ih =>
    have h := hstep w
    unfold attempts
    cases hrun : attempt w with
    | mk a w₁ =>
      rw [hrun] at h
      cases a with
      | again ret => exact htrans w w₁ _ ret _ h (ih w₁)
      | fail ret => exact h
      | done a => exact h

/-- The variables of `usb10_in_request`. -/
structure InState (W : Type) where
  bus : W
  recv : Byte
  /-- `response_data`, unless it is `NULL`. -/
  response : Option (Memory Byte)
  bytesReceived : BitVec 32

/-- `packet_size_bits` of packet `i`. -/
def inPacketSizeBits (size i : ℕ) : ℕ :=
  if (i + 1) * lowSpeedDataSize ≤ size then lowSpeedDataSize * 8 + 8 + 16
  else size % lowSpeedDataSize * 8 + 8 + 16

/-- The eight bytes of `RECV_DATA_LOW` and `RECV_DATA_HIGH`. -/
def RxPacket.bytes (p : RxPacket) : List Byte := leBytes32 p.low ++ leBytes32 p.high

/-- `(USB10_RX_STATUS_LEN(rx_status) - 8 - 16) / 8` -/
def RxPacket.byteCount (p : RxPacket) : BitVec 32 := (p.len.setWidth 32 - 8 - 16) / 8

/-- Packet `i` is taken. -/
def InState.take (s : InState W) (size i : ℕ) (p : RxPacket) (w : W) : InState W :=
  { bus := w
    recv := p.pid
    response := if size = 0 then s.response else s.response.map fun m => m.store (i * 8) p.bytes
    bytesReceived := s.bytesReceived + p.byteCount }

/-- The loop of `usb10_in_request`, for `k` packets from packet `i` on. -/
def inPackets (bus : Bus W) (addr endp size : ℕ) : ℕ → ℕ → InState W → ℤ × InState W
  | 0, _, s => (s.bytesReceived.toInt, s)
  | k + 1, i, s =>
    match attempts (inAttempt bus addr endp s.recv) 8 s.bus with
    | (.error ret, w) => (ret, { s with bus := w })
    | (.ok p, w) =>
      let s := s.take size i p w
      if p.len.toNat ≠ inPacketSizeBits size i then (s.bytesReceived.toInt, s)
      else inPackets bus addr endp size k (i + 1) s

/-- What a request returns and leaves behind. -/
structure InResult (W : Type) where
  ret : ℤ
  response : Option (Memory Byte)
  pids : LastDataPids
  bus : W

/-- `usb10_in_request`: packets are asked for until there is enough or one is short. -/
def usb10InRequest (bus : Bus W) (pids : LastDataPids) (addr endp : ℕ)
    (response : Option (Memory Byte)) (size : ℕ) (w : W) : InResult W :=
  if addr ≥ maxAddresses ∨ endp ≥ maxEndpoints then ⟨-999, response, pids, w⟩
  else if !bus.free w then ⟨-1, response, pids, w⟩
  else
    let r := inPackets bus addr endp size (numOfDataPackets size) 0
      ⟨w, (pids addr endp).recv, response, 0⟩
    ⟨r.1, r.2.response, pids.set addr endp { pids addr endp with recv := r.2.recv }, r.2.bus⟩

/-! ## Section 4: `usb10_out_request` -/

/-- What the driver makes of the PID received after a data packet. -/
def outVerdict : Option Byte → Attempt Unit
  | none => .again (-6)
  | some pid =>
    if pid = pidNak then .fail (-8)
    else if pid ≠ pidAck then
      if pid = pidStall then .fail (-9) else .again (-9)
    else .done ()

/-- From the label `again_out` on, up to the point where the packet is acknowledged. -/
def outAttempt (bus : Bus W) (addr endp : ℕ) (packet : DataPacket) (w : W) : Attempt Unit × W :=
  match bus.tokenOut addr endp w with
  | (false, w) => (.fail (-2), w)
  | (true, w) =>
    match bus.sendData packet w with
    | (false, w) => (.fail (-3), w)
    | (true, w) =>
      match bus.answer w with
      | (pid, w) => (outVerdict pid, w)

theorem outVerdict_cases (pid : Option Byte) :
    ((outVerdict pid).toExcept = .ok () ∧ pid = some pidAck) ∨
      ∃ ret, (outVerdict pid).toExcept = .error ret ∧ ret ≠ 0 ∧ pid ≠ some pidAck := by
  cases pid with
  | none => exact Or.inr ⟨-6, rfl, by decide, fun h => nomatch h⟩
  | some pid =>
    simp only [outVerdict]
    split_ifs with hnak hother hstall
    · refine Or.inr ⟨-8, rfl, by decide, ?_⟩
      rw [hnak]
      exact by decide
    · exact Or.inr ⟨-9, rfl, by decide, fun h => hother (Option.some.inj h)⟩
    · exact Or.inr ⟨-9, rfl, by decide, fun h => hother (Option.some.inj h)⟩
    · exact Or.inl ⟨rfl, congrArg some (not_not.mp hother)⟩

theorem outAttempt_hung {bus : Bus W} {addr endp : ℕ} {packet : DataPacket} {w w' : W}
    (h : bus.tokenOut addr endp w = (false, w')) :
    outAttempt bus addr endp packet w = (.fail (-2), w') := by
  simp only [outAttempt, h]

theorem outAttempt_dataHung {bus : Bus W} {addr endp : ℕ} {packet : DataPacket} {w w₁ w₂ : W}
    (h : bus.tokenOut addr endp w = (true, w₁)) (hdata : bus.sendData packet w₁ = (false, w₂)) :
    outAttempt bus addr endp packet w = (.fail (-3), w₂) := by
  simp only [outAttempt, h, hdata]

theorem outAttempt_answered {bus : Bus W} {addr endp : ℕ} {packet : DataPacket} {w w₁ w₂ : W}
    (h : bus.tokenOut addr endp w = (true, w₁)) (hdata : bus.sendData packet w₁ = (true, w₂)) :
    outAttempt bus addr endp packet w = (outVerdict (bus.answer w₂).1, (bus.answer w₂).2) := by
  simp only [outAttempt, h, hdata]

/-- `packet_size_bits` of packet `i`; it is -1 for an empty packet. -/
def outPacketSizeBits (size i : ℕ) : ℤ :=
  if (i + 1) * lowSpeedDataSize ≤ size then lowSpeedDataSize * 8 - 1
  else (size % lowSpeedDataSize * 8 : ℕ) - 1

/-- `data_pid`, after the PID sent last. -/
def nextDataPid (sent : Byte) : Byte := if sent = pidData0 then pidData1 else pidData0

/-- The word at address `a` of a buffer. -/
def loadWord (m : Memory Byte) (a : ℕ) : BitVec 32 := leWord (m.load a 4)

/-- The registers `SEND_DATA_LOW` and `SEND_DATA_HIGH` as packet `i` of a request leaves them:
`request_data` has the same address for every packet. -/
def sendDataRegs (request : Option (Memory Byte)) (size : ℕ) (regs : BitVec 64) : BitVec 64 :=
  match request with
  | some m => if size ≠ 0 then loadWord m 4 ++ loadWord m 0 else regs
  | none => regs

/-- The packet the controller makes of its registers and the command for packet `i`.  It uses
the lower seven bits of the length. -/
def outPacket (request : Option (Memory Byte)) (size i : ℕ) (regs : BitVec 64) (dataPid : Byte) :
    DataPacket :=
  ⟨dataPid.setWidth 4, sendDataRegs request size regs, BitVec.ofInt 7 (outPacketSizeBits size i)⟩

/-- The loop of `usb10_out_request`, for `k` packets from packet `i` on: the value returned, the
PID sent last, and the bus. -/
def outPackets (bus : Bus W) (addr endp : ℕ) (request : Option (Memory Byte)) (size : ℕ)
    (regs : BitVec 64) : ℕ → ℕ → Byte → W → ℤ × Byte × W
  | 0, _, sent, w => (0, sent, w)
  | k + 1, i, sent, w =>
    let dataPid := nextDataPid sent
    match attempts (outAttempt bus addr endp (outPacket request size i regs dataPid)) 8 w with
    | (.error ret, w) => (ret, sent, w)
    | (.ok (), w) => outPackets bus addr endp request size regs k (i + 1) dataPid w

/-- What a request returns and leaves behind. -/
structure OutResult (W : Type) where
  ret : ℤ
  pids : LastDataPids
  bus : W

/-- `usb10_out_request`; `regs` is what the data registers of the controller contain before. -/
def usb10OutRequest (bus : Bus W) (pids : LastDataPids) (addr endp : ℕ)
    (request : Option (Memory Byte)) (size : ℕ) (regs : BitVec 64) (w : W) : OutResult W :=
  if addr ≥ maxAddresses ∨ endp ≥ maxEndpoints then ⟨-999, pids, w⟩
  else if !bus.free w then ⟨-1, pids, w⟩
  else
    let r := outPackets bus addr endp request size regs (numOfDataPackets size) 0
      (pids addr endp).sent w
    ⟨r.1, pids.set addr endp { pids addr endp with sent := r.2.1 }, r.2.2⟩

end Karnix.Usb
