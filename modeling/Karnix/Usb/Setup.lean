import Karnix.Usb.Host

/-!
# SETUP requests of the driver

`usb10_setup_request` of `usb10.c`: the SETUP stage, which sends a token and a data packet and
waits for an ACK, three times at most, and the data stage, which takes data packets from the
device as `usb10_in_request` does.

The data packets sent, and the verdicts on those received, are recorded beside the state.
-/

namespace Karnix.Usb

open Karnix.Library

variable {W : Type}

/-! ## Section 1: The SETUP stage -/

/-- A bus that SETUP tokens can be sent on. -/
structure SetupBus (W : Type) extends Bus W where
  /-- A SETUP token: whether the command completes. -/
  tokenSetup : ℕ → ℕ → W → Bool × W

/-- The data packet of a SETUP stage: the eight bytes of the request. -/
def setupPacket (request : Memory Byte) (dataPid : Byte) : DataPacket :=
  ⟨dataPid.setWidth 4, loadWord request 4 ++ loadWord request 0, 63⟩

/-- The variables of the SETUP stage, and the data packets sent in it. -/
structure SetupState (W : Type) where
  bus : W
  pids : LastDataPids
  sent : List DataPacket := []

/-- From the label `again_setup` on, with `retry` repetitions left. -/
def setupStage (bus : SetupBus W) (addr endp : ℕ) (request : Memory Byte) :
    ℕ → SetupState W → Except ℤ Unit × SetupState W
  | retry, s =>
    -- the PID follows the one recorded for endpoint 0
    let dataPid := nextDataPid (s.pids addr 0).sent
    let packet := setupPacket request dataPid
    match bus.tokenSetup addr endp s.bus with
    | (false, w) => (.error (-2), { s with bus := w })
    | (true, w) =>
      match bus.sendData packet w with
      | (false, w) => (.error (-3), { s with bus := w, sent := s.sent ++ [packet] })
      | (true, w) =>
        match bus.answer w with
        | (none, w) =>
          let s := { s with bus := w, sent := s.sent ++ [packet] }
          match retry with
          | 0 => (.error (-4), s)
          | retry + 1 => setupStage bus addr endp request retry s
        | (some pid, w) =>
          let s :=
            { bus := w
              pids := s.pids.set addr 0 { s.pids addr 0 with sent := dataPid }
              sent := s.sent ++ [packet] }
          if pid ≠ pidAck then
            match retry with
            | 0 => (.error (-5), s)
            | retry + 1 => setupStage bus addr endp request retry s
          else (.ok (), s)

/-! ## Section 2: The attempts of a SETUP stage -/

variable {bus : SetupBus W} {addr endp : ℕ} {request : Memory Byte} {retry : ℕ}
  {s : SetupState W}

/-- The packet of the next attempt. -/
def SetupState.packet (s : SetupState W) (addr : ℕ) (request : Memory Byte) : DataPacket :=
  setupPacket request (nextDataPid (s.pids addr 0).sent)

/-- The state after an attempt that was not answered. -/
def SetupState.unanswered (s : SetupState W) (addr : ℕ) (request : Memory Byte) (w : W) :
    SetupState W :=
  { s with bus := w, sent := s.sent ++ [s.packet addr request] }

/-- The state after an attempt that was answered by a handshake. -/
def SetupState.answered (s : SetupState W) (addr : ℕ) (request : Memory Byte) (w : W) :
    SetupState W :=
  { bus := w
    pids := s.pids.set addr 0
      { s.pids addr 0 with sent := nextDataPid (s.pids addr 0).sent }
    sent := s.sent ++ [s.packet addr request] }

theorem setupStage_tokenHung {w : W} (h : bus.tokenSetup addr endp s.bus = (false, w)) :
    setupStage bus addr endp request retry s = (.error (-2), { s with bus := w }) := by
  unfold setupStage
  simp only [h]

theorem setupStage_dataHung {w w₁ : W} (h : bus.tokenSetup addr endp s.bus = (true, w))
    (hdata : bus.sendData (s.packet addr request) w = (false, w₁)) :
    setupStage bus addr endp request retry s =
      (.error (-3), s.unanswered addr request w₁) := by
  unfold SetupState.packet at hdata
  unfold setupStage
  simp only [h, hdata]
  rfl

theorem setupStage_unanswered_last {w w₁ w₂ : W}
    (h : bus.tokenSetup addr endp s.bus = (true, w))
    (hdata : bus.sendData (s.packet addr request) w = (true, w₁))
    (hnone : bus.answer w₁ = (none, w₂)) :
    setupStage bus addr endp request 0 s = (.error (-4), s.unanswered addr request w₂) := by
  unfold SetupState.packet at hdata
  rw [setupStage]
  simp only [h, hdata, hnone]
  rfl

theorem setupStage_unanswered {w w₁ w₂ : W} (h : bus.tokenSetup addr endp s.bus = (true, w))
    (hdata : bus.sendData (s.packet addr request) w = (true, w₁))
    (hnone : bus.answer w₁ = (none, w₂)) :
    setupStage bus addr endp request (retry + 1) s =
      setupStage bus addr endp request retry (s.unanswered addr request w₂) := by
  unfold SetupState.packet at hdata
  rw [setupStage]
  simp only [h, hdata, hnone]
  rfl

theorem setupStage_acked {w w₁ w₂ : W} (h : bus.tokenSetup addr endp s.bus = (true, w))
    (hdata : bus.sendData (s.packet addr request) w = (true, w₁))
    (hack : bus.answer w₁ = (some pidAck, w₂)) :
    setupStage bus addr endp request retry s = (.ok (), s.answered addr request w₂) := by
  unfold SetupState.packet at hdata
  unfold setupStage
  simp only [h, hdata, hack]
  rfl

theorem setupStage_answered_last {w w₁ w₂ : W} {pid : Byte}
    (h : bus.tokenSetup addr endp s.bus = (true, w))
    (hdata : bus.sendData (s.packet addr request) w = (true, w₁))
    (hans : bus.answer w₁ = (some pid, w₂)) (hpid : pid ≠ pidAck) :
    setupStage bus addr endp request 0 s = (.error (-5), s.answered addr request w₂) := by
  unfold SetupState.packet at hdata
  rw [setupStage]
  simp only [h, hdata, hans]
  rw [if_pos hpid]
  rfl

theorem setupStage_answered {w w₁ w₂ : W} {pid : Byte}
    (h : bus.tokenSetup addr endp s.bus = (true, w))
    (hdata : bus.sendData (s.packet addr request) w = (true, w₁))
    (hans : bus.answer w₁ = (some pid, w₂)) (hpid : pid ≠ pidAck) :
    setupStage bus addr endp request (retry + 1) s =
      setupStage bus addr endp request retry (s.answered addr request w₂) := by
  unfold SetupState.packet at hdata
  rw [setupStage]
  simp only [h, hdata, hans]
  rw [if_pos hpid]
  rfl

/-- The five ways an attempt can go. -/
theorem setup_cases (bus : SetupBus W) (addr endp : ℕ) (packet : DataPacket) (w : W) :
    (∃ w₁, bus.tokenSetup addr endp w = (false, w₁)) ∨
      ∃ w₁, bus.tokenSetup addr endp w = (true, w₁) ∧
        ((∃ w₂, bus.sendData packet w₁ = (false, w₂)) ∨
          ∃ w₂, bus.sendData packet w₁ = (true, w₂) ∧
            ((∃ w₃, bus.answer w₂ = (none, w₃)) ∨
              (∃ w₃, bus.answer w₂ = (some pidAck, w₃)) ∨
              ∃ pid w₃, bus.answer w₂ = (some pid, w₃) ∧ pid ≠ pidAck)) := by
  rcases htoken : bus.tokenSetup addr endp w with ⟨_ | _, w₁⟩
  · exact Or.inl ⟨w₁, rfl⟩
  · refine Or.inr ⟨w₁, rfl, ?_⟩
    rcases hdata : bus.sendData packet w₁ with ⟨_ | _, w₂⟩
    · exact Or.inl ⟨w₂, rfl⟩
    · refine Or.inr ⟨w₂, rfl, ?_⟩
      rcases hans : bus.answer w₂ with ⟨_ | pid, w₃⟩
      · exact Or.inl ⟨w₃, rfl⟩
      · by_cases hpid : pid = pidAck
        · exact Or.inr (Or.inl ⟨w₃, by rw [hpid]⟩)
        · exact Or.inr (Or.inr ⟨pid, w₃, rfl, hpid⟩)

/-- **Repetition rule.**  What every attempt does to the state, and what can be put together,
the whole stage does. -/
theorem setupStage_rule {P : SetupState W → SetupState W → Prop}
    (hhung : ∀ s w, P s { s with bus := w }) (hun : ∀ s w, P s (s.unanswered addr request w))
    (hans : ∀ s w, P s (s.answered addr request w)) (htrans : ∀ s t u, P s t → P t u → P s u)
    (retry : ℕ) (s : SetupState W) : P s (setupStage bus addr endp request retry s).2 := by
  induction retry generalizing s with
  | zero =>
    rcases setup_cases bus addr endp (s.packet addr request) s.bus with
      ⟨w₁, htoken⟩ | ⟨w₁, htoken, ⟨w₂, hdata⟩ | ⟨w₂, hdata, ⟨w₃, hnone⟩ | ⟨w₃, hack⟩ |
        ⟨pid, w₃, hother, hpid⟩⟩⟩
    · rw [setupStage_tokenHung htoken]
      exact hhung s w₁
    · rw [setupStage_dataHung htoken hdata]
      exact hun s w₂
    · rw [setupStage_unanswered_last htoken hdata hnone]
      exact hun s w₃
    · rw [setupStage_acked htoken hdata hack]
      exact hans s w₃
    · rw [setupStage_answered_last htoken hdata hother hpid]
      exact hans s w₃
  | succ retry ih =>
    rcases setup_cases bus addr endp (s.packet addr request) s.bus with
      ⟨w₁, htoken⟩ | ⟨w₁, htoken, ⟨w₂, hdata⟩ | ⟨w₂, hdata, ⟨w₃, hnone⟩ | ⟨w₃, hack⟩ |
        ⟨pid, w₃, hother, hpid⟩⟩⟩
    · rw [setupStage_tokenHung htoken]
      exact hhung s w₁
    · rw [setupStage_dataHung htoken hdata]
      exact hun s w₂
    · rw [setupStage_unanswered htoken hdata hnone]
      exact htrans _ _ _ (hun s w₃) (ih _)
    · rw [setupStage_acked htoken hdata hack]
      exact hans s w₃
    · rw [setupStage_answered htoken hdata hother hpid]
      exact htrans _ _ _ (hans s w₃) (ih _)

/-! ## Section 3: The data stage -/

/-- What becomes of a data packet that was acknowledged. -/
inductive Judged where
  | accepted (pid : Byte)
  | duplicate (pid : Byte)
  deriving DecidableEq, Repr

/-- From the label `again_data` on, up to the point where the packet is taken. -/
def dataAttempt (bus : Bus W) (addr endp : ℕ) (recv : Byte) (s : W × List Judged) :
    Attempt RxPacket × (W × List Judged) :=
  match bus.tokenIn addr endp s.1 with
  | (none, w) => (.again (-6), (w, s.2))
  | (some p, w) =>
    if p.pid = pidStall then (.fail (-12), (w, s.2))
    else if !p.crc16Ok then (.again (-10), (w, s.2))
    else
      match bus.sendAck w with
      | (false, w) => (.fail (-7), (w, s.2))
      | (true, w) =>
        if p.pid ≠ pidData0 ∧ p.pid ≠ pidData1 then (.again (-8), (w, s.2))
        else if p.pid = recv then (.again (-9), (w, s.2 ++ [.duplicate p.pid]))
        else (.done p, (w, s.2 ++ [.accepted p.pid]))

/-- The loop that takes data packets, for `k` packets from packet `i` on. -/
def dataPackets (attempt : Byte → W → Attempt RxPacket × W) (size : ℕ) :
    ℕ → ℕ → InState W → ℤ × InState W
  | 0, _, s => (s.bytesReceived.toInt, s)
  | k + 1, i, s =>
    match attempts (attempt s.recv) 8 s.bus with
    | (.error ret, w) => (ret, { s with bus := w })
    | (.ok p, w) =>
      let s := s.take size i p w
      if p.len.toNat ≠ inPacketSizeBits size i then (s.bytesReceived.toInt, s)
      else dataPackets attempt size k (i + 1) s

/-- `usb10_in_request` has the same loop. -/
theorem inPackets_eq (bus : Bus W) (addr endp size k i : ℕ) (s : InState W) :
    inPackets bus addr endp size k i s = dataPackets (inAttempt bus addr endp) size k i s := by
  induction k generalizing i s with
  | zero => rfl
  | succ k ih =>
    rw [inPackets, dataPackets]
    cases attempts (inAttempt bus addr endp s.recv) 8 s.bus with
    | mk r w =>
      cases r with
      | error ret => rfl
      | ok p =>
        dsimp only
        rw [ih]

/-- The number of data packets of a SETUP request with a response of this size. -/
def setupDataPackets (size : ℕ) : ℕ :=
  if size % lowSpeedDataSize ≠ 0 then size / lowSpeedDataSize + 1 else size / lowSpeedDataSize

/-! ## Section 4: The request -/

/-- What a request returns and leaves behind. -/
structure SetupResult (W : Type) where
  ret : ℤ
  response : Option (Memory Byte)
  pids : LastDataPids
  bus : W
  sent : List DataPacket := []
  /-- Whether the SETUP stage was successful. -/
  isSetUp : Bool := false
  judged : List Judged := []

/-- The table after `usb10_setup_request` has initialised it. -/
def setupPids (pids : LastDataPids) (addr endp : ℕ) : LastDataPids :=
  pids.set addr endp ⟨pidData1, pidData0⟩

/-- `usb10_setup_request`: the request is sent, its answer is collected, and acknowledged. -/
def usb10SetupRequest (bus : SetupBus W) (pids : LastDataPids) (addr endp : ℕ)
    (request : Memory Byte) (response : Option (Memory Byte)) (size : ℕ) (w : W) :
    SetupResult W :=
  if addr ≥ maxAddresses then { ret := -999, response, pids, bus := w }
  else if !bus.free w then { ret := -1, response, pids, bus := w }
  else
    match setupStage bus addr endp request 2 { bus := w, pids := setupPids pids addr endp } with
    | (.error ret, s) => { ret, response, pids := s.pids, bus := s.bus, sent := s.sent }
    | (.ok (), s) =>
      let r := dataPackets (dataAttempt bus.toBus addr endp) size (setupDataPackets size) 0
        ⟨(s.bus, []), (s.pids addr endp).recv, response, 0⟩
      { ret := r.1
        response := r.2.response
        pids := s.pids.set addr endp { s.pids addr endp with recv := r.2.recv }
        bus := r.2.bus.1
        sent := s.sent
        isSetUp := true
        judged := r.2.bus.2 }

end Karnix.Usb
