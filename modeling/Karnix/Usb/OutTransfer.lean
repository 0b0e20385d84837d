import Karnix.Library.Runs
import Karnix.Usb.Host
import Karnix.Usb.LineEncoding

/-!
# OUT transfers

The data packets of `usb10_out_request`, against a device that answers as it likes and drops
packets whose PID it has seen already.
-/

namespace Karnix.Usb

open Karnix.Library

/-! ## Section 1: The packets of a buffer -/

/-- The number of bytes a packet carries. -/
def DataPacket.byteCount (p : DataPacket) : ℕ :=
  if p.len = 0x7f then 0 else (p.len.toNat + 1) / 8

/-- The bytes a packet carries. -/
def DataPacket.payload (p : DataPacket) : List Byte :=
  (leBytes32 (p.data.extractLsb' 0 32) ++ leBytes32 (p.data.extractLsb' 32 32)).take p.byteCount

/-- The number of bytes of packet `i`. -/
def chunkLen (size i : ℕ) : ℕ := min lowSpeedDataSize (size - lowSpeedDataSize * i)

/-- The bytes of the buffer that packet `i` should carry. -/
def chunk (m : Memory Byte) (size i : ℕ) : List Byte :=
  m.load (lowSpeedDataSize * i) (chunkLen size i)

/-- The PID of packet `i` of a request, after the one sent last. -/
def dataPidAt (sent : Byte) (i : ℕ) : Byte := nextDataPid^[i + 1] sent

/-! ## Section 2: The device -/

/-- An endpoint that takes each PID once. -/
structure OutDevice where
  expected : Byte
  received : List Byte
  deriving DecidableEq

def OutDevice.accept (d : OutDevice) (p : DataPacket) : OutDevice :=
  if p.pid = d.expected.setWidth 4 then ⟨nextDataPid d.expected, d.received ++ p.payload⟩ else d

/-- What happens in one attempt. -/
structure Trial where
  /-- The commands of the driver complete. -/
  tokenDone : Bool
  dataDone : Bool
  /-- The packet reaches the device; what the answer says about it comes first. -/
  arrives : Bool
  /-- The PID that the driver gets to see. -/
  answer : Option Byte

/-- A device that acknowledges has the packet; one that answers `NAK` or `STALL` has not. -/
def Trial.takes (t : Trial) : Bool :=
  t.answer = some pidAck || t.answer ≠ some pidNak && t.answer ≠ some pidStall && t.arrives

/-- The wires of an OUT endpoint: behind the end of the script nothing arrives and nothing is
answered. -/
structure OutWires where
  free : Bool
  script : List Trial
  device : OutDevice
  /-- The data packets sent. -/
  log : List DataPacket
  /-- The number of ACKs received. -/
  acks : ℕ

def OutWires.trial (w : OutWires) : Trial := w.script.headD ⟨true, true, false, none⟩

/-- The wires and the device behind the registers of the controller. -/
def outWires : Bus OutWires where
  free w := w.free
  tokenIn _ _ w := (none, w)
  sendAck w := (true, w)
  tokenOut _ _ w := (w.trial.tokenDone, w)
  sendData p w :=
    (w.trial.dataDone,
      { w with
        log := w.log ++ [p]
        device := if w.trial.takes then w.device.accept p else w.device })
  answer w :=
    (w.trial.answer,
      { w with
        script := w.script.tail
        acks := if w.trial.answer = some pidAck then w.acks + 1 else w.acks })

/-- What the driver is told of a packet. -/
def carried (p : DataPacket) : BitVec 4 × List Byte := (p.pid, p.payload)

/-- A request of `size` bytes at `m`, with `sent` as the PID sent last, was carried out: the
packets on the wires are those of the buffer, each of them repeated as often as it takes, and the
result says whether all of them were acknowledged. -/
structure Transferred (m : Memory Byte) (size addr endp : ℕ) (sent : Byte)
    (r : OutResult OutWires) : Prop where
  log : ∃ (count : ℕ) (times : ℕ → ℕ), count ≤ numOfDataPackets size ∧
    r.bus.log.map carried = (List.range count).flatMap fun i =>
      List.replicate (times i) ((dataPidAt sent i).setWidth 4, chunk m size i)
  ret : r.ret = 0 ↔ r.bus.acks = numOfDataPackets size
  received : r.ret = 0 → r.bus.device.received = m.load 0 size
  /-- The next request goes on behind the last packet that was acknowledged. -/
  toggle : (r.pids addr endp).sent = nextDataPid^[r.bus.acks] sent

/-! ## Section 3: One packet -/

theorem nextDataPid_cases (sent : Byte) :
    nextDataPid sent = pidData0 ∨ nextDataPid sent = pidData1 := by
  unfold nextDataPid
  split_ifs
  · exact Or.inr rfl
  · exact Or.inl rfl

theorem nextDataPid_ne (sent : Byte) :
    (nextDataPid sent).setWidth 4 ≠ (nextDataPid (nextDataPid sent)).setWidth 4 := by
  rcases nextDataPid_cases sent with h | h <;> rw [h] <;> exact by decide

theorem byteCount_lenField (pid : BitVec 4) (bytes : BitVec 64) {n : ℕ} (h : n ≤ 8) :
    (DataPacket.mk pid bytes (lenField n)).byteCount = n := by
  have hcount : ∀ n ≤ 8, (if lenField n = 0x7f then 0 else ((lenField n).toNat + 1) / 8) = n := by
    decide
  exact hcount n h

theorem ofInt_outPacketSizeBits {size i : ℕ} (h : i < numOfDataPackets size) :
    BitVec.ofInt 7 (outPacketSizeBits size i) = lenField (chunkLen size i) := by
  have hlen : ∀ c < 8, BitVec.ofInt 7 (((c * 8 : ℕ) : ℤ) - 1) = lenField c := by decide
  unfold numOfDataPackets at h
  unfold outPacketSizeBits chunkLen
  unfold lowSpeedDataSize at h ⊢
  by_cases hfull : (i + 1) * 8 ≤ size
  · have hchunk : min 8 (size - 8 * i) = 8 := by omega
    rw [if_pos hfull, hchunk]
    rfl
  · -- the last packet takes what is left
    have hchunk : min 8 (size - 8 * i) = size % 8 := by
      split_ifs at h <;> omega
    rw [if_neg hfull, hchunk]
    exact hlen _ (Nat.mod_lt _ (by decide))

theorem chunkLen_le (size i : ℕ) : chunkLen size i ≤ 8 := Nat.min_le_left _ _

/-- Whatever packet it is, it carries bytes from the start of the buffer. -/
theorem payload_outPacket (m : Memory Byte) {size i : ℕ} (h : i < numOfDataPackets size)
    (regs : BitVec 64) (dataPid : Byte) :
    (outPacket (some m) size i regs dataPid).payload = m.load 0 (chunkLen size i) := by
  have hcount : (outPacket (some m) size i regs dataPid).byteCount = chunkLen size i := by
    unfold outPacket
    rw [ofInt_outPacketSizeBits h]
    exact byteCount_lenField _ _ (chunkLen_le size i)
  unfold DataPacket.payload
  rw [hcount]
  by_cases hsize : size = 0
  · have hzero : chunkLen size i = 0 := by
      rw [hsize, chunkLen, Nat.zero_sub, Nat.min_zero]
    rw [hzero]
    rfl
  · have hword : ∀ a, leBytes32 (loadWord m a) = m.load a 4 := by
      intro a
      rw [loadWord, leBytes32_leWord (by simp)]
      simp
    have hregs : sendDataRegs (some m) size regs = loadWord m 4 ++ loadWord m 0 := if_pos hsize
    have hdata : (outPacket (some m) size i regs dataPid).data =
        loadWord m 4 ++ loadWord m 0 := hregs
    rw [hdata, BitVec.extractLsb'_append_eq_right, BitVec.extractLsb'_append_eq_left, hword, hword,
      ← m.load_add 0 4 4, Memory.take_load _ _ _ _ (chunkLen_le size i)]

/-- The device still expects the packet, or has just taken it. -/
def OutDevice.At (pid : Byte) (received payload : List Byte) (d : OutDevice) : Prop :=
  d = ⟨pid, received⟩ ∨ d = ⟨nextDataPid pid, received ++ payload⟩

theorem OutDevice.At.accept {sent : Byte} {received : List Byte} {d : OutDevice} {p : DataPacket}
    (h : d.At (nextDataPid sent) received p.payload)
    (hpid : p.pid = (nextDataPid sent).setWidth 4) :
    d.accept p = ⟨nextDataPid (nextDataPid sent), received ++ p.payload⟩ := by
  unfold OutDevice.accept
  rcases h with rfl | rfl
  · rw [if_pos hpid]
  · -- it has this PID already
    rw [if_neg]
    rw [hpid]
    exact nextDataPid_ne sent

/-- What the attempts for the packet `p` do, of which the device may have taken one before. -/
structure SendsPacket (p : DataPacket) (w : OutWires) (result : Except ℤ Unit) (w' : OutWires) :
    Prop where
  log : ∃ times, w'.log = w.log ++ List.replicate times p
  device : ∀ sent received, p.pid = (nextDataPid sent).setWidth 4 →
    w.device.At (nextDataPid sent) received p.payload →
      w'.device.At (nextDataPid sent) received p.payload ∧
        (result = .ok () →
          w'.device = ⟨nextDataPid (nextDataPid sent), received ++ p.payload⟩)
  result : (result = .ok () ∧ w'.acks = w.acks + 1) ∨
    ∃ ret, result = .error ret ∧ ret ≠ 0 ∧ w'.acks = w.acks

theorem SendsPacket.trans {p : DataPacket} (w w₁ w₂ : OutWires) (ret : ℤ) (result : Except ℤ Unit)
    (h : SendsPacket p w (.error ret) w₁) (h' : SendsPacket p w₁ result w₂) :
    SendsPacket p w result w₂ := by
  have hacks : w₁.acks = w.acks := by
    rcases h.result with ⟨hok, -⟩ | ⟨_, -, -, hacks⟩
    · cases hok
    · exact hacks
  obtain ⟨times, htimes⟩ := h.log
  obtain ⟨times', htimes'⟩ := h'.log
  refine ⟨⟨times + times', ?_⟩, ?_, ?_⟩
  · rw [htimes', htimes, List.append_assoc, List.replicate_append_replicate]
  · intro sent received hpid hat
    exact h'.device sent received hpid (h.device sent received hpid hat).1
  · rw [← hacks]
    exact h'.result

/-- A packet that was sent, however the device and the wires treat it. -/
theorem sendsPacket_of_sent {p : DataPacket} {w w' : OutWires} {result : Except ℤ Unit}
    (hlog : w'.log = w.log ++ [p])
    (hdevice : w'.device = if w.trial.takes then w.device.accept p else w.device)
    (hresult : (result = .ok () ∧ w.trial.answer = some pidAck ∧ w'.acks = w.acks + 1) ∨
      ∃ ret, result = .error ret ∧ ret ≠ 0 ∧ w'.acks = w.acks) :
    SendsPacket p w result w' := by
  refine ⟨⟨1, hlog⟩, ?_, hresult.imp_left fun h => ⟨h.1, h.2.2⟩⟩
  intro sent received hpid hat
  have haccept := hat.accept hpid
  constructor
  · rw [hdevice]
    split_ifs
    · exact Or.inr haccept
    · exact hat
  · intro hok
    rcases hresult with ⟨-, hack, -⟩ | ⟨ret, herror, -⟩
    · -- who acknowledges has taken the packet
      have htakes : w.trial.takes = true := by
        simp [Trial.takes, hack]
      rw [hdevice, if_pos htakes, haccept]
    · rw [hok] at herror
      cases herror

/-- **Step lemma.**  An attempt sends its packet, or none. -/
theorem outAttempt_sendsPacket (addr endp : ℕ) (p : DataPacket) (w : OutWires) :
    SendsPacket p w (outAttempt outWires addr endp p w).1.toExcept
      (outAttempt outWires addr endp p w).2 := by
  have hverdict := outVerdict_cases w.trial.answer
  cases htoken : w.trial.tokenDone with
  | false =>
    have hrun : outWires.tokenOut addr endp w = (false, w) := congrArg (·, w) htoken
    rw [outAttempt_hung hrun]
    exact ⟨⟨0, (List.append_nil _).symm⟩, fun _ _ _ hat => ⟨hat, fun h => nomatch h⟩,
      Or.inr ⟨-2, rfl, by decide, rfl⟩⟩
  | true =>
    have hrun : outWires.tokenOut addr endp w = (true, w) := congrArg (·, w) htoken
    cases hdata : w.trial.dataDone with
    | false =>
      have hsent : outWires.sendData p w = (false, (outWires.sendData p w).2) :=
        congrArg (·, (outWires.sendData p w).2) hdata
      rw [outAttempt_dataHung hrun hsent]
      exact sendsPacket_of_sent rfl rfl (Or.inr ⟨-3, rfl, by decide, rfl⟩)
    | true =>
      have hsent : outWires.sendData p w = (true, (outWires.sendData p w).2) :=
        congrArg (·, (outWires.sendData p w).2) hdata
      rw [outAttempt_answered hrun hsent]
      refine sendsPacket_of_sent rfl rfl ?_
      rcases hverdict with ⟨hok, hack⟩ | ⟨ret, herror, hret, hne⟩
      · exact Or.inl ⟨hok, hack, if_pos hack⟩
      · exact Or.inr ⟨ret, herror, hret, if_neg hne⟩

/-! ## Section 4: All packets -/

/-- What the driver makes of packet `i`: the eight bytes it has are always the first ones. -/
def prefixChunk (m : Memory Byte) (size i : ℕ) : List Byte := m.load 0 (chunkLen size i)

/-- What a request for `k` packets from packet `i` on does. -/
structure SendsFrom (m : Memory Byte) (size : ℕ) (sent : Byte) (i k : ℕ) (w : OutWires)
    (r : ℤ × Byte × OutWires) : Prop where
  log : ∃ (count : ℕ) (times : ℕ → ℕ), count ≤ k ∧
    r.2.2.log.map carried = w.log.map carried ++ (List.range count).flatMap fun j =>
      List.replicate (times j) ((dataPidAt sent (i + j)).setWidth 4, prefixChunk m size (i + j))
  acks : ∃ n, r.2.2.acks = w.acks + n ∧ r.2.1 = nextDataPid^[i + n] sent ∧ n ≤ k ∧
    (r.1 = 0 ↔ n = k)
  device : ∀ received, w.device = ⟨dataPidAt sent i, received⟩ → r.1 = 0 →
    r.2.2.device = ⟨dataPidAt sent (i + k),
      received ++ (List.range k).flatMap fun j => prefixChunk m size (i + j)⟩

theorem dataPidAt_succ (sent : Byte) (i : ℕ) :
    dataPidAt sent (i + 1) = nextDataPid (dataPidAt sent i) := Function.iterate_succ_apply' ..

theorem flatMap_range_succ {α : Type} (f : ℕ → List α) (n : ℕ) :
    (List.range (n + 1)).flatMap f = f 0 ++ (List.range n).flatMap fun j => f (j + 1) := by
  rw [List.range_succ_eq_map, List.flatMap_cons, List.flatMap_map]

/-- **Run lemma.**  From packet `i` on, the packets are those of the buffer. -/
theorem outPackets_sendsFrom (addr endp : ℕ) (m : Memory Byte) (size : ℕ) (regs : BitVec 64)
    (sent : Byte) (k i : ℕ) (w : OutWires) (h : i + k = numOfDataPackets size) :
    SendsFrom m size sent i k w
      (outPackets outWires addr endp (some m) size regs k i (nextDataPid^[i] sent) w) := by
  induction k generalizing i w with
  | zero =>
    -- nothing is left to be sent
    refine ⟨⟨0, fun _ => 0, Nat.le_refl 0, (List.append_nil _).symm⟩,
      ⟨0, rfl, rfl, Nat.le_refl 0, iff_of_true rfl rfl⟩, ?_⟩
    intro received hdevice _
    exact hdevice.trans (congrArg (OutDevice.mk _) (List.append_nil _).symm)
  | succ k ih =>
    have hi : i < numOfDataPackets size := by omega
    have hnext : i + 1 + k = numOfDataPackets size := by omega
    have hshift : ∀ j, i + 1 + j = i + (j + 1) := fun j => by rw [Nat.add_assoc, Nat.add_comm 1 j]
    have hpid : nextDataPid (nextDataPid^[i] sent) = dataPidAt sent i :=
      (Function.iterate_succ_apply' _ _ _).symm
    obtain ⟨p, hp⟩ : ∃ p, p = outPacket (some m) size i regs (dataPidAt sent i) := ⟨_, rfl⟩
    -- what goes into packet `i`
    have hpayload : p.payload = prefixChunk m size i := by
      rw [hp, payload_outPacket m hi]
      rfl
    have hcarried : carried p = ((dataPidAt sent i).setWidth 4, prefixChunk m size i) := by
      rw [carried, hpayload, hp]
      rfl
    have hsends := attempts_rule (outAttempt_sendsPacket addr endp p) SendsPacket.trans 8 w
    unfold outPackets
    simp only [hpid, ← hp]
    cases hrun : attempts (outAttempt outWires addr endp p) 8 w with
    | mk result w₁ =>
      rw [hrun] at hsends
      obtain ⟨times, htimes⟩ := hsends.log
      -- what the attempts have put on the line, however many they were
      have hlog : w₁.log.map carried = w.log.map carried ++
          List.replicate times ((dataPidAt sent i).setWidth 4, prefixChunk m size i) := by
        rw [htimes, List.map_append, List.map_replicate, hcarried]
      cases result with
      | error ret =>
        rcases hsends.result with ⟨hok, -⟩ | ⟨ret', heq, hret, hacks⟩
        · cases hok
        · cases heq
          -- the packet was given up, and so is the transfer
          refine ⟨⟨1, fun _ => times, Nat.succ_le_succ (Nat.zero_le k), ?_⟩,
            ⟨0, hacks, rfl, Nat.zero_le _, iff_of_false hret (Nat.succ_ne_zero k).symm⟩, ?_⟩
          · rw [hlog]
            simp
          · intro _ _ hzero
            exact absurd hzero hret
      | ok u =>
        rcases hsends.result with ⟨-, hacks⟩ | ⟨_, heq, -⟩
        · -- the packet was acknowledged, and the others are those of the induction
          have hrest := ih (i + 1) w₁ hnext
          rw [Function.iterate_succ_apply', hpid] at hrest
          obtain ⟨count, times', hcount, hlog'⟩ := hrest.log
          obtain ⟨n, hn, hsent, hle, hiff⟩ := hrest.acks
          refine ⟨⟨count + 1, fun j => j.casesOn times times', Nat.succ_le_succ hcount, ?_⟩,
            ⟨n + 1, ?_, ?_, Nat.succ_le_succ hle, ?_⟩, ?_⟩
          · rw [hlog', hlog, flatMap_range_succ, List.append_assoc]
            simp only [hshift]
            rfl
          · rw [hn, hacks, Nat.add_right_comm, Nat.add_assoc]
          · rw [hsent, Nat.add_right_comm, Nat.add_assoc]
          · exact hiff.trans (Nat.succ_inj).symm
          · intro received hdevice hzero
            -- the device has taken packet `i` when the next one is sent
            have htaken := (hsends.device (nextDataPid^[i] sent) received (by rw [hpid, hp]; rfl)
              (by rw [hpid]; exact Or.inl hdevice)).2 rfl
            rw [hpid, ← dataPidAt_succ, hpayload] at htaken
            refine (hrest.device _ htaken hzero).trans ?_
            rw [flatMap_range_succ, List.append_assoc]
            simp only [hshift]
            rfl
        · cases heq

/-! ## Section 5: Requests -/

theorem length_chunk (m : Memory Byte) (size i : ℕ) : (chunk m size i).length = chunkLen size i :=
  Memory.length_load ..

/-- The chunks make up the buffer. -/
theorem flatMap_chunk (m : Memory Byte) (size : ℕ) :
    (List.range (numOfDataPackets size)).flatMap (chunk m size) = m.load 0 size := by
  have hstart : ∀ k, (List.range k).flatMap (chunk m size) =
      m.load 0 (min size (lowSpeedDataSize * k)) := by
    intro k
    induction k with
    | zero => simp
    | succ k ih =>
      rw [List.range_succ, List.flatMap_append, List.flatMap_singleton, ih, chunk]
      unfold chunkLen lowSpeedDataSize
      rcases Nat.le_total size (8 * k) with hle | hle
      · have hnone : size - 8 * k = 0 := Nat.sub_eq_zero_of_le hle
        rw [hnone, Nat.min_zero, Memory.load_zero, List.append_nil, Nat.min_eq_left hle,
          Nat.min_eq_left (by omega)]
      · have happend := m.load_add 0 (8 * k) (min 8 (size - 8 * k))
        rw [Nat.zero_add] at happend
        rw [Nat.min_eq_right hle, ← happend]
        congr 1
        omega
  rw [hstart]
  unfold numOfDataPackets lowSpeedDataSize
  congr 1
  split_ifs <;> omega

/-- The buffer as the packets show it, if every packet is sent once. -/
theorem prefixChunk_of_flatMap {m : Memory Byte} {size : ℕ} (k : ℕ)
    (h : (List.range k).flatMap (chunk m size) = (List.range k).flatMap (prefixChunk m size))
    {i : ℕ} (hi : i < k) : chunk m size i = prefixChunk m size i := by
  induction k with
  | zero => exact absurd hi (Nat.not_lt_zero i)
  | succ k ih =>
    rw [List.range_succ, List.flatMap_append, List.flatMap_append, List.flatMap_singleton,
      List.flatMap_singleton] at h
    have hlen : (chunk m size k).length = (prefixChunk m size k).length := by
      rw [length_chunk, prefixChunk, Memory.length_load]
    obtain ⟨hinit, hlast⟩ := List.append_inj' h hlen
    rcases Nat.lt_succ_iff_lt_or_eq.mp hi with hlt | rfl
    · exact ih hinit hlt
    · exact hlast

/-- The wires before a request: the device waits for the PID behind the one sent last. -/
def OutWires.start (free : Bool) (script : List Trial) (sent : Byte) : OutWires :=
  ⟨free, script, ⟨nextDataPid sent, []⟩, [], 0⟩

theorem transferred_of_sendsFrom {m : Memory Byte} {size addr endp : ℕ} {sent : Byte}
    {free : Bool} {script : List Trial} {r : ℤ × Byte × OutWires} {pids : LastDataPids}
    (hpids : (pids addr endp).sent = r.2.1)
    (hchunk : ∀ i < numOfDataPackets size, chunk m size i = prefixChunk m size i)
    (h : SendsFrom m size sent 0 (numOfDataPackets size) (OutWires.start free script sent) r) :
    Transferred m size addr endp sent ⟨r.1, pids, r.2.2⟩ := by
  obtain ⟨count, times, hcount, hlog⟩ := h.log
  obtain ⟨n, hacks, hsent, hle, hiff⟩ := h.acks
  have hn : r.2.2.acks = n := hacks.trans (Nat.zero_add n)
  refine ⟨⟨count, times, hcount, ?_⟩, ?_, ?_, ?_⟩
  · rw [hlog]
    show [] ++ _ = _
    rw [List.nil_append]
    apply List.flatMap_congr
    intro i hi
    rw [hchunk i (Nat.lt_of_lt_of_le (List.mem_range.mp hi) hcount), Nat.zero_add]
  · show r.1 = 0 ↔ r.2.2.acks = _
    rw [hn]
    exact hiff
  · intro hzero
    have hdevice := h.device [] rfl hzero
    show r.2.2.device.received = _
    rw [hdevice, ← flatMap_chunk]
    show [] ++ _ = _
    rw [List.nil_append]
    apply List.flatMap_congr
    intro i hi
    rw [hchunk i (List.mem_range.mp hi), Nat.zero_add]
  · show (pids addr endp).sent = nextDataPid^[r.2.2.acks] sent
    rw [hpids, hsent, hn, Nat.zero_add]

/-- An attempt in which nothing goes wrong. -/
def ackTrial : Trial := ⟨true, true, true, some pidAck⟩

theorem outPackets_acked (addr endp : ℕ) (m : Memory Byte) (size : ℕ) (regs : BitVec 64) (k i : ℕ)
    (sent : Byte) (w : OutWires) (h : w.script = List.replicate k ackTrial) :
    (outPackets outWires addr endp (some m) size regs k i sent w).1 = 0 := by
  induction k generalizing i sent w with
  | zero => rfl
  | succ k ih =>
    have htrial : w.trial = ackTrial := by
      rw [OutWires.trial, h]
      rfl
    obtain ⟨p, hp⟩ : ∃ p, p = outPacket (some m) size i regs (nextDataPid sent) := ⟨_, rfl⟩
    have htoken : outWires.tokenOut addr endp w = (true, w) := by
      show (w.trial.tokenDone, w) = _
      rw [htrial]
      rfl
    have hdata : outWires.sendData p w = (true, (outWires.sendData p w).2) := by
      exact congrArg (·, (outWires.sendData p w).2) (congrArg Trial.dataDone htrial)
    have hanswer : (outWires.answer (outWires.sendData p w).2).1 = some pidAck := by
      show w.trial.answer = _
      rw [htrial]
      rfl
    have hrun : attempts (outAttempt outWires addr endp p) 8 w =
        (.ok (), (outWires.answer (outWires.sendData p w).2).2) := by
      unfold attempts
      rw [outAttempt_answered htoken hdata, hanswer]
      rfl
    unfold outPackets
    simp only [← hp, hrun]
    apply ih
    show w.script.tail = _
    rw [h]
    rfl

/-- **OUT requests.**  The device gets the buffer, whatever happens on the wires, exactly if every
part of it that goes into a packet is like the beginning of the buffer. -/
theorem outTransfer_iff {addr endp : ℕ} (haddr : addr < maxAddresses) (hendp : endp < maxEndpoints)
    (pids : LastDataPids) (m : Memory Byte) (size : ℕ) (regs : BitVec 64) :
    (∀ free script, Transferred m size addr endp (pids addr endp).sent
      (usb10OutRequest outWires pids addr endp (some m) size regs
        (OutWires.start free script (pids addr endp).sent))) ↔
    ∀ i < numOfDataPackets size, chunk m size i = prefixChunk m size i := by
  have hrange : ¬ (addr ≥ maxAddresses ∨ endp ≥ maxEndpoints) :=
    fun h => h.elim (Nat.not_le.mpr haddr) (Nat.not_le.mpr hendp)
  have hpackets : 0 < numOfDataPackets size := by
    unfold numOfDataPackets lowSpeedDataSize
    split_ifs <;> omega
  have hsends := fun w => outPackets_sendsFrom addr endp m size regs (pids addr endp).sent
    (numOfDataPackets size) 0 w (Nat.zero_add _)
  constructor
  · -- the case where everything is acknowledged at once shows the difference
    intro h i hi
    have hr := h true (List.replicate (numOfDataPackets size) ackTrial)
    unfold usb10OutRequest at hr
    have hfree : (!outWires.free (OutWires.start true
        (List.replicate (numOfDataPackets size) ackTrial) (pids addr endp).sent)) = false := rfl
    rw [if_neg hrange, hfree, if_neg Bool.false_ne_true] at hr
    have hzero := outPackets_acked addr endp m size regs (numOfDataPackets size) 0
      (pids addr endp).sent (OutWires.start true _ (pids addr endp).sent) rfl
    have hreceived := hr.received hzero
    have hdevice := (hsends _).device [] rfl hzero
    apply prefixChunk_of_flatMap (numOfDataPackets size) _ hi
    rw [flatMap_chunk, ← hreceived]
    refine (congrArg OutDevice.received hdevice).trans ?_
    simp only [Nat.zero_add, List.nil_append]
  · intro hchunk free script
    unfold usb10OutRequest
    rw [if_neg hrange]
    split_ifs
    · -- nothing is sent while the controller is busy
      have hbusy : (-1 : ℤ) ≠ 0 := by decide
      exact ⟨⟨0, fun _ => 0, Nat.zero_le _, rfl⟩, iff_of_false hbusy (Nat.ne_of_lt hpackets),
        fun hzero => absurd hzero hbusy, rfl⟩
    · refine transferred_of_sendsFrom ?_ hchunk (hsends _)
      rw [LastDataPids.set_self]

/-- Two packets for ten bytes: the answer to the first one gets lost, and it is sent again. -/
theorem outTransfer_iff_lostAck :
    Transferred (fun k => BitVec.ofNat 8 (k % 8)) 10 1 1 pidData1
        (usb10OutRequest outWires (fun _ _ => ⟨pidData1, pidData0⟩) 1 1
          (some fun k => BitVec.ofNat 8 (k % 8)) 10 0
          (OutWires.start true [⟨true, true, true, none⟩, ackTrial, ackTrial] pidData1)) ∧
      (usb10OutRequest outWires (fun _ _ => ⟨pidData1, pidData0⟩) 1 1
        (some fun k => BitVec.ofNat 8 (k % 8)) 10 0
        (OutWires.start true [⟨true, true, true, none⟩, ackTrial, ackTrial] pidData1)).ret = 0 :=
  ⟨(outTransfer_iff (by decide) (by decide) (fun _ _ => ⟨pidData1, pidData0⟩)
    (fun k => BitVec.ofNat 8 (k % 8)) 10 0).mpr (by decide) true _, by decide +kernel⟩

/-- Of nine bytes the device gets the first eight, and then the first one again. -/
theorem outTransfer_repeats :
    ¬ Transferred (fun k => BitVec.ofNat 8 k) 9 1 1 pidData1
      (usb10OutRequest outWires (fun _ _ => ⟨pidData1, pidData0⟩) 1 1
        (some fun k => BitVec.ofNat 8 k) 9 0
        (OutWires.start true [ackTrial, ackTrial] pidData1)) := by
  intro h
  have hreceived := h.received (by decide +kernel)
  revert hreceived
  decide +kernel

end Karnix.Usb
