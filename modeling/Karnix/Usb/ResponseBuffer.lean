import Karnix.Usb.Setup

/-!
# The response buffer of USB requests

`usb10_in_request` and the data stage of `usb10_setup_request` store the eight bytes of the
receive registers for every packet they take, and add up what the length field of each packet
says.  `takenPackets` lists the packets a request takes; it does not depend on the buffer, and
everything else about the loop is computed from it.
-/

namespace Karnix.Usb

open Karnix.Library

variable {W : Type}

/-! ## Section 1: Packets taken -/

/-- The packets that the loop takes, and whether it ends with an error. -/
def takenPackets (attempt : Byte → W → Attempt RxPacket × W) (size : ℕ) :
    ℕ → ℕ → Byte → W → List RxPacket × Option ℤ
  | 0, _, _, _ => ([], none)
  | k + 1, i, recv, w =>
    match attempts (attempt recv) 8 w with
    | (.error ret, _) => ([], some ret)
    | (.ok p, w) =>
      if p.len.toNat ≠ inPacketSizeBits size i then ([p], none)
      else
        let r := takenPackets attempt size k (i + 1) p.pid w
        (p :: r.1, r.2)

/-- The count that the driver makes of the packets. -/
def countBytes (ps : List RxPacket) : BitVec 32 := (ps.map RxPacket.byteCount).sum

/-- The packets written one behind the other. -/
def storePackets (m : Memory Byte) (i : ℕ) (ps : List RxPacket) : Memory Byte :=
  m.store (i * 8) (ps.flatMap RxPacket.bytes)

@[simp] theorem length_bytes (p : RxPacket) : p.bytes.length = 8 := rfl

theorem length_flatMap_bytes (ps : List RxPacket) :
    (ps.flatMap RxPacket.bytes).length = 8 * ps.length := by
  induction ps with
  | nil => rfl
  | cons p ps ih =>
    rw [List.flatMap_cons, List.length_append, ih, length_bytes, List.length_cons]
    omega

theorem storePackets_cons (m : Memory Byte) (i : ℕ) (p : RxPacket) (ps : List RxPacket) :
    storePackets m i (p :: ps) = storePackets (m.store (i * 8) p.bytes) (i + 1) ps := by
  unfold storePackets
  rw [List.flatMap_cons, Memory.store_append, length_bytes, Nat.succ_mul]

/-- **Spec of the loop.**  Result and buffer, from the packets taken. -/
theorem dataPackets_spec (attempt : Byte → W → Attempt RxPacket × W) (size k i : ℕ)
    (s : InState W) :
    (dataPackets attempt size k i s).1 =
        ((takenPackets attempt size k i s.recv s.bus).2).getD
          (s.bytesReceived + countBytes (takenPackets attempt size k i s.recv s.bus).1).toInt ∧
      (dataPackets attempt size k i s).2.response =
        if size = 0 then s.response
        else s.response.map fun m =>
          storePackets m i (takenPackets attempt size k i s.recv s.bus).1 := by
  have hnil : ∀ (i : ℕ) (r : Option (Memory Byte)),
      r = if size = 0 then r else r.map fun m => storePackets m i [] := by
    intro i r
    split
    · rfl
    · simp [storePackets]
  induction k generalizing i s with
  | zero => exact ⟨by simp [dataPackets, takenPackets, countBytes], hnil i s.response⟩
  | succ k ih =>
    rw [dataPackets, takenPackets]
    cases attempts (attempt s.recv) 8 s.bus with
    | mk r w =>
      cases r with
      | error ret => exact ⟨rfl, hnil i s.response⟩
      | ok p =>
        dsimp only
        split
        · refine ⟨by simp [InState.take, countBytes], ?_⟩
          simp [InState.take, storePackets]
        · obtain ⟨hret, hresponse⟩ := ih (i + 1) (s.take size i p w)
          rw [hret, hresponse]
          refine ⟨by simp [InState.take, countBytes, BitVec.add_assoc], ?_⟩
          by_cases hzero : size = 0
          · simp [InState.take, hzero]
          · simp only [InState.take, hzero, if_false, Option.map_map]
            congr 1
            funext m
            exact (storePackets_cons ..).symm

/-- Every packet but the last has the expected length. -/
theorem taken_expected (attempt : Byte → W → Attempt RxPacket × W) (size k i : ℕ) (recv : Byte)
    (w : W) {qs : List RxPacket} {p q : RxPacket}
    (h : (takenPackets attempt size k i recv w).1 = qs ++ [p]) (hq : q ∈ qs) :
    ∃ j < qs.length, q.len.toNat = inPacketSizeBits size (i + j) := by
  induction k generalizing i recv w qs with
  | zero => simp [takenPackets] at h
  | succ k ih =>
    rw [takenPackets] at h
    cases hrun : attempts (attempt recv) 8 w with
    | mk r w' =>
      rw [hrun] at h
      cases r with
      | error ret => simp at h
      | ok p' =>
        dsimp only at h
        cases qs with
        | nil => cases hq
        | cons q' qs =>
          split at h
          · simp at h
          · rename_i hlen
            rw [List.cons_append] at h
            obtain ⟨rfl, hrest⟩ := List.cons.inj h
            rcases List.mem_cons.mp hq with rfl | hq
            · exact ⟨0, Nat.succ_pos _, not_not.mp hlen⟩
            · obtain ⟨j, hj, hexp⟩ := ih (i + 1) p'.pid w' hrest hq
              exact ⟨j + 1, Nat.succ_lt_succ hj, by rw [hexp, Nat.add_right_comm, Nat.add_assoc]⟩

/-! ## Section 2: Lengths and payloads -/

/-- The payload of a packet: as many bytes as its length leaves for it, of the eight the
receiver keeps. -/
def RxPacket.payload (p : RxPacket) : List Byte := p.bytes.take ((p.len.toNat - 24) / 8)

/-- The length of a packet has room for PID and check-sum, and leaves not more than eight bytes,
and none when no bytes are asked for. -/
def SoundLength (size : ℕ) (p : RxPacket) : Prop :=
  24 ≤ p.len.toNat ∧ (p.len.toNat - 24) / 8 ≤ min 8 size

theorem toNat_byteCount (p : RxPacket) :
    p.byteCount.toNat =
      if 24 ≤ p.len.toNat then (p.len.toNat - 24) / 8
      else (0x100000000 + p.len.toNat - 24) / 8 := by
  have hlt := p.len.isLt
  unfold RxPacket.byteCount
  have h8 : (8 : BitVec 32).toNat = 8 := rfl
  have h16 : (16 : BitVec 32).toNat = 16 := rfl
  rw [BitVec.toNat_udiv, BitVec.toNat_sub, BitVec.toNat_sub, BitVec.toNat_setWidth, h8, h16]
  split <;> omega

theorem length_payload (p : RxPacket) : p.payload.length = min ((p.len.toNat - 24) / 8) 8 := by
  rw [RxPacket.payload, List.length_take, length_bytes]

/-- The count of a packet is the length of its payload exactly if the length is sound. -/
theorem byteCount_eq_iff {p : RxPacket} :
    p.byteCount.toNat = p.payload.length ↔
      24 ≤ p.len.toNat ∧ (p.len.toNat - 24) / 8 ≤ 8 := by
  have hlt := p.len.isLt
  rw [toNat_byteCount, length_payload]
  split <;> omega

theorem byteCount_lt (p : RxPacket) : p.byteCount.toNat < 0x40000000 := by
  have hlt := p.len.isLt
  rw [toNat_byteCount]
  split <;> omega

theorem SoundLength.byteCount {size : ℕ} {p : RxPacket} (h : SoundLength size p) :
    p.byteCount.toNat = p.payload.length :=
  byteCount_eq_iff.mpr ⟨h.1, h.2.trans (Nat.min_le_left _ _)⟩

/-- Payloads of packets with sound lengths are counted right, up to the width of the count. -/
theorem toNat_countBytes {size : ℕ} {ps : List RxPacket} (h : ∀ p ∈ ps, SoundLength size p) :
    (countBytes ps).toNat = (ps.flatMap RxPacket.payload).length % 0x100000000 := by
  induction ps with
  | nil => rfl
  | cons p ps ih =>
    have hp := (h p List.mem_cons_self).byteCount
    have hps := ih fun q hq => h q (List.mem_cons_of_mem p hq)
    unfold countBytes at hps ⊢
    rw [List.map_cons, List.sum_cons, BitVec.toNat_add, hps, hp, List.flatMap_cons,
      List.length_append]
    omega

/-! ## Section 3: Filling a buffer -/

/-- The payload bytes of the packets, in order. -/
def payloads (ps : List RxPacket) : List Byte := ps.flatMap RxPacket.payload

/-- A request stores inside the buffer only; a value that is not negative is the number of
payload bytes of the packets taken, fits into the buffer, and that many bytes of the buffer are
these payload bytes. -/
structure FillsBuffer (size : ℕ) (ps : List RxPacket)
    (request : Option (Memory Byte) → ℤ × Option (Memory Byte)) : Prop where
  confined : ∀ m m' a, (request (some m)).2 = some m' → size ≤ a → m' a = m a
  counted : ∀ response, 0 ≤ (request response).1 →
    (request response).1 = (payloads ps).length ∧ (request response).1 ≤ size
  placed : ∀ m m', 0 ≤ (request (some m)).1 → (request (some m)).2 = some m' →
    m'.load 0 (request (some m)).1.toNat = payloads ps

/-- There is room for eight bytes for every packet taken, and, unless the request fails or its
count is negative as an `int`, every length is sound. -/
structure DeliversFit (size : ℕ) (taken : List RxPacket × Option ℤ) : Prop where
  room : size ≠ 0 → 8 * taken.1.length ≤ size
  lengths : taken.2 = none → (countBytes taken.1).toNat < 0x80000000 →
    ∀ p ∈ taken.1, SoundLength size p

/-- What a request makes of the packets it takes. -/
structure Collects (size : ℕ) (taken : List RxPacket × Option ℤ)
    (request : Option (Memory Byte) → ℤ × Option (Memory Byte)) : Prop where
  ret : ∀ response, (request response).1 = taken.2.getD (countBytes taken.1).toInt
  response : ∀ response, (request response).2 =
    if size = 0 then response else response.map fun m => storePackets m 0 taken.1
  error : ∀ ret, taken.2 = some ret → ret < 0
  expected : ∀ qs p, taken.1 = qs ++ [p] → ∀ q ∈ qs, ∃ j < qs.length,
    q.len.toNat = inPacketSizeBits size j

variable {size : ℕ} {taken : List RxPacket × Option ℤ}
  {request : Option (Memory Byte) → ℤ × Option (Memory Byte)}

theorem toInt_nonneg_iff (x : BitVec 32) :
    (0 ≤ x.toInt ↔ x.toNat < 0x80000000) ∧ (0 ≤ x.toInt → x.toInt = x.toNat) := by
  have hlt := x.isLt
  rw [BitVec.toInt_eq_toNat_cond]
  constructor <;> split <;> omega

/-- Where there is room, every packet but the last has a sound length, and is stored as it is. -/
theorem Collects.sound_init (h : Collects size taken request)
    (hroom : size ≠ 0 → 8 * taken.1.length ≤ size) {qs : List RxPacket} {p q : RxPacket}
    (htaken : taken.1 = qs ++ [p]) (hq : q ∈ qs) :
    SoundLength size q ∧ (size ≠ 0 → q.payload = q.bytes) := by
  obtain ⟨j, hj, hexp⟩ := h.expected qs p htaken q hq
  by_cases hzero : size = 0
  · subst hzero
    have hlen : q.len.toNat = 24 := by
      rw [hexp, inPacketSizeBits, if_neg (by simp [lowSpeedDataSize])]
      rfl
    refine ⟨⟨by omega, by omega⟩, fun hne => absurd rfl hne⟩
  · have hbytes := hroom hzero
    rw [htaken, List.length_append, List.length_singleton] at hbytes
    have hlen : q.len.toNat = 88 := by
      rw [hexp, inPacketSizeBits, if_pos (by unfold lowSpeedDataSize; omega)]
      rfl
    refine ⟨⟨by omega, by omega⟩, fun _ => ?_⟩
    rw [RxPacket.payload, hlen]
    exact List.take_of_length_le (by simp)

/-- The payloads are the first bytes of what is stored. -/
theorem Collects.payloads_eq (h : Collects size taken request) (hne : size ≠ 0)
    (hroom : 8 * taken.1.length ≤ size) :
    payloads taken.1 =
      (taken.1.flatMap RxPacket.bytes).take (payloads taken.1).length := by
  rcases List.eq_nil_or_concat taken.1 with hnil | ⟨qs, p, htaken⟩
  · rw [hnil]
    rfl
  · rw [List.concat_eq_append] at htaken
    have hqs : qs.flatMap RxPacket.payload = qs.flatMap RxPacket.bytes :=
      List.flatMap_congr fun q hq => (h.sound_init (fun _ => hroom) htaken hq).2 hne
    unfold payloads
    rw [htaken, List.flatMap_append, List.flatMap_append, hqs, List.length_append,
      List.take_length_add_append]
    congr 1
    simp [RxPacket.payload]

theorem Collects.room_of_confined (h : Collects size taken request)
    (hconfined : ∀ m m' a, (request (some m)).2 = some m' → size ≤ a → m' a = m a)
    (hne : size ≠ 0) : 8 * taken.1.length ≤ size := by
  by_contra hlarge
  have hlen := length_flatMap_bytes taken.1
  have hlt : size < (taken.1.flatMap RxPacket.bytes).length := by omega
  -- a memory that does not hold the byte stored behind the buffer
  obtain ⟨x, hx⟩ : ∃ x : Byte, x ≠ (taken.1.flatMap RxPacket.bytes)[size] :=
    ⟨_, fun heq : (taken.1.flatMap RxPacket.bytes)[size] + 1 = _ => by
      have := congrArg BitVec.toNat heq
      rw [BitVec.toNat_add] at this
      have hbyte := ((taken.1.flatMap RxPacket.bytes)[size]).isLt
      have hone : (1 : Byte).toNat = 1 := rfl
      omega⟩
  have hresponse := h.response (some fun _ => x)
  rw [if_neg hne] at hresponse
  have hsame := hconfined (fun _ => x) _ size hresponse (Nat.le_refl _)
  have hstored := Memory.store_getElem (fun _ => x) 0 size _ hlt
  rw [Nat.zero_add] at hstored
  exact hx (hsame.symm.trans hstored)

/-- A count that comes out right leaves no packet with an unsound length. -/
theorem Collects.sound_of_counted (h : Collects size taken request)
    (hroom : size ≠ 0 → 8 * taken.1.length ≤ size)
    (hcount : (countBytes taken.1).toNat = (payloads taken.1).length)
    (hsmall : (countBytes taken.1).toNat < 0x80000000)
    (hle : (countBytes taken.1).toNat ≤ size) : ∀ p ∈ taken.1, SoundLength size p := by
  rcases List.eq_nil_or_concat taken.1 with hnil | ⟨qs, p, htaken⟩
  · simp [hnil]
  · rw [List.concat_eq_append] at htaken
    have hinit : ∀ q ∈ qs, SoundLength size q :=
      fun q hq => (h.sound_init hroom htaken hq).1
    have hqs := toNat_countBytes hinit
    have hp := byteCount_lt p
    have hlast : (countBytes taken.1).toNat =
        ((countBytes qs).toNat + p.byteCount.toNat) % 0x100000000 := by
      rw [htaken, countBytes, List.map_append, List.sum_append, BitVec.toNat_add]
      simp [countBytes]
    have hlen : (payloads taken.1).length =
        (qs.flatMap RxPacket.payload).length + p.payload.length := by
      simp [payloads, htaken]
    -- the payloads before the last packet are counted without overflow
    have hpayload : p.byteCount.toNat = p.payload.length := by omega
    obtain ⟨h24, h8⟩ := byteCount_eq_iff.mp hpayload
    intro q hq
    rw [htaken] at hq
    rcases List.mem_append.mp hq with hq | hq
    · exact hinit q hq
    · rw [List.mem_singleton.mp hq]
      refine ⟨h24, Nat.le_min.mpr ⟨h8, ?_⟩⟩
      by_cases hzero : size = 0
      · rw [length_payload] at hpayload hlen
        omega
      · have hbytes := hroom hzero
        rw [htaken, List.length_append, List.length_singleton] at hbytes
        omega

/-- Payloads with sound lengths fit into the buffer. -/
theorem Collects.length_payloads_le (h : Collects size taken request)
    (hroom : size ≠ 0 → 8 * taken.1.length ≤ size)
    (hsound : ∀ p ∈ taken.1, SoundLength size p) : (payloads taken.1).length ≤ size := by
  by_cases hzero : size = 0
  · have hnil : payloads taken.1 = [] := by
      refine List.flatMap_eq_nil_iff.mpr fun p hp => List.length_eq_zero_iff.mp ?_
      have hle := (hsound p hp).2
      rw [length_payload]
      omega
    rw [hnil]
    exact Nat.zero_le _
  · have hlen := length_flatMap_bytes taken.1
    have hle := hroom hzero
    rw [h.payloads_eq hzero hle, List.length_take]
    omega

/-- Of a value that is not negative, once the packets fit. -/
theorem Collects.ret_of_fit (h : Collects size taken request) (hfit : DeliversFit size taken)
    (hsize : size < 0x100000000) {response : Option (Memory Byte)}
    (hpos : 0 ≤ (request response).1) :
    (request response).1 = (payloads taken.1).length ∧
      (payloads taken.1).length ≤ size := by
  rw [h.ret response] at hpos ⊢
  cases hdone : taken.2 with
  | some ret =>
    rw [hdone] at hpos
    exact absurd hpos (Int.not_le.mpr (h.error ret hdone))
  | none =>
    rw [hdone] at hpos
    obtain ⟨hnonneg, hvalue⟩ := toInt_nonneg_iff (countBytes taken.1)
    have hsound := hfit.lengths hdone (hnonneg.mp hpos)
    have hcount := toNat_countBytes hsound
    have hle := h.length_payloads_le hfit.room hsound
    refine ⟨(hvalue hpos).trans ?_, hle⟩
    rw [hcount]
    exact congrArg Int.ofNat (Nat.mod_eq_of_lt (Nat.lt_of_le_of_lt hle hsize))

/-- **Filling a buffer.**  A request that collects packets keeps to its buffer exactly if they fit.
-/
theorem Collects.fillsBuffer_iff (h : Collects size taken request)
    (hsize : size < 0x100000000) :
    FillsBuffer size taken.1 request ↔ DeliversFit size taken := by
  constructor
  · intro hfills
    have hroom : size ≠ 0 → 8 * taken.1.length ≤ size := h.room_of_confined hfills.confined
    refine ⟨hroom, fun hdone hsmall => ?_⟩
    have hret := h.ret none
    rw [hdone] at hret
    obtain ⟨hnonneg, hvalue⟩ := toInt_nonneg_iff (countBytes taken.1)
    have hpos := hnonneg.mpr hsmall
    obtain ⟨hcounted, hle⟩ := hfills.counted none (by rw [hret]; exact hpos)
    have hret' : (request none).1 = (countBytes taken.1).toNat := hret.trans (hvalue hpos)
    exact h.sound_of_counted hroom (by omega) hsmall (by omega)
  · intro hfit
    refine ⟨fun m m' a hm' ha => ?_, fun response hpos => ?_, fun m m' hpos hm' => ?_⟩
    · rw [h.response] at hm'
      split at hm'
      · rw [Option.some.inj hm']
      · rename_i hne
        obtain rfl := Option.some.inj hm'
        refine Memory.store_of_ge _ _ ?_
        rw [length_flatMap_bytes, Nat.zero_mul, Nat.zero_add]
        exact (hfit.room hne).trans ha
    · obtain ⟨hret, hle⟩ := h.ret_of_fit hfit hsize hpos
      exact ⟨hret, by omega⟩
    · obtain ⟨hret, hle⟩ := h.ret_of_fit hfit hsize hpos
      rw [hret, Int.toNat_natCast]
      rw [h.response] at hm'
      split at hm'
      · rename_i hzero
        have hnil : payloads taken.1 = [] := List.length_eq_zero_iff.mp (by omega)
        rw [hnil]
        rfl
      · rename_i hne
        obtain rfl := Option.some.inj hm'
        have hroom := hfit.room hne
        have hlen := length_flatMap_bytes taken.1
        have hpay := h.payloads_eq hne hroom
        have hshort : (payloads taken.1).length ≤ (taken.1.flatMap RxPacket.bytes).length := by
          rw [hpay, List.length_take]
          exact Nat.min_le_right _ _
        refine Eq.trans ?_ hpay.symm
        exact Memory.load_store_take _ _ hshort

/-! ## Section 4: Requests -/

/-- The packets `usb10_in_request` takes. -/
def inTaken (bus : Bus W) (pids : LastDataPids) (addr endp size : ℕ) (w : W) :
    List RxPacket × Option ℤ :=
  if addr ≥ maxAddresses ∨ endp ≥ maxEndpoints then ([], some (-999))
  else if !bus.free w then ([], some (-1))
  else takenPackets (inAttempt bus addr endp) size (numOfDataPackets size) 0
    (pids addr endp).recv w

/-- The packets the data stage of `usb10_setup_request` takes. -/
def setupTaken (bus : SetupBus W) (pids : LastDataPids) (addr endp : ℕ) (request : Memory Byte)
    (size : ℕ) (w : W) : List RxPacket × Option ℤ :=
  if addr ≥ maxAddresses then ([], some (-999))
  else if !bus.free w then ([], some (-1))
  else
    match setupStage bus addr endp request 2 { bus := w, pids := setupPids pids addr endp } with
    | (.error ret, _) => ([], some ret)
    | (.ok (), s) =>
      takenPackets (dataAttempt bus.toBus addr endp) size (setupDataPackets size) 0
        (s.pids addr endp).recv (s.bus, [])

theorem takenPackets_error {attempt : Byte → W → Attempt RxPacket × W}
    (hneg : ∀ recv w ret, (attempt recv w).1.toExcept = .error ret → ret < 0) (size k i : ℕ)
    (recv : Byte) (w : W) {ret : ℤ} (h : (takenPackets attempt size k i recv w).2 = some ret) :
    ret < 0 := by
  have hattempts : ∀ recv retry w ret, (attempts (attempt recv) retry w).1 = .error ret →
      ret < 0 := fun recv retry w =>
    attempts_rule (P := fun _ a _ => ∀ ret, a = .error ret → ret < 0) (fun w => hneg recv w)
      (fun _ _ _ _ _ _ h => h) retry w
  induction k generalizing i recv w with
  | zero => cases h
  | succ k ih =>
    rw [takenPackets] at h
    cases hrun : attempts (attempt recv) 8 w with
    | mk r w' =>
      rw [hrun] at h
      cases r with
      | error ret' =>
        obtain rfl := Option.some.inj h
        exact hattempts recv 8 w ret' (by rw [hrun])
      | ok p =>
        dsimp only at h
        split at h
        · cases h
        · exact ih (i + 1) p.pid w' h

theorem inAttempt_error (bus : Bus W) (addr endp : ℕ) (recv : Byte) (w : W) (ret : ℤ)
    (h : (inAttempt bus addr endp recv w).1.toExcept = .error ret) : ret < 0 := by
  unfold inAttempt at h
  split at h
  · cases h; decide
  · repeat' split at h
    all_goals first | (cases h; decide) | cases h

theorem dataAttempt_error (bus : Bus W) (addr endp : ℕ) (recv : Byte) (s : W × List Judged)
    (ret : ℤ) (h : (dataAttempt bus addr endp recv s).1.toExcept = .error ret) : ret < 0 := by
  unfold dataAttempt at h
  split at h
  · cases h; decide
  · repeat' split at h
    all_goals first | (cases h; decide) | cases h

theorem setupStage_error (bus : SetupBus W) (addr endp : ℕ) (request : Memory Byte) (retry : ℕ)
    (s : SetupState W) (ret : ℤ)
    (h : (setupStage bus addr endp request retry s).1 = .error ret) : ret < 0 := by
  induction retry generalizing s with
  | zero =>
    rcases setup_cases bus addr endp (s.packet addr request) s.bus with
      ⟨w₁, htoken⟩ | ⟨w₁, htoken, ⟨w₂, hdata⟩ | ⟨w₂, hdata, ⟨w₃, hnone⟩ | ⟨w₃, hack⟩ |
        ⟨pid, w₃, hother, hpid⟩⟩⟩
    · rw [setupStage_tokenHung htoken] at h
      cases h; decide
    · rw [setupStage_dataHung htoken hdata] at h
      cases h; decide
    · rw [setupStage_unanswered_last htoken hdata hnone] at h
      cases h; decide
    · rw [setupStage_acked htoken hdata hack] at h
      cases h
    · rw [setupStage_answered_last htoken hdata hother hpid] at h
      cases h; decide
  | succ retry ih =>
    rcases setup_cases bus addr endp (s.packet addr request) s.bus with
      ⟨w₁, htoken⟩ | ⟨w₁, htoken, ⟨w₂, hdata⟩ | ⟨w₂, hdata, ⟨w₃, hnone⟩ | ⟨w₃, hack⟩ |
        ⟨pid, w₃, hother, hpid⟩⟩⟩
    · rw [setupStage_tokenHung htoken] at h
      cases h; decide
    · rw [setupStage_dataHung htoken hdata] at h
      cases h; decide
    · rw [setupStage_unanswered htoken hdata hnone] at h
      exact ih _ h
    · rw [setupStage_acked htoken hdata hack] at h
      cases h
    · rw [setupStage_answered htoken hdata hother hpid] at h
      exact ih _ h

theorem collects_inRequest (bus : Bus W) (pids : LastDataPids) (addr endp size : ℕ) (w : W) :
    Collects size (inTaken bus pids addr endp size w) fun response =>
      ((usb10InRequest bus pids addr endp response size w).ret,
        (usb10InRequest bus pids addr endp response size w).response) := by
  unfold inTaken usb10InRequest
  have hnone : ∀ (response : Option (Memory Byte)),
      response = if size = 0 then response else response.map fun m => storePackets m 0 [] :=
    fun response => by split <;> simp [storePackets]
  split
  · exact ⟨fun _ => rfl, hnone, fun _ h => by cases h; decide, fun _ _ h => by simp at h⟩
  · split
    · exact ⟨fun _ => rfl, hnone, fun _ h => by cases h; decide, fun _ _ h => by simp at h⟩
    · dsimp only
      refine ⟨fun response => ?_, fun response => ?_, fun ret h => ?_, fun qs p h q hq => ?_⟩
      · have hspec := (dataPackets_spec (inAttempt bus addr endp) size (numOfDataPackets size) 0
          ⟨w, (pids addr endp).recv, response, 0⟩).1
        dsimp only at hspec
        rw [← inPackets_eq, zero_add] at hspec
        exact hspec
      · have hspec := (dataPackets_spec (inAttempt bus addr endp) size (numOfDataPackets size) 0
          ⟨w, (pids addr endp).recv, response, 0⟩).2
        rw [← inPackets_eq] at hspec
        exact hspec
      · exact takenPackets_error (inAttempt_error bus addr endp) size _ 0 _ w h
      · simpa using taken_expected (inAttempt bus addr endp) size _ 0 _ w h hq

theorem collects_setupRequest (bus : SetupBus W) (pids : LastDataPids) (addr endp : ℕ)
    (request : Memory Byte) (size : ℕ) (w : W) :
    Collects size (setupTaken bus pids addr endp request size w) fun response =>
      ((usb10SetupRequest bus pids addr endp request response size w).ret,
        (usb10SetupRequest bus pids addr endp request response size w).response) := by
  unfold setupTaken usb10SetupRequest
  have hnone : ∀ (response : Option (Memory Byte)),
      response = if size = 0 then response else response.map fun m => storePackets m 0 [] :=
    fun response => by split <;> simp [storePackets]
  split
  · exact ⟨fun _ => rfl, hnone, fun _ h => by cases h; decide, fun _ _ h => by simp at h⟩
  · split
    · exact ⟨fun _ => rfl, hnone, fun _ h => by cases h; decide, fun _ _ h => by simp at h⟩
    · have herror := setupStage_error bus addr endp request 2
        { bus := w, pids := setupPids pids addr endp }
      cases hrun : setupStage bus addr endp request 2
          { bus := w, pids := setupPids pids addr endp } with
      | mk r s =>
        rw [hrun] at herror
        cases r with
        | error ret =>
          exact ⟨fun _ => rfl, hnone, fun _ h => by cases h; exact herror ret rfl,
            fun _ _ h => by simp at h⟩
        | ok _ =>
          dsimp only
          refine ⟨fun response => ?_, fun response => ?_, fun ret h => ?_,
            fun qs p h q hq => ?_⟩
          · have hspec := (dataPackets_spec (dataAttempt bus.toBus addr endp) size
              (setupDataPackets size) 0
              ⟨(s.bus, []), (s.pids addr endp).recv, response, 0⟩).1
            dsimp only at hspec
            rw [zero_add] at hspec
            exact hspec
          · exact (dataPackets_spec (dataAttempt bus.toBus addr endp) size
              (setupDataPackets size) 0
              ⟨(s.bus, []), (s.pids addr endp).recv, response, 0⟩).2
          · exact takenPackets_error (dataAttempt_error bus.toBus addr endp) size _ 0 _ _ h
          · simpa using taken_expected (dataAttempt bus.toBus addr endp) size _ 0 _ _ h hq

/-- **Responses and their buffers.**  Both requests keep to the buffer and report it right
exactly if the device delivers packets that fit. -/
theorem responses_iff (bus : SetupBus W) (pids : LastDataPids) (addr endp : ℕ)
    (request : Memory Byte) (size : ℕ) (w : W) (hsize : size < 0x100000000) :
    (FillsBuffer size (setupTaken bus pids addr endp request size w).1 (fun response =>
        ((usb10SetupRequest bus pids addr endp request response size w).ret,
          (usb10SetupRequest bus pids addr endp request response size w).response)) ↔
      DeliversFit size (setupTaken bus pids addr endp request size w)) ∧
    (FillsBuffer size (inTaken bus.toBus pids addr endp size w).1 (fun response =>
        ((usb10InRequest bus.toBus pids addr endp response size w).ret,
          (usb10InRequest bus.toBus pids addr endp response size w).response)) ↔
      DeliversFit size (inTaken bus.toBus pids addr endp size w)) :=
  ⟨(collects_setupRequest bus pids addr endp request size w).fillsBuffer_iff hsize,
    (collects_inRequest bus.toBus pids addr endp size w).fillsBuffer_iff hsize⟩

/-! ## Section 5: A device -/

/-- A device that acknowledges everything and answers `IN` tokens with packets of these lengths
in bits, each with the numbers from 1 to 8, and then no more.  Its state is what it has still to
send, and whether the next packet is a `DATA1`. -/
def countingDevice : SetupBus (List Byte × Bool) where
  free _ := true
  tokenIn _ _ w :=
    match w.1 with
    | [] => (none, w)
    | len :: lens =>
      (some ⟨if w.2 then pidData1 else pidData0, len, true, 0x04030201, 0x08070605⟩, (lens, !w.2))
  sendAck w := (true, w)
  tokenOut _ _ w := (true, w)
  sendData _ w := (true, w)
  answer w := (some pidAck, w)
  tokenSetup _ _ w := (true, w)

/-- A response of 16 bytes in two packets. -/
theorem responses_twoPackets :
    FillsBuffer 16 (setupTaken countingDevice (usb10BusReset fun _ _ => ⟨0, 0⟩) 0 0 (fun _ => 0) 16
        ([88, 88], true)).1 (fun response =>
      ((usb10SetupRequest countingDevice (usb10BusReset fun _ _ => ⟨0, 0⟩) 0 0 (fun _ => 0)
          response 16 ([88, 88], true)).ret,
        (usb10SetupRequest countingDevice (usb10BusReset fun _ _ => ⟨0, 0⟩) 0 0 (fun _ => 0)
          response 16 ([88, 88], true)).response)) := by
  refine (responses_iff countingDevice (usb10BusReset fun _ _ => ⟨0, 0⟩) 0 0 (fun _ => 0) 16
    ([88, 88], true) (by decide)).1.mpr ⟨by decide, fun _ _ => ?_⟩
  unfold SoundLength
  decide

/-- A device descriptor of 18 bytes comes in three packets, and 24 bytes are stored. -/
theorem not_fillsBuffer_descriptor :
    (setupTaken countingDevice (usb10BusReset fun _ _ => ⟨0, 0⟩) 0 0 (fun _ => 0) 18
        ([88, 88, 40], true)).1.map RxPacket.len = [88, 88, 40] ∧
      (usb10SetupRequest countingDevice (usb10BusReset fun _ _ => ⟨0, 0⟩) 0 0 (fun _ => 0)
        (some fun _ => 1) 18 ([88, 88, 40], true)).ret = 18 ∧
      ¬ FillsBuffer 18 (setupTaken countingDevice (usb10BusReset fun _ _ => ⟨0, 0⟩) 0 0 (fun _ => 0)
          18 ([88, 88, 40], true)).1 (fun response =>
        ((usb10SetupRequest countingDevice (usb10BusReset fun _ _ => ⟨0, 0⟩) 0 0 (fun _ => 0)
            response 18 ([88, 88, 40], true)).ret,
          (usb10SetupRequest countingDevice (usb10BusReset fun _ _ => ⟨0, 0⟩) 0 0 (fun _ => 0)
            response 18 ([88, 88, 40], true)).response)) := by
  refine ⟨by decide, by decide, fun h => ?_⟩
  have hsome : ∃ m, (usb10SetupRequest countingDevice (usb10BusReset fun _ _ => ⟨0, 0⟩) 0 0
      (fun _ => 0) (some fun _ => 1) 18 ([88, 88, 40], true)).response = some m ∧ m 18 = 3 :=
    ⟨_, rfl, by decide⟩
  obtain ⟨m, hm, hthree⟩ := hsome
  have hone := h.confined (fun _ => 1) m 18 hm (Nat.le_refl _)
  rw [hthree] at hone
  exact absurd hone (by decide)

end Karnix.Usb
