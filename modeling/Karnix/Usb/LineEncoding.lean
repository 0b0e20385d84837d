import Karnix.Usb.BitTimes

/-!
# Line encoding of the USB senders

What the senders put on the line, compared with NRZI of the bit-stuffed packet.

Token senders do not stuff at all, which shows in long tokens.  The sender of data stuffs, but
ends the packet when the last bit of the CRC is out, even if a stuff bit is due.
-/

namespace Karnix.Usb

open Karnix.Library

/-! ## Section 1: Tokens -/

/-- The slots of a token sender with `n` bits. -/
structure TokenSlots {w : ℕ} (last : BitVec w) (slot : BitVec w → Bool → Slot) (n : ℕ) : Prop where
  bit : ∀ i < n, ∀ strobe, slot (BitVec.ofNat w i) strobe = .bit
  bit_end : slot (BitVec.ofNat w n) false = .bit
  end_strobe : slot (BitVec.ofNat w n) true = .eopSE0
  eopSE0 : ∀ i, i = n + 1 ∨ i = n + 2 → ∀ strobe, slot (BitVec.ofNat w i) strobe = .eopSE0
  eopJ : slot (BitVec.ofNat w (n + 3)) false = .eopJ
  ready : ∀ i strobe, slot i strobe = .ready → i = last

theorem longTokenSlots : TokenSlots 36 longTokenSlot 32 where
  bit := by decide
  bit_end := by decide
  end_strobe := by decide
  eopSE0 := by rintro i (rfl | rfl) <;> decide
  eopJ := by decide
  ready := by decide

theorem shortTokenSlots : TokenSlots 20 shortTokenSlot 16 where
  bit := by decide
  bit_end := by decide
  end_strobe := by decide
  eopSE0 := by rintro i (rfl | rfl) <;> decide
  eopJ := by decide
  ready := by decide

section Tokens

variable {w : ℕ} {last : BitVec w} {slot : BitVec w → Bool → Slot} {n : ℕ}
  {buffer : BitVec w → Bool}

theorem sendToken_tick (hslots : TokenSlots last slot n) (x : TokenRegs w) :
    (sendToken last slot buffer).tick false x = x := by
  obtain ⟨bitCount, kj⟩ := x
  cases h : slot bitCount false with
  | ready =>
    obtain rfl : bitCount = last := hslots.ready _ _ h
    simp [sendToken, h]
  | eopJ => simp [sendToken, h]
  | eopSE0 => simp [sendToken, h]
  | bit => simp [sendToken, h]

/-- **Step lemma.**  A strobe in a slot other than the last one. -/
theorem sendToken_strobe {i : ℕ} {kj : Bool} (h : slot (BitVec.ofNat w i) true ≠ .ready) :
    (sendToken last slot buffer).strobe ⟨BitVec.ofNat w i, kj⟩ =
      ⟨BitVec.ofNat w (i + 1), if slot (BitVec.ofNat w i) true = .bit then
        LineCode.toggle kj (buffer (BitVec.ofNat w i)) else kj⟩ := by
  rw [BitVec.ofNat_add]
  cases hslot : slot (BitVec.ofNat w i) true with
  | ready => exact absurd hslot h
  | eopJ => simp [Sender.strobe, sendToken, hslot]
  | eopSE0 => simp [Sender.strobe, sendToken, hslot]
  | bit =>
    cases hbit : buffer (BitVec.ofNat w i) <;>
      simp [Sender.strobe, sendToken, hslot, hbit, LineCode.toggle]

theorem sendToken_end (hslots : TokenSlots last slot n) (kj : Bool) :
    (sendToken last slot buffer).emit 3 ⟨BitVec.ofNat w n, kj⟩ = Packet.eop := by
  have h₁ := hslots.eopSE0 (n + 1) (Or.inl rfl)
  have h₂ := hslots.eopSE0 (n + 2) (Or.inr rfl)
  simp only [Sender.emit]
  rw [sendToken_strobe (by simp [hslots.end_strobe]), sendToken_strobe (by simp [h₁]),
    sendToken_strobe (by simp [h₂])]
  simp [Sender.show_, sendToken, h₁, h₂, hslots.eopJ, Packet.eop]

/-- **Run lemma.**  What is left of a token when `m` bits are to be sent. -/
theorem sendToken_emit (buffer : BitVec w → Bool) (hslots : TokenSlots last slot n) {i m : ℕ}
    (him : i + m = n) (kj : Bool) :
    (sendToken last slot buffer).emit (m + 3) ⟨BitVec.ofNat w i, kj⟩ =
      (LineCode.nrzi kj ((List.range' i m).map fun i => buffer (BitVec.ofNat w i))).map .ofKJ ++
        Packet.eop := by
  induction m generalizing i kj with
  | zero =>
    rw [Nat.add_zero] at him
    subst him
    exact sendToken_end hslots kj
  | succ m ih =>
    -- behind the strobe of its last bit the slot is still one of a bit
    have hi : i < n := by omega
    have hbit := hslots.bit i hi
    have hshow : ∀ kj, (sendToken last slot buffer).show_ ⟨BitVec.ofNat w (i + 1), kj⟩ =
        .ofKJ kj := by
      intro kj
      have hslot : slot (BitVec.ofNat w (i + 1)) false = .bit := by
        rcases Nat.lt_or_eq_of_le hi with hlt | heq
        · exact hslots.bit (i + 1) hlt false
        · rw [show i + 1 = n from heq]
          exact hslots.bit_end
      simp [Sender.show_, sendToken, hslot]
    rw [Nat.add_right_comm, Sender.emit, sendToken_strobe (by simp [hbit]), if_pos (hbit true),
      hshow, ih (by omega), List.range'_succ, List.map_cons, LineCode.nrzi, List.map_cons,
      List.cons_append]

end Tokens

theorem lsbBits_syncPidBuffer (pid : BitVec 4) :
    lsbBits (syncPidBuffer pid) 16 = Packet.head pid := by
  have hsync : lsbBits (0b10000000 : BitVec 8) 8 = List.replicate 7 false ++ [true] := by decide
  show lsbBits (~~~ pid ++ pid ++ (0b10000000 : BitVec 8)) (8 + (4 + 4)) = _
  rw [lsbBits_append, lsbBits_append, hsync, Packet.head, List.append_assoc _ (lsbBits pid 4)]

/-- The bits that a counter of `w` bits picks from a buffer with its lowest `v` bits. -/
theorem map_buffer {w v k n : ℕ} (x : BitVec k) (hn : n = 2 ^ v) (hv : v ≤ w) :
    ((List.range' 0 n).map fun i => x.getLsbD ((BitVec.ofNat w i).extractLsb' 0 v).toNat) =
      lsbBits x n := by
  rw [lsbBits, List.range_eq_range']
  apply List.map_congr_left
  intro i hi
  have hlt : i < 2 ^ v := by simpa [hn] using List.mem_range'.mp hi
  have hlt' : i < 2 ^ w := Nat.lt_of_lt_of_le hlt (Nat.pow_le_pow_right Nat.two_pos hv)
  rw [BitVec.extractLsb'_toNat, BitVec.toNat_ofNat, Nat.mod_eq_of_lt hlt', Nat.shiftRight_zero,
    Nat.mod_eq_of_lt hlt]

/-- What a long token puts on the line: no bit is stuffed. -/
theorem sendLongToken_emit (pid : BitVec 4) (addr : BitVec 7) (endp : BitVec 4) :
    (sendLongToken pid addr endp).emit (32 + 3) ⟨0, false⟩ =
      Packet.onLine (Packet.longToken pid addr endp).stream := by
  have hbits : lsbBits (longTokenBuffer pid addr endp) 32 =
      (Packet.longToken pid addr endp).stream := by
    have hcrc : calcCrc5Usb (endp ++ addr) = crc5 (lsbBits addr 7 ++ lsbBits endp 4) := by
      rw [calcCrc5Usb_eq, ← lsbBits_append]
    show lsbBits (calcCrc5Usb (endp ++ addr) ++ endp ++ addr ++ syncPidBuffer pid)
      (16 + (7 + (4 + 5))) = _
    rw [lsbBits_append, lsbBits_append, lsbBits_append, lsbBits_syncPidBuffer, hcrc]
    simp [Packet.stream, Packet.pid, Packet.payload]
  have hemit := sendToken_emit (fun bitCount =>
    (longTokenBuffer pid addr endp).getLsbD (bitCount.extractLsb' 0 5).toNat) longTokenSlots
    (Nat.zero_add 32) false
  rw [map_buffer _ (show 32 = 2 ^ 5 from rfl) (by decide), hbits] at hemit
  exact hemit

theorem sendShortToken_emit (pid : BitVec 4) :
    (sendShortToken pid).emit (16 + 3) ⟨0, false⟩ =
      Packet.onLine (Packet.shortToken pid).stream := by
  have hemit := sendToken_emit (fun bitCount =>
    (syncPidBuffer pid).getLsbD (bitCount.extractLsb' 0 4).toNat) shortTokenSlots
    (Nat.zero_add 16) false
  rw [map_buffer _ (show 16 = 2 ^ 4 from rfl) (by decide), lsbBits_syncPidBuffer] at hemit
  rw [Packet.stream, Packet.payload, List.append_nil]
  exact hemit

/-! ## Section 2: Data -/

/-- The length field for a packet of `n` bytes. -/
def lenField (n : ℕ) : BitVec 7 := if n = 0 then 0x7f else BitVec.ofNat 7 (8 * n - 1)

theorem sendData_tick (p : DataPacket) (x : DataRegs) : (sendData p).tick false x = x := by
  obtain ⟨state, bitCount, ones, kj, crc16, crcByte⟩ := x
  cases state <;> rfl

namespace DataRegs

variable {pid : BitVec 4} {bytes : BitVec 64} {n : ℕ} {r : DataRegs}

/-- The bits of a data packet of `n` bytes. -/
def stream (pid : BitVec 4) (bytes : BitVec 64) (n : ℕ) : List Bool :=
  Packet.head pid ++ (lsbBits bytes (8 * n) ++ lsbBits (Usb.crc16 (lsbBits bytes (8 * n))) 16)

/-- The check register over the first `k` bits of the data. -/
def crcUpTo (bytes : BitVec 64) (k : ℕ) : BitVec 16 := Crc.bits 0xA001 0xFFFF (lsbBits bytes k)

/-- Which field the sender is in when `i` bits of the stream are out. -/
inductive Field (bytes : BitVec 64) (n : ℕ) (r : DataRegs) : ℕ → Prop
  | syncPid {i : ℕ} (hi : i < 16) (state : r.state = .syncPid)
      (count : r.bitCount = BitVec.ofNat 8 i) (crc : r.crc16.reverse = crcUpTo bytes 0) :
      Field bytes n r i
  | data {q m : ℕ} (hm : m < 8) (hq : q < n) (state : r.state = .data)
      (count : r.bitCount = BitVec.ofNat 8 (8 * q + m))
      (crc : r.crc16.reverse = crcUpTo bytes (8 * q))
      (byte : ∀ j < m, r.crcByte.getLsbD (8 - m + j) = bytes.getLsbD (8 * q + j)) :
      Field bytes n r (16 + (8 * q + m))
  | crc16 {k : ℕ} (hk : k ≤ 16) (state : r.state = .crc16) (count : r.bitCount = BitVec.ofNat 8 k)
      (crc : r.crc16.reverse = crcUpTo bytes (8 * n)) : Field bytes n r (16 + (8 * n + k))

/-- The sender when `i` bits of the stream are out, `c` ones in a row at the end of them. -/
structure At (bytes : BitVec 64) (n i c : ℕ) (kj : Bool) (r : DataRegs) : Prop where
  ones : r.ones = BitVec.ofNat 3 c
  ones_le : c ≤ 6
  lastKJ : r.lastKJ = kj
  field : Field bytes n r i

theorem stuffing_iff {c : ℕ} {kj : Bool} {i : ℕ} (h : At bytes n i c kj r) :
    r.stuffing = decide (c = 6) := by
  have hsix : ∀ c ≤ 6, decide (BitVec.ofNat 3 c = 6) = decide (c = 6) := by decide
  rw [stuffing, h.ones]
  exact hsix c h.ones_le

/-- Between strobes the line shows the last level. -/
theorem show_at {c : ℕ} {kj : Bool} {i : ℕ} {p : DataPacket} (h : At bytes n i c kj r) :
    (sendData p).show_ r = .ofKJ kj := by
  have hkj := h.lastKJ
  cases h.field with
  | syncPid hi state => simp [Sender.show_, sendData, state, newKJ, hkj]
  | data hm hq state => simp [Sender.show_, sendData, state, newKJ, hkj]
  | crc16 hk state => simp [Sender.show_, sendData, state, newKJ, crcEnd, hkj]

theorem getElem_head (pid : BitVec 4) {i : ℕ} (hi : i < 16) :
    (Packet.head pid)[i]? = some ((syncPidBuffer pid).getLsbD i) := by
  have hlen : i < (lsbBits (syncPidBuffer pid) 16).length := by rwa [length_lsbBits]
  rw [← lsbBits_syncPidBuffer, List.getElem?_eq_getElem hlen, getElem_lsbBits]

theorem toNat_extract {k v : ℕ} (hk : k < 2 ^ v) (hv : v ≤ 8) :
    ((BitVec.ofNat 8 k).extractLsb' 0 v).toNat = k := by
  have hk' : k < 2 ^ 8 := Nat.lt_of_lt_of_le hk (Nat.pow_le_pow_right Nat.two_pos hv)
  rw [BitVec.extractLsb'_toNat, BitVec.toNat_ofNat, Nat.mod_eq_of_lt hk', Nat.shiftRight_zero,
    Nat.mod_eq_of_lt hk]

theorem bitToSend_data {p : DataPacket} {k : ℕ} (hk : k < 64) (state : r.state = .data)
    (count : r.bitCount = BitVec.ofNat 8 k) : r.bitToSend p = p.data.getLsbD k := by
  rw [bitToSend, state, count]
  show p.data.getLsbD _ = p.data.getLsbD k
  rw [toNat_extract hk (by decide)]

/-- The bit that the sender has ready is the next one of the stream. -/
theorem bitToSend_at {i : ℕ} {p : DataPacket} (hn : n ≤ 8) (h : Field p.data n r i) {b : Bool}
    (hb : (stream p.pid p.data n)[i]? = some b) : r.bitToSend p = b := by
  have hhead : (Packet.head p.pid).length = 16 := by
    rw [← lsbBits_syncPidBuffer, length_lsbBits]
  rw [stream] at hb
  -- each field has its own buffer, indexed by the lowest bits of the counter
  cases h with
  | syncPid hi state count =>
    rw [List.getElem?_append_left (by rwa [hhead]), getElem_head p.pid hi] at hb
    rw [bitToSend, state, count]
    show (syncPidBuffer p.pid).getLsbD _ = b
    rw [toNat_extract hi (by decide)]
    exact Option.some.inj hb
  | @data q m hm hq state count =>
    have hlt : 8 * q + m < 8 * n := by omega
    have hlt' : 8 * q + m < (lsbBits p.data (8 * n)).length := by rwa [length_lsbBits]
    rw [List.getElem?_append_right (by rw [hhead]; exact Nat.le_add_right _ _), hhead,
      Nat.add_sub_cancel_left, List.getElem?_append_left hlt', List.getElem?_eq_getElem hlt',
      getElem_lsbBits] at hb
    rw [bitToSend_data (by omega) state count]
    exact Option.some.inj hb
  | @crc16 k hk state count crc =>
    have hlen : (lsbBits p.data (8 * n)).length = 8 * n := length_lsbBits _ _
    rw [List.getElem?_append_right (by rw [hhead]; exact Nat.le_add_right _ _), hhead,
      Nat.add_sub_cancel_left,
      List.getElem?_append_right (by rw [hlen]; exact Nat.le_add_right _ _), hlen,
      Nat.add_sub_cancel_left] at hb
    have hk' : k < (lsbBits (Usb.crc16 (lsbBits p.data (8 * n))) 16).length :=
      (List.getElem?_eq_some_iff.mp hb).1
    rw [List.getElem?_eq_getElem hk', getElem_lsbBits] at hb
    rw [length_lsbBits] at hk'
    rw [bitToSend, state, count]
    show (~~~ r.crc16.reverse).getLsbD _ = b
    rw [toNat_extract hk' (by decide), crc]
    exact Option.some.inj hb

/-! A strobe. -/

theorem strobe_ones (p : DataPacket) (r : DataRegs) : ((sendData p).strobe r).ones =
    if r.stuffing then 0 else if r.bitToSend p then r.ones + 1 else 0 := by
  obtain ⟨state, bitCount, ones, kj, crc, crcByte⟩ := r
  cases state with
  | syncPid =>
    simp only [Sender.strobe, sendData, makeStuffing]
    split_ifs <;> rfl
  | data =>
    simp only [Sender.strobe, sendData, makeStuffing]
    split_ifs <;> rfl
  | crc16 =>
    simp only [Sender.strobe, sendData, makeStuffing]
    split_ifs <;> rfl
  | eopSE0 => rfl
  | eopSE0' => rfl
  | eopJ => rfl
  | ready => rfl

/-- The sender has a bit of the stream to show. -/
def Sending (r : DataRegs) : Prop :=
  r.state = .syncPid ∨ r.state = .data ∨ r.state = .crc16 ∧ r.crcEnd true = false

theorem sending_of_field {i : ℕ} (h : Field bytes n r i) (hlt : i < 32 + 8 * n) : r.Sending := by
  cases h with
  | syncPid hi state => exact Or.inl state
  | data hm hq state => exact Or.inr (Or.inl state)
  | @crc16 k hk state count =>
    have hend : ∀ k < 16, (true && decide (BitVec.ofNat 8 k = 16)) = false := by decide
    exact Or.inr (Or.inr ⟨state, by rw [crcEnd, count]; exact hend k (by omega)⟩)

theorem crcEnd_false (h : r.Sending) (state : r.state = .crc16) : r.crcEnd true = false := by
  rcases h with h | h | ⟨-, h⟩
  · exact absurd (state.symm.trans h) (by decide)
  · exact absurd (state.symm.trans h) (by decide)
  · exact h

theorem strobe_lastKJ (p : DataPacket) (h : r.Sending) : ((sendData p).strobe r).lastKJ =
    if r.stuffing then !r.lastKJ else LineCode.toggle r.lastKJ (r.bitToSend p) := by
  have hnew : r.newKJ true (r.bitToSend p) =
      if r.stuffing then !r.lastKJ else LineCode.toggle r.lastKJ (r.bitToSend p) := by
    rw [newKJ, LineCode.toggle]
    cases r.stuffing <;> cases r.bitToSend p <;> rfl
  rw [← hnew]
  rcases h with state | state | ⟨state, count⟩
  · simp only [Sender.strobe, sendData, state]
    split_ifs <;> rfl
  · simp only [Sender.strobe, sendData, state]
    split_ifs <;> rfl
  · simp [Sender.strobe, sendData, state, count]

/-- A stuff bit leaves the sender where it is. -/
theorem strobe_stuff_field {i : ℕ} {p : DataPacket} (h : Field p.data n r i) (hi : 16 ≤ i)
    (hlt : i < 32 + 8 * n) (hstuff : r.stuffing = true) :
    Field p.data n ((sendData p).strobe r) i := by
  have hsending := sending_of_field h hlt
  cases h with
  -- the state that has no test of `stuffing`
  | syncPid hi' => exact absurd hi' (Nat.not_lt.mpr hi)
  | data hm hq state count crc byte =>
    apply Field.data hm hq <;>
      simp [Sender.strobe, sendData, state, makeStuffing, hstuff, count, crc]
    exact byte
  | crc16 hk state count crc =>
    have hend := crcEnd_false hsending state
    apply Field.crc16 hk <;>
      simp [Sender.strobe, sendData, state, makeStuffing, hstuff, hend, count, crc]

/-- **Step lemma.**  A strobe with a stuff bit due. -/
theorem strobe_stuff {i : ℕ} {kj : Bool} {p : DataPacket} (h : At p.data n i 6 kj r) (hi : 16 ≤ i)
    (hlt : i < 32 + 8 * n) : At p.data n i 0 (!kj) ((sendData p).strobe r) := by
  have hstuff : r.stuffing = true := stuffing_iff h
  refine ⟨?_, Nat.zero_le 6, ?_, strobe_stuff_field h.field hi hlt hstuff⟩
  · rw [strobe_ones, if_pos hstuff]
    rfl
  · rw [strobe_lastKJ p (sending_of_field h.field hlt), if_pos hstuff, h.lastKJ]

/-- What a strobe with a bit of the data does to the registers. -/
theorem strobe_data {p : DataPacket} (state : r.state = .data) (hstuff : r.stuffing = false) :
    let crcByteNext := BitVec.ofBool (r.bitToSend p) ++ r.crcByte.extractLsb' 1 7
    let r' := (sendData p).strobe r
    r'.crcByte = crcByteNext ∧
      (r'.crc16 = if r.bitCount.extractLsb' 0 3 = 0b111 then
        calcCrc16Usb r.crc16 crcByteNext.reverse else r.crc16) ∧
      (r.bitCount = p.len.setWidth 8 → r'.state = .crc16 ∧ r'.bitCount = 0) ∧
      (r.bitCount ≠ p.len.setWidth 8 → r'.state = .data ∧ r'.bitCount = r.bitCount + 1) := by
  by_cases hcount : r.bitCount = p.len.setWidth 8
  · simp [Sender.strobe, sendData, state, makeStuffing, hstuff, hcount]
  · simp [Sender.strobe, sendData, state, makeStuffing, hstuff, hcount]

/-- The counter of the data at the last bit of the packet. -/
theorem count_eq_len {q m : ℕ} (hn : n ≤ 8) (hm : m < 8) (hq : q < n) :
    BitVec.ofNat 8 (8 * q + m) = (lenField n).setWidth 8 ↔ m = 7 ∧ q + 1 = n := by
  have hn0 : n ≠ 0 := Nat.ne_of_gt (Nat.zero_lt_of_lt hq)
  rw [lenField, if_neg hn0, ← BitVec.toNat_inj, BitVec.toNat_setWidth, BitVec.toNat_ofNat,
    BitVec.toNat_ofNat]
  omega

/-- The counter of the data at the last bit of a byte. -/
theorem count_byte {q m : ℕ} (hm : m < 8) :
    (BitVec.ofNat 8 (8 * q + m)).extractLsb' 0 3 = 0b111 ↔ m = 7 := by
  rw [← BitVec.toNat_inj, BitVec.extractLsb'_toNat, BitVec.toNat_ofNat, Nat.shiftRight_zero]
  show (8 * q + m) % 256 % 8 = 7 ↔ m = 7
  omega

/-- The bits of the byte with one more of them. -/
theorem byte_next {bytes : BitVec 64} {crcByte : BitVec 8} {q m : ℕ} (hm : m < 8)
    (byte : ∀ j < m, crcByte.getLsbD (8 - m + j) = bytes.getLsbD (8 * q + j)) :
    ∀ j < m + 1, (BitVec.ofBool (bytes.getLsbD (8 * q + m)) ++ crcByte.extractLsb' 1 7).getLsbD
      (8 - (m + 1) + j) = bytes.getLsbD (8 * q + j) := by
  intro j hj
  rw [BitVec.getLsbD_append]
  rcases Nat.lt_or_eq_of_le (Nat.lt_succ_iff.mp hj) with hlt | rfl
  · rw [if_pos (by omega), BitVec.getLsbD_extractLsb', decide_eq_true (by omega), Bool.true_and,
      ← byte j hlt]
    congr 1
    omega
  · rw [if_neg (by omega), show 8 - (j + 1) + j - 7 = 0 by omega]
    simp

/-- A byte is complete behind its eighth bit. -/
theorem byte_full {bytes : BitVec 64} {byte : BitVec 8} {q : ℕ}
    (h : ∀ j < 8, byte.getLsbD j = bytes.getLsbD (8 * q + j)) :
    byte = bytes.extractLsb' (8 * q) 8 := by
  apply BitVec.eq_of_getLsbD_eq
  intro j hj
  rw [h j hj, BitVec.getLsbD_extractLsb', decide_eq_true hj, Bool.true_and]

/-- `calc_crc16_usb` takes in a whole byte. -/
theorem crcUpTo_byte (bytes : BitVec 64) {crc : BitVec 16} {q : ℕ}
    (h : crc.reverse = crcUpTo bytes (8 * q)) :
    (calcCrc16Usb crc (bytes.extractLsb' (8 * q) 8).reverse).reverse =
      crcUpTo bytes (8 * (q + 1)) := by
  rw [← BitVec.reverse_reverse_eq (x := crc), calcCrc16Usb_eq, h, crcUpTo, ← Crc.bits_append,
    ← lsbBits_add]
  rfl

/-- What a strobe with a bit of the check does to the registers. -/
theorem strobe_crc16 {p : DataPacket} (state : r.state = .crc16) (hend : r.crcEnd true = false)
    (hstuff : r.stuffing = false) :
    let r' := (sendData p).strobe r
    r'.state = .crc16 ∧ r'.bitCount = r.bitCount + 1 ∧ r'.crc16 = r.crc16 := by
  simp [Sender.strobe, sendData, state, makeStuffing, hstuff, hend]

/-- What a strobe in SYNC and PID does to the registers. -/
theorem strobe_syncPid {p : DataPacket} (state : r.state = .syncPid) (hstuff : r.stuffing = false) :
    let r' := (sendData p).strobe r
    r'.crc16 = r.crc16 ∧
      (r.bitCount = 15 → r'.state = (if p.len = 0x7f then .crc16 else .data) ∧ r'.bitCount = 0) ∧
      (r.bitCount ≠ 15 → r'.state = .syncPid ∧ r'.bitCount = r.bitCount + 1) := by
  by_cases h : r.bitCount = 15#8
  · simp [Sender.strobe, sendData, state, makeStuffing, h]
  · simp [Sender.strobe, sendData, state, makeStuffing, hstuff, h]

theorem lenField_eq_max {n : ℕ} (hn : n ≤ 8) : lenField n = 0x7f ↔ n = 0 := by
  have h : ∀ n ≤ 8, lenField n = 0x7f ↔ n = 0 := by decide
  exact h n hn

theorem ofNat_succ (k : ℕ) : BitVec.ofNat 8 (k + 1) = BitVec.ofNat 8 k + 1 := BitVec.ofNat_add ..

/-- A bit of the stream moves the sender on by one place. -/
theorem strobe_bit_field {i : ℕ} {p : DataPacket} (hn : n ≤ 8) (hlen : p.len = lenField n)
    (h : Field p.data n r i) (hlt : i < 32 + 8 * n) (hstuff : r.stuffing = false) :
    Field p.data n ((sendData p).strobe r) (i + 1) := by
  have hsending := sending_of_field h hlt
  cases h with
  | syncPid hi state count crc =>
    obtain ⟨hcrc, hlast, hnext⟩ := strobe_syncPid (p := p) state hstuff
    have hcount : ∀ i < 16, BitVec.ofNat 8 i = 15 ↔ i = 15 := by decide
    rw [count, hcount i hi] at hlast
    rw [count, Ne, hcount i hi] at hnext
    by_cases h15 : i = 15
    · -- an empty packet goes on with the check right away
      obtain ⟨hstate, hzero⟩ := hlast h15
      subst h15
      rw [hlen] at hstate
      by_cases hn0 : n = 0
      · subst hn0
        apply Field.crc16 (Nat.zero_le 16)
        · rw [hstate, if_pos ((lenField_eq_max hn).mpr rfl)]
        · exact hzero
        · rw [hcrc, crc]
      · apply Field.data (q := 0) (m := 0) (Nat.succ_pos 7) (Nat.pos_of_ne_zero hn0)
        · rw [hstate, if_neg (mt (lenField_eq_max hn).mp hn0)]
        · exact hzero
        · rw [hcrc, crc]
        · exact fun j hj => absurd hj (Nat.not_lt_zero j)
    · obtain ⟨hstate, hsucc⟩ := hnext h15
      apply Field.syncPid (by omega) hstate
      · rw [hsucc, ofNat_succ]
      · rw [hcrc, crc]
  | @data q m hm hq state count crc byte =>
    obtain ⟨hbyte, hcrc, hlast, hnext⟩ := strobe_data (p := p) state hstuff
    have hbit := bitToSend_data (p := p) (k := 8 * q + m) (by omega) state count
    have hfull := byte_next hm byte
    rw [count, hlen, count_eq_len hn hm hq] at hlast
    rw [count, hlen, Ne, count_eq_len hn hm hq] at hnext
    rw [hbit] at hbyte hcrc
    rw [← hbyte] at hfull
    by_cases h7 : m = 7
    · -- the byte is complete
      subst h7
      have hbyte' : ((sendData p).strobe r).crcByte = p.data.extractLsb' (8 * q) 8 := by
        apply byte_full
        intro j hj
        simpa using hfull j hj
      have hcrc' : ((sendData p).strobe r).crc16.reverse = crcUpTo p.data (8 * (q + 1)) := by
        rw [hcrc, count, if_pos ((count_byte hm).mpr rfl), ← hbyte, hbyte']
        exact crcUpTo_byte p.data crc
      by_cases hlastByte : q + 1 = n
      · -- `io.len` is the count of the last bit
        obtain ⟨hstate, hzero⟩ := hlast ⟨rfl, hlastByte⟩
        have hfield := Field.crc16 (Nat.zero_le 16) hstate hzero (hlastByte ▸ hcrc')
        rwa [show 16 + (8 * n + 0) = 16 + (8 * q + 7) + 1 by omega] at hfield
      · obtain ⟨hstate, hsucc⟩ := hnext fun h => hlastByte h.2
        have hfield : Field p.data n ((sendData p).strobe r) (16 + (8 * (q + 1) + 0)) := by
          apply Field.data (Nat.succ_pos 7) (by omega) hstate
          · rw [hsucc, ← ofNat_succ]
            rfl
          · exact hcrc'
          · exact fun j hj => absurd hj (Nat.not_lt_zero j)
        exact hfield
    · -- the byte has further bits
      obtain ⟨hstate, hsucc⟩ := hnext fun h => h7 h.1
      apply Field.data (q := q) (m := m + 1) (by omega) hq hstate
      · rw [hsucc, ← ofNat_succ]
        rfl
      · rw [hcrc, count, if_neg (mt (count_byte hm).mp h7), crc]
      · exact hfull
  | @crc16 k hk state count crc =>
    obtain ⟨hstate, hsucc, hcrc⟩ := strobe_crc16 (p := p) state (crcEnd_false hsending state) hstuff
    apply Field.crc16 (k := k + 1) (by omega) hstate
    · rw [hsucc, count, ofNat_succ]
    · rw [hcrc, crc]

/-- **Step lemma.**  A strobe with a bit of the stream. -/
theorem strobe_bit {i c : ℕ} {kj b : Bool} {p : DataPacket} (hn : n ≤ 8) (hlen : p.len = lenField n)
    (h : At p.data n i c kj r) (hc : c ≠ 6) (hlt : i < 32 + 8 * n)
    (hb : (stream p.pid p.data n)[i]? = some b) :
    At p.data n (i + 1) (LineCode.next 6 c b) (LineCode.toggle kj b) ((sendData p).strobe r) := by
  have hle := h.ones_le
  have hstuff : r.stuffing = false := by rw [stuffing_iff h, decide_eq_false hc]
  have hbit := bitToSend_at hn h.field hb
  refine ⟨?_, ?_, ?_, strobe_bit_field hn hlen h.field hlt hstuff⟩
  · rw [strobe_ones, hstuff, hbit, h.ones, LineCode.next_of_ne hc]
    cases b with
    | false => rfl
    | true => exact (BitVec.ofNat_add ..).symm
  · rw [LineCode.next_of_ne hc]
    split_ifs <;> omega
  · rw [strobe_lastKJ p (sending_of_field h.field hlt), hstuff, hbit, h.lastKJ]
    rfl

theorem le_of_field {i : ℕ} (h : Field bytes n r i) : i ≤ 32 + 8 * n := by
  cases h with
  | syncPid hi => omega
  | data hm hq => omega
  | crc16 hk => omega

theorem strobe_eopSE0 (p : DataPacket) (h : r.state = .eopSE0) :
    ((sendData p).strobe r).state = .eopSE0' := by
  simp [Sender.strobe, sendData, h]

theorem strobe_eopSE0' (p : DataPacket) (h : r.state = .eopSE0') :
    ((sendData p).strobe r).state = .eopJ := by
  simp [Sender.strobe, sendData, h]

theorem show_se0 (p : DataPacket) (h : r.state = .eopSE0 ∨ r.state = .eopSE0') :
    (sendData p).show_ r = .se0 := by
  rcases h with h | h <;> simp [Sender.show_, sendData, h]

theorem show_eopJ (p : DataPacket) (h : r.state = .eopJ) : (sendData p).show_ r = .j := by
  simp [Sender.show_, sendData, h]

/-- Behind the last bit of the check comes the end of the packet. -/
theorem emit_end {p : DataPacket} (h : Field p.data n r (32 + 8 * n)) :
    (sendData p).emit 3 r = Packet.eop := by
  generalize hi : 32 + 8 * n = i at h
  cases h with
  | syncPid hi' => omega
  | data hm hq => omega
  | @crc16 k hk state count =>
    have hk16 : k = 16 := by omega
    subst hk16
    have hend : r.crcEnd true = true := by rw [crcEnd, count]; rfl
    have h₁ : ((sendData p).strobe r).state = .eopSE0 := by
      simp [Sender.strobe, sendData, state, hend]
    have h₂ := strobe_eopSE0 p h₁
    have h₃ := strobe_eopSE0' p h₂
    rw [Sender.emit, Sender.emit, Sender.emit, Sender.emit, show_se0 p (Or.inl h₁),
      show_se0 p (Or.inr h₂), show_eopJ p h₃, Packet.eop]

theorem count_head : ∀ pid : BitVec 4, ∀ i ≤ 16,
    LineCode.count 6 0 ((Packet.head pid).take i) < 6 := by
  decide +kernel

theorem length_stream (pid : BitVec 4) (bytes : BitVec 64) (n : ℕ) :
    (stream pid bytes n).length = 32 + 8 * n := by
  have hhead : (Packet.head pid).length = 16 := rfl
  rw [stream, List.length_append, List.length_append, hhead, length_lsbBits, length_lsbBits]
  omega

/-- **Run lemma.**  What is left of a packet when the bits `bs` are to be sent. -/
theorem emit_at {i c : ℕ} {kj : Bool} {p : DataPacket} (hn : n ≤ 8) (hlen : p.len = lenField n)
    (h : At p.data n i c kj r) {bs : List Bool} (hbs : (stream p.pid p.data n).drop i = bs)
    (hc : c = LineCode.count 6 0 ((stream p.pid p.data n).take i)) :
    (sendData p).emit ((LineCode.stuff 6 c bs).length + 3) r =
      (LineCode.nrzi kj (LineCode.stuff 6 c bs)).map .ofKJ ++ Packet.eop := by
  -- the count of ones is that of the bits that are out, which the stuff bits depend on
  induction bs generalizing i c kj r with
  | nil =>
    have hge : 32 + 8 * n ≤ i := by
      rw [← length_stream p.pid p.data n]
      exact List.drop_eq_nil_iff.mp hbs
    have hi : i = 32 + 8 * n := Nat.le_antisymm (le_of_field h.field) hge
    subst hi
    exact emit_end h.field
  | cons b bs ih =>
    have hb : (stream p.pid p.data n)[i]? = some b := by
      rw [← List.head?_drop, hbs]
      rfl
    have hlt : i < 32 + 8 * n := by
      rw [← length_stream p.pid p.data n]
      exact (List.getElem?_eq_some_iff.mp hb).1
    have hdrop : (stream p.pid p.data n).drop (i + 1) = bs := by
      rw [← List.drop_drop, hbs]
      rfl
    have htake : LineCode.next 6 c b =
        LineCode.count 6 0 ((stream p.pid p.data n).take (i + 1)) := by
      rw [List.take_add_one, hb, LineCode.count_append, ← hc]
      rfl
    by_cases h6 : c = 6
    · -- the stuff bit is shown first; the head of a packet never needs one
      have hi : 16 ≤ i := by
        apply Nat.le_of_not_lt
        intro hi
        have hhead := count_head p.pid i (Nat.le_of_lt hi)
        rw [stream, List.take_append_of_le_length (Nat.le_of_lt hi)] at hc
        rw [← hc, h6] at hhead
        exact absurd hhead (Nat.lt_irrefl 6)
      subst h6
      have hstuff := strobe_stuff h hi hlt
      have hbit := strobe_bit hn hlen hstuff (by decide) hlt hb
      have hnext : LineCode.next 6 0 b = LineCode.next 6 6 b := by cases b <;> rfl
      rw [hnext] at hbit
      have hrest := ih hbit hdrop htake
      rw [LineCode.stuff, if_pos rfl, List.singleton_append, List.length_cons, List.length_cons,
        Nat.add_right_comm, Nat.add_right_comm _ 1 3, Sender.emit, Sender.emit, show_at hstuff,
        show_at hbit, hrest, LineCode.nrzi, LineCode.nrzi, List.map_cons, List.map_cons,
        List.cons_append, List.cons_append]
      rfl
    · have hbit := strobe_bit hn hlen h h6 hlt hb
      have hrest := ih hbit hdrop htake
      rw [LineCode.stuff, if_neg h6, List.nil_append, List.length_cons, Nat.add_right_comm,
        Sender.emit, show_at hbit, hrest, LineCode.nrzi, List.map_cons, List.cons_append]

theorem at_idle (p : DataPacket) (n : ℕ) (r : DataRegs) :
    At p.data n 0 0 false ((sendData p).idle r) where
  ones := rfl
  ones_le := Nat.zero_le 6
  lastKJ := rfl
  field := Field.syncPid (Nat.succ_pos 15) rfl rfl
    (show (0xFFFF : BitVec 16).reverse = 0xFFFF by decide)

/-- What a data packet puts on the line: every stuff bit but one that is due at the end. -/
theorem emit_idle {p : DataPacket} (hn : n ≤ 8) (hlen : p.len = lenField n) (r : DataRegs) :
    (sendData p).emit ((LineCode.stuff 6 0 (stream p.pid p.data n)).length + 3)
      ((sendData p).idle r) = Packet.onLine (LineCode.stuff 6 0 (stream p.pid p.data n)) :=
  emit_at hn hlen (at_idle p n r) rfl rfl

end DataRegs

/-! ## Section 3: The encoding -/

namespace Packet

/-- The registers of the sender of the packet. -/
def Regs : Packet → Type
  | longToken _ _ _ => TokenRegs 6
  | shortToken _ => TokenRegs 5
  | data _ _ _ _ => DataRegs

/-- The sender of the packet. -/
def sender : (p : Packet) → Sender p.Regs
  | longToken pid addr endp => sendLongToken pid addr endp
  | shortToken pid => sendShortToken pid
  | .data pid bytes n _ => sendData ⟨pid, bytes, lenField n⟩

/-- A stuff bit is due at the end of the bits. -/
def StuffingDue (bs : List Bool) : Prop := 0 < LineCode.onesAtEnd bs ∧ 6 ∣ LineCode.onesAtEnd bs

instance (bs : List Bool) : Decidable (StuffingDue bs) := inferInstanceAs (Decidable (_ ∧ _))

/-- No stuff bit is due in a long token, nor behind the last bit of a data packet. -/
def LeavesNoStuffing : Packet → Prop
  | longToken pid addr endp => ¬ List.replicate 6 true <:+: (longToken pid addr endp).stream
  | shortToken _ => True
  | .data pid bytes n hn => ¬ StuffingDue (Packet.data pid bytes n hn).stream

instance (p : Packet) : Decidable p.LeavesNoStuffing :=
  match p with
  | longToken _ _ _ => inferInstanceAs (Decidable (¬ _))
  | shortToken _ => inferInstanceAs (Decidable True)
  | data _ _ _ _ => inferInstanceAs (Decidable (¬ StuffingDue _))

theorem sender_tick (p : Packet) (x : p.Regs) : p.sender.tick false x = x := by
  cases p with
  | longToken pid addr endp =>
    show (sendLongToken pid addr endp).tick false x = x
    exact sendToken_tick longTokenSlots x
  | shortToken pid =>
    show (sendShortToken pid).tick false x = x
    exact sendToken_tick shortTokenSlots x
  | data pid bytes n hn => exact sendData_tick _ x

end Packet

/-- The symbols on the line are those of the packet, whatever the sender was doing before,
exactly if no stuff bit is left out. -/
theorem lineEncoding_iff (p : Packet) {clockDiv : BitVec 8} (hdiv : clockDiv ≠ 0)
    (s : Strobed p.Regs) :
    p.sender.Shows clockDiv s p.symbols ↔ p.LeavesNoStuffing := by
  rw [Sender.shows_iff p.sender_tick hdiv]
  cases p with
  | longToken pid addr endp =>
    -- the line shows the stream as it is
    have hemit := sendLongToken_emit pid addr endp
    exact (emit_onLine_iff hemit (LineCode.padded_eq_self_or_lt 0 _)).trans
      (LineCode.padded_eq_self_iff (Nat.succ_pos 5) _)
  | shortToken pid =>
    -- PID and complement are too short for six ones
    have hhead : ∀ pid, LineCode.padded 6 0 (Packet.head pid ++ []) = Packet.head pid ++ [] := by
      decide +kernel
    have hemit := sendShortToken_emit pid
    exact iff_true_intro ((emit_onLine_iff hemit (Or.inl (hhead pid))).mpr (hhead pid))
  | data pid bytes n hn =>
    -- the line shows the stuffed stream but for a stuff bit at its end
    have hemit := DataRegs.emit_idle (p := ⟨pid, bytes, lenField n⟩) hn rfl s.regs
    exact (emit_onLine_iff hemit (LineCode.stuff_eq_padded_or_lt 0 _)).trans
      ((LineCode.padded_eq_stuff_iff 0 _).trans
        (not_congr (LineCode.count_eq_full_iff (Nat.succ_pos 5) _)))

theorem lineEncoding_iff_setup : (Packet.longToken 13 0 0).sender.Shows 7 ⟨3, ⟨5, true⟩⟩
    (Packet.longToken 13 0 0).symbols :=
  (lineEncoding_iff (Packet.longToken 13 0 0) (by decide) ⟨3, ⟨5, true⟩⟩).mpr (by decide +kernel)

/-- A token with six ones in its address, and data whose check ends in six ones: the one has no
stuff bit at all, the other lacks the last one. -/
theorem lineEncoding_stuffing :
    (¬ (Packet.longToken 9 0x3F 0).sender.Shows 7 ⟨0, ⟨0, false⟩⟩
      (Packet.longToken 9 0x3F 0).symbols) ∧
    ¬ (Packet.data 3 0xF9 1 (by decide)).sender.Shows 7 ⟨0, ⟨.syncPid, 0, 0, false, 0xFFFF, 0⟩⟩
      (Packet.data 3 0xF9 1 (by decide)).symbols := by
  constructor
  · rw [Sender.shows_iff (Packet.longToken 9 0x3F 0).sender_tick (by decide)]
    decide +kernel
  · rw [Sender.shows_iff (Packet.data 3 0xF9 1 (by decide)).sender_tick (by decide)]
    decide +kernel

end Karnix.Usb
