import Karnix.Usb.LineEncoding

/-!
# The USB receiver

The state of `USBReceiver` that takes in the bits of a packet, sample by sample, and what it has
behind a whole packet.

The receiver counts ones from 0 behind SYNC, where the sender has counted the last bit of SYNC
already.  PID and its complement hold a 0, so that the two counters agree behind them.
-/

namespace Karnix.Usb

open Karnix.Library

/-! ## Section 1: The receiver -/

/-- The states of `USBReceiver` this is about: 4 and 7. -/
inductive ReceiverState where
  | receiving | ready
  deriving DecidableEq

structure Receiver where
  state : ReceiverState
  bitCount : BitVec 7
  ones : BitVec 3
  packet : BitVec 128
  crc16 : BitVec 16
  receivedCrc16 : BitVec 16
  lastSymbol : Bool

namespace Receiver

/-- The receiver at the end of SYNC; only `received_crc16` is left from the last packet. -/
def afterSync (receivedCrc16 : BitVec 16) : Receiver where
  state := .receiving
  bitCount := 0
  ones := 0
  packet := 0
  crc16 := 0xFFFF
  receivedCrc16 := receivedCrc16
  lastSymbol := true

/-- `packet(bit_count) := bit_received`: one bit is set, the others stay. -/
def setBit (x : BitVec 128) (k : ℕ) (b : Bool) : BitVec 128 :=
  x &&& ~~~ BitVec.twoPow 128 k ||| (BitVec.ofBool b).setWidth 128 <<< k

/-- A bit that is no stuff bit. -/
def saveBit (s : Receiver) (b : Bool) : Receiver :=
  { s with
    bitCount := s.bitCount + 1
    packet := setBit s.packet s.bitCount.toNat b
    receivedCrc16 := BitVec.ofBool b ++ s.receivedCrc16.extractLsb' 1 15
    -- two bytes late, so that the check of the sender is left out
    crc16 :=
      if 23 < s.bitCount.toNat ∧ s.bitCount.extractLsb' 0 3 = 0b000 then
        calcCrc16Usb s.crc16 (s.receivedCrc16.extractLsb' 0 8).reverse
      else s.crc16 }

/-- A sample of `dp` in the middle of a bit time. -/
def sampleDp (s : Receiver) (dp : Bool) : Receiver :=
  let bitReceived := dp == s.lastSymbol
  let saved := if s.ones ≠ 6 then s.saveBit bitReceived else s
  -- a stuff bit is not looked at: the ones are counted from 0 on
  { saved with
    ones := if s.ones ≠ 6 then (if bitReceived then s.ones + 1 else 0) else 0
    lastSymbol := dp
    state := if s.bitCount = 127 then .ready else s.state }

/-- A sample of the line; data are only valid when `dp` and `dm` differ. -/
def sample (s : Receiver) (sym : Symbol) : Receiver :=
  match s.state, sym with
  | .receiving, .j => s.sampleDp false
  | .receiving, .k => s.sampleDp true
  | .receiving, .se0 | .ready, _ => s

/-- The receiver behind the samples `syms`. -/
def receive (s : Receiver) (syms : List Symbol) : Receiver := syms.foldl sample s

/-- `io.calculated_crc16`: what the register shows of the payload so far. -/
def calculatedCrc16 (s : Receiver) : BitVec 16 := ~~~ s.crc16.reverse

/-! ## Section 2: What it has taken in -/

/-- The receiver when the bits `bs` are saved. -/
structure Holds (bs : List Bool) (s : Receiver) : Prop where
  state : s.state = .receiving
  bitCount : s.bitCount = BitVec.ofNat 7 bs.length
  packet : ∀ j, s.packet.getLsbD j = bs.getD j false
  /-- The check lags behind by at least two bytes: these are the check of the sender. -/
  crc16 : s.crc16.reverse =
    Crc.bits 0xA001 0xFFFF ((bs.drop 8).take (8 * ((bs.length - 17) / 8)))
  receivedCrc16 : ∀ j < 16, 16 ≤ bs.length + j →
    s.receivedCrc16.getLsbD j = bs.getD (bs.length + j - 16) false

theorem holds_afterSync (receivedCrc16 : BitVec 16) : Holds [] (afterSync receivedCrc16) where
  state := rfl
  bitCount := rfl
  packet j := by simp [afterSync]
  crc16 := show (0xFFFF : BitVec 16).reverse = 0xFFFF by decide
  receivedCrc16 j hj hle := by
    rw [List.length_nil, Nat.zero_add] at hle
    exact absurd hj (Nat.not_lt.mpr hle)

theorem getLsbD_setBit (x : BitVec 128) {k : ℕ} (hk : k < 128) (b : Bool) (j : ℕ) :
    (setBit x k b).getLsbD j = if j = k then b else x.getLsbD j := by
  rw [setBit, BitVec.getLsbD_or, BitVec.getLsbD_and, BitVec.getLsbD_not, BitVec.getLsbD_twoPow,
    BitVec.getLsbD_shiftLeft, BitVec.getLsbD_setWidth, BitVec.getLsbD_ofBool]
  rcases Nat.lt_trichotomy j k with hlt | rfl | hgt
  · simp [hlt, Nat.ne_of_lt hlt, Nat.ne_of_gt hlt, Nat.lt_trans hlt hk]
  · simp [hk]
  · have hpos : j - k ≠ 0 := Nat.sub_ne_zero_of_lt hgt
    rcases Nat.lt_or_ge j 128 with hj | hj
    · simp [hpos, hj, Nat.ne_of_gt hgt, Nat.ne_of_lt hgt]
    · simp [hpos, Nat.ne_of_gt hgt, Nat.not_lt.mpr hj, BitVec.getLsbD_of_ge x j hj]

theorem getD_snoc (bs : List Bool) (b : Bool) (j : ℕ) :
    (bs ++ [b]).getD j false = if j = bs.length then b else bs.getD j false := by
  rw [List.getD_eq_getElem?_getD, List.getD_eq_getElem?_getD]
  rcases Nat.lt_trichotomy j bs.length with hlt | rfl | hgt
  · rw [List.getElem?_append_left hlt, if_neg (Nat.ne_of_lt hlt)]
  · simp
  · have hge : (bs ++ [b]).length ≤ j := by
      rw [List.length_append]
      exact hgt
    rw [if_neg (Nat.ne_of_gt hgt), List.getElem?_eq_none hge,
      List.getElem?_eq_none (Nat.le_of_lt hgt)]

/-- The test for a further byte of the check. -/
theorem byteDue_iff {i : ℕ} (hi : i < 127) :
    (23 < (BitVec.ofNat 7 i).toNat ∧ (BitVec.ofNat 7 i).extractLsb' 0 3 = 0b000) ↔
      ∃ k, i = 24 + 8 * k := by
  rw [← BitVec.toNat_inj, BitVec.extractLsb'_toNat, BitVec.toNat_ofNat, Nat.shiftRight_zero]
  show 23 < i % 128 ∧ i % 128 % 8 = 0 ↔ _
  constructor
  · intro h
    exact ⟨i / 8 - 3, by omega⟩
  · rintro ⟨k, rfl⟩
    omega

/-- The byte that the check takes in next, seen in the bits. -/
theorem bits_of_byte {bs : List Bool} {s : Receiver} (h : Holds bs s) {k : ℕ}
    (hlen : bs.length = 24 + 8 * k) (b : Bool) :
    (((bs ++ [b]).drop 8).drop (8 * k)).take 8 = lsbBits (s.receivedCrc16.extractLsb' 0 8) 8 := by
  have hlength : ((((bs ++ [b]).drop 8).drop (8 * k)).take 8).length = 8 := by
    simp only [List.length_take, List.length_drop, List.length_append, List.length_singleton]
    omega
  apply List.ext_getElem
  · rw [hlength, length_lsbBits]
  · intro j h₁ h₂
    have hj : j < 8 := by rwa [hlength] at h₁
    have hbit := h.receivedCrc16 j (by omega) (by omega)
    have hsame : (bs ++ [b]).getD (bs.length + j - 16) false =
        bs.getD (bs.length + j - 16) false := by
      rw [getD_snoc, if_neg (by omega)]
    have hindex : 8 + (8 * k + j) = bs.length + j - 16 := by omega
    have hlt : 8 + (8 * k + j) < (bs ++ [b]).length := by
      rw [List.length_append]
      omega
    rw [List.getElem_take, List.getElem_drop, List.getElem_drop, getElem_lsbBits,
      BitVec.getLsbD_extractLsb', decide_eq_true hj, Bool.true_and, Nat.zero_add, hbit, ← hsame,
      ← hindex, List.getD_eq_getElem?_getD, List.getElem?_eq_getElem hlt, Option.getD_some]

/-- **Step lemma.**  One more bit is saved. -/
theorem holds_saveBit {bs : List Bool} {s : Receiver} (h : Holds bs s) (hlen : bs.length < 127)
    (b : Bool) : Holds (bs ++ [b]) (s.saveBit b) where
  state := h.state
  bitCount := by
    show s.bitCount + 1 = _
    rw [h.bitCount, List.length_append, List.length_singleton, BitVec.ofNat_add]
    rfl
  packet j := by
    have hk : s.bitCount.toNat = bs.length := by
      rw [h.bitCount, BitVec.toNat_ofNat]
      exact Nat.mod_eq_of_lt (Nat.lt_trans hlen (by decide))
    show (setBit s.packet s.bitCount.toNat b).getLsbD j = _
    rw [hk, getLsbD_setBit _ (Nat.lt_trans hlen (by decide)), getD_snoc, h.packet]
  crc16 := by
    show (if 23 < s.bitCount.toNat ∧ s.bitCount.extractLsb' 0 3 = 0b000 then
      calcCrc16Usb s.crc16 (s.receivedCrc16.extractLsb' 0 8).reverse else s.crc16).reverse = _
    rw [h.bitCount, List.length_append, List.length_singleton]
    by_cases hdue : ∃ k, bs.length = 24 + 8 * k
    · -- the first byte that the check has not taken in is complete, with two more behind it
      rw [if_pos ((byteDue_iff hlen).mpr hdue)]
      obtain ⟨k, hk⟩ := hdue
      have hq : (bs.length - 17) / 8 = k := by omega
      have hq' : (bs.length + 1 - 17) / 8 = k + 1 := by omega
      have hold : ((bs ++ [b]).drop 8).take (8 * k) = (bs.drop 8).take (8 * k) := by
        rw [List.drop_append_of_le_length (by omega),
          List.take_append_of_le_length (by rw [List.length_drop]; omega)]
      rw [← BitVec.reverse_reverse_eq (x := s.crc16), calcCrc16Usb_eq, h.crc16, hq, hq',
        Nat.mul_succ, List.take_add, bits_of_byte h hk, Crc.bits_append, hold]
    · -- the bits of the check are the same ones as before
      have hq : (bs.length + 1 - 17) / 8 = (bs.length - 17) / 8 := by
        have hmod : ¬ (23 < bs.length ∧ bs.length % 8 = 0) :=
          fun hmod => hdue ⟨bs.length / 8 - 3, by omega⟩
        omega
      rw [if_neg (mt (byteDue_iff hlen).mp hdue), h.crc16, hq]
      by_cases h0 : (bs.length - 17) / 8 = 0
      · rw [h0, Nat.mul_zero, List.take_zero, List.take_zero]
      · rw [List.drop_append_of_le_length (by omega),
          List.take_append_of_le_length (by rw [List.length_drop]; omega)]
  receivedCrc16 j hj hle := by
    show (BitVec.ofBool b ++ s.receivedCrc16.extractLsb' 1 15).getLsbD j = _
    rw [BitVec.getLsbD_append, getD_snoc]
    rw [List.length_append, List.length_singleton] at hle ⊢
    -- the new bit comes in at the top
    rcases Nat.lt_or_ge j 15 with hlt | hge
    · have hbit := h.receivedCrc16 (j + 1) (by omega) (by omega)
      rw [if_pos hlt, BitVec.getLsbD_extractLsb', decide_eq_true hlt, Bool.true_and,
        if_neg (by omega), Nat.add_comm 1 j, hbit]
      congr 1
      omega
    · obtain rfl : j = 15 := by omega
      rw [if_neg (Nat.lt_irrefl 15), if_pos (by omega)]
      simp

/-! ## Section 3: Samples -/

theorem sampleDp_stuff {s : Receiver} (hstuff : s.ones = 6) (hlast : s.bitCount ≠ 127) (dp : Bool) :
    s.sampleDp dp = { s with ones := 0, lastSymbol := dp } := by
  simp only [sampleDp, if_neg (not_not.mpr hstuff), if_neg hlast]

theorem sampleDp_bit {s : Receiver} (hstuff : s.ones ≠ 6) (hlast : s.bitCount ≠ 127) (dp : Bool) :
    s.sampleDp dp = { s.saveBit (dp == s.lastSymbol) with
      ones := if dp == s.lastSymbol then s.ones + 1 else 0, lastSymbol := dp } := by
  simp only [sampleDp, if_pos hstuff, if_neg hlast]
  rfl

/-- **Step lemma.**  A sample takes a bit off the line: NRZI, and no stuff bits. -/
theorem holds_sampleDp {bs : List Bool} {s : Receiver} {c : ℕ} (h : Holds bs s)
    (hones : s.ones = BitVec.ofNat 3 c) (hc : c ≤ 6) (hlen : bs.length < 127) (dp : Bool) :
    let b := dp == s.lastSymbol
    (s.sampleDp dp).lastSymbol = dp ∧
      if c = 6 then Holds bs (s.sampleDp dp) ∧ (s.sampleDp dp).ones = 0
      else Holds (bs ++ [b]) (s.sampleDp dp) ∧
        (s.sampleDp dp).ones = BitVec.ofNat 3 (if b then c + 1 else 0) := by
  intro b
  have hsix : ∀ c ≤ 6, BitVec.ofNat 3 c = 6 ↔ c = 6 := by decide
  have hlast : s.bitCount ≠ 127 := by
    rw [h.bitCount, Ne, ← BitVec.toNat_inj, BitVec.toNat_ofNat]
    show ¬ bs.length % 128 = 127
    omega
  refine ⟨rfl, ?_⟩
  by_cases h6 : c = 6
  · have hstuff : s.ones = 6 := by rw [hones, (hsix c hc).mpr h6]
    rw [if_pos h6, sampleDp_stuff hstuff hlast]
    exact ⟨⟨h.state, h.bitCount, h.packet, h.crc16, h.receivedCrc16⟩, rfl⟩
  · have hstuff : s.ones ≠ 6 := by
      rw [hones, Ne, hsix c hc]
      exact h6
    have hsaved := holds_saveBit h hlen b
    rw [if_neg h6, sampleDp_bit hstuff hlast]
    refine ⟨⟨hsaved.state, hsaved.bitCount, hsaved.packet, hsaved.crc16, hsaved.receivedCrc16⟩, ?_⟩
    show (if b then s.ones + 1 else 0) = _
    rw [hones]
    generalize b = b
    cases b with
    | false => rfl
    | true => exact (BitVec.ofNat_add ..).symm

/-- **Run lemma.**  The receiver undoes NRZI and stuffing of whatever levels are on the line. -/
theorem holds_receive {bs : List Bool} {s : Receiver} {c : ℕ} (h : Holds bs s)
    (hones : s.ones = BitVec.ofNat 3 c) (hc : c ≤ 6) {levels : List Bool}
    (hlen : bs.length + (LineCode.unstuff 6 c (LineCode.unNrzi s.lastSymbol levels)).length < 127) :
    Holds (bs ++ LineCode.unstuff 6 c (LineCode.unNrzi s.lastSymbol levels))
      (s.receive (levels.map .ofKJ)) := by
  induction levels generalizing bs s c with
  | nil =>
    rw [LineCode.unNrzi, LineCode.unstuff, List.append_nil]
    exact h
  | cons dp levels ih =>
    obtain ⟨hsymbol, hstep⟩ := holds_sampleDp h hones hc (by omega) dp
    have hsample : s.receive ((dp :: levels).map .ofKJ) =
        (s.sampleDp dp).receive (levels.map .ofKJ) := by
      rw [List.map_cons, receive, receive, List.foldl_cons, sample.eq_def, h.state]
      cases dp <;> rfl
    rw [hsample]
    rw [LineCode.unNrzi, LineCode.unstuff] at hlen ⊢
    by_cases h6 : c = 6
    · -- the level behind six ones is skipped
      rw [if_pos h6] at hstep hlen ⊢
      have hrest := ih hstep.1 hstep.2 (Nat.zero_le 6) (by rwa [hsymbol])
      rwa [hsymbol] at hrest
    · rw [if_neg h6] at hstep hlen ⊢
      have hle : (if (dp == s.lastSymbol) = true then c + 1 else 0) ≤ 6 := by
        split_ifs <;> omega
      have hrest := ih hstep.1 hstep.2 hle (by
        rw [hsymbol, List.length_append, List.length_singleton]
        rw [List.length_cons] at hlen
        omega)
      rwa [hsymbol, List.append_assoc, List.singleton_append] at hrest

end Receiver

/-! ## Section 4: Whole packets -/

namespace Packet

/-- What is sampled of the bits `bs`, once per bit time from the end of SYNC up to `SE0`. -/
def samples (bs : List Bool) : List Symbol :=
  ((onLine (LineCode.stuff 6 0 bs)).drop 8).takeWhile (· ≠ .se0)

/-- The samples of a line with symbol `line k` in bit time `k`, from the end of SYNC up to the first
`SE0`. -/
structure Sampled (line : ℕ → Symbol) (syms : List Symbol) : Prop where
  symbol : ∀ k (hk : k < syms.length), line (8 + k) = syms[k]
  ne_se0 : ∀ sym ∈ syms, sym ≠ .se0
  end_se0 : line (8 + syms.length) = .se0

/-- PID and its complement. -/
def pidBits (pid : BitVec 4) : List Bool := lsbBits pid 4 ++ lsbBits (~~~ pid) 4

theorem head_eq (pid : BitVec 4) :
    head pid = (List.replicate 7 false ++ [true]) ++ pidBits pid := by
  rw [head, pidBits, List.append_assoc _ (lsbBits pid 4)]

theorem length_pidBits (pid : BitVec 4) : (pidBits pid).length = 8 := rfl

/-- The last bit of SYNC counts for the sender; PID and its complement make up for that. -/
theorem stuff_pidBits (pid : BitVec 4) (bs : List Bool) :
    LineCode.stuff 6 1 (pidBits pid ++ bs) = LineCode.stuff 6 0 (pidBits pid ++ bs) := by
  have hpid : ∀ pid, LineCode.stuff 6 1 (pidBits pid) = LineCode.stuff 6 0 (pidBits pid) ∧
      LineCode.count 6 1 (pidBits pid) = LineCode.count 6 0 (pidBits pid) := by
    decide +kernel
  rw [LineCode.stuff_append, LineCode.stuff_append, (hpid pid).1, (hpid pid).2]

theorem ofKJ_ne_se0 (kj : Bool) : Symbol.ofKJ kj ≠ .se0 := by cases kj <;> decide

/-- The levels behind SYNC are those of the other bits, from `K` on. -/
theorem onLine_head (pid : BitVec 4) (bs : List Bool) :
    onLine (LineCode.stuff 6 0 (head pid ++ bs)) =
      (LineCode.nrzi false (List.replicate 7 false ++ [true])).map .ofKJ ++
        ((LineCode.nrzi true (LineCode.stuff 6 0 (pidBits pid ++ bs))).map .ofKJ ++ eop) := by
  have hsync : LineCode.stuff 6 0 (head pid ++ bs) =
      (List.replicate 7 false ++ [true]) ++ LineCode.stuff 6 0 (pidBits pid ++ bs) := by
    rw [head_eq, List.append_assoc, LineCode.stuff_append, ← stuff_pidBits]
    rfl
  rw [onLine, hsync, LineCode.nrzi_append, List.map_append, List.append_assoc]
  rfl

theorem samples_eq (pid : BitVec 4) (bs : List Bool) :
    samples (head pid ++ bs) =
      (LineCode.nrzi true (LineCode.stuff 6 0 (pidBits pid ++ bs))).map .ofKJ := by
  have hsync : ((LineCode.nrzi false (List.replicate 7 false ++ [true])).map Symbol.ofKJ).length =
      8 := rfl
  rw [samples, onLine_head, List.drop_left' hsync, List.takeWhile_append_of_pos]
  · exact List.append_nil _
  · intro sym hsym
    obtain ⟨kj, -, rfl⟩ := List.mem_map.mp hsym
    exact decide_eq_true (ofKJ_ne_se0 kj)

end Packet

namespace Receiver

/-- The receiver has the bits behind SYNC when the packet is over. -/
theorem holds_samples (receivedCrc16 : BitVec 16) (pid : BitVec 4) {bs : List Bool}
    (hlen : bs.length < 119) :
    Holds (Packet.pidBits pid ++ bs)
      ((afterSync receivedCrc16).receive (Packet.samples (Packet.head pid ++ bs))) := by
  have hbits : LineCode.unstuff 6 0 (LineCode.unNrzi (afterSync receivedCrc16).lastSymbol
      (LineCode.nrzi true (LineCode.stuff 6 0 (Packet.pidBits pid ++ bs)))) =
        Packet.pidBits pid ++ bs := by
    show LineCode.unstuff 6 0 (LineCode.unNrzi true _) = _
    rw [LineCode.unNrzi_nrzi, LineCode.unstuff_stuff (Nat.succ_pos 5)]
  have hlt : ([] : List Bool).length + (LineCode.unstuff 6 0 (LineCode.unNrzi
      (afterSync receivedCrc16).lastSymbol (LineCode.nrzi true
        (LineCode.stuff 6 0 (Packet.pidBits pid ++ bs))))).length < 127 := by
    rw [hbits, List.length_nil, List.length_append, Packet.length_pidBits]
    omega
  have hreceive := holds_receive (holds_afterSync receivedCrc16) rfl (Nat.zero_le 6) hlt
  rw [hbits, List.nil_append] at hreceive
  rw [Packet.samples_eq]
  exact hreceive

/-- The bits of `packet` from the lowest on. -/
theorem lsbBits_packet {bs : List Bool} {s : Receiver} (h : Holds bs s) :
    lsbBits s.packet bs.length = bs := by
  apply List.ext_getElem (length_lsbBits _ _)
  intro j h₁ h₂
  rw [getElem_lsbBits, h.packet, List.getD_eq_getElem?_getD, List.getElem?_eq_getElem h₂,
    Option.getD_some]

theorem calculatedCrc16_eq {bs : List Bool} {s : Receiver} (h : Holds bs s) {n : ℕ}
    (hlen : bs.length = 8 + 8 * n + 16) :
    s.calculatedCrc16 = Usb.crc16 ((bs.drop 8).take (8 * n)) := by
  rw [calculatedCrc16, h.crc16, show (bs.length - 17) / 8 = n by omega]
  rfl

theorem lsbBits_receivedCrc16 {bs : List Bool} {s : Receiver} (h : Holds bs s) {n : ℕ}
    (hlen : bs.length = 8 + 8 * n + 16) :
    lsbBits s.receivedCrc16 16 = (bs.drop 8).drop (8 * n) := by
  apply List.ext_getElem
  · rw [length_lsbBits, List.length_drop, List.length_drop]
    omega
  · intro j h₁ h₂
    have hj : j < 16 := by rwa [length_lsbBits] at h₁
    have hindex : bs.length + j - 16 = 8 + (8 * n + j) := by omega
    have hlt : 8 + (8 * n + j) < bs.length := by omega
    rw [getElem_lsbBits, h.receivedCrc16 j hj (by omega), List.getElem_drop, List.getElem_drop,
      hindex, List.getD_eq_getElem?_getD, List.getElem?_eq_getElem hlt, Option.getD_some]

/-- The two checks agree on a payload that is followed by its own check, and on no other. -/
theorem checks_agree_iff {pid : BitVec 4} {bytes check : List Bool} {s : Receiver} {n : ℕ}
    (h : Holds (Packet.pidBits pid ++ (bytes ++ check)) s) (hbytes : bytes.length = 8 * n)
    (hcheck : check.length = 16) :
    s.calculatedCrc16 = s.receivedCrc16 ↔ check = lsbBits (Usb.crc16 bytes) 16 := by
  have hlen : (Packet.pidBits pid ++ (bytes ++ check)).length = 8 + 8 * n + 16 := by
    rw [List.length_append, List.length_append, hbytes, hcheck, Packet.length_pidBits,
      Nat.add_assoc]
  have hbehind : (Packet.pidBits pid ++ (bytes ++ check)).drop 8 = bytes ++ check := rfl
  have hcalculated := calculatedCrc16_eq h hlen
  have hreceived := lsbBits_receivedCrc16 h hlen
  rw [hbehind, ← hbytes, List.take_left' rfl] at hcalculated
  rw [hbehind, ← hbytes, List.drop_left' rfl] at hreceived
  rw [hcalculated, ← lsbBits_injective.eq_iff]
  show lsbBits (Usb.crc16 bytes) 16 = lsbBits s.receivedCrc16 16 ↔ _
  rw [hreceived]
  exact eq_comm

end Receiver

/-! ## Section 5: Flipped bits -/

theorem modify_append_right {bs bs' : List Bool} {i : ℕ} (h : bs.length ≤ i) :
    (bs ++ bs').modify i not = bs ++ bs'.modify (i - bs.length) not := by
  rw [List.modify_eq_take_drop, List.modify_eq_take_drop, List.take_append, List.drop_append,
    List.take_of_length_le h, List.drop_eq_nil_of_le h, List.nil_append, List.append_assoc]

theorem modify_append_left {bs bs' : List Bool} {i : ℕ} (h : i < bs.length) :
    (bs ++ bs').modify i not = bs.modify i not ++ bs' := by
  have hlt : i < (bs ++ bs').length := by
    rw [List.length_append]
    exact Nat.lt_add_right _ h
  rw [List.modify_eq_take_cons_drop hlt, List.modify_eq_take_cons_drop h,
    List.take_append_of_le_length (Nat.le_of_lt h), List.drop_append_of_le_length h,
    List.getElem_append_left h, List.append_assoc, List.cons_append]

theorem modify_ne_self {bs : List Bool} {i : ℕ} (h : i < bs.length) : bs.modify i not ≠ bs := by
  intro heq
  have hbit := congrArg (·[i]?) heq
  simp only [List.getElem?_modify_eq, List.getElem?_eq_getElem h] at hbit
  exact absurd (Option.some.inj hbit) (by simp)

/-- A flipped bit changes the check of the data. -/
theorem crc16_modify_ne {bs : List Bool} {i : ℕ} (h : i < bs.length) :
    crc16 (bs.modify i not) ≠ crc16 bs := by
  obtain ⟨l₁, b, l₂, hbs, -, hflip⟩ := List.exists_of_modify not h
  rw [hflip, hbs, crc16, crc16]
  exact fun heq => Crc.bits_flip (by decide) (by decide) _ l₁ l₂ b (BitVec.not_inj.mp heq)

/-- A flipped bit of the data or of their check makes the received check differ from the one that
is calculated. -/
theorem checks_differ {pid : BitVec 4} {bytes : List Bool} {i n : ℕ} (hbytes : bytes.length = 8 * n)
    (hn : n ≤ 8) (hi : i < 8 * n + 16) (receivedCrc16 : BitVec 16) :
    let s := (Receiver.afterSync receivedCrc16).receive (Packet.samples
      (Packet.head pid ++ (bytes ++ lsbBits (crc16 bytes) 16).modify i not))
    s.calculatedCrc16 ≠ s.receivedCrc16 := by
  intro s
  rcases Nat.lt_or_ge i bytes.length with hlt | hge
  · -- the calculated check changes, the received one does not
    have hlen : (bytes.modify i not).length = 8 * n := by rw [List.length_modify, hbytes]
    have hholds : Receiver.Holds (Packet.pidBits pid ++
        (bytes.modify i not ++ lsbBits (crc16 bytes) 16)) s := by
      rw [← modify_append_left hlt]
      apply Receiver.holds_samples
      rw [List.length_modify, List.length_append, length_lsbBits]
      omega
    rw [Ne, Receiver.checks_agree_iff hholds hlen (length_lsbBits _ _)]
    exact fun h => crc16_modify_ne hlt (lsbBits_injective h).symm
  · -- the other way round
    have hlt : i - bytes.length < (lsbBits (crc16 bytes) 16).length := by
      rw [length_lsbBits]
      omega
    have hlen : ((lsbBits (crc16 bytes) 16).modify (i - bytes.length) not).length = 16 := by
      rw [List.length_modify, length_lsbBits]
    have hholds : Receiver.Holds (Packet.pidBits pid ++
        (bytes ++ (lsbBits (crc16 bytes) 16).modify (i - bytes.length) not)) s := by
      rw [← modify_append_right hge]
      apply Receiver.holds_samples
      rw [List.length_modify, List.length_append, length_lsbBits]
      omega
    rw [Ne, Receiver.checks_agree_iff hholds hbytes hlen]
    exact modify_ne_self hlt

/-! ## Section 6: Receiving undoes sending -/

/-- What `USBSendData` shows, to be sampled anywhere behind the strobes. -/
theorem sendData_shows (pid : BitVec 4) (bytes : BitVec 64) {n : ℕ} (hn : n ≤ 8)
    {clockDiv : BitVec 8} (hdiv : clockDiv ≠ 0) (s : Strobed DataRegs) :
    (sendData ⟨pid, bytes, lenField n⟩).Shows clockDiv s
      (Packet.onLine (LineCode.stuff 6 0 (Packet.data pid bytes n hn).stream)) := by
  apply (Sender.shows_iff (sendData_tick _) hdiv _).mpr
  rw [length_onLine]
  exact DataRegs.emit_idle (p := ⟨pid, bytes, lenField n⟩) hn rfl s.regs

theorem line_of_shows {σ : Type} {S : Sender σ} {clockDiv : BitVec 8} {s : Strobed σ}
    {syms : List Symbol} (h : S.Shows clockDiv s syms) {k j : ℕ} (hj : 0 < j ∧ j ≤ clockDiv.toNat)
    {sym : Symbol} (hsym : syms[k]? = some sym) :
    S.lineAt clockDiv s (k * (clockDiv.toNat + 1) + j) = sym := by
  obtain ⟨hk, heq⟩ := List.getElem?_eq_some_iff.mp hsym
  rw [h k hk j hj.1 hj.2, heq]

/-- The samples of a line that shows the bits are those of the bits. -/
theorem sampled_of_onLine {line : ℕ → Symbol} {pid : BitVec 4} {bs : List Bool}
    (h : ∀ k sym, (Packet.onLine (LineCode.stuff 6 0 (Packet.head pid ++ bs)))[k]? = some sym →
      line k = sym) :
    Packet.Sampled line (Packet.samples (Packet.head pid ++ bs)) := by
  rw [Packet.onLine_head] at h
  rw [Packet.samples_eq]
  generalize LineCode.nrzi true (LineCode.stuff 6 0 (Packet.pidBits pid ++ bs)) = levels at h ⊢
  have hsync : ((LineCode.nrzi false (List.replicate 7 false ++ [true])).map Symbol.ofKJ).length =
      8 := rfl
  constructor
  · intro k hk
    apply h
    rw [List.getElem?_append_right (by rw [hsync]; exact Nat.le_add_right 8 k), hsync,
      Nat.add_sub_cancel_left, List.getElem?_append_left hk, List.getElem?_eq_getElem hk]
  · intro sym hsym
    obtain ⟨kj, -, rfl⟩ := List.mem_map.mp hsym
    exact Packet.ofKJ_ne_se0 kj
  · apply h
    rw [List.getElem?_append_right (by rw [hsync]; exact Nat.le_add_right 8 _), hsync,
      Nat.add_sub_cancel_left, List.getElem?_append_right (Nat.le_refl _), Nat.sub_self]
    rfl

/-- Receiving undoes sending, wherever in its bit time each symbol is sampled: when the packet is
over the receiver has the PID and the payload, and the two checks agree.  With one bit of the
payload or of its check flipped, they do not. -/
theorem receive_sendData (pid : BitVec 4) (bytes : BitVec 64) (n : ℕ) (hn : n ≤ 8)
    {clockDiv : BitVec 8} (s : Strobed DataRegs) {point : ℕ → ℕ}
    (hpoint : ∀ k, 0 < point k ∧ point k ≤ clockDiv.toNat) (receivedCrc16 : BitVec 16) :
    let line := fun k => (sendData ⟨pid, bytes, lenField n⟩).lineAt clockDiv s
      (k * (clockDiv.toNat + 1) + point k)
    let stream := (Packet.data pid bytes n hn).stream
    let receive := fun bs => (Receiver.afterSync receivedCrc16).receive (Packet.samples bs)
    Packet.Sampled line (Packet.samples stream) ∧
      (lsbBits (receive stream).packet (8 + 8 * n) =
        lsbBits pid 4 ++ lsbBits (~~~ pid) 4 ++ lsbBits bytes (8 * n)) ∧
      (receive stream).bitCount.toNat = 8 + 8 * n + 16 ∧
      (receive stream).calculatedCrc16 = (receive stream).receivedCrc16 ∧
      ∀ i, 16 ≤ i → i < stream.length →
        (receive (stream.modify i not)).calculatedCrc16 ≠
          (receive (stream.modify i not)).receivedCrc16 := by
  intro line stream receive
  have hbytes : (lsbBits bytes (8 * n)).length = 8 * n := length_lsbBits _ _
  have hcheck : (lsbBits (crc16 (lsbBits bytes (8 * n))) 16).length = 16 := length_lsbBits _ _
  have hdiv : clockDiv ≠ 0 := by
    rintro rfl
    exact absurd (hpoint 0).1 (Nat.not_lt.mpr (hpoint 0).2)
  -- the receiver takes the PID, the payload and the check
  have hholds : Receiver.Holds (Packet.pidBits pid ++
      (lsbBits bytes (8 * n) ++ lsbBits (crc16 (lsbBits bytes (8 * n))) 16)) (receive stream) := by
    apply Receiver.holds_samples
    rw [List.length_append, hbytes, hcheck]
    omega
  have hlen : (Packet.pidBits pid ++
      (lsbBits bytes (8 * n) ++ lsbBits (crc16 (lsbBits bytes (8 * n))) 16)).length =
        8 + 8 * n + 16 := by
    rw [List.length_append, List.length_append, hbytes, hcheck, Packet.length_pidBits,
      Nat.add_assoc]
  refine ⟨?_, ?_, ?_, ?_, ?_⟩
  · apply sampled_of_onLine
    intro k sym hsym
    exact line_of_shows (sendData_shows pid bytes hn hdiv s) (hpoint k) hsym
  · have hpacket := Receiver.lsbBits_packet hholds
    rw [hlen, lsbBits_add, ← List.append_assoc] at hpacket
    have hfront := (List.append_inj hpacket (by
      rw [length_lsbBits, List.length_append, hbytes, Packet.length_pidBits])).1
    exact hfront
  · rw [hholds.bitCount, BitVec.toNat_ofNat, hlen]
    exact Nat.mod_eq_of_lt (by omega)
  · exact (Receiver.checks_agree_iff hholds hbytes hcheck).mpr rfl
  · -- a bit behind the PID is in the payload or in its check
    intro i hi hlt
    have hstream : stream.length = 16 + (8 * n + 16) := by
      show (Packet.head pid ++ (lsbBits bytes (8 * n) ++
        lsbBits (crc16 (lsbBits bytes (8 * n))) 16)).length = _
      rw [List.length_append, List.length_append, hbytes, hcheck]
      rfl
    have hflip : stream.modify i not = Packet.head pid ++
        (lsbBits bytes (8 * n) ++ lsbBits (crc16 (lsbBits bytes (8 * n))) 16).modify (i - 16) not :=
      modify_append_right hi
    rw [hflip]
    exact checks_differ hbytes hn (by omega) receivedCrc16

theorem receive_sendData_byte :
    let stream := (Packet.data 3 0xF9 1 (by decide)).stream
    let r := (Receiver.afterSync 0).receive (Packet.samples stream)
    lsbBits r.packet 16 = lsbBits 3#4 4 ++ lsbBits (~~~ 3#4) 4 ++ lsbBits 0xF9#64 8 ∧
      r.calculatedCrc16 = r.receivedCrc16 := by
  have h := @receive_sendData 3 0xF9 1 (by decide) 7 ⟨0, ⟨.syncPid, 0, 0, false, 0xFFFF, 0⟩⟩
    (fun _ => 4) (fun _ => by decide) 0
  exact ⟨h.2.1, h.2.2.2.1⟩

end Karnix.Usb
