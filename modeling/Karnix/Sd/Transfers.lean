import Karnix.Sd.Commands
import Karnix.Sd.Isolation

/-!
# Transfers of blocks

What an attempt to read or to write blocks has done if it succeeds.
-/

namespace Karnix.Sd

open Karnix.Library
open Karnix.Library.Program

/-! ## Section 1: Receiving a block -/

/-- The check-sum of a block. -/
def crc16 (bs : List Byte) : BitVec 16 := bs.foldl crc16Step 0

/-- A block came in whole, with a check-sum that matches. -/
def Reception.Sound (r : Reception) : Prop :=
  r.bytes.length = sdmmcBlockSize + 2 ∧
    crc16 (r.bytes.take sdmmcBlockSize) =
      be16 (r.bytes.getD sdmmcBlockSize 0) (r.bytes.getD (sdmmcBlockSize + 1) 0)

/-- The data of a block. -/
def Reception.data (r : Reception) : List Byte := r.bytes.take sdmmcBlockSize

theorem setWidth_shift (c : BitVec 16) : (c <<< 8).setWidth 8 = (0 : Byte) := by
  apply BitVec.eq_of_getLsbD_eq
  intro i hi
  simp [hi]

theorem high_shift (c : BitVec 16) : ((c <<< 8) >>> 8).setWidth 8 = (c.setWidth 8 : Byte) := by
  apply BitVec.eq_of_getLsbD_eq
  intro i hi
  simp only [BitVec.getLsbD_setWidth, BitVec.getLsbD_ushiftRight, BitVec.getLsbD_shiftLeft]
  interval_cases i <;> simp

theorem shift_shift (c : BitVec 16) : (c <<< 8) <<< 8 = 0 := by
  apply BitVec.eq_of_getLsbD_eq
  intro i hi
  simp

/-- The entries of the table differ in their lower bytes. -/
theorem table_low (b : Byte) (h : (sdmmcCrc16Table.getD b.toNat 0).setWidth 8 = (0 : Byte)) :
    b = 0 := by
  revert b
  decide +kernel

/-- The next byte that makes the lower byte of the check-sum zero is its upper one. -/
theorem crc16Step_low {c : BitVec 16} {b : Byte} (h : ((crc16Step c b).setWidth 8 : Byte) = 0) :
    b = (c >>> 8).setWidth 8 ∧ crc16Step c b = c <<< 8 := by
  rw [crc16Step, BitVec.setWidth_xor, setWidth_shift] at h
  have hzero := table_low _ ((BitVec.xor_zero).symm.trans h)
  refine ⟨(BitVec.xor_eq_zero_iff.1 hzero).symm, ?_⟩
  rw [crc16Step, hzero]
  exact BitVec.zero_xor

theorem crc16Step_high (c : BitVec 16) : crc16Step c ((c >>> 8).setWidth 8) = c <<< 8 := by
  rw [crc16Step, BitVec.xor_self]
  exact BitVec.zero_xor

/-- The check-sum over a block and two more bytes is zero exactly if they are its check-sum. -/
theorem crc16_append_eq_zero (bs : List Byte) (hi lo : Byte) :
    crc16 (bs ++ [hi, lo]) = 0 ↔ crc16 bs = be16 hi lo := by
  have hstep : crc16 (bs ++ [hi, lo]) = crc16Step (crc16Step (crc16 bs) hi) lo := by
    rw [crc16, List.foldl_append]
    rfl
  rw [hstep]
  constructor
  · intro hzero
    have hlow : ((crc16Step (crc16Step (crc16 bs) hi) lo).setWidth 8 : Byte) = 0 := by
      rw [hzero]
      rfl
    obtain ⟨hlo, hshift⟩ := crc16Step_low hlow
    rw [hshift] at hzero
    have hlow' : ((crc16Step (crc16 bs) hi).setWidth 8 : Byte) = 0 := by
      rw [← high_shift, hzero]
      rfl
    obtain ⟨hhi, hshift'⟩ := crc16Step_low hlow'
    rw [hshift', high_shift] at hlo
    rw [hhi, hlo, be16_parts]
  · intro heq
    have hhi : hi = (crc16 bs >>> 8).setWidth 8 := heq ▸ (be16_high hi lo).symm
    have hlo : lo = (crc16 bs).setWidth 8 := heq ▸ (be16_low hi lo).symm
    rw [hhi, crc16Step_high, hlo, ← high_shift, crc16Step_high, shift_shift]

/-- The receive loop, if it returns: the bytes that came in, and their check-sum. -/
theorem rxLoop_returns {s : Driver} {reg count : ℕ} {r : Reception} {s₁ s₂ : Driver}
    (h : Open s r s₁) {crc c : BitVec 16}
    (hrun : rxLoop reg count (r.buf + r.bytes.length) crc s₁ = (some c, s₂)) :
    ∃ bs, bs.length = count ∧ Open s (r.append bs) s₂ ∧ c = bs.foldl crc16Step crc := by
  induction count generalizing r s₁ crc with
  | zero =>
    cases hrun
    exact ⟨[], rfl, by simpa [Reception.append] using h, rfl⟩
  | succ count ih =>
    rw [rxLoop] at hrun
    obtain ⟨rx, s₃, hpoll, hrun⟩ := exists_of_bind hrun
    obtain ⟨_, s₄, hsend, hrun⟩ := exists_of_bind hrun
    obtain ⟨_, s₅, hstore, hrun⟩ := exists_of_bind hrun
    have hopen := ((h.of_silent ((keeps_pollData (R := Silent)).of_eq hpoll)).of_silent
      ((keeps_sendReceive (R := Silent) reg 0xff).of_eq hsend)).push (byteOf rx)
    rw [hstore] at hopen
    have hlen : r.buf + r.bytes.length + 1 =
        (r.push (byteOf rx)).buf + (r.push (byteOf rx)).bytes.length := by
      simp [Reception.push, Nat.add_assoc]
    rw [hlen] at hrun
    obtain ⟨bs, hcount, hrest, hcrc⟩ := ih hopen hrun
    rw [Reception.push_append] at hrest
    exact ⟨byteOf rx :: bs, congrArg (· + 1) hcount, hrest, hcrc⟩

/-- A block or a register that was received without an error. -/
theorem sdmmcRxBuf_ok {reg buf len : ℕ} {s s' : Driver}
    (h : sdmmcRxBuf reg buf len s = (some 0, s')) :
    ∃ bytes, bytes.length = len + 2 ∧ Open s ⟨s.lastCmd, buf, len, bytes⟩ s' ∧
      crc16 bytes = 0 := by
  rw [sdmmcRxBuf] at h
  obtain ⟨ret, s₁, hwait, h⟩ := exists_of_bind h
  have hsilent := (keeps_sdmmcWaitR1Response (R := Silent) reg 0xfe 1000).of_eq hwait
  rcases exists_of_ite h with ⟨hneg, h⟩ | ⟨-, h⟩
  · cases h
    exact absurd hneg (by decide)
  obtain ⟨_, s₂, hbegin, h⟩ := exists_of_bind h
  obtain ⟨_, s₃, hsend, h⟩ := exists_of_bind h
  obtain ⟨crc, s₄, hloop, h⟩ := exists_of_bind h
  obtain ⟨_, s₅, hread, h⟩ := exists_of_bind h
  have hopen : Open s ⟨s.lastCmd, buf, len, []⟩ s₃ := by
    have hfirst : Open s ⟨s.lastCmd, buf, len, []⟩ s₂ := by
      cases hbegin
      refine ⟨?_, ?_⟩
      · show ⟨s₁.lastCmd, buf, len, []⟩ :: s₁.received = _
        rw [hsilent.2.1, hsilent.2.2]
      · exact hsilent.1.trans (Memory.store_nil s.mem buf).symm
    exact hfirst.of_silent ((keeps_sendReceive (R := Silent) reg 0xff).of_eq hsend)
  obtain ⟨bytes, hcount, hrest, hcrc⟩ := rxLoop_returns hopen hloop
  have hend := (keeps_readReg (R := Silent)).of_eq hread
  rcases exists_of_ite h with ⟨-, h⟩ | ⟨hzero, h⟩
  · cases h
  · cases h
    refine ⟨bytes, hcount, hrest.of_silent hend, ?_⟩
    rw [crc16, ← hcrc]
    exact Classical.not_not.1 hzero

/-- What is received without an error is a sound block. -/
theorem sound_of_crc16 {r : Reception} (hlen : r.bytes.length = sdmmcBlockSize + 2)
    (h : crc16 r.bytes = 0) : r.Sound := by
  refine ⟨hlen, (crc16_append_eq_zero _ _ _).1 ?_⟩
  have h0 : sdmmcBlockSize < r.bytes.length := by rw [hlen]; decide
  have h1 : sdmmcBlockSize + 1 < r.bytes.length := by rw [hlen]; decide
  have hsplit : r.bytes.take sdmmcBlockSize ++ [r.bytes.getD sdmmcBlockSize 0,
      r.bytes.getD (sdmmcBlockSize + 1) 0] = r.bytes := by
    rw [List.getD_eq_getElem?_getD, List.getD_eq_getElem?_getD, List.getElem?_eq_getElem h0,
      List.getElem?_eq_getElem h1, Option.getD_some, Option.getD_some]
    conv_rhs => rw [← List.take_append_drop sdmmcBlockSize r.bytes]
    rw [List.drop_eq_getElem_cons h0, List.drop_eq_getElem_cons h1,
      List.drop_of_length_le (Nat.le_of_eq hlen)]
  rw [hsplit]
  exact h

/-! ## Section 2: Receiving blocks -/

/-- The receptions `rs`, the last one first, were those of `n` blocks, and their data is at
`buf`. -/
structure Got (buf n : ℕ) (rs : List Reception) (s s' : Driver) : Prop where
  received : s'.received = rs ++ s.received
  count : rs.length = n
  sound : ∀ r ∈ rs, r.Sound
  data : s'.mem.load buf (n * sdmmcBlockSize) = rs.reverse.flatMap Reception.data
  below : ∀ a, a < buf → s'.mem a = s.mem a

variable {d buf n : ℕ} {rs : List Reception} {s s₁ s₂ s' : Driver} {addr count : BitVec 32}

theorem Got.of_quiet (h : Got buf n rs s s₁) (hquiet : Quiet s₁ s₂) : Got buf n rs s s₂ where
  received := hquiet.2.trans h.received
  count := h.count
  sound := h.sound
  data := hquiet.1 ▸ h.data
  below a ha := hquiet.1 ▸ h.below a ha

theorem Got.after (hquiet : Quiet s s₁) (h : Got buf n rs s₁ s₂) : Got buf n rs s s₂ where
  received := hquiet.2 ▸ h.received
  count := h.count
  sound := h.sound
  data := h.data
  below a ha := hquiet.1 ▸ h.below a ha

theorem got_nil (s : Driver) (buf : ℕ) : Got buf 0 [] s s where
  received := rfl
  count := rfl
  sound := List.forall_mem_nil _
  data := by rw [Nat.zero_mul]; rfl
  below _ _ := rfl

/-- One more block, before the others. -/
theorem Got.cons {bytes : List Byte} (hlen : bytes.length = sdmmcBlockSize + 2)
    (hcrc : crc16 bytes = 0) (hopen : Open s ⟨s.lastCmd, buf, sdmmcBlockSize, bytes⟩ s₁)
    (h : Got (buf + sdmmcBlockSize) n rs s₁ s₂) :
    Got buf (n + 1) (rs ++ [⟨s.lastCmd, buf, sdmmcBlockSize, bytes⟩]) s s₂ where
  received := by
    rw [h.received, hopen.1, List.append_assoc]
    rfl
  count := by rw [List.length_append, h.count, List.length_singleton]
  sound := List.forall_mem_append.2
    ⟨h.sound, List.forall_mem_singleton.2 (sound_of_crc16 hlen hcrc)⟩
  data := by
    have hfirst : s₂.mem.load buf sdmmcBlockSize = bytes.take sdmmcBlockSize := by
      have hkept : s₂.mem.load buf sdmmcBlockSize = s₁.mem.load buf sdmmcBlockSize :=
        Memory.load_congr fun i hi => h.below (buf + i) (Nat.add_lt_add_left hi buf)
      rw [hkept, hopen.2]
      exact Memory.load_store_take _ _ (by rw [hlen]; decide)
    rw [Nat.succ_mul, Nat.add_comm, Memory.load_add, hfirst, h.data, List.reverse_append]
    rfl
  below a ha := by
    rw [h.below a (Nat.lt_add_right _ ha), hopen.2]
    exact Memory.store_of_lt _ _ ha

/-- **Run lemma.**  Blocks that are read without an error have come one behind the other. -/
theorem readBlocks_ok {c b : ℕ} (h : readBlocks d c b s = (some true, s')) :
    ∃ rs, Got b c rs s s' := by
  induction c generalizing b s with
  | zero =>
    cases h
    exact ⟨[], got_nil _ b⟩
  | succ c ih =>
    rw [readBlocks] at h
    obtain ⟨ret, s₁, hrx, h⟩ := exists_of_bind h
    rcases exists_of_ite h with ⟨-, h⟩ | ⟨hzero, h⟩
    · cases h
    · obtain rfl : ret = 0 := Classical.not_not.1 hzero
      obtain ⟨bytes, hlen, hopen, hcrc⟩ := sdmmcRxBuf_ok hrx
      obtain ⟨rs, hgot⟩ := ih h
      exact ⟨_, hgot.cons hlen hcrc hopen⟩

/-- The number of blocks that an attempt transfers. -/
def blocksOf (count : BitVec 32) : ℕ := if count.toInt < 2 then 1 else count.toNat

/-- **Reading.**  An attempt that succeeds has got all its blocks. -/
theorem readAttempt_ok (h : readAttempt d addr count buf s = (some (some 0), s')) :
    ∃ rs, Got buf (blocksOf count) rs s s' := by
  rw [readAttempt] at h
  obtain ⟨_, s₁, hselect, h⟩ := exists_of_bind h
  have hquiet := (keeps_sdmmcSelect (R := Quiet) d deviceSs).of_eq hselect
  rw [blocksOf]
  -- one block
  rcases exists_of_ite h with ⟨hone, h⟩ | ⟨hone, h⟩
  · rw [if_pos hone]
    obtain ⟨ret, s₂, hcmd, h⟩ := exists_of_bind h
    have hquiet₂ := (keeps_sdmmcSendCmd (R := Quiet) d 17 addr 0x01).of_eq hcmd
    rcases exists_of_ite h with ⟨-, h⟩ | ⟨-, h⟩
    · obtain ⟨_, _, -, h⟩ := exists_of_bind h
      obtain ⟨_, _, -, h⟩ := exists_of_bind h
      cases h
    · obtain ⟨ret, s₃, hrx, h⟩ := exists_of_bind h
      rcases exists_of_ite h with ⟨-, h⟩ | ⟨hzero, h⟩
      · obtain ⟨_, _, -, h⟩ := exists_of_bind h
        obtain ⟨_, _, -, h⟩ := exists_of_bind h
        cases h
      · obtain ⟨_, s₄, hend, h⟩ := exists_of_bind h
        cases h
        obtain ⟨bytes, hlen, hopen, hcrc⟩ := sdmmcRxBuf_ok hrx
        have hgot := (got_nil s₃ (buf + sdmmcBlockSize)).cons hlen hcrc hopen
        have hquiet₄ := (keeps_sdmmcDeselect (R := Quiet) d deviceSs).of_eq hend
        exact ⟨_, ((hgot.of_quiet hquiet₄).after hquiet₂).after hquiet⟩
  · -- several blocks; what fails on the way is tried again
    rw [if_neg hone]
    obtain ⟨ret, s₂, hcmd, h⟩ := exists_of_bind h
    have hquiet₂ := (keeps_sdmmcSendCmd (R := Quiet) d 18 addr 0x01).of_eq hcmd
    have hagain : ∀ {t t' : Driver}, readAgain d t ≠ (some (some 0), t') := by
      intro t t' hrun
      rw [readAgain] at hrun
      obtain ⟨ret, t₁, -, hrun⟩ := exists_of_bind hrun
      rcases exists_of_ite hrun with ⟨hneg, hrun⟩ | ⟨-, hrun⟩
      · cases hrun
        exact absurd hneg (by decide)
      · obtain ⟨_, _, -, hrun⟩ := exists_of_bind hrun
        obtain ⟨_, _, -, hrun⟩ := exists_of_bind hrun
        cases hrun
    rcases exists_of_ite h with ⟨-, h⟩ | ⟨-, h⟩
    · exact absurd h hagain
    · -- all blocks were read, and what is left only ends the transfer
      obtain ⟨all, s₃, hblocks, h⟩ := exists_of_bind h
      rcases exists_of_ite h with ⟨-, h⟩ | ⟨hall, h⟩
      · exact absurd h hagain
      · obtain rfl : all = true := by simpa using hall
        obtain ⟨ret, s₄, hstop, h⟩ := exists_of_bind h
        rcases exists_of_ite h with ⟨-, h⟩ | ⟨-, h⟩
        · exact absurd h hagain
        · obtain ⟨ret', s₅, hready, h⟩ := exists_of_bind h
          obtain ⟨_, s₆, hend, h⟩ := exists_of_bind h
          cases h
          obtain ⟨rs, hgot⟩ := readBlocks_ok hblocks
          have hquiet₄ := (keeps_sdmmcSendCmd (R := Quiet) d 12 0 0x01).of_eq hstop
          have hquiet₅ := (keeps_sdmmcWaitReady (R := Quiet) d).of_eq hready
          have hquiet₆ := (keeps_sdmmcDeselect (R := Quiet) d deviceSs).of_eq hend
          exact ⟨rs, ((((hgot.of_quiet hquiet₄).of_quiet hquiet₅).of_quiet hquiet₆).after
            hquiet₂).after hquiet⟩

/-! ## Section 3: Sending blocks -/

/-- Since `s` no command was sent, and `k` bytes of blocks. -/
def Sends (d k : ℕ) (s s' : Driver) : Prop :=
  ∃ ws, Wrote d ws s s' ∧ (∀ w ∈ ws, startsCommand w = false) ∧ ws.countP isData = k

variable {k l : ℕ}

theorem Sends.append (h : Sends d k s s₁) (h' : Sends d l s₁ s₂) : Sends d (k + l) s s₂ := by
  obtain ⟨ws, hw, hstart, hk⟩ := h
  obtain ⟨ws', hw', hstart', hl⟩ := h'
  exact ⟨ws ++ ws', hw.append hw', List.forall_mem_append.2 ⟨hstart, hstart'⟩,
    by rw [List.countP_append, hk, hl]⟩

theorem countP_fillers {ws : List (BitVec 32)} (h : ∀ w ∈ ws, Filler w) : ws.countP isData = 0 :=
  List.countP_eq_zero.2 fun w hw => by rw [(h w hw).2]; exact Bool.false_ne_true

theorem Chat.sends (h : Chat d s s₁) : Sends d 0 s s₁ := by
  obtain ⟨ws, hw, hf⟩ := h
  exact ⟨ws, hw, fun w hmem => (hf w hmem).1, countP_fillers hf⟩

theorem sends_data (b : Byte) (s : Driver) :
    Sends d 1 s (writeData d (spiCmdSend ||| b.setWidth 32) s).2 := by
  refine ⟨_, wrote_writeData d _ s, List.forall_mem_singleton.2 ?_, List.countP_singleton.trans ?_⟩
  · revert b
    decide
  · revert b
    decide

/-- All bytes of a block were sent. -/
theorem txLoop_ok {c b : ℕ} (h : txLoop d c b s = (some true, s')) : Sends d c s s' := by
  induction c generalizing b s with
  | zero =>
    cases h
    exact (refl_of (Chat d) _).sends
  | succ c ih =>
    rw [txLoop] at h
    obtain ⟨avail, s₁, havail, h⟩ := exists_of_bind h
    have hchat := (chat_spiWaitTxAvail (d := d) 1 1000).of_eq havail
    rcases exists_of_ite h with ⟨-, h⟩ | ⟨-, h⟩
    · cases h
    · obtain ⟨tx, s₂, hload, h⟩ := exists_of_bind h
      cases hload
      obtain ⟨_, s₃, hdata, h⟩ := exists_of_bind h
      cases hdata
      have hsum := (hchat.sends.append (sends_data _ _)).append (ih h)
      rwa [Nat.zero_add, Nat.add_comm] at hsum

/-- A block that was accepted was sent as a whole. -/
theorem sdmmcTxBuf_ok {b len : ℕ} {token : Byte} [Idle token]
    (h : sdmmcTxBuf d b len token s = (some 0, s')) : Sends d (len + 2) s s' := by
  rw [sdmmcTxBuf] at h
  obtain ⟨ret, s₁, hready, h⟩ := exists_of_bind h
  rcases exists_of_ite h with ⟨hneg, h⟩ | ⟨-, h⟩
  · cases h
    exact absurd hneg (by decide)
  obtain ⟨_, s₂, htoken, h⟩ := exists_of_bind h
  obtain ⟨fits, s₃, hloop, h⟩ := exists_of_bind h
  rcases exists_of_ite h with ⟨-, h⟩ | ⟨hfits, h⟩
  · cases h
  obtain rfl : fits = true := by simpa using hfits
  obtain ⟨avail, s₄, havail, h⟩ := exists_of_bind h
  rcases exists_of_ite h with ⟨-, h⟩ | ⟨-, h⟩
  · cases h
  obtain ⟨_, s₅, hzero, h⟩ := exists_of_bind h
  cases hzero
  obtain ⟨_, s₆, hzero, h⟩ := exists_of_bind h
  cases hzero
  have hbefore := (((chat_sdmmcWaitReady (d := d)).of_eq hready).sends.append
    ((chat_sdmmcReadwriteByte (d := d) token).of_eq htoken).sends).append (txLoop_ok hloop)
  have hcrc := (((chat_spiWaitTxAvail (d := d) 2 1000).of_eq havail).sends.append
    (sends_data 0 s₄)).append (sends_data 0 (writeData d spiCmdSend s₄).2)
  have hall := (hbefore.append hcrc).append
    ((chat_txRespLoop (d := d) (sdmmcTimeout <<< 6)).of_eq h).sends
  simpa using hall

/-- **Run lemma.**  Blocks that are written without an error have been sent in full. -/
theorem writeBlocks_ok {c b : ℕ} {ret : ℤ} (h : writeBlocks d c b ret s = (some 0, s')) :
    Sends d (c * (sdmmcBlockSize + 2)) s s' := by
  induction c generalizing b ret s with
  | zero =>
    cases h
    rw [Nat.zero_mul]
    exact (refl_of (Chat d) _).sends
  | succ c ih =>
    rw [writeBlocks] at h
    obtain ⟨ret', s₁, htx, h⟩ := exists_of_bind h
    rcases exists_of_ite h with ⟨hne, h⟩ | ⟨hzero, h⟩
    · cases h
      exact absurd rfl hne
    · obtain rfl : ret' = 0 := Classical.not_not.1 hzero
      obtain ⟨_, s₂, hready, h⟩ := exists_of_bind h
      have hsum := ((sdmmcTxBuf_ok htx).append
        ((chat_sdmmcWaitReady (d := d)).of_eq hready).sends).append (ih h)
      rwa [Nat.add_zero, Nat.add_comm, ← Nat.succ_mul] at hsum

theorem commands_of_forall {ws : List (BitVec 32)} (h : ∀ w ∈ ws, startsCommand w = false) :
    commands ws = [] := by
  induction ws with
  | nil => rfl
  | cons w ws ih =>
    rw [commands_word (h w (List.mem_cons_self ..))]
    exact ih fun v hv => h v (List.mem_cons_of_mem w hv)

/-- The commands are the same behind words that begin none. -/
theorem commands_append_of_forall {fs ws : List (BitVec 32)}
    (h : ∀ f ∈ fs, startsCommand f = false) : commands (fs ++ ws) = commands ws := by
  induction fs with
  | nil => rfl
  | cons f fs ih =>
    rw [List.cons_append, commands_word (h f (List.mem_cons_self ..))]
    exact ih fun w hw => h w (List.mem_cons_of_mem f hw)

/-- Since `s` one command was sent, and `k` bytes of blocks. -/
def SendsAfter (d : ℕ) (cmd : Byte) (arg : BitVec 32) (k : ℕ) (s s' : Driver) : Prop :=
  ∃ ws, Wrote d ws s s' ∧ commands ws = [(cmd, arg)] ∧ ws.countP isData = k

theorem countP_frame {cmd : Byte} {arg : BitVec 32} {crc : Byte} :
    (frame cmd arg crc).countP isData = 0 := by
  have hbyte : ∀ b : Byte, isData (spiCmdSendReceive ||| b.setWidth 32) = false := by decide
  refine List.countP_eq_zero.2 fun w hw => ?_
  obtain ⟨b, -, rfl⟩ := List.mem_map.1 hw
  rw [hbyte b]
  exact Bool.false_ne_true

/-- A command is sent, and the rest without a command. -/
theorem sendsAfter_of {cmd : Byte} {arg : BitVec 32} {crc : Byte} {ret : ℤ} (hcmd : cmd < 0x40)
    (hselect : Chat d s s₁) (h : sdmmcSendCmd d cmd arg crc s₁ = (some ret, s₂))
    (hrest : Sends d k s₂ s') : SendsAfter d cmd arg k s s' := by
  obtain ⟨fs, hfs, hf⟩ := hselect
  obtain ⟨said, hsaid, ⟨hnone, -⟩ | ⟨rest, rfl, hrestf⟩⟩ := sdmmcSendCmd_said h
  · cases hnone
  obtain ⟨ws, hws, hstart, hk⟩ := hrest
  refine ⟨_, (hfs.append hsaid).append hws, ?_, ?_⟩
  · rw [List.append_assoc, commands_append_of_forall fun w hw => (hf w hw).1, List.append_assoc,
      commands_frame hcmd,
      commands_of_forall (List.forall_mem_append.2 ⟨fun w hw => (hrestf w hw).1, hstart⟩)]
  · have hframe : (frame cmd arg crc).countP isData = 0 := countP_frame
    rw [List.countP_append, List.countP_append, List.countP_append, countP_fillers hf,
      countP_fillers hrestf, hframe, hk, Nat.zero_add]

theorem writeDone_ok {ret r : ℤ} {b : Bool} (h : writeDone d ret s = (some (b, r), s')) :
    b = true ∧ r = ret ∧ Chat d s s' := by
  have hchat := (chat_writeDone (d := d) ret).of_eq h
  rw [writeDone] at h
  obtain ⟨_, s₁, -, h⟩ := exists_of_bind h
  obtain ⟨_, s₂, -, h⟩ := exists_of_bind h
  cases h
  exact ⟨rfl, rfl, hchat⟩

theorem writeAgain_ok {ret r : ℤ} {b : Bool} (h : writeAgain d ret s = (some (b, r), s')) :
    b = false ∧ r = ret := by
  rw [writeAgain] at h
  obtain ⟨_, s₁, -, h⟩ := exists_of_bind h
  obtain ⟨_, s₂, -, h⟩ := exists_of_bind h
  obtain ⟨_, s₃, -, h⟩ := exists_of_bind h
  cases h
  exact ⟨rfl, rfl⟩

/-- **Writing.**  An attempt that succeeds returns 0 and has sent its blocks behind its command;
one that fails leaves an error. -/
theorem writeAttempt_ok {b : Bool} {r : ℤ}
    (h : writeAttempt d addr count buf s = (some (b, r), s')) :
    b = true ∧ r = 0 ∧
        SendsAfter d (writeCmd count) addr (blocksOf count * (sdmmcBlockSize + 2)) s s' ∨
      b = false ∧ r ≠ 0 := by
  rw [writeAttempt] at h
  obtain ⟨_, s₁, hselect, h⟩ := exists_of_bind h
  have hchat := (chat_sdmmcSelect (d := d)).of_eq hselect
  rw [blocksOf, writeCmd]
  rcases exists_of_ite h with ⟨hone, h⟩ | ⟨hone, h⟩
  · rw [if_pos hone, if_pos hone]
    obtain ⟨ret, s₂, hcmd, h⟩ := exists_of_bind h
    rcases exists_of_ite h with ⟨hne, h⟩ | ⟨-, h⟩
    · obtain ⟨rfl, rfl⟩ := writeAgain_ok h
      exact Or.inr ⟨rfl, hne⟩
    obtain ⟨_, s₃, hdummy, h⟩ := exists_of_bind h
    obtain ⟨ret', s₄, htx, h⟩ := exists_of_bind h
    rcases exists_of_ite h with ⟨hne, h⟩ | ⟨hzero, h⟩
    · obtain ⟨rfl, rfl⟩ := writeAgain_ok h
      exact Or.inr ⟨rfl, hne⟩
    obtain rfl : ret' = 0 := Classical.not_not.1 hzero
    obtain ⟨_, s₅, hready, h⟩ := exists_of_bind h
    obtain ⟨rfl, rfl, hdone⟩ := writeDone_ok h
    refine Or.inl ⟨rfl, rfl, sendsAfter_of (by decide) hchat hcmd ?_⟩
    have hsum := ((((chat_sdmmcReadwriteByte (d := d) 0xff).of_eq hdummy).sends.append
      (sdmmcTxBuf_ok htx)).append ((chat_sdmmcWaitReady (d := d)).of_eq hready).sends).append
      hdone.sends
    simpa using hsum
  · rw [if_neg hone, if_neg hone]
    obtain ⟨ret, s₂, hcmd, h⟩ := exists_of_bind h
    rcases exists_of_ite h with ⟨hne, h⟩ | ⟨hcmdzero, h⟩
    · obtain ⟨rfl, rfl⟩ := writeAgain_ok h
      exact Or.inr ⟨rfl, hne⟩
    obtain ⟨_, s₃, hdummy, h⟩ := exists_of_bind h
    obtain ⟨ret', s₄, hblocks, h⟩ := exists_of_bind h
    rcases exists_of_ite h with ⟨hne, h⟩ | ⟨hzero, h⟩
    · obtain ⟨rfl, rfl⟩ := writeAgain_ok h
      exact Or.inr ⟨rfl, hne⟩
    obtain rfl : ret' = 0 := Classical.not_not.1 hzero
    obtain ⟨_, s₅, hstop, h⟩ := exists_of_bind h
    obtain ⟨_, s₆, hdummy', h⟩ := exists_of_bind h
    obtain ⟨rfl, rfl, hdone⟩ := writeDone_ok h
    refine Or.inl ⟨rfl, rfl, sendsAfter_of (by decide) hchat hcmd ?_⟩
    have hsum := (((((chat_sdmmcReadwriteByte (d := d) 0xff).of_eq hdummy).sends.append
      (writeBlocks_ok hblocks)).append
      ((chat_sdmmcReadwriteByte (d := d) 0xfd).of_eq hstop).sends).append
      ((chat_sdmmcReadwriteByte (d := d) 0xff).of_eq hdummy').sends).append hdone.sends
    simpa using hsum

end Karnix.Sd
