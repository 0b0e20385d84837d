import Karnix.Sd.Attempts

/-!
# What the return codes say

`sdmmc_read_block` returns 0 after an attempt that got all blocks.  `sdmmc_write_block` tests a
variable `retry` that it never sets, and `sdmmc_tx_buf` takes any later byte that looks like it for
the response to a block.
-/

namespace Karnix.Sd

open Karnix.Library
open Karnix.Library.Program

/-! ## Section 1: Responses to blocks -/

/-- The first byte with `want` that the card sends while the driver waits for a response. -/
def firstByte (reg : ℕ) (want : Byte → Bool) : ℕ → Prog (Option Byte)
  | 0 => pure none
  | i + 1 => do
    let ret ← sdmmcReadwriteByte reg 0xff
    if ret < 0 then pure none
    else if want (BitVec.ofInt 8 ret) = true then pure (some (BitVec.ofInt 8 ret))
    else firstByte reg want i

/-- A response to a block, of the form `xxx0sss1`. -/
def isResponse (b : Byte) : Bool := b &&& 0x11 = 0x01

/-- "Data accepted", as the card says it behind a block. -/
def isAccepted (b : Byte) : Bool := b &&& 0x1f = 0x05

/-- The response to the block is that it was accepted. -/
def Accepts (d : ℕ) (s s' : Driver) : Prop :=
  ∃ b, firstByte d isResponse (sdmmcTimeout <<< 6) s = (some (some b), s') ∧ isAccepted b = true

/-- The response to the block or a byte behind it looks as if it was accepted. -/
def Scans (d : ℕ) (s s' : Driver) : Prop :=
  ∃ b, firstByte d isAccepted (sdmmcTimeout <<< 6) s = (some (some b), s')

/-- `sdmmc_tx_buf` up to the response. -/
def sendBlock (reg buf : ℕ) (cmd : Byte) : Prog ℤ := do
  let ret ← sdmmcWaitReady reg
  if ret < 0 then pure ret
  else do
    let _ ← sdmmcReadwriteByte reg cmd
    let fits ← txLoop reg sdmmcBlockSize buf
    if fits = false then pure sdmmcErrorWrite
    else do
      let avail ← spiWaitTxAvail 2 1000
      if avail = 0 then pure sdmmcErrorWrite
      else do
        writeData reg spiCmdSend
        writeData reg spiCmdSend
        pure sdmmcErrorOk

/-- `c` blocks from `b` on are sent, and the response to each of them is as `heard` says. -/
def BlocksHeard (heard : Driver → Driver → Prop) (d : ℕ) (token : Byte) : ℕ → ℕ → Driver → Prop
  | 0, _, _ => True
  | c + 1, b, s => ∃ s₁ s₂ s₃ ret, sendBlock d b token s = (some 0, s₁) ∧ heard s₁ s₂ ∧
      sdmmcWaitReady d s₂ = (some ret, s₃) ∧
      BlocksHeard heard d token c (b + sdmmcBlockSize) s₃

/-- The token before a block. -/
def blockToken (count : BitVec 32) : Byte := if count.toInt < 2 then 0xfe else 0xfc

/-- In the attempt that begins in `s` the command is accepted, and the response to each block is
as `heard` says. -/
def AllHeard (heard : Driver → Driver → Prop) (d : ℕ) (addr count : BitVec 32) (buf : ℕ)
    (s : Driver) : Prop :=
  ∃ s₁ s₂ ret, sdmmcSendCmd d (writeCmd count) addr 0x01 (sdmmcSelect d deviceSs s).2 =
      (some 0, s₁) ∧
    sdmmcReadwriteByte d 0xff s₁ = (some ret, s₂) ∧
    BlocksHeard heard d (blockToken count) count.toNat buf s₂

variable {d buf : ℕ} {addr count : BitVec 32} {s s' : Driver}

/-- A byte, or that none came. -/
theorem sdmmcReadwriteByte_value {b : Byte} {ret : ℤ}
    (h : sdmmcReadwriteByte d b s = (some ret, s')) :
    ret = sdmmcErrorTimeout ∨ ∃ rx : Byte, ret = rx.toNat := by
  have hloop : ∀ i, Returns (fun ret => ret = sdmmcErrorTimeout ∨ ∃ rx : Byte, ret = rx.toNat)
      (readwriteLoop i) := by
    intro i
    induction i with
    | zero => exact returns_pure (Or.inl rfl)
    | succ i ih =>
      unfold readwriteLoop
      refine returns_bind fun rx => returns_ite (fun _ => ?_) fun _ => ih
      exact returns_pure (Or.inr ⟨byteOf rx, rfl⟩)
  exact returns_bind (fun _ => hloop sdmmcTimeout) s ret s' h

/-- The low bits of a byte are those of the `int` that holds it. -/
theorem isAccepted_ofInt (rx : Byte) :
    isAccepted (BitVec.ofInt 8 rx.toNat) = true ↔ BitVec.ofInt 32 rx.toNat &&& 0x1f = 0x05 := by
  revert rx
  decide

theorem isResponse_of_isAccepted {b : Byte} (h : isAccepted b = true) : isResponse b = true := by
  revert b
  decide

theorem txRespLoop_iff {i : ℕ} :
    txRespLoop d i s = (some 0, s') ↔ ∃ b, firstByte d isAccepted i s = (some (some b), s') := by
  induction i generalizing s with
  | zero =>
    constructor
    · intro h
      cases h
    · rintro ⟨b, h⟩
      cases h
  | succ i ih =>
    rw [txRespLoop, firstByte]
    cases hbyte : sdmmcReadwriteByte d 0xff s with
    | mk v s₁ =>
      cases v with
      | none =>
        rw [bind_of_none hbyte, bind_of_none hbyte]
        refine iff_of_false (fun h => ?_) ?_
        · cases h
        · rintro ⟨b, h⟩
          cases h
      | some ret =>
        rw [bind_of_some hbyte, bind_of_some hbyte]
        rcases sdmmcReadwriteByte_value hbyte with rfl | ⟨rx, rfl⟩
        · have hneg : sdmmcErrorTimeout < 0 := by decide
          rw [if_pos hneg, if_pos hneg]
          refine iff_of_false (fun h => ?_) ?_
          · cases h
          · rintro ⟨b, h⟩
            cases h
        · have hnonneg : ¬ (rx.toNat : ℤ) < 0 := Int.not_lt.2 (Int.natCast_nonneg _)
          rw [if_neg hnonneg, if_neg hnonneg]
          by_cases haccepted : isAccepted (BitVec.ofInt 8 rx.toNat) = true
          · rw [if_pos ((isAccepted_ofInt rx).1 haccepted), if_pos haccepted]
            constructor
            · intro h
              cases h
              exact ⟨_, rfl⟩
            · rintro ⟨b, h⟩
              cases h
              rfl
          · rw [if_neg (mt (isAccepted_ofInt rx).2 haccepted), if_neg haccepted]
            exact ih

/-- Where the response is that the block was accepted, it is the first byte that looks so. -/
theorem Accepts.scans (h : Accepts d s s') : Scans d s s' := by
  have hfirst : ∀ i {s b}, firstByte d isResponse i s = (some (some b), s') →
      isAccepted b = true → firstByte d isAccepted i s = (some (some b), s') := by
    intro i
    induction i with
    | zero =>
      intro s b h
      cases h
    | succ i ih =>
      intro s b h hb
      rw [firstByte] at h ⊢
      obtain ⟨ret, s₁, hbyte, h⟩ := exists_of_bind h
      rw [bind_of_some hbyte]
      rcases exists_of_ite h with ⟨-, h⟩ | ⟨hret, h⟩
      · cases h
      rw [if_neg hret]
      rcases exists_of_ite h with ⟨-, h⟩ | ⟨hno, h⟩
      · cases h
        rw [if_pos hb]
        rfl
      · rw [if_neg fun haccepted => hno (isResponse_of_isAccepted haccepted)]
        exact ih h hb
  obtain ⟨b, hb, haccepted⟩ := h
  exact ⟨b, hfirst _ hb haccepted⟩

theorem sdmmcTxBuf_eq {token : Byte} {b : ℕ} :
    sdmmcTxBuf d b sdmmcBlockSize token = sendBlock d b token >>= fun ret =>
      if ret = 0 then txRespLoop d (sdmmcTimeout <<< 6) else pure ret := by
  rw [sdmmcTxBuf, sendBlock]
  simp only [bind_assoc, ite_bind, pure_bind]
  refine congrArg _ (funext fun ret => ?_)
  by_cases hneg : ret < 0
  · rw [if_pos hneg, if_pos hneg, if_neg (Int.ne_of_lt hneg)]
  · rw [if_neg hneg, if_neg hneg]
    rfl

theorem sdmmcTxBuf_iff {token : Byte} {b : ℕ} :
    sdmmcTxBuf d b sdmmcBlockSize token s = (some 0, s') ↔
      ∃ s₁, sendBlock d b token s = (some 0, s₁) ∧ Scans d s₁ s' := by
  rw [sdmmcTxBuf_eq]
  constructor
  · intro h
    obtain ⟨ret, s₁, hsend, h⟩ := exists_of_bind h
    rcases exists_of_ite h with ⟨rfl, h⟩ | ⟨hne, h⟩
    · exact ⟨s₁, hsend, txRespLoop_iff.1 h⟩
    · cases h
      exact absurd rfl hne
  · rintro ⟨s₁, hsend, hscans⟩
    rw [bind_of_some hsend, if_pos rfl]
    exact txRespLoop_iff.2 hscans

theorem BlocksHeard.mono {heard heard' : Driver → Driver → Prop}
    (hle : ∀ s s', heard s s' → heard' s s') {token : Byte} {c b : ℕ}
    (h : BlocksHeard heard d token c b s) : BlocksHeard heard' d token c b s := by
  induction c generalizing b s with
  | zero => trivial
  | succ c ih =>
    obtain ⟨s₁, s₂, s₃, ret, hsend, hheard, hready, hrest⟩ := h
    exact ⟨s₁, s₂, s₃, ret, hsend, hle s₁ s₂ hheard, hready, ih hrest⟩

theorem AllHeard.scans (h : AllHeard (Accepts d) d addr count buf s) :
    AllHeard (Scans d) d addr count buf s := by
  obtain ⟨s₁, s₂, ret, hcmd, hdummy, hblocks⟩ := h
  exact ⟨s₁, s₂, ret, hcmd, hdummy, hblocks.mono fun _ _ h => h.scans⟩

/-! ## Section 2: Attempts to write -/

/-- **Run lemma.**  All blocks are written without an error exactly if each response is heard. -/
theorem writeBlocks_iff {c b : ℕ} {r : ℤ} (h : writeBlocks d c b 0 s = (some r, s')) :
    r = 0 ↔ BlocksHeard (Scans d) d 0xfc c b s := by
  induction c generalizing b s with
  | zero =>
    cases h
    exact iff_of_true rfl trivial
  | succ c ih =>
    rw [writeBlocks] at h
    obtain ⟨ret, s₂, htx, h⟩ := exists_of_bind h
    rcases exists_of_ite h with ⟨hne, h⟩ | ⟨hzero, h⟩
    · cases h
      refine iff_of_false hne ?_
      rintro ⟨s₁, t₂, s₃, ret', hsend, hscans, -⟩
      have hok := sdmmcTxBuf_iff.2 ⟨s₁, hsend, hscans⟩
      rw [htx] at hok
      cases hok
      exact hne rfl
    · obtain rfl : ret = 0 := Classical.not_not.1 hzero
      obtain ⟨ret, s₃, hready, h⟩ := exists_of_bind h
      obtain ⟨s₁, hsend, hscans⟩ := sdmmcTxBuf_iff.1 htx
      rw [ih h]
      constructor
      · exact fun hrest => ⟨s₁, s₂, s₃, ret, hsend, hscans, hready, hrest⟩
      · rintro ⟨t₁, t₂, t₃, ret', hsend', hscans', hready', hrest⟩
        have hok := sdmmcTxBuf_iff.2 ⟨t₁, hsend', hscans'⟩
        rw [htx] at hok
        cases hok
        rw [hready] at hready'
        cases hready'
        exact hrest

/-- An attempt that returns has succeeded exactly if all blocks look accepted. -/
theorem writeAttempt_iff (hblocks : blocksOf count = count.toNat) {b : Bool} {r : ℤ}
    (h : writeAttempt d addr count buf s = (some (b, r), s')) :
    b = true ↔ AllHeard (Scans d) d addr count buf s := by
  have hselect : sdmmcSelect d deviceSs s = (some ⟨⟩, (sdmmcSelect d deviceSs s).2) := rfl
  rw [writeAttempt, bind_of_some hselect] at h
  rw [AllHeard, writeCmd, blockToken, ← hblocks, blocksOf]
  -- one block is written by command 24 and checked by its data response
  by_cases hone : count.toInt < 2
  · rw [if_pos hone] at h
    simp only [if_pos hone]
    obtain ⟨ret, s₁, hcmd, h⟩ := exists_of_bind h
    rcases exists_of_ite h with ⟨hne, h⟩ | ⟨hzero, h⟩
    · -- the command is refused, so no block was sent
      obtain ⟨rfl, rfl⟩ := writeAgain_ok h
      refine iff_of_false Bool.false_ne_true ?_
      rintro ⟨t₁, t₂, ret', hcmd', -⟩
      rw [hcmd] at hcmd'
      cases hcmd'
      exact hne rfl
    obtain rfl : ret = 0 := Classical.not_not.1 hzero
    obtain ⟨ret, s₂, hdummy, h⟩ := exists_of_bind h
    obtain ⟨ret', s₃, htx, h⟩ := exists_of_bind h
    rcases exists_of_ite h with ⟨hne, h⟩ | ⟨hzero, h⟩
    · -- the block is refused
      obtain ⟨rfl, rfl⟩ := writeAgain_ok h
      refine iff_of_false Bool.false_ne_true ?_
      rintro ⟨t₁, t₂, ret₂, hcmd', hdummy', t₃, t₄, t₅, ret₃, hsend, hscans, -⟩
      rw [hcmd] at hcmd'
      cases hcmd'
      rw [hdummy] at hdummy'
      cases hdummy'
      have hok := sdmmcTxBuf_iff.2 ⟨t₃, hsend, hscans⟩
      rw [htx] at hok
      cases hok
      exact hne rfl
    · obtain rfl : ret' = 0 := Classical.not_not.1 hzero
      obtain ⟨ret', s₄, hready, h⟩ := exists_of_bind h
      obtain ⟨rfl, -, -⟩ := writeDone_ok h
      obtain ⟨t, hsend, hscans⟩ := sdmmcTxBuf_iff.1 htx
      exact iff_of_true rfl ⟨s₁, s₂, ret, hcmd, hdummy, t, s₃, s₄, ret', hsend, hscans, hready,
        trivial⟩
  · -- several blocks follow command 25 and end with a stop token
    rw [if_neg hone] at h
    simp only [if_neg hone]
    obtain ⟨ret, s₁, hcmd, h⟩ := exists_of_bind h
    rcases exists_of_ite h with ⟨hne, h⟩ | ⟨hzero, h⟩
    · obtain ⟨rfl, rfl⟩ := writeAgain_ok h
      refine iff_of_false Bool.false_ne_true ?_
      rintro ⟨t₁, t₂, ret', hcmd', -⟩
      rw [hcmd] at hcmd'
      cases hcmd'
      exact hne rfl
    obtain rfl : ret = 0 := Classical.not_not.1 hzero
    obtain ⟨ret, s₂, hdummy, h⟩ := exists_of_bind h
    obtain ⟨ret', s₃, htx, h⟩ := exists_of_bind h
    -- the attempt goes on exactly if every block looked accepted
    have hscans := writeBlocks_iff htx
    have hall : (∃ t₁ t₂ x, sdmmcSendCmd d 25 addr 0x01 (sdmmcSelect d deviceSs s).2 =
        (some 0, t₁) ∧ sdmmcReadwriteByte d 0xff t₁ = (some x, t₂) ∧
        BlocksHeard (Scans d) d 0xfc count.toNat buf t₂) ↔
        BlocksHeard (Scans d) d 0xfc count.toNat buf s₂ := by
      constructor
      · rintro ⟨t₁, t₂, x, hcmd', hdummy', hblocks⟩
        rw [hcmd] at hcmd'
        cases hcmd'
        rw [hdummy] at hdummy'
        cases hdummy'
        exact hblocks
      · exact fun hblocks => ⟨s₁, s₂, ret, hcmd, hdummy, hblocks⟩
    rw [hall, ← hscans]
    rcases exists_of_ite h with ⟨hne, h⟩ | ⟨hzero, h⟩
    · obtain ⟨rfl, rfl⟩ := writeAgain_ok h
      exact iff_of_false Bool.false_ne_true hne
    · obtain ⟨_, s₄, -, h⟩ := exists_of_bind h
      obtain ⟨_, s₅, -, h⟩ := exists_of_bind h
      obtain ⟨rfl, -, -⟩ := writeDone_ok h
      exact iff_of_true rfl (Classical.not_not.1 hzero)

/-- The states in which the attempts of `sdmmc_write_block` begin. -/
def writeTries (d : ℕ) (addr count : BitVec 32) (buf retry : ℕ) (s : Driver) : List Driver :=
  attempts (writeAttempt d addr count buf) (fun result => !result.1) retry s

/-- **Run lemma.**  The loop ends with 0 exactly if all blocks of an attempt look accepted. -/
theorem writeRetry_iff (hblocks : blocksOf count = count.toNat) {retry : ℕ} {ret r : ℤ}
    (hretry : 0 < retry) (h : writeRetry d addr count buf retry ret s = (some r, s')) :
    r = 0 ↔ ∃ m ∈ writeTries d addr count buf retry s, AllHeard (Scans d) d addr count buf m := by
  induction retry generalizing s ret with
  | zero => exact absurd hretry (Nat.lt_irrefl 0)
  | succ retry ih =>
    rw [writeRetry] at h
    obtain ⟨⟨b, r₁⟩, s₁, hattempt, h⟩ := exists_of_bind h
    have hscans := writeAttempt_iff hblocks hattempt
    rcases writeAttempt_ok hattempt with ⟨rfl, rfl, -⟩ | ⟨rfl, hne⟩
    · cases h
      have htries : writeTries d addr count buf (retry + 1) s = [s] :=
        attempts_of_last hattempt rfl
      rw [htries]
      exact iff_of_true rfl ⟨s, List.mem_singleton_self s, hscans.1 rfl⟩
    · have htries : writeTries d addr count buf (retry + 1) s =
          s :: writeTries d addr count buf retry s₁ := attempts_of_again hattempt rfl
      have hnot : ¬ AllHeard (Scans d) d addr count buf s := fun hall =>
        Bool.false_ne_true (hscans.2 hall)
      rw [htries]
      simp only [List.mem_cons, exists_eq_or_imp, hnot, false_or]
      rcases Nat.eq_zero_or_pos retry with rfl | hpos
      · -- no attempt is left, and the error is returned
        cases h
        refine iff_of_false hne ?_
        rintro ⟨m, hm, -⟩
        cases hm
      · exact ih hpos h

/-- Of the attempts that return only the last one has all blocks look accepted. -/
theorem writeTries_unique (hblocks : blocksOf count = count.toNat) {retry : ℕ} {ret r : ℤ}
    (h : writeRetry d addr count buf retry ret s = (some r, s')) {m m' : Driver}
    (hm : m ∈ writeTries d addr count buf retry s)
    (hall : AllHeard (Scans d) d addr count buf m)
    (hm' : m' ∈ writeTries d addr count buf retry s)
    (hall' : AllHeard (Scans d) d addr count buf m') : m = m' := by
  have hreturns : ∀ retry ret s, writeRetry d addr count buf retry ret s = (some r, s') →
      ∀ t ∈ writeTries d addr count buf retry s,
        ∃ result t', writeAttempt d addr count buf t = (some result, t') := by
    intro retry
    induction retry with
    | zero =>
      intro ret s _ t ht
      cases ht
    | succ retry ih =>
      intro ret s h t ht
      rw [writeRetry] at h
      obtain ⟨⟨b, r₁⟩, s₁, hattempt, h⟩ := exists_of_bind h
      cases b with
      | true =>
        have htries : writeTries d addr count buf (retry + 1) s = [s] :=
          attempts_of_last hattempt rfl
        rw [htries] at ht
        obtain rfl := List.mem_singleton.1 ht
        exact ⟨_, _, hattempt⟩
      | false =>
        have htries : writeTries d addr count buf (retry + 1) s =
            s :: writeTries d addr count buf retry s₁ := attempts_of_again hattempt rfl
        rw [htries] at ht
        rcases List.mem_cons.1 ht with rfl | hmem
        · exact ⟨_, _, hattempt⟩
        · exact ih r₁ s₁ h t hmem
  obtain ⟨⟨b, r₁⟩, t, hrun⟩ := hreturns retry ret s h m hm
  obtain ⟨⟨b', r₂⟩, t', hrun'⟩ := hreturns retry ret s h m' hm'
  obtain rfl := (writeAttempt_iff hblocks hrun).2 hall
  obtain rfl := (writeAttempt_iff hblocks hrun').2 hall'
  exact attempts_last_unique hm hm' hrun rfl hrun' rfl

/-! ## Section 3: Attempts to read -/

/-- The states in which the attempts of `sdmmc_read_block` begin. -/
def readTries (d : ℕ) (addr count : BitVec 32) (buf retry : ℕ) (s : Driver) : List Driver :=
  attempts (readAttempt d addr count buf) Option.isNone retry s

/-- **Run lemma.**  If the loop ends with 0, one attempt has got all blocks, and nothing was
changed behind it. -/
theorem readRetry_got {retry : ℕ} (h : readRetry d addr count buf retry s = (some 0, s')) :
    ∃ m ∈ readTries d addr count buf retry s, ∃ rs, Got buf (blocksOf count) rs m s' := by
  induction retry generalizing s with
  | zero => cases h
  | succ retry ih =>
    rw [readRetry] at h
    obtain ⟨result, s₁, hattempt, h⟩ := exists_of_bind h
    cases result with
    | some ret =>
      cases h
      have htries : readTries d addr count buf (retry + 1) s = [s] :=
        attempts_of_last hattempt rfl
      rw [htries]
      exact ⟨s, List.mem_singleton_self s, readAttempt_ok hattempt⟩
    | none =>
      have htries : readTries d addr count buf (retry + 1) s =
          s :: readTries d addr count buf retry s₁ := attempts_of_again hattempt rfl
      obtain ⟨m, hm, hgot⟩ := ih h
      rw [htries]
      exact ⟨m, List.mem_cons_of_mem s hm, hgot⟩

/-! ## Section 4: Both functions -/

/-- The FIFO can be cleared, and `n` bytes are delivered after that. -/
def Supplied (n : ℕ) (s : Driver) : Prop :=
  ∃ rest, clearReads s.reads = some rest ∧ n ≤ rest.countP rxValid

/-- `sdmmc_read_block` returns after at most three attempts, and returns 0 only if all blocks came
in one of them and are at `buf`. -/
def ReadTells (cards d : ℕ) (blockNum count : BitVec 32) (buf : ℕ) (s : Driver) : Prop :=
  ∃ r s', sdmmcReadBlock cards d blockNum count buf s = (some r, s') ∧
    transfers (spoken s s') ≤ sdmmcRetries ∧
    (r = 0 → ∃ m ∈ readTries d (commandAddr (s.cardType cards d) blockNum) count buf sdmmcRetries
      (spiClearRxFifo s).2, ∃ rs, Got buf count.toNat rs m s')

/-- The states in which the attempts of a call of `sdmmc_write_block` begin. -/
def writeStarts (cards d : ℕ) (blockNum count : BitVec 32) (buf : ℕ) (s : Driver) : List Driver :=
  writeTries d (commandAddr (s.cardType cards d) blockNum) count buf sdmmcRetries
    (spiClearRxFifo s).2

/-- In the attempt that begins in `m` the card answers each block as `heard` says. -/
def Answered (heard : ℕ → Driver → Driver → Prop) (cards d : ℕ) (blockNum count : BitVec 32)
    (buf : ℕ) (s m : Driver) : Prop :=
  AllHeard (heard d) d (commandAddr (s.cardType cards d) blockNum) count buf m

/-- `sdmmc_write_block` returns after at most three attempts, and returns 0 exactly if in one of
them the card accepted all blocks. -/
def WriteTells (cards : ℕ) (outerRetry : ℤ) (d : ℕ) (blockNum count : BitVec 32) (buf : ℕ)
    (s : Driver) : Prop :=
  ∃ r s', sdmmcWriteBlock cards outerRetry d blockNum count buf s = (some r, s') ∧
    transfers (spoken s s') ≤ sdmmcRetries ∧
    (r = 0 ↔ ∃ m ∈ writeStarts cards d blockNum count buf s,
      Answered Accepts cards d blockNum count buf s m)

variable {cards n : ℕ} {blockNum : BitVec 32}

/-- The FIFO is cleared before the attempts. -/
theorem spiClearRxFifo_of_supplied (h : Supplied n s) :
    ∃ s₁, spiClearRxFifo s = (some ⟨⟩, s₁) ∧ n ≤ s₁.valid ∧ (spiClearRxFifo s).2 = s₁ := by
  obtain ⟨rest, hclear, hle⟩ := h
  have hrun : spiClearRxFifo s = (some ⟨⟩, { s with reads := rest }) := by
    rw [spiClearRxFifo, hclear]
  exact ⟨_, hrun, hle, congrArg Prod.snd hrun⟩

theorem clear_begins {v : Option PUnit} (h : spiClearRxFifo s = (v, s')) : Begins d 0 s v s' :=
  begins_of_leads (leads_of_chat inferInstance) h

theorem readTells_of_supplied (hadmitted : Admitted cards d blockNum count buf s)
    (hcount : count.toNat < 0x80000000) (h : Supplied (sdmmcRetries * readUse count) s) :
    ReadTells cards d blockNum count buf s := by
  obtain ⟨s₁, hclear, hvalid, hstate⟩ := spiClearRxFifo_of_supplied h
  have huses := uses_readRetry (d := d) (commandAddr (s.cardType cards d) blockNum) count buf
    sdmmcRetries
  obtain ⟨r, s', hrun, -⟩ := huses.returns s₁ hvalid
  refine ⟨r, s', ?_, ?_, ?_⟩
  · rw [sdmmcReadBlock_admitted hadmitted, bind_of_some hclear, hrun]
  · have hbegins : Begins d (0 + sdmmcRetries) s (some r) s' :=
      (clear_begins hclear).trans (readRetry_begins hrun)
    rw [Nat.zero_add] at hbegins
    exact hbegins.transfers_le
  · rintro rfl
    rw [hstate]
    obtain ⟨m, hm, rs, hgot⟩ := readRetry_got hrun
    exact ⟨m, hm, rs, blocksOf_eq hadmitted.2.1 hcount ▸ hgot⟩

theorem writeTells_iff {outerRetry : ℤ} (hwp : ¬ blockNum < s.writeProtected)
    (hadmitted : Admitted cards d blockNum count buf s) (hcount : count.toNat < 0x80000000)
    (h : Supplied (sdmmcRetries * writeUse count) s) :
    WriteTells cards outerRetry d blockNum count buf s ↔
      ((∃ m ∈ writeStarts cards d blockNum count buf s,
          Answered Accepts cards d blockNum count buf s m) → outerRetry ≠ sdmmcRetries) ∧
        (outerRetry ≠ sdmmcRetries → ∀ m ∈ writeStarts cards d blockNum count buf s,
          Answered Scans cards d blockNum count buf s m →
            Answered Accepts cards d blockNum count buf s m) := by
  -- the call runs its attempts, and at most one of them can look accepted
  obtain ⟨s₁, hclear, hvalid, hstate⟩ := spiClearRxFifo_of_supplied h
  have hblocks := blocksOf_eq hadmitted.2.1 hcount
  have huses := uses_writeRetry (d := d) (commandAddr (s.cardType cards d) blockNum) count buf
    sdmmcRetries sdmmcErrorOk
  obtain ⟨ret, s', hrun, -⟩ := huses.returns s₁ hvalid
  have hzero := writeRetry_iff hblocks (by decide) hrun
  have hunique : ∀ m m', _ → _ → _ → _ → m = m' := fun m m' hm hall hm' hall' =>
    writeTries_unique (m := m) hblocks hrun hm hall hm' hall'
  rw [← hstate] at hzero hunique
  have hreturns : sdmmcWriteBlock cards outerRetry d blockNum count buf s =
      (some (if outerRetry = sdmmcRetries then sdmmcErrorWrite else ret), s') := by
    rw [sdmmcWriteBlock_admitted outerRetry hwp hadmitted, bind_of_some hclear,
      bind_of_some hrun]
    split <;> rfl
  have hbegins : Begins d (0 + sdmmcRetries) s (some ret) s' :=
    (clear_begins hclear).trans (writeRetry_begins hrun)
  rw [Nat.zero_add] at hbegins
  -- what the call returns: 0 if the untouched `retry` is not 3, and the blocks look accepted
  have hsuccess : (if outerRetry = sdmmcRetries then sdmmcErrorWrite else ret) = 0 ↔
      outerRetry ≠ sdmmcRetries ∧ ∃ m ∈ writeStarts cards d blockNum count buf s,
        Answered Scans cards d blockNum count buf s m := by
    by_cases hretry : outerRetry = sdmmcRetries
    · rw [if_pos hretry]
      exact iff_of_false (by decide) fun h => h.1 hretry
    · rw [if_neg hretry, hzero]
      exact ⟨fun h => ⟨hretry, h⟩, fun h => h.2⟩
  have htells : WriteTells cards outerRetry d blockNum count buf s ↔
      ((if outerRetry = sdmmcRetries then sdmmcErrorWrite else ret) = 0 ↔
        ∃ m ∈ writeStarts cards d blockNum count buf s,
          Answered Accepts cards d blockNum count buf s m) := by
    constructor
    · rintro ⟨r, t, hr, -, htruth⟩
      rw [hreturns] at hr
      cases hr
      exact htruth
    · exact fun htruth => ⟨_, s', hreturns, hbegins.transfers_le, htruth⟩
  rw [htells, hsuccess]
  -- a success is told exactly if an attempt was answered
  constructor
  · intro htruth
    refine ⟨fun haccepts => (htruth.2 haccepts).1, fun hretry m hm hscans => ?_⟩
    obtain ⟨m', hm', haccepts⟩ := htruth.1 ⟨hretry, m, hm, hscans⟩
    rw [hunique m m' hm hscans hm' haccepts.scans]
    exact haccepts
  · rintro ⟨hretry, hfirst⟩
    constructor
    · rintro ⟨hne, m, hm, hscans⟩
      exact ⟨m, hm, hfirst hne m hm hscans⟩
    · rintro ⟨m, hm, haccepts⟩
      exact ⟨hretry ⟨m, hm, haccepts⟩, m, hm, haccepts.scans⟩

/-- **Return codes.**  Whatever the card answers, both functions return after at most three
attempts if the controller delivers enough bytes.  That of `sdmmc_read_block` is true, and that of
`sdmmc_write_block` is true exactly if its untouched `retry` is not 3 where the card has accepted
all blocks, and if it is not 3, no response other than that comes before a byte that looks like
it. -/
theorem returnCodes (count : BitVec 32) (hcount : count.toNat < 0x80000000) :
    ∃ n, ∀ cards outerRetry d blockNum buf s, Supplied n s →
      Admitted cards d blockNum count buf s →
      ReadTells cards d blockNum count buf s ∧
        (¬ blockNum < s.writeProtected →
          (WriteTells cards outerRetry d blockNum count buf s ↔
            ((∃ m ∈ writeStarts cards d blockNum count buf s,
                Answered Accepts cards d blockNum count buf s m) → outerRetry ≠ sdmmcRetries) ∧
              (outerRetry ≠ sdmmcRetries → ∀ m ∈ writeStarts cards d blockNum count buf s,
                Answered Scans cards d blockNum count buf s m →
                  Answered Accepts cards d blockNum count buf s m))) := by
  refine ⟨max (sdmmcRetries * readUse count) (sdmmcRetries * writeUse count), ?_⟩
  rintro cards outerRetry d blockNum buf s ⟨rest, hclear, hle⟩ hadmitted
  have hread : Supplied (sdmmcRetries * readUse count) s :=
    ⟨rest, hclear, Nat.le_trans (Nat.le_max_left _ _) hle⟩
  have hwrite : Supplied (sdmmcRetries * writeUse count) s :=
    ⟨rest, hclear, Nat.le_trans (Nat.le_max_right _ _) hle⟩
  exact ⟨readTells_of_supplied hadmitted hcount hread,
    fun hwp => writeTells_iff hwp hadmitted hcount hwrite⟩

/-! ## Section 5: A card that answers -/

/-- What comes in before the response to the first block: the first byte is for the FIFO that is
cleared, and the command is accepted. -/
def beforeResponse : List (BitVec 32) :=
  List.replicate 6 0x800000ff ++ 0x80000000 :: List.replicate 516 0x800000ff

/-- The first card, which accepts the command for a block, and then answers with `reads`. -/
def answering (reads : List (BitVec 32)) : Driver :=
  { largeCard with reads := 0 :: (beforeResponse ++ reads), writeProtected := 0 }

/-- As many bytes as are waited for. -/
def manyBytes : List (BitVec 32) :=
  0x800000ff :: List.replicate (sdmmcRetries * writeUse 1) 0x800000ff

theorem supplied_answering (responses : List (BitVec 32)) :
    Supplied (sdmmcRetries * writeUse 1) (answering (responses ++ manyBytes)) := by
  have hvalid : rxValid 0x800000ff = true := rfl
  refine ⟨_, rfl, ?_⟩
  rw [List.countP_append, List.countP_append, manyBytes, List.countP_cons_of_pos hvalid,
    List.countP_replicate, if_pos hvalid]
  omega

theorem sdmmcGetR1Response_of_ready {reads : List (BitVec 32)} (h : s.reads = 0x80000000 :: reads) :
    ∃ s₁, sdmmcGetR1Response d s = (some 0, s₁) ∧ s₁.reads = reads := by
  have hsend : sendReceive d 0xff s = (some ⟨⟩, (sendReceive d 0xff s).2) := rfl
  have hpoll : pollData (sendReceive d 0xff s).2 =
      (some 0x80000000, { (sendReceive d 0xff s).2 with reads := reads }) := by
    rw [pollData]
    have hreads : (sendReceive d 0xff s).2.reads = 0x80000000 :: reads := h
    rw [hreads]
    rfl
  have htimeout : sdmmcTimeout = 524286 + 1 := rfl
  refine ⟨{ (sendReceive d 0xff s).2 with reads := reads }, ?_, rfl⟩
  rw [sdmmcGetR1Response, htimeout, getR1Loop, bind_of_some hsend, bind_of_some hpoll]
  rfl

theorem sdmmcWaitReady_of_ready {reads : List (BitVec 32)} (h : s.reads = 0x800000ff :: reads) :
    ∃ s₁, sdmmcWaitReady d s = (some 0, s₁) ∧ s₁.reads = reads := by
  have hsend : sendReceive d 0xff s = (some ⟨⟩, (sendReceive d 0xff s).2) := rfl
  have hread : readReg (sendReceive d 0xff s).2 =
      (some 0x800000ff, { (sendReceive d 0xff s).2 with reads := reads }) := by
    rw [readReg]
    have hreads : (sendReceive d 0xff s).2.reads = 0x800000ff :: reads := h
    rw [hreads]
  have htimeout : sdmmcTimeout = 524286 + 1 := rfl
  refine ⟨{ (sendReceive d 0xff s).2 with reads := reads }, ?_, rfl⟩
  rw [sdmmcWaitReady, bind_of_some hsend, htimeout, waitReadyLoop, bind_of_some hread]
  rfl

/-- The word says that there is space in the FIFO. -/
theorem spiWaitTxAvail_of_space (minAvail : ℕ) (hmin : minAvail ≤ 32768)
    {reads : List (BitVec 32)} (h : s.reads = 0x800000ff :: reads) :
    spiWaitTxAvail minAvail 1000 s = (some 32768, { s with reads := reads }) := by
  have hread : readReg s = (some 0x800000ff, { s with reads := reads }) := by
    rw [readReg, h]
  have hspace : ((0x800000ff : BitVec 32) >>> 16).toNat = 32768 := rfl
  rw [spiWaitTxAvail, bind_of_some hread, hspace, if_pos hmin]
  rfl

/-- **Run lemma.**  The bytes of a block go out if there is room whenever it is asked for. -/
theorem txLoop_of_space {c b : ℕ} {reads : List (BitVec 32)}
    (h : s.reads = List.replicate c 0x800000ff ++ reads) :
    ∃ s₁, txLoop d c b s = (some true, s₁) ∧ s₁.reads = reads := by
  induction c generalizing b s with
  | zero => exact ⟨s, rfl, h⟩
  | succ c ih =>
    have havail := spiWaitTxAvail_of_space 1 (by decide) h
    rw [txLoop, bind_of_some havail, if_neg (by decide)]
    exact ih rfl

theorem sendBlock_of_ready (token : Byte) (b : ℕ) {reads : List (BitVec 32)}
    (h : s.reads = List.replicate 515 0x800000ff ++ reads) :
    ∃ s₁, sendBlock d b token s = (some 0, s₁) ∧ s₁.reads = reads := by
  have hsplit : List.replicate 515 (0x800000ff : BitVec 32) ++ reads =
      0x800000ff :: 0x800000ff :: (List.replicate sdmmcBlockSize 0x800000ff ++
        0x800000ff :: reads) := by
    have hlast : List.replicate (sdmmcBlockSize + 1) (0x800000ff : BitVec 32) =
        List.replicate sdmmcBlockSize 0x800000ff ++ [0x800000ff] := List.replicate_succ'
    have hfirst : List.replicate 515 (0x800000ff : BitVec 32) =
        0x800000ff :: 0x800000ff :: List.replicate (sdmmcBlockSize + 1) 0x800000ff := rfl
    rw [hfirst, hlast, List.cons_append, List.cons_append, List.append_assoc]
    rfl
  rw [hsplit] at h
  obtain ⟨s₁, hready, h₁⟩ := sdmmcWaitReady_of_ready (d := d) h
  obtain ⟨s₂, htoken, h₂⟩ := sdmmcReadwriteByte_of_valid (d := d) (b := token) rfl h₁
  obtain ⟨s₃, hloop, h₃⟩ := txLoop_of_space (d := d) (b := b) h₂
  have havail := spiWaitTxAvail_of_space 2 (by decide) h₃
  refine ⟨(writeData d spiCmdSend (writeData d spiCmdSend { s₃ with reads := reads }).2).2,
    ?_, rfl⟩
  rw [sendBlock, bind_of_some hready, if_neg (by decide), bind_of_some htoken,
    bind_of_some hloop, if_neg (by decide), bind_of_some havail, if_neg (by decide)]
  rfl

/-- One of the bytes that come in, as the response is waited for. -/
theorem firstByte_cons (want : Byte → Bool) (i : ℕ) {rx : BitVec 32} {reads : List (BitVec 32)}
    (hvalid : rxValid rx = true) (h : s.reads = rx :: reads) :
    ∃ s₁, s₁.reads = reads ∧ firstByte d want (i + 1) s =
      if want (byteOf rx) = true then (some (some (byteOf rx)), s₁)
      else firstByte d want i s₁ := by
  obtain ⟨s₁, hbyte, h₁⟩ := sdmmcReadwriteByte_of_valid (d := d) (b := 0xff) hvalid h
  have hnonneg : ¬ ((byteOf rx).toNat : ℤ) < 0 := Int.not_lt.2 (Int.natCast_nonneg _)
  have hsame : BitVec.ofInt 8 ((byteOf rx).toNat : ℤ) = byteOf rx := by
    rw [BitVec.ofInt_natCast, BitVec.ofNat_toNat, BitVec.setWidth_eq]
  refine ⟨s₁, h₁, ?_⟩
  rw [firstByte, bind_of_some hbyte, if_neg hnonneg, hsame]
  split <;> rfl

/-- The first attempt. -/
theorem mem_writeStarts : (spiClearRxFifo s).2 ∈ writeStarts cards d blockNum count buf s := by
  have hretries : sdmmcRetries = 2 + 1 := rfl
  rw [writeStarts, writeTries, hretries, attempts]
  exact List.mem_cons_self

/-- The block that the first attempt sends, and what is left to come then. -/
theorem answering_sends (addr : BitVec 32) (reads : List (BitVec 32)) :
    ∃ s₁ s₂ s₃ ret, sdmmcSendCmd 0 24 addr 0x01
        (sdmmcSelect 0 deviceSs (spiClearRxFifo (answering reads)).2).2 = (some 0, s₁) ∧
      sdmmcReadwriteByte 0 0xff s₁ = (some ret, s₂) ∧
      sendBlock 0 0x1000 0xfe s₂ = (some 0, s₃) ∧ s₃.reads = reads := by
  have hclear : (sdmmcSelect 0 deviceSs (spiClearRxFifo (answering reads)).2).2.reads =
      beforeResponse ++ reads := rfl
  rw [beforeResponse, List.append_assoc, List.cons_append] at hclear
  obtain ⟨t, hframe, -, ht⟩ := sdmmcSendCmd_frame (d := 0) 24 addr 0x01 hclear
  obtain ⟨s₁, hresponse, h₁⟩ := sdmmcGetR1Response_of_ready (d := 0) ht
  rw [List.replicate_succ, List.cons_append] at h₁
  obtain ⟨s₂, hdummy, h₂⟩ := sdmmcReadwriteByte_of_valid (d := 0) (b := 0xff) rfl h₁
  obtain ⟨s₃, hsend, h₃⟩ := sendBlock_of_ready (d := 0) 0xfe 0x1000 h₂
  exact ⟨s₁, s₂, s₃, _, hframe.trans hresponse, hdummy, hsend, h₃⟩

/-- One block is written: what is heard behind it decides. -/
theorem answered_answering {heard : ℕ → Driver → Driver → Prop} {reads : List (BitVec 32)}
    {s₁ s₂ s₃ : Driver} {ret : ℤ}
    (hcmd : sdmmcSendCmd 0 24 (commandAddr ((answering reads).cardType 0 0) 0) 0x01
      (sdmmcSelect 0 deviceSs (spiClearRxFifo (answering reads)).2).2 = (some 0, s₁))
    (hdummy : sdmmcReadwriteByte 0 0xff s₁ = (some ret, s₂))
    (hsend : sendBlock 0 0x1000 0xfe s₂ = (some 0, s₃)) :
    Answered heard 0 0 0 1 0x1000 (answering reads) (spiClearRxFifo (answering reads)).2 ↔
      ∃ s₄ r s₅, heard 0 s₃ s₄ ∧ sdmmcWaitReady 0 s₄ = (some r, s₅) := by
  constructor
  · rintro ⟨t₁, t₂, x, hcmd', hdummy', t₃, s₄, s₅, r, hsend', hheard, hready, -⟩
    rw [writeCmd, if_pos (by decide), hcmd] at hcmd'
    cases hcmd'
    rw [hdummy] at hdummy'
    cases hdummy'
    rw [blockToken, if_pos (by decide), hsend] at hsend'
    cases hsend'
    exact ⟨s₄, r, s₅, hheard, hready⟩
  · rintro ⟨s₄, r, s₅, hheard, hready⟩
    exact ⟨s₁, s₂, ret, hcmd, hdummy, s₃, s₄, s₅, r, hsend, hheard, hready, trivial⟩

/-- The number of bytes among which the response is looked for. -/
theorem responseBytes : sdmmcTimeout <<< 6 = 33554366 + 1 + 1 := rfl

/-- A block is accepted, and the untouched `retry` happens to be 3; a block is refused for its
check-sum, and the next byte looks like another response. -/
theorem not_writeTells :
    ¬ WriteTells 0 3 0 0 1 0x1000 (answering (0x80000005 :: manyBytes)) ∧
      ¬ WriteTells 0 0 0 0 1 0x1000 (answering (0x8000000b :: 0x80000005 :: manyBytes)) := by
  constructor
  · intro htells
    have hcond := (writeTells_iff (by decide) (by decide) (by decide)
      (supplied_answering [0x80000005])).1 htells
    refine hcond.1 ⟨_, mem_writeStarts, ?_⟩ rfl
    obtain ⟨s₁, s₂, s₃, ret, hcmd, hdummy, hsend, h₃⟩ := answering_sends _ _
    refine (answered_answering hcmd hdummy hsend).2 ?_
    obtain ⟨s₄, h₄, hfirst⟩ := firstByte_cons (d := 0) isResponse (33554366 + 1) rfl h₃
    obtain ⟨s₅, hready, -⟩ := sdmmcWaitReady_of_ready (d := 0) h₄
    exact ⟨s₄, 0, s₅, ⟨_, hfirst, rfl⟩, hready⟩
  · intro htells
    have hcond := (writeTells_iff (by decide) (by decide) (by decide)
      (supplied_answering [0x8000000b, 0x80000005])).1 htells
    obtain ⟨s₁, s₂, s₃, ret, hcmd, hdummy, hsend, h₃⟩ := answering_sends
      (commandAddr ((answering (0x8000000b :: 0x80000005 :: manyBytes)).cardType 0 0) 0) _
    have hscans : Answered Scans 0 0 0 1 0x1000
        (answering (0x8000000b :: 0x80000005 :: manyBytes))
        (spiClearRxFifo (answering (0x8000000b :: 0x80000005 :: manyBytes))).2 := by
      refine (answered_answering hcmd hdummy hsend).2 ?_
      obtain ⟨s₄, h₄, hfirst⟩ := firstByte_cons (d := 0) isAccepted (33554366 + 1) rfl h₃
      obtain ⟨s₅, h₅, hsecond⟩ := firstByte_cons (d := 0) isAccepted 33554366 rfl h₄
      obtain ⟨s₆, hready, -⟩ := sdmmcWaitReady_of_ready (d := 0) h₅
      exact ⟨s₅, 0, s₆, ⟨_, hfirst.trans hsecond⟩, hready⟩
    have haccepts := hcond.2 (by decide) _ mem_writeStarts hscans
    obtain ⟨s₄, r, s₅, ⟨b, hb, haccepted⟩, -⟩ :=
      (answered_answering hcmd hdummy hsend).1 haccepts
    obtain ⟨s₆, -, hfirst⟩ := firstByte_cons (d := 0) isResponse (33554366 + 1) rfl h₃
    rw [responseBytes, hfirst] at hb
    cases hb
    exact absurd haccepted (by decide)

/-- A card that accepts the command, sends a block of the same letter with its check-sum, and then
`n` more bytes. -/
def sendingBlock (n : ℕ) : Driver :=
  { largeCard with
    reads := 0 :: (List.replicate 6 0x800000ff ++ [0x80000000, 0x800000ff, 0x800000fe] ++
      List.replicate 512 0x80000041 ++ [0x800000bf, 0x80000075] ++ List.replicate n 0x800000ff) }

theorem returnCodes_block : ∃ n, ReadTells 0 0 0 1 0x1000 (sendingBlock n) := by
  obtain ⟨n, h⟩ := returnCodes 1 (by decide)
  have hsupplied : Supplied n (sendingBlock n) := by
    refine ⟨_, rfl, ?_⟩
    have hvalid : rxValid 0x800000ff = true := rfl
    rw [List.countP_append, List.countP_replicate, if_pos hvalid]
    omega
  have hadmitted : Admitted 0 0 0 1 0x1000 largeCard := by decide
  exact ⟨n, (h 0 0 0 0 0x1000 _ hsupplied hadmitted).1⟩

end Karnix.Sd
