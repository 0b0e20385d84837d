import Karnix.Library.Runs
import Karnix.Sd.Card

/-!
# Isolation of the cards

What calls of the driver do to memory, and to the blocks and registers received.
-/

namespace Karnix.Sd

open Karnix.Library
open Karnix.Library.Program

/-! ## Section 1: What the driver does to its state -/

/-- A relation between states that registers of the controllers have no part in. -/
class IgnoresIo (R : Driver → Driver → Prop) : Prop extends IsPreorder Driver R where
  io : ∀ s reads sent, R s { s with reads := reads, sent := sent }

/-- A relation between states that the command last sent has no part in either. -/
class IgnoresCmd (R : Driver → Driver → Prop) : Prop extends IgnoresIo R where
  cmd : ∀ s c, R s { s with lastCmd := c }

-- a rule for each operation of a function
set_option synthInstance.maxSize 1000000

section Quiet

variable {R : Driver → Driver → Prop} [IgnoresIo R]

instance keeps_readReg : Keeps R readReg := by
  constructor
  intro s
  unfold readReg
  split
  · exact refl_of R s
  · exact IgnoresIo.io s _ s.sent

instance keeps_writeData (reg : ℕ) (w : BitVec 32) : Keeps R (writeData reg w) :=
  keeps_modify fun s => IgnoresIo.io s s.reads _

instance keeps_pollData : Keeps R pollData := by
  constructor
  intro s
  unfold pollData
  split <;> exact IgnoresIo.io s _ s.sent

instance keeps_spiClearRxFifo : Keeps R spiClearRxFifo := by
  constructor
  intro s
  unfold spiClearRxFifo
  split <;> exact IgnoresIo.io s _ s.sent

instance keeps_loadByte (a : ℕ) : Keeps R (loadByte a) := keeps_read _

instance keeps_load32 (a : ℕ) : Keeps R (load32 a) := keeps_read _

instance keeps_sendReceive (reg : ℕ) (b : Byte) : Keeps R (sendReceive reg b) :=
  keeps_writeData reg _

instance keeps_spiWaitTxAvail (minAvail timeout : ℕ) :
    Keeps R (spiWaitTxAvail minAvail timeout) := by
  induction timeout with
  | zero => exact keeps_pure 0
  | succ timeout ih =>
    unfold spiWaitTxAvail
    infer_instance

instance keeps_waitReadyLoop (reg i : ℕ) : Keeps R (waitReadyLoop reg i) := by
  induction i with
  | zero => exact keeps_pure _
  | succ i ih =>
    unfold waitReadyLoop
    infer_instance

instance keeps_sdmmcWaitReady (reg : ℕ) : Keeps R (sdmmcWaitReady reg) := by
  unfold sdmmcWaitReady
  infer_instance

instance keeps_readwriteLoop (i : ℕ) : Keeps R (readwriteLoop i) := by
  induction i with
  | zero => exact keeps_pure _
  | succ i ih =>
    unfold readwriteLoop
    infer_instance

instance keeps_sdmmcReadwriteByte (reg : ℕ) (b : Byte) : Keeps R (sdmmcReadwriteByte reg b) := by
  unfold sdmmcReadwriteByte
  infer_instance

instance keeps_sdmmcSelect (reg : ℕ) (ss : BitVec 32) : Keeps R (sdmmcSelect reg ss) :=
  keeps_writeData reg _

instance keeps_sdmmcDeselect (reg : ℕ) (ss : BitVec 32) : Keeps R (sdmmcDeselect reg ss) := by
  unfold sdmmcDeselect
  infer_instance

instance keeps_getR1Loop (reg i : ℕ) : Keeps R (getR1Loop reg i) := by
  induction i with
  | zero => exact keeps_pure _
  | succ i ih =>
    unfold getR1Loop
    infer_instance

instance keeps_waitR1Loop (reg : ℕ) (r1 : Byte) (i : ℕ) : Keeps R (waitR1Loop reg r1 i) := by
  induction i with
  | zero => exact keeps_pure _
  | succ i ih =>
    unfold waitR1Loop
    infer_instance

instance keeps_sdmmcWaitR1Response (reg : ℕ) (r1 : Byte) (retry : ℕ) :
    Keeps R (sdmmcWaitR1Response reg r1 retry) := by
  induction retry with
  | zero => exact keeps_pure _
  | succ retry ih =>
    unfold sdmmcWaitR1Response
    infer_instance

instance keeps_txLoop (reg count b : ℕ) : Keeps R (txLoop reg count b) := by
  induction count generalizing b with
  | zero => exact keeps_pure _
  | succ count ih =>
    unfold txLoop
    infer_instance

instance keeps_txRespLoop (reg i : ℕ) : Keeps R (txRespLoop reg i) := by
  induction i with
  | zero => exact keeps_pure _
  | succ i ih =>
    unfold txRespLoop
    infer_instance

instance keeps_sdmmcTxBuf (reg buf len : ℕ) (cmd : Byte) :
    Keeps R (sdmmcTxBuf reg buf len cmd) := by
  unfold sdmmcTxBuf
  infer_instance

instance keeps_powerOn (d n : ℕ) : Keeps R (powerOn d n) := by
  induction n with
  | zero => exact keeps_pure _
  | succ n ih =>
    unfold powerOn
    infer_instance

instance keeps_retryUntil {body : Prog ℤ} {again : Prog PUnit} [hbody : Keeps R body]
    [hagain : Keeps R again] (stop : ℤ → Bool) (n : ℕ) (ret : ℤ) :
    Keeps R (retryUntil body again stop n ret) := by
  induction n generalizing ret with
  | zero => exact keeps_pure _
  | succ n ih =>
    unfold retryUntil
    infer_instance

end Quiet

section Commands

variable {R : Driver → Driver → Prop} [IgnoresCmd R]

instance keeps_noteCmd (cmd : Byte) : Keeps R (noteCmd cmd) :=
  keeps_modify fun s => IgnoresCmd.cmd s cmd

instance keeps_sdmmcSendCmd (reg : ℕ) (cmd : Byte) (arg : BitVec 32) (crc : Byte) :
    Keeps R (sdmmcSendCmd reg cmd arg crc) := by
  unfold sdmmcSendCmd sdmmcGetR1Response
  infer_instance

instance keeps_sdmmcSendCmdSel (reg : ℕ) (ss : BitVec 32) (cmd : Byte) (arg : BitVec 32)
    (crc : Byte) : Keeps R (sdmmcSendCmdSel reg ss cmd arg crc) := by
  unfold sdmmcSendCmdSel
  infer_instance

instance keeps_appCmd (d : ℕ) (arg : BitVec 32) : Keeps R (appCmd d arg) := by
  unfold appCmd
  infer_instance

instance keeps_readAgain2 (d : ℕ) : Keeps R (readAgain2 d) := by
  unfold readAgain2
  infer_instance

instance keeps_readAgain (d : ℕ) : Keeps R (readAgain d) := by
  unfold readAgain
  infer_instance

instance keeps_writeBlocks (d c b : ℕ) (ret : ℤ) : Keeps R (writeBlocks d c b ret) := by
  induction c generalizing b ret with
  | zero => exact keeps_pure _
  | succ c ih =>
    unfold writeBlocks
    infer_instance

instance keeps_writeAgain (d : ℕ) (ret : ℤ) : Keeps R (writeAgain d ret) := by
  unfold writeAgain
  infer_instance

instance keeps_writeDone (d : ℕ) (ret : ℤ) : Keeps R (writeDone d ret) := by
  unfold writeDone
  infer_instance

instance keeps_writeAttempt (d : ℕ) (addr count : BitVec 32) (buf : ℕ) :
    Keeps R (writeAttempt d addr count buf) := by
  unfold writeAttempt
  infer_instance

instance keeps_writeRetry (d : ℕ) (addr count : BitVec 32) (buf retry : ℕ) (ret : ℤ) :
    Keeps R (writeRetry d addr count buf retry ret) := by
  induction retry generalizing ret with
  | zero => exact keeps_pure _
  | succ retry ih =>
    unfold writeRetry
    infer_instance

/-- Writing blocks changes no memory, and receives nothing. -/
instance keeps_sdmmcWriteBlock (cards : ℕ) (outerRetry : ℤ) (d : ℕ) (blockNum count : BitVec 32)
    (buf : ℕ) : Keeps R (sdmmcWriteBlock cards outerRetry d blockNum count buf) := by
  unfold sdmmcWriteBlock
  infer_instance

end Commands

/-! ## Section 2: Receptions -/

/-- The memory after the bytes of a reception were stored. -/
def Reception.store (r : Reception) (m : Memory Byte) : Memory Byte := m.store r.buf r.bytes

/-- Neither memory nor receptions nor the command change. -/
def Silent (s s' : Driver) : Prop :=
  s'.mem = s.mem ∧ s'.received = s.received ∧ s'.lastCmd = s.lastCmd

/-- Neither memory nor receptions change. -/
def Quiet (s s' : Driver) : Prop := s'.mem = s.mem ∧ s'.received = s.received

instance : IgnoresIo Silent where
  refl _ := ⟨rfl, rfl, rfl⟩
  trans _ _ _ h h' := ⟨h'.1.trans h.1, h'.2.1.trans h.2.1, h'.2.2.trans h.2.2⟩
  io _ _ _ := ⟨rfl, rfl, rfl⟩

instance : IgnoresCmd Quiet where
  refl _ := ⟨rfl, rfl⟩
  trans _ _ _ h h' := ⟨h'.1.trans h.1, h'.2.trans h.2⟩
  io _ _ _ := ⟨rfl, rfl⟩
  cmd _ _ := ⟨rfl, rfl⟩

/-- Since `s` the bytes `r.bytes` of the reception `r` came in. -/
def Open (s : Driver) (r : Reception) (s' : Driver) : Prop :=
  s'.received = r :: s.received ∧ s'.mem = r.store s.mem

theorem Open.of_silent {s s₁ s₂ : Driver} {r : Reception} (h : Open s r s₁) (h' : Silent s₁ s₂) :
    Open s r s₂ := ⟨h'.2.1.trans h.1, h'.1.trans h.2⟩

/-- Some more bytes come in. -/
def Reception.append (r : Reception) (bs : List Byte) : Reception :=
  { r with bytes := r.bytes ++ bs }

theorem Reception.push_append (r : Reception) (b : Byte) (bs : List Byte) :
    (r.push b).append bs = r.append (b :: bs) := by
  simp [Reception.push, Reception.append]

theorem Open.push {s s₁ : Driver} {r : Reception} (h : Open s r s₁) (b : Byte) :
    Open s (r.push b) (storeReceived (r.buf + r.bytes.length) b s₁).2 := by
  refine ⟨?_, ?_⟩
  · simp [storeReceived, Program.modify, h.1]
  · simp only [storeReceived, Program.modify, h.2]
    exact (Memory.store_append s.mem r.buf r.bytes [b]).symm

/-- One pass of the receive loop, if a byte comes in. -/
theorem rxLoop_succ {reg count b : ℕ} {crc : BitVec 16} {s s₁ : Driver} {rx : BitVec 32}
    (h : pollData s = (some rx, s₁)) :
    rxLoop reg (count + 1) b crc s = rxLoop reg count (b + 1) (crc16Step crc (byteOf rx))
      (storeReceived b (byteOf rx) (sendReceive reg 0xff s₁).2).2 := by
  rw [rxLoop, bind_of_some h]
  rfl

/-- **Run lemma.**  The bytes that come in are stored one after the other. -/
theorem rxLoop_spec {s : Driver} (reg count : ℕ) {r : Reception} {s₁ : Driver}
    (h : Open s r s₁) (crc : BitVec 16) :
    ∃ bs, bs.length ≤ count ∧
      Open s (r.append bs) (rxLoop reg count (r.buf + r.bytes.length) crc s₁).2 ∧
      ∀ v, (rxLoop reg count (r.buf + r.bytes.length) crc s₁).1 = some v → bs.length = count := by
  -- on the bytes still to come, for any reception that is open
  induction count generalizing r s₁ crc with
  | zero =>
    refine ⟨[], Nat.le_refl 0, ?_, fun _ _ => rfl⟩
    simpa [Reception.append, rxLoop, pure_apply] using h
  | succ count ih =>
    have hpoll : Silent s₁ (pollData s₁).2 := (keeps_pollData (R := Silent)).run s₁
    cases hp : pollData s₁ with
    | mk v s₂ =>
      rw [hp] at hpoll
      cases v with
      | none =>
        -- no more bytes come in
        rw [rxLoop, bind_of_none hp]
        exact ⟨[], Nat.zero_le _, by simpa [Reception.append] using h.of_silent hpoll,
          fun v hv => by cases hv⟩
      | some rx =>
        -- the byte is stored, and the loop goes on behind it
        have hsend : Silent s₂ (sendReceive reg 0xff s₂).2 :=
          (keeps_sendReceive (R := Silent) reg 0xff).run s₂
        have hopen := ((h.of_silent hpoll).of_silent hsend).push (byteOf rx)
        obtain ⟨bs, hle, hrest, hall⟩ := ih hopen (crc16Step crc (byteOf rx))
        have hlen : r.buf + r.bytes.length + 1 =
            (r.push (byteOf rx)).buf + (r.push (byteOf rx)).bytes.length := by
          simp [Reception.push, Nat.add_assoc]
        rw [rxLoop_succ hp, hlen]
        rw [Reception.push_append] at hrest
        exact ⟨byteOf rx :: bs, Nat.succ_le_succ hle, hrest,
          fun v hv => congrArg (· + 1) (hall v hv)⟩

/-- What `sdmmc_rx_buf` does: the token does not come, or what comes behind it is stored, and
all of it if the function returns. -/
def RxBuf (buf len : ℕ) (s : Driver) (v : Option ℤ) (s' : Driver) : Prop :=
  (Quiet s s' ∧ ∀ ret, v = some ret → ret < 0) ∨
    ∃ bytes, bytes.length ≤ len + 2 ∧ Open s ⟨s.lastCmd, buf, len, bytes⟩ s' ∧
      ∀ ret, v = some ret → bytes.length = len + 2

theorem sdmmcRxBuf_spec (reg buf len : ℕ) (s : Driver) :
    RxBuf buf len s (sdmmcRxBuf reg buf len s).1 (sdmmcRxBuf reg buf len s).2 := by
  have hwait : Silent s (sdmmcWaitR1Response reg 0xfe 1000 s).2 :=
    (keeps_sdmmcWaitR1Response (R := Silent) reg 0xfe 1000).run s
  unfold sdmmcRxBuf
  cases hw : sdmmcWaitR1Response reg 0xfe 1000 s with
  | mk v s₁ =>
    rw [hw] at hwait
    cases v with
    | none =>
      rw [bind_of_none hw]
      exact Or.inl ⟨⟨hwait.1, hwait.2.1⟩, fun ret h => by cases h⟩
    | some ret =>
      rw [bind_of_some hw]
      by_cases hret : ret < 0
      · rw [if_pos hret]
        refine Or.inl ⟨⟨hwait.1, hwait.2.1⟩, fun ret' h => ?_⟩
        cases h
        exact hret
      · -- the token came
        rw [if_neg hret]
        right
        have hopen : Open s ⟨s.lastCmd, buf, len, []⟩
            (sendReceive reg 0xff (beginReception buf len s₁).2).2 := by
          refine ⟨?_, ?_⟩
          · show ⟨s₁.lastCmd, buf, len, []⟩ :: s₁.received = _
            rw [hwait.2.1, hwait.2.2]
          · exact hwait.1.trans (Memory.store_nil s.mem buf).symm
        obtain ⟨bs, hle, hrest, hall⟩ := rxLoop_spec reg (len + 2) hopen 0
        have htail (crc : BitVec 16) : Keeps Silent (do
            let _ ← readReg
            if crc ≠ 0 then pure sdmmcErrorCrc else pure sdmmcErrorOk) := inferInstance
        refine ⟨bs, hle, ?_⟩
        have hbegin : beginReception buf len s₁ = (some ⟨⟩, (beginReception buf len s₁).2) := rfl
        have hsend : sendReceive reg 0xff (beginReception buf len s₁).2 =
            (some ⟨⟩, (sendReceive reg 0xff (beginReception buf len s₁).2).2) := rfl
        rw [bind_of_some hbegin, bind_of_some hsend]
        cases hloop : rxLoop reg (len + 2) buf 0
            (sendReceive reg 0xff (beginReception buf len s₁).2).2 with
        | mk v s₂ =>
          simp only [List.length_nil, Nat.add_zero, hloop] at hrest hall
          cases v with
          | none =>
            rw [bind_of_none hloop]
            exact ⟨hrest, fun ret h => by cases h⟩
          | some crc =>
            rw [bind_of_some hloop]
            exact ⟨hrest.of_silent ((htail crc).run s₂), fun _ _ => hall crc rfl⟩

/-! ## Section 3: What receptions leave in memory -/

/-- The byte a reception puts at address `a`. -/
def Reception.byteAt (a : ℕ) (r : Reception) : Option Byte :=
  if r.buf ≤ a then r.bytes[a - r.buf]? else none

/-- Of several receptions, the last one that reaches an address decides. -/
theorem foldr_store (rs : List Reception) (m : Memory Byte) (a : ℕ) :
    rs.foldr Reception.store m a = (rs.findSome? (Reception.byteAt a)).getD (m a) := by
  induction rs with
  | nil => rfl
  | cons r rs ih =>
    rw [List.foldr_cons, List.findSome?_cons, Reception.store, Memory.store, Reception.byteAt]
    split
    · cases r.bytes[a - r.buf]? with
      | none => exact ih
      | some b => rfl
    · exact ih

/-- Since `s` receptions that satisfy `ok` came in, and memory changed by these and at
addresses in `inside` only. -/
def Stores (inside : ℕ → Prop) (ok : Reception → Prop) (s s' : Driver) : Prop :=
  ∃ rs, s'.received = rs ++ s.received ∧ (∀ r ∈ rs, ok r) ∧
    ∀ a, ¬ inside a → s'.mem a = rs.foldr Reception.store s.mem a

variable {inside : ℕ → Prop} {ok : Reception → Prop}

theorem Stores.of_quiet {s s' : Driver} (h : Quiet s s') : Stores inside ok s s' :=
  ⟨[], h.2, List.forall_mem_nil _, fun a _ => congrFun h.1 a⟩

instance : IgnoresCmd (Stores inside ok) where
  refl s := Stores.of_quiet ⟨rfl, rfl⟩
  trans := by
    rintro s s₁ s₂ ⟨rs₁, hrec₁, hok₁, hmem₁⟩ ⟨rs₂, hrec₂, hok₂, hmem₂⟩
    refine ⟨rs₂ ++ rs₁, ?_, ?_, fun a ha => ?_⟩
    · rw [hrec₂, hrec₁, List.append_assoc]
    · exact List.forall_mem_append.mpr ⟨hok₂, hok₁⟩
    · rw [hmem₂ a ha, foldr_store, hmem₁ a ha, List.foldr_append, foldr_store rs₂]
  io _ _ _ := Stores.of_quiet ⟨rfl, rfl⟩
  cmd _ _ := Stores.of_quiet ⟨rfl, rfl⟩

theorem keeps_storeBytes {a : ℕ} {bs : List Byte} (h : ∀ k, a ≤ k → k < a + bs.length → inside k) :
    Keeps (Stores inside ok) (storeBytes a bs) := by
  refine keeps_modify fun s => ⟨[], rfl, List.forall_mem_nil _, fun k hk => ?_⟩
  rcases Nat.lt_or_ge k a with hlt | hge
  · exact Memory.store_of_lt s.mem bs hlt
  · rcases Nat.lt_or_ge k (a + bs.length) with hin | hout
    · exact absurd (h k hge hin) hk
    · exact Memory.store_of_ge s.mem bs hout

theorem keeps_sdmmcRxBuf {buf len : ℕ}
    (h : ∀ cmd bytes, bytes.length ≤ len + 2 → ok ⟨cmd, buf, len, bytes⟩) (reg : ℕ) :
    Keeps (Stores inside ok) (sdmmcRxBuf reg buf len) := by
  constructor
  intro s
  rcases sdmmcRxBuf_spec reg buf len s with ⟨hquiet, -⟩ | ⟨bytes, hle, hopen, -⟩
  · exact Stores.of_quiet hquiet
  · refine ⟨[⟨s.lastCmd, buf, len, bytes⟩], hopen.1, ?_, fun a _ => congrFun hopen.2 a⟩
    exact List.forall_mem_singleton.mpr (h s.lastCmd bytes hle)

/-! ## Section 4: Initialization -/

/-- The bytes of `sdmmc_cards[d]`, as addresses. -/
def InCard (cards d a : ℕ) : Prop := cardAddr cards d ≤ a ∧ a < cardAddr cards d + cardSize

/-- The two registers that `sdmmc_init` reads. -/
def RegisterOf (cards d : ℕ) (r : Reception) : Prop :=
  (r.buf = cidAddr cards d ∨ r.buf = csdAddr cards d) ∧ r.len = 16 ∧ r.bytes.length ≤ 18

section Init

variable {cards d : ℕ} (hin : ∀ a, InCard cards d a → inside a)

include hin

theorem keeps_storeField {off : ℕ} (hoff : off + 4 ≤ cardSize) (w : BitVec 32) :
    Keeps (Stores inside ok) (storeBytes (cardAddr cards d + off) (leBytes32 w)) := by
  apply keeps_storeBytes
  intro k hlow hhigh
  rw [length_leBytes32] at hhigh
  exact hin k ⟨by omega, by omega⟩

theorem keeps_initV2 : Keeps (Stores inside ok) (initV2 cards d) := by
  have htype (w : BitVec 32) :
      Keeps (Stores inside ok) (storeBytes (typeAddr cards d) (leBytes32 w)) :=
    keeps_storeField hin (show 0 + 4 ≤ cardSize by decide) w
  have hocr (w : BitVec 32) :
      Keeps (Stores inside ok) (storeBytes (ocrAddr cards d) (leBytes32 w)) :=
    keeps_storeField hin (by decide) w
  unfold initV2
  infer_instance

theorem keeps_initV1 : Keeps (Stores inside ok) (initV1 cards d) := by
  have htype (w : BitVec 32) :
      Keeps (Stores inside ok) (storeBytes (typeAddr cards d) (leBytes32 w)) :=
    keeps_storeField hin (show 0 + 4 ≤ cardSize by decide) w
  unfold initV1
  infer_instance

theorem keeps_identify : Keeps (Stores inside ok) (identify cards d) := by
  have hV2 : Keeps (Stores inside ok) (initV2 cards d) := keeps_initV2 hin
  have hV1 : Keeps (Stores inside ok) (initV1 cards d) := keeps_initV1 hin
  unfold identify
  infer_instance

theorem keeps_readRegisters (hok : ∀ r, RegisterOf cards d r → ok r) :
    Keeps (Stores inside ok) (readRegisters cards d) := by
  have hcid (reg : ℕ) : Keeps (Stores inside ok) (sdmmcRxBuf reg (cidAddr cards d) 16) :=
    keeps_sdmmcRxBuf (fun cmd bytes hle => hok _ ⟨Or.inl rfl, rfl, hle⟩) reg
  have hcsd (reg : ℕ) : Keeps (Stores inside ok) (sdmmcRxBuf reg (csdAddr cards d) 16) :=
    keeps_sdmmcRxBuf (fun cmd bytes hle => hok _ ⟨Or.inr rfl, rfl, hle⟩) reg
  have hblocks (w : BitVec 32) :
      Keeps (Stores inside ok) (storeBytes (blocksAddr cards d) (leBytes32 w)) :=
    keeps_storeField hin (by decide) w
  unfold readRegisters sdmmcGetInfo
  infer_instance

theorem keeps_sdmmcInit (hok : ∀ r, RegisterOf cards d r → ok r) :
    Keeps (Stores inside ok) (sdmmcInit cards d) := by
  have hclear : Keeps (Stores inside ok) (Program.modify fun s : Driver =>
      { s with mem := s.mem.fill (cardAddr cards d) cardSize 0 }) :=
    keeps_modify fun s => ⟨[], rfl, List.forall_mem_nil _, fun a ha =>
      if_neg fun h => ha (hin a h)⟩
  have hidentify : Keeps (Stores inside ok) (identify cards d) := keeps_identify hin
  have hregisters := keeps_readRegisters hin hok
  have hrest (early : Option ℤ) : Keeps (Stores inside ok) (initRest cards d early) := by
    cases early with
    | some ret => exact keeps_pure ret
    | none => exact hregisters
  unfold sdmmcInit
  infer_instance

end Init

/-! ## Section 5: Reading blocks -/

/-- One of the blocks that `sdmmc_read_block` reads into `buf`. -/
def BlockOf (buf count : ℕ) (r : Reception) : Prop :=
  ∃ j, j < count ∧ r.buf = buf + j * sdmmcBlockSize ∧ r.len = sdmmcBlockSize ∧
    r.bytes.length ≤ sdmmcBlockSize + 2

section Read

variable {buf count : ℕ} (hok : ∀ r, BlockOf buf count r → ok r)

include hok

theorem keeps_rxBlock (reg : ℕ) {j : ℕ} (hj : j < count) :
    Keeps (Stores inside ok) (sdmmcRxBuf reg (buf + j * sdmmcBlockSize) sdmmcBlockSize) :=
  keeps_sdmmcRxBuf (fun _ _ hle => hok _ ⟨j, hj, rfl, rfl, hle⟩) reg

theorem keeps_readBlocks (d : ℕ) {c j : ℕ} (hj : j + c ≤ count) :
    Keeps (Stores inside ok) (readBlocks d c (buf + j * sdmmcBlockSize)) := by
  induction c generalizing j with
  | zero => exact keeps_pure true
  | succ c ih =>
    have hblock : Keeps (Stores inside ok)
        (sdmmcRxBuf d (buf + j * sdmmcBlockSize) sdmmcBlockSize) :=
      keeps_rxBlock hok d (show j < count by omega)
    have hrest := ih (show j + 1 + c ≤ count by omega)
    rw [Nat.succ_mul, ← Nat.add_assoc] at hrest
    unfold readBlocks
    infer_instance

end Read

theorem keeps_readAttempt (d : ℕ) {addr count : BitVec 32} {buf : ℕ} (hcount : 0 < count.toNat)
    (hok : ∀ r, BlockOf buf count.toNat r → ok r) :
    Keeps (Stores inside ok) (readAttempt d addr count buf) := by
  have hfirst : Keeps (Stores inside ok)
      (sdmmcRxBuf d (buf + 0 * sdmmcBlockSize) sdmmcBlockSize) := keeps_rxBlock hok d hcount
  have hblocks : Keeps (Stores inside ok)
      (readBlocks d count.toNat (buf + 0 * sdmmcBlockSize)) :=
    keeps_readBlocks hok d (Nat.zero_add _).le
  rw [Nat.zero_mul, Nat.add_zero] at hfirst hblocks
  unfold readAttempt
  infer_instance

theorem keeps_readRetry (d : ℕ) {addr count : BitVec 32} {buf : ℕ} (hcount : 0 < count.toNat)
    (hok : ∀ r, BlockOf buf count.toNat r → ok r) (retry : ℕ) :
    Keeps (Stores inside ok) (readRetry d addr count buf retry) := by
  have hattempt : Keeps (Stores inside ok) (readAttempt d addr count buf) :=
    keeps_readAttempt d hcount hok
  induction retry with
  | zero => exact keeps_pure _
  | succ retry ih =>
    unfold readRetry
    refine @keeps_bind _ _ _ _ _ _ _ hattempt fun result => ?_
    cases result with
    | some ret => exact keeps_pure ret
    | none => exact ih

theorem keeps_sdmmcReadBlock (cards d : ℕ) (blockNum count : BitVec 32) (buf : ℕ)
    (hok : ∀ r, BlockOf buf count.toNat r → ok r) :
    Keeps (Stores inside ok) (sdmmcReadBlock cards d blockNum count buf) := by
  unfold sdmmcReadBlock
  by_cases hcount : count < 1
  · simp only [if_pos hcount]
    infer_instance
  · have hpos : 0 < count.toNat := Nat.pos_of_ne_zero fun h0 => hcount (BitVec.lt_def.mpr (by
      rw [h0]
      exact Nat.one_pos))
    have hretry (addr : BitVec 32) :
        Keeps (Stores inside ok) (readRetry d addr count buf sdmmcRetries) :=
      keeps_readRetry d hpos hok sdmmcRetries
    infer_instance

/-! ## Section 6: Calls -/

theorem findSome?_congr {α β : Type} {f g : α → Option β} {l : List α}
    (h : ∀ x ∈ l, f x = g x) : l.findSome? f = l.findSome? g := by
  induction l with
  | nil => rfl
  | cons x l ih =>
    rw [List.findSome?_cons, List.findSome?_cons, h x (List.mem_cons_self ..),
      ih fun y hy => h y (List.mem_cons_of_mem x hy)]

inductive Call where
  | init (d : ℕ)
  | readBlock (d : ℕ) (blockNum count : BitVec 32) (buf : ℕ)
  | writeBlock (outerRetry : ℤ) (d : ℕ) (blockNum count : BitVec 32) (buf : ℕ)

/-- A call, and what reads of registers give during it. -/
structure Event where
  call : Call
  reads : List (BitVec 32)

def Call.prog (cards : ℕ) : Call → Prog ℤ
  | .init d => sdmmcInit cards d
  | .readBlock d blockNum count buf => sdmmcReadBlock cards d blockNum count buf
  | .writeBlock outerRetry d blockNum count buf =>
    sdmmcWriteBlock cards outerRetry d blockNum count buf

/-- The state a call begins in. -/
def Driver.enter (s : Driver) (e : Event) : Driver := { s with reads := e.reads, received := [] }

/-- What the call returns, if it does. -/
def ret (cards : ℕ) (s : Driver) (e : Event) : Option ℤ := (e.call.prog cards (s.enter e)).1

/-- The state after the call, or the one in which it waits forever. -/
def step (cards : ℕ) (s : Driver) (e : Event) : Driver := (e.call.prog cards (s.enter e)).2

/-- The bytes a call may change: the card's element of `sdmmc_cards`, and the data buffer. -/
def Call.Region (cards : ℕ) : Call → ℕ → Prop
  | .init d, a => InCard cards d a
  | .readBlock d _ count buf, a | .writeBlock _ d _ count buf, a =>
    InCard cards d a ∨ buf ≤ a ∧ a < buf + count.toNat * sdmmcBlockSize

/-- The address behind what a call receives last: the CSD register, or the last block. -/
def Call.limit (cards : ℕ) : Call → ℕ
  | .init d => cardAddr cards d + cardSize
  | .readBlock _ _ count buf | .writeBlock _ _ _ count buf => buf + count.toNat * sdmmcBlockSize

/-- The two registers of the card are in `sdmmc_cards[d]` as they were received. -/
def HoldsRegisters (cards d : ℕ) (s : Driver) : Prop :=
  ∃ cid csd : List Byte, cid.length = 18 ∧ csd.length = 18 ∧
    s.received = [⟨9, csdAddr cards d, 16, csd⟩, ⟨10, cidAddr cards d, 16, cid⟩] ∧
    s.mem.load (cidAddr cards d) 16 = cid.take 16 ∧ s.mem.load (csdAddr cards d) 16 = csd.take 16

/-- The call changes nothing but its region, and a successful `sdmmc_init` leaves the
registers. -/
def Isolated (cards : ℕ) (s : Driver) (e : Event) : Prop :=
  (∀ a, ¬ e.call.Region cards a → (step cards s e).mem a = s.mem a) ∧
    ∀ d, e.call = .init d → ret cards s e = some 0 → HoldsRegisters cards d (step cards s e)

/-- Byte `i` of the check-sum of a reception that ends at `limit`. -/
def Reception.crcByte (limit i : ℕ) (r : Reception) : Option Byte :=
  if r.buf + r.len = limit then r.bytes[r.len + i]? else none

/-- The check-sum that the card last sends behind the CSD register, or behind the last block,
is what lies behind the card's element, or the buffer, already. -/
def CrcKept (cards : ℕ) (s : Driver) (e : Event) : Prop :=
  ∀ i, i < 2 → ¬ e.call.Region cards (e.call.limit cards + i) → ∀ b,
    (step cards s e).received.findSome? (Reception.crcByte (e.call.limit cards) i) = some b →
      s.mem (e.call.limit cards + i) = b

/-- What a call may receive. -/
def Call.Expects (cards : ℕ) : Call → Reception → Prop
  | .init d => RegisterOf cards d
  | .readBlock _ _ count buf => BlockOf buf count.toNat
  | .writeBlock .. => fun _ => False

theorem keeps_prog (cards : ℕ) (c : Call) :
    Keeps (Stores (c.Region cards) (c.Expects cards)) (c.prog cards) := by
  cases c with
  | init d => exact keeps_sdmmcInit (fun _ h => h) (fun _ h => h)
  | readBlock d blockNum count buf =>
    exact keeps_sdmmcReadBlock cards d blockNum count buf fun _ h => h
  | writeBlock outerRetry d blockNum count buf =>
    exact keeps_sdmmcWriteBlock cards outerRetry d blockNum count buf

/-- All that a reception puts is inside, but for the check-sum of one that ends at `limit`. -/
def Reception.Fits (inside : ℕ → Prop) (limit : ℕ) (r : Reception) : Prop :=
  r.bytes.length ≤ r.len + 2 ∧
    ((r.buf + r.len = limit ∧ ∀ k, r.buf ≤ k → k < limit → inside k) ∨
      (r.buf + r.len ≠ limit ∧ ∀ k, r.buf ≤ k → k < r.buf + r.len + 2 → inside k))

theorem Reception.byteAt_eq_none {a : ℕ} {r : Reception}
    (h : a < r.buf ∨ r.buf + r.bytes.length ≤ a) : r.byteAt a = none := by
  unfold Reception.byteAt
  rcases h with hlt | hge
  · exact if_neg (Nat.not_le.mpr hlt)
  · rw [if_pos (Nat.le_trans (Nat.le_add_right _ _) hge)]
    exact List.getElem?_eq_none (Nat.le_sub_of_add_le' hge)

/-- Outside, a reception puts only the bytes of such a check-sum. -/
theorem Reception.Fits.byteAt_of_not_inside {inside : ℕ → Prop} {limit : ℕ} {r : Reception}
    (h : r.Fits inside limit) {a : ℕ} (ha : ¬ inside a) :
    (∀ i, a = limit + i → r.byteAt a = r.crcByte limit i) ∧
      ((∀ i, i < 2 → a ≠ limit + i) → r.byteAt a = none) := by
  obtain ⟨hle, ⟨hend, hin⟩ | ⟨hend, hin⟩⟩ := h
  · -- only the check-sum lies behind `limit`
    constructor
    · rintro i rfl
      rw [Reception.byteAt, Reception.crcByte, if_pos hend, if_pos (by omega)]
      congr 1
      omega
    · intro hne
      apply Reception.byteAt_eq_none
      by_contra hcover
      have hlimit : ¬ a < limit := fun hlt => ha (hin a (by omega) hlt)
      exact hne (a - limit) (by omega) (by omega)
  · -- the check-sum is inside as well
    have hnone : r.byteAt a = none := by
      apply Reception.byteAt_eq_none
      by_contra hcover
      exact ha (hin a (by omega) (by omega))
    refine ⟨fun i _ => ?_, fun _ => hnone⟩
    rw [hnone, Reception.crcByte, if_neg hend]

theorem fits_of_expects {cards : ℕ} {c : Call} {r : Reception} (h : c.Expects cards r) :
    r.Fits (c.Region cards) (c.limit cards) := by
  cases c with
  | init d =>
    obtain ⟨hbuf, hlen, hbytes⟩ := h
    refine ⟨by rw [hlen]; exact hbytes, ?_⟩
    simp only [Call.limit, Call.Region, InCard, cidAddr, csdAddr, cardSize] at hbuf ⊢
    -- the CSD is the last member, so that its check-sum lies behind the element
    rcases hbuf with hcid | hcsd
    · exact Or.inr ⟨by omega, fun k _ _ => by omega⟩
    · exact Or.inl ⟨by omega, fun k _ _ => by omega⟩
  | readBlock d blockNum count buf =>
    obtain ⟨j, hj, hbuf, hlen, hbytes⟩ := h
    refine ⟨by rw [hlen]; exact hbytes, ?_⟩
    simp only [Call.limit, Call.Region, sdmmcBlockSize] at hbuf hlen ⊢
    -- each block but the last is followed by another one
    by_cases hlast : j + 1 = count.toNat
    · exact Or.inl ⟨by omega, fun k _ _ => Or.inr (by omega)⟩
    · exact Or.inr ⟨by omega, fun k _ _ => Or.inr (by omega)⟩
  | writeBlock outerRetry d blockNum count buf => exact absurd h id

/-- What lies outside of its region after a call. -/
theorem step_mem (cards : ℕ) (s : Driver) (e : Event) {a : ℕ} (ha : ¬ e.call.Region cards a) :
    (∀ r ∈ (step cards s e).received, r.Fits (e.call.Region cards) (e.call.limit cards)) ∧
      (step cards s e).mem a =
        ((step cards s e).received.findSome? (Reception.byteAt a)).getD (s.mem a) := by
  obtain ⟨rs, hrec, hok, hmem⟩ := (keeps_prog cards e.call).run (s.enter e)
  have hall : (step cards s e).received = rs := hrec.trans (List.append_nil rs)
  rw [hall]
  refine ⟨fun r hr => fits_of_expects (hok r hr), ?_⟩
  rw [← foldr_store]
  exact hmem a ha

/-- Outside, the last byte that reaches an address behind is one of a check-sum. -/
theorem findSome?_byteAt {cards : ℕ} {s : Driver} {e : Event} {i : ℕ}
    (ha : ¬ e.call.Region cards (e.call.limit cards + i)) :
    (step cards s e).received.findSome? (Reception.byteAt (e.call.limit cards + i)) =
      (step cards s e).received.findSome? (Reception.crcByte (e.call.limit cards) i) := by
  apply findSome?_congr
  intro r hr
  exact (((step_mem cards s e ha).1 r hr).byteAt_of_not_inside ha).1 i rfl

/-- **One call.**  It leaves memory outside of its region as it was if and only if the
check-sum it receives last is what lies there. -/
theorem mem_kept_iff (cards : ℕ) (s : Driver) (e : Event) :
    (∀ a, ¬ e.call.Region cards a → (step cards s e).mem a = s.mem a) ↔ CrcKept cards s e := by
  constructor
  · intro hkept i hi ha b hb
    have hmem := (step_mem cards s e ha).2
    rw [hkept _ ha, findSome?_byteAt ha, hb] at hmem
    exact hmem
  · intro hcrc a ha
    obtain ⟨hfits, hmem⟩ := step_mem cards s e ha
    rw [hmem]
    by_cases hbehind : ∃ i, i < 2 ∧ a = e.call.limit cards + i
    · -- the last check-sum decides
      obtain ⟨i, hi, rfl⟩ := hbehind
      rw [findSome?_byteAt ha]
      cases hlast : (step cards s e).received.findSome?
          (Reception.crcByte (e.call.limit cards) i) with
      | none => rfl
      | some b => exact (hcrc i hi ha b hlast).symm
    · -- nothing received reaches the address
      have hnone : (step cards s e).received.findSome? (Reception.byteAt a) = none := by
        apply List.findSome?_eq_none_iff.mpr
        intro r hr
        apply ((hfits r hr).byteAt_of_not_inside ha).2
        exact fun i hi heq => hbehind ⟨i, hi, heq⟩
      rw [hnone]
      rfl

/-! ## Section 7: The registers after initialization -/

theorem lastCmd_sdmmcSendCmd (reg : ℕ) (cmd : Byte) (arg : BitVec 32) (crc : Byte) (s : Driver) :
    (sdmmcSendCmd reg cmd arg crc s).2.lastCmd = cmd := by
  have hnote : noteCmd cmd s = (some ⟨⟩, (noteCmd cmd s).2) := rfl
  have hrest : Keeps Silent (do
      let _ ← sdmmcReadwriteByte reg (cmd ||| 0x40)
      let _ ← sdmmcReadwriteByte reg ((arg >>> 24).setWidth 8)
      let _ ← sdmmcReadwriteByte reg ((arg >>> 16).setWidth 8)
      let _ ← sdmmcReadwriteByte reg ((arg >>> 8).setWidth 8)
      let _ ← sdmmcReadwriteByte reg (arg.setWidth 8)
      let _ ← sdmmcReadwriteByte reg crc
      sdmmcGetR1Response reg) := by
    unfold sdmmcGetR1Response
    infer_instance
  rw [sdmmcSendCmd, bind_of_some hnote]
  exact (hrest.run _).2.2

/-- A register is read: it is received as the answer to its command, and stored. -/
theorem sdmmcGetInfo_of_ok {reg : ℕ} {ss : BitVec 32} {cmd : Byte} {buf : ℕ} {s s' : Driver}
    {ret : ℤ} (h : sdmmcGetInfo reg ss cmd buf s = (some ret, s')) (hret : ¬ ret < 0) :
    ∃ bytes, bytes.length = 18 ∧ s'.received = ⟨cmd, buf, 16, bytes⟩ :: s.received ∧
      s'.mem = s.mem.store buf bytes := by
  obtain ⟨_, s₁, hselect, h⟩ := exists_of_bind h
  obtain ⟨resp, s₂, hsend, h⟩ := exists_of_bind h
  obtain ⟨ret', s₃, hrx, h⟩ := exists_of_bind h
  obtain ⟨_, s₄, hdeselect, h⟩ := exists_of_bind h
  cases h
  have hquiet₁ := (keeps_sdmmcSelect (R := Quiet) reg ss).of_eq hselect
  have hquiet₂ := (keeps_sdmmcSendCmd (R := Quiet) reg cmd 0 0x01).of_eq hsend
  have hquiet₄ := (keeps_sdmmcDeselect (R := Quiet) reg ss).of_eq hdeselect
  have hcmd := lastCmd_sdmmcSendCmd reg cmd 0 0x01 s₁
  rw [hsend] at hcmd
  rcases exists_of_ite hrx with ⟨hresp, hpure⟩ | ⟨-, hrx⟩
  · -- no response to the command
    cases hpure
    exact absurd hresp hret
  · have hspec := sdmmcRxBuf_spec reg buf 16 s₂
    rw [hrx] at hspec
    rcases hspec with ⟨-, hneg⟩ | ⟨bytes, -, hopen, hall⟩
    · exact absurd (hneg ret rfl) hret
    · refine ⟨bytes, hall ret rfl, ?_, ?_⟩
      · rw [hquiet₄.2, hopen.1, hquiet₂.2, hquiet₁.2, ← hcmd]
      · rw [hquiet₄.1, hopen.2, hquiet₂.1, hquiet₁.1]
        rfl

theorem readRegisters_of_ok {cards d : ℕ} {s s' : Driver} {ret : ℤ}
    (h : readRegisters cards d s = (some ret, s')) (hret : ¬ ret < 0) (hrec : s.received = []) :
    HoldsRegisters cards d s' := by
  obtain ⟨_, s₁, hsend, h⟩ := exists_of_bind h
  obtain ⟨ret₁, s₂, hcid, h⟩ := exists_of_bind h
  have hquiet := (keeps_sdmmcSendCmdSel (R := Quiet) d deviceSs 16
    (BitVec.ofNat 32 sdmmcBlockSize) 0x01).of_eq hsend
  rcases exists_of_ite h with ⟨hneg, hpure⟩ | ⟨hcidOk, h⟩
  · cases hpure
    exact absurd hneg hret
  obtain ⟨ret₂, s₃, hcsd, h⟩ := exists_of_bind h
  rcases exists_of_ite h with ⟨hneg, hpure⟩ | ⟨hcsdOk, h⟩
  · cases hpure
    exact absurd hneg hret
  obtain ⟨csd', s₄, hread, h⟩ := exists_of_bind h
  cases hread
  obtain ⟨_, s₅, hstore, h⟩ := exists_of_bind h
  cases hstore
  cases h
  obtain ⟨cid, hcidLen, hcidRec, hcidMem⟩ := sdmmcGetInfo_of_ok hcid hcidOk
  obtain ⟨csd, hcsdLen, hcsdRec, hcsdMem⟩ := sdmmcGetInfo_of_ok hcsd hcsdOk
  have hmem : ∀ a, blocksAddr cards d + 4 ≤ a →
      ((s₃.mem.store (blocksAddr cards d) (leBytes32 (sdmmcGetNumBlocks
        (s₃.mem.load (csdAddr cards d) 16)))).load a 16) = s₃.mem.load a 16 := fun a ha =>
    Memory.load_store_of_disjoint _ _ (Or.inr ha)
  refine ⟨cid, csd, hcidLen, hcsdLen, ?_, ?_, ?_⟩
  · show s₃.received = _
    rw [hcsdRec, hcidRec, hquiet.2, hrec]
  · -- the check-sum of the first register lies in the second one
    refine (hmem (cidAddr cards d) (Nat.le_refl _)).trans ?_
    have hapart : cidAddr cards d + 16 ≤ csdAddr cards d := Nat.le_refl _
    rw [hcsdMem, Memory.load_store_of_disjoint _ _ (Or.inl hapart), hcidMem]
    exact Memory.load_store_take _ _ (by rw [hcidLen]; decide)
  · refine (hmem _ (by simp only [blocksAddr, csdAddr]; omega)).trans ?_
    rw [hcsdMem]
    exact Memory.load_store_take _ _ (by rw [hcsdLen]; decide)

/-- Where initialization is given up early, it does not succeed. -/
theorem returns_initV2 (cards d : ℕ) : Returns (· ≠ some 0) (initV2 cards d) := by
  unfold initV2
  iterate 5 refine returns_bind fun _ => ?_
  refine returns_bind fun ret => returns_ite (fun hne => returns_pure (by simpa using hne)) ?_
  refine fun _ => returns_bind fun _ => returns_bind fun ret => ?_
  refine returns_ite (fun hne => returns_pure (by simpa using hne)) fun _ => ?_
  iterate 7 refine returns_bind fun _ => ?_
  exact returns_pure (Option.some_ne_none 0).symm

theorem returns_initV1 (cards d : ℕ) : Returns (· ≠ some 0) (initV1 cards d) := by
  unfold initV1
  refine returns_bind fun _ => returns_bind fun ret => ?_
  refine returns_ite (fun hneg => returns_pure ?_) fun _ => returns_bind fun ret => ?_
  · exact fun h => Int.ne_of_lt hneg (Option.some.inj h)
  refine returns_ite (fun hneg => returns_pure ?_) fun _ => returns_ite (fun _ => ?_) fun _ => ?_
  · exact fun h => Int.ne_of_lt hneg (Option.some.inj h)
  · exact returns_bind fun _ => returns_pure (Option.some_ne_none 0).symm
  · exact returns_pure (Option.some_ne_none 0).symm

theorem returns_identify (cards d : ℕ) : Returns (· ≠ some 0) (identify cards d) := by
  unfold identify
  refine returns_bind fun ret => returns_ite (fun hneg => returns_pure ?_) fun _ => ?_
  · exact fun h => Int.ne_of_lt hneg (Option.some.inj h)
  refine returns_ite (fun _ => returns_pure (by decide)) fun _ => returns_bind fun ret => ?_
  refine returns_ite (fun hneg => returns_pure ?_) fun _ => ?_
  · exact fun h => Int.ne_of_lt hneg (Option.some.inj h)
  exact returns_ite (fun _ => returns_initV2 cards d) fun _ => returns_initV1 cards d

/-- Neither powering on nor identification receives anything. -/
theorem received_of_stores {s s' : Driver} (h : Stores inside (fun _ => False) s s') :
    s'.received = s.received := by
  obtain ⟨rs, hrec, hok, -⟩ := h
  have hnil : rs = [] := List.eq_nil_iff_forall_not_mem.mpr hok
  rw [hrec, hnil, List.nil_append]

/-- **Registers.**  A successful `sdmmc_init` leaves both registers as they were received. -/
theorem sdmmcInit_of_ok {cards d : ℕ} {s s' : Driver} (h : sdmmcInit cards d s = (some 0, s'))
    (hrec : s.received = []) : HoldsRegisters cards d s' := by
  rcases exists_of_ite h with ⟨-, hpure⟩ | ⟨-, h⟩
  · cases hpure
  obtain ⟨_, s₁, hfill, h⟩ := exists_of_bind h
  obtain ⟨_, s₂, hclear, h⟩ := exists_of_bind h
  obtain ⟨_, s₃, hdeselect, h⟩ := exists_of_bind h
  obtain ⟨_, s₄, hpower, h⟩ := exists_of_bind h
  obtain ⟨early, s₅, hidentify, h⟩ := exists_of_bind h
  obtain ⟨ret, s₆, hrest, h⟩ := exists_of_bind h
  obtain ⟨_, s₇, hend, h⟩ := exists_of_bind h
  cases h
  have hrec₅ : s₅.received = [] := by
    have hkeeps : Keeps (Stores (fun _ => True) fun _ => False) (identify cards d) :=
      keeps_identify fun _ _ => trivial
    have hstores := hkeeps.of_eq hidentify
    rw [received_of_stores hstores, ((keeps_powerOn (R := Quiet) d 10).of_eq hpower).2,
      ((keeps_sdmmcDeselect (R := Quiet) d deviceSs).of_eq hdeselect).2,
      ((keeps_spiClearRxFifo (R := Quiet)).of_eq hclear).2, ← hrec]
    cases hfill
    rfl
  cases early with
  | some ret =>
    -- the value that is returned then is never 0
    cases hrest
    exact absurd rfl (returns_identify cards d s₄ _ s₅ hidentify)
  | none =>
    obtain ⟨cid, csd, hcid, hcsd, hall, hcidMem, hcsdMem⟩ :=
      readRegisters_of_ok hrest (by decide) hrec₅
    have hquiet := (keeps_sdmmcDeselect (R := Quiet) d deviceSs).of_eq hend
    exact ⟨cid, csd, hcid, hcsd, hquiet.2.trans hall, hquiet.1 ▸ hcidMem, hquiet.1 ▸ hcsdMem⟩

/-! ## Section 8: Runs of calls -/

theorem isolated_iff (cards : ℕ) (s : Driver) (e : Event) :
    Isolated cards s e ↔ CrcKept cards s e := by
  rw [Isolated, mem_kept_iff]
  refine and_iff_left fun d hcall hret => ?_
  have hprog : e.call.prog cards = sdmmcInit cards d := by rw [hcall]; rfl
  have hrun : sdmmcInit cards d (s.enter e) = (some 0, step cards s e) := by
    rw [← hprog]
    exact Prod.ext hret rfl
  exact sdmmcInit_of_ok hrun rfl

/-- **Isolation.**  In a run of calls on any devices, with any answers of the cards, every call
changes its card and its buffer only, and a successful `sdmmc_init` leaves the registers as
received, if and only if each check-sum that is received behind the card or the buffer is what
lies there. -/
theorem sdIsolation (cards : ℕ) (s : Driver) (es : List Event) :
    RunMeets (step cards) (Isolated cards) s es ↔ RunMeets (step cards) (CrcKept cards) s es :=
  RunMeets.congr (isolated_iff cards)

/-! ## Section 9: A card that is found -/

/-- Valid bytes in the receive FIFO. -/
def answers (bs : List Byte) : List (BitVec 32) := bs.map fun b => 0x80000000 ||| b.setWidth 32

/-- What is read while a command is sent, and its response. -/
def response (r1 : Byte) : List Byte := List.replicate 6 0xff ++ [r1]

/-- What is read while a register is: the response, the token, and the register with its
check-sum. -/
def registerAnswer (reg : List Byte) : List Byte := response 0x00 ++ [0xfe] ++ reg ++ [0xff, 0xff]

/-- A card of version 1, with zeros in its registers but for the last byte of the CSD. -/
def cardAnswers : List (BitVec 32) :=
  0 :: answers (List.replicate 11 0xff ++ response 0x01 ++ [0xff] ++ response 0x05 ++ [0xff]
    ++ response 0x01 ++ [0xff] ++ response 0x00 ++ [0xff] ++ response 0x01 ++ [0xff]
    ++ response 0x00 ++ [0xff] ++ response 0x00 ++ [0xff]
    ++ registerAnswer (List.replicate 18 0x00)
    ++ registerAnswer (List.replicate 15 0x00 ++ [0x01, 0x10, 0x21]) ++ [0xff])

/-- The driver after start-up. -/
def Driver.start : Driver := ⟨fun _ => 0, [], [], 0, [], 11⟩

/-- The card in the first slot is found, and the type of the one in the second slot changes. -/
theorem sdIsolation_csdCrc :
    ret 0 .start ⟨.init 0, cardAnswers⟩ = some 0 ∧
      leWord ((step 0 .start ⟨.init 0, cardAnswers⟩).mem.load (typeAddr 0 1) 4) = 0x2110 ∧
      ¬ Isolated 0 .start ⟨.init 0, cardAnswers⟩ := by
  have hret : ret 0 .start ⟨.init 0, cardAnswers⟩ = some 0 := by decide +kernel
  have htype :
      leWord ((step 0 .start ⟨.init 0, cardAnswers⟩).mem.load (typeAddr 0 1) 4) = 0x2110 := by
    decide +kernel
  refine ⟨hret, htype, fun h => ?_⟩
  have hkept : (step 0 .start ⟨.init 0, cardAnswers⟩).mem.load (typeAddr 0 1) 4 =
      Driver.start.mem.load (typeAddr 0 1) 4 := by
    apply Memory.load_congr
    intro i hi
    apply h.1
    simp only [Call.Region, InCard, typeAddr, cardAddr, cardSize]
    omega
  rw [hkept] at htype
  exact absurd htype (by decide)

end Karnix.Sd
