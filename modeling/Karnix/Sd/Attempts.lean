import Karnix.Sd.Bounds

/-!
# Attempts

Both functions return if the controller delivers enough bytes, whatever these are, and neither
begins more than three transfers.
-/

namespace Karnix.Sd

open Karnix.Library
open Karnix.Library.Program

-- a rule for each operation of a function
set_option synthInstance.maxSize 1000000

/-! ## Section 1: Enough bytes -/

/-- The valid words that the controller will still deliver. -/
def Driver.valid (s : Driver) : ℕ := s.reads.countP rxValid

variable {d : ℕ} {s s' : Driver}

section Patience

instance uses_readReg : Uses Driver.valid 1 readReg where
  returns s hs := by
    cases hreads : s.reads with
    | nil =>
      rw [Driver.valid, hreads, List.countP_nil] at hs
      exact absurd hs (by decide)
    | cons rx reads =>
      refine ⟨rx, { s with reads := reads }, by rw [readReg, hreads], ?_⟩
      rw [Driver.valid, hreads, List.countP_cons]
      exact Nat.add_le_add_left (by split <;> decide) _

/-- Before the first valid word there is none. -/
theorem countP_dropWhile (reads : List (BitVec 32)) :
    (reads.dropWhile fun rx => !rxValid rx).countP rxValid = reads.countP rxValid := by
  induction reads with
  | nil => rfl
  | cons rx reads ih =>
    cases hvalid : rxValid rx with
    | true => rw [List.dropWhile_cons_of_neg (by simp [hvalid])]
    | false =>
      rw [List.dropWhile_cons_of_pos (by simp [hvalid]), ih,
        List.countP_cons_of_neg (by simp [hvalid])]

instance uses_pollData : Uses Driver.valid 1 pollData where
  returns s hs := by
    have hcount := countP_dropWhile s.reads
    cases hreads : s.reads.dropWhile fun rx => !rxValid rx with
    | nil =>
      rw [Driver.valid, ← hcount, hreads, List.countP_nil] at hs
      exact absurd hs (by decide)
    | cons rx reads =>
      refine ⟨rx, { s with reads := reads }, by rw [pollData, hreads], ?_⟩
      rw [Driver.valid, ← hcount, hreads, List.countP_cons]
      exact Nat.add_le_add_left (by split <;> decide) _

instance uses_writeData (w : BitVec 32) : Uses Driver.valid 0 (writeData d w) :=
  uses_modify fun _ => rfl

instance uses_sendReceive (b : Byte) : Uses Driver.valid 0 (sendReceive d b) :=
  uses_writeData _

instance uses_loadByte (a : ℕ) : Uses Driver.valid 0 (loadByte a) := uses_read _

instance uses_noteCmd (cmd : Byte) : Uses Driver.valid 0 (noteCmd cmd) := uses_modify fun _ => rfl

instance uses_beginReception (buf len : ℕ) : Uses Driver.valid 0 (beginReception buf len) :=
  uses_modify fun _ => rfl

instance uses_storeReceived (a : ℕ) (b : Byte) : Uses Driver.valid 0 (storeReceived a b) :=
  uses_modify fun _ => rfl

/-- What a program uses, if it is not more than `n`. -/
theorem uses_of_le {α : Type} {p : Prog α} {m : ℕ} (n : ℕ) [h : Uses Driver.valid m p]
    (hle : m ≤ n) : Uses Driver.valid n p := h.mono hle

instance uses_spiWaitTxAvail (minAvail timeout : ℕ) :
    Uses Driver.valid timeout (spiWaitTxAvail minAvail timeout) := by
  induction timeout with
  | zero => exact uses_pure _
  | succ timeout ih =>
    unfold spiWaitTxAvail
    exact uses_of_le _ (by omega)

instance uses_readwriteLoop (i : ℕ) : Uses Driver.valid i (readwriteLoop i) := by
  induction i with
  | zero => exact uses_pure _
  | succ i ih =>
    unfold readwriteLoop
    exact uses_of_le _ (by omega)

instance uses_sdmmcReadwriteByte (b : Byte) :
    Uses Driver.valid sdmmcTimeout (sdmmcReadwriteByte d b) := by
  unfold sdmmcReadwriteByte
  exact uses_of_le _ (by omega)

instance uses_waitReadyLoop (i : ℕ) : Uses Driver.valid i (waitReadyLoop d i) := by
  induction i with
  | zero => exact uses_pure _
  | succ i ih =>
    unfold waitReadyLoop
    exact uses_of_le _ (by omega)

instance uses_sdmmcWaitReady : Uses Driver.valid sdmmcTimeout (sdmmcWaitReady d) := by
  unfold sdmmcWaitReady
  exact uses_of_le _ (by omega)

instance uses_sdmmcSelect (ss : BitVec 32) : Uses Driver.valid 0 (sdmmcSelect d ss) :=
  uses_writeData _

instance uses_sdmmcDeselect (ss : BitVec 32) :
    Uses Driver.valid sdmmcTimeout (sdmmcDeselect d ss) := by
  unfold sdmmcDeselect
  exact uses_of_le _ (by omega)

instance uses_getR1Loop (i : ℕ) : Uses Driver.valid i (getR1Loop d i) := by
  induction i with
  | zero => exact uses_pure _
  | succ i ih =>
    unfold getR1Loop
    exact uses_of_le _ (by omega)

instance uses_sdmmcSendCmd (cmd : Byte) (arg : BitVec 32) (crc : Byte) :
    Uses Driver.valid (7 * sdmmcTimeout) (sdmmcSendCmd d cmd arg crc) := by
  unfold sdmmcSendCmd sdmmcGetR1Response
  exact uses_of_le _ (by omega)

instance uses_waitR1Loop (r1 : Byte) (i : ℕ) : Uses Driver.valid i (waitR1Loop d r1 i) := by
  induction i with
  | zero => exact uses_pure _
  | succ i ih =>
    unfold waitR1Loop
    exact uses_of_le _ (by omega)

instance uses_sdmmcWaitR1Response (r1 : Byte) (retry : ℕ) :
    Uses Driver.valid (retry * sdmmcTimeout) (sdmmcWaitR1Response d r1 retry) := by
  induction retry with
  | zero => exact (uses_pure _).mono (Nat.zero_le _)
  | succ retry ih =>
    unfold sdmmcWaitR1Response
    exact uses_of_le _ (by rw [Nat.succ_mul]; omega)

instance uses_rxLoop (count b : ℕ) (crc : BitVec 16) :
    Uses Driver.valid count (rxLoop d count b crc) := by
  induction count generalizing b crc with
  | zero => exact uses_pure _
  | succ count ih =>
    unfold rxLoop
    exact uses_of_le _ (by omega)

/-- The bytes that receiving a block takes at most. -/
def rxUse : ℕ := 1000 * sdmmcTimeout + sdmmcBlockSize + 3

instance uses_sdmmcRxBuf (buf : ℕ) : Uses Driver.valid rxUse (sdmmcRxBuf d buf sdmmcBlockSize) := by
  unfold sdmmcRxBuf rxUse
  exact uses_of_le _ (by omega)

instance uses_txLoop (count b : ℕ) : Uses Driver.valid (count * 1000) (txLoop d count b) := by
  induction count generalizing b with
  | zero => exact (uses_pure _).mono (Nat.zero_le _)
  | succ count ih =>
    unfold txLoop
    exact uses_of_le _ (by omega)

instance uses_txRespLoop (i : ℕ) : Uses Driver.valid (i * sdmmcTimeout) (txRespLoop d i) := by
  induction i with
  | zero => exact (uses_pure _).mono (Nat.zero_le _)
  | succ i ih =>
    unfold txRespLoop
    exact uses_of_le _ (by rw [Nat.succ_mul]; omega)

/-- The bytes that sending a block takes at most. -/
def txUse : ℕ :=
  2 * sdmmcTimeout + sdmmcBlockSize * 1000 + 1000 + (sdmmcTimeout <<< 6) * sdmmcTimeout

instance uses_sdmmcTxBuf (buf : ℕ) (token : Byte) :
    Uses Driver.valid txUse (sdmmcTxBuf d buf sdmmcBlockSize token) := by
  unfold sdmmcTxBuf txUse
  generalize sdmmcTimeout <<< 6 = i
  exact uses_of_le _ (by omega)

instance uses_readBlocks (c b : ℕ) : Uses Driver.valid (c * rxUse) (readBlocks d c b) := by
  induction c generalizing b with
  | zero => exact (uses_pure _).mono (Nat.zero_le _)
  | succ c ih =>
    unfold readBlocks
    exact uses_of_le _ (by rw [Nat.succ_mul]; omega)

instance uses_readAgain2 : Uses Driver.valid (2 * sdmmcTimeout) (readAgain2 d) := by
  unfold readAgain2
  exact uses_of_le _ (by omega)

instance uses_readAgain : Uses Driver.valid (9 * sdmmcTimeout) (readAgain d) := by
  unfold readAgain
  exact uses_of_le _ (by omega)

instance uses_writeBlocks (c b : ℕ) (ret : ℤ) :
    Uses Driver.valid (c * (txUse + sdmmcTimeout)) (writeBlocks d c b ret) := by
  induction c generalizing b ret with
  | zero => exact (uses_pure _).mono (Nat.zero_le _)
  | succ c ih =>
    unfold writeBlocks
    exact uses_of_le _ (by rw [Nat.succ_mul]; omega)

instance uses_writeAgain (ret : ℤ) : Uses Driver.valid (3 * sdmmcTimeout) (writeAgain d ret) := by
  unfold writeAgain
  exact uses_of_le _ (by omega)

instance uses_writeDone (ret : ℤ) : Uses Driver.valid (2 * sdmmcTimeout) (writeDone d ret) := by
  unfold writeDone
  exact uses_of_le _ (by omega)

/-- The bytes that an attempt to read takes at most. -/
def readUse (count : BitVec 32) : ℕ := 30 * sdmmcTimeout + rxUse + count.toNat * rxUse

instance uses_readAttempt (addr count : BitVec 32) (buf : ℕ) :
    Uses Driver.valid (readUse count) (readAttempt d addr count buf) := by
  unfold readAttempt readUse
  exact uses_of_le _ (by omega)

/-- The bytes that an attempt to write takes at most. -/
def writeUse (count : BitVec 32) : ℕ :=
  30 * sdmmcTimeout + txUse + count.toNat * (txUse + sdmmcTimeout)

instance uses_writeAttempt (addr count : BitVec 32) (buf : ℕ) :
    Uses Driver.valid (writeUse count) (writeAttempt d addr count buf) := by
  unfold writeAttempt writeUse
  refine uses_of_le _ ?_
  generalize count.toNat * (txUse + sdmmcTimeout) = blocks
  generalize txUse = block
  generalize sdmmcTimeout = t
  omega

instance uses_readRetry (addr count : BitVec 32) (buf retry : ℕ) :
    Uses Driver.valid (retry * readUse count) (readRetry d addr count buf retry) := by
  induction retry with
  | zero => exact (uses_pure _).mono (Nat.zero_le _)
  | succ retry ih =>
    unfold readRetry
    have hrest : ∀ result : Option ℤ, Uses Driver.valid (retry * readUse count)
        (match result with
          | some ret => pure ret
          | none => readRetry d addr count buf retry : Prog ℤ) := by
      intro result
      cases result with
      | some ret => exact (uses_pure ret).mono (Nat.zero_le _)
      | none => exact ih
    exact uses_of_le _ (by rw [Nat.succ_mul]; omega)

instance uses_writeRetry (addr count : BitVec 32) (buf retry : ℕ) (ret : ℤ) :
    Uses Driver.valid (retry * writeUse count) (writeRetry d addr count buf retry ret) := by
  induction retry generalizing ret with
  | zero => exact (uses_pure _).mono (Nat.zero_le _)
  | succ retry ih =>
    unfold writeRetry
    exact uses_of_le _ (by rw [Nat.succ_mul]; omega)

end Patience

/-! ## Section 2: Transfers -/

/-- The transfers that are begun by commands. -/
def transfers (ws : List (BitVec 32)) : ℕ := (commands ws).countP fun c => c.1 ≠ 12

/-- The command stops a transfer. -/
def Ends (cmd : Byte) (_ : BitVec 32) : Prop := cmd = 12

variable {ok : Byte → BitVec 32 → Prop} {ws ws' : List (BitVec 32)}

theorem Dialog.commands_append (h : Dialog ok ws) (ws' : List (BitVec 32)) :
    commands (ws ++ ws') = commands ws ++ commands ws' := by
  induction h with
  | nil => rfl
  | word hw _ ih => rw [List.cons_append, commands_word hw, commands_word hw, ih]
  | command _ hcmd _ ih =>
    rw [List.append_assoc, commands_frame hcmd, commands_frame hcmd, ih, List.cons_append]

theorem Dialog.transfers_append (h : Dialog ok ws) (ws' : List (BitVec 32)) :
    transfers (ws ++ ws') = transfers ws + transfers ws' := by
  rw [transfers, h.commands_append, List.countP_append]
  rfl

theorem Dialog.transfers_ends (h : Dialog Ends ws) {part : List (BitVec 32)}
    (hpart : part.length < 6) : transfers (ws ++ part) = 0 := by
  refine List.countP_eq_zero.2 fun c hc => ?_
  have hend : c.1 = 12 := h.allowed hpart c hc
  simp [hend]

theorem Dialog.mono {ok' : Byte → BitVec 32 → Prop} (h : Dialog ok ws)
    (hle : ∀ c a, ok c a → ok' c a) : Dialog ok' ws := by
  induction h with
  | nil => exact .nil
  | word hw _ ih => exact .word hw ih
  | command hok hcmd _ ih => exact .command (hle _ _ hok) hcmd ih

/-- Since `s` at most `k` transfers were begun, and the last command was sent as a whole if the
program has returned. -/
def Begins {α : Type} (d k : ℕ) (s : Driver) (v : Option α) (s' : Driver) : Prop :=
  ∃ ws part, Wrote d (ws ++ part) s s' ∧ Dialog (fun _ _ => True) ws ∧ part.length < 6 ∧
    transfers (ws ++ part) ≤ k ∧ (v.isSome → part = [])

variable {α β : Type} {k l : ℕ} {s₁ s₂ : Driver}

theorem Begins.transfers_le {v : Option α} (h : Begins d k s v s') :
    transfers (spoken s s') ≤ k := by
  obtain ⟨ws, part, hw, -, -, hk, -⟩ := h
  rw [hw.spoken]
  exact hk

theorem Begins.mono {v : Option α} (h : Begins d k s v s') (hle : k ≤ l) : Begins d l s v s' := by
  obtain ⟨ws, part, hw, hd, hpart, hk, hv⟩ := h
  exact ⟨ws, part, hw, hd, hpart, Nat.le_trans hk hle, hv⟩

/-- What has returned is gone on with. -/
theorem Begins.trans {a : α} {v : Option β} (h : Begins d k s (some a) s₁)
    (h' : Begins d l s₁ v s₂) : Begins d (k + l) s v s₂ := by
  obtain ⟨ws, part, hw, hd, -, hk, hv⟩ := h
  obtain ⟨ws', part', hw', hd', hpart', hl, hv'⟩ := h'
  obtain rfl := hv rfl
  rw [List.append_nil] at hw hk
  refine ⟨ws ++ ws', part', ?_, hd.append hd', hpart', ?_, hv'⟩
  · rw [List.append_assoc]
    exact hw.append hw'
  · rw [List.append_assoc, hd.transfers_append]
    exact Nat.add_le_add hk hl

theorem begins_zero (v : Option α) (s : Driver) : Begins d 0 s v s :=
  ⟨[], [], wrote_nil rfl, .nil, by decide, Nat.le_refl 0, fun _ => rfl⟩

/-- A program that only stops transfers begins none. -/
theorem begins_of_leads {p : Prog α} (h : Leads (Says d Ends) (Stops d Ends) p) {v : Option α}
    (hrun : p s = (v, s')) : Begins d 0 s v s' := by
  have hany : ∀ c a, Ends c a → True := fun _ _ _ => trivial
  cases v with
  | some a =>
    obtain ⟨ws, hw, hd⟩ := h.returns s a s' hrun
    refine ⟨ws, [], by rwa [List.append_nil], hd.mono hany, by decide, ?_, fun _ => rfl⟩
    exact Nat.le_of_eq (hd.transfers_ends (by decide))
  | none =>
    obtain ⟨ws, part, hw, hd, hpart⟩ := h.waits s s' hrun
    refine ⟨ws, part, hw, hd.mono hany, hpart, Nat.le_of_eq (hd.transfers_ends hpart), ?_⟩
    exact fun hsome => absurd hsome Bool.false_ne_true

/-- **One command.**  `sdmmc_send_cmd` begins one transfer at most. -/
theorem begins_sendCmd {cmd : Byte} {arg : BitVec 32} {crc : Byte} (hcmd : cmd < 0x40)
    {v : Option ℤ} (h : sdmmcSendCmd d cmd arg crc s = (v, s')) : Begins d 1 s v s' := by
  obtain ⟨said, hw, ⟨rfl, hshort⟩ | ⟨rest, rfl, hf⟩⟩ := sdmmcSendCmd_said h
  · refine ⟨[], said, hw, .nil, hshort, ?_, fun hsome => absurd hsome Bool.false_ne_true⟩
    rw [List.nil_append, transfers, commands_short hshort]
    exact Nat.zero_le 1
  · have hstart : ∀ w ∈ rest, startsCommand w = false := fun w hw => (hf w hw).1
    refine ⟨_, [], by rwa [List.append_nil], .command trivial hcmd (dialog_of_forall hstart),
      by decide, ?_, fun _ => rfl⟩
    rw [List.append_nil, transfers, commands_frame hcmd, commands_of_forall hstart]
    exact List.countP_le_length

/-- **Sequence rule.**  The transfers that both parts begin add up. -/
theorem begins_bind {p : Prog α} {f : α → Prog β}
    (hp : ∀ {v s₁}, p s = (v, s₁) → Begins d k s v s₁)
    (hf : ∀ {a s₁ v s₂}, f a s₁ = (v, s₂) → Begins d l s₁ v s₂) {v : Option β}
    (h : (p >>= f) s = (v, s')) : Begins d (k + l) s v s' := by
  cases hfirst : p s with
  | mk a s₁ =>
    have hbegins := hp hfirst
    cases a with
    | none =>
      rw [bind_of_none hfirst] at h
      cases h
      obtain ⟨ws, part, hw, hd, hpart, hk, -⟩ := hbegins
      exact ⟨ws, part, hw, hd, hpart, Nat.le_trans hk (Nat.le_add_right k l),
        fun hsome => absurd hsome Bool.false_ne_true⟩
    | some a =>
      rw [bind_of_some hfirst] at h
      exact hbegins.trans (hf h)

/-- The card is selected, a command sent, and then no other transfer begun. -/
theorem begins_of_select {cmd : Byte} {arg : BitVec 32} {crc : Byte} (hcmd : cmd < 0x40)
    {f : ℤ → Prog α} (hf : ∀ r, Leads (Says d Ends) (Stops d Ends) (f r)) {v : Option α}
    (h : (sdmmcSelect d deviceSs >>= fun _ => sdmmcSendCmd d cmd arg crc >>= f) s = (v, s')) :
    Begins d 1 s v s' :=
  begins_bind (k := 0) (fun hrun => begins_of_leads leads_sdmmcSelect hrun)
    (fun hrun => begins_bind (begins_sendCmd hcmd)
      (fun hrest => begins_of_leads (hf _) hrest) hrun) h

variable {addr count : BitVec 32} {buf : ℕ}

/-- An attempt to read begins one transfer. -/
theorem readAttempt_begins {v : Option (Option ℤ)} (h : readAttempt d addr count buf s = (v, s')) :
    Begins d 1 s v s' := by
  have hstop : Leads (Says d Ends) (Stops d Ends) (sdmmcSendCmd d 12 0 0x01) :=
    leads_sdmmcSendCmd (by decide) rfl
  have hagain : Leads (Says d Ends) (Stops d Ends) (readAgain d) := leads_readAgain rfl
  unfold readAttempt at h
  by_cases hone : count.toInt < 2
  · simp only [if_pos hone] at h
    exact begins_of_select (by decide) (fun _ => inferInstance) h
  · simp only [if_neg hone] at h
    exact begins_of_select (by decide) (fun _ => inferInstance) h

/-- An attempt to write begins one transfer. -/
theorem writeAttempt_begins {v : Option (Bool × ℤ)}
    (h : writeAttempt d addr count buf s = (v, s')) : Begins d 1 s v s' := by
  unfold writeAttempt at h
  by_cases hone : count.toInt < 2
  · simp only [if_pos hone] at h
    exact begins_of_select (by decide) (fun _ => inferInstance) h
  · simp only [if_neg hone] at h
    exact begins_of_select (by decide) (fun _ => inferInstance) h

/-- **Run lemma.**  Every attempt of `sdmmc_read_block` begins one transfer at most. -/
theorem readRetry_begins {retry : ℕ} {v : Option ℤ}
    (h : readRetry d addr count buf retry s = (v, s')) : Begins d retry s v s' := by
  induction retry generalizing s v s' with
  | zero =>
    cases h
    exact begins_zero _ _
  | succ retry ih =>
    rw [readRetry] at h
    rw [Nat.add_comm]
    refine begins_bind readAttempt_begins (fun {result} {_} {_} {_} hrest => ?_) h
    cases result with
    | some ret =>
      cases hrest
      exact (begins_zero _ _).mono (Nat.zero_le retry)
    | none => exact ih hrest

/-- **Run lemma.**  Every attempt of `sdmmc_write_block` begins one transfer at most. -/
theorem writeRetry_begins {retry : ℕ} {ret : ℤ} {v : Option ℤ}
    (h : writeRetry d addr count buf retry ret s = (v, s')) : Begins d retry s v s' := by
  induction retry generalizing s ret v s' with
  | zero =>
    cases h
    exact begins_zero _ _
  | succ retry ih =>
    rw [writeRetry] at h
    rw [Nat.add_comm]
    refine begins_bind writeAttempt_begins (fun {result} {_} {_} {_} hrest => ?_) h
    by_cases hdone : result.1 = true
    · rw [if_pos hdone] at hrest
      cases hrest
      exact (begins_zero _ _).mono (Nat.zero_le retry)
    · rw [if_neg hdone] at hrest
      exact ih hrest

end Karnix.Sd
