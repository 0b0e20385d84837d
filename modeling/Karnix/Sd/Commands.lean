import Karnix.Sd.Card

/-!
# What the driver tells a card

A command is six bytes that are sent one after the other, the first of which has 01 in its upper
bits.  All other bytes that the driver sends have not, except for the data of a block, which go
out with a write only.  So the commands of a run can be read off the words that it wrote to the
data register.
-/

namespace Karnix.Sd

open Karnix.Library
open Karnix.Library.Program

/-! ## Section 1: Commands in what is sent -/

/-- The word begins a command. -/
def startsCommand (w : BitVec 32) : Bool := w &&& 0xffffffc0 = 0x01000040

/-- The commands in a sequence of words, with their arguments. -/
def commands : List (BitVec 32) → List (Byte × BitVec 32)
  | w :: a₃ :: a₂ :: a₁ :: a₀ :: crc :: ws =>
    if startsCommand w then
      (byteOf w &&& 0x3f, be32 (byteOf a₃) (byteOf a₂) (byteOf a₁) (byteOf a₀)) :: commands ws
    else commands (a₃ :: a₂ :: a₁ :: a₀ :: crc :: ws)
  | _ => []

/-- The word carries a byte of a block. -/
def isData (w : BitVec 32) : Bool := w &&& 0xff000000 = 0

/-- The words with which a command is sent. -/
def frame (cmd : Byte) (arg : BitVec 32) (crc : Byte) : List (BitVec 32) :=
  [cmd ||| 0x40, (arg >>> 24).setWidth 8, (arg >>> 16).setWidth 8, (arg >>> 8).setWidth 8,
    arg.setWidth 8, crc].map fun b => spiCmdSendReceive ||| b.setWidth 32

/-- The words that a run has written to the controllers, the first one first. -/
def spoken (s s' : Driver) : List (BitVec 32) :=
  ((s'.sent.take (s'.sent.length - s.sent.length)).reverse).map Prod.snd

/-- Commands that are allowed, with other words between them. -/
inductive Dialog (ok : Byte → BitVec 32 → Prop) : List (BitVec 32) → Prop where
  | nil : Dialog ok []
  | word {w ws} : startsCommand w = false → Dialog ok ws → Dialog ok (w :: ws)
  | command {cmd arg crc ws} : ok cmd arg → cmd < 0x40 → Dialog ok ws →
      Dialog ok (frame cmd arg crc ++ ws)

variable {ok : Byte → BitVec 32 → Prop} {ws ws' : List (BitVec 32)}

theorem Dialog.append (h : Dialog ok ws) (h' : Dialog ok ws') : Dialog ok (ws ++ ws') := by
  induction h with
  | nil => exact h'
  | word hw _ ih => exact .word hw ih
  | command hok hcmd _ ih =>
    rw [List.append_assoc]
    exact .command hok hcmd ih

theorem commands_short (h : ws.length < 6) : commands ws = [] := by
  match ws, h with
  | [], _ | [_], _ | [_, _], _ | [_, _, _], _ | [_, _, _, _], _ | [_, _, _, _, _], _ => rfl
  | _ :: _ :: _ :: _ :: _ :: _ :: _, h =>
    simp only [List.length_cons] at h
    omega

theorem commands_word {w : BitVec 32} (hw : startsCommand w = false) :
    commands (w :: ws) = commands ws := by
  match ws with
  | [] | [_] | [_, _] | [_, _, _] | [_, _, _, _] => rfl
  | _ :: _ :: _ :: _ :: _ :: _ => rw [commands, hw, if_neg Bool.false_ne_true]

/-- The four bytes of the argument are the argument. -/
theorem be32_arg (arg : BitVec 32) :
    be32 ((arg >>> 24).setWidth 8) ((arg >>> 16).setWidth 8) ((arg >>> 8).setWidth 8)
      (arg.setWidth 8) = arg := by
  apply BitVec.eq_of_getLsbD_eq
  intro i hi
  simp only [be32, BitVec.getLsbD_or, BitVec.getLsbD_shiftLeft, BitVec.getLsbD_setWidth,
    BitVec.getLsbD_ushiftRight]
  interval_cases i <;> simp

theorem byteOf_sendReceive (b : Byte) : byteOf (spiCmdSendReceive ||| b.setWidth 32) = b := by
  apply BitVec.eq_of_getLsbD_eq
  intro i hi
  simp only [byteOf, spiCmdSendReceive, BitVec.getLsbD_setWidth, BitVec.getLsbD_or]
  interval_cases i <;> simp

theorem startsCommand_cmd {cmd : Byte} (h : cmd < 0x40) :
    startsCommand (spiCmdSendReceive ||| (cmd ||| 0x40).setWidth 32) = true := by
  revert cmd
  decide

theorem commands_frame {cmd : Byte} (h : cmd < 0x40) (arg : BitVec 32) (crc : Byte) :
    commands (frame cmd arg crc ++ ws) = (cmd, arg) :: commands ws := by
  have hcmd : (cmd ||| 0x40) &&& 0x3f = cmd := by
    revert cmd
    decide
  simp only [frame, List.map_cons, List.map_nil, List.cons_append, List.nil_append, commands,
    startsCommand_cmd h, if_true, byteOf_sendReceive, be32_arg, hcmd]

/-- The commands of a dialog are allowed, whatever was sent of one that is not complete. -/
theorem Dialog.allowed (h : Dialog ok ws) {part : List (BitVec 32)} (hpart : part.length < 6) :
    ∀ c ∈ commands (ws ++ part), ok c.1 c.2 := by
  induction h with
  | nil =>
    rw [List.nil_append, commands_short hpart]
    exact List.forall_mem_nil _
  | word hw _ ih =>
    rw [List.cons_append, commands_word hw]
    exact ih
  | command hok hcmd _ ih =>
    rw [List.append_assoc, commands_frame hcmd]
    exact List.forall_mem_cons.2 ⟨hok, ih⟩

/-! ## Section 2: What programs say -/

/-- Since `s` the words `ws` were written to controller `d`. -/
def Wrote (d : ℕ) (ws : List (BitVec 32)) (s s' : Driver) : Prop :=
  s'.sent = (ws.map fun w => (d, w)).reverse ++ s.sent

/-- Since `s` a dialog with the card has taken place. -/
def Says (d : ℕ) (ok : Byte → BitVec 32 → Prop) (s s' : Driver) : Prop :=
  ∃ ws, Wrote d ws s s' ∧ Dialog ok ws

/-- The same, and perhaps the beginning of a command. -/
def Stops (d : ℕ) (ok : Byte → BitVec 32 → Prop) (s s' : Driver) : Prop :=
  ∃ ws part, Wrote d (ws ++ part) s s' ∧ Dialog ok ws ∧ part.length < 6

variable {d : ℕ} {s s₁ s₂ : Driver}

theorem Wrote.append (h : Wrote d ws s s₁) (h' : Wrote d ws' s₁ s₂) : Wrote d (ws ++ ws') s s₂ := by
  rw [Wrote, h', h, List.map_append, List.reverse_append, List.append_assoc]

theorem wrote_nil (h : s₁.sent = s.sent) : Wrote d [] s s₁ := h

theorem Wrote.spoken (h : Wrote d ws s s₁) : spoken s s₁ = ws := by
  rw [Sd.spoken, h]
  simp [List.map_map, Function.comp_def]

instance : Continues (Says d ok) (Stops d ok) where
  refl s := ⟨[], rfl, .nil⟩
  trans := by
    rintro s s₁ s₂ ⟨ws, hw, hd⟩ ⟨ws', hw', hd'⟩
    exact ⟨ws ++ ws', hw.append hw', hd.append hd'⟩
  le := by
    rintro s s₁ ⟨ws, hw, hd⟩
    exact ⟨ws, [], by rwa [List.append_nil], hd, by decide⟩
  trans' := by
    rintro s s₁ s₂ ⟨ws, hw, hd⟩ ⟨ws', part, hw', hd', hpart⟩
    refine ⟨ws ++ ws', part, ?_, hd.append hd', hpart⟩
    rw [List.append_assoc]
    exact hw.append hw'

/-- The commands of a run are allowed. -/
theorem Stops.allowed (h : Stops d ok s s₁) : ∀ c ∈ commands (spoken s s₁), ok c.1 c.2 := by
  obtain ⟨ws, part, hw, hd, hpart⟩ := h
  rw [hw.spoken]
  exact hd.allowed hpart

/-! ## Section 3: Pieces that send no command -/

-- a rule for each operation of a function
set_option synthInstance.maxSize 1000000

/-- A word that neither begins a command nor carries data of a block. -/
def Filler (w : BitVec 32) : Prop := startsCommand w = false ∧ isData w = false

/-- Since `s` only fillers were sent. -/
def Chat (d : ℕ) (s s' : Driver) : Prop := ∃ ws, Wrote d ws s s' ∧ ∀ w ∈ ws, Filler w

instance : IsPreorder Driver (Chat d) where
  refl s := ⟨[], rfl, List.forall_mem_nil _⟩
  trans := by
    rintro s s₁ s₂ ⟨ws, hw, hf⟩ ⟨ws', hw', hf'⟩
    exact ⟨ws ++ ws', hw.append hw', List.forall_mem_append.2 ⟨hf, hf'⟩⟩

theorem dialog_of_forall (h : ∀ w ∈ ws, startsCommand w = false) : Dialog ok ws := by
  induction ws with
  | nil => exact .nil
  | cons w ws ih =>
    exact .word (h w (List.mem_cons_self ..)) (ih fun v hv => h v (List.mem_cons_of_mem w hv))

theorem Chat.says (h : Chat d s s₁) : Says d ok s s₁ := by
  obtain ⟨ws, hw, hf⟩ := h
  exact ⟨ws, hw, dialog_of_forall fun w hmem => (hf w hmem).1⟩

theorem leads_of_chat {α : Type} {p : Prog α} (h : Keeps (Chat d) p) :
    Leads (Says d ok) (Stops d ok) p :=
  (h.mono fun _ _ hchat => hchat.says).leads

section Chats

theorem chat_of_eq {α : Type} {p : Prog α} (h : ∀ s, (p s).2.sent = s.sent) : Keeps (Chat d) p :=
  ⟨fun s => ⟨[], h s, List.forall_mem_nil _⟩⟩

instance chat_readReg : Keeps (Chat d) readReg := chat_of_eq fun s => by
  unfold readReg
  split <;> rfl

instance chat_pollData : Keeps (Chat d) pollData := chat_of_eq fun s => by
  unfold pollData
  split <;> rfl

instance chat_spiClearRxFifo : Keeps (Chat d) spiClearRxFifo := chat_of_eq fun s => by
  unfold spiClearRxFifo
  split <;> rfl

instance chat_noteCmd (cmd : Byte) : Keeps (Chat d) (noteCmd cmd) := chat_of_eq fun _ => rfl

instance chat_beginReception (buf len : ℕ) : Keeps (Chat d) (beginReception buf len) :=
  chat_of_eq fun _ => rfl

instance chat_storeReceived (a : ℕ) (b : Byte) : Keeps (Chat d) (storeReceived a b) :=
  chat_of_eq fun _ => rfl

theorem wrote_writeData (d : ℕ) (w : BitVec 32) (s : Driver) : Wrote d [w] s (writeData d w s).2 :=
  rfl

theorem chat_writeData {w : BitVec 32} (hw : Filler w) : Keeps (Chat d) (writeData d w) :=
  keeps_modify fun s => ⟨[w], wrote_writeData d w s, List.forall_mem_singleton.2 hw⟩

/-- A byte that is sent as a filler. -/
class Idle (b : Byte) : Prop where
  filler : Filler (spiCmdSendReceive ||| b.setWidth 32)

instance : Idle 0xff := ⟨by decide, by decide⟩

instance : Idle 0xfe := ⟨by decide, by decide⟩

instance : Idle 0xfd := ⟨by decide, by decide⟩

instance : Idle 0xfc := ⟨by decide, by decide⟩

instance chat_sendReceive (b : Byte) [h : Idle b] : Keeps (Chat d) (sendReceive d b) :=
  chat_writeData h.filler

instance chat_spiWaitTxAvail (minAvail timeout : ℕ) :
    Keeps (Chat d) (spiWaitTxAvail minAvail timeout) := by
  induction timeout with
  | zero => exact keeps_pure _
  | succ timeout ih =>
    unfold spiWaitTxAvail
    infer_instance

instance chat_readwriteLoop (i : ℕ) : Keeps (Chat d) (readwriteLoop i) := by
  induction i with
  | zero => exact keeps_pure _
  | succ i ih =>
    unfold readwriteLoop
    infer_instance

instance chat_sdmmcReadwriteByte (b : Byte) [Idle b] :
    Keeps (Chat d) (sdmmcReadwriteByte d b) := by
  unfold sdmmcReadwriteByte
  infer_instance

instance chat_waitReadyLoop (i : ℕ) : Keeps (Chat d) (waitReadyLoop d i) := by
  induction i with
  | zero => exact keeps_pure _
  | succ i ih =>
    unfold waitReadyLoop
    infer_instance

instance chat_sdmmcWaitReady : Keeps (Chat d) (sdmmcWaitReady d) := by
  unfold sdmmcWaitReady
  infer_instance

instance chat_sdmmcSelect : Keeps (Chat d) (sdmmcSelect d deviceSs) :=
  chat_writeData ⟨by decide, by decide⟩

instance chat_sdmmcDeselect : Keeps (Chat d) (sdmmcDeselect d deviceSs) := by
  have hword : Keeps (Chat d) (writeData d (spiCmdDisableSs ||| deviceSs)) :=
    chat_writeData ⟨by decide, by decide⟩
  unfold sdmmcDeselect
  infer_instance

instance chat_getR1Loop (i : ℕ) : Keeps (Chat d) (getR1Loop d i) := by
  induction i with
  | zero => exact keeps_pure _
  | succ i ih =>
    unfold getR1Loop
    infer_instance

instance chat_waitR1Loop (r1 : Byte) (i : ℕ) : Keeps (Chat d) (waitR1Loop d r1 i) := by
  induction i with
  | zero => exact keeps_pure _
  | succ i ih =>
    unfold waitR1Loop
    infer_instance

instance chat_sdmmcWaitR1Response (r1 : Byte) (retry : ℕ) :
    Keeps (Chat d) (sdmmcWaitR1Response d r1 retry) := by
  induction retry with
  | zero => exact keeps_pure _
  | succ retry ih =>
    unfold sdmmcWaitR1Response
    infer_instance

instance chat_rxLoop (count b : ℕ) (crc : BitVec 16) : Keeps (Chat d) (rxLoop d count b crc) := by
  induction count generalizing b crc with
  | zero => exact keeps_pure _
  | succ count ih =>
    unfold rxLoop
    infer_instance

instance chat_sdmmcRxBuf (buf len : ℕ) : Keeps (Chat d) (sdmmcRxBuf d buf len) := by
  unfold sdmmcRxBuf
  infer_instance

instance chat_txRespLoop (i : ℕ) : Keeps (Chat d) (txRespLoop d i) := by
  induction i with
  | zero => exact keeps_pure _
  | succ i ih =>
    unfold txRespLoop
    infer_instance

instance chat_readBlocks (c b : ℕ) : Keeps (Chat d) (readBlocks d c b) := by
  induction c generalizing b with
  | zero => exact keeps_pure _
  | succ c ih =>
    unfold readBlocks
    infer_instance

instance chat_readAgain2 : Keeps (Chat d) (readAgain2 d) := by
  unfold readAgain2
  infer_instance

instance chat_writeAgain (ret : ℤ) : Keeps (Chat d) (writeAgain d ret) := by
  unfold writeAgain
  infer_instance

instance chat_writeDone (ret : ℤ) : Keeps (Chat d) (writeDone d ret) := by
  unfold writeDone
  infer_instance

end Chats

instance leads_sdmmcReadwriteByte (b : Byte) [Idle b] :
    Leads (Says d ok) (Stops d ok) (sdmmcReadwriteByte d b) := leads_of_chat inferInstance

instance leads_sdmmcWaitReady : Leads (Says d ok) (Stops d ok) (sdmmcWaitReady d) :=
  leads_of_chat inferInstance

instance leads_sdmmcSelect : Leads (Says d ok) (Stops d ok) (sdmmcSelect d deviceSs) :=
  leads_of_chat inferInstance

instance leads_sdmmcDeselect : Leads (Says d ok) (Stops d ok) (sdmmcDeselect d deviceSs) :=
  leads_of_chat inferInstance

instance leads_sdmmcRxBuf (buf len : ℕ) : Leads (Says d ok) (Stops d ok) (sdmmcRxBuf d buf len) :=
  leads_of_chat inferInstance

instance leads_readBlocks (c b : ℕ) : Leads (Says d ok) (Stops d ok) (readBlocks d c b) :=
  leads_of_chat inferInstance

instance leads_readAgain2 : Leads (Says d ok) (Stops d ok) (readAgain2 d) :=
  leads_of_chat inferInstance

instance leads_writeAgain (ret : ℤ) : Leads (Says d ok) (Stops d ok) (writeAgain d ret) :=
  leads_of_chat inferInstance

instance leads_writeDone (ret : ℤ) : Leads (Says d ok) (Stops d ok) (writeDone d ret) :=
  leads_of_chat inferInstance

/-- A byte of a block begins no command. -/
theorem leads_sendData (b : Byte) :
    Leads (Says d ok) (Stops d ok) (writeData d (spiCmdSend ||| b.setWidth 32)) :=
  leads_modify fun s => ⟨[_], wrote_writeData d _ s, .word (by revert b; decide) .nil⟩

instance leads_txLoop (count b : ℕ) : Leads (Says d ok) (Stops d ok) (txLoop d count b) := by
  induction count generalizing b with
  | zero => exact leads_pure _
  | succ count ih =>
    have havail : Leads (Says d ok) (Stops d ok) (spiWaitTxAvail 1 1000) :=
      leads_of_chat inferInstance
    have hload : Leads (Says d ok) (Stops d ok) (loadByte b) := leads_read _
    have hdata : ∀ b : Byte, Leads (Says d ok) (Stops d ok)
        (writeData d (spiCmdSend ||| b.setWidth 32)) := leads_sendData
    unfold txLoop
    infer_instance

instance leads_sdmmcTxBuf (buf len : ℕ) (token : Byte) [Idle token] :
    Leads (Says d ok) (Stops d ok) (sdmmcTxBuf d buf len token) := by
  have havail : Leads (Says d ok) (Stops d ok) (spiWaitTxAvail 2 1000) :=
    leads_of_chat inferInstance
  have hzero : Leads (Says d ok) (Stops d ok) (writeData d spiCmdSend) := leads_sendData 0
  have hresponse : Leads (Says d ok) (Stops d ok) (txRespLoop d (sdmmcTimeout <<< 6)) :=
    leads_of_chat inferInstance
  unfold sdmmcTxBuf
  infer_instance

instance leads_writeBlocks (c b : ℕ) (ret : ℤ) :
    Leads (Says d ok) (Stops d ok) (writeBlocks d c b ret) := by
  induction c generalizing b ret with
  | zero => exact leads_pure _
  | succ c ih =>
    unfold writeBlocks
    infer_instance

/-! ## Section 4: Commands -/

/-- Nothing was sent in between. -/
def Mute (s s' : Driver) : Prop := s'.sent = s.sent

instance : IsPreorder Driver Mute where
  refl _ := rfl
  trans _ _ _ h h' := h'.trans h

theorem mute_readwriteLoop (i : ℕ) : Keeps Mute (readwriteLoop i) := by
  have hread : Keeps Mute readReg := ⟨fun s => by
    unfold readReg
    split <;> rfl⟩
  induction i with
  | zero => exact keeps_pure _
  | succ i ih =>
    unfold readwriteLoop
    infer_instance

theorem wrote_sdmmcReadwriteByte {b : Byte} {v : Option ℤ}
    (h : sdmmcReadwriteByte d b s = (v, s₁)) :
    Wrote d [spiCmdSendReceive ||| b.setWidth 32] s s₁ := by
  have hsend : sendReceive d b s = (some ⟨⟩, (sendReceive d b s).2) := rfl
  rw [sdmmcReadwriteByte, bind_of_some hsend] at h
  exact (wrote_writeData d _ s).append (wrote_nil ((mute_readwriteLoop sdmmcTimeout).of_eq h))

/-- A program goes on with the words of `frame`, of which `pre` were sent before: it waits before
all of them are sent, or says only fillers behind them. -/
def GoesOn (d : ℕ) (frame : List (BitVec 32)) {α : Type} (pre : List (BitVec 32)) (p : Prog α) :
    Prop :=
  ∀ s v s', p s = (v, s') → ∃ said, Wrote d said s s' ∧
    (v = none ∧ (pre ++ said).length < frame.length ∨
      ∃ rest, pre ++ said = frame ++ rest ∧ ∀ w ∈ rest, Filler w)

/-- One more byte of a command. -/
theorem GoesOn.byte {α : Type} {frame pre : List (BitVec 32)} {b : Byte} {f : ℤ → Prog α}
    (hpre : (pre ++ [spiCmdSendReceive ||| b.setWidth 32]).length < frame.length ∨
      pre ++ [spiCmdSendReceive ||| b.setWidth 32] = frame)
    (hf : ∀ a, GoesOn d frame (pre ++ [spiCmdSendReceive ||| b.setWidth 32]) (f a)) :
    GoesOn d frame pre (sdmmcReadwriteByte d b >>= f) := by
  intro s v s' hrun
  cases hbyte : sdmmcReadwriteByte d b s with
  | mk a s₁ =>
    have hwrote := wrote_sdmmcReadwriteByte hbyte
    cases a with
    | none =>
      rw [bind_of_none hbyte] at hrun
      cases hrun
      refine ⟨_, hwrote, ?_⟩
      rcases hpre with hshort | hall
      · exact Or.inl ⟨rfl, hshort⟩
      · exact Or.inr ⟨[], by rw [hall, List.append_nil], List.forall_mem_nil _⟩
    | some a =>
      rw [bind_of_some hbyte] at hrun
      obtain ⟨said, hrest, hend⟩ := hf a s₁ v s' hrun
      refine ⟨_, hwrote.append hrest, ?_⟩
      rw [← List.append_assoc]
      exact hend

/-- **Commands.**  `sdmmc_send_cmd` sends its command and then only fillers, unless it waits before
the command is sent. -/
theorem sdmmcSendCmd_said {cmd : Byte} {arg : BitVec 32} {crc : Byte} {v : Option ℤ}
    (h : sdmmcSendCmd d cmd arg crc s = (v, s₁)) :
    ∃ said, Wrote d said s s₁ ∧ (v = none ∧ said.length < 6 ∨
      ∃ rest, said = frame cmd arg crc ++ rest ∧ ∀ w ∈ rest, Filler w) := by
  have hresponse : GoesOn d (frame cmd arg crc) (frame cmd arg crc) (sdmmcGetR1Response d) := by
    intro s v s' hrun
    obtain ⟨ws, hw, hf⟩ := (chat_getR1Loop (d := d) sdmmcTimeout).of_eq hrun
    exact ⟨ws, hw, Or.inr ⟨ws, rfl, hf⟩⟩
  have hbytes : GoesOn d (frame cmd arg crc) [] (sdmmcReadwriteByte d (cmd ||| 0x40) >>= fun _ =>
      sdmmcReadwriteByte d ((arg >>> 24).setWidth 8) >>= fun _ =>
      sdmmcReadwriteByte d ((arg >>> 16).setWidth 8) >>= fun _ =>
      sdmmcReadwriteByte d ((arg >>> 8).setWidth 8) >>= fun _ =>
      sdmmcReadwriteByte d (arg.setWidth 8) >>= fun _ =>
      sdmmcReadwriteByte d crc >>= fun _ => sdmmcGetR1Response d) := by
    refine .byte (Or.inl (by simp [frame])) fun _ => ?_
    refine .byte (Or.inl (by simp [frame])) fun _ => ?_
    refine .byte (Or.inl (by simp [frame])) fun _ => ?_
    refine .byte (Or.inl (by simp [frame])) fun _ => ?_
    refine .byte (Or.inl (by simp [frame])) fun _ => ?_
    exact .byte (Or.inr rfl) fun _ => hresponse
  have hnote : noteCmd cmd s = (some ⟨⟩, (noteCmd cmd s).2) := rfl
  rw [sdmmcSendCmd, bind_of_some hnote] at h
  obtain ⟨said, hw, hend⟩ := hbytes _ _ _ h
  exact ⟨said, hw, hend⟩

theorem leads_sdmmcSendCmd {cmd : Byte} {arg : BitVec 32} {crc : Byte} (hcmd : cmd < 0x40)
    (hok : ok cmd arg) : Leads (Says d ok) (Stops d ok) (sdmmcSendCmd d cmd arg crc) := by
  have hdialog : ∀ {rest : List (BitVec 32)}, (∀ w ∈ rest, Filler w) →
      Dialog ok (frame cmd arg crc ++ rest) := fun hf =>
    .command hok hcmd (dialog_of_forall fun w hw => (hf w hw).1)
  constructor
  · intro s a s' hrun
    obtain ⟨said, hw, ⟨hnone, -⟩ | ⟨rest, rfl, hf⟩⟩ := sdmmcSendCmd_said hrun
    · cases hnone
    · exact ⟨_, hw, hdialog hf⟩
  · intro s s' hrun
    obtain ⟨said, hw, ⟨-, hshort⟩ | ⟨rest, rfl, hf⟩⟩ := sdmmcSendCmd_said hrun
    · exact ⟨[], said, hw, .nil, hshort⟩
    · have hsays : Says d ok s s' := ⟨_, hw, hdialog hf⟩
      exact Continues.le s s' hsays

section Transfers

variable {addr count : BitVec 32}

theorem leads_readAgain (hstop : ok 12 0) : Leads (Says d ok) (Stops d ok) (readAgain d) := by
  have hcmd : Leads (Says d ok) (Stops d ok) (sdmmcSendCmd d 12 0 0x01) :=
    leads_sdmmcSendCmd (by decide) hstop
  unfold readAgain
  infer_instance

/-- The command that begins a read. -/
def readCmd (count : BitVec 32) : Byte := if count.toInt < 2 then 17 else 18

/-- The command that begins a write. -/
def writeCmd (count : BitVec 32) : Byte := if count.toInt < 2 then 24 else 25

theorem leads_readAttempt (hstop : ok 12 0) (hcmd : ok (readCmd count) addr) (buf : ℕ) :
    Leads (Says d ok) (Stops d ok) (readAttempt d addr count buf) := by
  have hstopCmd : Leads (Says d ok) (Stops d ok) (sdmmcSendCmd d 12 0 0x01) :=
    leads_sdmmcSendCmd (by decide) hstop
  have hagain := leads_readAgain (d := d) hstop
  unfold readAttempt
  unfold readCmd at hcmd
  by_cases hone : count.toInt < 2
  · rw [if_pos hone] at hcmd
    have hread : Leads (Says d ok) (Stops d ok) (sdmmcSendCmd d 17 addr 0x01) :=
      leads_sdmmcSendCmd (by decide) hcmd
    simp only [if_pos hone]
    infer_instance
  · rw [if_neg hone] at hcmd
    have hread : Leads (Says d ok) (Stops d ok) (sdmmcSendCmd d 18 addr 0x01) :=
      leads_sdmmcSendCmd (by decide) hcmd
    simp only [if_neg hone]
    infer_instance

theorem leads_readRetry (hstop : ok 12 0) (hcmd : ok (readCmd count) addr) (buf retry : ℕ) :
    Leads (Says d ok) (Stops d ok) (readRetry d addr count buf retry) := by
  have hattempt := leads_readAttempt (d := d) hstop hcmd buf
  induction retry with
  | zero => exact leads_pure _
  | succ retry ih =>
    unfold readRetry
    refine @leads_bind _ _ _ _ _ _ _ _ hattempt fun result => ?_
    cases result with
    | some ret => exact leads_pure ret
    | none => exact ih

theorem leads_writeAttempt (hcmd : ok (writeCmd count) addr) (buf : ℕ) :
    Leads (Says d ok) (Stops d ok) (writeAttempt d addr count buf) := by
  unfold writeAttempt
  unfold writeCmd at hcmd
  by_cases hone : count.toInt < 2
  · rw [if_pos hone] at hcmd
    have hwrite : Leads (Says d ok) (Stops d ok) (sdmmcSendCmd d 24 addr 0x01) :=
      leads_sdmmcSendCmd (by decide) hcmd
    simp only [if_pos hone]
    infer_instance
  · rw [if_neg hone] at hcmd
    have hwrite : Leads (Says d ok) (Stops d ok) (sdmmcSendCmd d 25 addr 0x01) :=
      leads_sdmmcSendCmd (by decide) hcmd
    simp only [if_neg hone]
    infer_instance

theorem leads_writeRetry (hcmd : ok (writeCmd count) addr) (buf retry : ℕ) (ret : ℤ) :
    Leads (Says d ok) (Stops d ok) (writeRetry d addr count buf retry ret) := by
  have hattempt := leads_writeAttempt (d := d) hcmd buf
  induction retry generalizing ret with
  | zero => exact leads_pure _
  | succ retry ih =>
    unfold writeRetry
    infer_instance

end Transfers

end Karnix.Sd
