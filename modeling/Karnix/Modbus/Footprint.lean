import Karnix.Audio.NoLoss
import Karnix.Modbus.Transport

/-!
# What a request touches

Beside `modbus_recv` and `modbus_store_reg` stand the cells they read and write: bytes of `rx_buf`,
of `tx_buf` and of the framebuffer, and samples in the ring of the DAC.  The lists follow the
source access by access, also where a value that is read is not used.

What a request does depends on no byte of `rx_buf` that is not listed.
-/

namespace Karnix.Modbus

open Karnix.Library
open Karnix.Config
open Karnix.Video
open Karnix.Audio

variable {b : Build}

/-! ## Section 1: Footprints -/

/-- The cells a piece of code reads and writes. -/
structure Footprint where
  rxReads : List ℕ := []
  rxWrites : List ℕ := []
  txWrites : List ℕ := []
  /-- Bytes of the framebuffer of the video mode. -/
  fbWrites : List ℕ := []
  ringWrites : List ℕ := []

instance : Append Footprint where
  append p q :=
    { rxReads := p.rxReads ++ q.rxReads
      rxWrites := p.rxWrites ++ q.rxWrites
      txWrites := p.txWrites ++ q.txWrites
      fbWrites := p.fbWrites ++ q.fbWrites
      ringWrites := p.ringWrites ++ q.ringWrites }

/-- `data[i]` is `rx_buf[7 + i]`. -/
def dataCells (is : List ℕ) : List ℕ := is.map fun i => 7 + i

/-- The samples `audiodac0_submit_buffer` writes for a buffer of `n`. -/
def submitWrites (n : ℕ) (d : AudioDac) : List ℕ :=
  if submitCheck d then
    if d.fillPtr ≥ d.playbackPtr then
      let lowPart := min n (d.ringSize - d.fillPtr)
      List.range' d.fillPtr lowPart ++ List.range (min (n - lowPart) d.playbackPtr)
    else List.range' d.fillPtr (min n (d.playbackPtr - d.fillPtr - 1))
  else []

/-- The words that hold the pixels of a frame.  The glyphs are clipped to the frame. -/
def drawnBytes (frame : Video.Frame) (pixelsPerWord : ℕ) : List ℕ :=
  List.range (4 * ((frame.width * frame.height + pixelsPerWord - 1) / pixelsPerWord))

/-- The size of the framebuffer of the video mode. -/
def Soc.fbSize (soc : Soc b) : ℕ :=
  if soc.regVideoMode = videoModeHub then hubFramebufferSize else cgaFramebufferSize

/-- `words_to_copy`: the words of a framebuffer write, at most a framebuffer full of them. -/
def Soc.wordsToCopy (soc : Soc b) (dataLen : ℕ) : ℕ := min soc.fbSize (dataLen - 2) / 4

/-- The bytes that `hub_print` or `cga_video_print` may write. -/
def Soc.drawn (soc : Soc b) : List ℕ :=
  if b.hasHub && soc.regVideoMode = videoModeHub then drawnBytes soc.hub.frame 4
  else if b.hasCgaGraphics && soc.regVideoMode = videoModeCgaGraphics then drawnBytes cgaFrame 16
  else []

/-- The data bytes read by the registers kept in the EEPROM. -/
def configReads (b : Build) : Reg → List ℕ
  | .hubType => if b.hasHub then [3] else []
  | .mbusAddr | .configOptions => [3]
  | .mbusBaud => List.range 4
  | .ipAddr | .gwAddr | .netmask => if b.hasMac then List.range 4 else []
  | .macAddr => if b.hasMac then List.range 6 else []
  | _ => []

/-- The `switch` of `modbus_store_reg`: what each of its cases reads and writes. -/
def switchFootprint (soc : Soc b) (reg : Option Reg) (data : Memory Byte) (dataLen : ℕ) :
    Footprint :=
  match reg with
  | some .clearText => { fbWrites := List.range' 0 soc.regVideoFrameSize.toNat }
  | some .audiodac0Buffer =>
    { rxReads := dataCells (List.range (2 * (dataLen / 2)))
      rxWrites := dataCells (List.range 4)
      ringWrites := submitWrites (dataLen / 2) soc.audiodac0 }
  | some .framebuffer =>
    { rxReads := dataCells (List.range (2 + 4 * soc.wordsToCopy dataLen))
      fbWrites := List.range' (be16 (data 0) (data 1)).toNat (4 * soc.wordsToCopy dataLen) }
  | some .printText =>
    -- position and font are read before the length is checked
    { rxReads := dataCells (List.range 6 ++ if dataLen < 1 then [] else List.range' 6 (dataLen - 6))
      fbWrites := if dataLen < 1 then [] else soc.drawn }
  | some .scratch | some .configWrite => { rxReads := dataCells (List.range 4) }
  | some .color | some .videoMode => { rxReads := dataCells [3] }
  | some reg => { rxReads := dataCells (configReads b reg) }
  | none => {}

/-- A configuration register while the lock is closed. -/
def Soc.Locked (soc : Soc b) (reg : BitVec 16) : Prop :=
  reg.toNat ≥ 40 ∧ reg.toNat < 50 ∧ soc.regConfigWrite = 0

instance (soc : Soc b) (reg : BitVec 16) : Decidable (soc.Locked reg) :=
  inferInstanceAs (Decidable (_ ∧ _))

/-- `modbus_store_reg`: nothing while the lock is closed to the register, else what its case does.
-/
def storeFootprint (soc : Soc b) (reg : BitVec 16) (data : Memory Byte) (dataLen : ℕ) :
    Footprint :=
  if soc.Locked reg then {} else switchFootprint soc (Reg.ofAddr? reg) data dataLen

/-- `modbus_error`: the five bytes of the reply. -/
def errorFootprint : Footprint := { txWrites := List.range' 0 5 }

/-- `case FUNC_ID`: the header and the text behind it. -/
def idFootprint (b : Build) : Footprint :=
  let len := b.idText.length
  { txWrites := List.range' 3 (len + 1) ++ List.range' 2 1 ++ List.range' (len + 3) 2 }

/-- The read functions: the header and the registers that are read into the reply. -/
def readFootprint (io : RequestIo) (soc : Soc b) (rx : Frame) : Footprint :=
  if rx.qty ≠ 1 then errorFootprint
  else
    match readReg io soc (Reg.ofAddr? rx.regAddr) with
    | some r =>
      { txWrites := List.range' r.pos r.bytes.length ++ List.range' 2 1 ++
          List.range' (r.len + 3) 2 }
    | none => { txWrites := List.range' 0 5 ++ List.range' 2 1 ++ List.range' (5 + 3) 2 }

/-- The answer of the write functions. -/
def answerFootprint (ret : ℤ) : Footprint :=
  if ret < 0 then errorFootprint
  else
    { rxReads := List.range' 2 4 ++ List.range' 7 ret.toNat
      txWrites := List.range' 2 4 ++ List.range' 6 ret.toNat ++ List.range' (6 + ret.toNat) 2 }

/-- `modbus_recv`, for a frame that it accepts. -/
def recvFootprint (io : RequestIo) (soc : Soc b) (rx : Frame) : Footprint :=
  { rxReads := List.range ((rx.len - 2) % 2 ^ 16) ++ [rx.len - 1, rx.len - 2, 0, 1, 2, 3, 4, 5]
    txWrites := List.range' 0 modbusTxBufSize ++ List.range' 0 2 } ++
  match Func.ofCode? rx.func with
  | some .id => idFootprint b
  | some .readCoils | some .readDiscInput | some .readHoldRegs => readFootprint io soc rx
  | some .writeOneHoldReg | some .writeOneCoilReg
  | some .writeManyHoldReg | some .writeManyCoilReg =>
    storeFootprint soc rx.regAddr rx.data rx.dataLen ++
      answerFootprint (modbusStoreReg io soc rx.regAddr rx.data rx.dataLen).ret
  | none => errorFootprint

/-! ## Section 2: The bytes of the request that matter -/

@[simp] theorem mem_dataCells {i : ℕ} {is : List ℕ} : 7 + i ∈ dataCells is ↔ i ∈ is := by
  simp [dataCells]

/-- Two outcomes of `modbus_store_reg` that are answered alike. -/
structure Stored.Same (st st' : Stored b) : Prop where
  ret : st.ret = st'.ret
  soc : st.soc = st'.soc
  answer : st.data.load 0 st.ret.toNat = st'.data.load 0 st.ret.toNat

/-- A register that puts no answer into the request. -/
theorem Stored.Same.of_eq {ret : ℤ} (hret : ret ≤ 0) {data data' : Memory Byte}
    {soc soc' : Soc b} (hsoc : soc = soc') : Stored.Same ⟨ret, data, soc⟩ ⟨ret, data', soc'⟩ := by
  refine ⟨rfl, hsoc, ?_⟩
  rw [Int.toNat_of_nonpos hret]
  rfl

theorem be32_congr {data data' : Memory Byte} (h : ∀ i ∈ List.range 4, data i = data' i) :
    be32 (data 0) (data 1) (data 2) (data 3) = be32 (data' 0) (data' 1) (data' 2) (data' 3) := by
  rw [h 0 (by decide), h 1 (by decide), h 2 (by decide), h 3 (by decide)]

theorem memcpyRev_congr {data data' : Memory Byte} (h : ∀ i ∈ List.range 4, data i = data' i) :
    memcpyRev data 3 4 = memcpyRev data' 3 4 := by
  apply List.map_congr_left
  intro k hk
  exact h (3 - k) (List.mem_range.mpr (Nat.lt_of_le_of_lt (Nat.sub_le 3 k) (by decide)))

theorem configField?_congr {data data' : Memory Byte} {r : Reg}
    (h : ∀ i ∈ configReads b r, data i = data' i) :
    configField? b data r = configField? b data' r := by
  cases r with
  | framebuffer | sysCounter | irqCounter | scratch | printText | clearText | color | videoMode
  | audiodac0Buffer | configWrite | reboot => rfl
  | mbusAddr | configOptions =>
    simp only [configField?, h 3 (List.mem_singleton_self 3)]
  | mbusBaud => simp only [configField?, be32_congr h]
  | hubType =>
    by_cases hhub : b.hasHub = true
    · simp only [configReads, hhub, if_true, List.mem_singleton, forall_eq] at h
      simp only [configField?, hhub, if_true, h]
    · simp [configField?, hhub]
  | ipAddr | gwAddr | netmask =>
    by_cases hmac : b.hasMac = true
    · simp only [configReads, hmac, if_true] at h
      simp only [configField?, hmac, if_true, memcpyRev_congr h]
    · simp [configField?, hmac]
  | macAddr =>
    by_cases hmac : b.hasMac = true
    · simp only [configReads, hmac, if_true] at h
      have hload : data.load 0 6 = data'.load 0 6 :=
        Memory.load_congr fun i hi => by
          rw [Nat.zero_add]
          exact h i (List.mem_range.mpr hi)
      simp only [configField?, hmac, if_true, hload]
    · simp [configField?, hmac]

theorem storeAudio_congr {io : RequestIo} {soc : Soc b} {data data' : Memory Byte} {dataLen : ℕ}
    (h : ∀ i ∈ List.range (2 * (dataLen / 2)), data i = data' i) :
    (storeAudio io soc data dataLen).Same (storeAudio io soc data' dataLen) := by
  have hsamples :
      ((List.range (dataLen / 2)).map fun i => be16 (data (i * 2)) (data (i * 2 + 1))) =
        (List.range (dataLen / 2)).map fun i => be16 (data' (i * 2)) (data' (i * 2 + 1)) := by
    apply List.map_congr_left
    intro i hi
    have hlt := List.mem_range.mp hi
    rw [h (i * 2) (List.mem_range.mpr (by omega)), h (i * 2 + 1) (List.mem_range.mpr (by omega))]
  unfold storeAudio
  rw [hsamples]
  refine ⟨rfl, rfl, ?_⟩
  -- the four bytes of the answer were just written
  exact (Memory.load_store_self data 0 _).trans (Memory.load_store_self data' 0 _).symm

/-- The word that `REG_FRAMEBUFFER` copies in round `i` of its loop. -/
def fbWord (data : Memory Byte) (i : ℕ) : BitVec 32 :=
  be32 (data (2 + i * 4 + 3)) (data (2 + i * 4 + 2)) (data (2 + i * 4 + 1)) (data (2 + i * 4))

theorem storeFramebuffer_eq (soc : Soc b) (data : Memory Byte) (dataLen : ℕ) :
    storeFramebuffer soc data dataLen =
      soc.setFb ((List.range (soc.wordsToCopy dataLen)).foldl (fun fb i =>
        writeWord fb ((be16 (data 0) (data 1)).toNat + i * 4) (fbWord data i)) soc.fb) := rfl

theorem storeFramebuffer_congr {soc : Soc b} {data data' : Memory Byte} {dataLen : ℕ}
    (h : ∀ i ∈ List.range (2 + 4 * soc.wordsToCopy dataLen), data i = data' i) :
    storeFramebuffer soc data dataLen = storeFramebuffer soc data' dataLen := by
  rw [storeFramebuffer_eq, storeFramebuffer_eq]
  generalize soc.wordsToCopy dataLen = words at h
  have hbyte : ∀ i < 2 + 4 * words, data i = data' i := fun i hi => h i (List.mem_range.mpr hi)
  rw [hbyte 0 (by omega), hbyte 1 (by omega)]
  refine congrArg soc.setFb (List.foldl_ext _ _ _ ?_)
  intro fb i hi
  have hlt : i < words := List.mem_range.mp hi
  have hword : fbWord data i = fbWord data' i := by
    unfold fbWord
    rw [hbyte (2 + i * 4 + 3) (by omega), hbyte (2 + i * 4 + 2) (by omega),
      hbyte (2 + i * 4 + 1) (by omega), hbyte (2 + i * 4) (by omega)]
  rw [hword]

theorem storePrintText_congr {soc : Soc b} {data data' : Memory Byte} {dataLen : ℕ}
    (h : ∀ i ∈ List.range 6, data i = data' i)
    (htext : ∀ i ∈ List.range' 6 (dataLen - 6), data i = data' i) :
    storePrintText soc data dataLen = storePrintText soc data' dataLen := by
  have hload : data.load 6 (dataLen - 6) = data'.load 6 (dataLen - 6) :=
    Memory.load_congr fun i hi =>
      htext (6 + i) (List.mem_range'_1.mpr ⟨Nat.le_add_right 6 i, Nat.add_lt_add_left hi 6⟩)
  simp only [storePrintText, h 0 (by decide), h 1 (by decide), h 2 (by decide), h 3 (by decide),
    h 4 (by decide), h 5 (by decide), hload]

theorem storeConfig_ret_le (io : RequestIo) (soc : Soc b) (f : Field) (xs : List Byte) :
    (storeConfig io soc f xs).1 ≤ 0 := by
  rcases storeConfig_ret io soc f xs with hret | hret
  · exact hret.le
  · rw [hret]
    decide

theorem storeSwitch_congr (io : RequestIo) (soc : Soc b) (reg : Option Reg)
    {data data' : Memory Byte} {dataLen : ℕ}
    (h : ∀ i, 7 + i ∈ (switchFootprint soc reg data dataLen).rxReads → data i = data' i) :
    (storeSwitch io soc reg data dataLen).Same (storeSwitch io soc reg data' dataLen) := by
  cases reg with
  | none => exact Stored.Same.of_eq (by decide) rfl
  | some r =>
    cases r with
    | clearText | reboot => exact Stored.Same.of_eq (le_refl 0) rfl
    | audiodac0Buffer => exact storeAudio_congr fun i hi => h i (mem_dataCells.mpr hi)
    | framebuffer =>
      exact Stored.Same.of_eq (le_refl 0)
        (storeFramebuffer_congr fun i hi => h i (mem_dataCells.mpr hi))
    | printText =>
      simp only [storeSwitch]
      simp only [switchFootprint] at h
      split_ifs at h ⊢ with hshort
      · exact Stored.Same.of_eq (by decide) rfl
      · exact Stored.Same.of_eq (le_refl 0) (storePrintText_congr
          (fun i hi => h i (mem_dataCells.mpr (List.mem_append_left _ hi)))
          fun i hi => h i (mem_dataCells.mpr (List.mem_append_right _ hi)))
    | scratch | configWrite =>
      refine Stored.Same.of_eq (le_refl 0) ?_
      rw [be32_congr fun i hi => h i (mem_dataCells.mpr hi)]
    | color | videoMode =>
      refine Stored.Same.of_eq (le_refl 0) ?_
      rw [h 3 (mem_dataCells.mpr (List.mem_singleton_self 3))]
    | hubType =>
      simp only [storeSwitch]
      split_ifs with hhub
      · have hread : 3 ∈ configReads b .hubType := by simp [configReads, hhub]
        rw [h 3 (mem_dataCells.mpr hread)]
        cases hubInit (data' 3).toNat soc.hub with
        | none => exact Stored.Same.of_eq (by decide) rfl
        | some hub => exact Stored.Same.of_eq (storeConfig_ret_le io _ _ _) rfl
      · exact Stored.Same.of_eq (by decide) rfl
    | sysCounter | irqCounter | ipAddr | gwAddr | netmask | mbusAddr | mbusBaud | macAddr
    | configOptions =>
      simp only [storeSwitch]
      rw [configField?_congr fun i hi => h i (mem_dataCells.mpr hi)]
      split
      · exact Stored.Same.of_eq (storeConfig_ret_le io soc _ _) rfl
      · exact Stored.Same.of_eq (by decide) rfl

theorem modbusStoreReg_of_locked (io : RequestIo) {soc : Soc b} {reg : BitVec 16}
    (h : soc.Locked reg) (data : Memory Byte) (dataLen : ℕ) :
    modbusStoreReg io soc reg data dataLen = ⟨-2, data, soc⟩ := if_pos h

theorem modbusStoreReg_of_not_locked (io : RequestIo) {soc : Soc b} {reg : BitVec 16}
    (h : ¬ soc.Locked reg) (data : Memory Byte) (dataLen : ℕ) :
    modbusStoreReg io soc reg data dataLen =
      storeSwitch io soc (Reg.ofAddr? reg) data dataLen := if_neg h

theorem modbusStoreReg_congr (io : RequestIo) (soc : Soc b) (reg : BitVec 16)
    {data data' : Memory Byte} {dataLen : ℕ}
    (h : ∀ i, 7 + i ∈ (storeFootprint soc reg data dataLen).rxReads → data i = data' i) :
    (modbusStoreReg io soc reg data dataLen).Same (modbusStoreReg io soc reg data' dataLen) := by
  by_cases hlocked : soc.Locked reg
  · rw [modbusStoreReg_of_locked io hlocked, modbusStoreReg_of_locked io hlocked]
    exact Stored.Same.of_eq (by decide) rfl
  · unfold storeFootprint at h
    rw [if_neg hlocked] at h
    rw [modbusStoreReg_of_not_locked io hlocked, modbusStoreReg_of_not_locked io hlocked]
    exact storeSwitch_congr io soc (Reg.ofAddr? reg) h

theorem writeReply_congr {rx rx' : Frame} {st st' : Stored b} (h : st.Same st')
    (hfunc : rx.func = rx'.func) (hheader : rx.buf.load 2 4 = rx'.buf.load 2 4)
    (tx : Memory Byte) : writeReply rx st tx = writeReply rx' st' tx := by
  obtain ⟨hret, hsoc, hanswer⟩ := h
  unfold writeReply
  rw [hfunc, hheader, hsoc, ← hret]
  split_ifs
  · rfl
  · rfl
  · simp only [hanswer]

/-- What a request does depends only on the bytes of `rx_buf` that it reads. -/
theorem accept_congr {io : RequestIo} {soc : Soc b} {rx rx' : Frame} (hlen : rx.len = rx'.len)
    (h : ∀ i ∈ (recvFootprint io soc rx).rxReads, rx.buf i = rx'.buf i) (tx : Memory Byte) :
    accept io soc rx tx = accept io soc rx' tx := by
  have hhead : ∀ i ∈ [0, 1, 2, 3, 4, 5], rx.buf i = rx'.buf i := fun i hi =>
    h i (List.mem_append_left _ (List.mem_append_right _
      (List.mem_cons_of_mem _ (List.mem_cons_of_mem _ hi))))
  have hfunc : rx.func = rx'.func := hhead 1 (by decide)
  have hreg : rx.regAddr = rx'.regAddr := by
    unfold Frame.regAddr
    rw [hhead 2 (by decide), hhead 3 (by decide)]
  have hqty : rx.qty = rx'.qty := by
    unfold Frame.qty
    rw [hhead 4 (by decide), hhead 5 (by decide)]
  have hheader : rx.buf.load 2 4 = rx'.buf.load 2 4 := by
    apply Memory.load_congr
    intro i hi
    interval_cases i
    exacts [hhead 2 (by decide), hhead 3 (by decide), hhead 4 (by decide), hhead 5 (by decide)]
  have hstart : txStart soc rx tx = txStart soc rx' tx := by
    unfold txStart
    rw [hfunc]
  have hread : ∀ t, readReply io soc rx t = readReply io soc rx' t := by
    intro t
    unfold readReply
    rw [hqty, hfunc, hreg]
  have hdataLen : rx.dataLen = rx'.dataLen := by
    unfold Frame.dataLen
    rw [hlen]
  have hrest := fun i hi => h i (List.mem_append_right _ hi)
  unfold accept
  simp only [hstart, ← hfunc]
  cases hf : Func.ofCode? rx.func with
  | none => rfl
  | some f =>
    rw [hf] at hrest
    cases f with
    | id => rfl
    | readCoils | readDiscInput | readHoldRegs => simp only [hread]
    | writeOneCoilReg | writeOneHoldReg | writeManyCoilReg | writeManyHoldReg =>
      have hsame : (modbusStoreReg io soc rx.regAddr rx.data rx.dataLen).Same
          (modbusStoreReg io soc rx.regAddr rx'.data rx.dataLen) :=
        modbusStoreReg_congr io soc rx.regAddr fun i hi =>
          hrest (7 + i) (List.mem_append_left _ hi)
      rw [← hreg, ← hdataLen]
      simp only [hsame.soc, writeReply_congr hsame hfunc hheader]

end Karnix.Modbus
