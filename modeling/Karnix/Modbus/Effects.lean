import Karnix.Modbus.Footprint

/-!
# What a request changes

No cell changes that is not in the footprint of the request, and of the variables only the
register it addresses.
-/

namespace Karnix.Modbus

open Karnix.Library
open Karnix.Config
open Karnix.Video
open Karnix.Audio

variable {b : Build}

/-! ## Section 1: Drawing -/

theorem mem_drawnBytes {frame : Video.Frame} {x y n j : ℕ} (hx : x < frame.width)
    (hy : y < frame.height) (hj : j < 4) (hn : 0 < n) :
    4 * ((y * frame.width + x) / n) + j ∈ drawnBytes frame n := by
  have hpixel : y * frame.width + x < frame.width * frame.height :=
    calc y * frame.width + x < y * frame.width + frame.width := Nat.add_lt_add_left hx _
      _ = frame.width * (y + 1) := by rw [Nat.mul_succ, Nat.mul_comm]
      _ ≤ frame.width * frame.height := Nat.mul_le_mul_left _ hy
  -- the word of a pixel is below the number of words, rounded up
  have hword : (y * frame.width + x) / n <
      (frame.width * frame.height + n - 1) / n := by
    refine Nat.lt_of_lt_of_le (Nat.lt_succ_self _) ?_
    rw [Nat.succ_eq_add_one, ← Nat.add_div_right _ hn]
    exact Nat.div_le_div_right (by omega)
  exact List.mem_range.mpr (by omega)

theorem writeWord_keeps {fb : Memory Byte} {a k : ℕ} (w : BitVec 32)
    (h : ∀ j < 4, k ≠ a + j) : writeWord fb a w k = fb k := by
  refine Memory.store_of_notMem fb (n := 4) rfl ?_
  rw [List.mem_range'_1]
  rintro ⟨hlow, hhigh⟩
  exact h (k - a) (by omega) (by omega)

/-- A pixel routine that writes only the word of its pixel, as far as `k` is concerned. -/
def DrawKeeps (draw : Memory Byte → ℕ → ℕ → Bool → Memory Byte) (frame : Video.Frame) (k : ℕ) :
    Prop :=
  ∀ fb x y lit, x < frame.width → y < frame.height → draw fb x y lit k = fb k

theorem printChar_keeps {draw : Memory Byte → ℕ → ℕ → Bool → Memory Byte} {frame : Video.Frame}
    {k : ℕ} (h : DrawKeeps draw frame k) (font : Font) (c : Byte) (x y : ℤ) (fb : Memory Byte) :
    printChar draw frame font c x y fb k = fb k := by
  -- each loop keeps what its body keeps
  refine Memory.foldl_keeps ?_ fb
  intro fb line _
  refine Memory.foldl_keeps ?_ fb
  intro fb col _
  split_ifs with hx
  · refine Memory.foldl_keeps ?_ fb
    intro fb bit _
    split_ifs with hy
    · exact h fb _ _ _ (by omega) (by omega)
    · rfl
  · rfl

theorem hubDrawPixel_keeps (hubType : ℕ) (color : Byte) {frame : Video.Frame} {k : ℕ}
    (hk : k ∉ drawnBytes frame 4) : DrawKeeps (hubDrawPixel hubType color frame) frame k := by
  intro fb x y lit hx hy
  simp only [hubDrawPixel]
  by_cases htwelve : hubType = 12
  · -- 32 pixels in a word: the word belongs to an earlier pixel as well, at four in a word
    rw [if_pos htwelve]
    refine writeWord_keeps _ fun j hj hkj => hk ?_
    have hmem : 4 * ((y * frame.width + x) / 4) + 3 ∈ drawnBytes frame 4 :=
      mem_drawnBytes hx hy (by decide) (by decide)
    refine List.mem_range.mpr (Nat.lt_of_le_of_lt ?_ (List.mem_range.mp hmem))
    omega
  · rw [if_neg htwelve]
    split_ifs
    · exact writeWord_keeps _ fun j hj hkj => hk (hkj ▸ mem_drawnBytes hx hy hj (by decide))
    · exact writeWord_keeps _ fun j hj hkj => hk (hkj ▸ mem_drawnBytes hx hy hj (by decide))
    · rfl

theorem cgaDrawPixel_keeps (colors : Byte) {frame : Video.Frame} {k : ℕ}
    (hk : k ∉ drawnBytes frame 16) : DrawKeeps (cgaDrawPixel colors frame) frame k := by
  intro fb x y lit hx hy
  exact writeWord_keeps _ fun j hj hkj => hk (hkj ▸ mem_drawnBytes hx hy hj (by decide))

theorem hubPrint_keeps {frame : Video.Frame} {k : ℕ} (hk : k ∉ drawnBytes frame 4) (x y : ℤ)
    (color : BitVec 32) (text : List Byte) (font : Font) (hub : Memory Byte) :
    hubPrint frame x y color text font hub k = hub k := by
  refine Memory.foldl_keeps ?_ hub
  intro hub' _ _
  exact printChar_keeps (hubDrawPixel_keeps _ _ hk) font _ _ y hub'

theorem cgaVideoPrint_keeps {k : ℕ} (hk : k ∉ drawnBytes cgaFrame 16) (x y : ℤ)
    (colors : BitVec 32) (text : List Byte) (font : Font) (cga : Memory Byte) :
    cgaVideoPrint x y colors text font cga k = cga k := by
  refine Memory.foldl_keeps ?_ cga
  intro cga' _ _
  exact printChar_keeps (cgaDrawPixel_keeps _ hk) font _ _ y cga'

/-! ## Section 2: The ring of the DAC -/

theorem audiodac0Isr_ring (hw : DacStatus) (d : AudioDac) :
    (audiodac0Isr hw d).2.ring = d.ring ∧ (audiodac0Isr hw d).2.ringNull = d.ringNull := by
  simp only [audiodac0Isr, AudioDac.play]
  split_ifs <;> exact ⟨rfl, rfl⟩

theorem submitCopy_ring (buf : List Sample) {d : AudioDac} (hcheck : submitCheck d = true) {i : ℕ}
    (hi : i ∉ submitWrites buf.length d) : (submitCopy buf d).2.ring i = d.ring i := by
  unfold submitWrites at hi
  rw [if_pos hcheck] at hi
  unfold submitCopy
  split_ifs at hi ⊢ with hahead
  · simp only
    obtain ⟨hlow, hhigh⟩ := not_or.mp (mt List.mem_append.mpr hi)
    have htake : ∀ n, (buf.take (min buf.length n)).length = min buf.length n := fun n => by simp
    have hfirst := Memory.store_of_notMem d.ring (htake (d.ringSize - d.fillPtr)) hlow
    split_ifs
    · -- the second part starts at the first cell of the ring
      rw [List.range_eq_range'] at hhigh
      refine (Memory.store_of_notMem _ ?_ hhigh).trans hfirst
      simp
    · exact hfirst
  · have htake : (buf.take (min buf.length (d.playbackPtr - d.fillPtr - 1))).length =
        min buf.length (d.playbackPtr - d.fillPtr - 1) := by simp
    exact Memory.store_of_notMem d.ring htake hi

theorem submitBuffer_ring (buf : List Sample) (restart : Option DacStatus) {d : AudioDac} {i : ℕ}
    (hi : i ∉ submitWrites buf.length d) :
    (audiodac0SubmitBuffer buf restart d).2.ring i = d.ring i := by
  unfold audiodac0SubmitBuffer submitCritical
  split_ifs with hcheck
  · cases restart with
    | none => exact submitCopy_ring buf hcheck hi
    | some hw =>
      rw [(audiodac0Isr_ring hw _).1]
      exact submitCopy_ring buf hcheck hi
  · rfl

/-! ## Section 3: The variables -/

/-- The framebuffer of the video mode changes in the given bytes only, and the window of the other
controller not at all. -/
def FbKept (cells : List ℕ) (soc soc' : Soc b) : Prop :=
  if soc.regVideoMode = videoModeHub then
    (∀ a ∉ cells, soc'.hub.window a = soc.hub.window a) ∧ soc'.cga = soc.cga
  else (∀ a ∉ cells, soc'.cga a = soc.cga a) ∧ soc'.hub.window = soc.hub.window

/-- What a write of `reg` may change: the register it addresses, the stored configuration if it is
one of its registers, and the cells of its footprint. -/
structure Addressed (cells : Footprint) (reg : Option Reg) (soc soc' : Soc b) : Prop where
  activeConfig : soc'.activeConfig = soc.activeConfig
  counters : soc'.regSysCounter = soc.regSysCounter ∧ soc'.regIrqCounter = soc.regIrqCounter
  scratch : reg ≠ some .scratch → soc'.regScratch = soc.regScratch
  configWrite : reg ≠ some .configWrite → soc'.regConfigWrite = soc.regConfigWrite
  color : reg ≠ some .color → soc'.regColor = soc.regColor
  videoMode : reg ≠ some .videoMode →
    soc'.regVideoMode = soc.regVideoMode ∧ soc'.regVideoFrameSize = soc.regVideoFrameSize
  hubFrame : reg ≠ some .hubType → soc'.hub.frame = soc.hub.frame
  framebuffer : reg ≠ some .hubType → FbKept cells.fbWrites soc soc'
  /-- A new matrix type changes the control registers of the HUB controller. -/
  hubType : reg = some .hubType →
    (∀ a < hubControlAddr, soc'.hub.window a = soc.hub.window a) ∧ soc'.cga = soc.cga
  audiodac0 : reg ≠ some .audiodac0Buffer → soc'.audiodac0 = soc.audiodac0
  ring : ∀ i ∉ cells.ringWrites, soc'.audiodac0.ring i = soc.audiodac0.ring i
  eeprom : (∀ r, reg = some r → configReads b r = []) → soc'.eeprom = soc.eeprom
  reboot : reg ≠ some .reboot → soc'.reboot = soc.reboot
  countDown : soc'.countDown = soc.countDown

theorem FbKept.refl (cells : List ℕ) (soc : Soc b) : FbKept cells soc soc := by
  unfold FbKept
  split_ifs <;> exact ⟨fun _ _ => rfl, rfl⟩

theorem Addressed.refl (cells : Footprint) (reg : Option Reg) (soc : Soc b) :
    Addressed cells reg soc soc where
  activeConfig := rfl
  counters := ⟨rfl, rfl⟩
  scratch := fun _ => rfl
  configWrite := fun _ => rfl
  color := fun _ => rfl
  videoMode := fun _ => ⟨rfl, rfl⟩
  hubFrame := fun _ => rfl
  framebuffer := fun _ => FbKept.refl _ soc
  hubType := fun _ => ⟨fun _ _ => rfl, rfl⟩
  audiodac0 := fun _ => rfl
  ring := fun _ _ => rfl
  eeprom := fun _ => rfl
  reboot := fun _ => rfl
  countDown := rfl

theorem addressed_setFb {cells : Footprint} {reg : Option Reg} {soc : Soc b} {fb : Memory Byte}
    (hreg : reg ≠ some .hubType) (h : ∀ a ∉ cells.fbWrites, fb a = soc.fb a) :
    Addressed cells reg soc (soc.setFb fb) := by
  have hrefl := Addressed.refl cells reg soc
  unfold Soc.fb at h
  unfold Soc.setFb
  split_ifs at h ⊢ with hmode
  · refine { hrefl with framebuffer := fun _ => ?_, hubType := fun heq => absurd heq hreg }
    unfold FbKept
    rw [if_pos hmode]
    exact ⟨h, rfl⟩
  · refine { hrefl with framebuffer := fun _ => ?_, hubType := fun heq => absurd heq hreg }
    unfold FbKept
    rw [if_neg hmode]
    exact ⟨h, rfl⟩

theorem addressed_printText (soc : Soc b) (data : Memory Byte) {dataLen : ℕ} {cells : Footprint}
    (hcells : cells.fbWrites = soc.drawn) :
    Addressed cells (some .printText) soc (storePrintText soc data dataLen) := by
  have hrefl := Addressed.refl cells (some .printText) soc
  unfold Soc.drawn at hcells
  simp only [storePrintText]
  -- both fonts are clipped alike
  generalize (if be16 (data 4) (data 5) = 0 then (⟨b.font6x8, 6, 8⟩ : Font)
    else ⟨b.font12x16, 12, 16⟩) = font
  split_ifs at hcells ⊢ with hhub hcga
  · refine { hrefl with framebuffer := fun _ => ?_, hubType := fun heq => absurd heq (by decide) }
    simp only [Bool.and_eq_true, decide_eq_true_eq] at hhub
    unfold FbKept
    rw [if_pos hhub.2, hcells]
    exact ⟨fun a ha => hubPrint_keeps ha _ _ _ _ _ _, rfl⟩
  · refine { hrefl with framebuffer := fun _ => ?_, hubType := fun heq => absurd heq (by decide) }
    simp only [Bool.and_eq_true, decide_eq_true_eq] at hcga
    have hmode : soc.regVideoMode ≠ videoModeHub := by
      rw [hcga.2]
      decide
    unfold FbKept
    rw [if_neg hmode, hcells]
    exact ⟨fun a ha => cgaVideoPrint_keeps ha _ _ _ _ _ _, rfl⟩
  · exact hrefl

theorem addressed_framebuffer (soc : Soc b) (data : Memory Byte) (dataLen : ℕ) :
    Addressed (switchFootprint soc (some .framebuffer) data dataLen) (some .framebuffer) soc
      (storeFramebuffer soc data dataLen) := by
  rw [storeFramebuffer_eq]
  refine addressed_setFb (by decide) fun a ha => ?_
  refine Memory.foldl_keeps ?_ soc.fb
  intro fb i hi
  refine writeWord_keeps _ fun j hj haj => ha ?_
  have hlt : i < soc.wordsToCopy dataLen := List.mem_range.mp hi
  exact List.mem_range'_1.mpr ⟨by omega, by omega⟩

/-- `hub_init` writes to the control registers only. -/
theorem hubInit_window {type : ℕ} {hub hub' : HubState} (h : hubInit type hub = some hub') :
    ∀ a < hubControlAddr, hub'.window a = hub.window a := by
  intro a ha
  obtain ⟨c, -, rfl⟩ := Option.map_eq_some_iff.mp h
  have hword : ∀ (m : Memory Byte) w (n : ℕ), writeWord m (hubControlAddr + n) w a = m a :=
    fun m w n => Memory.store_of_lt m _ (Nat.lt_add_right n ha)
  refine (hword _ _ 0).trans ((Memory.foldl_keeps ?_ _).trans (hword _ _ 0))
  intro m i _
  exact Memory.store_of_lt m _ (Nat.lt_add_right _ (Nat.lt_add_right _ ha))

/-- The block of the configuration registers. -/
theorem addressed_storeConfig (io : RequestIo) {cells : Footprint} {r : Reg} {soc soc' : Soc b}
    (h : Addressed cells (some r) soc soc') (hr : configReads b r ≠ []) (f : Field)
    (xs : List Byte) : Addressed cells (some r) soc (storeConfig io soc' f xs).2 :=
  { h with eeprom := fun hno => absurd (hno r rfl) hr }

theorem configReads_ne_nil {data : Memory Byte} {r : Reg} {p : Field × List Byte}
    (h : configField? b data r = some p) : configReads b r ≠ [] := by
  intro hnil
  cases r <;> simp [configField?] at h <;> simp_all [configReads]

/-- **What `modbus_store_reg` changes.** -/
theorem storeSwitch_addressed (io : RequestIo) (soc : Soc b) (reg : Option Reg)
    (data : Memory Byte) (dataLen : ℕ) :
    Addressed (switchFootprint soc reg data dataLen) reg soc
      (storeSwitch io soc reg data dataLen).soc := by
  have hrefl : ∀ cells reg, Addressed cells reg soc soc := fun cells reg =>
    Addressed.refl cells reg soc
  cases reg with
  | none => exact hrefl _ _
  | some r =>
    cases r with
    | clearText =>
      exact addressed_setFb (by decide) fun a ha => Memory.fill_of_notMem soc.fb 0 ha
    | audiodac0Buffer =>
      refine { hrefl _ _ with audiodac0 := fun hne => absurd rfl hne, ring := fun i hi => ?_ }
      refine submitBuffer_ring _ io.dac ?_
      rwa [List.length_map, List.length_range]
    | framebuffer => exact addressed_framebuffer soc data dataLen
    | printText =>
      simp only [storeSwitch]
      split_ifs with hshort
      · exact hrefl _ _
      · refine addressed_printText soc data ?_
        simp only [switchFootprint]
        rw [if_neg hshort]
    | scratch => exact { hrefl _ _ with scratch := fun hne => absurd rfl hne }
    | configWrite => exact { hrefl _ _ with configWrite := fun hne => absurd rfl hne }
    | color => exact { hrefl _ _ with color := fun hne => absurd rfl hne }
    | videoMode => exact { hrefl _ _ with videoMode := fun hne => absurd rfl hne }
    | reboot => exact { hrefl _ _ with reboot := fun hne => absurd rfl hne }
    | hubType =>
      simp only [storeSwitch]
      split_ifs with hhub
      · cases hinit : hubInit (data 3).toNat soc.hub with
        | none => exact hrefl _ _
        | some hub =>
          have hset : Addressed (switchFootprint soc (some .hubType) data dataLen) (some .hubType)
              soc { soc with hub := hub } :=
            { hrefl _ _ with
              hubFrame := fun hne => absurd rfl hne
              framebuffer := fun hne => absurd rfl hne
              hubType := fun _ => ⟨hubInit_window hinit, rfl⟩ }
          exact addressed_storeConfig io hset (by simp [configReads, hhub]) _ _
      · exact hrefl _ _
    | sysCounter | irqCounter | ipAddr | gwAddr | netmask | mbusAddr | mbusBaud | macAddr
    | configOptions =>
      simp only [storeSwitch]
      split
      · next f xs hf =>
        exact addressed_storeConfig io (hrefl _ _) (configReads_ne_nil hf) f xs
      · exact hrefl _ _

/-- The answer of `REG_AUDIODAC0_BUFFER` is all that changes in the request. -/
theorem storeSwitch_data (io : RequestIo) (soc : Soc b) (reg : Option Reg) (data : Memory Byte)
    (dataLen : ℕ) {k : ℕ} (hk : 7 + k ∉ (switchFootprint soc reg data dataLen).rxWrites) :
    (storeSwitch io soc reg data dataLen).data k = data k := by
  cases reg with
  | none => rfl
  | some r =>
    cases r with
    | audiodac0Buffer =>
      rw [switchFootprint, mem_dataCells, List.range_eq_range'] at hk
      have hfour : ∀ x₀ x₁ x₂ x₃ : Byte, [x₀, x₁, x₂, x₃].length = 4 := fun _ _ _ _ => rfl
      exact Memory.store_of_notMem data (hfour _ _ _ _) hk
    | printText =>
      simp only [storeSwitch]
      split_ifs <;> rfl
    | hubType =>
      simp only [storeSwitch]
      split_ifs
      · cases hubInit (data 3).toNat soc.hub <;> rfl
      · rfl
    | clearText | framebuffer | scratch | configWrite | color | videoMode | reboot => rfl
    | sysCounter | irqCounter | ipAddr | gwAddr | netmask | mbusAddr | mbusBaud | macAddr
    | configOptions =>
      simp only [storeSwitch]
      split <;> rfl

/-! ## Section 4: The transmit buffer -/

theorem addCrc_keeps (tx : Memory Byte) {n k : ℕ} (h : k ∉ List.range' n 2) :
    addCrc tx n k = tx k := by
  have htwo : ∀ w : BitVec 16, (leBytes16 w).length = 2 := fun _ => rfl
  exact Memory.store_of_notMem tx (htwo _) h

theorem modbusError_keeps (soc : Soc b) (f errCode : Byte) (tx : Memory Byte) {k : ℕ}
    (h : k ∉ errorFootprint.txWrites) : (modbusError soc f errCode tx).tx k = tx k := by
  have hrange : ¬ (0 ≤ k ∧ k < 0 + 5) := fun hk => h (List.mem_range'_1.mpr hk)
  have hcode : ∀ x₀ x₁ x₂ : Byte, [x₀, x₁, x₂].length = 3 := fun _ _ _ => rfl
  refine (addCrc_keeps _ ?_).trans (Memory.store_of_notMem tx (hcode _ _ _) ?_)
  · rw [List.mem_range'_1]
    omega
  · rw [List.mem_range'_1]
    omega

/-- A byte count, a body and a check-sum. -/
theorem counted_keeps (tx : Memory Byte) {pos n len k : ℕ} {xs : List Byte} (hn : xs.length = n)
    (x : Byte) (h : k ∉ List.range' pos n ++ List.range' 2 1 ++ List.range' (len + 3) 2) :
    addCrc ((tx.store pos xs).store 2 [x]) (len + 3) k = tx k := by
  obtain ⟨hbody, hcrc⟩ := not_or.mp (mt List.mem_append.mpr h)
  obtain ⟨hxs, hcount⟩ := not_or.mp (mt List.mem_append.mpr hbody)
  rw [addCrc_keeps _ hcrc, Memory.store_of_notMem _ List.length_singleton hcount,
    Memory.store_of_notMem tx hn hxs]

theorem readReply_keeps (io : RequestIo) (soc : Soc b) (rx : Frame) (tx : Memory Byte) {k : ℕ}
    (h : k ∉ (readFootprint io soc rx).txWrites) : (readReply io soc rx tx).tx k = tx k := by
  unfold readFootprint at h
  unfold readReply
  split_ifs at h ⊢ with hqty
  · exact modbusError_keeps soc _ _ tx h
  · cases hreg : readReg io soc (Reg.ofAddr? rx.regAddr) with
    | none =>
      rw [hreg] at h
      obtain ⟨hframe, hcrc⟩ := not_or.mp (mt List.mem_append.mpr h)
      obtain ⟨herror, hcount⟩ := not_or.mp (mt List.mem_append.mpr hframe)
      have hlen : (modbusError soc rx.func errAddrNotAvailable tx).len = 5 := rfl
      simp only
      rw [hlen, addCrc_keeps _ hcrc, Memory.store_of_notMem _ List.length_singleton hcount,
        modbusError_keeps soc _ _ tx herror]
    | some r =>
      rw [hreg] at h
      exact counted_keeps tx rfl _ h

theorem writeReply_keeps (rx : Frame) (st : Stored b) (tx : Memory Byte) {k : ℕ}
    (h : k ∉ (answerFootprint st.ret).txWrites) : (writeReply rx st tx).tx k = tx k := by
  unfold answerFootprint at h
  unfold writeReply
  split_ifs at h ⊢ with hret hsys
  · exact modbusError_keeps _ _ _ tx h
  · exact modbusError_keeps _ _ _ tx h
  · obtain ⟨hframe, hcrc⟩ := not_or.mp (mt List.mem_append.mpr h)
    obtain ⟨hheader, hanswer⟩ := not_or.mp (mt List.mem_append.mpr hframe)
    simp only
    rw [addCrc_keeps _ hcrc, Memory.store_of_notMem _ (Memory.length_load _ _ _) hanswer,
      Memory.store_of_notMem tx (Memory.length_load _ _ _) hheader]

/-- Of the transmit buffer only the listed bytes change. -/
theorem accept_keeps_tx (io : RequestIo) (soc : Soc b) (rx : Frame) (tx : Memory Byte) {k : ℕ}
    (h : k ∉ (recvFootprint io soc rx).txWrites) : (accept io soc rx tx).1.tx k = tx k := by
  obtain ⟨hhead, hrest⟩ := not_or.mp (mt List.mem_append.mpr h)
  have hstart : txStart soc rx tx k = tx k := by
    obtain ⟨hclear, hfirst⟩ := not_or.mp (mt List.mem_append.mpr hhead)
    have htwo : ∀ x₀ x₁ : Byte, [x₀, x₁].length = 2 := fun _ _ => rfl
    exact (Memory.store_of_notMem _ (htwo _ _) hfirst).trans (Memory.fill_of_notMem tx 0 hclear)
  unfold accept
  simp only
  cases hf : Func.ofCode? rx.func with
  | none =>
    rw [hf] at hrest
    exact (modbusError_keeps soc _ _ _ hrest).trans hstart
  | some f =>
    rw [hf] at hrest
    cases f with
    | id =>
      refine (counted_keeps _ ?_ _ hrest).trans hstart
      simp
    | readCoils | readDiscInput | readHoldRegs =>
      exact (readReply_keeps io soc rx _ hrest).trans hstart
    | writeOneCoilReg | writeOneHoldReg | writeManyCoilReg | writeManyHoldReg =>
      refine (writeReply_keeps rx _ _ ?_).trans hstart
      exact fun hmem => hrest (List.mem_append_right _ hmem)

end Karnix.Modbus
