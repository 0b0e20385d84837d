import Karnix.Audio.Dac
import Karnix.Config.Eeprom
import Karnix.Video.Glyph

/-!
# Modbus registers

The state that Modbus requests act on, and the register accesses of `modbus.c`:
`modbus_store_reg`, and the register cases of the read functions of `modbus_recv`.

The receive buffer is a memory that starts at `rx_buf[0]`; what lies behind the received
frame is arbitrary.  The request data are the bytes from `rx_buf[7]` on.
-/

namespace Karnix.Modbus

open Karnix.Library
open Karnix.Config
open Karnix.Video
open Karnix.Audio

/-! ## Section 1: The program and its state -/

/-- What is fixed when the firmware is built.  `CONFIG_HAS_MODBUS` is always set. -/
structure Build where
  hasMac : Bool
  hasHub : Bool
  hasCgaGraphics : Bool
  /-- `BUILD_NUMBER` -/
  buildNumber : ℕ
  buildNumber_lt : buildNumber < 2 ^ 31
  /-- `__DATE__` -/
  date : List Byte
  length_date : date.length = 11
  font6x8 : ℕ → Byte
  font12x16 : ℕ → Byte

/-- The members of `Config` in this build. -/
def Build.parts (b : Build) : Parts := ⟨b.hasMac, b.hasHub, true, none⟩

/-- How far the main loop is with `if(reg_config_write) reg_config_write--;`.  The variable is
volatile: it is read for the test, read again for the subtraction, and written. -/
inductive CountDown where
  | start
  | tested
  | loaded (w : BitVec 32)
  deriving DecidableEq

/-- The variables and devices a request can read or change, and where the main loop was
interrupted. -/
structure Soc (b : Build) where
  activeConfig : Config b.parts
  regColor : BitVec 32 := 0x3f
  regVideoMode : BitVec 32 := 1
  regVideoFrameSize : BitVec 32 := 19200
  regIrqCounter : BitVec 32 := 0
  regSysCounter : BitVec 32 := 0
  regScratch : BitVec 32 := 0
  regConfigWrite : BitVec 32 := 0
  hub : HubState := {}
  /-- The window of the CGA controller. -/
  cga : Memory Byte := fun _ => 0
  audiodac0 : AudioDac := {}
  eeprom : Memory Byte
  /-- `WD->REBOOT` was set. -/
  reboot : Bool := false
  countDown : CountDown := .start

/-- What devices do while a request is executed. -/
structure RequestIo where
  /-- `config_load`: transfer `k` of page `i`. -/
  load : ℕ → ℕ → Xfer
  /-- `config_save` -/
  save : SaveIo
  /-- The status register of the DAC, if its "FIFO empty" interrupt is pending. -/
  dac : Option DacStatus

/-- The register addresses of `modbus.h`. -/
inductive Reg where
  | framebuffer | sysCounter | irqCounter | scratch | ipAddr | gwAddr | netmask | mbusAddr
  | mbusBaud | macAddr | hubType | configOptions | printText | clearText | color | videoMode
  | audiodac0Buffer | configWrite | reboot
  deriving DecidableEq, Repr

def Reg.addr : Reg → BitVec 16
  | .framebuffer => 20
  | .sysCounter => 30
  | .irqCounter => 31
  | .scratch => 32
  | .ipAddr => 41
  | .gwAddr => 42
  | .netmask => 43
  | .mbusAddr => 44
  | .mbusBaud => 45
  | .macAddr => 47
  | .hubType => 48
  | .configOptions => 49
  | .printText => 50
  | .clearText => 51
  | .color => 52
  | .videoMode => 53
  | .audiodac0Buffer => 60
  | .configWrite => 126
  | .reboot => 127

def Reg.all : List Reg :=
  [.framebuffer, .sysCounter, .irqCounter, .scratch, .ipAddr, .gwAddr, .netmask, .mbusAddr,
    .mbusBaud, .macAddr, .hubType, .configOptions, .printText, .clearText, .color, .videoMode,
    .audiodac0Buffer, .configWrite, .reboot]

def Reg.ofAddr? (a : BitVec 16) : Option Reg := Reg.all.find? fun r => r.addr = a

/-- `REG_VIDEO_MODE_HUB` and `REG_VIDEO_MODE_CGA_GRAPHICS` -/
def videoModeHub : BitVec 32 := 3
def videoModeCgaGraphics : BitVec 32 := 2

/-- `HUB_FRAMEBUFFER_SIZE` and `CGA_FRAMEBUFFER_SIZE` -/
def hubFramebufferSize : ℕ := 4 * 1024
def cgaFramebufferSize : ℕ := 320 * 240 * 2 / 8

namespace Reg

theorem ofAddr?_addr (r : Reg) : ofAddr? r.addr = some r := by
  cases r <;> rfl

theorem addr_of_ofAddr? {a : BitVec 16} {r : Reg} (h : ofAddr? a = some r) : r.addr = a := by
  simpa using List.find?_some h

end Reg

/-! ## Section 2: `modbus_store_reg` -/

variable {b : Build}

/-- What `modbus_store_reg` returns and leaves behind. -/
structure Stored (b : Build) where
  ret : ℤ
  data : Memory Byte
  soc : Soc b

/-- The framebuffer of the video mode: the HUB window or the CGA window. -/
def Soc.fb (soc : Soc b) : Memory Byte :=
  if soc.regVideoMode = videoModeHub then soc.hub.window else soc.cga

/-- Replace the framebuffer of the video mode. -/
def Soc.setFb (soc : Soc b) (fb : Memory Byte) : Soc b :=
  if soc.regVideoMode = videoModeHub then { soc with hub := { soc.hub with window := fb } }
  else { soc with cga := fb }

/-- `REG_AUDIODAC0_BUFFER`: samples go to the ring, and the level of the ring into the reply. -/
def storeAudio (io : RequestIo) (soc : Soc b) (data : Memory Byte) (dataLen : ℕ) : Stored b :=
  let samples := (List.range (dataLen / 2)).map fun i => be16 (data (i * 2)) (data (i * 2 + 1))
  let dac := (audiodac0SubmitBuffer samples io.dac soc.audiodac0).2
  -- the fill level of the reply is computed apart from `audiodac0_samples_filled`
  let fill : ℤ :=
    if dac.playbackPtr ≤ dac.fillPtr then (dac.fillPtr : ℤ) - dac.playbackPtr
    else (dac.ringSize : ℤ) - dac.playbackPtr + dac.fillPtr - 1
  { ret := 4
    data := data.store 0
      [BitVec.ofInt 8 (fill / 256), BitVec.ofInt 8 fill,
        BitVec.ofNat 8 (dac.ringSize / 256), BitVec.ofNat 8 dac.ringSize]
    soc := { soc with audiodac0 := dac } }

/-- `REG_FRAMEBUFFER`: words go to the framebuffer, from an offset on. -/
def storeFramebuffer (soc : Soc b) (data : Memory Byte) (dataLen : ℕ) : Soc b :=
  let offset := (be16 (data 0) (data 1)).toNat
  let size := if soc.regVideoMode = videoModeHub then hubFramebufferSize else cgaFramebufferSize
  let wordsToCopy := min size (dataLen - 2) / 4
  soc.setFb ((List.range wordsToCopy).foldl (fun fb i =>
    writeWord fb (offset + i * 4)
      (be32 (data (2 + i * 4 + 3)) (data (2 + i * 4 + 2)) (data (2 + i * 4 + 1))
        (data (2 + i * 4)))) soc.fb)

/-- `REG_PRINT_TEXT`, after its length check. -/
def storePrintText (soc : Soc b) (data : Memory Byte) (dataLen : ℕ) : Soc b :=
  let x := (be16 (data 0) (data 1)).toNat
  let y := (be16 (data 2) (data 3)).toNat
  let font : Font :=
    if be16 (data 4) (data 5) = 0 then ⟨b.font6x8, 6, 8⟩ else ⟨b.font12x16, 12, 16⟩
  let text := data.load 6 (dataLen - 6)
  if b.hasHub && soc.regVideoMode = videoModeHub then
    { soc with hub := { soc.hub with
        window := hubPrint soc.hub.frame x y soc.regColor text font soc.hub.window } }
  else if b.hasCgaGraphics && soc.regVideoMode = videoModeCgaGraphics then
    { soc with cga := cgaVideoPrint x y soc.regColor text font soc.cga }
  else soc

/-- The block shared by the registers kept in the EEPROM: load the configuration, or take
the default one, replace one member, and save it. -/
def storeConfig (io : RequestIo) (soc : Soc b) (f : Field) (xs : List Byte) : ℤ × Soc b :=
  let config := (configLoadOrDefault b.parts io.load soc.eeprom).write f xs
  let r := configSave io.save config soc.eeprom
  (if r.1 < 0 then -2 else 0, { soc with eeprom := r.2 })

/-- `memcpy_rev`: `count` bytes backwards from `src` on. -/
def memcpyRev (m : Memory Byte) (src count : ℕ) : List Byte :=
  (List.range count).map fun k => m (src - k)

/-- The registers of which a write changes a member of the stored configuration, and the
bytes it stores there. -/
def configField? (b : Build) (data : Memory Byte) : Reg → Option (Field × List Byte)
  | .hubType => if b.hasHub then some (.hubType, [data 3]) else none
  | .mbusAddr => some (.modbusAddr, [data 3])
  | .configOptions => some (.options, [data 3])
  | .mbusBaud => some (.modbusBaud, leBytes32 (be32 (data 0) (data 1) (data 2) (data 3)))
  | .ipAddr => if b.hasMac then some (.ipAddr, memcpyRev data 3 4) else none
  | .gwAddr => if b.hasMac then some (.gwAddr, memcpyRev data 3 4) else none
  | .netmask => if b.hasMac then some (.netmask, memcpyRev data 3 4) else none
  | .macAddr => if b.hasMac then some (.macAddr, data.load 0 6) else none
  | _ => none

/-- The `switch` of `modbus_store_reg`, one case for each register. -/
def storeSwitch (io : RequestIo) (soc : Soc b) (reg : Option Reg) (data : Memory Byte)
    (dataLen : ℕ) : Stored b :=
  match reg with
  | some .clearText => ⟨0, data, soc.setFb (soc.fb.fill 0 soc.regVideoFrameSize.toNat 0)⟩
  | some .audiodac0Buffer => storeAudio io soc data dataLen
  | some .framebuffer => ⟨0, data, storeFramebuffer soc data dataLen⟩
  | some .printText =>
    if dataLen < 1 then ⟨-3, data, soc⟩ else ⟨0, data, storePrintText soc data dataLen⟩
  | some .scratch =>
    ⟨0, data, { soc with regScratch := be32 (data 0) (data 1) (data 2) (data 3) }⟩
  | some .configWrite =>
    ⟨0, data, { soc with regConfigWrite := be32 (data 0) (data 1) (data 2) (data 3) }⟩
  | some .color => ⟨0, data, { soc with regColor := (data 3).setWidth 32 }⟩
  | some .videoMode =>
    let mode := (data 3).setWidth 32
    let size := if mode = videoModeHub then hubFramebufferSize else cgaFramebufferSize
    ⟨0, data, { soc with regVideoMode := mode, regVideoFrameSize := BitVec.ofNat 32 size }⟩
  | some .reboot => ⟨0, data, { soc with reboot := true }⟩
  | some .hubType =>
    if b.hasHub then
      -- the controller is set up for the new type before the configuration is saved
      match hubInit (data 3).toNat soc.hub with
      | none => ⟨-2, data, soc⟩
      | some hub =>
        let r := storeConfig io { soc with hub := hub } .hubType [data 3]
        ⟨r.1, data, r.2⟩
    else ⟨-1, data, soc⟩
  | some reg =>
    match configField? b data reg with
    | some (f, xs) =>
      let r := storeConfig io soc f xs
      ⟨r.1, data, r.2⟩
    | none => ⟨-1, data, soc⟩
  | none => ⟨-1, data, soc⟩

/-- `modbus_store_reg`: a register of the configuration is refused while the lock is closed. -/
def modbusStoreReg (io : RequestIo) (soc : Soc b) (reg : BitVec 16) (data : Memory Byte)
    (dataLen : ℕ) : Stored b :=
  if reg.toNat ≥ 40 ∧ reg.toNat < 50 ∧ soc.regConfigWrite = 0 then ⟨-2, data, soc⟩
  else storeSwitch io soc (Reg.ofAddr? reg) data dataLen

/-! ### What a write can change -/

/-- The configuration, its EEPROM image and its lock are the same. -/
structure SameConfig (soc soc' : Soc b) : Prop where
  activeConfig : soc'.activeConfig = soc.activeConfig
  eeprom : soc'.eeprom = soc.eeprom
  regConfigWrite : soc'.regConfigWrite = soc.regConfigWrite

theorem sameConfig_setFb (soc : Soc b) (fb : Memory Byte) : SameConfig soc (soc.setFb fb) := by
  unfold Soc.setFb
  split_ifs <;> exact ⟨rfl, rfl, rfl⟩

theorem sameConfig_storePrintText (soc : Soc b) (data : Memory Byte) (dataLen : ℕ) :
    SameConfig soc (storePrintText soc data dataLen) := by
  simp only [storePrintText]
  split_ifs <;> exact ⟨rfl, rfl, rfl⟩

/-- A register whose write does not go to the EEPROM. -/
structure Volatile (soc : Soc b) (reg : Option Reg) (data : Memory Byte) (st : Stored b) :
    Prop where
  ret_le : st.ret ≤ 4
  activeConfig : st.soc.activeConfig = soc.activeConfig
  eeprom : st.soc.eeprom = soc.eeprom
  lock : if reg = some .configWrite then
      st.soc.regConfigWrite = be32 (data 0) (data 1) (data 2) (data 3)
    else st.soc.regConfigWrite = soc.regConfigWrite

theorem SameConfig.volatile {soc soc' : Soc b} (h : SameConfig soc soc') {reg : Option Reg}
    (hreg : reg ≠ some .configWrite) (data data' : Memory Byte) {ret : ℤ} (hret : ret ≤ 4) :
    Volatile soc reg data ⟨ret, data', soc'⟩ :=
  ⟨hret, h.activeConfig, h.eeprom, by rw [if_neg hreg]; exact h.regConfigWrite⟩

/-- A register whose write replaces the member `f` of the stored configuration by `xs`.
For `REG_HUB_TYPE` the HUB controller was set up before. -/
structure Persistent (io : RequestIo) (soc : Soc b) (f : Field) (xs : List Byte)
    (st : Stored b) : Prop where
  ret : st.ret = (storeConfig io soc f xs).1
  activeConfig : st.soc.activeConfig = soc.activeConfig
  eeprom : st.soc.eeprom = (storeConfig io soc f xs).2.eeprom
  regConfigWrite : st.soc.regConfigWrite = soc.regConfigWrite

/-- **What `modbus_store_reg` can do.**  It leaves the EEPROM alone, or it is a write to one
of the configuration registers. -/
theorem storeSwitch_cases (io : RequestIo) (soc : Soc b) (reg : Option Reg) (data : Memory Byte)
    (dataLen : ℕ) :
    Volatile soc reg data (storeSwitch io soc reg data dataLen) ∨
      ∃ r f xs, reg = some r ∧ configField? b data r = some (f, xs) ∧
        Persistent io soc f xs (storeSwitch io soc reg data dataLen) := by
  have hsame : SameConfig soc soc := ⟨rfl, rfl, rfl⟩
  -- the registers of the last branch of the `switch`
  have hconfig : ∀ r, r ≠ .configWrite →
      storeSwitch io soc (some r) data dataLen =
        (match configField? b data r with
          | some (f, xs) => ⟨(storeConfig io soc f xs).1, data, (storeConfig io soc f xs).2⟩
          | none => ⟨-1, data, soc⟩) →
      Volatile soc (some r) data (storeSwitch io soc (some r) data dataLen) ∨
        ∃ r' f xs, some r = some r' ∧ configField? b data r' = some (f, xs) ∧
          Persistent io soc f xs (storeSwitch io soc (some r) data dataLen) := by
    intro r hr heq
    rw [heq]
    cases hf : configField? b data r with
    | none => exact Or.inl (hsame.volatile (by simpa using hr) data data (by decide))
    | some p => exact Or.inr ⟨r, p.1, p.2, rfl, hf, ⟨rfl, rfl, rfl, rfl⟩⟩
  cases reg with
  | none => exact Or.inl (hsame.volatile (by simp) data data (by decide))
  | some r =>
    cases r with
    | clearText =>
      exact Or.inl ((sameConfig_setFb soc _).volatile (by simp) data data (by decide))
    | audiodac0Buffer => exact Or.inl ⟨by simp [storeSwitch, storeAudio], rfl, rfl, rfl⟩
    | framebuffer =>
      exact Or.inl ((sameConfig_setFb soc _).volatile (by simp) data data (by decide))
    | printText =>
      simp only [storeSwitch]
      split_ifs with hshort
      · exact Or.inl (hsame.volatile (by simp) data data (by decide))
      · exact Or.inl
          ((sameConfig_storePrintText soc data dataLen).volatile (by simp) data data (by decide))
    | scratch => exact Or.inl ⟨by simp [storeSwitch], rfl, rfl, rfl⟩
    | configWrite => exact Or.inl ⟨by simp [storeSwitch], rfl, rfl, rfl⟩
    | color => exact Or.inl ⟨by simp [storeSwitch], rfl, rfl, rfl⟩
    | videoMode => exact Or.inl ⟨by simp [storeSwitch], rfl, rfl, rfl⟩
    | reboot => exact Or.inl ⟨by simp [storeSwitch], rfl, rfl, rfl⟩
    | hubType =>
      simp only [storeSwitch]
      split_ifs with hhub
      · cases hinit : hubInit (data 3).toNat soc.hub with
        | none => exact Or.inl (hsame.volatile (by simp) data data (by decide))
        | some hub =>
          exact Or.inr ⟨.hubType, .hubType, [data 3], rfl, by simp [configField?, hhub],
            ⟨rfl, rfl, rfl, rfl⟩⟩
      · exact Or.inl (hsame.volatile (by simp) data data (by decide))
    | sysCounter => exact hconfig _ (by simp) rfl
    | irqCounter => exact hconfig _ (by simp) rfl
    | ipAddr => exact hconfig _ (by simp) rfl
    | gwAddr => exact hconfig _ (by simp) rfl
    | netmask => exact hconfig _ (by simp) rfl
    | mbusAddr => exact hconfig _ (by simp) rfl
    | mbusBaud => exact hconfig _ (by simp) rfl
    | macAddr => exact hconfig _ (by simp) rfl
    | configOptions => exact hconfig _ (by simp) rfl

theorem storeConfig_ret (io : RequestIo) (soc : Soc b) (f : Field) (xs : List Byte) :
    (storeConfig io soc f xs).1 = 0 ∨ (storeConfig io soc f xs).1 = -2 := by
  simp only [storeConfig]
  split_ifs
  · exact Or.inr rfl
  · exact Or.inl rfl

/-- `modbus_store_reg` never asks for more than four bytes of answer. -/
theorem modbusStoreReg_ret_le (io : RequestIo) (soc : Soc b) (reg : BitVec 16)
    (data : Memory Byte) (dataLen : ℕ) : (modbusStoreReg io soc reg data dataLen).ret ≤ 4 := by
  unfold modbusStoreReg
  split_ifs with hlock
  · exact (by decide : (-2 : ℤ) ≤ 4)
  · rcases storeSwitch_cases io soc (Reg.ofAddr? reg) data dataLen with h | ⟨_, f, xs, -, -, h⟩
    · exact h.ret_le
    · -- the block answers 0 or -2
      rcases storeConfig_ret io soc f xs with hret | hret <;> rw [h.ret, hret] <;> decide

/-! ## Section 3: Reading a register -/

/-- What a register case of the read functions puts into the transmit buffer: `bytes` from
index `pos` on; the length of the data field grows by `len`. -/
structure ReadReply where
  pos : ℕ
  bytes : List Byte
  len : ℕ

/-- A 32-bit variable, copied backwards from its last byte. -/
def readWordReg (w : BitVec 32) : ReadReply :=
  ⟨3, memcpyRev (fun k => (leBytes32 w).getD k 0) 3 4, 4⟩

/-- The bytes of `Config` from the place `off` behind the start of a member on. -/
def readMember {p : Parts} (config : Config p) (f : Field) (off len : ℕ) : List Byte :=
  match place? p f with
  | some m => config.get (m.offset + off) len
  | none => []

/-- The register cases of the read functions of `modbus_recv`; `none` is the default. -/
def readReg (io : RequestIo) (soc : Soc b) (reg : Option Reg) : Option ReadReply :=
  let config := configLoadOrDefault b.parts io.load soc.eeprom
  match reg with
  | some .sysCounter => some (readWordReg soc.regSysCounter)
  | some .irqCounter => some (readWordReg soc.regIrqCounter)
  | some .scratch => some (readWordReg soc.regScratch)
  | some .configWrite => some (readWordReg soc.regConfigWrite)
  | some .color => some (readWordReg soc.regColor)
  | some .videoMode => some (readWordReg soc.regVideoMode)
  | some .ipAddr => if b.hasMac then some ⟨3, readMember config .ipAddr 0 4, 4⟩ else none
  | some .gwAddr => if b.hasMac then some ⟨3, readMember config .gwAddr 0 4, 4⟩ else none
  | some .netmask => if b.hasMac then some ⟨3, readMember config .netmask 0 4, 4⟩ else none
  | some .macAddr => if b.hasMac then some ⟨3, readMember config .macAddr 0 6, 6⟩ else none
  | some .hubType => if b.hasHub then some ⟨6, readMember config .hubType 0 1, 6⟩ else none
  | some .mbusAddr => some ⟨6, readMember config .modbusAddr 0 1, 6⟩
  | some .configOptions => some ⟨6, readMember config .options 0 1, 6⟩
  -- the copy starts at the last byte of the baud rate and runs forward
  | some .mbusBaud => some ⟨3, readMember config .modbusBaud 3 4, 6⟩
  | _ => none

end Karnix.Modbus
