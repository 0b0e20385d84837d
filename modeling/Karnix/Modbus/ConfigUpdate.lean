import Karnix.Modbus.Lock

/-!
# Updating the stored configuration

A write to a configuration register rewrites the image in the EEPROM in place, page by
page, under one check-sum.  When that breaks off, some pages are old and some are new; the
image then usually fails its check-sum, and the next write starts from the default
configuration.

What does hold: a write that could load the configuration, whether it succeeds or fails,
never touches a member other than the one addressed and the check-sum.
-/

namespace Karnix.Modbus

open Karnix.Library
open Karnix.Config

variable {b : Build}

/-! ## Section 1: The members behind the registers -/

/-- A configuration register stores as many bytes as its member has. -/
theorem configField_size {r : Reg} {data : Memory Byte} {f : Field} {xs : List Byte}
    (h : configField? b data r = some (f, xs)) :
    ∃ m, place? b.parts f = some m ∧ xs.length = m.size := by
  obtain ⟨mac, hub, cga, n, hn, date, hdate, font, font'⟩ := b
  cases r with
  | framebuffer | sysCounter | irqCounter | scratch | printText | clearText | color | videoMode
  | audiodac0Buffer | configWrite | reboot => simp [configField?] at h
  | mbusAddr | mbusBaud | configOptions =>
    simp only [configField?, Option.some.injEq, Prod.mk.injEq] at h
    obtain ⟨rfl, rfl⟩ := h
    cases mac <;> cases hub <;> exact ⟨_, rfl, rfl⟩
  | ipAddr | gwAddr | netmask | macAddr =>
    cases mac with
    | false => simp [configField?] at h
    | true =>
      simp only [configField?, if_true, Option.some.injEq, Prod.mk.injEq] at h
      obtain ⟨rfl, rfl⟩ := h
      cases hub <;> exact ⟨_, rfl, by simp [length_memcpyRev]⟩
  | hubType =>
    cases hub with
    | false => simp [configField?] at h
    | true =>
      simp only [configField?, if_true, Option.some.injEq, Prod.mk.injEq] at h
      obtain ⟨rfl, rfl⟩ := h
      cases mac <;> exact ⟨_, rfl, rfl⟩

/-- The check-sum is the last member of `Config` in every build. -/
theorem crcLast (b : Build) : CrcLast b.parts := crcLast_of_no_userdata b.hasMac b.hasHub

theorem crc16_size {m : Placed Field} (h : place? b.parts .crc16 = some m) : m.size = 2 := by
  rw [(crcLast b).1] at h
  rw [← Option.some.inj h]

/-- A write to a configuration register fails without effect on the EEPROM, or it goes
through the load-modify-save block. -/
theorem modbusStoreReg_config (io : RequestIo) (soc : Soc b) {r : Reg} {data : Memory Byte}
    (dataLen : ℕ) {f : Field} {xs : List Byte} (h : configField? b data r = some (f, xs)) :
    ((modbusStoreReg io soc r.addr data dataLen).ret = -2 ∧
        (modbusStoreReg io soc r.addr data dataLen).soc.eeprom = soc.eeprom) ∨
      Persistent io soc f xs (modbusStoreReg io soc r.addr data dataLen) := by
  unfold modbusStoreReg
  split_ifs with hguard
  · exact Or.inl ⟨rfl, rfl⟩
  · rw [Reg.ofAddr?_addr]
    cases r with
    | framebuffer | sysCounter | irqCounter | scratch | printText | clearText | color | videoMode
    | audiodac0Buffer | configWrite | reboot => simp [configField?] at h
    | hubType =>
      simp only [storeSwitch]
      by_cases hhub : b.hasHub = true
      · simp only [configField?, hhub, if_true, Option.some.injEq, Prod.mk.injEq] at h ⊢
        obtain ⟨rfl, rfl⟩ := h
        cases Video.hubInit (data 3).toNat soc.hub with
        | none => exact Or.inl ⟨rfl, rfl⟩
        | some hub => exact Or.inr ⟨rfl, rfl, rfl, rfl⟩
      · simp [configField?, hhub] at h
    | ipAddr | gwAddr | netmask | mbusAddr | mbusBaud | macAddr | configOptions =>
      simp only [storeSwitch, h]
      exact Or.inr ⟨rfl, rfl, rfl, rfl⟩

/-! ## Section 2: One write -/

/-- The configuration after a write of `xs` to the member `f`. -/
def updated (c : Config b.parts) (f : Field) (xs : List Byte) : Config b.parts :=
  (c.write f xs).sealCrc

/-- An update leaves the other members alone, the check-sum excepted. -/
theorem read_updated_of_ne (c : Config b.parts) {f g : Field} {xs : List Byte}
    (hsize : ∃ m, place? b.parts f = some m ∧ xs.length = m.size) (hne : f ≠ g)
    (hcrc : g ≠ .crc16) : (updated c f xs).read g = c.read g := by
  obtain ⟨m, hm, hlen⟩ := hsize
  rw [updated, read_sealCrc_of_ne _ hcrc fun _ => crc16_size]
  refine read_write_of_ne c hne fun m' hm' => ?_
  rw [hm] at hm'
  rw [hlen, Option.some.inj hm']

theorem toMemory_stored {p : Parts} (mem : Memory Byte) {a : ℕ} (h : a < sizeofConfig p) :
    Image.toMemory (stored p mem) a = mem a := by
  rw [stored, Image.toMemory_ofMemory mem 0 h, Nat.zero_add]

theorem configLoadOrDefault_ok {p : Parts} {io : ℕ → ℕ → Xfer} {mem : Memory Byte} {c : Config p}
    (h : configLoad p io mem = .ok c) : configLoadOrDefault p io mem = c := by
  simp [configLoadOrDefault, h]

/-- **Byte rule.**  A write that could load the configuration leaves in each byte of the
EEPROM the old value or that of the updated configuration. -/
theorem storeConfig_cell {io : RequestIo} {soc : Soc b} {c : Config b.parts}
    (hload : configLoad b.parts io.load soc.eeprom = .ok c) (f : Field) (xs : List Byte) (a : ℕ) :
    (storeConfig io soc f xs).2.eeprom a = soc.eeprom a ∨
      a < sizeofConfig b.parts ∧
        (storeConfig io soc f xs).2.eeprom a = Image.toMemory (updated c f xs) a := by
  simp only [storeConfig, configLoadOrDefault_ok hload]
  exact configSave_cell io.save (c.write f xs) soc.eeprom a

/-- A write that could load the configuration keeps every member but the one addressed and
the check-sum, whether it succeeds or not. -/
theorem storeConfig_keeps {io : RequestIo} {soc : Soc b} {c : Config b.parts}
    (hload : configLoad b.parts io.load soc.eeprom = .ok c) {f g : Field} {xs : List Byte}
    (hsize : ∃ m, place? b.parts f = some m ∧ xs.length = m.size) (hne : f ≠ g)
    (hcrc : g ≠ .crc16) :
    (stored b.parts (storeConfig io soc f xs).2.eeprom).read g = c.read g := by
  have hnew := read_updated_of_ne c hsize hne hcrc
  obtain ⟨hc, -, -⟩ := configLoad_ok hload
  cases hg : place? b.parts g with
  | none => simp [Config.read, hg]
  | some m =>
    -- byte by byte: old and updated configuration agree on the member `g`
    have hin := StructLayout.find?_bounds (members_align_pos b.parts) hg
    simp only [Config.read, hg] at hnew ⊢
    apply Memory.load_congr
    intro i hi
    have hlt : m.offset + i < sizeofConfig b.parts := lt_of_lt_of_le (by omega) hin
    rw [toMemory_stored _ hlt]
    rcases storeConfig_cell hload f xs (m.offset + i) with hold | ⟨-, hnewCell⟩
    · rw [hold, hc, toMemory_stored _ hlt]
    · rw [hnewCell]
      exact Memory.eq_of_load_eq hnew (by omega) (by omega)

/-- A write that succeeds leaves in the EEPROM the configuration it started from, loaded or
default, with the member replaced. -/
theorem storeConfig_ok {io : RequestIo} {soc : Soc b} {f : Field} {xs : List Byte}
    (hret : 0 ≤ (storeConfig io soc f xs).1) :
    stored b.parts (storeConfig io soc f xs).2.eeprom =
        updated (configLoadOrDefault b.parts io.load soc.eeprom) f xs ∧
      sizeofConfig b.parts ≤ maxConfigSize := by
  simp only [storeConfig] at hret ⊢
  apply configSave_ok
  by_contra hneg
  rw [if_pos (by omega)] at hret
  exact absurd hret (by decide)

/-- The updated configuration has the right check-sum. -/
theorem updated_crc (c : Config b.parts) (f : Field) (xs : List Byte) :
    leBytes16 (crc16 (updated c f xs).body) = (updated c f xs).read .crc16 := by
  rw [updated, body_sealCrc (crcLast b), read_crc16_sealCrc (crcLast b)]

/-- After a write that succeeds the configuration loads. -/
theorem load_after_store {io : RequestIo} {soc : Soc b} {f : Field} {xs : List Byte}
    {io' : ℕ → ℕ → Xfer} (hio : IdealRead io') (hret : 0 ≤ (storeConfig io soc f xs).1) :
    configLoad b.parts io' (storeConfig io soc f xs).2.eeprom =
      .ok (updated (configLoadOrDefault b.parts io.load soc.eeprom) f xs) := by
  obtain ⟨hstored, hfits⟩ := storeConfig_ok hret
  rw [← hstored]
  apply configLoad_ideal hio hfits
  rw [hstored]
  exact updated_crc _ f xs

/-! ## Section 3: The register writes -/

/-- What a configuration register write that could load `c` guarantees about the EEPROM
`mem` it started from and the result `st`. -/
structure UpdateContract (c : Config b.parts) (f : Field) (xs : List Byte) (mem : Memory Byte)
    (st : Stored b) : Prop where
  /-- Answered without error, the next load returns the old configuration with the
  addressed member replaced. -/
  success : 0 ≤ st.ret → ∀ io, IdealRead io →
    configLoad b.parts io st.soc.eeprom = .ok (updated c f xs)
  /-- In any case each byte is the old one or that of the updated configuration. -/
  cell : ∀ a, st.soc.eeprom a = mem a ∨
    a < sizeofConfig b.parts ∧ st.soc.eeprom a = Image.toMemory (updated c f xs) a
  /-- In any case the other members are as they were. -/
  others : ∀ g, g ≠ f → g ≠ .crc16 → (stored b.parts st.soc.eeprom).read g = c.read g
  /-- The updated configuration differs from the old one in the addressed member and the
  check-sum only. -/
  updated_others : ∀ g, g ≠ f → g ≠ .crc16 → (updated c f xs).read g = c.read g

theorem updateContract {io : RequestIo} {soc : Soc b} {r : Reg} {data : Memory Byte}
    {dataLen : ℕ} {f : Field} {xs : List Byte} {c : Config b.parts}
    (hreg : configField? b data r = some (f, xs))
    (hload : configLoad b.parts io.load soc.eeprom = .ok c) :
    UpdateContract c f xs soc.eeprom (modbusStoreReg io soc r.addr data dataLen) := by
  have hsize := configField_size hreg
  have hothers : ∀ g, g ≠ f → g ≠ .crc16 → (updated c f xs).read g = c.read g :=
    fun g hne hcrc => read_updated_of_ne c hsize hne.symm hcrc
  obtain ⟨hc, hfits, -⟩ := configLoad_ok hload
  rcases modbusStoreReg_config io soc dataLen hreg with ⟨hret, hsame⟩ | hstore
  · -- the lock was closed, or the HUB type is unknown
    refine ⟨fun h => ?_, fun a => Or.inl (by rw [hsame]), fun g _ _ => ?_, hothers⟩
    · rw [hret] at h
      exact absurd h (by decide)
    · rw [hsame, hc]
  · -- the load-modify-save block
    refine ⟨fun h io' hio => ?_, fun a => ?_, fun g hne hcrc => ?_, hothers⟩
    · rw [hstore.ret] at h
      rw [hstore.eeprom, ← configLoadOrDefault_ok hload]
      exact load_after_store hio h
    · rw [hstore.eeprom]
      exact storeConfig_cell hload f xs a
    · rw [hstore.eeprom]
      exact storeConfig_keeps hload hsize hne.symm hcrc

/-! ## Section 4: Sequences of writes -/

/-- The event, if it is an accepted write to a configuration register under an open lock, can load
the configuration and addresses another member than `g`. -/
def Spares (g : Field) (soc : Soc b) : Event → Prop
  | .access => True
  | .request io rx _ =>
    soc.Accepts rx → (Func.ofCode? rx.func).any Func.isWrite → soc.regConfigWrite ≠ 0 →
      ∀ r f xs, Reg.ofAddr? rx.regAddr = some r → configField? b rx.data r = some (f, xs) →
        f ≠ g ∧ ∃ c, configLoad b.parts io.load soc.eeprom = .ok c

/-- A register write that spares a member keeps its stored bytes. -/
theorem modbusStoreReg_keeps {g : Field} (hcrc : g ≠ .crc16) {io : RequestIo} {soc : Soc b}
    {reg : BitVec 16} {data : Memory Byte} {dataLen : ℕ}
    (hok : soc.regConfigWrite ≠ 0 → ∀ r f xs, Reg.ofAddr? reg = some r →
      configField? b data r = some (f, xs) →
        f ≠ g ∧ ∃ c, configLoad b.parts io.load soc.eeprom = .ok c) :
    (stored b.parts (modbusStoreReg io soc reg data dataLen).soc.eeprom).read g =
      (stored b.parts soc.eeprom).read g := by
  by_cases hlock : soc.regConfigWrite = 0
  · rw [modbusStoreReg_eeprom hlock]
  · unfold modbusStoreReg
    split_ifs with hguard
    · rfl
    · rcases storeSwitch_cases io soc (Reg.ofAddr? reg) data dataLen with
        h | ⟨r, f, xs, hr, hf, h⟩
      · rw [h.eeprom]
      · -- a write to another member
        obtain ⟨hne, c, hload⟩ := hok hlock r f xs hr hf
        rw [h.eeprom, storeConfig_keeps hload (configField_size hf) hne hcrc,
          (configLoad_ok hload).1]

/-- **Step lemma.**  An event that spares a member keeps its stored bytes. -/
theorem step_keeps {g : Field} (hcrc : g ≠ .crc16) {soc : Soc b} {e : Event}
    (hok : Spares g soc e) :
    (stored b.parts (step soc e).eeprom).read g = (stored b.parts soc.eeprom).read g := by
  cases e with
  | access =>
    simp only [step, Soc.access]
    cases soc.countDown <;> rfl
  | request io rx tx =>
    by_cases hacc : soc.Accepts rx
    · simp only [step, modbusRecv_of_accepts hacc]
      rcases accept_cases io soc rx tx with ⟨hwrite, heff⟩ | ⟨-, heff⟩
      · rw [heff]
        exact modbusStoreReg_keeps hcrc (hok hacc hwrite)
      · rw [heff]
    · simp only [step, modbusRecv_of_not_accepts hacc]

/-- **Run lemma.**  A run of events that spare a member keeps its stored bytes. -/
theorem run_keeps {g : Field} (hcrc : g ≠ .crc16) {soc : Soc b} {es : List Event}
    (hrun : RunMeets step (Spares g) soc es) :
    (stored b.parts (run step soc es).eeprom).read g = (stored b.parts soc.eeprom).read g := by
  induction es generalizing soc with
  | nil => rfl
  | cons e es ih => exact (ih hrun.2).trans (step_keeps hcrc hrun.1)

/-- **Configuration updates.**  A write to a configuration register that can load the
configuration keeps its contract, whatever fails while it saves.  And over any run in which
every such write can load the configuration, a member that none of them addresses keeps its
stored bytes. -/
theorem configUpdate (io : RequestIo) (soc : Soc b) (r : Reg) (data : Memory Byte) (dataLen : ℕ)
    (f : Field) (xs : List Byte) (c : Config b.parts)
    (hreg : configField? b data r = some (f, xs))
    (hload : configLoad b.parts io.load soc.eeprom = .ok c) :
    UpdateContract c f xs soc.eeprom (modbusStoreReg io soc r.addr data dataLen) ∧
      ∀ g, g ≠ .crc16 → ∀ es, RunMeets step (Spares g) soc es →
        (stored b.parts (run step soc es).eeprom).read g = c.read g := by
  have hc := (configLoad_ok hload).1
  refine ⟨updateContract hreg hload, fun g hcrc es hrun => ?_⟩
  rw [hc]
  exact run_keeps hcrc hrun

/-- A stored configuration with the address 10.0.0.1. -/
def siteConfig : Config monitorBuild.parts where
  bytes :=
    [1, 0, 0, 0, 10, 0, 0, 1, 192, 168, 174, 1, 255, 255, 255, 0,
      2, 10, 11, 12, 21, 148, 1, 0, 0, 194, 1, 0, 0, 0, 189, 34]
  length_eq := rfl

/-- The device with that configuration in its EEPROM and the lock open. -/
def configured : Soc monitorBuild :=
  { powerUp monitorBuild with regConfigWrite := 1, eeprom := Image.toMemory siteConfig }

/-- The EEPROM does not acknowledge its address when the second page is written. -/
def tornIo : RequestIo :=
  { quietIo with
    save :=
      { page := fun i => ⟨fun _ => if i = 1 then .nack else .ack, fun _ => false⟩
        poll := fun _ _ => .ack } }

theorem load_configured :
    configLoad monitorBuild.parts quietIo.load configured.eeprom = .ok siteConfig := by
  decide +kernel

theorem configUpdate_options :
    UpdateContract siteConfig .options [0] configured.eeprom
        (modbusStoreReg quietIo configured Reg.configOptions.addr (fun _ => 0) 4) ∧
      ∀ g, g ≠ .crc16 → ∀ es, RunMeets step (Spares g) configured es →
        (stored monitorBuild.parts (run step configured es).eeprom).read g = siteConfig.read g :=
  configUpdate quietIo configured .configOptions (fun _ => 0) 4 .options [0] siteConfig rfl
    load_configured

/-- The device after a write of `REG_CONFIG_OPTIONS` that broke off behind the first page. -/
def torn : Stored monitorBuild :=
  modbusStoreReg tornIo configured Reg.configOptions.addr (fun _ => 0) 4

/-- After a write of `REG_CONFIG_OPTIONS` that is answered with an error the stored
configuration does not load any more, and a write of `REG_MBUS_ADDR` that succeeds then
replaces the IP address by the default one. -/
theorem configUpdate_torn :
    configLoad monitorBuild.parts quietIo.load configured.eeprom = .ok siteConfig ∧
      torn.ret = -2 ∧
      configLoad monitorBuild.parts quietIo.load torn.soc.eeprom = .error (-3) ∧
      (modbusStoreReg quietIo torn.soc Reg.mbusAddr.addr (fun _ => 1) 4).ret = 0 ∧
      siteConfig.read .ipAddr = [10, 0, 0, 1] ∧
      (stored monitorBuild.parts
        (modbusStoreReg quietIo torn.soc Reg.mbusAddr.addr (fun _ => 1) 4).soc.eeprom).read .ipAddr
          = [192, 168, 174, 199] := by
  refine ⟨load_configured, ?_, ?_, ?_, ?_, ?_⟩ <;> decide +kernel

end Karnix.Modbus
