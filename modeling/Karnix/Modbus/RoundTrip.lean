import Karnix.Modbus.ConfigUpdate

/-!
# Reading back what was written

A register is written by one request and read by a later one.  Each register has its own
pair of conversions.  They fit for the variables of `modbus.c` and for the MAC address.  The
IP registers come back with their bytes reversed, the one-byte configuration registers come
back in a data field of six bytes, and the baud rate in one of six bytes that do not hold
it.
-/

namespace Karnix.Modbus

open Karnix.Library
open Karnix.Config

variable {b : Build}

/-! ## Section 1: Requests and the data field -/

/-- The data a write request carries for a register and a value it can hold: four bytes,
most significant first, or the six of a MAC address.  Registers of one byte take the last. -/
def Reg.Holds : Reg → List Byte → Prop
  | .scratch, v | .configWrite, v | .mbusBaud, v | .ipAddr, v | .gwAddr, v | .netmask, v =>
    v.length = 4
  | .color, v | .videoMode, v | .hubType, v | .mbusAddr, v | .configOptions, v =>
    ∃ x, v = [0, 0, 0, x]
  | .macAddr, v => v.length = 6
  | _, _ => False

/-- An accepted write request for a register, with the data `v`. -/
structure WriteRequest (soc : Soc b) (rx : Frame) (r : Reg) (v : List Byte) : Prop where
  accepts : soc.Accepts rx
  func : (Func.ofCode? rx.func).any Func.isWrite = true
  reg : rx.regAddr = r.addr
  len : rx.len = 9 + v.length
  data : rx.data.load 0 v.length = v

/-- An accepted read request for one register. -/
structure ReadRequest (soc : Soc b) (rx : Frame) (r : Reg) : Prop where
  accepts : soc.Accepts rx
  func : (Func.ofCode? rx.func).any Func.isRead = true
  reg : rx.regAddr = r.addr
  qty : rx.qty = 1

/-- The data field of a reply to a read request: as many bytes as its third byte says. -/
def dataField (tx : Memory Byte) : List Byte := tx.load 3 (tx 2).toNat

/-- The data field of the reply `modbus_recv` left in the transmit buffer. -/
def Received.dataField (r : Received b) : List Byte := r.tx.elim [] Modbus.dataField

/-- The registers and values that come back as they were written. -/
def Reg.RoundTrips : Reg → List Byte → Prop
  | .scratch, _ | .configWrite, _ | .color, _ | .videoMode, _ | .macAddr, _ => True
  | .ipAddr, v | .gwAddr, v | .netmask, v => v.reverse = v
  | _, _ => False

/-! ## Section 2: From the register to the data field -/

/-- What a read reply carries in its data field. -/
def ReadReply.field (r : ReadReply) (tx : Memory Byte) : List Byte :=
  (tx.store r.pos r.bytes).load 3 r.len

theorem length_field (r : ReadReply) (tx : Memory Byte) : (r.field tx).length = r.len :=
  Memory.length_load _ _ _

/-- A case that fills the whole data field determines it. -/
theorem field_of_full (xs : List Byte) (tx : Memory Byte) :
    ReadReply.field ⟨3, xs, xs.length⟩ tx = xs :=
  Memory.load_store_self tx 3 xs

theorem dataField_readReply {io : RequestIo} {soc : Soc b} {rx : Frame} {rep : ReadReply}
    (hqty : rx.qty = 1) (hreg : readReg io soc (Reg.ofAddr? rx.regAddr) = some rep)
    (tx : Memory Byte) : dataField (readReply io soc rx tx).tx = rep.field tx := by
  obtain ⟨hfit, hlen⟩ := readReg_fits hreg
  unfold readReply
  rw [if_neg (not_not.mpr hqty), hreg]
  -- the byte count written in front of the data field
  have hcount : addCrc ((tx.store rep.pos rep.bytes).store 2 [BitVec.ofNat 8 rep.len])
      (rep.len + 3) 2 = BitVec.ofNat 8 rep.len := by
    rw [addCrc, Memory.store_of_lt _ _ (by omega)]
    exact Memory.store_getElem _ 2 0 [BitVec.ofNat 8 rep.len] (by simp)
  have htoNat : (BitVec.ofNat 8 rep.len).toNat = rep.len := by
    rw [BitVec.toNat_ofNat, Nat.mod_eq_of_lt (by omega)]
  simp only [dataField, hcount, htoNat]
  rw [load_addCrc _ (by omega), Memory.load_store_of_disjoint _ _ (Or.inr (by simp)),
    ReadReply.field]

/-- The reply to a read request carries what the case of its register put there. -/
theorem dataField_modbusRecv {io : RequestIo} {soc : Soc b} {rx : Frame} {r : Reg}
    {rep : ReadReply} (h : ReadRequest soc rx r) (hreg : readReg io soc (some r) = some rep)
    (tx : Memory Byte) :
    (modbusRecv io soc rx tx).dataField = rep.field (txStart soc rx tx) := by
  have haccept : (accept io soc rx tx).1 = readReply io soc rx (txStart soc rx tx) := by
    have hfunc := h.func
    unfold accept
    cases hf : Func.ofCode? rx.func with
    | none => simp [hf] at hfunc
    | some f =>
      cases f with
      | readCoils | readDiscInput | readHoldRegs => rfl
      | id | writeOneCoilReg | writeOneHoldReg | writeManyCoilReg | writeManyHoldReg =>
        simp [hf, Func.isRead] at hfunc
  rw [modbusRecv_of_accepts h.accepts, Received.dataField, haccept]
  apply dataField_readReply h.qty
  rw [h.reg, Reg.ofAddr?_addr]
  exact hreg

/-- After an accepted write request the state is the one `modbus_store_reg` leaves. -/
theorem soc_writeRequest {io : RequestIo} {soc : Soc b} {rx : Frame} {r : Reg} {v : List Byte}
    (h : WriteRequest soc rx r v) (tx : Memory Byte) :
    (modbusRecv io soc rx tx).soc = (modbusStoreReg io soc r.addr rx.data rx.dataLen).soc := by
  rw [modbusRecv_of_accepts h.accepts]
  rcases accept_cases io soc rx tx with ⟨-, heff⟩ | ⟨hread, -⟩
  · rw [heff, h.reg]
  · rw [h.func] at hread
    exact absurd hread (by decide)

/-! ## Section 3: The conversions -/

/-- A word is sent most significant byte first. -/
theorem readWordReg_be32 (b₀ b₁ b₂ b₃ : Byte) :
    readWordReg (be32 b₀ b₁ b₂ b₃) = ⟨3, [b₀, b₁, b₂, b₃], 4⟩ := by
  have h := reverse_leBytes32_be32 b₀ b₁ b₂ b₃
  rw [← h]
  rfl

theorem setWidth_eq_be32 (x : Byte) : x.setWidth 32 = be32 0 0 0 x := by
  simp [be32]

/-- Reading four bytes backwards reverses them. -/
theorem memcpyRev_eq_reverse (m : Memory Byte) : memcpyRev m 3 4 = (m.load 0 4).reverse := rfl

theorem load_four (m : Memory Byte) : m.load 0 4 = [m 0, m 1, m 2, m 3] := rfl

/-- A whole member, read from its first byte on. -/
theorem readMember_whole {p : Parts} (config : Config p) {f : Field} {n : ℕ}
    (h : ∃ m, place? p f = some m ∧ n = m.size) : readMember config f 0 n = config.read f := by
  obtain ⟨m, hm, rfl⟩ := h
  simp [readMember, Config.read, hm]

theorem modbusStoreReg_of_ret {io : RequestIo} {soc : Soc b} {r : Reg} {data : Memory Byte}
    {dataLen : ℕ} (h : 0 ≤ (modbusStoreReg io soc r.addr data dataLen).ret) :
    modbusStoreReg io soc r.addr data dataLen = storeSwitch io soc (some r) data dataLen := by
  unfold modbusStoreReg at h ⊢
  split_ifs at h ⊢ with hguard
  · exact absurd h (by decide : ¬ (0 : ℤ) ≤ -2)
  · rw [Reg.ofAddr?_addr]

/-- After a successful write of a configuration register its member has the bytes stored. -/
theorem read_after_store {io io' : RequestIo} {soc : Soc b} {r : Reg} {data : Memory Byte}
    {dataLen : ℕ} {f : Field} {xs : List Byte} (hf : configField? b data r = some (f, xs))
    (hcrc : f ≠ .crc16) (hret : 0 ≤ (modbusStoreReg io soc r.addr data dataLen).ret)
    (hio : IdealRead io'.load) :
    (configLoadOrDefault b.parts io'.load
      (modbusStoreReg io soc r.addr data dataLen).soc.eeprom).read f = xs := by
  obtain ⟨m, hm, hlen⟩ := configField_size hf
  rcases modbusStoreReg_config io soc dataLen hf with ⟨hfail, -⟩ | hstore
  · rw [hfail] at hret
    exact absurd hret (by decide)
  · rw [hstore.ret] at hret
    rw [hstore.eeprom, configLoadOrDefault_ok (load_after_store hio hret), updated,
      read_sealCrc_of_ne _ hcrc fun _ => crc16_size]
    exact read_write_self _ hm hlen

/-! ## Section 4: Which registers come back -/

/-- A configuration register of which the read case sends the whole member comes back with
the bytes stored. -/
theorem field_member {io io' : RequestIo} {soc : Soc b} {r : Reg} {data : Memory Byte}
    {dataLen n : ℕ} {f : Field} (xs : List Byte) (hf : configField? b data r = some (f, xs))
    (hcrc : f ≠ .crc16) (hn : n = xs.length)
    (hret : 0 ≤ (modbusStoreReg io soc r.addr data dataLen).ret) (hio : IdealRead io'.load)
    (tx : Memory Byte) :
    ReadReply.field ⟨3, readMember (configLoadOrDefault b.parts io'.load
      (modbusStoreReg io soc r.addr data dataLen).soc.eeprom) f 0 n, n⟩ tx = xs := by
  subst hn
  rw [readMember_whole _ (configField_size hf), read_after_store hf hcrc hret hio]
  exact field_of_full xs tx

/-- A data field of six bytes is not what a request with four wrote. -/
theorem field_ne_of_six {rep : ReadReply} {v : List Byte} (hrep : rep.len = 6)
    (hv : v.length = 4) (tx : Memory Byte) : rep.field tx = v ↔ False := by
  refine iff_false_intro fun h => ?_
  have hlen := length_field rep tx
  rw [h, hv, hrep] at hlen
  exact absurd hlen (by decide)

/-- The read case of a register, after a successful write of `v` to it. -/
theorem readReg_after_store {io io' : RequestIo} {soc : Soc b} {r : Reg} {v : List Byte}
    {data : Memory Byte} {dataLen : ℕ} (hv : r.Holds v) (hdata : data.load 0 v.length = v)
    (hret : 0 ≤ (modbusStoreReg io soc r.addr data dataLen).ret) (hio : IdealRead io'.load) :
    ∃ rep, readReg io' (modbusStoreReg io soc r.addr data dataLen).soc (some r) = some rep ∧
      ∀ tx, rep.field tx = v ↔ r.RoundTrips v := by
  have hswitch := modbusStoreReg_of_ret hret
  -- variables are sent as words
  have hword : ∀ w, v = [data 0, data 1, data 2, data 3] →
      w = be32 (data 0) (data 1) (data 2) (data 3) →
      ∀ tx, (readWordReg w).field tx = v ↔ True := by
    intro w hv4 hw tx
    rw [hw, readWordReg_be32, hv4]
    exact iff_of_true (field_of_full _ tx) trivial
  have hbyte : ∀ x, v = [0, 0, 0, x] → v = [data 0, data 1, data 2, data 3] := by
    intro x hx
    rw [← load_four data, ← hdata, hx]
    rfl
  cases r with
  | framebuffer | sysCounter | irqCounter | printText | clearText | audiodac0Buffer | reboot =>
    exact absurd hv id
  | scratch | configWrite =>
    have hv4 : v = [data 0, data 1, data 2, data 3] := by
      rw [← load_four data, ← hdata, show v.length = 4 from hv]
    rw [hswitch]
    exact ⟨_, rfl, hword _ hv4 rfl⟩
  | color | videoMode =>
    obtain ⟨x, hx⟩ := hv
    have hv4 := hbyte x hx
    rw [hswitch]
    refine ⟨_, rfl, hword _ hv4 ?_⟩
    rw [hx] at hv4
    simp only [List.cons.injEq, and_true] at hv4
    obtain ⟨h₀, h₁, h₂, -⟩ := hv4
    rw [← h₀, ← h₁, ← h₂]
    exact setWidth_eq_be32 _
  | mbusAddr | configOptions =>
    obtain ⟨x, hx⟩ := hv
    -- the reply announces six bytes, the request had four
    exact ⟨_, rfl, field_ne_of_six rfl (by rw [hx]; rfl)⟩
  | mbusBaud => exact ⟨_, rfl, field_ne_of_six rfl hv⟩
  | hubType =>
    obtain ⟨x, hx⟩ := hv
    by_cases hhub : b.hasHub = true
    · simp only [readReg, hhub, if_true]
      exact ⟨_, rfl, field_ne_of_six rfl (by rw [hx]; rfl)⟩
    · rw [hswitch] at hret
      simp [storeSwitch, hhub] at hret
  | ipAddr | gwAddr | netmask =>
    by_cases hmac : b.hasMac = true
    · have hlen : v.length = 4 := hv
      -- the write reverses the bytes, the read does not reverse them back
      have hrev : memcpyRev data 3 4 = v.reverse := by
        rw [hlen] at hdata
        rw [memcpyRev_eq_reverse, hdata]
      simp only [readReg, hmac, if_true]
      refine ⟨_, rfl, fun tx => ?_⟩
      show _ ↔ v.reverse = v
      refine Eq.congr_left (Eq.trans (field_member (memcpyRev data 3 4) ?_ ?_ rfl hret hio tx) hrev)
      · simp only [configField?, hmac, if_true]
      · decide
    · rw [hswitch] at hret
      simp [storeSwitch, configField?, hmac] at hret
  | macAddr =>
    by_cases hmac : b.hasMac = true
    · have hlen : v.length = 6 := hv
      -- stored and sent forward
      have hf : configField? b data .macAddr = some (.macAddr, v) := by
        rw [hlen] at hdata
        simp [configField?, hmac, hdata]
      simp only [readReg, hmac, if_true]
      exact ⟨_, rfl, fun tx =>
        iff_of_true (field_member v hf (by decide) hlen.symm hret hio tx) trivial⟩
    · rw [hswitch] at hret
      simp [storeSwitch, configField?, hmac] at hret

/-- **Reading back what was written.**  A successful write of `v` to a register, followed by
a read of it from an EEPROM that works, returns `v` in the data field exactly for the
variables of `modbus.c`, the MAC address, and the IP registers with a value that reads the
same from both ends. -/
theorem roundTrip_iff (io io' : RequestIo) (soc : Soc b) (r : Reg) (v : List Byte)
    (w q : Frame) (tx tx' : Memory Byte) (hv : r.Holds v) (hw : WriteRequest soc w r v)
    (hret : 0 ≤ (modbusStoreReg io soc r.addr w.data w.dataLen).ret)
    (hio : IdealRead io'.load) (hq : ReadRequest (modbusRecv io soc w tx).soc q r) :
    (modbusRecv io' (modbusRecv io soc w tx).soc q tx').dataField = v ↔ r.RoundTrips v := by
  obtain ⟨rep, hreg, hfield⟩ := readReg_after_store hv hw.data hret hio
  rw [← soc_writeRequest hw tx] at hreg
  rw [dataField_modbusRecv hq hreg]
  exact hfield _

/-- The data field of the reply to a read of `r` after a write of `v`, both on a bus that
works. -/
def readBack (r : Reg) (v : List Byte) : List Byte :=
  (modbusRecv quietIo (modbusRecv quietIo configured (writeFrame r v) fun _ => 0).soc
    (readFrame r) fun _ => 0).dataField

theorem roundTrip_mac :
    readBack .macAddr [2, 10, 11, 12, 21, 149] = [2, 10, 11, 12, 21, 149] ↔
      Reg.RoundTrips .macAddr [2, 10, 11, 12, 21, 149] :=
  roundTrip_iff quietIo quietIo configured .macAddr [2, 10, 11, 12, 21, 149]
    (writeFrame .macAddr [2, 10, 11, 12, 21, 149]) (readFrame .macAddr) (fun _ => 0) (fun _ => 0)
    rfl
    ⟨by decide +kernel, by decide +kernel, by decide +kernel, rfl, by decide +kernel⟩
    (by decide +kernel) (fun _ _ => rfl)
    ⟨by decide +kernel, by decide +kernel, by decide +kernel, by decide +kernel⟩

/-- The address 10.0.0.1 is written without error and read back as 1.0.0.10; Modbus address
5 is read back with two bytes too many. -/
theorem readBack_reversed :
    (modbusStoreReg quietIo configured Reg.ipAddr.addr (writeFrame .ipAddr [10, 0, 0, 1]).data
        (writeFrame .ipAddr [10, 0, 0, 1]).dataLen).ret = 0 ∧
      readBack .ipAddr [10, 0, 0, 1] = [1, 0, 0, 10] ∧
      readBack .mbusAddr [0, 0, 0, 5] = [0, 0, 0, 5, 0, 0] := by
  refine ⟨?_, ?_, ?_⟩ <;> decide +kernel

end Karnix.Modbus
