import Karnix.Modbus.RoundTrip

/-!
# Well-formed replies

What a master can rely on in a reply of `modbus_recv`: the check-sum at its end, and that it is
either an exception or an answer with the function code of the request.

The registers that a build can read are listed apart from the code that reads them.
-/

namespace Karnix.Modbus

open Karnix.Library
open Karnix.Config

variable {b : Build}

/-! ## Section 1: What a master expects -/

/-- The last two bytes are the check-sum of those before them. -/
def Reply.Sealed (r : Reply) : Prop :=
  r.tx.load (r.len - 2) 2 = leBytes16 (crc16 (r.tx.load 0 (r.len - 2)))

/-- The error codes of `modbus.h`. -/
def errCodes : List Byte := [errFuncNotImplemented, errAddrNotAvailable, errWrongArgs, errSysError]

/-- An exception: address, function code with its highest bit set, error code, check-sum. -/
structure Reply.Exception (soc : Soc b) (rx : Frame) (r : Reply) : Prop where
  len : r.len = 5
  addr : r.tx 0 = soc.modbusAddr
  func : r.tx 1 = rx.func ||| 0x80
  code : r.tx 2 ∈ errCodes

/-- The request reads a register, or asks who the device is. -/
def Frame.Reads (rx : Frame) : Prop :=
  (Func.ofCode? rx.func).any fun f => !f.isWrite

/-- An answer: its function code is that of the request, and its byte count, if it has one, is the
number of the bytes between it and the check-sum. -/
structure Reply.Normal (soc : Soc b) (rx : Frame) (r : Reply) : Prop where
  addr : r.tx 0 = soc.modbusAddr
  func : r.tx 1 = rx.func
  byteCount : rx.Reads → r.len = 5 + (r.tx 2).toNat

/-- The registers a build can read. -/
def Build.readable (b : Build) : Reg → Bool
  | .sysCounter | .irqCounter | .scratch | .configWrite | .color | .videoMode => true
  | .mbusAddr | .configOptions | .mbusBaud => true
  | .ipAddr | .gwAddr | .netmask | .macAddr => b.hasMac
  | .hubType => b.hasHub
  | _ => false

/-- A read of one register that the build does not have, or that cannot be read. -/
def Frame.ReadsUnknown (b : Build) (rx : Frame) : Prop :=
  (Func.ofCode? rx.func).any Func.isRead ∧ rx.qty = 1 ∧
    (Reg.ofAddr? rx.regAddr).any b.readable = false

/-- The request names a function or a register that there is not, has wrong arguments, or fails. -/
def Fails (io : RequestIo) (soc : Soc b) (rx : Frame) : Prop :=
  match Func.ofCode? rx.func with
  | none => True
  | some .id => False
  | some f =>
    if f.isWrite then (modbusStoreReg io soc rx.regAddr rx.data rx.dataLen).ret < 0
    else rx.qty ≠ 1 ∨ (Reg.ofAddr? rx.regAddr).any b.readable = false

/-- A reply as it should be. -/
structure Reply.WellFormed (io : RequestIo) (soc : Soc b) (rx : Frame) (r : Reply) : Prop where
  crc : r.Sealed
  shape : r.Exception soc rx ∨ r.Normal soc rx
  exception : Fails io soc rx → r.Exception soc rx

/-- The reply a call of `modbus_recv` returns. -/
def Received.reply (r : Received b) (tx : Memory Byte) : Reply := ⟨r.tx.getD tx, r.ret.toNat⟩

/-! ## Section 2: Frames under construction -/

/-- `add_crc` seals what is in front of it. -/
theorem sealed_addCrc (tx : Memory Byte) (n : ℕ) : Reply.Sealed ⟨addCrc tx n, n + 2⟩ := by
  show (addCrc tx n).load n 2 = leBytes16 (crc16 ((addCrc tx n).load 0 n))
  rw [load_addCrc tx (Nat.le_of_eq (Nat.zero_add n))]
  exact Memory.load_store_self tx n (leBytes16 _)

/-- Address and function code, which no later write touches. -/
def Started (addr func : Byte) (tx : Memory Byte) : Prop := tx 0 = addr ∧ tx 1 = func

theorem started_txStart (soc : Soc b) (rx : Frame) (tx : Memory Byte) :
    Started soc.modbusAddr rx.func (txStart soc rx tx) := ⟨rfl, rfl⟩

theorem Started.store {addr func : Byte} {tx : Memory Byte} (h : Started addr func tx) {a : ℕ}
    (ha : 2 ≤ a) (xs : List Byte) : Started addr func (tx.store a xs) :=
  ⟨(Memory.store_of_lt tx xs (Nat.lt_of_lt_of_le Nat.two_pos ha)).trans h.1,
    (Memory.store_of_lt tx xs (Nat.lt_of_lt_of_le Nat.one_lt_two ha)).trans h.2⟩

theorem Started.addCrc {addr func : Byte} {tx : Memory Byte} (h : Started addr func tx) {n : ℕ}
    (hn : 2 ≤ n) : Started addr func (addCrc tx n) := h.store hn _

theorem addCrc_of_lt (tx : Memory Byte) {k n : ℕ} (h : k < n) : addCrc tx n k = tx k :=
  Memory.store_of_lt tx _ h

theorem exception_modbusError (soc : Soc b) {errCode : Byte} (hcode : errCode ∈ errCodes)
    (rx : Frame) (tx : Memory Byte) :
    (modbusError soc rx.func errCode tx).Sealed ∧
      (modbusError soc rx.func errCode tx).Exception soc rx := by
  have hbyte : ∀ k < 3, (modbusError soc rx.func errCode tx).tx k =
      tx.store 0 [soc.modbusAddr, rx.func ||| 0x80, errCode] k := fun k hk => addCrc_of_lt _ hk
  refine ⟨sealed_addCrc _ 3, rfl, hbyte 0 (by decide), hbyte 1 (by decide), ?_⟩
  rw [hbyte 2 (by decide)]
  exact hcode

/-! ## Section 3: The functions -/

theorem readReg_eq_none_iff (io : RequestIo) (soc : Soc b) (reg : Option Reg) :
    readReg io soc reg = none ↔ reg.any b.readable = false := by
  cases reg with
  | none => exact iff_of_true rfl rfl
  | some r =>
    cases r <;> simp only [readReg, Option.any_some, Build.readable] <;>
      first
        | exact iff_of_true rfl rfl
        | exact iff_of_false (Option.some_ne_none _) Bool.false_ne_true.symm
        | simp

/-- The data of a register goes behind the byte count. -/
theorem readReg_pos {io : RequestIo} {soc : Soc b} {reg : Option Reg} {r : ReadReply}
    (h : readReg io soc reg = some r) : 3 ≤ r.pos := by
  have hmember : ∀ {f off len pos n}, 3 ≤ pos →
      (⟨pos, readMember (configLoadOrDefault b.parts io.load soc.eeprom) f off len, n⟩ :
        ReadReply) = r → 3 ≤ r.pos := by
    rintro f off len pos n hpos rfl
    exact hpos
  cases reg with
  | none => cases h
  | some reg =>
    cases reg <;> simp only [readReg, Option.some.injEq, reduceCtorEq] at h <;>
      first
        | (subst h; exact Nat.le_refl 3)
        | exact hmember (by decide) h
        | (split_ifs at h; exact hmember (by decide) (Option.some.inj h))

/-- The byte count is still there when the check-sum is. -/
theorem addCrc_byteCount (tx : Memory Byte) (x : Byte) (n : ℕ) :
    addCrc (tx.store 2 [x]) (n + 3) 2 = x :=
  (addCrc_of_lt _ (Nat.lt_add_left n (show 2 < 3 by decide))).trans rfl

theorem length_mod_byte {n : ℕ} (h : n < 256) : (BitVec.ofNat 8 n).toNat = n := by
  rw [BitVec.toNat_ofNat]
  exact Nat.mod_eq_of_lt h

/-- A frame with its byte count and check-sum filled in. -/
theorem normal_counted {soc : Soc b} {rx : Frame} {tx : Memory Byte}
    (h : Started soc.modbusAddr rx.func tx) {n : ℕ} (hn : n < 256) :
    Reply.Sealed ⟨addCrc (tx.store 2 [BitVec.ofNat 8 n]) (n + 3), n + 3 + 2⟩ ∧
      Reply.Normal soc rx ⟨addCrc (tx.store 2 [BitVec.ofNat 8 n]) (n + 3), n + 3 + 2⟩ := by
  have hstart := (h.store (Nat.le_refl 2) [BitVec.ofNat 8 n]).addCrc (Nat.le_add_left 2 (n + 1))
  refine ⟨sealed_addCrc _ _, hstart.1, hstart.2, ?_⟩
  intro _
  show n + 3 + 2 = 5 + (addCrc (tx.store 2 [BitVec.ofNat 8 n]) (n + 3) 2).toNat
  rw [addCrc_byteCount, length_mod_byte hn, Nat.add_assoc, Nat.add_comm]

theorem normal_idReply {soc : Soc b} {rx : Frame} {tx : Memory Byte}
    (h : Started soc.modbusAddr rx.func tx) :
    (idReply b tx).Sealed ∧ (idReply b tx).Normal soc rx := by
  have hlen : b.idText.length < 256 := Nat.lt_of_le_of_lt (length_idText_le b) (by decide)
  have htext := h.store (show 2 ≤ 3 by decide) (b.idText ++ [0])
  unfold idReply
  -- the text itself does not matter
  generalize b.idText = text at hlen htext
  exact normal_counted htext hlen

/-- A read of one register is answered normally if the register is there.  If it is not, the byte
count takes the place of the error code. -/
theorem readReply_of_one (io : RequestIo) {soc : Soc b} {rx : Frame} {tx : Memory Byte}
    (h : Started soc.modbusAddr rx.func tx) (hqty : rx.qty = 1) :
    (∃ r, readReg io soc (Reg.ofAddr? rx.regAddr) = some r ∧ (readReply io soc rx tx).Sealed ∧
        (readReply io soc rx tx).Normal soc rx) ∨
      readReg io soc (Reg.ofAddr? rx.regAddr) = none ∧ (readReply io soc rx tx).len = 10 ∧
        (readReply io soc rx tx).tx 1 = rx.func ||| 0x80 := by
  unfold readReply
  rw [if_neg (not_not.mpr hqty)]
  cases hreg : readReg io soc (Reg.ofAddr? rx.regAddr) with
  | none =>
    have herror := exception_modbusError soc (show errAddrNotAvailable ∈ errCodes by decide) rx tx
    refine Or.inr ⟨rfl, rfl, ?_⟩
    -- neither the byte count nor the second check-sum reaches the function code
    show addCrc (((modbusError soc rx.func errAddrNotAvailable tx).tx).store 2 [BitVec.ofNat 8 5])
      8 1 = _
    rw [addCrc_of_lt _ (show 1 < 8 by decide), Memory.store_of_lt _ _ (show 1 < 2 by decide)]
    exact herror.2.func
  | some r =>
    left
    obtain ⟨hfit, hlen⟩ := readReg_fits hreg
    obtain ⟨hsealed, hnormal⟩ := normal_counted (h.store (Nat.le_of_succ_le (readReg_pos hreg))
      r.bytes) (Nat.lt_of_le_of_lt hlen (by decide))
    exact ⟨r, rfl, hsealed, hnormal⟩

theorem exception_writeReply {soc : Soc b} {rx : Frame} {st : Stored b} {tx : Memory Byte}
    (hsoc : st.soc.modbusAddr = soc.modbusAddr) (hret : st.ret < 0) :
    (writeReply rx st tx).Sealed ∧ (writeReply rx st tx).Exception soc rx := by
  have hexception : ∀ errCode ∈ errCodes, (modbusError st.soc rx.func errCode tx).Sealed ∧
      (modbusError st.soc rx.func errCode tx).Exception soc rx := by
    intro errCode hcode
    obtain ⟨hsealed, hlen, haddr, hfunc, herr⟩ := exception_modbusError st.soc hcode rx tx
    exact ⟨hsealed, hlen, haddr.trans hsoc, hfunc, herr⟩
  unfold writeReply
  rw [if_pos hret]
  split_ifs
  · exact hexception errSysError (by decide)
  · exact hexception errWrongArgs (by decide)

theorem normal_writeReply {soc : Soc b} {rx : Frame} {st : Stored b} {tx : Memory Byte}
    (h : Started soc.modbusAddr rx.func tx) (hret : ¬ st.ret < 0) (hreads : ¬ rx.Reads) :
    (writeReply rx st tx).Sealed ∧ (writeReply rx st tx).Normal soc rx := by
  unfold writeReply
  rw [if_neg hret]
  have hstart := ((h.store (Nat.le_refl 2) (rx.buf.load 2 4)).store (show 2 ≤ 2 + 4 by decide)
    (st.data.load 0 st.ret.toNat)).addCrc (show 2 ≤ 2 + 4 + st.ret.toNat by omega)
  exact ⟨sealed_addCrc _ _, hstart.1, hstart.2, fun hr => absurd hr hreads⟩

theorem modbusStoreReg_modbusAddr (io : RequestIo) (soc : Soc b) (reg : BitVec 16)
    (data : Memory Byte) (dataLen : ℕ) :
    (modbusStoreReg io soc reg data dataLen).soc.modbusAddr = soc.modbusAddr := by
  have hactive : (modbusStoreReg io soc reg data dataLen).soc.activeConfig = soc.activeConfig := by
    unfold modbusStoreReg
    split_ifs
    · rfl
    · rcases storeSwitch_cases io soc (Reg.ofAddr? reg) data dataLen with h | ⟨_, _, _, -, -, h⟩
      · exact h.activeConfig
      · exact h.activeConfig
  rw [Soc.modbusAddr, hactive]
  rfl

/-! ## Section 4: Every reply -/

/-- A sealed answer to a request that does not fail. -/
theorem wellFormed_normal {io : RequestIo} {soc : Soc b} {rx : Frame} {r : Reply}
    (h : r.Sealed ∧ r.Normal soc rx) (hgood : ¬ Fails io soc rx) : r.WellFormed io soc rx :=
  ⟨h.1, Or.inr h.2, fun hfail => absurd hfail hgood⟩

/-- A sealed exception is always well formed. -/
theorem wellFormed_exception {io : RequestIo} {soc : Soc b} {rx : Frame} {r : Reply}
    (h : r.Sealed ∧ r.Exception soc rx) : r.WellFormed io soc rx :=
  ⟨h.1, Or.inl h.2, fun _ => h.2⟩

/-- The read functions: the reply is well formed unless the one register that is asked for is
unknown. -/
theorem readReply_iff {io : RequestIo} {soc : Soc b} {rx : Frame} {tx : Memory Byte} {f : Func}
    (h : Started soc.modbusAddr rx.func tx) (hfunc : Func.ofCode? rx.func = some f)
    (hread : f.isRead = true) (hid : f ≠ .id) (hwrite : f.isWrite = false) :
    (readReply io soc rx tx).WellFormed io soc rx ↔ ¬ rx.ReadsUnknown b := by
  have hfails : Fails io soc rx ↔
      (rx.qty ≠ 1 ∨ (Reg.ofAddr? rx.regAddr).any b.readable = false) := by
    unfold Fails
    rw [hfunc]
    cases f <;> first | exact absurd rfl hid | exact Bool.noConfusion hwrite | exact Iff.rfl
  have hany : (Func.ofCode? rx.func).any Func.isRead = true := by rw [hfunc]; exact hread
  by_cases hqty : rx.qty = 1
  · rcases readReply_of_one io h hqty with ⟨r, hreg, hreply⟩ | ⟨hreg, hlen, -⟩
    · -- the register is there
      have hknown : ¬ (Reg.ofAddr? rx.regAddr).any b.readable = false := by
        intro hunknown
        rw [(readReg_eq_none_iff io soc _).mpr hunknown] at hreg
        cases hreg
      refine iff_of_true (wellFormed_normal hreply ?_) fun hno => hknown hno.2.2
      rw [hfails]
      exact not_or.mpr ⟨not_not.mpr hqty, hknown⟩
    · -- it is not: the request fails, and the reply has ten bytes
      have hunknown := (readReg_eq_none_iff io soc _).mp hreg
      refine iff_of_false ?_ (not_not.mpr ⟨hany, hqty, hunknown⟩)
      intro hwell
      have hfive := (hwell.exception (hfails.mpr (Or.inr hunknown))).len
      rw [hlen] at hfive
      exact absurd hfive (by decide)
  · refine iff_of_true (wellFormed_exception ?_) fun hno => hqty hno.2.1
    unfold readReply
    rw [if_pos hqty]
    exact exception_modbusError soc (by decide) rx tx

/-- The write functions always reply well. -/
theorem wellFormed_writeReply {io : RequestIo} {soc : Soc b} {rx : Frame} {tx : Memory Byte}
    {f : Func} (h : Started soc.modbusAddr rx.func tx) (hfunc : Func.ofCode? rx.func = some f)
    (hwrite : f.isWrite = true) :
    (writeReply rx (modbusStoreReg io soc rx.regAddr rx.data rx.dataLen) tx).WellFormed io soc
      rx := by
  have hreads : ¬ rx.Reads := by
    unfold Frame.Reads
    rw [hfunc, Option.any_some, hwrite]
    exact Bool.false_ne_true
  by_cases hret : (modbusStoreReg io soc rx.regAddr rx.data rx.dataLen).ret < 0
  · exact wellFormed_exception
      (exception_writeReply (modbusStoreReg_modbusAddr io soc rx.regAddr rx.data rx.dataLen) hret)
  · refine wellFormed_normal (normal_writeReply h hret hreads) ?_
    unfold Fails
    rw [hfunc]
    cases f <;> first | exact Bool.noConfusion hwrite | exact hret

/-- **Well-formed replies.**  Every reply to an accepted request is well formed, unless the request
reads one register that the build does not have or that cannot be read. -/
theorem replies_iff (io : RequestIo) {soc : Soc b} {rx : Frame} (h : soc.Accepts rx)
    (tx : Memory Byte) :
    ((modbusRecv io soc rx tx).reply tx).WellFormed io soc rx ↔ ¬ rx.ReadsUnknown b := by
  have hreply : (modbusRecv io soc rx tx).reply tx = (accept io soc rx tx).1 := by
    rw [modbusRecv_of_accepts h]
    rfl
  have hstart := started_txStart soc rx tx
  rw [hreply]
  unfold accept
  have hother : ∀ f, Func.ofCode? rx.func = some f → f.isRead = false → ¬ rx.ReadsUnknown b := by
    rintro f hfunc hf ⟨hread, -, -⟩
    rw [hfunc, Option.any_some, hf] at hread
    exact Bool.noConfusion hread
  cases hfunc : Func.ofCode? rx.func with
  | none =>
    refine iff_of_true (wellFormed_exception (exception_modbusError soc (by decide) rx _)) ?_
    rintro ⟨hread, -, -⟩
    rw [hfunc] at hread
    exact Bool.noConfusion hread
  | some f =>
    cases f with
    | readCoils | readDiscInput | readHoldRegs =>
      exact readReply_iff hstart hfunc rfl Func.noConfusion rfl
    | writeOneCoilReg | writeOneHoldReg | writeManyCoilReg | writeManyHoldReg =>
      exact iff_of_true (wellFormed_writeReply hstart hfunc rfl) (hother _ hfunc rfl)
    | id =>
      refine iff_of_true (wellFormed_normal (normal_idReply hstart) ?_) (hother _ hfunc rfl)
      unfold Fails
      rw [hfunc]
      exact not_false

/-- The reply to a frame with the given bytes, sent to a device that is configured. -/
def replyTo (bytes : List Byte) : Reply :=
  (modbusRecv quietIo configured (frameOf bytes) fun _ => 0).reply fun _ => 0

/-- A read of the lock register. -/
theorem replies_configWrite :
    (replyTo [1, 3, 0, 126, 0, 1]).WellFormed quietIo configured (frameOf [1, 3, 0, 126, 0, 1]) ↔
      ¬ (frameOf [1, 3, 0, 126, 0, 1]).ReadsUnknown monitorBuild :=
  replies_iff quietIo ⟨by decide +kernel, by decide +kernel, by decide +kernel⟩ fun _ => 0

/-- Register 99 does not exist.  The error code of the exception is overwritten by its length, and
a second check-sum is put behind the first. -/
theorem replies_register99 :
    configured.Accepts (frameOf [1, 3, 0, 99, 0, 1]) ∧
      (replyTo [1, 3, 0, 99, 0, 1]).len = 10 ∧
      (replyTo [1, 3, 0, 99, 0, 1]).tx.load 0 3 = [1, 0x83, 5] ∧
      ¬ (replyTo [1, 3, 0, 99, 0, 1]).WellFormed quietIo configured
        (frameOf [1, 3, 0, 99, 0, 1]) := by
  have hlen : (replyTo [1, 3, 0, 99, 0, 1]).len = 10 := by decide +kernel
  have hfails : Fails quietIo configured (frameOf [1, 3, 0, 99, 0, 1]) := by
    right
    decide +kernel
  refine ⟨⟨by decide +kernel, by decide +kernel, by decide +kernel⟩, hlen, by decide +kernel, ?_⟩
  intro hwell
  have hfive := (hwell.exception hfails).len
  rw [hlen] at hfive
  exact absurd hfive (by decide)

end Karnix.Modbus
