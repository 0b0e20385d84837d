import Mathlib.Tactic.Linarith
import Karnix.Config.Layout

/-!
# The configuration in the EEPROM

`eeprom_write_page`, `eeprom_poll` and `eeprom_read_page` of `eeprom.c`, and `config_load`
and `config_save` of `config.c` on top of them.

How each byte transfer on the I2C bus ends is chosen by the environment.  The EEPROM keeps
its bytes when it is read, and stores a page whose bytes it has all acknowledged.  When
`eeprom_write_page` gives up half-way, the device may have stored any of the bytes sent so
far.
-/

namespace Karnix.Config

open Karnix.Library

/-! ## Section 1: Transfers -/

/-- How one byte transfer ends, as the driver sees it. -/
inductive Xfer where
  | ack
  | nack
  /-- `i2c_wait_for_busy` timed out. -/
  | busyTimeout
  /-- `i2c_wait_for_release` timed out. -/
  | releaseTimeout
  deriving DecidableEq, Repr

/-- No timeout and an acknowledge. -/
def Xfer.acked : Xfer → Bool
  | .ack => true
  | _ => false

/-- No timeout: the byte has been sent, and the other side has said yes or no. -/
def Xfer.finished : Xfer → Bool
  | .ack | .nack => true
  | _ => false

/-! ## Section 2: Pages -/

/-- What the bus and the device do during one `eeprom_write_page`. -/
structure PageWrite where
  /-- How the `k`-th transfer of the call ends. -/
  xfer : ℕ → Xfer
  /-- Whether a data byte is stored although the call gives up after sending it. -/
  programmed : ℕ → Bool

/-- The loop of `eeprom_write_page` over the data bytes from byte `i` on: how many bytes
were sent, and whether all were acknowledged. -/
def sendBytes (xfer : ℕ → Xfer) : ℕ → ℕ → ℕ × Bool
  | i, 0 => (i, true)
  | i, n + 1 => if (xfer (2 + i)).acked then sendBytes xfer (i + 1) n else (i + 1, false)

/-- The memory after a page write broke off with `sent` bytes sent. -/
def tornPage (programmed : ℕ → Bool) (mem : Memory Byte) (memAddr sent : ℕ)
    (data : List Byte) : Memory Byte := fun a =>
  if memAddr ≤ a ∧ a < memAddr + sent ∧ programmed (a - memAddr) then
    (data[a - memAddr]?).getD (mem a)
  else mem a

/-- `eeprom_write_page`: what is stored is torn if the transfer ends before its last byte. -/
def eepromWritePage (io : PageWrite) (mem : Memory Byte) (memAddr : ℕ) (data : List Byte) :
    ℤ × Memory Byte :=
  if (io.xfer 0).acked && (io.xfer 1).acked then
    let r := sendBytes io.xfer 0 data.length
    if r.2 then (data.length, mem.store memAddr data)
    else (-1, tornPage io.programmed mem memAddr r.1 data)
  else (-1, mem)

/-- `eeprom_poll`: whether the memory is ready, busy, or not heard of. -/
def eepromPoll : Xfer → ℤ
  | .ack => 0
  | .nack => 1
  | .busyTimeout | .releaseTimeout => -1

/-- `eeprom_read_page`: the bytes read, or `none` where it returns an error. -/
def eepromReadPage (xfer : ℕ → Xfer) (mem : Memory Byte) (memAddr bytes : ℕ) :
    Option (List Byte) :=
  if (xfer 0).acked && (xfer 1).acked && (xfer 2).acked
      && (List.range bytes).all (fun i => (xfer (3 + i)).finished) then
    some (mem.load memAddr bytes)
  else none

/-- A page write stores the page, or it gives up with some bytes sent, possibly none. -/
theorem eepromWritePage_cases (io : PageWrite) (mem : Memory Byte) (memAddr : ℕ)
    (data : List Byte) :
    eepromWritePage io mem memAddr data = ((data.length : ℤ), mem.store memAddr data) ∨
      ∃ sent, eepromWritePage io mem memAddr data =
        (-1, tornPage io.programmed mem memAddr sent data) := by
  simp only [eepromWritePage]
  split_ifs with haddr hall
  · exact Or.inl rfl
  · exact Or.inr ⟨_, rfl⟩
  · -- the address was not acknowledged, so nothing was sent
    refine Or.inr ⟨0, ?_⟩
    have hnone : tornPage io.programmed mem memAddr 0 data = mem := by
      funext a
      exact if_neg (by omega)
    rw [hnone]

/-- A byte of a torn page is the old one or the one of the page. -/
theorem tornPage_cell (programmed : ℕ → Bool) (mem : Memory Byte) (memAddr sent : ℕ)
    (data : List Byte) (a : ℕ) :
    tornPage programmed mem memAddr sent data a = mem a ∨
      ∃ i, ∃ h : i < data.length, a = memAddr + i ∧
        tornPage programmed mem memAddr sent data a = data[i] := by
  unfold tornPage
  split_ifs with hcell
  · obtain ⟨i, rfl⟩ := Nat.exists_eq_add_of_le hcell.1
    rcases Nat.lt_or_ge i data.length with hi | hi
    · exact Or.inr ⟨i, hi, rfl, by simp [hi]⟩
    · exact Or.inl (by simp [List.getElem?_eq_none hi])
  · exact Or.inl rfl

/-- **Page rule.**  Whatever happens during a page write, each byte is then either as it
was or as the page has it, and bytes outside the page are as they were. -/
theorem eepromWritePage_cell (io : PageWrite) (mem : Memory Byte) (memAddr : ℕ)
    (data : List Byte) (a : ℕ) :
    (eepromWritePage io mem memAddr data).2 a = mem a ∨
      ∃ i, ∃ h : i < data.length, a = memAddr + i ∧
        (eepromWritePage io mem memAddr data).2 a = data[i] := by
  rcases eepromWritePage_cases io mem memAddr data with h | ⟨sent, h⟩
  · rw [h]
    rcases Nat.lt_or_ge a memAddr with hlow | hlow
    · exact Or.inl (Memory.store_of_lt mem data hlow)
    · obtain ⟨i, rfl⟩ := Nat.exists_eq_add_of_le hlow
      rcases Nat.lt_or_ge i data.length with hi | hi
      · exact Or.inr ⟨i, hi, rfl, Memory.store_getElem mem memAddr i data hi⟩
      · exact Or.inl (Memory.store_of_ge mem data (by omega))
  · rw [h]
    exact tornPage_cell io.programmed mem memAddr sent data a

/-- A page write that reports its length has stored the page. -/
theorem eepromWritePage_ok (io : PageWrite) (mem : Memory Byte) (memAddr : ℕ)
    (data : List Byte) (h : (eepromWritePage io mem memAddr data).1 = data.length) :
    (eepromWritePage io mem memAddr data).2 = mem.store memAddr data := by
  rcases eepromWritePage_cases io mem memAddr data with hcase | ⟨sent, hcase⟩
  · rw [hcase]
  · rw [hcase] at h
    have : (-1 : ℤ) = data.length := h
    omega

/-! ## Section 3: `config_load` -/

variable {p : Parts}

/-- The largest structure `config_load` and `config_save` accept. -/
def maxConfigSize : ℕ := 128 - 4

/-- The number of four-byte pages of a `Config`. -/
def pages (p : Parts) : ℕ := (sizeofConfig p + 3) / 4

/-- The length of page `i`: four bytes, or what is left of the structure. -/
def pageLen (p : Parts) (i : ℕ) : ℕ :=
  if sizeofConfig p - i * 4 < 4 then sizeofConfig p - i * 4 else 4

/-- What the EEPROM holds where `Config` is stored. -/
def stored (p : Parts) (mem : Memory Byte) : Config p := Image.ofMemory mem 0 (sizeofConfig p)

/-- The bytes of page `i` in an object. -/
def pageOf (c : Config p) (i : ℕ) : List Byte := c.get (i * 4) (pageLen p i)

/-- `config_load`.  `io i k` is how the `k`-th transfer of the read of page `i` ends. -/
def configLoad (p : Parts) (io : ℕ → ℕ → Xfer) (mem : Memory Byte) : Except ℤ (Config p) :=
  if sizeofConfig p > maxConfigSize then .error (-1)
  else if (List.range (pages p)).all fun i =>
      (eepromReadPage (io i) mem (i * 4) (pageLen p i)).isSome then
    -- reads do not change the EEPROM, so the pages together are what it holds
    let config := stored p mem
    if leBytes16 (crc16 config.body) = config.read .crc16 then .ok config else .error (-3)
  else .error (-2)

/-- What the callers of `config_load` in `modbus.c` go on with. -/
def configLoadOrDefault (p : Parts) (io : ℕ → ℕ → Xfer) (mem : Memory Byte) : Config p :=
  match configLoad p io mem with
  | .ok config => config
  | .error _ => defaultConfig p

/-- A loaded configuration is what the EEPROM holds, with the right check-sum. -/
theorem configLoad_ok {io : ℕ → ℕ → Xfer} {mem : Memory Byte} {c : Config p}
    (h : configLoad p io mem = .ok c) :
    c = stored p mem ∧ sizeofConfig p ≤ maxConfigSize ∧
      leBytes16 (crc16 c.body) = c.read .crc16 := by
  simp only [configLoad] at h
  split_ifs at h with hsize hread hcrc
  cases h
  exact ⟨rfl, by omega, hcrc⟩

/-- The bus behaves: every transfer is acknowledged. -/
def IdealRead (io : ℕ → ℕ → Xfer) : Prop := ∀ i k, io i k = .ack

/-- On a bus that behaves, a configuration of a size that fits with the right check-sum
loads. -/
theorem configLoad_ideal {io : ℕ → ℕ → Xfer} (hio : IdealRead io) {mem : Memory Byte}
    (hsize : sizeofConfig p ≤ maxConfigSize)
    (hcrc : leBytes16 (crc16 (stored p mem).body) = (stored p mem).read .crc16) :
    configLoad p io mem = .ok (stored p mem) := by
  -- no page fails to be read, so only the check-sum decides
  have hread : ∀ i, (eepromReadPage (io i) mem (i * 4) (pageLen p i)).isSome = true := by
    intro i
    simp [eepromReadPage, hio i, Xfer.acked, Xfer.finished]
  unfold configLoad
  rw [if_neg (by omega), if_pos (by simp [hread])]
  simp only [hcrc, if_true]

/-! ## Section 4: `config_save` -/

/-- What the bus and the device do during one `config_save`. -/
structure SaveIo where
  page : ℕ → PageWrite
  /-- How the `k`-th acknowledge poll after page `i` ends. -/
  poll : ℕ → ℕ → Xfer

/-- Whether one of the ten polls after page `i` is acknowledged. -/
def SaveIo.recovered (io : SaveIo) (i : ℕ) : Bool :=
  (List.range 10).any fun k => eepromPoll (io.poll i k) = 0

/-- The loop of `config_save` over the last `n` pages, of which page `i` is the first. -/
def savePages (io : SaveIo) (c : Config p) : ℕ → ℕ → Memory Byte → ℤ × Memory Byte
  | 0, _, mem => (0, mem)
  | n + 1, i, mem =>
    let r := eepromWritePage (io.page i) mem (i * 4) (pageOf c i)
    if r.1 ≠ pageLen p i then (-2, r.2)
    else if !io.recovered i then (-3, r.2)
    else savePages io c n (i + 1) r.2

/-- `config_save`: what it returns, and the EEPROM after it. -/
def configSave (io : SaveIo) (config : Config p) (mem : Memory Byte) : ℤ × Memory Byte :=
  if sizeofConfig p > maxConfigSize then (-1, mem)
  else savePages io config.sealCrc (pages p) 0 mem

theorem pageLen_le (i : ℕ) : i * 4 + pageLen p i ≤ max (sizeofConfig p) (i * 4) := by
  unfold pageLen
  split_ifs <;> omega

theorem length_pageOf (c : Config p) (i : ℕ) : (pageOf c i).length = pageLen p i := by
  simp [pageOf]

/-- Each byte of the EEPROM after some pages were written, or writing broke off, is the one
before or the one of the object. -/
theorem savePages_cell (io : SaveIo) (c : Config p) (n i : ℕ) (mem : Memory Byte) (a : ℕ) :
    (savePages io c n i mem).2 a = mem a ∨
      a < sizeofConfig p ∧ (savePages io c n i mem).2 a = c.toMemory a := by
  induction n generalizing i mem with
  | zero => exact Or.inl rfl
  | succ n ih =>
    -- what writing page `i` leaves, whether or not it fails
    have hpage : (eepromWritePage (io.page i) mem (i * 4) (pageOf c i)).2 a = mem a ∨
        a < sizeofConfig p ∧
          (eepromWritePage (io.page i) mem (i * 4) (pageOf c i)).2 a = c.toMemory a := by
      rcases eepromWritePage_cell (io.page i) mem (i * 4) (pageOf c i) a with h | ⟨j, hj, rfl, h⟩
      · exact Or.inl h
      · have hlen := length_pageOf c i
        have hbound := pageLen_le (p := p) i
        refine Or.inr ⟨by omega, ?_⟩
        rw [h]
        simp [pageOf, Image.get]
    simp only [savePages]
    split_ifs with hret hpoll
    · exact hpage
    · exact hpage
    · rcases ih (i + 1) (eepromWritePage (io.page i) mem (i * 4) (pageOf c i)).2 with h | h
      · rw [h]
        exact hpage
      · exact Or.inr h

/-- When all pages were written, they hold the object. -/
theorem savePages_ok (io : SaveIo) (c : Config p) (n i : ℕ) (mem : Memory Byte)
    (h : (savePages io c n i mem).1 = 0) (a : ℕ) (hlow : i * 4 ≤ a)
    (hhigh : a < (i + n) * 4) (ha : a < sizeofConfig p) :
    (savePages io c n i mem).2 a = c.toMemory a := by
  induction n generalizing i mem with
  | zero => omega
  | succ n ih =>
    simp only [savePages] at h ⊢
    split_ifs at h ⊢ with hret hpoll
    · simp at h
    · simp at h
    · have hstore := eepromWritePage_ok (io.page i) mem (i * 4) (pageOf c i)
        (by rw [length_pageOf]; exact not_not.mp hret)
      rcases Nat.lt_or_ge a ((i + 1) * 4) with hpage | hpage
      · -- a byte of page `i`; later pages do not touch it, or write the same byte
        rcases savePages_cell io c n (i + 1) (eepromWritePage (io.page i) mem (i * 4)
          (pageOf c i)).2 a with hrest | ⟨-, hrest⟩
        · obtain ⟨j, rfl⟩ := Nat.exists_eq_add_of_le hlow
          have hj : j < (pageOf c i).length := by
            rw [length_pageOf]
            unfold pageLen
            split_ifs <;> omega
          rw [hrest, hstore, Memory.store_getElem mem (i * 4) j _ hj]
          simp [pageOf, Image.get]
        · exact hrest
      · exact ih (i + 1) _ h hpage (by omega)

/-- **`config_save`, in any case.**  Each byte of the EEPROM is then as it was or as in the
object being saved. -/
theorem configSave_cell (io : SaveIo) (config : Config p) (mem : Memory Byte) (a : ℕ) :
    (configSave io config mem).2 a = mem a ∨
      a < sizeofConfig p ∧ (configSave io config mem).2 a = config.sealCrc.toMemory a := by
  unfold configSave
  split_ifs with hsize
  · exact Or.inl rfl
  · exact savePages_cell io config.sealCrc (pages p) 0 mem a

/-- The loop returns zero or one of two error codes. -/
theorem savePages_ret (io : SaveIo) (c : Config p) (n i : ℕ) (mem : Memory Byte) :
    (savePages io c n i mem).1 = 0 ∨ (savePages io c n i mem).1 < 0 := by
  induction n generalizing i mem with
  | zero => exact Or.inl rfl
  | succ n ih =>
    simp only [savePages]
    split_ifs with hret hpoll
    · exact Or.inr (Int.negSucc_lt_zero 1)
    · exact Or.inr (Int.negSucc_lt_zero 2)
    · exact ih (i + 1) _

/-- **`config_save`, when it succeeds.**  The EEPROM then holds the object with its
check-sum filled in. -/
theorem configSave_ok {io : SaveIo} {config : Config p} {mem : Memory Byte}
    (h : 0 ≤ (configSave io config mem).1) :
    stored p (configSave io config mem).2 = config.sealCrc ∧
      sizeofConfig p ≤ maxConfigSize := by
  unfold configSave at h ⊢
  split_ifs at h ⊢ with hsize
  · simp at h
  · refine ⟨?_, by omega⟩
    have hret : (savePages io config.sealCrc (pages p) 0 mem).1 = 0 := by
      rcases savePages_ret io config.sealCrc (pages p) 0 mem with h0 | hneg
      · exact h0
      · omega
    apply Image.ofMemory_eq
    intro k hk
    -- the last page may be short, but it ends with the structure
    have hpages : k < (0 + pages p) * 4 := by
      unfold pages
      omega
    exact savePages_ok io config.sealCrc (pages p) 0 mem hret k (by omega) hpages hk

end Karnix.Config
