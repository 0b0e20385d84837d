import Karnix.Config.Eeprom

/-!
# Saving and loading a configuration

`config_save` takes the check-sum over all bytes of the structure but the last two, and puts
it into the member `crc16`.  Which layouts of `Config` load again what was saved, and accept
exactly the contents of the EEPROM whose check-sum fits, depends on where the compiler
places that member.
-/

namespace Karnix.Config

open Karnix.Library

variable {p : Parts}

/-! ## Section 1: The place of the check-sum -/

theorem mem_members_crc16 (p : Parts) : (⟨.crc16, 2, 2⟩ : Member Field) ∈ members p :=
  List.mem_append_right _ (by simp)

theorem size_of_mem_members (p : Parts) : ∀ m ∈ members p, m.name = .crc16 → m.size = 2 := by
  obtain ⟨mac, hub, modbus, userdata⟩ := p
  cases userdata <;> cases mac <;> cases hub <;> cases modbus <;> simp [members]

/-- Every layout has the check-sum, two bytes of it, somewhere in the structure. -/
theorem exists_place_crc16 (p : Parts) :
    ∃ o, place? p .crc16 = some ⟨.crc16, o, 2⟩ ∧ o + 2 ≤ sizeofConfig p := by
  obtain ⟨⟨name, o, size⟩, hfind⟩ := StructLayout.exists_find? (mem_members_crc16 p)
  obtain ⟨hmem, hname⟩ := StructLayout.find?_mem hfind
  obtain ⟨m, hm, hmname, hmsize⟩ := StructLayout.exists_of_mem_place hmem
  have hsize := size_of_mem_members p m hm (hmname.trans hname)
  have hbound := StructLayout.find?_bounds (members_align_pos p) hfind
  simp only at hname hmsize hbound
  rw [hsize] at hmsize
  subst hname hmsize
  exact ⟨o, hfind, hbound⟩

/-- All bytes in front of the check-sum. -/
def preceding (c : Config p) : List Byte :=
  match place? p .crc16 with
  | some m => c.get 0 m.offset
  | none => []

/-- The layout ends with the check-sum, and is of a size that `config_save` accepts. -/
def Storable (p : Parts) : Prop := CrcLast p ∧ sizeofConfig p ≤ maxConfigSize

theorem preceding_eq_body (h : CrcLast p) (c : Config p) : preceding c = c.body := by
  rw [preceding, h.1]
  rfl

/-! ## Section 2: What is asked of a layout -/

/-- What was saved loads again, in all members but the check-sum. -/
def SavedLoads (p : Parts) : Prop :=
  ∀ (c : Config p) (mem : Memory Byte) (saving : SaveIo) (loading : ℕ → ℕ → Xfer),
    IdealRead loading → (configSave saving c mem).1 = 0 →
      ∃ c', configLoad p loading (configSave saving c mem).2 = .ok c' ∧
        ∀ f, f ≠ .crc16 → c'.read f = c.read f

/-- `config_load` accepts exactly the contents of the EEPROM in which the check-sum is the
one of all bytes in front of it. -/
def LoadsIffCrc (p : Parts) : Prop :=
  ∀ (mem : Memory Byte) (loading : ℕ → ℕ → Xfer), IdealRead loading →
    ((∃ c, configLoad p loading mem = .ok c) ↔
      leBytes16 (crc16 (preceding (stored p mem))) = (stored p mem).read .crc16)

/-! ## Section 3: Layouts that end with the check-sum -/

/-- **Round trip.**  A saved configuration loads again. -/
theorem savedLoads_of_storable (h : Storable p) : SavedLoads p := by
  intro c mem saving loading hio hsave
  obtain ⟨hstored, hsize⟩ := configSave_ok hsave.ge
  have hcrc : leBytes16 (crc16 c.sealCrc.body) = c.sealCrc.read .crc16 := by
    rw [body_sealCrc h.1, read_crc16_sealCrc h.1]
  refine ⟨c.sealCrc, ?_, fun f hf => ?_⟩
  · rw [← hstored] at hcrc ⊢
    exact configLoad_ideal hio hsize hcrc
  · apply read_sealCrc_of_ne c hf
    intro m hm
    rw [h.1.1, Option.some.injEq] at hm
    rw [← hm]

theorem loadsIffCrc_of_storable (h : Storable p) : LoadsIffCrc p := by
  intro mem loading hio
  rw [preceding_eq_body h.1]
  constructor
  · rintro ⟨c, hload⟩
    obtain ⟨rfl, -, hcrc⟩ := configLoad_ok hload
    exact hcrc
  · intro hcrc
    exact ⟨_, configLoad_ideal hio h.2 hcrc⟩

/-! ## Section 4: Layouts with padding behind the check-sum -/

/-- An EEPROM of zeros, but for the check-sum of the zeros in front of it at `o`. -/
def zerosWithCrc (o : ℕ) : Memory Byte :=
  Memory.store (fun _ => 0) o (leBytes16 (crc16 (List.replicate o 0)))

theorem load_zeros (a n : ℕ) : Memory.load (fun _ => (0 : Byte)) a n = List.replicate n 0 := by
  simp [Memory.load]

theorem load_zerosWithCrc (o : ℕ) : (zerosWithCrc o).load 0 o = List.replicate o 0 := by
  rw [zerosWithCrc, Memory.load_store_of_disjoint _ _ (Or.inl (Nat.zero_add o).le), load_zeros]

/-- The check-sum over the zeros and some of the bytes behind them is another one. -/
theorem crc16_zerosWithCrc (o : ℕ) {n : ℕ} (hn : 0 < n) :
    crc16 ((zerosWithCrc o).load 0 (o + n)) ≠ crc16 (List.replicate o 0) := by
  have hne := crc16_zeros_ne_zero o
  have hcrc := Memory.load_store_self (fun _ => (0 : Byte)) o
    (leBytes16 (crc16 (List.replicate o 0)))
  rw [Memory.load_add, load_zerosWithCrc, Nat.zero_add]
  obtain ⟨k, rfl⟩ := Nat.exists_eq_add_of_le' hn
  cases k with
  | zero =>
    -- only the low byte of the check-sum is taken in
    have hlow : (zerosWithCrc o).load o 1 = [(crc16 (List.replicate o 0)).setWidth 8] := by
      rw [← Memory.take_load _ o 2 1 (by decide), zerosWithCrc]
      exact congrArg (List.take 1) hcrc
    rw [hlow, crc16_append, List.foldl_cons, List.foldl_nil, crcByte_low]
    intro heq
    apply hne
    apply BitVec.eq_of_toNat_eq
    have hnat := congrArg BitVec.toNat heq
    rw [BitVec.toNat_ushiftRight, Nat.shiftRight_eq_div_pow] at hnat
    show _ = 0
    omega
  | succ k =>
    -- the whole check-sum, and zeros behind it
    have hall : (zerosWithCrc o).load o (k + 1 + 1) =
        leBytes16 (crc16 (List.replicate o 0)) ++ List.replicate k 0 := by
      rw [Nat.add_assoc k 1 1, Nat.add_comm k, Memory.load_add]
      congr 1
      rw [← load_zeros (o + 2) k]
      apply Memory.load_congr
      intro i hi
      exact Memory.store_of_ge _ _ (Nat.le_add_right _ i)
    rw [hall, ← List.append_assoc, crc16_append_zeros (crc16_leBytes16 _)]
    exact hne.symm

theorem storable_of_loadsIffCrc (h : LoadsIffCrc p) : Storable p := by
  obtain ⟨o, hplace, hbound⟩ := exists_place_crc16 p
  have hpre : preceding (stored p (zerosWithCrc o)) = List.replicate o 0 := by
    rw [preceding, hplace, stored]
    simp only
    rw [Image.get_ofMemory _ 0 (by omega), Nat.add_zero, load_zerosWithCrc]
  have hread : (stored p (zerosWithCrc o)).read .crc16 =
      leBytes16 (crc16 (List.replicate o 0)) := by
    rw [read, hplace, stored]
    simp only
    rw [Image.get_ofMemory _ 0 hbound, Nat.zero_add]
    exact Memory.load_store_self _ o (leBytes16 (crc16 (List.replicate o 0)))
  obtain ⟨c, hload⟩ := (h (zerosWithCrc o) (fun _ _ => .ack) (fun _ _ => rfl)).2
    (by rw [hpre, hread])
  obtain ⟨rfl, hsize, hcrc⟩ := configLoad_ok hload
  refine ⟨?_, hsize⟩
  -- bytes behind the check-sum would have been taken in as well
  by_contra hlast
  have hpad : o + 2 < sizeofConfig p := by
    rcases Nat.lt_or_ge (o + 2) (sizeofConfig p) with hlt | hge
    · exact hlt
    · have ho : o = sizeofConfig p - 2 := by omega
      exact absurd ⟨hplace.trans (by rw [ho]), by omega⟩ hlast
  obtain ⟨n, hn⟩ := Nat.exists_eq_add_of_lt hpad
  have hbody : body (stored p (zerosWithCrc o)) = (zerosWithCrc o).load 0 (o + (n + 1)) := by
    rw [body, stored, Image.get_ofMemory _ 0 (by omega), Nat.add_zero]
    congr 1
    omega
  rw [hbody, hread] at hcrc
  exact crc16_zerosWithCrc o (Nat.succ_pos n) (leBytes16_injective hcrc)

/-- **Stored configurations.**  In exactly those layouts that end with the check-sum, and
fit into the EEPROM, what was saved loads again and the check-sum decides what loads. -/
theorem storedConfig_iff (p : Parts) : (SavedLoads p ∧ LoadsIffCrc p) ↔ Storable p :=
  ⟨fun h => storable_of_loadsIffCrc h.2,
    fun h => ⟨savedLoads_of_storable h, loadsIffCrc_of_storable h⟩⟩

/-- A build with the Ethernet members only: two bytes of padding follow the check-sum. -/
def macOnly : Parts := ⟨true, false, false, none⟩

/-- A bus and a device that acknowledge everything. -/
def idealSave : SaveIo := ⟨fun _ => ⟨fun _ => .ack, fun _ => false⟩, fun _ _ => .ack⟩

/-- The default configuration is saved without an error, and fails to load. -/
theorem storedConfig_macOnly :
    (configSave idealSave (defaultConfig macOnly) fun _ => 0).1 = 0 ∧
      configLoad macOnly (fun _ _ => .ack)
        (configSave idealSave (defaultConfig macOnly) fun _ => 0).2 = .error (-3) ∧
      ¬ (SavedLoads macOnly ∧ LoadsIffCrc macOnly) := by
  have hsave : (configSave idealSave (defaultConfig macOnly) fun _ => 0).1 = 0 := by
    decide +kernel
  have hload : configLoad macOnly (fun _ _ => .ack)
      (configSave idealSave (defaultConfig macOnly) fun _ => 0).2 = .error (-3) := by
    decide +kernel
  refine ⟨hsave, hload, fun h => ?_⟩
  obtain ⟨c', hok, -⟩ := h.1 _ _ idealSave (fun _ _ => .ack) (fun _ _ => rfl) hsave
  rw [hload] at hok
  cases hok

end Karnix.Config
