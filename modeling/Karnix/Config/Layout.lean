import Karnix.Library.StructLayout
import Karnix.Config.Crc16

/-!
# The `Config` structure

The members of `Config` in `config.h`, as the build selects them, where the compiler places
them, and the values of `default_config`.  A `Config` is the image of the C object, with
its padding, because `config_load` and `config_save` treat it as bytes.
-/

namespace Karnix

namespace Config

open Karnix.Library

/-! ## Section 1: Members -/

inductive Field where
  | options | ipAddr | gwAddr | netmask | macAddr | hubType | modbusAddr | modbusBaud
  | userdata | reserved | crc16
  deriving DecidableEq, Repr

/-- Size and alignment of `ConfigUserData`, which the user's own source tree declares. -/
structure UserData where
  size : ℕ
  align : ℕ
  align_pos : 0 < align

/-- The `CONFIG_HAS_…` switches that select members of `Config`. -/
structure Parts where
  hasMac : Bool
  hasHub : Bool
  hasModbus : Bool
  userdata : Option UserData

/-- The members in declaration order. -/
def members (p : Parts) : List (Member Field) :=
  [⟨.options, 1, 1⟩]
    ++ (if p.hasMac then
          [⟨.ipAddr, 4, 4⟩, ⟨.gwAddr, 4, 4⟩, ⟨.netmask, 4, 4⟩, ⟨.macAddr, 6, 1⟩] else [])
    ++ (if p.hasHub then [⟨.hubType, 1, 1⟩] else [])
    ++ (if p.hasModbus then [⟨.modbusAddr, 1, 1⟩, ⟨.modbusBaud, 4, 4⟩] else [])
    ++ (match p.userdata with
        | some u => [⟨.userdata, u.size, u.align⟩]
        | none => [])
    ++ [⟨.reserved, 2, 2⟩, ⟨.crc16, 2, 2⟩]

theorem members_align_pos (p : Parts) : ∀ m ∈ members p, 0 < m.align := by
  obtain ⟨mac, hub, modbus, userdata⟩ := p
  cases userdata with
  | none => cases mac <;> cases hub <;> cases modbus <;> simp [members]
  | some u => cases mac <;> cases hub <;> cases modbus <;> simp [members, u.align_pos]

/-- `sizeof(Config)`, which depends on the parts that a build has. -/
def sizeofConfig (p : Parts) : ℕ := StructLayout.sizeOf (members p)

/-- Where a member lies, if the build has it. -/
def place? (p : Parts) (f : Field) : Option (Placed Field) := StructLayout.find? (members p) f

/-! ## Section 2: Objects of the type -/

end Config

/-- The bytes of a `Config` object. -/
abbrev Config (p : Config.Parts) := Library.Image (Config.sizeofConfig p)

namespace Config

open Library

variable {p : Parts}

def read (c : Config p) (f : Field) : List Byte :=
  match place? p f with
  | some m => c.get m.offset m.size
  | none => []

/-- The object with the bytes of a member overwritten by `xs`. -/
def write (c : Config p) (f : Field) (xs : List Byte) : Config p :=
  match place? p f with
  | some m => c.set m.offset xs
  | none => c

/-- The bytes the check-sum is taken over: all but the last two. -/
def body (c : Config p) : List Byte := c.get 0 (sizeofConfig p - 2)

/-- The object with its check-sum filled in, as `config_save` does before it writes. -/
def sealCrc (c : Config p) : Config p := c.write .crc16 (leBytes16 (crc16 c.body))

/-- An object of zeros, as the loader leaves what an initialiser does not name. -/
def blank (p : Parts) : Config p := Image.ofMemory (fun _ => 0) 0 (sizeofConfig p)

/-- `default_config`: what a board starts with that has no configuration stored. -/
def defaultConfig (p : Parts) : Config p :=
  (blank p)
    |>.write .options [0x01]
    |>.write .ipAddr [192, 168, 174, 199]
    |>.write .gwAddr [192, 168, 174, 1]
    |>.write .netmask [255, 255, 255, 0]
    |>.write .macAddr [0x02, 0x0A, 0x0B, 0x0C, 0x15, 0x94]
    |>.write .hubType [75]
    |>.write .modbusAddr [1]
    |>.write .modbusBaud (leBytes32 115200)
    |>.write .crc16 [0xff, 0xff]

theorem read_write_self (c : Config p) {f : Field} {m : Placed Field} {xs : List Byte}
    (hf : place? p f = some m) (hxs : xs.length = m.size) : (c.write f xs).read f = xs := by
  have hin := StructLayout.find?_bounds (members_align_pos p) hf
  simp only [read, write, hf, ← hxs]
  exact c.get_set_self (by rw [hxs]; exact hin)

/-- Overwriting one member leaves the others as they are. -/
theorem read_write_of_ne (c : Config p) {f g : Field} (hne : f ≠ g) {xs : List Byte}
    (hxs : ∀ m, place? p f = some m → xs.length = m.size) :
    (c.write f xs).read g = c.read g := by
  unfold read write
  cases hf : place? p f with
  | none => rfl
  | some m =>
    cases hg : place? p g with
    | none => rfl
    | some m' =>
      have hin := StructLayout.find?_bounds (members_align_pos p) hg
      -- members of different names occupy different bytes
      have hdisj := StructLayout.find?_disjoint (members_align_pos p) hne hf hg
      exact c.get_set_of_disjoint xs hin (by rw [hxs m hf]; omega)

/-! ## Section 3: Layouts that end with the check-sum -/

/-- The last two bytes of the structure are the member `crc16`. -/
def CrcLast (p : Parts) : Prop :=
  place? p .crc16 = some ⟨.crc16, sizeofConfig p - 2, 2⟩ ∧ 2 ≤ sizeofConfig p

/-- With the Modbus members and without user data no padding follows the check-sum. -/
theorem crcLast_of_no_userdata (mac hub : Bool) : CrcLast ⟨mac, hub, true, none⟩ := by
  cases mac <;> cases hub <;> exact ⟨rfl, by decide⟩

/-- Where the check-sum is last, filling it in does not change what it is taken over. -/
theorem body_sealCrc (h : CrcLast p) (c : Config p) : c.sealCrc.body = c.body := by
  simp only [body, sealCrc, write, h.1]
  exact c.get_set_of_disjoint _ (by omega) (Or.inl (by omega))

theorem read_crc16_sealCrc (h : CrcLast p) (c : Config p) :
    c.sealCrc.read .crc16 = leBytes16 (crc16 c.body) :=
  read_write_self c h.1 rfl

theorem read_sealCrc_of_ne (c : Config p) {g : Field} (hne : g ≠ .crc16)
    (hsize : ∀ m, place? p .crc16 = some m → m.size = 2) : c.sealCrc.read g = c.read g :=
  read_write_of_ne c (Ne.symm hne) fun m hm => (hsize m hm).symm

end Config

end Karnix
