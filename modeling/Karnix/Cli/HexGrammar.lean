import Karnix.Cli.ConsoleOutput
import Karnix.Cli.HexRecords
import Mathlib.Data.BitVec

/-!
# The grammar of Intel-HEX lines

What a line between a colon and its end means by the grammar of Intel-HEX, and how the loader of
`cli_cmd_ihex` follows it.  A line is legible if the loader can tell what the grammar says of
it: either `strntoul` knows all its characters, or its length is that of no record.  A line that
is too long is shown by `xprintf`, and that is the only other way to the memory.
-/

namespace Karnix.Cli

open Karnix.Library Karnix.Video

/-! ## Section 1: The grammar -/

/-- The value of a hexadecimal digit of either case. -/
def hexValue (c : Byte) : Option Byte :=
  if 0x30 ≤ c ∧ c ≤ 0x39 then some (c - 0x30)
  else if 0x41 ≤ c ∧ c ≤ 0x46 then some (c - 0x41 + 10)
  else if 0x61 ≤ c ∧ c ≤ 0x66 then some (c - 0x61 + 10)
  else none

/-- The bytes of a line of hexadecimal digits, two digits for each. -/
def hexBytes : List Byte → Option (List Byte)
  | [] => some []
  | [_] => none
  | c :: c' :: cs =>
    (hexValue c).bind fun hi => (hexValue c').bind fun lo =>
      (hexBytes cs).map fun bs => (hi * 16 + lo) :: bs

/-- A record by the grammar, with the two bytes of its offset. -/
structure HexRecord where
  hi : Byte
  lo : Byte
  type : Byte
  data : List Byte
  /-- The count is one byte. -/
  length_le : data.length ≤ 255
  deriving DecidableEq

/-- A count, an offset, a type, as many bytes as the count says and one that makes the sum zero. -/
def recordOf : List Byte → Option HexRecord
  | count :: hi :: lo :: type :: rest =>
    if rest.length = count.toNat + 1 ∧ Hex.byteSum (count :: hi :: lo :: type :: rest) = 0 then
      some ⟨hi, lo, type, rest.take count.toNat,
        (List.length_take_le _ _).trans (Nat.le_of_lt_succ count.isLt)⟩
    else none
  | _ => none

/-- The record of a line. -/
def parseLine (cs : List Byte) : Option HexRecord := (hexBytes cs).bind recordOf

/-- The open line behind one more character. -/
def nextLine (line : Option (List Byte)) (c : Byte) : Option (List Byte) :=
  if c = 0x3a then some []
  else if c = 0x0d ∨ c = 0x0a then none
  else line.map (· ++ [c])

/-- The line that is open behind a text: what follows its last colon, unless a line ends there. -/
def openLine (text : List Byte) : Option (List Byte) := text.foldl nextLine none

/-- One of the digits 0 to 9, A to F and a to d. -/
def KnownDigit (c : Byte) : Prop :=
  (0x30 ≤ c ∧ c ≤ 0x39) ∨ (0x41 ≤ c ∧ c ≤ 0x46) ∨ (0x61 ≤ c ∧ c ≤ 0x64)

instance (c : Byte) : Decidable (KnownDigit c) := inferInstanceAs (Decidable (_ ∨ _))

/-- They are the digits that `strntoul` knows. -/
theorem knownDigit_iff {c : Byte} : KnownDigit c ↔ digitValue c ≠ none := by
  revert c
  decide

/-- `strntoul` knows all the characters, or the line has the length of no record. -/
def Legible (cs : List Byte) : Prop :=
  (∀ c ∈ cs, KnownDigit c) ∨ (0 ∉ cs ∧ ∀ count ≤ 255, cs.length ≠ 10 + 2 * count)

/-- What the grammar lets a line change: `l'` is what becomes of the loader `l`. -/
structure FollowsGrammar (addr : BitVec 32) (l l' : Loader) (cs : List Byte) : Prop where
  /-- A data record is stored. -/
  data : ∀ r, parseLine cs = some r → r.type = 0 →
    l'.mem = storeData l.mem (addr + l.base + beWord [r.hi, r.lo]) (fun i => r.data.getD i 0)
      r.data.length ∧ l'.base = l.base ∧
      l'.bytesRead = l.bytesRead + BitVec.ofNat 32 r.data.length
  /-- Any other line is not. -/
  other : (∀ r, parseLine cs = some r → r.type ≠ 0) →
    l'.mem = l.mem ∧ l'.bytesRead = l.bytesRead
  /-- The base moves with the records of extended addresses alone. -/
  base : (∀ r, parseLine cs = some r → r.type ≠ 4) → l'.base = l.base
  /-- It is the distance to the first page that is not page 0. -/
  extended : ∀ r b₀ b₁ rest, parseLine cs = some r → r.type = 4 → r.data = b₀ :: b₁ :: rest →
    l'.base = (beWord [b₀, b₁] <<< 16) -
      (if l.origin = 0 then beWord [b₀, b₁] <<< 16 else l.origin)

/-! ## Section 2: Digits that the loader knows -/

/-- Both take a digit for the same number. -/
theorem digitValue_eq {c : Byte} (h : digitValue c ≠ none) :
    ∃ v, hexValue c = some v ∧ digitValue c = some (v.setWidth 32) ∧ v.toNat < 16 := by
  revert c
  decide

/-- Two digits make a byte, and the number of the byte. -/
theorem setWidth_digits {hi lo : Byte} (hhi : hi.toNat < 16) (hlo : lo.toNat < 16)
    (r : BitVec 32) :
    (r * 16 + hi.setWidth 32) * 16 + lo.setWidth 32 = r * 256 + (hi * 16 + lo).setWidth 32 := by
  have hbyte : (hi * 16 + lo).setWidth 32 = hi.setWidth 32 * 16 + lo.setWidth 32 := by
    apply BitVec.eq_of_toNat_eq
    simp only [BitVec.toNat_add, BitVec.toNat_mul, BitVec.toNat_setWidth, BitVec.toNat_ofNat,
      BitVec.ofNat_eq_ofNat]
    omega
  rw [hbyte, BitVec.add_mul, BitVec.mul_assoc, BitVec.add_assoc]
  rfl

/-- A line of known digits has its bytes, if their number is even. -/
theorem hexBytes_of_known : ∀ {cs : List Byte}, (∀ c ∈ cs, digitValue c ≠ none) →
    2 ∣ cs.length → ∃ bs, hexBytes cs = some bs
  | [], _, _ => ⟨[], rfl⟩
  | [_], _, heven => absurd (Nat.le_of_dvd Nat.one_pos heven) (by decide)
  | c :: c' :: cs, hknown, heven => by
    obtain ⟨hi, hhi, -, -⟩ := digitValue_eq (hknown c List.mem_cons_self)
    obtain ⟨lo, hlo, -, -⟩ := digitValue_eq (hknown c' (List.mem_cons_of_mem c List.mem_cons_self))
    have hrest : ∀ c ∈ cs, digitValue c ≠ none := fun d hd =>
      hknown d (List.mem_cons_of_mem c (List.mem_cons_of_mem c' hd))
    obtain ⟨bs, hbs⟩ := hexBytes_of_known hrest ((Nat.dvd_add_left (Nat.dvd_refl 2)).1 heven)
    exact ⟨(hi * 16 + lo) :: bs, by simp [hexBytes, hhi, hlo, hbs]⟩

/-- Two digits of a line, and the rest. -/
theorem hexBytes_cons_cons {c c' : Byte} {cs bs : List Byte}
    (h : hexBytes (c :: c' :: cs) = some bs) :
    ∃ hi lo rest, hexValue c = some hi ∧ hexValue c' = some lo ∧ hexBytes cs = some rest ∧
      bs = (hi * 16 + lo) :: rest := by
  simp only [hexBytes, Option.bind_eq_some_iff, Option.map_eq_some_iff] at h
  obtain ⟨hi, hhi, lo, hlo, rest, hrest, rfl⟩ := h
  exact ⟨hi, lo, rest, hhi, hlo, hrest, rfl⟩

theorem length_hexBytes : ∀ {cs bs : List Byte}, hexBytes cs = some bs →
    cs.length = 2 * bs.length
  | [], _, h => by rw [← Option.some.inj h]; rfl
  | [_], _, h => by cases h
  | c :: c' :: cs, _, h => by
    obtain ⟨hi, lo, rest, -, -, hrest, rfl⟩ := hexBytes_cons_cons h
    rw [List.length_cons, List.length_cons, length_hexBytes hrest, List.length_cons, Nat.mul_succ]

theorem drop_hexBytes {cs bs : List Byte} (h : hexBytes cs = some bs) (i : ℕ) :
    hexBytes (cs.drop (2 * i)) = some (bs.drop i) := by
  induction i generalizing cs bs with
  | zero => exact h
  | succ i ih =>
    match cs, h with
    | [], h => rw [← Option.some.inj h]; simp [hexBytes]
    | c :: c' :: cs, h =>
      obtain ⟨hi, lo, rest, -, -, hrest, rfl⟩ := hexBytes_cons_cons h
      exact ih hrest

theorem take_hexBytes {cs bs : List Byte} (h : hexBytes cs = some bs) (i : ℕ) :
    hexBytes (cs.take (2 * i)) = some (bs.take i) := by
  induction i generalizing cs bs with
  | zero => rfl
  | succ i ih =>
    match cs, h with
    | [], h => rw [← Option.some.inj h]; simp [hexBytes]
    | c :: c' :: cs, h =>
      obtain ⟨hi, lo, rest, hhi, hlo, hrest, rfl⟩ := hexBytes_cons_cons h
      have htake : (c :: c' :: cs).take (2 * (i + 1)) = c :: c' :: cs.take (2 * i) := rfl
      rw [htake, hexBytes, hhi, hlo, ih hrest]
      rfl

/-- `strntoul` reads the bytes of the digits it knows. -/
theorem strntoul_hexBytes {cs bs : List Byte} (hknown : ∀ c ∈ cs, digitValue c ≠ none)
    (h : hexBytes cs = some bs) : strntoul cs = beWord bs := by
  have hfold : ∀ r, cs.foldlM (fun r c => (digitValue c).map (r * 16 + ·)) r =
      some (bs.foldl (fun r b => r * 256 + b.setWidth 32) r) := by
    induction bs generalizing cs with
    | nil =>
      intro r
      have hnil : cs = [] := List.eq_nil_of_length_eq_zero (length_hexBytes h)
      rw [hnil]
      rfl
    | cons b bs ih =>
      intro r
      match cs, h with
      | c :: c' :: cs, h =>
        obtain ⟨hi, lo, rest, hhi, hlo, hrest, heq⟩ := hexBytes_cons_cons h
        obtain ⟨rfl, rfl⟩ := List.cons.inj heq
        obtain ⟨v, hv, hdv, hlt⟩ := digitValue_eq (hknown c List.mem_cons_self)
        obtain ⟨v', hv', hdv', hlt'⟩ :=
          digitValue_eq (hknown c' (List.mem_cons_of_mem c List.mem_cons_self))
        obtain rfl : v = hi := Option.some.inj (hv.symm.trans hhi)
        obtain rfl : v' = lo := Option.some.inj (hv'.symm.trans hlo)
        have hstep := ih (fun d hd => hknown d
          (List.mem_cons_of_mem c (List.mem_cons_of_mem c' hd))) hrest
        simp only [List.foldlM_cons, hdv, hdv', Option.map_some, Option.bind_eq_bind,
          Option.bind_some, List.foldl_cons, setWidth_digits hlt hlt']
        exact hstep _
  rw [strntoul, hfold]
  rfl

/-! ## Section 3: The numbers of a line -/

/-- The buffer begins with a line of known digits, which stand for the bytes `bs`. -/
structure HoldsBytes (str : Memory Byte) (cs bs : List Byte) : Prop where
  load : str.load 0 cs.length = cs
  known : ∀ c ∈ cs, digitValue c ≠ none
  bytes : hexBytes cs = some bs

section Line

variable {str : Memory Byte} {cs bs : List Byte}

/-- A range of digits of a line. -/
theorem HoldsBytes.number (h : HoldsBytes str cs bs) {i k : ℕ} (hik : i + k ≤ bs.length) :
    number str (2 * i) (2 * k) = beWord ((bs.drop i).take k) := by
  have hlen := length_hexBytes h.bytes
  have hrange : str.load (2 * i) (2 * k) = (cs.drop (2 * i)).take (2 * k) := by
    rw [← h.load, Memory.drop_load _ _ _ _ (by omega), Nat.zero_add,
      Memory.take_load _ _ _ _ (by omega)]
  rw [Cli.number, hrange]
  refine strntoul_hexBytes ?_ (take_hexBytes (drop_hexBytes h.bytes i) k)
  exact fun c hc => h.known c (List.mem_of_mem_drop (List.mem_of_mem_take hc))

/-- A byte of a line. -/
theorem HoldsBytes.byte (h : HoldsBytes str cs bs) {i : ℕ} (hi : i < bs.length) :
    Cli.number str (2 * i) 2 = beWord [bs[i]] := by
  have hnum : Cli.number str (2 * i) (2 * 1) = beWord ((bs.drop i).take 1) := h.number hi
  rw [List.drop_eq_getElem_cons hi] at hnum
  exact hnum

theorem HoldsBytes.setWidth_byte (h : HoldsBytes str cs bs) {i : ℕ} (hi : i < bs.length) :
    (Cli.number str (2 * i) 2).setWidth 8 = bs[i] := by
  rw [h.byte hi, setWidth_beWord_singleton]

/-- The sum that the loader forms is that of all bytes but the last. -/
theorem HoldsBytes.lineSum (h : HoldsBytes str cs bs) :
    Cli.lineSum str cs.length = Hex.byteSum bs.dropLast := by
  have hcount : (cs.length - 2 + 1) / 2 = bs.dropLast.length := by
    rw [length_hexBytes h.bytes, List.length_dropLast]
    omega
  rw [Cli.lineSum, hcount]
  congr 1
  apply List.ext_getElem
  · rw [List.length_map, List.length_range]
  · intro i h₁ h₂
    have hi : i < bs.length := Nat.lt_of_lt_of_le h₂ (List.length_dropLast ▸ Nat.sub_le _ _)
    rw [List.getElem_map, List.getElem_range, Nat.mul_comm, h.setWidth_byte hi,
      List.getElem_dropLast]

/-- The last byte is what the loader compares with exactly if the sum is zero. -/
theorem HoldsBytes.checksum_iff (h : HoldsBytes str cs bs) {n : ℕ} (hn : bs.length = n + 5) :
    ~~~ Cli.lineSum str cs.length + 1 = (Cli.number str (8 + n * 2) 2).setWidth 8 ↔
      Hex.byteSum bs = 0 := by
  have hlast : 4 + n < bs.length := by omega
  have hat : 8 + n * 2 = 2 * (4 + n) := by omega
  have hne : bs ≠ [] := List.ne_nil_of_length_pos (by omega)
  have hbyte : bs[4 + n] = bs.getLast hne := by
    rw [List.getLast_eq_getElem]
    congr 1
    omega
  have hsum : Hex.byteSum bs = Hex.byteSum bs.dropLast + bs.getLast hne := by
    conv_lhs => rw [← List.dropLast_append_getLast hne]
    rw [Hex.byteSum_append]
    simp
  have hneg : ~~~ Hex.byteSum bs.dropLast + 1 = - Hex.byteSum bs.dropLast :=
    (BitVec.neg_eq_not_add _).symm
  rw [h.lineSum, hat, h.setWidth_byte hlast, hbyte, hsum, hneg]
  exact neg_eq_iff_add_eq_zero

/-- What a line has to be for a record. -/
theorem recordOf_eq_some {r : HexRecord} (h : recordOf bs = some r) :
    Hex.byteSum bs = 0 ∧ ∃ count chk, bs = count :: r.hi :: r.lo :: r.type :: (r.data ++ [chk]) ∧
      count.toNat = r.data.length := by
  match bs, h with
  | count :: hi :: lo :: type :: rest, h =>
    rw [recordOf] at h
    split at h
    · next hrest =>
      obtain rfl := Option.some.inj h
      have hdata : (rest.take count.toNat).length = count.toNat := by
        rw [List.length_take, hrest.1]
        exact Nat.min_eq_left (Nat.le_succ _)
      obtain ⟨chk, hchk⟩ : ∃ chk, rest.drop count.toNat = [chk] := by
        rw [← List.length_eq_one_iff, List.length_drop, hrest.1]
        exact Nat.add_sub_cancel_left _ 1
      refine ⟨hrest.2, count, chk, ?_, hdata.symm⟩
      rw [← hchk, List.take_append_drop]
    · cases h

/-- The line is no record if its length or its sum is wrong. -/
theorem recordOf_eq_none (h : recordOf bs = none) :
    bs.length ≠ (bs.headD 0).toNat + 5 ∨ Hex.byteSum bs ≠ 0 := by
  by_contra hboth
  rw [not_or, not_not, not_not] at hboth
  match bs, h, hboth with
  | [], _, hboth => exact absurd hboth.1 (by decide)
  | [_], _, hboth => simp at hboth
  | [_, _], _, hboth => simp at hboth
  | [_, _, _], _, hboth => simp at hboth
  | count :: hi :: lo :: type :: rest, h, hboth =>
    have hlen := hboth.1
    simp only [List.length_cons, List.headD_cons] at hlen
    have hrest : rest.length = count.toNat + 1 := by omega
    rw [recordOf, if_pos ⟨hrest, hboth.2⟩] at h
    cases h

/-- The count that a line begins with. -/
theorem HoldsBytes.count (h : HoldsBytes str cs bs) (hne : bs ≠ []) :
    (Cli.number str 0 2).toNat = (bs.headD 0).toNat := by
  match bs, h with
  | b :: bs, h =>
    have hnum : Cli.number str (2 * 0) 2 = beWord [b] := h.byte (Nat.succ_pos _)
    have hzero : Cli.number str 0 2 = Cli.number str (2 * 0) 2 := rfl
    rw [hzero, hnum, beWord_singleton, BitVec.toNat_setWidth_of_le (by decide)]
    rfl

/-- A line that is no record leaves the loader as it is. -/
theorem HoldsBytes.line_of_none (h : HoldsBytes str cs bs) (hlen : strlen str 0 523 = cs.length)
    (hnone : recordOf bs = none) (l : Loader) (addr : BitVec 32) : l.line addr str = l := by
  have hbytes := length_hexBytes h.bytes
  rw [Loader.line, hlen]
  refine ite_eq_left_iff.2 fun hsize => ?_
  rw [not_not] at hsize
  have hne : bs ≠ [] := by
    rintro rfl
    rw [hbytes] at hsize
    exact absurd hsize (Nat.ne_of_lt (by simp))
  have hcount := h.count hne
  have hfive : bs.length = (Cli.number str 0 2).toNat + 5 := by omega
  refine if_pos fun hsum => ?_
  rcases recordOf_eq_none hnone with hbad | hbad
  · exact hbad (hcount ▸ hfive)
  · exact hbad ((h.checksum_iff hfive).1 hsum)

section Record

variable {r : HexRecord}

/-- A line that is a record is taken for one. -/
theorem HoldsBytes.line_of_some (h : HoldsBytes str cs bs) (hlen : strlen str 0 523 = cs.length)
    (hr : recordOf bs = some r) (l : Loader) (addr : BitVec 32) :
    l.line addr str = l.record addr str r.data.length := by
  obtain ⟨hsum, count, chk, hbs, hcount⟩ := recordOf_eq_some hr
  have hfive : bs.length = r.data.length + 5 := by
    rw [hbs]
    simp
  have hsize : (Cli.number str 0 2).toNat = r.data.length := by
    rw [h.count (by rw [hbs]; exact List.cons_ne_nil _ _), hbs]
    exact hcount
  have hline : cs.length = r.data.length * 2 + 10 := by
    rw [length_hexBytes h.bytes, hfive]
    omega
  rw [Loader.line, hlen, hsize]
  simp only [hline, ne_eq, not_true_eq_false, if_false]
  rw [← hline, (h.checksum_iff hfive).2 hsum]
  exact if_neg fun hne => hne rfl

theorem HoldsBytes.offset (h : HoldsBytes str cs bs) (hr : recordOf bs = some r) :
    Cli.number str 2 4 = beWord [r.hi, r.lo] := by
  obtain ⟨-, count, chk, rfl, -⟩ := recordOf_eq_some hr
  exact h.number (i := 1) (k := 2) (by simp)

theorem HoldsBytes.type (h : HoldsBytes str cs bs) (hr : recordOf bs = some r) :
    Cli.number str 6 2 = r.type.setWidth 32 := by
  obtain ⟨-, count, chk, rfl, -⟩ := recordOf_eq_some hr
  exact (h.byte (i := 3) (by simp)).trans (beWord_singleton r.type)

theorem HoldsBytes.type_iff (h : HoldsBytes str cs bs) (hr : recordOf bs = some r) (t : Byte) :
    Cli.number str 6 2 = t.setWidth 32 ↔ r.type = t := by
  rw [h.type hr]
  constructor
  · intro heq
    have hback := congrArg (BitVec.setWidth 8) heq
    rwa [BitVec.setWidth_setWidth_of_le _ (by decide),
      BitVec.setWidth_setWidth_of_le _ (by decide), BitVec.setWidth_eq,
      BitVec.setWidth_eq] at hback
  · rintro rfl
    rfl

/-- The bytes of the data are where the loader looks for them. -/
theorem HoldsBytes.data (h : HoldsBytes str cs bs) (hr : recordOf bs = some r) {i : ℕ}
    (hi : i < r.data.length) :
    (Cli.number str (i * 2 + 8) 2).setWidth 8 = r.data.getD i 0 := by
  obtain ⟨-, count, chk, rfl, -⟩ := recordOf_eq_some hr
  have hat : i * 2 + 8 = 2 * (4 + i) := by omega
  have hlt : 4 + i < (count :: r.hi :: r.lo :: r.type :: (r.data ++ [chk])).length := by
    simp only [List.length_cons, List.length_append, List.length_nil]
    omega
  have hbyte : (count :: r.hi :: r.lo :: r.type :: (r.data ++ [chk]))[4 + i]? = some r.data[i] := by
    rw [Nat.add_comm 4 i]
    show (r.data ++ [chk])[i]? = _
    rw [List.getElem?_append_left hi, List.getElem?_eq_getElem hi]
  rw [List.getElem?_eq_getElem hlt, Option.some.injEq] at hbyte
  rw [hat, h.setWidth_byte hlt, hbyte, List.getD_eq_getElem?_getD, List.getElem?_eq_getElem hi,
    Option.getD_some]

/-- The base of an extended address. -/
theorem HoldsBytes.page (h : HoldsBytes str cs bs) (hr : recordOf bs = some r) {b₀ b₁ : Byte}
    {rest : List Byte} (hdata : r.data = b₀ :: b₁ :: rest) :
    Cli.number str 8 4 = beWord [b₀, b₁] := by
  obtain ⟨-, count, chk, rfl, -⟩ := recordOf_eq_some hr
  rw [hdata] at h
  exact h.number (i := 4) (k := 2) (by simp)

end Record

end Line

/-! ## Section 4: One line -/

/-- Few digits make a small number. -/
theorem foldlM_digits_lt {cs : List Byte} {k : ℕ} {r v : BitVec 32} (hr : r.toNat < 16 ^ k)
    (hk : k + cs.length ≤ 7)
    (h : cs.foldlM (fun r c => (digitValue c).map (r * 16 + ·)) r = some v) :
    v.toNat < 16 ^ (k + cs.length) := by
  induction cs generalizing k r with
  | nil =>
    obtain rfl := Option.some.inj h
    exact hr
  | cons c cs ih =>
    rw [List.length_cons] at hk ⊢
    rw [List.foldlM_cons] at h
    obtain ⟨r', hr', hrest⟩ := Option.bind_eq_some_iff.1 h
    obtain ⟨d, hd, rfl⟩ := Option.map_eq_some_iff.1 hr'
    obtain ⟨v', -, hv', hlt⟩ := digitValue_eq (by rw [hd]; exact Option.some_ne_none d)
    obtain rfl := Option.some.inj (hd.symm.trans hv')
    have hpow : 16 ^ k ≤ 16 ^ 6 := Nat.pow_le_pow_right (by decide) (by omega)
    have hstep : (r * 16 + v'.setWidth 32).toNat < 16 ^ (k + 1) := by
      simp only [BitVec.toNat_add, BitVec.toNat_mul, BitVec.toNat_setWidth, BitVec.toNat_ofNat,
        BitVec.ofNat_eq_ofNat]
      omega
    have hlast := ih hstep (by omega) hrest
    rwa [Nat.add_right_comm, Nat.add_assoc] at hlast

theorem strntoul_lt {cs : List Byte} (h : cs.length ≤ 7) :
    (strntoul cs).toNat < 16 ^ cs.length := by
  rw [strntoul]
  cases hv : cs.foldlM (fun r c => (digitValue c).map (r * 16 + ·)) 0 with
  | none => exact Nat.pos_of_ne_zero (by simp)
  | some v =>
    have hlt := foldlM_digits_lt (k := 0) (by decide) (by rwa [Nat.zero_add]) hv
    rwa [Nat.zero_add] at hlt

theorem number_lt (str : Memory Byte) (i : ℕ) {n : ℕ} (h : n ≤ 7) :
    (number str i n).toNat < 16 ^ n := by
  have hlt := @strntoul_lt (str.load i n) (by rwa [Memory.length_load])
  rwa [Memory.length_load] at hlt

theorem number_count_le (str : Memory Byte) : (number str 0 2).toNat ≤ 255 :=
  Nat.le_of_lt_succ (number_lt str 0 (by decide))

/-- A line of another length is skipped. -/
theorem line_of_length {str : Memory Byte} {n : ℕ} (hlen : strlen str 0 523 = n)
    (hn : ∀ count ≤ 255, n ≠ 10 + 2 * count) (l : Loader) (addr : BitVec 32) :
    l.line addr str = l := by
  rw [Loader.line, hlen]
  refine if_pos ?_
  have hne := hn _ (number_count_le str)
  omega

theorem followsGrammar_self {addr : BitVec 32} {l : Loader} {cs : List Byte}
    (h : parseLine cs = none) : FollowsGrammar addr l l cs where
  data r hr := by rw [h] at hr; cases hr
  other _ := ⟨rfl, rfl⟩
  base _ := rfl
  extended r _ _ _ hr := by rw [h] at hr; cases hr

/-- The length of a line that is a record. -/
theorem length_of_parseLine {cs : List Byte} {r : HexRecord} (h : parseLine cs = some r) :
    ∃ count ≤ 255, cs.length = 10 + 2 * count := by
  obtain ⟨bs, hbs, hr⟩ := Option.bind_eq_some_iff.1 h
  obtain ⟨-, count, chk, rfl, hcount⟩ := recordOf_eq_some hr
  refine ⟨count.toNat, Nat.le_of_lt_succ count.isLt, ?_⟩
  rw [length_hexBytes hbs, hcount]
  simp only [List.length_cons, List.length_append, List.length_nil]
  omega

theorem parseLine_of_length {cs : List Byte} (h : ∀ count ≤ 255, cs.length ≠ 10 + 2 * count) :
    parseLine cs = none := by
  refine Option.eq_none_iff_forall_ne_some.2 fun r hr => ?_
  obtain ⟨count, hle, hlen⟩ := length_of_parseLine hr
  exact h count hle hlen

section Fields

variable (l : Loader) (addr : BitVec 32) (str : Memory Byte) (n : ℕ)

theorem Loader.mem_record : (l.record addr str n).mem =
    if number str 6 2 = 0 then storeData l.mem (addr + l.base + number str 2 4)
      (fun i => (number str (i * 2 + 8) 2).setWidth 8) n
    else l.mem := by
  simp only [record, apply_ite Loader.mem, ite_self]

theorem Loader.bytesRead_record : (l.record addr str n).bytesRead =
    if number str 6 2 = 0 then l.bytesRead + BitVec.ofNat 32 n else l.bytesRead := by
  simp only [record, apply_ite Loader.bytesRead, ite_self]

theorem Loader.base_record : (l.record addr str n).base =
    if number str 6 2 = 4 then
      (number str 8 4 <<< 16) - (if l.origin = 0 then number str 8 4 <<< 16 else l.origin)
    else l.base := by
  simp only [record, apply_ite Loader.base]
  -- the types are different numbers
  by_cases h4 : number str 6 2 = 4
  · simp [h4]
  · simp only [if_neg h4, ite_self]

end Fields

/-- **Step lemma.**  A record does what the grammar says of it. -/
theorem HoldsBytes.followsGrammar {str : Memory Byte} {cs bs : List Byte} {r : HexRecord}
    (h : HoldsBytes str cs bs) (hr : recordOf bs = some r) (l : Loader) (addr : BitVec 32) :
    FollowsGrammar addr l (l.record addr str r.data.length) cs := by
  have hparse : parseLine cs = some r := by rw [parseLine, h.bytes, Option.bind_some, hr]
  have htype := h.type_iff hr
  refine ⟨fun r' hr' h0 => ?_, fun hne => ?_, fun hne => ?_, fun r' b₀ b₁ rest hr' h4 hdata => ?_⟩
  · obtain rfl := Option.some.inj (hparse.symm.trans hr')
    have hzero : Cli.number str 6 2 = 0 := (htype 0).2 h0
    refine ⟨?_, ?_, ?_⟩
    · rw [Loader.mem_record, if_pos hzero, h.offset hr]
      exact storeData_congr fun i hi => h.data hr hi
    · rw [Loader.base_record, if_neg (by rw [hzero]; decide)]
    · rw [Loader.bytesRead_record, if_pos hzero]
  · have hzero : Cli.number str 6 2 ≠ 0 := mt (htype 0).1 (hne r hparse)
    rw [Loader.mem_record, Loader.bytesRead_record, if_neg hzero, if_neg hzero]
    exact ⟨rfl, rfl⟩
  · have hfour : Cli.number str 6 2 ≠ 4 := mt (htype 4).1 (hne r hparse)
    rw [Loader.base_record, if_neg hfour]
  · obtain rfl := Option.some.inj (hparse.symm.trans hr')
    have hfour : Cli.number str 6 2 = 4 := (htype 4).2 h4
    rw [Loader.base_record, if_pos hfour, h.page hr hdata]

/-- The loader takes a legible line for the record that it is, or leaves it alone. -/
theorem line_of_legible {str : Memory Byte} {cs : List Byte} (hlegible : Legible cs)
    (hload : str.load 0 cs.length = cs) (hnul : str cs.length = 0) (hcs : cs.length < 523)
    (l : Loader) (addr : BitVec 32) :
    (parseLine cs = none ∧ l.line addr str = l) ∨
      ∃ bs r, HoldsBytes str cs bs ∧ recordOf bs = some r ∧
        l.line addr str = l.record addr str r.data.length := by
  have hstrlen : 0 ∉ cs → strlen str 0 523 = cs.length := by
    intro hzero
    have hne : ∀ i, i < cs.length → str (0 + i) ≠ 0 := by
      intro i hi h0
      refine hzero ?_
      rw [← h0, ← hload]
      exact List.mem_map_of_mem (List.mem_range.2 hi)
    rw [strlen, cString_eq_load hcs hne (by rwa [Nat.zero_add]), Memory.length_load]
  rcases hlegible with hknown | ⟨hzero, hlen⟩
  · have hknown : ∀ c ∈ cs, digitValue c ≠ none := fun c hc => knownDigit_iff.1 (hknown c hc)
    have hlen : strlen str 0 523 = cs.length :=
      hstrlen fun hmem => hknown 0 hmem (by decide)
    by_cases heven : 2 ∣ cs.length
    · obtain ⟨bs, hbs⟩ := hexBytes_of_known hknown heven
      have h : HoldsBytes str cs bs := ⟨hload, hknown, hbs⟩
      cases hr : recordOf bs with
      | some r => exact Or.inr ⟨bs, r, h, hr, h.line_of_some hlen hr l addr⟩
      | none =>
        refine Or.inl ⟨?_, h.line_of_none hlen hr l addr⟩
        rw [parseLine, hbs]
        exact hr
    · -- an odd number of digits
      have hne : ∀ count ≤ 255, cs.length ≠ 10 + 2 * count := by
        intro count _ heq
        exact heven (by rw [heq]; omega)
      exact Or.inl ⟨parseLine_of_length hne, line_of_length hlen hne l addr⟩
  · exact Or.inl ⟨parseLine_of_length hlen, line_of_length (hstrlen hzero) hlen l addr⟩

/-- **Step lemma.**  The end of a legible line does what the grammar says of the line. -/
theorem followsGrammar_line {str : Memory Byte} {cs : List Byte} (hlegible : Legible cs)
    (hload : str.load 0 cs.length = cs) (hnul : str cs.length = 0) (hcs : cs.length < 523)
    (l : Loader) (addr : BitVec 32) : FollowsGrammar addr l (l.line addr str) cs := by
  rcases line_of_legible hlegible hload hnul hcs l addr with ⟨hnone, hline⟩ | ⟨bs, r, h, hr, hline⟩
  · rw [hline]
    exact followsGrammar_self hnone
  · rw [hline]
    exact h.followsGrammar hr l addr

/-! ## Section 5: The open line -/

/-- The loader collects the open line, as long as it is no longer than any record. -/
structure Ihex.Collects (s : Ihex) (line : Option (List Byte)) : Prop where
  /-- It is in the buffer. -/
  short : ∀ cs, line = some cs → cs.length < 522 →
    s.parseDataFlag = true ∧ s.idx = cs.length ∧ s.str.load 0 cs.length = cs
  /-- There is nothing else that could end. -/
  flag : s.parseDataFlag = true → ∃ cs, line = some cs ∧ cs.length < 522

namespace Ihex

variable {addr : BitVec 32} {s : Ihex}

/-- The place of the next character is inside the buffer. -/
theorem Collects.idx_lt {line : Option (List Byte)} (h : s.Collects line)
    (hflag : s.parseDataFlag = true) : s.idx < 522 := by
  obtain ⟨cs, hline, hlen⟩ := h.flag hflag
  rw [(h.short cs hline hlen).2.1]
  exact hlen

/-- One of the characters that are taken for a user interrupt. -/
def Interrupts (c : Byte) : Prop := c = 0x03 ∨ c = 0x04 ∨ c = 0x08 ∨ c = 0x7f

instance (c : Byte) : Decidable (Interrupts c) := inferInstanceAs (Decidable (_ ∨ _))

theorem Interrupts.not_end {c : Byte} (h : Interrupts c) : ¬ (c = 0x0d ∨ c = 0x0a) := by
  rcases h with rfl | rfl | rfl | rfl <;> decide

/-- What a character does while the input loop runs. -/
inductive Step (addr : BitVec 32) (s : Ihex) : Byte → Ihex → Prop
  | colon : Step addr s 0x3a { s with parseDataFlag := true, idx := 0 }
  | interrupt (c : Byte) : Interrupts c →
      Step addr s c { s with loader := { s.loader with exit := some (.interrupt c) } }
  | between (c : Byte) : c ≠ 0x3a → ¬ Interrupts c → s.parseDataFlag = false → Step addr s c s
  | lineEnd (c : Byte) : c = 0x0d ∨ c = 0x0a → s.parseDataFlag = true →
      Step addr s c { s with
        str := s.str.store s.idx [0]
        loader := s.loader.line addr (s.str.store s.idx [0])
        parseDataFlag := false }
  | collect (c : Byte) : c ≠ 0x3a → ¬ Interrupts c → ¬ (c = 0x0d ∨ c = 0x0a) →
      s.parseDataFlag = true → s.idx + 1 < 522 →
      Step addr s c { s with str := s.str.store s.idx [c], idx := s.idx + 1 }
  | tooLong (c : Byte) : c ≠ 0x3a → ¬ Interrupts c → ¬ (c = 0x0d ∨ c = 0x0a) →
      s.parseDataFlag = true → 522 ≤ s.idx + 1 →
      Step addr s c { s with
        str := (s.str.store s.idx [c]).store (s.idx + 1) [0]
        idx := s.idx + 1
        parseDataFlag := false
        told := s.told ++
          [CString.ofBytes (((s.str.store s.idx [c]).store (s.idx + 1) [0]).load 0 523)] }

variable (addr) in
theorem step_spec (hexit : s.loader.exit = none) (c : Byte) : Step addr s c (s.step addr c) := by
  unfold step
  rw [if_neg (not_not.2 hexit)]
  split
  · next hcolon => exact hcolon ▸ .colon
  next hcolon =>
  split
  · next hint => exact .interrupt c hint
  next hint =>
  split
  · next hflag => exact .between c hcolon hint (by simpa using hflag)
  next hflag =>
  have hflag : s.parseDataFlag = true := by simpa using hflag
  split
  · next hend => exact .lineEnd c hend hflag
  next hend =>
  simp only
  split
  · next hlong => exact .tooLong c hcolon hint hend hflag hlong
  · next hlong => exact .collect c hcolon hint hend hflag (Nat.lt_of_not_le hlong)

/-- **Step lemma.**  The loader goes on collecting the open line. -/
theorem Collects.step {line : Option (List Byte)} (h : s.Collects line)
    (hexit : s.loader.exit = none) (c : Byte) (hexit' : (s.step addr c).loader.exit = none) :
    (s.step addr c).Collects (nextLine line c) := by
  have hspec := step_spec addr hexit c
  generalize s.step addr c = s' at hspec hexit'
  cases hspec with
  | colon =>
    refine ⟨fun cs hcs _ => ?_, fun _ => ⟨[], rfl, by decide⟩⟩
    obtain rfl := Option.some.inj (show some [] = some cs from hcs)
    exact ⟨rfl, rfl, rfl⟩
  | interrupt => cases hexit'
  | between _ hcolon _ hflag =>
    refine ⟨fun cs' hcs' hlen => ?_, fun hflag' => absurd hflag' (by simp [hflag])⟩
    -- the line is too long already
    unfold nextLine at hcs'
    rw [if_neg hcolon] at hcs'
    split at hcs'
    · cases hcs'
    · obtain ⟨cs, hline, rfl⟩ := Option.map_eq_some_iff.1 hcs'
      rw [List.length_append] at hlen
      have htrue := (h.short cs hline (Nat.lt_of_le_of_lt (Nat.le_add_right _ _) hlen)).1
      exact absurd htrue (by simp [hflag])
  | lineEnd _ hend hflag =>
    have hcolon : c ≠ 0x3a := by rcases hend with rfl | rfl <;> decide
    have hnone : nextLine line c = none := by rw [nextLine, if_neg hcolon, if_pos hend]
    rw [hnone]
    exact ⟨fun cs hcs _ => (nomatch hcs), fun hflag' => (nomatch hflag')⟩
  | collect _ hcolon _ hend hflag hidx =>
    obtain ⟨cs, rfl, hlen⟩ := h.flag hflag
    obtain ⟨-, hat, hload⟩ := h.short cs rfl hlen
    have hnext : nextLine (some cs) c = some (cs ++ [c]) := by
      rw [nextLine, if_neg hcolon, if_neg hend]
      rfl
    rw [hnext]
    refine ⟨fun cs' hcs' _ => ?_, fun _ => ⟨cs ++ [c], rfl, ?_⟩⟩
    · obtain rfl := Option.some.inj hcs'
      refine ⟨hflag, ?_, ?_⟩
      · simp [hat]
      · simp only [hat, List.length_append, List.length_singleton]
        rw [Memory.load_add, Memory.load_store_of_disjoint _ _ (Or.inl (Nat.zero_add _).le), hload,
          Nat.zero_add]
        exact congrArg (cs ++ ·) (Memory.load_store_self s.str cs.length [c])
    · rw [List.length_append, List.length_singleton, ← hat]
      exact hidx
  | tooLong _ hcolon _ hend hflag hidx =>
    obtain ⟨cs, rfl, hlen⟩ := h.flag hflag
    have hat := (h.short cs rfl hlen).2.1
    refine ⟨fun cs' hcs' hlen' => ?_, fun hflag' => by cases hflag'⟩
    rw [nextLine, if_neg hcolon, if_neg hend] at hcs'
    obtain rfl := Option.some.inj hcs'
    rw [List.length_append, List.length_singleton, ← hat] at hlen'
    exact absurd hlen' (Nat.not_lt.2 hidx)

/-- Nothing is written behind the buffer. -/
theorem Collects.str_step {line : Option (List Byte)} (h : s.Collects line)
    (hexit : s.loader.exit = none) (c : Byte) {i : ℕ} (hi : 523 ≤ i) :
    (s.step addr c).str i = s.str i := by
  have hspec := step_spec addr hexit c
  generalize s.step addr c = s' at hspec
  have hkeep : ∀ (str : Memory Byte) (k : ℕ) (x : Byte), k < 523 → str.store k [x] i = str i :=
    fun str k x hk => Memory.store_of_ge str [x] (Nat.le_trans hk hi)
  cases hspec with
  | colon | interrupt | between => rfl
  | lineEnd _ _ hflag => exact hkeep _ _ _ (Nat.lt_succ_of_lt (h.idx_lt hflag))
  | collect _ _ _ _ hflag => exact hkeep _ _ _ (Nat.lt_succ_of_lt (h.idx_lt hflag))
  | tooLong _ _ _ _ hflag =>
    have hidx := h.idx_lt hflag
    refine (hkeep _ _ _ (Nat.succ_lt_succ hidx)).trans ?_
    exact hkeep _ _ _ (Nat.lt_succ_of_lt hidx)

/-- **Run lemma.**  While the input loop runs, the loader collects the open line. -/
theorem collects_run (addr : BitVec 32) (mem : AddressSpace) (str : Memory Byte)
    (text : List Byte) :
    ((cliCmdIhex addr mem str text).loader.exit = none →
      (cliCmdIhex addr mem str text).Collects (openLine text)) ∧
    ∀ i, 523 ≤ i → (cliCmdIhex addr mem str text).str i = str i := by
  induction text using List.reverseRecOn with
  | nil =>
    refine ⟨fun _ => ⟨fun cs hcs => ?_, fun hflag => ?_⟩, fun _ _ => rfl⟩
    · cases hcs
    · cases hflag
  | append_singleton text c ih =>
    have hrun : cliCmdIhex addr mem str (text ++ [c]) =
        (cliCmdIhex addr mem str text).step addr c := run_append _ _ _ _
    have hline : openLine (text ++ [c]) = nextLine (openLine text) c := List.foldl_append
    rw [hrun, hline]
    by_cases hexit : (cliCmdIhex addr mem str text).loader.exit = none
    · have hcollects := ih.1 hexit
      refine ⟨hcollects.step hexit c, fun i hi => ?_⟩
      exact (hcollects.str_step hexit c hi).trans (ih.2 i hi)
    · rw [step_of_exit hexit]
      exact ⟨fun h => absurd h hexit, ih.2⟩

end Ihex

/-! ## Section 6: Nothing behind the buffer is read -/

/-- Two buffers with the same characters. -/
def SameBuffer (str str' : Memory Byte) : Prop := ∀ i, i < 523 → str i = str' i

theorem SameBuffer.store {str str' : Memory Byte} (h : SameBuffer str str') (k : ℕ) (x : Byte) :
    SameBuffer (str.store k [x]) (str'.store k [x]) := by
  intro i hi
  rw [Memory.store_singleton, Memory.store_singleton, h i hi]

theorem SameBuffer.number {str str' : Memory Byte} (h : SameBuffer str str') {i n : ℕ}
    (hin : i + n ≤ 523) : number str i n = number str' i n := by
  rw [Cli.number, Cli.number]
  congr 1
  exact Memory.load_congr fun k hk => h _ (by omega)

theorem SameBuffer.strlen {str str' : Memory Byte} (h : SameBuffer str str') :
    strlen str 0 523 = strlen str' 0 523 := by
  have hload : str.load 0 523 = str'.load 0 523 :=
    Memory.load_congr fun i hi => h _ (by omega)
  rw [Library.strlen, Library.strlen, cString, cString, hload]

/-- A record of at most 255 bytes is read inside the buffer. -/
theorem SameBuffer.record {str str' : Memory Byte} (h : SameBuffer str str') {n : ℕ}
    (hn : n ≤ 255) (l : Loader) (addr : BitVec 32) :
    l.record addr str n = l.record addr str' n := by
  have hdata : ∀ i, i < n → (Cli.number str (i * 2 + 8) 2).setWidth 8 =
      (Cli.number str' (i * 2 + 8) 2).setWidth 8 :=
    fun i hi => congrArg (BitVec.setWidth 8) (h.number (by omega))
  have hstore : ∀ mem dst,
      storeData mem dst (fun i => (Cli.number str (i * 2 + 8) 2).setWidth 8) n =
        storeData mem dst (fun i => (Cli.number str' (i * 2 + 8) 2).setWidth 8) n :=
    fun _ _ => storeData_congr hdata
  unfold Loader.record
  rw [h.number (show 2 + 4 ≤ 523 by decide), h.number (show 6 + 2 ≤ 523 by decide),
    h.number (show 8 + 8 ≤ 523 by decide), h.number (show 8 + 4 ≤ 523 by decide)]
  simp only [hstore]

theorem SameBuffer.line {str str' : Memory Byte} (h : SameBuffer str str') (l : Loader)
    (addr : BitVec 32) : l.line addr str = l.line addr str' := by
  have hcount : Cli.number str 0 2 = Cli.number str' 0 2 := h.number (by decide)
  have hle := number_count_le str'
  unfold Loader.line
  rw [hcount, h.strlen]
  refine ite_congr rfl (fun _ => rfl) fun hlen => ?_
  rw [not_not] at hlen
  have hsum : lineSum str (Library.strlen str' 0 523) =
      lineSum str' (Library.strlen str' 0 523) := by
    rw [lineSum, lineSum]
    refine congrArg Hex.byteSum (List.map_congr_left fun i hi => ?_)
    refine congrArg (BitVec.setWidth 8) (h.number ?_)
    have hlt := List.mem_range.1 hi
    omega
  rw [hsum, h.number (show 8 + (Cli.number str' 0 2).toNat * 2 + 2 ≤ 523 by omega), h.record hle]

/-- Two loaders that differ at most in what is behind their buffers. -/
structure Ihex.Same (s t : Ihex) : Prop where
  loader : s.loader = t.loader
  flag : s.parseDataFlag = t.parseDataFlag
  idx : s.idx = t.idx
  str : SameBuffer s.str t.str
  told : s.told = t.told

/-- **Step lemma.**  They do the same with a character. -/
theorem Ihex.Same.step {s t : Ihex} (h : s.Same t) (addr : BitVec 32) (c : Byte) :
    (s.step addr c).Same (t.step addr c) := by
  obtain ⟨l, flag, str, idx, told⟩ := s
  obtain ⟨l', flag', str', idx', told'⟩ := t
  obtain ⟨rfl, rfl, rfl, rfl, hstr⟩ :
      l = l' ∧ flag = flag' ∧ idx = idx' ∧ told = told' ∧ SameBuffer str str' :=
    ⟨h.loader, h.flag, h.idx, h.told, h.str⟩
  unfold Ihex.step
  split
  · exact h
  split
  · exact ⟨rfl, rfl, rfl, hstr, rfl⟩
  split
  · exact ⟨rfl, rfl, rfl, hstr, rfl⟩
  split
  · exact h
  split
  · have hnul := hstr.store idx 0
    have hline := hnul.line l addr
    constructor
    · simpa only using hline
    · rfl
    · rfl
    · exact hnul
    · rfl
  simp only
  split
  · have hline := (hstr.store idx c).store (idx + 1) 0
    have hload : ((str.store idx [c]).store (idx + 1) [0]).load 0 523 =
        ((str'.store idx [c]).store (idx + 1) [0]).load 0 523 :=
      Memory.load_congr fun i hi => hline _ (by omega)
    exact ⟨rfl, rfl, rfl, hline, by rw [hload]⟩
  · exact ⟨rfl, rfl, rfl, hstr.store idx c, rfl⟩

/-- **Run lemma.**  They do the same with a text. -/
theorem Ihex.Same.run {s t : Ihex} (h : s.Same t) (addr : BitVec 32) (text : List Byte) :
    (Library.run (Ihex.step addr) s text).Same (Library.run (Ihex.step addr) t text) := by
  induction text generalizing s t with
  | nil => exact h
  | cons c text ih => exact ih (h.step addr c)

/-! ## Section 7: Lines that are too long -/

/-- `"Too long: "` -/
def tooLongBegin : CString := ⟨ascii "Too long: ", by decide⟩

/-- `"\r\n"` -/
def lineBreak : CString := ⟨crlf, by decide⟩

/-- `"Too long: %s\r\n"` -/
def tooLongFormat : CString := (tooLongBegin.append stringFormat).append lineBreak

/-- The message for a line. -/
def tooLongText (line : CString) : CString := (tooLongBegin.append line).append lineBreak

/-- What the loader shows of a line that is too long. -/
def tellTooLong (room : ℕ → Bool) (cga : CgaText) (line : CString) : Output :=
  xprintf room cga tooLongFormat [.str line]

/-- The message is shown as it is, and writes the screen only, exactly if it is printable. -/
theorem tellTooLong_faithful_iff (room : ℕ → Bool) (cga : CgaText) (line : CString) :
    (tellTooLong room cga line).Faithful cga (tooLongText line).bytes ↔
      Printable room cga (tooLongText line).bytes := by
  refine faithful_iff room cga (tooLongText line) ?_
  have hformat : tooLongFormat.bytes =
      tooLongBegin.bytes ++ Printf.percent :: 0x73 :: lineBreak.bytes := rfl
  have hbegin : Printf.percent ∉ tooLongBegin.bytes := by decide
  have hend : Printf.percent ∉ lineBreak.bytes := by decide
  rw [hformat, Printf.printf_append hbegin, Printf.printf_str, Printf.printf_of_notMem hend]
  simp only [Printed.prepend, tooLongText, CString.append, List.append_assoc]

/-- At most the line `line` with `c` is shown, and that only if it is too long. -/
def Ihex.Tells (s s' : Ihex) (line : Option (List Byte)) (c : Byte) : Prop :=
  s'.told = s.told ∨ ∃ cs, s.loader.exit = none ∧ line = some cs ∧ cs.length = 521 ∧
    s'.told = s.told ++ [CString.ofBytes (cs ++ [c])]

/-- What follows a zero byte is not read. -/
theorem CString.ofBytes_append_zero (bs : List Byte) :
    CString.ofBytes (bs ++ [0]) = CString.ofBytes bs := by
  simp only [CString.ofBytes, CString.mk.injEq]
  induction bs with
  | nil => rfl
  | cons b bs ih =>
    rw [List.cons_append, List.takeWhile_cons, List.takeWhile_cons, ih]

/-- **Step lemma.**  A line is shown when it fills the buffer. -/
theorem Ihex.Collects.tells {s : Ihex} {line : Option (List Byte)} (h : s.Collects line)
    (hexit : s.loader.exit = none) (addr : BitVec 32) (c : Byte) :
    s.Tells (s.step addr c) line c := by
  have hspec := step_spec addr hexit c
  generalize s.step addr c = s' at hspec
  cases hspec with
  | colon | interrupt | between | lineEnd | collect => exact Or.inl rfl
  | tooLong _ _ _ _ hflag hidx =>
    obtain ⟨cs, hline, hlen⟩ := h.flag hflag
    obtain ⟨-, hat, hload⟩ := h.short cs hline hlen
    have hfull : cs.length = 521 := by omega
    have hbuf : ((s.str.store s.idx [c]).store (s.idx + 1) [0]).load 0 523 =
        cs ++ [c] ++ [0] := by
      have hsize : 523 = cs.length + 2 := by omega
      have hstore : (s.str.store cs.length [c]).store (cs.length + 1) [0] =
          s.str.store cs.length [c, 0] := (Memory.store_append s.str cs.length [c] [0]).symm
      rw [hat, hstore, hsize, Memory.load_add, Nat.zero_add,
        Memory.load_store_of_disjoint _ _ (Or.inl (Nat.zero_add _).le), hload, List.append_assoc]
      exact congrArg (cs ++ ·) (Memory.load_store_self s.str cs.length [c, 0])
    refine Or.inr ⟨cs, hexit, hline, hfull, ?_⟩
    simp only [hbuf, CString.ofBytes_append_zero]

/-! ## Section 8: The whole text -/

/-- Nothing that a line may change is changed. -/
structure Loader.Unchanged (l l' : Loader) : Prop where
  mem : l'.mem = l.mem
  base : l'.base = l.base
  bytesRead : l'.bytesRead = l.bytesRead

theorem Loader.Unchanged.refl (l : Loader) : l.Unchanged l := ⟨rfl, rfl, rfl⟩

/-- **The loader follows the grammar.**  The character `c` behind any text changes the memory, the
base and the count of bytes only if it ends a line, and as the grammar says if the line is
legible.  Nothing behind the line buffer is written, and nothing there decides what is loaded.
Only a line that fills the buffer is shown, and a printable message writes the screen alone. -/
theorem ihex_followsGrammar (addr : BitVec 32) (mem : AddressSpace) (str : Memory Byte)
    (text : List Byte) (c : Byte) :
    (∀ cs, (cliCmdIhex addr mem str text).loader.exit = none → openLine text = some cs →
      c = 0x0d ∨ c = 0x0a → Legible cs →
      FollowsGrammar addr (cliCmdIhex addr mem str text).loader
        (cliCmdIhex addr mem str (text ++ [c])).loader cs) ∧
    ((cliCmdIhex addr mem str text).loader.exit ≠ none ∨ openLine text = none ∨
        ¬ (c = 0x0d ∨ c = 0x0a) →
      (cliCmdIhex addr mem str text).loader.Unchanged
        (cliCmdIhex addr mem str (text ++ [c])).loader) ∧
    (∀ i, 523 ≤ i → (cliCmdIhex addr mem str text).str i = str i) ∧
    (∀ str', SameBuffer str str' →
      (cliCmdIhex addr mem str text).loader = (cliCmdIhex addr mem str' text).loader) ∧
    (cliCmdIhex addr mem str text).Tells (cliCmdIhex addr mem str (text ++ [c]))
      (openLine text) c ∧
    ∀ room cga line, (tellTooLong room cga line).Faithful cga (tooLongText line).bytes ↔
      Printable room cga (tooLongText line).bytes := by
  have hrun : cliCmdIhex addr mem str (text ++ [c]) = (cliCmdIhex addr mem str text).step addr c :=
    run_append _ _ _ _
  obtain ⟨hcollects, hstr⟩ := Ihex.collects_run addr mem str text
  have hread : ∀ str', SameBuffer str str' →
      (cliCmdIhex addr mem str text).loader = (cliCmdIhex addr mem str' text).loader := by
    intro str' hsame
    have hinit : (Ihex.init mem str).Same (Ihex.init mem str') := ⟨rfl, rfl, rfl, hsame, rfl⟩
    exact (hinit.run addr text).loader
  rw [hrun]
  generalize cliCmdIhex addr mem str text = s at hcollects hstr hread
  have htells : s.Tells (s.step addr c) (openLine text) c := by
    by_cases hexit : s.loader.exit = none
    · exact (hcollects hexit).tells hexit addr c
    · exact Or.inl (by rw [Ihex.step_of_exit hexit])
  refine ⟨fun cs hexit hline hend hlegible => ?_, fun hother => ?_, hstr, hread, htells,
    tellTooLong_faithful_iff⟩
  · -- a line has come to its end
    have h := hcollects hexit
    have hspec := Ihex.step_spec addr hexit c
    generalize s.step addr c = s' at hspec
    cases hspec with
    | colon => exact absurd hend (by decide)
    | interrupt _ hint => exact absurd hend hint.not_end
    | between _ _ _ hflag =>
      -- the line was longer than any record
      refine followsGrammar_self (parseLine_of_length fun count hcount hlen => ?_)
      have htrue := (h.short cs hline (by omega)).1
      exact absurd htrue (by simp [hflag])
    | lineEnd _ _ hflag =>
      obtain ⟨cs', hline', hlen⟩ := h.flag hflag
      obtain rfl := Option.some.inj (hline.symm.trans hline')
      obtain ⟨-, hidx, hload⟩ := h.short cs hline hlen
      have hload' : (s.str.store s.idx [0]).load 0 cs.length = cs := by
        rwa [hidx, Memory.load_store_of_disjoint _ _ (Or.inl (Nat.zero_add _).le)]
      have hnul : s.str.store s.idx [0] cs.length = 0 := by
        rw [hidx]
        exact Memory.store_getElem s.str cs.length 0 [0] Nat.one_pos
      have hline := followsGrammar_line hlegible hload' hnul (Nat.lt_succ_of_lt hlen) s.loader addr
      simpa only using hline
    | collect _ _ _ hne | tooLong _ _ _ hne => exact absurd hend hne
  · -- nothing but the end of a line reaches the loader
    by_cases hexit : s.loader.exit = none
    · have h := hcollects hexit
      have hspec := Ihex.step_spec addr hexit c
      generalize s.step addr c = s' at hspec
      cases hspec with
      | colon | between | collect | tooLong => exact Loader.Unchanged.refl _
      | interrupt => exact ⟨rfl, rfl, rfl⟩
      | lineEnd _ hend hflag =>
        obtain ⟨cs, hline, -⟩ := h.flag hflag
        rcases hother with hne | hnone | hne
        · exact absurd hexit hne
        · rw [hnone] at hline
          cases hline
        · exact absurd hend hne
    · rw [Ihex.step_of_exit hexit]
      exact Loader.Unchanged.refl _

/-- What a line would change if nothing but the records of data changed anything. -/
structure StoresDataOnly (addr : BitVec 32) (l l' : Loader) (cs : List Byte) : Prop where
  data : ∀ r, parseLine cs = some r → r.type = 0 →
    l'.mem = storeData l.mem (addr + l.base + beWord [r.hi, r.lo]) (fun i => r.data.getD i 0)
      r.data.length
  other : (∀ r, parseLine cs = some r → r.type ≠ 0) → l.Unchanged l'

/-- The second record of an extended address moves the base.  Apart from it, a digit f that is
a small letter spoils a record, and what is no digit at all is taken for a zero. -/
theorem not_storesDataOnly :
    ¬ StoresDataOnly 0
      (cliCmdIhex 0 (fun _ => 7) (fun _ => 0)
        (ascii ":020000040001F9" ++ crlf ++ ascii ":020000040002F8")).loader
      (cliCmdIhex 0 (fun _ => 7) (fun _ => 0)
        (ascii ":020000040001F9" ++ crlf ++ ascii ":020000040002F8" ++ [0x0d])).loader
      (ascii "020000040002F8") ∧
    ¬ StoresDataOnly 0
      (cliCmdIhex 0 (fun _ => 7) (fun _ => 0) (ascii ":01000000ff00")).loader
      (cliCmdIhex 0 (fun _ => 7) (fun _ => 0) (ascii ":01000000ff00" ++ [0x0d])).loader
      (ascii "01000000ff00") ∧
    ¬ StoresDataOnly 0
      (cliCmdIhex 0 (fun _ => 7) (fun _ => 0) (ascii ":01000000ZZFF")).loader
      (cliCmdIhex 0 (fun _ => 7) (fun _ => 0) (ascii ":01000000ZZFF" ++ [0x0d])).loader
      (ascii "01000000ZZFF") := by
  refine ⟨fun h => ?_, fun h => ?_, fun h => ?_⟩
  · have hparse : parseLine (ascii "020000040002F8") = some ⟨0, 0, 4, [0, 2], by decide⟩ := by
      decide
    have hbase := (h.other fun r hr => by
      rw [hparse] at hr
      rw [← Option.some.inj hr]
      decide).base
    exact absurd hbase (by decide +kernel)
  · have hstored := (h.data ⟨0, 0, 0, [0xff], by decide⟩ (by decide) rfl)
    exact absurd (congrFun hstored 0) (by decide +kernel)
  · have hkept := (h.other fun r hr => by
      rw [show parseLine (ascii "01000000ZZFF") = none by decide] at hr
      cases hr).mem
    exact absurd (congrFun hkept 0) (by decide +kernel)

end Karnix.Cli
