import Karnix.Cli.Ihex

/-!
# Intel-HEX records

The lines between `cli_cmd_ohex` and `cli_cmd_ihex`.  The dumper prints the texts of records, and
the text of a record moves the loader as the record says.
-/

namespace Karnix.Cli

open Karnix.Library

/-! ## Section 1: Digits -/

theorem digitValue_digit {v : ℕ} (h : v < 16) :
    digitValue (Hex.digit v) = some (BitVec.ofNat 32 v) := by
  interval_cases v <;> rfl

/-- The number whose bytes are `bs`, most significant first. -/
def beWord (bs : List Byte) : BitVec 32 := bs.foldl (fun r b => r * 256 + b.setWidth 32) 0

theorem foldlM_digits (r : BitVec 32) (b : Byte) :
    (Hex.digits 2 b.toNat).foldlM (fun r c => (digitValue c).map (r * 16 + ·)) r =
      some (r * 256 + b.setWidth 32) := by
  have hbyte : b.setWidth 32 =
      BitVec.ofNat 32 (b.toNat / 16 % 16) * 16 + BitVec.ofNat 32 (b.toNat % 16) := by
    have hb : b.toNat < 256 := b.isLt
    apply BitVec.eq_of_toNat_eq
    simp only [BitVec.toNat_add, BitVec.toNat_mul, BitVec.toNat_setWidth, BitVec.toNat_ofNat,
      BitVec.ofNat_eq_ofNat]
    omega
  have hval : (r * 16 + BitVec.ofNat 32 (b.toNat / 16 % 16)) * 16 + BitVec.ofNat 32 (b.toNat % 16) =
      r * 256 + b.setWidth 32 := by
    rw [hbyte, BitVec.add_mul, BitVec.mul_assoc, BitVec.add_assoc]
    rfl
  have hdigit : ∀ v, digitValue (Hex.digit (v % 16)) = some (BitVec.ofNat 32 (v % 16)) :=
    fun v => digitValue_digit (Nat.mod_lt v (by decide))
  simp only [Hex.digits, List.nil_append, List.cons_append, List.foldlM_cons, hdigit,
    Option.map_some, Option.bind_eq_bind, Option.bind_some, List.foldlM_nil, Option.pure_def, hval]

/-- `strntoul` reads back what was printed with two digits for each byte. -/
theorem strntoul_ofBytes (bs : List Byte) : strntoul (Hex.ofBytes bs) = beWord bs := by
  have hfold : ∀ r, (Hex.ofBytes bs).foldlM (fun r c => (digitValue c).map (r * 16 + ·)) r =
      some (bs.foldl (fun r b => r * 256 + b.setWidth 32) r) := by
    induction bs with
    | nil => intro r; rfl
    | cons b bs ih =>
      intro r
      rw [Hex.ofBytes_cons, List.foldlM_append, foldlM_digits]
      exact ih (r * 256 + b.setWidth 32)
  rw [strntoul, hfold]
  rfl

@[simp] theorem beWord_singleton (b : Byte) : beWord [b] = b.setWidth 32 := by
  simp [beWord]

theorem setWidth_beWord_singleton (b : Byte) : (beWord [b]).setWidth 8 = b := by
  simp [beWord]

/-- The number at byte `i` of a line that holds the digits of `bs`. -/
theorem number_eq {str : Memory Byte} {bs : List Byte}
    (h : str.load 0 (2 * bs.length) = Hex.ofBytes bs) {i k : ℕ} (hik : i + k ≤ bs.length) :
    number str (2 * i) (2 * k) = beWord ((bs.drop i).take k) := by
  have hload : str.load (2 * i) (2 * k) = Hex.ofBytes ((bs.drop i).take k) := by
    rw [← Hex.take_ofBytes, ← Hex.drop_ofBytes, ← h,
      Memory.drop_load _ _ _ _ (Nat.mul_le_mul_left 2 (by omega)), Nat.zero_add,
      Memory.take_load _ _ _ _ (by omega)]
  rw [number, hload, strntoul_ofBytes]

/-- A single byte of the line. -/
theorem number_byte {str : Memory Byte} {bs : List Byte}
    (h : str.load 0 (2 * bs.length) = Hex.ofBytes bs) {i : ℕ} (hi : i < bs.length) :
    number str (2 * i) 2 = beWord [bs[i]] := by
  have hnum : number str (2 * i) (2 * 1) = beWord ((bs.drop i).take 1) := number_eq h hi
  rw [List.drop_eq_getElem_cons hi] at hnum
  exact hnum

/-! ## Section 2: Records -/

/-- A record of the kinds the dumper prints. -/
inductive Record where
  /-- Data, with the two bytes of their offset. -/
  | data (hi lo : Byte) (bs : List Byte) (length_le : bs.length ≤ 255)
  | endOfFile
  /-- The high half of the addresses. -/
  | extended (hi lo : Byte)
  /-- Where the program starts. -/
  | start (b₀ b₁ b₂ b₃ : Byte)

namespace Record

/-- The two bytes of the offset. -/
def offset : Record → List Byte
  | .data hi lo _ _ => [hi, lo]
  | _ => [0, 0]

def type : Record → Byte
  | .data .. => 0
  | .endOfFile => 1
  | .extended .. => 4
  | .start .. => 5

def payload : Record → List Byte
  | .data _ _ bs _ => bs
  | .endOfFile => []
  | .extended hi lo => [hi, lo]
  | .start b₀ b₁ b₂ b₃ => [b₀, b₁, b₂, b₃]

/-- The bytes the checksum is over. -/
def bytes (r : Record) : List Byte :=
  BitVec.ofNat 8 r.payload.length :: (r.offset ++ r.type :: r.payload)

def checksum (r : Record) : Byte := ~~~ Hex.byteSum r.bytes + 1

/-- The bytes of the line. -/
def line (r : Record) : List Byte := r.bytes ++ [r.checksum]

def text (r : Record) : List Byte := 0x3a :: (Hex.ofBytes r.line ++ crlf)

theorem length_payload_le (r : Record) : r.payload.length ≤ 255 := by
  cases r with
  | data hi lo bs h => exact h
  | endOfFile | extended | start => simp [payload]

theorem length_offset (r : Record) : r.offset.length = 2 := by
  cases r <;> rfl

theorem length_bytes (r : Record) : r.bytes.length = r.payload.length + 4 := by
  rw [bytes, List.length_cons, List.length_append, r.length_offset, List.length_cons]
  omega

theorem length_line (r : Record) : r.line.length = r.payload.length + 5 := by
  rw [line, List.length_append, r.length_bytes]
  rfl

/-- The payload is in the line from byte 4 on. -/
theorem drop_line (r : Record) : r.line.drop 4 = r.payload ++ [r.checksum] := by
  cases r <;> rfl

end Record

/-- What a record does to the loader. -/
def Loader.exec (l : Loader) (addr : BitVec 32) : Record → Loader
  | .data hi lo bs _ =>
    let mem := storeData l.mem (addr + l.base + beWord [hi, lo]) (fun i => bs.getD i 0) bs.length
    let data := (List.range bs.length).map fun i => mem (addr + l.base + BitVec.ofNat 32 i)
    { l with
      mem
      crc := crc32 data l.crc
      bytesRead := l.bytesRead + BitVec.ofNat 32 bs.length }
  | .endOfFile => { l with exit := some .endOfFile }
  | .extended hi lo =>
    let tmp := beWord [hi, lo] <<< 16
    let origin := if l.origin = 0 then tmp else l.origin
    { l with origin, base := tmp - origin }
  | .start b₀ b₁ b₂ b₃ => { l with start32 := beWord [b₀, b₁, b₂, b₃] }

theorem storeData_congr {mem : AddressSpace} {dst : BitVec 32} {f g : ℕ → Byte} {n : ℕ}
    (h : ∀ i, i < n → f i = g i) : storeData mem dst f n = storeData mem dst g n := by
  apply List.foldl_ext
  intro mem i hi
  rw [h i (List.mem_range.mp hi)]

theorem storeData_succ (mem : AddressSpace) (dst : BitVec 32) (f : ℕ → Byte) (n : ℕ) :
    storeData mem dst f (n + 1) =
      Function.update (storeData mem dst f n) (dst + BitVec.ofNat 32 n) (f n) := by
  rw [storeData, List.range_succ, List.foldl_append]
  rfl

/-! ## Section 3: Reading a line -/

section Line

variable {str : Memory Byte} {r : Record}

/-- The sum the loader forms is that over the bytes in front of the checksum. -/
theorem lineSum_eq (h : str.load 0 (2 * r.line.length) = Hex.ofBytes r.line) :
    lineSum str (r.payload.length * 2 + 10) = Hex.byteSum r.bytes := by
  have hcount : (r.payload.length * 2 + 10 - 2 + 1) / 2 = r.bytes.length := by
    rw [r.length_bytes]
    omega
  have hbytes : (List.range r.bytes.length).map (fun i => (number str (i * 2) 2).setWidth 8) =
      r.bytes := by
    apply List.ext_getElem
    · rw [List.length_map, List.length_range]
    · intro i h₁ h₂
      have hi : i < r.line.length := by
        rw [Record.line, List.length_append]
        exact Nat.lt_add_right 1 h₂
      rw [List.getElem_map, List.getElem_range, Nat.mul_comm, number_byte h hi,
        setWidth_beWord_singleton]
      exact List.getElem_append_left h₂
  rw [lineSum, hcount, hbytes]

/-- The loop over the data of a record stores its payload. -/
theorem storeData_line (h : str.load 0 (2 * r.line.length) = Hex.ofBytes r.line)
    (mem : AddressSpace) (dst : BitVec 32) :
    storeData mem dst (fun i => (number str (i * 2 + 8) 2).setWidth 8) r.payload.length =
      storeData mem dst (fun i => r.payload.getD i 0) r.payload.length := by
  apply storeData_congr
  intro i hi
  have hat : i * 2 + 8 = 2 * (4 + i) := by omega
  have hline : 4 + i < r.line.length := by
    rw [r.length_line]
    omega
  have hbyte : r.line[4 + i]? = some r.payload[i] := by
    rw [← List.getElem?_drop, r.drop_line, List.getElem?_append_left hi,
      List.getElem?_eq_getElem hi]
  rw [List.getElem?_eq_getElem hline, Option.some.injEq] at hbyte
  rw [hat, number_byte h hline, setWidth_beWord_singleton, hbyte, List.getD_eq_getElem?_getD,
    List.getElem?_eq_getElem hi]
  rfl

/-- **Step lemma.**  A line with the digits of a record does what the record says. -/
theorem line_record (h : str.load 0 (2 * r.line.length) = Hex.ofBytes r.line)
    (hlen : strlen str 0 523 = 2 * r.line.length) (l : Loader) (addr : BitVec 32) :
    l.line addr str = l.exec addr r := by
  have hpos : 0 < r.line.length := by
    rw [r.length_line]
    exact Nat.succ_pos _
  -- the fields of the line, as the loader reads them
  have hsize : (number str 0 2).toNat = r.payload.length := by
    have hnum : number str (2 * 0) 2 = beWord [BitVec.ofNat 8 r.payload.length] :=
      number_byte h hpos
    have hle := r.length_payload_le
    rw [show number str 0 2 = number str (2 * 0) 2 from rfl, hnum, beWord_singleton,
      BitVec.toNat_setWidth, BitVec.toNat_ofNat]
    omega
  have hcheck : (number str (8 + r.payload.length * 2) 2).setWidth 8 = r.checksum := by
    have hat : 8 + r.payload.length * 2 = 2 * r.bytes.length := by
      rw [r.length_bytes]
      omega
    have hlast : r.bytes.length < r.line.length := by
      rw [Record.line, List.length_append]
      exact Nat.lt_succ_self _
    rw [hat, number_byte h hlast, setWidth_beWord_singleton]
    exact List.getElem_concat_length rfl _
  -- the length is right, and so is the sum
  have hlen' : strlen str 0 523 = r.payload.length * 2 + 10 := by
    rw [hlen, r.length_line]
    omega
  have hrecord : l.line addr str = l.record addr str r.payload.length := by
    simp only [Loader.line, hsize, hlen', ne_eq, not_true_eq_false, if_false, lineSum_eq h, hcheck]
    exact if_neg (fun hne => hne rfl)
  have hoffset : number str 2 4 = beWord r.offset := by
    have hnum : number str (2 * 1) (2 * 2) = beWord ((r.line.drop 1).take 2) :=
      number_eq h (by rw [r.length_line]; omega)
    rw [show number str 2 4 = number str (2 * 1) (2 * 2) from rfl, hnum]
    cases r <;> rfl
  have htype : number str 6 2 = beWord [r.type] := by
    have hnum : number str (2 * 3) (2 * 1) = beWord ((r.line.drop 3).take 1) :=
      number_eq h (by rw [r.length_line]; omega)
    rw [show number str 6 2 = number str (2 * 3) (2 * 1) from rfl, hnum]
    cases r <;> rfl
  rw [hrecord, Loader.record, hoffset, htype]
  cases r with
  | data hi lo bs hbs =>
    have hstore := storeData_line h l.mem (addr + l.base + beWord [hi, lo])
    show _ = l.exec addr (.data hi lo bs hbs)
    simp only [Record.payload, Record.offset, Record.type] at hstore ⊢
    rw [hstore]
    rfl
  | endOfFile => rfl
  | extended hi lo =>
    have hnum : number str (2 * 4) (2 * 2) = beWord [hi, lo] :=
      number_eq h (by rw [Record.length_line]; exact (show 6 ≤ 7 by decide))
    show _ = l.exec addr (.extended hi lo)
    simp only [Loader.exec, ← hnum]
    rfl
  | start b₀ b₁ b₂ b₃ =>
    have hnum : number str (2 * 4) (2 * 4) = beWord [b₀, b₁, b₂, b₃] :=
      number_eq h (by rw [Record.length_line]; exact (show 8 ≤ 9 by decide))
    show _ = l.exec addr (.start b₀ b₁ b₂ b₃)
    simp only [Loader.exec, ← hnum]
    rfl

end Line

/-! ## Section 4: Reading a text -/

/-- A graphic character that does not begin a line. -/
def Plain (c : Byte) : Prop := 0x20 ≤ c.toNat ∧ c.toNat < 0x7f ∧ c.toNat ≠ 0x3a

instance (c : Byte) : Decidable (Plain c) := inferInstanceAs (Decidable (_ ∧ _))

/-- The input loop puts it into the line, and `strlen` passes over it. -/
theorem Plain.not_mem {c : Byte} (h : Plain c) :
    c ∉ [0x00, 0x3a, 0x03, 0x04, 0x08, 0x7f, 0x0d, 0x0a] := by
  intro hmem
  simp only [List.mem_cons, List.not_mem_nil, or_false] at hmem
  rcases hmem with rfl | rfl | rfl | rfl | rfl | rfl | rfl | rfl <;> exact absurd h (by decide)

theorem plain_of_isDigit {c : Byte} (h : Hex.IsDigit c) : Plain c := by
  rw [Hex.IsDigit] at h
  refine ⟨?_, ?_, ?_⟩ <;> omega

namespace Ihex

variable {addr : BitVec 32} {s : Ihex}

/-- After the end nothing is read. -/
theorem step_of_exit (h : s.loader.exit ≠ none) (c : Byte) : s.step addr c = s := if_pos h

theorem run_of_exit (h : s.loader.exit ≠ none) (cs : List Byte) : run (step addr) s cs = s := by
  induction cs with
  | nil => rfl
  | cons c cs ih => rw [run_cons, step_of_exit h, ih]

theorem step_colon (h : s.loader.exit = none) :
    s.step addr 0x3a = { s with parseDataFlag := true, idx := 0 } := by
  simp [step, h]

/-- Between the lines only a colon counts. -/
theorem step_plain_of_not_flag (hflag : s.parseDataFlag = false) {c : Byte} (hc : Plain c) :
    s.step addr c = s := by
  have hne := hc.not_mem
  simp only [List.mem_cons, List.not_mem_nil, or_false, not_or, BitVec.ofNat_eq_ofNat] at hne
  simp [step, hne, hflag]

theorem step_newline_of_not_flag (hflag : s.parseDataFlag = false) : s.step addr 0x0a = s := by
  simp [step, hflag]

theorem run_of_not_flag (hflag : s.parseDataFlag = false) {cs : List Byte}
    (hcs : ∀ c ∈ cs, Plain c) : run (step addr) s cs = s := by
  induction cs with
  | nil => rfl
  | cons c cs ih =>
    rw [run_cons, step_plain_of_not_flag hflag (hcs c List.mem_cons_self)]
    exact ih fun c' hc' => hcs c' (List.mem_cons_of_mem c hc')

/-- A character of the line. -/
theorem step_plain (hexit : s.loader.exit = none) (hflag : s.parseDataFlag = true) {c : Byte}
    (hc : Plain c) (hidx : s.idx + 1 < 522) :
    s.step addr c = { s with str := s.str.store s.idx [c], idx := s.idx + 1 } := by
  have hne := hc.not_mem
  simp only [List.mem_cons, List.not_mem_nil, or_false, not_or, BitVec.ofNat_eq_ofNat] at hne
  have hlt : s.idx < 521 := Nat.lt_of_succ_lt_succ hidx
  simp [step, hexit, hflag, hne, hlt]

/-- **Run lemma.**  The characters of the line are collected. -/
theorem run_plain (hexit : s.loader.exit = none) (hflag : s.parseDataFlag = true) {cs : List Byte}
    (hcs : ∀ c ∈ cs, Plain c) (hidx : s.idx + cs.length < 522) :
    run (step addr) s cs = { s with str := s.str.store s.idx cs, idx := s.idx + cs.length } := by
  induction cs generalizing s with
  | nil => simp
  | cons c cs ih =>
    have hone : s.idx + 1 < 522 := by
      rw [List.length_cons] at hidx
      omega
    rw [run_cons, step_plain hexit hflag (hcs c List.mem_cons_self) hone, ih]
    · have hstore : (s.str.store s.idx [c]).store (s.idx + 1) cs = s.str.store s.idx (c :: cs) :=
        (Memory.store_append s.str s.idx [c] cs).symm
      simp only [hstore, List.length_cons, Nat.add_assoc, Nat.add_comm 1]
    · exact hexit
    · exact hflag
    · exact fun c' hc' => hcs c' (List.mem_cons_of_mem c hc')
    · simpa [Nat.add_assoc, Nat.add_comm 1] using hidx

/-- The line as the loader finds it in `str`. -/
def lineBuf (s : Ihex) (cs : List Byte) : Memory Byte := (s.str.store 0 cs).store cs.length [0]

/-- **Run lemma.**  A whole line goes to the loader. -/
theorem run_line (hexit : s.loader.exit = none) {cs : List Byte} (hcs : ∀ c ∈ cs, Plain c)
    (hlen : cs.length < 522) :
    (run (step addr) s (0x3a :: (cs ++ crlf))).loader = s.loader.line addr (s.lineBuf cs) := by
  have hcollect : run (step addr) ⟨s.loader, true, s.str, 0, s.told⟩ cs =
      ⟨s.loader, true, s.str.store 0 cs, cs.length, s.told⟩ := by
    have hzero : 0 + cs.length < 522 := by rwa [Nat.zero_add]
    rw [run_plain (s := ⟨s.loader, true, s.str, 0, s.told⟩) hexit rfl hcs hzero, Nat.zero_add]
  rw [run_cons, step_colon hexit, run_append, hcollect]
  show (step addr (step addr _ 0x0d) 0x0a).loader = _
  have hreturn : step addr ⟨s.loader, true, s.str.store 0 cs, cs.length, s.told⟩ 0x0d =
      ⟨s.loader.line addr (s.lineBuf cs), false, s.lineBuf cs, cs.length, s.told⟩ := by
    simp [step, hexit, lineBuf]
  rw [hreturn, step_newline_of_not_flag rfl]

theorem strlen_lineBuf (s : Ihex) {cs : List Byte} (hcs : ∀ c ∈ cs, Plain c)
    (hlen : cs.length < 522) : strlen (s.lineBuf cs) 0 523 = cs.length := by
  have hload : (s.lineBuf cs).load 0 cs.length = cs := by
    rw [lineBuf, Memory.load_store_of_disjoint _ _ (Or.inl (Nat.zero_add _).le),
      Memory.load_store_self]
  have hnul : s.lineBuf cs (0 + cs.length) = 0 := by
    rw [Nat.zero_add]
    exact Memory.store_getElem _ cs.length 0 [0] Nat.one_pos
  have hne : ∀ i, i < cs.length → s.lineBuf cs (0 + i) ≠ 0 := by
    intro i hi h0
    have hmem : s.lineBuf cs (0 + i) ∈ (s.lineBuf cs).load 0 cs.length :=
      List.mem_map_of_mem (List.mem_range.mpr hi)
    rw [hload, h0] at hmem
    exact (hcs 0 hmem).not_mem List.mem_cons_self
  rw [strlen, cString_eq_load (Nat.lt_succ_of_lt hlen) hne hnul, Memory.length_load]

/-- **Run lemma.**  The text of a record does what the record says. -/
theorem run_text (hexit : s.loader.exit = none) (r : Record) :
    (run (step addr) s r.text).loader = s.loader.exec addr r := by
  have hlen : (Hex.ofBytes r.line).length < 522 := by
    have hle := r.length_payload_le
    rw [Hex.length_ofBytes, r.length_line]
    omega
  have hplain : ∀ c ∈ Hex.ofBytes r.line, Plain c :=
    fun c hc => plain_of_isDigit (Hex.isDigit_ofBytes _ c hc)
  rw [Record.text, run_line hexit hplain hlen]
  apply line_record
  · rw [← Hex.length_ofBytes, lineBuf,
      Memory.load_store_of_disjoint _ _ (Or.inl (Nat.zero_add _).le), Memory.load_store_self]
  · rw [strlen_lineBuf s hplain hlen, Hex.length_ofBytes]

/-- A line that cannot be a record is left alone: what it begins with is no number, and it is
too long for a record without data. -/
theorem run_other (hexit : s.loader.exit = none) {c : Byte} {cs : List Byte}
    (hcs : ∀ c' ∈ c :: cs, Plain c') (hlow : 10 < (c :: cs).length) (hlen : (c :: cs).length < 522)
    (hdigit : digitValue c = none) :
    (run (step addr) s (0x3a :: (c :: cs ++ crlf))).loader = s.loader := by
  rw [run_line hexit hcs hlen, Loader.line, strlen_lineBuf s hcs hlen]
  have hfirst : s.lineBuf (c :: cs) 0 = c := by
    rw [lineBuf, Memory.store_of_lt _ _ (show 0 < (c :: cs).length from Nat.succ_pos _)]
    exact Memory.store_getElem s.str 0 0 (c :: cs) (Nat.succ_pos _)
  have hnum : number (s.lineBuf (c :: cs)) 0 2 = 0 := by
    rw [number, Memory.load_succ, hfirst, strntoul, List.foldlM_cons, hdigit]
    rfl
  rw [hnum]
  exact if_pos (by simpa using Nat.ne_of_gt hlow)

end Ihex

/-! ## Section 5: The printed records -/

theorem setWidth_and_ff (v : BitVec 32) : (v &&& 0xff).setWidth 8 = v.setWidth 8 := by
  rw [BitVec.setWidth_and]
  exact BitVec.and_allOnes

theorem setWidth_octet (v : BitVec 32) (i : ℕ) : (octet v i).setWidth 8 = (v >>> i).setWidth 8 :=
  setWidth_and_ff (v >>> i)

/-- Two digits of a word are its low byte. -/
theorem digits_word_two (v : BitVec 32) : Hex.digits 2 v.toNat = Hex.ofBytes [v.setWidth 8] := by
  rw [Hex.digits_two]
  congr 2

/-- Four digits of a word are its two low bytes. -/
theorem digits_word_four (v : BitVec 32) :
    Hex.digits 4 v.toNat = Hex.ofBytes [(v >>> 8).setWidth 8, v.setWidth 8] := by
  have hhigh : v.toNat / 256 = (v >>> 8).toNat := by
    rw [BitVec.toNat_ushiftRight, Nat.shiftRight_eq_div_pow]
  rw [Hex.digits_four, hhigh]
  congr 2

theorem hexLen_le (len offset : BitVec 32) : (hexLen len offset).toNat ≤ 16 := by
  unfold hexLen
  split_ifs
  · decide
  · rw [BitVec.toNat_umod]
    exact (Nat.mod_lt _ (by decide)).le

/-- The data of the line at `offset`. -/
def lineData (src : AddressSpace) (addr len offset : BitVec 32) : List Byte :=
  (List.range (hexLen len offset).toNat).map fun i => src (addr + (offset + BitVec.ofNat 32 i))

theorem length_lineData (src : AddressSpace) (addr len offset : BitVec 32) :
    (lineData src addr len offset).length = (hexLen len offset).toNat := by
  rw [lineData, List.length_map, List.length_range]

def dataRecord (src : AddressSpace) (addr len offset : BitVec 32) : Record :=
  .data ((offset >>> 8).setWidth 8) (offset.setWidth 8) (lineData src addr len offset) (by
    rw [length_lineData]
    exact Nat.le_trans (hexLen_le len offset) (by decide))

/-- The record behind a page. -/
def extendedRecord (offset : BitVec 32) : Record :=
  .extended ((offset >>> 24).setWidth 8) ((offset >>> 16).setWidth 8)

def startRecord (start32 : BitVec 32) : Record :=
  .start ((start32 >>> 24).setWidth 8) ((start32 >>> 16).setWidth 8) ((start32 >>> 8).setWidth 8)
    (start32.setWidth 8)

/-- Four digits of a word cut to its low half. -/
theorem digits_and_ffff (v : BitVec 32) :
    Hex.digits 4 (v &&& 0xffff).toNat = Hex.ofBytes [(v >>> 8).setWidth 8, v.setWidth 8] := by
  have hcut : (v &&& 0xffff).toNat = v.toNat % 65536 := by
    rw [BitVec.toNat_and]
    exact Nat.and_two_pow_sub_one_eq_mod v.toNat 16
  have hhigh : ((v &&& 0xffff) >>> 8).setWidth 8 = (v >>> 8).setWidth 8 := by
    apply BitVec.eq_of_toNat_eq
    simp only [BitVec.toNat_setWidth, BitVec.toNat_ushiftRight, hcut, Nat.shiftRight_eq_div_pow]
    omega
  have hlow : (v &&& 0xffff).setWidth 8 = v.setWidth 8 := by
    apply BitVec.eq_of_toNat_eq
    simp only [BitVec.toNat_setWidth, hcut]
    omega
  rw [digits_word_four, hhigh, hlow]

/-- A checksum formed in a word. -/
theorem digits_checksum (sum : BitVec 32) :
    Hex.digits 2 ((~~~ sum + 1) &&& 0xff).toNat = Hex.ofBytes [~~~ sum.setWidth 8 + 1] := by
  rw [digits_word_two, setWidth_and_ff, BitVec.setWidth_add _ _ (by decide),
    BitVec.setWidth_not (by decide)]
  rfl

theorem ohexLine_eq (src : AddressSpace) (addr len offset : BitVec 32) :
    ohexLine src addr len offset = (dataRecord src addr len offset).text := by
  have hsum : (dataRecord src addr len offset).checksum =
      ~~~ ((hexLen len offset).setWidth 8 + (offset >>> 8).setWidth 8 + offset.setWidth 8 + 0 +
        Hex.byteSum (lineData src addr len offset)) + 1 := by
    simp only [Record.checksum, Record.bytes, Record.payload, Record.offset, Record.type,
      dataRecord, length_lineData, List.cons_append, List.nil_append, Hex.byteSum_cons,
      BitVec.add_assoc]
    rfl
  have hbytes : (dataRecord src addr len offset).line =
      [(hexLen len offset).setWidth 8] ++ [(offset >>> 8).setWidth 8, offset.setWidth 8] ++ [0] ++
        lineData src addr len offset ++ [(dataRecord src addr len offset).checksum] := by
    rw [Record.line, Record.bytes, dataRecord, Record.payload, length_lineData]
    rfl
  rw [Record.text, hbytes, hsum]
  simp only [Hex.ofBytes_append, ← digits_and_ffff, ← Hex.digits_byte, List.append_assoc]
  have hlen : (hexLen len offset).toNat = ((hexLen len offset).setWidth 8).toNat := by
    have hle := hexLen_le len offset
    rw [BitVec.toNat_setWidth, Nat.mod_eq_of_lt (by omega)]
  simp only [ohexLine, List.append_assoc, ← hlen]
  rfl

theorem ohexExtended_eq (offset : BitVec 32) :
    ohexExtended offset = (extendedRecord offset).text := by
  have hhead : ascii ":02000004" = 0x3a :: Hex.ofBytes [2, 0, 0, 4] := by decide
  have hsum : (extendedRecord offset).checksum =
      ~~~ (2 + 0 + 0 + 4 + octet offset 24 + octet offset 16).setWidth 8 + 1 := by
    have hlast : (offset >>> 16).setWidth 8 + 0 = (offset >>> 16).setWidth 8 := BitVec.add_zero _
    simp only [BitVec.setWidth_add _ _ (show 8 ≤ 32 by decide), setWidth_octet, BitVec.add_assoc]
    rw [← hlast]
    rfl
  have hline : (extendedRecord offset).line = ([2, 0, 0, 4] : List Byte) ++
      [(offset >>> 16 >>> 8).setWidth 8, (offset >>> 16).setWidth 8] ++
        [(extendedRecord offset).checksum] := by
    rw [← BitVec.shiftRight_add]
    rfl
  rw [Record.text, hline, hsum]
  simp only [Hex.ofBytes_append, ← digits_and_ffff, ← digits_checksum, List.append_assoc]
  simp only [ohexExtended, hhead, List.append_assoc]
  rfl

theorem ohexEnd_eq (start32 : BitVec 32) :
    ohexEnd start32 = (startRecord start32).text ++ Record.endOfFile.text := by
  have hhead : ascii ":04000005" = 0x3a :: Hex.ofBytes [4, 0, 0, 5] := by decide
  have heof : ascii ":00000001FF" ++ crlf = Record.endOfFile.text := by decide
  have hsum : (startRecord start32).checksum =
      ~~~ (4 + 0 + 0 + 5 + octet start32 24 + octet start32 16 + octet start32 8 +
        octet start32 0).setWidth 8 + 1 := by
    have hlast : (start32 >>> 0).setWidth 8 + 0 = (start32 >>> 0).setWidth 8 := BitVec.add_zero _
    simp only [BitVec.setWidth_add _ _ (show 8 ≤ 32 by decide), setWidth_octet, BitVec.add_assoc]
    rw [← hlast]
    rfl
  have hdigits : Hex.digits 8 start32.toNat = Hex.ofBytes (startRecord start32).payload := by
    have hhigh : start32.toNat / 16 ^ 4 = (start32 >>> 16).toNat := by
      rw [BitVec.toNat_ushiftRight, Nat.shiftRight_eq_div_pow]
      rfl
    rw [Hex.digits_add 4 4, hhigh, digits_word_four, digits_word_four, ← Hex.ofBytes_append,
      ← BitVec.shiftRight_add]
    rfl
  have hline : (startRecord start32).line = ([4, 0, 0, 5] : List Byte) ++
      (startRecord start32).payload ++ [(startRecord start32).checksum] := rfl
  rw [Record.text, hline, hsum]
  simp only [Hex.ofBytes_append, ← hdigits, ← digits_checksum, List.append_assoc]
  simp only [ohexEnd, hhead, heof, List.append_assoc]
  rfl

/-! ## Section 6: The printed text -/

theorem plain_printDigit {d : ℕ} (h : d < 16) : Plain (printDigit d) := by
  interval_cases d <;> decide

theorem plain_printNat {b : ℕ} (hb : 1 < b) (hb16 : b ≤ 16) (v : ℕ) :
    ∀ c ∈ printNat b v, Plain c := by
  intro c hc
  unfold printNat at hc
  split_ifs at hc with h0
  · rw [List.mem_singleton.mp hc]
    decide
  · obtain ⟨d, hd, rfl⟩ := List.mem_map.mp hc
    have hlt : d < b := Nat.digits_lt_base hb (List.mem_reverse.mp hd)
    exact plain_printDigit (Nat.lt_of_lt_of_le hlt hb16)

/-- A 32-bit number has at most ten digits. -/
theorem length_printNat_le {b v : ℕ} (hb : 1 < b) (hv : v < b ^ 10) :
    (printNat b v).length ≤ 10 := by
  unfold printNat
  split_ifs with h0
  · decide
  · rw [List.length_map, List.length_reverse]
    exact (Nat.digits_length_le_iff hb v).mpr hv

/-- The first line between its colon and its end. -/
def headerBody (addr len start32 : BitVec 32) : List Byte :=
  ascii " addr = " ++ printPtr addr ++ ascii ", len = " ++ printNat 10 len.toNat ++
    ascii ", entry = " ++ printPtr start32 ++ ascii ", press Ctrl-C to break."

theorem plain_ascii {s : String} (h : (s.toList.all fun c =>
    decide (0x20 ≤ c.toNat ∧ c.toNat < 0x7f ∧ c.toNat ≠ 0x3a)) = true) :
    ∀ c ∈ ascii s, Plain c := by
  intro b hb
  obtain ⟨c, hc, rfl⟩ := List.mem_map.mp hb
  have hplain := of_decide_eq_true (List.all_eq_true.mp h c hc)
  have hlt : c.toNat < 2 ^ 8 := Nat.lt_trans hplain.2.1 (by decide)
  rw [Plain, BitVec.toNat_ofNat, Nat.mod_eq_of_lt hlt]
  exact hplain

theorem plain_headerBody (addr len start32 : BitVec 32) :
    ∀ c ∈ headerBody addr len start32, Plain c := by
  have hptr : ∀ v : BitVec 32, ∀ c ∈ printPtr v, Plain c := by
    intro v
    rw [printPtr, List.forall_mem_append]
    exact ⟨by decide, plain_printNat (by decide) (by decide) v.toNat⟩
  simp only [headerBody, List.forall_mem_append]
  refine ⟨⟨⟨⟨⟨⟨?_, hptr addr⟩, ?_⟩, plain_printNat (by decide) (by decide) len.toNat⟩, ?_⟩,
    hptr start32⟩, ?_⟩ <;> (apply plain_ascii; simp only [String.reduceToList]; decide)

theorem length_headerBody (addr len start32 : BitVec 32) :
    10 < (headerBody addr len start32).length ∧ (headerBody addr len start32).length < 522 := by
  have hptr : ∀ v : BitVec 32, (printPtr v).length ≤ 12 := by
    intro v
    have hv : (printNat 16 v.toNat).length ≤ 10 :=
      length_printNat_le (by decide) (Nat.lt_trans v.isLt (by decide))
    rw [printPtr, List.length_append, show (ascii "0x").length = 2 by decide]
    omega
  have hlen : (printNat 10 len.toNat).length ≤ 10 :=
    length_printNat_le (by decide) (Nat.lt_trans len.isLt (by decide))
  have haddr := hptr addr
  have hstart := hptr start32
  simp only [headerBody, List.length_append, show (ascii " addr = ").length = 8 by decide,
    show (ascii ", len = ").length = 8 by decide, show (ascii ", entry = ").length = 10 by decide,
    show (ascii ", press Ctrl-C to break.").length = 24 by decide]
  omega

/-- The loader takes the first line for a record that is not one. -/
theorem run_header {s : Ihex} (hexit : s.loader.exit = none) (hflag : s.parseDataFlag = false)
    (target addr len start32 : BitVec 32) :
    (run (Ihex.step target) s (ohexHeader addr len start32)).loader = s.loader := by
  have hsplit : ohexHeader addr len start32 =
      ascii "ohex" ++ 0x3a :: (headerBody addr len start32 ++ crlf) := by
    rw [ohexHeader, show ascii "ohex: addr = " = ascii "ohex" ++ 0x3a :: ascii " addr = " by decide]
    simp only [headerBody, List.append_assoc, List.cons_append]
  have hspace : headerBody addr len start32 = 0x20 :: (headerBody addr len start32).tail := by
    rw [headerBody, show ascii " addr = " = 0x20 :: ascii "addr = " by decide]
    rfl
  have hplain := plain_headerBody addr len start32
  obtain ⟨hlow, hhigh⟩ := length_headerBody addr len start32
  rw [hsplit, run_append, Ihex.run_of_not_flag hflag (by decide)]
  rw [hspace] at hplain hlow hhigh ⊢
  exact Ihex.run_other hexit hplain hlow hhigh (by decide)

end Karnix.Cli
