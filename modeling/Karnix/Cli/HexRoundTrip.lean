import Karnix.Cli.HexRecords

/-!
# Dumping and loading memory

A text that `cli_cmd_ohex` prints, read by `cli_cmd_ihex` with the same address.

The loader takes the first extended-address record it meets for the origin of the image, while
the dumper prints none in front of the first page.  So the second page goes where the first one
is, and every further page one page too low.
-/

namespace Karnix.Cli

open Karnix.Library

/-! ## Section 1: Where the loader puts the image -/

/-- The place of byte `o` of the image. -/
def place (o : ℕ) : ℕ := (o / 65536 - 1) * 65536 + o % 65536

theorem place_of_lt {o : ℕ} (h : o < 65536) : place o = o := by
  rw [place, Nat.div_eq_of_lt h, Nat.mod_eq_of_lt h]
  simp

/-- No byte gets to the last place of an image of several pages. -/
theorem place_ne_last {o n : ℕ} (hn : 65536 < n) (ho : o < n) : place o ≠ n - 1 := by
  unfold place
  omega

/-- Within a page the order is kept. -/
theorem place_add {o i : ℕ} (h : o % 65536 + i < 65536) : place (o + i) = place o + i := by
  unfold place
  omega

section Image

variable (src mem : AddressSpace) (addr : BitVec 32)

/-- The target memory when the first `o` bytes have been loaded. -/
def loaded (o : ℕ) : AddressSpace :=
  (List.range o).foldl (fun m i =>
    Function.update m (addr + BitVec.ofNat 32 (place i)) (src (addr + BitVec.ofNat 32 i))) mem

theorem loaded_succ (o : ℕ) :
    loaded src mem addr (o + 1) =
      Function.update (loaded src mem addr o) (addr + BitVec.ofNat 32 (place o))
        (src (addr + BitVec.ofNat 32 o)) := by
  rw [loaded, List.range_succ, List.foldl_append]
  rfl

/-- A line within one page is loaded in one piece. -/
theorem loaded_add {o n : ℕ} (h : o % 65536 + n ≤ 65536) :
    loaded src mem addr (o + n) =
      storeData (loaded src mem addr o) (addr + BitVec.ofNat 32 (place o))
        (fun i => src (addr + BitVec.ofNat 32 (o + i))) n := by
  induction n with
  | zero => rfl
  | succ n ih =>
    rw [← Nat.add_assoc, loaded_succ, storeData_succ, ih (Nat.le_of_succ_le h), place_add h,
      BitVec.ofNat_add, ← BitVec.add_assoc]

/-- The first page gets to its place. -/
theorem loaded_page {o : ℕ} (h : o ≤ 65536) (k : BitVec 32) :
    loaded src mem addr o k = if (k - addr).toNat < o then src k else mem k := by
  induction o with
  | zero => rfl
  | succ o ih =>
    have hplace : place o = o := place_of_lt h
    have hiff : k = addr + BitVec.ofNat 32 o ↔ (k - addr).toNat = o := by
      rw [BitVec.add_comm addr, ← BitVec.sub_eq_iff_eq_add, ← BitVec.toNat_inj, BitVec.toNat_ofNat,
        Nat.mod_eq_of_lt (by omega)]
    rw [loaded_succ, hplace, Function.update_apply, ih (Nat.le_of_succ_le h)]
    by_cases hk : k = addr + BitVec.ofNat 32 o
    · rw [if_pos hk, if_pos (Nat.lt_succ_of_le (hiff.mp hk).le), hk]
    · have hne := mt hiff.mpr hk
      rw [if_neg hk]
      by_cases hlt : (k - addr).toNat < o
      · rw [if_pos hlt, if_pos (Nat.lt_succ_of_lt hlt)]
      · rw [if_neg hlt, if_neg (by omega)]

/-- The last byte of an image of several pages is not loaded. -/
theorem loaded_last {n : ℕ} (hn : 65536 < n) (hmax : n ≤ 2 ^ 32) {o : ℕ} (ho : o ≤ n) :
    loaded src mem addr o (addr + BitVec.ofNat 32 (n - 1)) =
      mem (addr + BitVec.ofNat 32 (n - 1)) := by
  induction o with
  | zero => rfl
  | succ o ih =>
    have hplace : place o ≠ n - 1 := place_ne_last hn ho
    have hne : addr + BitVec.ofNat 32 (n - 1) ≠ addr + BitVec.ofNat 32 (place o) := by
      intro heq
      have hnat := congrArg BitVec.toNat ((BitVec.add_right_inj addr).mp heq)
      have hlt : place o < 2 ^ 32 := by
        unfold place
        omega
      rw [BitVec.toNat_ofNat, BitVec.toNat_ofNat, Nat.mod_eq_of_lt (by omega),
        Nat.mod_eq_of_lt hlt] at hnat
      exact hplace hnat.symm
    rw [loaded_succ, Function.update_of_ne hne, ih (Nat.le_of_succ_le ho)]

end Image

/-! ## Section 2: One pass of the dumper's loop -/

section Pass

variable {len : BitVec 32} {o : ℕ}

/-- How many bytes the line at `o` has, as long as the offset does not run over. -/
theorem hexLen_eq (hmax : len.toNat ≤ 2 ^ 32 - 16) (ho : o < len.toNat) :
    hexLen len (BitVec.ofNat 32 o) = BitVec.ofNat 32 (min 16 (len.toNat - o)) := by
  have hofs : (BitVec.ofNat 32 o).toNat = o := by
    rw [BitVec.toNat_ofNat, Nat.mod_eq_of_lt (by omega)]
  have hle : BitVec.ofNat 32 o + ohexBytesPerLine ≤ len ↔ o + 16 ≤ len.toNat := by
    rw [BitVec.le_def, BitVec.toNat_add, hofs, show ohexBytesPerLine.toNat = 16 from rfl,
      Nat.mod_eq_of_lt (by omega)]
  unfold hexLen
  split_ifs with hfull
  · rw [min_eq_left (Nat.le_sub_of_add_le' (hle.mp hfull))]
    rfl
  · have hshort := mt hle.mpr hfull
    apply BitVec.eq_of_toNat_eq
    rw [min_eq_right (by omega), BitVec.toNat_umod, BitVec.toNat_sub_of_le (by
      rw [BitVec.le_def, hofs]
      exact ho.le), hofs, show ohexBytesPerLine.toNat = 16 from rfl, BitVec.toNat_ofNat,
      Nat.mod_eq_of_lt (by omega), Nat.mod_eq_of_lt (by omega)]

/-- Whether a page ends at `o`. -/
theorem page_end_iff (h : o < 2 ^ 32) :
    BitVec.ofNat 32 o &&& 0xffff = 0 ↔ o % 65536 = 0 := by
  rw [← BitVec.toNat_inj, BitVec.toNat_and, BitVec.toNat_ofNat, Nat.mod_eq_of_lt h]
  exact Eq.congr_left (Nat.and_two_pow_sub_one_eq_mod o 16)

/-- The loader when the first `o` bytes have been read. -/
structure Loaded (src mem : AddressSpace) (addr : BitVec 32) (o : ℕ) (l : Loader) : Prop where
  exit : l.exit = none
  mem : l.mem = loaded src mem addr o
  bytesRead : l.bytesRead = BitVec.ofNat 32 o
  base : l.base = BitVec.ofNat 32 ((o / 65536 - 1) * 65536)
  origin : l.origin = if o < 65536 then 0 else 65536

variable {src mem : AddressSpace} {addr : BitVec 32} {l : Loader}

/-- What one pass of the dumper's loop makes of the loader. -/
def execPass (src : AddressSpace) (addr len : BitVec 32) (o : ℕ) (l : Loader) : Loader :=
  let n := min 16 (len.toNat - o)
  let l := l.exec addr (dataRecord src addr len (BitVec.ofNat 32 o))
  if (o + n) % 65536 = 0 then l.exec addr (extendedRecord (BitVec.ofNat 32 (o + n))) else l

/-- The two bytes of an offset give its low half. -/
theorem beWord_offset (h : o < 2 ^ 32) :
    beWord [(BitVec.ofNat 32 o >>> 8).setWidth 8, (BitVec.ofNat 32 o).setWidth 8] =
      BitVec.ofNat 32 (o % 65536) := by
  apply BitVec.eq_of_toNat_eq
  simp only [beWord, List.foldl_cons, List.foldl_nil, BitVec.toNat_add, BitVec.toNat_mul,
    BitVec.toNat_setWidth, BitVec.toNat_ofNat, BitVec.toNat_ushiftRight, BitVec.ofNat_eq_ofNat,
    Nat.shiftRight_eq_div_pow]
  omega

/-- The data record of a line within one page. -/
theorem Loaded.exec_data (h : Loaded src mem addr o l) (hmax : len.toNat ≤ 2 ^ 32 - 16)
    (ho : o < len.toNat) (h16 : 16 ∣ o) {n : ℕ} (hn : n = min 16 (len.toNat - o)) :
    ∃ crc, l.exec addr (dataRecord src addr len (BitVec.ofNat 32 o)) =
      { l with
        mem := loaded src mem addr (o + n)
        bytesRead := BitVec.ofNat 32 (o + n)
        crc } := by
  have hlen : (hexLen len (BitVec.ofNat 32 o)).toNat = n := by
    rw [hexLen_eq hmax ho, ← hn, BitVec.toNat_ofNat, Nat.mod_eq_of_lt (by omega)]
  have hdata : ∀ i, i < n →
      (lineData src addr len (BitVec.ofNat 32 o)).getD i 0 =
        src (addr + BitVec.ofNat 32 (o + i)) := by
    intro i hi
    have hin : i < (hexLen len (BitVec.ofNat 32 o)).toNat := by rwa [hlen]
    rw [lineData, List.getD_eq_getElem?_getD, List.getElem?_map, List.getElem?_range hin,
      BitVec.ofNat_add]
    rfl
  have hplace : addr + l.base + beWord [(BitVec.ofNat 32 o >>> 8).setWidth 8,
      (BitVec.ofNat 32 o).setWidth 8] = addr + BitVec.ofNat 32 (place o) := by
    rw [h.base, beWord_offset (by omega), BitVec.add_assoc, ← BitVec.ofNat_add]
    rfl
  have hmem : storeData l.mem (addr + BitVec.ofNat 32 (place o))
      (fun i => (lineData src addr len (BitVec.ofNat 32 o)).getD i 0) n =
        loaded src mem addr (o + n) := by
    rw [storeData_congr hdata, h.mem, loaded_add src mem addr (by omega)]
  have hread : l.bytesRead + BitVec.ofNat 32 n = BitVec.ofNat 32 (o + n) := by
    rw [h.bytesRead, BitVec.ofNat_add]
  rw [dataRecord, Loader.exec]
  simp only [hplace, length_lineData, hlen, hmem, hread]
  exact ⟨_, rfl⟩

/-- **Step lemma.**  One pass loads one line, and sets the base for the next one. -/
theorem Loaded.execPass (h : Loaded src mem addr o l) (hmax : len.toNat ≤ 2 ^ 32 - 16)
    (ho : o < len.toNat) (h16 : 16 ∣ o) {n : ℕ} (hn : n = min 16 (len.toNat - o)) :
    Loaded src mem addr (o + n) (execPass src addr len o l) := by
  obtain ⟨crc, hexec⟩ := h.exec_data hmax ho h16 hn
  have hpos : 0 < n := by omega
  rw [Cli.execPass, ← hn, hexec]
  split_ifs with hend
  · -- a page ends: the new base is counted from the first record of this kind
    obtain ⟨p, hp⟩ : ∃ p, o + n = (p + 1) * 65536 := by
      obtain ⟨q, hq⟩ := Nat.dvd_of_mod_eq_zero hend
      exact ⟨q - 1, by omega⟩
    have hhalf : beWord [(BitVec.ofNat 32 (o + n) >>> 24).setWidth 8,
        (BitVec.ofNat 32 (o + n) >>> 16).setWidth 8] <<< 16 =
        BitVec.ofNat 32 ((p + 1) * 65536) := by
      apply BitVec.eq_of_toNat_eq
      simp only [beWord, List.foldl_cons, List.foldl_nil, BitVec.toNat_add, BitVec.toNat_mul,
        BitVec.toNat_setWidth, BitVec.toNat_ofNat, BitVec.toNat_ushiftRight, BitVec.toNat_shiftLeft,
        BitVec.ofNat_eq_ofNat, Nat.shiftRight_eq_div_pow, Nat.shiftLeft_eq]
      omega
    have horigin : (if l.origin = 0 then BitVec.ofNat 32 ((p + 1) * 65536) else l.origin) =
        65536 := by
      rw [h.origin]
      by_cases hfirst : o < 65536
      · have hp0 : p = 0 := by omega
        rw [if_pos hfirst, if_pos rfl, hp0]
        rfl
      · rw [if_neg hfirst]
        rfl
    have hbase : BitVec.ofNat 32 ((p + 1) * 65536) - 65536 =
        BitVec.ofNat 32 (((o + n) / 65536 - 1) * 65536) := by
      rw [hp, Nat.mul_div_cancel _ (by decide), Nat.add_sub_cancel, Nat.succ_mul, BitVec.ofNat_add]
      exact BitVec.add_sub_cancel _ _
    rw [extendedRecord, Loader.exec]
    simp only [hhalf, horigin, hbase]
    exact ⟨h.exit, rfl, rfl, rfl, (if_neg (by omega)).symm⟩
  · -- within the page the base stays
    have hpage : (o + n) / 65536 = o / 65536 := by omega
    refine ⟨h.exit, rfl, rfl, ?_, ?_⟩
    · rw [hpage]
      exact h.base
    · have hiff : o + n < 65536 ↔ o < 65536 := by omega
      simp only [hiff]
      exact h.origin

end Pass

/-! ## Section 3: The whole text -/

section Text

variable {src mem : AddressSpace} {addr len : BitVec 32}

/-- A pass that prints a line, in terms of records. -/
theorem ohexLoop_succ (hmax : len.toNat ≤ 2 ^ 32 - 16) {o : ℕ} (ho : o < len.toNat) {k : ℕ}
    (hk : k = min 16 (len.toNat - o)) (fuel n : ℕ) :
    ohexLoop src addr len (fun _ => false) (fuel + 1) n (BitVec.ofNat 32 o) =
      (ohexLoop src addr len (fun _ => false) fuel (n + 1) (BitVec.ofNat 32 (o + k))).map
       fun rest =>
        ((dataRecord src addr len (BitVec.ofNat 32 o)).text ++
          (if (o + k) % 65536 = 0 then (extendedRecord (BitVec.ofNat 32 (o + k))).text else []) ++
            rest.1, rest.2) := by
  have hlt : BitVec.ofNat 32 o < len := by
    rw [BitVec.lt_def, BitVec.toNat_ofNat, Nat.mod_eq_of_lt (by omega)]
    exact ho
  have hend := page_end_iff (show o + k < 2 ^ 32 by omega)
  rw [ohexLoop, if_pos hlt, hexLen_eq hmax ho, ← hk, ← BitVec.ofNat_add]
  simp only [ohexLine_eq, ohexExtended_eq, hend, Bool.false_eq_true, if_false]

/-- The text of one pass moves the loader by one pass. -/
theorem run_pass {s : Ihex} {o : ℕ} (h : Loaded src mem addr o s.loader)
    (hmax : len.toNat ≤ 2 ^ 32 - 16) (ho : o < len.toNat) (h16 : 16 ∣ o) {k : ℕ}
    (hk : k = min 16 (len.toNat - o)) :
    Loaded src mem addr (o + k)
      (run (Ihex.step addr) s ((dataRecord src addr len (BitVec.ofNat 32 o)).text ++
        (if (o + k) % 65536 = 0 then (extendedRecord (BitVec.ofNat 32 (o + k))).text else
          []))).loader := by
  have hpass := h.execPass hmax ho h16 hk
  have hdata : (run (Ihex.step addr) s (dataRecord src addr len (BitVec.ofNat 32 o)).text).loader =
      s.loader.exec addr (dataRecord src addr len (BitVec.ofNat 32 o)) := Ihex.run_text h.exit _
  rw [execPass, ← hk] at hpass
  rw [run_append]
  split_ifs at hpass ⊢ with hend
  · obtain ⟨crc, hexec⟩ := h.exec_data hmax ho h16 hk
    rw [Ihex.run_text, hdata]
    · exact hpass
    · rw [hdata, hexec]
      exact h.exit
  · rw [run_nil, hdata]
    exact hpass

/-- **Run lemma.**  What the dumper's loop prints from `o` on loads the rest of the image. -/
theorem run_ohexLoop (hmax : len.toNat ≤ 2 ^ 32 - 16) {fuel n o : ℕ} {s : Ihex}
    (h : Loaded src mem addr o s.loader) (ho : o ≤ len.toNat) (h16 : 16 ∣ o ∨ o = len.toNat)
    {text : List Byte} {offset : BitVec 32}
    (hloop : ohexLoop src addr len (fun _ => false) fuel n (BitVec.ofNat 32 o) =
      some (text, offset)) :
    offset = len ∧ Loaded src mem addr len.toNat (run (Ihex.step addr) s text).loader := by
  induction fuel generalizing n o s text with
  | zero => cases hloop
  | succ fuel ih =>
    rcases Nat.lt_or_eq_of_le ho with hlt | rfl
    · have hdvd : 16 ∣ o := h16.resolve_right (Nat.ne_of_lt hlt)
      obtain ⟨k, hk⟩ : ∃ k, k = min 16 (len.toNat - o) := ⟨_, rfl⟩
      rw [ohexLoop_succ hmax hlt hk] at hloop
      obtain ⟨rest, hrest, heq⟩ := Option.map_eq_some_iff.mp hloop
      obtain ⟨rfl, rfl⟩ := Prod.mk.inj heq
      rw [run_append]
      apply ih (run_pass h hmax hlt hdvd hk) (by omega) _ hrest
      omega
    · have hdone : ¬ BitVec.ofNat 32 len.toNat < len := by
        rw [BitVec.ofNat_toNat, BitVec.setWidth_eq]
        exact BitVec.lt_irrefl len
      rw [ohexLoop, if_neg hdone, Option.some.injEq, Prod.mk.injEq] at hloop
      obtain ⟨rfl, rfl⟩ := hloop
      exact ⟨by rw [BitVec.ofNat_toNat, BitVec.setWidth_eq], h⟩

/-- The loop ends when the offset does not run over. -/
theorem ohexLoop_isSome (hmax : len.toNat ≤ 2 ^ 32 - 16) {fuel o : ℕ} (hfuel : len.toNat - o < fuel)
    (ho : o ≤ len.toNat) (n : ℕ) :
    (ohexLoop src addr len (fun _ => false) fuel n (BitVec.ofNat 32 o)).isSome := by
  induction fuel generalizing n o with
  | zero => exact absurd hfuel (Nat.not_lt_zero _)
  | succ fuel ih =>
    rcases Nat.lt_or_eq_of_le ho with hlt | rfl
    · obtain ⟨k, hk⟩ : ∃ k, k = min 16 (len.toNat - o) := ⟨_, rfl⟩
      rw [ohexLoop_succ hmax hlt hk, Option.isSome_map]
      exact ih (by omega) (by omega) (n + 1)
    · have hdone : ¬ BitVec.ofNat 32 len.toNat < len := by
        rw [BitVec.ofNat_toNat, BitVec.setWidth_eq]
        exact BitVec.lt_irrefl len
      rw [ohexLoop, if_neg hdone]
      rfl

/-- With a length above `2 ^ 32 - 16` the last line takes the offset back to 0. -/
theorem ohexLoop_none (hmax : 2 ^ 32 - 16 < len.toNat) {fuel o : ℕ} (ho : o < 2 ^ 32) (h16 : 16 ∣ o)
    (n : ℕ) : ohexLoop src addr len (fun _ => false) fuel n (BitVec.ofNat 32 o) = none := by
  induction fuel generalizing n o with
  | zero => rfl
  | succ fuel ih =>
    have hlt : BitVec.ofNat 32 o < len := by
      rw [BitVec.lt_def, BitVec.toNat_ofNat, Nat.mod_eq_of_lt ho]
      omega
    have hfull : hexLen len (BitVec.ofNat 32 o) = BitVec.ofNat 32 16 := by
      apply if_pos
      rw [BitVec.le_def, BitVec.toNat_add, BitVec.toNat_ofNat,
        show ohexBytesPerLine.toNat = 16 from rfl]
      omega
    have hnext : BitVec.ofNat 32 o + BitVec.ofNat 32 16 = BitVec.ofNat 32 ((o + 16) % 2 ^ 32) := by
      apply BitVec.eq_of_toNat_eq
      simp only [BitVec.toNat_add, BitVec.toNat_ofNat]
      omega
    have hdvd : 16 ∣ (o + 16) % 2 ^ 32 := by omega
    have hrest := ih (Nat.mod_lt (o + 16) (by decide)) hdvd (n + 1)
    rw [ohexLoop, if_pos hlt, hfull, hnext]
    simp only [Bool.false_eq_true, if_false, hrest, Option.map_none]

/-- **Run lemma.**  The whole text: the loader ends at the end-of-file record, with the image as
`loaded` says. -/
theorem cliCmdIhex_dump (hmax : len.toNat ≤ 2 ^ 32 - 16) {start32 : BitVec 32} {fuel : ℕ}
    {text : List Byte}
    (htext : cliCmdOhex src addr len start32 (fun _ => false) fuel = some text)
    (str : Memory Byte) :
    let l := (cliCmdIhex addr mem str text).loader
    l.exit = some .endOfFile ∧ l.bytesRead = len ∧ l.mem = loaded src mem addr len.toNat := by
  obtain ⟨⟨body, offset⟩, hbody, rfl⟩ := Option.map_eq_some_iff.mp htext
  have hinit : Loaded src mem addr 0 (Ihex.init mem str).loader := ⟨rfl, rfl, rfl, rfl, rfl⟩
  -- the state behind the first line
  obtain ⟨s, hs⟩ : ∃ s, s = run (Ihex.step addr) (Ihex.init mem str)
      (ohexHeader addr len start32) := ⟨_, rfl⟩
  have hheader : Loaded src mem addr 0 s.loader := by
    rw [hs, run_header rfl rfl]
    exact hinit
  obtain ⟨rfl, hloaded⟩ :=
    run_ohexLoop hmax hheader (Nat.zero_le _) (Or.inl (Nat.dvd_zero 16)) hbody
  -- the two records at the end
  obtain ⟨s', hs'⟩ : ∃ s', s' = run (Ihex.step addr) s body := ⟨_, rfl⟩
  rw [← hs'] at hloaded
  obtain ⟨s'', hs''⟩ : ∃ s'', s'' = run (Ihex.step addr) s' (ohexEnd start32) := ⟨_, rfl⟩
  have hend : s''.loader =
      (s'.loader.exec addr (startRecord start32)).exec addr .endOfFile := by
    have hstart : (run (Ihex.step addr) s' (startRecord start32).text).loader =
        s'.loader.exec addr (startRecord start32) := Ihex.run_text hloaded.exit _
    rw [hs'', ohexEnd_eq, run_append, Ihex.run_text, hstart]
    rw [hstart]
    exact hloaded.exit
  have hexit : s''.loader.exit = some .endOfFile := by
    rw [hend]
    rfl
  have hdone : s''.loader.exit ≠ none := by
    rw [hexit]
    exact Option.some_ne_none _
  -- nothing behind them is read
  have hfinal : cliCmdIhex addr mem str (ohexHeader addr offset start32 ++ body ++
      (if offset = offset then ohexEnd start32 else []) ++ ascii "ohex: end" ++ crlf ++ [0x04]) =
        s'' := by
    rw [cliCmdIhex, if_pos rfl]
    simp only [run_append, ← hs, ← hs', ← hs'', Ihex.run_of_exit hdone]
  dsimp only
  rw [hfinal]
  refine ⟨hexit, ?_, ?_⟩
  · rw [hend]
    exact hloaded.bytesRead.trans (by rw [BitVec.ofNat_toNat, BitVec.setWidth_eq])
  · rw [hend]
    exact hloaded.mem

variable (src addr) in
/-- The text exists when the offset does not run over. -/
theorem cliCmdOhex_isSome (hmax : len.toNat ≤ 2 ^ 32 - 16) (start32 : BitVec 32) :
    (cliCmdOhex src addr len start32 (fun _ => false) (len.toNat + 1)).isSome := by
  rw [cliCmdOhex, Option.isSome_map]
  exact ohexLoop_isSome hmax (Nat.lt_succ_self _) (Nat.zero_le _) 0

theorem cliCmdOhex_none (hmax : 2 ^ 32 - 16 < len.toNat) (start32 : BitVec 32) (fuel : ℕ) :
    cliCmdOhex src addr len start32 (fun _ => false) fuel = none := by
  rw [cliCmdOhex, Option.map_eq_none_iff]
  exact ohexLoop_none hmax (by decide) (Nat.dvd_zero 16) 0

end Text

/-! ## Section 4: The round trip -/

/-- The dump of the bytes from `addr` on ends, and read with the same address it stores them
where they were and nothing else, whatever is in the target memory. -/
def Restores (src : AddressSpace) (addr len start32 : BitVec 32) : Prop :=
  ∀ (mem : AddressSpace) (str : Memory Byte), ∃ fuel text,
    cliCmdOhex src addr len start32 (fun _ => false) fuel = some text ∧
      let l := (cliCmdIhex addr mem str text).loader
      l.exit = some .endOfFile ∧ l.bytesRead = len ∧
        ∀ k, l.mem k = if k - addr < len then src k else mem k

theorem restores_of_page {src : AddressSpace} {addr len start32 : BitVec 32}
    (h : len.toNat ≤ 65536) : Restores src addr len start32 := by
  intro mem str
  have hmax : len.toNat ≤ 2 ^ 32 - 16 := Nat.le_trans h (by decide)
  obtain ⟨text, htext⟩ :=
    Option.isSome_iff_exists.mp (cliCmdOhex_isSome src addr hmax start32)
  refine ⟨_, text, htext, ?_⟩
  obtain ⟨hexit, hread, hmem⟩ := cliCmdIhex_dump hmax htext str
  refine ⟨hexit, hread, fun k => ?_⟩
  rw [hmem, loaded_page src mem addr h]
  simp only [BitVec.lt_def]

/-- The last byte of an image of several pages keeps what it was. -/
theorem last_byte_kept {src mem : AddressSpace} {addr len start32 : BitVec 32} {str : Memory Byte}
    (h : 65536 < len.toNat) {fuel : ℕ} {text : List Byte}
    (htext : cliCmdOhex src addr len start32 (fun _ => false) fuel = some text) :
    (cliCmdIhex addr mem str text).loader.mem (addr + BitVec.ofNat 32 (len.toNat - 1)) =
      mem (addr + BitVec.ofNat 32 (len.toNat - 1)) := by
  rcases Nat.lt_or_ge (2 ^ 32 - 16) len.toNat with hover | hmax
  · rw [cliCmdOhex_none hover] at htext
    cases htext
  · rw [(cliCmdIhex_dump hmax htext str).2.2]
    exact loaded_last src mem addr h len.isLt.le (Nat.le_refl _)

theorem not_restores_of_pages {src : AddressSpace} {addr len start32 : BitVec 32}
    (h : 65536 < len.toNat) : ¬ Restores src addr len start32 := by
  intro hres
  -- a target memory that differs from the image everywhere
  obtain ⟨fuel, text, htext, -, -, hmem⟩ := hres (fun k => src k + 1) fun _ => 0
  have hkept : (cliCmdIhex addr (fun k => src k + 1) (fun _ => 0) text).loader.mem
      (addr + BitVec.ofNat 32 (len.toNat - 1)) =
        src (addr + BitVec.ofNat 32 (len.toNat - 1)) + 1 := last_byte_kept h htext
  have hin : addr + BitVec.ofNat 32 (len.toNat - 1) - addr < len := by
    have hlt : len.toNat < 2 ^ 32 := len.isLt
    rw [BitVec.add_comm, BitVec.add_sub_cancel, BitVec.lt_def, BitVec.toNat_ofNat,
      Nat.mod_eq_of_lt (by omega)]
    omega
  rw [hmem, if_pos hin] at hkept
  have hne : ∀ b : Byte, b ≠ b + 1 := by decide
  exact hne _ hkept

/-- A dump is restored if and only if it has no second page. -/
theorem hexRoundTrip_iff (src : AddressSpace) (addr len start32 : BitVec 32) :
    Restores src addr len start32 ↔ len.toNat ≤ 65536 := by
  constructor
  · intro hres
    by_contra hlong
    exact not_restores_of_pages (Nat.lt_of_not_le hlong) hres
  · exact restores_of_page

/-- 64K and one byte of ones, loaded into a memory of zeros: the last byte stays zero. -/
theorem hexRoundTrip_secondPage :
    ¬ ∀ (src : AddressSpace) (addr len start32 : BitVec 32), Restores src addr len start32 := by
  intro hall
  have hres := hall (fun _ => 0xFF) 0x80000000 0x10001 0x80000000
  obtain ⟨fuel, text, htext, -, -, hmem⟩ := hres (fun _ => 0) fun _ => 0
  have hkept : (cliCmdIhex 0x80000000 (fun _ => 0) (fun _ => 0) text).loader.mem 0x80010000 = 0 :=
    last_byte_kept (by decide) htext
  rw [hmem] at hkept
  exact absurd hkept (by decide)

end Karnix.Cli
