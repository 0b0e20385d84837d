import Karnix.Cli.HexGrammar
import Karnix.Library.CrcPolynomial

/-!
# The check-sum of a HEX download

The loader of `cli_cmd_ihex` feeds the check-sum of all records before into that of the next one.
It takes it over what stands at the base, not at the base and the offset where the data went, so
that it is the check-sum of other bytes as soon as a record has an offset.
-/

namespace Karnix.Cli

open Karnix.Library

/-! ## Section 1: Check-sums in parts -/

theorem crc32Bit_eq_shift : crc32Bit = Crc.shift crc32Polynomial := by
  funext crc
  have hodd : crc &&& 1 = (BitVec.ofBool (crc.getLsbD 0)).setWidth 32 :=
    BitVec.and_one_eq_setWidth_ofBool_getLsbD
  unfold crc32Bit Crc.shift
  rw [hodd]
  cases crc.getLsbD 0
  · exact BitVec.xor_zero
  · rfl

theorem crc32_eq_bytes (data : List Byte) (p : BitVec 32) :
    crc32 data p = Crc.bytes crc32Polynomial (p ^^^ 0xFFFFFFFF) data ^^^ 0xFFFFFFFF := by
  unfold crc32 Crc.bytes
  rw [crc32Bit_eq_shift]

theorem crc32_nil (p : BitVec 32) : crc32 [] p = p := by
  rw [crc32, List.foldl_nil, BitVec.xor_assoc, BitVec.xor_self]
  exact BitVec.xor_zero

/-- The two inversions between the parts cancel. -/
theorem crc32_append (data data' : List Byte) (p : BitVec 32) :
    crc32 (data ++ data') p = crc32 data' (crc32 data p) := by
  have hcancel : ∀ x : BitVec 32, x ^^^ 0xFFFFFFFF ^^^ 0xFFFFFFFF = x := by
    intro x
    rw [BitVec.xor_assoc, BitVec.xor_self]
    exact BitVec.xor_zero
  simp only [crc32_eq_bytes, Crc.bytes, List.foldl_append, hcancel]

/-- Two texts have one check-sum exactly if their difference is a multiple of the generator. -/
theorem crc32_eq_iff {data data' : List Byte} (h : data.length = data'.length) (p : BitVec 32) :
    crc32 data p = crc32 data' p ↔ Crc.genPoly crc32Polynomial ∣
      Crc.msgPoly (msgBits (List.zipWith (· ^^^ ·) data data')) := by
  rw [← Crc.bits_eq_zero_iff rfl (by decide), ← Crc.bytes_eq_bytes_iff (by decide) _ h,
    crc32_eq_bytes, crc32_eq_bytes]
  exact BitVec.xor_left_inj _

/-! ## Section 2: Arrivals -/

/-- A record of data that the loader takes, and the base it goes to. -/
structure Arrival where
  base : BitVec 32
  offset : BitVec 32
  data : List Byte
  offset_lt : offset.toNat < 65536
  length_le : data.length ≤ 255

namespace Arrival

variable (addr : BitVec 32) (mem : AddressSpace)

/-- The memory with the data in it. -/
def store (a : Arrival) : AddressSpace :=
  storeData mem (addr + a.base + a.offset) (fun i => a.data.getD i 0) a.data.length

/-- What stands at the base then: the offset moves the data up, and leaves what was there. -/
def seen (a : Arrival) : List Byte :=
  (List.range a.data.length).map fun i =>
    if i < a.offset.toNat then mem (addr + a.base + BitVec.ofNat 32 i)
    else a.data.getD (i - a.offset.toNat) 0

@[simp] theorem length_seen (a : Arrival) : (a.seen addr mem).length = a.data.length := by
  rw [seen, List.length_map, List.length_range]

end Arrival

theorem HexRecord.offset_lt (r : HexRecord) : (beWord [r.hi, r.lo]).toNat < 0x10000 := by
  have hhi := r.hi.isLt
  have hlo := r.lo.isLt
  simp only [beWord, List.foldl_cons, List.foldl_nil, BitVec.toNat_add, BitVec.toNat_mul,
    BitVec.toNat_setWidth, BitVec.toNat_ofNat, BitVec.ofNat_eq_ofNat]
  omega

/-- The record `r`, with the base that it meets. -/
def HexRecord.arrival (r : HexRecord) (base : BitVec 32) : Arrival where
  base := base
  offset := beWord [r.hi, r.lo]
  data := r.data
  offset_lt := r.offset_lt
  length_le := r.length_le

/-- What a text says by the grammar, as long as the download goes on. -/
structure Download where
  /-- The open line. -/
  line : Option (List Byte)
  /-- The lines that have ended. -/
  lines : List (List Byte)
  origin : BitVec 32
  base : BitVec 32
  /-- The records of data, in the order of their arrival. -/
  arrivals : List Arrival
  /-- There was the record of the end, or a character that interrupts. -/
  ended : Bool

namespace Download

/-- A record: data arrives, the end is reached, or the base changes. -/
def record (d : Download) (r : HexRecord) : Download :=
  if r.type = 0 then { d with arrivals := d.arrivals ++ [r.arrival d.base] }
  else if r.type = 1 then { d with ended := true }
  else if r.type = 4 then
    let page := beWord (r.data.take 2) <<< 16
    -- the first page that is not page 0 goes to the target address
    let origin := if d.origin = 0 then page else d.origin
    { d with origin, base := page - origin }
  else d

/-- The end of a line. -/
def endLine (d : Download) (cs : List Byte) : Download :=
  let d' := (parseLine cs).elim d d.record
  { d' with line := none, lines := d.lines ++ [cs] }

/-- The character `c`: it interrupts the download, ends a line or belongs to one. -/
def step (d : Download) (c : Byte) : Download :=
  if d.ended then d
  else if Ihex.Interrupts c then { d with ended := true }
  else if c = 0x0d ∨ c = 0x0a then d.line.elim d d.endLine
  else { d with line := nextLine d.line c }

/-- Before the first character nothing has arrived, and no line is open. -/
def init : Download := ⟨none, [], 0, 0, [], false⟩

end Download

/-- What the grammar makes of a text. -/
def download (text : List Byte) : Download := run Download.step Download.init text

/-- The line is legible, and if it moves the base it has the two bytes of a page. -/
def Readable (cs : List Byte) : Prop :=
  Legible cs ∧ ∀ r ∈ parseLine cs, r.type = 4 → 2 ≤ r.data.length

instance (cs : List Byte) : Decidable (Legible cs) := inferInstanceAs (Decidable (_ ∨ _))

instance (cs : List Byte) : Decidable (Readable cs) := inferInstanceAs (Decidable (_ ∧ _))

/-- The data of all the records, one behind the other. -/
def arrived (as : List Arrival) : List Byte := as.flatMap Arrival.data

/-- What stands at the base after each of them. -/
def seen (addr : BitVec 32) : AddressSpace → List Arrival → List Byte
  | _, [] => []
  | mem, a :: as => a.seen addr mem ++ seen addr (a.store addr mem) as

theorem arrived_append (as bs : List Arrival) : arrived (as ++ bs) = arrived as ++ arrived bs :=
  List.flatMap_append

theorem seen_append (addr : BitVec 32) (mem : AddressSpace) (as bs : List Arrival) :
    seen addr mem (as ++ bs) =
      seen addr mem as ++ seen addr (as.foldl (Arrival.store addr) mem) bs := by
  induction as generalizing mem with
  | nil => rfl
  | cons a as ih => rw [List.cons_append, seen, seen, ih, List.append_assoc]; rfl

theorem length_seen (addr : BitVec 32) (mem : AddressSpace) (as : List Arrival) :
    (seen addr mem as).length = (arrived as).length := by
  induction as generalizing mem with
  | nil => rfl
  | cons a as ih =>
    rw [seen, List.length_append, ih, Arrival.length_seen]
    exact List.length_append.symm

/-! ## Section 3: What is stored and what is checked -/

/-- A cell of the memory behind a store. -/
theorem storeData_apply (mem : AddressSpace) (dst : BitVec 32) (f : ℕ → Byte) {n : ℕ}
    (hn : n ≤ 2 ^ 32) (x : BitVec 32) :
    storeData mem dst f n x = if (x - dst).toNat < n then f (x - dst).toNat else mem x := by
  induction n with
  | zero => rfl
  | succ n ih =>
    have hat : x = dst + BitVec.ofNat 32 n ↔ (x - dst).toNat = n := by
      rw [← sub_eq_iff_eq_add', ← BitVec.toNat_inj, BitVec.toNat_ofNat, Nat.mod_eq_of_lt hn]
    rw [storeData_succ, Function.update_apply, ih (Nat.le_of_succ_le hn)]
    by_cases hx : (x - dst).toNat = n
    · rw [if_pos (hat.2 hx), if_pos (by omega), hx]
    · rw [if_neg (mt hat.1 hx)]
      refine if_congr ?_ rfl rfl
      omega

/-- The bytes that the check-sum is taken over. -/
theorem Arrival.map_store (addr : BitVec 32) (mem : AddressSpace) (a : Arrival) :
    (List.range a.data.length).map (fun i => a.store addr mem (addr + a.base + BitVec.ofNat 32 i)) =
      a.seen addr mem := by
  apply List.map_congr_left
  intro i hi
  have hi : i < a.data.length := List.mem_range.1 hi
  have hlen := a.length_le
  have hoffset := a.offset_lt
  have hat : (addr + a.base + BitVec.ofNat 32 i - (addr + a.base + a.offset)).toNat =
      if i < a.offset.toNat then 2 ^ 32 + i - a.offset.toNat else i - a.offset.toNat := by
    rw [add_sub_add_left_eq_sub, BitVec.toNat_sub, BitVec.toNat_ofNat]
    split <;> omega
  rw [store, storeData_apply _ _ _ (by omega), hat]
  split
  · next hlow => rw [if_neg (by omega)]
  · next hhigh => rw [if_pos (by omega)]

/-- What the records `as` make of a loader. -/
structure Takes (addr : BitVec 32) (l l' : Loader) (as : List Arrival) : Prop where
  mem : l'.mem = as.foldl (Arrival.store addr) l.mem
  crc : l'.crc = crc32 (seen addr l.mem as) l.crc
  bytesRead : l'.bytesRead = l.bytesRead + BitVec.ofNat 32 (arrived as).length

theorem Takes.nil {addr : BitVec 32} {l l' : Loader} (hmem : l'.mem = l.mem)
    (hcrc : l'.crc = l.crc) (hread : l'.bytesRead = l.bytesRead) : Takes addr l l' [] := by
  refine ⟨hmem, ?_, ?_⟩
  · rw [hcrc]
    exact (crc32_nil l.crc).symm
  · rw [hread]
    exact (BitVec.add_zero _).symm

theorem Takes.append {addr : BitVec 32} {l l' l'' : Loader} {as bs : List Arrival}
    (h : Takes addr l l' as) (h' : Takes addr l' l'' bs) : Takes addr l l'' (as ++ bs) := by
  refine ⟨?_, ?_, ?_⟩
  · rw [h'.mem, h.mem, List.foldl_append]
  · rw [h'.crc, h.crc, h.mem, seen_append, crc32_append]
  · rw [h'.bytesRead, h.bytesRead, arrived_append, List.length_append, BitVec.ofNat_add,
      BitVec.add_assoc]

theorem Loader.crc_record (l : Loader) (addr : BitVec 32) (str : Memory Byte) (n : ℕ) :
    (l.record addr str n).crc =
      if number str 6 2 = 0 then
        crc32 ((List.range n).map fun i =>
          (l.record addr str n).mem (addr + l.base + BitVec.ofNat 32 i)) l.crc
      else l.crc := by
  simp only [mem_record]
  split
  · next h0 => simp only [record, h0, if_true]
  · next h0 => simp only [record, if_neg h0, apply_ite Loader.crc, ite_self]

theorem Loader.origin_record (l : Loader) (addr : BitVec 32) (str : Memory Byte) (n : ℕ) :
    (l.record addr str n).origin =
      if number str 6 2 = 4 then (if l.origin = 0 then number str 8 4 <<< 16 else l.origin)
      else l.origin := by
  simp only [record, apply_ite Loader.origin]
  by_cases h4 : number str 6 2 = 4
  · simp [h4]
  · simp only [if_neg h4, ite_self]

theorem Loader.exit_record (l : Loader) (addr : BitVec 32) (str : Memory Byte) (n : ℕ) :
    (l.record addr str n).exit = if number str 6 2 = 1 then some .endOfFile else l.exit := by
  simp only [record, apply_ite Loader.exit]
  by_cases h1 : number str 6 2 = 1
  · simp [h1]
  · simp only [if_neg h1, ite_self]

/-- The loader `l` has done what the download `d` says since it was the loader `l₀`. -/
structure Loader.Follows (addr : BitVec 32) (l l₀ : Loader) (d : Download) : Prop where
  exit : l.exit = none ↔ d.ended = false
  base : l.base = d.base
  origin : l.origin = d.origin
  takes : Takes addr l₀ l d.arrivals

section Record

variable {addr : BitVec 32} {l₀ l : Loader} {d : Download} {str : Memory Byte}
  {cs bs : List Byte} {r : HexRecord}

/-- A record of data is stored, and what stands at the base is checked. -/
theorem HoldsBytes.takes_data (h : HoldsBytes str cs bs) (hr : recordOf bs = some r)
    (h0 : r.type = 0) :
    Takes addr l (l.record addr str r.data.length) [r.arrival l.base] := by
  have hzero : Cli.number str 6 2 = 0 := (h.type_iff hr 0).2 h0
  have hmem : (l.record addr str r.data.length).mem = (r.arrival l.base).store addr l.mem := by
    rw [Loader.mem_record, if_pos hzero, h.offset hr]
    exact storeData_congr fun i hi => h.data hr hi
  refine ⟨hmem, ?_, ?_⟩
  · rw [Loader.crc_record, if_pos hzero, hmem, seen, seen, List.append_nil, ← Arrival.map_store]
    rfl
  · rw [Loader.bytesRead_record, if_pos hzero, arrived, List.flatMap_singleton]
    rfl

/-- The other records are not stored. -/
theorem HoldsBytes.takes_other (h : HoldsBytes str cs bs) (hr : recordOf bs = some r)
    (h0 : r.type ≠ 0) : Takes addr l (l.record addr str r.data.length) [] := by
  have hzero : Cli.number str 6 2 ≠ 0 := mt (h.type_iff hr 0).1 h0
  apply Takes.nil
  · rw [Loader.mem_record, if_neg hzero]
  · rw [Loader.crc_record, if_neg hzero]
  · rw [Loader.bytesRead_record, if_neg hzero]

/-- **Step lemma.**  The loader does with a record what the download says. -/
theorem HoldsBytes.follows_record (h : HoldsBytes str cs bs) (hr : recordOf bs = some r)
    (hpage : r.type = 4 → 2 ≤ r.data.length) (hf : l.Follows addr l₀ d) :
    (l.record addr str r.data.length).Follows addr l₀ (d.record r) := by
  have hone : Cli.number str 6 2 = 1 ↔ r.type = 1 := h.type_iff hr 1
  have hfour : Cli.number str 6 2 = 4 ↔ r.type = 4 := h.type_iff hr 4
  by_cases h0 : r.type = 0
  · have hne1 : Cli.number str 6 2 ≠ 1 := mt hone.1 (by rw [h0]; decide)
    have hne4 : Cli.number str 6 2 ≠ 4 := mt hfour.1 (by rw [h0]; decide)
    rw [Download.record, if_pos h0]
    refine ⟨?_, ?_, ?_, ?_⟩
    · rw [Loader.exit_record, if_neg hne1, hf.exit]
    · rw [Loader.base_record, if_neg hne4, hf.base]
    · rw [Loader.origin_record, if_neg hne4, hf.origin]
    · rw [← hf.base]
      exact hf.takes.append (h.takes_data hr h0)
  have hother : Takes addr l (l.record addr str r.data.length) [] := h.takes_other hr h0
  have htakes : Takes addr l₀ (l.record addr str r.data.length) d.arrivals := by
    have happend := hf.takes.append hother
    rwa [List.append_nil] at happend
  by_cases h1 : r.type = 1
  · have hne4 : Cli.number str 6 2 ≠ 4 := mt hfour.1 (by rw [h1]; decide)
    rw [Download.record, if_neg h0, if_pos h1]
    refine ⟨?_, ?_, ?_, htakes⟩
    · rw [Loader.exit_record, if_pos (hone.2 h1)]
      simp
    · rw [Loader.base_record, if_neg hne4, hf.base]
    · rw [Loader.origin_record, if_neg hne4, hf.origin]
  have hexit : (l.record addr str r.data.length).exit = l.exit := by
    rw [Loader.exit_record, if_neg (mt hone.1 h1)]
  by_cases h4 : r.type = 4
  · -- the page is in the first two bytes
    obtain ⟨b₀, b₁, rest, hdata⟩ : ∃ b₀ b₁ rest, r.data = b₀ :: b₁ :: rest := by
      match r.data, hpage h4 with
      | b₀ :: b₁ :: rest, _ => exact ⟨b₀, b₁, rest, rfl⟩
    have htake : Cli.number str 8 4 = beWord (r.data.take 2) := by
      rw [h.page hr hdata, hdata]
      rfl
    rw [Download.record, if_neg h0, if_neg h1, if_pos h4]
    refine ⟨?_, ?_, ?_, htakes⟩
    · rw [hexit, hf.exit]
    · rw [Loader.base_record, if_pos (hfour.2 h4), htake, hf.origin]
    · rw [Loader.origin_record, if_pos (hfour.2 h4), htake, hf.origin]
  · have hne4 := mt hfour.1 h4
    rw [Download.record, if_neg h0, if_neg h1, if_neg h4]
    refine ⟨?_, ?_, ?_, htakes⟩
    · rw [hexit, hf.exit]
    · rw [Loader.base_record, if_neg hne4, hf.base]
    · rw [Loader.origin_record, if_neg hne4, hf.origin]

end Record

/-- What has ended does not matter to the loader. -/
theorem Loader.Follows.of_endLine {addr : BitVec 32} {l₀ l : Loader} {d : Download}
    {cs : List Byte} (h : l.Follows addr l₀ ((parseLine cs).elim d d.record)) :
    l.Follows addr l₀ (d.endLine cs) := ⟨h.exit, h.base, h.origin, h.takes⟩

/-- **Step lemma.**  It does so with a readable line. -/
theorem follows_line {addr : BitVec 32} {l₀ l : Loader} {d : Download} {str : Memory Byte}
    {cs : List Byte} (hread : Readable cs) (hload : str.load 0 cs.length = cs)
    (hnul : str cs.length = 0) (hcs : cs.length < 523) (hf : l.Follows addr l₀ d) :
    (l.line addr str).Follows addr l₀ (d.endLine cs) := by
  apply Loader.Follows.of_endLine
  rcases line_of_legible hread.1 hload hnul hcs l addr with ⟨hnone, hline⟩ | ⟨bs, r, h, hr, hline⟩
  · rw [hnone, hline]
    exact hf
  · have hparse : parseLine cs = some r := by rw [parseLine, h.bytes, Option.bind_some, hr]
    rw [hparse, hline]
    exact h.follows_record hr (hread.2 r hparse) hf

/-- The loader collects the open line, and has done what the lines before say. -/
structure Ihex.Follows (addr : BitVec 32) (l₀ : Loader) (s : Ihex) (d : Download) : Prop where
  collects : s.loader.exit = none → s.Collects d.line
  loader : s.loader.Follows addr l₀ d

/-- **Step lemma.**  The loader follows the download. -/
theorem Ihex.Follows.step {addr : BitVec 32} {l₀ : Loader} {s : Ihex} {d : Download}
    (h : s.Follows addr l₀ d) (c : Byte) (hread : ∀ cs ∈ (d.step c).lines, Readable cs) :
    (s.step addr c).Follows addr l₀ (d.step c) := by
  by_cases hexit : s.loader.exit = none
  · have hrun : d.ended = false := h.loader.exit.1 hexit
    have hcollects := h.collects hexit
    have hline : (s.step addr c).loader.exit = none →
        (s.step addr c).Collects (nextLine d.line c) := hcollects.step hexit c
    have hspec := step_spec addr hexit c
    generalize s.step addr c = s' at hline hspec
    -- a character that does not end anything
    have hother : ¬ Interrupts c → ¬ (c = 0x0d ∨ c = 0x0a) → s'.loader = s.loader →
        s'.Follows addr l₀ (d.step c) := by
      intro hint hend hsame
      have hstep : d.step c = { d with line := nextLine d.line c } := by
        simp only [Download.step, hrun, Bool.false_eq_true, if_false, if_neg hint, if_neg hend]
      rw [hstep]
      exact ⟨hline, hsame ▸ ⟨h.loader.exit, h.loader.base, h.loader.origin, h.loader.takes⟩⟩
    -- the end of a line
    have hends : c = 0x0d ∨ c = 0x0a →
        nextLine d.line c = none ∧ d.step c = d.line.elim d d.endLine := by
      intro hend
      have hint : ¬ Interrupts c := fun hint => hint.not_end hend
      have hcolon : c ≠ 0x3a := by rcases hend with rfl | rfl <;> decide
      refine ⟨by rw [nextLine, if_neg hcolon, if_pos hend], ?_⟩
      simp only [Download.step, hrun, Bool.false_eq_true, if_false, if_neg hint, if_pos hend]
    cases hspec with
    | colon => exact hother (by decide) (by decide) rfl
    | collect _ _ hint hend | tooLong _ _ hint hend => exact hother hint hend rfl
    | interrupt _ hint =>
      have hstep : d.step c = { d with ended := true } := by
        simp only [Download.step, hrun, Bool.false_eq_true, if_false, if_pos hint]
      rw [hstep]
      have htakes := h.loader.takes
      refine ⟨fun hnone => absurd hnone (Option.some_ne_none _), ?_, h.loader.base,
        h.loader.origin, ?_⟩
      · simp
      · exact ⟨htakes.mem, htakes.crc, htakes.bytesRead⟩
    | between _ _ hint hflag =>
      by_cases hend : c = 0x0d ∨ c = 0x0a
      · obtain ⟨hnone, hstep⟩ := hends hend
        rw [hnone] at hline
        rw [hstep]
        cases hopen : d.line with
        | none =>
          exact ⟨fun _ => hcollects, h.loader⟩
        | some cs =>
          -- the line was longer than any record
          have hparse : parseLine cs = none := by
            refine parseLine_of_length fun count hcount hlen => ?_
            have htrue := (hcollects.short cs hopen (by omega)).1
            exact absurd htrue (by simp [hflag])
          refine ⟨hline, Loader.Follows.of_endLine ?_⟩
          rw [hparse]
          exact h.loader
      · exact hother hint hend rfl
    | lineEnd _ hend hflag =>
      obtain ⟨hnone, hstep⟩ := hends hend
      obtain ⟨cs, hopen, hlen⟩ := hcollects.flag hflag
      obtain ⟨-, hidx, hload⟩ := hcollects.short cs hopen hlen
      have hload' : (s.str.store s.idx [0]).load 0 cs.length = cs := by
        rwa [hidx, Memory.load_store_of_disjoint _ _ (Or.inl (Nat.zero_add _).le)]
      have hnul : s.str.store s.idx [0] cs.length = 0 := by
        rw [hidx]
        exact Memory.store_getElem s.str cs.length 0 [0] Nat.one_pos
      rw [hnone] at hline
      rw [hstep, hopen] at hread ⊢
      have hcs : Readable cs := hread cs (List.mem_append_right _ (List.mem_singleton_self cs))
      have hlt : cs.length < 523 := Nat.lt_succ_of_lt hlen
      have hfollows := follows_line hcs hload' hnul hlt h.loader
      refine ⟨hline, ?_⟩
      simpa only [Option.elim_some] using hfollows
  · -- both have ended
    have hended : d.ended = true := by
      simpa using mt h.loader.exit.2 hexit
    rw [step_of_exit hexit, Download.step, if_pos hended]
    exact h

/-- A line that has ended stays among the lines. -/
theorem Download.lines_step (d : Download) (c : Byte) : d.lines ⊆ (d.step c).lines := by
  unfold Download.step
  split
  · exact List.Subset.refl _
  split
  · exact List.Subset.refl _
  split
  · cases d.line with
    | none => exact List.Subset.refl _
    | some cs => exact List.subset_append_left d.lines [cs]
  · exact List.Subset.refl _

/-- **Run lemma.**  It follows a text of readable lines. -/
theorem Ihex.follows_run (addr : BitVec 32) (mem : AddressSpace) (str : Memory Byte)
    (text : List Byte) (hread : ∀ cs ∈ (download text).lines, Readable cs) :
    (cliCmdIhex addr mem str text).Follows addr (Ihex.init mem str).loader (download text) := by
  induction text using List.reverseRecOn with
  | nil =>
    refine ⟨fun _ => ⟨fun cs hcs => ?_, fun hflag => ?_⟩, ?_, rfl, rfl, Takes.nil rfl rfl rfl⟩
    · cases hcs
    · cases hflag
    · exact iff_of_true rfl rfl
  | append_singleton text c ih =>
    have hrun : cliCmdIhex addr mem str (text ++ [c]) =
        (cliCmdIhex addr mem str text).step addr c := run_append _ _ _ _
    have hdown : download (text ++ [c]) = (download text).step c := run_append _ _ _ _
    rw [hdown] at hread ⊢
    rw [hrun]
    exact (ih fun cs hcs => hread cs (Download.lines_step _ c hcs)).step c hread

/-! ## Section 4: Images -/

/-- The records bring an image without gaps to the addresses from `addr` on, in order; `k` bytes
of it are there. -/
def Contiguous : ℕ → List Arrival → Prop
  | k, [] => k < 2 ^ 32
  | k, a :: as => a.base + a.offset = BitVec.ofNat 32 k ∧ Contiguous (k + a.data.length) as

/-- The `n` bytes from the target address on. -/
def image (mem : AddressSpace) (addr : BitVec 32) (n : ℕ) : List Byte :=
  (List.range n).map fun i => mem (addr + BitVec.ofNat 32 i)

theorem Contiguous.lt {k : ℕ} {as : List Arrival} (h : Contiguous k as) :
    k + (arrived as).length < 2 ^ 32 := by
  induction as generalizing k with
  | nil => exact h
  | cons a as ih =>
    have hrest := ih h.2
    rwa [arrived, List.flatMap_cons, List.length_append, ← Nat.add_assoc]

/-- **Step lemma.**  A record without a gap before it makes the image longer. -/
theorem image_store (addr : BitVec 32) (mem : AddressSpace) {a : Arrival} {k : ℕ}
    (hat : a.base + a.offset = BitVec.ofNat 32 k) (hlt : k + a.data.length < 2 ^ 32) :
    image (a.store addr mem) addr (k + a.data.length) = image mem addr k ++ a.data := by
  have hdst : addr + a.base + a.offset = addr + BitVec.ofNat 32 k := by
    rw [BitVec.add_assoc, hat]
  have hplace : ∀ i < k + a.data.length,
      (addr + BitVec.ofNat 32 i - (addr + BitVec.ofNat 32 k)).toNat =
        if i < k then 2 ^ 32 + i - k else i - k := by
    intro i hi
    rw [add_sub_add_left_eq_sub, BitVec.toNat_sub, BitVec.toNat_ofNat, BitVec.toNat_ofNat]
    split <;> omega
  apply List.ext_getElem
  · simp [image]
  · intro i h₁ h₂
    rw [image, List.length_map, List.length_range] at h₁
    simp only [image, List.getElem_map, List.getElem_range, Arrival.store, hdst]
    rw [storeData_apply _ _ _ (by omega), hplace i h₁]
    rcases Nat.lt_or_ge i k with hlow | hhigh
    · rw [if_pos hlow, if_neg (by omega), List.getElem_append_left (by simpa using hlow)]
      simp
    · have hi : i - k < a.data.length := by omega
      rw [if_neg (Nat.not_lt.2 hhigh), if_pos hi, List.getElem_append_right (by simpa using hhigh),
        List.getD_eq_getElem?_getD, List.getElem?_eq_getElem hi, Option.getD_some]
      simp

/-- **Run lemma.**  Records without gaps leave their data as the image. -/
theorem image_foldl (addr : BitVec 32) (mem : AddressSpace) {k : ℕ} {as : List Arrival}
    (h : Contiguous k as) :
    image (as.foldl (Arrival.store addr) mem) addr (k + (arrived as).length) =
      image mem addr k ++ arrived as := by
  induction as generalizing k mem with
  | nil => exact (List.append_nil _).symm
  | cons a as ih =>
    have hlt := h.2.lt
    have harrived : arrived (a :: as) = a.data ++ arrived as := rfl
    rw [List.foldl_cons, harrived, List.length_append, ← Nat.add_assoc, ih _ h.2,
      image_store addr mem h.1 (by omega), List.append_assoc]

/-! ## Section 5: The printed check-sum -/

/-- The records of data of a text, as the grammar has them. -/
def records (text : List Byte) : List Arrival := (download text).arrivals

/-- The check-sum that is printed is that of the data, and so that of the image. -/
structure ChecksData (addr : BitVec 32) (mem : AddressSpace) (str : Memory Byte)
    (text : List Byte) : Prop where
  data : (cliCmdIhex addr mem str text).loader.crc = crc32 (arrived (records text)) 0
  image : Contiguous 0 (records text) →
    (cliCmdIhex addr mem str text).loader.crc =
      crc32 (image (cliCmdIhex addr mem str text).loader.mem addr
        (cliCmdIhex addr mem str text).loader.bytesRead.toNat) 0

/-- What the offsets change in the bytes that are checked, from what the memory was before. -/
def offsetError (addr : BitVec 32) (mem : AddressSpace) (as : List Arrival) : List Byte :=
  List.zipWith (· ^^^ ·) (seen addr mem as) (arrived as)

/-- **The printed check-sum is that of the data only if the offsets change nothing that the
check sees.**  The lines are readable, so that the loader takes them for what they are. -/
theorem checksData_iff (addr : BitVec 32) (mem : AddressSpace) (str : Memory Byte)
    (text : List Byte) (hread : ∀ cs ∈ (download text).lines, Readable cs) :
    ChecksData addr mem str text ↔ Crc.genPoly crc32Polynomial ∣
      Crc.msgPoly (msgBits (offsetError addr mem (records text))) := by
  have htakes : Takes addr (Ihex.init mem str).loader (cliCmdIhex addr mem str text).loader
      (records text) := (Ihex.follows_run addr mem str text hread).loader.takes
  have hcrc : (cliCmdIhex addr mem str text).loader.crc =
      crc32 (seen addr mem (records text)) 0 := htakes.crc
  have hiff := crc32_eq_iff (length_seen addr mem (records text)) 0
  constructor
  · intro h
    exact hiff.1 (hcrc.symm.trans h.data)
  · intro h
    have hdata := hcrc.trans (hiff.2 h)
    refine ⟨hdata, fun hcontiguous => ?_⟩
    have hlt := hcontiguous.lt
    have hbytes : (cliCmdIhex addr mem str text).loader.bytesRead.toNat =
        0 + (arrived (records text)).length := by
      have hzero := htakes.bytesRead.trans (BitVec.zero_add _)
      rw [hzero, BitVec.toNat_ofNat, Nat.mod_eq_of_lt (by omega), Nat.zero_add]
    rw [hdata, hbytes, htakes.mem, image_foldl _ _ hcontiguous]
    rfl

theorem seen_of_offset_zero (addr : BitVec 32) (mem : AddressSpace) {as : List Arrival}
    (h : ∀ a ∈ as, a.offset = 0) : seen addr mem as = arrived as := by
  induction as generalizing mem with
  | nil => rfl
  | cons a as ih =>
    have hseen : a.seen addr mem = a.data := by
      apply List.ext_getElem
      · rw [Arrival.length_seen]
      · intro i h₁ h₂
        simp [Arrival.seen, h a List.mem_cons_self, List.getElem?_eq_getElem h₂]
    rw [seen, hseen, ih _ fun b hb => h b (List.mem_cons_of_mem a hb)]
    rfl

/-- Without offsets nothing is changed. -/
theorem dvd_offsetError_of_offset_zero (addr : BitVec 32) (mem : AddressSpace)
    {as : List Arrival} (h : ∀ a ∈ as, a.offset = 0) :
    Crc.genPoly crc32Polynomial ∣ Crc.msgPoly (msgBits (offsetError addr mem as)) := by
  rw [offsetError, seen_of_offset_zero addr mem h]
  exact (crc32_eq_iff rfl 0).1 rfl

/-- A page of one byte, and the next page of another. -/
def twoPages : List Byte :=
  ascii ":020000040001F9" ++ crlf ++ ascii ":0100000041BE" ++ crlf ++
    ascii ":020000040002F8" ++ crlf ++ ascii ":0100000042BD" ++ crlf ++ ascii ":00000001FF" ++ crlf

theorem checksData_twoPages : ChecksData 0 (fun _ => 0) (fun _ => 0) twoPages :=
  (checksData_iff 0 (fun _ => 0) (fun _ => 0) twoPages (by decide +kernel)).2
    (dvd_offsetError_of_offset_zero 0 (fun _ => 0) (by decide +kernel))

/-- Two records of one byte, the second behind the first. -/
def twoRecords : List Byte := ascii ":0100000041BE" ++ crlf ++ ascii ":0100010042BC" ++ crlf

/-- For the second record the first byte is checked again. -/
theorem not_checksData_twoRecords : ¬ ChecksData 0 (fun _ => 0) (fun _ => 0) twoRecords :=
  fun h => absurd h.data (by decide +kernel)

end Karnix.Cli
