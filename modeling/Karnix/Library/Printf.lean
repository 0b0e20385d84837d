import Karnix.Library.CString

/-!
# Formatted output

`printf` with strings and addresses as arguments.  A conversion is parsed with all its parts, so
that any text can be given as a format; it is known for each conversion how many arguments it
takes, whatever they are.
-/

namespace Karnix.Library

/-- An argument of `printf`: a string or a pointer. -/
inductive FmtArg where
  | str (s : CString)
  | ptr (w : BitVec 32)

/-- A width or a precision: left out, a number, or a star for an argument. -/
inductive FmtNum where
  | default
  | value (n : ℕ)
  | star
  deriving DecidableEq

/-- A conversion: what stands between the percent sign and the character that says its kind. -/
structure Conversion where
  flags : List Byte
  width : FmtNum
  precision : FmtNum
  length : List Byte
  kind : Byte
  deriving DecidableEq

/-- Where the output is no longer what the arguments say. -/
inductive FmtFault where
  /-- An argument is taken that was not supplied. -/
  | beyond
  /-- The conversion has no meaning, or not for the argument. -/
  | undefined
  deriving DecidableEq

/-- The output, up to the fault if there is one. -/
structure Printed where
  out : List Byte
  fault : Option FmtFault
  deriving DecidableEq

namespace Printed

/-- More output before what was printed; a fault stays. -/
def prepend (bs : List Byte) (r : Printed) : Printed := { r with out := bs ++ r.out }

end Printed

namespace Printf

/-! ## Conversions -/

/-- `%`, which begins a conversion. -/
def percent : Byte := 0x25

/-- `-`, `+`, blank, `#` and `0` -/
def isFlag (b : Byte) : Bool := b ∈ [0x2d, 0x2b, 0x20, 0x23, 0x30]

/-- `h`, `l`, `j`, `z`, `t` and `L` -/
def isLength (b : Byte) : Bool := b ∈ [0x68, 0x6c, 0x6a, 0x7a, 0x74, 0x4c]

/-- The kinds that take an argument: `d i o u x X c s p n a A e E f F g G` -/
def takesArg (b : Byte) : Bool :=
  b ∈ [0x64, 0x69, 0x6f, 0x75, 0x78, 0x58, 0x63, 0x73, 0x70, 0x6e, 0x61, 0x41, 0x65, 0x45, 0x66,
    0x46, 0x67, 0x47]

/-- A number or a star at the beginning of a text, and what is behind it. -/
def number (text : List Byte) : FmtNum × List Byte :=
  if text.headD 0 = 0x2a then (.star, text.drop 1)
  else if CString.isDigit (text.headD 0) then
    (.value (CString.decimal text), text.dropWhile CString.isDigit)
  else (.default, text)

/-- The precision, behind a point. -/
def precision (text : List Byte) : FmtNum × List Byte :=
  if text.headD 0 = 0x2e then
    if (number (text.drop 1)).1 = .default then (.value 0, text.drop 1) else number (text.drop 1)
  else (.default, text)

/-- The conversion behind a percent sign, and the text behind it. -/
def conversion (text : List Byte) : Option (Conversion × List Byte) :=
  let rest := text.dropWhile isFlag
  let width := number rest
  let prec := precision width.2
  match prec.2.dropWhile isLength with
  | [] => none
  | kind :: rest' => some (⟨text.takeWhile isFlag, width.1, prec.1, prec.2.takeWhile isLength,
      kind⟩, rest')

/-- The number of arguments that a conversion takes. -/
def taken (c : Conversion) : ℕ :=
  (if c.width = .star then 1 else 0) + (if c.precision = .star then 1 else 0) +
    if takesArg c.kind then 1 else 0

/-- A digit of an address. -/
def hexDigit (v : ℕ) : Byte := BitVec.ofNat 8 (if v < 10 then 0x30 + v else 0x57 + v)

/-- `n` digits. -/
def hexDigits : ℕ → ℕ → List Byte
  | 0, _ => []
  | n + 1, v => hexDigits n (v / 16) ++ [hexDigit (v % 16)]

/-- An address, without zeros at the beginning. -/
def address (w : BitVec 32) : List Byte :=
  [0x30, 0x78] ++ (hexDigits 7 (w.toNat / 16)).dropWhile (· = 0x30) ++ [hexDigit (w.toNat % 16)]

example : address 0x80000000 = [0x30, 0x78, 0x38, 0x30, 0x30, 0x30, 0x30, 0x30, 0x30, 0x30] := by
  decide

/-- What `%s` and `%p` print without any other parts, for an argument of that type. -/
def render (c : Conversion) : FmtArg → Option (List Byte)
  | .str s => if c = ⟨[], .default, .default, [], 0x73⟩ then some s.bytes else none
  | .ptr w => if c = ⟨[], .default, .default, [], 0x70⟩ then some (address w) else none

theorem number_length (text : List Byte) : (number text).2.length ≤ text.length := by
  unfold number
  split
  · exact (List.drop_sublist 1 text).length_le
  · split
    · exact (List.dropWhile_suffix _).length_le
    · exact Nat.le_refl _

theorem precision_length (text : List Byte) : (precision text).2.length ≤ text.length := by
  have hdrop := (List.drop_sublist 1 text).length_le
  unfold precision
  split
  · split
    · exact hdrop
    · exact Nat.le_trans (number_length _) hdrop
  · exact Nat.le_refl _

theorem conversion_length {text rest : List Byte} {c : Conversion}
    (h : conversion text = some (c, rest)) : rest.length < text.length := by
  simp only [conversion] at h
  split at h
  · cases h
  · rename_i heq
    cases h
    calc rest.length < _ := Nat.lt_succ_self _
      _ = _ := (congrArg List.length heq).symm
      _ ≤ _ := (List.dropWhile_suffix _).length_le
      _ ≤ _ := precision_length _
      _ ≤ _ := number_length _
      _ ≤ text.length := (List.dropWhile_suffix _).length_le

/-! ## `printf` -/

/-- `printf`: what is printed, up to a conversion that the arguments do not allow. -/
def printf : List Byte → List FmtArg → Printed
  | [], _ => ⟨[], none⟩
  | b :: text, args =>
    if b = percent then
      match _h : conversion text with
      | none => ⟨[], some .undefined⟩
      | some (c, rest) =>
        if c = ⟨[], .default, .default, [], percent⟩ then (printf rest args).prepend [percent]
        else if takesArg c.kind = false then ⟨[], some .undefined⟩
        else if args.length < taken c then ⟨[], some .beyond⟩
        else
          match args with
          | [] => ⟨[], some .undefined⟩
          | arg :: args =>
            match render c arg with
            | none => ⟨[], some .undefined⟩
            | some bs => (printf rest args).prepend bs
    else (printf text args).prepend [b]
  termination_by text => text.length
  decreasing_by
  · exact Nat.lt_succ_of_lt (conversion_length _h)
  · exact Nat.lt_succ_of_lt (conversion_length _h)
  · exact Nat.lt_succ_self _

theorem printf_cons {b : Byte} (hb : b ≠ percent) (text : List Byte) (args : List FmtArg) :
    printf (b :: text) args = (printf text args).prepend [b] := by
  rw [printf, if_neg hb]

/-- What stands before the first percent sign is printed as it is. -/
theorem printf_append {before : List Byte} (h : percent ∉ before) (text : List Byte)
    (args : List FmtArg) :
    printf (before ++ text) args = (printf text args).prepend before := by
  induction before with
  | nil => rfl
  | cons b before ih =>
    rw [List.mem_cons, not_or] at h
    rw [List.cons_append, printf_cons (Ne.symm h.1), ih h.2]
    rfl

theorem printf_of_notMem {text : List Byte} (h : percent ∉ text) (args : List FmtArg) :
    printf text args = ⟨text, none⟩ := by
  have happend := printf_append h [] args
  rw [List.append_nil, printf] at happend
  rw [happend, Printed.prepend, List.append_nil]

/-- A conversion that has its argument. -/
theorem printf_conversion {text rest : List Byte} {c : Conversion} {arg : FmtArg}
    {bs : List Byte} (hc : conversion text = some (c, rest)) (htakes : takesArg c.kind = true)
    (htaken : taken c = 1) (hbs : render c arg = some bs) (args : List FmtArg) :
    printf (percent :: text) (arg :: args) = (printf rest args).prepend bs := by
  have hne : c ≠ ⟨[], .default, .default, [], percent⟩ := by
    rintro rfl
    cases htakes
  rw [printf, if_pos rfl]
  split
  · rename_i heq
    rw [hc] at heq
    cases heq
  · rename_i heq
    rw [hc] at heq
    cases heq
    rw [if_neg hne, htakes, if_neg (by decide), htaken, if_neg (by simp)]
    split
    · rename_i hnil
      cases hnil
    · rename_i hcons
      cases hcons
      split
      · rename_i hnone
        rw [hbs] at hnone
        cases hnone
      · rename_i hsome
        rw [hbs] at hsome
        cases hsome
        rfl

/-- `%s` prints the string that stands for it. -/
theorem printf_str (s : CString) (text : List Byte) (args : List FmtArg) :
    printf (percent :: 0x73 :: text) (.str s :: args) = (printf text args).prepend s.bytes :=
  printf_conversion (c := ⟨[], .default, .default, [], 0x73⟩) (by simp [conversion, number,
    precision, isFlag, isLength, CString.isDigit]) rfl rfl rfl args

/-- `%p` prints the digits of the pointer that stands for it. -/
theorem printf_ptr (w : BitVec 32) (text : List Byte) (args : List FmtArg) :
    printf (percent :: 0x70 :: text) (.ptr w :: args) = (printf text args).prepend (address w) :=
  printf_conversion (c := ⟨[], .default, .default, [], 0x70⟩) (by simp [conversion, number,
    precision, isFlag, isLength, CString.isDigit]) rfl rfl rfl args

/-- Without arguments the only conversion that is printed is a second percent sign. -/
theorem printf_percent_nil {text : List Byte} (h : (printf (percent :: text) []).fault = none) :
    ∃ c rest, conversion text = some (c, rest) ∧
      printf (percent :: text) [] = (printf rest []).prepend [percent] := by
  rw [printf, if_pos rfl] at h ⊢
  split
  · rename_i heq
    rw [heq] at h
    cases h
  · rename_i c rest heq
    rw [heq] at h
    refine ⟨c, rest, heq, ?_⟩
    by_cases hplain : c = ⟨[], .default, .default, [], percent⟩
    · rw [if_pos hplain]
    · simp only [if_neg hplain] at h
      split at h
      · cases h
      · split at h <;> cases h

/-- Without arguments nothing gets longer, and a text with a percent sign gets shorter. -/
theorem printf_nil_length (text : List Byte) (h : (printf text []).fault = none) :
    (printf text []).out.length ≤ text.length ∧
      (percent ∈ text → (printf text []).out.length < text.length) := by
  -- on the length, since a conversion takes more than one byte
  induction hn : text.length using Nat.strong_induction_on generalizing text with
  | _ n ih =>
    subst hn
    cases text with
    | nil =>
      rw [printf]
      exact ⟨Nat.le_refl 0, fun hmem => absurd hmem List.not_mem_nil⟩
    | cons b text =>
      by_cases hb : b = percent
      · subst hb
        obtain ⟨c, rest, hc, hprint⟩ := printf_percent_nil h
        rw [hprint] at h ⊢
        have hlt := conversion_length hc
        have hle := (ih rest.length (Nat.lt_succ_of_lt hlt) rest h rfl).1
        have hshort : ((printf rest []).prepend [percent]).out.length <
            (percent :: text).length := by
          simp only [Printed.prepend, List.length_append, List.length_cons, List.length_nil]
          omega
        exact ⟨Nat.le_of_lt hshort, fun _ => hshort⟩
      · rw [printf_cons hb] at h ⊢
        obtain ⟨hle, hlt⟩ := ih text.length (Nat.lt_succ_self _) text h rfl
        have hlen : ((printf text []).prepend [b]).out.length = (printf text []).out.length + 1 :=
          rfl
        rw [hlen, List.length_cons]
        refine ⟨Nat.succ_le_succ hle, fun hmem => Nat.succ_lt_succ (hlt ?_)⟩
        exact (List.mem_cons.1 hmem).resolve_left (Ne.symm hb)

/-- **A text as a format.**  Without arguments a text is printed as it is exactly if it has no
percent sign. -/
theorem printf_nil_iff (text : List Byte) : printf text [] = ⟨text, none⟩ ↔ percent ∉ text := by
  constructor
  · intro h hmem
    have hlength := printf_nil_length text (congrArg Printed.fault h)
    rw [h] at hlength
    exact Nat.lt_irrefl _ (hlength.2 hmem)
  · exact fun h => printf_of_notMem h []

end Printf

end Karnix.Library
