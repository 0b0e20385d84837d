import Karnix.Zmodem.Frames

/-!
# Escapes

`zsendline` sends a byte as it is or escaped behind a ZDLE, and `zdlread` takes such a code for
the byte again, whatever flow control comes in between.
-/

namespace Karnix.Zmodem

open Karnix.Library
open Karnix.Library.Program

/-! ## Section 1: The line -/

/-- The state after `n` more calls of `readline`. -/
def State.skip (n : ℕ) (s : State) : State := { s with line := Line.next^[n] s.line }

@[simp] theorem State.skip_zero (s : State) : s.skip 0 = s := rfl

theorem State.skip_skip (s : State) (n m : ℕ) : (s.skip n).skip m = s.skip (n + m) := by
  rw [State.skip, State.skip, State.skip, Nat.add_comm, Function.iterate_add_apply]

theorem Line.readings_next (l : Line) : l.next.readings = l.readings.tail := by
  obtain ⟨linbuf, reads⟩ := l
  cases linbuf with
  | cons c rest => rfl
  | nil =>
    cases reads with
    | nil => rfl
    | cons r reads => cases r <;> rfl

theorem Line.peek_eq (l : Line) : l.peek = l.readings.head? := by
  obtain ⟨linbuf, reads⟩ := l
  cases linbuf with
  | cons c rest => rfl
  | nil =>
    cases reads with
    | nil => rfl
    | cons r reads => cases r <;> rfl

@[simp] theorem State.readings_skip (s : State) (n : ℕ) :
    (s.skip n).line.readings = s.line.readings.drop n := by
  induction n with
  | zero => rfl
  | succ n ih =>
    have hnext : (s.skip (n + 1)).line = (s.skip n).line.next :=
      Function.iterate_succ_apply' Line.next n s.line
    rw [hnext, Line.readings_next, ih, List.tail_drop]

/-- The next bytes on the line are `w`. -/
def Brings (s : State) (w : List Byte) (rest : List Reading) : Prop :=
  s.line.readings = w.map Reading.byte ++ rest

section Brings

variable {s : State} {c : Byte} {w w' : List Byte} {rest : List Reading}

theorem Brings.skip (h : Brings s (w ++ w') rest) : Brings (s.skip w.length) w' rest := by
  unfold Brings at h ⊢
  rw [State.readings_skip, h, List.map_append, List.append_assoc]
  exact List.drop_left' (List.length_map _)

theorem Brings.tail (h : Brings s (c :: w) rest) : Brings (s.skip 1) w rest :=
  Brings.skip (w := [c]) h

theorem readline_byte (h : Brings s (c :: w) rest) : readline s = (some (.byte c), s.skip 1) := by
  unfold readline
  rw [Line.peek_eq, h]
  rfl

theorem readline_eq (s : State) : readline s = (s.line.readings.head?, s.skip 1) := by
  unfold readline
  rw [Line.peek_eq]
  rfl

end Brings

/-! ## Section 2: The loops end -/

/-- Some of the line is taken, and what a header is read into may change. -/
def Takes (s s' : State) : Prop :=
  ∃ n, s' = { s.skip n with
    rxframeind := s'.rxframeind
    rxtype := s'.rxtype
    rxcount := s'.rxcount
    rxhdr := s'.rxhdr
    zmodem := s'.zmodem }

theorem takes_skip (s : State) (n : ℕ) : Takes s (s.skip n) := ⟨n, rfl⟩

/-- What reading the line may do is part of the relation. -/
class Reads (R : State → State → Prop) : Prop extends IsPreorder State R where
  le : ∀ s s', Takes s s' → R s s'

section Reads

variable {R : State → State → Prop} [Reads R]

/-- A change of the variables of a header. -/
theorem keeps_header {g : State → State}
    (h : ∀ s, g s = { s with
      rxframeind := (g s).rxframeind
      rxtype := (g s).rxtype
      rxcount := (g s).rxcount
      rxhdr := (g s).rxhdr
      zmodem := (g s).zmodem }) : Keeps R (modify g : ZmodemM Unit) :=
  keeps_modify fun s => Reads.le s (g s) ⟨0, h s⟩

instance keeps_readline : Keeps R readline where
  run s := by
    rw [readline_eq]
    exact Reads.le s _ (takes_skip s 1)

instance keeps_afterCan (r : Reading) : Keeps R (afterCan r) := by
  cases r <;> unfold afterCan <;> infer_instance

instance keeps_plainRound (a : Unit) : Keeps R (plainRound a) := by
  unfold plainRound
  refine @keeps_bind _ _ _ _ _ _ _ _ fun r => ?_
  cases r <;> infer_instance

instance keeps_escapeRound (a : Unit) : Keeps R (escapeRound a) := by
  have hswitch : ∀ r, Keeps R (read id >>= fun s =>
      match r with
      | Reading.timeout => pure (Sum.inr Code.timeout)
      | Reading.byte c => (pure (escapeSwitch s.zctlesc c) : ZmodemM (Unit ⊕ Code))) := by
    intro r
    cases r <;> infer_instance
  unfold escapeRound
  infer_instance

instance keeps_zdlread : Keeps R zdlread := by
  unfold zdlread
  refine @keeps_bind _ _ _ _ _ _ _ _ fun r => ?_
  cases r <;> infer_instance

end Reads

/-- No call adds to the line. -/
abbrev NotMore (s s' : State) : Prop := left s' ≤ left s

theorem left_skip (s : State) (n : ℕ) : left (s.skip n) = left s - n := by
  unfold left
  rw [State.readings_skip, List.length_drop]

instance reads_notMore : Reads NotMore where
  le s s' h := by
    obtain ⟨n, h⟩ := h
    have hleft : left s' = left (s.skip n) := by
      rw [h]
      rfl
    show left s' ≤ left s
    rw [hleft, left_skip]
    exact Nat.sub_le _ _

instance shrinks_readline : Shrinks left readline where
  lt s r s' h := by
    rw [readline_eq] at h
    obtain ⟨hhead, rfl⟩ := Prod.mk.inj h
    have hpos : 0 < left s := by
      refine List.length_pos_iff.2 fun hnil => ?_
      rw [hnil] at hhead
      cases hhead
    rw [left_skip]
    exact Nat.sub_lt hpos Nat.one_pos

instance shrinks_plainRound (a : Unit) : Shrinks left (plainRound a) := by
  apply shrinks_first
  intro r
  cases r <;> infer_instance

instance shrinks_escapeRound (a : Unit) : Shrinks left (escapeRound a) := by
  apply shrinks_first
  intro r
  have hswitch : ∀ r, Keeps NotMore (read id >>= fun s =>
      match r with
      | Reading.timeout => pure (Sum.inr Code.timeout)
      | Reading.byte c => (pure (escapeSwitch s.zctlesc c) : ZmodemM (Unit ⊕ Code))) := by
    intro r
    cases r <;> infer_instance
  infer_instance

instance shrinks_zdlread : Shrinks left zdlread := by
  apply shrinks_first
  intro r
  cases r <;> infer_instance

/-! ## Section 3: Codes of bytes -/

/-- A byte that stands for itself. -/
def Plain (zctlesc : Bool) (c : Byte) : Prop :=
  c ≠ zdle ∧ plainSwitch zctlesc c = .inr (.byte c)

/-- A byte that is read over: flow control, or a control character where these are escaped. -/
def Flow (zctlesc : Bool) (c : Byte) : Prop := plainSwitch zctlesc c = .inl ⟨⟩

instance (zctlesc : Bool) (c : Byte) : Decidable (Plain zctlesc c) :=
  inferInstanceAs (Decidable (_ ∧ _))

instance (zctlesc : Bool) (c : Byte) : Decidable (Flow zctlesc c) :=
  inferInstanceAs (Decidable (_ = _))

/-- The bytes on the line that `zdlread` takes for `k`. -/
inductive Word (zctlesc : Bool) : Code → List Byte → Prop where
  | plain {c : Byte} (h : Plain zctlesc c) : Word zctlesc (.byte c) [c]
  | escaped {ms : List Byte} {e : Byte} {k : Code} (hms : ∀ m ∈ ms, Flow zctlesc m)
      (hcan : e ≠ can) (h : escapeSwitch zctlesc e = .inr k) :
      Word zctlesc k (zdle :: (ms ++ [e]))
  | flow {n : Byte} {k : Code} {w : List Byte} (hn : Flow zctlesc n) (h : Word zctlesc k w) :
      Word zctlesc k (n :: w)

/-- What is read over is so behind a ZDLE as well. -/
theorem Flow.escaped {z : Bool} {c : Byte} (h : Flow z c) :
    c ≠ can ∧ escapeSwitch z c = .inl ⟨⟩ := by
  have hall : ∀ z c, plainSwitch z c = .inl ⟨⟩ → c ≠ can ∧ escapeSwitch z c = .inl ⟨⟩ := by
    decide
  exact hall z c h

section Rounds

variable {s : State} {c : Byte} {w : List Byte} {rest : List Reading}

theorem plainRound_byte (h : Brings s (c :: w) rest) :
    plainRound ⟨⟩ s = (some (plainSwitch s.zctlesc c), s.skip 1) := by
  unfold plainRound
  rw [bind_of_some (readline_byte h)]
  rfl

theorem escapeRound_byte (h : Brings s (c :: w) rest) (hcan : c ≠ can) :
    escapeRound ⟨⟩ s = (some (escapeSwitch s.zctlesc c), s.skip 1) := by
  have hafter : afterCan (.byte c) = pure (.byte c) := if_neg hcan
  unfold escapeRound
  rw [bind_of_some (readline_byte h), hafter, pure_bind, hafter, pure_bind, hafter, pure_bind]
  rfl

/-- The loop behind a ZDLE. -/
theorem escapeLoop_word {ms : List Byte} {e : Byte} {k : Code}
    (hms : ∀ m ∈ ms, Flow s.zctlesc m) (hcan : e ≠ can)
    (he : escapeSwitch s.zctlesc e = .inr k) (h : Brings s (ms ++ e :: w) rest) :
    loop left escapeRound ⟨⟩ s = (some k, s.skip (ms.length + 1)) := by
  induction ms generalizing s with
  | nil =>
    have hround := escapeRound_byte h hcan
    rw [he] at hround
    exact loop_of_inr hround
  | cons m ms ih =>
    have hm := (hms m List.mem_cons_self).escaped
    have hround := escapeRound_byte h hm.1
    rw [hm.2] at hround
    rw [loop_of_inl (descends_of_shrinks inferInstance) hround,
      ih (s := s.skip 1) (fun m' hm' => hms m' (List.mem_cons_of_mem m hm')) he h.tail,
      State.skip_skip,
      List.length_cons, Nat.add_comm 1]

end Rounds

/-- **`zdlread` reads a code** as the byte it was made from. -/
theorem zdlread_word {s : State} {k : Code} {w w' : List Byte} {rest : List Reading}
    (hw : Word s.zctlesc k w) (h : Brings s (w ++ w') rest) :
    zdlread s = (some k, s.skip w.length) := by
  generalize hz : s.zctlesc = z at hw
  induction hw generalizing s with
  | @plain c hc =>
    subst hz
    have hround := plainRound_byte h
    rw [hc.2] at hround
    unfold zdlread
    rw [bind_of_some (loop_of_inr hround)]
    exact congrFun (if_neg hc.1) _
  | @escaped ms e k hms hcan he =>
    subst hz
    have hround := plainRound_byte h
    have hloop := escapeLoop_word (s := s.skip 1) (w := w') hms hcan he (by
      have htail := h.tail
      rwa [List.append_eq, List.append_assoc] at htail)
    unfold zdlread
    rw [bind_of_some (loop_of_inr hround)]
    refine (congrFun (if_pos rfl) _).trans ?_
    rw [hloop, State.skip_skip, List.length_cons, List.length_append, List.length_singleton,
      Nat.add_comm 1]
  | @flow n k w hn hw ih =>
    have hround := plainRound_byte h
    rw [hz, hn] at hround
    have hskip : zdlread s = zdlread (s.skip 1) :=
      bind_congr_left (loop_of_inl (descends_of_shrinks inferInstance) hround)
    rw [hskip, ih h.tail hz, State.skip_skip, List.length_cons, Nat.add_comm 1]

/-! ## Section 4: What is sent -/

/-- The bytes that `zsendline` escapes; `afterAt` is whether the last one sent was an `@`. -/
def Escapes (zctlesc afterAt : Bool) (c : Byte) : Prop :=
  c = zdle ∨ (c = 0x0d ∨ c = 0x8d) ∧ (zctlesc = true ∨ afterAt = true) ∨
    (c = 0x10 ∨ c = 0x11 ∨ c = 0x13 ∨ c = 0x90 ∨ c = 0x91 ∨ c = 0x93) ∨
    zctlesc = true ∧ c &&& 0x60 = 0

instance (zctlesc afterAt : Bool) (c : Byte) : Decidable (Escapes zctlesc afterAt c) :=
  inferInstanceAs (Decidable (_ ∨ _))

/-- What is sent for a byte. -/
def codeOf (zctlesc afterAt : Bool) (c : Byte) : List Byte :=
  if Escapes zctlesc afterAt c then [zdle, c ^^^ 0x40] else [c]

/-- `zsendline` sends the byte, or it behind a ZDLE. -/
theorem zsendline_cases (c : Byte) (s : State) :
    zsendline c s = if Escapes s.zctlesc (s.lastsent &&& 0x7f = 0x40) c then sendEscaped c s
      else sendPlain c s := by
  by_cases hcr : c = 0x0d ∨ c = 0x8d
  · -- a carriage return is none of the other bytes
    have hz : c ≠ zdle := by rcases hcr with rfl | rfl <;> decide
    have hflow : ¬ (c = 0x10 ∨ c = 0x11 ∨ c = 0x13 ∨ c = 0x90 ∨ c = 0x91 ∨ c = 0x93) := by
      rcases hcr with rfl | rfl <;> decide
    unfold zsendline
    rw [if_neg hz, if_pos hcr]
    by_cases hsend : s.zctlesc = false ∧ s.lastsent &&& 0x7f ≠ 0x40
    · have hesc : ¬ Escapes s.zctlesc (s.lastsent &&& 0x7f = 0x40) c := by
        rintro (h | ⟨-, h | h⟩ | h | ⟨h, -⟩)
        · exact hz h
        · exact absurd (hsend.1.symm.trans h) Bool.false_ne_true
        · exact hsend.2 (of_decide_eq_true h)
        · exact hflow h
        · exact absurd (hsend.1.symm.trans h) Bool.false_ne_true
      rw [if_pos hsend, if_neg hesc]
    · have hesc : Escapes s.zctlesc (s.lastsent &&& 0x7f = 0x40) c := by
        refine Or.inr (Or.inl ⟨hcr, ?_⟩)
        rcases Bool.eq_false_or_eq_true s.zctlesc with h | h
        · exact Or.inl h
        · exact Or.inr (decide_eq_true (by_contra fun hat => hsend ⟨h, hat⟩))
      rw [if_neg hsend, if_pos hesc]
  · unfold zsendline Escapes
    rw [if_neg hcr]
    split_ifs <;> simp_all

/-- Only the output and the last byte change. -/
theorem zsendline_eq (c : Byte) (s : State) :
    zsendline c s = { s with
      out := s.out ++ codeOf s.zctlesc (s.lastsent &&& 0x7f = 0x40) c
      lastsent := (zsendline c s).lastsent } := by
  rw [zsendline_cases, codeOf]
  split
  · simp [sendEscaped, sendline]
  · rfl

/-- **Codes are read again.**  The receiver may escape no more than the sender. -/
theorem word_codeOf {z z' : Bool} (hz : z' = true → z = true) (afterAt : Bool) (c : Byte) :
    Word z' (.byte c) (codeOf z afterAt c) := by
  unfold codeOf
  split
  · have hall : ∀ z afterAt c, Escapes z afterAt c → c ^^^ 0x40 ≠ can ∧
        ∀ z', escapeSwitch z' (c ^^^ 0x40) = .inr (.byte c) := by
      decide
    have hc := hall z afterAt c ‹_›
    exact @Word.escaped _ [] _ _ (fun m hm => absurd hm List.not_mem_nil) hc.1 (hc.2 z')
  · have hall : ∀ z z' c, (z' = true → z = true) → ¬ Escapes z false c → Plain z' c := by
      decide
    have hc : ¬ Escapes z afterAt c := ‹_›
    refine .plain (hall z z' c hz fun h => hc ?_)
    exact Or.imp_right (Or.imp_left (And.imp_right fun h => h.imp_right
      fun h => absurd h Bool.false_ne_true)) h

/-! ## Section 5: Texts -/

/-- The codes of one byte after the other. -/
inductive CodesOf (P : Byte → List Byte → Prop) : List Byte → List Byte → Prop where
  | nil : CodesOf P [] []
  | cons {b : Byte} {w bs w'} (h : P b w) (hs : CodesOf P bs w') : CodesOf P (b :: bs) (w ++ w')

/-- A plain byte is its own code. -/
theorem codesOf_plain {z : Bool} (c : Byte) (hc : Plain z c) :
    CodesOf (fun b => Word z (.byte b)) [c] [c] :=
  @CodesOf.cons _ c [c] [] [] (Word.plain hc) .nil

section CodesOf

variable {P Q : Byte → List Byte → Prop} {bs bs' w w' : List Byte}

theorem CodesOf.mono (hle : ∀ b w, P b w → Q b w) (h : CodesOf P bs w) : CodesOf Q bs w := by
  induction h with
  | nil => exact .nil
  | cons h _ ih => exact .cons (hle _ _ h) ih

theorem CodesOf.append (h : CodesOf P bs w) (h' : CodesOf P bs' w') :
    CodesOf P (bs ++ bs') (w ++ w') := by
  induction h with
  | nil => exact h'
  | cons h _ ih =>
    rw [List.append_assoc]
    exact .cons h ih

theorem CodesOf.exists_of_cons {b : Byte} (h : CodesOf P (b :: bs) w) :
    ∃ u v, w = u ++ v ∧ P b u ∧ CodesOf P bs v := by
  cases h with
  | cons hb hs => exact ⟨_, _, rfl, hb, hs⟩

/-- The codes of two texts, one after the other. -/
theorem CodesOf.exists_of_append (h : CodesOf P (bs ++ bs') w) :
    ∃ u v, w = u ++ v ∧ CodesOf P bs u ∧ CodesOf P bs' v := by
  induction bs generalizing w with
  | nil => exact ⟨[], w, rfl, .nil, h⟩
  | cons b bs ih =>
    cases h with
    | @cons _ w₁ _ w₂ hb hs =>
      obtain ⟨u, v, rfl, hu, hv⟩ := ih hs
      exact ⟨w₁ ++ u, v, (List.append_assoc _ _ _).symm, .cons hb hu, hv⟩

end CodesOf

/-- The state after `w` has been sent. -/
def Sends (w : List Byte) (s s' : State) : Prop :=
  s' = { s with out := s.out ++ w, lastsent := s'.lastsent, crc32t := s'.crc32t }

section Sends

variable {w w' : List Byte} {s s₁ s₂ : State}

theorem Sends.trans (h : Sends w s s₁) (h' : Sends w' s₁ s₂) : Sends (w ++ w') s s₂ := by
  unfold Sends at h h' ⊢
  rw [h', h, List.append_assoc]

theorem Sends.zctlesc (h : Sends w s s₁) : s₁.zctlesc = s.zctlesc := by rw [h]

theorem Sends.out (h : Sends w s s₁) : s₁.out = s.out ++ w := by rw [h]

theorem sends_nil (s : State) : Sends [] s s := by
  unfold Sends
  rw [List.append_nil]

theorem sends_sendline (c : Byte) (s : State) : Sends [c] s (sendline c s) := rfl

end Sends

/-- **A text is sent in codes.**  `z` is what the receiver escapes. -/
theorem sends_zsendlines {z : Bool} (bs : List Byte) (s : State)
    (hz : z = true → s.zctlesc = true) :
    ∃ w, CodesOf (fun b => Word z (.byte b)) bs w ∧ Sends w s (zsendlines bs s) := by
  induction bs generalizing s with
  | nil => exact ⟨[], .nil, sends_nil s⟩
  | cons b bs ih =>
    have hfirst : Sends (codeOf s.zctlesc (s.lastsent &&& 0x7f = 0x40) b) s (zsendline b s) := by
      unfold Sends
      rw [zsendline_eq]
    obtain ⟨w, hw, hsends⟩ := ih (zsendline b s) fun h => hfirst.zctlesc.trans (hz h)
    exact ⟨_ ++ w, .cons (word_codeOf hz _ b) hw, hfirst.trans hsends⟩

/-! ## Section 6: Flow control in between -/

/-- The characters XON and XOFF, with or without parity. -/
def IsFlow (n : Byte) : Prop := n = 0x13 ∨ n = 0x93 ∨ n = 0x11 ∨ n = 0x91

instance (n : Byte) : Decidable (IsFlow n) := inferInstanceAs (Decidable (_ ∨ _))

/-- Flow control comes in before the bytes of a text. -/
inductive Interspersed : List Byte → List Byte → Prop where
  | nil : Interspersed [] []
  | keep {c : Byte} {w w'} (h : Interspersed w w') : Interspersed (c :: w) (c :: w')
  | flow {n c : Byte} {w w'} (hn : IsFlow n) (h : Interspersed (c :: w) w') :
      Interspersed (c :: w) (n :: w')

theorem IsFlow.flow {n : Byte} (h : IsFlow n) (z : Bool) : Flow z n := by
  have hall : ∀ n, IsFlow n → ∀ z, Flow z n := by decide
  exact hall n h z

section Interspersed

variable {c : Byte} {u v w w' : List Byte}

theorem Interspersed.refl (w : List Byte) : Interspersed w w := by
  induction w with
  | nil => exact .nil
  | cons c w ih => exact .keep ih

theorem Interspersed.exists_of_cons (h : Interspersed (c :: w) w') :
    ∃ ns w'', w' = ns ++ c :: w'' ∧ (∀ n ∈ ns, IsFlow n) ∧ Interspersed w w'' := by
  generalize hcw : c :: w = x at h
  induction h with
  | nil => cases hcw
  | @keep c' x x' h ih =>
    cases hcw
    exact ⟨[], x', rfl, fun n hn => absurd hn List.not_mem_nil, h⟩
  | @flow n c' x x' hn h ih =>
    cases hcw
    obtain ⟨ns, w'', rfl, hns, hw⟩ := ih rfl
    refine ⟨n :: ns, w'', rfl, ?_, hw⟩
    intro m hm
    rcases List.mem_cons.1 hm with rfl | hm
    · exact hn
    · exact hns m hm

/-- Flow control with flow control in it. -/
theorem Interspersed.all_flow (h : Interspersed w w') (hw : ∀ n ∈ w, IsFlow n) :
    ∀ n ∈ w', IsFlow n := by
  induction h with
  | nil => exact hw
  | keep _ ih =>
    obtain ⟨hc, hw⟩ := List.forall_mem_cons.1 hw
    exact List.forall_mem_cons.2 ⟨hc, ih hw⟩
  | flow hn _ ih => exact List.forall_mem_cons.2 ⟨hn, ih hw⟩

theorem Interspersed.flows (h : Interspersed w w') {ns : List Byte} (hns : ∀ n ∈ ns, IsFlow n)
    (hw : w ≠ []) : Interspersed w (ns ++ w') := by
  obtain ⟨c, w, rfl⟩ := List.exists_cons_of_ne_nil hw
  induction ns with
  | nil => exact h
  | cons n ns ih =>
    exact .flow (hns n List.mem_cons_self) (ih fun m hm => hns m (List.mem_cons_of_mem n hm))

theorem Interspersed.exists_of_append (h : Interspersed (u ++ v) w) :
    ∃ u' v', w = u' ++ v' ∧ Interspersed u u' ∧ Interspersed v v' := by
  induction u generalizing w with
  | nil => exact ⟨[], w, rfl, .nil, h⟩
  | cons c u ih =>
    obtain ⟨ns, w'', rfl, hns, hw⟩ := h.exists_of_cons
    obtain ⟨u', v', rfl, hu, hv⟩ := ih hw
    refine ⟨ns ++ c :: u', v', by simp, ?_, hv⟩
    exact (Interspersed.keep hu).flows hns (List.cons_ne_nil c u)

end Interspersed

theorem Word.flows {z : Bool} {k : Code} {w ns : List Byte} (h : Word z k w)
    (hns : ∀ n ∈ ns, IsFlow n) : Word z k (ns ++ w) := by
  induction ns with
  | nil => exact h
  | cons n ns ih =>
    exact .flow ((hns n List.mem_cons_self).flow z)
      (ih fun m hm => hns m (List.mem_cons_of_mem n hm))

/-- A code is one with flow control in it. -/
theorem Word.interspersed {z : Bool} {k : Code} {w w' : List Byte} (h : Word z k w)
    (hw : Interspersed w w') : Word z k w' := by
  induction h generalizing w' with
  | plain hc =>
    obtain ⟨ns, w'', rfl, hns, hnil⟩ := hw.exists_of_cons
    cases hnil
    exact (Word.plain hc).flows hns
  | @escaped ms e k hms hcan he =>
    obtain ⟨ns, w'', rfl, hns, htail⟩ := hw.exists_of_cons
    -- what is behind the ZDLE
    have hescape : ∀ ms w'', (∀ m ∈ ms, Flow z m) → Interspersed (ms ++ [e]) w'' →
        ∃ ms', w'' = ms' ++ [e] ∧ ∀ m ∈ ms', Flow z m := by
      intro ms
      induction ms with
      | nil =>
        intro w'' _ h
        obtain ⟨ns, x, rfl, hns, hnil⟩ := h.exists_of_cons
        cases hnil
        exact ⟨ns, rfl, fun n hn => (hns n hn).flow z⟩
      | cons m ms ih =>
        intro w'' hms h
        obtain ⟨ns, x, rfl, hns, htail⟩ := h.exists_of_cons
        obtain ⟨ms', rfl, hms'⟩ := ih x (fun n hn => hms n (List.mem_cons_of_mem m hn)) htail
        refine ⟨ns ++ m :: ms', by simp, ?_⟩
        intro n hn
        rcases List.mem_append.1 hn with hn | hn
        · exact (hns n hn).flow z
        · rcases List.mem_cons.1 hn with rfl | hn
          · exact hms n List.mem_cons_self
          · exact hms' n hn
    obtain ⟨ms', rfl, hms'⟩ := hescape ms w'' hms htail
    exact (Word.escaped hms' hcan he).flows hns
  | flow hn h ih =>
    obtain ⟨ns, w'', rfl, hns, htail⟩ := hw.exists_of_cons
    exact (Word.flow hn (ih htail)).flows hns

theorem CodesOf.interspersed {z : Bool} {bs w w' : List Byte}
    (h : CodesOf (fun b => Word z (.byte b)) bs w) (hw : Interspersed w w') :
    CodesOf (fun b => Word z (.byte b)) bs w' := by
  induction h generalizing w' with
  | nil =>
    cases hw
    exact .nil
  | cons hb _ ih =>
    obtain ⟨u', v', rfl, hu, hv⟩ := hw.exists_of_append
    exact .cons (hb.interspersed hu) (ih hv)

end Karnix.Zmodem
