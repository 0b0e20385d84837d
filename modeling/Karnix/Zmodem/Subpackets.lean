import Karnix.Zmodem.Headers

/-!
# Data subpackets

`zrdata` reads what `zsdata` has sent, and takes nothing for it that a burst of errors has
changed.  Whatever comes in, it stores no more than one byte behind the length it is given.
-/

namespace Karnix.Zmodem

open Karnix.Library
open Karnix.Library.Program

/-! ## Section 1: What is read -/

/-- The state with bytes in a buffer. -/
def State.stored (buf : ℕ) (bs : List Byte) (s : State) : State :=
  { s with mem := s.mem.store buf bs }

theorem word_frameEnd (z : Bool) (e : FrameEnd) : Word z (.got e) [zdle, e.byte] := by
  have hall : ∀ z, ∀ e : FrameEnd, e.byte ≠ can ∧ escapeSwitch z e.byte = .inr (.got e) := by
    intro z e
    cases z <;> cases e <;> decide
  exact @Word.escaped _ [] _ _ (fun m hm => absurd hm List.not_mem_nil) (hall z e).1 (hall z e).2

section Read

variable {z : Bool} {f : Fcs} {w w' : List Byte} {rest : List Reading}

/-- The loop takes the bytes that there is room for. -/
theorem readData_codes (buf : ℕ) {bs : List Byte} {s : State}
    (h : CodesOf (fun b => Word z (.byte b)) bs w) (hz : s.zctlesc = z)
    (hs : Brings s (w ++ w') rest) (m i : ℕ) (crc : BitVec f.width) :
    readData f buf (bs.length + m) i crc s =
      readData f buf m (i + bs.length) (f.over crc bs)
        ((s.stored (buf + i) bs).skip w.length) := by
  induction h generalizing s i crc with
  | nil =>
    have hnil : s.stored (buf + i) [] = s := by
      rw [State.stored, Memory.store_nil]
    show readData f buf (0 + m) i crc s = readData f buf m i crc (s.stored (buf + i) [])
    rw [hnil, Nat.zero_add]
  | @cons b u bs v hb _ ih =>
    rw [List.append_assoc] at hs
    have hread := zdlread_word (hz ▸ hb) hs
    have hnext := ih (s := (s.skip u.length).stored (buf + i) [b]) hz hs.skip (i + 1) (f.upd b crc)
    have hstate : (((s.skip u.length).stored (buf + i) [b]).stored (buf + (i + 1)) bs).skip
        v.length = (s.stored (buf + i) (b :: bs)).skip (u ++ v).length := by
      have hmem := Memory.store_append s.mem (buf + i) [b] bs
      rw [List.length_append, ← State.skip_skip]
      show State.skip v.length (State.skip u.length
        { s with mem := (s.mem.store (buf + i) [b]).store (buf + (i + 1)) bs }) = _
      rw [← Nat.add_assoc, ← List.length_singleton (a := b), ← hmem]
      rfl
    rw [List.length_cons, Nat.add_right_comm, readData, bind_of_some hread]
    refine hnext.trans ?_
    rw [hstate, Nat.add_right_comm, Nat.add_assoc]
    rfl

/-- The end of a subpacket: its code, and the check-sum. -/
theorem crcfoo_codes {e : FrameEnd} {check : List Byte} {s : State}
    (h : CodesOf (fun b => Word z (.byte b)) check w) (hcheck : check.length = f.checkLength)
    (hz : s.zctlesc = z) (hs : Brings s (w ++ w') rest) (i : ℕ) (crc : BitVec f.width) :
    loop left (crcfooRound f i) (crc, .got e) s =
      if f.good (f.over crc (e.byte :: check)) then
        (some (.got e), { s.skip w.length with rxcount := i })
      else (some .error, s.skip w.length) := by
  have hread := readBytes_codes quiet_putNothing (h.mono fun b w => readsAs_word) hz hs 0
    (f.upd e.byte crc)
  rw [putAll_putNothing, hcheck] at hread
  by_cases hgood : f.good (f.over crc (e.byte :: check)) = true
  · rw [if_pos hgood]
    refine loop_of_inr ((bind_of_some hread).trans ?_)
    exact congrFun (if_pos hgood) _
  · rw [if_neg hgood]
    refine loop_of_inr ((bind_of_some hread).trans ?_)
    exact congrFun (if_neg hgood) _

/-- **A subpacket is read**, if its check-sum is right. -/
theorem readData_subpacket (buf : ℕ) {data check w₁ w₂ w₃ : List Byte} {e : FrameEnd} {s : State}
    (h₁ : CodesOf (fun b => Word z (.byte b)) data w₁) (h₂ : Word z (.got e) w₂)
    (h₃ : CodesOf (fun b => Word z (.byte b)) check w₃) (hcheck : check.length = f.checkLength)
    (hz : s.zctlesc = z) (hs : Brings s (w₁ ++ (w₂ ++ (w₃ ++ w'))) rest) (m : ℕ) :
    readData f buf (data.length + (m + 1)) 0 f.start s =
      if f.good (f.over f.start (data ++ e.byte :: check)) then
        (some (.got e), { (s.stored buf data).skip (w₁ ++ (w₂ ++ w₃)).length with
          rxcount := data.length })
      else (some .error, (s.stored buf data).skip (w₁ ++ (w₂ ++ w₃)).length) := by
  have hend := zdlread_word (s := (s.stored buf data).skip w₁.length) (hz ▸ h₂) hs.skip
  have hcrc := crcfoo_codes (f := f) (e := e) (s := ((s.stored buf data).skip w₁.length).skip
    w₂.length) h₃ hcheck hz hs.skip.skip data.length (f.over f.start data)
  rw [← f.over_append, State.skip_skip, State.skip_skip, ← List.length_append,
    ← List.length_append, List.append_assoc] at hcrc
  have hread := readData_codes buf h₁ hz hs (m + 1) 0 f.start
  simp only [Nat.add_zero, Nat.zero_add] at hread
  rw [hread, readData, bind_of_some hend]
  refine Eq.trans ?_ hcrc
  rw [State.skip_skip, ← List.length_append]

end Read

/-! ## Section 2: What is sent -/

theorem sends_sendData {z : Bool} (f : Fcs) (buf : List Byte) (e : FrameEnd) (s : State)
    (hz : z = true → s.zctlesc = true) :
    ∃ w₁ w₃, CodesOf (fun b => Word z (.byte b)) buf w₁ ∧
      CodesOf (fun b => Word z (.byte b)) (f.check (f.over f.start (buf ++ [e.byte]))) w₃ ∧
        Sends (w₁ ++ ([zdle, e.byte] ++ w₃)) s (sendData f buf e s) := by
  obtain ⟨w₁, hw₁, hs₁⟩ := sends_zsendlines buf s hz
  have hend : Sends [zdle, e.byte] (zsendlines buf s)
      (sendline e.byte (sendline zdle (zsendlines buf s))) :=
    (sends_sendline zdle _).trans (sends_sendline e.byte _)
  have hover : f.over f.start (buf ++ [e.byte]) = f.upd e.byte (f.over f.start buf) :=
    f.over_append f.start buf [e.byte]
  obtain ⟨w₃, hw₃, hs₃⟩ := sends_zsendlines (f.check (f.upd e.byte (f.over f.start buf)))
    (sendline e.byte (sendline zdle (zsendlines buf s)))
    fun h => (hs₁.trans hend).zctlesc.trans (hz h)
  rw [hover]
  exact ⟨w₁, w₃, hw₁, hw₃, hs₁.trans (hend.trans hs₃)⟩

/-- What `zsdata` sends: the subpacket, and XON behind the last one of a window. -/
theorem sends_zsdata {z : Bool} (buf : List Byte) (e : FrameEnd) (s : State)
    (hz : z = true → s.zctlesc = true) :
    ∃ w₁ w₃ xs, CodesOf (fun b => Word z (.byte b)) buf w₁ ∧
      CodesOf (fun b => Word z (.byte b))
        ((fcsOf s.crc32t).check ((fcsOf s.crc32t).over (fcsOf s.crc32t).start
          (buf ++ [e.byte]))) w₃ ∧
        (∀ x ∈ xs, IsFlow x) ∧
          Sends (w₁ ++ ([zdle, e.byte] ++ w₃) ++ xs) s (zsdata buf e s) := by
  obtain ⟨w₁, w₃, hw₁, hw₃, hs⟩ := sends_sendData (fcsOf s.crc32t) buf e s hz
  have hdata : (if s.crc32t then zsda32 buf e s else sendData fcs16 buf e s) =
      sendData (fcsOf s.crc32t) buf e s := by
    cases s.crc32t <;> rfl
  have hlast : ∀ s : State, ∃ xs, (∀ x ∈ xs, IsFlow x) ∧
      Sends xs s (if e = .zcrcw then sendline xon s else s) := by
    intro s
    split
    · refine ⟨[xon], fun x hx => ?_, sends_sendline xon s⟩
      rw [List.mem_singleton.1 hx]
      decide
    · exact ⟨[], fun x hx => absurd hx List.not_mem_nil, sends_nil s⟩
  obtain ⟨xs, hflow, hxs⟩ := hlast (sendData (fcsOf s.crc32t) buf e s)
  refine ⟨w₁, w₃, xs, hw₁, hw₃, hflow, ?_⟩
  unfold zsdata
  dsimp only
  rw [hdata]
  exact hs.trans hxs

/-! ## Section 3: The round trip -/

/-- The state after a subpacket: the bytes are in the buffer, and counted. -/
def State.received (buf : ℕ) (data : List Byte) (s : State) : State :=
  { s.stored buf data with rxcount := data.length }

theorem zrdata_eq (buf length : ℕ) (s : State) :
    zrdata buf length s = readData (fcsOf (s.rxframeind = zbin32)) buf (length + 1) 0
      (fcsOf (s.rxframeind = zbin32)).start { s with rxcount := 0 } := by
  unfold zrdata
  show (if s.rxframeind = zbin32 then zrdat32 buf length else _ : ZmodemM Code) s = _
  by_cases hind : s.rxframeind = zbin32
  · rw [if_pos hind, decide_eq_true hind]
    rfl
  · rw [if_neg hind, decide_eq_false hind]
    rfl

theorem zrdata_subpacket {z : Bool} {f : Fcs} (buf : ℕ) {length : ℕ}
    {data check w₁ w₂ w₃ w' : List Byte} {e : FrameEnd} {s : State} {rest : List Reading}
    (hf : fcsOf (s.rxframeind = zbin32) = f)
    (hlen : data.length ≤ length) (h₁ : CodesOf (fun b => Word z (.byte b)) data w₁)
    (h₂ : Word z (.got e) w₂) (h₃ : CodesOf (fun b => Word z (.byte b)) check w₃)
    (hcheck : check.length = f.checkLength) (hz : s.zctlesc = z)
    (hs : Brings s (w₁ ++ (w₂ ++ (w₃ ++ w'))) rest) :
    zrdata buf length s =
      if f.good (f.over f.start (data ++ e.byte :: check)) then
        (some (.got e), (s.skip (w₁ ++ (w₂ ++ w₃)).length).received buf data)
      else (some .error, { (s.skip (w₁ ++ (w₂ ++ w₃)).length).stored buf data with
        rxcount := 0 }) := by
  subst hf
  have hread := readData_subpacket (s := { s with rxcount := 0 }) buf h₁ h₂ h₃ hcheck hz hs
    (length - data.length)
  rw [zrdata_eq, ← (by omega : data.length + (length - data.length + 1) = length + 1)]
  exact hread

/-- **A subpacket is read** as it was sent, with flow control in it. -/
theorem zrdata_zsdata {tx rx : State} {data w line w' : List Byte} {e : FrameEnd}
    {rest : List Reading} {buf length : ℕ} (hesc : rx.zctlesc = true → tx.zctlesc = true)
    (hfcs : tx.crc32t = decide (rx.rxframeind = zbin32)) (hlen : data.length ≤ length)
    (hw : (zsdata data e tx).out = tx.out ++ w) (hline : Interspersed w line)
    (hfits : rx.line.Fits) (h : Brings rx (line ++ w') rest) :
    ∃ line₁ line₂, line = line₁ ++ line₂ ∧ (∀ x ∈ line₂, IsFlow x) ∧
      zrdata buf length rx =
        (some (.got e), (rx.skip line₁.length).received buf data) ∧
      (rx.skip line₁.length).line.Fits := by
  obtain ⟨w₁, w₃, xs, hw₁, hw₃, hxs, hsends⟩ := sends_zsdata data e tx hesc
  obtain rfl := List.append_cancel_left (hw.symm.trans hsends.out)
  obtain ⟨line₁, line₂, rfl, hline₁, hline₂⟩ := hline.exists_of_append
  obtain ⟨u₁, line₁, rfl, hu₁, hline₁⟩ := hline₁.exists_of_append
  obtain ⟨u₂, u₃, rfl, hu₂, hu₃⟩ := hline₁.exists_of_append
  refine ⟨u₁ ++ (u₂ ++ u₃), line₂, rfl, hline₂.all_flow hxs, ?_⟩
  have hlawful := lawful_fcsOf tx.crc32t
  have hgood : (fcsOf tx.crc32t).good ((fcsOf tx.crc32t).over (fcsOf tx.crc32t).start
      (data ++ e.byte :: (fcsOf tx.crc32t).check ((fcsOf tx.crc32t).over (fcsOf tx.crc32t).start
        (data ++ [e.byte])))) = true := by
    rw [List.append_cons, Fcs.over_append]
    exact hlawful.good_check _
  have hs : Brings rx (u₁ ++ (u₂ ++ (u₃ ++ (line₂ ++ w')))) rest := by
    simpa using h
  have hread := zrdata_subpacket buf (congrArg fcsOf hfcs.symm) hlen (hw₁.interspersed hu₁)
    ((word_frameEnd _ e).interspersed hu₂) (hw₃.interspersed hu₃) (hlawful.length_check _) rfl hs
  rw [if_pos hgood] at hread
  exact ⟨hread, hfits.iterate _⟩

theorem zrdata_zsdata_zcrcw :
    ∃ line₁ line₂, [0x18, 0x58, 0x18, 0x13, 0x51, 0x41, 0x18, 0x6b, 0x09, 0x07, 0x11] =
        line₁ ++ line₂ ∧ (∀ x ∈ line₂, IsFlow x) ∧
      zrdata 0x100 1024 { State.initial with
          line := ⟨[0x18, 0x58, 0x18, 0x13, 0x51, 0x41, 0x18, 0x6b, 0x09, 0x07, 0x11], []⟩ } =
        (some (.got .zcrcw), (State.skip line₁.length { State.initial with
          line := ⟨[0x18, 0x58, 0x18, 0x13, 0x51, 0x41, 0x18, 0x6b, 0x09, 0x07, 0x11],
            []⟩ }).received 0x100 [0x18, 0x11, 0x41]) ∧
      (State.skip line₁.length { State.initial with
          line := ⟨[0x18, 0x58, 0x18, 0x13, 0x51, 0x41, 0x18, 0x6b, 0x09, 0x07, 0x11],
            []⟩ }).line.Fits := by
  have hw : (zsdata [0x18, 0x11, 0x41] .zcrcw State.initial).out =
      [] ++ [0x18, 0x58, 0x18, 0x51, 0x41, 0x18, 0x6b, 0x09, 0x07, 0x11] := by
    decide +kernel
  have hline : Brings { State.initial with
      line := ⟨[0x18, 0x58, 0x18, 0x13, 0x51, 0x41, 0x18, 0x6b, 0x09, 0x07, 0x11], []⟩ }
      ([0x18, 0x58, 0x18, 0x13, 0x51, 0x41, 0x18, 0x6b, 0x09, 0x07, 0x11] ++ []) [] := rfl
  exact zrdata_zsdata (by decide) (by decide) (by decide) hw
    (.keep (.keep (.keep (.flow (by decide) (Interspersed.refl _))))) nofun hline

/-! ## Section 4: Errors on the line -/

/-- **A subpacket with a burst of errors is refused.**  The receiver reads as many bytes as were
sent, and they differ by a burst that is no longer than the check-sum. -/
theorem zrdata_burst {s : State} {b : Bool} {data data' check check' w₁ w₂ w₃ w' : List Byte}
    {e e' : FrameEnd} {rest : List Reading} {buf length : ℕ}
    (hb : decide (s.rxframeind = zbin32) = b) (hlen : data.length ≤ length)
    (hcheck : check = (fcsOf b).check ((fcsOf b).over (fcsOf b).start (data ++ [e.byte])))
    (hdata' : data'.length = data.length) (hcheck' : check'.length = check.length)
    (hburst : Crc.IsBurst (fcsOf b).width (bitsOf b
      (List.zipWith (· ^^^ ·) (data ++ e.byte :: check) (data' ++ e'.byte :: check'))))
    (h₁ : CodesOf (fun b => Word s.zctlesc (.byte b)) data' w₁) (h₂ : Word s.zctlesc (.got e') w₂)
    (h₃ : CodesOf (fun b => Word s.zctlesc (.byte b)) check' w₃)
    (hs : Brings s (w₁ ++ (w₂ ++ (w₃ ++ w'))) rest) :
    zrdata buf length s = (some .error, { (s.skip (w₁ ++ (w₂ ++ w₃)).length).stored buf data' with
      rxcount := 0 }) := by
  have hlawful := lawful_fcsOf b
  have hgood : (fcsOf b).good ((fcsOf b).over (fcsOf b).start (data ++ e.byte :: check)) =
      true := by
    rw [List.append_cons, Fcs.over_append, hcheck]
    exact hlawful.good_check _
  have hbad : ¬ (fcsOf b).good ((fcsOf b).over (fcsOf b).start (data' ++ e'.byte :: check')) =
      true := by
    intro hgood'
    refine hlawful.detects _ _ ?_ hgood hgood' hburst
    rw [List.length_append, List.length_append, List.length_cons, List.length_cons, hdata', hcheck']
  have hlength : check'.length = (fcsOf b).checkLength := by
    rw [hcheck', hcheck]
    exact hlawful.length_check _
  have hread := zrdata_subpacket buf (congrArg fcsOf hb) (hdata'.le.trans hlen) h₁ h₂ h₃ hlength
    rfl hs
  rwa [if_neg hbad] at hread

/-- Two bits of the only byte have changed. -/
theorem zrdata_burst_zcrce :
    zrdata 0x100 1024 { State.initial with line := ⟨[0x42, 0x18, 0x68, 0xd3, 0x53], []⟩ } =
      (some .error, { (State.skip 5 { State.initial with
          line := ⟨[0x42, 0x18, 0x68, 0xd3, 0x53], []⟩ }).stored 0x100 [0x42] with
        rxcount := 0 }) := by
  have hburst : Crc.IsBurst 16 (bitsOf false (List.zipWith (· ^^^ ·)
      ([0x41] ++ FrameEnd.zcrce.byte :: [0xd3, 0x53])
      ([0x42] ++ FrameEnd.zcrce.byte :: [0xd3, 0x53]))) :=
    ⟨6, [true, true], 24, by decide +kernel, by decide, by decide⟩
  have hcheck : [0xd3, 0x53] =
      fcs16.check (fcs16.over fcs16.start ([0x41] ++ [FrameEnd.zcrce.byte])) := by
    decide +kernel
  have hline : Brings { State.initial with line := ⟨[0x42, 0x18, 0x68, 0xd3, 0x53], []⟩ }
      ([0x42] ++ ([0x18, 0x68] ++ ([0xd3] ++ [0x53] ++ []))) [] := rfl
  have hlength : ([0x42] : List Byte).length = ([0x41] : List Byte).length := rfl
  exact zrdata_burst (b := false) rfl (by decide) hcheck hlength rfl hburst
    (codesOf_plain 0x42 (by decide)) (word_frameEnd false .zcrce)
    ((codesOf_plain 0xd3 (by decide)).append (codesOf_plain 0x53 (by decide))) hline

/-! ## Section 5: Every line -/

/-- Like `Takes`, where the cells from `a` to `b` may change as well. -/
def Stores (a b : ℕ) (s s' : State) : Prop :=
  ∃ n, s' = { s.skip n with
    rxframeind := s'.rxframeind
    rxtype := s'.rxtype
    rxcount := s'.rxcount
    rxhdr := s'.rxhdr
    zmodem := s'.zmodem
    mem := s'.mem } ∧ ∀ k, k < a ∨ b ≤ k → s'.mem k = s.mem k

instance isPreorder_stores (a b : ℕ) : IsPreorder State (Stores a b) where
  refl s := ⟨0, rfl, fun _ _ => rfl⟩
  trans s s₁ s₂ h h₁ := by
    obtain ⟨n, h, hmem⟩ := h
    obtain ⟨n₁, h₁, hmem₁⟩ := h₁
    refine ⟨n + n₁, ?_, fun k hk => (hmem₁ k hk).trans (hmem k hk)⟩
    rw [← State.skip_skip, h₁, h]
    rfl

instance reads_stores (a b : ℕ) : Reads (Stores a b) where
  le s s' h := by
    obtain ⟨n, h⟩ := h
    have hmem : s'.mem = s.mem := by
      rw [h]
      rfl
    refine ⟨n, ?_, fun k _ => congrFun hmem k⟩
    rw [hmem]
    exact h

instance keeps_crcfooRound {R : State → State → Prop} [Reads R] (f : Fcs) (stored : ℕ)
    (a : BitVec f.width × Code) : Keeps R (crcfooRound f stored a) := by
  have hcount : Keeps R (modify fun s : State => { s with rxcount := stored }) :=
    keeps_header fun _ => rfl
  obtain ⟨crc, c⟩ := a
  unfold crcfooRound
  rcases c with b | e | _ | _ | _
  · exact keeps_pure _
  · refine @keeps_bind _ _ _ _ _ _ _ _ fun r => ?_
    rcases r with r | crc <;> infer_instance
  all_goals exact keeps_pure _

theorem keeps_readData (f : Fcs) (buf length n i : ℕ) (crc : BitVec f.width)
    (hn : i + n ≤ length + 1) :
    Keeps (Stores buf (buf + length + 1)) (readData f buf n i crc) := by
  induction n generalizing i crc with
  | zero => exact keeps_pure _
  | succ n ih =>
    unfold readData
    refine @keeps_bind _ _ _ _ _ _ _ _ fun c => ?_
    rcases c with b | e | _ | _ | _
    · have hrest := ih (i + 1) (f.upd b crc) (by omega)
      have hstore : Keeps (Stores buf (buf + length + 1))
          (modify fun s : State => { s with mem := s.mem.store (buf + i) [b] }) := by
        refine keeps_modify fun s => ⟨0, rfl, fun k hk => ?_⟩
        show s.mem.store (buf + i) [b] k = s.mem k
        rw [Memory.store_singleton, if_neg (by omega)]
      infer_instance
    all_goals infer_instance

/-- **Nothing but the buffer is written**, and one byte behind it, whatever the line brings. -/
theorem keeps_zrdata (buf length : ℕ) :
    Keeps (Stores buf (buf + length + 1)) (zrdata buf length) where
  run s := by
    rw [zrdata_eq]
    have hcount : Stores buf (buf + length + 1) s { s with rxcount := 0 } :=
      ⟨0, rfl, fun _ _ => rfl⟩
    exact trans_of _ hcount ((keeps_readData _ buf length (length + 1) 0 _ (by omega)).run _)

theorem Stores.left {a b : ℕ} {s s' : State} (h : Stores a b s s') : left s' ≤ left s := by
  obtain ⟨n, h, -⟩ := h
  have hline : Zmodem.left s' = Zmodem.left (s.skip n) := by
    rw [h]
    rfl
  rw [hline, left_skip]
  exact Nat.sub_le _ _

/-- A subpacket takes up some of the line. -/
instance shrinks_zrdata (buf length : ℕ) : Shrinks left (zrdata buf length) where
  lt s c s' h := by
    rw [zrdata_eq, readData] at h
    obtain ⟨c', s₁, hread, hrest⟩ := exists_of_bind h
    have hless := shrinks_zdlread.lt _ c' s₁ hread
    refine Nat.lt_of_le_of_lt ?_ hless
    rcases c' with b | e | _ | _ | _
    · exact ((keeps_readData _ buf length length 1 _ (by omega)).of_eq hrest).left
    all_goals exact (keeps_loop (R := NotMore) _).of_eq hrest

/-- The count that a subpacket is accepted with. -/
theorem crcfoo_got {f : Fcs} {stored : ℕ} {a : BitVec f.width × Code} {e : FrameEnd}
    {s s' : State} (h : loop left (crcfooRound f stored) a s = (some (.got e), s')) :
    s'.rxcount = stored ∧ left s' ≤ left s := by
  refine ⟨?_, (keeps_loop (R := NotMore) a).of_eq h⟩
  -- on the rounds
  have hrounds : ∀ n a s, rounds (crcfooRound f stored) n a s = (some (.got e), s') →
      s'.rxcount = stored := by
    intro n
    induction n with
    | zero => intro a s h; cases h
    | succ n ih =>
      intro a s h
      obtain ⟨r, s₁, hfirst, hrest⟩ := exists_of_bind h
      rcases r with a' | c
      · exact ih a' s₁ hrest
      · cases hrest
        obtain ⟨crc, c⟩ := a
        unfold crcfooRound at hfirst
        rcases c with b | e' | _ | _ | _
        · cases hfirst
        · obtain ⟨r, s₂, -, hlast⟩ := exists_of_bind hfirst
          rcases r with r | crc'
          · cases hlast
          · rcases exists_of_ite hlast with ⟨-, hgood⟩ | ⟨-, hbad⟩
            · cases hgood
              rfl
            · cases hbad
        all_goals cases hfirst
  exact hrounds _ a s h

theorem readData_got {f : Fcs} {buf n i : ℕ} {crc : BitVec f.width} {e : FrameEnd}
    {s s' : State} (h : readData f buf n i crc s = (some (.got e), s')) :
    i ≤ s'.rxcount ∧ s'.rxcount < i + n ∧ left s' + (s'.rxcount - i) < left s := by
  induction n generalizing i crc s with
  | zero => cases h
  | succ n ih =>
    obtain ⟨c, s₁, hread, hrest⟩ := exists_of_bind h
    have hless := shrinks_zdlread.lt s c s₁ hread
    rcases c with b | e' | _ | _ | _
    · obtain ⟨hlow, hhigh, hleft⟩ := ih (s := { s₁ with mem := s₁.mem.store (buf + i) [b] }) hrest
      have hsame : left { s₁ with mem := s₁.mem.store (buf + i) [b] } = left s₁ := rfl
      omega
    all_goals
      obtain ⟨hcount, hleft⟩ := crcfoo_got hrest
      omega

/-- **An accepted subpacket fits in its buffer**, and the line has brought as many bytes. -/
theorem zrdata_got {buf length : ℕ} {e : FrameEnd} {s s' : State}
    (h : zrdata buf length s = (some (.got e), s')) :
    s'.rxcount ≤ length ∧ left s' + s'.rxcount < left s := by
  rw [zrdata_eq] at h
  obtain ⟨-, hcount, hleft⟩ := readData_got h
  have hsame : left { s with rxcount := 0 } = left s := rfl
  omega

end Karnix.Zmodem
