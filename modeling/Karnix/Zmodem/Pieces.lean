import Karnix.Zmodem.Transfer

/-!
# Pieces of a line

What the line brings to `zgethdr` and to `zrdata`: headers and subpackets that are right, others
with errors in them, and those that stop short.
-/

namespace Karnix.Zmodem

open Karnix.Library
open Karnix.Library.Program

/-! ## Section 1: Subpackets -/

/-- What is read from a piece of the line where data is expected: the code, and the bytes that
are stored in the buffer. -/
inductive DataPiece (z : Bool) (f : Fcs) : Code → List Byte → List Reading → Prop where
  | good {data check w₁ w₂ w₃ : List Byte} {e : FrameEnd} (hlen : data.length ≤ ksize)
      (h₁ : CodesOf (fun b => Word z (.byte b)) data w₁) (h₂ : Word z (.got e) w₂)
      (h₃ : CodesOf (fun b => Word z (.byte b)) check w₃) (hcheck : check.length = f.checkLength)
      (hgood : f.good (f.over f.start (data ++ e.byte :: check)) = true) :
      DataPiece z f (.got e) data ((w₁ ++ (w₂ ++ w₃)).map .byte)
  /-- The check-sum does not fit. -/
  | broken {data check w₁ w₂ w₃ : List Byte} {e : FrameEnd} (hlen : data.length ≤ ksize)
      (h₁ : CodesOf (fun b => Word z (.byte b)) data w₁) (h₂ : Word z (.got e) w₂)
      (h₃ : CodesOf (fun b => Word z (.byte b)) check w₃) (hcheck : check.length = f.checkLength)
      (hbad : f.good (f.over f.start (data ++ e.byte :: check)) = false) :
      DataPiece z f .error data ((w₁ ++ (w₂ ++ w₃)).map .byte)
  /-- Nothing comes any more. -/
  | cut {data w₁ : List Byte} (hlen : data.length ≤ ksize)
      (h₁ : CodesOf (fun b => Word z (.byte b)) data w₁) :
      DataPiece z f .timeout data (w₁.map .byte ++ [.timeout])

section Timeout

variable {s : State} {rest : List Reading}

theorem readline_timeout (h : s.line.readings = .timeout :: rest) :
    readline s = (some .timeout, s.skip 1) := by
  rw [readline_eq, h]
  rfl

theorem zdlread_timeout (h : s.line.readings = .timeout :: rest) :
    zdlread s = (some .timeout, s.skip 1) := by
  have hround : plainRound ⟨⟩ s = (some (.inr .timeout), s.skip 1) := by
    unfold plainRound
    rw [bind_of_some (readline_timeout h)]
    rfl
  unfold zdlread
  exact (bind_of_some (loop_of_inr hround)).trans rfl

theorem readings_skip_one {r : Reading} (h : s.line.readings = r :: rest) :
    (s.skip 1).line.readings = rest := by
  rw [State.readings_skip, h]
  rfl

end Timeout

/-- **A piece is read**, and nothing behind it. -/
theorem zrdata_piece {z : Bool} {f : Fcs} {c : Code} {data : List Byte} {rs rest : List Reading}
    {s : State} (h : DataPiece z f c data rs) (hz : s.zctlesc = z)
    (hf : fcsOf (s.rxframeind = zbin32) = f) (hs : s.line.readings = rs ++ rest) :
    ∃ s', zrdata s.secbuf ksize s = (some c, s') ∧ s'.line.readings = rest ∧
      s'.rxframeind = s.rxframeind ∧ s'.zmodem = s.zmodem ∧
      ∀ e, c = .got e → s'.rxcount = data.length ∧ s'.mem.load s.secbuf data.length = data := by
  cases h with
  | @good _ check w₁ w₂ w₃ e hlen h₁ h₂ h₃ hcheck hgood =>
    have hbrings : Brings s (w₁ ++ (w₂ ++ (w₃ ++ []))) rest := by
      simpa [Brings] using hs
    have hread := zrdata_subpacket s.secbuf hf hlen h₁ h₂ h₃ hcheck hz hbrings
    rw [if_pos hgood] at hread
    have hrest : Brings (s.skip (w₁ ++ (w₂ ++ w₃)).length) [] rest :=
      Brings.skip (by simpa using hbrings)
    exact ⟨_, hread, hrest, rfl, rfl, fun _ _ => ⟨rfl, Memory.load_store_self s.mem s.secbuf data⟩⟩
  | @broken _ check w₁ w₂ w₃ e hlen h₁ h₂ h₃ hcheck hbad =>
    have hbrings : Brings s (w₁ ++ (w₂ ++ (w₃ ++ []))) rest := by
      simpa [Brings] using hs
    have hread := zrdata_subpacket s.secbuf hf hlen h₁ h₂ h₃ hcheck hz hbrings
    rw [if_neg (Bool.eq_false_iff.1 hbad)] at hread
    have hrest : Brings (s.skip (w₁ ++ (w₂ ++ w₃)).length) [] rest :=
      Brings.skip (by simpa using hbrings)
    exact ⟨_, hread, hrest, rfl, rfl, fun e he => by cases he⟩
  | @cut _ w₁ hlen h₁ =>
    have hbrings : Brings { s with rxcount := 0 } (w₁ ++ []) (.timeout :: rest) := by
      simpa [Brings] using hs
    obtain ⟨m, hm⟩ := Nat.exists_eq_add_of_le hlen
    have hread := readData_codes (f := f) (s := { s with rxcount := 0 }) s.secbuf h₁ hz hbrings
      (m + 1) 0 f.start
    have hlast : ((({ s with rxcount := 0 } : State).stored (s.secbuf + 0) data).skip
        w₁.length).line.readings = .timeout :: rest :=
      Brings.skip (s := { s with rxcount := 0 }) hbrings
    refine ⟨_, ?_, readings_skip_one hlast, rfl, rfl, fun e he => by cases he⟩
    rw [zrdata_eq, hf, hm, Nat.add_assoc, hread, readData, bind_of_some (zdlread_timeout hlast)]
    exact loop_of_inr rfl

/-! ## Section 2: Headers -/

/-- What is read from a piece of the line where a header is expected: its type or another code,
the indicator of its frame, and its four bytes. -/
inductive HeaderPiece (z : Bool) (window : ℤ) : Code → Byte → Hdr → List Reading → Prop where
  | binary {tx : State} {type : Byte} {hdr : Hdr} {g w line : List Byte}
      (hnulls : type = zdata → tx.znulls = 0) (hesc : z = true → tx.zctlesc = true)
      (hg : ∀ c ∈ g, IsGarbage c) (hn : g.length < window)
      (hw : (zsbhdr type hdr tx).out = tx.out ++ w) (hline : Interspersed w (zpad :: line)) :
      HeaderPiece z window (.byte type) (indOf tx.txfcs32) hdr ((g ++ zpad :: line).map .byte)
  | hex {tx : State} {type : Byte} {hdr : Hdr} {g w : List Byte}
      (hg : ∀ c ∈ g, IsGarbage c) (hn : g.length < window)
      (hw : (zshhdr type hdr tx).out = tx.out ++ w) :
      HeaderPiece z window (.byte type) zhex hdr ((g ++ w.take 20).map .byte)
  /-- The check-sum does not fit. -/
  | broken {b : Bool} {type : Byte} {hdr : Hdr} {g u v w check : List Byte}
      (hg : ∀ c ∈ g, IsGarbage c) (hn : g.length < window) (hu : Interspersed [zdle] u)
      (hv : Interspersed [indOf b] v)
      (h : CodesOf (fun b => Word z (.byte b)) (type :: hdr.toList ++ check) w)
      (hcheck : check.length = (fcsOf b).checkLength)
      (hbad : (fcsOf b).good ((fcsOf b).over (fcsOf b).start
        (type :: hdr.toList ++ check)) = false) :
      HeaderPiece z window .error (indOf b) hdr ((g ++ zpad :: (u ++ (v ++ w))).map .byte)
  /-- Nothing comes any more. -/
  | silence {hdr : Hdr} {g : List Byte} (hg : ∀ c ∈ g, IsGarbage c) (hn : g.length < window) :
      HeaderPiece z window .timeout 0 hdr (g.map .byte ++ [.timeout])

theorem length_take_zshhdr {type : Byte} {hdr : Hdr} {tx : State} {w : List Byte}
    (hw : (zshhdr type hdr tx).out = tx.out ++ w) : (w.take 20).length = 20 := by
  obtain ⟨codes, xs, hcodes, hsends⟩ := sends_zshhdr type hdr tx
  obtain rfl := List.append_cancel_left (hw.symm.trans hsends.out)
  have hlen := length_codesOf_hex hcodes
  rw [List.length_append, List.length_cons, Vector.length_toList, lawful16.length_check] at hlen
  have hcheck : fcs16.checkLength = 2 := rfl
  simp [hlen, hcheck]
  omega

/-- **A piece is read**, and nothing behind it. -/
theorem zgethdr_piece {z : Bool} {window : ℤ} {c : Code} {ind : Byte} {hdr : Hdr}
    {rs rest : List Reading} {s : State} (h : HeaderPiece z window c ind hdr rs)
    (hz : s.zctlesc = z) (hwindow : s.zrwindow + s.baudrate = window)
    (hs : s.line.readings = rs ++ rest) :
    ∃ s', zgethdr s = (some c, s') ∧ s'.line.readings = rest ∧ s'.rxframeind = ind ∧
      ∀ t, c = .byte t → s'.rxhdr = hdr ∧ s'.zmodem = true := by
  subst hz hwindow
  cases h with
  | @binary tx type _ g w line hnulls hesc hg hn hw hline =>
    -- a binary header
    have hbrings : Brings s (g ++ zpad :: line ++ []) rest := by
      simpa [Brings] using hs
    have hread := zgethdr_zsbhdr hnulls hesc hg hn hw hline hbrings
    exact ⟨_, hread, hbrings.skip, rfl, fun _ _ => ⟨rfl, rfl⟩⟩
  | @hex tx type _ g w hg hn hw =>
    -- a header in hexadecimal digits
    have hbrings : Brings s (g ++ w.take 20 ++ []) rest := by
      simpa [Brings] using hs
    have hread := zgethdr_zshhdr hg hn hw hbrings
    have hskip := hbrings.skip
    rw [List.length_append, length_take_zshhdr hw] at hskip
    exact ⟨_, hread, hskip, rfl, fun _ _ => ⟨rfl, rfl⟩⟩
  | @broken b type _ g u v w check hg hn hu hv h hcheck hbad =>
    -- a header whose check-sum is wrong
    have hbrings : Brings s (g ++ zpad :: (u ++ (v ++ (w ++ [])))) rest := by
      simpa [Brings] using hs
    have hlen : (g ++ zpad :: (u ++ v)).length = g.length + (1 + u.length) + v.length := by
      simp
      omega
    have hlast : Brings (({ s with rxtype := 0 }.withFrame (indOf b)).skip
        (g.length + (1 + u.length) + v.length)) (w ++ []) rest := by
      have hskip : Brings (s.skip (g ++ zpad :: (u ++ v)).length) (w ++ []) rest :=
        Brings.skip (by simpa using hbrings)
      rwa [hlen] at hskip
    have hheader := @receiveHeader_codes _ _ (pure ()) _ _ _ _ _ [] rest
      (({ s with rxtype := 0 }.withFrame (indOf b)).skip (g.length + (1 + u.length) + v.length))
      (h.mono fun b w => readsAs_word) hcheck rfl hlast
    rw [hbad] at hheader
    have hreceive : (if b then zrbhdr32 else zrbhdr) =
        receiveHeader zdlread (fcsOf b) (pure ()) := by
      cases b <;> rfl
    have hread := zgethdr_of_header (k := 0) (c := .error) Code.noConfusion (by
      cases b
      · exact Or.inl ⟨rfl, rfl⟩
      · exact Or.inr (Or.inl ⟨rfl, rfl⟩)) hg hn hu hv hbrings
      ((congrFun hreceive _).trans (hheader.trans rfl))
    exact ⟨_, hread, hlast.skip, rfl, fun t ht => by cases ht⟩
  | @silence _ g hg hn =>
    -- garbage, and then nothing
    have hbrings : Brings { s with rxframeind := 0, rxtype := 0 } (g ++ []) (.timeout :: rest) := by
      simpa [Brings] using hs
    have hround : searchRound ⟨s.zrwindow + s.baudrate - g.length, 5⟩
        (State.skip g.length { s with rxframeind := 0, rxtype := 0 }) =
          (some (.inr .timeout), (State.skip g.length
            { s with rxframeind := 0, rxtype := 0 }).skip 1) := by
      unfold searchRound
      rw [bind_of_some (readline_timeout hbrings.skip)]
      rfl
    have hsearch := searchLoop_garbage hg hn hbrings
    rw [loop_of_inr hround] at hsearch
    refine ⟨_, (bind_of_some hsearch).trans rfl, readings_skip_one hbrings.skip, rfl,
      fun t ht => by cases ht⟩

end Karnix.Zmodem
