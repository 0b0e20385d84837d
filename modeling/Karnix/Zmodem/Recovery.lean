import Karnix.Zmodem.Pieces

/-!
# Recovery from errors

A sender goes on where it is asked to.  Headers and subpackets may get lost, come twice or come
with errors, and others may come out of order: if there are not more errors in a row than
`rzfile` counts, the file is stored.
-/

namespace Karnix.Zmodem

open Karnix.Library
open Karnix.Library.Program

/-! ## Section 1: The lines of a sender -/

/-- What the line brings while `file` is sent, and `tail` behind it.  There are `pos` bytes of it
stored, and `n` errors may come before the next one; `frame` is whether the check-sums in the
frame that has begun have 32 bits. -/
inductive Delivery (file : List Byte) (z : Bool) (window : ℤ) (tail : List Reading) :
    ℕ → ℕ → Option Bool → List Reading → Prop where
  /-- A frame begins at the position. -/
  | frame {n pos ind hdr rs rest} (h : HeaderPiece z window (.byte zdata) ind hdr rs)
      (hpos : rclhdr hdr = BitVec.ofNat 32 pos)
      (hrest : Delivery file z window tail n pos (some (ind = zbin32)) rest) :
      Delivery file z window tail n pos none (rs ++ rest)
  /-- The next bytes come, and the frame goes on, or not. -/
  | sector {n pos b e data rs rest} (h : DataPiece z (fcsOf b) (.got e) data rs)
      (hdata : data <+: file.drop pos)
      (hrest : Delivery file z window tail 20 (pos + data.length)
        (if e = .zcrcg ∨ e = .zcrcq then some b else none) rest) :
      Delivery file z window tail n pos (some b) (rs ++ rest)
  /-- The file ends where it has to. -/
  | finish {n ind hdr rs} (h : HeaderPiece z window (.byte zeof) ind hdr rs)
      (hpos : rclhdr hdr = BitVec.ofNat 32 file.length) :
      Delivery file z window tail n file.length none (rs ++ tail)
  /-- A subpacket comes with errors, or not to its end. -/
  | lost {n pos b c data rs rest} (h : DataPiece z (fcsOf b) c data rs)
      (hc : c = .error ∨ c = .timeout) (hrest : Delivery file z window tail n pos none rest) :
      Delivery file z window tail (n + 1) pos (some b) (rs ++ rest)
  /-- A header comes with errors. -/
  | garbled {n pos ind hdr rs rest} (h : HeaderPiece z window .error ind hdr rs)
      (hrest : Delivery file z window tail n pos none rest) :
      Delivery file z window tail (n + 1) pos none (rs ++ rest)
  /-- A frame comes for another position. -/
  | misplaced {n pos ind hdr rs rest} (h : HeaderPiece z window (.byte zdata) ind hdr rs)
      (hpos : rclhdr hdr ≠ BitVec.ofNat 32 pos)
      (hrest : Delivery file z window tail n pos none rest) :
      Delivery file z window tail (n + 1) pos none (rs ++ rest)
  /-- No header comes, or the sender has not understood; what comes next is not looked at. -/
  | skipped {n pos c c' ind hdr data rs rs' rest} (h : HeaderPiece z window c ind hdr rs)
      (hc : c = .timeout ∨ c = .byte znak)
      (h' : DataPiece z (fcsOf (ind = zbin32)) c' data rs')
      (hrest : Delivery file z window tail n pos none rest) :
      Delivery file z window tail (n + 1) pos none (rs ++ (rs' ++ rest))
  /-- The name of the file comes again. -/
  | again {n pos c' ind hdr data rs rs' rest} (h : HeaderPiece z window (.byte zfile) ind hdr rs)
      (h' : DataPiece z (fcsOf (ind = zbin32)) c' data rs')
      (hrest : Delivery file z window tail n pos none rest) :
      Delivery file z window tail n pos none (rs ++ (rs' ++ rest))
  /-- An end of the file comes for another position. -/
  | early {n pos ind hdr rs rest} (h : HeaderPiece z window (.byte zeof) ind hdr rs)
      (hpos : rclhdr hdr ≠ BitVec.ofNat 32 pos)
      (hrest : Delivery file z window tail n pos none rest) :
      Delivery file z window tail n pos none (rs ++ rest)

/-! ## Section 2: Steps -/

/-- The file is stored up to a position, from where `rzfile` began to ask for it. -/
structure Holding (file : List Byte) (start : ℕ) (s₀ : State) (pos : ℕ) (frame : Option Bool)
    (rs : List Reading) (s : State) : Prop where
  stored : Stored ((file.take pos).drop start) s₀ s
  start_le : start ≤ pos
  le : pos ≤ file.length
  frame : ∀ b, frame = some b → decide (s.rxframeind = zbin32) = b
  readings : s.line.readings = rs

section Steps

variable {file : List Byte} {start : ℕ} {s₀ s s' : State} {n pos : ℕ} {frame : Option Bool}
  {rs rest : List Reading}

theorem Holding.zctlesc (h : Holding file start s₀ pos frame rs s) : s.zctlesc = s₀.zctlesc := by
  rw [h.stored.eq]

theorem Holding.window (h : Holding file start s₀ pos frame rs s) :
    s.zrwindow + s.baudrate = s₀.zrwindow + s₀.baudrate := by
  rw [h.stored.eq]

/-- The position that is asked for. -/
theorem Holding.bytes (h : Holding file start s₀ pos frame rs s)
    (hstart : s₀.zModemRxBytes = BitVec.ofNat 32 start) :
    s.zModemRxBytes = BitVec.ofNat 32 pos := by
  have hlen : ((file.take pos).drop start).length = pos - start := by
    rw [List.length_drop, List.length_take_of_le h.le]
  rw [h.stored.eq, hstart]
  show BitVec.ofNat 32 start + BitVec.ofNat 32 ((file.take pos).drop start).length = _
  rw [hlen, ← BitVec.ofNat_add, Nat.add_sub_cancel' h.start_le]

theorem Holding.idle (h : Holding file start s₀ pos frame rs s) (hs₀ : Ready s₀) (hidle : Idle s s')
    {frame' : Option Bool} (hframe : ∀ b, frame' = some b → decide (s'.rxframeind = zbin32) = b)
    (hreadings : s'.line.readings = rest) : Holding file start s₀ pos frame' rest s' :=
  ⟨h.stored.idle hidle hs₀, h.start_le, h.le, hframe, hreadings⟩

/-- After something else than the beginning of a frame. -/
theorem Holding.outside (h : Holding file start s₀ pos frame rs s) (hs₀ : Ready s₀)
    (hidle : Idle s s') (hreadings : s'.line.readings = rest) :
    Holding file start s₀ pos none rest s' :=
  h.idle hs₀ hidle (fun b hb => by cases hb) hreadings

/-- A header has come, and what has been delivered is still the beginning of the file. -/
theorem Holding.header (h : Holding file start s₀ pos frame (rs ++ rest) s) (hs₀ : Ready s₀)
    {c : Code} {ind : Byte} {hdr : Hdr}
    (hpiece : HeaderPiece s₀.zctlesc (s₀.zrwindow + s₀.baudrate) c ind hdr rs) :
    ∃ s₁, headerRound n s = headerSwitch n c s₁ ∧
      Holding file start s₀ pos (some (ind = zbin32)) rest s₁ ∧
        ∀ t, c = .byte t → s₁.rxhdr = hdr := by
  obtain ⟨s₁, hread, hrest, hind, hhdr⟩ := zgethdr_piece hpiece h.zctlesc h.window h.readings
  refine ⟨s₁, bind_of_some hread, h.idle hs₀ (keeps_zgethdr.of_eq hread) ?_ hrest,
    fun t ht => (hhdr t ht).1⟩
  intro b hb
  rw [hind]
  exact Option.some.inj hb

/-- What `continue` leads to: nothing is stored, and the sender hears where to go on. -/
theorem Holding.silent (h : Holding file start s₀ pos frame rs s) (hs₀ : Ready s₀)
    {g : State → State} (hg : Silent g) : Holding file start s₀ pos none rs (g s) :=
  h.outside hs₀ (hg.idle s) ((congrArg Line.readings (hg.line s)).trans h.readings)

/-- Data has been skipped, and nothing is stored of it. -/
theorem Holding.skip {b : Bool} (h : Holding file start s₀ pos (some b) (rs ++ rest) s)
    (hs₀ : Ready s₀) {c : Code} {data : List Byte}
    (hpiece : DataPiece s₀.zctlesc (fcsOf b) c data rs) :
    ∃ s₁, skipData n s = (some (.inl ⟨n, false⟩), s₁) ∧ Holding file start s₀ pos none rest s₁ := by
  obtain ⟨s₁, hread, hrest, -, -, -⟩ := zrdata_piece hpiece h.zctlesc
    (congrArg fcsOf (h.frame b rfl)) h.readings
  have hskip := h.outside hs₀ (idle_of_zrdata hread) hrest
  exact ⟨_, bind_of_some hread, hskip.silent hs₀ (silent_sendPosition zrpos)⟩

/-- **A subpacket has come,** and is stored behind what has been delivered. -/
theorem Holding.data {b : Bool} (h : Holding file start s₀ pos (some b) (rs ++ rest) s)
    (hs₀ : Ready s₀) {e : FrameEnd} {data : List Byte}
    (hpiece : DataPiece s₀.zctlesc (fcsOf b) (.got e) data rs) (hdata : data <+: file.drop pos) :
    ∃ s₁, dataRound n s = (some (.inl ⟨20, e = .zcrcg ∨ e = .zcrcq⟩), s₁) ∧
      Holding file start s₀ (pos + data.length)
        (if e = .zcrcg ∨ e = .zcrcq then some b else none) rest s₁ := by
  obtain ⟨s₁, hread, hrest, hframe, -, hgot⟩ := zrdata_piece hpiece h.zctlesc
    (congrArg fcsOf (h.frame b rfl)) h.readings
  obtain ⟨hcount, hload⟩ := hgot e rfl
  have hstep := stored_storeSector (h.stored.ready hs₀) hread
  rw [hcount, hload] at hstep
  have hlen := hdata.length_le
  rw [List.length_drop] at hlen
  have hle := h.le
  -- the beginning of the file is longer now
  have htake : (file.take pos).drop start ++ data = (file.take (pos + data.length)).drop start := by
    have hpos : start ≤ (file.take pos).length := by
      rw [List.length_take_of_le hle]
      exact h.start_le
    rw [List.take_add, ← List.prefix_iff_eq_take.1 hdata, List.drop_append_of_le_length hpos]
  have hstored := h.stored.trans hstep hs₀
  rw [htake] at hstored
  have hind : decide ((storeSector s₁).rxframeind = zbin32) = b := by
    rw [(storeSector_frame s₁).2, hframe]
    exact h.frame b rfl
  have hline : (storeSector s₁).line.readings = rest := by
    rw [(storeSector_frame s₁).1, hrest]
  have hround : dataRound n s = takeSector e s₁ := bind_of_some hread
  have hnext : Holding file start s₀ (pos + data.length) (some b) rest (storeSector s₁) :=
    ⟨hstored, h.start_le.trans (Nat.le_add_right pos _), by omega,
      fun b' hb' => hind.trans (Option.some.inj hb'), hline⟩
  rw [hround]
  have hack := silent_sendPosition zack
  cases e with
  | zcrce => exact ⟨storeSector s₁, rfl, hnext.outside hs₀ (refl_of Idle _) hline⟩
  | zcrcg => exact ⟨storeSector s₁, rfl, hnext⟩
  | zcrcq =>
    refine ⟨sendPosition zack (storeSector s₁), rfl,
      hnext.idle hs₀ (hack.idle _) (fun b' hb' => ?_) ?_⟩
    · rw [hack.frame]
      exact hnext.frame b' hb'
    · rw [hack.line]
      exact hline
  | zcrcw =>
    have hlast := hnext.silent (g := fun s => sendline xon (sendPosition zack s)) hs₀
      ((silent_sendline xon).comp hack)
    exact ⟨_, rfl, hlast⟩

/-- `complain`, which goes on with a header. -/
theorem Holding.complain {frame : Option Bool} (h : Holding file start s₀ pos frame rs s)
    (hs₀ : Ready s₀) :
    ∃ s₁, complain n s = (some (.inl ⟨n, false⟩), s₁) ∧ Holding file start s₀ pos none rs s₁ :=
  ⟨_, rfl, (h.silent hs₀ silent_sendAttn).silent hs₀ (silent_sendPosition zrpos)⟩

/-- A subpacket that is not right. -/
theorem Holding.lost {b : Bool} (h : Holding file start s₀ pos (some b) (rs ++ rest) s)
    (hs₀ : Ready s₀) {c : Code} {data : List Byte}
    (hpiece : DataPiece s₀.zctlesc (fcsOf b) c data rs) (hc : c = .error ∨ c = .timeout) :
    ∃ s₁, dataRound (n + 1) s = (some (.inl ⟨n, false⟩), s₁) ∧
      Holding file start s₀ pos none rest s₁ := by
  obtain ⟨s₁, hread, hrest, -, -, -⟩ := zrdata_piece hpiece h.zctlesc
    (congrArg fcsOf (h.frame b rfl)) h.readings
  have hround : dataRound (n + 1) s = dataSwitch (n + 1) c s₁ := bind_of_some hread
  have hskip := h.outside hs₀ (idle_of_zrdata hread) hrest
  rw [hround]
  rcases hc with rfl | rfl
  · exact hskip.complain hs₀
  · exact ⟨_, rfl, hskip.silent hs₀ (silent_sendPosition zrpos)⟩

end Steps

/-! ## Section 3: Runs -/

theorem headerSwitch_zdata {n : ℕ} {s : State} :
    headerSwitch n (.byte zdata) s =
      if rclhdr s.rxhdr ≠ s.zModemRxBytes then retry n complain s
      else (some (.inl ⟨n, true⟩), s) := by
  show (if rclhdr s.rxhdr ≠ s.zModemRxBytes then retry n complain
    else pure _ : ZmodemM (Progress ⊕ Code)) s = _
  split_ifs <;> rfl

theorem headerSwitch_zeof {n : ℕ} {s : State} :
    headerSwitch n (.byte zeof) s =
      if rclhdr s.rxhdr ≠ s.zModemRxBytes then
        (some (.inl ⟨n, false⟩), { s with errors := 0 })
      else (some (.inr (.byte zeof)), s) := by
  show (if rclhdr s.rxhdr ≠ s.zModemRxBytes then _
    else pure _ : ZmodemM (Progress ⊕ Code)) s = _
  split_ifs <;> rfl

/-- **Run lemma.** From any point of a transfer on. -/
theorem Holding.delivers {file : List Byte} {start : ℕ} {s₀ s : State} {n pos : ℕ}
    {frame : Option Bool} {rs tail : List Reading} (hs₀ : Ready s₀)
    (hstart : s₀.zModemRxBytes = BitVec.ofNat 32 start)
    (hrs : Delivery file s₀.zctlesc (s₀.zrwindow + s₀.baudrate) tail n pos frame rs)
    (h : Holding file start s₀ pos frame rs s) :
    ∃ s', loop left rzfileRound ⟨n, frame.isSome⟩ s = (some (.byte zeof), s') ∧
      Holding file start s₀ file.length none tail s' := by
  have hloop : ∀ {a a' : Progress} {s s₁ : State} {s' : State},
      rzfileRound a s = (some (.inl a'), s₁) →
        loop left rzfileRound a' s₁ = (some (.byte zeof), s') →
          loop left rzfileRound a s = (some (.byte zeof), s') :=
    fun hround hrest => (loop_of_inl descends_rzfileRound hround).trans hrest
  -- on what the line brings
  induction hrs generalizing s with
  | @frame n pos ind hdr rs rest hpiece hpos _ ih =>
    obtain ⟨s₁, hround, hnext, hhdr⟩ := h.header (n := n) hs₀ hpiece
    have hsame : ¬ rclhdr s₁.rxhdr ≠ s₁.zModemRxBytes := by
      rw [hhdr _ rfl, hnext.bytes hstart, hpos]
      exact fun h => h rfl
    -- the frame is for the position that has been asked for
    rw [headerSwitch_zdata, if_neg hsame] at hround
    obtain ⟨s', hrun, hlast⟩ := ih hnext
    exact ⟨s', hloop hround hrun, hlast⟩
  | @sector n pos b e data rs rest hpiece hdata _ ih =>
    obtain ⟨s₁, hround, hnext⟩ := h.data (n := n) hs₀ hpiece hdata
    obtain ⟨s', hrun, hlast⟩ := ih hnext
    refine ⟨s', hloop hround ?_, hlast⟩
    rw [← hrun]
    -- the end of the subpacket says whether the frame goes on
    by_cases he : e = .zcrcg ∨ e = .zcrcq
    · rw [if_pos he, decide_eq_true he]
      rfl
    · rw [if_neg he, decide_eq_false he]
      rfl
  | @finish n ind hdr rs hpiece hpos =>
    obtain ⟨s₁, hround, hnext, hhdr⟩ := h.header (n := n) hs₀ hpiece
    have hsame : ¬ rclhdr s₁.rxhdr ≠ s₁.zModemRxBytes := by
      rw [hhdr _ rfl, hnext.bytes hstart, hpos]
      exact fun h => h rfl
    rw [headerSwitch_zeof, if_neg hsame] at hround
    exact ⟨s₁, loop_of_inr hround, hnext.outside hs₀ (refl_of Idle s₁) hnext.readings⟩
  | @lost n pos b c data rs rest hpiece hc _ ih =>
    obtain ⟨s₁, hround, hnext⟩ := h.lost (n := n) hs₀ hpiece hc
    obtain ⟨s', hrun, hlast⟩ := ih hnext
    exact ⟨s', hloop hround hrun, hlast⟩
  | @garbled n pos ind hdr rs rest hpiece _ ih =>
    obtain ⟨s₁, hround, hnext, -⟩ := h.header (n := n + 1) hs₀ hpiece
    -- the sender is asked to go on from the position again
    obtain ⟨s₂, hcomplain, hnext⟩ := hnext.complain (n := n) hs₀
    obtain ⟨s', hrun, hlast⟩ := ih hnext
    exact ⟨s', hloop (hround.trans hcomplain) hrun, hlast⟩
  | @misplaced n pos ind hdr rs rest hpiece hpos _ ih =>
    obtain ⟨s₁, hround, hnext, hhdr⟩ := h.header (n := n + 1) hs₀ hpiece
    have hother : rclhdr s₁.rxhdr ≠ s₁.zModemRxBytes := by
      rwa [hhdr _ rfl, hnext.bytes hstart]
    rw [headerSwitch_zdata, if_pos hother] at hround
    obtain ⟨s₂, hcomplain, hnext⟩ := hnext.complain (n := n) hs₀
    obtain ⟨s', hrun, hlast⟩ := ih hnext
    exact ⟨s', hloop (hround.trans hcomplain) hrun, hlast⟩
  | @skipped n pos c c' ind hdr data rs rs' rest hpiece hc hdata _ ih =>
    obtain ⟨s₁, hround, hnext, -⟩ := h.header (n := n + 1) hs₀ hpiece
    -- the subpacket behind it is read, and nothing is done with it
    obtain ⟨s₂, hskip, hnext⟩ := hnext.skip (n := n) hs₀ hdata
    obtain ⟨s', hrun, hlast⟩ := ih hnext
    have hswitch : headerSwitch (n + 1) c s₁ = skipData n s₁ := by
      rcases hc with rfl | rfl <;> rfl
    exact ⟨s', hloop (hround.trans (hswitch.trans hskip)) hrun, hlast⟩
  | @again n pos c' ind hdr data rs rs' rest hpiece hdata _ ih =>
    obtain ⟨s₁, hround, hnext, -⟩ := h.header (n := n) hs₀ hpiece
    obtain ⟨s₂, hskip, hnext⟩ := hnext.skip (n := n) hs₀ hdata
    obtain ⟨s', hrun, hlast⟩ := ih hnext
    exact ⟨s', hloop (hround.trans hskip) hrun, hlast⟩
  | @early n pos ind hdr rs rest hpiece hpos _ ih =>
    obtain ⟨s₁, hround, hnext, hhdr⟩ := h.header (n := n) hs₀ hpiece
    have hother : rclhdr s₁.rxhdr ≠ s₁.zModemRxBytes := by
      rwa [hhdr _ rfl, hnext.bytes hstart]
    rw [headerSwitch_zeof, if_pos hother] at hround
    -- the end is ignored, as there is more to come
    obtain ⟨s', hrun, hlast⟩ := ih (hnext.silent hs₀ silent_clearErrors)
    exact ⟨s', hloop hround hrun, hlast⟩

/-- **The file is stored** from the position on that is asked for first, whatever has to come
twice. -/
theorem rzfile_delivers {file : List Byte} {start : ℕ} {s : State} {tail : List Reading}
    (hs : Ready s) (hstart : s.zModemRxBytes = BitVec.ofNat 32 start)
    (hlen : start ≤ file.length)
    (h : Delivery file s.zctlesc (s.zrwindow + s.baudrate) tail 20 start none s.line.readings) :
    ∃ s', loop left rzfileRound ⟨20, false⟩ s = (some (.byte zeof), s') ∧
      Stored (file.drop start) s s' ∧ s'.line.readings = tail := by
  have hnil : (file.take start).drop start = [] := by
    rw [List.drop_eq_nil_iff, List.length_take_of_le hlen]
  have hbegin : Holding file start s start none s.line.readings s := by
    refine ⟨?_, le_refl start, hlen, (fun b hb => by cases hb), rfl⟩
    rw [hnil]
    exact (refl_of Idle s).stored
  obtain ⟨s', hrun, hlast⟩ := hbegin.delivers hs hstart h
  have hstored := hlast.stored
  rw [List.take_length] at hstored
  exact ⟨s', hrun, hstored, hlast.readings⟩

/-- The bytes that end up at 0x1000 come after a silence. -/
def silentStart : State :=
  { State.initial with
    line := ⟨[], [[], [0x12, 0x34], [],
      [0x2a, 0x2a, 0x18, 0x42, 0x30, 0x61, 0x30, 0x30, 0x30, 0x30, 0x30, 0x30, 0x30, 0x30, 0x34,
        0x36, 0x61, 0x65, 0x0d, 0x8a],
      [0x41, 0x18, 0x68, 0xd3, 0x53],
      [0x2a, 0x2a, 0x18, 0x42, 0x30, 0x62, 0x30, 0x31, 0x30, 0x30, 0x30, 0x30, 0x30, 0x30, 0x39,
        0x61, 0x34, 0x62, 0x0d, 0x8a]]⟩
    secbuf := 0x100
    zModemWriteAddress := 0x1000
    thisbinary := true }

theorem rzfile_delivers_silentStart :
    ∃ s', loop left rzfileRound ⟨20, false⟩ silentStart = (some (.byte zeof), s') ∧
      Stored ([0x41].drop 0) silentStart s' ∧ s'.line.readings = [] := by
  have hsilence : HeaderPiece false 116600 .timeout 0 #v[0, 0, 0, 0]
      (([] : List Byte).map .byte ++ [.timeout]) := .silence (by simp) (by decide)
  have hcut : DataPiece false fcs16 .timeout [0x12, 0x34]
      (([0x12] ++ [0x34] : List Byte).map .byte ++ [.timeout]) :=
    .cut (by decide) ((codesOf_plain 0x12 (by decide)).append (codesOf_plain 0x34 (by decide)))
  have hdata : HeaderPiece false 116600 (.byte zdata) zhex #v[0, 0, 0, 0]
      (([] ++ [0x2a, 0x2a, 0x18, 0x42, 0x30, 0x61, 0x30, 0x30, 0x30, 0x30, 0x30, 0x30, 0x30, 0x30,
        0x34, 0x36, 0x61, 0x65, 0x0d, 0x8a, 0x11].take 20 : List Byte).map .byte) :=
    @HeaderPiece.hex _ _ State.initial _ _ [] _ (by simp) (by decide) (by decide +kernel)
  have hsector : DataPiece false fcs16 (.got .zcrce) [0x41]
      (([0x41] ++ ([0x18, 0x68] ++ ([0xd3] ++ [0x53])) : List Byte).map .byte) :=
    @DataPiece.good _ fcs16 [0x41] [0xd3, 0x53] _ _ _ .zcrce (by decide)
      (codesOf_plain 0x41 (by decide))
      (word_frameEnd false .zcrce)
      ((codesOf_plain 0xd3 (by decide)).append (codesOf_plain 0x53 (by decide))) rfl
      (by decide +kernel)
  have heof : HeaderPiece false 116600 (.byte zeof) zhex #v[1, 0, 0, 0]
      (([] ++ [0x2a, 0x2a, 0x18, 0x42, 0x30, 0x62, 0x30, 0x31, 0x30, 0x30, 0x30, 0x30, 0x30, 0x30,
        0x39, 0x61, 0x34, 0x62, 0x0d, 0x8a, 0x11].take 20 : List Byte).map .byte) :=
    @HeaderPiece.hex _ _ State.initial _ _ [] _ (by simp) (by decide) (by decide +kernel)
  have hline : Delivery [0x41] false 116600 [] 20 0 none _ :=
    .skipped hsilence (Or.inl rfl) hcut (.frame hdata (by decide) (.sector hsector (by decide)
      (.finish heof (by decide))))
  exact rzfile_delivers ⟨rfl, by decide, by decide⟩ rfl (by decide) hline

end Karnix.Zmodem
