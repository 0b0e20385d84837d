import Karnix.Zmodem.Receive
import Karnix.Zmodem.Subpackets

/-!
# Transfers

The loop of `rzfile` over every line, and over the lines of a sender that answers what it is
asked, where headers and subpackets get lost, come twice, or come with errors.
-/

namespace Karnix.Zmodem

open Karnix.Library
open Karnix.Library.Program

/-! ## Section 1: What is not stored -/

/-- The file stays as it is: what changes is on the line, in the variables of headers, and in
the buffer. -/
structure Idle (s s' : State) : Prop where
  eq : s' = { s with
    line := s'.line
    out := s'.out
    lastsent := s'.lastsent
    crc32t := s'.crc32t
    rxframeind := s'.rxframeind
    rxtype := s'.rxtype
    rxcount := s'.rxcount
    rxhdr := s'.rxhdr
    txhdr := s'.txhdr
    zmodem := s'.zmodem
    errors := s'.errors
    mem := s'.mem }
  mem : ∀ k, k < s.secbuf ∨ s.secbuf + ksize + 1 ≤ k → s'.mem k = s.mem k
  line : ∃ n, s'.line = Line.next^[n] s.line

theorem Idle.secbuf {s s' : State} (h : Idle s s') : s'.secbuf = s.secbuf := by rw [h.eq]

theorem left_of_line {s s' : State} {n : ℕ} (h : s'.line = Line.next^[n] s.line) :
    left s' = left s - n := by
  rw [← left_skip]
  exact congrArg (fun l : Line => l.readings.length) h

theorem Idle.left {s s' : State} (h : Idle s s') : left s' ≤ left s := by
  obtain ⟨n, hline⟩ := h.line
  rw [left_of_line hline]
  exact Nat.sub_le _ _

theorem exists_line_trans {l l₁ l₂ : Line} (h : ∃ n, l₁ = Line.next^[n] l)
    (h₁ : ∃ n, l₂ = Line.next^[n] l₁) : ∃ n, l₂ = Line.next^[n] l := by
  obtain ⟨n, rfl⟩ := h
  obtain ⟨m, rfl⟩ := h₁
  exact ⟨m + n, (Function.iterate_add_apply _ _ _ _).symm⟩

instance isPreorder_idle : IsPreorder State Idle where
  refl s := ⟨rfl, fun _ _ => rfl, 0, rfl⟩
  trans s s₁ s₂ h h₁ := by
    refine ⟨?_, fun k hk => ?_, exists_line_trans h.line h₁.line⟩
    · rw [h₁.eq, h.eq]
    · rw [h₁.mem k (h.secbuf.symm ▸ hk), h.mem k hk]

theorem idle_of_stores {s s' : State} (h : Stores s.secbuf (s.secbuf + ksize + 1) s s') :
    Idle s s' := by
  obtain ⟨n, h, hmem⟩ := h
  refine ⟨?_, hmem, n, ?_⟩ <;> rw [h] <;> rfl

instance reads_idle : Reads Idle where
  le s s' h := idle_of_stores (Reads.le s s' h)

/-- What is sent leaves the line and the file. -/
structure Silent (g : State → State) : Prop where
  idle : ∀ s, Idle s (g s)
  line : ∀ s, (g s).line = s.line
  frame : ∀ s, (g s).rxframeind = s.rxframeind

theorem Sends.idle {w : List Byte} {s s' : State} (h : Sends w s s') : Idle s s' := by
  refine ⟨?_, fun k _ => ?_, 0, ?_⟩ <;> rw [h]
  rfl

theorem Sends.line {w : List Byte} {s s' : State} (h : Sends w s s') : s'.line = s.line := by
  rw [h]

theorem Sends.frame {w : List Byte} {s s' : State} (h : Sends w s s') :
    s'.rxframeind = s.rxframeind := by
  rw [h]

theorem Silent.comp {f g : State → State} (hf : Silent f) (hg : Silent g) :
    Silent fun s => f (g s) where
  idle s := trans_of Idle (hg.idle s) (hf.idle (g s))
  line s := (hf.line (g s)).trans (hg.line s)
  frame s := (hf.frame (g s)).trans (hg.frame s)

theorem silent_stohdr (pos : BitVec 32) : Silent (stohdr pos) :=
  ⟨fun _ => ⟨rfl, fun _ _ => rfl, 0, rfl⟩, fun _ => rfl, fun _ => rfl⟩

theorem silent_sendHex (type : Byte) : Silent (sendHex type) where
  idle s := by
    obtain ⟨w, xs, -, h⟩ := sends_zshhdr type s.txhdr s
    exact h.idle
  line s := by
    obtain ⟨w, xs, -, h⟩ := sends_zshhdr type s.txhdr s
    exact h.line
  frame s := by
    obtain ⟨w, xs, -, h⟩ := sends_zshhdr type s.txhdr s
    exact h.frame

theorem silent_sendPosition (type : Byte) : Silent (sendPosition type) where
  idle s := trans_of Idle ((silent_stohdr s.zModemRxBytes).idle s) ((silent_sendHex type).idle _)
  line _ := ((silent_sendHex type).line _).trans rfl
  frame _ := ((silent_sendHex type).frame _).trans rfl

theorem silent_sendAttn : Silent sendAttn :=
  ⟨fun _ => ⟨rfl, fun _ _ => rfl, 0, rfl⟩, fun _ => rfl, fun _ => rfl⟩

theorem silent_sendline (c : Byte) : Silent (sendline c) :=
  ⟨fun s => (sends_sendline c s).idle, fun _ => rfl, fun _ => rfl⟩

theorem silent_clearErrors : Silent fun s => { s with errors := 0 } :=
  ⟨fun _ => ⟨rfl, fun _ _ => rfl, 0, rfl⟩, fun _ => rfl, fun _ => rfl⟩

theorem Silent.keeps {g : State → State} (h : Silent g) : Keeps Idle (modify g : ZmodemM Unit) :=
  keeps_modify h.idle

theorem keeps_zrdata_secbuf : Keeps Idle (read id >>= fun s => zrdata s.secbuf ksize) where
  run s := idle_of_stores ((keeps_zrdata s.secbuf ksize).run s)

/-- What reading a subpacket does. -/
theorem idle_of_zrdata {s s' : State} {v : Option Code}
    (h : zrdata s.secbuf ksize s = (v, s')) : Idle s s' :=
  idle_of_stores ((keeps_zrdata s.secbuf ksize).of_eq h)

section Rounds

instance keeps_askAgain (n : ℕ) : Keeps Idle (askAgain n) := by
  have hask := (silent_sendPosition zrpos).keeps
  unfold askAgain
  infer_instance

instance keeps_complain (n : ℕ) : Keeps Idle (complain n) := by
  have hattn := silent_sendAttn.keeps
  unfold complain
  infer_instance

instance keeps_skipData (n : ℕ) : Keeps Idle (skipData n) where
  run s := ((@keeps_bind _ _ _ _ _ _ _ keeps_zrdata_secbuf
    fun _ => keeps_askAgain n).run s)

instance keeps_retry (n : ℕ) (next : ℕ → ZmodemM (Progress ⊕ Code)) [∀ n, Keeps Idle (next n)] :
    Keeps Idle (retry n next) := by
  unfold retry
  infer_instance

instance keeps_headerSwitch (n : ℕ) (c : Code) : Keeps Idle (headerSwitch n c) := by
  have hclear := silent_clearErrors.keeps
  unfold headerSwitch
  refine @keeps_bind _ _ _ _ _ _ _ _ fun s => ?_
  cases c <;> infer_instance

/-- **Headers store nothing,** whatever their type is. -/
instance keeps_headerRound (n : ℕ) : Keeps Idle (headerRound n) := by
  unfold headerRound
  infer_instance

end Rounds

/-! ## Section 2: Every line -/

/-- Where the next byte of the file goes. -/
def fileEnd (s : State) : ℕ := (s.zModemWriteAddress + s.zModemRxOffset).toNat

/-- The bytes `d` go to the end of the file, and are counted; the line has brought as many. -/
structure Stored (d : List Byte) (s s' : State) : Prop where
  eq : s' = { s with
    line := s'.line
    out := s'.out
    lastsent := s'.lastsent
    crc32t := s'.crc32t
    rxframeind := s'.rxframeind
    rxtype := s'.rxtype
    rxcount := s'.rxcount
    rxhdr := s'.rxhdr
    txhdr := s'.txhdr
    zmodem := s'.zmodem
    errors := s'.errors
    zModemRxOffset := s.zModemRxOffset + BitVec.ofNat 32 d.length
    zModemRxBytes := s.zModemRxBytes + BitVec.ofNat 32 d.length
    mem := s'.mem }
  mem : ∀ k, k < s.secbuf ∨ s.secbuf + ksize + 1 ≤ k →
    s'.mem k = s.mem.store (fileEnd s) d k
  line : ∃ n, s'.line = Line.next^[n] s.line
  left : left s' + d.length ≤ left s

theorem Stored.secbuf {d : List Byte} {s s' : State} (h : Stored d s s') :
    s'.secbuf = s.secbuf := by rw [h.eq]

/-- A file is received as it is, the memory does not end before the line does, and `linbuf` holds
what is read. -/
structure Ready (s : State) : Prop where
  binary : s.thisbinary = true
  room : fileEnd s + left s < 2 ^ 32
  fits : s.line.Fits

theorem Idle.stored {s s' : State} (h : Idle s s') : Stored [] s s' where
  eq := by
    have hoffset := BitVec.add_zero s.zModemRxOffset
    have hbytes := BitVec.add_zero s.zModemRxBytes
    rw [List.length_nil, hoffset, hbytes]
    exact h.eq
  mem k hk := by
    rw [Memory.store_nil]
    exact h.mem k hk
  line := h.line
  left := h.left

theorem Stored.fileEnd_eq {d : List Byte} {s s' : State} (h : Stored d s s') (hs : Ready s) :
    fileEnd s' = fileEnd s + d.length := by
  have hlt : fileEnd s + d.length < 2 ^ 32 := by
    have hroom := hs.room
    have hleft := h.left
    omega
  unfold fileEnd at hlt ⊢
  rw [h.eq]
  show (s.zModemWriteAddress + (s.zModemRxOffset + BitVec.ofNat 32 d.length)).toNat = _
  rw [← BitVec.add_assoc, BitVec.toNat_add, BitVec.toNat_ofNat, Nat.add_mod_mod,
    Nat.mod_eq_of_lt hlt]

theorem Stored.ready {d : List Byte} {s s' : State} (h : Stored d s s') (hs : Ready s) :
    Ready s' where
  binary := by
    rw [h.eq]
    exact hs.binary
  room := by
    have hroom := hs.room
    have hleft := h.left
    rw [h.fileEnd_eq hs]
    omega
  fits := by
    obtain ⟨n, hline⟩ := h.line
    rw [hline]
    exact hs.fits.iterate n

theorem Stored.trans {d d' : List Byte} {s s₁ s₂ : State} (h : Stored d s s₁)
    (h' : Stored d' s₁ s₂) (hs : Ready s) : Stored (d ++ d') s s₂ where
  eq := by
    have hoffset := BitVec.add_assoc s.zModemRxOffset (BitVec.ofNat 32 d.length)
      (BitVec.ofNat 32 d'.length)
    have hbytes := BitVec.add_assoc s.zModemRxBytes (BitVec.ofNat 32 d.length)
      (BitVec.ofNat 32 d'.length)
    rw [List.length_append, BitVec.ofNat_add, ← hoffset, ← hbytes, h'.eq, h.eq]
  mem k hk := by
    rw [h'.mem k (h.secbuf.symm ▸ hk), h.fileEnd_eq hs, Memory.store_append]
    unfold Memory.store
    rw [h.mem k hk]
    rfl
  line := exists_line_trans h.line h'.line
  left := by
    have hleft := h.left
    have hleft' := h'.left
    rw [List.length_append]
    omega

theorem Stored.idle {d : List Byte} {s s₁ s₂ : State} (h : Stored d s s₁) (h' : Idle s₁ s₂)
    (hs : Ready s) : Stored d s s₂ := by
  have htrans := h.trans h'.stored hs
  rwa [List.append_nil] at htrans

/-- **Step lemma.** A subpacket goes to the end of the file. -/
theorem stored_storeSector {s s' : State} {e : FrameEnd} (hs : Ready s)
    (h : zrdata s.secbuf ksize s = (some (.got e), s')) :
    Stored (s'.mem.load s.secbuf s'.rxcount) s (storeSector s') := by
  have hidle := idle_of_zrdata h
  obtain ⟨-, hleft⟩ := zrdata_got h
  have hbinary := (hidle.stored.ready hs).binary
  have hend := hidle.stored.fileEnd_eq hs
  have hput : putsec s'.secbuf s'.rxcount s' = putBytes s'.secbuf s'.rxcount s' :=
    if_pos hbinary
  have hline : (storeSector s').line = s'.line := by
    unfold storeSector
    rw [hput]
    rfl
  have hsame : left (storeSector s') = left s' := congrArg (fun l : Line => l.readings.length) hline
  refine ⟨?_, fun k hk => ?_, hline ▸ hidle.line, ?_⟩
  · unfold storeSector
    rw [Memory.length_load, hput, hidle.eq]
    rfl
  · have hkeep := hidle.mem k hk
    unfold storeSector
    rw [hput]
    show s'.mem.store (fileEnd s') (s'.mem.load s'.secbuf s'.rxcount) k = _
    rw [hend, hidle.secbuf]
    unfold Memory.store
    rw [hkeep]
    rfl
  · rw [Memory.length_load, hsame]
    omega

/-- What a run does from a state that is ready. -/
def Appends (s s' : State) : Prop := Ready s → ∃ d, Stored d s s'

instance isPreorder_appends : IsPreorder State Appends where
  refl s _ := ⟨[], (refl_of Idle s).stored⟩
  trans s s₁ s₂ h h₁ hs := by
    obtain ⟨d, hd⟩ := h hs
    obtain ⟨d', hd'⟩ := h₁ (hd.ready hs)
    exact ⟨d ++ d', hd.trans hd' hs⟩

theorem Idle.appends {s s' : State} (h : Idle s s') : Appends s s' := fun _ => ⟨[], h.stored⟩

theorem keeps_appends {α : Type} {p : ZmodemM α} (h : Keeps Idle p) : Keeps Appends p :=
  h.mono fun _ _ h => h.appends

/-- What comes behind a subpacket that has been stored. -/
theorem idle_takeSector (e : FrameEnd) (s : State) : Idle (storeSector s) (takeSector e s).2 := by
  have hack := silent_sendPosition zack
  cases e with
  | zcrcw => exact ((silent_sendline xon).comp hack).idle _
  | zcrcq => exact hack.idle _
  | zcrcg => exact refl_of Idle _
  | zcrce => exact refl_of Idle _

/-- What comes behind anything else. -/
theorem keeps_dataSwitch (n : ℕ) {c : Code} (hc : ∀ e, c ≠ .got e) :
    Keeps Idle (dataSwitch n c) := by
  unfold dataSwitch
  rcases c with c | e | _ | _ | _
  · infer_instance
  · exact absurd rfl (hc e)
  all_goals infer_instance

/-- **Step lemma.**  A subpacket stores what has come of it, and nothing else. -/
instance keeps_dataRound (n : ℕ) : Keeps Appends (dataRound n) where
  run s hs := by
    show ∃ d, Stored d s ((zrdata s.secbuf ksize >>= dataSwitch n) s).2
    rcases hrun : zrdata s.secbuf ksize s with ⟨_ | c, s₁⟩ <;> have hidle := idle_of_zrdata hrun
    · rw [bind_of_none hrun]
      exact ⟨[], hidle.stored⟩
    · rw [bind_of_some hrun]
      by_cases hc : ∃ e, c = .got e
      · obtain ⟨e, rfl⟩ := hc
        exact ⟨_, (stored_storeSector hs hrun).idle (idle_takeSector e s₁) hs⟩
      · have hrest := (keeps_dataSwitch n fun e he => hc ⟨e, he⟩).run s₁
        exact ⟨[], (trans_of Idle hidle hrest).stored⟩

instance keeps_rzfileRound (a : Progress) : Keeps Appends (rzfileRound a) := by
  have hheader := keeps_appends (keeps_headerRound a.n)
  unfold rzfileRound
  infer_instance

/-- **Run lemma.** Whatever the line brings, `rzfile` writes to its buffer, and to the end of the
file, no more than the line has brought. -/
theorem rzfile_stored (a : Progress) {s : State} (hs : Ready s) :
    ∃ d, Stored d s (loop left rzfileRound a s).2 := (keeps_loop (R := Appends) a).run s hs

/-- Two subpackets of a frame, and a third one that does not come to its end. -/
def twoSubpackets : State :=
  { State.initial with
    line := ⟨[0x41], [[0x18, 0x69, 0xc3, 0x72], [0x42, 0x43, 0x18, 0x69, 0xd6, 0xdd, 0x44], []]⟩
    secbuf := 0x100
    zModemWriteAddress := 0x1000
    thisbinary := true }

theorem rzfile_stored_twoSubpackets :
    (∃ d, Stored d twoSubpackets (loop left rzfileRound ⟨20, true⟩ twoSubpackets).2) ∧
      (loop left rzfileRound ⟨20, true⟩ twoSubpackets).2.mem.load 0x1000 3 =
        [0x41, 0x42, 0x43] :=
  ⟨rzfile_stored ⟨20, true⟩ ⟨rfl, by decide, by decide⟩, by decide +kernel⟩

/-! ## Section 3: The loop ends -/

theorem putText_frame (buf n i : ℕ) (s : State) :
    (putText buf n i s).line = s.line ∧ (putText buf n i s).rxframeind = s.rxframeind := by
  induction n generalizing i s with
  | zero => exact ⟨rfl, rfl⟩
  | succ n ih =>
    unfold putText
    split_ifs
    · exact ih _ _
    · exact ⟨rfl, rfl⟩
    · exact ih _ _

theorem storeSector_frame (s : State) :
    (storeSector s).line = s.line ∧ (storeSector s).rxframeind = s.rxframeind := by
  show (putsec s.secbuf s.rxcount s).line = s.line ∧ (putsec s.secbuf s.rxcount s).rxframeind = _
  unfold putsec
  split_ifs
  · exact ⟨rfl, rfl⟩
  · exact ⟨rfl, rfl⟩
  · exact putText_frame _ _ _ s

theorem left_storeSector (s : State) : left (storeSector s) = left s := by
  unfold left
  rw [(storeSector_frame s).1]

theorem notMore_dataSwitch (n : ℕ) (c : Code) : Keeps NotMore (dataSwitch n c) := by
  by_cases hc : ∃ e, c = .got e
  · obtain ⟨e, rfl⟩ := hc
    exact ⟨fun s => (idle_takeSector e s).left.trans (left_storeSector s).le⟩
  · exact (keeps_dataSwitch n fun e he => hc ⟨e, he⟩).mono fun _ _ h => h.left

/-- **Every round takes up some of the line.** -/
theorem descends_rzfileRound : Descends left rzfileRound := by
  refine descends_of_shrinks fun a => ?_
  unfold rzfileRound dataRound headerRound
  split_ifs
  · exact shrinks_then fun s => shrinks_first fun c => notMore_dataSwitch a.n c
  · exact shrinks_first fun c => (keeps_headerSwitch a.n c).mono fun _ _ h => h.left

end Karnix.Zmodem
