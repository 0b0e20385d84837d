import Karnix.Zmodem.Recovery

/-!
# Sessions

A session of `wcreceive`: the sender is invited until it offers a file, files come one after the
other, and the sender says goodbye.  The position is not set back for the next file, so that this
one is asked for from where the one before has ended.
-/

namespace Karnix.Zmodem

open Karnix.Library
open Karnix.Library.Program

/-! ## Section 1: Names -/

theorem stringAt_of_load {m : Memory Byte} {a n : ℕ} {text more : List Byte}
    (hload : m.load a (text ++ 0 :: more).length = text ++ 0 :: more) (hzero : (0 : Byte) ∉ text)
    (hn : text.length < n) : stringAt m n a = text := by
  induction text generalizing a n with
  | nil =>
    obtain ⟨k, rfl⟩ := Nat.exists_eq_succ_of_ne_zero (Nat.ne_of_gt hn)
    rw [List.nil_append, List.length_cons, Memory.load_succ] at hload
    exact if_pos (List.cons.inj hload).1
  | cons b text ih =>
    obtain ⟨k, rfl⟩ := Nat.exists_eq_succ_of_ne_zero (Nat.ne_of_gt (Nat.zero_lt_of_lt hn))
    rw [List.cons_append, List.length_cons, Memory.load_succ] at hload
    obtain ⟨hb, hrest⟩ := List.cons.inj hload
    obtain ⟨hne, hzero⟩ := not_or.1 (fun h => hzero (List.mem_cons.2 h))
    have hlen : text.length < k := Nat.lt_of_succ_lt_succ hn
    have hstop : ¬ m a = 0 := by
      rw [hb]
      exact fun h => hne h.symm
    rw [stringAt, if_neg hstop, hb, ih hrest hzero hlen]

/-- The bytes behind the first ones. -/
theorem load_of_append {m : Memory Byte} {a : ℕ} {xs ys : List Byte}
    (hload : m.load a (xs ++ ys).length = xs ++ ys) : m.load (a + xs.length) ys.length = ys := by
  rw [List.length_append, Memory.load_add] at hload
  exact (List.append_inj hload (Memory.length_load m a xs.length)).2

/-- What a sender offers: the name of a file and what is known about it, where the size is no
larger than allowed. -/
def Offer (maxbytes : BitVec 32) (data : List Byte) : Prop :=
  ∃ name info more, data = name ++ 0 :: (info ++ 0 :: more) ∧ (0 : Byte) ∉ name ∧
    (0 : Byte) ∉ info ∧ info ≠ [] ∧
      maxbytes.slt (scanInfo info 2000000000 0x1ff).1 = false

theorem scanInfo_fst (text : List Byte) (size mode mode' : BitVec 32) :
    (scanInfo text size mode).1 = (scanInfo text size mode').1 := by
  unfold scanInfo
  cases scanNumber 10 text with
  | none => rfl
  | some first =>
    obtain ⟨size, text⟩ := first
    cases h : scanNumber 8 text with
    | none => simp [h]
    | some second =>
      obtain ⟨time, text⟩ := second
      cases h' : scanNumber 8 text <;> simp [h, h']

/-! ## Section 2: What a session does -/

/-- The bytes `d` go to the end of the file; what else changes in the memory is in the buffers. -/
structure Landed (d : List Byte) (s s' : State) : Prop where
  eq : s' = { s with
    line := s'.line
    out := s'.out
    lastsent := s'.lastsent
    crc32t := s'.crc32t
    rxframeind := s'.rxframeind
    rxtype := s'.rxtype
    rxcount := s'.rxcount
    rxhdr := s'.rxhdr
    txhdr := s'.txhdr
    zmodem := s'.zmodem
    errors := s'.errors
    thisbinary := s'.thisbinary
    eofseen := s'.eofseen
    behindFilemode := s'.behindFilemode
    zconv := s'.zconv
    tryzhdrtype := s'.tryzhdrtype
    zModemBytesleft := s'.zModemBytesleft
    zModemRxOffset := s.zModemRxOffset + BitVec.ofNat 32 d.length
    zModemRxBytes := s.zModemRxBytes + BitVec.ofNat 32 d.length
    mem := s'.mem }
  mem : ∀ k, k < s.secbuf ∨ s.secbuf + ksize + 1 ≤ k →
    k < s.zModemPathname ∨ s.zModemPathname + ksize + 1 ≤ k →
      s'.mem k = s.mem.store (fileEnd s) d k
  line : ∃ n, s'.line = Line.next^[n] s.line
  left : left s' + d.length ≤ left s

section Landed

variable {d d' : List Byte} {s s₁ s₂ : State}

theorem Stored.landed (h : Stored d s s₁) : Landed d s s₁ where
  eq := by rw [h.eq]
  mem k hk _ := h.mem k hk
  line := h.line
  left := h.left

theorem Idle.landed (h : Idle s s₁) : Landed [] s s₁ := h.stored.landed

theorem Landed.secbuf (h : Landed d s s₁) : s₁.secbuf = s.secbuf := by rw [h.eq]

theorem Landed.pathname (h : Landed d s s₁) : s₁.zModemPathname = s.zModemPathname := by rw [h.eq]

theorem Landed.fileEnd_eq (h : Landed d s s₁) (hs : fileEnd s + Zmodem.left s < 2 ^ 32) :
    fileEnd s₁ = fileEnd s + d.length := by
  have hlt : fileEnd s + d.length < 2 ^ 32 := by
    have hleft := h.left
    omega
  unfold fileEnd at hlt ⊢
  rw [h.eq]
  show (s.zModemWriteAddress + (s.zModemRxOffset + BitVec.ofNat 32 d.length)).toNat = _
  rw [← BitVec.add_assoc, BitVec.toNat_add, BitVec.toNat_ofNat, Nat.add_mod_mod,
    Nat.mod_eq_of_lt hlt]

/-- There is still room in the memory. -/
theorem Landed.room (h : Landed d s s₁) (hs : fileEnd s + Zmodem.left s < 2 ^ 32) :
    fileEnd s₁ + Zmodem.left s₁ < 2 ^ 32 := by
  have hleft := h.left
  rw [h.fileEnd_eq hs]
  omega

theorem Landed.fits (h : Landed d s s₁) (hs : s.line.Fits) : s₁.line.Fits := by
  obtain ⟨n, hline⟩ := h.line
  rw [hline]
  exact hs.iterate n

theorem Landed.trans (h : Landed d s s₁) (h' : Landed d' s₁ s₂)
    (hs : fileEnd s + Zmodem.left s < 2 ^ 32) : Landed (d ++ d') s s₂ where
  eq := by
    have hoffset := BitVec.add_assoc s.zModemRxOffset (BitVec.ofNat 32 d.length)
      (BitVec.ofNat 32 d'.length)
    have hbytes := BitVec.add_assoc s.zModemRxBytes (BitVec.ofNat 32 d.length)
      (BitVec.ofNat 32 d'.length)
    rw [List.length_append, BitVec.ofNat_add, ← hoffset, ← hbytes, h'.eq, h.eq]
  mem k hk hname := by
    rw [h'.mem k (h.secbuf.symm ▸ hk) (h.pathname.symm ▸ hname), h.fileEnd_eq hs,
      Memory.store_append]
    unfold Memory.store
    rw [h.mem k hk hname]
    rfl
  line := exists_line_trans h.line h'.line
  left := by
    have hleft := h.left
    have hleft' := h'.left
    rw [List.length_append]
    omega

/-- A change beside the file. -/
theorem landed_nil
    (heq : s₁ = { s with
      line := s₁.line
      out := s₁.out
      lastsent := s₁.lastsent
      crc32t := s₁.crc32t
      rxframeind := s₁.rxframeind
      rxtype := s₁.rxtype
      rxcount := s₁.rxcount
      rxhdr := s₁.rxhdr
      txhdr := s₁.txhdr
      zmodem := s₁.zmodem
      errors := s₁.errors
      thisbinary := s₁.thisbinary
      eofseen := s₁.eofseen
      behindFilemode := s₁.behindFilemode
      zconv := s₁.zconv
      tryzhdrtype := s₁.tryzhdrtype
      zModemBytesleft := s₁.zModemBytesleft
      mem := s₁.mem })
    (hmem : ∀ k, k < s.zModemPathname ∨ s.zModemPathname + ksize + 1 ≤ k → s₁.mem k = s.mem k)
    (hline : s₁.line = s.line) : Landed [] s s₁ where
  eq := by
    have hoffset := BitVec.add_zero s.zModemRxOffset
    have hbytes := BitVec.add_zero s.zModemRxBytes
    rw [List.length_nil, hoffset, hbytes]
    exact heq
  mem k _ hk := by
    rw [Memory.store_nil]
    exact hmem k hk
  line := ⟨0, hline⟩
  left := (congrArg (fun l : Line => l.readings.length) hline).le

/-- What stores nothing. -/
instance isPreorder_landed : IsPreorder State (Landed []) where
  refl s := (refl_of Idle s).landed
  trans s s₁ s₂ h h' := by
    have hzero := fun o : BitVec 32 => BitVec.add_zero o
    have heq := h.eq
    have heq' := h'.eq
    rw [List.length_nil, hzero, hzero] at heq heq'
    refine ⟨?_, fun k hk hname => ?_, exists_line_trans h.line h'.line, h'.left.trans h.left⟩
    · rw [List.length_nil, hzero, hzero, heq', heq]
    · rw [h'.mem k (h.secbuf.symm ▸ hk) (h.pathname.symm ▸ hname), Memory.store_nil,
        h.mem k hk hname]

end Landed

/-! ## Section 3: The name is taken -/

/-- **`procheader` accepts an offer** with a name, and a size that is not too large. -/
theorem procheader_offer {s : State} {data : List Byte} (hoffer : Offer s.zModemMaxBytes data)
    (hlen : data.length ≤ ksize) (hload : s.mem.load s.secbuf data.length = data)
    (hbinary : s.rxbinary = true) (hzmodem : s.zmodem = true) :
    ∃ s', procheader s.secbuf s = (some ok, s') ∧ Landed [] s s' ∧ s'.thisbinary = true ∧
      s'.line = s.line ∧ s'.zModemRxBytes = s.zModemRxBytes := by
  obtain ⟨name, info, more, rfl, hname, hinfo, hne, hsize⟩ := hoffer
  have hlength : name.length + (info.length + (more.length + 1) + 1) ≤ ksize := by
    simpa using hlen
  have hmemory : ksize < memorySize := by decide
  -- the name and the text behind it, as they lie in the buffer
  have hstring := stringAt_of_load hload hname (n := memorySize) (by omega)
  have hrest := load_of_append hload
  have hrest' : s.mem.load (s.secbuf + name.length + 1) (info ++ 0 :: more).length =
      info ++ 0 :: more := by
    rw [List.length_cons, Memory.load_succ] at hrest
    exact (List.cons.inj hrest).2
  have hfirst : s.mem (s.secbuf + name.length + 1) ≠ 0 := by
    obtain ⟨b, info, rfl⟩ := List.exists_cons_of_ne_nil hne
    rw [List.cons_append, List.length_cons, Memory.load_succ] at hrest'
    rw [(List.cons.inj hrest').1]
    exact fun h => hinfo (h ▸ List.mem_cons_self)
  have htext := stringAt_of_load hrest' hinfo (n := memorySize) (by omega)
  rw [Nat.add_right_comm] at hfirst htext
  -- a binary file is asked for
  have hconv : conversion s = { s with thisbinary := true } := by
    unfold conversion
    rw [hbinary]
    simp
  -- the parts of `takeHeader`, one after the other
  obtain ⟨size, behind, hinfo, hsize⟩ : ∃ size behind,
      readInfo s.secbuf (s.secbuf + 1 + name.length) { s with thisbinary := true } =
        { s with thisbinary := true, zModemBytesleft := size, behindFilemode := behind } ∧
      s.zModemMaxBytes.slt size = false := by
    rw [scanInfo_fst info _ _ (s.behindFilemode ++ (0x1ff : BitVec 16))] at hsize
    refine ⟨_, (scanInfo info 2000000000
      (s.behindFilemode ++ (0x1ff : BitVec 16))).2.extractLsb' 16 16, ?_, hsize⟩
    unfold readInfo
    refine (if_pos hfirst).trans ?_
    dsimp only
    rw [htext, ite_self]
  have hlower : lowerName s.secbuf
      { s with thisbinary := true, zModemBytesleft := size, behindFilemode := behind } =
        { s with thisbinary := true, zModemBytesleft := size, behindFilemode := behind } :=
    if_neg fun h => Bool.false_ne_true (h.1.symm.trans hzmodem)
  have htake : takeHeader s.secbuf s = { s with
      thisbinary := true
      zModemBytesleft := size
      behindFilemode := behind
      mem := s.mem.store s.zModemPathname (name ++ [0]) } := by
    unfold takeHeader
    rw [hconv]
    dsimp only
    rw [hstring, hinfo, hlower]
    unfold copyName
    dsimp only
    rw [hstring]
  refine ⟨takeHeader s.secbuf s, ?_, ?_, ?_⟩
  · have hmax : (takeHeader s.secbuf s).zModemMaxBytes.slt
        (takeHeader s.secbuf s).zModemBytesleft = false := by
      rw [htake]
      exact hsize
    show (if (takeHeader s.secbuf s).zModemMaxBytes.slt (takeHeader s.secbuf s).zModemBytesleft
      then pure .error else pure ok : ZmodemM Code) (takeHeader s.secbuf s) = _
    rw [hmax]
    rfl
  · rw [htake]
    refine landed_nil rfl (fun k hk => Memory.store_of_notMem s.mem rfl fun hmem => ?_) rfl
    rw [List.mem_range'_1, List.length_append, List.length_singleton] at hmem
    omega
  · rw [htake]
    exact ⟨rfl, rfl, rfl⟩

/-! ## Section 4: The loop of `tryz` ends -/

theorem notMore_of_line {g : State → State} (h : ∀ s, (g s).line = s.line) :
    Keeps NotMore (modify g : ZmodemM Unit) :=
  keeps_modify fun s => (congrArg (fun l : Line => l.readings.length) (h s)).le

theorem left_purgeline (s : State) : left (purgeline s) ≤ left s := by
  unfold left purgeline Line.readings
  rw [List.map_nil, List.nil_append, List.length_append]
  exact Nat.le_add_left _ _

theorem line_sendHex (type : Byte) (s : State) : (sendHex type s).line = s.line :=
  (silent_sendHex type).line s

section NotMore

instance notMore_zrdata (buf length : ℕ) : Keeps NotMore (zrdata buf length) :=
  (keeps_zrdata buf length).mono fun _ _ h => h.left

instance notMore_ackbibiRounds (n : ℕ) : Keeps NotMore (ackbibiRounds n) := by
  induction n with
  | zero => exact keeps_pure _
  | succ n ih =>
    have hsend : Keeps NotMore (modify fun s => sendHex zfin (purgeline s)) := by
      refine keeps_modify fun s => ?_
      show left (sendHex zfin (purgeline s)) ≤ left s
      unfold left
      rw [line_sendHex]
      exact left_purgeline s
    unfold ackbibiRounds
    refine @keeps_bind _ _ _ _ _ _ _ _ fun _ => ?_
    refine @keeps_bind _ _ _ _ _ _ _ _ fun r => ?_
    cases r <;> infer_instance

instance notMore_ackbibi : Keeps NotMore ackbibi := by
  have hpos : Keeps NotMore (modify (stohdr 0)) := notMore_of_line fun _ => rfl
  unfold ackbibi
  infer_instance

instance notMore_completeRound (a : Unit) : Keeps NotMore (completeRound a) := by
  have hsend : Keeps NotMore (modify fun s => { sendHex zcompl s with errors := s.errors + 1 }) :=
    notMore_of_line (line_sendHex zcompl)
  unfold completeRound
  infer_instance

instance notMore_answerCommand : Keeps NotMore answerCommand := by
  have hpurge : Keeps NotMore (modify fun s => purgeline (stohdr 0 s)) :=
    keeps_modify fun s => left_purgeline (stohdr 0 s)
  unfold answerCommand
  infer_instance

theorem line_announce (s : State) : (announce s).line = s.line := by
  have hskip : ∀ s : State, (skipOnce s).line = s.line := by
    intro s
    unfold skipOnce
    split_ifs <;> rfl
  unfold announce
  rw [hskip, line_sendHex]
  rfl

instance notMore_nextAttempt (n : ℕ) : Keeps NotMore (nextAttempt n) := by
  have hsend : Keeps NotMore (modify announce) := notMore_of_line line_announce
  unfold nextAttempt
  infer_instance

instance notMore_replyAgain (type : Byte) (n : ℕ) : Keeps NotMore (replyAgain type n) := by
  have hsend : Keeps NotMore (modify (sendHex type)) := notMore_of_line (line_sendHex type)
  unfold replyAgain
  infer_instance

instance notMore_tryzSwitch (n : ℕ) (c : Code) : Keeps NotMore (tryzSwitch n c) := by
  have hfile : Keeps NotMore
      (modify fun s : State => { s with zconv := s.rxhdr.get zf0, tryzhdrtype := zrinit }) :=
    notMore_of_line fun _ => rfl
  have hsinit : Keeps NotMore
      (modify fun s : State => { s with zctlesc := s.rxhdr.get zf0 &&& tescctl ≠ 0 }) :=
    notMore_of_line fun _ => rfl
  have hpos : ∀ pos, Keeps NotMore (modify (stohdr pos)) := fun _ => notMore_of_line fun _ => rfl
  unfold tryzSwitch
  refine @keeps_bind _ _ _ _ _ _ _ _ fun s => ?_
  cases c <;> infer_instance

end NotMore

theorem descends_tryzRound : Descends left tryzRound :=
  descends_of_shrinks fun n => shrinks_first fun c => notMore_tryzSwitch n c

/-! ## Section 5: Invitations -/

/-- What the line brings before the sender does what is expected, and `tail` behind it, where
`n` attempts are left first and `m` then. -/
inductive Waiting (z : Bool) (window : ℤ) (tail : List Reading) :
    ℕ → ℕ → List Reading → Prop where
  | refl (n : ℕ) : Waiting z window tail n n tail
  /-- The sender asks for an invitation, or nothing comes, or something with errors. -/
  | retry {n m c ind hdr rs rest} (h : HeaderPiece z window c ind hdr rs)
      (hc : c = .byte zrqinit ∨ c = .byte zeof ∨ c = .timeout ∨ c = .error)
      (hrest : Waiting z window tail n m rest) : Waiting z window tail (n + 1) m (rs ++ rest)
  /-- The offer of a file comes with errors. -/
  | refused {n m c ind hdr data rs rs' rest} (h : HeaderPiece z window (.byte zfile) ind hdr rs)
      (h' : DataPiece z (fcsOf (ind = zbin32)) c data rs') (hc : c ≠ .got .zcrcw)
      (hrest : Waiting z window tail n m rest) :
      Waiting z window tail n m (rs ++ (rs' ++ rest))
  /-- The sender has done something else. -/
  | completed {n m ind hdr rs rest} (h : HeaderPiece z window (.byte zcompl) ind hdr rs)
      (hrest : Waiting z window tail n m rest) : Waiting z window tail n m (rs ++ rest)

section Steps

variable {s s₁ : State} {z : Bool} {window : ℤ} {n m : ℕ} {rs rest tail : List Reading}

/-- What a state has to do with the line. -/
structure Listening (z : Bool) (window : ℤ) (rs : List Reading) (s : State) : Prop where
  zctlesc : s.zctlesc = z
  window : s.zrwindow + s.baudrate = window
  readings : s.line.readings = rs

theorem Listening.landed {d : List Byte} (h : Listening z window rs s) (hl : Landed d s s₁)
    (hrest : s₁.line.readings = rest) : Listening z window rest s₁ where
  zctlesc := by
    rw [hl.eq]
    exact h.zctlesc
  window := by
    rw [hl.eq]
    exact h.window
  readings := hrest

theorem landed_announce (s : State) : Landed [] s (announce s) := by
  have hinvite : Idle s (invitation s) := ⟨rfl, fun _ _ => rfl, 0, rfl⟩
  have hsend := trans_of Idle hinvite ((silent_sendHex s.tryzhdrtype).idle (invitation s))
  have hskip : ∀ s, Landed [] s (skipOnce s) := by
    intro s
    unfold skipOnce
    split_ifs
    · exact landed_nil rfl (fun _ _ => rfl) rfl
    · exact refl_of (Landed []) s
  exact trans_of (Landed []) hsend.landed (hskip _)

/-- A header has come, and the receiver listens on behind it. -/
theorem Listening.header (h : Listening z window (rs ++ rest) s) {c : Code} {ind : Byte}
    {hdr : Hdr} (hpiece : HeaderPiece z window c ind hdr rs) :
    ∃ s₁, tryzRound n s = tryzSwitch n c s₁ ∧ Listening z window rest s₁ ∧ Landed [] s s₁ ∧
      s₁.rxframeind = ind ∧ ∀ t, c = .byte t → s₁.zmodem = true := by
  obtain ⟨s₁, hread, hrest, hind, hhdr⟩ := zgethdr_piece hpiece h.zctlesc h.window h.readings
  have hidle : Idle s s₁ := keeps_zgethdr.of_eq hread
  exact ⟨s₁, bind_of_some hread, h.landed hidle.landed hrest, hidle.landed, hind,
    fun t ht => (hhdr t ht).2⟩

/-- The name of a file has come. -/
theorem Listening.offer (h : Listening z window (rs ++ rest) s) {c : Code} {data : List Byte}
    (hpiece : DataPiece z (fcsOf (s.rxframeind = zbin32)) c data rs) :
    ∃ s₁, tryzSwitch n (.byte zfile) s =
        (if c = .got .zcrcw then pure (.inr (.byte zfile)) else replyAgain znak n) s₁ ∧
      Listening z window rest s₁ ∧ Landed [] s s₁ ∧ s₁.zmodem = s.zmodem ∧
        ∀ e, c = .got e → s₁.mem.load s.secbuf data.length = data := by
  have hfirst : Landed [] s { s with zconv := s.rxhdr.get zf0, tryzhdrtype := zrinit } :=
    landed_nil rfl (fun _ _ => rfl) rfl
  obtain ⟨s₁, hread, hrest, -, hzmodem, hgot⟩ := zrdata_piece
    (s := { s with zconv := s.rxhdr.get zf0, tryzhdrtype := zrinit }) hpiece h.zctlesc rfl
    h.readings
  have hidle := idle_of_zrdata hread
  have hlanded := trans_of (Landed []) hfirst hidle.landed
  exact ⟨s₁, bind_of_some hread, h.landed hlanded hrest, hlanded, hzmodem,
    fun e he => (hgot e he).2⟩

/-- **Run lemma.** Up to what is expected. -/
theorem Waiting.run (h : Waiting z window tail n m rs) (hs : Listening z window rs s) :
    ∃ s₁, loop left tryzRound n s = loop left tryzRound m s₁ ∧
      Listening z window tail s₁ ∧ Landed [] s s₁ := by
  induction h generalizing s with
  | refl n => exact ⟨s, rfl, hs, refl_of (Landed []) s⟩
  | @retry n m c ind hdr rs rest hpiece hc _ ih =>
    obtain ⟨s₁, hround, hnext, hlanded, -⟩ := hs.header (n := n + 1) hpiece
    have hswitch : tryzSwitch (n + 1) c s₁ = (some (.inl n), announce s₁) := by
      rcases hc with rfl | rfl | rfl | rfl <;> rfl
    have hsend := landed_announce s₁
    obtain ⟨s', hrun, hlast, hend⟩ := ih (hnext.landed hsend
      ((congrArg Line.readings (line_announce s₁)).trans hnext.readings))
    refine ⟨s', ?_, hlast, trans_of (Landed []) hlanded (trans_of (Landed []) hsend hend)⟩
    exact (loop_of_inl descends_tryzRound (hround.trans hswitch)).trans hrun
  | @refused n m c ind hdr data rs rs' rest hpiece hdata hc _ ih =>
    obtain ⟨s₁, hround, hnext, hlanded, rfl, -⟩ := hs.header (n := n) hpiece
    obtain ⟨s₂, hswitch, hnext, hlanded', -⟩ := hnext.offer (n := n) hdata
    rw [if_neg hc] at hswitch
    have hsend := (silent_sendHex znak).idle s₂
    obtain ⟨s', hrun, hlast, hend⟩ := ih (hnext.landed hsend.landed
      ((congrArg Line.readings (line_sendHex znak s₂)).trans hnext.readings))
    refine ⟨s', ?_, hlast, trans_of (Landed []) (trans_of (Landed []) hlanded hlanded')
      (trans_of (Landed []) hsend.landed hend)⟩
    exact (loop_of_inl descends_tryzRound (hround.trans hswitch)).trans hrun
  | @completed n m ind hdr rs rest hpiece _ ih =>
    obtain ⟨s₁, hround, hnext, hlanded, -⟩ := hs.header (n := n) hpiece
    obtain ⟨s', hrun, hlast, hend⟩ := ih hnext
    refine ⟨s', ?_, hlast, trans_of (Landed []) hlanded hend⟩
    exact (loop_of_inl descends_tryzRound hround).trans hrun

end Steps

/-! ## Section 6: Goodbye -/

/-- The calls of `uart_read` that the line still answers. -/
def calls (s : State) : ℕ := s.line.reads.length

instance uses_readline : Uses calls 1 readline where
  returns s hs := by
    unfold readline calls at *
    rcases hline : s.line with ⟨_ | ⟨c, linbuf⟩, _ | ⟨r, reads⟩⟩ <;> rw [hline] at hs
    · exact absurd hs (by simp)
    · cases r with
      | nil => exact ⟨_, _, rfl, le_refl _⟩
      | cons c r => exact ⟨_, _, rfl, le_refl _⟩
    · exact ⟨_, _, rfl, Nat.le_add_right _ _⟩
    · exact ⟨_, _, rfl, Nat.le_add_right _ _⟩

theorem uses_ackbibiRounds (n : ℕ) : Uses calls (2 * n) (ackbibiRounds n) := by
  induction n with
  | zero => exact uses_pure _
  | succ n ih =>
    have hsend : Uses calls 0 (modify fun s => sendHex zfin (purgeline s)) := by
      refine uses_modify fun s => ?_
      unfold calls
      rw [line_sendHex]
      rfl
    have hround : Uses calls (0 + (1 + (2 * n + 1))) (ackbibiRounds (n + 1)) := by
      refine @uses_bind _ _ _ _ _ _ _ _ hsend fun _ => ?_
      refine @uses_bind _ _ _ _ _ _ _ _ uses_readline fun r => ?_
      rcases r with c | _
      · dsimp only
        have hdone : Uses calls (1 + 0) (do let _ ← readline; pure ⟨⟩ : ZmodemM Unit) := uses_bind
        split_ifs
        · exact hdone.mono (by omega)
        · exact ih.mono (by omega)
      · exact ih.mono (by omega)
    exact hround.mono (by omega)

/-- The memory stays as it is. -/
def SameMemory (s s' : State) : Prop := s'.mem = s.mem

instance reads_sameMemory : Reads SameMemory where
  refl _ := rfl
  trans _ _ _ h h' := h'.trans h
  le s s' h := by
    obtain ⟨n, h⟩ := h
    show s'.mem = s.mem
    rw [h]
    rfl

theorem sameMemory_ackbibiRounds (n : ℕ) : Keeps SameMemory (ackbibiRounds n) := by
  induction n with
  | zero => exact keeps_pure _
  | succ n ih =>
    have hsend : Keeps SameMemory (modify fun s => sendHex zfin (purgeline s)) := by
      refine keeps_modify fun s => ?_
      obtain ⟨w, xs, -, h⟩ := sends_zshhdr zfin s.txhdr (purgeline s)
      show (zshhdr zfin s.txhdr (purgeline s)).mem = s.mem
      rw [h]
      rfl
    unfold ackbibiRounds
    refine @keeps_bind _ _ _ _ _ _ _ _ fun _ => ?_
    refine @keeps_bind _ _ _ _ _ _ _ _ fun r => ?_
    cases r <;> infer_instance

/-- **`ackbibi` returns**, whatever comes, and leaves the memory. -/
theorem ackbibi_returns {s : State} (hs : 6 ≤ calls s) :
    ∃ s', ackbibi s = (some ⟨⟩, s') ∧ s'.mem = s.mem := by
  have hcalls : calls (stohdr 0 s) = calls s := rfl
  obtain ⟨a, s', hrun, -⟩ := (uses_ackbibiRounds 3).returns (stohdr 0 s) (hcalls ▸ hs)
  have hack : ackbibi s = ackbibiRounds 3 (stohdr 0 s) := bind_of_some rfl
  have hmem : s'.mem = (stohdr 0 s).mem := (sameMemory_ackbibiRounds 3).of_eq hrun
  exact ⟨s', hack.trans hrun, hmem⟩

/-! ## Section 7: Files -/

/-- **A file is received**, from the position on that the ones before have reached. -/
theorem rzfile_run {s : State} {z : Bool} {window : ℤ} {start : ℕ} {data file : List Byte}
    {rs tail : List Reading} (hs : Listening z window rs s)
    (hroom : fileEnd s + left s < 2 ^ 32) (hfits : s.line.Fits)
    (hoffer : Offer s.zModemMaxBytes data)
    (hsize : data.length ≤ ksize) (hload : s.mem.load s.secbuf data.length = data)
    (hbinary : s.rxbinary = true) (hzmodem : s.zmodem = true)
    (hstart : s.zModemRxBytes = BitVec.ofNat 32 start) (hlen : start ≤ file.length)
    (h : Delivery file z window tail 20 start none rs) :
    ∃ s', rzfile s = (some (.byte zeof), s') ∧ Landed (file.drop start) s s' ∧
      s'.line.readings = tail ∧ s'.zModemRxBytes = BitVec.ofNat 32 file.length := by
  have hfirst : Landed [] s { s with eofseen := false } := landed_nil rfl (fun _ _ => rfl) rfl
  obtain ⟨s₁, hheader, hlanded, htrue, hline, hbytes⟩ := procheader_offer
    (s := { s with eofseen := false }) hoffer hsize hload hbinary hzmodem
  have hask := silent_sendPosition zrpos
  have hbefore := trans_of (Landed []) (trans_of (Landed []) hfirst hlanded)
    (hask.idle s₁).landed
  have hsame : (sendPosition zrpos s₁).line = s.line := (hask.line s₁).trans hline
  have hnext := hs.landed hbefore ((congrArg Line.readings hsame).trans hs.readings)
  have hready : Ready (sendPosition zrpos s₁) := by
    refine ⟨?_, hbefore.room hroom, ?_⟩
    · rw [(hask.idle s₁).eq]
      exact htrue
    · rw [hsame]
      exact hfits
  have hpos : (sendPosition zrpos s₁).zModemRxBytes = BitVec.ofNat 32 start := by
    rw [(hask.idle s₁).eq]
    exact hbytes.trans hstart
  rw [← hnext.zctlesc, ← hnext.window, ← hnext.readings] at h
  obtain ⟨s', hrun, hstored, htail⟩ := rzfile_delivers hready hpos hlen h
  have hafter := hbefore.trans hstored.landed hroom
  rw [List.nil_append] at hafter
  refine ⟨s', ?_, hafter, htail, ?_⟩
  · have hbind : rzfile s = receiveFile ok s₁ := bind_of_some (f := receiveFile) hheader
    have hreceive : receiveFile ok = modify (sendPosition zrpos) >>= fun _ =>
        loop left rzfileRound ⟨20, false⟩ := if_neg (by decide)
    rw [hbind, hreceive]
    exact hrun
  · rw [hstored.eq]
    show (sendPosition zrpos s₁).zModemRxBytes + BitVec.ofNat 32 (file.drop start).length = _
    rw [hpos, List.length_drop, ← BitVec.ofNat_add, Nat.add_sub_cancel' hlen]

/-! ## Section 8: One file after the other -/

/-- What the line brings behind the offer `data` of a file, and `tail` behind the goodbye, where
up to `i` files may come.  `stored` is what is stored of them: the next file is asked for from the
position on that has been reached. -/
inductive Batch (z : Bool) (window : ℤ) (maxbytes : BitVec 32) (attempts : ℕ)
    (tail : List Reading) : ℕ → ℕ → List Byte → List Byte → List Reading → Prop where
  | last {i start m ind hdr data file rs rs' rest} (hoffer : Offer maxbytes data)
      (hlen : start ≤ file.length) (hfile : Delivery file z window rest 20 start none rs)
      (hwait : Waiting z window (rs' ++ tail) (attempts - 1) m rest)
      (hend : HeaderPiece z window (.byte zfin) ind hdr rs') :
      Batch z window maxbytes attempts tail (i + 1) start data (file.drop start) rs
  | next {i start m ind hdr data data' file stored rs rs' rs'' rest rest'}
      (hoffer : Offer maxbytes data) (hlen : start ≤ file.length)
      (hfile : Delivery file z window rest 20 start none rs)
      (hwait : Waiting z window (rs' ++ (rs'' ++ rest')) (attempts - 1) m rest)
      (hname : HeaderPiece z window (.byte zfile) ind hdr rs')
      (hdata : DataPiece z (fcsOf (ind = zbin32)) (.got .zcrcw) data' rs'')
      (hrest : Batch z window maxbytes attempts tail i file.length data' stored rest') :
      Batch z window maxbytes attempts tail (i + 1) start data (file.drop start ++ stored) rs

section Tryz

variable {s : State} {z : Bool} {window : ℤ} {attempts m : ℕ} {ind : Byte} {hdr : Hdr}
  {rs rs' rs'' tail : List Reading}

theorem tryz_eq (hattempts : attempts ≠ 0) (s : State) :
    tryz attempts s = loop left tryzRound (attempts - 1) (announce s) :=
  congrFun (if_neg hattempts) s

/-- **A file is offered**, in the end. -/
theorem tryz_offer (hattempts : attempts ≠ 0) (hs : Listening z window rs s) {data : List Byte}
    (hwait : Waiting z window (rs' ++ (rs'' ++ tail)) (attempts - 1) m rs)
    (hname : HeaderPiece z window (.byte zfile) ind hdr rs')
    (hdata : DataPiece z (fcsOf (ind = zbin32)) (.got .zcrcw) data rs'') :
    ∃ s', tryz attempts s = (some (.byte zfile), s') ∧ Listening z window tail s' ∧
      Landed [] s s' ∧ s'.zmodem = true ∧ s'.mem.load s'.secbuf data.length = data := by
  have hsend := landed_announce s
  obtain ⟨s₁, hrun, hnext, hlanded₁⟩ := hwait.run (hs.landed hsend
    ((congrArg Line.readings (line_announce s)).trans hs.readings))
  obtain ⟨s₂, hround, hnext, hlanded₂, rfl, hzmodem⟩ := hnext.header (n := m) hname
  obtain ⟨s₃, hswitch, hnext, hlanded₃, hsame, hload⟩ := hnext.offer (n := m) hdata
  have hlanded := trans_of (Landed []) (trans_of (Landed []) hsend hlanded₁)
    (trans_of (Landed []) hlanded₂ hlanded₃)
  refine ⟨s₃, ?_, hnext, hlanded, hsame.trans (hzmodem _ rfl), ?_⟩
  · rw [if_pos rfl] at hswitch
    rw [tryz_eq hattempts, hrun]
    exact loop_of_inr (hround.trans hswitch)
  · rw [hlanded₃.secbuf]
    exact hload _ rfl

/-- **The sender says goodbye**, in the end. -/
theorem tryz_end (hattempts : attempts ≠ 0) (hs : Listening z window rs s)
    (hwait : Waiting z window (rs' ++ tail) (attempts - 1) m rs)
    (hend : HeaderPiece z window (.byte zfin) ind hdr rs')
    (hcalls : ∀ s' : State, (∃ n, s'.line = Line.next^[n] s.line) → s'.line.readings = tail →
      6 ≤ calls s') :
    ∃ s₁ s', tryz attempts s = (some (.byte zcompl), s') ∧ Landed [] s s₁ ∧
      s'.mem = s₁.mem := by
  have hsend := landed_announce s
  obtain ⟨s₁, hrun, hnext, hlanded₁⟩ := hwait.run (hs.landed hsend
    ((congrArg Line.readings (line_announce s)).trans hs.readings))
  obtain ⟨s₂, hround, hnext, hlanded₂, -⟩ := hnext.header (n := m) hend
  have hlanded := trans_of (Landed []) (trans_of (Landed []) hsend hlanded₁) hlanded₂
  obtain ⟨s', hbye, hmem⟩ := ackbibi_returns (hcalls s₂ hlanded.line hnext.readings)
  have hswitch : tryzSwitch m (.byte zfin) s₂ = (some (.inr (.byte zcompl)), s') := by
    show (ackbibi >>= fun _ => pure (.inr (.byte zcompl)) : ZmodemM (ℕ ⊕ Code)) s₂ = _
    rw [bind_of_some hbye]
    rfl
  refine ⟨s₂, s', ?_, hlanded, hmem⟩
  rw [tryz_eq hattempts, hrun]
  exact loop_of_inr (hround.trans hswitch)

end Tryz

/-- After a file, `tryz` decides. -/
theorem rzfilesFrom_of_eof {attempts i : ℕ} {s s₁ : State}
    (h : rzfile s = (some (.byte zeof), s₁)) :
    rzfilesFrom attempts (i + 1) s = (tryz attempts >>= fun c =>
      if c = .byte zcompl then pure ok
      else if c = .byte zfile then rzfilesFrom attempts i
      else pure .error) s₁ := by
  refine (bind_of_some h).trans ?_
  exact congrFun (if_pos (Or.inl rfl)) s₁

/-- **Run lemma.**  The files of a batch are received one behind the other. -/
theorem Batch.run {z : Bool} {window : ℤ} {maxbytes : BitVec 32} {attempts i start : ℕ}
    {data stored : List Byte} {rs tail : List Reading} {s : State} (hattempts : attempts ≠ 0)
    (h : Batch z window maxbytes attempts tail i start data stored rs)
    (hs : Listening z window rs s) (hroom : fileEnd s + left s < 2 ^ 32) (hfits : s.line.Fits)
    (hmax : s.zModemMaxBytes = maxbytes) (hsize : data.length ≤ ksize)
    (hload : s.mem.load s.secbuf data.length = data) (hbinary : s.rxbinary = true)
    (hzmodem : s.zmodem = true) (hstart : s.zModemRxBytes = BitVec.ofNat 32 start)
    (hcalls : ∀ s' : State, (∃ n, s'.line = Line.next^[n] s.line) → s'.line.readings = tail →
      6 ≤ calls s') :
    ∃ s₁ s', rzfilesFrom attempts i s = (some ok, s') ∧ Landed stored s s₁ ∧
      s'.mem = s₁.mem := by
  induction h generalizing s with
  | @last i start m ind hdr data file rs rs' rest hoffer hlen hfile hwait hend =>
    rw [← hmax] at hoffer
    obtain ⟨s₁, hrun, hlanded, hrest, -⟩ := rzfile_run hs hroom hfits hoffer hsize hload hbinary
      hzmodem hstart hlen hfile
    obtain ⟨s₂, s', htry, hlanded', hmem⟩ := tryz_end hattempts (hs.landed hlanded hrest) hwait
      hend fun s' hline => hcalls s' (exists_line_trans hlanded.line hline)
    have hall := hlanded.trans hlanded' hroom
    rw [List.append_nil] at hall
    refine ⟨s₂, s', ?_, hall, hmem⟩
    rw [rzfilesFrom_of_eof hrun, bind_of_some htry]
    exact congrFun (if_pos rfl) s'
  | @next i start m ind hdr data data' file stored rs rs' rs'' rest rest' hoffer hlen hfile hwait
      hname hdata _ ih =>
    rw [← hmax] at hoffer
    obtain ⟨s₁, hrun, hlanded, hrest, hbytes⟩ :=
      rzfile_run hs hroom hfits hoffer hsize hload hbinary
      hzmodem hstart hlen hfile
    obtain ⟨s₂, htry, hnext, hlanded', hzmodem', hload'⟩ := tryz_offer hattempts
      (hs.landed hlanded hrest) hwait hname hdata
    have hboth := hlanded.trans hlanded' hroom
    rw [List.append_nil] at hboth
    have hsize' : data'.length ≤ ksize := by
      cases hdata with
      | good hlen => exact hlen
    obtain ⟨s₃, s', hrest, hlanded'', hmem⟩ := ih hnext (hboth.room hroom) (hboth.fits hfits)
      (by rw [hboth.eq]; exact hmax) hsize' hload' (by rw [hboth.eq]; exact hbinary) hzmodem'
      (by rw [hlanded'.eq]; exact (BitVec.add_zero _).trans hbytes)
      fun s' hline => hcalls s' (exists_line_trans hboth.line hline)
    refine ⟨s₃, s', ?_, hboth.trans hlanded'' hroom, hmem⟩
    rw [rzfilesFrom_of_eof hrun, bind_of_some htry]
    refine Eq.trans ?_ hrest
    exact (congrFun (if_neg (by decide)) s₂).trans (congrFun (if_pos rfl) s₂)

/-! ## Section 9: A session -/

/-- The line after its first calls of `uart_read`. -/
theorem Line.next_readings (linbuf : List Byte) (reads more : List (List Byte)) :
    Line.next^[(Line.readings ⟨linbuf, reads⟩).length] ⟨linbuf, reads ++ more⟩ = ⟨[], more⟩ := by
  have hbuf : ∀ linbuf (r : List (List Byte)), Line.next^[linbuf.length] ⟨linbuf, r⟩ = ⟨[], r⟩ := by
    intro linbuf r
    induction linbuf with
    | nil => rfl
    | cons c linbuf ih => exact ih
  induction reads generalizing linbuf with
  | nil =>
    have hlen : (Line.readings ⟨linbuf, []⟩).length = linbuf.length := by
      simp [Line.readings]
    rw [hlen, List.nil_append, hbuf]
  | cons r reads ih =>
    have hlen : (Line.readings ⟨linbuf, r :: reads⟩).length =
        (Line.readings ⟨r.tail, reads⟩).length + 1 + linbuf.length := by
      cases r with
      | nil =>
        simp [Line.readings]
        omega
      | cons c r =>
        simp [Line.readings]
        omega
    rw [hlen, Function.iterate_add_apply, hbuf, Function.iterate_succ_apply]
    exact ih r.tail

/-- Where the line has come to is known from what it still brings. -/
theorem Line.eq_of_readings {reads more : List (List Byte)} {n : ℕ} (hmore : more ≠ [])
    (h : (Line.next^[n] ⟨[], reads ++ more⟩).readings = Line.readings ⟨[], more⟩) :
    Line.next^[n] ⟨[], reads ++ more⟩ = ⟨[], more⟩ := by
  have hsplit : Line.readings ⟨[], reads ++ more⟩ =
      Line.readings ⟨[], reads⟩ ++ Line.readings ⟨[], more⟩ := by
    simp [Line.readings]
  have hpos : 0 < (Line.readings ⟨[], more⟩).length := by
    obtain ⟨r, more, rfl⟩ := List.exists_cons_of_ne_nil hmore
    cases r <;> simp [Line.readings]
  have hdrop : ∀ (l : Line) n, (Line.next^[n] l).readings = l.readings.drop n := by
    intro l n
    induction n with
    | zero => rfl
    | succ n ih => rw [Function.iterate_succ_apply', Line.readings_next, ih, List.tail_drop]
  have hlen := congrArg List.length h
  rw [hdrop, hsplit, List.length_drop, List.length_append] at hlen
  have hn : n = (Line.readings ⟨[], reads⟩).length := by omega
  rw [hn]
  exact Line.next_readings [] reads more

/-- **A session.**  The files that come are stored one behind the other, each from the position on
that the ones before have reached, and `wcreceive` returns `OK`. -/
theorem wcreceive_session {attempts filename secbuf attn m : ℕ} {maxbytes : BitVec 32} {s : State}
    {reads more : List (List Byte)} {ind : Byte} {hdr : Hdr} {data stored : List Byte}
    {rs rs' rest : List Reading} (hattempts : attempts ≠ 0) (hreads : s.line.reads = reads ++ more)
    (hmore : 6 ≤ more.length)
    (hroom : s.zModemWriteAddress.toNat + (Line.readings ⟨[], s.line.reads⟩).length < 2 ^ 32)
    (hfits : s.line.Fits)
    (hwait : Waiting false (1400 + s.baudrate) (rs ++ (rs' ++ rest)) (attempts - 1) m
      (Line.readings ⟨[], s.line.reads⟩))
    (hname : HeaderPiece false (1400 + s.baudrate) (.byte zfile) ind hdr rs)
    (hdata : DataPiece false (fcsOf (ind = zbin32)) (.got .zcrcw) data rs')
    (h : Batch false (1400 + s.baudrate) maxbytes attempts (Line.readings ⟨[], more⟩) 5 0 data
      stored rest) :
    ∃ s', wcreceive attempts maxbytes filename secbuf attn s = (some ok, s') ∧
      ∀ k, k < secbuf ∨ secbuf + ksize + 1 ≤ k → k < filename ∨ filename + ksize + 1 ≤ k →
        s'.mem k = s.mem.store s.zModemWriteAddress.toNat stored k := by
  -- the first offer, to the receiver as `wcreceive` has set it up
  have hlisten : Listening false (1400 + s.baudrate) (Line.readings ⟨[], s.line.reads⟩)
      (purgeline (clearContext maxbytes filename secbuf attn s)) := ⟨rfl, rfl, rfl⟩
  have hend : fileEnd (purgeline (clearContext maxbytes filename secbuf attn s)) =
      s.zModemWriteAddress.toNat := congrArg BitVec.toNat (BitVec.add_zero _)
  obtain ⟨s₁, htry, hnext, hlanded, hzmodem, hload⟩ := tryz_offer hattempts hlisten hwait hname
    hdata
  have hroom' : fileEnd (purgeline (clearContext maxbytes filename secbuf attn s)) +
      left (purgeline (clearContext maxbytes filename secbuf attn s)) < 2 ^ 32 := by
    rw [hend]
    exact hroom
  have hsize : data.length ≤ ksize := by
    cases hdata with
    | good hlen => exact hlen
  -- enough calls are left for the end of the session
  have hcalls : ∀ s' : State, (∃ n, s'.line = Line.next^[n] s₁.line) →
      s'.line.readings = Line.readings ⟨[], more⟩ → 6 ≤ calls s' := by
    intro s' hline hrest
    obtain ⟨n, hline⟩ := exists_line_trans hlanded.line hline
    have hfirst : (purgeline (clearContext maxbytes filename secbuf attn s)).line =
        ⟨[], reads ++ more⟩ := congrArg (Line.mk []) hreads
    have hne : more ≠ [] := fun h => by simp [h] at hmore
    rw [hfirst] at hline
    rw [hline] at hrest
    unfold calls
    rw [hline, Line.eq_of_readings hne hrest]
    exact hmore
  -- the batch behind it
  obtain ⟨s₂, s', hrun, hlanded', hmem⟩ :=
    h.run hattempts hnext (hlanded.room hroom') (hlanded.fits hfits)
    (by rw [hlanded.eq]; rfl) hsize hload (by rw [hlanded.eq]; rfl) hzmodem
    (by rw [hlanded.eq]; rfl) hcalls
  have hall := hlanded.trans hlanded' hroom'
  rw [List.nil_append] at hall
  refine ⟨s', ?_, fun k hk hk' => ?_⟩
  · -- what `wcreceive` returns
    have hfirst : wcreceive attempts maxbytes filename secbuf attn s =
        receiveBatch attempts (.byte zfile) s₁ := bind_of_some (f := receiveBatch attempts) htry
    have hbatch : receiveBatch attempts (.byte zfile) = rzfiles attempts >>= fun c =>
        if c = ok then pure ok else fubar := by
      unfold receiveBatch
      rw [if_neg (by decide), if_neg (by decide), if_neg (by decide), if_neg (by decide)]
    have hok : (if ok = ok then pure ok else fubar) = (pure ok : ZmodemM Code) := if_pos rfl
    rw [hfirst, hbatch, rzfiles, bind_of_some hrun, hok]
    rfl
  · -- the memory outside its two buffers
    have hfill : (purgeline (clearContext maxbytes filename secbuf attn s)).mem k = s.mem k := by
      refine Memory.fill_of_notMem s.mem 0 fun hmem => ?_
      rw [List.mem_range'_1] at hmem
      omega
    rw [hmem, hall.mem k hk hk', hend]
    unfold Memory.store
    rw [hfill]

/-- A file of one byte, and the goodbye behind it. -/
def oneByteSession : State :=
  { State.initial with
    line := ⟨[], [
      [0x2a, 0x2a, 0x18, 0x42, 0x30, 0x34, 0x30, 0x30, 0x30, 0x30, 0x30, 0x30, 0x30, 0x30, 0x38,
        0x39, 0x30, 0x36, 0x0d, 0x8a],
      [0x61, 0x00, 0x31, 0x00, 0x18, 0x6b, 0x9c, 0xd5],
      [0x2a, 0x2a, 0x18, 0x42, 0x30, 0x61, 0x30, 0x30, 0x30, 0x30, 0x30, 0x30, 0x30, 0x30, 0x34,
        0x36, 0x61, 0x65, 0x0d, 0x8a],
      [0x41, 0x18, 0x68, 0xd3, 0x53],
      [0x2a, 0x2a, 0x18, 0x42, 0x30, 0x62, 0x30, 0x31, 0x30, 0x30, 0x30, 0x30, 0x30, 0x30, 0x39,
        0x61, 0x34, 0x62, 0x0d, 0x8a],
      [0x2a, 0x2a, 0x18, 0x42, 0x30, 0x38, 0x30, 0x30, 0x30, 0x30, 0x30, 0x30, 0x30, 0x30, 0x30,
        0x32, 0x32, 0x64, 0x0d, 0x8a],
      [0x4f, 0x4f], [], [], [], [], []]⟩
    zModemWriteAddress := 0x1000 }

theorem wcreceive_session_oneByte :
    ∃ s', wcreceive 15 0x100000 0x2000 0x3000 0x4000 oneByteSession = (some ok, s') ∧
      ∀ k, k < 0x3000 ∨ 0x3000 + ksize + 1 ≤ k → k < 0x2000 ∨ 0x2000 + ksize + 1 ≤ k →
        s'.mem k = oneByteSession.mem.store oneByteSession.zModemWriteAddress.toNat
          ([0x41].drop 0) k := by
  have hname : HeaderPiece false 116600 (.byte zfile) zhex #v[0, 0, 0, 0]
      (([] ++ [0x2a, 0x2a, 0x18, 0x42, 0x30, 0x34, 0x30, 0x30, 0x30, 0x30, 0x30, 0x30, 0x30, 0x30,
        0x38, 0x39, 0x30, 0x36, 0x0d, 0x8a, 0x11].take 20 : List Byte).map .byte) :=
    @HeaderPiece.hex _ _ State.initial _ _ [] _ (by simp) (by decide) (by decide +kernel)
  have hinfo : DataPiece false fcs16 (.got .zcrcw) ([0x61] ++ [0x00] ++ [0x31] ++ [0x00])
      (([0x61] ++ [0x00] ++ [0x31] ++ [0x00] ++ ([0x18, 0x6b] ++ ([0x9c] ++ [0xd5])) :
        List Byte).map .byte) :=
    @DataPiece.good _ fcs16 _ [0x9c, 0xd5] _ _ _ .zcrcw (by decide)
      ((((codesOf_plain 0x61 (by decide)).append (codesOf_plain 0x00 (by decide))).append
        (codesOf_plain 0x31 (by decide))).append (codesOf_plain 0x00 (by decide)))
      (word_frameEnd false .zcrcw)
      ((codesOf_plain 0x9c (by decide)).append (codesOf_plain 0xd5 (by decide))) rfl
      (by decide +kernel)
  have hdata : HeaderPiece false 116600 (.byte zdata) zhex #v[0, 0, 0, 0]
      (([] ++ [0x2a, 0x2a, 0x18, 0x42, 0x30, 0x61, 0x30, 0x30, 0x30, 0x30, 0x30, 0x30, 0x30, 0x30,
        0x34, 0x36, 0x61, 0x65, 0x0d, 0x8a, 0x11].take 20 : List Byte).map .byte) :=
    @HeaderPiece.hex _ _ State.initial _ _ [] _ (by simp) (by decide) (by decide +kernel)
  have hsector : DataPiece false fcs16 (.got .zcrce) [0x41]
      (([0x41] ++ ([0x18, 0x68] ++ ([0xd3] ++ [0x53])) : List Byte).map .byte) :=
    @DataPiece.good _ fcs16 [0x41] [0xd3, 0x53] _ _ _ .zcrce (by decide)
      (codesOf_plain 0x41 (by decide))
      (word_frameEnd false .zcrce)
      ((codesOf_plain 0xd3 (by decide)).append (codesOf_plain 0x53 (by decide))) rfl
      (by decide +kernel)
  have heof : HeaderPiece false 116600 (.byte zeof) zhex #v[1, 0, 0, 0]
      (([] ++ [0x2a, 0x2a, 0x18, 0x42, 0x30, 0x62, 0x30, 0x31, 0x30, 0x30, 0x30, 0x30, 0x30, 0x30,
        0x39, 0x61, 0x34, 0x62, 0x0d, 0x8a, 0x11].take 20 : List Byte).map .byte) :=
    @HeaderPiece.hex _ _ State.initial _ _ [] _ (by simp) (by decide) (by decide +kernel)
  have hfin : HeaderPiece false 116600 (.byte zfin) zhex #v[0, 0, 0, 0]
      (([] ++ [0x2a, 0x2a, 0x18, 0x42, 0x30, 0x38, 0x30, 0x30, 0x30, 0x30, 0x30, 0x30, 0x30, 0x30,
        0x30, 0x32, 0x32, 0x64, 0x0d, 0x8a].take 20 : List Byte).map .byte) :=
    @HeaderPiece.hex _ _ State.initial _ _ [] _ (by simp) (by decide) (by decide +kernel)
  have hoffer : Offer 0x100000 ([0x61] ++ [0x00] ++ [0x31] ++ [0x00]) :=
    ⟨[0x61], [0x31], [], rfl, by decide, by decide, by decide, by decide⟩
  have hbatch : Batch false 116600 0x100000 15
      (Line.readings ⟨[], [[0x4f, 0x4f], [], [], [], [], []]⟩) 5 0
      ([0x61] ++ [0x00] ++ [0x31] ++ [0x00]) ([0x41].drop 0) _ :=
    .last hoffer (by decide) (.frame hdata (by decide) (.sector hsector (by decide)
      (.finish heof (by decide)))) (.refl 14) hfin
  have hreads := (List.take_append_drop 6 oneByteSession.line.reads).symm
  refine wcreceive_session (m := 14) (by decide) hreads (by decide) (by decide) (by decide) ?_
    hname hinfo hbatch
  exact .refl 14

end Karnix.Zmodem
