import Karnix.Zmodem.CheckSums
import Karnix.Zmodem.Escapes

/-!
# Headers

`zgethdr` finds a header behind other bytes, and reads what `zsbhdr` or `zshhdr` has sent.
-/

namespace Karnix.Zmodem

open Karnix.Library
open Karnix.Library.Program

/-! ## Section 1: The search ends -/

section Reads

variable {R : State → State → Prop} [Reads R]

instance keeps_noxrdRound (a : Unit) : Keeps R (noxrdRound a) := by
  unfold noxrdRound
  refine @keeps_bind _ _ _ _ _ _ _ _ fun r => ?_
  cases r <;> infer_instance

instance keeps_noxrd7 : Keeps R noxrd7 := keeps_loop ()

instance keeps_zgethex : Keeps R zgethex := by
  have hlast : ∀ n r, Keeps R (match r with
      | Reading.timeout => pure Code.timeout
      | Reading.byte c =>
        match hexValue c with
        | none => pure Code.error
        | some m => (pure (Code.byte (BitVec.ofNat 8 (m + n * 16))) : ZmodemM Code)) := by
    intro n r
    rcases r with c | _
    · dsimp only
      cases hexValue c <;> infer_instance
    · infer_instance
  unfold zgethex
  refine @keeps_bind _ _ _ _ _ _ _ _ fun r => ?_
  rcases r with c | _
  · dsimp only
    cases hexValue c <;> infer_instance
  · infer_instance

instance keeps_putHdr (i : ℕ) (c : Byte) : Keeps R (modify (putHdr i c) : ZmodemM Unit) :=
  keeps_header fun _ => rfl

instance keeps_putNothing (i : ℕ) (c : Byte) : Keeps R (modify (putNothing i c) : ZmodemM Unit) :=
  keeps_header fun _ => rfl

instance keeps_readBytes {get : ZmodemM Code} {f : Fcs} {put : ℕ → Byte → State → State}
    [Keeps R get] [hput : ∀ i c, Keeps R (modify (put i c) : ZmodemM Unit)]
    (n i : ℕ) (crc : BitVec f.width) : Keeps R (readBytes get f put n i crc) := by
  induction n generalizing i crc with
  | zero =>
    unfold readBytes
    infer_instance
  | succ n ih =>
    unfold readBytes
    refine @keeps_bind _ _ _ _ _ _ _ _ fun c => ?_
    rcases c with b | e | _ | _ | _
    · have hrest := ih (i + 1) (f.upd b crc)
      infer_instance
    all_goals infer_instance

theorem keeps_receiveHeader {get : ZmodemM Code} {f : Fcs} {rest : ZmodemM Unit}
    [Keeps R get] [Keeps R rest] : Keeps R (receiveHeader get f rest) := by
  have htype : ∀ t, Keeps R (modify fun s : State => { s with rxtype := t }) :=
    fun t => keeps_header fun _ => rfl
  have hzmodem : Keeps R (modify fun s : State => { s with zmodem := true }) :=
    keeps_header fun _ => rfl
  unfold receiveHeader
  refine @keeps_bind _ _ _ _ _ _ _ _ fun c => ?_
  rcases c with t | e | _ | _ | _
  · refine @keeps_bind _ _ _ _ _ _ _ _ fun _ => ?_
    refine @keeps_bind _ _ _ _ _ _ _ _ fun r => ?_
    rcases r with r | crc
    · infer_instance
    · refine @keeps_bind _ _ _ _ _ _ _ _ fun r => ?_
      rcases r with r | crc <;> infer_instance
  all_goals infer_instance

instance keeps_throwCrLf : Keeps R throwCrLf := by
  unfold throwCrLf
  refine @keeps_bind _ _ _ _ _ _ _ _ fun r => ?_
  cases r <;> infer_instance

instance keeps_zrbhdr : Keeps R zrbhdr := keeps_receiveHeader

instance keeps_zrbhdr32 : Keeps R zrbhdr32 := keeps_receiveHeader

instance keeps_zrhhdr : Keeps R zrhhdr := keeps_receiveHeader

instance keeps_garbage (a : Search) : Keeps R (garbage a) := by
  unfold garbage
  infer_instance

instance keeps_gotCanLabel (a : Search) : Keeps R (gotCanLabel a) := by
  unfold gotCanLabel
  refine @keeps_ite _ _ _ _ _ _ _ _ (@keeps_bind _ _ _ _ _ _ _ _ fun r => ?_)
  cases r <;> infer_instance

instance keeps_splatRound (a : Unit) : Keeps R (splatRound a) := by
  unfold splatRound
  refine @keeps_bind _ _ _ _ _ _ _ _ fun r => ?_
  cases r <;> infer_instance

instance keeps_frameIndicator (a : Search) : Keeps R (frameIndicator a) := by
  have hind : ∀ c, Keeps R (modify fun s : State => { s with rxframeind := c }) :=
    fun c => keeps_header fun _ => rfl
  unfold frameIndicator
  refine @keeps_bind _ _ _ _ _ _ _ _ fun r => ?_
  cases r <;> infer_instance

instance keeps_searchRound (a : Search) : Keeps R (searchRound a) := by
  unfold searchRound
  refine @keeps_bind _ _ _ _ _ _ _ _ fun r => ?_
  rcases r with c | _
  · refine @keeps_ite _ _ _ _ _ _ _ _ (@keeps_ite _ _ _ _ _ _ _
      (@keeps_bind _ _ _ _ _ _ _ _ fun r => ?_) _)
    cases r <;> infer_instance
  · infer_instance

/-- A header is looked for. -/
instance keeps_zgethdr : Keeps R zgethdr := by
  have hclear : Keeps R (modify fun s : State => { s with rxframeind := 0, rxtype := 0 }) :=
    keeps_header fun _ => rfl
  have hlast : ∀ s : State, Keeps R (loop left searchRound ⟨s.zrwindow + s.baudrate, 5⟩ >>= fun c =>
      match c with
      | Code.gotCan => pure (Code.byte zcan)
      | c => (pure c : ZmodemM Code)) := by
    intro s
    refine @keeps_bind _ _ _ _ _ _ _ _ fun c => ?_
    cases c <;> infer_instance
  unfold zgethdr
  infer_instance

end Reads

instance shrinks_noxrdRound (a : Unit) : Shrinks left (noxrdRound a) := by
  apply shrinks_first
  intro r
  cases r <;> infer_instance

instance shrinks_noxrd7 : Shrinks left noxrd7 := shrinks_loop ()

instance shrinks_splatRound (a : Unit) : Shrinks left (splatRound a) := by
  apply shrinks_first
  intro r
  cases r <;> infer_instance

instance shrinks_searchRound (a : Search) : Shrinks left (searchRound a) := by
  apply shrinks_first
  intro r
  rcases r with c | _
  · dsimp only
    refine @keeps_ite _ _ _ _ _ _ _ _ (@keeps_ite _ _ _ _ _ _ _
      (@keeps_bind _ _ _ _ _ _ _ _ fun r => ?_) _)
    cases r <;> infer_instance
  · infer_instance

/-- A header takes up some of the line. -/
instance shrinks_zgethdr : Shrinks left zgethdr := by
  have hclear : Keeps NotMore (modify fun s : State => { s with rxframeind := 0, rxtype := 0 }) :=
    keeps_header fun _ => rfl
  unfold zgethdr
  refine @shrinks_then _ _ _ _ _ _ hclear fun _ => ?_
  refine shrinks_then fun s => shrinks_first fun c => ?_
  cases c <;> infer_instance

/-! ## Section 2: Bytes into a header -/

/-- `get` reads `w` as `k`, whatever comes behind it. -/
def ReadsAs (get : ZmodemM Code) (z : Bool) (k : Code) (w : List Byte) : Prop :=
  ∀ s w' rest, s.zctlesc = z → Brings s (w ++ w') rest → get s = (some k, s.skip w.length)

theorem readsAs_word {z : Bool} {k : Code} {w : List Byte} (h : Word z k w) :
    ReadsAs zdlread z k w := by
  intro s w' rest hz hs
  subst hz
  exact zdlread_word h hs

/-- A store does not touch the line. -/
structure Quiet (put : ℕ → Byte → State → State) : Prop where
  line : ∀ i c s, (put i c s).line = s.line
  zctlesc : ∀ i c s, (put i c s).zctlesc = s.zctlesc
  skip : ∀ i c s n, put i c (s.skip n) = (put i c s).skip n

theorem quiet_putHdr : Quiet putHdr := ⟨fun _ _ _ => rfl, fun _ _ _ => rfl, fun _ _ _ _ => rfl⟩

theorem quiet_putNothing : Quiet putNothing :=
  ⟨fun _ _ _ => rfl, fun _ _ _ => rfl, fun _ _ _ _ => rfl⟩

/-- One store after the other. -/
def putAll (put : ℕ → Byte → State → State) : ℕ → List Byte → State → State
  | _, [], s => s
  | i, b :: bs, s => putAll put (i + 1) bs (put i b s)

section PutAll

variable {put : ℕ → Byte → State → State} (h : Quiet put) (i : ℕ) (bs : List Byte) (s : State)
include h

theorem putAll_skip (n : ℕ) : putAll put i bs (s.skip n) = (putAll put i bs s).skip n := by
  induction bs generalizing i s with
  | nil => rfl
  | cons b bs ih =>
    show putAll put (i + 1) bs (put i b (s.skip n)) = _
    rw [h.skip, ih]
    rfl

end PutAll

@[simp] theorem putAll_putNothing (i : ℕ) (bs : List Byte) (s : State) :
    putAll putNothing i bs s = s := by
  induction bs generalizing i with
  | nil => rfl
  | cons b bs ih => exact ih (i + 1)

theorem toList_hdr (hdr : Hdr) : hdr.toList = [hdr[0], hdr[1], hdr[2], hdr[3]] := by
  apply List.ext_getElem
  · simp
  · intro i h₁ h₂
    have hi : i < 4 := h₂
    rcases (by omega : i = 0 ∨ i = 1 ∨ i = 2 ∨ i = 3) with rfl | rfl | rfl | rfl <;> simp

/-- The bytes from index `i` on into a header. -/
def setAll : ℕ → List Byte → Hdr → Hdr
  | _, [], h => h
  | i, b :: bs, h => setAll (i + 1) bs (h.setIfInBounds i b)

theorem putAll_putHdr_eq (i : ℕ) (bs : List Byte) (s : State) :
    putAll putHdr i bs s = { s with rxhdr := setAll i bs s.rxhdr } := by
  induction bs generalizing i s with
  | nil => rfl
  | cons b bs ih =>
    rw [putAll, ih]
    rfl

/-- The four bytes of a header are the header. -/
theorem putAll_putHdr (hdr : Hdr) (s : State) :
    putAll putHdr 0 hdr.toList s = { s with rxhdr := hdr } := by
  have hset : setAll 0 hdr.toList s.rxhdr = hdr := by
    rw [toList_hdr, setAll, setAll, setAll, setAll, setAll]
    ext i hi
    rcases (by omega : i = 0 ∨ i = 1 ∨ i = 2 ∨ i = 3) with rfl | rfl | rfl | rfl <;> simp
  rw [putAll_putHdr_eq, hset]

/-- **`readBytes` reads codes** as the bytes they were made from, and takes the check-sum over
them. -/
theorem readBytes_codes {get : ZmodemM Code} {f : Fcs} {put : ℕ → Byte → State → State}
    (hput : Quiet put) {z : Bool} {bs w w' : List Byte} {rest : List Reading} {s : State}
    (h : CodesOf (fun b => ReadsAs get z (.byte b)) bs w) (hz : s.zctlesc = z)
    (hs : Brings s (w ++ w') rest) (i : ℕ) (crc : BitVec f.width) :
    readBytes get f put bs.length i crc s =
      (some (.inr (f.over crc bs)), (putAll put i bs s).skip w.length) := by
  induction h generalizing s i crc with
  | nil => rfl
  | @cons b u bs v hb _ ih =>
    rw [List.append_assoc] at hs
    have hnext : Brings (put i b (s.skip u.length)) (v ++ w') rest := by
      have htail := hs.skip
      unfold Brings at htail ⊢
      rw [hput.line]
      exact htail
    have hz' : (put i b (s.skip u.length)).zctlesc = z := (hput.zctlesc _ _ _).trans hz
    rw [List.length_cons, readBytes, bind_of_some (hb s (v ++ w') rest hz hs)]
    refine (ih hz' hnext (i + 1) (f.upd b crc)).trans ?_
    rw [hput.skip, putAll_skip hput, State.skip_skip, List.length_append]
    rfl

/-- The state with a header in the globals. -/
def State.withHeader (t : Byte) (hdr : Hdr) (s : State) : State :=
  { s with rxtype := t, rxhdr := hdr }

/-- What comes behind the check-sum of a header. -/
def afterCheck (good : Bool) (t : Byte) (rest : ZmodemM Unit) : ZmodemM Code :=
  if good then do
    rest
    modify fun s => { s with zmodem := true }
    pure (.byte t)
  else pure .error

/-- **A header is read.** -/
theorem receiveHeader_codes {get : ZmodemM Code} {f : Fcs} {rest : ZmodemM Unit} {z : Bool}
    {t : Byte} {hdr : Hdr} {check w w' : List Byte} {more : List Reading} {s : State}
    (h : CodesOf (fun b => ReadsAs get z (.byte b)) (t :: hdr.toList ++ check) w)
    (hcheck : check.length = f.checkLength) (hz : s.zctlesc = z) (hs : Brings s (w ++ w') more) :
    receiveHeader get f rest s =
      afterCheck (f.good (f.over f.start (t :: hdr.toList ++ check))) t rest
        ((s.skip w.length).withHeader t hdr) := by
  rw [List.cons_append] at h
  obtain ⟨u, v, rfl, ht, hrest⟩ := h.exists_of_cons
  obtain ⟨vh, vc, rfl, hh, hc⟩ := hrest.exists_of_append
  rw [List.append_assoc, List.append_assoc] at hs
  -- the type, the four bytes and the check-sum, one after the other
  have htype := ht s (vh ++ (vc ++ w')) more hz hs
  have hbytes := readBytes_codes (s := { s.skip u.length with rxtype := t }) quiet_putHdr hh hz
    hs.skip 0 (f.upd t f.start)
  rw [putAll_putHdr, Vector.length_toList] at hbytes
  have hs₂ : Brings (((s.skip u.length).withHeader t hdr).skip vh.length) (vc ++ w') more :=
    hs.skip.skip
  have hlast := readBytes_codes (s := ((s.skip u.length).withHeader t hdr).skip vh.length)
    quiet_putNothing hc hz hs₂ 0 (f.over (f.upd t f.start) hdr.toList)
  rw [putAll_putNothing, hcheck, ← f.over_append] at hlast
  have hskip : (((s.skip u.length).withHeader t hdr).skip vh.length).skip vc.length =
      (s.skip (u ++ (vh ++ vc)).length).withHeader t hdr := by
    rw [List.length_append, List.length_append, ← State.skip_skip, ← State.skip_skip]
    rfl
  rw [hskip] at hlast
  unfold receiveHeader
  rw [bind_of_some htype]
  refine (bind_of_some hbytes).trans ?_
  exact bind_of_some hlast

/-! ## Section 3: The search -/

section Search

variable {s : State} {c c' : Byte} {ns w : List Byte} {rest : List Reading}

theorem noxrdRound_byte (h : Brings s (c :: w) rest) :
    noxrdRound ⟨⟩ s = (some (noxrdSwitch s.zctlesc (c &&& 0x7f)), s.skip 1) := by
  unfold noxrdRound
  rw [bind_of_some (readline_byte h)]
  rfl

/-- `noxrd7` reads over flow control. -/
theorem noxrd7_byte (hns : ∀ n ∈ ns, IsFlow n)
    (hc : noxrdSwitch s.zctlesc (c &&& 0x7f) = .inr (.byte c'))
    (h : Brings s (ns ++ c :: w) rest) :
    noxrd7 s = (some (.byte c'), s.skip (ns.length + 1)) := by
  induction ns generalizing s with
  | nil =>
    have hround := noxrdRound_byte h
    rw [hc] at hround
    exact loop_of_inr hround
  | cons n ns ih =>
    have hflow : ∀ n, IsFlow n → ∀ z, noxrdSwitch z (n &&& 0x7f) = .inl ⟨⟩ := by decide
    have hround := noxrdRound_byte h
    rw [hflow n (hns n List.mem_cons_self)] at hround
    have hrest := ih (s := s.skip 1) (fun m hm => hns m (List.mem_cons_of_mem n hm)) hc h.tail
    unfold noxrd7 at hrest ⊢
    rw [loop_of_inl (descends_of_shrinks inferInstance) hround, hrest, State.skip_skip,
      List.length_cons, Nat.add_comm 1]

/-- The loop at `splat`, over pads and flow control. -/
theorem splatLoop {k : ℕ} {u : List Byte} (hu : Interspersed (List.replicate k zpad ++ [zdle]) u)
    (h : Brings s (u ++ w) rest) :
    loop left splatRound ⟨⟩ s = (some (.byte zdle), s.skip u.length) := by
  have hpad : ∀ z, noxrdSwitch z (zpad &&& 0x7f) = .inr (.byte zpad) := by decide
  have hdle : ∀ z, noxrdSwitch z (zdle &&& 0x7f) = .inr (.byte zdle) := by decide
  induction k generalizing s u with
  | zero =>
    obtain ⟨ns, x, rfl, hns, hnil⟩ := hu.exists_of_cons
    cases hnil
    rw [List.append_assoc] at h
    have hread := noxrd7_byte hns (hdle s.zctlesc) h
    have hround : splatRound ⟨⟩ s = (some (.inr (.byte zdle)), s.skip (ns.length + 1)) := by
      unfold splatRound
      rw [bind_of_some hread]
      rfl
    rw [loop_of_inr hround, List.length_append, List.length_singleton]
  | succ k ih =>
    rw [List.replicate_succ, List.cons_append] at hu
    obtain ⟨ns, x, rfl, hns, hx⟩ := hu.exists_of_cons
    have h' : Brings s ((ns ++ [zpad]) ++ (x ++ w)) rest := by
      simpa using h
    have hread := noxrd7_byte (w := x ++ w) hns (hpad s.zctlesc) (by simpa using h)
    have hround : splatRound ⟨⟩ s = (some (.inl ⟨⟩), s.skip (ns.length + 1)) := by
      unfold splatRound
      rw [bind_of_some hread]
      rfl
    have hnext := h'.skip
    rw [List.length_append, List.length_singleton] at hnext
    rw [loop_of_inl (descends_of_shrinks inferInstance) hround, ih hx hnext, State.skip_skip,
      List.length_append, List.length_cons]
    congr 2
    omega

/-- A byte that is no part of a header. -/
def IsGarbage (c : Byte) : Prop := c ≠ can ∧ c ≠ zpad ∧ c ≠ zpad ||| 0x80

instance (c : Byte) : Decidable (IsGarbage c) := inferInstanceAs (Decidable (_ ∧ _))

/-- The search reads over as much garbage as it counts. -/
theorem searchLoop_garbage {g : List Byte} {n : ℤ} (hg : ∀ c ∈ g, IsGarbage c)
    (hn : g.length < n) (h : Brings s (g ++ w) rest) :
    loop left searchRound ⟨n, 5⟩ s = loop left searchRound ⟨n - g.length, 5⟩ (s.skip g.length) := by
  induction g generalizing s n with
  | nil =>
    rw [List.length_nil, State.skip_zero, Nat.cast_zero, sub_zero]
  | cons c g ih =>
    rw [List.length_cons, Nat.cast_add, Nat.cast_one] at hn
    have hc := hg c List.mem_cons_self
    have hround : searchRound ⟨n, 5⟩ s = (some (.inl ⟨n - 1, 5⟩), s.skip 1) := by
      have hpad : ¬ (c = zpad ∨ c = zpad ||| 0x80) := fun h => h.elim hc.2.1 hc.2.2
      have hpos : n - 1 ≠ 0 := by omega
      unfold searchRound
      rw [bind_of_some (readline_byte h)]
      dsimp only
      rw [if_neg hc.1, if_neg hpad, garbage, if_neg hpos]
      rfl
    rw [loop_of_inl (descends_of_shrinks inferInstance) hround,
      ih (fun m hm => hg m (List.mem_cons_of_mem c hm)) (by omega) h.tail, State.skip_skip,
      List.length_cons, Nat.add_comm 1, Nat.cast_add, Nat.cast_one, sub_sub, add_comm (1 : ℤ)]

/-- From a pad on: the rest of the pads, the ZDLE, and what comes behind it. -/
theorem searchRound_pad {k : ℕ} {u : List Byte} {n : ℤ}
    (hu : Interspersed (List.replicate k zpad ++ [zdle]) u)
    (h : Brings s (zpad :: (u ++ w)) rest) :
    searchRound ⟨n, 5⟩ s = frameIndicator ⟨n, 5⟩ (s.skip (1 + u.length)) := by
  have hloop := splatLoop hu h.tail
  rw [State.skip_skip] at hloop
  unfold searchRound
  rw [bind_of_some (readline_byte h)]
  exact (bind_of_some hloop).trans rfl

end Search

/-- The state with an indicator of frames. -/
def State.withFrame (ind : Byte) (s : State) : State := { s with rxframeind := ind }

/-- The indicator, and the header behind it. -/
theorem frameIndicator_eq {s s' : State} {a : Search} {v w : List Byte} {rest : List Reading}
    {ind : Byte} {c : Code} {receive : ZmodemM Code}
    (hind : ind = zbin ∧ receive = zrbhdr ∨ ind = zbin32 ∧ receive = zrbhdr32 ∨
      ind = zhex ∧ receive = zrhhdr)
    (hv : Interspersed [ind] v) (h : Brings s (v ++ w) rest)
    (hreceive : receive ((s.withFrame ind).skip v.length) = (some c, s')) :
    frameIndicator a s = (some (.inr c), s') := by
  obtain ⟨ns, x, rfl, hns, hnil⟩ := hv.exists_of_cons
  cases hnil
  rw [List.append_assoc] at h
  rw [List.length_append, List.length_singleton] at hreceive
  have hplain : ∀ z, noxrdSwitch z (ind &&& 0x7f) = .inr (.byte ind) := by
    rcases hind with ⟨rfl, -⟩ | ⟨rfl, -⟩ | ⟨rfl, -⟩ <;> decide
  unfold frameIndicator
  rw [bind_of_some (noxrd7_byte hns (hplain s.zctlesc) h)]
  rcases hind with ⟨rfl, rfl⟩ | ⟨rfl, rfl⟩ | ⟨rfl, rfl⟩ <;> exact bind_of_some hreceive

/-- **A header is found** behind garbage: what comes of it is what the rest makes of it. -/
theorem zgethdr_of_header {s s' : State} {k : ℕ} {g u v w : List Byte} {rest : List Reading}
    {ind : Byte} {c : Code} {receive : ZmodemM Code} (hc : c ≠ .gotCan)
    (hind : ind = zbin ∧ receive = zrbhdr ∨ ind = zbin32 ∧ receive = zrbhdr32 ∨
      ind = zhex ∧ receive = zrhhdr)
    (hg : ∀ c ∈ g, IsGarbage c) (hn : g.length < s.zrwindow + s.baudrate)
    (hu : Interspersed (List.replicate k zpad ++ [zdle]) u) (hv : Interspersed [ind] v)
    (h : Brings s (g ++ zpad :: (u ++ (v ++ w))) rest)
    (hreceive : receive (({ s with rxtype := 0 }.withFrame ind).skip
      (g.length + (1 + u.length) + v.length)) = (some c, s')) :
    zgethdr s = (some c, s') := by
  -- the variables are cleared first
  have h₀ : Brings { s with rxframeind := 0, rxtype := 0 } (g ++ zpad :: (u ++ (v ++ w))) rest := h
  have hround := searchRound_pad (n := s.zrwindow + s.baudrate - g.length) hu h₀.skip
  rw [State.skip_skip] at hround
  have hv₀ : Brings ({ s with rxframeind := 0, rxtype := 0 }.skip (g.length + (1 + u.length)))
      (v ++ w) rest := by
    rw [← State.skip_skip, Nat.add_comm 1]
    exact Brings.skip (w := zpad :: u) h₀.skip
  rw [← State.skip_skip] at hreceive
  have hfound := frameIndicator_eq (a := ⟨s.zrwindow + s.baudrate - g.length, 5⟩) hind hv hv₀
    hreceive
  unfold zgethdr
  show (loop left searchRound ⟨s.zrwindow + s.baudrate, 5⟩ >>= _) _ = _
  have hsearch : loop left searchRound ⟨s.zrwindow + s.baudrate, 5⟩
      { s with rxframeind := 0, rxtype := 0 } = (some c, s') := by
    rw [searchLoop_garbage hg hn h₀]
    exact loop_of_inr (hround.trans hfound)
  refine (bind_of_some hsearch).trans ?_
  cases c with
  | gotCan => exact absurd rfl hc
  | _ => rfl

/-! ## Section 4: Binary headers -/

/-- The check-sum that a sender with `Txfcs32` takes, and the indicator of its frames. -/
def fcsOf (txfcs32 : Bool) : Fcs := if txfcs32 then fcs32 else fcs16

def indOf (txfcs32 : Bool) : Byte := if txfcs32 then zbin32 else zbin

/-- The bits of bytes in the order in which the check-sum takes them. -/
def bitsOf (txfcs32 : Bool) (bs : List Byte) : List Bool :=
  if txfcs32 then msgBits bs else bs.flatMap fun b => (lsbBits b 8).reverse

theorem lawful_fcsOf (b : Bool) : (fcsOf b).Lawful (bitsOf b) := by
  cases b
  · exact lawful16
  · exact lawful32

theorem sends_sendHeader {z : Bool} (f : Fcs) (ind type : Byte) (hdr : Hdr) (s : State)
    (hz : z = true → s.zctlesc = true) :
    ∃ w, CodesOf (fun b => Word z (.byte b))
        (type :: hdr.toList ++ f.check (f.over f.start (type :: hdr.toList))) w ∧
      Sends (ind :: w) s (sendHeader f ind type hdr s) := by
  have hfirst := sends_sendline ind s
  obtain ⟨w₁, hw₁, hs₁⟩ := sends_zsendlines [type] (sendline ind s)
    fun h => hfirst.zctlesc.trans (hz h)
  obtain ⟨w₂, hw₂, hs₂⟩ := sends_zsendlines hdr.toList (zsendlines [type] (sendline ind s))
    fun h => (hfirst.trans hs₁).zctlesc.trans (hz h)
  obtain ⟨w₃, hw₃, hs₃⟩ := sends_zsendlines (f.check (f.over f.start (type :: hdr.toList)))
    (zsendlines hdr.toList (zsendlines [type] (sendline ind s)))
    fun h => ((hfirst.trans hs₁).trans hs₂).zctlesc.trans (hz h)
  refine ⟨w₁ ++ w₂ ++ w₃, (hw₁.append hw₂).append hw₃, ?_⟩
  have hsends := ((hfirst.trans hs₁).trans hs₂).trans hs₃
  rw [List.singleton_append, List.cons_append, List.cons_append] at hsends
  exact hsends

/-- What `zsbhdr` sends, without nulls in front. -/
theorem sends_zsbhdr {z : Bool} (type : Byte) (hdr : Hdr) (s : State)
    (hz : z = true → s.zctlesc = true) (hnulls : type = zdata → s.znulls = 0) :
    ∃ w, CodesOf (fun b => Word z (.byte b)) (type :: hdr.toList ++
        (fcsOf s.txfcs32).check ((fcsOf s.txfcs32).over (fcsOf s.txfcs32).start
          (type :: hdr.toList))) w ∧
      Sends (zpad :: zdle :: indOf s.txfcs32 :: w) s (zsbhdr type hdr s) := by
  have hstart : (if type = zdata then zsendlines (List.replicate s.znulls 0) s else s) = s := by
    split
    · rw [hnulls ‹_›]
      rfl
    · rfl
  have hpads : Sends [zpad, zdle] s (startFrame s) := by
    unfold Sends startFrame sendline
    simp
  obtain ⟨w, hw, hsends⟩ := sends_sendHeader (fcsOf s.txfcs32) (indOf s.txfcs32) type hdr
    (startFrame s) hz
  have hsame : zsbhdr type hdr s =
      sendHeader (fcsOf s.txfcs32) (indOf s.txfcs32) type hdr (startFrame s) := by
    have hcrc : (startFrame s).crc32t = s.txfcs32 := rfl
    unfold zsbhdr
    rw [hstart]
    dsimp only
    rw [hcrc]
    cases s.txfcs32 <;> rfl
  rw [hsame]
  exact ⟨w, hw, hpads.trans hsends⟩

/-- The state after a header. -/
def State.afterHeader (ind t : Byte) (hdr : Hdr) (s : State) : State :=
  { s with rxframeind := ind, rxtype := t, rxhdr := hdr, zmodem := true }

/-- **A binary header is read** as it was sent: behind garbage, and with flow control in it. -/
theorem zgethdr_zsbhdr {tx rx : State} {type : Byte} {hdr : Hdr} {g w line w' : List Byte}
    {rest : List Reading} (hnulls : type = zdata → tx.znulls = 0)
    (hesc : rx.zctlesc = true → tx.zctlesc = true)
    (hg : ∀ c ∈ g, IsGarbage c) (hn : g.length < rx.zrwindow + rx.baudrate)
    (hw : (zsbhdr type hdr tx).out = tx.out ++ w) (hline : Interspersed w (zpad :: line))
    (h : Brings rx (g ++ zpad :: line ++ w') rest) :
    zgethdr rx = (some (.byte type),
      (rx.skip (g ++ zpad :: line).length).afterHeader (indOf tx.txfcs32) type hdr) := by
  obtain ⟨codes, hcodes, hsends⟩ := sends_zsbhdr type hdr tx hesc hnulls
  have hlawful := lawful_fcsOf tx.txfcs32
  obtain rfl := List.append_cancel_left (hw.symm.trans hsends.out)
  -- the line, piece by piece
  have hpads : Interspersed ([zdle] ++ ([indOf tx.txfcs32] ++ codes)) line := by
    cases hline with
    | keep h => exact h
    | flow hn _ => exact absurd hn (by decide)
  obtain ⟨u, line₁, rfl, hu, hline₁⟩ := hpads.exists_of_append
  obtain ⟨v, line₂, rfl, hv, hline₂⟩ := hline₁.exists_of_append
  have hread := (hcodes.interspersed hline₂).mono fun b w => readsAs_word
  have hbrings : Brings rx (g ++ zpad :: (u ++ (v ++ (line₂ ++ w')))) rest := by
    simpa using h
  have hlast : Brings (({ rx with rxtype := 0 }.withFrame (indOf tx.txfcs32)).skip
      (g.length + (1 + u.length) + v.length)) (line₂ ++ w') rest := by
    have hskip : Brings (rx.skip (g ++ zpad :: (u ++ v)).length) (line₂ ++ w') rest :=
      Brings.skip (by simpa using h)
    have hlen : (g ++ zpad :: (u ++ v)).length = g.length + (1 + u.length) + v.length := by
      simp
      omega
    rwa [hlen] at hskip
  have hgood : (fcsOf tx.txfcs32).good ((fcsOf tx.txfcs32).over (fcsOf tx.txfcs32).start
      (type :: hdr.toList ++ (fcsOf tx.txfcs32).check ((fcsOf tx.txfcs32).over
        (fcsOf tx.txfcs32).start (type :: hdr.toList)))) = true := by
    rw [Fcs.over_append]
    exact hlawful.good_check _
  have hheader := fun s hz => @receiveHeader_codes _ _ (pure ()) _ _ _ _ _ w' rest s hread
    (hlawful.length_check _) hz
  rw [hgood] at hheader
  have hreceive : (if tx.txfcs32 then zrbhdr32 else zrbhdr) =
      receiveHeader zdlread (fcsOf tx.txfcs32) (pure ()) := by
    cases tx.txfcs32 <;> rfl
  refine zgethdr_of_header (k := 0) Code.noConfusion ?_ hg hn hu hv hbrings
    ((congrFun hreceive _).trans ((hheader (({ rx with rxtype := 0 }.withFrame
      (indOf tx.txfcs32)).skip (g.length + (1 + u.length) + v.length)) rfl hlast).trans ?_))
  · cases tx.txfcs32
    · exact Or.inl ⟨rfl, rfl⟩
    · exact Or.inr (Or.inl ⟨rfl, rfl⟩)
  · have hlen : (g ++ zpad :: (u ++ (v ++ line₂))).length =
        g.length + (1 + u.length) + v.length + line₂.length := by
      simp
      omega
    rw [State.skip_skip, ← hlen]
    rfl

/-- A blank before the header, and an XOFF in it. -/
theorem zgethdr_zsbhdr_zrinit :
    ∃ s', zgethdr { State.initial with
        line := ⟨[0x20, 0x2a, 0x13, 0x18, 0x41, 0x01, 0x18, 0x51, 0x18, 0x58, 0xff, 0x18, 0xd1,
          0xbd, 0xe7], []⟩ } = (some (.byte zrinit), s') ∧
        s'.rxhdr = #v[0x11, 0x18, 0xff, 0x91] := by
  have hw : (zsbhdr zrinit #v[0x11, 0x18, 0xff, 0x91] State.initial).out =
      [] ++ [0x2a, 0x18, 0x41, 0x01, 0x18, 0x51, 0x18, 0x58, 0xff, 0x18, 0xd1, 0xbd, 0xe7] := by
    decide +kernel
  have hline : Brings { State.initial with
      line := ⟨[0x20, 0x2a, 0x13, 0x18, 0x41, 0x01, 0x18, 0x51, 0x18, 0x58, 0xff, 0x18, 0xd1, 0xbd,
        0xe7], []⟩ } ([0x20] ++ zpad :: [0x13, 0x18, 0x41, 0x01, 0x18, 0x51, 0x18, 0x58, 0xff, 0x18,
          0xd1, 0xbd, 0xe7] ++ []) [] := rfl
  exact ⟨_, zgethdr_zsbhdr (by decide) (by decide) (by decide) (by decide) hw
    (.keep (.flow (by decide) (Interspersed.refl _))) hline, rfl⟩

/-! ## Section 5: Headers in hexadecimal digits -/

/-- The digits of a byte. -/
def hexOf (b : Byte) : List Byte :=
  [hexDigits.getD ((b &&& 0xf0) >>> 4).toNat 0, hexDigits.getD (b &&& 0xf).toNat 0]

theorem sends_zputhexs (bs : List Byte) (s : State) :
    ∃ w, CodesOf (fun b w => w = hexOf b) bs w ∧ Sends w s (zputhexs bs s) := by
  induction bs generalizing s with
  | nil => exact ⟨[], .nil, sends_nil s⟩
  | cons b bs ih =>
    have hfirst : Sends (hexOf b) s (zputhex b s) := by
      unfold Sends zputhex sendline hexOf
      simp
    obtain ⟨w, hw, hsends⟩ := ih (zputhex b s)
    exact ⟨hexOf b ++ w, .cons rfl hw, hfirst.trans hsends⟩

/-- A digit goes through `noxrd7`, and has its value. -/
theorem hexDigits_spec {i : ℕ} (hi : i < 16) (z : Bool) :
    noxrdSwitch z (hexDigits.getD i 0 &&& 0x7f) = .inr (.byte (hexDigits.getD i 0)) ∧
      hexValue (hexDigits.getD i 0) = some i := by
  have hall : ∀ z, ∀ i : Fin 16,
      noxrdSwitch z (hexDigits.getD i 0 &&& 0x7f) = .inr (.byte (hexDigits.getD i 0)) ∧
        hexValue (hexDigits.getD i 0) = some i.val := by
    decide
  exact hall z ⟨i, hi⟩

/-- Two digits are read as their byte. -/
theorem readsAs_hexOf (z : Bool) (b : Byte) : ReadsAs zgethex z (.byte b) (hexOf b) := by
  intro s w' rest hz hs
  subst hz
  have hparts : ∀ b : Byte, ((b &&& 0xf0) >>> 4).toNat < 16 ∧ (b &&& 0xf).toNat < 16 ∧
      BitVec.ofNat 8 ((b &&& 0xf).toNat + ((b &&& 0xf0) >>> 4).toNat * 16) = b := by
    decide +kernel
  obtain ⟨hhigh, hlow, hb⟩ := hparts b
  have hnil : ∀ n ∈ ([] : List Byte), IsFlow n := fun n hn => absurd hn List.not_mem_nil
  have hfirst := noxrd7_byte hnil (hexDigits_spec hhigh s.zctlesc).1 hs
  have hsecond := noxrd7_byte (s := s.skip 1) hnil (hexDigits_spec hlow s.zctlesc).1 hs.tail
  unfold zgethex
  rw [bind_of_some hfirst]
  dsimp only
  rw [(hexDigits_spec hhigh s.zctlesc).2]
  refine (bind_of_some hsecond).trans ?_
  dsimp only
  rw [(hexDigits_spec hlow s.zctlesc).2]
  dsimp only
  rw [hb, State.skip_skip]
  rfl

theorem length_codesOf_hex {bs w : List Byte} (h : CodesOf (fun b w => w = hexOf b) bs w) :
    w.length = 2 * bs.length := by
  induction h with
  | nil => rfl
  | cons hb _ ih =>
    subst hb
    rw [List.length_append, ih, List.length_cons, hexOf, List.length_cons, List.length_singleton]
    omega

/-- What `zshhdr` sends: the digits, the end of the line, and what may come behind it. -/
theorem sends_zshhdr (type : Byte) (hdr : Hdr) (s : State) :
    ∃ w xs, CodesOf (fun b w => w = hexOf b)
        (type :: hdr.toList ++ fcs16.check (fcs16.over fcs16.start (type :: hdr.toList))) w ∧
      Sends ([zpad, zpad, zdle, zhex] ++ w ++ [0x0d, 0x8a] ++ xs) s (zshhdr type hdr s) := by
  have hpads : Sends [zpad, zpad, zdle, zhex] s
      (sendline zhex (sendline zdle (sendline zpad (sendline zpad s)))) := by
    unfold Sends sendline
    simp
  obtain ⟨w₁, hw₁, hs₁⟩ := sends_zputhexs [type]
    (sendline zhex (sendline zdle (sendline zpad (sendline zpad s))))
  have hs₁' : Sends w₁ (sendline zhex (sendline zdle (sendline zpad (sendline zpad s))))
      { zputhex type (sendline zhex (sendline zdle (sendline zpad (sendline zpad s)))) with
        crc32t := false } := by
    have heq : zputhex type (sendline zhex (sendline zdle (sendline zpad (sendline zpad s)))) =
      _ := hs₁
    unfold Sends
    rw [heq]
  obtain ⟨w₂, hw₂, hs₂⟩ := sends_zputhexs hdr.toList
    { zputhex type (sendline zhex (sendline zdle (sendline zpad (sendline zpad s)))) with
      crc32t := false }
  obtain ⟨w₃, hw₃, hs₃⟩ := sends_zputhexs
    (fcs16.check (fcs16.over fcs16.start (type :: hdr.toList)))
    (zputhexs hdr.toList
      { zputhex type (sendline zhex (sendline zdle (sendline zpad (sendline zpad s)))) with
        crc32t := false })
  have hend : ∀ s : State, Sends [0x0d, 0x8a] s (sendline 0x8a (sendline 0x0d s)) := by
    intro s
    unfold Sends sendline
    simp
  have hxon : ∀ s : State, ∃ xs, Sends xs s (if type ≠ zfin ∧ type ≠ zack then sendline xon s
      else s) := by
    intro s
    split
    · exact ⟨[xon], sends_sendline xon s⟩
    · exact ⟨[], sends_nil s⟩
  obtain ⟨xs, hxs⟩ := hxon _
  refine ⟨w₁ ++ w₂ ++ w₃, xs, (hw₁.append hw₂).append hw₃, ?_⟩
  have hall := ((((hpads.trans hs₁').trans hs₂).trans hs₃).trans (hend _)).trans hxs
  rw [← List.append_assoc, ← List.append_assoc]
  exact hall

theorem throwCrLf_end {s : State} {c : Byte} {w : List Byte} {rest : List Reading}
    (h : Brings s (0x0d :: c :: w) rest) : throwCrLf s = (some (), s.skip 2) := by
  unfold throwCrLf
  rw [bind_of_some (readline_byte h)]
  refine (bind_of_some (readline_byte h.tail)).trans ?_
  rw [State.skip_skip]
  rfl

/-- **A hexadecimal header is read** as it was sent, up to the end of its line. -/
theorem zgethdr_zshhdr {tx rx : State} {type : Byte} {hdr : Hdr} {g w w' : List Byte}
    {rest : List Reading} (hg : ∀ c ∈ g, IsGarbage c) (hn : g.length < rx.zrwindow + rx.baudrate)
    (hw : (zshhdr type hdr tx).out = tx.out ++ w) (h : Brings rx (g ++ w.take 20 ++ w') rest) :
    zgethdr rx = (some (.byte type), (rx.skip (g.length + 20)).afterHeader zhex type hdr) := by
  obtain ⟨codes, xs, hcodes, hsends⟩ := sends_zshhdr type hdr tx
  obtain rfl := List.append_cancel_left (hw.symm.trans hsends.out)
  have hlen : codes.length = 14 := by
    rw [length_codesOf_hex hcodes, List.length_append, List.length_cons, Vector.length_toList]
    rfl
  have hread := hcodes.mono (Q := fun b => ReadsAs zgethex rx.zctlesc (.byte b)) fun b w hb => by
    rw [hb]
    exact readsAs_hexOf _ b
  have htake : ([zpad, zpad, zdle, zhex] ++ codes ++ [0x0d, 0x8a] ++ xs).take 20 =
      [zpad, zpad, zdle, zhex] ++ codes ++ [0x0d, 0x8a] := by
    apply List.take_left'
    simp [hlen]
  rw [htake] at h
  have hbrings : Brings rx (g ++ zpad :: ([zpad, zdle] ++ ([zhex] ++
      (codes ++ ([0x0d, 0x8a] ++ w'))))) rest := by
    simpa using h
  have hlast : Brings (({ rx with rxtype := 0 }.withFrame zhex).skip (g.length + (1 + 2) + 1))
      (codes ++ ([0x0d, 0x8a] ++ w')) rest := by
    have hskip : Brings (rx.skip (g ++ [zpad, zpad, zdle, zhex]).length)
        (codes ++ ([0x0d, 0x8a] ++ w')) rest := Brings.skip (by simpa using h)
    rwa [List.length_append] at hskip
  have hgood : fcs16.good (fcs16.over fcs16.start
      (type :: hdr.toList ++ fcs16.check (fcs16.over fcs16.start (type :: hdr.toList)))) =
        true := by
    rw [Fcs.over_append]
    exact lawful16.good_check _
  have hheader := @receiveHeader_codes _ _ throwCrLf _ _ _ _ _ _ rest
    (({ rx with rxtype := 0 }.withFrame zhex).skip (g.length + (1 + 2) + 1)) hread
    (lawful16.length_check _) rfl hlast
  rw [hgood, hlen] at hheader
  -- the end of the line
  have hline := hlast.skip
  rw [hlen] at hline
  have hthrow := throwCrLf_end (s := ((({ rx with rxtype := 0 }.withFrame zhex).skip
    (g.length + (1 + 2) + 1)).skip 14).withHeader type hdr) hline
  refine zgethdr_of_header (k := 1) Code.noConfusion (Or.inr (Or.inr ⟨rfl, rfl⟩)) hg hn
    (Interspersed.refl _) (Interspersed.refl _) hbrings
    (hheader.trans ((bind_of_some hthrow).trans ?_))
  have hskip : ∀ s : State, ((s.skip (g.length + (1 + 2) + 1)).skip 14).skip 2 =
      s.skip (g.length + 20) := by
    intro s
    rw [State.skip_skip, State.skip_skip]
  rw [← hskip rx]
  rfl

theorem zgethdr_zshhdr_zrpos :
    ∃ s', zgethdr { State.initial with
        line := ⟨[0x20], [[0x2a, 0x2a, 0x18, 0x42, 0x30, 0x39, 0x31, 0x31, 0x31, 0x38, 0x66, 0x66,
          0x39, 0x31, 0x62, 0x66, 0x63, 0x61, 0x0d, 0x8a, 0x11]]⟩ } = (some (.byte zrpos), s') ∧
      s'.rxhdr = #v[0x11, 0x18, 0xff, 0x91] := by
  have hw : (zshhdr zrpos #v[0x11, 0x18, 0xff, 0x91] State.initial).out =
      [] ++ [0x2a, 0x2a, 0x18, 0x42, 0x30, 0x39, 0x31, 0x31, 0x31, 0x38, 0x66, 0x66, 0x39, 0x31,
        0x62, 0x66, 0x63, 0x61, 0x0d, 0x8a, 0x11] := by
    decide +kernel
  have hline : Brings { State.initial with
      line := ⟨[0x20], [[0x2a, 0x2a, 0x18, 0x42, 0x30, 0x39, 0x31, 0x31, 0x31, 0x38, 0x66, 0x66,
        0x39, 0x31, 0x62, 0x66, 0x63, 0x61, 0x0d, 0x8a, 0x11]]⟩ }
      ([0x20] ++ [0x2a, 0x2a, 0x18, 0x42, 0x30, 0x39, 0x31, 0x31, 0x31, 0x38, 0x66, 0x66, 0x39,
        0x31, 0x62, 0x66, 0x63, 0x61, 0x0d, 0x8a, 0x11].take 20 ++ [0x11]) [] := rfl
  exact ⟨_, zgethdr_zshhdr (by decide) (by decide) hw hline, rfl⟩

end Karnix.Zmodem
