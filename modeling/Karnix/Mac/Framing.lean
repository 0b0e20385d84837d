import Karnix.Mac.Driver

/-!
# Framing

What `mac_tx_packet` pushes for a packet, and how `mac_rx` puts it together again, whatever
chains of pbufs the packet lies in on the two sides.
-/

namespace Karnix.Mac

open Karnix.Library

/-! ## Section 1: The words of a packet -/

/-- The words of a packet: its length in bits, and its bytes. -/
def frameWords (bytes : List Byte) : List (BitVec 32) :=
  BitVec.ofNat 32 (bytes.length * 8) :: packWords bytes

/-- The words filled so far hold `full`, and the open word holds `tail`. -/
structure TxFill.Holds (t : TxFill) (full tail : List Byte) : Prop where
  pushed : t.pushed = packWords full
  whole : 4 ∣ full.length
  word : t.word = leWord tail
  idx : t.byteIdx = tail.length
  short : tail.length < 4

/-- **Step lemma.**  One more byte is in the open word, or closes it. -/
theorem TxFill.Holds.putByte {t : TxFill} {full tail : List Byte} (h : t.Holds full tail)
    (b : Byte) : ∃ full' tail', (t.putByte b).Holds full' tail' ∧
      full' ++ tail' = full ++ tail ++ [b] := by
  have hword : t.word ||| b.setWidth 32 <<< (t.byteIdx * 8) = leWord (tail ++ [b]) := by
    rw [leWord_concat, h.word, h.idx, Nat.mul_comm]
  have hlen : (tail ++ [b]).length = tail.length + 1 := List.length_append
  unfold TxFill.putByte
  rw [hword]
  by_cases hlast : t.byteIdx = 3
  · -- the fourth byte of the word
    have hfour : (tail ++ [b]).length = 4 := by rw [hlen, ← h.idx, hlast]
    have hpack : packWords (tail ++ [b]) = [leWord (tail ++ [b])] := by
      have hne : tail ++ [b] ≠ [] := List.append_ne_nil_of_right_ne_nil tail (List.cons_ne_nil b [])
      rw [packWords_of_ne_nil hne, List.take_of_length_le hfour.le, List.drop_eq_nil_of_le hfour.le,
        packWords_nil]
    refine ⟨full ++ (tail ++ [b]), [], ⟨?_, ?_, ?_, ?_, Nat.zero_lt_succ 3⟩, by simp⟩
    · simp only [if_pos hlast]
      rw [packWords_append h.whole, hpack, h.pushed]
    · rw [List.length_append, hfour]
      exact Nat.dvd_add h.whole (Nat.dvd_refl 4)
    · simp only [if_pos hlast]
      rfl
    · simp only [if_pos hlast]
      rfl
  · have hidx := h.idx
    have hshort := h.short
    refine ⟨full, tail ++ [b], ⟨?_, h.whole, ?_, ?_, by omega⟩, by rw [List.append_assoc]⟩
    · simpa only [if_neg hlast] using h.pushed
    · simp only [if_neg hlast]
    · simp only [if_neg hlast]
      rw [hlen, hidx]

theorem TxFill.Holds.putBytes {t : TxFill} {full tail : List Byte} (h : t.Holds full tail)
    (bs : List Byte) : ∃ full' tail', (bs.foldl TxFill.putByte t).Holds full' tail' ∧
      full' ++ tail' = full ++ tail ++ bs := by
  induction bs generalizing t full tail with
  | nil => exact ⟨full, tail, h, (List.append_nil _).symm⟩
  | cons b bs ih =>
    obtain ⟨full₁, tail₁, h₁, heq₁⟩ := h.putByte b
    obtain ⟨full₂, tail₂, h₂, heq₂⟩ := ih h₁
    exact ⟨full₂, tail₂, h₂, by rw [heq₂, heq₁, List.append_assoc, List.singleton_append]⟩

theorem TxFill.foldl_putPbuf (mem : Memory Byte) (p : List Pbuf) (t : TxFill) :
    p.foldl (TxFill.putPbuf mem) t = (bytesOf mem p).foldl TxFill.putByte t := by
  induction p generalizing t with
  | nil => rfl
  | cons q qs ih => rw [List.foldl_cons, ih, bytesOf_cons, List.foldl_append, TxFill.putPbuf]

theorem TxFill.Holds.finish {t : TxFill} {full tail : List Byte} (h : t.Holds full tail) :
    t.finish = packWords (full ++ tail) := by
  rw [packWords_append h.whole, ← h.pushed, TxFill.finish, h.idx, h.word]
  cases tail with
  -- the packet ends with a whole word
  | nil => simp
  | cons b bs =>
    rw [if_pos (show (b :: bs).length ≠ 0 from Nat.succ_ne_zero _),
      packWords_of_ne_nil (List.cons_ne_nil b bs),
      List.take_of_length_le (Nat.le_of_lt h.short),
      List.drop_eq_nil_of_le (Nat.le_of_lt h.short), packWords_nil]

/-- **Sending.**  Whatever pbufs a packet lies in, its words are pushed. -/
theorem pushed_macTxPacket {p : List Pbuf} (hp : p ≠ []) (mem : Memory Byte) :
    (macTxPacket false p mem).pushed = frameWords (bytesOf mem (dropHeader ethPadSize p)) := by
  have hstart : TxFill.Holds ⟨0, 0, []⟩ [] [] := ⟨rfl, Nat.dvd_zero 4, rfl, rfl, Nat.zero_lt_succ 3⟩
  obtain ⟨full, tail, hfill, hall⟩ := hstart.putBytes (bytesOf mem (dropHeader ethPadSize p))
  rw [macTxPacket, if_neg (by simp [hp]), frameWords, length_bytesOf]
  simp only [TxFill.foldl_putPbuf]
  rw [hfill.finish, hall]
  rfl

/-! ## Section 2: Filling a chain -/

/-- The addresses of the bytes of a chain. -/
def cells (p : List Pbuf) : List ℕ := p.flatMap fun q => List.range' q.payload q.len

/-- Empty pbufs are at the end of the chain only. -/
def EmptyLast (p : List Pbuf) : Prop := p.Pairwise fun q q' => 0 < q'.len → 0 < q.len

/-- The part of the chain that is not filled yet. -/
def Copy.open (c : Copy) : List Pbuf := ⟨c.payload, c.qLeft, 0⟩ :: c.next

theorem cells_cons (q : Pbuf) (qs : List Pbuf) :
    cells (q :: qs) = List.range' q.payload q.len ++ cells qs := rfl

theorem bytesOf_eq_map (mem : Memory Byte) (p : List Pbuf) : bytesOf mem p = (cells p).map mem := by
  induction p with
  | nil => rfl
  | cons q qs ih =>
    rw [bytesOf_cons, ih, cells_cons, List.map_append, List.range'_eq_map_range, List.map_map]
    rfl

theorem length_cells (p : List Pbuf) : (cells p).length = totLen p := by
  rw [← length_bytesOf (fun _ => 0) p, bytesOf_eq_map, List.length_map]

/-- No byte of an empty pbuf and of all empty ones behind it. -/
theorem EmptyLast.cells_eq_nil {q : Pbuf} {qs : List Pbuf} (h : EmptyLast (q :: qs))
    (hq : q.len = 0) : cells (q :: qs) = [] := by
  obtain ⟨hfirst, -⟩ := List.pairwise_cons.mp h
  apply List.flatMap_eq_nil_iff.mpr
  intro q' hq'
  have hlen : q'.len = 0 := by
    rcases List.mem_cons.mp hq' with rfl | hmem
    · exact hq
    · exact Nat.eq_zero_of_not_pos fun hpos => Nat.ne_of_gt (hfirst q' hmem hpos) hq
  rw [hlen]
  rfl

/-- Where there is a byte to fill, there is a pbuf to go on with. -/
theorem Copy.exists_enter {c : Copy} {a : ℕ} {as : List ℕ} (hempty : EmptyLast c.next)
    (hcells : cells c.open = a :: as) :
    ∃ q qs, c.enter = some { c with next := qs, qLeft := q + 1, payload := a } ∧
      as = List.range' (a + 1) q ++ cells qs ∧ EmptyLast qs := by
  rw [Copy.open, cells_cons] at hcells
  unfold Copy.enter
  cases hq : c.qLeft with
  | zero =>
    -- the next pbuf is entered
    rw [hq, List.range'_zero, List.nil_append] at hcells
    cases hc : c.next with
    | nil => rw [hc] at hcells; cases hcells
    | cons q qs =>
      rw [hc] at hempty hcells
      -- were the pbuf empty, so would be all behind it
      cases hlen : q.len with
      | zero => rw [hempty.cells_eq_nil hlen] at hcells; cases hcells
      | succ k =>
        rw [cells_cons, hlen, List.range'_succ, List.cons_append, List.cons.injEq] at hcells
        obtain ⟨rfl, rfl⟩ := hcells
        refine ⟨k, qs, ?_, rfl, (List.pairwise_cons.mp hempty).2⟩
        simp [hlen]
  | succ k =>
    rw [hq, List.range'_succ, List.cons_append, List.cons.injEq] at hcells
    obtain ⟨rfl, rfl⟩ := hcells
    refine ⟨k, c.next, ?_, rfl, hempty⟩
    rw [if_neg (Nat.succ_ne_zero k), ← hq]

/-- After a byte was stored, the rest of the chain is open. -/
theorem Copy.cells_put (rx : ℕ → BitVec 32) (c : Copy) {a k : ℕ} {qs : List Pbuf} :
    cells (({ c with next := qs, qLeft := k + 1, payload := a } : Copy).fetch rx).put.open =
      List.range' (a + 1) k ++ cells qs := by
  unfold Copy.fetch
  split_ifs <;> rfl

theorem Copy.next_put (rx : ℕ → BitVec 32) (c : Copy) : (c.fetch rx).put.next = c.next := by
  unfold Copy.fetch
  split_ifs <;> rfl

/-- **A chain of the right length is filled**, and the next frame starts with a new one. -/
theorem copyBytes_ends (rx : ℕ → BitVec 32) {n : ℕ} {c : Copy} (hempty : EmptyLast c.next)
    (hlen : (cells c.open).length = n) :
    (copyBytes rx n c).2 = 0 ∧ (copyBytes rx n c).1.qLeft = 0 := by
  -- on the bytes left in the frame, which are as many as the open part of the chain has
  induction n generalizing c with
  | zero =>
    refine ⟨rfl, ?_⟩
    rw [length_cells, Copy.open, totLen_cons] at hlen
    exact Nat.eq_zero_of_add_eq_zero_right hlen
  | succ n ih =>
    obtain ⟨a, as, hcells⟩ := List.exists_cons_of_length_eq_add_one hlen
    obtain ⟨k, qs, henter, has, hqs⟩ := Copy.exists_enter hempty hcells
    rw [copyBytes, henter]
    apply ih
    · rw [Copy.next_put]
      exact hqs
    · rw [Copy.cells_put, ← has]
      rw [hcells] at hlen
      exact Nat.succ.inj hlen

/-! ## Section 3: Taking words apart -/

/-- The FIFO holds `words` from position `pos` on. -/
def Incoming (rx : ℕ → BitVec 32) (pos : ℕ) (words : List (BitVec 32)) : Prop :=
  Memory.load rx pos words.length = words

theorem Incoming.cons {rx : ℕ → BitVec 32} {pos : ℕ} {w : BitVec 32} {ws : List (BitVec 32)} :
    Incoming rx pos (w :: ws) ↔ rx pos = w ∧ Incoming rx (pos + 1) ws := by
  rw [Incoming, Incoming, List.length_cons, Memory.load_succ, List.cons.injEq]

theorem Incoming.append {rx : ℕ → BitVec 32} {pos : ℕ} {ws ws' : List (BitVec 32)} :
    Incoming rx pos (ws ++ ws') ↔ Incoming rx pos ws ∧ Incoming rx (pos + ws.length) ws' := by
  rw [Incoming, Incoming, Incoming, List.length_append, Memory.load_add]
  constructor
  · intro h
    exact List.append_inj h (Memory.length_load ..)
  · rintro ⟨h, h'⟩
    rw [h, h']

/-- Of the rest of the packet, `cur` is in the open word and `later` still in the FIFO. -/
structure Copy.Reads (rx : ℕ → BitVec 32) (c : Copy) (cur later : List Byte) : Prop where
  word : c.word = leWord cur
  lt : c.byteId < 4
  bound : c.byteId + cur.length ≤ 4
  fresh : c.byteId = 0 → cur = []
  full : later ≠ [] → c.byteId = 0 ∨ c.byteId + cur.length = 4
  incoming : Incoming rx c.pos (packWords later)

/-- **Step lemma.**  The next byte of the packet is the one that is stored. -/
theorem Copy.Reads.step {rx : ℕ → BitVec 32} {c : Copy} {cur later : List Byte}
    (h : c.Reads rx cur later) (hne : cur ++ later ≠ []) :
    ∃ b cur' later', cur ++ later = b :: (cur' ++ later') ∧ (c.fetch rx).word.setWidth 8 = b ∧
      (c.fetch rx).put.Reads rx cur' later' ∧
      (c.fetch rx).pos + (packWords later').length = c.pos + (packWords later).length := by
  by_cases hid : c.byteId = 0
  · -- another word is taken out of the FIFO
    obtain rfl := h.fresh hid
    have hlater : later ≠ [] := hne
    obtain ⟨b, rest, rfl⟩ := List.exists_cons_of_ne_nil hlater
    have hpack := packWords_of_ne_nil hlater
    have hin := h.incoming
    rw [hpack, Incoming.cons] at hin
    have hfetch : c.fetch rx = { c with word := leWord (b :: rest.take 3), pos := c.pos + 1 } := by
      rw [Copy.fetch, if_pos hid, hin.1]
      rfl
    rw [hfetch]
    refine ⟨b, rest.take 3, rest.drop 3, by simp, setWidth_leWord b _,
      ⟨?_, Nat.mod_lt _ (by decide), ?_, ?_, ?_, hin.2⟩, ?_⟩
    · exact leWord_shiftRight (List.length_take_le 3 rest)
    · simp only [Copy.put, hid]
      have := List.length_take_le 3 rest
      omega
    · simp [Copy.put, hid]
    · intro hmore
      have hlen : 3 < rest.length := by
        by_contra hshort
        exact hmore (List.drop_eq_nil_of_le (Nat.not_lt.mp hshort))
      simp [Copy.put, hid, Nat.min_eq_left hlen.le]
    · rw [hpack, List.length_cons, List.drop_succ_cons]
      exact Nat.add_right_comm c.pos 1 _
  · -- the open word still has a byte
    obtain ⟨b, cur, rfl⟩ : ∃ b cur', cur = b :: cur' := by
      apply List.exists_cons_of_ne_nil
      rintro rfl
      rcases h.full hne with h0 | h4
      · exact hid h0
      · exact Nat.ne_of_lt h.lt h4
    have hfetch : c.fetch rx = c := if_neg hid
    have hbound := h.bound
    rw [List.length_cons] at hbound
    rw [hfetch]
    refine ⟨b, cur, later, rfl, ?_,
      ⟨?_, Nat.mod_lt _ (by decide), ?_, ?_, ?_, h.incoming⟩, rfl⟩
    · rw [h.word]
      exact setWidth_leWord b cur
    · simp only [Copy.put]
      rw [h.word]
      exact leWord_shiftRight (by omega)
    · simp only [Copy.put]
      omega
    · simp only [Copy.put]
      intro hnext
      exact List.eq_nil_of_length_eq_zero (by omega)
    · intro hmore
      have hfull := h.full hmore
      rw [List.length_cons] at hfull
      simp only [Copy.put]
      omega

theorem Copy.mem_put (rx : ℕ → BitVec 32) (c : Copy) :
    (c.fetch rx).put.mem = c.mem.store c.payload [(c.fetch rx).word.setWidth 8] := by
  unfold Copy.fetch
  split_ifs <;> rfl

theorem Copy.Reads.congr {rx : ℕ → BitVec 32} {c c' : Copy} {cur later : List Byte}
    (h : c.Reads rx cur later) (hword : c'.word = c.word) (hid : c'.byteId = c.byteId)
    (hpos : c'.pos = c.pos) : c'.Reads rx cur later :=
  ⟨hword.trans h.word, hid ▸ h.lt, hid ▸ h.bound, hid ▸ h.fresh, hid ▸ h.full, hpos ▸ h.incoming⟩

/-- **Run lemma.**  The open part of the chain takes in the rest of the packet, the words of
it are used up, and no other memory changes. -/
theorem copyBytes_reads {rx : ℕ → BitVec 32} {n : ℕ} {c : Copy} {cur later : List Byte}
    (h : c.Reads rx cur later) (hempty : EmptyLast c.next) (hcells : (cells c.open).length = n)
    (hlen : (cur ++ later).length = n) (hnodup : (cells c.open).Nodup) :
    (copyBytes rx n c).1.pos = c.pos + (packWords later).length ∧
      (cells c.open).map (copyBytes rx n c).1.mem = cur ++ later ∧
      ∀ a, a ∉ cells c.open → (copyBytes rx n c).1.mem a = c.mem a := by
  induction n generalizing c cur later with
  | zero =>
    obtain ⟨rfl, rfl⟩ := List.append_eq_nil_iff.mp (List.eq_nil_of_length_eq_zero hlen)
    rw [List.eq_nil_of_length_eq_zero hcells]
    exact ⟨rfl, rfl, fun _ _ => rfl⟩
  | succ n ih =>
    obtain ⟨a, as, hopen⟩ := List.exists_cons_of_length_eq_add_one hcells
    obtain ⟨k, qs, henter, has, hqs⟩ := Copy.exists_enter hempty hopen
    rw [hopen] at hcells hnodup
    obtain ⟨hfresh, hnodup⟩ := List.nodup_cons.mp hnodup
    -- the pbuf that is entered, with its first byte at `a`
    let d : Copy := { c with next := qs, qLeft := k + 1, payload := a }
    have hd : d.Reads rx cur later := h.congr rfl rfl rfl
    obtain ⟨b, cur', later', happ, hbyte, hput, hpos⟩ :=
      hd.step (List.ne_nil_of_length_eq_add_one hlen)
    have hput_cells : cells (d.fetch rx).put.open = as := (Copy.cells_put rx c).trans has.symm
    have hput_pos : (d.fetch rx).put.pos = (d.fetch rx).pos := rfl
    obtain ⟨hend, hmap, hframe⟩ := ih hput (by rw [Copy.next_put]; exact hqs)
      (by rw [hput_cells]; exact Nat.succ.inj hcells)
      (by rw [happ] at hlen; exact Nat.succ.inj hlen) (by rw [hput_cells]; exact hnodup)
    rw [hput_cells] at hmap hframe
    have hstep : copyBytes rx (n + 1) c = copyBytes rx n (d.fetch rx).put := by
      rw [copyBytes, henter]
    rw [hstep, hopen]
    refine ⟨?_, ?_, ?_⟩
    · rw [hend, hput_pos, hpos]
    · -- the byte at `a` stays, because no later one is stored there
      rw [List.map_cons, hmap, happ, hframe a hfresh, Copy.mem_put, Memory.store_singleton,
        if_pos rfl, hbyte]
    · intro x hx
      rw [List.mem_cons, not_or] at hx
      rw [hframe x hx.2, Copy.mem_put, Memory.store_singleton, if_neg hx.1]

/-! ## Section 4: Frames -/

/-- A chain for a packet of `n` bytes: the first pbuf has the padding, the rest of the chain
is of the right length, and its payloads do not overlap. -/
structure Segmentation (p : List Pbuf) (n : ℕ) : Prop where
  pad : ∃ q qs, p = q :: qs ∧ ethPadSize ≤ q.len
  total : totLen (dropHeader ethPadSize p) = n
  apart : (cells (dropHeader ethPadSize p)).Nodup

/-- Empty pbufs of the chain lie behind the last byte of the packet. -/
def Compact (p : List Pbuf) : Prop := EmptyLast (dropHeader ethPadSize p)

theorem frameBytes_ofNat {n : ℕ} (h : n ≤ maxFrame) : frameBytes (BitVec.ofNat 32 (n * 8)) = n := by
  have hmax : maxFrame = 2048 := rfl
  have hseven : (7 : BitVec 32).toNat = 7 := rfl
  rw [frameBytes, BitVec.toNat_add, BitVec.toNat_ofNat, hseven]
  omega

theorem Rx.cells_start {s : Rx} (hq : s.qLeft = 0) (p : List Pbuf) :
    cells (s.start p).open = cells p := by
  rw [Copy.open, cells_cons, Rx.start, hq]
  rfl

/-- Where a frame is copied into a chain of the right length, nothing is left of either. -/
theorem copyBytes_start (rx : ℕ → BitVec 32) {p : List Pbuf} {n : ℕ} (hseg : Segmentation p n)
    (hcompact : Compact p) {s : Rx} (hq : s.qLeft = 0) :
    (copyBytes rx n (s.start (dropHeader ethPadSize p))).2 = 0 ∧
      (copyBytes rx n (s.start (dropHeader ethPadSize p))).1.qLeft = 0 := by
  apply copyBytes_ends rx
  · exact hcompact
  · rw [Rx.cells_start hq, length_cells, hseg.total]

/-- **Step lemma.**  A frame is put together, and the FIFO is then at the next one. -/
theorem rxFrame_of_frameWords {rx : ℕ → BitVec 32} {s : Rx} {io : FrameIo} {bytes : List Byte}
    {p : List Pbuf} (hlen : bytes.length ≤ maxFrame)
    (halloc : io.pbufAlloc (bytes.length + ethPadSize) = some p)
    (hseg : Segmentation p bytes.length) (hcompact : Compact p) (hq : s.qLeft = 0)
    (hin : Incoming rx s.pos (frameWords bytes)) :
    (rxFrame rx io s).1.pos = s.pos + (frameWords bytes).length ∧
      (rxFrame rx io s).1.qLeft = 0 ∧
      ∃ packet, (rxFrame rx io s).1.delivered = s.delivered ++ [packet] ∧
        packet.drop ethPadSize = bytes := by
  rw [frameWords, Incoming.cons] at hin
  have hbytes : frameBytes (rx s.pos) = bytes.length := by rw [hin.1, frameBytes_ofNat hlen]
  obtain ⟨hleft, hqLeft⟩ := copyBytes_start rx hseg hcompact hq
  have hreads : (s.start (dropHeader ethPadSize p)).Reads rx [] bytes :=
    ⟨rfl, Nat.zero_lt_succ 3, Nat.zero_le 4, fun _ => rfl, fun _ => Or.inl rfl, hin.2⟩
  have hopen := Rx.cells_start hq (dropHeader ethPadSize p)
  obtain ⟨hpos, hmap, -⟩ := copyBytes_reads (n := bytes.length) hreads hcompact
    (by rw [hopen, length_cells, hseg.total]) rfl (by rw [hopen]; exact hseg.apart)
  rw [hopen] at hmap
  obtain ⟨q, qs, rfl, hpad⟩ := hseg.pad
  simp only [rxFrame, hbytes, if_neg (Nat.not_lt.mpr hlen), halloc, if_pos hleft]
  refine ⟨?_, hqLeft, _, rfl, ?_⟩
  · rw [hpos, frameWords, List.length_cons]
    exact Nat.add_right_comm s.pos 1 _
  · rw [reclaimHeader_dropHeader hpad, drop_bytesOf hpad, bytesOf_eq_map, hmap]
    rfl

/-! ## Section 5: Sequences of packets -/

/-- A packet given to `mac_tx_packet`. -/
structure TxPacket where
  p : List Pbuf
  mem : Memory Byte
  ne_nil : p ≠ []

/-- The bytes of the packet, without the padding. -/
def TxPacket.frame (t : TxPacket) : List Byte := bytesOf t.mem (dropHeader ethPadSize t.p)

def TxPacket.pushed (t : TxPacket) : List (BitVec 32) := (macTxPacket false t.p t.mem).pushed

/-- `mac_rx` is called, and called again, so that it gets to see the packets, and each has a
chain of the right length allocated for it that satisfies `ok`. -/
inductive Receives (ok : List Byte → List Pbuf → Prop) :
    List (List Byte) → List RxEvent → Prop where
  | nil : Receives ok [] []
  | leave {packets : List (List Byte)} {es : List RxEvent} (rest : Receives ok packets es) :
      Receives ok packets (.leave :: es)
  | frame {bytes : List Byte} {packets : List (List Byte)} {es : List RxEvent} {io : FrameIo}
      {p : List Pbuf} (alloc : io.pbufAlloc (bytes.length + ethPadSize) = some p)
      (seg : Segmentation p bytes.length) (accepted : ok bytes p) (rest : Receives ok packets es) :
      Receives ok (bytes :: packets) (.frame io :: es)

/-- The packets come out as they were sent, and exactly their words are taken. -/
def InStep (rx : ℕ → BitVec 32) (s : Rx) (sent : List TxPacket) (es : List RxEvent) : Prop :=
  (run (rxStep rx) s es).pos = s.pos + (sent.flatMap TxPacket.pushed).length ∧
    (run (rxStep rx) s es).delivered.map (List.drop ethPadSize) =
      s.delivered.map (List.drop ethPadSize) ++ sent.map TxPacket.frame

/-- What `mac_rx` accepts: at most 2048 bytes, and no empty pbuf before the last of them. -/
def Accepted (bytes : List Byte) (p : List Pbuf) : Prop := bytes.length ≤ maxFrame ∧ Compact p

theorem TxPacket.pushed_eq (t : TxPacket) : t.pushed = frameWords t.frame :=
  pushed_macTxPacket t.ne_nil t.mem

/-- **Run lemma.**  The words of accepted packets leave the driver at the packet behind. -/
theorem inStep_of_receives {rx : ℕ → BitVec 32} {packets : List (List Byte)} {es : List RxEvent}
    (h : Receives Accepted packets es) {s : Rx} (hq : s.qLeft = 0)
    (hin : Incoming rx s.pos (packets.flatMap frameWords)) :
    (run (rxStep rx) s es).pos = s.pos + (packets.flatMap frameWords).length ∧
      (run (rxStep rx) s es).delivered.map (List.drop ethPadSize) =
        s.delivered.map (List.drop ethPadSize) ++ packets := by
  induction h generalizing s with
  | nil => exact ⟨rfl, (List.append_nil _).symm⟩
  -- between two frames nothing is lost when `mac_rx` returns
  | leave _ ih => exact ih rfl hin
  | @frame bytes packets es io p halloc hseg haccepted _ ih =>
    rw [List.flatMap_cons, Incoming.append] at hin
    obtain ⟨hpos, hqLeft, packet, hdelivered, hpacket⟩ :=
      rxFrame_of_frameWords haccepted.1 halloc hseg haccepted.2 hq hin.1
    have hnext : rxStep rx s (.frame io) = (rxFrame rx io s).1 := rfl
    obtain ⟨hend, hall⟩ := ih (s := (rxFrame rx io s).1) hqLeft (by rw [hpos]; exact hin.2)
    rw [run_cons, hnext, hend, hall, hpos, hdelivered, List.flatMap_cons, List.length_append]
    refine ⟨Nat.add_assoc _ _ _, ?_⟩
    rw [List.map_append, List.map_singleton, hpacket, List.append_assoc, List.singleton_append]

/-- **Framing.**  For every packet `mac_tx_packet` pushes the number of bits and the bytes,
four to a word; and for every sequence of packets that `mac_rx` accepts it takes exactly the
words of them, and puts them together again. -/
theorem macFraming (t : TxPacket) {rx : ℕ → BitVec 32} {s : Rx} {sent : List TxPacket}
    {es : List RxEvent} (hq : s.qLeft = 0) (h : Receives Accepted (sent.map TxPacket.frame) es)
    (hin : Incoming rx s.pos (sent.flatMap TxPacket.pushed)) :
    (t.pushed = BitVec.ofNat 32 (t.frame.length * 8) :: packWords t.frame ∧
      (packWords t.frame).length = (t.frame.length + 3) / 4) ∧ InStep rx s sent es := by
  refine ⟨⟨t.pushed_eq, length_packWords t.frame⟩, ?_⟩
  have hwords : sent.flatMap TxPacket.pushed = (sent.map TxPacket.frame).flatMap frameWords := by
    rw [List.flatMap_map]
    exact List.flatMap_congr fun t _ => t.pushed_eq
  rw [InStep, hwords]
  rw [hwords] at hin
  exact inStep_of_receives h hq hin

/-! ## Section 6: Packets that are sent and received -/

/-- The words of one packet in the receive FIFO. -/
def fifoOf (t : TxPacket) : ℕ → BitVec 32 := Memory.store (fun _ => 0) 0 t.pushed

/-- The driver before its first frame. -/
def Rx.idle : Rx := ⟨0, 0, 0, fun _ => 0, []⟩

/-- `pbuf_alloc` gives this chain, and the stack returns `ERR_OK`. -/
def ioOf (p : List Pbuf) : FrameIo := ⟨fun _ => some p, errOk, id, 0⟩

theorem incoming_fifoOf (t : TxPacket) : Incoming (fifoOf t) 0 t.pushed :=
  Memory.load_store_self _ 0 _

theorem incoming_single (t : TxPacket) :
    Incoming (fifoOf t) Rx.idle.pos ([t].flatMap TxPacket.pushed) := by
  rw [List.flatMap_singleton]
  exact incoming_fifoOf t

theorem receives_single {ok : List Byte → List Pbuf → Prop} {t : TxPacket} {p : List Pbuf}
    (hseg : Segmentation p t.frame.length) (hok : ok t.frame p) :
    Receives ok ([t].map TxPacket.frame) [.frame (ioOf p)] :=
  .frame rfl hseg hok .nil

/-- Five bytes in three pbufs, one of them empty. -/
def fragmented : TxPacket where
  p := [⟨0, 3, 0⟩, ⟨10, 0, 0⟩, ⟨20, 4, 0⟩]
  mem := fun a => BitVec.ofNat 8 a
  ne_nil := List.cons_ne_nil _ _

/-- A pbuf with two bytes of the packet, and one with the other three. -/
def twoPbufs : List Pbuf := [⟨100, 4, 0⟩, ⟨200, 3, 0⟩]

theorem macFraming_fragmented :
    (fragmented.pushed = BitVec.ofNat 32 (fragmented.frame.length * 8) ::
        packWords fragmented.frame ∧
      (packWords fragmented.frame).length = (fragmented.frame.length + 3) / 4) ∧
      InStep (fifoOf fragmented) Rx.idle [fragmented] [.frame (ioOf twoPbufs)] :=
  macFraming fragmented rfl
    (receives_single ⟨⟨_, _, rfl, by decide⟩, by decide, by decide⟩
      ⟨by decide, by unfold Compact EmptyLast; decide⟩)
    (incoming_single fragmented)

/-- A packet of 2049 bytes. -/
def oversized : TxPacket where
  p := [⟨0, 2051, 0⟩]
  mem := fun _ => 0
  ne_nil := List.cons_ne_nil _ _

/-- A packet of one byte. -/
def oneByte : TxPacket where
  p := [⟨0, 3, 0⟩]
  mem := fun _ => 0xAB
  ne_nil := List.cons_ne_nil _ _

/-- An empty pbuf behind the padding, and one for the byte. -/
def emptyFirst : List Pbuf := [⟨0, 2, 0⟩, ⟨100, 1, 0⟩]

theorem frame_oversized : oversized.frame.length = 2049 := by
  rw [TxPacket.frame, length_bytesOf]
  rfl

/-- Not every packet that is sent is received: not one of 2049 bytes, and not one that gets a
chain with an empty pbuf in front. -/
theorem macFraming_limits :
    (Receives (fun _ _ => True) ([oversized].map TxPacket.frame) [.frame (ioOf oversized.p)] ∧
      ¬ InStep (fifoOf oversized) Rx.idle [oversized] [.frame (ioOf oversized.p)]) ∧
    Receives (fun _ _ => True) ([oneByte].map TxPacket.frame) [.frame (ioOf emptyFirst)] ∧
      ¬ InStep (fifoOf oneByte) Rx.idle [oneByte] [.frame (ioOf emptyFirst)] := by
  refine ⟨⟨receives_single ?_ trivial, ?_⟩, receives_single ?_ trivial, ?_⟩
  · refine ⟨⟨_, _, rfl, by decide⟩, ?_, ?_⟩
    · rw [frame_oversized]
      rfl
    · exact List.nodup_append.mpr ⟨List.nodup_range', List.nodup_nil, by simp⟩
  · -- the frame resets the controller
    rintro ⟨-, hdelivered⟩
    have hfirst : frameBytes (fifoOf oversized 0) = 2049 := by
      have hin := incoming_fifoOf oversized
      rw [oversized.pushed_eq, frameWords, Incoming.cons, frame_oversized] at hin
      rw [hin.1]
      rfl
    simp [run, rxStep, rxFrame, Rx.idle, hfirst, maxFrame] at hdelivered
  · exact ⟨⟨_, _, rfl, by decide⟩, by decide, by decide⟩
  · -- the byte goes to where the empty pbuf ends, and `q_left` below zero
    unfold InStep
    decide +kernel

end Karnix.Mac
