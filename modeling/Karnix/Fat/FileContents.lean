import Karnix.Fat.FileAccess

/-!
# What a file holds

`fat_file_write` puts bytes into the file at its offset, and `fat_file_read` takes them from
there, sector by sector; every round ends with a seek.
-/

namespace Karnix.Fat

open Karnix.Library
open Fallible (Succeeds Fails Ends)
open Link (Chain freeCount)

variable {v : Volume} {L L' L'' : List (List ℕ)} {l l' l'' : List ℕ} {s s' s₁ s₂ : Session}
  {i k n off off' : ℕ}

/-! ## Section 1: Bytes -/

/-- The bytes `data` in the place of those from `off` on. -/
def written (off : ℕ) (data : List Byte) (f : ℕ → Byte) (i : ℕ) : Byte :=
  if off ≤ i ∧ i < off + data.length then data.getD (i - off) 0 else f i

theorem written_nil (off : ℕ) (f : ℕ → Byte) : written off [] f = f := by
  funext i
  exact if_neg (by simp)

theorem written_append (off : ℕ) (data rest : List Byte) (f : ℕ → Byte) :
    written off (data ++ rest) f = written (off + data.length) rest (written off data f) := by
  funext i
  simp only [written, List.length_append, List.getD_eq_getElem?_getD]
  rcases Nat.lt_or_ge i (off + data.length) with hlt | hge
  · have hout : ¬ (off + data.length ≤ i ∧ i < off + data.length + rest.length) := by omega
    rw [if_neg hout]
    by_cases hoff : off ≤ i
    · rw [if_pos (by omega), if_pos (by omega), List.getElem?_append_left (by omega)]
    · rw [if_neg (by omega), if_neg (by omega)]
  · have hout : ¬ (off ≤ i ∧ i < off + data.length) := by omega
    rw [if_neg hout]
    by_cases hend : i < off + data.length + rest.length
    · rw [if_pos (by omega), if_pos (by omega), List.getElem?_append_right (by omega),
        Nat.sub_sub]
    · rw [if_neg (by omega), if_neg (by omega)]

namespace Session.Sought

theorem trans (h : s.Sought v L l off L' l' s₁) (h' : s₁.Sought v L' l' off' L'' l'' s₂) :
    s.Sought v L l off' L'' l'' s₂ := by
  refine ⟨h.toMoves.trans h'.toMoves, h'.offset, h'.size.trans h.size,
    h'.modified.trans h.modified, fun sect hres hin => ?_, h'.loaded ∘ h.loaded, fun q hq => ?_⟩
  · rw [h'.quiet sect hres hin]
    exact h.quiet sect hres fun h => hin (inData_grown h'.grows h)
  rw [h'.sectors q (hq.trans_le (sectCnt_grown h.grows)), h.sectors q hq]

/-- The file is there already. -/
theorem stay (h : s.Open v L l) : s.Sought v L l s.file.offset L l s :=
  ⟨.refl h, rfl, rfl, rfl, fun _ _ _ => rfl, id, fun _ _ => rfl⟩

/-- Byte for byte the same. -/
theorem byteAt (h : s.Sought v L l off L' l' s') (hi : i < 512 * v.sectCnt l) :
    s'.byteAt v l' i = s.byteAt v l i := by
  rw [Session.byteAt, h.sectors _ (by omega), Session.byteAt]

end Session.Sought

section Seek

variable [v.ops.Reliable] (hv : v.Laid) (hd : v.DataLaid)
include hv hd

/-- `fat_file_seek` to a place inside the file succeeds, and only moves. -/
theorem fatFileSeek_sought (h : s.Open v L l) {offset : ℤ} {whence : Whence}
    (htarget : s.file.target offset whence = off) (hmax : off ≤ 0xffffffff)
    (hroom : off / v.clustSize + 2 ≤ s.room v l) :
    Succeeds (fatFileSeek v offset whence) s fun _ s' => ∃ L' l', s.Sought v L l off L' l' s' := by
  refine Succeeds.read_bind ?_
  simp only [id, htarget]
  rw [if_neg (by omega), Int.toNat_natCast]
  exact seekTo_sought hv hd h hroom

/-- The seek at the end of a round. -/
theorem seekOn_attempt (h : s.Open v L l) (cnt : ℕ) (hmax : s.file.offset + cnt ≤ 0xffffffff)
    (hroom : (s.file.offset + cnt) / v.clustSize + 2 ≤ s.room v l) :
    ∃ s' L' l', (fatFileSeek v cnt .curr).attempt s = (some (.ok (.ok ⟨⟩)), s') ∧
      s.Sought v L l (s.file.offset + cnt) L' l' s' := by
  have htarget : s.file.target cnt .curr = (s.file.offset + cnt : ℕ) := by
    simp [File.target, File.base]
  obtain ⟨_, s', hrun, L', l', hs'⟩ := fatFileSeek_sought hv hd h htarget hmax hroom
  exact ⟨s', L', l', Fallible.attempt_of_some hrun, hs'⟩

end Seek

/-! ## Section 2: `fat_file_read` -/

/-- The bytes from the offset on. -/
def Session.bytes (v : Volume) (l : List ℕ) (s : Session) (n : ℕ) : List Byte :=
  (List.range n).map fun k => s.byteAt v l (s.file.offset + k)

@[simp] theorem length_bytes (n : ℕ) : (s.bytes v l n).length = n := by
  simp [Session.bytes]

theorem bytes_add (v : Volume) (l : List ℕ) (s : Session) (n k : ℕ) : s.bytes v l (n + k) =
    s.bytes v l n ++ (List.range k).map fun j => s.byteAt v l (s.file.offset + n + j) := by
  simp only [Session.bytes, List.range_add, List.map_append, List.map_map, Function.comp_def,
    Nat.add_assoc]

/-- The bytes in the buffer. -/
theorem load_eq_bytes (s : Session) {cnt : ℕ} (hcnt : s.file.offset % 512 + cnt ≤ 512) :
    s.file.buf.load (s.file.offset % 512) cnt = s.bytes v l cnt := by
  refine List.map_congr_left fun k hk => ?_
  rw [List.mem_range] at hk
  rw [Session.byteAt, Session.sector, if_pos (by omega)]
  congr 1
  omega

section Read

variable [v.ops.Reliable] (hv : v.Laid) (hd : v.DataLaid)
include hv hd

/-- **Run lemma.** The rounds of `fat_file_read`. -/
theorem readLoop_spec {n : ℕ} (len m : ℕ) (acc : List Byte) (hlen : len ≤ n)
    (h : s.Open v L l) (hsize : s.file.size ≤ 512 * v.sectCnt l)
    (hm : m = min len (s.file.size - s.file.offset))
    (hmax : s.file.offset + m ≤ 0xffffffff)
    (hroom : (s.file.offset + m) / v.clustSize + 2 ≤ s.room v l) :
    Succeeds (readLoop v n len acc) s fun r s' => r = (acc ++ s.bytes v l m, none) ∧
      ∃ L' l', s.Sought v L l (s.file.offset + m) L' l' s' := by
  induction n generalizing s L l len m acc with
  | zero =>
    have hm0 : m = 0 := by omega
    subst hm0
    exact .pure ⟨by simp [Session.bytes], L, l, .stay h⟩
  | succ n ih =>
    refine Succeeds.read_bind ?_
    simp only [id]
    by_cases hdone : len = 0 ∨ s.file.size ≤ s.file.offset
    · have hm0 : m = 0 := by omega
      subst hm0
      rw [if_pos hdone]
      exact .pure ⟨by simp [Session.bytes], L, l, .stay h⟩
    · rw [if_neg hdone]
      have hcnt : s.file.readCnt len =
          min len (min (512 - s.file.offset % 512) (s.file.size - s.file.offset)) := rfl
      generalize s.file.readCnt len = cnt at hcnt ⊢
      have hle : cnt ≤ m := by omega
      have hdiv : (s.file.offset + cnt) / v.clustSize ≤ (s.file.offset + m) / v.clustSize :=
        Nat.div_le_div_right (by omega)
      obtain ⟨s₁, L₁, l₁, hrun, hs₁⟩ := seekOn_attempt hv hd h cnt (by omega) (by omega)
      have hsize₁ : s₁.file.size ≤ 512 * v.sectCnt l₁ := by
        have hgrown := sectCnt_grown (v := v) hs₁.grows
        rw [hs₁.size]
        omega
      have hsum : s₁.file.offset + (m - cnt) = s.file.offset + m := by
        rw [hs₁.offset]
        omega
      have hrest := ih (len - cnt) (m - cnt)
        (acc ++ s.file.buf.load (s.file.offset % 512) cnt) (by omega) hs₁.opened hsize₁
        (by rw [hs₁.size, hs₁.offset]; omega) (by omega) (by rw [hsum, hs₁.room]; exact hroom)
      refine Succeeds.of_eq (Fallible.bind_of_ok hrun) (hrest.mono fun r s' ⟨hr, L', l', hs'⟩ => ?_)
      refine ⟨?_, L', l', hsum ▸ hs₁.trans hs'⟩
      have hsplit := bytes_add v l s cnt (m - cnt)
      rw [show cnt + (m - cnt) = m by omega] at hsplit
      rw [hr, load_eq_bytes (v := v) (l := l) s (by omega), List.append_assoc, hsplit]
      congr 3
      refine List.map_congr_left fun k hk => ?_
      rw [List.mem_range] at hk
      rw [hs₁.byteAt (by rw [hs₁.offset]; omega), hs₁.offset]

/-- `fat_file_read` delivers the bytes from the offset on, up to the size. -/
theorem fatFileRead_spec {len m : ℕ} (h : s.Open v L l) (hread : s.file.flags.read = true)
    (hsize : s.file.size ≤ 512 * v.sectCnt l) (hm : m = min len (s.file.size - s.file.offset))
    (hmax : s.file.offset + m ≤ 0xffffffff)
    (hroom : (s.file.offset + m) / v.clustSize + 2 ≤ s.room v l) :
    Succeeds (fatFileRead v len) s fun r s' => r = (s.bytes v l m, none) ∧
      ∃ L' l', s.Sought v L l (s.file.offset + m) L' l' s' := by
  refine Succeeds.read_bind ?_
  simp only [id, hread, if_true]
  exact readLoop_spec hv hd len m [] (le_refl len) h hsize hm hmax hroom

end Read

/-! ## Section 3: `fat_file_write` -/

/-- The bytes `src` have been written, and the file is behind them. -/
structure Session.Wrote (v : Volume) (L : List (List ℕ)) (l : List ℕ) (s : Session)
    (src : List Byte) (L' : List (List ℕ)) (l' : List ℕ) (s' : Session) : Prop
    extends s.Moves v L l L' l' s' where
  offset : s'.file.offset = s.file.offset + src.length
  quiet : ∀ sect, ¬ v.Reserved sect → ¬ v.InData l' sect → s'.fat.view sect = s.fat.view sect
  bytes : ∀ i, i < 512 * v.sectCnt l ∨ s.file.offset ≤ i ∧ i < s.file.offset + src.length →
    s'.byteAt v l' i = written s.file.offset src (s.byteAt v l) i

theorem Session.Wrote.nil (h : s.Open v L l) : s.Wrote v L l [] L l s :=
  ⟨.refl h, rfl, fun _ _ _ => rfl, fun i _ => by rw [written_nil]⟩

/-- Bytes go into the buffer of the file, and the file reads so. -/
def Session.putBytes (s : Session) (data : List Byte) : Session :=
  { s with file := s.file.put data }

theorem moves_putBytes (h : s.Open v L l) (data : List Byte) :
    s.Moves v L l L l (s.putBytes data) := by
  refine ⟨⟨h.books, h.mem, h.head, h.clust, h.sect, fun hclean => ?_, h.apart⟩, List.prefix_rfl,
    fun _ hm hne => ⟨hm, hne⟩, rfl, .refl _ l, fun _ _ _ _ => rfl, fun _ hin => .inl hin, rfl, rfl,
    rfl, rfl, rfl⟩
  cases hclean

theorem byteAt_putBytes {data : List Byte} (hcnt : s.file.offset % 512 + data.length ≤ 512)
    (i : ℕ) : (s.putBytes data).byteAt v l i = written s.file.offset data (s.byteAt v l) i := by
  have hoff : (s.putBytes data).file.offset = s.file.offset := rfl
  have hbuf : (s.putBytes data).file.buf = s.file.buf.store (s.file.offset % 512) data := rfl
  rw [Session.byteAt, Session.sector, hoff, hbuf, written, Session.byteAt, Session.sector]
  by_cases hcur : i / 512 = s.file.offset / 512
  · rw [if_pos hcur, if_pos hcur]
    split_ifs with hin
    · obtain ⟨k, rfl⟩ := Nat.exists_eq_add_of_le hin.1
      have hk : k < data.length := by omega
      rw [show (s.file.offset + k) % 512 = s.file.offset % 512 + k by omega,
        Memory.store_getElem _ _ _ _ hk, Nat.add_sub_cancel_left, List.getD_eq_getElem?_getD,
        List.getElem?_eq_getElem hk]
      rfl
    · rcases Nat.lt_or_ge i s.file.offset with hlt | hge
      · exact Memory.store_of_lt _ _ (by omega)
      · exact Memory.store_of_ge _ _ (by omega)
  · rw [if_neg hcur, if_neg hcur, if_neg (by omega)]
    rfl

/-- The size and the marks for the directory entry are changed. -/
def Session.mark (s : Session) (size : ℕ) (modified accessed : Bool) : Session :=
  { s with file := { s.file with
    size := size
    flags := { s.file.flags with modified := modified, accessed := accessed } } }

theorem moves_mark (h : s.Open v L l) (size : ℕ) (modified accessed : Bool) :
    s.Moves v L l L l (s.mark size modified accessed) :=
  ⟨⟨h.books, h.mem, h.head, h.clust, h.sect, h.buf, h.apart⟩, List.prefix_rfl,
    fun _ hm hne => ⟨hm, hne⟩, rfl, .refl _ l, fun _ _ _ _ => rfl, fun _ hin => .inl hin, rfl, rfl,
    rfl, rfl, rfl⟩

section Write

variable [v.ops.Reliable] (hv : v.Laid) (hd : v.DataLaid)
include hv hd

/-- **Run lemma.** The rounds of `fat_file_write`. -/
theorem writeLoop_spec {n : ℕ} (src : List Byte) (bytes : ℕ) (hlen : src.length ≤ n)
    (h : s.Open v L l) (hmax : s.file.offset + src.length ≤ 0xffffffff)
    (hroom : (s.file.offset + src.length) / v.clustSize + 2 ≤ s.room v l) :
    Succeeds (writeLoop v n src bytes) s fun r s' => r = bytes + src.length ∧
      ∃ L' l', s.Wrote v L l src L' l' s' ∧ s'.file.size = s.file.size ∧
        s'.file.flags.modified = s.file.flags.modified := by
  induction n generalizing s L l src bytes with
  | zero =>
    obtain rfl := List.length_eq_zero_iff.1 (Nat.le_zero.1 hlen)
    exact .pure ⟨rfl, L, l, Session.Wrote.nil h, rfl, rfl⟩
  | succ n ih =>
    refine Succeeds.read_bind ?_
    simp only [id]
    by_cases hdone : src = []
    · subst hdone
      rw [if_pos rfl]
      exact .pure ⟨rfl, L, l, Session.Wrote.nil h, rfl, rfl⟩
    · rw [if_neg hdone]
      have hpos := List.length_pos_iff.2 hdone
      have hcnt : s.file.writeCnt src.length = min src.length (512 - s.file.offset % 512) := rfl
      refine Succeeds.modify_bind ?_
      change Succeeds _ (s.putBytes (src.take (s.file.writeCnt src.length))) _
      generalize s.file.writeCnt src.length = cnt at hcnt ⊢
      have htake : (src.take cnt).length = cnt := by
        rw [List.length_take]
        omega
      have hdrop : (src.drop cnt).length = src.length - cnt := List.length_drop
      have hput := moves_putBytes h (src.take cnt)
      have hdiv : (s.file.offset + cnt) / v.clustSize ≤
          (s.file.offset + src.length) / v.clustSize := Nat.div_le_div_right (by omega)
      obtain ⟨s₁, L₁, l₁, hrun, hs₁⟩ := seekOn_attempt hv hd hput.opened cnt
        (by show s.file.offset + cnt ≤ _; omega) (hroom.trans' (Nat.add_le_add_right hdiv 2))
      have hoff₁ : s₁.file.offset = s.file.offset + cnt := hs₁.offset
      have hsum : s₁.file.offset + (src.drop cnt).length = s.file.offset + src.length := by
        rw [hoff₁, hdrop]
        omega
      refine Succeeds.of_eq (Fallible.bind_of_ok hrun) ((ih (src.drop cnt)
        (bytes + cnt) (by omega) hs₁.opened (by omega)
        (by rw [hsum, hs₁.room]; exact hroom)).mono ?_)
      rintro r s' ⟨hr, L', l', hs', hsize, hmodified⟩
      refine ⟨by omega, L', l', ⟨hput.trans (hs₁.toMoves.trans hs'.toMoves),
        hs'.offset.trans hsum, fun sect hres hin => ?_, fun i hi => ?_⟩, hsize.trans hs₁.size,
        hmodified.trans hs₁.modified⟩
      · rw [hs'.quiet sect hres hin]
        exact hs₁.quiet sect hres fun h => hin (inData_grown hs'.grows h)
      have hgrown := sectCnt_grown (v := v) hs₁.grows
      have hcur := h.sector_lt
      have hsplit := written_append s.file.offset (src.take cnt) (src.drop cnt) (s.byteAt v l)
      rw [List.take_append_drop, htake] at hsplit
      rw [hs'.bytes i (by omega), hsplit, hoff₁, written, written]
      refine ite_congr rfl (fun _ => rfl) fun hout => ?_
      rw [hs₁.byteAt (by omega), byteAt_putBytes (by omega)]

/-- `fat_file_write` puts the bytes into the file, and moves its end if they go beyond. -/
theorem fatFileWrite_spec {src : List Byte} (h : s.Open v L l)
    (hwrite : s.file.flags.write = true) (hmax : s.file.offset + src.length ≤ 0xffffffff)
    (hroom : (s.file.offset + src.length) / v.clustSize + 2 ≤ s.room v l) :
    Succeeds (fatFileWrite v src) s fun r s' => r = (src.length, none) ∧
      ∃ L' l', s.Wrote v L l src L' l' s' ∧
        s'.file.size = max s.file.size (s.file.offset + src.length) ∧
        s'.file.flags.modified = true := by
  refine Succeeds.read_bind ?_
  simp only [id, hwrite, if_true]
  refine Succeeds.modify_bind ?_
  have hmark := moves_mark h s.file.size true true
  refine (writeLoop_spec hv hd (s := s.mark s.file.size true true) src 0 (le_refl _)
    hmark.opened hmax hroom).bind ?_
  rintro r s₁ ⟨hr, L₁, l₁, hw, hsize, hmodified⟩
  refine Succeeds.modify_bind (.pure ⟨?_, L₁, l₁, ?_⟩)
  · rw [hr, Nat.zero_add]
  · have hend := moves_mark hw.opened (max s₁.file.size s₁.file.offset) s₁.file.flags.modified
      s₁.file.flags.accessed
    refine ⟨⟨hmark.trans (hw.toMoves.trans hend), hw.offset, hw.quiet, hw.bytes⟩, ?_,
      hmodified⟩
    show max s₁.file.size s₁.file.offset = _
    rw [hsize, hw.offset]
    rfl

end Write

end Karnix.Fat
