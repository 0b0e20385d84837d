import Karnix.Fat.ListingSteps
import Mathlib.Data.List.Perm.Subperm
import Mathlib.Tactic.Ring

/-!
# The cursors of a directory

`dir_next` goes through the slots of a cluster and on to the next cluster of the chain, so that
the slots of a directory, and those behind its last cluster, are tapes.
-/

namespace Karnix.Fat

open Karnix.Library
open Fallible (Succeeds Fails)

/-! ## Section 1: Moving over a cluster -/

section Cursors

variable {v : Volume} {w : ℕ → Sector} {sclust c d k : ℕ}

/-- The cursor at slot number `k` from the beginning of a cluster on. -/
def Volume.cursor (v : Volume) (sclust c k : ℕ) : Dir :=
  ⟨sclust, c, v.clustToSect c + k / 16, 32 * (k % 16)⟩

/-- The sectors of a cluster and of the one behind it. -/
theorem clustToSect_bounds (hv : v.Numbered) (h2 : 2 ≤ c) (hc : c < v.clustCnt) :
    0 < v.clustToSect c ∧
      v.clustToSect c % v.sectPerClust = v.dataSect % v.sectPerClust ∧
      v.clustToSect c + 2 * v.sectPerClust < 0x100000000 := by
  obtain ⟨a, rfl⟩ : ∃ a, c = a + 2 := ⟨c - 2, by omega⟩
  obtain ⟨b, hb⟩ : ∃ b, v.clustCnt = a + 3 + b := ⟨v.clustCnt - (a + 3), by omega⟩
  have hfits := hv.fits
  have hdata := hv.data
  have hpos : 0 < v.sectPerClust := Nat.two_pow_pos _
  have hsum : (a + 3 + b) * v.sectPerClust =
      a * v.sectPerClust + 3 * v.sectPerClust + b * v.sectPerClust := by ring
  rw [hb, hsum] at hfits
  have hle : a ≤ a * v.sectPerClust := Nat.le_mul_of_pos_right a hpos
  have hclust : u32 (a + 2 + 0xfffffffe) = a := by
    unfold u32
    omega
  have hsect : v.clustToSect (a + 2) = a * v.sectPerClust + v.dataSect := by
    rw [Volume.clustToSect, hclust]
    exact Nat.mod_eq_of_lt (by unfold Volume.sectPerClust at *; omega)
  rw [hsect]
  refine ⟨by omega, ?_, by omega⟩
  rw [Nat.add_mod, Nat.mul_mod_left, Nat.zero_add, Nat.mod_mod]

/-- Where `dir_next` takes a cluster to end is in the cluster, or right behind it. -/
theorem endCnt_bounds (v : Volume) : 0 < v.endCnt ∧ v.endCnt ≤ v.slotCnt := by
  have hlt : v.dataSect % v.sectPerClust < v.sectPerClust := Nat.mod_lt _ (Nat.two_pow_pos _)
  unfold Volume.endCnt Volume.slotCnt
  omega

/-- `dir_next` takes a cluster to end behind a whole sector. -/
theorem dvd_of_end (hend : (k + 1) % v.slotCnt = v.endCnt % v.slotCnt) : 16 ∣ k + 1 := by
  have hslots : 16 ∣ v.slotCnt := ⟨v.sectPerClust, rfl⟩
  have hcnt : 16 ∣ v.endCnt := ⟨_, rfl⟩
  rw [← (Nat.dvd_mod_iff hslots), hend]
  exact (Nat.dvd_mod_iff hslots).2 hcnt

theorem entrySect_ne (hv : v.Numbered) (hc : c < v.clustCnt) :
    Volume.entrySect v.fatSect c ≠ 0 := by
  have hfat := hv.fat
  have hle : c / 128 ≤ v.clustCnt / 128 := Nat.div_le_div_right (Nat.le_of_lt hc)
  rw [Volume.entrySect, u32, Nat.mod_eq_of_lt (by omega)]
  omega

section Cluster

variable (hv : v.Numbered) (h2 : 2 ≤ c) (hc : c < v.clustCnt) (hk : k < 2 * v.slotCnt)

include hv h2 hc hk

omit hk in
theorem cursor_sect_ne : (v.cursor sclust c k).sect ≠ 0 := by
  have hbounds := clustToSect_bounds hv h2 hc
  exact Nat.ne_of_gt (Nat.lt_of_lt_of_le hbounds.1 (Nat.le_add_right _ _))

/-- The sector behind that of a cursor. -/
theorem cursor_sect_succ :
    u32 ((v.cursor sclust c k).sect + 1) = v.clustToSect c + (k / 16 + 1) := by
  have hbounds := clustToSect_bounds hv h2 hc
  unfold Volume.slotCnt at hk
  refine Nat.mod_eq_of_lt ?_
  show v.clustToSect c + k / 16 + 1 < _
  omega

/-- Behind the last slot of a sector `dir_next` tests the number of the next sector. -/
theorem cursor_mask (h15 : k % 16 = 15) :
    u32 ((v.cursor sclust c k).sect + 1) &&& v.clustMsk ≠ 0 ↔
      (k + 1) % v.slotCnt ≠ v.endCnt % v.slotCnt := by
  have hbounds := clustToSect_bounds hv h2 hc
  have hmask : v.clustMsk = 2 ^ v.clustShift - 1 := by
    have hsize : v.clustMsk + 1 = 2 ^ v.clustShift := hv.mask
    omega
  have hplace : k + 1 = 16 * (k / 16 + 1) := by omega
  have hlt : v.dataSect % v.sectPerClust < v.sectPerClust := Nat.mod_lt _ (Nat.two_pow_pos _)
  have hdata := hbounds.2.1
  rw [cursor_sect_succ hv h2 hc hk, hmask, Nat.and_two_pow_sub_one_eq_mod, hplace,
    Volume.slotCnt, Volume.endCnt, Nat.mul_mod_mul_left, Nat.mul_mod_mul_left]
  change (v.clustToSect c + (k / 16 + 1)) % v.sectPerClust ≠ 0 ↔ _
  rw [Nat.add_mod, hdata]
  generalize v.dataSect % v.sectPerClust = r at hlt ⊢
  generalize hj : (k / 16 + 1) % v.sectPerClust = j
  have hjlt : j < v.sectPerClust := hj ▸ Nat.mod_lt _ (Nat.two_pow_pos _)
  generalize v.sectPerClust = n at hlt hjlt ⊢
  -- of two numbers below the size of a cluster
  by_cases hr : r = 0
  · subst hr
    rw [Nat.zero_add, Nat.mod_eq_of_lt hjlt, Nat.sub_zero, Nat.mod_self]
    omega
  · rw [Nat.mod_eq_of_lt (by omega : n - r < n)]
    by_cases hsum : r + j < n
    · rw [Nat.mod_eq_of_lt hsum]
      omega
    · have hwrap : (r + j) % n = r + j - n := by
        rw [Nat.mod_eq_sub_mod (by omega), Nat.mod_eq_of_lt (by omega)]
      omega

/-- Within a cluster the next slot lies in the same sector or in the next one. -/
theorem leads_succ (hin : (k + 1) % v.slotCnt ≠ v.endCnt % v.slotCnt) :
    Leads v w (v.cursor sclust c k) (some (v.cursor sclust c (k + 1))) := by
  intro s _ _
  rw [dirNext]
  by_cases h15 : k % 16 = 15
  · have hidx : ¬ (v.cursor sclust c k).idx + 32 < 512 := by
      show ¬ 32 * (k % 16) + 32 < 512
      omega
    rw [if_neg hidx, if_pos ((cursor_mask hv h2 hc hk h15).2 hin)]
    refine .pure ⟨?_, .refl s, .refl s⟩
    rw [cursor_sect_succ hv h2 hc hk]
    have hdiv : (k + 1) / 16 = k / 16 + 1 := by omega
    have hmod : (k + 1) % 16 = 0 := by omega
    rw [Volume.cursor, Volume.cursor, hdiv, hmod]
  · have hidx : (v.cursor sclust c k).idx + 32 < 512 := by
      show 32 * (k % 16) + 32 < 512
      omega
    rw [if_pos hidx]
    refine .pure ⟨?_, .refl s, .refl s⟩
    have hdiv : (k + 1) / 16 = k / 16 := by omega
    have hmod : (k + 1) % 16 = k % 16 + 1 := by omega
    rw [Volume.cursor, Volume.cursor, hdiv, hmod, Nat.mul_add, Nat.mul_one]

/-- Behind the last slot of a cluster. -/
theorem dirNext_end (hend : (k + 1) % v.slotCnt = v.endCnt % v.slotCnt) :
    dirNext v (v.cursor sclust c k) =
    getFat v c >>= fun r =>
      if r.2 = .bad ∨ r.2 = .free then .throw .broken
      else if r.2 = .last then .throw .eof
      else pure (v.cursor sclust r.1 0) := by
  have h15 : k % 16 = 15 := by
    have hdvd := dvd_of_end hend
    omega
  have hidx : ¬ (v.cursor sclust c k).idx + 32 < 512 := by
    show ¬ 32 * (k % 16) + 32 < 512
    omega
  have hnext : ∀ e, v.dirAtClust (v.cursor sclust c k) e = v.cursor sclust e 0 := by
    intro e
    rw [Volume.dirAtClust, Volume.cursor, Volume.cursor, Nat.zero_div, Nat.zero_mod, Nat.add_zero]
  rw [dirNext, if_neg hidx, if_neg (mt (cursor_mask hv h2 hc hk h15).1 (not_not.2 hend))]
  have hclust : (v.cursor sclust c k).clust = c := rfl
  simp only [hnext, hclust]

theorem leads_none [v.ops.Reliable] (hend : (k + 1) % v.slotCnt = v.endCnt % v.slotCnt)
    (hlast : v.kind w c = some .last) : Leads v w (v.cursor sclust c k) none := by
  intro s hs hw
  rw [dirNext_end hv h2 hc hk hend]
  have hfat := getFat_ok hs (entrySect_ne hv hc) (by rw [hw]; exact hlast)
  refine hfat.bind_fails ?_
  rintro r s' ⟨rfl, hr, hg⟩
  rw [if_neg (by simp), if_pos rfl]
  exact .throw ⟨hr, hg⟩

theorem leads_next [v.ops.Reliable] (hend : (k + 1) % v.slotCnt = v.endCnt % v.slotCnt)
    (hused : v.kind w c = some .used) (hentry : v.entry w c = d) :
    Leads v w (v.cursor sclust c k) (some (v.cursor sclust d 0)) := by
  intro s hs hw
  rw [dirNext_end hv h2 hc hk hend]
  have hfat := getFat_ok hs (entrySect_ne hv hc) (by rw [hw]; exact hused)
  refine hfat.bind ?_
  rintro r s' ⟨rfl, hr, hg⟩
  rw [if_neg (by simp), if_neg (by simp), hw, hentry]
  exact .pure ⟨rfl, hr, hg⟩

/-- Where `dir_next` leaves the directory. -/
theorem stepOff_cursor (hend : (k + 1) % v.slotCnt = v.endCnt % v.slotCnt) :
    (v.cursor sclust c k).stepOff = v.cursor sclust c (k + 1) := by
  have hdvd := dvd_of_end hend
  have hdiv : (k + 1) / 16 = k / 16 + 1 := by omega
  have hmod : (k + 1) % 16 = 0 := by omega
  rw [Dir.stepOff, cursor_sect_succ hv h2 hc hk, Volume.cursor, Volume.cursor, hdiv, hmod]

end Cluster

/-! ## Section 2: The tape of a directory -/

/-- The slots that `dir_next` walks over in a chain. -/
def Volume.walked (v : Volume) (w : ℕ → Sector) (cs : List ℕ) : List Slot :=
  cs.flatMap fun c => (List.range v.endCnt).map (v.slot w c)

/-- The slots before the end of a cluster, before a tape. -/
theorem tape_block {beyond : Dir} {rest : List Slot} (hv : v.Numbered) (h2 : 2 ≤ c)
    (hc : c < v.clustCnt) {n : ℕ} (hk : k + n < 2 * v.slotCnt)
    (hin : ∀ i, k < i → i ≤ k + n → i % v.slotCnt ≠ v.endCnt % v.slotCnt)
    (hrest : Tape v w beyond (v.cursor sclust c (k + n)) rest) :
    Tape v w beyond (v.cursor sclust c k) ((List.range' k n).map (v.slot w c) ++ rest) := by
  induction n generalizing k with
  | zero => exact hrest
  | succ n ih =>
    have hsum : k + (n + 1) = k + 1 + n := by omega
    rw [hsum] at hk hrest hin
    rw [List.range'_succ, List.map_cons, List.cons_append]
    refine Tape.cons (cursor_sect_ne hv h2 hc) ?_ (ih hk ?_ hrest)
    · exact leads_succ hv h2 hc (by omega) (hin (k + 1) (by omega) (by omega))
    · exact fun i hi hle => hin i (by omega) hle

/-- The slots from the beginning of a cluster to where it is taken to end, without the last
one. -/
theorem tape_cluster {beyond : Dir} {rest : List Slot} (hv : v.Numbered) (h2 : 2 ≤ c)
    (hc : c < v.clustCnt)
    (hrest : Tape v w beyond (v.cursor sclust c (v.endCnt - 1)) rest) :
    Tape v w beyond (v.cursor sclust c 0)
      ((List.range' 0 (v.endCnt - 1)).map (v.slot w c) ++ rest) := by
  obtain ⟨hpos, hle⟩ := endCnt_bounds v
  refine tape_block hv h2 hc (by omega) ?_ (by rwa [Nat.zero_add])
  intro i hi hle' heq
  rw [Nat.mod_eq_of_lt (by omega : i < v.slotCnt)] at heq
  rcases Nat.lt_or_eq_of_le hle with hlt | hall
  · rw [Nat.mod_eq_of_lt hlt] at heq
    omega
  · rw [hall, Nat.mod_self] at heq
    omega

theorem range'_concat (k : ℕ) {n : ℕ} (h : 0 < n) :
    List.range' k n = List.range' k (n - 1) ++ [k + (n - 1)] := by
  obtain ⟨m, rfl⟩ : ∃ m, n = m + 1 := ⟨n - 1, by omega⟩
  rw [Nat.add_sub_cancel, List.range'_1_concat]

variable [v.ops.Reliable]

variable (sclust) in
/-- The slots of the last cluster. -/
theorem tape_last (hv : v.Numbered) (h2 : 2 ≤ c) (hc : c < v.clustCnt)
    (hlast : v.kind w c = some .last) :
    Tape v w (v.cursor sclust c v.endCnt) (v.cursor sclust c 0)
      ((List.range' 0 v.endCnt).map (v.slot w c)) := by
  obtain ⟨hpos, hle⟩ := endCnt_bounds v
  have hsum : v.endCnt - 1 + 1 = v.endCnt := by omega
  have hend : (v.endCnt - 1 + 1) % v.slotCnt = v.endCnt % v.slotCnt := by rw [hsum]
  rw [range'_concat 0 hpos, List.map_append, Nat.zero_add]
  refine tape_cluster hv h2 hc (Tape.last (cursor_sect_ne hv h2 hc) ?_ ?_)
  · exact leads_none hv h2 hc (by omega) hend hlast
  · rw [stepOff_cursor hv h2 hc (by omega) hend, hsum]

variable (sclust) in
/-- The slots behind the last cluster, up to where the next one is taken to end. -/
theorem tape_behind (hv : v.Numbered) (h2 : 2 ≤ c) (hc : c < v.clustCnt)
    (hlast : v.kind w c = some .last) :
    Tape v w (v.cursor sclust c (v.endCnt + v.slotCnt)) (v.cursor sclust c v.endCnt)
      (v.slotsBehind w c) := by
  obtain ⟨hpos, hle⟩ := endCnt_bounds v
  have hslots : 0 < v.slotCnt := by omega
  have hlt : v.endCnt + (v.slotCnt - 1) < 2 * v.slotCnt := by omega
  have hsum : v.endCnt + (v.slotCnt - 1) + 1 = v.endCnt + v.slotCnt := by omega
  have hend : (v.endCnt + (v.slotCnt - 1) + 1) % v.slotCnt = v.endCnt % v.slotCnt := by
    rw [hsum, Nat.add_mod_right]
  rw [Volume.slotsBehind, range'_concat v.endCnt hslots, List.map_append]
  refine tape_block hv h2 hc hlt ?_ (Tape.last (cursor_sect_ne hv h2 hc) ?_ ?_)
  · -- the next end of a cluster is a cluster away
    intro i hi hle' heq
    obtain ⟨j, rfl⟩ : ∃ j, i = v.endCnt + j := ⟨i - v.endCnt, by omega⟩
    have hj := Nat.sub_mod_eq_zero_of_mod_eq heq
    rw [Nat.add_sub_cancel_left, Nat.mod_eq_of_lt (by omega : j < v.slotCnt)] at hj
    omega
  · exact leads_none hv h2 hc hlt hend hlast
  · rw [stepOff_cursor hv h2 hc hlt hend, hsum]

/-- The slots that `dir_next` walks over in a directory, and where it leaves it. -/
theorem tape_chain (hv : v.Numbered) (cs : List ℕ) : ∀ {c : ℕ}, v.IsChain w (c :: cs) →
    Tape v w (v.cursor sclust ((c :: cs).getLast (List.cons_ne_nil c cs)) v.endCnt)
      (v.cursor sclust c 0) (v.walked w (c :: cs)) := by
  obtain ⟨hpos, hle⟩ := endCnt_bounds v
  induction cs with
  | nil =>
    rintro c ⟨h2, hc, hlast⟩
    rw [Volume.walked, List.flatMap_singleton, List.range_eq_range']
    exact tape_last sclust hv h2 hc hlast
  | cons d cs ih =>
    rintro c ⟨h2, hc, hused, hentry, hrest⟩
    have hblock : v.walked w (c :: d :: cs) =
        (List.range' 0 (v.endCnt - 1)).map (v.slot w c) ++
          v.slot w c (v.endCnt - 1) :: v.walked w (d :: cs) := by
      rw [Volume.walked, List.flatMap_cons, Volume.walked]
      simp only [List.range_eq_range']
      rw [range'_concat 0 hpos, List.map_append, List.append_assoc, List.map_singleton,
        List.singleton_append, Nat.zero_add]
    have hend : (v.endCnt - 1 + 1) % v.slotCnt = v.endCnt % v.slotCnt := by
      rw [Nat.sub_add_cancel hpos]
    rw [hblock]
    refine tape_cluster hv h2 hc (Tape.cons (cursor_sect_ne hv h2 hc) ?_ (ih hrest))
    exact leads_next hv h2 hc (by omega) hend hused hentry

/-! ## Section 3: The length of a chain -/

omit [v.ops.Reliable]

theorem Volume.IsChain.mem {cs : List ℕ} (h : v.IsChain w cs) : ∀ c ∈ cs, c < v.clustCnt := by
  induction cs with
  | nil => exact fun c hc => absurd hc List.not_mem_nil
  | cons c cs ih =>
    cases cs with
    | nil =>
      intro a ha
      rw [List.mem_singleton.1 ha]
      exact h.2.1
    | cons d cs =>
      intro a ha
      rcases List.mem_cons.1 ha with rfl | ha
      · exact h.2.1
      · exact ih h.2.2.2.2 a ha

theorem Volume.IsChain.head_ne {c : ℕ} {cs : List ℕ} (h : v.IsChain w (c :: cs)) : c ≠ 0 := by
  cases cs with
  | nil => exact Nat.ne_of_gt (Nat.lt_of_lt_of_le Nat.zero_lt_two h.1)
  | cons d cs => exact Nat.ne_of_gt (Nat.lt_of_lt_of_le Nat.zero_lt_two h.1)

theorem Volume.IsChain.last {c : ℕ} {cs : List ℕ} (h : v.IsChain w (c :: cs)) :
    v.IsChain w [(c :: cs).getLast (List.cons_ne_nil c cs)] := by
  induction cs generalizing c with
  | nil => exact h
  | cons d cs ih => exact ih h.2.2.2.2

theorem dirEnter_eq_cursor (h : c ≠ 0) : v.dirEnter c = v.cursor c c 0 := by
  rw [Volume.dirEnter, if_neg h, Volume.cursor, Nat.zero_div, Nat.zero_mod, Nat.add_zero]

/-- A cluster tells the rest of its chain. -/
theorem Volume.IsChain.unique {cs ds : List ℕ} {c : ℕ} (h : v.IsChain w (c :: cs))
    (h' : v.IsChain w (c :: ds)) : cs = ds := by
  induction cs generalizing c ds with
  | nil =>
    cases ds with
    | nil => rfl
    | cons d ds =>
      have hkind := h.2.2.symm.trans h'.2.2.1
      cases hkind
  | cons a cs ih =>
    cases ds with
    | nil =>
      have hkind := h.2.2.1.symm.trans h'.2.2
      cases hkind
    | cons d ds =>
      obtain rfl : a = d := h.2.2.2.1.symm.trans h'.2.2.2.1
      rw [ih h.2.2.2.2 h'.2.2.2.2]

theorem Volume.IsChain.suffix (as : List ℕ) {c : ℕ} {cs : List ℕ}
    (h : v.IsChain w (as ++ c :: cs)) : v.IsChain w (c :: cs) := by
  induction as with
  | nil => exact h
  | cons a as ih =>
    refine ih ?_
    cases as with
    | nil => exact h.2.2.2.2
    | cons b as => exact h.2.2.2.2

/-- No cluster comes twice: its chain would go on forever. -/
theorem Volume.IsChain.nodup {cs : List ℕ} (h : v.IsChain w cs) : cs.Nodup := by
  induction cs with
  | nil => exact List.nodup_nil
  | cons c cs ih =>
    refine List.nodup_cons.2 ⟨fun hmem => ?_, ?_⟩
    · obtain ⟨as, bs, rfl⟩ := List.append_of_mem hmem
      have hsame := h.unique (Volume.IsChain.suffix (c :: as) h)
      have hlen := congrArg List.length hsame
      rw [List.length_append, List.length_cons] at hlen
      omega
    · cases cs with
      | nil => exact List.nodup_nil
      | cons d cs => exact ih h.2.2.2.2

/-- In an aligned volume `dir_next` walks over the slots of the directory. -/
theorem walked_eq (h : v.dataSect % v.sectPerClust = 0) (cs : List ℕ) :
    v.walked w cs = v.slots w cs := by
  rw [Volume.walked, Volume.slots, Volume.endCnt, h, Nat.sub_zero]
  rfl

/-- It never walks over more slots. -/
theorem length_walked_le (v : Volume) (w : ℕ → Sector) (cs : List ℕ) :
    (v.walked w cs).length ≤ (v.slots w cs).length := by
  have hle := (endCnt_bounds v).2
  unfold Volume.walked Volume.slots
  induction cs with
  | nil => exact Nat.le_refl _
  | cons c cs ih =>
    rw [List.flatMap_cons, List.flatMap_cons, List.length_append, List.length_append,
      List.length_map, List.length_map, List.length_range, List.length_range]
    exact Nat.add_le_add hle ih

/-- A directory has no more slots than the volume. -/
theorem Volume.IsChain.slots_le {cs : List ℕ} (h : v.IsChain w cs) :
    (v.slots w cs).length ≤ v.maxEntries := by
  have hsub : cs ⊆ List.range v.clustCnt := fun c hc => List.mem_range.2 (h.mem c hc)
  have hle := (h.nodup.subperm hsub).length_le
  rw [List.length_range] at hle
  have hlen : (v.slots w cs).length = cs.length * v.slotCnt := by
    simp [Volume.slots, List.length_flatMap]
  rw [hlen, Volume.maxEntries, Nat.mul_assoc]
  have hcnt : v.slotCnt = v.sectPerClust * 16 := Nat.mul_comm _ _
  rw [hcnt]
  exact Nat.mul_le_mul_right _ hle

end Cursors

end Karnix.Fat
