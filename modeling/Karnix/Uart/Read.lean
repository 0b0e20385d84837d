import Karnix.Library.Bytes
import Karnix.Library.Runs

/-!
# Reading from a UART

`uart_read` of `uart.c`, one access to the hardware at a time: it reads the clock, the number of
bytes in the receive FIFO, or a byte.  Before every access any bytes may come in.

The loops take all bytes that a poll has found, and look for the end of the buffer only then.  So
the bytes of the last poll have to fit into what is left, and this is all that is needed.
-/

namespace Karnix.Uart

open Karnix.Library

/-! ## Section 1: The function -/

/-- The arguments of `uart_read`. -/
structure Call where
  buf : ℕ
  size : ℤ
  timeout : BitVec 32

/-- What happens before an access: bytes get into the FIFO, and the clock goes on. -/
structure Moment where
  bytes : List Byte
  mtime : BitVec 64

/-- The access that comes next. -/
inductive Place where
  /-- The clock is read for the beginning of a timeout. -/
  | clock
  /-- `uart_readOccupancy` -/
  | poll
  /-- The clock is read for the end of a timeout. -/
  | wait
  /-- `reg->DATA`, with the number of bytes still to take. -/
  | data (avail : ℕ)
  | returned (ret : ℤ)
  deriving DecidableEq

/-- The variables, the memory and the FIFO. -/
structure Reader where
  place : Place
  t0 : BitVec 64
  bytesRead : ℕ
  mem : Memory Byte
  fifo : List Byte

/-- `uart_readOccupancy`: the hardware gives no more than its eight bits can show. -/
def occupancy (fifo : List Byte) : ℕ := min fifo.length 255

/-- `1000LL * timeout` -/
def Call.timeoutUs (c : Call) : BitVec 64 := 1000 * c.timeout.signExtend 64

/-- The head of the outer loop. -/
def Call.head (c : Call) (r : Reader) : Reader :=
  { r with place := if r.bytesRead < c.size then .clock else .returned r.bytesRead }

/-- `buf[bytes_read++] = reg->DATA` -/
def Call.take (c : Call) (r : Reader) : Reader :=
  { r with
    bytesRead := r.bytesRead + 1
    mem := r.mem.store (c.buf + r.bytesRead) [r.fifo.headD 0]
    fifo := r.fifo.tail }

/-- One access of `uart_read` to a register or the clock. -/
def Call.access (c : Call) (mtime : BitVec 64) (r : Reader) : Reader :=
  match r.place with
  | .clock => { r with t0 := mtime, place := .poll }
  | .poll =>
    { r with place := if occupancy r.fifo = 0 then .wait else .data (occupancy r.fifo) }
  | .wait =>
    { r with place := if c.timeoutUs ≤ mtime - r.t0 then .returned r.bytesRead else .poll }
  | .data avail =>
    if avail ≤ 1 then c.head (c.take r) else { c.take r with place := .data (avail - 1) }
  | .returned _ => r

/-- The start of `uart_read`. -/
def Call.start (c : Call) (mem : Memory Byte) (fifo : List Byte) : Reader :=
  if c.buf = 0 then ⟨.returned (-1), 0, 0, mem, fifo⟩ else c.head ⟨.clock, 0, 0, mem, fifo⟩

/-- Bytes come in behind those that wait. -/
def Reader.receive (r : Reader) (bytes : List Byte) : Reader := { r with fifo := r.fifo ++ bytes }

def Call.step (c : Call) (r : Reader) (m : Moment) : Reader := c.access m.mtime (r.receive m.bytes)

/-- `uart_read` before access `n`. -/
def Call.readerAt (c : Call) (mem : Memory Byte) (fifo : List Byte) (env : ℕ → Moment) (n : ℕ) :
    Reader :=
  trace c.step (c.start mem fifo) env n

/-! ## Section 2: What is to hold -/

/-- The bytes that come in before access `n`. -/
def arrived (env : ℕ → Moment) (n : ℕ) : List Byte := (List.range n).flatMap fun i => (env i).bytes

/-- `uart_read` respects its buffer: `came` are all bytes that were in the FIFO or came in. -/
structure Call.Respects (c : Call) (mem : Memory Byte) (came : List Byte) (r : Reader) : Prop where
  room : (r.bytesRead : ℤ) ≤ c.size
  /-- The bytes stored and those left are the bytes that came, in order. -/
  order : r.mem.load c.buf r.bytesRead ++ r.fifo = came
  outside : ∀ a, a < c.buf ∨ c.buf + r.bytesRead ≤ a → r.mem a = mem a
  ret : ∀ v, r.place = .returned v → v = r.bytesRead

/-- A poll finds no more bytes than there is room for. -/
def Call.BurstFits (c : Call) (r : Reader) : Prop :=
  r.place = .poll → ((r.bytesRead + occupancy r.fifo : ℕ) : ℤ) ≤ c.size

/-! ## Section 3: The invariant -/

variable {c : Call} {mem : Memory Byte} {fifo came : List Byte} {r : Reader} {env : ℕ → Moment}

/-- What a place says about the bytes read and the FIFO. -/
def Call.Placed (c : Call) (r : Reader) : Prop :=
  match r.place with
  | .clock | .poll | .wait => (r.bytesRead : ℤ) < c.size
  | .data avail =>
    0 < avail ∧ avail ≤ r.fifo.length ∧ ((r.bytesRead + avail : ℕ) : ℤ) ≤ c.size
  | .returned v => v = r.bytesRead ∧ v ≤ c.size

/-- What holds as long as the bytes of every poll fit. -/
structure Call.Inv (c : Call) (mem : Memory Byte) (came : List Byte) (r : Reader) : Prop where
  placed : c.Placed r
  order : r.mem.load c.buf r.bytesRead ++ r.fifo = came
  outside : ∀ a, a < c.buf ∨ c.buf + r.bytesRead ≤ a → r.mem a = mem a

theorem Call.Inv.respects (h : c.Inv mem came r) : c.Respects mem came r := by
  have hplaced := h.placed
  refine ⟨?_, h.order, h.outside, fun v hv => ?_⟩
  · unfold Call.Placed at hplaced
    cases hp : r.place with
    | clock | poll | wait =>
      rw [hp] at hplaced
      exact hplaced.le
    | data avail =>
      rw [hp] at hplaced
      have := hplaced.2.2
      omega
    | returned v =>
      rw [hp] at hplaced
      exact hplaced.1 ▸ hplaced.2
  · rw [Call.Placed, hv] at hplaced
    exact hplaced.1

/-- Bytes that come in go to the end. -/
theorem Call.Inv.receive (h : c.Inv mem came r) (bytes : List Byte) :
    c.Inv mem (came ++ bytes) (r.receive bytes) := by
  refine ⟨?_, ?_, h.outside⟩
  · have hplaced := h.placed
    unfold Call.Placed at hplaced ⊢
    show match r.place with
      | .clock | .poll | .wait => (r.bytesRead : ℤ) < c.size
      | .data avail =>
        0 < avail ∧ avail ≤ (r.fifo ++ bytes).length ∧ ((r.bytesRead + avail : ℕ) : ℤ) ≤ c.size
      | .returned v => v = r.bytesRead ∧ v ≤ c.size
    cases hp : r.place with
    | clock | poll | wait | returned v =>
      rw [hp] at hplaced
      exact hplaced
    | data avail =>
      rw [hp] at hplaced
      rw [List.length_append]
      exact ⟨hplaced.1, Nat.le_add_right_of_le hplaced.2.1, hplaced.2.2⟩
  · show r.mem.load c.buf r.bytesRead ++ (r.fifo ++ bytes) = came ++ bytes
    rw [← List.append_assoc, h.order]

/-- The first byte of the FIFO goes behind the bytes stored. -/
theorem load_take (hne : r.fifo ≠ []) :
    (c.take r).mem.load c.buf (c.take r).bytesRead ++ (c.take r).fifo =
      r.mem.load c.buf r.bytesRead ++ r.fifo := by
  obtain ⟨b, rest, hfifo⟩ := List.exists_cons_of_ne_nil hne
  show (r.mem.store (c.buf + r.bytesRead) [r.fifo.headD 0]).load c.buf (r.bytesRead + 1) ++
    r.fifo.tail = _
  have hlast := Memory.load_store_self r.mem (c.buf + r.bytesRead) [b]
  rw [List.length_singleton] at hlast
  rw [hfifo, List.headD_cons, List.tail_cons, Memory.load_add, hlast,
    Memory.load_store_of_disjoint r.mem [b] (Or.inl (Nat.le_refl _)), List.append_assoc,
    List.singleton_append]

theorem take_outside (h : ∀ a, a < c.buf ∨ c.buf + r.bytesRead ≤ a → r.mem a = mem a) (a : ℕ)
    (ha : a < c.buf ∨ c.buf + (r.bytesRead + 1) ≤ a) : (c.take r).mem a = mem a := by
  show r.mem.store (c.buf + r.bytesRead) [r.fifo.headD 0] a = _
  rw [Memory.store_singleton, if_neg (by omega)]
  exact h a (by omega)

/-- The head of the loop has room for a byte, or returns. -/
theorem placed_head (h : (r.bytesRead : ℤ) ≤ c.size) : c.Placed (c.head r) := by
  unfold Call.head Call.Placed
  by_cases hroom : (r.bytesRead : ℤ) < c.size
  · simp only [if_pos hroom]
    exact hroom
  · simp only [if_neg hroom]
    exact ⟨trivial, h⟩

/-- **Step lemma.**  An access keeps the invariant if the burst that waits fits. -/
theorem Call.Inv.access (h : c.Inv mem came r) (hfits : c.BurstFits r) (mtime : BitVec 64) :
    c.Inv mem came (c.access mtime r) := by
  have hplaced := h.placed
  unfold Call.Placed at hplaced
  cases hp : r.place with
  | clock =>
    rw [hp] at hplaced
    simp only [Call.access, hp]
    exact ⟨hplaced, h.order, h.outside⟩
  | poll =>
    rw [hp] at hplaced
    simp only [Call.access, hp]
    refine ⟨?_, h.order, h.outside⟩
    unfold Call.Placed
    by_cases hempty : occupancy r.fifo = 0
    · simp only [if_pos hempty]
      exact hplaced
    · simp only [if_neg hempty]
      exact ⟨Nat.pos_of_ne_zero hempty, Nat.min_le_left _ _, hfits hp⟩
  | wait =>
    rw [hp] at hplaced
    simp only [Call.access, hp]
    refine ⟨?_, h.order, h.outside⟩
    unfold Call.Placed
    by_cases hover : c.timeoutUs ≤ mtime - r.t0
    · simp only [if_pos hover]
      exact ⟨trivial, hplaced.le⟩
    · simp only [if_neg hover]
      exact hplaced
  | data avail =>
    rw [hp] at hplaced
    obtain ⟨hpos, hlength, hroom⟩ := hplaced
    have hne : r.fifo ≠ [] := List.ne_nil_of_length_pos (Nat.lt_of_lt_of_le hpos hlength)
    have horder := (load_take (c := c) hne).trans h.order
    simp only [Call.access, hp]
    by_cases hlast : avail ≤ 1
    · rw [if_pos hlast]
      refine ⟨placed_head ?_, horder, take_outside h.outside⟩
      show ((r.bytesRead + 1 : ℕ) : ℤ) ≤ c.size
      omega
    · rw [if_neg hlast]
      refine ⟨⟨?_, ?_, ?_⟩, horder, take_outside h.outside⟩
      · omega
      · show avail - 1 ≤ r.fifo.tail.length
        rw [List.length_tail]
        omega
      · show ((r.bytesRead + 1 + (avail - 1) : ℕ) : ℤ) ≤ c.size
        omega
  | returned v =>
    simp only [Call.access, hp]
    exact h

theorem arrived_succ (env : ℕ → Moment) (n : ℕ) :
    arrived env (n + 1) = arrived env n ++ (env n).bytes := by
  simp [arrived, List.range_succ]

theorem inv_start (hbuf : c.buf ≠ 0) (hsize : 0 ≤ c.size) :
    c.Inv mem fifo (c.start mem fifo) := by
  rw [Call.start, if_neg hbuf]
  exact ⟨placed_head hsize, rfl, fun _ _ => rfl⟩

/-- **Run lemma.**  So it holds before every access. -/
theorem inv_readerAt (hbuf : c.buf ≠ 0) (hsize : 0 ≤ c.size)
    (hfits : ∀ n, c.BurstFits ((c.readerAt mem fifo env n).receive (env n).bytes)) (n : ℕ) :
    c.Inv mem (fifo ++ arrived env n) (c.readerAt mem fifo env n) := by
  induction n with
  | zero =>
    rw [arrived, List.range_zero, List.flatMap_nil, List.append_nil]
    exact inv_start hbuf hsize
  | succ n ih =>
    rw [arrived_succ, ← List.append_assoc]
    exact (ih.receive (env n).bytes).access (hfits n) (env n).mtime

/-! ## Section 4: A burst that does not fit -/

theorem readerAt_succ (n : ℕ) :
    c.readerAt mem fifo env (n + 1) =
      c.access (env n).mtime ((c.readerAt mem fifo env n).receive (env n).bytes) :=
  rfl

/-- All bytes of a poll are taken. -/
theorem bytesRead_drain {n avail : ℕ}
    (h : (c.readerAt mem fifo env n).place = .data (avail + 1)) :
    (c.readerAt mem fifo env (n + (avail + 1))).bytesRead =
      (c.readerAt mem fifo env n).bytesRead + (avail + 1) := by
  induction avail generalizing n with
  | zero =>
    rw [readerAt_succ, Call.access]
    simp only [Reader.receive, h]
    rfl
  | succ avail ih =>
    have hmore : ¬ avail + 1 + 1 ≤ 1 := by omega
    have hnext : c.readerAt mem fifo env (n + 1) =
        { c.take ((c.readerAt mem fifo env n).receive (env n).bytes) with
          place := .data (avail + 1) } := by
      rw [readerAt_succ, Call.access]
      simp only [Reader.receive, h, if_neg hmore]
      rfl
    have hrest := ih (n := n + 1) (by rw [hnext])
    have hread : (c.readerAt mem fifo env (n + 1)).bytesRead =
        (c.readerAt mem fifo env n).bytesRead + 1 := by
      rw [hnext]
      rfl
    rw [hread] at hrest
    have hn : n + (avail + 1 + 1) = n + 1 + (avail + 1) := by omega
    rw [hn, hrest]
    omega

/-- A poll that finds more than there is room for ends in an overrun. -/
theorem burstFits_of_room
    (hroom : ∀ n, ((c.readerAt mem fifo env n).bytesRead : ℤ) ≤ c.size) (n : ℕ) :
    c.BurstFits ((c.readerAt mem fifo env n).receive (env n).bytes) := by
  intro hplace
  generalize hk : occupancy ((c.readerAt mem fifo env n).receive (env n).bytes).fifo = k
  show (((c.readerAt mem fifo env n).bytesRead + k : ℕ) : ℤ) ≤ c.size
  cases k with
  | zero => exact hroom n
  | succ avail =>
    have hnext : c.readerAt mem fifo env (n + 1) =
        { (c.readerAt mem fifo env n).receive (env n).bytes with place := .data (avail + 1) } := by
      rw [readerAt_succ, Call.access]
      simp only [hplace, hk, if_neg (Nat.succ_ne_zero avail)]
    have hdrain : (c.readerAt mem fifo env (n + 1 + (avail + 1))).bytesRead =
        (c.readerAt mem fifo env (n + 1)).bytesRead + (avail + 1) :=
      bytesRead_drain (by rw [hnext])
    have hlast := hroom (n + 1 + (avail + 1))
    rw [hdrain, hnext] at hlast
    exact hlast

/-- **Reading.**  At any time `uart_read` respects its buffer exactly if there is a buffer, its size
is not negative, and no poll finds more bytes than there is room for. -/
theorem respects_iff (c : Call) (mem : Memory Byte) (fifo : List Byte) (env : ℕ → Moment) :
    (∀ n, c.Respects mem (fifo ++ arrived env n) (c.readerAt mem fifo env n)) ↔
      c.buf ≠ 0 ∧ 0 ≤ c.size ∧
        ∀ n, c.BurstFits ((c.readerAt mem fifo env n).receive (env n).bytes) := by
  constructor
  · intro h
    have hbuf : c.buf ≠ 0 := by
      intro hnull
      have hstart : c.readerAt mem fifo env 0 = ⟨.returned (-1), 0, 0, mem, fifo⟩ := if_pos hnull
      have hret := (h 0).ret (-1) (by rw [hstart])
      rw [hstart] at hret
      have hzero : ¬ (-1 : ℤ) = (0 : ℕ) := by decide
      exact hzero hret
    refine ⟨hbuf, ?_, burstFits_of_room fun n => (h n).room⟩
    exact Int.le_trans (Int.natCast_nonneg _) (h 0).room
  · rintro ⟨hbuf, hsize, hfits⟩ n
    exact (inv_readerAt hbuf hsize hfits n).respects

/-- Two bytes for a buffer of one. -/
theorem not_respects_burst :
    ¬ ∀ n, (⟨1, 1, 0⟩ : Call).Respects (fun _ => 0) ([0x41, 0x42] ++ arrived (fun _ => ⟨[], 0⟩) n)
      ((⟨1, 1, 0⟩ : Call).readerAt (fun _ => 0) [0x41, 0x42] (fun _ => ⟨[], 0⟩) n) := by
  intro h
  exact absurd (h 4).room (by decide)

/-! ## Section 5: Whether it returns -/

/-- The number of bytes read never falls, and every byte taken raises it. -/
theorem bytesRead_step (n : ℕ) :
    (c.readerAt mem fifo env n).bytesRead ≤ (c.readerAt mem fifo env (n + 1)).bytesRead ∧
      ∀ avail, (c.readerAt mem fifo env n).place = .data avail →
        (c.readerAt mem fifo env n).bytesRead < (c.readerAt mem fifo env (n + 1)).bytesRead := by
  rw [readerAt_succ, Call.access]
  have hplace : ((c.readerAt mem fifo env n).receive (env n).bytes).place =
      (c.readerAt mem fifo env n).place := rfl
  cases hp : (c.readerAt mem fifo env n).place with
  | clock | poll | wait | returned v =>
    simp only [hplace, hp]
    exact ⟨Nat.le_refl _, nofun⟩
  | data avail =>
    simp only [hplace, hp]
    split
    · exact ⟨Nat.le_succ _, fun _ _ => Nat.lt_succ_self _⟩
    · exact ⟨Nat.le_succ _, fun _ _ => Nat.lt_succ_self _⟩

/-- What is read is less than the size and one poll more. -/
def Call.Bounded (c : Call) (r : Reader) : Prop :=
  match r.place with
  | .clock | .poll | .wait => (r.bytesRead : ℤ) < c.size
  | .data avail => 0 < avail ∧ ((r.bytesRead + avail : ℕ) : ℤ) < c.size + 255
  | .returned _ => True

theorem bounded_head (c : Call) (r : Reader) : c.Bounded (c.head r) := by
  unfold Call.head Call.Bounded
  by_cases hroom : (r.bytesRead : ℤ) < c.size
  · simp only [if_pos hroom]
    exact hroom
  · simp only [if_neg hroom]

theorem bounded_access (h : c.Bounded r) (mtime : BitVec 64) : c.Bounded (c.access mtime r) := by
  unfold Call.Bounded at h
  cases hp : r.place with
  | clock =>
    rw [hp] at h
    simp only [Call.access, hp]
    exact h
  | poll =>
    rw [hp] at h
    simp only [Call.access, hp, Call.Bounded]
    have hle : occupancy r.fifo ≤ 255 := Nat.min_le_right _ _
    by_cases hempty : occupancy r.fifo = 0
    · simp only [if_pos hempty]
      exact h
    · simp only [if_neg hempty]
      exact ⟨Nat.pos_of_ne_zero hempty, by push_cast; omega⟩
  | wait =>
    rw [hp] at h
    simp only [Call.access, hp, Call.Bounded]
    by_cases hover : c.timeoutUs ≤ mtime - r.t0
    · simp only [if_pos hover]
    · simp only [if_neg hover]
      exact h
  | data avail =>
    rw [hp] at h
    simp only [Call.access, hp]
    by_cases hlast : avail ≤ 1
    · rw [if_pos hlast]
      exact bounded_head c _
    · rw [if_neg hlast]
      refine ⟨by omega, ?_⟩
      show ((r.bytesRead + 1 + (avail - 1) : ℕ) : ℤ) < c.size + 255
      omega
  | returned v =>
    simp only [Call.access, hp, Call.Bounded]

theorem bounded_readerAt (n : ℕ) : c.Bounded (c.readerAt mem fifo env n) := by
  induction n with
  | zero =>
    show c.Bounded (c.start mem fifo)
    unfold Call.start
    split
    · exact trivial
    · exact bounded_head c _
  | succ n ih =>
    -- bytes that come in change neither the place nor what has been read
    have hreceived : c.Bounded ((c.readerAt mem fifo env n).receive (env n).bytes) := ih
    exact bounded_access hreceived (env n).mtime

/-- A sequence that never falls and stays below a bound comes to rest. -/
theorem exists_rest {a : ℕ → ℕ} {b : ℕ} (hmono : ∀ n, a n ≤ a (n + 1)) (hbound : ∀ n, a n ≤ b) :
    ∃ n, ∀ m, n ≤ m → a (m + 1) = a m := by
  by_contra hnone
  simp only [not_exists, not_forall] at hnone
  -- otherwise it passes every number
  have hpass : ∀ k, ∃ n, k ≤ a n := by
    intro k
    induction k with
    | zero => exact ⟨0, Nat.zero_le _⟩
    | succ k ih =>
      obtain ⟨n, hn⟩ := ih
      obtain ⟨m, hm, hne⟩ := hnone n
      have hle : a n ≤ a m :=
        Nat.le_induction (Nat.le_refl _) (fun i _ hi => hi.trans (hmono i)) m hm
      exact ⟨m + 1, by have := hmono m; omega⟩
  obtain ⟨n, hn⟩ := hpass (b + 1)
  have := hbound n
  omega

/-- `uart_read` returns, unless it waits for ever for a byte or for the end of its timeout. -/
theorem returns_or_waits (c : Call) (mem : Memory Byte) (fifo : List Byte) (env : ℕ → Moment) :
    (∃ n v, (c.readerAt mem fifo env n).place = .returned v) ∨
      ∃ n, ∀ m, n ≤ m → (c.readerAt mem fifo env m).place = .poll ∨
        (c.readerAt mem fifo env m).place = .wait := by
  by_cases hret : ∃ n v, (c.readerAt mem fifo env n).place = .returned v
  · exact Or.inl hret
  refine Or.inr ?_
  have hnot : ∀ n v, (c.readerAt mem fifo env n).place ≠ .returned v := fun n v hp =>
    hret ⟨n, v, hp⟩
  have hbound : ∀ n, (c.readerAt mem fifo env n).bytesRead ≤ (c.size + 255).toNat := by
    intro n
    have hb : c.Bounded (c.readerAt mem fifo env n) := bounded_readerAt n
    unfold Call.Bounded at hb
    cases hp : (c.readerAt mem fifo env n).place with
    | clock | poll | wait =>
      rw [hp] at hb
      have hlt : ((c.readerAt mem fifo env n).bytesRead : ℤ) < c.size := hb
      omega
    | data avail =>
      rw [hp] at hb
      have hlt := hb.2
      omega
    | returned v => exact absurd hp (hnot n v)
  obtain ⟨n, hrest⟩ := exists_rest (fun n => (bytesRead_step n).1) hbound
  have hdata : ∀ m, n ≤ m → ∀ avail, (c.readerAt mem fifo env m).place ≠ .data avail := by
    intro m hm avail hp
    have hlt := (bytesRead_step m).2 avail hp
    exact absurd (hrest m hm) (Nat.ne_of_gt hlt)
  -- where nothing is taken and nothing returned, a poll is followed by a wait
  have hstep : ∀ m, n ≤ m → (c.readerAt mem fifo env (m + 1)).place = .poll ∨
      (c.readerAt mem fifo env (m + 1)).place = .wait := by
    intro m hm
    have hplace : ((c.readerAt mem fifo env m).receive (env m).bytes).place =
        (c.readerAt mem fifo env m).place := rfl
    have hnext : c.readerAt mem fifo env (m + 1) = _ := readerAt_succ m
    have hdata' := hdata (m + 1) (Nat.le_succ_of_le hm)
    have hnot' := hnot (m + 1)
    rw [hnext, Call.access] at hdata' hnot' ⊢
    cases hp : (c.readerAt mem fifo env m).place with
    | clock =>
      simp only [hplace, hp]
      exact Or.inl trivial
    | poll =>
      simp only [hplace, hp] at hdata' ⊢
      split at hdata'
      · next hempty => exact Or.inr (if_pos hempty)
      · exact absurd rfl (hdata' _)
    | wait =>
      simp only [hplace, hp] at hnot' ⊢
      split at hnot'
      · exact absurd rfl (hnot' _)
      · next hover => exact Or.inl (if_neg hover)
    | data avail => exact absurd hp (hdata m hm avail)
    | returned v => exact absurd hp (hnot m v)
  refine ⟨n + 1, fun m hm => ?_⟩
  obtain ⟨k, rfl⟩ := Nat.exists_eq_add_of_le hm
  have hk : n + 1 + k = n + k + 1 := by omega
  rw [hk]
  exact hstep (n + k) (Nat.le_add_right n k)

end Karnix.Uart
