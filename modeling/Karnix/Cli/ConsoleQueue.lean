import Karnix.Library.Bytes
import Karnix.Library.Runs

/-!
# The console queue of the HEX loader

`console_rx`, the receive interrupt handler, appends bytes to a linear buffer;
the input loop of `cli_cmd_ihex` takes them out with an index of its own.  The buffer is
used from its start again only when that index has caught up with the handler.
-/

namespace Karnix.Cli.Queue

open Karnix.Library

/-! ## Section 1: The queue -/

/-- `CONSOLE_RX_BUF_SIZE`: the bytes that wait for the main loop. -/
def consoleRxBufSize : ℕ := 64

/-- Where the input loop of `cli_cmd_ihex` is. -/
inductive InputLoop where
  /-- About to test `console_rx_buf_len`. -/
  | test
  /-- It was not zero; interrupts are about to be disabled. -/
  | take
  deriving DecidableEq

/-- The variables of the queue, what has been received, and what the parser has got. -/
structure Console where
  consoleRxBuf : Memory Byte
  consoleRxBufLen : ℕ
  /-- `console_rx_buf_idx`, a local variable of the loop. -/
  consoleRxBufIdx : ℕ
  loop : InputLoop
  received : List Byte
  delivered : List Byte

/-- One pass of the loop of `console_rx`: a byte that does not fit is dropped. -/
def Console.receive (q : Console) (c : Byte) : Console :=
  if q.consoleRxBufLen ≥ consoleRxBufSize then { q with received := q.received ++ [c] }
  else
    { q with
      consoleRxBuf := q.consoleRxBuf.store q.consoleRxBufLen [c]
      consoleRxBufLen := q.consoleRxBufLen + 1
      received := q.received ++ [c] }

/-- `console_rx`, with what the FIFO of the UART holds. -/
def Console.consoleRx (q : Console) (fifo : List Byte) : Console := fifo.foldl Console.receive q

/-- The next step of the loop.  The second one runs with interrupts disabled. -/
def Console.read (q : Console) : Console :=
  match q.loop with
  | .test => if q.consoleRxBufLen = 0 then q else { q with loop := .take }
  | .take =>
    let c := q.consoleRxBuf q.consoleRxBufIdx
    -- both start again at 0 only where they meet
    let idx := q.consoleRxBufIdx + 1
    let caughtUp : Bool := idx = q.consoleRxBufLen
    { q with
      consoleRxBufLen := if caughtUp then 0 else q.consoleRxBufLen
      consoleRxBufIdx := if caughtUp then 0 else idx
      loop := .test
      delivered := q.delivered ++ [c] }

inductive Event where
  /-- The receive interrupt. -/
  | rx (fifo : List Byte)
  /-- The input loop makes its next step. -/
  | read

def step (q : Console) : Event → Console
  | .rx fifo => q.consoleRx fifo
  | .read => q.read

/-- The queue when `cli_cmd_ihex` begins; bytes that have come since the last poll are taken
for a first interrupt. -/
def Console.init (buf : Memory Byte) : Console := ⟨buf, 0, 0, .test, [], []⟩

/-! ## Section 2: Nothing is lost -/

/-- What the parser has got is the beginning of what was received, and when the loop goes on
it gets the rest. -/
def Console.Delivers (q : Console) : Prop :=
  q.delivered <+: q.received ∧
    ∃ n, (run step q (List.replicate n .read)).delivered = q.received

/-- The bytes that arrive fit behind those that have arrived since the loop last caught
up. -/
def Room (q : Console) : Event → Prop
  | .rx fifo => q.consoleRxBufLen + fifo.length ≤ consoleRxBufSize
  | .read => True

instance (q : Console) : ∀ e, Decidable (Room q e)
  | .rx _ => inferInstanceAs (Decidable (_ ≤ _))
  | .read => isTrue trivial

/-- The index is within the buffer, and `take` is reached with bytes in it. -/
structure Console.Inv (q : Console) : Prop where
  len_le : q.consoleRxBufLen ≤ consoleRxBufSize
  idx_le : q.consoleRxBufIdx ≤ q.consoleRxBufLen
  idx_lt : q.consoleRxBufLen ≠ 0 → q.consoleRxBufIdx < q.consoleRxBufLen
  take : q.loop = .take → q.consoleRxBufLen ≠ 0

/-- The bytes in the buffer that the loop has not taken yet. -/
def Console.unread (q : Console) : List Byte :=
  q.consoleRxBuf.load q.consoleRxBufIdx (q.consoleRxBufLen - q.consoleRxBufIdx)

/-- What was delivered or still will be. -/
def Console.kept (q : Console) : List Byte := q.delivered ++ q.unread

section Steps

variable {q : Console}

theorem inv_init (buf : Memory Byte) : (Console.init buf).Inv :=
  ⟨Nat.zero_le _, Nat.le_refl _, fun h => absurd rfl h, fun h => by cases h⟩

/-! ## Section 3: One step -/

theorem receive_full {c : Byte} (h : consoleRxBufSize ≤ q.consoleRxBufLen) :
    q.receive c = { q with received := q.received ++ [c] } := if_pos h

theorem receive_room {c : Byte} (h : q.consoleRxBufLen < consoleRxBufSize) :
    q.receive c =
      { q with
        consoleRxBuf := q.consoleRxBuf.store q.consoleRxBufLen [c]
        consoleRxBufLen := q.consoleRxBufLen + 1
        received := q.received ++ [c] } := if_neg (Nat.not_le.mpr h)

theorem Console.Inv.receive (h : q.Inv) (c : Byte) : (q.receive c).Inv := by
  rcases Nat.lt_or_ge q.consoleRxBufLen consoleRxBufSize with hroom | hfull
  · rw [receive_room hroom]
    exact ⟨hroom, Nat.le_succ_of_le h.idx_le, fun _ => Nat.lt_succ_of_le h.idx_le,
      fun _ => Nat.succ_ne_zero _⟩
  · rw [receive_full hfull]
    exact ⟨h.len_le, h.idx_le, h.idx_lt, h.take⟩

theorem kept_receive_room (h : q.Inv) {c : Byte} (hroom : q.consoleRxBufLen < consoleRxBufSize) :
    (q.receive c).kept = q.kept ++ [c] := by
  have hlen : q.consoleRxBufLen + 1 - q.consoleRxBufIdx =
      (q.consoleRxBufLen - q.consoleRxBufIdx) + 1 := Nat.succ_sub h.idx_le
  have hend : q.consoleRxBufIdx + (q.consoleRxBufLen - q.consoleRxBufIdx) = q.consoleRxBufLen :=
    Nat.add_sub_of_le h.idx_le
  have hold : (q.consoleRxBuf.store q.consoleRxBufLen [c]).load q.consoleRxBufIdx
      (q.consoleRxBufLen - q.consoleRxBufIdx) = q.unread :=
    Memory.load_store_of_disjoint _ _ (Or.inl hend.le)
  have hnew : (q.consoleRxBuf.store q.consoleRxBufLen [c]).load q.consoleRxBufLen 1 = [c] :=
    Memory.load_store_self _ _ _
  rw [receive_room hroom]
  simp only [Console.kept, Console.unread, hlen, Memory.load_add, hend, hold, hnew,
    List.append_assoc]

/-- Of the bytes in the FIFO those are kept that fit behind the ones in the buffer. -/
theorem kept_consoleRx (h : q.Inv) (fifo : List Byte) :
    (q.consoleRx fifo).Inv ∧
      (q.consoleRx fifo).received = q.received ++ fifo ∧
      (q.consoleRx fifo).kept = q.kept ++ fifo.take (consoleRxBufSize - q.consoleRxBufLen) := by
  -- on the FIFO, the buffer getting fuller by one byte at most in each pass
  induction fifo generalizing q with
  | nil => exact ⟨h, (List.append_nil _).symm, by simp [Console.consoleRx]⟩
  | cons c fifo ih =>
    obtain ⟨hinv, hreceived, hkept⟩ := ih (h.receive c)
    rcases Nat.lt_or_ge q.consoleRxBufLen consoleRxBufSize with hroom | hfull
    · have hleft : consoleRxBufSize - q.consoleRxBufLen =
          (consoleRxBufSize - (q.receive c).consoleRxBufLen) + 1 := by
        rw [receive_room hroom]
        show consoleRxBufSize - q.consoleRxBufLen =
          consoleRxBufSize - (q.consoleRxBufLen + 1) + 1
        omega
      refine ⟨hinv, ?_, ?_⟩
      · rw [receive_room hroom] at hreceived
        simpa [Console.consoleRx, receive_room hroom] using hreceived
      · rw [kept_receive_room h hroom] at hkept
        rw [hleft, List.take_succ_cons]
        simpa [Console.consoleRx] using hkept
    · -- the buffer is full, and stays so
      have hleft : consoleRxBufSize - q.consoleRxBufLen = 0 := Nat.sub_eq_zero_of_le hfull
      rw [receive_full hfull] at hinv hreceived hkept
      refine ⟨?_, ?_, ?_⟩
      · simpa [Console.consoleRx, receive_full hfull] using hinv
      · simpa [Console.consoleRx, receive_full hfull] using hreceived
      · rw [hleft] at hkept ⊢
        simpa [Console.consoleRx, receive_full hfull, Console.kept, Console.unread] using hkept

/-- The loop moves bytes from the buffer to the parser. -/
theorem kept_read (h : q.Inv) :
    q.read.Inv ∧ q.read.received = q.received ∧ q.read.kept = q.kept := by
  unfold Console.read
  cases hloop : q.loop with
  | test =>
    dsimp only
    split_ifs with hzero
    -- the loop waits
    · exact ⟨h, rfl, rfl⟩
    · exact ⟨⟨h.len_le, h.idx_le, h.idx_lt, fun _ => hzero⟩, rfl, rfl⟩
  | take =>
    have hlt : q.consoleRxBufIdx < q.consoleRxBufLen := h.idx_lt (h.take hloop)
    have hone : q.consoleRxBufLen - q.consoleRxBufIdx =
        (q.consoleRxBufLen - (q.consoleRxBufIdx + 1)) + 1 := by omega
    have hkept : q.kept = q.delivered ++ q.consoleRxBuf q.consoleRxBufIdx ::
        q.consoleRxBuf.load (q.consoleRxBufIdx + 1)
          (q.consoleRxBufLen - (q.consoleRxBufIdx + 1)) := by
      rw [Console.kept, Console.unread, hone, Memory.load_succ]
    by_cases hend : q.consoleRxBufIdx + 1 = q.consoleRxBufLen
    · -- the loop has caught up and rewinds the buffer
      refine ⟨?_, rfl, ?_⟩
      · simp only [hend, decide_true, if_true]
        exact ⟨Nat.zero_le _, Nat.le_refl _, fun hn => absurd rfl hn, fun ht => by cases ht⟩
      · rw [hkept]
        simp [Console.kept, Console.unread, hend]
    · refine ⟨?_, rfl, ?_⟩
      · simp only [hend, decide_false, Bool.false_eq_true, if_false]
        exact ⟨h.len_le, hlt, fun _ => Nat.lt_of_le_of_ne hlt hend, fun ht => by cases ht⟩
      · rw [hkept]
        simp [Console.kept, Console.unread, hend]

theorem unread_read_take (h : q.Inv) (hloop : q.loop = .take) :
    q.read.unread.length + 1 = q.unread.length := by
  have hkept := congrArg List.length (kept_read h).2.2
  have hone : q.read.delivered.length = q.delivered.length + 1 := by
    simp [Console.read, hloop]
  simp only [Console.kept, List.length_append, hone] at hkept
  omega

/-- The loop gets everything that is in the buffer. -/
theorem read_drains (h : q.Inv) :
    ∃ n, (run step q (List.replicate n .read)).delivered = q.kept := by
  -- on the bytes in the buffer: from a `take` there is one less, from a `test` comes a `take`
  obtain ⟨m, hm⟩ : ∃ m, m = q.unread.length := ⟨_, rfl⟩
  induction m generalizing q with
  | zero =>
    have hnone : q.unread = [] := List.eq_nil_of_length_eq_zero hm.symm
    exact ⟨0, by simp [Console.kept, hnone]⟩
  | succ m ih =>
    have htake : ∀ {p : Console}, p.Inv → p.loop = .take → p.unread.length = m + 1 →
        ∃ n, (run step p (List.replicate n .read)).delivered = p.kept := by
      intro p hp hloop hlen
      obtain ⟨hinv, -, hkept⟩ := kept_read hp
      have hless := unread_read_take hp hloop
      obtain ⟨n, hn⟩ := ih hinv (by omega)
      refine ⟨n + 1, ?_⟩
      rw [List.replicate_succ, run_cons, ← hkept]
      exact hn
    cases hloop : q.loop with
    | take => exact htake h hloop hm.symm
    | test =>
      have hsome : q.consoleRxBufLen ≠ 0 := by
        intro hzero
        simp [Console.unread, hzero] at hm
      have hread : q.read = { q with loop := .take } := by
        simp [Console.read, hloop, hsome]
      have hinv := (kept_read h).1
      rw [hread] at hinv
      obtain ⟨n, hn⟩ := htake hinv rfl hm.symm
      refine ⟨n + 1, ?_⟩
      rw [List.replicate_succ, run_cons, step, hread]
      exact hn

end Steps

/-! ## Section 4: Runs -/

section Runs

variable {q : Console}

/-- What a run keeps is at most what it has received. -/
structure Console.Sound (q : Console) : Prop where
  inv : q.Inv
  kept_le : q.kept.length ≤ q.received.length

theorem Console.Sound.step (h : q.Sound) (e : Event) : (step q e).Sound := by
  cases e with
  | rx fifo =>
    obtain ⟨hinv, hreceived, hkept⟩ := kept_consoleRx h.inv fifo
    refine ⟨hinv, ?_⟩
    have hle := h.kept_le
    simp only [Queue.step, hreceived, hkept, List.length_append, List.length_take]
    omega
  | read =>
    obtain ⟨hinv, hreceived, hkept⟩ := kept_read h.inv
    exact ⟨hinv, by simpa [Queue.step, hreceived, hkept] using h.kept_le⟩

theorem Console.Sound.run (h : q.Sound) (es : List Event) : (run Queue.step q es).Sound := by
  induction es generalizing q with
  | nil => exact h
  | cons e es ih => exact ih (h.step e)

theorem kept_reads (h : q.Sound) (n : ℕ) :
    (Library.run step q (List.replicate n .read)).kept = q.kept ∧
      (Library.run step q (List.replicate n .read)).received = q.received := by
  induction n generalizing q with
  | zero => exact ⟨rfl, rfl⟩
  | succ n ih =>
    obtain ⟨-, hreceived, hkept⟩ := kept_read h.inv
    obtain ⟨hkept', hreceived'⟩ := ih (h.step .read)
    rw [List.replicate_succ, run_cons]
    exact ⟨hkept'.trans hkept, hreceived'.trans hreceived⟩

/-- Everything is delivered if nothing was dropped so far. -/
theorem delivers_iff (h : q.Sound) : q.Delivers ↔ q.kept = q.received := by
  constructor
  · rintro ⟨-, n, hn⟩
    obtain ⟨hkept, -⟩ := kept_reads h n
    have hle := h.kept_le
    -- what the loop has got in the end is a prefix of what is kept, and is all of it
    have hpre : q.received <+: q.kept := by
      rw [← hkept, ← hn]
      exact List.prefix_append _ _
    exact (hpre.eq_of_length_le hle).symm
  · intro hkept
    obtain ⟨n, hn⟩ := read_drains h.inv
    exact ⟨hkept ▸ List.prefix_append _ _, n, hn.trans hkept⟩

/-- **Step lemma.**  Nothing is dropped so far exactly if nothing was before and the bytes
of the step fit. -/
theorem kept_step (h : q.Sound) (e : Event) :
    (step q e).kept = (step q e).received ↔ q.kept = q.received ∧ Room q e := by
  cases e with
  | read =>
    obtain ⟨-, hreceived, hkept⟩ := kept_read h.inv
    simp [step, Room, hreceived, hkept]
  | rx fifo =>
    obtain ⟨-, hreceived, hkept⟩ := kept_consoleRx h.inv fifo
    have hle := h.kept_le
    rw [step, hreceived, hkept]
    constructor
    · -- what was dropped once never comes back
      intro heq
      have hlen := congrArg List.length heq
      simp only [List.length_append, List.length_take] at hlen
      have hall : fifo.length ≤ consoleRxBufSize - q.consoleRxBufLen := by omega
      rw [List.take_of_length_le hall] at heq
      refine ⟨List.append_cancel_right heq, ?_⟩
      have hin := h.inv.len_le
      rw [Room]
      omega
    · rintro ⟨hsame, hroom⟩
      rw [Room] at hroom
      rw [hsame, List.take_of_length_le (by omega)]

/-- **Run lemma.**  A run keeps all that it receives exactly if it begins so, and each arrival
finds room. -/
theorem kept_run (h : q.Sound) (es : List Event) :
    (Library.run step q es).kept = (Library.run step q es).received ↔
      q.kept = q.received ∧ RunMeets step Room q es := by
  induction es generalizing q with
  | nil => simp [RunMeets]
  | cons e es ih => rw [run_cons, ih (h.step e), kept_step h, RunMeets, and_assoc]

theorem sound_init (buf : Memory Byte) : (Console.init buf).Sound :=
  ⟨inv_init buf, Nat.le_refl _⟩

end Runs

/-- **Console queue.**  In every run of the receive interrupt and the input loop, whatever
their order, the parser gets every byte once and in order, if and only if every byte that
arrives fits into the buffer behind those that arrived since the loop last caught up. -/
theorem consoleQueue (buf : Memory Byte) (es : List Event) :
    (run step (Console.init buf) es).Delivers ↔ RunMeets step Room (Console.init buf) es := by
  rw [delivers_iff ((sound_init buf).run es), kept_run (sound_init buf)]
  exact and_iff_right rfl

/-- After the step fewer bytes than the buffer holds have not been delivered yet. -/
def Backlog (q : Console) (e : Event) : Prop :=
  (step q e).received.length < (step q e).delivered.length + consoleRxBufSize

instance (q : Console) (e : Event) : Decidable (Backlog q e) := inferInstanceAs (Decidable (_ < _))

/-- A byte is always one ahead of the loop, 64 times in a row. -/
def oneAhead : List Event :=
  .rx [0x3a] :: (List.replicate 64 [.rx [0x30], .read, .read]).flatten

/-- At most two bytes wait at any time, and the last one is dropped. -/
theorem consoleQueue_oneAhead :
    RunMeets step Backlog (Console.init fun _ => 0) oneAhead ∧
      ¬ (run step (Console.init fun _ => 0) oneAhead).Delivers := by
  refine ⟨by decide +kernel, fun h => ?_⟩
  have hkept := (delivers_iff ((sound_init _).run _)).1 h
  exact absurd ((kept_run (sound_init _) _).1 hkept).2 (by decide +kernel)

end Karnix.Cli.Queue
