import Mathlib.Tactic.IntervalCases
import Karnix.Sram.WriteBurst

/-!
# Pipelined memory bus to SRAM bridge

`PipelinedMemoryBusSram` of `Sram.scala`, one clock cycle at a time, with the asynchronous
16-bit SRAM behind it.  A command stays on the bus until `cmd.ready`; a write takes two cycles
and a read four, each half-word being read twice.

What the bridge is for is `serve`: a memory of words with byte masks, which answers each read
with the word at that moment.
-/

namespace Karnix.Sram.Pipelined

open Karnix.Library

variable {n : ℕ}

/-! ## Section 1: The bridge -/

/-- The command channel: what is asked of the memory, while it is valid. -/
structure Cmd (n : ℕ) where
  write : Bool
  address : BitVec n
  data : BitVec 32
  mask : BitVec 4

/-- The registers of the bridge, and the SRAM. -/
structure Bridge where
  state : BitVec 3 := 0
  rspData : BitVec 32 := 0
  rspValid : Bool := false
  mem : Memory Half

/-- The number of the word a command addresses: `address[addressWidth : 2]`. -/
def Cmd.word (addressWidth : ℕ) (c : Cmd n) : ℕ :=
  c.address.toNat / 4 % 2 ^ (addressWidth - 1)

/-- `io.bus.cmd.ready`: a write is taken in its second cycle, a read in its fourth. -/
def Bridge.ready (s : Bridge) (c : Cmd n) : Bool :=
  (decide (s.state = 1) && c.write) || (decide (s.state = 3) && !c.write)

/-- The bridge in a cycle in which the bus holds the command `i`, if any. -/
def step (addressWidth : ℕ) (s : Bridge) (i : Option (Cmd n)) : Bridge :=
  match i with
  | none => { s with state := 0, rspValid := false }
  | some c =>
    let w := c.word addressWidth
    let low := s.rspData.extractLsb' 16 16 ++ s.mem (2 * w)
    let high := s.mem (2 * w + 1) ++ s.rspData.extractLsb' 0 16
    if c.write then
      if s.state = 0 then { s with mem := storeLow s.mem w c.mask c.data, state := 1 }
      else { s with mem := storeHigh s.mem w c.mask c.data, state := 0 }
    else if s.state = 0 then { s with rspData := low, state := 1, rspValid := false }
    else if s.state = 1 then { s with rspData := low, state := 2 }
    else if s.state = 2 then { s with rspData := high, state := 3 }
    else { s with rspData := high, rspValid := true, state := 0 }

/-- The command that is accepted in a cycle. -/
def accepted (s : Bridge) (i : Option (Cmd n)) : Option (Cmd n) :=
  i.filter fun c => s.ready c

/-- The response of a cycle. -/
def response (s : Bridge) (_ : Option (Cmd n)) : Option (BitVec 32) :=
  if s.rspValid then some s.rspData else none

/-! ## Section 2: A memory of words -/

/-- Byte `j` of a masked write. -/
def pickByte (old : BitVec 32) (mask : BitVec 4) (data : BitVec 32) (j : ℕ) : BitVec 8 :=
  if mask.getLsbD j then data.extractLsb' (8 * j) 8 else old.extractLsb' (8 * j) 8

/-- The word `old` with the masked bytes replaced. -/
def mergeWord (old : BitVec 32) (mask : BitVec 4) (data : BitVec 32) : BitVec 32 :=
  (pickByte old mask data 3 ++ pickByte old mask data 2) ++
    (pickByte old mask data 1 ++ pickByte old mask data 0)

/-- The words, and what the reads were answered with, oldest first. -/
structure WordMemory where
  words : Memory (BitVec 32)
  replies : List (BitVec 32) := []

/-- One command, served by a memory of words. -/
def serve (addressWidth : ℕ) (m : WordMemory) (c : Cmd n) : WordMemory :=
  let w := c.word addressWidth
  if c.write then
    { m with words := fun k =>
        if k = w then mergeWord (m.words w) c.mask c.data else m.words k }
  else { m with replies := m.replies ++ [m.words w] }

variable (addressWidth : ℕ) (mem : Memory Half) (cmd : ℕ → Option (Cmd n))

/-- The bridge at clock edge `t`, from reset on. -/
def bridgeAt (t : ℕ) : Bridge := trace (step addressWidth) { mem } cmd t

/-- The memory of words after the commands accepted before clock edge `t`. -/
def servedAt (t : ℕ) : WordMemory :=
  run (serve addressWidth) { words := wordAt mem }
    (observed (step addressWidth) accepted { mem } cmd t)

/-- The responses before clock edge `t`. -/
def responsesAt (t : ℕ) : List (BitVec 32) :=
  observed (step addressWidth) response { mem } cmd t

/-- The command of cycle `t` that is accepted in it. -/
def acceptedAt (t : ℕ) : Option (Cmd n) := accepted (bridgeAt addressWidth mem cmd t) (cmd t)

/-- A read is accepted in cycle `t`. -/
def ReadAcceptedAt (t : ℕ) : Prop :=
  ∃ c, acceptedAt addressWidth mem cmd t = some c ∧ c.write = false

/-- No command is under way at clock edge `t`. -/
def BetweenCommands : ℕ → Prop
  | 0 => True
  | t + 1 => cmd t = none ∨ acceptedAt addressWidth mem cmd t ≠ none

/-- A command stays on the bus until it is accepted. -/
def Held : Prop :=
  ∀ t c, cmd t = some c → acceptedAt addressWidth mem cmd t = none → cmd (t + 1) = some c

/-- The bridge is a memory of words: between commands the SRAM holds the words, and the
responses are the answers to the accepted reads, none too early, in order, none missing and
none too many. -/
def ServesWords : Prop :=
  ∀ t,
    (BetweenCommands addressWidth mem cmd t →
      wordAt (bridgeAt addressWidth mem cmd t).mem = (servedAt addressWidth mem cmd t).words) ∧
    responsesAt addressWidth mem cmd t <+: (servedAt addressWidth mem cmd t).replies ∧
    ∃ t', (servedAt addressWidth mem cmd t).replies <+: responsesAt addressWidth mem cmd t'

/-- No write command is on the bus in the cycle after the one in which a read was accepted. -/
def NoWriteAfterRead : Prop :=
  ∀ t c, ReadAcceptedAt addressWidth mem cmd t → cmd (t + 1) = some c → c.write = false

/-! ## Section 3: Words made of half-words -/

theorem extract_high (hi lo : Half) {j : ℕ} (hj : j < 2) :
    (hi ++ lo).extractLsb' (8 * (j + 2)) 8 = hi.extractLsb' (8 * j) 8 := by
  ext i hi'
  have hge : ¬ 8 * (j + 2) + i < 16 := by omega
  rw [BitVec.getElem_extractLsb', BitVec.getElem_extractLsb', BitVec.getLsbD_append, if_neg hge]
  congr 1
  omega

theorem extract_low (hi lo : Half) {j : ℕ} (hj : j < 2) :
    (hi ++ lo).extractLsb' (8 * j) 8 = lo.extractLsb' (8 * j) 8 := by
  ext i hi'
  have hlt : 8 * j + i < 16 := by omega
  rw [BitVec.getElem_extractLsb', BitVec.getElem_extractLsb', BitVec.getLsbD_append, if_pos hlt]

theorem extract_extract (x : BitVec 32) (a j : ℕ) (hj : j < 2) :
    (x.extractLsb' a 16).extractLsb' (8 * j) 8 = x.extractLsb' (a + 8 * j) 8 := by
  ext i hi
  have hlt : 8 * j + i < 16 := by omega
  rw [BitVec.getElem_extractLsb', BitVec.getElem_extractLsb', BitVec.getLsbD_extractLsb',
    decide_eq_true hlt, Bool.true_and, Nat.add_assoc]

/-- The two half-words of a masked word. -/
theorem mergeWord_append (hi lo : Half) (mask : BitVec 4) (data : BitVec 32) :
    mergeWord (hi ++ lo) mask data =
      mergeHalf hi (mask.getLsbD 2) (mask.getLsbD 3) (data.extractLsb' 16 16) ++
        mergeHalf lo (mask.getLsbD 0) (mask.getLsbD 1) (data.extractLsb' 0 16) := by
  have h3 := extract_high hi lo (j := 1) (by decide)
  have h2 := extract_high hi lo (j := 0) (by decide)
  have h1 := extract_low hi lo (j := 1) (by decide)
  have h0 := extract_low hi lo (j := 0) (by decide)
  have d3 := extract_extract data 16 1 (by decide)
  have d2 := extract_extract data 16 0 (by decide)
  have d1 := extract_extract data 0 1 (by decide)
  have d0 := extract_extract data 0 0 (by decide)
  simp only [Nat.reduceAdd, Nat.reduceMul] at h3 h2 h1 h0 d3 d2 d1 d0
  simp only [mergeWord, mergeHalf, pickByte, Nat.reduceMul, h3, h2, h1, h0, d3, d2, d1, d0]

/-- Both halves of a masked write. -/
theorem wordAt_storeHigh (mem : Memory Half) (w : ℕ) (mask : BitVec 4) (data : BitVec 32) :
    wordAt (storeHigh (storeLow mem w mask data) w mask data) =
      fun k => if k = w then mergeWord (wordAt mem w) mask data else wordAt mem k := by
  funext k
  unfold wordAt storeHigh storeLow
  by_cases hk : k = w
  · subst hk
    rw [if_pos rfl, mergeWord_append, writeHalf_self, writeHalf_of_ne _ _ _ _ (by omega),
      writeHalf_of_ne _ _ _ _ (by omega), writeHalf_self]
  · rw [if_neg hk, writeHalf_of_ne _ _ _ _ (by omega), writeHalf_of_ne _ _ _ _ (by omega),
      writeHalf_of_ne _ _ _ _ (by omega), writeHalf_of_ne _ _ _ _ (by omega)]

/-! ## Section 4: One cycle -/

variable {addressWidth : ℕ} {s : Bridge} {i : Option (Cmd n)} {m : WordMemory}
  {resp : List (BitVec 32)}

/-- No command is under way.  The response to the last read may still be in the register, but
only in the cycle after its acceptance. -/
structure AtRest (s : Bridge) (m : WordMemory) (resp : List (BitVec 32)) (fresh : Prop) :
    Prop where
  state : s.state = 0
  words : wordAt s.mem = m.words
  answered : (s.rspValid = false ∧ resp = m.replies) ∨
    (fresh ∧ s.rspValid = true ∧ resp ++ [s.rspData] = m.replies)

/-- A write whose low half is written. -/
structure Writing (s : Bridge) (c : Cmd n) (m : WordMemory) (addressWidth : ℕ) : Prop where
  write : c.write = true
  state : s.state = 1
  mem : ∃ mem, wordAt mem = m.words ∧
    s.mem = storeLow mem (c.word addressWidth) c.mask c.data

/-- A read, after one to three of its cycles. -/
structure Reading (s : Bridge) (c : Cmd n) (m : WordMemory) (addressWidth : ℕ) : Prop where
  read : c.write = false
  words : wordAt s.mem = m.words
  state : s.state = 1 ∨ ((s.state = 2 ∨ s.state = 3) ∧
    s.rspData.extractLsb' 0 16 = s.mem (2 * c.word addressWidth))

/-- The command `c` is under way, and every read before it was answered. -/
structure Serving (s : Bridge) (c : Cmd n) (m : WordMemory) (resp : List (BitVec 32))
    (addressWidth : ℕ) : Prop where
  quiet : s.rspValid = false
  answered : resp = m.replies
  command : Writing s c m addressWidth ∨ Reading s c m addressWidth

/-- How the bridge, with the command `i` on the bus, follows the memory of words. -/
def Follows (s : Bridge) (i : Option (Cmd n)) (m : WordMemory) (resp : List (BitVec 32))
    (fresh : Prop) (addressWidth : ℕ) : Prop :=
  AtRest s m resp fresh ∨ ∃ c, i = some c ∧ Serving s c m resp addressWidth

theorem AtRest.prefix_replies {fresh : Prop} (h : AtRest s m resp fresh) :
    resp <+: m.replies := by
  rcases h.answered with ⟨-, hresp⟩ | ⟨-, -, hresp⟩
  · exact hresp ▸ List.prefix_rfl
  · exact hresp ▸ List.prefix_append resp _

/-- At rest, what this cycle answers completes the answers. -/
theorem AtRest.responses {fresh : Prop} (h : AtRest s m resp fresh) (i : Option (Cmd n)) :
    resp ++ (response s i).toList = m.replies := by
  rcases h.answered with ⟨hquiet, hresp⟩ | ⟨-, hvalid, hresp⟩
  · simp [response, hquiet, hresp]
  · simp [response, hvalid, hresp]

theorem extract_append_low (hi lo : Half) : (hi ++ lo).extractLsb' 0 16 = lo := by
  ext i hi'
  rw [BitVec.getElem_extractLsb', BitVec.getLsbD_append, if_pos (by omega), Nat.zero_add,
    BitVec.getLsbD_eq_getElem hi']

/-- A cycle without a command, and the first cycle of one. -/
theorem AtRest.step {fresh : Prop} (h : AtRest s m resp fresh) {i' : Option (Cmd n)}
    (hgood : ∀ c, i = some c → c.write = true → ¬ fresh)
    (hheld : ∀ c, i = some c → accepted s i = none → i' = some c) (fresh' : Prop) :
    Follows (step addressWidth s i) i' (run (serve addressWidth) m (accepted s i).toList)
      (resp ++ (response s i).toList) fresh' addressWidth := by
  have hresp := h.responses i
  cases i with
  | none =>
    exact Or.inl ⟨rfl, h.words, Or.inl ⟨rfl, hresp⟩⟩
  | some c =>
    have hready : accepted s (some c) = none := by
      simp [accepted, Bridge.ready, h.state]
    rw [hready] at hheld ⊢
    refine Or.inr ⟨c, hheld c rfl rfl, ?_⟩
    cases hwrite : c.write with
    | true =>
      -- nothing clears the response flag here, so it must be clear already
      have hquiet : s.rspValid = false := by
        rcases h.answered with ⟨hquiet, -⟩ | ⟨hfresh, -, -⟩
        · exact hquiet
        · exact absurd hfresh (hgood c rfl hwrite)
      have hstep : Pipelined.step addressWidth s (some c) =
          { s with mem := storeLow s.mem (c.word addressWidth) c.mask c.data, state := 1 } := by
        simp [Pipelined.step, hwrite, h.state]
      rw [hstep]
      exact ⟨hquiet, hresp, Or.inl ⟨hwrite, rfl, s.mem, h.words, rfl⟩⟩
    | false =>
      have hstep : Pipelined.step addressWidth s (some c) =
          { s with
            rspData := s.rspData.extractLsb' 16 16 ++ s.mem (2 * c.word addressWidth)
            state := 1
            rspValid := false } := by
        simp [Pipelined.step, hwrite, h.state]
      rw [hstep]
      exact ⟨rfl, hresp, Or.inr ⟨hwrite, h.words, Or.inl rfl⟩⟩

/-- The second cycle of a write is its last. -/
theorem Writing.step {c : Cmd n} (h : Writing s c m addressWidth) (hquiet : s.rspValid = false)
    (hresp : resp = m.replies) (fresh : Prop) :
    accepted s (some c) = some c ∧
      AtRest (step addressWidth s (some c)) (serve addressWidth m c) resp fresh := by
  obtain ⟨mem, hwords, hmem⟩ := h.mem
  have hstep : Pipelined.step addressWidth s (some c) =
      { s with mem := storeHigh s.mem (c.word addressWidth) c.mask c.data, state := 0 } := by
    simp [Pipelined.step, h.write, h.state]
  have hserve : (serve addressWidth m c).words =
      wordAt (storeHigh s.mem (c.word addressWidth) c.mask c.data) := by
    rw [hmem, wordAt_storeHigh, hwords]
    simp [serve, h.write]
  have hreplies : (serve addressWidth m c).replies = m.replies := by simp [serve, h.write]
  refine ⟨by simp [accepted, Bridge.ready, h.write, h.state], ?_⟩
  rw [hstep]
  exact ⟨rfl, hserve.symm, Or.inl ⟨hquiet, hresp.trans hreplies.symm⟩⟩

/-- The cycles of a read after the first. -/
theorem Reading.step {c : Cmd n} (h : Reading s c m addressWidth) (hquiet : s.rspValid = false)
    (hresp : resp = m.replies) :
    (accepted s (some c) = none ∧ Serving (step addressWidth s (some c)) c m resp addressWidth) ∨
      (accepted s (some c) = some c ∧
        AtRest (step addressWidth s (some c)) (serve addressWidth m c) resp
          (∃ c', some c = some c' ∧ c'.write = false)) := by
  have hread := h.read
  rcases h.state with hone | ⟨htwo | hthree, hlow⟩
  · have hstep : Pipelined.step addressWidth s (some c) =
        { s with
          rspData := s.rspData.extractLsb' 16 16 ++ s.mem (2 * c.word addressWidth)
          state := 2 } := by
      simp [Pipelined.step, hread, hone]
    rw [hstep]
    refine Or.inl ⟨by simp [accepted, Bridge.ready, hread, hone], hquiet, hresp, Or.inr ?_⟩
    exact ⟨hread, h.words, Or.inr ⟨Or.inl rfl, extract_append_low _ _⟩⟩
  · have hstep : Pipelined.step addressWidth s (some c) =
        { s with
          rspData := s.mem (2 * c.word addressWidth + 1) ++ s.rspData.extractLsb' 0 16
          state := 3 } := by
      simp [Pipelined.step, hread, htwo]
    rw [hstep]
    refine Or.inl ⟨by simp [accepted, Bridge.ready, htwo], hquiet, hresp, Or.inr ?_⟩
    exact ⟨hread, h.words, Or.inr ⟨Or.inr rfl, (extract_append_low _ _).trans hlow⟩⟩
  · have hstep : Pipelined.step addressWidth s (some c) =
        { s with
          rspData := s.mem (2 * c.word addressWidth + 1) ++ s.rspData.extractLsb' 0 16
          rspValid := true
          state := 0 } := by
      simp [Pipelined.step, hread, hthree]
    have hserve : serve addressWidth m c =
        { m with replies := m.replies ++ [m.words (c.word addressWidth)] } := by
      simp [serve, hread]
    have hword : s.mem (2 * c.word addressWidth + 1) ++ s.rspData.extractLsb' 0 16 =
        m.words (c.word addressWidth) := by
      rw [hlow, ← h.words]
      rfl
    rw [hstep, hserve]
    refine Or.inr ⟨by simp [accepted, Bridge.ready, hread, hthree], rfl, h.words, Or.inr ?_⟩
    exact ⟨⟨c, rfl, hread⟩, rfl, by rw [hresp, hword]⟩

/-- **Step lemma.**  The bridge follows the memory of words through every cycle, unless a write
is on the bus while the response to a read is given. -/
theorem Follows.step {fresh : Prop} (h : Follows s i m resp fresh addressWidth)
    {i' : Option (Cmd n)} (hgood : ∀ c, i = some c → c.write = true → ¬ fresh)
    (hheld : ∀ c, i = some c → accepted s i = none → i' = some c) :
    Follows (step addressWidth s i) i' (run (serve addressWidth) m (accepted s i).toList)
      (resp ++ (response s i).toList) (∃ c, accepted s i = some c ∧ c.write = false)
      addressWidth := by
  rcases h with hrest | ⟨c, rfl, hserving⟩
  · exact hrest.step hgood hheld _
  · have hquiet := hserving.quiet
    have hnone : response s (some c) = none := by simp [response, hquiet]
    rw [hnone, Option.toList_none, List.append_nil]
    rcases hserving.command with hwriting | hreading
    · obtain ⟨hacc, hrest⟩ := hwriting.step hquiet hserving.answered
        (∃ c', some c = some c' ∧ c'.write = false)
      rw [hacc]
      exact Or.inl hrest
    · rcases hreading.step hquiet hserving.answered with ⟨hacc, hnext⟩ | ⟨hacc, hrest⟩
      · refine Or.inr ⟨c, hheld c rfl hacc, ?_⟩
        rw [hacc]
        exact hnext
      · rw [hacc]
        exact Or.inl hrest

/-! ## Section 5: Runs -/

variable {mem : Memory Half} {cmd : ℕ → Option (Cmd n)}

theorem servedAt_succ (t : ℕ) :
    servedAt addressWidth mem cmd (t + 1) =
      run (serve addressWidth) (servedAt addressWidth mem cmd t)
        (acceptedAt addressWidth mem cmd t).toList :=
  run_append ..

/-- A read was accepted in the cycle before clock edge `t`. -/
def FreshAt (addressWidth : ℕ) (mem : Memory Half) (cmd : ℕ → Option (Cmd n)) : ℕ → Prop
  | 0 => False
  | t + 1 => ReadAcceptedAt addressWidth mem cmd t

/-- **Run lemma.**  As long as no read was directly followed by a write. -/
theorem follows_at (hheld : Held addressWidth mem cmd) {t : ℕ}
    (hgood : ∀ u c, u + 1 < t → ReadAcceptedAt addressWidth mem cmd u →
      cmd (u + 1) = some c → c.write = false) :
    Follows (bridgeAt addressWidth mem cmd t) (cmd t) (servedAt addressWidth mem cmd t)
      (responsesAt addressWidth mem cmd t) (FreshAt addressWidth mem cmd t) addressWidth := by
  induction t with
  | zero => exact Or.inl ⟨rfl, rfl, Or.inl ⟨rfl, rfl⟩⟩
  | succ t ih =>
    have hnow := ih fun u c hu => hgood u c (hu.trans (Nat.lt_succ_self t))
    rw [servedAt_succ]
    refine hnow.step (fun c hcmd hwrite hfresh => ?_) (hheld t)
    cases t with
    | zero => exact hfresh
    | succ u =>
      have hread := hgood u c (Nat.lt_succ_self _) hfresh hcmd
      rw [hwrite] at hread
      exact Bool.noConfusion hread

/-- A command that is over leaves the bridge in its first state. -/
theorem state_of_betweenCommands {t : ℕ} (h : BetweenCommands addressWidth mem cmd t) :
    (bridgeAt addressWidth mem cmd t).state = 0 := by
  cases t with
  | zero => rfl
  | succ t =>
    change (step addressWidth (bridgeAt addressWidth mem cmd t) (cmd t)).state = 0
    rcases h with hnone | hacc
    · rw [hnone]
      rfl
    · cases hcmd : cmd t with
      | none => rfl
      | some c =>
        have hready : (bridgeAt addressWidth mem cmd t).ready c = true := by
          by_contra hne
          exact hacc (by simp [acceptedAt, accepted, hcmd, hne])
        simp only [Bridge.ready, Bool.or_eq_true, Bool.and_eq_true, decide_eq_true_eq,
          Bool.not_eq_true'] at hready
        rcases hready with ⟨hstate, hwrite⟩ | ⟨hstate, hwrite⟩ <;>
          simp [step, hstate, hwrite]

theorem Serving.state_ne {c : Cmd n} (h : Serving s c m resp addressWidth) : s.state ≠ 0 := by
  rcases h.command with hwriting | hreading
  · rw [hwriting.state]
    decide
  · rcases hreading.state with h | ⟨h | h, -⟩ <;> rw [h] <;> decide

theorem responsesAt_succ (t : ℕ) :
    responsesAt addressWidth mem cmd (t + 1) = responsesAt addressWidth mem cmd t ++
      (response (bridgeAt addressWidth mem cmd t) (cmd t)).toList := rfl

theorem rspValid_of_readAcceptedAt {t : ℕ} (h : ReadAcceptedAt addressWidth mem cmd t) :
    (bridgeAt addressWidth mem cmd (t + 1)).rspValid = true := by
  obtain ⟨c, hacc, hread⟩ := h
  obtain ⟨hcmd, hready⟩ := Option.filter_eq_some_iff.mp hacc
  have hstate : (bridgeAt addressWidth mem cmd t).state = 3 := by
    simpa [Bridge.ready, hread] using hready
  change (step addressWidth (bridgeAt addressWidth mem cmd t) (cmd t)).rspValid = true
  simp [step, hcmd, hread, hstate]

/-- The response to a read that is directly followed by a write is given in both cycles of the
write. -/
theorem repeated_response (hheld : Held addressWidth mem cmd) {t : ℕ} {c : Cmd n}
    (hgood : ∀ u c, u < t → ReadAcceptedAt addressWidth mem cmd u →
      cmd (u + 1) = some c → c.write = false)
    (hread : ReadAcceptedAt addressWidth mem cmd t) (hcmd : cmd (t + 1) = some c)
    (hwrite : c.write = true) :
    ¬ responsesAt addressWidth mem cmd (t + 3) <+:
      (servedAt addressWidth mem cmd (t + 3)).replies := by
  obtain ⟨b, hb⟩ : ∃ b, b = bridgeAt addressWidth mem cmd (t + 1) := ⟨_, rfl⟩
  have hvalid : b.rspValid = true := hb ▸ rspValid_of_readAcceptedAt hread
  have hstate : b.state = 0 := by
    obtain ⟨c', hacc, -⟩ := hread
    exact hb ▸ state_of_betweenCommands (t := t + 1) (Or.inr (by rw [hacc]; exact nofun))
  -- the read is answered in cycle `t + 1`
  have hanswered : responsesAt addressWidth mem cmd (t + 2) =
      (servedAt addressWidth mem cmd (t + 1)).replies := by
    have hfollows := follows_at (t := t + 1) hheld
      fun u c hu => hgood u c (Nat.lt_of_succ_lt_succ hu)
    rcases hfollows with hrest | ⟨c', -, hserving⟩
    · exact hrest.responses (cmd (t + 1))
    · exact absurd (hb ▸ hstate) hserving.state_ne
  -- and once more in cycle `t + 2`, in which the write is accepted
  have hnext : bridgeAt addressWidth mem cmd (t + 2) =
      { b with mem := storeLow b.mem (c.word addressWidth) c.mask c.data, state := 1 } := by
    change step addressWidth (bridgeAt addressWidth mem cmd (t + 1)) (cmd (t + 1)) = _
    rw [← hb, hcmd]
    simp [step, hwrite, hstate]
  have hnone : acceptedAt addressWidth mem cmd (t + 1) = none := by
    simp [acceptedAt, accepted, hcmd, ← hb, Bridge.ready, hstate]
  have hcmd' : cmd (t + 2) = some c := hheld (t + 1) c hcmd hnone
  have hsome : acceptedAt addressWidth mem cmd (t + 2) = some c := by
    simp [acceptedAt, accepted, hcmd', hnext, Bridge.ready, hwrite]
  have hreplies : (servedAt addressWidth mem cmd (t + 3)).replies =
      (servedAt addressWidth mem cmd (t + 1)).replies := by
    rw [servedAt_succ, hsome, servedAt_succ, hnone]
    simp [serve, hwrite]
  have htwice : responsesAt addressWidth mem cmd (t + 3) =
      (servedAt addressWidth mem cmd (t + 1)).replies ++ [b.rspData] := by
    rw [responsesAt_succ, hanswered, hnext]
    simp [response, hvalid]
  intro hprefix
  have hle := hprefix.length_le
  rw [hreplies, htwice, List.length_append, List.length_singleton] at hle
  exact Nat.not_succ_le_self _ hle

/-- **The bridge as a memory of words.**  It serves every sequence of commands in which no read
is directly followed by a write, and no other. -/
theorem servesWords_iff (hheld : Held addressWidth mem cmd) :
    ServesWords addressWidth mem cmd ↔ NoWriteAfterRead addressWidth mem cmd := by
  constructor
  · intro hserves
    by_contra hbad
    -- the first write that directly follows a read
    have hexists : ∃ t c, ReadAcceptedAt addressWidth mem cmd t ∧ cmd (t + 1) = some c ∧
        c.write = true := by
      simpa [NoWriteAfterRead] using hbad
    classical
    obtain ⟨⟨c, hread, hcmd, hwrite⟩, hmin⟩ :=
      And.intro (Nat.find_spec hexists) fun u => Nat.find_min (m := u) hexists
    refine repeated_response hheld (fun u c hu hread hcmd => ?_) hread hcmd hwrite
      (hserves _).2.1
    have hnot := hmin u hu
    by_contra hne
    exact hnot ⟨c, hread, hcmd, Bool.eq_true_of_not_eq_false hne⟩
  · intro hgood t
    rcases follows_at (t := t) hheld fun u c _ => hgood u c with hrest | ⟨c, hcmd, hserving⟩
    · refine ⟨fun _ => hrest.words, hrest.prefix_replies, t + 1, ?_⟩
      rw [responsesAt_succ, hrest.responses]
    · refine ⟨fun hbetween => ?_, ?_, t, ?_⟩
      · exact absurd (state_of_betweenCommands hbetween) hserving.state_ne
      · rw [hserving.answered]
      · rw [hserving.answered]

/-! ## Section 6: Two sequences -/

/-- A read of word `0`, an idle cycle, and a write of it. -/
def spaced (t : ℕ) : Option (Cmd 32) :=
  if t < 4 then some ⟨false, 0, 0, 0⟩
  else if t = 5 ∨ t = 6 then some ⟨true, 0, 0x11223344, 0b1111⟩
  else none

theorem held_spaced : Held 18 (fun _ => 0) spaced := by
  intro t c hcmd hacc
  by_cases hlate : 7 ≤ t
  · simp [spaced, show ¬ t < 4 by omega, show ¬ (t = 5 ∨ t = 6) by omega] at hcmd
  · interval_cases t
    · exact hcmd
    · exact hcmd
    · exact hcmd
    · cases hacc
    · cases hcmd
    · exact hcmd
    · cases hacc

/-- With an idle cycle in between, the read is answered once. -/
theorem servesWords_spaced : ServesWords 18 (fun _ => 0) spaced := by
  refine (servesWords_iff held_spaced).mpr fun t c hread hcmd => ?_
  obtain ⟨c', hacc, hread⟩ := hread
  obtain ⟨hcmd', -⟩ := Option.filter_eq_some_iff.mp hacc
  by_cases hearly : t + 1 < 4
  · rw [spaced, if_pos hearly] at hcmd
    exact Option.some.inj hcmd ▸ rfl
  · by_cases hwrite : t + 1 = 5 ∨ t + 1 = 6
    · rcases hwrite with h | h
      · rw [show t = 4 by omega] at hcmd'
        cases hcmd'
      · rw [show t = 5 by omega] at hcmd'
        rw [← Option.some.inj hcmd'] at hread
        exact Bool.noConfusion hread
    · rw [spaced, if_neg hearly, if_neg hwrite] at hcmd
      cases hcmd

/-- The same without the idle cycle. -/
def adjacent (t : ℕ) : Option (Cmd 32) :=
  if t < 4 then some ⟨false, 0, 0, 0⟩
  else if t = 4 ∨ t = 5 then some ⟨true, 0, 0x11223344, 0b1111⟩
  else none

theorem held_adjacent : Held 18 (fun _ => 0) adjacent := by
  intro t c hcmd hacc
  by_cases hlate : 6 ≤ t
  · simp [adjacent, show ¬ t < 4 by omega, show ¬ (t = 4 ∨ t = 5) by omega] at hcmd
  · interval_cases t
    · exact hcmd
    · exact hcmd
    · exact hcmd
    · cases hacc
    · exact hcmd
    · cases hacc

/-- One read is accepted, and two response cycles are seen. -/
theorem not_servesWords_adjacent :
    Held 18 (fun _ => 0) adjacent ∧ (responsesAt 18 (fun _ => 0) adjacent 6).length = 2 ∧
      (servedAt 18 (fun _ => 0) adjacent 6).replies.length = 1 ∧
      ¬ ServesWords 18 (fun _ => 0) adjacent := by
  refine ⟨held_adjacent, by rfl, by rfl, fun hserves => ?_⟩
  have hle := (hserves 6).2.1.length_le
  exact absurd hle (by decide)

end Karnix.Sram.Pipelined
