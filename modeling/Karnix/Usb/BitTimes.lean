import Karnix.Library.LineCode
import Karnix.Usb.Checks

/-!
# Bit times and packets

A sender shows one symbol in each bit time, from the strobe of that bit time on.  The packets it
can be asked for say which symbols these have to be: NRZI of the bit-stuffed packet, then the
end of packet.
-/

namespace Karnix.Usb

open Karnix.Library

/-! ## Section 1: Bit times -/

namespace Sender

variable {σ : Type} {S : Sender σ} {clockDiv : BitVec 8} {s : Strobed σ}

/-- What the registers become at a strobe. -/
def strobe (S : Sender σ) (x : σ) : σ := S.tick true x

/-- What the line shows behind the strobe, up to the next one. -/
def show_ (S : Sender σ) (x : σ) : Symbol := S.line false x

/-- The symbols of the next `n` bit times. -/
def emit (S : Sender σ) : ℕ → σ → List Symbol
  | 0, _ => []
  | n + 1, x => S.show_ (S.strobe x) :: S.emit n (S.strobe x)

@[simp] theorem length_emit (n : ℕ) (x : σ) : (S.emit n x).length = n := by
  induction n generalizing x with
  | zero => rfl
  | succ n ih => rw [emit, List.length_cons, ih]

theorem emit_add (m n : ℕ) (x : σ) :
    S.emit (m + n) x = S.emit m x ++ S.emit n (S.strobe^[m] x) := by
  induction m generalizing x with
  | zero => rw [Nat.zero_add]; rfl
  | succ m ih => rw [Nat.succ_add, emit, emit, ih, Function.iterate_succ_apply, List.cons_append]

theorem getElem_emit {n : ℕ} {x : σ} {k : ℕ} (hk : k < (S.emit n x).length) :
    (S.emit n x)[k] = S.show_ (S.strobe^[k + 1] x) := by
  induction n generalizing x k with
  | zero => exact absurd hk (Nat.not_lt_zero k)
  | succ n ih =>
    cases k with
    | zero => rfl
    | succ k =>
      rw [Function.iterate_succ_apply]
      exact ih (by simpa using hk)

/-- Clock `j` of bit time `k`: the strobe is in clock 0. -/
def inBitTime (S : Sender σ) (x : σ) (k j : ℕ) : Strobed σ :=
  ⟨BitVec.ofNat 8 j, S.strobe^[if j = 0 then k else k + 1] x⟩

/-- **Step lemma.**  From one clock of a bit time to the next one, if only strobes change the
registers. -/
theorem next_inBitTime (htick : ∀ x, S.tick false x = x) (x : σ) (k : ℕ) {j : ℕ}
    (hj : j ≤ clockDiv.toNat) :
    S.next clockDiv (S.inBitTime x k j) true =
      if j = clockDiv.toNat then S.inBitTime x (k + 1) 0 else S.inBitTime x k (j + 1) := by
  have hlt : j < 256 := Nat.lt_of_le_of_lt hj clockDiv.isLt
  have htoNat : (BitVec.ofNat 8 j).toNat = j := by rw [BitVec.toNat_ofNat, Nat.mod_eq_of_lt hlt]
  have hend : BitVec.ofNat 8 j = clockDiv ↔ j = clockDiv.toNat := by
    rw [← BitVec.toNat_inj, htoNat]
  have hzero : BitVec.ofNat 8 j = 0 ↔ j = 0 := by
    rw [← BitVec.toNat_inj, htoNat]
    rfl
  have hregs : S.tick (decide (BitVec.ofNat 8 j = 0)) (S.strobe^[if j = 0 then k else k + 1] x) =
      S.strobe^[k + 1] x := by
    by_cases h0 : j = 0
    · rw [decide_eq_true (hzero.mpr h0), if_pos h0, Function.iterate_succ_apply']
      rfl
    · rw [decide_eq_false (mt hzero.mp h0), if_neg h0, htick]
  show Strobed.mk (if BitVec.ofNat 8 j = clockDiv then 0 else BitVec.ofNat 8 j + 1)
    (S.tick (decide (BitVec.ofNat 8 j = 0)) (S.strobe^[if j = 0 then k else k + 1] x)) = _
  rw [hregs]
  by_cases h : j = clockDiv.toNat
  · -- the divider goes back to 0, with the next strobe
    rw [if_pos (hend.mpr h), if_pos h]
    rfl
  · rw [if_neg (mt hend.mp h), if_neg h, inBitTime, if_neg (Nat.succ_ne_zero j), BitVec.ofNat_add]
    rfl

/-- **Run lemma.**  Where the sender is, counted from the first clock with `valid`. -/
theorem stateAt_bitTime (htick : ∀ x, S.tick false x = x) (k : ℕ) {j : ℕ}
    (hj : j ≤ clockDiv.toNat) :
    S.stateAt clockDiv s (k * (clockDiv.toNat + 1) + j) = S.inBitTime (S.idle s.regs) k j := by
  -- bit time by bit time, and clock by clock in each of them
  induction k generalizing j with
  | zero =>
    induction j with
    | zero => rw [Nat.zero_mul]; rfl
    | succ j ih =>
      rw [← Nat.add_assoc, stateAt, trace_succ, ← stateAt, ih (Nat.le_of_succ_le hj),
        next_inBitTime htick _ _ (Nat.le_of_succ_le hj), if_neg (Nat.ne_of_lt hj)]
  | succ k ihk =>
    induction j with
    | zero =>
      have hlast := ihk (Nat.le_refl clockDiv.toNat)
      rw [Nat.succ_mul, ← Nat.add_assoc, Nat.add_zero, stateAt, trace_succ, ← stateAt, hlast,
        next_inBitTime htick _ _ (Nat.le_refl _), if_pos rfl]
    | succ j ih =>
      rw [← Nat.add_assoc, stateAt, trace_succ, ← stateAt, ih (Nat.le_of_succ_le hj),
        next_inBitTime htick _ _ (Nat.le_of_succ_le hj), if_neg (Nat.ne_of_lt hj)]

/-- Behind the strobe the line shows the symbol of the bit time. -/
theorem lineAt_bitTime (htick : ∀ x, S.tick false x = x) (k : ℕ) {j : ℕ} (hpos : 0 < j)
    (hj : j ≤ clockDiv.toNat) :
    S.lineAt clockDiv s (k * (clockDiv.toNat + 1) + j) =
      S.show_ (S.strobe^[k + 1] (S.idle s.regs)) := by
  have hlt : j < 256 := Nat.lt_of_le_of_lt hj clockDiv.isLt
  have hstrobe : decide (BitVec.ofNat 8 j = 0) = false := by
    apply decide_eq_false
    rw [← BitVec.toNat_inj, BitVec.toNat_ofNat, Nat.mod_eq_of_lt hlt]
    exact Nat.ne_of_gt hpos
  rw [lineAt, stateAt_bitTime htick k hj, inBitTime, if_neg (Nat.ne_of_gt hpos)]
  show S.line (decide (BitVec.ofNat 8 j = 0)) _ = _
  rw [hstrobe]
  rfl

/-- The line shows the symbols `syms`, one per bit time, in every clock but that of the strobe. -/
def Shows (S : Sender σ) (clockDiv : BitVec 8) (s : Strobed σ) (syms : List Symbol) : Prop :=
  ∀ k (hk : k < syms.length) j, 0 < j → j ≤ clockDiv.toNat →
    S.lineAt clockDiv s (k * (clockDiv.toNat + 1) + j) = syms[k]

theorem shows_iff (htick : ∀ x, S.tick false x = x) (hdiv : clockDiv ≠ 0) (syms : List Symbol) :
    S.Shows clockDiv s syms ↔ S.emit syms.length (S.idle s.regs) = syms := by
  have hone : 1 ≤ clockDiv.toNat :=
    Nat.pos_of_ne_zero fun h => hdiv (BitVec.eq_of_toNat_eq h)
  constructor
  · intro h
    apply List.ext_getElem (length_emit _ _)
    intro k h₁ h₂
    rw [getElem_emit, ← lineAt_bitTime htick k Nat.one_pos hone]
    exact h k h₂ 1 Nat.one_pos hone
  · -- the registers do not change behind the strobe, so that one clock decides
    intro h k hk j hpos hj
    have hk' : k < (S.emit syms.length (S.idle s.regs)).length := by rwa [length_emit]
    rw [lineAt_bitTime htick k hpos hj, ← getElem_emit hk']
    exact List.getElem_of_eq h hk'

end Sender

/-! ## Section 2: Packets -/

/-- What the senders can be asked for; a data packet has `n` bytes. -/
inductive Packet where
  | longToken (pid : BitVec 4) (addr : BitVec 7) (endp : BitVec 4)
  | shortToken (pid : BitVec 4)
  | data (pid : BitVec 4) (data : BitVec 64) (n : ℕ) (hn : n ≤ 8)

namespace Packet

def pid : Packet → BitVec 4
  | longToken pid _ _ | shortToken pid | data pid _ _ _ => pid

/-- SYNC, PID and its complement. -/
def head (pid : BitVec 4) : List Bool :=
  List.replicate 7 false ++ [true] ++ lsbBits pid 4 ++ lsbBits (~~~ pid) 4

/-- Address and endpoint, or data, and their check. -/
def payload : Packet → List Bool
  | longToken _ addr endp =>
    let bits := lsbBits addr 7 ++ lsbBits endp 4
    bits ++ lsbBits (crc5 bits) 5
  | shortToken _ => []
  | .data _ bytes n _ =>
    let bits := lsbBits bytes (8 * n)
    bits ++ lsbBits (crc16 bits) 16

/-- The bits of the packet before they are stuffed. -/
def stream (p : Packet) : List Bool := head p.pid ++ p.payload

/-- The end of a packet. -/
def eop : List Symbol := [.se0, .se0, .j]

/-- The bits `bs` on a line that was `J`, and the end of the packet. -/
def onLine (bs : List Bool) : List Symbol := (LineCode.nrzi false bs).map .ofKJ ++ eop

/-- The packet as it has to be on the line. -/
def symbols (p : Packet) : List Symbol := onLine (LineCode.padded 6 0 p.stream)

end Packet

theorem length_onLine (bs : List Bool) : (Packet.onLine bs).length = bs.length + 3 := by
  rw [Packet.onLine, List.length_append, List.length_map, LineCode.length_nrzi]
  rfl

/-- Where the shorter of two streams ends, the longer one still shows `J` or `K`. -/
theorem onLine_ne {bs bs' : List Bool} (h : bs.length < bs'.length) :
    (Packet.onLine bs')[bs.length]? ≠ some .se0 := by
  have hlt : bs.length < (LineCode.nrzi false bs').length := by rwa [LineCode.length_nrzi]
  rw [Packet.onLine, List.getElem?_append_left (by rwa [List.length_map]), List.getElem?_map,
    List.getElem?_eq_getElem hlt]
  generalize (LineCode.nrzi false bs')[bs.length] = kj
  cases kj <;> decide

theorem onLine_end (bs : List Bool) : (Packet.onLine bs)[bs.length]? = some .se0 := by
  have hlen : ((LineCode.nrzi false bs).map Symbol.ofKJ).length = bs.length := by
    rw [List.length_map, LineCode.length_nrzi]
  rw [Packet.onLine, List.getElem?_append_right (Nat.le_of_eq hlen), hlen, Nat.sub_self]
  rfl

/-- A sender that shows `bs` and then the end of a packet shows another stream, at least as long,
only if it is the same one. -/
theorem emit_onLine_iff {σ : Type} {S : Sender σ} {x : σ} {bs bs' : List Bool}
    (h : S.emit (bs.length + 3) x = Packet.onLine bs)
    (hlonger : bs' = bs ∨ bs.length < bs'.length) :
    S.emit (Packet.onLine bs').length x = Packet.onLine bs' ↔ bs' = bs := by
  constructor
  · intro h'
    rcases hlonger with heq | hlt
    · exact heq
    · -- `SE0` is shown where the longer stream still has a bit
      have hpre : (S.emit (Packet.onLine bs').length x)[bs.length]? =
          (S.emit (bs.length + 3) x)[bs.length]? := by
        rw [length_onLine, show bs'.length + 3 = bs.length + 3 + (bs'.length - bs.length) by omega,
          Sender.emit_add, List.getElem?_append_left (by rw [Sender.length_emit]; omega)]
      rw [h', h, onLine_end] at hpre
      exact absurd hpre (onLine_ne hlt)
  · rintro rfl
    rw [length_onLine]
    exact h

end Karnix.Usb
