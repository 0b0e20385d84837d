import Karnix.Mac.Framing

/-!
# Owners of pbufs

What `mac_rx` of `mac.c`, and `modbus_udp_recv` and `modbus_udp_send` of `modbus_udp.c`, do
with the pbufs they hold.  The network stack takes a pbuf over when `default_netif.input`
returns `ERR_OK`, and not otherwise; `udp_sendto` never does; and a receive callback owns the
pbuf it is called with.
-/

namespace Karnix.Mac

open Karnix.Library

/-! ## Section 1: One owner -/

/-- Who has to free a pbuf. -/
inductive Owner where
  /-- There is no pbuf yet. -/
  | nobody
  | driver
  /-- It was freed, or the stack has taken it over. -/
  | gone
  deriving DecidableEq, Repr

/-- Who owns the pbuf after an event, if the event is allowed. -/
def Owner.next : Owner → PbufEvent → Option Owner
  | .nobody, .alloc => some .driver
  | .nobody, .receive => some .driver
  | .driver, .input ret => some (if ret = errOk then .gone else .driver)
  | .driver, .sendto _ => some .driver
  | .driver, .free => some .gone
  | _, _ => none

/-- Whether there was no pbuf, or it is gone, and nothing was done with it after that. -/
def OneOwner (log : List PbufEvent) : Prop :=
  log = [] ∨ log.foldlM Owner.next .nobody = some .gone

instance (log : List PbufEvent) : Decidable (OneOwner log) := inferInstanceAs (Decidable (_ ∨ _))

/-! ## Section 2: The Modbus callback -/

/-- A pbuf from `pbuf_alloc(PBUF_TRANSPORT, …, PBUF_RAM)`. -/
structure RamPbuf where
  payloadNull : Bool
  len : BitVec 16

/-- What the network stack does during one call of `modbus_udp_recv`. -/
structure SendIo where
  pbufAlloc : BitVec 16 → Option RamPbuf
  /-- What `udp_sendto` returns. -/
  sendRet : ℤ

/-- `p->payload == NULL || p->len < buf_len + 1` -/
def RamPbuf.Bogus (p : RamPbuf) (bufLen : BitVec 32) : Prop :=
  p.payloadNull = true ∨ p.len.setWidth 32 < bufLen + 1

instance (p : RamPbuf) (bufLen : BitVec 32) : Decidable (p.Bogus bufLen) :=
  inferInstanceAs (Decidable (_ ∨ _))

/-- What `modbus_udp_send` does with the pbuf it allocates.  (What it copies into the pbuf is
the subject of the transport of Modbus frames.) -/
def modbusUdpSendPbuf (io : SendIo) (bufLen : BitVec 32) : List PbufEvent :=
  match io.pbufAlloc ((bufLen + 1).setWidth 16) with
  | none => []
  | some p => if p.Bogus bufLen then [.alloc] else [.alloc, .sendto io.sendRet, .free]

/-- What `modbus_udp_recv` does with the pbuf received, and what happens to the one of the
reply.  `txLen` is what `modbus_recv` returns. -/
def modbusUdpRecvPbufs (io : SendIo) (txLen : BitVec 32) : List PbufEvent × List PbufEvent :=
  ([.receive, .free], if 0 < txLen then modbusUdpSendPbuf io txLen else [])

/-! ## Section 3: Sequences of frames and requests -/

/-- The driver, and what happened to each pbuf. -/
structure Net where
  rx : Rx
  log : List (List PbufEvent)

inductive NetEvent where
  | rx (e : RxEvent)
  /-- The stack calls `modbus_udp_recv`, and `modbus_recv` returns `txLen`. -/
  | udp (io : SendIo) (txLen : BitVec 32)

def netStep (fifo : ℕ → BitVec 32) (s : Net) : NetEvent → Net
  | .rx (.frame io) => ⟨(rxFrame fifo io s.rx).1, s.log ++ [(rxFrame fifo io s.rx).2]⟩
  | .rx .leave => ⟨rxStep fifo s.rx .leave, s.log⟩
  | .udp io txLen =>
    ⟨s.rx, s.log ++ [(modbusUdpRecvPbufs io txLen).1, (modbusUdpRecvPbufs io txLen).2]⟩

/-- The driver frees the pbuf of a frame and the stack has not taken it over; and the pbuf for
a reply is one that is sent. -/
def Kept (fifo : ℕ → BitVec 32) (s : Net) : NetEvent → Prop
  | .rx (.frame io) =>
    frameBytes (fifo s.rx.pos) ≤ maxFrame →
      io.pbufAlloc (frameBytes (fifo s.rx.pos) + ethPadSize) ≠ none → io.inputRet ≠ errOk
  | .rx .leave => True
  | .udp io txLen =>
    0 < txLen → ∀ p, io.pbufAlloc ((txLen + 1).setWidth 16) = some p → ¬ p.Bogus txLen

/-- `pbuf_alloc` gives a chain of the length asked for, with no empty pbuf but at its end. -/
def PoolAlloc (io : FrameIo) : Prop :=
  ∀ n p, io.pbufAlloc (n + ethPadSize) = some p → Segmentation p n ∧ Compact p

/-! ## Section 4: One step -/

/-- **Frames.**  The pbuf of a frame has one owner if and only if the stack does not take it
over, and the next frame starts with a new chain. -/
theorem rxFrame_oneOwner (fifo : ℕ → BitVec 32) {io : FrameIo} (hpool : PoolAlloc io) {s : Net}
    (hq : s.rx.qLeft = 0) :
    (rxFrame fifo io s.rx).1.qLeft = 0 ∧
      (OneOwner (rxFrame fifo io s.rx).2 ↔ Kept fifo s (.rx (.frame io))) := by
  unfold rxFrame Kept
  by_cases hmax : maxFrame < frameBytes (fifo s.rx.pos)
  · -- no pbuf is allocated for a frame that is too long
    simp only [if_pos hmax]
    exact ⟨trivial, iff_of_true (Or.inl rfl) fun h => absurd hmax (Nat.not_lt.mpr h)⟩
  · simp only [if_neg hmax]
    cases halloc : io.pbufAlloc (frameBytes (fifo s.rx.pos) + ethPadSize) with
    -- the frame is discarded, and there is no pbuf
    | none => exact ⟨rfl, iff_of_true (Or.inl rfl) fun _ h => absurd rfl h⟩
    | some p =>
      obtain ⟨hseg, hcompact⟩ := hpool _ p halloc
      obtain ⟨hleft, hqLeft⟩ := copyBytes_start fifo hseg hcompact hq
      simp only [if_pos hleft]
      refine ⟨hqLeft, ?_⟩
      by_cases hret : io.inputRet = errOk
      · -- taken over by the stack, and freed as well
        rw [hret]
        exact iff_of_false (by decide) fun h => h (Nat.not_lt.mp hmax) (Option.some_ne_none p) rfl
      · refine iff_of_true (Or.inr ?_) fun _ _ => hret
        simp [Owner.next, hret]

/-- **Requests.**  The pbuf received is freed, and the one of the reply has one owner if and
only if it is sent. -/
theorem modbusUdpRecv_oneOwner (fifo : ℕ → BitVec 32) (io : SendIo) (txLen : BitVec 32)
    (s : Net) :
    OneOwner (modbusUdpRecvPbufs io txLen).1 ∧
      (OneOwner (modbusUdpRecvPbufs io txLen).2 ↔ Kept fifo s (.udp io txLen)) := by
  refine ⟨Or.inr rfl, ?_⟩
  unfold modbusUdpRecvPbufs Kept modbusUdpSendPbuf
  by_cases hlen : 0 < txLen
  · simp only [if_pos hlen]
    cases halloc : io.pbufAlloc ((txLen + 1).setWidth 16) with
    | none => exact iff_of_true (Or.inl rfl) fun _ p h => by cases h
    | some p =>
      by_cases hbogus : p.Bogus txLen
      · -- `modbus_udp_send` returns without freeing it
        simp only [if_pos hbogus]
        exact iff_of_false (by decide) fun h => h hlen p rfl hbogus
      · simp only [if_neg hbogus]
        refine iff_of_true (Or.inr rfl) fun _ p' h => ?_
        cases h
        exact hbogus
  · simp only [if_neg hlen]
    exact iff_of_true (Or.inl rfl) fun h => absurd h hlen

/-! ## Section 5: Runs -/

/-- No frame is half-way copied. -/
def Between (s : Net) : Prop := s.rx.qLeft = 0

/-- All pbufs so far had one owner. -/
def Net.Balanced (s : Net) : Prop := ∀ log ∈ s.log, OneOwner log

/-- **Step lemma.**  A frame or a request leaves no pbuf without an owner. -/
theorem balanced_netStep (fifo : ℕ → BitVec 32) {s : Net} (hq : Between s) {e : NetEvent}
    (hpool : ∀ io, e = .rx (.frame io) → PoolAlloc io) :
    Between (netStep fifo s e) ∧
      ((netStep fifo s e).Balanced ↔ s.Balanced ∧ Kept fifo s e) := by
  match e with
  | .rx .leave => exact ⟨rfl, (and_iff_left trivial).symm⟩
  | .rx (.frame io) =>
    obtain ⟨hnext, hone⟩ := rxFrame_oneOwner fifo (hpool io rfl) hq
    refine ⟨hnext, ?_⟩
    rw [← hone]
    simp only [Net.Balanced, netStep, List.forall_mem_append, List.forall_mem_singleton]
  | .udp io txLen =>
    obtain ⟨hrecv, hone⟩ := modbusUdpRecv_oneOwner fifo io txLen s
    refine ⟨hq, ?_⟩
    rw [← hone]
    simp only [Net.Balanced, netStep, List.forall_mem_append, List.forall_mem_cons]
    simp [hrecv]

/-- **Run lemma.**  So does any sequence of them. -/
theorem balanced_run (fifo : ℕ → BitVec 32) {s : Net} (hq : Between s) {es : List NetEvent}
    (hpool : ∀ io, .rx (.frame io) ∈ es → PoolAlloc io) :
    (run (netStep fifo) s es).Balanced ↔ s.Balanced ∧ RunMeets (netStep fifo) (Kept fifo) s es := by
  induction es generalizing s with
  | nil => exact (and_iff_left trivial).symm
  | cons e es ih =>
    obtain ⟨hnext, hstep⟩ := balanced_netStep fifo hq
      fun io he => hpool io (he ▸ List.mem_cons_self ..)
    rw [run_cons, ih hnext fun io he => hpool io (List.mem_cons_of_mem e he), hstep, RunMeets,
      and_assoc]

/-- The driver before its first frame. -/
def Net.init (mem : Memory Byte) : Net := ⟨⟨0, 0, 0, mem, []⟩, []⟩

/-- **Owners.**  After any sequence of frames and requests every pbuf was freed or taken over
once, if and only if `default_netif.input` never returned `ERR_OK`, and no pbuf for a reply
was found bogus. -/
theorem pbufOwners {fifo : ℕ → BitVec 32} (mem : Memory Byte) {es : List NetEvent}
    (hpool : ∀ io, .rx (.frame io) ∈ es → PoolAlloc io) :
    (∀ log ∈ (run (netStep fifo) (Net.init mem) es).log, OneOwner log) ↔
      RunMeets (netStep fifo) (Kept fifo) (Net.init mem) es := by
  have hrun := balanced_run fifo (s := Net.init mem) rfl hpool
  rw [Net.Balanced] at hrun
  rw [hrun]
  exact and_iff_right (List.forall_mem_nil _)

/-- A frame that the stack does not take over, and a request whose reply is sent. -/
def balancedEvents : List NetEvent :=
  [.rx (.frame { ioOf oneByte.p with
      pbufAlloc := fun n => if n = 3 then some oneByte.p else none, inputRet := -1 }),
    .udp ⟨fun n => some ⟨false, n⟩, errOk⟩ 8]

theorem pbufOwners_balanced :
    (∀ log ∈ (run (netStep (fifoOf oneByte)) (Net.init fun _ => 0) balancedEvents).log,
      OneOwner log) ↔
      RunMeets (netStep (fifoOf oneByte)) (Kept (fifoOf oneByte)) (Net.init fun _ => 0)
        balancedEvents := by
  apply pbufOwners
  intro io hio
  rcases List.mem_cons.mp hio with heq | hrest
  · cases heq
    intro n p hp
    by_cases hn : n = 1
    · subst hn
      cases hp
      exact ⟨⟨⟨_, _, rfl, by decide⟩, by decide, by decide⟩, List.pairwise_singleton ..⟩
    · simp [ethPadSize, hn] at hp
  · simp at hrest

/-- The stack takes a frame over, as `ethernet_input` always does, and `mac_rx` frees the pbuf
once more; and a reply whose pbuf is too short leaves it allocated. -/
theorem pbufOwners_doubleFree :
    ¬ (∀ log ∈ (run (netStep (fifoOf oneByte)) (Net.init fun _ => 0)
        [.rx (.frame (ioOf oneByte.p))]).log, OneOwner log) ∧
      ¬ ∀ log ∈ (run (netStep (fifoOf oneByte)) (Net.init fun _ => 0)
        [.udp ⟨fun _ => some ⟨false, 0⟩, errOk⟩ 8]).log, OneOwner log := by
  constructor <;> decide +kernel

end Karnix.Mac
