import Karnix.Usb.Setup

/-!
# The data toggle of SETUP requests

A SETUP stage always starts a toggle sequence anew: its data packet has the PID `DATA0`, and
so has every repetition of it.  `usb10_setup_request` takes the PID from the table instead, and
records it there as soon as any handshake has come in.
-/

namespace Karnix.Usb

open Karnix.Library

variable {W : Type}

/-! ## Section 1: What is asked for -/

/-- Verdicts of a data stage in which the PID taken last is `last`: a packet is a duplicate only
if it repeats that PID, and is accepted only if it does not. -/
def Alternates : Byte → List Judged → Prop
  | _, [] => True
  | last, .accepted pid :: js =>
    pid ≠ last ∧ (pid = pidData0 ∨ pid = pidData1) ∧ Alternates pid js
  | last, .duplicate pid :: js => pid = last ∧ Alternates last js

/-- Every data packet sent carries `DATA0`, and a data stage begins with `DATA1`. -/
structure TogglesRight (r : SetupResult W) : Prop where
  data0 : ∀ p ∈ r.sent, p.pid = pidData0.setWidth 4
  judged : Alternates pidData0 r.judged

/-- Of the attempts from state `w` on, with `retry` repetitions left, those that are repeated
with another data packet were not answered at all. -/
def RepeatsUnanswered (bus : SetupBus W) (addr endp : ℕ) (packet : DataPacket) : ℕ → W → Prop
  | 0, _ => True
  | retry + 1, w =>
    ∀ w₁ w₂, bus.tokenSetup addr endp w = (true, w₁) → bus.sendData packet w₁ = (true, w₂) →
      ((bus.answer w₂).1 = none →
        RepeatsUnanswered bus addr endp packet retry (bus.answer w₂).2) ∧
      ∀ pid, (bus.answer w₂).1 = some pid → pid ≠ pidAck →
        (bus.tokenSetup addr endp (bus.answer w₂).2).1 = false

/-- If a data packet is sent at all: the PID recorded for endpoint 0 is not `DATA0`, unless the
request is for endpoint 0 itself, and what is repeated was not answered. -/
def StartsClean (bus : SetupBus W) (pids : LastDataPids) (addr endp : ℕ) (request : Memory Byte)
    (w : W) : Prop :=
  addr < maxAddresses → bus.free w = true → (bus.tokenSetup addr endp w).1 = true →
    (endp = 0 ∨ (pids addr 0).sent ≠ pidData0) ∧
      RepeatsUnanswered bus addr endp (setupPacket request pidData0) 2 w

/-! ## Section 2: The SETUP stage -/

variable {bus : SetupBus W} {addr endp : ℕ} {request : Memory Byte} {retry : ℕ}
  {s : SetupState W}

/-- Packets are only added. -/
theorem setupStage_sent (retry : ℕ) (s : SetupState W) :
    s.sent <+: (setupStage bus addr endp request retry s).2.sent :=
  setupStage_rule (P := fun s t => s.sent <+: t.sent) (fun _ _ => List.prefix_rfl)
    (fun _ _ => List.prefix_append ..) (fun _ _ => List.prefix_append ..)
    (fun _ _ _ h h' => h.trans h') retry s

/-- The PIDs of received packets stay. -/
theorem setupStage_recv (a e retry : ℕ) (s : SetupState W) :
    ((setupStage bus addr endp request retry s).2.pids a e).recv = (s.pids a e).recv := by
  refine setupStage_rule (P := fun s t => (t.pids a e).recv = (s.pids a e).recv)
    (fun _ _ => rfl) (fun _ _ => rfl) (fun s w => ?_) (fun _ _ _ h h' => h'.trans h) retry s
  by_cases hentry : addr = a ∧ 0 = e
  · obtain ⟨rfl, rfl⟩ := hentry
    exact (congrArg LastDataPid.recv (LastDataPids.set_self ..)).trans rfl
  · exact congrArg LastDataPid.recv (LastDataPids.set_of_ne _ _ hentry)

/-- Once the token is out, the data packet is sent. -/
theorem setupStage_first {w : W} (h : bus.tokenSetup addr endp s.bus = (true, w)) :
    s.packet addr request ∈ (setupStage bus addr endp request retry s).2.sent := by
  have hmem : s.packet addr request ∈ s.sent ++ [s.packet addr request] := by simp
  rcases setup_cases bus addr endp (s.packet addr request) s.bus with
    ⟨w₁, htoken⟩ | ⟨w₁, htoken, ⟨w₂, hdata⟩ | ⟨w₂, hdata, ⟨w₃, hnone⟩ | ⟨w₃, hack⟩ |
      ⟨pid, w₃, hother, hpid⟩⟩⟩
  · rw [h] at htoken
    cases htoken
  · rw [setupStage_dataHung htoken hdata]
    exact hmem
  · cases retry with
    | zero => rw [setupStage_unanswered_last htoken hdata hnone]; exact hmem
    | succ retry =>
      rw [setupStage_unanswered htoken hdata hnone]
      exact (setupStage_sent retry _).subset hmem
  · rw [setupStage_acked htoken hdata hack]
    exact hmem
  · cases retry with
    | zero => rw [setupStage_answered_last htoken hdata hother hpid]; exact hmem
    | succ retry =>
      rw [setupStage_answered htoken hdata hother hpid]
      exact (setupStage_sent retry _).subset hmem

theorem packet_pid (request : Memory Byte) (h : (s.pids addr 0).sent ≠ pidData0) :
    s.packet addr request = setupPacket request pidData0 := by
  rw [SetupState.packet, nextDataPid, if_neg h]

/-- After a handshake to a `DATA0` packet, the next one is `DATA1`. -/
theorem packet_answered (request : Memory Byte) (h : (s.pids addr 0).sent ≠ pidData0) (w : W) :
    (s.answered addr request w).packet addr request = setupPacket request pidData1 := by
  have hsent : ((s.answered addr request w).pids addr 0).sent = pidData0 := by
    refine (congrArg LastDataPid.sent (LastDataPids.set_self ..)).trans ?_
    exact if_neg h
  rw [SetupState.packet, nextDataPid, if_pos hsent]

theorem sent_snoc (request : Memory Byte) (hfirst : (s.pids addr 0).sent ≠ pidData0)
    (hsent : ∀ p ∈ s.sent, p.pid = pidData0.setWidth 4) :
    ∀ p ∈ s.sent ++ [s.packet addr request], p.pid = pidData0.setWidth 4 := by
  intro p hp
  rcases List.mem_append.mp hp with hp | hp
  · exact hsent p hp
  · rw [List.mem_singleton.mp hp, packet_pid request hfirst]
    rfl

/-- Nothing is asked of an attempt whose token hangs. -/
theorem repeatsUnanswered_of_tokenHung {packet : DataPacket} {w w₁ : W}
    (htoken : bus.tokenSetup addr endp w = (false, w₁)) :
    RepeatsUnanswered bus addr endp packet (retry + 1) w := by
  intro v₁ v₂ htoken'
  rw [htoken] at htoken'
  cases htoken'

/-- Nor of one whose data packet hangs. -/
theorem repeatsUnanswered_of_dataHung {packet : DataPacket} {w w₁ w₂ : W}
    (htoken : bus.tokenSetup addr endp w = (true, w₁))
    (hdata : bus.sendData packet w₁ = (false, w₂)) :
    RepeatsUnanswered bus addr endp packet (retry + 1) w := by
  intro v₁ v₂ htoken' hdata'
  rw [htoken] at htoken'
  cases htoken'
  rw [hdata] at hdata'
  cases hdata'

/-- What is asked of an attempt that sent its packet depends on what came back. -/
theorem repeatsUnanswered_sent {packet : DataPacket} {w w₁ w₂ : W}
    (htoken : bus.tokenSetup addr endp w = (true, w₁))
    (hdata : bus.sendData packet w₁ = (true, w₂)) :
    RepeatsUnanswered bus addr endp packet (retry + 1) w ↔
      ((bus.answer w₂).1 = none →
        RepeatsUnanswered bus addr endp packet retry (bus.answer w₂).2) ∧
      ∀ pid, (bus.answer w₂).1 = some pid → pid ≠ pidAck →
        (bus.tokenSetup addr endp (bus.answer w₂).2).1 = false := by
  constructor
  · intro hall
    exact hall w₁ w₂ htoken hdata
  · intro hpair v₁ v₂ htoken' hdata'
    rw [htoken] at htoken'
    cases htoken'
    rw [hdata] at hdata'
    cases hdata'
    exact hpair

/-- Without an answer the next attempt starts from the same table. -/
theorem repeatsUnanswered_of_unanswered {packet : DataPacket} {w w₁ w₂ w₃ : W}
    (htoken : bus.tokenSetup addr endp w = (true, w₁))
    (hdata : bus.sendData packet w₁ = (true, w₂)) (hnone : bus.answer w₂ = (none, w₃)) :
    RepeatsUnanswered bus addr endp packet (retry + 1) w ↔
      RepeatsUnanswered bus addr endp packet retry w₃ := by
  rw [repeatsUnanswered_sent htoken hdata, hnone]
  constructor
  · exact fun hpair => hpair.1 rfl
  · exact fun hrest => ⟨fun _ => hrest, nofun⟩

theorem repeatsUnanswered_of_acked {packet : DataPacket} {w w₁ w₂ w₃ : W}
    (htoken : bus.tokenSetup addr endp w = (true, w₁))
    (hdata : bus.sendData packet w₁ = (true, w₂)) (hack : bus.answer w₂ = (some pidAck, w₃)) :
    RepeatsUnanswered bus addr endp packet (retry + 1) w := by
  rw [repeatsUnanswered_sent htoken hdata, hack]
  exact ⟨nofun, fun pid hpid hne => absurd (Option.some.inj hpid).symm hne⟩

/-- After another handshake the next attempt must not get past its token. -/
theorem repeatsUnanswered_of_answered {packet : DataPacket} {w w₁ w₂ w₃ : W} {pid : Byte}
    (htoken : bus.tokenSetup addr endp w = (true, w₁))
    (hdata : bus.sendData packet w₁ = (true, w₂)) (hother : bus.answer w₂ = (some pid, w₃))
    (hpid : pid ≠ pidAck) :
    RepeatsUnanswered bus addr endp packet (retry + 1) w ↔
      (bus.tokenSetup addr endp w₃).1 = false := by
  rw [repeatsUnanswered_sent htoken hdata, hother]
  constructor
  · exact fun hpair => hpair.2 pid rfl hpid
  · exact fun hhung => ⟨nofun, fun _ _ _ => hhung⟩

/-- The last attempt sends what it sends, and nothing is repeated after it. -/
theorem setupStage_data0_last (s : SetupState W) (hfirst : (s.pids addr 0).sent ≠ pidData0)
    (hsent : ∀ p ∈ s.sent, p.pid = pidData0.setWidth 4) :
    ∀ p ∈ (setupStage bus addr endp request 0 s).2.sent, p.pid = pidData0.setWidth 4 := by
  have hmore := sent_snoc request hfirst hsent
  rcases setup_cases bus addr endp (s.packet addr request) s.bus with
    ⟨w₁, htoken⟩ | ⟨w₁, htoken, ⟨w₂, hdata⟩ | ⟨w₂, hdata, ⟨w₃, hnone⟩ | ⟨w₃, hack⟩ |
      ⟨pid, w₃, hother, hpid⟩⟩⟩
  · rw [setupStage_tokenHung htoken]
    exact hsent
  · rw [setupStage_dataHung htoken hdata]
    exact hmore
  · rw [setupStage_unanswered_last htoken hdata hnone]
    exact hmore
  · rw [setupStage_acked htoken hdata hack]
    exact hmore
  · rw [setupStage_answered_last htoken hdata hother hpid]
    exact hmore

/-- After a handshake other than `ACK` the table says `DATA0`, so that another data packet would
be a `DATA1`: all is well exactly if the token of the next attempt hangs. -/
theorem setupStage_data0_answered (s : SetupState W) {w : W}
    (hfirst : (s.pids addr 0).sent ≠ pidData0)
    (hsent : ∀ p ∈ s.sent, p.pid = pidData0.setWidth 4) :
    (∀ p ∈ (setupStage bus addr endp request retry (s.answered addr request w)).2.sent,
        p.pid = pidData0.setWidth 4) ↔
      (bus.tokenSetup addr endp w).1 = false := by
  have hnext := packet_answered request hfirst w
  constructor
  · intro hall
    rcases hagain : bus.tokenSetup addr endp w with ⟨_ | _, w₁⟩
    · rfl
    · have hpid := hall _ (setupStage_first hagain)
      rw [hnext] at hpid
      have hpids : pidData1.setWidth 4 = pidData0.setWidth 4 := hpid
      exact absurd hpids (by decide)
  · intro hhung
    have htoken : bus.tokenSetup addr endp w = (false, (bus.tokenSetup addr endp w).2) :=
      Prod.ext hhung rfl
    have hstop : setupStage bus addr endp request retry (s.answered addr request w) =
        (.error (-2), { s.answered addr request w with
          bus := (bus.tokenSetup addr endp w).2 }) := setupStage_tokenHung htoken
    rw [hstop]
    exact sent_snoc request hfirst hsent

/-- A stage that begins with `DATA0` stays with it exactly if nothing that was answered is
repeated. -/
theorem setupStage_data0 (retry : ℕ) (s : SetupState W)
    (hfirst : (s.pids addr 0).sent ≠ pidData0) (hsent : ∀ p ∈ s.sent, p.pid = pidData0.setWidth 4) :
    (∀ p ∈ (setupStage bus addr endp request retry s).2.sent, p.pid = pidData0.setWidth 4) ↔
      RepeatsUnanswered bus addr endp (setupPacket request pidData0) retry s.bus := by
  -- induction on the repetitions left; only an attempt without an answer goes on with it
  induction retry generalizing s with
  | zero => exact iff_of_true (setupStage_data0_last s hfirst hsent) trivial
  | succ retry ih =>
    have hmore := sent_snoc request hfirst hsent
    have hpacket := packet_pid request hfirst
    rcases setup_cases bus addr endp (s.packet addr request) s.bus with
      ⟨w₁, htoken⟩ | ⟨w₁, htoken, ⟨w₂, hdata⟩ | ⟨w₂, hdata, ⟨w₃, hnone⟩ | ⟨w₃, hack⟩ |
        ⟨pid, w₃, hother, hpid⟩⟩⟩
    · -- the token hangs: nothing is sent
      rw [setupStage_tokenHung htoken]
      exact iff_of_true hsent (repeatsUnanswered_of_tokenHung htoken)
    · -- the data packet hangs, but it was a `DATA0`
      rw [setupStage_dataHung htoken hdata]
      exact iff_of_true hmore (repeatsUnanswered_of_dataHung htoken (hpacket ▸ hdata))
    · -- no answer
      rw [setupStage_unanswered htoken hdata hnone, ih (s.unanswered addr request w₃) hfirst hmore]
      exact (repeatsUnanswered_of_unanswered htoken (hpacket ▸ hdata) hnone).symm
    · -- acknowledged: the stage is over
      rw [setupStage_acked htoken hdata hack]
      exact iff_of_true hmore (repeatsUnanswered_of_acked htoken (hpacket ▸ hdata) hack)
    · -- another handshake
      rw [setupStage_answered htoken hdata hother hpid,
        setupStage_data0_answered s hfirst hsent]
      exact (repeatsUnanswered_of_answered htoken (hpacket ▸ hdata) hother hpid).symm

/-! ## Section 3: The data stage -/

/-- What the verdicts of a series of attempts end with. -/
def takenVerdict : Except ℤ RxPacket → List Judged
  | .ok p => [.accepted p.pid]
  | .error _ => []

/-- Repeats of the PID taken last, before other verdicts. -/
theorem alternates_duplicates (last : Byte) (n : ℕ) (js : List Judged) :
    Alternates last (List.replicate n (.duplicate last) ++ js) ↔ Alternates last js := by
  induction n with
  | zero => exact Iff.rfl
  | succ n ih =>
    rw [List.replicate_succ, List.cons_append, Alternates, ih]
    exact and_iff_right rfl

/-- An attempt turns down as a duplicate what repeats the last PID, and accepts the other one. -/
theorem dataAttempt_spec (bus : Bus W) (addr endp : ℕ) (recv : Byte) (s : W × List Judged) :
    ∃ n, (dataAttempt bus addr endp recv s).2.2 = s.2 ++ List.replicate n (.duplicate recv) ++
        takenVerdict (dataAttempt bus addr endp recv s).1.toExcept ∧
      ∀ p, (dataAttempt bus addr endp recv s).1.toExcept = .ok p →
        p.pid ≠ recv ∧ (p.pid = pidData0 ∨ p.pid = pidData1) := by
  unfold dataAttempt
  split
  · exact ⟨0, by simp [Attempt.toExcept, takenVerdict], nofun⟩
  · split
    · exact ⟨0, by simp [Attempt.toExcept, takenVerdict], nofun⟩
    · split
      · exact ⟨0, by simp [Attempt.toExcept, takenVerdict], nofun⟩
      · split
        · exact ⟨0, by simp [Attempt.toExcept, takenVerdict], nofun⟩
        · split
          · exact ⟨0, by simp [Attempt.toExcept, takenVerdict], nofun⟩
          · rename_i hdata
            split
            · rename_i hdup
              exact ⟨1, by simp [Attempt.toExcept, takenVerdict, hdup], nofun⟩
            · rename_i hnew
              refine ⟨0, by simp [Attempt.toExcept, takenVerdict], fun p hp => ?_⟩
              obtain rfl := Except.ok.inj hp
              refine ⟨hnew, ?_⟩
              by_contra hne
              exact hdata (not_or.mp hne)

/-- The attempts for one packet. -/
theorem dataAttempts_spec (bus : Bus W) (addr endp : ℕ) (recv : Byte) (retry : ℕ)
    (s : W × List Judged) :
    ∃ n, (attempts (dataAttempt bus addr endp recv) retry s).2.2 =
        s.2 ++ List.replicate n (.duplicate recv) ++
          takenVerdict (attempts (dataAttempt bus addr endp recv) retry s).1 ∧
      ∀ p, (attempts (dataAttempt bus addr endp recv) retry s).1 = .ok p →
        p.pid ≠ recv ∧ (p.pid = pidData0 ∨ p.pid = pidData1) := by
  refine attempts_rule (P := fun s a s' => ∃ n,
      s'.2 = s.2 ++ List.replicate n (.duplicate recv) ++ takenVerdict a ∧
      ∀ p, a = .ok p → p.pid ≠ recv ∧ (p.pid = pidData0 ∨ p.pid = pidData1))
    (dataAttempt_spec bus addr endp recv) ?_ retry s
  rintro w w₁ w₂ ret a ⟨n, hn, -⟩ ⟨m, hm, hok⟩
  refine ⟨n + m, ?_, hok⟩
  rw [hm, hn, takenVerdict, List.append_nil, List.replicate_add]
  simp only [List.append_assoc]

/-- **The data stage alternates.**  Its verdicts follow the PID the table begins with. -/
theorem dataPackets_alternate (bus : Bus W) (addr endp size k i : ℕ)
    (s : InState (W × List Judged)) :
    ∃ js, (dataPackets (dataAttempt bus addr endp) size k i s).2.bus.2 = s.bus.2 ++ js ∧
      Alternates s.recv js := by
  induction k generalizing i s with
  | zero => exact ⟨[], (List.append_nil _).symm, trivial⟩
  | succ k ih =>
    obtain ⟨n, hlog, hok⟩ := dataAttempts_spec bus addr endp s.recv 8 s.bus
    rw [dataPackets]
    cases hrun : attempts (dataAttempt bus addr endp s.recv) 8 s.bus with
    | mk r w =>
      rw [hrun] at hlog hok
      cases r with
      | error ret =>
        refine ⟨List.replicate n (.duplicate s.recv), ?_, ?_⟩
        · exact hlog.trans (by simp [takenVerdict])
        · rw [← List.append_nil (List.replicate n _)]
          exact (alternates_duplicates s.recv n []).mpr trivial
      | ok p =>
        obtain ⟨hnew, hdata⟩ := hok p rfl
        dsimp only at hlog ⊢
        split
        · refine ⟨List.replicate n (.duplicate s.recv) ++ [.accepted p.pid], ?_, ?_⟩
          · exact hlog.trans (List.append_assoc ..)
          · exact (alternates_duplicates s.recv n _).mpr ⟨hnew, hdata, trivial⟩
        · obtain ⟨js, hjs, halt⟩ := ih (i + 1) (s.take size i p w)
          refine ⟨List.replicate n (.duplicate s.recv) ++ .accepted p.pid :: js, ?_, ?_⟩
          · rw [hjs]
            change w.2 ++ js = _
            rw [hlog]
            simp [takenVerdict]
          · exact (alternates_duplicates s.recv n _).mpr ⟨hnew, hdata, halt⟩

/-! ## Section 4: Requests -/

/-- **The toggle of SETUP requests.**  For every table, device and request, the data packets of
the SETUP stage all carry `DATA0` exactly if it starts clean.  The data stage behind it always
begins with `DATA1` and turns down only repeats of the PID taken last. -/
theorem togglesRight_iff (bus : SetupBus W) (pids : LastDataPids) (addr endp : ℕ)
    (request : Memory Byte) (response : Option (Memory Byte)) (size : ℕ) (w : W) :
    TogglesRight (usb10SetupRequest bus pids addr endp request response size w) ↔
      StartsClean bus pids addr endp request w := by
  obtain ⟨s, hs⟩ : ∃ s : SetupState W, s = { bus := w, pids := setupPids pids addr endp } :=
    ⟨_, rfl⟩
  by_cases haddr : addr ≥ maxAddresses
  · -- there is no such address
    have hrun : usb10SetupRequest bus pids addr endp request response size w =
        { ret := -999, response, pids, bus := w } := if_pos haddr
    rw [hrun]
    exact iff_of_true ⟨by simp, trivial⟩ fun hlt => absurd haddr (Nat.not_le.mpr hlt)
  by_cases hfree : bus.free w = true
  · -- the packets sent are those of the SETUP stage, whatever comes behind it
    have hresult : (usb10SetupRequest bus pids addr endp request response size w).sent =
          (setupStage bus addr endp request 2 s).2.sent ∧
        Alternates pidData0
          (usb10SetupRequest bus pids addr endp request response size w).judged := by
      have hstart : (s.pids addr endp).recv = pidData0 := by
        rw [hs]
        exact congrArg LastDataPid.recv (LastDataPids.set_self ..)
      have hrecv : ((setupStage bus addr endp request 2 s).2.pids addr endp).recv = pidData0 :=
        (setupStage_recv addr endp 2 s).trans hstart
      unfold usb10SetupRequest
      rw [if_neg haddr, if_neg (by simp [hfree]), ← hs]
      cases hrun : setupStage bus addr endp request 2 s with
      | mk r t =>
        rw [hrun] at hrecv
        cases r with
        | error ret => exact ⟨rfl, trivial⟩
        | ok _ =>
          refine ⟨rfl, ?_⟩
          obtain ⟨js, hjs, halt⟩ := dataPackets_alternate bus.toBus addr endp size
            (setupDataPackets size) 0 ⟨(t.bus, []), (t.pids addr endp).recv, response, 0⟩
          rw [← hrecv]
          dsimp only
          rw [hjs]
          exact halt
    -- the PID of the packet is taken from the entry of endpoint 0
    have hfirst : (s.pids addr 0).sent ≠ pidData0 ↔
        endp = 0 ∨ (pids addr 0).sent ≠ pidData0 := by
      rw [hs]
      by_cases hzero : endp = 0
      · subst hzero
        have hsent : ((setupPids pids addr 0) addr 0).sent = pidData1 :=
          congrArg LastDataPid.sent (LastDataPids.set_self ..)
        exact iff_of_true (by rw [hsent]; decide) (Or.inl rfl)
      · have hsent : ((setupPids pids addr endp) addr 0).sent = (pids addr 0).sent :=
          congrArg LastDataPid.sent (LastDataPids.set_of_ne _ _ fun h => hzero h.2)
        rw [hsent]
        exact ⟨Or.inr, fun h => h.resolve_left hzero⟩
    have hbus : s.bus = w := by rw [hs]
    have hnone : s.sent = [] := by rw [hs]
    have hiff : TogglesRight (usb10SetupRequest bus pids addr endp request response size w) ↔
        ∀ p ∈ (setupStage bus addr endp request 2 s).2.sent, p.pid = pidData0.setWidth 4 :=
      ⟨fun h => hresult.1 ▸ h.data0, fun h => ⟨hresult.1.symm ▸ h, hresult.2⟩⟩
    rw [hiff]
    rcases htoken : bus.tokenSetup addr endp w with ⟨_ | _, w₁⟩
    · -- the SETUP token does not get out, and no data packet is sent
      rw [setupStage_tokenHung (hbus ▸ htoken)]
      refine iff_of_true (by simp [hnone]) fun _ _ hok => ?_
      rw [htoken] at hok
      cases hok
    · by_cases hpid : (s.pids addr 0).sent ≠ pidData0
      · -- the first packet is a `DATA0`
        rw [setupStage_data0 2 s hpid (by simp [hnone]), hbus]
        exact ⟨fun h _ _ _ => ⟨hfirst.mp hpid, h⟩,
          fun h => (h (Nat.lt_of_not_le haddr) hfree (by rw [htoken])).2⟩
      · -- the first packet is a `DATA1`
        refine iff_of_false (fun hall => ?_)
          fun h => hpid (hfirst.mpr (h (Nat.lt_of_not_le haddr) hfree (by rw [htoken])).1)
        have hmem := hall _ (setupStage_first (hbus ▸ htoken))
        rw [SetupState.packet, nextDataPid, if_pos (not_not.mp hpid)] at hmem
        have hpids : pidData1.setWidth 4 = pidData0.setWidth 4 := hmem
        exact absurd hpids (by decide)
  · -- the bus is not free
    have hrun : usb10SetupRequest bus pids addr endp request response size w =
        { ret := -1, response, pids, bus := w } := by
      simp [usb10SetupRequest, haddr, hfree]
    rw [hrun]
    exact iff_of_true ⟨by simp, trivial⟩ fun _ h => absurd h hfree

/-! ## Section 5: A handshake that is repeated -/

/-- A device that answers the first data packet with `NAK` and acknowledges the next one, and
does nothing else. -/
def nakOnce : SetupBus Bool where
  free _ := true
  tokenIn _ _ w := (none, w)
  sendAck w := (true, w)
  tokenOut _ _ w := (true, w)
  sendData _ w := (true, w)
  answer w := (some (if w then pidAck else pidNak), true)
  tokenSetup _ _ w := (true, w)

/-- The second data packet carries `DATA1`, and the device takes it for a new one. -/
theorem not_togglesRight_nakOnce :
    (usb10SetupRequest nakOnce (usb10BusReset fun _ _ => ⟨0, 0⟩) 0 0 (fun _ => 0) none 0 false).ret
        = 0 ∧
      (usb10SetupRequest nakOnce (usb10BusReset fun _ _ => ⟨0, 0⟩) 0 0 (fun _ => 0) none 0
        false).sent.map DataPacket.pid = [0b0011, 0b1011] ∧
      ¬ TogglesRight (usb10SetupRequest nakOnce (usb10BusReset fun _ _ => ⟨0, 0⟩) 0 0
        (fun _ => 0) none 0 false) := by
  have hpids : (usb10SetupRequest nakOnce (usb10BusReset fun _ _ => ⟨0, 0⟩) 0 0 (fun _ => 0) none
      0 false).sent.map DataPacket.pid = [0b0011, 0b1011] := by decide
  refine ⟨by decide, hpids, fun h => ?_⟩
  have hall : ∀ pid ∈ ([0b0011, 0b1011] : List (BitVec 4)), pid = pidData0.setWidth 4 := by
    rw [← hpids]
    intro pid hpid
    obtain ⟨p, hp, rfl⟩ := List.mem_map.mp hpid
    exact h.data0 p hp
  exact absurd hall (by decide)

end Karnix.Usb
