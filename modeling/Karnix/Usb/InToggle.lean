import Karnix.Library.Runs
import Karnix.Usb.Host

/-!
# The data toggle of an interrupt endpoint

A device endpoint that sends reports, the wires between it and the driver, and the calls of
`usb10_in_request` that poll it.  Device and driver run the alternating-bit protocol: the
device shows by its PID whether a report is new, and the driver remembers the last PID.

Both sides are compared through one number, the reports that the driver takes as received
already (`taken`): every exchange leaves it as it is, or raises it by one and hands over the
report of that number.
-/

namespace Karnix.Usb

open Karnix.Library

/-! ## Section 1: The endpoint -/

/-- A report of the device, which fits into one packet. -/
structure Report where
  bytes : List Byte
  length_le : bytes.length ≤ lowSpeedDataSize

/-- The data packet of a report, as the receiver shows it. -/
def Report.packet (r : Report) (pid : Byte) : RxPacket :=
  ⟨pid, BitVec.ofNat 8 (8 * r.bytes.length + 8 + 16), true, leWord (r.bytes.take 4),
    leWord (r.bytes.drop 4)⟩

/-- An endpoint: all reports it was given since the device was configured, and how many of them
it considers acknowledged. -/
structure Endpoint where
  reports : List Report
  acked : ℕ

/-- The PID of report `n`: the endpoint starts with `DATA0` and alternates. -/
def reportPid (n : ℕ) : Byte := if n % 2 = 0 then pidData0 else pidData1

/-- What the wires do to the answer of the device. -/
inductive Fault where
  | none
  /-- The token, or the answer to it, is lost. -/
  | lost
  /-- The answer arrives with a wrong check-sum, and with anything else. -/
  | garbled (p : RxPacket)

/-- What happens in one exchange. -/
structure Exchange where
  /-- The reports that the device gets before it. -/
  fresh : List Report
  /-- The device answers `NAK` even if it has a report. -/
  busy : Bool
  fault : Fault
  ackLost : Bool

/-- The wires during a call. -/
structure Wires where
  endpoint : Endpoint
  /-- What is going to happen; behind the end of it every packet is lost. -/
  script : List Exchange
  /-- Whether the device has sent a report and waits for an ACK, and whether that will be lost. -/
  awaits : Option Bool
  /-- The number of the report sent last. -/
  sent : ℕ

/-- The handshake `NAK`: the device has nothing to say. -/
def nakPacket : RxPacket := ⟨pidNak, 8, false, 0, 0⟩

/-- The answer to a token, and the fate of an ACK to it. -/
def Endpoint.answer (ep : Endpoint) (x : Exchange) : RxPacket × Option Bool :=
  match ep.reports[ep.acked]? with
  | some r => if x.busy then (nakPacket, none) else (r.packet (reportPid ep.acked), some x.ackLost)
  | none => (nakPacket, none)

/-- The wires and the device behind the registers of the controller. -/
def wires : Bus Wires where
  free _ := true
  tokenIn _ _ w :=
    match w.script with
    | [] => (none, { w with awaits := none })
    | x :: script =>
      let ep := { w.endpoint with reports := w.endpoint.reports ++ x.fresh }
      match x.fault with
      | .lost => (none, ⟨ep, script, none, ep.acked⟩)
      | .garbled p => (some { p with crc16Ok := false }, ⟨ep, script, none, ep.acked⟩)
      | .none => (some (ep.answer x).1, ⟨ep, script, (ep.answer x).2, ep.acked⟩)
  sendAck w :=
    match w.awaits with
    | some false =>
      (true, { w with awaits := none, endpoint.acked := w.endpoint.acked + 1 })
    | _ => (true, { w with awaits := none })
  tokenOut _ _ w := (true, w)
  sendData _ w := (true, w)
  answer w := (none, w)

/-! ## Section 2: Polling -/

/-- An endpoint, the table of the driver, and what the calls have handed over, each report with
the number it has at the device. -/
structure Polling where
  endpoint : Endpoint
  pids : LastDataPids
  delivered : List (List Byte × ℕ)

inductive Event where
  /-- A call of `usb10_in_request` with a buffer of this size and these contents. -/
  | poll (size : ℕ) (buf : Memory Byte) (script : List Exchange)
  /-- A request to another endpoint. -/
  | other (addr endp : ℕ) (last : LastDataPid)

/-- The caller takes the bytes that a call reports. -/
def Polling.step (addr endp : ℕ) (s : Polling) : Event → Polling
  | .poll size buf script =>
    let r := usb10InRequest wires s.pids addr endp (some buf) size ⟨s.endpoint, script, none, 0⟩
    { endpoint := r.bus.endpoint
      pids := r.pids
      delivered := s.delivered ++
        if 0 ≤ r.ret then [((r.response.getD buf).load 0 r.ret.toNat, r.bus.sent)] else [] }
  | .other a e last => { s with pids := s.pids.set a e last }

/-- The first `n` reports of the endpoint, numbered. -/
def Endpoint.first (ep : Endpoint) (n : ℕ) : List (List Byte × ℕ) :=
  ((ep.reports.take n).map Report.bytes).zipIdx

/-- Every report that the device considers acknowledged has been handed over once and in order,
and nothing else but the report it still waits for. -/
def Polling.Delivers (s : Polling) : Prop :=
  s.delivered = s.endpoint.first s.endpoint.acked ∨
    s.endpoint.acked < s.endpoint.reports.length ∧
      s.delivered = s.endpoint.first (s.endpoint.acked + 1)

/-- The events of a caller that asks for one packet, and of requests to other endpoints. -/
def Event.Fits (addr endp : ℕ) : Event → Prop
  | .poll size _ _ => 1 ≤ size ∧ size ≤ lowSpeedDataSize
  | .other a e _ => ¬ (a = addr ∧ e = endp)

/-! ## Section 3: One exchange -/

theorem reportPid_succ_ne (n : ℕ) : reportPid (n + 1) ≠ reportPid n := by
  unfold reportPid
  rcases Nat.mod_two_eq_zero_or_one n with h | h
  · rw [if_neg (by omega), if_pos h]
    exact by decide
  · rw [if_pos (by omega), if_neg (by omega)]
    exact by decide

theorem reportPid_cases (n : ℕ) : reportPid n = pidData0 ∨ reportPid n = pidData1 := by
  unfold reportPid
  split_ifs
  · exact Or.inl rfl
  · exact Or.inr rfl

/-- The number of reports that a driver with this PID takes as received. -/
def taken (recv : Byte) (acked : ℕ) : ℕ := if recv = reportPid acked then acked + 1 else acked

/-- A driver that has just seen the report takes it as received, whatever becomes of the ACK. -/
theorem taken_self (n : ℕ) : taken (reportPid n) n = n + 1 := if_pos rfl

theorem taken_succ_self (n : ℕ) : taken (reportPid n) (n + 1) = n + 1 :=
  if_neg (reportPid_succ_ne n).symm

/-- What an exchange does to the endpoint: new reports come in, and perhaps one more is
acknowledged. -/
structure Endpoint.Grows (ep ep' : Endpoint) : Prop where
  reports : ep.reports <+: ep'.reports
  acked : ep.acked ≤ ep'.acked
  acked_le : ep.acked ≤ ep.reports.length → ep'.acked ≤ ep'.reports.length

theorem Endpoint.Grows.refl (ep : Endpoint) : ep.Grows ep :=
  ⟨List.prefix_refl _, Nat.le_refl _, id⟩

theorem Endpoint.Grows.trans {ep₁ ep₂ ep₃ : Endpoint} (h : ep₁.Grows ep₂) (h' : ep₂.Grows ep₃) :
    ep₁.Grows ep₃ :=
  ⟨h.reports.trans h'.reports, Nat.le_trans h.acked h'.acked,
    fun hle => h'.acked_le (h.acked_le hle)⟩

theorem Endpoint.Grows.of_fresh (ep : Endpoint) (fresh : List Report) :
    ep.Grows { ep with reports := ep.reports ++ fresh } :=
  ⟨List.prefix_append _ _, Nat.le_refl _, fun h => by
    rw [List.length_append]
    exact Nat.le_trans h (Nat.le_add_right _ _)⟩

theorem Endpoint.Grows.of_ack {ep : Endpoint} (h : ep.acked < ep.reports.length) :
    ep.Grows { ep with acked := ep.acked + 1 } :=
  ⟨List.prefix_refl _, Nat.le_succ _, fun _ => h⟩

/-- The driver fails without having taken a report, or takes the next one. -/
def TakesNext (recv : Byte) (w : Wires) (result : Except ℤ RxPacket) (w' : Wires) : Prop :=
  w.endpoint.Grows w'.endpoint ∧
    match result with
    | .ok p =>
      w'.sent = taken recv w.endpoint.acked ∧ taken p.pid w'.endpoint.acked = w'.sent + 1 ∧
        ∃ r, w'.endpoint.reports[w'.sent]? = some r ∧ p = r.packet p.pid
    | .error ret => ret < 0 ∧ taken recv w'.endpoint.acked = taken recv w.endpoint.acked

theorem TakesNext.trans {recv : Byte} (w w₁ w₂ : Wires) (ret : ℤ) (result : Except ℤ RxPacket)
    (h : TakesNext recv w (.error ret) w₁) (h' : TakesNext recv w₁ result w₂) :
    TakesNext recv w result w₂ := by
  refine ⟨h.1.trans h'.1, ?_⟩
  cases result with
  | error ret' => exact ⟨h'.2.1, h'.2.2.trans h.2.2⟩
  | ok p => exact ⟨h'.2.1.trans h.2.2, h'.2.2⟩

/-- A device says that it has nothing, or sends the report that is to be acknowledged next. -/
theorem Endpoint.answer_cases (ep : Endpoint) (x : Exchange) :
    ep.answer x = (nakPacket, none) ∨
      ∃ r, ep.reports[ep.acked]? = some r ∧
        ep.answer x = (r.packet (reportPid ep.acked), some x.ackLost) := by
  unfold Endpoint.answer
  cases hr : ep.reports[ep.acked]? with
  | none => exact Or.inl rfl
  | some r =>
    cases hbusy : x.busy with
    | true => exact Or.inl (if_pos rfl)
    | false => exact Or.inr ⟨r, rfl, if_neg Bool.false_ne_true⟩

/-- A report that arrives is taken unless its PID is the one seen last, and the device learns of
it unless the ACK is lost. -/
theorem takesNext_report (recv : Byte) {w : Wires} {ep : Endpoint} {r : Report}
    (hgrows : w.endpoint.Grows ep) (hacked : ep.acked = w.endpoint.acked)
    (hr : ep.reports[ep.acked]? = some r) (script : List Exchange) (ackLost : Bool) :
    TakesNext recv w
      (if reportPid ep.acked = recv then .error (-10) else .ok (r.packet (reportPid ep.acked)))
      (wires.sendAck ⟨ep, script, some ackLost, ep.acked⟩).2 := by
  have hack := hgrows.trans (Endpoint.Grows.of_ack (List.getElem?_eq_some_iff.mp hr).1)
  split_ifs with hrecv
  · -- the report was taken before: only its ACK is news
    cases ackLost with
    | true => exact ⟨hgrows, by decide, congrArg (taken recv) hacked⟩
    | false =>
      refine ⟨hack, by decide, ?_⟩
      show taken recv (ep.acked + 1) = taken recv w.endpoint.acked
      rw [← hacked, ← hrecv, taken_self, taken_succ_self]
  · have htaken : ep.acked = taken recv w.endpoint.acked := by
      rw [← hacked]
      exact (if_neg (Ne.symm hrecv)).symm
    cases ackLost with
    | true => exact ⟨hgrows, htaken, taken_self _, r, hr, rfl⟩
    | false => exact ⟨hack, htaken, taken_succ_self _, r, hr, rfl⟩

/-- **Step lemma.**  An attempt takes the report that is next, or none. -/
theorem inAttempt_takesNext (addr endp : ℕ) (recv : Byte) (w : Wires) :
    TakesNext recv w (inAttempt wires addr endp recv w).1.toExcept
      (inAttempt wires addr endp recv w).2 := by
  -- what the device does is decided by the script of the wires
  obtain ⟨ep, script, awaits, sent⟩ := w
  cases script with
  | nil =>
    rw [inAttempt_none rfl]
    exact ⟨Endpoint.Grows.refl ep, by decide, rfl⟩
  | cons x script =>
    obtain ⟨ep', hep⟩ : ∃ ep' : Endpoint, ep' = ⟨ep.reports ++ x.fresh, ep.acked⟩ := ⟨_, rfl⟩
    have hgrows : ep.Grows ep' := by
      rw [hep]
      exact Endpoint.Grows.of_fresh ep x.fresh
    have hacked : ep'.acked = ep.acked := by rw [hep]
    have hnone : ∀ ret < 0, TakesNext recv ⟨ep, x :: script, awaits, sent⟩ (.error ret)
        ⟨ep', script, none, ep'.acked⟩ := fun _ hret =>
      ⟨hgrows, hret, congrArg (taken recv) hacked⟩
    cases hfault : x.fault with
    -- no answer comes
    | lost =>
      have htoken : wires.tokenIn addr endp ⟨ep, x :: script, awaits, sent⟩ =
          (none, ⟨ep', script, none, ep'.acked⟩) := by
        simp only [wires, hfault, hep]
      rw [inAttempt_none htoken]
      exact hnone _ (by decide)
    | garbled p =>
      -- no ACK is sent whatever the PID is
      have htoken : wires.tokenIn addr endp ⟨ep, x :: script, awaits, sent⟩ =
          (some { p with crc16Ok := false }, ⟨ep', script, none, ep'.acked⟩) := by
        simp only [wires, hfault, hep]
      rcases inAttempt_garbled recv htoken rfl with h | h | h <;> rw [h] <;>
        exact hnone _ (by decide)
    -- the answer is NAK or the report that is next
    | none =>
      have htoken : wires.tokenIn addr endp ⟨ep, x :: script, awaits, sent⟩ =
          (some (ep'.answer x).1, ⟨ep', script, (ep'.answer x).2, ep'.acked⟩) := by
        simp only [wires, hfault, hep]
      rcases ep'.answer_cases x with hnak | ⟨r, hr, hanswer⟩
      · rw [hnak] at htoken
        rcases inAttempt_garbled recv htoken rfl with h | h | h <;> rw [h] <;>
          exact hnone _ (by decide)
      · rw [hanswer] at htoken
        have hack : ∀ v : Wires, wires.sendAck v = (true, (wires.sendAck v).2) := by
          intro v
          simp only [wires]
          split <;> rfl
        have hreport := takesNext_report recv (w := ⟨ep, x :: script, awaits, sent⟩) hgrows
          hacked hr script x.ackLost
        rw [inAttempt_data htoken (reportPid_cases ep'.acked) rfl (hack _)]
        -- a report with the other toggle is acknowledged and dropped
        by_cases hrecv : (r.packet (reportPid ep'.acked)).pid = recv
        · rw [if_pos hrecv]
          rw [if_pos (show reportPid ep'.acked = recv from hrecv)] at hreport
          exact hreport
        · rw [if_neg hrecv]
          rw [if_neg (show ¬ reportPid ep'.acked = recv from hrecv)] at hreport
          exact hreport


/-! ## Section 4: One call -/

theorem Report.length_lt (r : Report) : r.bytes.length < 9 := Nat.lt_succ_of_le r.length_le

/-- The registers show the report. -/
theorem Report.take_bytes (r : Report) (pid : Byte) :
    ((r.packet pid).bytes).take r.bytes.length = r.bytes := by
  have hlen := r.length_le
  unfold lowSpeedDataSize at hlen
  have hlow : (r.bytes.take 4).length ≤ 4 := List.length_take_le 4 r.bytes
  have hhigh : (r.bytes.drop 4).length ≤ 4 := by
    rw [List.length_drop]
    omega
  show (leBytes32 (leWord (r.bytes.take 4)) ++ leBytes32 (leWord (r.bytes.drop 4))).take _ = _
  rw [leBytes32_leWord hlow, leBytes32_leWord hhigh]
  rcases Nat.le_total r.bytes.length 4 with h4 | h4
  · rw [List.take_of_length_le h4, List.append_assoc, List.take_left]
  · rw [List.length_take, Nat.min_eq_left h4, Nat.sub_self, List.replicate_zero, List.append_nil,
      ← List.append_assoc, List.take_append_drop, List.take_left]

theorem Report.byteCount (r : Report) (pid : Byte) :
    (r.packet pid).byteCount = BitVec.ofNat 32 r.bytes.length := by
  have hlen := r.length_lt
  have hcount : ∀ n < 9, ((BitVec.ofNat 8 (8 * n + 8 + 16)).setWidth 32 - 8 - 16 : BitVec 32) / 8 =
      BitVec.ofNat 32 n := by decide
  exact hcount r.bytes.length hlen

/-- What a call for one packet does: it fails, or it hands the next report over. -/
structure Polled (recv : Byte) (ep : Endpoint) (buf : Memory Byte) (r : InResult Wires)
    (recv' : Byte) : Prop where
  grows : ep.Grows r.bus.endpoint
  result : r.ret < 0 ∧ recv' = recv ∧ taken recv' r.bus.endpoint.acked = taken recv ep.acked ∨
    r.bus.sent = taken recv ep.acked ∧ taken recv' r.bus.endpoint.acked = r.bus.sent + 1 ∧
      ∃ report, r.bus.endpoint.reports[r.bus.sent]? = some report ∧
        r.ret = report.bytes.length ∧
        (r.response.getD buf).load 0 report.bytes.length = report.bytes

theorem polled_inRequest (pids : LastDataPids) {addr endp size : ℕ} (haddr : addr < maxAddresses)
    (hendp : endp < maxEndpoints) (hsize : 1 ≤ size ∧ size ≤ lowSpeedDataSize) (buf : Memory Byte)
    (w : Wires) :
    Polled (pids addr endp).recv w.endpoint buf
      (usb10InRequest wires pids addr endp (some buf) size w)
      ((usb10InRequest wires pids addr endp (some buf) size w).pids addr endp).recv := by
  have hrange : ¬ (addr ≥ maxAddresses ∨ endp ≥ maxEndpoints) :=
    fun h => h.elim (Nat.not_le.mpr haddr) (Nat.not_le.mpr hendp)
  have hone : numOfDataPackets size = 1 := by
    unfold numOfDataPackets
    unfold lowSpeedDataSize at hsize ⊢
    split_ifs <;> omega
  have hsize0 : size ≠ 0 := Nat.ne_of_gt hsize.1
  have htakes := attempts_rule (inAttempt_takesNext addr endp (pids addr endp).recv)
    TakesNext.trans 8 w
  unfold usb10InRequest
  rw [if_neg hrange, if_neg (show ¬ (!wires.free w) = true from Bool.false_ne_true), hone]
  unfold inPackets
  cases hrun : attempts (inAttempt wires addr endp (pids addr endp).recv) 8 w with
  | mk a w' =>
    rw [hrun] at htakes
    cases a with
    | error ret =>
      refine ⟨htakes.1, Or.inl ⟨htakes.2.1, ?_, ?_⟩⟩
      · exact congrArg LastDataPid.recv (LastDataPids.set_self pids addr endp _)
      · show taken ((pids.set addr endp _) addr endp).recv _ = _
        rw [LastDataPids.set_self]
        exact htakes.2.2
    | ok p =>
      obtain ⟨hsent, htaken, report, hreport, hp⟩ := htakes.2
      -- the loop ends behind the one packet whether or not its size is the expected one
      have hend : ∀ s : InState Wires,
          (if p.len.toNat ≠ inPacketSizeBits size 0 then (s.bytesReceived.toInt, s)
            else inPackets wires addr endp size 0 1 s) = (s.bytesReceived.toInt, s) := by
        intro s
        split_ifs
        · rfl
        · rfl
      have hcount : ((0 : BitVec 32) + p.byteCount).toInt = report.bytes.length := by
        have hbytes : ∀ n < 9, ((0 : BitVec 32) + BitVec.ofNat 32 n).toInt = n := by decide
        rw [hp, Report.byteCount]
        exact hbytes _ report.length_lt
      simp only [hend]
      refine ⟨htakes.1, Or.inr ⟨hsent, ?_, report, hreport, hcount, ?_⟩⟩
      · rw [LastDataPids.set_self]
        exact htaken
      · simp only [InState.take, if_neg hsize0, Option.map_some, Option.getD_some, Nat.zero_mul]
        rw [hp, Memory.load_store_take _ _ report.length_le, Report.take_bytes]

/-! ## Section 5: Runs -/

theorem Endpoint.length_first {ep : Endpoint} {n : ℕ} (h : n ≤ ep.reports.length) :
    (ep.first n).length = n := by
  rw [Endpoint.first, List.length_zipIdx, List.length_map, List.length_take, Nat.min_eq_left h]

/-- New reports do not change what the first ones are. -/
theorem Endpoint.Grows.first {ep ep' : Endpoint} (h : ep.Grows ep') {n : ℕ}
    (hn : n ≤ ep.reports.length) : ep'.first n = ep.first n := by
  obtain ⟨fresh, hfresh⟩ := h.reports
  rw [Endpoint.first, Endpoint.first, ← hfresh, List.take_append_of_le_length hn]

theorem Endpoint.Grows.drop_first {ep ep' : Endpoint} (h : ep.Grows ep') {n skipped : ℕ}
    (hn : n ≤ max ep.reports.length skipped) :
    (ep'.first n).drop skipped = (ep.first n).drop skipped := by
  rcases le_max_iff.mp hn with hle | hle
  · rw [h.first hle]
  · -- all of them are skipped
    have hlen : ∀ ep : Endpoint, (ep.first n).length ≤ skipped := by
      intro ep
      rw [Endpoint.first, List.length_zipIdx, List.length_map]
      exact Nat.le_trans (List.length_take_le n _) hle
    rw [List.drop_eq_nil_of_le (hlen ep'), List.drop_eq_nil_of_le (hlen ep)]

theorem Endpoint.first_succ {ep : Endpoint} {n : ℕ} {r : Report} (h : ep.reports[n]? = some r) :
    ep.first (n + 1) = ep.first n ++ [(r.bytes, n)] := by
  have hn := (List.getElem?_eq_some_iff.mp h).1
  rw [Endpoint.first, List.take_add_one, h, Option.toList_some, List.map_append,
    List.zipIdx_append, List.length_map, List.length_take, Nat.min_eq_left (Nat.le_of_lt hn)]
  simp [Endpoint.first]

/-- The reports that the driver takes as received have been handed over, but for the first
`skipped` ones. -/
structure Polling.InStep (addr endp skipped : ℕ) (s : Polling) : Prop where
  acked_le : s.endpoint.acked ≤ s.endpoint.reports.length
  skipped_le : skipped ≤ taken (s.pids addr endp).recv s.endpoint.acked
  taken_le : taken (s.pids addr endp).recv s.endpoint.acked ≤ max s.endpoint.reports.length skipped
  delivered : s.delivered =
    (s.endpoint.first (taken (s.pids addr endp).recv s.endpoint.acked)).drop skipped

/-- **Step lemma.**  A call keeps the host and the device in step. -/
theorem Polling.InStep.step {addr endp skipped : ℕ} {s : Polling} (h : s.InStep addr endp skipped)
    (haddr : addr < maxAddresses) (hendp : endp < maxEndpoints) {e : Event}
    (hfits : e.Fits addr endp) : (s.step addr endp e).InStep addr endp skipped := by
  cases e with
  | other a e last =>
    have hpids : (s.pids.set a e last) addr endp = s.pids addr endp :=
      LastDataPids.set_of_ne s.pids last hfits
    refine ⟨h.acked_le, ?_, ?_, ?_⟩
    · show skipped ≤ taken ((s.pids.set a e last) addr endp).recv s.endpoint.acked
      rw [hpids]
      exact h.skipped_le
    · show taken ((s.pids.set a e last) addr endp).recv s.endpoint.acked ≤ _
      rw [hpids]
      exact h.taken_le
    · show s.delivered = (s.endpoint.first
        (taken ((s.pids.set a e last) addr endp).recv s.endpoint.acked)).drop skipped
      rw [hpids]
      exact h.delivered
  | poll size buf script =>
    obtain ⟨hgrows, hresult⟩ :=
      polled_inRequest s.pids haddr hendp hfits buf ⟨s.endpoint, script, none, 0⟩
    have hmax := max_le_max_right skipped hgrows.reports.length_le
    have hacked := hgrows.acked_le h.acked_le
    have hfirst := hgrows.drop_first h.taken_le
    rcases hresult with ⟨hneg, -, htaken⟩ | ⟨hsent, htaken, report, hreport, hret, hload⟩
    · refine ⟨hacked, Nat.le_trans h.skipped_le (Nat.le_of_eq htaken.symm),
        Nat.le_trans (Nat.le_of_eq htaken) (Nat.le_trans h.taken_le hmax), ?_⟩
      simp only [Polling.step, htaken]
      rw [if_neg (Int.not_le.mpr hneg), List.append_nil, hfirst]
      exact h.delivered
    · have hlt := (List.getElem?_eq_some_iff.mp hreport).1
      refine ⟨hacked, ?_, ?_, ?_⟩
      · exact Nat.le_trans h.skipped_le
          (Nat.le_trans (Nat.le_succ _)
            (Nat.le_of_eq ((htaken.trans (congrArg (· + 1) hsent)).symm)))
      · exact Nat.le_trans (Nat.le_of_eq htaken) (Nat.le_trans hlt (Nat.le_max_left _ _))
      · simp only [Polling.step, htaken]
        rw [hret, if_pos (Int.natCast_nonneg _), Int.toNat_natCast, hload,
          Endpoint.first_succ hreport, List.drop_append_of_le_length, hsent, hfirst, ← h.delivered]
        rw [Endpoint.length_first (Nat.le_of_lt hlt), hsent]
        exact h.skipped_le

/-- **Run lemma.**  So they are in step after any calls. -/
theorem inStep_run {addr endp : ℕ} (haddr : addr < maxAddresses) (hendp : endp < maxEndpoints)
    (pids : LastDataPids) (reports : List Report) {events : List Event}
    (hfits : ∀ e ∈ events, e.Fits addr endp) :
    (run (Polling.step addr endp) ⟨⟨reports, 0⟩, pids, []⟩ events).InStep addr endp
      (taken (pids addr endp).recv 0) := by
  apply (RunMeets.of_forall hfits).invariant
  · intro s e h he
    exact h.step haddr hendp he
  · -- a report counts as received before there is one if the PIDs agree
    refine ⟨Nat.zero_le _, Nat.le_refl _, Nat.le_max_right _ _, ?_⟩
    refine (List.drop_eq_nil_of_le ?_).symm
    rw [Endpoint.first, List.length_zipIdx, List.length_map]
    exact List.length_take_le _ _

theorem Polling.InStep.delivers {addr endp : ℕ} {s : Polling} (h : s.InStep addr endp 0) :
    s.Delivers := by
  have hle := h.taken_le
  have hdelivered := h.delivered
  rw [Nat.max_eq_left (Nat.zero_le _)] at hle
  rw [List.drop_zero] at hdelivered
  unfold taken at hle hdelivered
  split_ifs at hle hdelivered
  · exact Or.inr ⟨hle, hdelivered⟩
  · exact Or.inl hdelivered

/-- If the first report is skipped nothing that is handed over is number 0. -/
theorem Polling.InStep.delivers_iff {addr endp : ℕ} {s : Polling} (h : s.InStep addr endp 1) :
    s.Delivers ↔ s.endpoint.acked = 0 := by
  have hdelivered := h.delivered
  have hnumber : ∀ x ∈ s.delivered, x.2 ≠ 0 := by
    intro x hx
    rw [hdelivered, List.drop_one, Endpoint.first, List.tail_zipIdx] at hx
    exact Nat.ne_of_gt (List.le_snd_of_mem_zipIdx hx)
  have hfirst : ∀ n, n + 1 ≤ s.endpoint.reports.length →
      s.delivered ≠ s.endpoint.first (n + 1) := by
    intro n hn heq
    have hpos : 0 < (s.endpoint.first (n + 1)).length := by
      rw [Endpoint.length_first hn]
      exact Nat.succ_pos n
    have hmem : (s.endpoint.first (n + 1))[0] ∈ s.delivered := by
      rw [heq]
      exact List.getElem_mem hpos
    apply hnumber _ hmem
    simp [Endpoint.first]
  constructor
  · rintro (heq | ⟨hlt, heq⟩)
    · cases hacked : s.endpoint.acked with
      | zero => rfl
      | succ n =>
        rw [hacked] at heq
        exact absurd heq (hfirst n (hacked ▸ h.acked_le))
    · exact absurd heq (hfirst _ hlt)
  · intro hacked
    left
    rw [hdelivered, hacked]
    refine List.drop_eq_nil_of_le ?_
    rw [Endpoint.first, List.length_zipIdx, List.length_map]
    refine Nat.le_trans (List.length_take_le _ _) ?_
    unfold taken
    split_ifs
    · exact Nat.le_refl 1
    · exact Nat.zero_le 1

/-- **Delivery of reports.**  The calls hand over what the device considers acknowledged, exactly
if the PID remembered at the start is not the one the device starts with; if it is, as after a
bus reset, they do so only as long as nothing is acknowledged at all. -/
theorem inToggle_iff {addr endp : ℕ} (haddr : addr < maxAddresses) (hendp : endp < maxEndpoints)
    (pids : LastDataPids) (reports : List Report) (events : List Event)
    (hfits : ∀ e ∈ events, e.Fits addr endp) :
    ((run (Polling.step addr endp) ⟨⟨reports, 0⟩, pids, []⟩ events).Delivers ↔
      (pids addr endp).recv ≠ pidData0 ∨
        (run (Polling.step addr endp) ⟨⟨reports, 0⟩, pids, []⟩ events).endpoint.acked = 0) ∧
    (usb10BusReset pids addr endp).recv = pidData0 := by
  have hrun := inStep_run haddr hendp pids reports hfits
  constructor
  · by_cases hpid : (pids addr endp).recv = pidData0
    · have hskip : taken (pids addr endp).recv 0 = 1 := if_pos hpid
      rw [hskip] at hrun
      rw [hrun.delivers_iff]
      exact ⟨Or.inr, fun h => h.resolve_left fun hne => hne hpid⟩
    · have hskip : taken (pids addr endp).recv 0 = 0 := if_neg hpid
      rw [hskip] at hrun
      exact iff_of_true hrun.delivers (Or.inl hpid)
  · exact congrArg LastDataPid.recv (if_pos ⟨haddr, hendp⟩)

instance (s : Polling) : Decidable s.Delivers := inferInstanceAs (Decidable (_ ∨ _))

/-- A key is pressed: its report, and a call that gets it at once. -/
def keyPress : Report := ⟨[0, 0, 4, 0, 0, 0, 0, 0], by decide⟩

theorem inToggle_iff_keyPress :
    (run (Polling.step 1 1) ⟨⟨[], 0⟩, fun _ _ => ⟨pidData1, pidData1⟩, []⟩
      [.poll 8 (fun _ => 0) [⟨[keyPress], false, .none, true⟩],
        .poll 8 (fun _ => 0) [⟨[], false, .none, false⟩]]).Delivers :=
  ((inToggle_iff (by decide) (by decide) (fun _ _ => ⟨pidData1, pidData1⟩) [] _ (by
    intro e he
    simp only [List.mem_cons, List.not_mem_nil, or_false] at he
    rcases he with rfl | rfl <;> exact ⟨by decide, by decide⟩)).1).mpr (Or.inl (by decide))

/-- After a bus reset the first key is lost: the device has its ACK, and no call returned it. -/
theorem inToggle_firstKey_lost :
    ¬ (run (Polling.step 1 1)
      ⟨⟨[], 0⟩, usb10BusReset fun _ _ => ⟨0, 0⟩, []⟩
      [.poll 8 (fun _ => 0)
        [⟨[keyPress], false, .none, false⟩, ⟨[], false, .none, false⟩]]).Delivers := by
  decide +kernel

end Karnix.Usb
