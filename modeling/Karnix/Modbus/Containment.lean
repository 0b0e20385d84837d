import Karnix.Modbus.Effects
import Karnix.Modbus.RoundTrip

/-!
# Requests stay within their data

A request is contained if it reads bytes of its own frame only, and writes only the register it
addresses, the transmit buffer, its answer inside the frame, the ring of the DAC and the
framebuffer of the video mode.  Most registers take it for granted that the frame is long enough,
and the offset of `REG_FRAMEBUFFER` is not checked at all.

What the rest of the firmware keeps up is an invariant of the state: the frame size that goes with
the video mode, a matrix that fits its framebuffer, and the indices of the ring.
-/

namespace Karnix.Modbus

open Karnix.Library
open Karnix.Config
open Karnix.Video
open Karnix.Audio

variable {b : Build}

/-! ## Section 1: States of the firmware -/

/-- What holds of the variables between two requests. -/
structure Soc.Consistent (soc : Soc b) : Prop where
  frameSize : soc.regVideoFrameSize.toNat = soc.fbSize
  matrix : soc.hub.frame.width * soc.hub.frame.height ≤ hubFramebufferSize
  ring : soc.audiodac0.ringNull = true ∨ soc.audiodac0.WellFormed

/-- What the firmware does between requests: the main loop, and the driver of the DAC. -/
inductive Activity where
  | modbus (e : Event)
  | startPlayback (ring : Memory Sample) (size : ℕ) (hw : DacStatus)
  | dacInterrupt (hw : DacStatus)

def activity (soc : Soc b) : Activity → Soc b
  | .modbus e => step soc e
  | .startPlayback ring size hw =>
    { soc with audiodac0 := audiodac0StartPlayback ring size hw soc.audiodac0 }
  | .dacInterrupt hw => { soc with audiodac0 := (audiodac0Isr hw soc.audiodac0).2 }

/-- The state after power-up, with any configuration and any EEPROM. -/
def boot (config : Config b.parts) (eeprom : Memory Byte) : Soc b where
  activeConfig := config
  eeprom := eeprom

theorem consistent_boot (config : Config b.parts) (eeprom : Memory Byte) :
    (boot config eeprom).Consistent where
  frameSize := rfl
  matrix := Nat.zero_le _
  ring := Or.inl rfl

/-- The ring exists with both indices inside, or there is none. -/
def RingOk (d : AudioDac) : Prop := d.ringNull = true ∨ d.WellFormed

theorem ringOk_isr (hw : DacStatus) {d : AudioDac} (h : RingOk d) :
    RingOk (audiodac0Isr hw d).2 := by
  rcases h with hnull | hwf
  · left
    rw [(audiodac0Isr_ring hw d).2]
    exact hnull
  · right
    obtain ⟨k, -, hdrain⟩ := audiodac0Isr_drained hw hwf
    constructor
    · rw [hdrain.playbackPtr, hdrain.ringSize]
      exact Nat.mod_lt _ (Nat.zero_lt_of_lt hwf.playback_lt)
    · rw [hdrain.fillPtr, hdrain.ringSize]
      exact hwf.fill_lt

theorem wellFormed_submitCopy (buf : List Sample) {d : AudioDac} (h : d.WellFormed) :
    (submitCopy buf d).2.WellFormed := by
  have hp := h.playback_lt
  have hf := h.fill_lt
  have hmod : (d.fillPtr + min buf.length (d.ringSize - d.fillPtr)) % d.ringSize < d.ringSize :=
    Nat.mod_lt _ (Nat.zero_lt_of_lt hp)
  simp only [submitCopy]
  split_ifs with hahead hhigh
  · exact ⟨hp, Nat.lt_of_le_of_lt (Nat.min_le_right _ _) hp⟩
  · exact ⟨hp, hmod⟩
  · refine ⟨hp, ?_⟩
    show d.fillPtr + min buf.length (d.playbackPtr - d.fillPtr - 1) < d.ringSize
    omega

theorem ringOk_submit (buf : List Sample) (restart : Option DacStatus) {d : AudioDac}
    (h : RingOk d) : RingOk (audiodac0SubmitBuffer buf restart d).2 := by
  unfold audiodac0SubmitBuffer submitCritical
  split_ifs with hcheck
  · rcases h with hnull | hwf
    · -- without a ring the tests fail
      simp [submitCheck, hnull] at hcheck
    · have hcopied := wellFormed_submitCopy buf hwf
      cases restart with
      | none => exact Or.inr hcopied
      | some hw => exact ringOk_isr hw (Or.inr hcopied)
  · exact h

theorem ringOk_start (ring : Memory Sample) (size : ℕ) (hw : DacStatus) {d : AudioDac}
    (h : RingOk d) : RingOk (audiodac0StartPlayback ring size hw d) := by
  unfold audiodac0StartPlayback
  split_ifs with hsize
  · exact h
  · refine ringOk_isr hw (Or.inr ⟨?_, ?_⟩)
    · exact Nat.lt_of_lt_of_le (show 0 < 10 by decide) (Nat.le_of_not_lt hsize)
    · exact Nat.lt_of_lt_of_le (show 0 < 10 by decide) (Nat.le_of_not_lt hsize)

theorem hubInit_matrix {type : ℕ} {hub hub' : HubState} (h : hubInit type hub = some hub') :
    hub'.frame.width * hub'.frame.height ≤ hubFramebufferSize := by
  obtain ⟨c, hc, rfl⟩ := Option.map_eq_some_iff.mp h
  have htable : ∀ c ∈ hubConfigs,
      c.matrixWidth * (c.matrixPlanes * c.matrixRowsPerPlane) ≤ hubFramebufferSize := by decide
  exact htable c (List.mem_of_find?_eq_some hc)

/-- A register write keeps the state consistent. -/
theorem consistent_storeSwitch (io : RequestIo) {soc : Soc b} (h : soc.Consistent)
    (reg : Option Reg) (data : Memory Byte) (dataLen : ℕ) :
    (storeSwitch io soc reg data dataLen).soc.Consistent := by
  have hadd := storeSwitch_addressed io soc reg data dataLen
  refine ⟨?_, ?_, ?_⟩
  · by_cases hreg : reg = some .videoMode
    · subst hreg
      -- mode and frame size are set together
      have hset : ∀ mode : BitVec 32, (BitVec.ofNat 32 (if mode = videoModeHub then
          hubFramebufferSize else cgaFramebufferSize)).toNat =
            if mode = videoModeHub then hubFramebufferSize else cgaFramebufferSize := by
        intro mode
        split_ifs <;> rfl
      exact hset _
    · obtain ⟨hmode, hsize⟩ := hadd.videoMode hreg
      rw [hsize, h.frameSize, Soc.fbSize, Soc.fbSize, hmode]
  · by_cases hreg : reg = some .hubType
    · subst hreg
      simp only [storeSwitch]
      split_ifs with hhub
      · cases hinit : hubInit (data 3).toNat soc.hub with
        | none => exact h.matrix
        | some hub => exact hubInit_matrix hinit
      · exact h.matrix
    · rw [hadd.hubFrame hreg]
      exact h.matrix
  · by_cases hreg : reg = some .audiodac0Buffer
    · subst hreg
      exact ringOk_submit _ io.dac h.ring
    · rw [hadd.audiodac0 hreg]
      exact h.ring

/-- **Step lemma.**  Whatever the firmware does keeps its state consistent. -/
theorem consistent_activity {soc : Soc b} (h : soc.Consistent) (a : Activity) :
    (activity soc a).Consistent := by
  cases a with
  | startPlayback ring size hw => exact ⟨h.frameSize, h.matrix, ringOk_start ring size hw h.ring⟩
  | dacInterrupt hw => exact ⟨h.frameSize, h.matrix, ringOk_isr hw h.ring⟩
  | modbus e =>
    cases e with
    | access =>
      show soc.access.Consistent
      unfold Soc.access
      cases soc.countDown <;> exact ⟨h.frameSize, h.matrix, h.ring⟩
    | request io rx tx =>
      show (modbusRecv io soc rx tx).soc.Consistent
      by_cases hacc : soc.Accepts rx
      · rw [modbusRecv_of_accepts hacc]
        rcases accept_cases io soc rx tx with ⟨-, heff⟩ | ⟨-, heff⟩
        · rw [heff]
          by_cases hlocked : soc.Locked rx.regAddr
          · rw [modbusStoreReg_of_locked io hlocked]
            exact h
          · rw [modbusStoreReg_of_not_locked io hlocked]
            exact consistent_storeSwitch io h _ _ _
        · rw [heff]
          exact h
      · rw [modbusRecv_of_not_accepts hacc]
        exact h

/-- **Run lemma.**  So the state is consistent whenever a request comes in. -/
theorem consistent_run {soc : Soc b} (h : soc.Consistent) (as : List Activity) :
    (run activity soc as).Consistent := by
  induction as generalizing soc with
  | nil => exact h
  | cons a as ih => exact ih (consistent_activity h a)

/-! ## Section 2: Containment -/

/-- `MODBUS_RX_BUF_SIZE`: the bytes of the receive buffer of the serial line. -/
def modbusRxBufSize : ℕ := 128

/-- The request is one of the write functions. -/
def Frame.Writes (rx : Frame) : Prop := (Func.ofCode? rx.func).any Func.isWrite

/-- The cells lie in the frame, behind its header where it is written to, in the transmit buffer, in
the framebuffer of the video mode, and in the ring of the DAC. -/
structure Footprint.Inside (cells : Footprint) (soc : Soc b) (len : ℕ) : Prop where
  rxReads : ∀ i ∈ cells.rxReads, i < len
  rxWrites : ∀ i ∈ cells.rxWrites, 7 ≤ i ∧ i < len
  txWrites : ∀ i ∈ cells.txWrites, i < modbusTxBufSize
  fbWrites : ∀ a ∈ cells.fbWrites, a < soc.fbSize
  ringWrites : ∀ i ∈ cells.ringWrites, i < soc.audiodac0.ringSize

/-- A request that reads and writes what it may. -/
structure Contained (io : RequestIo) (soc : Soc b) (rx : Frame) (tx : Memory Byte) : Prop where
  inside : (recvFootprint io soc rx).Inside soc rx.len
  /-- The length of the data does not wrap. -/
  dataLen : rx.Writes → (rx.dataLen : ℤ) = (rx.len : ℤ) - 2 - 7
  addressed : Addressed (recvFootprint io soc rx) (Reg.ofAddr? rx.regAddr) soc
    (modbusRecv io soc rx tx).soc
  unchanged : ¬ rx.Writes → (modbusRecv io soc rx tx).soc = soc

/-- The number of data bytes a register takes for granted. -/
def Reg.need (b : Build) : Reg → ℕ
  | .framebuffer => 2
  | .scratch | .configWrite | .color | .videoMode | .audiodac0Buffer => 4
  | .mbusAddr | .mbusBaud | .configOptions => 4
  | .printText => 6
  | .hubType => if b.hasHub then 4 else 0
  | .ipAddr | .gwAddr | .netmask => if b.hasMac then 4 else 0
  | .macAddr => if b.hasMac then 6 else 0
  | .clearText | .reboot | .sysCounter | .irqCounter => 0

/-- The words of a `REG_FRAMEBUFFER` write end inside the framebuffer. -/
def Soc.FbFits (soc : Soc b) (data : Memory Byte) (dataLen : ℕ) : Prop :=
  soc.wordsToCopy dataLen = 0 ∨
    (be16 (data 0) (data 1)).toNat + 4 * soc.wordsToCopy dataLen ≤ soc.fbSize

/-- A register write that finds the data it needs. -/
def Soc.Fed (soc : Soc b) (reg : Option Reg) (data : Memory Byte) (len : ℕ) : Prop :=
  ∀ r, reg = some r → 7 + r.need b ≤ len ∧ (r = .framebuffer → soc.FbFits data (len - 9))

/-- The frame is long enough for what the request does with it. -/
def Frame.WellSized (soc : Soc b) (rx : Frame) : Prop :=
  6 ≤ rx.len ∧
    (rx.Writes →
      9 ≤ rx.len ∧ (soc.Locked rx.regAddr ∨ soc.Fed (Reg.ofAddr? rx.regAddr) rx.data rx.len))

/-! ### Footprints inside -/

variable {soc : Soc b} {len : ℕ}

theorem inside_append {p q : Footprint} :
    (p ++ q).Inside soc len ↔ p.Inside soc len ∧ q.Inside soc len := by
  constructor
  · rintro ⟨hread, hwrite, htx, hfb, hring⟩
    exact
      ⟨⟨fun i hi => hread i (List.mem_append_left _ hi),
        fun i hi => hwrite i (List.mem_append_left _ hi),
        fun i hi => htx i (List.mem_append_left _ hi),
        fun i hi => hfb i (List.mem_append_left _ hi),
        fun i hi => hring i (List.mem_append_left _ hi)⟩,
      ⟨fun i hi => hread i (List.mem_append_right _ hi),
        fun i hi => hwrite i (List.mem_append_right _ hi),
        fun i hi => htx i (List.mem_append_right _ hi),
        fun i hi => hfb i (List.mem_append_right _ hi),
        fun i hi => hring i (List.mem_append_right _ hi)⟩⟩
  · rintro ⟨hp, hq⟩
    exact
      ⟨fun i hi => (List.mem_append.mp hi).elim (hp.rxReads i) (hq.rxReads i),
        fun i hi => (List.mem_append.mp hi).elim (hp.rxWrites i) (hq.rxWrites i),
        fun i hi => (List.mem_append.mp hi).elim (hp.txWrites i) (hq.txWrites i),
        fun i hi => (List.mem_append.mp hi).elim (hp.fbWrites i) (hq.fbWrites i),
        fun i hi => (List.mem_append.mp hi).elim (hp.ringWrites i) (hq.ringWrites i)⟩

theorem inside_nothing : ({} : Footprint).Inside soc len :=
  ⟨nofun, nofun, nofun, nofun, nofun⟩

/-- A piece of code that only reads the request. -/
theorem inside_reads {is : List ℕ} :
    ({ rxReads := is } : Footprint).Inside soc len ↔ ∀ i ∈ is, i < len :=
  ⟨fun h => h.rxReads, fun h => ⟨h, nofun, nofun, nofun, nofun⟩⟩

/-- A piece of code that only writes to the transmit buffer. -/
theorem inside_tx {is : List ℕ} (h : ∀ i ∈ is, i < modbusTxBufSize) :
    ({ txWrites := is } : Footprint).Inside soc len :=
  ⟨nofun, nofun, h, nofun, nofun⟩

theorem dataCells_lt {is : List ℕ} : (∀ i ∈ dataCells is, i < len) ↔ ∀ i ∈ is, 7 + i < len :=
  List.forall_mem_map

theorem range_lt {n : ℕ} : (∀ i ∈ List.range n, 7 + i < len) ↔ n = 0 ∨ 7 + n ≤ len := by
  constructor
  · intro h
    rcases Nat.eq_zero_or_pos n with hzero | hpos
    · exact Or.inl hzero
    · right
      have hlast := h (n - 1) (List.mem_range.mpr (Nat.sub_lt hpos Nat.one_pos))
      omega
  · intro h i hi
    have hlt := List.mem_range.mp hi
    omega

theorem range'_lt {a n c : ℕ} : (∀ i ∈ List.range' a n, i < c) ↔ n = 0 ∨ a + n ≤ c := by
  constructor
  · intro h
    rcases Nat.eq_zero_or_pos n with hzero | hpos
    · exact Or.inl hzero
    · right
      have hlast := h (a + n - 1) (List.mem_range'_1.mpr (by omega))
      omega
  · intro h i hi
    have hlt := List.mem_range'_1.mp hi
    omega

theorem submitWrites_lt (hsoc : soc.Consistent) (n : ℕ) :
    ∀ i ∈ submitWrites n soc.audiodac0, i < soc.audiodac0.ringSize := by
  intro i hi
  unfold submitWrites at hi
  split_ifs at hi with hcheck hahead
  · rcases hsoc.ring with hnull | hwf
    · simp [submitCheck, hnull] at hcheck
    · have hp := hwf.playback_lt
      rcases List.mem_append.mp hi with hlow | hhigh
      · have hlt := List.mem_range'_1.mp hlow
        omega
      · have hlt := List.mem_range.mp hhigh
        omega
  · rcases hsoc.ring with hnull | hwf
    · simp [submitCheck, hnull] at hcheck
    · have hp := hwf.playback_lt
      have hlt := List.mem_range'_1.mp hi
      omega
  · exact absurd hi List.not_mem_nil

theorem drawn_lt (hsoc : soc.Consistent) : ∀ a ∈ soc.drawn, a < soc.fbSize := by
  intro a ha
  unfold Soc.drawn drawnBytes at ha
  split_ifs at ha with hhub hcga
  · simp only [Bool.and_eq_true, decide_eq_true_eq] at hhub
    have hmatrix := hsoc.matrix
    have hlt := List.mem_range.mp ha
    rw [Soc.fbSize, if_pos hhub.2]
    unfold hubFramebufferSize at hmatrix ⊢
    omega
  · simp only [Bool.and_eq_true, decide_eq_true_eq] at hcga
    have hmode : soc.regVideoMode ≠ videoModeHub := by
      rw [hcga.2]
      decide
    rw [Soc.fbSize, if_neg hmode]
    exact List.mem_range.mp ha
  · exact absurd ha List.not_mem_nil

theorem fed_some {r : Reg} {data : Memory Byte} :
    soc.Fed (some r) data len ↔
      7 + r.need b ≤ len ∧ (r = .framebuffer → soc.FbFits data (len - 9)) := by
  constructor
  · exact fun h => h r rfl
  · intro h r' hr'
    cases hr'
    exact h

/-- A register that only reads is inside exactly if the frame has the bytes it reads. -/
theorem reads_inside_iff {r : Reg} (hr : r ≠ .framebuffer) (data : Memory Byte) {is : List ℕ}
    (hneed : (∀ i ∈ is, 7 + i < len) ↔ 7 + r.need b ≤ len) :
    ({ rxReads := dataCells is } : Footprint).Inside soc len ↔ soc.Fed (some r) data len := by
  rw [inside_reads, dataCells_lt, hneed, fed_some]
  exact (and_iff_left fun heq => absurd heq hr).symm

theorem noCells_lt (hlen : 9 ≤ len) : (∀ i ∈ ([] : List ℕ), 7 + i < len) ↔ 7 + 0 ≤ len :=
  iff_of_true (fun _ hi => absurd hi List.not_mem_nil) (Nat.le_trans (by decide) hlen)

/-- A buffer of samples: the samples that are submitted land in the ring, and how full it is
and its size are answered in the first four bytes, which must be there. -/
theorem audio_inside_iff (hsoc : soc.Consistent) (data : Memory Byte) :
    (switchFootprint soc (some .audiodac0Buffer) data (len - 9)).Inside soc len ↔
      soc.Fed (some .audiodac0Buffer) data len := by
  rw [fed_some]
  constructor
  · intro hin
    have hlast := hin.rxWrites (7 + 3) (mem_dataCells.mpr (by decide))
    refine ⟨?_, nofun⟩
    show 7 + 4 ≤ len
    omega
  · intro hfed
    have hle : 7 + 4 ≤ len := hfed.1
    refine ⟨?_, ?_, nofun, nofun, submitWrites_lt hsoc _⟩
    · show ∀ i ∈ dataCells (List.range (2 * ((len - 9) / 2))), i < len
      rw [dataCells_lt, range_lt]
      omega
    · intro i hi
      obtain ⟨k, hk, rfl⟩ := List.mem_map.mp hi
      have hlt := List.mem_range.mp hk
      omega

/-- The framebuffer: the words that are copied come from the frame, and the place they go to
is the sender's choice. -/
theorem framebuffer_inside_iff (data : Memory Byte) (hlen : 9 ≤ len) :
    (switchFootprint soc (some .framebuffer) data (len - 9)).Inside soc len ↔
      soc.Fed (some .framebuffer) data len := by
  have hwords : 4 * soc.wordsToCopy (len - 9) ≤ len - 9 - 2 := by
    unfold Soc.wordsToCopy
    omega
  rw [fed_some]
  constructor
  · intro hin
    have hfb := range'_lt.mp hin.fbWrites
    refine ⟨show 7 + 2 ≤ len from hlen, fun _ => ?_⟩
    unfold Soc.FbFits
    omega
  · intro hfed
    have hfits := hfed.2 rfl
    unfold Soc.FbFits at hfits
    refine ⟨?_, nofun, nofun, ?_, nofun⟩
    · show ∀ i ∈ dataCells (List.range (2 + 4 * soc.wordsToCopy (len - 9))), i < len
      rw [dataCells_lt, range_lt]
      omega
    · refine range'_lt.mpr ?_
      omega

/-- Text to print: the position and the colours are read without a look at the length, the
text only as far as the frame goes. -/
theorem printText_inside_iff (hsoc : soc.Consistent) (data : Memory Byte) :
    (switchFootprint soc (some .printText) data (len - 9)).Inside soc len ↔
      soc.Fed (some .printText) data len := by
  rw [fed_some]
  constructor
  · intro hin
    have hlast := hin.rxReads (7 + 5)
      (mem_dataCells.mpr (List.mem_append_left _ (List.mem_range.mpr (by decide))))
    refine ⟨?_, nofun⟩
    show 7 + 6 ≤ len
    omega
  · intro hfed
    have hle : 7 + 6 ≤ len := hfed.1
    refine ⟨?_, nofun, nofun, ?_, nofun⟩
    · refine dataCells_lt.mpr fun i hi => ?_
      rcases List.mem_append.mp hi with hfirst | htext
      · have hlt := List.mem_range.mp hfirst
        omega
      · split_ifs at htext
        · exact absurd htext List.not_mem_nil
        · have hlt := List.mem_range'_1.mp htext
          omega
    · show ∀ a ∈ (if len - 9 < 1 then [] else soc.drawn), a < soc.fbSize
      split_ifs
      · exact fun _ ha => absurd ha List.not_mem_nil
      · exact drawn_lt hsoc

/-- A register of the configuration that only some builds have. -/
theorem optional_inside_iff {r : Reg} {has : Bool} {is : List ℕ} {n : ℕ} (hr : r ≠ .framebuffer)
    (data : Memory Byte) (hlen : 9 ≤ len) (hneed : r.need b = if has then n else 0)
    (hcells : (∀ i ∈ is, 7 + i < len) ↔ 7 + n ≤ len) :
    ({ rxReads := dataCells (if has then is else []) } : Footprint).Inside soc len ↔
      soc.Fed (some r) data len := by
  refine reads_inside_iff hr data ?_
  rw [hneed]
  cases has with
  | false => exact noCells_lt hlen
  | true => exact hcells

/-- The footprint of a register write is inside exactly if it finds the data it needs. -/
theorem switch_inside_iff (hsoc : soc.Consistent) (reg : Option Reg) (data : Memory Byte)
    (hlen : 9 ≤ len) :
    (switchFootprint soc reg data (len - 9)).Inside soc len ↔ soc.Fed reg data len := by
  have hfour : (∀ i ∈ List.range 4, 7 + i < len) ↔ 7 + 4 ≤ len := by
    rw [range_lt]
    omega
  have hsix : (∀ i ∈ List.range 6, 7 + i < len) ↔ 7 + 6 ≤ len := by
    rw [range_lt]
    omega
  -- most registers of a byte read the last one of four
  have hthree : (∀ i ∈ [3], 7 + i < len) ↔ 7 + 4 ≤ len := by
    rw [List.forall_mem_singleton]
    omega
  cases reg with
  | none => exact iff_of_true inside_nothing fun r hr => nomatch hr
  | some r =>
    cases r with
    | clearText =>
      -- no data at all: the screen is cleared to the size the mode has
      refine iff_of_true ⟨nofun, nofun, nofun, ?_, nofun⟩
        (fed_some.mpr ⟨Nat.le_trans (show 7 ≤ 9 by decide) hlen, nofun⟩)
      show ∀ a ∈ List.range' 0 soc.regVideoFrameSize.toNat, a < soc.fbSize
      rw [range'_lt, hsoc.frameSize]
      omega
    | reboot | sysCounter | irqCounter =>
      exact reads_inside_iff (by decide) data (noCells_lt hlen)
    | audiodac0Buffer => exact audio_inside_iff hsoc data
    | framebuffer => exact framebuffer_inside_iff data hlen
    | printText => exact printText_inside_iff hsoc data
    | scratch | configWrite | mbusBaud => exact reads_inside_iff (by decide) data hfour
    | color | videoMode | mbusAddr | configOptions =>
      exact reads_inside_iff (by decide) data hthree
    | hubType => exact optional_inside_iff (by decide) data hlen rfl hthree
    | ipAddr | gwAddr | netmask => exact optional_inside_iff (by decide) data hlen rfl hfour
    | macAddr => exact optional_inside_iff (by decide) data hlen rfl hsix

/-! ## Section 3: Every request -/

theorem error_inside : errorFootprint.Inside soc len :=
  inside_tx (range'_lt.mpr (Or.inr (by decide)))

theorem id_inside : (idFootprint b).Inside soc len := by
  have hlen := length_idText_le b
  refine inside_tx fun i hi => ?_
  show i < 128
  rcases List.mem_append.mp hi with hi | hi
  · rcases List.mem_append.mp hi with hi | hi
    · have hlt := List.mem_range'_1.mp hi
      omega
    · have hlt := List.mem_range'_1.mp hi
      omega
  · have hlt := List.mem_range'_1.mp hi
    omega

theorem read_inside (io : RequestIo) (rx : Frame) :
    (readFootprint io soc rx).Inside soc len := by
  unfold readFootprint
  split_ifs
  · exact error_inside
  · cases hreg : readReg io soc (Reg.ofAddr? rx.regAddr) with
    | none => exact inside_tx (by decide)
    | some r =>
      obtain ⟨hfit, hsix⟩ := readReg_fits hreg
      refine inside_tx fun i hi => ?_
      show i < 128
      rcases List.mem_append.mp hi with hi | hi
      · rcases List.mem_append.mp hi with hi | hi
        · have hlt := List.mem_range'_1.mp hi
          omega
        · have hlt := List.mem_range'_1.mp hi
          omega
      · have hlt := List.mem_range'_1.mp hi
        omega

/-- The answer of a write: header and data are in the frame if the data are. -/
theorem answer_inside {ret : ℤ} (hlen : 6 ≤ len) (hret : ret ≤ 4) (hdata : 0 < ret → 11 ≤ len) :
    (answerFootprint ret).Inside soc len := by
  unfold answerFootprint
  split_ifs with hneg
  · exact error_inside
  · refine ⟨fun i hi => ?_, nofun, fun i hi => ?_, nofun, nofun⟩
    · rcases List.mem_append.mp hi with hi | hi
      · have hlt := List.mem_range'_1.mp hi
        omega
      · have hlt := List.mem_range'_1.mp hi
        omega
    · show i < 128
      rcases List.mem_append.mp hi with hi | hi
      · rcases List.mem_append.mp hi with hi | hi
        · have hlt := List.mem_range'_1.mp hi
          omega
        · have hlt := List.mem_range'_1.mp hi
          omega
      · have hlt := List.mem_range'_1.mp hi
        omega

/-- Only `REG_AUDIODAC0_BUFFER` puts data into the answer. -/
theorem storeSwitch_ret (io : RequestIo) (soc : Soc b) (reg : Option Reg) (data : Memory Byte)
    (dataLen : ℕ) :
    (storeSwitch io soc reg data dataLen).ret ≤ 0 ∨ reg = some .audiodac0Buffer := by
  cases reg with
  | none => exact Or.inl (show (-1 : ℤ) ≤ 0 by decide)
  | some r =>
    cases r with
    | audiodac0Buffer => exact Or.inr rfl
    | clearText | framebuffer | scratch | configWrite | color | videoMode | reboot =>
      exact Or.inl (le_refl 0)
    | printText =>
      left
      simp only [storeSwitch]
      split_ifs
      · exact (by decide : (-3 : ℤ) ≤ 0)
      · exact le_refl 0
    | hubType =>
      left
      simp only [storeSwitch]
      split_ifs
      · cases hubInit (data 3).toNat soc.hub with
        | none => exact (by decide : (-2 : ℤ) ≤ 0)
        | some hub => exact storeConfig_ret_le io _ _ _
      · exact (by decide : (-1 : ℤ) ≤ 0)
    | sysCounter | irqCounter | ipAddr | gwAddr | netmask | mbusAddr | mbusBaud | macAddr
    | configOptions =>
      left
      simp only [storeSwitch]
      split
      · exact storeConfig_ret_le io soc _ _
      · exact (by decide : (-1 : ℤ) ≤ 0)

/-- The footprint of `modbus_store_reg` and of the answer to it. -/
theorem store_inside_iff (hsoc : soc.Consistent) (io : RequestIo) (reg : BitVec 16)
    (data : Memory Byte) (hlen : 9 ≤ len) :
    (storeFootprint soc reg data (len - 9) ++
        answerFootprint (modbusStoreReg io soc reg data (len - 9)).ret).Inside soc len ↔
      soc.Locked reg ∨ soc.Fed (Reg.ofAddr? reg) data len := by
  have hsix : 6 ≤ len := Nat.le_trans (by decide) hlen
  rw [inside_append]
  unfold storeFootprint
  by_cases hlocked : soc.Locked reg
  · rw [if_pos hlocked, modbusStoreReg_of_locked io hlocked]
    have hanswer : (answerFootprint (-2)).Inside soc len :=
      answer_inside hsix (by decide) fun hpos => absurd hpos (by decide)
    exact iff_of_true ⟨inside_nothing, hanswer⟩ (Or.inl hlocked)
  · rw [if_neg hlocked, switch_inside_iff hsoc _ data hlen, or_iff_right hlocked]
    refine and_iff_left_of_imp fun hfed => ?_
    refine answer_inside hsix (modbusStoreReg_ret_le io soc reg data _) fun hpos => ?_
    rw [modbusStoreReg_of_not_locked io hlocked] at hpos
    rcases storeSwitch_ret io soc (Reg.ofAddr? reg) data (len - 9) with hret | hreg
    · exact absurd hpos (not_lt.mpr hret)
    · exact (hfed _ hreg).1

/-- The part of `modbus_recv` before its `switch`. -/
theorem head_inside_iff :
    ({ rxReads := List.range ((len - 2) % 2 ^ 16) ++ [len - 1, len - 2, 0, 1, 2, 3, 4, 5]
       txWrites := List.range' 0 modbusTxBufSize ++ List.range' 0 2 } : Footprint).Inside soc len ↔
      6 ≤ len := by
  constructor
  · intro hin
    exact hin.rxReads 5 (List.mem_append_right _ (by simp))
  · intro hsix
    have htx : ∀ i ∈ List.range' 0 modbusTxBufSize ++ List.range' 0 2, i < modbusTxBufSize := by
      intro i hi
      rcases List.mem_append.mp hi with hi | hi
      · exact range'_lt.mpr (Or.inr (by decide)) i hi
      · exact range'_lt.mpr (Or.inr (by decide)) i hi
    refine ⟨fun i hi => ?_, nofun, htx, nofun, nofun⟩
    rcases List.mem_append.mp hi with hi | hi
    · -- the check-sum is computed over less than the frame
      have hlt := List.mem_range.mp hi
      have hmod := Nat.mod_le (len - 2) (2 ^ 16)
      omega
    · simp only [List.mem_cons, List.not_mem_nil, or_false] at hi
      omega

theorem dataLen_of_le {rx : Frame} (hmin : 9 ≤ rx.len) (hmax : rx.len ≤ modbusRxBufSize) :
    rx.dataLen = rx.len - 9 := by
  unfold modbusRxBufSize at hmax
  unfold Frame.dataLen
  omega

theorem FbKept.mono {cells cells' : List ℕ} (hsub : cells ⊆ cells') {soc soc' : Soc b}
    (h : FbKept cells soc soc') : FbKept cells' soc soc' := by
  unfold FbKept at h ⊢
  split_ifs at h ⊢
  · exact ⟨fun a ha => h.1 a fun hmem => ha (hsub hmem), h.2⟩
  · exact ⟨fun a ha => h.1 a fun hmem => ha (hsub hmem), h.2⟩

theorem Addressed.mono {cells cells' : Footprint} (hfb : cells.fbWrites ⊆ cells'.fbWrites)
    (hring : cells.ringWrites ⊆ cells'.ringWrites) {reg : Option Reg} {soc soc' : Soc b}
    (h : Addressed cells reg soc soc') : Addressed cells' reg soc soc' :=
  { h with
    framebuffer := fun hne => (h.framebuffer hne).mono hfb
    ring := fun i hi => h.ring i fun hmem => hi (hring hmem) }

theorem modbusStoreReg_addressed (io : RequestIo) (soc : Soc b) (reg : BitVec 16)
    (data : Memory Byte) (dataLen : ℕ) :
    Addressed (storeFootprint soc reg data dataLen) (Reg.ofAddr? reg) soc
      (modbusStoreReg io soc reg data dataLen).soc := by
  by_cases hlocked : soc.Locked reg
  · rw [modbusStoreReg_of_locked io hlocked]
    exact Addressed.refl _ _ soc
  · unfold storeFootprint
    rw [if_neg hlocked, modbusStoreReg_of_not_locked io hlocked]
    exact storeSwitch_addressed io soc _ data dataLen

/-- A request that is not a write changes no variable and touches no cell outside `tx_buf`. -/
theorem contained_of_not_writes {rx : Frame} (h : soc.Accepts rx) (hwrites : ¬ rx.Writes)
    (io : RequestIo) (tx : Memory Byte) : Contained io soc rx tx ↔ 6 ≤ rx.len := by
  have hsoc : (modbusRecv io soc rx tx).soc = soc := by
    rw [modbusRecv_of_accepts h]
    rcases accept_cases io soc rx tx with ⟨hwrite, -⟩ | ⟨-, heff⟩
    · exact absurd hwrite hwrites
    · exact heff
  have hinside : (recvFootprint io soc rx).Inside soc rx.len ↔ 6 ≤ rx.len := by
    unfold recvFootprint
    rw [inside_append, head_inside_iff]
    refine and_iff_left ?_
    unfold Frame.Writes at hwrites
    cases hf : Func.ofCode? rx.func with
    | none => exact error_inside
    | some f =>
      rw [hf] at hwrites
      cases f with
      | id => exact id_inside
      | readCoils | readDiscInput | readHoldRegs => exact read_inside io rx
      | writeOneCoilReg | writeOneHoldReg | writeManyCoilReg | writeManyHoldReg =>
        exact absurd rfl hwrites
  constructor
  · exact fun hcont => hinside.mp hcont.inside
  · intro hsix
    refine ⟨hinside.mpr hsix, fun hw => absurd hw hwrites, ?_, fun _ => hsoc⟩
    rw [hsoc]
    exact Addressed.refl _ _ soc

/-- All write functions have the same footprint. -/
theorem recvFootprint_of_writes (io : RequestIo) (soc : Soc b) {rx : Frame}
    (hwrites : rx.Writes) :
    ∃ head : Footprint, (head.Inside soc rx.len ↔ 6 ≤ rx.len) ∧
      recvFootprint io soc rx = head ++ (storeFootprint soc rx.regAddr rx.data rx.dataLen ++
        answerFootprint (modbusStoreReg io soc rx.regAddr rx.data rx.dataLen).ret) := by
  refine ⟨_, head_inside_iff, ?_⟩
  unfold recvFootprint
  unfold Frame.Writes at hwrites
  cases hf : Func.ofCode? rx.func with
  | none =>
    rw [hf] at hwrites
    exact absurd hwrites Bool.false_ne_true
  | some f =>
    rw [hf] at hwrites
    cases f with
    | id | readCoils | readDiscInput | readHoldRegs => exact absurd hwrites Bool.false_ne_true
    | writeOneCoilReg | writeOneHoldReg | writeManyCoilReg | writeManyHoldReg => rfl

/-- The write functions stay where they may if the `switch` does. -/
theorem contained_of_writes (hsoc : soc.Consistent) {rx : Frame} (h : soc.Accepts rx)
    (hmax : rx.len ≤ modbusRxBufSize) (hwrites : rx.Writes) (io : RequestIo) (tx : Memory Byte) :
    Contained io soc rx tx ↔ 6 ≤ rx.len ∧ 9 ≤ rx.len ∧
      (soc.Locked rx.regAddr ∨ soc.Fed (Reg.ofAddr? rx.regAddr) rx.data rx.len) := by
  obtain ⟨head, hhead, hcells⟩ := recvFootprint_of_writes io soc hwrites
  constructor
  · intro hcont
    have hdata := hcont.dataLen hwrites
    have hnine : 9 ≤ rx.len := by omega
    have hinside := hcont.inside
    rw [hcells, dataLen_of_le hnine hmax, inside_append,
      store_inside_iff hsoc io rx.regAddr rx.data hnine] at hinside
    exact ⟨hhead.mp hinside.1, hnine, hinside.2⟩
  · rintro ⟨hsix, hnine, hfed⟩
    refine ⟨?_, fun _ => ?_, ?_, fun hno => absurd hwrites hno⟩
    · rw [hcells, dataLen_of_le hnine hmax, inside_append,
        store_inside_iff hsoc io rx.regAddr rx.data hnine]
      exact ⟨hhead.mpr hsix, hfed⟩
    · rw [dataLen_of_le hnine hmax]
      omega
    · have heff : (modbusRecv io soc rx tx).soc =
          (modbusStoreReg io soc rx.regAddr rx.data rx.dataLen).soc := by
        rw [modbusRecv_of_accepts h]
        rcases accept_cases io soc rx tx with ⟨-, heff⟩ | ⟨hread, -⟩
        · exact heff
        · exact absurd (hwrites.symm.trans hread) (by decide)
      rw [heff, hcells]
      refine (modbusStoreReg_addressed io soc rx.regAddr rx.data rx.dataLen).mono ?_ ?_
      · exact fun a ha => List.mem_append_right _ (List.mem_append_left _ ha)
      · exact fun i hi => List.mem_append_right _ (List.mem_append_left _ hi)

/-! ### What containment means -/

/-- What lies behind the frame in the receive buffer does not matter to a contained request. -/
theorem Contained.frameOnly {io : RequestIo} {rx rx' : Frame} {tx : Memory Byte}
    (h : Contained io soc rx tx) (hlen : rx.len = rx'.len)
    (hbuf : ∀ i < rx.len, rx.buf i = rx'.buf i) : accept io soc rx tx = accept io soc rx' tx :=
  accept_congr hlen (fun i hi => hbuf i (h.inside.rxReads i hi)) tx

/-- Nothing behind the transmit buffer is overwritten. -/
theorem Contained.txBuf {io : RequestIo} {rx : Frame} {tx : Memory Byte}
    (h : Contained io soc rx tx) {k : ℕ} (hk : modbusTxBufSize ≤ k) :
    (accept io soc rx tx).1.tx k = tx k :=
  accept_keeps_tx io soc rx tx fun hmem =>
    absurd (h.inside.txWrites k hmem) (Nat.not_lt.mpr hk)

/-- The answer of a contained write stays in the frame. -/
theorem Contained.rxBuf {io : RequestIo} {rx : Frame} {tx : Memory Byte}
    (h : Contained io soc rx tx) (hwrites : rx.Writes) {k : ℕ} (hk : rx.len ≤ 7 + k) :
    (modbusStoreReg io soc rx.regAddr rx.data rx.dataLen).data k = rx.data k := by
  have hcells : 7 + k ∉ (storeFootprint soc rx.regAddr rx.data rx.dataLen).rxWrites := by
    intro hmem
    obtain ⟨head, hcells⟩ := recvFootprint_of_writes io soc hwrites
    have hinside := h.inside
    rw [hcells.2, inside_append, inside_append] at hinside
    exact absurd (hinside.2.1.rxWrites _ hmem).2 (Nat.not_lt.mpr hk)
  unfold storeFootprint at hcells
  by_cases hlocked : soc.Locked rx.regAddr
  · rw [modbusStoreReg_of_locked io hlocked]
  · rw [if_neg hlocked] at hcells
    rw [modbusStoreReg_of_not_locked io hlocked]
    exact storeSwitch_data io soc _ rx.data rx.dataLen hcells

/-- What containment means for the memory: what lies behind the frame in the receive buffer does
not matter, and nothing behind the transmit buffer or the frame is overwritten. -/
structure Frame.Confined (io : RequestIo) (soc : Soc b) (rx : Frame) (tx : Memory Byte) : Prop where
  frameOnly : ∀ rx' : Frame, rx.len = rx'.len → (∀ i < rx.len, rx.buf i = rx'.buf i) →
    accept io soc rx tx = accept io soc rx' tx
  txBuf : ∀ k, modbusTxBufSize ≤ k → (accept io soc rx tx).1.tx k = tx k
  rxBuf : rx.Writes → ∀ k, rx.len ≤ 7 + k →
    (modbusStoreReg io soc rx.regAddr rx.data rx.dataLen).data k = rx.data k

theorem Contained.confined {io : RequestIo} {rx : Frame} {tx : Memory Byte}
    (h : Contained io soc rx tx) : rx.Confined io soc tx :=
  ⟨fun _ => h.frameOnly, fun _ => h.txBuf, fun hwrites _ => h.rxBuf hwrites⟩

/-- **Containment.**  In every state the firmware can be in, an accepted request reads and writes
only what it may, exactly if its frame is long enough for what it does and a framebuffer write
ends inside the framebuffer; and then nothing outside of its buffers matters or changes. -/
theorem requests_contained_iff (config : Config b.parts) (eeprom : Memory Byte)
    (before : List Activity) (io : RequestIo) {rx : Frame} (tx : Memory Byte)
    (hmax : rx.len ≤ modbusRxBufSize) (h : (run activity (boot config eeprom) before).Accepts rx) :
    (Contained io (run activity (boot config eeprom) before) rx tx ↔
      rx.WellSized (run activity (boot config eeprom) before)) ∧
      (Contained io (run activity (boot config eeprom) before) rx tx →
        rx.Confined io (run activity (boot config eeprom) before) tx) := by
  refine ⟨?_, Contained.confined⟩
  have hsoc := consistent_run (consistent_boot config eeprom) before
  by_cases hwrites : rx.Writes
  · rw [contained_of_writes hsoc h hmax hwrites]
    exact and_congr_right fun _ => (imp_iff_right hwrites).symm
  · rw [contained_of_not_writes h hwrites]
    exact (and_iff_left fun hw => absurd hw hwrites).symm

/-- The state of the monitor after power-up. -/
def monitorBoot : Soc monitorBuild := boot (defaultConfig _) fun _ => 0xff

/-- A read of the lock register, after an access of the main loop to it. -/
theorem requests_contained_readLock :
    (Contained quietIo (run activity monitorBoot [.modbus .access]) (readFrame .configWrite)
        (fun _ => 0) ↔
      (readFrame .configWrite).WellSized (run activity monitorBoot [.modbus .access])) ∧
      (Contained quietIo (run activity monitorBoot [.modbus .access]) (readFrame .configWrite)
          (fun _ => 0) →
        (readFrame .configWrite).Confined quietIo (run activity monitorBoot [.modbus .access])
          fun _ => 0) :=
  requests_contained_iff _ _ [.modbus .access] quietIo (fun _ => 0) (by decide +kernel)
    ⟨by decide +kernel, by decide +kernel, by decide +kernel⟩

/-- A framebuffer write of one word at offset 65535, far behind the framebuffer, and a write of
`REG_SCRATCH` without data, whose data length wraps and whose value lies behind the frame. -/
theorem requests_not_contained :
    monitorBoot.Accepts (writeFrame .framebuffer [255, 255, 1, 2, 3, 4]) ∧
      65535 ∈ (recvFootprint quietIo monitorBoot
        (writeFrame .framebuffer [255, 255, 1, 2, 3, 4])).fbWrites ∧
      ¬ Contained quietIo monitorBoot (writeFrame .framebuffer [255, 255, 1, 2, 3, 4])
        (fun _ => 0) ∧
      monitorBoot.Accepts (frameOf [1, 6, 0, 32, 0, 1]) ∧
      (frameOf [1, 6, 0, 32, 0, 1]).dataLen = 65535 ∧
      ¬ Contained quietIo monitorBoot (frameOf [1, 6, 0, 32, 0, 1]) (fun _ => 0) := by
  have hfar : 65535 ∈ (recvFootprint quietIo monitorBoot
      (writeFrame .framebuffer [255, 255, 1, 2, 3, 4])).fbWrites := by decide +kernel
  have hbehind : 10 ∈ (recvFootprint quietIo monitorBoot
      (frameOf [1, 6, 0, 32, 0, 1])).rxReads := by decide +kernel
  refine ⟨⟨by decide +kernel, by decide +kernel, by decide +kernel⟩, hfar, ?_,
    ⟨by decide +kernel, by decide +kernel, by decide +kernel⟩, by decide +kernel, ?_⟩
  · intro hcont
    exact absurd (hcont.inside.fbWrites 65535 hfar) (by decide)
  · intro hcont
    exact absurd (hcont.inside.rxReads 10 hbehind) (by decide)

end Karnix.Modbus
