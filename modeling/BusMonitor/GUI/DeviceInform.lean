import BusMonitor.GUI.Edit
import BusMonitor.PC.Settings
/-!
# The device information page

The page shows the settings in edit widgets when it is created, and `Set`
reads all of them back, edited or not. Every text goes through one buffer
of five bytes: a number of five digits loses its last one. The list of the
rates has no 2400, so at this rate the page stands at its first item. Both
are values a set request takes; `deviceSet_neutral_iff` says that no other
setting is lost.
-/


namespace BusMonitor

open Mem Probe Stepwise

/-! ## The page -/

/-- The texts of the page's edit widgets, and the item of its drop-down. -/
structure DevicePage where
  year : List Char
  month : List Char
  data : List Char
  hour : List Char
  minute : List Char
  second : List Char
  ipAddr : Vector (List Char) 4
  subnetMask : Vector (List Char) 4
  gateway : Vector (List Char) 4
  remotePort : List Char
  commucateAddr : List Char
  remoteIP : Vector (List Char) 4
  vLow : List Char
  iHigh1 : List Char
  iHigh2 : List Char
  paThreshold : List Char
  vHigh : List Char
  frequencyLow : List Char
  frequencyHigh : List Char
  pbThreshold : List Char
  baudRate : Nat

/-- The text of a byte. -/
def byteText (b : UInt8) : List Char := printed b.toNat

/-- The text of a word. -/
def wordText (w : UInt16) : List Char := printed w.toNat

/-- A text through the page's buffer, into 8 bits. -/
def byteIn (text : List Char) : UInt8 := byteOf (editGetText text 5)

/-- A text through the page's buffer, into 16 bits. -/
def wordIn (text : List Char) : UInt16 := wordOf (editGetText text 5)

/-- The item the page selects for a rate, the first one where it selects
none. -/
def baudItem (usComBaud : UInt16) : Nat :=
  if usComBaud = 1200 then 0
  else if usComBaud = 4800 then 1
  else if usComBaud = 9600 then 2
  else if usComBaud = 19200 then 3
  else if usComBaud = 38400 then 4
  else 0

/-- The rate `Set` stores for an item. -/
def baudOfItem (usComBaud : UInt16) : Nat → UInt16
  | 0 => 1200
  | 1 => 4800
  | 2 => 9600
  | 3 => 19200
  | 4 => 38400
  | _ => usComBaud

namespace DevicePage

/-- `WM_INIT_DIALOG`. The widgets of the date and the time stay empty. -/
def create (o : Optimset) : DevicePage where
  year := []
  month := []
  data := []
  hour := []
  minute := []
  second := []
  ipAddr := o.ucIPAddr.map byteText
  subnetMask := o.ucIPMask.map byteText
  gateway := o.ucIPGateway.map byteText
  remotePort := wordText o.usDstIPPort
  commucateAddr := byteText o.ucComAddr
  remoteIP := o.usDstIPAddr.map byteText
  vLow := wordText o.usUVThr
  iHigh1 := byteText o.ucOCThrFst
  iHigh2 := byteText o.ucOCThrSec
  paThreshold := wordText (o.usOPThr.get 0)
  vHigh := wordText o.usOVThr
  frequencyLow := wordText o.usUFThr
  frequencyHigh := wordText o.usOFThr
  pbThreshold := wordText (o.usOPThr.get 1)
  baudRate := baudItem o.usComBaud

variable (p : DevicePage)

/-- The page with another text in an edit widget. -/
def setText (n : Nat) (text : List Char) : DevicePage :=
  match n with
  | 0 => { p with year := text }
  | 1 => { p with month := text }
  | 2 => { p with data := text }
  | 3 => { p with hour := text }
  | 4 => { p with minute := text }
  | 5 => { p with second := text }
  | 7 => { p with ipAddr := p.ipAddr.set 0 text }
  | 21 => { p with ipAddr := p.ipAddr.set 1 text }
  | 22 => { p with ipAddr := p.ipAddr.set 2 text }
  | 23 => { p with ipAddr := p.ipAddr.set 3 text }
  | 8 => { p with subnetMask := p.subnetMask.set 0 text }
  | 27 => { p with subnetMask := p.subnetMask.set 1 text }
  | 28 => { p with subnetMask := p.subnetMask.set 2 text }
  | 29 => { p with subnetMask := p.subnetMask.set 3 text }
  | 9 => { p with gateway := p.gateway.set 0 text }
  | 30 => { p with gateway := p.gateway.set 1 text }
  | 31 => { p with gateway := p.gateway.set 2 text }
  | 32 => { p with gateway := p.gateway.set 3 text }
  | 10 => { p with remotePort := text }
  | 11 => { p with commucateAddr := text }
  | 12 => { p with remoteIP := p.remoteIP.set 0 text }
  | 24 => { p with remoteIP := p.remoteIP.set 1 text }
  | 25 => { p with remoteIP := p.remoteIP.set 2 text }
  | 26 => { p with remoteIP := p.remoteIP.set 3 text }
  | 13 => { p with vLow := text }
  | 14 => { p with iHigh1 := text }
  | 15 => { p with iHigh2 := text }
  | 16 => { p with paThreshold := text }
  | 17 => { p with vHigh := text }
  | 18 => { p with frequencyLow := text }
  | 19 => { p with frequencyHigh := text }
  | 20 => { p with pbThreshold := text }
  | _ => p

/-- What `Set` makes of the settings. -/
def optimset (o : Optimset) : Optimset :=
  { o with
    ucIPAddr := p.ipAddr.map byteIn
    ucIPMask := p.subnetMask.map byteIn
    ucIPGateway := p.gateway.map byteIn
    usDstIPAddr := p.remoteIP.map byteIn
    usDstIPPort := wordIn p.remotePort
    ucComAddr := byteIn p.commucateAddr
    usUVThr := wordIn p.vLow
    ucOCThrFst := byteIn p.iHigh1
    ucOCThrSec := byteIn p.iHigh2
    usOVThr := wordIn p.vHigh
    usUFThr := wordIn p.frequencyLow
    usOFThr := wordIn p.frequencyHigh
    usOPThr := #v[wordIn p.paThreshold, wordIn p.pbThreshold]
    usComBaud := baudOfItem o.usComBaud p.baudRate }

/-- `RTC_WEEKDAY_SATURDAY`. -/
def rtcWeekdaySaturday : UInt8 := 6

/-- The clock after `Set`: it is set when the date has no zero, and always
to a Saturday. -/
def clock (r : Rtc) : Rtc :=
  if byteIn p.year ≠ 0 ∧ byteIn p.month ≠ 0 ∧ byteIn p.data ≠ 0 then
    let r := r.setTime (byteIn p.hour) (byteIn p.minute) (byteIn p.second)
    let r := r.setDate (byteIn p.year) (byteIn p.month) (byteIn p.data)
    { r with drMonth := r.drMonth ||| (rtcWeekdaySaturday <<< 5) }
  else r

end DevicePage

/-- The page's `Set`. -/
def Station.deviceSet (s : Station) (p : DevicePage) : Station :=
  { optSave { s with optimset := p.optimset s.optimset } with rtc := p.clock s.rtc }

/-! ## What comes back -/

attribute [ext] Optimset

section back

variable {o : Optimset} {n : Nat}

@[simp] theorem byteIn_byteText (b : UInt8) : byteIn (byteText b) = b :=
  byteOf_printed (by decide) b

theorem wordIn_wordText (w : UInt16) : wordIn (wordText w) = w ↔ w.toNat < 10000 :=
  wordOf_printed (by decide) w

theorem map_byteIn_byteText (v : Vector UInt8 n) : (v.map byteText).map byteIn = v := by
  have hid : byteIn ∘ byteText = id := funext byteIn_byteText
  rw [Vector.map_map, hid, Vector.map_id]

/-- The rates of the list. -/
def Listed (usComBaud : UInt16) : Prop :=
  usComBaud = 1200 ∨ usComBaud = 4800 ∨ usComBaud = 9600 ∨ usComBaud = 19200 ∨ usComBaud = 38400

theorem baudOfItem_baudItem (b : UInt16) : baudOfItem b (baudItem b) = b ↔ Listed b := by
  unfold baudItem Listed
  split_ifs <;> simp_all [baudOfItem, eq_comm]

theorem pair_eq_iff {α : Type} {a b : α} {v : Vector α 2} :
    #v[a, b] = v ↔ a = v.get 0 ∧ b = v.get 1 := by
  constructor
  · rintro rfl
    exact ⟨rfl, rfl⟩
  · rintro ⟨rfl, rfl⟩
    ext i hi
    match i, hi with
    | 0, _ => rfl
    | 1, _ => rfl

/-- The words of the page have four digits, and its list the rate. -/
structure PageFits (o : Optimset) : Prop where
  usDstIPPort : o.usDstIPPort.toNat < 10000
  usOVThr : o.usOVThr.toNat < 10000
  usUVThr : o.usUVThr.toNat < 10000
  usOPThr : ∀ i, (o.usOPThr.get i).toNat < 10000
  usOFThr : o.usOFThr.toNat < 10000
  usUFThr : o.usUFThr.toNat < 10000
  usComBaud : Listed o.usComBaud

/-- **What `Set` reads back** when nothing is edited: the bytes as they
are, the words cut to four digits. -/
theorem optimset_create : (DevicePage.create o).optimset o = { o with
    usDstIPPort := wordIn (wordText o.usDstIPPort)
    usUVThr := wordIn (wordText o.usUVThr)
    usOVThr := wordIn (wordText o.usOVThr)
    usUFThr := wordIn (wordText o.usUFThr)
    usOFThr := wordIn (wordText o.usOFThr)
    usOPThr := #v[wordIn (wordText (o.usOPThr.get 0)), wordIn (wordText (o.usOPThr.get 1))]
    usComBaud := baudOfItem o.usComBaud (baudItem o.usComBaud) } := by
  unfold DevicePage.optimset DevicePage.create
  simp only [map_byteIn_byteText, byteIn_byteText]

theorem optimset_create_eq_iff : (DevicePage.create o).optimset o = o ↔ PageFits o := by
  have hpair : #v[wordIn (wordText (o.usOPThr.get 0)), wordIn (wordText (o.usOPThr.get 1))] =
      o.usOPThr ↔ ∀ i, (o.usOPThr.get i).toNat < 10000 := by
    rw [pair_eq_iff, wordIn_wordText, wordIn_wordText, Fin.forall_fin_two]
  rw [optimset_create, Optimset.ext_iff]
  simp only [hpair, wordIn_wordText, baudOfItem_baudItem, true_and]
  constructor
  · rintro ⟨hbaud, hport, hov, huv, hop, hof, huf⟩
    exact ⟨hport, hov, huv, hop, hof, huf, hbaud⟩
  · rintro ⟨hport, hov, huv, hop, hof, huf, hbaud⟩
    exact ⟨hbaud, hport, hov, huv, hop, hof, huf⟩

/-- Nothing is entered for the date, so the clock stays. -/
theorem clock_create (r : Rtc) : (DevicePage.create o).clock r = r := by
  have hempty : byteIn [] = 0 := by decide
  unfold DevicePage.clock
  rw [if_neg fun h => h.1 hempty]

end back

/-! ## When `Set` writes nothing new -/

/-- The clock's registers hold the date and the time of the page, on a
Saturday. -/
structure DevicePage.Running (p : DevicePage) (r : Rtc) : Prop where
  year : r.drYear = byteToBcd2 (byteIn p.year)
  month : r.drMonth = byteToBcd2 (binMonth (byteIn p.month)) ||| (rtcWeekdaySaturday <<< 5)
  data : r.drDate = byteToBcd2 (byteIn p.data) &&& 0x3F
  hour : r.trHours = byteToBcd2 (byteIn p.hour) &&& 0x7F
  minute : r.trMinutes = byteToBcd2 (byteIn p.minute) &&& 0x7F
  second : r.trSeconds = byteToBcd2 (byteIn p.second) &&& 0x7F

/-- The texts of the page, as they are read, and its item stand for what is
stored, and the date, where one is entered, for the clock. -/
structure DevicePage.Stands (p : DevicePage) (s : Station) : Prop where
  ucIPAddr : p.ipAddr.map byteIn = s.optimset.ucIPAddr
  ucIPMask : p.subnetMask.map byteIn = s.optimset.ucIPMask
  ucIPGateway : p.gateway.map byteIn = s.optimset.ucIPGateway
  usDstIPAddr : p.remoteIP.map byteIn = s.optimset.usDstIPAddr
  usDstIPPort : wordIn p.remotePort = s.optimset.usDstIPPort
  ucComAddr : byteIn p.commucateAddr = s.optimset.ucComAddr
  usUVThr : wordIn p.vLow = s.optimset.usUVThr
  ucOCThrFst : byteIn p.iHigh1 = s.optimset.ucOCThrFst
  ucOCThrSec : byteIn p.iHigh2 = s.optimset.ucOCThrSec
  usOVThr : wordIn p.vHigh = s.optimset.usOVThr
  usUFThr : wordIn p.frequencyLow = s.optimset.usUFThr
  usOFThr : wordIn p.frequencyHigh = s.optimset.usOFThr
  usOPThr : wordIn p.paThreshold = s.optimset.usOPThr.get 0 ∧
    wordIn p.pbThreshold = s.optimset.usOPThr.get 1
  usComBaud : baudOfItem s.optimset.usComBaud p.baudRate = s.optimset.usComBaud
  rtc : byteIn p.year ≠ 0 → byteIn p.month ≠ 0 → byteIn p.data ≠ 0 → p.Running s.rtc

section stands

variable {p : DevicePage} {s : Station}

attribute [ext] Rtc

theorem clock_eq_self_iff {r : Rtc} : p.clock r = r ↔
    (byteIn p.year ≠ 0 → byteIn p.month ≠ 0 → byteIn p.data ≠ 0 → p.Running r) := by
  unfold DevicePage.clock
  split
  · rename_i hdate
    obtain ⟨hyear, hmonth, hdata⟩ := hdate
    simp only [hyear, hmonth, hdata, true_implies, ne_eq, not_false_eq_true]
    rw [Rtc.ext_iff]
    constructor
    · rintro ⟨hy, hm, hd, hh, hmin, hs⟩
      exact ⟨hy.symm, hm.symm, hd.symm, hh.symm, hmin.symm, hs.symm⟩
    · intro h
      exact ⟨h.year.symm, h.month.symm, h.data.symm, h.hour.symm, h.minute.symm, h.second.symm⟩
  · rename_i hdate
    have hvac : byteIn p.year ≠ 0 → byteIn p.month ≠ 0 → byteIn p.data ≠ 0 → p.Running r :=
      fun hy hm hd => absurd ⟨hy, hm, hd⟩ hdate
    exact ⟨fun _ => hvac, fun _ => rfl⟩

theorem optimset_eq_self_iff : p.optimset s.optimset = s.optimset ∧ p.clock s.rtc = s.rtc ↔
    p.Stands s := by
  rw [Optimset.ext_iff, clock_eq_self_iff]
  unfold DevicePage.optimset
  simp only [true_and, pair_eq_iff]
  constructor
  · rintro ⟨⟨hadr, hbaud, hip, hgate, hmask, hdst, hport, hov, huv, hoc1, hoc2, hop, hof, huf⟩, hrtc⟩
    exact {
      ucIPAddr := hip, ucIPMask := hmask, ucIPGateway := hgate, usDstIPAddr := hdst
      usDstIPPort := hport, ucComAddr := hadr, usUVThr := huv, ucOCThrFst := hoc1
      ucOCThrSec := hoc2, usOVThr := hov, usUFThr := huf, usOFThr := hof, usOPThr := hop
      usComBaud := hbaud, rtc := hrtc }
  · intro h
    exact ⟨⟨h.ucComAddr, h.usComBaud, h.ucIPAddr, h.ucIPGateway, h.ucIPMask, h.usDstIPAddr,
      h.usDstIPPort, h.usOVThr, h.usUVThr, h.ucOCThrFst, h.ucOCThrSec, h.usOPThr, h.usOFThr,
      h.usUFThr⟩, h.rtc⟩

theorem Station.Copied.deviceSet (h : s.Copied) (p : DevicePage) : (s.deviceSet p).Copied := by
  have hsave := h.optSave (p.optimset s.optimset)
  exact ⟨hsave.mark, hsave.record⟩

instance (p : DevicePage) (s : Station) : Decidable (p.Stands s) :=
  decidable_of_iff _ optimset_eq_self_iff

/-- **`Set` writes nothing new** when the page stands for what is stored. -/
theorem deviceSet_eq_self_iff (h : s.Copied) : s.deviceSet p = s ↔ p.Stands s := by
  rw [← optimset_eq_self_iff, ← h.optSave_eq_self_iff]
  constructor
  · intro heq
    have hoptimset : p.optimset s.optimset = s.optimset := congrArg Station.optimset heq
    exact ⟨(h.optSave_eq_self_iff _).2 hoptimset, congrArg Station.rtc heq⟩
  · rintro ⟨hsave, hclock⟩
    unfold Station.deviceSet
    rw [hsave, hclock]

end stands

/-! ## The stations the PC reaches -/

/-- `Set` on the page as it was created changes neither the settings nor
their copy. -/
def Station.DeviceNeutral (s : Station) : Prop :=
  let s' := s.deviceSet (DevicePage.create s.optimset)
  s'.optimset = s.optimset ∧ s'.fram = s.fram

/-- What the set requests keep: the copy, the port and a known rate. -/
structure Station.Configured (s : Station) : Prop where
  copied : s.Copied
  usDstIPPort : s.optimset.usDstIPPort = 4196
  usComBaud : IsBaud s.optimset.usComBaud

/-- The thresholds have four digits. -/
structure ThresholdsFit (o : Optimset) : Prop where
  usOVThr : o.usOVThr.toNat < 10000
  usUVThr : o.usUVThr.toNat < 10000
  usOPThr : ∀ i, (o.usOPThr.get i).toNat < 10000
  usOFThr : o.usOFThr.toNat < 10000
  usUFThr : o.usUFThr.toNat < 10000

section reachable

variable {s : Station} {m : Int → UInt8} {len : UInt16}

theorem deviceNeutral_iff (h : s.Copied) : s.DeviceNeutral ↔ PageFits s.optimset := by
  rw [← optimset_create_eq_iff]
  constructor
  · intro hn
    exact hn.1
  · intro heq
    refine ⟨heq, ?_⟩
    have hsave : (s.deviceSet (DevicePage.create s.optimset)).fram =
        s.fram.write optAddr ((DevicePage.create s.optimset).optimset s.optimset).toBytes := rfl
    rw [hsave, heq]
    exact write_eq_self.2 h.record

theorem usDstIPPort_setAll {o : Optimset} (as : List Assignment) :
    (setAll o as).usDstIPPort = o.usDstIPPort := by
  induction as generalizing o with
  | nil => rfl
  | cons a as ih =>
    have hone : (a.set o).usDstIPPort = o.usDstIPPort := by
      cases a <;> rfl
    exact ih.trans hone

theorem isBaud_nSetSwitch (hver : m 0 = framFrmVER) (h : IsBaud s.optimset.usComBaud)
    (k : Option Setting) : IsBaud ((nSetSwitch len s k).eval m).2.optimset.usComBaud := by
  cases k with
  | none => exact h
  | some k =>
    cases k with
    | clock =>
      rw [nSetSwitch, eval_setClock]
      split
      · split <;> exact h
      · exact h
    | comBaud =>
      rw [nSetSwitch, eval_setBaud]
      split
      · split
        · assumption
        · exact h
      · exact h
    | comAddr | ocThrFst | ocThrSec =>
      rw [nSetSwitch, eval_setByte hver]
      split <;> exact h
    | ovThr | uvThr | opThrA | opThrB | ofThr | ufThr =>
      rw [nSetSwitch, eval_setWord]
      split <;> exact h

theorem isBaud_nSetDataInfo {command : UInt8} (hver : m 0 = framFrmVER)
    (h : IsBaud s.optimset.usComBaud) :
    IsBaud ((nSetDataInfo command len s).eval m).2.optimset.usComBaud := by
  unfold nSetDataInfo
  by_cases ht : command = eSetTime
  · rw [if_pos ht]
    exact isBaud_nSetSwitch hver h _
  · rw [if_neg ht, eval_bind, eval_entry]
    exact isBaud_nSetSwitch hver h _

theorem configured_step (hs : s.Configured) (op : SettingOp) : (s.step op).Configured := by
  have hstep := reached_step hs.copied op
  refine ⟨hstep.copied hs.copied, ?_, ?_⟩
  · rw [hstep.optimset, usDstIPPort_setAll]
    exact hs.usDstIPPort
  · cases op with
    | restart =>
      rw [show s.step .restart = s from optInit_of_copied hs.copied]
      exact hs.usComBaud
    | receive msg heap =>
      simp only [Station.step]
      cases hr : (gPCProtoHandle msg s).eval (msg.ucRxHexBuf heap) with
      | ignored => exact hs.usComBaud
      | answered ver adr rtn => exact hs.usComBaud
      | put ver adr request => exact hs.usComBaud
      | set ver adr rtn s' =>
        obtain ⟨hver, -, heval⟩ := handed_of_set hr
        have h : IsBaud ((nSetDataInfo (msg.ucRxHexBuf heap 3) (msg.usHexLen - 9) s).eval
            (msg.ucRxHexBuf heap)).2.optimset.usComBaud :=
          isBaud_nSetDataInfo hver hs.usComBaud
        rwa [heval] at h

theorem configured_run (hs : s.Configured) (ops : List SettingOp) :
    (run Station.step s ops).Configured := by
  induction ops generalizing s with
  | nil => exact hs
  | cons op ops ih => exact ih (configured_step hs op)

theorem configured_start {fram : Mem} (hfresh : readWord fram fmAddrOptimSet ≠ initMark)
    (o : Optimset) (rtc : Rtc) : (Station.optInit ⟨o, fram, rtc⟩).Configured := by
  obtain ⟨hdefault, hcopied⟩ := optInit_fresh (s := ⟨o, fram, rtc⟩) hfresh
  have hbaud : IsBaud optDefault.usComBaud := by decide
  exact ⟨hcopied, by rw [hdefault]; rfl, by rw [hdefault]; exact hbaud⟩

theorem pageFits_iff (hs : s.Configured) :
    PageFits s.optimset ↔ ThresholdsFit s.optimset ∧ s.optimset.usComBaud ≠ 2400 := by
  have hport : s.optimset.usDstIPPort.toNat < 10000 := by
    rw [hs.usDstIPPort]
    decide
  have hlisted : Listed s.optimset.usComBaud ↔ s.optimset.usComBaud ≠ 2400 := by
    have hbaud := hs.usComBaud
    unfold IsBaud at hbaud
    unfold Listed
    constructor
    · rintro h heq
      rw [heq] at h
      exact absurd h (by decide)
    · intro hne
      tauto
  rw [← hlisted]
  constructor
  · intro h
    exact ⟨⟨h.usOVThr, h.usUVThr, h.usOPThr, h.usOFThr, h.usUFThr⟩, h.usComBaud⟩
  · rintro ⟨h, hbaud⟩
    exact ⟨hport, h.usOVThr, h.usUVThr, h.usOPThr, h.usOFThr, h.usUFThr, hbaud⟩

/-- **When the page is neutral.** A new device is given any settings over
the PC's requests, with restarts in between. Its page is created and
confirmed as it stands: nothing changes when every threshold has four
digits and the rate is not 2400. -/
theorem deviceSet_neutral_iff {fram : Mem} (hfresh : readWord fram fmAddrOptimSet ≠ initMark)
    (o : Optimset) (rtc : Rtc) (ops : List SettingOp) :
    let s := run Station.step (Station.optInit ⟨o, fram, rtc⟩) ops
    s.DeviceNeutral ↔ ThresholdsFit s.optimset ∧ s.optimset.usComBaud ≠ 2400 := by
  intro s
  have hs : s.Configured := configured_run (configured_start hfresh o rtc) ops
  rw [deviceNeutral_iff hs.copied, pageFits_iff hs]

/-- A new device with the address 5. -/
theorem deviceSet_neutral_address :
    (run Station.step (Station.optInit ⟨optDefault, fun _ => 0, default⟩)
      [.receive addressFive fun _ => 0]).DeviceNeutral := by
  refine (deviceSet_neutral_iff (by decide) optDefault default
    [.receive addressFive fun _ => 0]).2 ?_
  refine ⟨⟨?_, ?_, ?_, ?_, ?_⟩, ?_⟩ <;> decide +kernel

/-- The rate 2400, sent to the address 1. -/
def baudTwentyFour : MessageType where
  rxBuffer := [0x7E, 0x33, 0x31, 0x30, 0x31, 0x32, 0x43, 0x34, 0x39, 0x41, 0x30, 0x30, 0x36,
    0x44, 0x31, 0x30, 0x39, 0x36, 0x30, 0x46, 0x43, 0x33, 0x45, 0x0D]
  stale := fun _ => 0
  fits := by decide

/-- It is stored, and after `Set` the rate is 1200. -/
theorem not_deviceSet_neutral :
    ¬ (run Station.step (Station.optInit ⟨optDefault, fun _ => 0, default⟩)
      [.receive baudTwentyFour fun _ => 0]).DeviceNeutral := by
  intro h
  have hbaud := congrArg Optimset.usComBaud h.1
  exact absurd hbaud (by decide +kernel)

end reachable

end BusMonitor
