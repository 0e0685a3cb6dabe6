import BusMonitor.GUI.DeviceInform
/-!
# The configuration pages

Two pages with one handler each. The page for two busbars has six edit
widgets, the one for a single busbar three of them, but both handlers read
six. What is read goes through one static buffer, and a widget that is not
there leaves in it what was read before: the single page stores the
branches of bus A for bus B too, and the rated current of bus A as rated
current and as ratio of bus B.
-/


namespace BusMonitor

/-! ## The pages -/

/-- The setup byte with its three bit-fields assigned, lowest first; the
two bits above them stay. -/
def Setup.assign (c : Setup) (busMode fanglei switch : UInt8) : Setup :=
  ⟨UInt8.ofNat (busMode.toNat % 16 + 16 * (switch.toNat % 2) + 32 * (fanglei.toNat % 2) +
    64 * (c.ucSetup.toNat / 64))⟩

example : (Setup.mk 0x31).assign busModeD 0 1 = ⟨0x12⟩ := by decide

/-- The two bits without a use. -/
def Setup.temp (c : Setup) : UInt8 := c.ucSetup >>> 6

/-- The static variables of a page's handler. -/
structure ConfigVars where
  buf : List Char
  systemD : Bool
  systemS : Bool
  systemH : Bool
  systemY : Bool
  busMode : UInt8
  fanglei : Bool
  switch : Bool

namespace ConfigVars

/-- The variables when power comes on. -/
def start : ConfigVars := ⟨['0'], false, false, false, false, 0, false, false⟩

/-- The boxes as `WM_INIT_DIALOG` sets them. -/
def init (v : ConfigVars) (o : Optimset) : ConfigVars :=
  { v with
    systemD := o.setup.bBusMode = busModeD
    systemS := o.setup.bBusMode = busModeS
    systemY := o.setup.bBusMode = busModeY
    systemH := o.setup.bBusMode = busModeH
    switch := o.setup.bQF = 1
    fanglei := o.setup.bSPD = 1 }

/-- The mode as `WM_PAINT` takes it from the boxes, the last one set. -/
def paint (v : ConfigVars) : ConfigVars :=
  { v with busMode :=
      if v.systemH then busModeH
      else if v.systemY then busModeY
      else if v.systemS then busModeS
      else if v.systemD then busModeD
      else v.busMode }

/-- A touch of a box. Without a login it only paints. -/
def checkbox (v : ConfigVars) (userLogin : UInt8) (box : Fin 6) : ConfigVars :=
  if userLogin = 0xFF ∨ userLogin = 0xCC then
    match box with
    | 0 => { v with fanglei := !v.fanglei }
    | 1 => { v with switch := !v.switch }
    | 2 => { v with systemD := true, systemS := false, systemY := false, systemH := false }
    | 3 => { v with systemD := false, systemS := true, systemY := false, systemH := false }
    | 4 => { v with systemD := false, systemS := false, systemY := true, systemH := false }
    | 5 => { v with systemD := false, systemS := false, systemY := false, systemH := true }
  else v

end ConfigVars

/-- The texts of the edit widgets as `System_Con_Init` prints them, and for
bus B `_cbSystem_ConS`. -/
def configTexts (o : Optimset) : Fin 6 → List Char
  | 0 => wordText (o.usCTR.get 0)
  | 1 => byteText (o.ucBranchN.get 0)
  | 2 => byteText (o.ucBranchN.get 1)
  | 3 => wordText (o.usRateI.get 0)
  | 4 => wordText (o.usRateI.get 1)
  | 5 => wordText (o.usCTR.get 1)

/-- The edit widgets of `_aDialogCreateS`. -/
def aDialogCreateS (texts : Fin 6 → List Char) (i : Fin 6) : Option (List Char) := some (texts i)

/-- The edit widgets of `_aDialogCreateD`. -/
def aDialogCreateD (texts : Fin 6 → List Char) (i : Fin 6) : Option (List Char) :=
  if i = 0 ∨ i = 1 ∨ i = 3 then some (texts i) else none

/-- `EDIT_GetText` into a page's buffer, which stays where there is no such
widget. -/
def getTextInto (edit : Option (List Char)) (buf : List Char) : List Char :=
  match edit with
  | some text => editGetText text 5
  | none => buf

/-- `Config_ok`, the same in both handlers. -/
def configOk (edit : Fin 6 → Option (List Char)) (v : ConfigVars) (o : Optimset) : Optimset :=
  let buf0 := getTextInto (edit 0) v.buf
  let buf1 := getTextInto (edit 1) buf0
  let buf2 := getTextInto (edit 2) buf1
  let buf3 := getTextInto (edit 3) buf2
  let buf4 := getTextInto (edit 4) buf3
  let buf5 := getTextInto (edit 5) buf4
  { o with
    usCTR := #v[wordOf buf0, wordOf buf5]
    ucBranchN := #v[byteOf buf1, byteOf buf2]
    usRateI := #v[wordOf buf3, wordOf buf4]
    setup := o.setup.assign v.busMode v.fanglei.toUInt8 v.switch.toUInt8 }

/-- `Config_ok` of `_cbSystem_ConS`. -/
def configOkS (texts : Fin 6 → List Char) : ConfigVars → Optimset → Optimset :=
  configOk (aDialogCreateS texts)

/-- `Config_ok` of `_cbSystem_ConD`. -/
def configOkD (texts : Fin 6 → List Char) : ConfigVars → Optimset → Optimset :=
  configOk (aDialogCreateD texts)

/-! ## What they write -/

/-- Nothing has changed that has no widget on the single page. -/
structure OnlyShown (o o' : Optimset) : Prop where
  ucComAddr : o'.ucComAddr = o.ucComAddr
  usComBaud : o'.usComBaud = o.usComBaud
  ucDHCPEn : o'.ucDHCPEn = o.ucDHCPEn
  ucIPAddr : o'.ucIPAddr = o.ucIPAddr
  ucIPGateway : o'.ucIPGateway = o.ucIPGateway
  ucIPMask : o'.ucIPMask = o.ucIPMask
  usDstIPAddr : o'.usDstIPAddr = o.usDstIPAddr
  usDstIPPort : o'.usDstIPPort = o.usDstIPPort
  temp : o'.setup.temp = o.setup.temp
  usRateI : o'.usRateI.get 1 = o.usRateI.get 1
  usCTR : o'.usCTR.get 1 = o.usCTR.get 1
  ucBranchN : o'.ucBranchN.get 1 = o.ucBranchN.get 1
  usOVThr : o'.usOVThr = o.usOVThr
  usUVThr : o'.usUVThr = o.usUVThr
  ucOCThrFst : o'.ucOCThrFst = o.ucOCThrFst
  ucOCThrSec : o'.ucOCThrSec = o.ucOCThrSec
  usOPThr : o'.usOPThr = o.usOPThr
  usOFThr : o'.usOFThr = o.usOFThr
  usUFThr : o'.usUFThr = o.usUFThr

section configOk

variable {texts : Fin 6 → List Char} {v : ConfigVars} {o : Optimset}

theorem temp_assign (c : Setup) (busMode fanglei switch : UInt8) :
    (c.assign busMode fanglei switch).temp = c.temp := by
  have hlt := c.ucSetup.toNat_lt
  have hshift (b : UInt8) : (b >>> 6).toNat = b.toNat / 64 := by
    rw [UInt8.toNat_shiftRight]
    exact Nat.shiftRight_eq_div_pow _ _
  rw [← UInt8.toNat_inj, Setup.temp, Setup.temp, hshift, hshift, Setup.assign,
    UInt8.toNat_ofNat']
  omega

/-- On the page for two busbars every field comes from its own widget. -/
theorem configOkS_eq : configOkS texts v o = { o with
    usCTR := #v[wordIn (texts 0), wordIn (texts 5)]
    ucBranchN := #v[byteIn (texts 1), byteIn (texts 2)]
    usRateI := #v[wordIn (texts 3), wordIn (texts 4)]
    setup := o.setup.assign v.busMode v.fanglei.toUInt8 v.switch.toUInt8 } := rfl

/-- **On the single page** the fields of bus B come from the widgets of
bus A, the ratio from the one for the current. -/
theorem configOkD_eq : configOkD texts v o = { o with
    usCTR := #v[wordIn (texts 0), wordIn (texts 3)]
    ucBranchN := #v[byteIn (texts 1), byteIn (texts 1)]
    usRateI := #v[wordIn (texts 3), wordIn (texts 3)]
    setup := o.setup.assign v.busMode v.fanglei.toUInt8 v.switch.toUInt8 } := rfl

/-- **When the single page writes only what it shows**: when bus B has the
branches and the current entered for bus A, and this current as its
ratio. -/
theorem configOkD_onlyShown_iff : OnlyShown o (configOkD texts v o) ↔
    byteIn (texts 1) = o.ucBranchN.get 1 ∧ wordIn (texts 3) = o.usRateI.get 1 ∧
      wordIn (texts 3) = o.usCTR.get 1 := by
  rw [configOkD_eq]
  constructor
  · intro h
    exact ⟨h.ucBranchN, h.usRateI, h.usCTR⟩
  · rintro ⟨hbranch, hrate, hctr⟩
    exact {
      ucComAddr := rfl, usComBaud := rfl, ucDHCPEn := rfl, ucIPAddr := rfl, ucIPGateway := rfl
      ucIPMask := rfl, usDstIPAddr := rfl, usDstIPPort := rfl
      temp := temp_assign o.setup _ _ _
      usRateI := hrate, usCTR := hctr, ucBranchN := hbranch
      usOVThr := rfl, usUVThr := rfl, ucOCThrFst := rfl, ucOCThrSec := rfl, usOPThr := rfl
      usOFThr := rfl, usUFThr := rfl }

/-- Ten branches entered for bus A, on the page of a new device in its
single mode. -/
theorem not_configOkD_onlyShown :
    let o := { optDefault with setup := ⟨0x32⟩ }
    let texts := fun i => if i = 1 then ['1', '0'] else ['2', '0', '0']
    ¬ OnlyShown o (configOkD texts (ConfigVars.start.init o).paint o) := by
  intro o texts h
  have hbranch : (10 : UInt8) = 72 := h.ucBranchN
  exact absurd hbranch (by decide)

end configOk

/-! ## When they write nothing new -/

/-- The widget a field gets its text from on the single page. -/
def widgetD : Fin 6 → Fin 6
  | 0 => 0
  | 1 | 2 => 1
  | 3 | 4 | 5 => 3

/-- The texts and the boxes, as they are read, stand for what is stored. -/
structure ConfigStands (texts : Fin 6 → List Char) (v : ConfigVars) (o : Optimset) : Prop where
  usCTR : wordIn (texts 0) = o.usCTR.get 0 ∧ wordIn (texts 5) = o.usCTR.get 1
  ucBranchN : byteIn (texts 1) = o.ucBranchN.get 0 ∧ byteIn (texts 2) = o.ucBranchN.get 1
  usRateI : wordIn (texts 3) = o.usRateI.get 0 ∧ wordIn (texts 4) = o.usRateI.get 1
  busMode : v.busMode % 16 = o.setup.bBusMode
  switch : v.switch.toUInt8 = o.setup.bQF
  fanglei : v.fanglei.toUInt8 = o.setup.bSPD

section stands

variable {texts : Fin 6 → List Char} {v : ConfigVars} {o : Optimset}

theorem toNat_bBusMode (c : Setup) : c.bBusMode.toNat = c.ucSetup.toNat % 16 := by
  rw [Setup.bBusMode, UInt8.toNat_and]
  exact Nat.and_two_pow_sub_one_eq_mod _ 4

/-- A bit of a byte, shifted down. -/
theorem toNat_shift_one (b k : UInt8) :
    ((b >>> k) &&& 1).toNat = b.toNat / 2 ^ (k.toNat % 8) % 2 := by
  rw [UInt8.toNat_and, UInt8.toNat_shiftRight, Nat.shiftRight_eq_div_pow]
  exact Nat.and_two_pow_sub_one_eq_mod _ 1

theorem toNat_bQF (c : Setup) : c.bQF.toNat = c.ucSetup.toNat / 16 % 2 := toNat_shift_one _ 4

theorem toNat_bSPD (c : Setup) : c.bSPD.toNat = c.ucSetup.toNat / 32 % 2 := toNat_shift_one _ 5

/-- The setup stays when each of its bit-fields does. -/
theorem assign_eq_self_iff (c : Setup) (busMode : UInt8) (fanglei switch : Bool) :
    c.assign busMode fanglei.toUInt8 switch.toUInt8 = c ↔
      busMode % 16 = c.bBusMode ∧ switch.toUInt8 = c.bQF ∧ fanglei.toUInt8 = c.bSPD := by
  have hlt := c.ucSetup.toNat_lt
  have hbit (b : Bool) : b.toUInt8.toNat < 2 := by
    cases b <;> decide
  have hfanglei := hbit fanglei
  have hswitch := hbit switch
  have hfields : c.assign busMode fanglei.toUInt8 switch.toUInt8 = c ↔
      (c.assign busMode fanglei.toUInt8 switch.toUInt8).ucSetup = c.ucSetup := by
    constructor
    · intro h
      rw [h]
    · intro h
      cases c
      exact congrArg Setup.mk h
  rw [hfields]
  simp only [← UInt8.toNat_inj, UInt8.toNat_mod, toNat_bBusMode, toNat_bQF, toNat_bSPD,
    Setup.assign, UInt8.toNat_ofNat', UInt8.reduceToNat]
  omega

/-- **`Config_ok` on the page for two busbars** stores what was stored
already when its widgets stand for it. -/
theorem configOkS_eq_self_iff : configOkS texts v o = o ↔ ConfigStands texts v o := by
  rw [configOkS_eq, Optimset.ext_iff]
  simp only [true_and, pair_eq_iff, assign_eq_self_iff]
  constructor
  · rintro ⟨⟨hmode, hqf, hspd⟩, hrate, hctr, hn, -⟩
    exact ⟨hctr, hn, hrate, hmode, hqf, hspd⟩
  · rintro ⟨hctr, hn, hrate, hmode, hqf, hspd⟩
    exact ⟨⟨hmode, hqf, hspd⟩, hrate, hctr, hn, trivial⟩

instance (texts : Fin 6 → List Char) (v : ConfigVars) (o : Optimset) :
    Decidable (ConfigStands texts v o) :=
  decidable_of_iff _ configOkS_eq_self_iff

/-- **On the single page** when each widget stands for all the fields that
are read from it. -/
theorem configOkD_eq_self_iff :
    configOkD texts v o = o ↔ ConfigStands (fun i => texts (widgetD i)) v o := by
  have hwidgets : configOkD texts v o = configOkS (fun i => texts (widgetD i)) v o := rfl
  rw [hwidgets]
  exact configOkS_eq_self_iff

end stands

end BusMonitor
