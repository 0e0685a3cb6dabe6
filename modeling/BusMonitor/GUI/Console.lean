import BusMonitor.Energy.Counters
import BusMonitor.GUI.Password
import BusMonitor.GUI.SystemCon
import BusMonitor.Lib.Screen
/-!
# The touch screen

The pages of the monitor with what a touch does on each of them. A touch
reaches a window that is not hidden below a full page. Each window keeps
what its widgets hold: what its handler wrote there when it was created,
and what the keys of a pad and the items of a drop-down have made of it
since. Without a login the handlers make edit widgets unfocussable, which
no key reaches. `User_login` is asked by each handler for itself, and
neither `Set` on the device page nor `Config_ok` on the configuration pages
asks it.
-/


namespace BusMonitor

open Mem LittleEndian Screen

/-! ## What a login guards -/

theorem spares_optBranchSetSave (set : UInt8) (num : Nat) :
    SparesOptimset (optBranchSetSaveWrites set num) := by
  refine List.forall_mem_singleton.2 (.inr ?_)
  exact (Nat.le_of_ble_eq_true rfl).trans (Nat.le_add_right _ _)

theorem spares_optPWSave (pw : UInt16) : SparesOptimset (optPWSaveWrites pw) :=
  List.forall_mem_singleton.2 (.inr (Nat.le_of_ble_eq_true rfl))

theorem spares_base (base : Nat) :
    SparesOptimset [⟨fmAddrEPPastTime + fmOffsetBaseTime, encode 2 base⟩] :=
  List.forall_mem_singleton.2 (.inr (Nat.le_of_ble_eq_true rfl))

/-- The settings with their copy in the FRAM, the records and the counters.
The maxima are kept as the bits of their floats. -/
structure Guarded where
  optimset : Optimset
  fram : Mem
  ucBranchSet : Vector UInt8 maxBranchNum
  rtc : Rtc
  usrPassword : UInt16
  rtAlmIndex : Nat
  gPTAlmRelate : PTAlmRelate
  fReqBuff : Fin 14 → UInt32
  fMax : Fin 2 → Fin 10 → UInt32
  acqBusVar : Fin 2 → BusEnergy
  usPTEBaseTime : Nat
  copied : Station.Copied ⟨optimset, fram, rtc⟩

namespace Guarded

/-- After `sys_Init`, over a FRAM that is read without a failure. -/
def powerOn (m : Mem) (rtc : Rtc) : Guarded :=
  let start := startUp (fun _ => .fine) m
  let fram := m.writeAll start.1
  { optimset := start.2.optimset
    fram := fram
    ucBranchSet := start.2.ucBranchSet
    rtc := rtc
    usrPassword := start.2.usrPassword
    rtAlmIndex := 0
    gPTAlmRelate := start.2.gPTAlmRelate
    fReqBuff := fun _ => 0
    fMax := fun _ _ => 0
    acqBusVar := fun i => readBusEnergy fram (energyAddr i)
    usPTEBaseTime := start.2.usPTEBaseTime
    copied := Station.copied_startUp m rtc }

variable (d : Guarded)

/-- What `Opt_Save` and the clock work on. -/
def station : Station := ⟨d.optimset, d.fram, d.rtc⟩

theorem copied_station : d.station.Copied := d.copied

/-- The data with a station's part replaced. -/
def withStation (s : Station) (h : s.Copied) : Guarded :=
  { d with optimset := s.optimset, fram := s.fram, rtc := s.rtc, copied := h }

/-- `Set` of the device page. -/
def deviceSet (p : DevicePage) : Guarded :=
  d.withStation (d.station.deviceSet p) (d.copied_station.deviceSet p)

/-- `Config_ok` of a configuration page. -/
def config (edit : Fin 6 → Option (List Char)) (v : ConfigVars) : Guarded :=
  d.withStation (optSave { d.station with optimset := configOk edit v d.optimset })
    (d.copied_station.optSave (configOk edit v d.optimset))

/-- The touch of a branch, with `Opt_BranchSet_Save`. -/
def toggleBranch (num : Fin maxBranchNum) : Guarded :=
  let set := if d.ucBranchSet.get num = 0 then 1 else 0
  { d with
    ucBranchSet := d.ucBranchSet.set num set
    fram := d.fram.writeAll (optBranchSetSaveWrites set num)
    copied := d.copied.writeAll (spares_optBranchSetSave set num) }

/-- `OK` of the change dialog. -/
def changePassword (t : ChangeTexts) : Guarded :=
  { d with
    usrPassword := t.newPassword
    fram := d.fram.writeAll (optPWSaveWrites t.newPassword)
    copied := d.copied.writeAll (spares_optPWSave t.newPassword) }

/-- `Acq_MAXClear`. -/
def acqMAXClear : Guarded := { d with fReqBuff := fun _ => 0, fMax := fun _ _ => 0 }

/-- `Alm_RecordClear`. -/
def almRecordClear : Guarded :=
  { d with
    rtAlmIndex := 0
    gPTAlmRelate := ⟨0, 0⟩
    fram := d.fram.writeAll [⟨headerAddr, (PTAlmRelate.mk 0 0).toBytes⟩]
    copied := d.copied.writeAll (by decide) }

/-- `Acq_EnergyClear`. -/
def acqEnergyClear : Guarded :=
  let m := (EnergyMeter.mk d.acqBusVar d.fram d.optimset.setup.bBusMode 0).acqEnergyClear
  { d with
    acqBusVar := m.acqBusVar
    fram := m.fram
    copied := d.copied.writeAll (show SparesOptimset energyClearWrites by decide) }

/-- `gPTE_BaseTime`. -/
def gPTEBaseTime : Guarded :=
  let base := d.rtc.now.year.toNat * 256 + d.rtc.now.month.toNat
  { d with
    usPTEBaseTime := base
    fram := d.fram.writeAll [⟨fmAddrEPPastTime + fmOffsetBaseTime, encode 2 base⟩]
    copied := d.copied.writeAll (spares_base base) }

end Guarded

/-! ## The pages -/

inductive Page where
  | home
  | busData1
  | busData2
  | systemConS
  | deviceInform
  | nowAlarm
  | historyAlarm
  | keypad
  | numberpad
  | historyEnergy1
  | historyEnergy2
  | systemConD
  | energyClear
  | userloginClear
  | help
  | changePassword
  deriving DecidableEq, Repr

/-- The index in `hPage`. -/
def Page.slot : Page → Nat
  | home => 0
  | busData1 => 4
  | busData2 => 5
  | systemConS => 8
  | deviceInform => 9
  | nowAlarm => 10
  | historyAlarm => 11
  | keypad => 12
  | numberpad => 13
  | historyEnergy1 => 14
  | historyEnergy2 => 15
  | systemConD => 18
  | energyClear => 19
  | userloginClear => 20
  | help => 20
  | changePassword => 21

/-- The pages that fill the screen; the others are dialogs on top of one. -/
def Page.full : Page → Bool
  | keypad | numberpad | energyClear | userloginClear | changePassword => false
  | _ => true

/-- What is touched: a button, an edit widget or a box by its number, or a
branch on the home page. -/
inductive Touch where
  | button (n : Nat)
  | edit (n : Nat)
  | checkbox (box : Fin 6)
  | branch (num : Fin maxBranchNum)
  deriving DecidableEq

/-- A window: its page, what its widgets hold, and whether its edit widgets
were made unfocussable, all of them or the one of the power threshold of
bus B. -/
structure Form where
  page : Page
  device : DevicePage
  config : Fin 6 → List Char
  role : Nat
  passWord : List Char
  change : ChangeTexts
  locked : Bool
  pbLocked : Bool

namespace Form

/-- `WM_INIT_DIALOG` and the first `WM_PAINT` of a page. The settings are
printed into its edit widgets, and the passwords start empty. The device
page takes the focus from all of them in one mode only, and from the
threshold of bus B in the others. -/
def create (p : Page) (o : Optimset) (userLogin : UInt8) : Form where
  page := p
  device := .create o
  config := configTexts o
  role := 0
  passWord := []
  change := ⟨[], []⟩
  locked := match p with
    | .systemConS | .systemConD => userLogin = 0
    | .deviceInform => o.setup.bBusMode = busModeS ∧ userLogin = 0
    | _ => false
  pbLocked := o.setup.bBusMode = busModeD ∨ o.setup.bBusMode = busModeY ∨
    o.setup.bBusMode = busModeH

variable (f : Form)

def slot : Nat := f.page.slot

def full : Bool := f.page.full

/-- A key can reach the edit widget. -/
def focussable (n : Nat) : Bool :=
  match f.page with
  | .systemConS | .systemConD => !f.locked
  | .deviceInform => !f.locked && !(f.pbLocked && n = 20)
  | .keypad | .changePassword => true
  | _ => false

/-- `EDIT_SetText`, and what keys make of a text. -/
def setText (n : Nat) (text : List Char) : Form :=
  match f.page with
  | .systemConS | .systemConD =>
    { f with config := fun i => if i.val = n then text else f.config i }
  | .deviceInform => { f with device := f.device.setText n text }
  | .keypad => { f with passWord := if n = 0 then text else f.passWord }
  | .changePassword =>
    { f with change :=
        ⟨if n = 0 then text else f.change.edit0, if n = 1 then text else f.change.edit1⟩ }
  | _ => f

/-- An item of the page's drop-down is selected. -/
def select (item : Nat) : Form :=
  match f.page with
  | .deviceInform => if item < 5 then { f with device := { f.device with baudRate := item } } else f
  | .keypad => if item < 2 then { f with role := item } else f
  | _ => f

end Form

/-- A touch on the screen: which of the windows that are not hidden, from
the top, and what of it. The lists of the energies are turned over as
`pagenum` and `maxpage` say. -/
structure ScreenTouch where
  window : Nat
  touch : Touch
  pagenum : Nat
  maxpage : Nat

/-- What the user does: a touch, the keys of a pad for an edit widget, or
the choice of an item. -/
inductive ScreenEvent where
  | touch (t : ScreenTouch)
  | keys (window edit : Nat) (text : List Char)
  | item (window item : Nat)

/-- The variables of the pages, and their windows. -/
structure Console where
  data : Guarded
  userLogin : UInt8
  windowCallKeypad : Nat
  windowHelpCall : Nat
  passWordError : Bool
  keyboardCall : UInt8
  conS : ConfigVars
  conD : ConfigVars
  windows : List (Window Form)

namespace Console

/-- The home page after power comes on. -/
def powerOn (m : Mem) (rtc : Rtc) : Console :=
  let data := Guarded.powerOn m rtc
  { data := data
    userLogin := 0
    windowCallKeypad := 0
    windowHelpCall := 0
    passWordError := false
    keyboardCall := 0
    conS := .start
    conD := .start
    windows := [⟨.create .home data.optimset 0, true⟩] }

variable (s : Console)

/-- `WM_DeleteWindow` of the page's handle. -/
def delete (p : Page) : Console := { s with windows := Screen.delete Form.slot p.slot s.windows }

/-- The page's window is created and painted. -/
def create (p : Page) : Console :=
  { s with
    windows := Screen.create Form.slot (.create p s.data.optimset s.userLogin) s.windows
    conS := if p = .systemConS then (s.conS.init s.data.optimset).paint else s.conS
    conD := if p = .systemConD then (s.conD.init s.data.optimset).paint else s.conD }

/-- What one of the windows that are not hidden holds changes. -/
def update (n : Nat) (g : Form → Form) : Console :=
  { s with windows := Screen.update n g s.windows }

/-- From a page to another one. -/
def goto (p q : Page) : Console := (s.delete p).create q

/-- To the configuration page of the bus mode. -/
def gotoSystemCon (p : Page) : Console :=
  if s.data.optimset.setup.bBusMode = busModeS then s.goto p .systemConS
  else s.goto p .systemConD

/-- To the help page, which will come back as it is told. -/
def gotoHelp (p : Page) (call : Nat) : Console := { s with windowHelpCall := call }.goto p .help

/-- The keypad over the page, with what it is called for. -/
def callKeypad (call : Nat) : Console := { s with windowCallKeypad := call }.create .keypad

/-- The number pad. -/
def callNumberpad : Console :=
  let s := if s.keyboardCall = 0 then s.create .numberpad else s
  { s with keyboardCall := s.keyboardCall + 1 }

/-- The number pad for an edit widget of the window, which is emptied. -/
def callEdit (window n : Nat) : Console :=
  (s.update window fun f => f.setText n []).callNumberpad

/-- With a login of either kind. -/
def LoggedIn : Prop := s.userLogin = 0xFF ∨ s.userLogin = 0xCC

instance : Decidable s.LoggedIn := inferInstanceAs (Decidable (_ ∨ _))

def acqMAXClear : Console := { s with data := s.data.acqMAXClear }

def almRecordClear : Console := { s with data := s.data.almRecordClear }

/-! ## The handlers -/

/-- `_cbWindow_Home`. -/
def cbHome : Touch → Console
  | .button 0 => s.goto .home .busData1
  | .button 1 => s.goto .home .historyEnergy1
  | .button 2 => s.goto .home .nowAlarm
  | .button 6 => if s.userLogin = 0 then s.callKeypad 1 else s.gotoSystemCon .home
  | .branch num => if s.LoggedIn then { s with data := s.data.toggleBranch num } else s
  | _ => s

/-- `_cbWindow_BusData_1`. -/
def cbBusData1 : Touch → Console
  | .button 0 => s.goto .busData1 .busData2
  | .button 3 => s.goto .busData1 .home
  | .button 4 => s.gotoHelp .busData1 0x01
  | _ => s

/-- `_cbWindow_BusData_2`, which creates before it deletes. -/
def cbBusData2 : Touch → Console
  | .button 0 => (s.create .busData1).delete .busData2
  | .button 3 => (s.create .home).delete .busData2
  | .button 4 => ({ s with windowHelpCall := 0x02 }.create .help).delete .busData2
  | _ => s

/-- `_cbHistory_Energy_1`. Its number pad asks for no login. -/
def cbHistoryEnergy1 (maxpage : Nat) : Touch → Console
  | .edit _ => s.callNumberpad
  | .button 0 => s.gotoHelp .historyEnergy1 0x05
  | .button 1 => s.goto .historyEnergy1 .home
  | .button 2 => if 1 < maxpage then s.goto .historyEnergy1 .historyEnergy2 else s
  | _ => s

/-- `_cbHistory_Energy_2`. -/
def cbHistoryEnergy2 (pagenum : Nat) : Touch → Console
  | .button 0 => s.gotoHelp .historyEnergy2 0x06
  | .button 1 => s.goto .historyEnergy2 .historyEnergy1
  | .button 3 => if pagenum = 1 then s.goto .historyEnergy2 .historyEnergy1 else s
  | _ => s

/-- `_cbNowAlarm`. -/
def cbNowAlarm : Touch → Console
  | .button 0 => s.gotoHelp .nowAlarm 0x09
  | .button 1 => s.goto .nowAlarm .home
  | .button 2 => s.goto .nowAlarm .historyAlarm
  | _ => s

/-- `_cbWindow_HistoryAlarm`. Its `Refresh` clears the records. -/
def cbHistoryAlarm : Touch → Console
  | .button 1 => if s.userLogin = 0 then s.callKeypad 0x08 else s.almRecordClear
  | .button 3 => s.goto .historyAlarm .nowAlarm
  | .button 4 => s.gotoHelp .historyAlarm 0x10
  | _ => s

/-- The handlers of the two configuration pages: `call` is the first of the
three numbers they call the keypad with, `ok` their `Config_ok` and `box`
a touch of their boxes. -/
def cbSystemCon (page : Page) (call help window : Nat) (ok : Guarded) (box : Fin 6 → Console) :
    Touch → Console
  | .edit n => if s.LoggedIn then s.callEdit window n else s.create .keypad
  | .checkbox i => box i
  | .button 0 => { s with data := ok }
  | .button 1 => s.goto page .deviceInform
  | .button 2 => if s.LoggedIn then s.create .userloginClear else s.goto page .home
  | .button 3 => if s.userLogin = 0 then s.callKeypad call else s.acqMAXClear
  | .button 4 => if s.userLogin = 0 then s.callKeypad (call + 1) else s.create .energyClear
  | .button 5 =>
    if s.userLogin = 0 then s.callKeypad (call + 2)
    else if s.userLogin = 0xFF then s.create .changePassword
    else s
  | .button 6 => s.gotoHelp page help
  | _ => s

/-- `_cbSystem_ConD`. -/
def cbSystemConD (window : Nat) (f : Form) : Touch → Console :=
  s.cbSystemCon .systemConD 0x02 0x11 window (s.data.config (aDialogCreateD f.config) s.conD)
    fun i => { s with conD := (s.conD.checkbox s.userLogin i).paint }

/-- `_cbSystem_ConS`. -/
def cbSystemConS (window : Nat) (f : Form) : Touch → Console :=
  s.cbSystemCon .systemConS 0x05 0x13 window (s.data.config (aDialogCreateS f.config) s.conS)
    fun i => { s with conS := (s.conS.checkbox s.userLogin i).paint }

/-- `_cbDevice_Inform`. The widget of the device code takes no touch. -/
def cbDeviceInform (window : Nat) (f : Form) : Touch → Console
  | .edit n =>
    if n = 6 then s
    else if s.LoggedIn then s.callEdit window n
    else s.create .keypad
  | .button 0 => s.gotoHelp .deviceInform 0x12
  | .button 1 => s.gotoSystemCon .deviceInform
  | .button 2 => { s with data := s.data.deviceSet f.device }
  | _ => s

/-- What the keypad does for its caller after a manager's password, before
it goes to a configuration page. -/
def managerCall : Console :=
  match s.windowCallKeypad with
  | 0x02 => s.acqMAXClear.goto .keypad .systemConD
  | 0x03 => s.goto .keypad .energyClear
  | 0x04 => s.goto .keypad .changePassword
  | 0x05 => s.acqMAXClear.goto .keypad .systemConS
  | 0x06 => s.goto .keypad .energyClear
  | 0x07 => s.goto .keypad .changePassword
  | 0x08 => s.almRecordClear.goto .keypad .historyAlarm
  | _ => s

/-- What it does after the factory's. -/
def factoryCall : Console :=
  match s.windowCallKeypad with
  | 0x01 => s.gotoSystemCon .keypad
  | 0x02 => s.acqMAXClear.goto .keypad .systemConD
  | 0x03 => s.goto .keypad .energyClear
  | 0x05 => s.acqMAXClear.goto .keypad .systemConS
  | 0x06 => s.goto .keypad .energyClear
  | 0x07 => s.goto .keypad .changePassword
  | 0x08 => s.almRecordClear.goto .keypad .historyAlarm
  | _ => s

/-- The keypad's `OK`. -/
def keypadOk (f : Form) : Console :=
  match keypadLogin s.data.usrPassword f.role f.passWord with
  | none => { s with passWordError := true }
  | some login =>
    let s := { s with userLogin := login }
    if login = managerLogin then s.managerCall.gotoSystemCon .keypad else s.factoryCall

/-- The keypad's `Cancel`. -/
def keypadCancel : Console :=
  let s := match s.windowCallKeypad with
    | 0x02 | 0x03 | 0x04 => s.goto .keypad .systemConD
    | 0x05 | 0x06 | 0x07 => s.goto .keypad .systemConS
    | 0x08 => s.goto .keypad .historyAlarm
    | 0x01 => s.gotoSystemCon .keypad
    | _ => s
  { s with userLogin := 0 }

/-- `_cbKeypad`. -/
def cbKeypad (f : Form) : Touch → Console
  | .button 14 => s.keypadOk f
  | .button 10 => s.keypadCancel
  | _ => s

/-- `_cbNumberpad`. -/
def cbNumberpad : Touch → Console
  | .button 14 => { s with keyboardCall := 0 }.delete .numberpad
  | .button 10 => { s with keyboardCall := 0 }.delete .numberpad
  | _ => s

/-- `_cbEnergy`. -/
def cbEnergy : Touch → Console
  | .button 0 =>
    { s with data := s.data.acqEnergyClear.gPTEBaseTime }.gotoSystemCon .energyClear
  | .button 1 => s.gotoSystemCon .energyClear
  | _ => s

/-- `_cbChange_Password`. -/
def cbChangePassword (f : Form) : Touch → Console
  | .button 14 =>
    { s with data := s.data.changePassword f.change }.gotoSystemCon .changePassword
  | .button 10 => s.gotoSystemCon .changePassword
  | _ => s

/-- Leaving the configuration page of the bus mode for the home page. -/
def leaveSystemCon : Console :=
  let s := s.delete .userloginClear
  if s.data.optimset.setup.bBusMode = busModeS then s.goto .systemConS .home
  else s.goto .systemConD .home

/-- `_cbUserlogin_Clear`. -/
def cbUserloginClear : Touch → Console
  | .button 0 => { s with userLogin := 0 }.leaveSystemCon
  | .button 1 => s.leaveSystemCon
  | _ => s

/-- `_cbWindow_Help`. The factory's login can reset the monitor here. -/
def cbHelp : Touch → Console
  | .button 0 =>
    match s.windowHelpCall with
    | 0x01 => s.goto .help .busData1
    | 0x02 => s.goto .help .busData2
    | 0x05 => s.goto .help .historyEnergy1
    | 0x06 => s.goto .help .historyEnergy2
    | 0x09 => s.goto .help .nowAlarm
    | 0x10 => s.goto .help .historyAlarm
    | 0x11 => s.goto .help .systemConD
    | 0x12 => s.goto .help .deviceInform
    | 0x13 => s.goto .help .systemConS
    | _ => s
  | .button 1 => if s.userLogin = 0xCC then powerOn s.data.fram s.data.rtc else s
  | _ => s

/-- The handler of a page. -/
def handle (t : ScreenTouch) (f : Form) : Console :=
  match f.page with
  | .home => s.cbHome t.touch
  | .busData1 => s.cbBusData1 t.touch
  | .busData2 => s.cbBusData2 t.touch
  | .systemConS => s.cbSystemConS t.window f t.touch
  | .deviceInform => s.cbDeviceInform t.window f t.touch
  | .nowAlarm => s.cbNowAlarm t.touch
  | .historyAlarm => s.cbHistoryAlarm t.touch
  | .keypad => s.cbKeypad f t.touch
  | .numberpad => s.cbNumberpad t.touch
  | .historyEnergy1 => s.cbHistoryEnergy1 t.maxpage t.touch
  | .historyEnergy2 => s.cbHistoryEnergy2 t.pagenum t.touch
  | .systemConD => s.cbSystemConD t.window f t.touch
  | .energyClear => s.cbEnergy t.touch
  | .userloginClear => s.cbUserloginClear t.touch
  | .help => s.cbHelp t.touch
  | .changePassword => s.cbChangePassword f t.touch

/-- The windows that are not hidden. -/
def shown : List Form := Screen.shown Form.full s.windows

/-- Their pages, the ones a touch can reach. -/
def visible : List Page := s.shown.map (·.page)

/-- The pages there are. -/
def pages : List Page := (s.windows.map (·.content)).map (·.page)

/-- A pad with keys is on the screen. -/
def padShown : Bool :=
  s.visible.any fun p => p = .keypad || p = .numberpad || p = .changePassword

/-- The keys of a pad go to the edit widget with the focus. -/
def keys (window edit : Nat) (text : List Char) : Console :=
  s.update window fun f => if s.padShown && f.focussable edit then f.setText edit text else f

/-- What happens. A window that is hidden takes no part in it. -/
def step (e : ScreenEvent) : Console :=
  match e with
  | .touch t =>
    match s.shown[t.window]? with
    | some f => s.handle t f
    | none => s
  | .keys window edit text => if window < s.shown.length then s.keys window edit text else s
  | .item window item =>
    if window < s.shown.length then s.update window (·.select item) else s

end Console

end BusMonitor
