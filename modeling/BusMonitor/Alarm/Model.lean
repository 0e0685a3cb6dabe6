import BusMonitor.Alarm.Record
/-!
# The alarm component

The state of `app_Alarm.c` and its functions, as the source computes
them. `gAlmMessage` is the packed structure: the 20 entries of `BusAlm`
followed by the 144 of `BranchAlm`, so an event's entry there and its
entry in `LAlmState` have the same index. An access that leaves the array
it names is recorded in `stray`, besides what it does to the memory. The
routines of the handler are the lists of evaluations they make, in order.
-/


namespace BusMonitor

open Recent LittleEndian

/-! ## Events and alarm types -/

/-- An alarm event: one of the 20 of the two busbars, or a branch. -/
inductive AlmEvent
  | bus (e : Fin 20)
  | branch (k : Fin 144)
  deriving DecidableEq, Repr

def eAlmEventAUa : Fin 20 := 0x00
def eAlmEventAUb : Fin 20 := 0x01
def eAlmEventAUc : Fin 20 := 0x02
def eAlmEventAIa : Fin 20 := 0x03
def eAlmEventAIb : Fin 20 := 0x04
def eAlmEventAIc : Fin 20 := 0x05
def eAlmEventAP : Fin 20 := 0x06
def eAlmEventAF : Fin 20 := 0x07
def eAlmEventAQF : Fin 20 := 0x08
def eAlmEventASPD : Fin 20 := 0x09
def eAlmEventBQF : Fin 20 := 0x12
def eAlmEventBSPD : Fin 20 := 0x13
def eAlmEventSW : Nat := 0x20

namespace AlmEvent

/-- The event's code. -/
def code : AlmEvent → Nat
  | bus e => e
  | branch k => eAlmEventSW + k

/-- The code as the byte a record keeps. -/
def byte (e : AlmEvent) : UInt8 := UInt8.ofNat e.code

/-- The index of the event in `LAlmState`, and in the packed
`gAlmMessage`. -/
def slot : AlmEvent → Fin 164
  | bus e => ⟨e, by omega⟩
  | branch k => ⟨20 + k, by omega⟩

theorem slot_injective : Function.Injective slot := by
  rintro (a | a) (b | b) h <;> simp only [slot, Fin.mk.injEq] at h
  · rw [Fin.ext h]
  · omega
  · omega
  · rw [Fin.ext (by omega : (a : Nat) = b)]

@[simp] theorem slot_inj {e e' : AlmEvent} : e.slot = e'.slot ↔ e = e' :=
  slot_injective.eq_iff

theorem byte_injective : Function.Injective byte := by
  rintro (a | a) (b | b) h <;>
    simp only [byte, code, eAlmEventSW, UInt8.ofNat_eq_iff_mod_eq_toNat, UInt8.toNat_ofNat'] at h
  · rw [Fin.ext (by omega : (a : Nat) = b)]
  · omega
  · omega
  · rw [Fin.ext (by omega : (a : Nat) = b)]

/-- Every entry of the table belongs to an event. -/
theorem slot_surjective (i : Fin 164) : ∃ e : AlmEvent, e.slot = i := by
  rcases Nat.lt_or_ge i 20 with h | h
  · exact ⟨bus ⟨i, h⟩, rfl⟩
  · exact ⟨branch ⟨i - 20, by omega⟩, Fin.ext (by simp only [slot]; omega)⟩

end AlmEvent

def eAlmTypeNormal : UInt8 := 0
def eAlmTypeUnder : UInt8 := 1
def eAlmTypeIOTrip : UInt8 := 1
def eAlmTypeOver : UInt8 := 2
def eAlmTypeOverSec : UInt8 := 3

/-- Branch in use, closed. -/
def eActiveON : UInt8 := 0
/-- Branch in use, tripped. -/
def eActiveOFF : UInt8 := 1

/-- The marker of a value that is not monitored. -/
def notMonitored : UInt8 := 0x20

/-! ## State -/

/-- The horn, the lamp and the LED. -/
structure Outputs where
  aural : Bool
  visual : Bool
  led : Bool
  deriving DecidableEq, Repr, Inhabited

def Outputs.on : Outputs := ⟨true, true, true⟩
def Outputs.off : Outputs := ⟨false, false, false⟩

/-- An access outside the array it names. -/
inductive StrayAccess
  | branchAlm (i : Int)
  | gRTAlmRecord (i : Nat)
  deriving DecidableEq, Repr

/-- A table with the entry of an event set. -/
def setSlot (table : Vector UInt8 164) (e : AlmEvent) (v : UInt8) : Vector UInt8 164 :=
  table.set e.slot v

theorem getElem_setSlot (table : Vector UInt8 164) (e e' : AlmEvent) (v : UInt8) :
    (setSlot table e v)[e'.slot] = if e' = e then v else table[e'.slot] := by
  unfold setSlot
  simp only [Fin.getElem_fin, Vector.getElem_set]
  by_cases he : e' = e
  · rw [if_pos he, if_pos (by rw [he])]
  · rw [if_neg he, if_neg fun hv => he (AlmEvent.slot_inj.1 (Fin.ext hv)).symm]

/-- The variables of `app_Alarm.c`, the FRAM and the outputs. -/
structure AlmState where
  gAlmMessage : Vector UInt8 164
  lAlmState : Vector UInt8 164
  gRTAlmRecord : Vector AlmRecord 10
  rtAlmIndex : Nat
  gPTAlmRecord : AlmRecord
  gPTAlmRelate : PTAlmRelate
  ucPCProtoDataFlag : UInt8
  outputs : Outputs
  fram : Mem
  stray : List StrayAccess

namespace AlmState

/-- The entry of an event in `gAlmMessage`. -/
def entry (s : AlmState) (e : AlmEvent) : UInt8 := s.gAlmMessage[e.slot]

/-- The remembered alarm state of an event. -/
def last (s : AlmState) (e : AlmEvent) : UInt8 := s.lAlmState[e.slot]

/-- `gAlmMessage.BusAlm[e] = v`, `gAlmMessage.BranchAlm[k] = v`. -/
def setEntry (s : AlmState) (e : AlmEvent) (v : UInt8) : AlmState :=
  { s with gAlmMessage := setSlot s.gAlmMessage e v }

/-- `gAlmMessage.BranchAlm[i] = v` for a computed index. `BranchAlm` starts
at byte 20 of the packed structure, and a negative index reaches the bytes
before it. -/
def setBranchAlm (s : AlmState) (i : Int) (v : UInt8) : AlmState :=
  { s with
    gAlmMessage := if h : 0 ≤ 20 + i ∧ 20 + i < 164 then
        s.gAlmMessage.set (20 + i).toNat v (by omega)
      else s.gAlmMessage
    stray := if 0 ≤ i ∧ i < maxBranchNum then s.stray else s.stray ++ [.branchAlm i] }

/-- An assignment to `gRTAlmRecord[RTAlmIndex]`. -/
def setRTRecord (s : AlmState) (f : AlmRecord → AlmRecord) : AlmState :=
  if h : s.rtAlmIndex < 10 then
    { s with gRTAlmRecord := s.gRTAlmRecord.set s.rtAlmIndex (f s.gRTAlmRecord[s.rtAlmIndex]) }
  else { s with stray := s.stray ++ [.gRTAlmRecord s.rtAlmIndex] }

/-- An assignment to `gPTAlmRecord`. -/
def setPTRecord (s : AlmState) (f : AlmRecord → AlmRecord) : AlmState :=
  { s with gPTAlmRecord := f s.gPTAlmRecord }

end AlmState

/-! ## History -/

/-- The records moved down by one place, the last one kept. -/
def shiftDown (v : Vector AlmRecord 10) : Vector AlmRecord 10 :=
  Vector.ofFn fun i => if h : i.1 + 1 < 10 then v[i.1 + 1] else v[i]

/-- The block every alarm branch opens with: a full list of real-time
records drops its oldest. -/
def rtShift (s : AlmState) : AlmState :=
  if s.rtAlmIndex ≥ rtAlmItem then
    { s with gRTAlmRecord := shiftDown s.gRTAlmRecord, rtAlmIndex := rtAlmItem - 1 }
  else s

/-- The index after the next record, and the full flag. -/
def PTAlmRelate.advance (h : PTAlmRelate) : PTAlmRelate :=
  let i := (h.almIndex + 1) % 2 ^ 16
  if i ≥ ptAlmItem then ⟨1, 0⟩ else ⟨h.fullFlag, i⟩

/-- `Alm_Generate`. -/
def almGenerate (s : AlmState) (now : Stamp) : AlmState :=
  let r := { s.gPTAlmRecord with flag := generateFlag, generate := now }
  let h := s.gPTAlmRelate.advance
  let s := { s with
    gPTAlmRecord := r
    gPTAlmRelate := h
    fram := (s.fram.write (slotAddr s.gPTAlmRelate.almIndex) r.toBytes).write headerAddr h.toBytes }
  let s := s.setRTRecord fun q => { q with flag := generateFlag, generate := now }
  { s with outputs := .on }

/-- The address of the terminate time in a slot. -/
def closingAddr (i : Nat) : Nat := (slotAddr i + fmOffsetAlmRecord) % 2 ^ 16

/-- One search loop of `Alm_Terminate`: the slots are read in turn, and
the first with the event is closed. -/
def searchSlots (s : AlmState) (e : UInt8) (now : Stamp) : List Nat → AlmState × Bool
  | [] => (s, false)
  | i :: is =>
    let r := slot s.fram i
    if r.almEvent = e then
      ({ s with
        gPTAlmRecord := r.close now
        fram := s.fram.write (closingAddr i) (r.close now).closingBytes }, true)
    else searchSlots { s with gPTAlmRecord := r } e now is

/-- `Alm_Terminate`. -/
def almTerminate (s : AlmState) (e : UInt8) (now : Stamp) : AlmState :=
  let i := s.gPTAlmRelate.almIndex
  let s :=
    if s.gPTAlmRelate.fullFlag = 0 then (searchSlots s e now (below i)).1
    else
      let (s, found) := searchSlots s e now (below i)
      -- the second loop runs from slot 500 down
      if found then s else (searchSlots s e now (above i 501)).1
  s.setRTRecord fun q => { q with flag := terminateFlag, terminate := now }

/-- `Alm_RecordClear`. -/
def almRecordClear (s : AlmState) : AlmState :=
  { s with
    rtAlmIndex := 0
    gPTAlmRelate := ⟨0, 0⟩
    fram := s.fram.write headerAddr (PTAlmRelate.mk 0 0).toBytes }

/-- `AlmRelate_Init`. -/
def almRelateInit (s : AlmState) : AlmState :=
  if readWord s.fram fmAddrPastAlm = initMark then
    { s with gPTAlmRelate := readHeader s.fram }
  else
    { s with
      gPTAlmRelate := ⟨0, 0⟩
      fram := (s.fram.write fmAddrPastAlm (encode 2 initMark)).write headerAddr
        (PTAlmRelate.mk 0 0).toBytes }

/-- The variables as a reset leaves them, before any initialisation. -/
def AlmState.reset (fram : Mem) : AlmState where
  gAlmMessage := Vector.replicate 164 0
  lAlmState := Vector.replicate 164 0
  gRTAlmRecord := Vector.replicate 10 default
  rtAlmIndex := 0
  gPTAlmRecord := default
  gPTAlmRelate := ⟨0, 0⟩
  ucPCProtoDataFlag := 0
  outputs := .off
  fram := fram
  stray := []

/-- Power-up: the variables are cleared and `AlmRelate_Init` runs. -/
def AlmState.powerUp (fram : Mem) : AlmState := almRelateInit (.reset fram)

/-! ## Evaluation -/

/-- The end of `AlmComp`: the real-time index advances, the PC is told of
a new alarm message, and the state is remembered. -/
def AlmState.remember (s : AlmState) (cState : UInt8) (e : AlmEvent) : AlmState :=
  { s with
    rtAlmIndex := (s.rtAlmIndex + 1) % 256
    ucPCProtoDataFlag := s.ucPCProtoDataFlag ||| 1
    lAlmState := setSlot s.lAlmState e cState }

/-- `AlmComp`. -/
def almComp (s : AlmState) (cState : UInt8) (e : AlmEvent) (now : Stamp) : AlmState :=
  if cState ≠ eAlmTypeNormal then (almGenerate s now).remember cState e
  else (almTerminate s e.byte now).remember cState e

/-- The block of an alarm branch. `ptType` is what the branch does to the
alarm type of the cached history record. -/
def raise (s : AlmState) (e : AlmEvent) (almType : UInt8) (value : Single) (thr : UInt16)
    (ptType : UInt8 → UInt8) (now : Stamp) : AlmState :=
  almComp
    ((((rtShift s).setEntry e almType).setRTRecord fun r => { r with
        almType := almType, almEvent := e.byte, fCurrentValue := value,
        usThresholdValue := thr }).setPTRecord fun r => { r with
      almType := ptType r.almType, almEvent := e.byte, fCurrentValue := value,
      usThresholdValue := thr })
    almType e now

/-- The block of a normal branch. `thr` is the threshold it stores for an
alarm state, where it stores one. -/
def settle (s : AlmState) (e : AlmEvent) (value : Single) (thr : UInt8 → Option UInt16)
    (now : Stamp) : AlmState :=
  almComp
    (((rtShift s).setEntry e eAlmTypeNormal).setRTRecord fun r => { r with
      almType := s.last e, almEvent := e.byte, fCurrentValue := value,
      usThresholdValue := (thr (s.last e)).getD r.usThresholdValue })
    eAlmTypeNormal e now

/-- `AlmType_VoltFreq`. Its upper branch leaves the alarm type of the
cached history record as it was. -/
def almTypeVoltFreq (s : AlmState) (value : Single) (upperL lowerL : UInt16) (e : Fin 20)
    (now : Stamp) : AlmState :=
  if value.eqNat 0x20 then s.setEntry (.bus e) notMonitored
  else if value.geNat upperL.toNat then
    if s.last (.bus e) ≠ eAlmTypeOver then
      raise s (.bus e) eAlmTypeOver value upperL (fun t => t) now
    else s
  else if value.leNat lowerL.toNat then
    if s.last (.bus e) ≠ eAlmTypeUnder then
      raise s (.bus e) eAlmTypeUnder value lowerL (fun _ => eAlmTypeUnder) now
    else s
  else
    if s.last (.bus e) ≠ eAlmTypeNormal then
      settle s (.bus e) value (fun t => if t = eAlmTypeOver then some upperL
        else if t = eAlmTypeUnder then some lowerL else none) now
    else s

/-- `AlmType_Current`. -/
def almTypeCurrent (s : AlmState) (value : Single) (upperL ultUpperL : UInt16) (e : Fin 20)
    (now : Stamp) : AlmState :=
  if value.eqNat 0x20 then s.setEntry (.bus e) notMonitored
  else if value.geNat ultUpperL.toNat then
    if s.last (.bus e) ≠ eAlmTypeOverSec then
      raise s (.bus e) eAlmTypeOverSec value ultUpperL (fun _ => eAlmTypeOverSec) now
    else s
  else if value.geNat upperL.toNat then
    if s.last (.bus e) ≠ eAlmTypeOver then
      raise s (.bus e) eAlmTypeOver value upperL (fun _ => eAlmTypeOver) now
    else s
  else
    if s.last (.bus e) ≠ eAlmTypeNormal then
      settle s (.bus e) value (fun t => if t = eAlmTypeOverSec then some ultUpperL
        else if t = eAlmTypeOver then some upperL else none) now
    else s

/-- `AlmType_Power`. -/
def almTypePower (s : AlmState) (value : Single) (upperL : UInt16) (e : Fin 20)
    (now : Stamp) : AlmState :=
  if value.eqNat 0x20 then s.setEntry (.bus e) notMonitored
  else if value.geNat upperL.toNat then
    if s.last (.bus e) ≠ eAlmTypeOver then
      raise s (.bus e) eAlmTypeOver value upperL (fun _ => eAlmTypeOver) now
    else s
  else
    if s.last (.bus e) ≠ eAlmTypeNormal then
      settle s (.bus e) value (fun _ => some upperL) now
    else s

/-- `AlmType_IO`. The bus and the branch cases of the source differ only in
the entries they name. -/
def almTypeIO (s : AlmState) (state : UInt8) (e : AlmEvent) (now : Stamp) : AlmState :=
  if state = 0x20 then s.setBranchAlm ((e.code : Int) - eAlmEventSW) notMonitored
  else if state = eActiveOFF then
    if s.last e ≠ eAlmTypeIOTrip then
      raise s e eAlmTypeIOTrip (.ofByte state) eActiveOFF.toUInt16 (fun _ => eAlmTypeIOTrip) now
    else s
  else if state = eActiveON then
    if s.last e ≠ eAlmTypeNormal then
      settle s e (.ofByte state) (fun _ => some eActiveOFF.toUInt16) now
    else s
  else s

/-! ## The handler -/

/-- One evaluation, with its arguments. -/
inductive Call
  | voltFreq (value : Single) (upperL lowerL : UInt16) (e : Fin 20)
  | current (value : Single) (upperL ultUpperL : UInt16) (e : Fin 20)
  | power (value : Single) (upperL : UInt16) (e : Fin 20)
  | io (state : UInt8) (e : AlmEvent)
  deriving DecidableEq

/-- The event a call evaluates. -/
def Call.event : Call → AlmEvent
  | .voltFreq _ _ _ e => .bus e
  | .current _ _ _ e => .bus e
  | .power _ _ e => .bus e
  | .io _ e => e

/-- Running a call. -/
def AlmState.eval (s : AlmState) (c : Call) (now : Stamp) : AlmState :=
  match c with
  | .voltFreq value upperL lowerL e => almTypeVoltFreq s value upperL lowerL e now
  | .current value upperL ultUpperL e => almTypeCurrent s value upperL ultUpperL e now
  | .power value upperL e => almTypePower s value upperL e now
  | .io state e => almTypeIO s state e now

/-- The switches of the busbars, the first half of `Alm_BusState`. -/
def switchCalls (x : Sample) : List Call :=
  let mode := x.optimset.setup.bBusMode
  if mode = busModeS then
    [.io (x.busStatus.get 0).bQF (.bus eAlmEventAQF), .io (x.busStatus.get 1).bQF (.bus eAlmEventBQF)]
  else if mode = busModeD then
    [.io (x.busStatus.get 0).bQF (.bus eAlmEventAQF), .io 0x20 (.bus eAlmEventBQF)]
  else if mode = busModeH ∨ mode = busModeY then
    [if (x.busStatus.get 0).bQF = 1 ∧ (x.busStatus.get 1).bQF = 1 then .io 0x01 (.bus eAlmEventAQF)
      else .io 0x00 (.bus eAlmEventAQF),
     .io 0x20 (.bus eAlmEventBQF)]
  else []

/-- The arresters of the busbars, the second half of `Alm_BusState`. -/
def arresterCalls (x : Sample) : List Call :=
  let mode := x.optimset.setup.bBusMode
  if x.optimset.setup.bSPD = 1 then
    .io (x.busStatus.get 0).bSPD (.bus eAlmEventASPD) ::
      if mode = busModeS ∨ mode = busModeY then
        [.io (x.busStatus.get 1).bSPD (.bus eAlmEventBSPD)] else []
  else
    .io 0x20 (.bus eAlmEventASPD) ::
      if mode = busModeD ∨ mode = busModeH then [.io 0x20 (.bus eAlmEventBSPD)] else []

/-- The evaluations of `Alm_BusState`. -/
def almBusState (x : Sample) : List Call := switchCalls x ++ arresterCalls x

/-- `eAlmEvent_Ax + Num * 10`. -/
def busEvent (e : Fin 10) (num : Fin 2) : Fin 20 := ⟨e + num * 10, by omega⟩

/-- `usRateI[Num] * percent / 100`, cut to 16 bits. -/
def currentLimit (rate : UInt16) (percent : UInt8) : UInt16 :=
  UInt16.ofNat (rate.toNat * percent.toNat / 100)

/-- The evaluations of `Alm_BusbarVariable(Num)`. -/
def almBusbarVariable (x : Sample) (num : Fin 2) : List Call :=
  let o := x.optimset
  let v := (x.acqBusVar.get num)
  let upperL := currentLimit (o.usRateI.get num) o.ucOCThrFst
  let ultUpperL := currentLimit (o.usRateI.get num) o.ucOCThrSec
  [.voltFreq v.fUa o.usOVThr o.usUVThr (busEvent 0 num),
   .voltFreq v.fUb o.usOVThr o.usUVThr (busEvent 1 num),
   .voltFreq v.fUc o.usOVThr o.usUVThr (busEvent 2 num),
   .voltFreq v.fF o.usOFThr o.usUFThr (busEvent 7 num),
   .current v.fIa upperL ultUpperL (busEvent 3 num),
   .current v.fIb upperL ultUpperL (busEvent 4 num),
   .current v.fIc upperL ultUpperL (busEvent 5 num),
   .power v.fPt (o.usOPThr.get num) (busEvent 6 num)]

/-- The evaluations of `Alm_BranchState`. -/
def almBranchState (x : Sample) : List Call :=
  if x.optimset.setup.bQF = 1 then
    (List.finRange 144).map fun i => .io (x.ucBranchState.get i) (.branch i)
  else
    (List.finRange 144).map fun i => .io 0x20 (.branch i)

/-- The evaluations of one pass of `Alm_AllHandler`, in order. -/
def passCalls (x : Sample) : List Call :=
  almBusState x ++
  if x.optimset.setup.bBusMode = busModeD ∨ x.optimset.setup.bBusMode = busModeH then
    almBusbarVariable x 0 ++ almBranchState x
  else almBusbarVariable x 0 ++ almBusbarVariable x 1 ++ almBranchState x

/-- The evaluations of a pass, each with the time the clock shows to its
event. -/
def runCalls (s : AlmState) (cs : List Call) (now : AlmEvent → Stamp) : AlmState :=
  cs.foldl (fun s c => s.eval c (now c.event)) s

/-- `Alm_AllHandler`: every event is evaluated, and where no entry of the
table is set the outputs go off. -/
def almAllHandler (s : AlmState) (x : Sample) (now : AlmEvent → Stamp) : AlmState :=
  let s := runCalls s (passCalls x) now
  if s.gAlmMessage.toList.any (· ≠ 0) then s else { s with outputs := .off }

end BusMonitor
