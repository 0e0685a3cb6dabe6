import BusMonitor.Fram.Regions
import BusMonitor.Fram.Wire
import Mathlib.Data.List.Infix
/-!
# Runs of calls to the FRAM driver

What the callers of `bsp_Fram.c` see is a byte memory that may refuse a
transfer at any of its bytes. `calls_refine` is the refinement: the answers
of any calls over the two wires are those of the byte memory. From it come
that a block written stays until it is written again, and that the device
keeps on its FRAM what it keeps in the model's memory.
-/


namespace BusMonitor

open I2C Stepwise

/-- A call: `Fram_I2C_CheckOK`, `Fram_I2C_Read`, `Fram_I2C_Write`. -/
inductive FramCall
  | checkOK
  | read (usAddr usSize : UInt16)
  | write (ucBuff : List UInt8) (usAddr : UInt16)

/-- What a call returns: a code, or the bytes it stores, if any. -/
inductive FramAnswer
  | code (v : UInt8)
  | data (o : Option (List UInt8))
  deriving DecidableEq

/-- The bytes of the memory, and how many were sent to it. -/
structure FramBytes where
  mem : Mem
  seen : Nat

namespace FramCall

/-- The call on the bus. -/
def perform {σ : Type*} (S : Slave σ) (b : Bus σ) : FramCall → FramAnswer × Bus σ
  | .checkOK => (framI2CCheckOK S framDevAddr b).map .code id
  | .read usAddr usSize => (framI2CRead S usAddr usSize b).map .data id
  | .write ucBuff usAddr => (framI2CWrite S ucBuff usAddr b).map .code id

/-- The bytes it sends when none is refused. -/
def frames : FramCall → List UInt8
  | .checkOK => [framDevAddr ||| framI2CWr]
  | .read usAddr _ => framHead usAddr ++ [framDevAddr ||| framI2CRd]
  | .write ucBuff usAddr => framHead usAddr ++ ucBuff

/-- None of them is refused. -/
def Passes (takes : Nat → Bool) (f : FramBytes) (c : FramCall) : Prop :=
  taken takes f.seen c.frames = c.frames

instance (takes : Nat → Bool) (f : FramBytes) (c : FramCall) : Decidable (c.Passes takes f) :=
  inferInstanceAs (Decidable (_ = _))

/-- The call as the byte memory answers it. -/
def answer (takes : Nat → Bool) (f : FramBytes) (c : FramCall) : FramAnswer :=
  match c with
  | .checkOK => .code (if c.Passes takes f then 0 else 1)
  | .read usAddr usSize =>
    .data (if c.Passes takes f then
      some (readRound framSize f.mem (usAddr.toNat % framSize) usSize.toNat) else none)
  | .write .. => .code (if c.Passes takes f then 1 else 0)

/-- The byte memory after it. A write stores what is taken of it. -/
def after (takes : Nat → Bool) (f : FramBytes) (c : FramCall) : FramBytes where
  mem := match c with
    | .write _ usAddr => storeRound framSize f.mem (usAddr.toNat % framSize)
        ((taken takes f.seen c.frames).drop 3)
    | _ => f.mem
  seen := f.seen + sent takes f.seen c.frames

/-- A read asks for a byte at least. -/
def Sized : FramCall → Prop
  | .read _ usSize => usSize ≠ 0
  | _ => True

instance : (c : FramCall) → Decidable c.Sized
  | .read _ usSize => inferInstanceAs (Decidable (usSize ≠ 0))
  | .checkOK => isTrue trivial
  | .write .. => isTrue trivial

/-- Calls one after the other. -/
def performAll {σ : Type*} (S : Slave σ) : Bus σ → List FramCall → List FramAnswer × Bus σ
  | b, [] => ([], b)
  | b, c :: cs =>
    let r := c.perform S b
    let rest := performAll S r.2 cs
    (r.1 :: rest.1, rest.2)

/-- Their answers by the byte memory. -/
def answers (takes : Nat → Bool) : FramBytes → List FramCall → List FramAnswer
  | _, [] => []
  | f, c :: cs => c.answer takes f :: answers takes (c.after takes f) cs

variable {takes : Nat → Bool} {f : FramBytes} {b : Bus I2C.Chip}

variable (takes) in
/-- **One call** is answered by the byte memory, and leaves the bus idle. -/
theorem perform_spec (hb : Idle b f.mem f.seen) {c : FramCall} (hc : c.Sized) :
    (c.perform (framChip takes) b).1 = c.answer takes f ∧
    Idle (c.perform (framChip takes) b).2 (c.after takes f).mem (c.after takes f).seen := by
  cases c with
  | checkOK =>
    obtain ⟨hret, hidle⟩ := checkOK_spec takes hb
    have hpass : FramCall.checkOK.Passes takes f ↔ takes f.seen = true := by
      cases h : takes f.seen <;> simp [Passes, frames, taken, h]
    have hsent : sent takes f.seen FramCall.checkOK.frames = 1 := by
      cases h : takes f.seen <;> simp [frames, sent, h]
    refine ⟨congrArg FramAnswer.code (hret.trans (if_congr hpass.symm rfl rfl)), ?_⟩
    unfold after
    rw [hsent]
    exact hidle
  | read usAddr usSize =>
    obtain ⟨hret, hidle⟩ := read_spec takes hb usAddr usSize hc
    exact ⟨congrArg FramAnswer.data hret, hidle⟩
  | write ucBuff usAddr =>
    obtain ⟨hret, hidle⟩ := write_spec takes hb ucBuff usAddr
    exact ⟨congrArg FramAnswer.code hret, hidle⟩

theorem answers_append (cs cs' : List FramCall) :
    answers takes f (cs ++ cs') =
      answers takes f cs ++ answers takes (run (after takes) f cs) cs' := by
  induction cs generalizing f with
  | nil => rfl
  | cons c cs ih => exact congrArg (c.answer takes f :: ·) ih

variable (takes) in
/-- **A run of calls** is answered by the byte memory. -/
theorem performAll_spec (hb : Idle b f.mem f.seen) {cs : List FramCall}
    (hcs : ∀ c ∈ cs, c.Sized) :
    (performAll (framChip takes) b cs).1 = answers takes f cs ∧
    Idle (performAll (framChip takes) b cs).2 (run (after takes) f cs).mem
      (run (after takes) f cs).seen := by
  induction cs generalizing f b with
  | nil => exact ⟨rfl, hb⟩
  | cons c cs ih =>
    obtain ⟨hc, hcs⟩ := List.forall_mem_cons.1 hcs
    obtain ⟨hret, hidle⟩ := perform_spec takes hb hc
    obtain ⟨hrest, hend⟩ := ih hidle hcs
    refine ⟨?_, hend⟩
    rw [performAll, answers, ← hret, ← hrest]

variable (takes) in
/-- **Refinement.** The pins are set up over a memory that may be anywhere
in a transfer, as long as it does not hold SDA. Whatever bytes it refuses
afterwards, the calls are answered as by the byte memory, and the bus is
idle after them. -/
theorem calls_refine {s : I2C.Chip} (hs : (Chip.fall (framConfig takes) s).out = true)
    {cs : List FramCall} (hcs : ∀ c ∈ cs, c.Sized) :
    let f : FramBytes := ⟨(Chip.fall (framConfig takes) s).mem,
      (Chip.fall (framConfig takes) s).seen⟩
    let r := performAll (framChip takes) (framGPIOInit (framChip takes) ⟨true, true, s⟩) cs
    r.1 = answers takes f cs ∧
    Idle r.2 (run (after takes) f cs).mem (run (after takes) f cs).seen :=
  performAll_spec takes (framGPIOInit_idle hs) hcs

/-- A memory that refuses the sixth byte and the twenty-first. -/
def refusing (i : Nat) : Bool := i != 5 && i != 20

/-- Left in the middle of a byte: a write cut off behind two bytes, what
there is of it, and a read that is refused. -/
theorem calls_refine_torn :
    (performAll (framChip refusing)
      (framGPIOInit (framChip refusing) ⟨true, true, ⟨fun _ => 0, 0, .listen .data [true], 0⟩⟩)
      [.write [1, 2, 3, 4] 0x7FFF, .read 0x7FFF 3, .write [9] 0x8000, .checkOK, .read 0 1,
        .checkOK, .read 0 1]).1 =
      [.code 0, .data (some [1, 2, 0]), .code 1, .code 0, .data (some [9]), .code 0,
        .data none] :=
  (calls_refine refusing (s := ⟨fun _ => 0, 0, .listen .data [true], 0⟩) (by decide)
    (by decide)).1.trans (by decide +kernel)

/-! ## A block stays -/

/-- The call leaves the `n` bytes from `a` on alone. -/
def Apart (a n : Nat) : FramCall → Prop
  | .write ucBuff usAddr => usAddr.toNat + ucBuff.length ≤ framSize ∧
      (a + n ≤ usAddr.toNat ∨ usAddr.toNat + ucBuff.length ≤ a)
  | _ => True

instance (a n : Nat) : (c : FramCall) → Decidable (c.Apart a n)
  | .write .. => inferInstanceAs (Decidable (_ ∧ (_ ∨ _)))
  | .checkOK => isTrue trivial
  | .read .. => isTrue trivial

variable (takes) in
/-- What is stored of a write is a part of it, from its first byte on. -/
theorem stored_isPrefix (ucBuff : List UInt8) (usAddr : UInt16) :
    (taken takes f.seen (FramCall.write ucBuff usAddr).frames).drop 3 <+: ucBuff := by
  have hpre : taken takes f.seen (framHead usAddr ++ ucBuff) <+: framHead usAddr ++ ucBuff :=
    taken_isPrefix takes f.seen _
  exact List.IsPrefix.drop hpre 3

/-- A write that ends in the FRAM is one of the byte memory. -/
theorem after_write {ucBuff : List UInt8} {usAddr : UInt16}
    (hin : usAddr.toNat + ucBuff.length ≤ framSize) :
    ((FramCall.write ucBuff usAddr).after takes f).mem = f.mem.write usAddr.toNat
      ((taken takes f.seen (FramCall.write ucBuff usAddr).frames).drop 3) := by
  have hpre := stored_isPrefix takes (f := f) ucBuff usAddr
  have hlen := hpre.length_le
  unfold after
  dsimp only
  rcases eq_or_ne ucBuff [] with rfl | hpos
  · rw [List.prefix_nil.1 hpre, Mem.write_nil]
    rfl
  · have hone := List.length_pos_iff.2 hpos
    rw [Nat.mod_eq_of_lt (by omega), storeRound_eq_write (by omega)]

theorem after_read_apart {a n : Nat} {c : FramCall} (hc : c.Apart a n) :
    (c.after takes f).mem.read a n = f.mem.read a n := by
  cases c with
  | checkOK => rfl
  | read usAddr usSize => rfl
  | write ucBuff usAddr =>
    have hlen := (stored_isPrefix takes (f := f) ucBuff usAddr).length_le
    obtain ⟨hin, hor⟩ := hc
    rw [after_write hin]
    exact Mem.read_write_disjoint (by omega)

theorem run_read_apart {a n : Nat} {cs : List FramCall} (hcs : ∀ c ∈ cs, c.Apart a n) :
    (run (after takes) f cs).mem.read a n = f.mem.read a n :=
  Meets.invariant (I := fun g => g.mem.read a n = f.mem.read a n)
    ((@meets_forall _ _ (after takes) _ f cs).2 hcs) rfl
    fun _ _ hg hc => (after_read_apart hc).trans hg

variable (takes) in
/-- **A block stays.** Once its write has returned 1, and whatever calls
come after it that write elsewhere and whatever is refused in them, a read
of the block fails or gives it back. -/
theorem block_stays (hb : Idle b f.mem f.seen) (bs : List UInt8) {usAddr usSize : UInt16}
    (hsize : usSize.toNat = bs.length) (hpos : bs ≠ [])
    (hin : usAddr.toNat + bs.length ≤ framSize) (cs : List FramCall)
    (hcs : ∀ c ∈ cs, c.Sized ∧ c.Apart usAddr.toNat bs.length) :
    let w := (FramCall.write bs usAddr).perform (framChip takes) b
    let rest := performAll (framChip takes) w.2 cs
    let r := (FramCall.read usAddr usSize).perform (framChip takes) rest.2
    w.1 = .code 1 → r.1 = .data none ∨ r.1 = .data (some bs) := by
  intro w rest r hw
  have hsized : (FramCall.read usAddr usSize).Sized := by
    rintro rfl
    exact hpos (List.length_eq_zero_iff.1 hsize.symm)
  obtain ⟨hret, hidle⟩ := perform_spec takes hb (c := .write bs usAddr) trivial
  obtain ⟨-, hend⟩ := performAll_spec takes hidle fun c hc => (hcs c hc).1
  obtain ⟨hread, -⟩ := perform_spec takes hend hsized
  -- all of the write was taken
  have hpass : (FramCall.write bs usAddr).Passes takes f := by
    by_contra hc
    have hzero := hw.symm.trans hret
    rw [answer, if_neg hc] at hzero
    exact absurd hzero (by decide)
  have hstored : (taken takes f.seen (FramCall.write bs usAddr).frames).drop 3 = bs := by
    rw [hpass]
    exact List.drop_left' rfl
  have hlt : usAddr.toNat < framSize := by
    have hone := List.length_pos_iff.2 hpos
    omega
  have hblock : (run (after takes) ((FramCall.write bs usAddr).after takes f) cs).mem.read
      usAddr.toNat usSize.toNat = bs := by
    rw [hsize, run_read_apart fun c hc => (hcs c hc).2, after_write hin, hstored]
    exact Mem.read_write_self
  rw [hread, answer, Nat.mod_eq_of_lt hlt, readRound_eq_read (by omega), hblock]
  split
  · exact .inr rfl
  · exact .inl rfl

/-- Two bytes stay below a write that is cut off. -/
theorem block_stays_torn :
    let w := (FramCall.write [7, 8] 0x100).perform (framChip refusing)
      ⟨true, true, ⟨fun _ => 0, 0, .standby, 6⟩⟩
    let rest := performAll (framChip refusing) w.2 [.read 0 1, .write [9, 9, 9] 0x102]
    ((FramCall.read 0x100 2).perform (framChip refusing) rest.2).1 = .data (some [7, 8]) :=
  (block_stays refusing (f := ⟨fun _ => 0, 6⟩) ⟨0, rfl⟩ [7, 8] rfl (by decide) (by decide)
    [.read 0 1, .write [9, 9, 9] 0x102] (by decide +kernel) (by decide +kernel)).resolve_left
    (by decide +kernel)

end FramCall

/-! ## The device on the wires -/

/-- The calls that make the writes. -/
def framCalls (ws : List (Area × Mem.Store)) : List FramCall :=
  ws.map fun w => .write w.2.bytes (UInt16.ofNat w.2.addr)

/-- The calls of the operations of a run. -/
def Device.calls : Device → List DeviceOp → List FramCall
  | _, [] => []
  | d, op :: ops => framCalls (d.writes op) ++ Device.calls (d.step op) ops

/-- The memories agree on the bytes of the FRAM. -/
def SameFram (m m' : Mem) : Prop := ∀ x < framSize, m x = m' x

/-- A memory that takes every byte. -/
def healthy (_ : Nat) : Bool := true

theorem Area.stop_le (a : Area) : a.stop ≤ framSize := by
  cases a <;> decide

/-- A write to an area reaches the FRAM as it is. -/
theorem after_store {f : FramBytes} {m : Mem} {w : Area × Mem.Store}
    (hw : w.2.Within w.1.start w.1.stop) (hs : SameFram f.mem m) :
    (FramCall.write w.2.bytes (UInt16.ofNat w.2.addr)).answer healthy f = .code 1 ∧
    SameFram ((FramCall.write w.2.bytes (UInt16.ofNat w.2.addr)).after healthy f).mem
      (m.write w.2.addr w.2.bytes) := by
  obtain ⟨a, addr, bytes⟩ := w
  obtain ⟨-, hstop⟩ := hw
  have hsize := a.stop_le
  have hbyte : framSize = 0x8000 := rfl
  have haddr : (UInt16.ofNat addr).toNat = addr := by
    rw [UInt16.toNat_ofNat']
    exact Nat.mod_eq_of_lt (by dsimp only at hstop; omega)
  have hall : ∀ vs, taken healthy f.seen vs = vs := taken_of_all (fun _ => rfl) f.seen
  refine ⟨congrArg FramAnswer.code (if_pos (hall _)), ?_⟩
  dsimp only at hstop ⊢
  rw [FramCall.after_write (by omega), hall, haddr]
  intro x hx
  have hbytes : (FramCall.write bytes (UInt16.ofNat addr)).frames.drop 3 = bytes := rfl
  rw [hbytes]
  unfold Mem.write
  split
  · rfl
  · exact hs x hx

/-- **Writes to their areas** are all answered by 1, and reach the FRAM. -/
theorem framCalls_spec {f : FramBytes} {m : Mem} {ws : List (Area × Mem.Store)}
    (hws : Device.Kept ws) (hs : SameFram f.mem m) :
    (∀ r ∈ FramCall.answers healthy f (framCalls ws), r = .code 1) ∧
    SameFram (run (FramCall.after healthy) f (framCalls ws)).mem
      (m.writeAll (ws.map Prod.snd)) := by
  induction ws generalizing f m with
  | nil => exact ⟨fun r hr => absurd hr List.not_mem_nil, hs⟩
  | cons w ws ih =>
    obtain ⟨hw, hws⟩ := List.forall_mem_cons.1 hws
    obtain ⟨hret, hsame⟩ := after_store hw hs
    obtain ⟨hrest, hend⟩ := ih hws hsame
    exact ⟨List.forall_mem_cons.2 ⟨hret, hrest⟩, hend⟩

namespace Device

/-- The calls of a run from a sound state. -/
theorem calls_spec {d : Device} (hd : d.Sound) {f : FramBytes} (hs : SameFram f.mem d.fram)
    {ops : List DeviceOp} (hops : Meets step StepOk d ops) :
    (∀ r ∈ FramCall.answers healthy f (d.calls ops), r = .code 1) ∧
    SameFram (run (FramCall.after healthy) f (d.calls ops)).mem (run step d ops).fram := by
  induction ops generalizing d f with
  | nil => exact ⟨fun r hr => absurd hr List.not_mem_nil, hs⟩
  | cons op ops ih =>
    obtain ⟨hop, hops⟩ := hops
    obtain ⟨hret, hsame⟩ := framCalls_spec ((hd.kept_iff op).2 hop) hs
    rw [← step_fram] at hsame
    obtain ⟨hrest, hend⟩ := ih (hd.step hop) hsame hops
    rw [calls, FramCall.answers_append, run_append]
    exact ⟨List.forall_mem_append.2 ⟨hret, hrest⟩, hend⟩

theorem sized_framCalls (ws : List (Area × Mem.Store)) : ∀ c ∈ framCalls ws, c.Sized := by
  intro c hc
  obtain ⟨w, -, rfl⟩ := List.mem_map.1 hc
  trivial

theorem sized_calls (d : Device) (ops : List DeviceOp) : ∀ c ∈ d.calls ops, c.Sized := by
  induction ops generalizing d with
  | nil => exact fun c hc => absurd hc List.not_mem_nil
  | cons op ops ih =>
    intro c hc
    rcases List.mem_append.1 hc with hc | hc
    · exact sized_framCalls _ c hc
    · exact ih _ c hc

/-- **The device on the wires.** From the first start on, over a FRAM that
takes every byte, each call of a run returns 1, and the FRAM holds what the
operations have made of the memory. -/
theorem device_on_wires {m : Mem} (hA : Fresh m) (hE : readWord m fmAddrEPPastTime ≠ initMark)
    (o : Optimset) (now : Clock) {ops : List DeviceOp}
    (hops : Meets step StepOk (powerOn m o now) ops) {b : Bus I2C.Chip} {n : Nat} (hb : Idle b m n) :
    let r := FramCall.performAll (framChip healthy) b
      (framCalls (powerOnWrites m) ++ (powerOn m o now).calls ops)
    (∀ a ∈ r.1, a = .code 1) ∧
    ∃ m' n', Idle r.2 m' n' ∧ SameFram m' (run step (powerOn m o now) ops).fram := by
  intro r
  have hsized : ∀ c ∈ framCalls (powerOnWrites m) ++ (powerOn m o now).calls ops, c.Sized :=
    fun c hc => (List.mem_append.1 hc).elim (sized_framCalls _ c) (sized_calls _ _ c)
  obtain ⟨hret, hidle⟩ := FramCall.performAll_spec healthy (f := ⟨m, n⟩) hb hsized
  obtain ⟨hfirst, hsame⟩ := framCalls_spec (f := ⟨m, n⟩) (kept_powerOnWrites m) fun _ _ => rfl
  rw [← powerOn_fram m o now] at hsame
  obtain ⟨hrest, hend⟩ := calls_spec (sound_powerOn hA hE o now) hsame hops
  refine ⟨?_, _, _, hidle, ?_⟩
  · rw [show r.1 = _ from hret, FramCall.answers_append]
    exact List.forall_mem_append.2 ⟨hfirst, hrest⟩
  · rw [run_append]
    exact hend

/-- Over an erased FRAM. -/
theorem device_on_wires_short :
    let r := FramCall.performAll (framChip healthy) ⟨true, true, ⟨fun _ => 0, 0, .standby, 0⟩⟩
      (framCalls (powerOnWrites fun _ => 0) ++
        (powerOn (fun _ => 0) optDefault (january 0)).calls
          [.generate default default, .save (.replicate 8 7), .optPWSave 5])
    (∀ a ∈ r.1, a = .code 1) ∧
    ∃ m' n', Idle r.2 m' n' ∧ SameFram m' (run step (powerOn (fun _ => 0) optDefault (january 0))
      [.generate default default, .save (.replicate 8 7), .optPWSave 5]).fram :=
  device_on_wires (by decide) (by decide) optDefault (january 0) (by decide +kernel) ⟨0, rfl⟩

end Device

end BusMonitor
