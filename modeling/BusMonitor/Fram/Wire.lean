import BusMonitor.Fram.Writes
import BusMonitor.Lib.I2C
/-!
# The FRAM on its two wires

`bsp_Fram.c` drives the FRAM by setting and reading two pins. Each of its
signals is followed edge by edge over any device, then the transfers over
the serial memory the FM24W256 is. A call leaves the bus idle whatever the
memory refuses, and any run of calls is a run on a byte memory: what is
written is what was taken of it, what is read is what is there.
-/


namespace BusMonitor

open I2C

def framDevAddr : UInt8 := 0xA0

def framI2CWr : UInt8 := 0

def framI2CRd : UInt8 := 1

/-! ## Signals -/

section Signals

variable {σ : Type*} (S : Slave σ)

def framSclHigh (b : Bus σ) : Bus σ := b.setScl S true

def framSclLow (b : Bus σ) : Bus σ := b.setScl S false

def framSdaHigh (b : Bus σ) : Bus σ := b.setSda S true

def framSdaLow (b : Bus σ) : Bus σ := b.setSda S false

/-- `Fram_I2C_Start`. -/
def framI2CStart (b : Bus σ) : Bus σ :=
  let b := framSdaHigh S b
  let b := framSclHigh S b
  let b := framSdaLow S b
  framSclLow S b

/-- `Fram_I2C_Stop`. -/
def framI2CStop (b : Bus σ) : Bus σ :=
  let b := framSdaLow S b
  let b := framSclHigh S b
  framSdaHigh S b

/-- `Fram_GPIO_init`: the pins become outputs, SCL first, and low, as the
output register is after a reset. -/
def framGPIOInit (b : Bus σ) : Bus σ :=
  let b := framSclLow S b
  let b := framSdaLow S b
  framI2CStop S b

/-- The loop of `Fram_I2C_SendByte`, with `n` bits left. -/
def framI2CSendBits : Nat → UInt8 → Bus σ → Bus σ
  | 0, _, b => b
  | n + 1, ucByte, b =>
    let i := 7 - n
    let b := if ucByte &&& 0x80 != 0 then framSdaHigh S b else framSdaLow S b
    let b := framSclHigh S b
    let b := framSclLow S b
    -- after the last bit SDA is left to the memory for its acknowledge
    let b := if 7 = i then framSdaHigh S b else b
    framI2CSendBits n (ucByte <<< 1) b

/-- `Fram_I2C_SendByte`. -/
def framI2CSendByte (ucByte : UInt8) (b : Bus σ) : Bus σ := framI2CSendBits S 8 ucByte b

/-- The loop of `Fram_I2C_ReadByte`, with `n` bits left. -/
def framI2CReadBits : Nat → UInt8 → Bus σ → UInt8 × Bus σ
  | 0, ucValue, b => (ucValue, b)
  | n + 1, ucValue, b =>
    let ucValue := ucValue <<< 1
    let b := framSclHigh S b
    let ucValue := if b.line S = true then ucValue + 1 else ucValue
    framI2CReadBits n ucValue (framSclLow S b)

/-- `Fram_I2C_ReadByte`. -/
def framI2CReadByte (b : Bus σ) : UInt8 × Bus σ := framI2CReadBits S 8 0 b

/-- `Fram_I2C_WaitAck`. -/
def framI2CWaitAck (b : Bus σ) : UInt8 × Bus σ :=
  let b := framSdaHigh S b
  let b := framSclHigh S b
  let ucAck : UInt8 := if b.line S = true then 1 else 0
  (ucAck, framSclLow S b)

/-- `Fram_I2C_Ack`. -/
def framI2CAck (b : Bus σ) : Bus σ :=
  let b := framSdaLow S b
  let b := framSclHigh S b
  let b := framSclLow S b
  framSdaHigh S b

/-- `Fram_I2C_NAck`. -/
def framI2CNAck (b : Bus σ) : Bus σ :=
  let b := framSdaHigh S b
  let b := framSclHigh S b
  framSclLow S b

/-! ## Transfers -/

/-- `Fram_I2C_CheckOK`. -/
def framI2CCheckOK (ucAddr : UInt8) (b : Bus σ) : UInt8 × Bus σ :=
  let b := framI2CStart S b
  let b := framI2CSendByte S (ucAddr ||| framI2CWr) b
  let (ucAck, b) := framI2CWaitAck S b
  (ucAck, framI2CStop S b)

/-- A byte sent and its acknowledge waited for: without one the transfer
ends at `cmd_fail`, else it goes on. -/
def framSendOr {α : Type*} (ucByte : UInt8) (fail : Bus σ → α) (next : Bus σ → α)
    (b : Bus σ) : α :=
  let b := framI2CSendByte S ucByte b
  let (ucAck, b) := framI2CWaitAck S b
  if ucAck ≠ 0 then fail b else next b

/-- The loop of `Fram_I2C_Read`, with `n` bytes left: the bytes it stores. -/
def framI2CReadLoop : Nat → Bus σ → List UInt8 × Bus σ
  | 0, b => ([], b)
  | n + 1, b =>
    let (v, b) := framI2CReadByte S b
    -- the last byte is not acknowledged, so that the memory sends no more
    let b := if n ≠ 0 then framI2CAck S b else framI2CNAck S b
    let (vs, b) := framI2CReadLoop n b
    (v :: vs, b)

/-- `Fram_I2C_Read`: nothing is stored and 0 returned, or the bytes are
stored and 1 is. -/
def framI2CRead (usAddr usSize : UInt16) (b : Bus σ) : Option (List UInt8) × Bus σ :=
  let cmdFail (b : Bus σ) : Option (List UInt8) × Bus σ := (none, framI2CStop S b)
  let b := framI2CStart S b
  b |> framSendOr S (framDevAddr ||| framI2CWr) cmdFail fun b =>
  b |> framSendOr S (usAddr >>> 8).toUInt8 cmdFail fun b =>
  b |> framSendOr S usAddr.toUInt8 cmdFail fun b =>
  -- a second start condition, and the memory is to send
  let b := framI2CStart S b
  b |> framSendOr S (framDevAddr ||| framI2CRd) cmdFail fun b =>
  let (ucBuff, b) := framI2CReadLoop S usSize.toNat b
  (some ucBuff, framI2CStop S b)

/-- The loop of `Fram_I2C_Write`, and its end. -/
def framI2CWriteLoop : List UInt8 → Bus σ → UInt8 × Bus σ
  | [], b => (1, framI2CStop S b)
  | v :: vs, b => b |> framSendOr S v (fun b => (0, framI2CStop S b)) (framI2CWriteLoop vs)

/-- `Fram_I2C_Write` of the bytes in `ucBuff`. -/
def framI2CWrite (ucBuff : List UInt8) (usAddr : UInt16) (b : Bus σ) : UInt8 × Bus σ :=
  let cmdFail (b : Bus σ) : UInt8 × Bus σ := (0, framI2CStop S b)
  let b := framI2CStart S b
  b |> framSendOr S (framDevAddr ||| framI2CWr) cmdFail fun b =>
  b |> framSendOr S (usAddr >>> 8).toUInt8 cmdFail fun b =>
  b |> framSendOr S usAddr.toUInt8 cmdFail fun b =>
  framI2CWriteLoop S ucBuff b

/-! ## The signals over any device -/

variable {S} {v : Bool} {s : σ}

theorem framI2CStart_idle (h : S.out s = true) :
    framI2CStart S ⟨true, true, s⟩ = ⟨false, false, S.fall (S.start s)⟩ := by
  simp only [framI2CStart, framSdaHigh, framSclHigh, framSdaLow, framSclLow, Bus.setSda_high,
    Bus.setScl_high, Bus.setSda_start S h, Bus.setScl_fall]

/-- A start inside of a transfer: the device samples the bus once more
before it. -/
theorem framI2CStart_again (h : S.out s = true) :
    framI2CStart S ⟨false, v, s⟩ = ⟨false, false, S.fall (S.start (S.rise s true))⟩ := by
  have hrise : S.out (S.rise s true) = true := (S.out_rise s true).trans h
  simp only [framI2CStart, framSdaHigh, framSclHigh, framSdaLow, framSclLow, Bus.setSda_low,
    Bus.setScl_rise, h, Bool.and_true, Bus.setSda_start S hrise, Bus.setScl_fall]

theorem framI2CStop_eq (h : S.out s = true) :
    framI2CStop S ⟨false, v, s⟩ = ⟨true, true, S.stop (S.rise s false)⟩ := by
  have hrise : S.out (S.rise s false) = true := (S.out_rise s false).trans h
  simp only [framI2CStop, framSdaHigh, framSclHigh, framSdaLow, Bus.setSda_low, Bus.setScl_rise,
    Bool.false_and, Bus.setSda_stop S hrise]

theorem framI2CStop_held (h : S.out s = false) :
    framI2CStop S ⟨false, v, s⟩ = ⟨true, true, S.rise s false⟩ := by
  have hrise : S.out (S.rise s false) = false := (S.out_rise s false).trans h
  simp only [framI2CStop, framSdaHigh, framSclHigh, framSdaLow, Bus.setSda_low, Bus.setScl_rise,
    Bool.false_and, Bus.setSda_held S hrise]

/-- One bit in one clock; SDA is released behind the last one. -/
theorem framI2CSendBits_eq (n : Nat) (hn : n ≤ 8) (ucByte : UInt8) :
    framI2CSendBits S n ucByte ⟨false, v, s⟩ =
      ⟨false, if n = 0 then v else true, S.clocks s (Bits.shiftOut n ucByte)⟩ := by
  induction n generalizing ucByte v s with
  | zero => rfl
  | succ n ih =>
    have hbit : framSclLow S (framSclHigh S (if ucByte &&& 0x80 != 0 then
        framSdaHigh S ⟨false, v, s⟩ else framSdaLow S ⟨false, v, s⟩)) =
          ⟨false, ucByte &&& 0x80 != 0, S.clock s (ucByte &&& 0x80 != 0)⟩ := by
      cases ucByte &&& 0x80 != 0 <;> rfl
    have hrelease : (if 7 = 7 - n then
        framSdaHigh S ⟨false, ucByte &&& 0x80 != 0, S.clock s (ucByte &&& 0x80 != 0)⟩
        else ⟨false, ucByte &&& 0x80 != 0, S.clock s (ucByte &&& 0x80 != 0)⟩) =
          ⟨false, if n = 0 then true else ucByte &&& 0x80 != 0,
            S.clock s (ucByte &&& 0x80 != 0)⟩ := by
      rcases Nat.eq_zero_or_pos n with rfl | hpos
      · rfl
      · rw [if_neg (by omega), if_neg (by omega)]
    rw [framI2CSendBits, hbit, hrelease, ih (by omega), Bits.shiftOut, Slave.clocks_cons]
    rcases Nat.eq_zero_or_pos n with rfl | hpos
    · rfl
    · rw [if_neg (by omega), if_neg (by omega)]

theorem framI2CSendByte_eq (ucByte : UInt8) :
    framI2CSendByte S ucByte ⟨false, v, s⟩ = ⟨false, true, S.clocks s (Bits.ofByte ucByte)⟩ :=
  framI2CSendBits_eq 8 le_rfl ucByte

theorem framI2CWaitAck_eq :
    framI2CWaitAck S ⟨false, v, s⟩ =
      (if S.out s = true then 1 else 0, ⟨false, true, S.clock s true⟩) := by
  simp only [framI2CWaitAck, framSdaHigh, framSclHigh, framSclLow, Bus.setSda_low,
    Bus.setScl_rise, Bus.setScl_fall, Bus.line, S.out_rise, Bool.true_and, Slave.clock]

/-- **A frame** goes on or fails by the level of the ninth clock. -/
theorem framSendOr_eq {α : Type*} (ucByte : UInt8) (fail next : Bus σ → α) :
    framSendOr S ucByte fail next ⟨false, v, s⟩ =
      if (S.frame s ucByte).1 = true then fail ⟨false, true, (S.frame s ucByte).2⟩
      else next ⟨false, true, (S.frame s ucByte).2⟩ := by
  unfold framSendOr
  rw [framI2CSendByte_eq]
  dsimp only
  rw [framI2CWaitAck_eq]
  by_cases h : S.out (S.clocks s (Bits.ofByte ucByte)) = true
  · rw [if_pos h]
    exact (if_pos (show (1 : UInt8) ≠ 0 by decide)).trans (if_pos h).symm
  · rw [if_neg h]
    exact (if_neg fun hne => hne rfl).trans (if_neg h).symm

theorem framI2CReadBits_eq (n : Nat) (ucValue : UInt8) :
    framI2CReadBits S n ucValue ⟨false, true, s⟩ =
      ((S.outs n s).foldl Bits.shiftIn ucValue,
        ⟨false, true, S.clocks s (List.replicate n true)⟩) := by
  induction n generalizing ucValue s with
  | zero => rfl
  | succ n ih =>
    have hvalue : (if S.out s = true then ucValue <<< 1 + 1 else ucValue <<< 1) =
        Bits.shiftIn ucValue (S.out s) := by
      unfold Bits.shiftIn
      cases S.out s <;> simp
    simp only [framI2CReadBits, framSclHigh, framSclLow, Bus.setScl_rise, Bus.setScl_fall,
      Bus.line, S.out_rise, Bool.true_and, hvalue]
    have hclock : S.fall (S.rise s (S.out s)) = S.clock s true := by
      rw [Slave.clock, Bool.true_and]
    rw [hclock, ih, Slave.outs, List.replicate_succ, Slave.clocks_cons, List.foldl_cons]

theorem framI2CReadByte_eq :
    framI2CReadByte S ⟨false, true, s⟩ =
      (Bits.toByte (S.outs 8 s), ⟨false, true, S.clocks s (List.replicate 8 true)⟩) :=
  framI2CReadBits_eq 8 0

theorem framI2CAck_eq : framI2CAck S ⟨false, v, s⟩ = ⟨false, true, S.clock s false⟩ := rfl

theorem framI2CNAck_eq : framI2CNAck S ⟨false, v, s⟩ = ⟨false, true, S.clock s true⟩ := rfl

end Signals

/-! ## The transfers over the memory -/

/-- The FM24W256: 32 Kbyte at the address the driver uses. -/
def framConfig (takes : Nat → Bool) : Config := ⟨framDevAddr, framSize, takes, by decide⟩

/-- The FRAM on the bus. -/
abbrev framChip (takes : Nat → Bool) : Slave I2C.Chip := memory (framConfig takes)

/-- The bus between two calls, over the bytes `m` and with `n` bytes sent. -/
def Idle (b : Bus I2C.Chip) (m : Mem) (n : Nat) : Prop :=
  ∃ p, b = ⟨true, true, ⟨m, p, .standby, n⟩⟩

section Memory

variable {takes : Nat → Bool} {m : Mem} {p n : Nat} {v : Bool} {b : Bus I2C.Chip}

theorem start_idle : framI2CStart (framChip takes) ⟨true, true, ⟨m, p, .standby, n⟩⟩ =
    ⟨false, false, ⟨m, p, .listen .device [], n⟩⟩ :=
  framI2CStart_idle rfl

theorem start_listen (role : Role) :
    framI2CStart (framChip takes) ⟨false, v, ⟨m, p, .listen role [], n⟩⟩ =
      ⟨false, false, ⟨m, p, .listen .device [], n⟩⟩ :=
  framI2CStart_again rfl

theorem idle_stop_standby :
    Idle (framI2CStop (framChip takes) ⟨false, v, ⟨m, p, .standby, n⟩⟩) m n :=
  ⟨p, framI2CStop_eq rfl⟩

theorem idle_stop_listen (role : Role) :
    Idle (framI2CStop (framChip takes) ⟨false, v, ⟨m, p, .listen role [], n⟩⟩) m n :=
  ⟨p, framI2CStop_eq rfl⟩

/-- The start of the pins over a memory that lets go of SDA at the first
edge of SCL. -/
theorem framGPIOInit_idle {s : I2C.Chip} (h : (Chip.fall (framConfig takes) s).out = true) :
    Idle (framGPIOInit (framChip takes) ⟨true, true, s⟩) (Chip.fall (framConfig takes) s).mem
      (Chip.fall (framConfig takes) s).seen := by
  have hstop : framGPIOInit (framChip takes) ⟨true, true, s⟩ = ⟨true, true,
      { Chip.fall (framConfig takes) s with phase := .standby }⟩ :=
    (framI2CStop_eq h).trans (congrArg (Bus.mk true true) (Chip.stop_rise _ _))
  exact ⟨_, hstop⟩

/-- Over one that holds SDA there is no stop condition. -/
theorem not_idle_framGPIOInit {s : I2C.Chip} (h : (Chip.fall (framConfig takes) s).out = false) :
    ¬ Idle (framGPIOInit (framChip takes) ⟨true, true, s⟩) m n := by
  rintro ⟨p, hp⟩
  have hheld : framGPIOInit (framChip takes) ⟨true, true, s⟩ =
      ⟨true, true, Chip.rise (Chip.fall (framConfig takes) s) false⟩ := framI2CStop_held h
  have hphase : (Chip.rise (Chip.fall (framConfig takes) s) false).out = true := by
    rw [(Bus.mk.inj (hheld.symm.trans hp)).2.2]
    rfl
  have hout := ((framChip takes).out_rise _ false).symm.trans hphase
  exact Bool.false_ne_true (h.symm.trans hout)

/-! ### The address -/

/-- The bytes every transfer begins with. -/
def framHead (usAddr : UInt16) : List UInt8 :=
  [framDevAddr ||| framI2CWr, (usAddr >>> 8).toUInt8, usAddr.toUInt8]

theorem framHead_address (usAddr : UInt16) :
    ((usAddr >>> 8).toUInt8.toNat * 256 + usAddr.toUInt8.toNat) = usAddr.toNat := by
  have hlt := usAddr.toNat_lt
  have height : (8 : UInt16).toNat % 16 = 8 := rfl
  rw [UInt16.toNat_toUInt8, UInt16.toNat_toUInt8, UInt16.toNat_shiftRight, height,
    Nat.shiftRight_eq_div_pow]
  omega

/-- A byte that the memory does not take. -/
theorem send_refused {α : Type*} (h : takes n = false) (role : Role) (ucByte : UInt8)
    (fail next : Bus I2C.Chip → α) :
    framSendOr (framChip takes) ucByte fail next ⟨false, v, ⟨m, p, .listen role [], n⟩⟩ =
      fail ⟨false, true, ⟨m, p, .standby, n + 1⟩⟩ := by
  rw [framSendOr_eq, Chip.frame_refused h _]
  rfl

/-- A byte that it takes. -/
theorem send_taken {α : Type*} {role : Role} {ucByte : UInt8} {s : I2C.Chip}
    (h : (framChip takes).frame ⟨m, p, .listen role [], n⟩ ucByte = (false, s))
    (fail next : Bus I2C.Chip → α) :
    framSendOr (framChip takes) ucByte fail next ⟨false, v, ⟨m, p, .listen role [], n⟩⟩ =
      next ⟨false, true, s⟩ := by
  rw [framSendOr_eq, h]
  rfl

/-- The address byte for writing. -/
theorem frame_wr (h : takes n = true) :
    (framChip takes).frame ⟨m, p, .listen .device [], n⟩ (framDevAddr ||| framI2CWr) =
      (false, ⟨m, p, .listen .high [], n + 1⟩) := by
  have haddr : framDevAddr ||| framI2CWr = (framConfig takes).address := rfl
  rw [haddr, Chip.frame_address h]

/-- The one for reading. -/
theorem frame_rd (h : takes n = true) :
    (framChip takes).frame ⟨m, p, .listen .device [], n⟩ (framDevAddr ||| framI2CRd) =
      (false, ⟨m, p, .send (Bits.ofByte (m p)), n + 1⟩) :=
  Chip.frame_readAddress (c := framConfig takes) h

variable (takes) in
/-- **The head of a transfer**: the address counter is set when all of it
is taken. -/
theorem send_head {α : Type*} (usAddr : UInt16) (fail next : Bus I2C.Chip → α) :
    ∃ p', framSendOr (framChip takes) (framDevAddr ||| framI2CWr) fail
      (framSendOr (framChip takes) (usAddr >>> 8).toUInt8 fail
        (framSendOr (framChip takes) usAddr.toUInt8 fail next))
      ⟨false, v, ⟨m, p, .listen .device [], n⟩⟩ =
      if taken takes n (framHead usAddr) = framHead usAddr then
        next ⟨false, true, ⟨m, usAddr.toNat % framSize, .listen .data [], n + 3⟩⟩
      else fail ⟨false, true, ⟨m, p', .standby, n + sent takes n (framHead usAddr)⟩⟩ := by
  unfold framHead
  cases h₀ : takes n with
  | false =>
    refine ⟨p, ?_⟩
    rw [send_refused h₀, taken_of_refused h₀, if_neg (List.cons_ne_nil _ _).symm,
      sent_of_refused h₀]
  | true =>
    rw [send_taken (frame_wr h₀), taken_cons_of h₀, sent_cons_of h₀]
    cases h₁ : takes (n + 1) with
    | false =>
      refine ⟨p, ?_⟩
      rw [send_refused h₁, taken_of_refused h₁, sent_of_refused h₁, if_neg (by simp)]
    | true =>
      rw [send_taken (Chip.frame_high h₁ _), taken_cons_of h₁, sent_cons_of h₁]
      cases h₂ : takes (n + 2) with
      | false =>
        refine ⟨(usAddr >>> 8).toUInt8.toNat * 256, ?_⟩
        rw [send_refused h₂, taken_of_refused h₂, sent_of_refused h₂, if_neg (by simp)]
      | true =>
        refine ⟨p, ?_⟩
        rw [send_taken (Chip.frame_low h₂ _), taken_cons_of h₂, taken_nil, framHead_address,
          if_pos rfl]
        rfl

/-! ### Writing -/

variable (takes) in
theorem writeLoop_spec (vs : List UInt8) :
    (framI2CWriteLoop (framChip takes) vs ⟨false, v, ⟨m, p, .listen .data [], n⟩⟩).1 =
      (if taken takes n vs = vs then 1 else 0) ∧
    Idle (framI2CWriteLoop (framChip takes) vs ⟨false, v, ⟨m, p, .listen .data [], n⟩⟩).2
      (storeRound framSize m p (taken takes n vs)) (n + sent takes n vs) := by
  induction vs generalizing v m p n with
  | nil => exact ⟨rfl, idle_stop_listen _⟩
  | cons w vs ih =>
    unfold framI2CWriteLoop
    cases h : takes n with
    | false =>
      rw [send_refused h, taken_of_refused h, sent_of_refused h, if_neg (by simp)]
      exact ⟨rfl, idle_stop_standby⟩
    | true =>
      rw [send_taken (Chip.frame_data h w), taken_cons_of h, sent_cons_of h]
      obtain ⟨hret, hidle⟩ := ih (v := true) (m := m.write p [w]) (p := (p + 1) % framSize)
        (n := n + 1)
      refine ⟨hret.trans (if_congr (by simp) rfl rfl), ?_⟩
      have hsent : n + 1 + sent takes (n + 1) vs = n + (sent takes (n + 1) vs + 1) := by omega
      rw [← hsent]
      exact hidle

variable (takes) in
/-- **Writing**: what is taken behind the head is stored, and 1 returned
when all of it is. -/
theorem write_spec (hb : Idle b m n) (ucBuff : List UInt8) (usAddr : UInt16) :
    (framI2CWrite (framChip takes) ucBuff usAddr b).1 =
      (if taken takes n (framHead usAddr ++ ucBuff) = framHead usAddr ++ ucBuff then 1 else 0) ∧
    Idle (framI2CWrite (framChip takes) ucBuff usAddr b).2
      (storeRound framSize m (usAddr.toNat % framSize)
        ((taken takes n (framHead usAddr ++ ucBuff)).drop 3))
      (n + sent takes n (framHead usAddr ++ ucBuff)) := by
  obtain ⟨p, rfl⟩ := hb
  obtain ⟨p', hhead⟩ := send_head takes (m := m) (p := p) (n := n) (v := false) usAddr
    (fun b => ((0 : UInt8), framI2CStop (framChip takes) b))
    (framI2CWriteLoop (framChip takes) ucBuff)
  have hlen : (framHead usAddr).length = 3 := rfl
  unfold framI2CWrite
  dsimp only
  rw [start_idle, hhead, taken_append, sent_append]
  -- a refusal in the address ends the transfer before a byte of data
  by_cases hall : taken takes n (framHead usAddr) = framHead usAddr
  · obtain ⟨hret, hidle⟩ := writeLoop_spec takes (v := true) (m := m)
      (p := usAddr.toNat % framSize) (n := n + 3) ucBuff
    rw [if_pos hall, if_pos hall, if_pos hall, hlen]
    refine ⟨hret.trans (if_congr (List.append_right_inj _).symm rfl rfl), ?_⟩
    rw [← hlen, List.drop_left, hlen, ← Nat.add_assoc]
    exact hidle
  · have hshort := (taken_isPrefix takes n (framHead usAddr)).length_le
    have hne : taken takes n (framHead usAddr) ≠ framHead usAddr ++ ucBuff := by
      intro hc
      have hcut := congrArg (List.take (framHead usAddr).length) hc
      rw [List.take_of_length_le hshort, List.take_left] at hcut
      exact hall hcut
    rw [hlen] at hshort
    rw [if_neg hall, if_neg hall, if_neg hall, if_neg hne, List.drop_of_length_le hshort]
    exact ⟨rfl, idle_stop_standby⟩

/-! ### Reading -/

/-- One byte, and the memory waits for the acknowledge. -/
theorem readByte_send :
    framI2CReadByte (framChip takes) ⟨false, true, ⟨m, p, .send (Bits.ofByte (m p)), n⟩⟩ =
      (m p, ⟨false, true, ⟨m, p, .ask false, n⟩⟩) := by
  rw [framI2CReadByte_eq, Chip.outs_byte, Bits.toByte_ofByte, Chip.clocks_sent]

variable (takes) in
theorem readLoop_spec (k : Nat) :
    ∃ p', framI2CReadLoop (framChip takes) (k + 1)
      ⟨false, true, ⟨m, p, .send (Bits.ofByte (m p)), n⟩⟩ =
        (readRound framSize m p (k + 1), ⟨false, true, ⟨m, p', .standby, n⟩⟩) := by
  induction k generalizing p with
  | zero =>
    refine ⟨p, ?_⟩
    rw [framI2CReadLoop, readByte_send]
    dsimp only
    rw [if_neg (not_not_intro rfl), framI2CNAck_eq, Chip.clock_last]
    rfl
  | succ k ih =>
    obtain ⟨p', hloop⟩ := ih (p := (p + 1) % framSize)
    refine ⟨p', ?_⟩
    rw [framI2CReadLoop, readByte_send]
    dsimp only
    rw [if_pos (Nat.succ_ne_zero k), framI2CAck_eq, Chip.clock_more]
    rw [show (framConfig takes).size = framSize from rfl, hloop]
    rfl

variable (takes) in
/-- **Reading**: all the bytes or none, and the memory stays. -/
theorem read_spec (hb : Idle b m n) (usAddr usSize : UInt16) (hsize : usSize ≠ 0) :
    (framI2CRead (framChip takes) usAddr usSize b).1 =
      (if taken takes n (framHead usAddr ++ [framDevAddr ||| framI2CRd]) =
          framHead usAddr ++ [framDevAddr ||| framI2CRd] then
        some (readRound framSize m (usAddr.toNat % framSize) usSize.toNat) else none) ∧
    Idle (framI2CRead (framChip takes) usAddr usSize b).2 m
      (n + sent takes n (framHead usAddr ++ [framDevAddr ||| framI2CRd])) := by
  obtain ⟨p, rfl⟩ := hb
  obtain ⟨p', hhead⟩ := send_head takes (m := m) (p := p) (n := n) (v := false) usAddr
    (fun b => ((none : Option (List UInt8)), framI2CStop (framChip takes) b))
    (fun b => framSendOr (framChip takes) (framDevAddr ||| framI2CRd)
      (fun b => (none, framI2CStop (framChip takes) b))
      (fun b => (some (framI2CReadLoop (framChip takes) usSize.toNat b).1,
        framI2CStop (framChip takes) (framI2CReadLoop (framChip takes) usSize.toNat b).2))
      (framI2CStart (framChip takes) b))
  unfold framI2CRead
  dsimp only
  rw [start_idle, hhead, taken_append, sent_append]
  have hlen : (framHead usAddr).length = 3 := rfl
  by_cases hall : taken takes n (framHead usAddr) = framHead usAddr
  · rw [if_pos hall, if_pos hall, if_pos hall, hlen, start_listen]
    cases h : takes (n + 3) with
    | false =>
      rw [send_refused h, taken_of_refused h, sent_of_refused h, if_neg (by simp)]
      exact ⟨rfl, idle_stop_standby⟩
    | true =>
      obtain ⟨k, hk⟩ : ∃ k, usSize.toNat = k + 1 :=
        Nat.exists_eq_succ_of_ne_zero fun hc => hsize (UInt16.toNat.inj hc)
      obtain ⟨q, hloop⟩ := readLoop_spec takes (m := m)
        (p := usAddr.toNat % framSize) (n := n + 3 + 1) k
      rw [send_taken (frame_rd h), taken_cons_of h, sent_cons_of h, taken_nil, sent_nil,
        if_pos rfl, hk, hloop]
      exact ⟨rfl, idle_stop_standby⟩
  · have hshort := (taken_isPrefix takes n (framHead usAddr)).length_le
    have hne : taken takes n (framHead usAddr) ≠
        framHead usAddr ++ [framDevAddr ||| framI2CRd] := by
      intro hc
      rw [hc, List.length_append] at hshort
      exact absurd hshort (by simp)
    rw [if_neg hall, if_neg hall, if_neg hall, if_neg hne]
    exact ⟨rfl, idle_stop_standby⟩

variable (takes) in
/-- **Checking** the memory is there. -/
theorem checkOK_spec (hb : Idle b m n) :
    (framI2CCheckOK (framChip takes) framDevAddr b).1 = (if takes n = true then 0 else 1) ∧
    Idle (framI2CCheckOK (framChip takes) framDevAddr b).2 m (n + 1) := by
  obtain ⟨p, rfl⟩ := hb
  unfold framI2CCheckOK
  dsimp only
  rw [start_idle, framI2CSendByte_eq]
  rw [framI2CWaitAck_eq]
  cases h : takes n with
  | false =>
    obtain ⟨hout, hstate⟩ := Prod.mk.inj (Chip.frame_refused (c := framConfig takes) (m := m)
      (p := p) h .device (framDevAddr ||| framI2CWr))
    rw [hout, hstate]
    exact ⟨rfl, idle_stop_standby⟩
  | true =>
    obtain ⟨hout, hstate⟩ := Prod.mk.inj (frame_wr (m := m) (p := p) h)
    rw [hout, hstate]
    exact ⟨rfl, idle_stop_listen _⟩

end Memory

end BusMonitor
