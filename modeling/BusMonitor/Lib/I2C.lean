import BusMonitor.Lib.Mem
import Mathlib.Tactic.Ring
/-!
# A two-wire bus, edge by edge

A master drives SCL and SDA, a device may pull SDA low as well, and what
either of them sees is the wired AND of the two. A device acts on the
edges: it samples SDA when SCL rises, goes on when SCL falls, and takes an
edge of SDA under a high SCL for a start or a stop condition.

The second part is the serial memory with two address bytes. What it does
in one frame of nine clocks is the unit the transfers are put together
from.
-/


/-! ## Bytes as bits -/

namespace Bits

/-- The first `n` bits of a byte, highest first, each moved to the top. -/
def shiftOut : Nat → UInt8 → List Bool
  | 0, _ => []
  | n + 1, v => (v &&& 0x80 != 0) :: shiftOut n (v <<< 1)

/-- The bits of a byte, highest first. -/
def ofByte (v : UInt8) : List Bool := shiftOut 8 v

/-- A bit moved into a byte from below. -/
def shiftIn (v : UInt8) (b : Bool) : UInt8 := v <<< 1 + if b then 1 else 0

/-- The byte a list of bits makes. -/
def toByte (bs : List Bool) : UInt8 := bs.foldl shiftIn 0

@[simp] theorem length_shiftOut (n : Nat) (v : UInt8) : (shiftOut n v).length = n := by
  induction n generalizing v with
  | zero => rfl
  | succ n ih => simp [shiftOut, ih]

@[simp] theorem length_ofByte (v : UInt8) : (ofByte v).length = 8 := length_shiftOut 8 v

theorem top_toNat (v : UInt8) : (v &&& 0x80 != 0).toNat = v.toNat / 128 := by
  have hlt := v.toNat_lt
  generalize hx : v.toNat = x at hlt
  obtain rfl : v = UInt8.ofNat x := by rw [← hx]; simp
  revert x
  decide +kernel

theorem toNat_shiftLeft (v : UInt8) : (v <<< 1).toNat = 2 * v.toNat % 256 := by
  have hone : (1 : UInt8).toNat % 8 = 1 := rfl
  rw [UInt8.toNat_shiftLeft, hone, Nat.shiftLeft_eq]
  omega

theorem toNat_shiftIn (v : UInt8) (b : Bool) :
    (shiftIn v b).toNat = (2 * v.toNat + b.toNat) % 256 := by
  unfold shiftIn
  rw [UInt8.toNat_add, toNat_shiftLeft]
  cases b <;> simp

/-- Moving the top bits of `v` into `a`: what `n` moves leave. -/
theorem toNat_shift (n : Nat) (hn : n ≤ 8) (a v : UInt8) :
    ((shiftOut n v).foldl shiftIn a).toNat =
      (a.toNat * 2 ^ n + v.toNat / 2 ^ (8 - n)) % 256 := by
  induction n generalizing a v with
  | zero =>
    have ha := a.toNat_lt
    have hv := v.toNat_lt
    simp only [shiftOut, List.foldl_nil, Nat.pow_zero, Nat.sub_zero]
    omega
  | succ n ih =>
    have hv := v.toNat_lt
    have hpow : 2 ^ (8 - n) = 2 * 2 ^ (8 - (n + 1)) := by
      rw [← Nat.pow_succ']
      exact congrArg _ (by omega)
    have hsplit : 2 ^ (8 - (n + 1)) * 2 ^ n = 128 := by
      rw [← Nat.pow_add]
      exact (congrArg _ (by omega)).trans (show 2 ^ 7 = 128 from rfl)
    have hpos : 0 < 2 ^ (8 - (n + 1)) := Nat.two_pow_pos _
    rw [shiftOut, List.foldl_cons, ih (by omega), toNat_shiftIn, toNat_shiftLeft, top_toNat, hpow,
      Nat.pow_succ]
    generalize 2 ^ (8 - (n + 1)) = p at hsplit hpos ⊢
    generalize 2 ^ n = q at hsplit ⊢
    -- the top bit is moved, the seven below it stay
    have hrest : 2 * v.toNat % 256 = 2 * (v.toNat % 128) := by omega
    have hdiv : v.toNat / p = v.toNat % 128 / p + q * (v.toNat / 128) := by
      have hv' : v.toNat = v.toNat % 128 + p * (q * (v.toNat / 128)) := by
        rw [← Nat.mul_assoc, hsplit]
        omega
      rw [← Nat.add_mul_div_left _ _ hpos, ← hv']
    rw [hrest, Nat.mul_div_mul_left _ _ Nat.two_pos, hdiv, Nat.add_mod, Nat.mod_mul_mod,
      ← Nat.add_mod]
    refine congrArg (· % 256) ?_
    ring

/-- **Round trip.** The bits of a byte make the byte. -/
theorem toByte_ofByte (v : UInt8) : toByte (ofByte v) = v := by
  have hv := v.toNat_lt
  apply UInt8.toNat.inj
  unfold toByte ofByte
  rw [toNat_shift 8 le_rfl]
  simp only [UInt8.toNat_zero]
  omega

end Bits

namespace I2C

/-! ## The bus -/

/-- A device on the bus. It leaves SDA alone when `out` is true, and what
it drives does not change while SCL is high. -/
structure Slave (σ : Type*) where
  out : σ → Bool
  rise : σ → Bool → σ
  fall : σ → σ
  start : σ → σ
  stop : σ → σ
  out_rise : ∀ s v, out (rise s v) = out s

/-- What the master drives, and the state of the device. -/
structure Bus (σ : Type*) where
  scl : Bool
  sda : Bool
  dev : σ

section Master

variable {σ : Type*} (S : Slave σ)

namespace Bus

variable (b : Bus σ)

/-- The level of SDA. -/
def line : Bool := b.sda && S.out b.dev

/-- The master sets SDA. -/
def setSda (v : Bool) : Bus σ :=
  let b' : Bus σ := { b with sda := v }
  if b.scl = true then
    match b.line S, b'.line S with
    | true, false => { b' with dev := S.start b.dev }
    | false, true => { b' with dev := S.stop b.dev }
    | _, _ => b'
  else b'

/-- The master sets SCL. -/
def setScl (v : Bool) : Bus σ :=
  match b.scl, v with
  | false, true => { b with scl := true, dev := S.rise b.dev (b.line S) }
  | true, false => { b with scl := false, dev := S.fall b.dev }
  | _, _ => b

/-- Under a low SCL nothing looks at SDA. -/
@[simp] theorem setSda_low (v w : Bool) (s : σ) :
    (⟨false, v, s⟩ : Bus σ).setSda S w = ⟨false, w, s⟩ := rfl

@[simp] theorem setScl_rise (v : Bool) (s : σ) :
    (⟨false, v, s⟩ : Bus σ).setScl S true = ⟨true, v, S.rise s (v && S.out s)⟩ := rfl

@[simp] theorem setScl_fall (v : Bool) (s : σ) :
    (⟨true, v, s⟩ : Bus σ).setScl S false = ⟨false, v, S.fall s⟩ := rfl

@[simp] theorem setScl_high (v : Bool) (s : σ) :
    (⟨true, v, s⟩ : Bus σ).setScl S true = ⟨true, v, s⟩ := rfl

@[simp] theorem setSda_high (v : Bool) (s : σ) :
    (⟨true, v, s⟩ : Bus σ).setSda S v = ⟨true, v, s⟩ := by
  cases v <;> cases h : S.out s <;> simp [setSda, line, h]

/-- A falling edge under a high SCL, if the device lets SDA go up. -/
theorem setSda_start {s : σ} (h : S.out s = true) :
    (⟨true, true, s⟩ : Bus σ).setSda S false = ⟨true, false, S.start s⟩ := by
  simp [setSda, line, h]

/-- And a rising one. -/
theorem setSda_stop {s : σ} (h : S.out s = true) :
    (⟨true, false, s⟩ : Bus σ).setSda S true = ⟨true, true, S.stop s⟩ := by
  simp [setSda, line, h]

/-- While the device holds SDA down there is no edge. -/
theorem setSda_held {v w : Bool} {s : σ} (h : S.out s = false) :
    (⟨true, v, s⟩ : Bus σ).setSda S w = ⟨true, w, s⟩ := by
  simp [setSda, line, h]

end Bus

namespace Slave

/-- One clock, with `v` on SDA from the master. -/
def clock (s : σ) (v : Bool) : σ := S.fall (S.rise s (v && S.out s))

/-- A clock for each bit. -/
def clocks (s : σ) (vs : List Bool) : σ := vs.foldl S.clock s

/-- The levels of SDA in `n` clocks the master leaves to the device. -/
def outs : Nat → σ → List Bool
  | 0, _ => []
  | n + 1, s => S.out s :: outs n (S.clock s true)

@[simp] theorem clocks_nil (s : σ) : S.clocks s [] = s := rfl

@[simp] theorem clocks_cons (s : σ) (v : Bool) (vs : List Bool) :
    S.clocks s (v :: vs) = S.clocks (S.clock s v) vs := rfl

theorem clocks_append (s : σ) (vs ws : List Bool) :
    S.clocks s (vs ++ ws) = S.clocks (S.clocks s vs) ws := List.foldl_append

/-- A byte from the master in eight clocks, and the ninth, in which SDA is
left to the device: its level there, and the state after it. -/
def frame (s : σ) (v : UInt8) : Bool × σ :=
  let s' := S.clocks s (Bits.ofByte v)
  (S.out s', S.clock s' true)

end Slave

end Master

/-! ## The serial memory -/

/-- The address the memory answers to for writing (the next one is for
reading), its bytes, and which of the bytes sent to it it takes, by their
number. -/
structure Config where
  address : UInt8
  size : Nat
  takes : Nat → Bool
  address_ne : address ||| 1 ≠ address

/-- What a byte sent to the memory is. -/
inductive Role
  | device
  | high
  | low
  | data
  deriving DecidableEq, Repr

/-- What the memory is at: nothing; the bits of a byte it is sent; the
acknowledge, and what comes after it (nothing to be sent by the master:
the memory sends); the bits it has left to send; the master's
acknowledge. -/
inductive Phase
  | standby
  | listen (role : Role) (got : List Bool)
  | ack (next : Option Role)
  | send (bits : List Bool)
  | ask (more : Bool)
  deriving DecidableEq, Repr

/-- The state: the bytes, the address counter, the phase, and the number
of bytes the memory was sent. -/
structure Chip where
  mem : Mem
  ptr : Nat
  phase : Phase
  seen : Nat

namespace Chip

variable (c : Config) (s : Chip)

/-- The memory pulls SDA low to acknowledge and to send a zero. -/
def out : Bool :=
  match s.phase with
  | .ack _ => false
  | .send (b :: _) => b
  | _ => true

def rise (v : Bool) : Chip :=
  match s.phase with
  | .listen role got => { s with phase := .listen role (got ++ [v]) }
  | .ask _ => { s with phase := .ask !v }
  | _ => s

/-- A byte has come and is taken. -/
def accept (role : Role) (v : UInt8) : Chip :=
  match role with
  | .device =>
    if v = c.address then { s with phase := .ack (some .high) }
    else if v = c.address ||| 1 then { s with phase := .ack none }
    else { s with phase := .standby }
  | .high => { s with ptr := v.toNat * 256, phase := .ack (some .low) }
  | .low => { s with ptr := (s.ptr + v.toNat) % c.size, phase := .ack (some .data) }
  | .data =>
    { s with mem := s.mem.write s.ptr [v], ptr := (s.ptr + 1) % c.size, phase := .ack (some .data) }

/-- A byte has come. -/
def take (role : Role) (v : UInt8) : Chip :=
  if c.takes s.seen = true then { accept c s role v with seen := s.seen + 1 }
  else { s with phase := .standby, seen := s.seen + 1 }

def fall : Chip :=
  match s.phase with
  | .listen role got => if got.length = 8 then take c s role (Bits.toByte got) else s
  | .ack (some role) => { s with phase := .listen role [] }
  | .ack none => { s with phase := .send (Bits.ofByte (s.mem s.ptr)) }
  | .send (_ :: b :: bs) => { s with phase := .send (b :: bs) }
  | .send _ => { s with phase := .ask false }
  | .ask true =>
    let ptr := (s.ptr + 1) % c.size
    { s with ptr := ptr, phase := .send (Bits.ofByte (s.mem ptr)) }
  | .ask false => { s with phase := .standby }
  | .standby => s

def start : Chip := { s with phase := .listen .device [] }

def stop : Chip := { s with phase := .standby }

end Chip

/-- The serial memory as a device on the bus. -/
def memory (c : Config) : Slave Chip where
  out := Chip.out
  rise := Chip.rise
  fall := Chip.fall c
  start := Chip.start
  stop := Chip.stop
  out_rise := by
    intro s v
    unfold Chip.rise
    split <;> simp [Chip.out, *]

namespace Chip

variable {c : Config} {m : Mem} {p n : Nat} {role : Role}

/-! ### A byte sent to the memory -/

/-- The bits of a byte that is not complete are kept. -/
theorem clocks_listen (got vs : List Bool) (h : got.length + vs.length < 8) :
    (memory c).clocks ⟨m, p, .listen role got, n⟩ vs = ⟨m, p, .listen role (got ++ vs), n⟩ := by
  induction vs generalizing got with
  | nil => simp
  | cons v vs ih =>
    rw [List.length_cons] at h
    have hclock : (memory c).clock ⟨m, p, .listen role got, n⟩ v =
        ⟨m, p, .listen role (got ++ [v]), n⟩ := by
      have hlen : (got ++ [v]).length ≠ 8 := by rw [List.length_append]; simp; omega
      simp only [Slave.clock, memory, out, rise, Bool.and_true, fall, if_neg hlen]
    rw [Slave.clocks_cons, hclock, ih _ (by simp; omega), List.append_assoc]
    rfl

/-- **The eight clocks of a byte** make the memory take it. -/
theorem clocks_byte (v : UInt8) :
    (memory c).clocks ⟨m, p, .listen role [], n⟩ (Bits.ofByte v) =
      take c ⟨m, p, .listen role [], n⟩ role v := by
  obtain ⟨vs, w, hvs⟩ : ∃ vs w, Bits.ofByte v = vs ++ [w] :=
    ⟨_, _, (List.dropLast_concat_getLast (List.ne_nil_of_length_pos (by simp))).symm⟩
  have hlen : vs.length = 7 := by
    have h8 := Bits.length_ofByte v
    rw [hvs, List.length_append] at h8
    simpa using h8
  have hgot : (vs ++ [w]).length = 8 := by simp [hlen]
  rw [hvs, Slave.clocks_append, clocks_listen _ _ (by simp [hlen])]
  simp only [List.nil_append, Slave.clocks_cons, Slave.clocks_nil, Slave.clock, memory, out, rise,
    Bool.and_true, fall, if_pos hgot]
  rw [← hvs, Bits.toByte_ofByte]
  unfold take
  split
  · cases role <;> rfl
  · rfl

/-- A stop condition ends whatever the memory was at, and nothing else. -/
theorem stop_rise (s : Chip) (v : Bool) :
    (memory c).stop ((memory c).rise s v) = { s with phase := .standby } := by
  obtain ⟨m, p, phase, n⟩ := s
  cases phase <;> rfl

/-- A byte that is not taken is not acknowledged, and ends the transfer. -/
theorem frame_refused (h : c.takes n = false) (role : Role) (v : UInt8) :
    (memory c).frame ⟨m, p, .listen role [], n⟩ v = (true, ⟨m, p, .standby, n + 1⟩) := by
  have htake : take c ⟨m, p, .listen role [], n⟩ role v = ⟨m, p, .standby, n + 1⟩ := by
    simp [take, h]
  rw [Slave.frame, clocks_byte, htake]
  rfl

/-- A byte that is taken and acknowledged. -/
theorem frame_taken {m' : Mem} {p' : Nat} {next : Option Role} {v : UInt8}
    (htake : take c ⟨m, p, .listen role [], n⟩ role v = ⟨m', p', .ack next, n + 1⟩) :
    (memory c).frame ⟨m, p, .listen role [], n⟩ v =
      (false, fall c ⟨m', p', .ack next, n + 1⟩) := by
  rw [Slave.frame, clocks_byte, htake]
  rfl

theorem frame_address (h : c.takes n = true) :
    (memory c).frame ⟨m, p, .listen .device [], n⟩ c.address =
      (false, ⟨m, p, .listen .high [], n + 1⟩) := by
  have htake : take c ⟨m, p, .listen .device [], n⟩ .device c.address =
      ⟨m, p, .ack (some .high), n + 1⟩ := by simp [take, accept, h]
  exact frame_taken htake

theorem frame_readAddress (h : c.takes n = true) :
    (memory c).frame ⟨m, p, .listen .device [], n⟩ (c.address ||| 1) =
      (false, ⟨m, p, .send (Bits.ofByte (m p)), n + 1⟩) := by
  have htake : take c ⟨m, p, .listen .device [], n⟩ .device (c.address ||| 1) =
      ⟨m, p, .ack none, n + 1⟩ := by simp [take, accept, h, c.address_ne]
  exact frame_taken htake

theorem frame_high (h : c.takes n = true) (v : UInt8) :
    (memory c).frame ⟨m, p, .listen .high [], n⟩ v =
      (false, ⟨m, v.toNat * 256, .listen .low [], n + 1⟩) := by
  have htake : take c ⟨m, p, .listen .high [], n⟩ .high v =
      ⟨m, v.toNat * 256, .ack (some .low), n + 1⟩ := by simp [take, accept, h]
  exact frame_taken htake

theorem frame_low (h : c.takes n = true) (v : UInt8) :
    (memory c).frame ⟨m, p, .listen .low [], n⟩ v =
      (false, ⟨m, (p + v.toNat) % c.size, .listen .data [], n + 1⟩) := by
  have htake : take c ⟨m, p, .listen .low [], n⟩ .low v =
      ⟨m, (p + v.toNat) % c.size, .ack (some .data), n + 1⟩ := by simp [take, accept, h]
  exact frame_taken htake

theorem frame_data (h : c.takes n = true) (v : UInt8) :
    (memory c).frame ⟨m, p, .listen .data [], n⟩ v =
      (false, ⟨m.write p [v], (p + 1) % c.size, .listen .data [], n + 1⟩) := by
  have htake : take c ⟨m, p, .listen .data [], n⟩ .data v =
      ⟨m.write p [v], (p + 1) % c.size, .ack (some .data), n + 1⟩ := by simp [take, accept, h]
  exact frame_taken htake

/-! ### A byte from the memory -/

/-- The bits the memory has left are the levels of the next clocks. -/
theorem outs_send (bs : List Bool) :
    (memory c).outs bs.length ⟨m, p, .send bs, n⟩ = bs := by
  induction bs with
  | nil => rfl
  | cons b bs ih =>
    rw [List.length_cons, Slave.outs]
    refine congrArg (b :: ·) ?_
    cases bs with
    | nil => rfl
    | cons b' bs => exact ih

theorem outs_byte (v : UInt8) :
    (memory c).outs 8 ⟨m, p, .send (Bits.ofByte v), n⟩ = Bits.ofByte v := by
  have houts := outs_send (c := c) (m := m) (p := p) (n := n) (Bits.ofByte v)
  rwa [Bits.length_ofByte] at houts

/-- After them it waits for the acknowledge. -/
theorem clocks_send {bs : List Bool} (h : bs ≠ []) :
    (memory c).clocks ⟨m, p, .send bs, n⟩ (List.replicate bs.length true) =
      ⟨m, p, .ask false, n⟩ := by
  induction bs with
  | nil => exact absurd rfl h
  | cons b bs ih =>
    rw [List.length_cons, List.replicate_succ, Slave.clocks_cons]
    cases bs with
    | nil => rfl
    | cons b' bs => exact ih (List.cons_ne_nil _ _)

theorem clocks_sent (v : UInt8) :
    (memory c).clocks ⟨m, p, .send (Bits.ofByte v), n⟩ (List.replicate 8 true) =
      ⟨m, p, .ask false, n⟩ := by
  have hne : Bits.ofByte v ≠ [] := List.ne_nil_of_length_pos (by simp)
  have hclocks := clocks_send (c := c) (m := m) (p := p) (n := n) hne
  rwa [Bits.length_ofByte] at hclocks

/-- An acknowledge asks for the next byte. -/
theorem clock_more : (memory c).clock ⟨m, p, .ask false, n⟩ false =
    ⟨m, (p + 1) % c.size, .send (Bits.ofByte (m ((p + 1) % c.size))), n⟩ := rfl

/-- And its absence ends the transfer. -/
theorem clock_last : (memory c).clock ⟨m, p, .ask false, n⟩ true = ⟨m, p, .standby, n⟩ := rfl

end Chip

/-! ### Transfers

The address counter goes round behind the last byte. -/

/-- The memory after bytes sent to it from `a` on. -/
def storeRound (size : Nat) (m : Mem) : Nat → List UInt8 → Mem
  | _, [] => m
  | a, v :: vs => storeRound size (m.write a [v]) ((a + 1) % size) vs

/-- The bytes it sends from `a` on. -/
def readRound (size : Nat) (m : Mem) : Nat → Nat → List UInt8
  | _, 0 => []
  | a, n + 1 => m a :: readRound size m ((a + 1) % size) n

/-- The bytes of a transfer that are taken, when `n` were sent before. -/
def taken (takes : Nat → Bool) : Nat → List UInt8 → List UInt8
  | _, [] => []
  | n, v :: vs => if takes n = true then v :: taken takes (n + 1) vs else []

/-- The bytes that are sent: up to the first one that is not taken. -/
def sent (takes : Nat → Bool) : Nat → List UInt8 → Nat
  | _, [] => 0
  | n, _ :: vs => if takes n = true then sent takes (n + 1) vs + 1 else 1

section Transfers

variable {size a n : Nat} {m : Mem} {takes : Nat → Bool}

@[simp] theorem taken_nil : taken takes n [] = [] := rfl

@[simp] theorem sent_nil : sent takes n [] = 0 := rfl

theorem taken_cons_of (h : takes n = true) (v : UInt8) (vs : List UInt8) :
    taken takes n (v :: vs) = v :: taken takes (n + 1) vs := if_pos h

theorem sent_cons_of (h : takes n = true) (v : UInt8) (vs : List UInt8) :
    sent takes n (v :: vs) = sent takes (n + 1) vs + 1 := if_pos h

theorem sent_of_refused (h : takes n = false) (v : UInt8) (vs : List UInt8) :
    sent takes n (v :: vs) = 1 := if_neg (by simp [h])

theorem taken_of_refused (h : takes n = false) (vs : List UInt8) : taken takes n vs = [] := by
  cases vs with
  | nil => rfl
  | cons v vs => exact if_neg (by simp [h])

variable (takes) in
/-- What is taken is what is sent, up to some byte. -/
theorem taken_isPrefix (n : Nat) (vs : List UInt8) : taken takes n vs <+: vs := by
  induction vs generalizing n with
  | nil => exact List.prefix_rfl
  | cons v vs ih =>
    unfold taken
    split
    · exact (List.cons_prefix_cons).2 ⟨rfl, ih (n + 1)⟩
    · exact List.nil_prefix

/-- A transfer in two parts: the second one is sent if the first one is
taken. -/
theorem taken_append (n : Nat) (vs ws : List UInt8) :
    taken takes n (vs ++ ws) =
      if taken takes n vs = vs then vs ++ taken takes (n + vs.length) ws
      else taken takes n vs := by
  induction vs generalizing n with
  | nil => rfl
  | cons v vs ih =>
    cases h : takes n with
    | false => rw [taken_of_refused h, taken_of_refused h, if_neg (List.cons_ne_nil _ _).symm]
    | true =>
      have hlen : n + 1 + vs.length = n + (v :: vs).length := by
        rw [List.length_cons]
        omega
      rw [List.cons_append, taken_cons_of h, taken_cons_of h, ih, hlen]
      by_cases hvs : taken takes (n + 1) vs = vs
      · rw [if_pos hvs, if_pos (congrArg (v :: ·) hvs), List.cons_append]
      · rw [if_neg hvs, if_neg fun hc => hvs (List.cons.inj hc).2]

theorem sent_append (n : Nat) (vs ws : List UInt8) :
    sent takes n (vs ++ ws) =
      if taken takes n vs = vs then vs.length + sent takes (n + vs.length) ws
      else sent takes n vs := by
  induction vs generalizing n with
  | nil => simp
  | cons v vs ih =>
    cases h : takes n with
    | false =>
      rw [List.cons_append, sent_of_refused h, sent_of_refused h, taken_of_refused h,
        if_neg (List.cons_ne_nil _ _).symm]
    | true =>
      have hlen : n + 1 + vs.length = n + (v :: vs).length := by
        rw [List.length_cons]
        omega
      rw [List.cons_append, sent_cons_of h, sent_cons_of h, taken_cons_of h, ih, hlen]
      by_cases hvs : taken takes (n + 1) vs = vs
      · rw [if_pos hvs, if_pos (congrArg (v :: ·) hvs), List.length_cons]
        omega
      · rw [if_neg hvs, if_neg fun hc => hvs (List.cons.inj hc).2]

/-- A memory that takes every byte takes them all. -/
theorem taken_of_all (h : ∀ i, takes i = true) (n : Nat) (vs : List UInt8) :
    taken takes n vs = vs := by
  induction vs generalizing n with
  | nil => rfl
  | cons v vs ih => rw [taken_cons_of (h n), ih]

/-- Before the last address the transfer is a write. -/
theorem storeRound_eq_write {vs : List UInt8} (h : a + vs.length ≤ size) :
    storeRound size m a vs = m.write a vs := by
  induction vs generalizing a m with
  | nil => exact (m.write_nil a).symm
  | cons v vs ih =>
    rw [List.length_cons] at h
    rw [storeRound, m.write_cons a v vs]
    cases vs with
    | nil => exact (Mem.write_nil _ _).symm
    | cons w vs =>
      rw [List.length_cons] at h
      rw [Nat.mod_eq_of_lt (by omega), ih (by rw [List.length_cons]; omega)]

/-- And a read. -/
theorem readRound_eq_read (h : a + n ≤ size) : readRound size m a n = m.read a n := by
  induction n generalizing a with
  | zero => rfl
  | succ n ih =>
    rw [readRound, m.read_succ]
    refine congrArg (m a :: ·) ?_
    cases n with
    | zero => rfl
    | succ n => rw [Nat.mod_eq_of_lt (by omega), ih (by omega)]

end Transfers

end I2C
