import Mathlib.Algebra.Group.Nat.Defs
import Mathlib.Data.List.GetD
import Mathlib.Data.Nat.Basic
/-!
# Byte memory

A memory is a byte at every address, read and written in runs of bytes.
The frame lemmas say which bytes a write leaves alone; the little-endian
codec turns a word into the bytes it is stored as.
-/


/-- A byte at every address. -/
abbrev Mem := Nat → UInt8

namespace Mem

variable {m : Mem} {a b n : Nat} {bs : List UInt8}

/-- The `n` bytes from `a` on. -/
def read (m : Mem) (a n : Nat) : List UInt8 :=
  (List.range n).map fun i => m (a + i)

/-- The memory with `bs` put at `a`. -/
def write (m : Mem) (a : Nat) (bs : List UInt8) : Mem := fun x =>
  if a ≤ x ∧ x < a + bs.length then bs.getD (x - a) 0 else m x

@[simp] theorem length_read : (m.read a n).length = n := by
  simp [read]

theorem getD_read {i : Nat} (hi : i < n) : (m.read a n).getD i 0 = m (a + i) := by
  simp [read, hi]

/-- A byte the write does not cover is as before. -/
theorem write_of_disjoint {x : Nat} (h : x < a ∨ a + bs.length ≤ x) : m.write a bs x = m x := by
  unfold write
  rw [if_neg (by omega)]

/-- A byte the write covers is the byte written there. -/
theorem write_of_mem {x : Nat} (h₁ : a ≤ x) (h₂ : x < a + bs.length) :
    m.write a bs x = bs.getD (x - a) 0 := by
  unfold write
  rw [if_pos ⟨h₁, h₂⟩]

theorem write_at {i : Nat} (hi : i < bs.length) : m.write a bs (a + i) = bs.getD i 0 := by
  rw [write_of_mem (by omega) (by omega), Nat.add_sub_cancel_left]

@[simp] theorem write_byte (m : Mem) (a : Nat) (b : UInt8) : m.write a [b] a = b := by
  have hb : m.write a [b] (a + 0) = [b].getD 0 0 := write_at Nat.one_pos
  exact hb

/-- A read, cut in two. -/
theorem read_add (m : Mem) (a n k : Nat) : m.read a (n + k) = m.read a n ++ m.read (a + n) k := by
  unfold read
  rw [List.range_add, List.map_append, List.map_map]
  refine congrArg _ (List.map_congr_left fun i _ => ?_)
  simp only [Function.comp, Nat.add_assoc]

/-- A part of what is read. -/
theorem take_drop_read (m : Mem) (a n i k : Nat) :
    ((m.read a n).drop i).take k = m.read (a + i) (min k (n - i)) := by
  refine List.ext_getElem (by simp) fun j hj hj' => ?_
  simp [read, Nat.add_assoc]

/-- Two memories that agree on a range read the same there. -/
theorem read_congr {m' : Mem} (h : ∀ i < n, m (a + i) = m' (a + i)) :
    m.read a n = m'.read a n :=
  List.map_congr_left fun i hi => h i (List.mem_range.1 hi)

/-- A read, its first byte first. -/
theorem read_succ (m : Mem) (a n : Nat) : m.read a (n + 1) = m a :: m.read (a + 1) n := by
  rw [Nat.add_comm n 1, read_add]
  rfl

/-- A write, its first byte first. -/
theorem write_cons (m : Mem) (a : Nat) (b : UInt8) (bs : List UInt8) :
    m.write a (b :: bs) = (m.write a [b]).write (a + 1) bs := by
  funext x
  rcases Nat.lt_trichotomy x a with hlt | rfl | hgt
  · rw [write_of_disjoint (.inl hlt), write_of_disjoint (.inl (by omega)),
      write_of_disjoint (.inl hlt)]
  · rw [write_of_mem le_rfl (by simp), write_of_disjoint (.inl (by omega)), write_byte,
      Nat.sub_self]
    rfl
  · by_cases hx : x < a + 1 + bs.length
    · have hsub : x - a = x - (a + 1) + 1 := by omega
      rw [write_of_mem (by omega) (by rw [List.length_cons]; omega), write_of_mem (by omega) hx,
        hsub, List.getD_cons_succ]
    · rw [write_of_disjoint (.inr (by rw [List.length_cons]; omega)),
        write_of_disjoint (.inr (by omega)),
        write_of_disjoint (.inr (by rw [List.length_singleton]; omega))]

/-- Nothing is written. -/
@[simp] theorem write_nil (m : Mem) (a : Nat) : m.write a [] = m := by
  funext x
  exact write_of_disjoint (by rw [List.length_nil]; omega)

/-- **Reading back.** What was written is what is read. -/
theorem read_write_self : (m.write a bs).read a bs.length = bs := by
  refine List.ext_getElem (by simp) fun i h₁ h₂ => ?_
  simp only [read, List.getElem_map, List.getElem_range]
  rw [write_at h₂, List.getD_eq_getElem _ _ h₂]

/-- **The frame.** A read disjoint from the write sees the old bytes. -/
theorem read_write_disjoint (h : b + n ≤ a ∨ a + bs.length ≤ b) :
    (m.write a bs).read b n = m.read b n :=
  read_congr fun i hi => write_of_disjoint (by omega)

/-- A byte written over its own value, or behind what is read, goes
unnoticed, and no other one does. -/
theorem read_write_byte {v : UInt8} :
    (m.write a [v]).read 0 n = m.read 0 n ↔ (a < n → m a = v) := by
  constructor
  · intro h ha
    have hat : ((m.write a [v]).read 0 n).getD a 0 = (m.read 0 n).getD a 0 := by rw [h]
    rw [getD_read ha, getD_read ha, Nat.zero_add, write_byte] at hat
    exact hat.symm
  · intro h
    refine read_congr fun i hi => ?_
    rw [Nat.zero_add]
    rcases eq_or_ne i a with rfl | hne
    · rw [write_byte, h hi]
    · exact write_of_disjoint (by simp only [List.length_singleton]; omega)

/-- A part of what was written is read back from its place. -/
theorem read_write_slice {xs ys zs : List UInt8} :
    (m.write a (xs ++ ys ++ zs)).read (a + xs.length) ys.length = ys := by
  refine List.ext_getElem (by simp) fun i h₁ h₂ => ?_
  have hlen : xs.length + i < (xs ++ ys ++ zs).length := by simp; omega
  simp only [read, List.getElem_map, List.getElem_range]
  rw [Nat.add_assoc, write_at hlen, List.getD_eq_getElem _ _ hlen]
  simp [h₂]

/-- The bytes stand in the memory from `a` on. -/
def Holds (m : Mem) (a : Nat) (bs : List UInt8) : Prop := m.read a bs.length = bs

section Holds

variable {xs ys : List UInt8}

theorem holds_append : m.Holds a (xs ++ ys) ↔ m.Holds a xs ∧ m.Holds (a + xs.length) ys := by
  unfold Holds
  rw [List.length_append, read_add]
  constructor
  · intro h
    exact List.append_inj h length_read
  · rintro ⟨hx, hy⟩
    rw [hx, hy]

theorem holds_singleton {b : UInt8} : m.Holds a [b] ↔ m a = b := by
  simp [Holds, read, List.range_succ]

theorem holds_write : (m.write a bs).Holds a bs := read_write_self

/-- Writing what is there already changes nothing, and only that. -/
theorem write_eq_self : m.write a bs = m ↔ m.Holds a bs := by
  constructor
  · intro h
    rw [← h]
    exact holds_write
  · intro h
    funext x
    by_cases hx : a ≤ x ∧ x < a + bs.length
    · have hget : (m.read a bs.length).getD (x - a) 0 = m (a + (x - a)) := getD_read (by omega)
      rw [write_of_mem hx.1 hx.2, ← congrArg (List.getD · (x - a) 0) h, hget]
      exact congrArg m (by omega)
    · exact write_of_disjoint (by omega)

end Holds

/-- Bytes and the address they are written at. -/
structure Store where
  addr : Nat
  bytes : List UInt8
  deriving DecidableEq

/-- The write stays between two addresses. -/
def Store.Within (w : Store) (lo hi : Nat) : Prop := lo ≤ w.addr ∧ w.addr + w.bytes.length ≤ hi

instance (w : Store) (lo hi : Nat) : Decidable (w.Within lo hi) :=
  inferInstanceAs (Decidable (_ ∧ _))

/-- The memory after a list of writes. -/
def writeAll (m : Mem) (ws : List Store) : Mem :=
  ws.foldl (fun m w => m.write w.addr w.bytes) m

@[simp] theorem writeAll_nil : m.writeAll [] = m := rfl

@[simp] theorem writeAll_cons (w : Store) (ws : List Store) :
    m.writeAll (w :: ws) = (m.write w.addr w.bytes).writeAll ws := rfl

theorem writeAll_append (ws ws' : List Store) :
    m.writeAll (ws ++ ws') = (m.writeAll ws).writeAll ws' :=
  List.foldl_append

/-- A byte no write covers is as before. -/
theorem writeAll_outside {ws : List Store} {x : Nat}
    (h : ∀ w ∈ ws, x < w.addr ∨ w.addr + w.bytes.length ≤ x) : m.writeAll ws x = m x := by
  induction ws generalizing m with
  | nil => rfl
  | cons w ws ih =>
    rw [writeAll_cons, ih fun v hv => h v (List.mem_cons_of_mem _ hv)]
    exact write_of_disjoint (h w List.mem_cons_self)

theorem writeAll_of_within {ws : List Store} {lo hi x : Nat} (h : ∀ w ∈ ws, w.Within lo hi)
    (hx : x < lo ∨ hi ≤ x) : m.writeAll ws x = m x := by
  refine writeAll_outside fun w hw => ?_
  obtain ⟨hlo, hhi⟩ := h w hw
  omega

/-- What no write touches is read as before. -/
theorem read_writeAll_outside {ws : List Store} {b n : Nat}
    (h : ∀ w ∈ ws, b + n ≤ w.addr ∨ w.addr + w.bytes.length ≤ b) :
    (m.writeAll ws).read b n = m.read b n := by
  refine read_congr fun i hi => writeAll_outside fun w hw => ?_
  rcases h w hw with hw | hw
  · exact .inl (by omega)
  · exact .inr (by omega)

/-- The stores follow one another from `a` to `b`. -/
def Fills : Nat → Nat → List Store → Prop
  | a, b, [] => a = b
  | a, b, w :: ws => w.addr = a ∧ Fills (a + w.bytes.length) b ws

section Fills

variable {c x : Nat} {ws ws' : List Store}

theorem Fills.append (h : Fills a b ws) (h' : Fills b c ws') : Fills a c (ws ++ ws') := by
  induction ws generalizing a with
  | nil =>
    obtain rfl : a = b := h
    exact h'
  | cons w ws ih => exact ⟨h.1, ih h.2⟩

theorem Fills.le (h : Fills a b ws) : a ≤ b := by
  induction ws generalizing a with
  | nil => exact le_of_eq h
  | cons w ws ih => exact le_trans (Nat.le_add_right _ _) (ih h.2)

/-- No store leaves the range. -/
theorem Fills.within (h : Fills a b ws) : ∀ w ∈ ws, w.Within a b := by
  induction ws generalizing a with
  | nil => simp
  | cons w ws ih =>
    obtain ⟨rfl, hws⟩ := h
    have hle := hws.le
    intro v hv
    rcases List.mem_cons.1 hv with rfl | hv
    · exact ⟨le_refl _, hle⟩
    · obtain ⟨hlo, hhi⟩ := ih hws v hv
      exact ⟨by omega, hhi⟩

/-- Every byte of the range is stored. -/
theorem Fills.covered (h : Fills a b ws) (hlo : a ≤ x) (hhi : x < b) :
    ∃ w ∈ ws, w.addr ≤ x ∧ x < w.addr + w.bytes.length := by
  induction ws generalizing a with
  | nil =>
    obtain rfl : a = b := h
    omega
  | cons w ws ih =>
    obtain ⟨rfl, hws⟩ := h
    rcases Nat.lt_or_ge x (w.addr + w.bytes.length) with hlt | hge
    · exact ⟨w, List.mem_cons_self .., hlo, hlt⟩
    · obtain ⟨v, hv, hcov⟩ := ih hws hge
      exact ⟨v, List.mem_cons_of_mem _ hv, hcov⟩

/-- The range then reads as the stores, one after the other. -/
theorem Fills.read (h : Fills a b ws) : (m.writeAll ws).read a (b - a) = ws.flatMap (·.bytes) := by
  induction ws generalizing a m with
  | nil =>
    obtain rfl : a = b := h
    simp [Mem.read]
  | cons w ws ih =>
    obtain ⟨rfl, hws⟩ := h
    have hle := hws.le
    have hcut : b - w.addr = w.bytes.length + (b - (w.addr + w.bytes.length)) := by omega
    have hfirst : (m.writeAll (w :: ws)).read w.addr w.bytes.length = w.bytes := by
      rw [writeAll_cons]
      refine (read_congr fun i hi => ?_).trans (read_write_self (m := m) (a := w.addr))
      exact writeAll_of_within hws.within (.inl (by omega))
    rw [hcut, read_add, hfirst, writeAll_cons, ih hws, List.flatMap_cons]

end Fills

end Mem

namespace LittleEndian

/-- The low `k` bytes of a number, lowest first. -/
def encode : Nat → Nat → List UInt8
  | 0, _ => []
  | k + 1, n => UInt8.ofNat n :: encode k (n / 256)

/-- The number a list of bytes stands for, lowest first. -/
def decode : List UInt8 → Nat
  | [] => 0
  | b :: bs => b.toNat + 256 * decode bs

@[simp] theorem length_encode (k n : Nat) : (encode k n).length = k := by
  induction k generalizing n with
  | zero => rfl
  | succ k ih => simp [encode, ih]

/-- **Round trip.** A number in range is read back from its bytes. -/
theorem decode_encode {k n : Nat} (h : n < 256 ^ k) : decode (encode k n) = n := by
  induction k generalizing n with
  | zero => simp [encode, decode]; omega
  | succ k ih =>
    have hq : n / 256 < 256 ^ k := Nat.div_lt_of_lt_mul (by rw [Nat.pow_succ] at h; omega)
    have hb : (UInt8.ofNat n).toNat = n % 256 := by simp
    rw [encode, decode, ih hq, hb]
    omega

/-- And the bytes from their number. -/
theorem encode_decode (bs : List UInt8) : encode bs.length (decode bs) = bs := by
  induction bs with
  | nil => rfl
  | cons b bs ih =>
    have hb := b.toNat_lt
    have hdiv : (b.toNat + 256 * decode bs) / 256 = decode bs := by omega
    have hmod : UInt8.ofNat (b.toNat + 256 * decode bs) = b := by
      apply UInt8.toNat.inj
      rw [UInt8.toNat_ofNat']
      omega
    rw [List.length_cons, decode, encode, hdiv, hmod, ih]

theorem decode_lt (bs : List UInt8) : decode bs < 256 ^ bs.length := by
  induction bs with
  | nil => exact Nat.one_pos
  | cons b bs ih =>
    have hb := b.toNat_lt
    rw [decode, List.length_cons, Nat.pow_succ]
    omega

/-- Numbers of `k` bytes, one after the other. -/
def encodeAll (k : Nat) (ns : List Nat) : List UInt8 :=
  ns.flatMap (encode k)

@[simp] theorem length_encodeAll (k : Nat) (ns : List Nat) :
    (encodeAll k ns).length = k * ns.length := by
  induction ns with
  | nil => rfl
  | cons n ns ih =>
    rw [encodeAll, List.flatMap_cons, List.length_append, length_encode, ← encodeAll, ih,
      List.length_cons, Nat.mul_succ]
    omega

/-- Each number is read back from its own bytes. -/
theorem read_write_encodeAll {m : Mem} {a k i : Nat} {ns : List Nat} (hi : i < ns.length) :
    (m.write a (encodeAll k ns)).read (a + k * i) k = encode k ns[i] := by
  have hsplit : encodeAll k ns =
      encodeAll k (ns.take i) ++ encode k ns[i] ++ encodeAll k (ns.drop (i + 1)) :=
    calc encodeAll k ns = encodeAll k (ns.take i ++ ns.drop i) := by rw [List.take_append_drop]
      _ = _ := by
        unfold encodeAll
        rw [List.drop_eq_getElem_cons hi, List.flatMap_append, List.flatMap_cons,
          List.append_assoc]
  have hlen : (encodeAll k (ns.take i)).length = k * i := by
    rw [length_encodeAll, List.length_take, Nat.min_eq_left (Nat.le_of_lt hi)]
  have hread : (m.write a (encodeAll k (ns.take i) ++ encode k ns[i] ++
      encodeAll k (ns.drop (i + 1)))).read (a + (encodeAll k (ns.take i)).length)
        (encode k ns[i]).length = encode k ns[i] := Mem.read_write_slice
  rw [hlen, length_encode] at hread
  rw [hsplit, hread]

end LittleEndian
