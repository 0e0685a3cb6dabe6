import Mathlib.Data.List.Basic
import Mathlib.Data.List.TakeDrop
/-!
# Segments

Frames of any length through buffers of a fixed one: a frame is cut into
segments that each fill a buffer, up to the last one, and the two ends are
marked. Whoever takes the segments one after the other puts the frames
together again.
-/


/-- A part of a frame, and whether it is the first and the last one. -/
structure Segment (α : Type*) where
  first : Bool
  last : Bool
  data : List α
  deriving DecidableEq

namespace Segment

variable {α : Type*} {c : Nat} {frame : List α}

/-! ## Cutting -/

/-- How many buffers of `c` it takes, one at least. -/
def count (c len : Nat) : Nat := (len - 1) / c + 1

/-- The segment `i` of a frame. -/
def nth (c : Nat) (frame : List α) (i : Nat) : Segment α where
  first := i = 0
  last := i + 1 = count c frame.length
  data := (frame.drop (i * c)).take c

/-- The segments of a frame. -/
def cut (c : Nat) (frame : List α) : List (Segment α) :=
  (List.range (count c frame.length)).map (nth c frame)

@[simp] theorem length_cut (c : Nat) (frame : List α) :
    (cut c frame).length = count c frame.length := by
  rw [cut, List.length_map, List.length_range]

theorem getElem?_cut {i : Nat} (hi : i < count c frame.length) :
    (cut c frame)[i]? = some (nth c frame i) := by
  rw [cut, List.getElem?_map, List.getElem?_range hi, Option.map_some]

theorem count_pos (c len : Nat) : 0 < count c len := Nat.succ_pos _

theorem count_mono (c : Nat) {n m : Nat} (h : n ≤ m) : count c n ≤ count c m :=
  Nat.succ_le_succ (Nat.div_le_div_right (Nat.sub_le_sub_right h 1))

/-- The buffers but the last one are full. -/
theorem mul_lt_length (hc : 0 < c) (hpos : frame ≠ []) {i : Nat}
    (hi : i < count c frame.length) : i * c < frame.length := by
  have hlen := List.length_pos_iff.2 hpos
  have hle : i ≤ (frame.length - 1) / c := Nat.le_of_lt_succ hi
  have hmul := (Nat.le_div_iff_mul_le hc).1 hle
  omega

/-- And the last one is not too short. -/
theorem length_le_mul (hc : 0 < c) (frame : List α) :
    frame.length ≤ count c frame.length * c := by
  have hlt := Nat.lt_div_mul_add hc (a := frame.length - 1)
  unfold count
  rw [Nat.add_mul, Nat.one_mul]
  omega

/-- `n` buffers are enough for a frame no longer than they are. -/
theorem count_le (hc : 0 < c) {n len : Nat} (hn : 0 < n) : count c len ≤ n ↔ len ≤ n * c := by
  unfold count
  rw [Nat.succ_le_iff, Nat.div_lt_iff_lt_mul hc]
  have hpos := Nat.mul_pos hn hc
  omega

/-- Where the byte `x` of a frame is. -/
theorem getElem?_data (hc : 0 < c) (frame : List α) (x : Nat) :
    (nth c frame (x / c)).data[x % c]? = frame[x]? := by
  rw [nth, List.getElem?_take_of_lt (Nat.mod_lt x hc), List.getElem?_drop, Nat.mul_comm,
    Nat.div_add_mod]

/-- And that it is in one of the segments. -/
theorem div_lt_count {x len : Nat} (hx : x < len) : x / c < count c len :=
  Nat.lt_succ_of_le (Nat.div_le_div_right (by omega))

/-! ## Putting together -/

/-- What was received: the frames, and the part of the next one. -/
structure Inbox (α : Type*) where
  part : List α
  frames : List (List α)
  deriving DecidableEq

/-- Taking one segment. -/
def Inbox.take (b : Inbox α) (s : Segment α) : Inbox α :=
  let part := if s.first then s.data else b.part ++ s.data
  if s.last then ⟨[], b.frames ++ [part]⟩ else ⟨part, b.frames⟩

/-- Taking some of them. -/
def Inbox.takeAll (b : Inbox α) (ss : List (Segment α)) : Inbox α := ss.foldl Inbox.take b

@[simp] theorem Inbox.takeAll_nil (b : Inbox α) : b.takeAll [] = b := rfl

@[simp] theorem Inbox.takeAll_cons (b : Inbox α) (s : Segment α) (ss : List (Segment α)) :
    b.takeAll (s :: ss) = (b.take s).takeAll ss := rfl

theorem Inbox.takeAll_append (b : Inbox α) (ss ts : List (Segment α)) :
    b.takeAll (ss ++ ts) = (b.takeAll ss).takeAll ts := List.foldl_append

/-- The frames that were there stay. -/
theorem Inbox.frames_isPrefix (b : Inbox α) (ss : List (Segment α)) :
    b.frames <+: (b.takeAll ss).frames := by
  induction ss generalizing b with
  | nil => exact List.prefix_rfl
  | cons s ss ih =>
    refine List.IsPrefix.trans ?_ (ih _)
    unfold Inbox.take
    dsimp only
    split
    · exact List.prefix_append _ _
    · exact List.prefix_rfl

/-- Up to the last segment, the part is the beginning of the frame. -/
theorem Inbox.takeAll_take (b : Inbox α) (frame : List α) {i : Nat}
    (hi : i + 1 < count c frame.length) :
    b.takeAll ((cut c frame).take (i + 1)) = ⟨frame.take ((i + 1) * c), b.frames⟩ := by
  induction i with
  | zero =>
    have hcut : (cut c frame).take 1 = [nth c frame 0] := by
      rw [List.take_one, List.head?_eq_getElem?, getElem?_cut (count_pos _ _)]
      rfl
    have hlast : (nth c frame 0).last = false := decide_eq_false (Nat.ne_of_lt hi)
    rw [hcut, takeAll_cons, takeAll_nil, take, hlast]
    simp [nth]
  | succ i ih =>
    have hlast : (nth c frame (i + 1)).last = false := decide_eq_false (Nat.ne_of_lt hi)
    rw [List.take_add_one, getElem?_cut (by omega), takeAll_append, ih (by omega),
      Option.toList_some, takeAll_cons, takeAll_nil, take, hlast]
    have hadd : (i + 1 + 1) * c = (i + 1) * c + c := by rw [Nat.succ_mul]
    rw [hadd, List.take_add]
    simp [nth]

/-- **A frame** cut into segments is put together again. -/
theorem Inbox.takeAll_cut (hc : 0 < c) (b : Inbox α) (frame : List α) :
    b.takeAll (cut c frame) = ⟨[], b.frames ++ [frame]⟩ := by
  obtain ⟨k, hk⟩ : ∃ k, count c frame.length = k + 1 := ⟨_, rfl⟩
  have hlast : (nth c frame k).last = true := decide_eq_true hk.symm
  have hsplit : cut c frame = (cut c frame).take k ++ [nth c frame k] := by
    have hall : (cut c frame).take (k + 1) = cut c frame :=
      List.take_of_length_le (length_cut c frame ▸ Nat.le_of_eq hk)
    rw [← Option.toList_some, ← getElem?_cut (hk ▸ Nat.lt_succ_self k), ← List.take_add_one, hall]
  rw [hsplit, takeAll_append, takeAll_cons, takeAll_nil, take, hlast, if_pos rfl]
  cases k with
  | zero =>
    have hle := length_le_mul hc frame
    rw [hk, Nat.zero_add, Nat.one_mul] at hle
    simp [nth, List.take_of_length_le hle]
  | succ k =>
    have hle := length_le_mul hc frame
    rw [hk, Nat.succ_mul] at hle
    have hrest : (frame.drop ((k + 1) * c)).take c = frame.drop ((k + 1) * c) :=
      List.take_of_length_le (by rw [List.length_drop]; omega)
    rw [takeAll_take b frame (by omega)]
    simp [nth, hrest]

end Segment
