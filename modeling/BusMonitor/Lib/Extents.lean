import Mathlib.Data.List.Pairwise
import Mathlib.Data.Nat.Basic
/-!
# Extents in the order of their addresses

A set of addresses kept as a list of extents: ascending, and no two of them
touching. Such a list is determined by the addresses it covers
(`SeparatedFrom.ext`), so that an extent put in is joined with its
neighbours, and what is taken out and put back leaves the list it was. A
run of covered addresses lies inside of one extent, which is what a first
fit needs.
-/


/-- `size` addresses from `addr` on. -/
structure Extent where
  addr : Nat
  size : Nat
  deriving DecidableEq, Repr

namespace Extent

/-- The address behind the extent. -/
def stop (e : Extent) : Nat := e.addr + e.size

/-- How often the extent covers an address: once or not at all. -/
def holds (e : Extent) (x : Nat) : Nat := if e.addr ≤ x ∧ x < e.stop then 1 else 0

/-- How many of the extents cover an address. -/
def cover : List Extent → Nat → Nat
  | [], _ => 0
  | e :: es, x => e.holds x + cover es x

variable {e f b p : Extent} {es fs : List Extent} {lo x w : Nat}

@[simp] theorem cover_nil (x : Nat) : cover [] x = 0 := rfl

@[simp] theorem cover_cons (e : Extent) (es : List Extent) (x : Nat) :
    cover (e :: es) x = e.holds x + cover es x := rfl

@[simp] theorem cover_append (es fs : List Extent) (x : Nat) :
    cover (es ++ fs) x = cover es x + cover fs x := by
  induction es with
  | nil => simp
  | cons e es ih => rw [List.cons_append, cover_cons, cover_cons, ih, Nat.add_assoc]

theorem holds_le (e : Extent) (x : Nat) : e.holds x ≤ 1 := by
  unfold holds
  split <;> omega

theorem holds_eq_one : e.holds x = 1 ↔ e.addr ≤ x ∧ x < e.stop := by
  unfold holds
  split <;> simp [*]

theorem holds_eq_zero : e.holds x = 0 ↔ ¬ (e.addr ≤ x ∧ x < e.stop) := by
  unfold holds
  split <;> simp [*]

/-- Two extents that touch cover what the joined one does. -/
theorem holds_join (h : e.stop = f.addr) (x : Nat) :
    (⟨e.addr, e.size + f.size⟩ : Extent).holds x = e.holds x + f.holds x := by
  unfold holds stop at *
  dsimp only
  split_ifs <;> omega

theorem cover_perm (h : es.Perm fs) (x : Nat) : cover es x = cover fs x := by
  induction h with
  | nil => rfl
  | cons e _ ih => rw [cover_cons, cover_cons, ih]
  | swap e f es =>
    simp only [cover_cons]
    omega
  | trans _ _ ih₁ ih₂ => exact ih₁.trans ih₂

/-- An extent is one of the covering ones. -/
theorem holds_le_cover (he : e ∈ es) (x : Nat) : e.holds x ≤ cover es x := by
  obtain ⟨fs, gs, rfl⟩ := List.append_of_mem he
  rw [cover_append, cover_cons]
  omega

theorem cover_eq_zero (h : ∀ e ∈ es, e.holds x = 0) : cover es x = 0 := by
  induction es with
  | nil => rfl
  | cons e es ih =>
    obtain ⟨he, hes⟩ := List.forall_mem_cons.1 h
    rw [cover_cons, he, ih hes]

/-- Two extents without a common address. -/
def Disjoint (e f : Extent) : Prop := e.stop ≤ f.addr ∨ f.stop ≤ e.addr

instance (e f : Extent) : Decidable (e.Disjoint f) := inferInstanceAs (Decidable (_ ∨ _))

instance : Std.Symm Disjoint := ⟨fun _ _ => Or.symm⟩

/-- Extents that are not disjoint have a common address: the greater one of
theirs. -/
theorem exists_common (he : 0 < e.size) (hf : 0 < f.size) (hc : ¬ e.Disjoint f) :
    ∃ x, e.holds x = 1 ∧ f.holds x = 1 := by
  have hestop : e.stop = e.addr + e.size := rfl
  have hfstop : f.stop = f.addr + f.size := rfl
  unfold Disjoint at hc
  rcases Nat.le_total e.addr f.addr with hle | hle
  · exact ⟨f.addr, holds_eq_one.2 (by omega), holds_eq_one.2 (by omega)⟩
  · exact ⟨e.addr, holds_eq_one.2 (by omega), holds_eq_one.2 (by omega)⟩

/-- Extents that cover no address twice are disjoint. -/
theorem pairwise_disjoint (hcov : ∀ x, cover es x ≤ 1) (hpos : ∀ e ∈ es, 0 < e.size) :
    es.Pairwise Disjoint := by
  induction es with
  | nil => exact .nil
  | cons e es ih =>
    obtain ⟨he, hes⟩ := List.forall_mem_cons.1 hpos
    refine .cons (fun f hf => ?_) (ih (fun x => ?_) hes)
    · by_contra hc
      obtain ⟨x, hex, hfx⟩ := exists_common he (hes f hf) hc
      have hle := holds_le_cover hf x
      have hone := hcov x
      rw [cover_cons] at hone
      omega
    · have hone := hcov x
      rw [cover_cons] at hone
      omega

/-! ## Separated extents -/

/-- Extents that are not empty, ascending from `lo` on, with a gap between
any two. -/
def SeparatedFrom : Nat → List Extent → Prop
  | _, [] => True
  | lo, e :: es => lo ≤ e.addr ∧ 0 < e.size ∧ SeparatedFrom (e.stop + 1) es

theorem SeparatedFrom.mono {lo' : Nat} (h : SeparatedFrom lo es) (hle : lo' ≤ lo) :
    SeparatedFrom lo' es := by
  cases es with
  | nil => trivial
  | cons e es => exact ⟨Nat.le_trans hle h.1, h.2⟩

/-- Below the first address nothing is covered. -/
theorem SeparatedFrom.cover_eq_zero (h : SeparatedFrom lo es) (hx : x < lo) : cover es x = 0 := by
  induction es generalizing lo with
  | nil => rfl
  | cons e es ih =>
    obtain ⟨hlo, -, htail⟩ := h
    have hzero : e.holds x = 0 := holds_eq_zero.2 (by omega)
    have hstop : e.addr ≤ e.stop := Nat.le_add_right _ _
    rw [cover_cons, hzero, ih htail (by omega)]

theorem SeparatedFrom.le_addr (h : SeparatedFrom lo es) (he : e ∈ es) : lo ≤ e.addr := by
  induction es generalizing lo with
  | nil => exact absurd he List.not_mem_nil
  | cons f es ih =>
    obtain ⟨hlo, -, htail⟩ := h
    have hstop : f.addr ≤ f.stop := Nat.le_add_right _ _
    rcases List.mem_cons.1 he with rfl | he
    · exact hlo
    · have hle := ih htail he
      omega

theorem SeparatedFrom.size_pos (h : SeparatedFrom lo es) (he : e ∈ es) : 0 < e.size := by
  induction es generalizing lo with
  | nil => exact absurd he List.not_mem_nil
  | cons f es ih =>
    rcases List.mem_cons.1 he with rfl | he
    · exact h.2.1
    · exact ih h.2.2 he

/-- Between two addresses there are no more extents than addresses. -/
theorem SeparatedFrom.length_le {hi : Nat} (h : SeparatedFrom lo es) (hle : lo ≤ hi)
    (hstop : ∀ e ∈ es, e.stop ≤ hi) : es.length ≤ hi - lo := by
  induction es generalizing lo with
  | nil => exact Nat.zero_le _
  | cons e es ih =>
    obtain ⟨hlo, hpos, htail⟩ := h
    obtain ⟨he, hes⟩ := List.forall_mem_cons.1 hstop
    have hstop : e.stop = e.addr + e.size := rfl
    cases es with
    | nil =>
      rw [List.length_singleton]
      omega
    | cons f es =>
      have hf := (List.forall_mem_cons.1 hes).1
      have hlt : e.stop + 1 ≤ f.addr := htail.1
      have hpos' : f.stop = f.addr + f.size := rfl
      have hlen := ih htail (by omega) hes
      rw [List.length_cons]
      omega

/-- The addresses ascend. -/
theorem SeparatedFrom.nodup (h : SeparatedFrom lo es) : (es.map addr).Nodup := by
  induction es generalizing lo with
  | nil => exact List.nodup_nil
  | cons e es ih =>
    refine List.nodup_cons.2 ⟨fun hc => ?_, ih h.2.2⟩
    obtain ⟨f, hf, heq⟩ := List.mem_map.1 hc
    have hle := h.2.2.le_addr hf
    have hstop : e.stop = e.addr + e.size := rfl
    omega

/-- Up to its end the first extent is the only one. -/
theorem SeparatedFrom.cover_head (h : SeparatedFrom lo (e :: es)) (hx : x ≤ e.stop) :
    cover (e :: es) x = e.holds x := by
  rw [cover_cons, h.2.2.cover_eq_zero (by omega), Nat.add_zero]

theorem SeparatedFrom.addr_le (he : SeparatedFrom lo (e :: es)) (hf : SeparatedFrom lo (f :: fs))
    (h : ∀ x, cover (e :: es) x = cover (f :: fs) x) : f.addr ≤ e.addr := by
  by_contra hlt
  have hone : e.holds e.addr = 1 := holds_eq_one.2 ⟨le_rfl, Nat.lt_add_of_pos_right he.2.1⟩
  have hzero : f.holds e.addr = 0 := holds_eq_zero.2 (by omega)
  have hstop : f.addr ≤ f.stop := Nat.le_add_right _ _
  have hx := h e.addr
  rw [he.cover_head (Nat.le_add_right _ _), hf.cover_head (by omega), hone, hzero] at hx
  exact absurd hx (by decide)

theorem SeparatedFrom.stop_le (he : SeparatedFrom lo (e :: es)) (hf : SeparatedFrom lo (f :: fs))
    (h : ∀ x, cover (e :: es) x = cover (f :: fs) x) (haddr : e.addr = f.addr) :
    f.stop ≤ e.stop := by
  by_contra hlt
  have hstop : e.addr ≤ e.stop := Nat.le_add_right _ _
  have hzero : e.holds e.stop = 0 := holds_eq_zero.2 (by omega)
  have hone : f.holds e.stop = 1 := holds_eq_one.2 (by omega)
  have hx := h e.stop
  rw [he.cover_head le_rfl, hf.cover_head (by omega), hone, hzero] at hx
  exact absurd hx (by decide)

/-- No address is covered twice. -/
theorem SeparatedFrom.cover_le (h : SeparatedFrom lo es) (x : Nat) : cover es x ≤ 1 := by
  induction es generalizing lo with
  | nil => exact Nat.zero_le 1
  | cons e es ih =>
    rcases Nat.lt_or_ge e.stop x with hlt | hge
    · rw [cover_cons, holds_eq_zero.2 (by omega), Nat.zero_add]
      exact ih h.2.2
    · rw [h.cover_head hge]
      exact holds_le e x

/-- **Canonical form.** The covered addresses determine the list. -/
theorem SeparatedFrom.ext (he : SeparatedFrom lo es) (hf : SeparatedFrom lo fs)
    (h : ∀ x, cover es x = cover fs x) : es = fs := by
  induction es generalizing lo fs with
  | nil =>
    cases fs with
    | nil => rfl
    | cons f fs =>
      have hone : f.holds f.addr = 1 := holds_eq_one.2 ⟨le_rfl, Nat.lt_add_of_pos_right hf.2.1⟩
      have hx := h f.addr
      rw [cover_nil, hf.cover_head (Nat.le_add_right _ _), hone] at hx
      exact absurd hx (by decide)
  | cons e es ih =>
    cases fs with
    | nil =>
      have hone : e.holds e.addr = 1 := holds_eq_one.2 ⟨le_rfl, Nat.lt_add_of_pos_right he.2.1⟩
      have hx := h e.addr
      rw [cover_nil, he.cover_head (Nat.le_add_right _ _), hone] at hx
      exact absurd hx (by decide)
    | cons f fs =>
      have haddr : e.addr = f.addr :=
        Nat.le_antisymm (hf.addr_le he fun x => (h x).symm) (he.addr_le hf h)
      have hstop : e.stop = f.stop :=
        Nat.le_antisymm (hf.stop_le he (fun x => (h x).symm) haddr.symm) (he.stop_le hf h haddr)
      obtain rfl : e = f := by
        obtain ⟨a, s⟩ := e
        obtain ⟨a', s'⟩ := f
        obtain rfl : a = a' := haddr
        exact congrArg (Extent.mk a) (Nat.add_left_cancel hstop)
      refine congrArg (e :: ·) (ih he.2.2 hf.2.2 fun x => ?_)
      exact Nat.add_left_cancel (h x)

/-- A run of covered addresses begins and ends in the same extent. -/
theorem SeparatedFrom.exists_mem (h : SeparatedFrom lo es) {a : Nat} (hw : 0 < w)
    (hcov : ∀ x, a ≤ x → x < a + w → cover es x = 1) :
    ∃ e ∈ es, e.addr ≤ a ∧ a + w ≤ e.stop := by
  induction es generalizing lo with
  | nil => exact absurd (hcov a le_rfl (by omega)) Nat.zero_ne_one
  | cons e es ih =>
    have hstop : e.addr ≤ e.stop := Nat.le_add_right _ _
    rcases Nat.lt_or_ge e.stop a with hlt | hge
    · -- the run lies behind the first extent
      obtain ⟨f, hf, hin⟩ := ih h.2.2 fun x hx hx' => by
        have hone := hcov x hx hx'
        rwa [cover_cons, holds_eq_zero.2 (by omega), Nat.zero_add] at hone
      exact ⟨f, List.mem_cons_of_mem _ hf, hin⟩
    · refine ⟨e, List.mem_cons_self .., ?_, ?_⟩
      · have hone := hcov a le_rfl (by omega)
        rw [h.cover_head hge, holds_eq_one] at hone
        exact hone.1
      · by_contra hlt
        have hone := hcov e.stop hge (by omega)
        rw [h.cover_head le_rfl, holds_eq_one] at hone
        exact absurd hone.2 (lt_irrefl _)

/-- So there is an extent of a size where there is a run of it. -/
theorem SeparatedFrom.exists_size_iff (h : SeparatedFrom lo es) (hw : 0 < w) :
    (∃ e ∈ es, w ≤ e.size) ↔ ∃ a, ∀ x, a ≤ x → x < a + w → cover es x = 1 := by
  constructor
  · rintro ⟨e, he, hle⟩
    refine ⟨e.addr, fun x hx hx' => Nat.le_antisymm (h.cover_le x) ?_⟩
    rw [← holds_eq_one.2 ⟨hx, Nat.lt_of_lt_of_le hx' (Nat.add_le_add_left hle _)⟩]
    exact holds_le_cover he x
  · rintro ⟨a, hcov⟩
    obtain ⟨e, he, hle, hle'⟩ := h.exists_mem hw hcov
    refine ⟨e, he, ?_⟩
    unfold stop at hle'
    omega

/-! ## Putting an extent in -/

/-- An extent before a list, joined with the first one where they touch. -/
def join (e : Extent) : List Extent → List Extent
  | [] => [e]
  | f :: fs => if e.stop = f.addr then ⟨e.addr, e.size + f.size⟩ :: fs else e :: f :: fs

/-- The same behind `p`, and joined with it where they touch. -/
def attach (p b : Extent) (fs : List Extent) : List Extent :=
  if p.stop = b.addr then join ⟨p.addr, p.size + b.size⟩ fs else p :: join b fs

/-- An extent put in somewhere behind `p`. -/
def insertAfter (p b : Extent) : List Extent → List Extent
  | [] => attach p b []
  | f :: fs => if f.addr < b.addr then p :: insertAfter f b fs else attach p b (f :: fs)

/-- An extent put in at its place. -/
def insert (b : Extent) : List Extent → List Extent
  | [] => [b]
  | f :: fs => if f.addr < b.addr then insertAfter f b fs else join b (f :: fs)

/-- Behind what does not touch it an extent is put in as if alone. -/
theorem insertAfter_of_ne (h : p.stop ≠ b.addr) (fs : List Extent) :
    insertAfter p b fs = p :: insert b fs := by
  cases fs with
  | nil => exact if_neg h
  | cons f fs =>
    rw [insertAfter, insert, attach, if_neg h]
    split <;> rfl

theorem cover_join (e : Extent) (fs : List Extent) (x : Nat) :
    cover (join e fs) x = e.holds x + cover fs x := by
  cases fs with
  | nil => rfl
  | cons f fs =>
    rw [join]
    split
    · next h => rw [cover_cons, cover_cons, holds_join h, Nat.add_assoc]
    · rfl

theorem cover_attach (p b : Extent) (fs : List Extent) (x : Nat) :
    cover (attach p b fs) x = p.holds x + (b.holds x + cover fs x) := by
  rw [attach]
  split
  · next h => rw [cover_join, holds_join h, Nat.add_assoc]
  · rw [cover_cons, cover_join]

theorem cover_insertAfter (p b : Extent) (fs : List Extent) (x : Nat) :
    cover (insertAfter p b fs) x = p.holds x + (b.holds x + cover fs x) := by
  induction fs generalizing p with
  | nil => exact cover_attach p b [] x
  | cons f fs ih =>
    rw [insertAfter]
    split
    · rw [cover_cons, ih, cover_cons]
      omega
    · exact cover_attach p b (f :: fs) x

/-- **What is put in is covered**, and what was. -/
theorem cover_insert (b : Extent) (fs : List Extent) (x : Nat) :
    cover (insert b fs) x = b.holds x + cover fs x := by
  cases fs with
  | nil => rfl
  | cons f fs =>
    rw [insert]
    split
    · rw [cover_insertAfter, cover_cons]
      omega
    · exact cover_join b (f :: fs) x

theorem SeparatedFrom.join (hlo : lo ≤ e.addr) (hpos : 0 < e.size)
    (h : SeparatedFrom e.stop fs) : SeparatedFrom lo (join e fs) := by
  cases fs with
  | nil => exact ⟨hlo, hpos, trivial⟩
  | cons f fs =>
    obtain ⟨hle, hpos', htail⟩ := h
    rw [Extent.join]
    split
    · next hstop =>
      have heq : (⟨e.addr, e.size + f.size⟩ : Extent).stop = f.stop := by
        unfold stop at hstop ⊢
        dsimp only
        omega
      exact ⟨hlo, Nat.add_pos_left hpos _, heq ▸ htail⟩
    · next hne => exact ⟨hlo, hpos, by omega, hpos', htail⟩

theorem SeparatedFrom.attach (hlo : lo ≤ p.addr) (hp : 0 < p.size) (hpos : 0 < b.size)
    (hle : p.stop ≤ b.addr) (h : SeparatedFrom b.stop fs) : SeparatedFrom lo (attach p b fs) := by
  rw [Extent.attach]
  split
  · next hstop =>
    have heq : (⟨p.addr, p.size + b.size⟩ : Extent).stop = b.stop := by
      unfold stop at hstop ⊢
      dsimp only
      omega
    exact .join hlo (Nat.add_pos_left hp _) (heq ▸ h)
  · next hne => exact ⟨hlo, hp, .join (by omega) hpos h⟩

/-- The extent is in none of the others. -/
def Outside (b : Extent) (es : List Extent) : Prop := ∀ e ∈ es, e.Disjoint b

/-- A part of it is outside as well. -/
theorem Outside.mono (hout : e.Outside es) (haddr : e.addr ≤ b.addr) (hstop : b.stop ≤ e.stop) :
    b.Outside es := fun f hf => (hout f hf).imp (le_trans · haddr) (le_trans hstop ·)

/-- The extents behind it come after it. -/
theorem SeparatedFrom.addr_lt {gs : List Extent} (h : SeparatedFrom lo (fs ++ e :: gs)) :
    ∀ g ∈ gs, e.addr < g.addr := by
  induction fs generalizing lo with
  | nil =>
    intro g hg
    have hle := h.2.2.le_addr hg
    have hstop : e.stop = e.addr + e.size := rfl
    omega
  | cons f fs ih => exact ih h.2.2

/-- An extent taken out leaves the others separated. -/
theorem SeparatedFrom.remove {gs : List Extent} (h : SeparatedFrom lo (fs ++ e :: gs)) :
    SeparatedFrom lo (fs ++ gs) := by
  induction fs generalizing lo with
  | nil =>
    obtain ⟨hlo, -, htail⟩ := h
    have hstop : e.stop = e.addr + e.size := rfl
    exact htail.mono (by omega)
  | cons f fs ih => exact ⟨h.1, h.2.1, ih h.2.2⟩

/-- An extent that is outside, and not behind the first one, is before all
of them. -/
theorem SeparatedFrom.of_outside (h : SeparatedFrom lo (f :: fs)) (hout : b.Outside (f :: fs))
    (hlt : ¬ f.addr < b.addr) : SeparatedFrom b.stop (f :: fs) := by
  refine ⟨?_, h.2⟩
  have hpos : f.addr < f.stop := Nat.lt_add_of_pos_right h.2.1
  rcases hout f (List.mem_cons_self ..) with hstop | hstop
  · omega
  · exact hstop

/-- One that begins behind the first one is behind its end. -/
theorem Outside.stop_le (hout : b.Outside (f :: fs)) (hlt : f.addr < b.addr) :
    f.stop ≤ b.addr := by
  have hle : b.addr ≤ b.stop := Nat.le_add_right _ _
  rcases hout f (List.mem_cons_self ..) with hstop | hstop
  · exact hstop
  · omega

theorem SeparatedFrom.insertAfter (h : SeparatedFrom lo (p :: fs)) (hpos : 0 < b.size)
    (hp : p.stop ≤ b.addr) (hout : b.Outside fs) : SeparatedFrom lo (insertAfter p b fs) := by
  induction fs generalizing p lo with
  | nil => exact .attach h.1 h.2.1 hpos hp trivial
  | cons f fs ih =>
    rw [Extent.insertAfter]
    split
    · next hlt =>
      exact ⟨h.1, h.2.1, ih h.2.2 (hout.stop_le hlt) fun e he => hout e (List.mem_cons_of_mem _ he)⟩
    · next hlt => exact .attach h.1 h.2.1 hpos hp (h.2.2.of_outside hout hlt)

/-- **Putting in** keeps the extents separated. -/
theorem SeparatedFrom.insert (h : SeparatedFrom lo fs) (hlo : lo ≤ b.addr) (hpos : 0 < b.size)
    (hout : b.Outside fs) : SeparatedFrom lo (insert b fs) := by
  cases fs with
  | nil => exact ⟨hlo, hpos, trivial⟩
  | cons f fs =>
    rw [Extent.insert]
    split
    · next hlt =>
      exact h.insertAfter hpos (hout.stop_le hlt) fun e he => hout e (List.mem_cons_of_mem _ he)
    · next hlt => exact .join hlo hpos (h.of_outside hout hlt)

/-! ## Amounts -/

/-- The addresses of the extents together. -/
def total : List Extent → Nat
  | [] => 0
  | e :: es => e.size + total es

@[simp] theorem total_nil : total [] = 0 := rfl

@[simp] theorem total_cons (e : Extent) (es : List Extent) :
    total (e :: es) = e.size + total es := rfl

@[simp] theorem total_append (es fs : List Extent) : total (es ++ fs) = total es + total fs := by
  induction es with
  | nil => simp
  | cons e es ih => rw [List.cons_append, total_cons, total_cons, ih, Nat.add_assoc]

theorem total_perm (h : es.Perm fs) : total es = total fs := by
  induction h with
  | nil => rfl
  | cons e _ ih => rw [total_cons, total_cons, ih]
  | swap e f es =>
    simp only [total_cons]
    omega
  | trans _ _ ih₁ ih₂ => exact ih₁.trans ih₂

/-- No extent is larger than all of them together. -/
theorem size_le_total (he : e ∈ es) : e.size ≤ total es := by
  obtain ⟨fs, gs, rfl⟩ := List.append_of_mem he
  rw [total_append, total_cons]
  omega

theorem total_join (e : Extent) (fs : List Extent) : total (join e fs) = e.size + total fs := by
  cases fs with
  | nil => rfl
  | cons f fs =>
    rw [join]
    split
    · rw [total_cons, total_cons, Nat.add_assoc]
    · rfl

theorem total_attach (p b : Extent) (fs : List Extent) :
    total (attach p b fs) = p.size + (b.size + total fs) := by
  rw [attach]
  split
  · rw [total_join, Nat.add_assoc]
  · rw [total_cons, total_join]

theorem total_insertAfter (p b : Extent) (fs : List Extent) :
    total (insertAfter p b fs) = p.size + (b.size + total fs) := by
  induction fs generalizing p with
  | nil => exact total_attach p b []
  | cons f fs ih =>
    rw [insertAfter]
    split
    · rw [total_cons, ih, total_cons]
      omega
    · exact total_attach p b (f :: fs)

/-- **What is put in is counted**, and what was. -/
theorem total_insert (b : Extent) (fs : List Extent) :
    total (insert b fs) = b.size + total fs := by
  cases fs with
  | nil => rfl
  | cons f fs =>
    rw [insert]
    split
    · rw [total_insertAfter, total_cons]
      omega
    · exact total_join b (f :: fs)

/-- Addresses and sizes are multiples of `k`. -/
def Aligned (k : Nat) (es : List Extent) : Prop := ∀ e ∈ es, k ∣ e.addr ∧ k ∣ e.size

section Aligned

variable {k : Nat}

theorem aligned_cons : Aligned k (e :: es) ↔ (k ∣ e.addr ∧ k ∣ e.size) ∧ Aligned k es :=
  List.forall_mem_cons

theorem aligned_append : Aligned k (es ++ fs) ↔ Aligned k es ∧ Aligned k fs :=
  List.forall_mem_append

theorem Aligned.join (he : k ∣ e.addr ∧ k ∣ e.size) (h : Aligned k fs) : Aligned k (join e fs) := by
  cases fs with
  | nil => exact aligned_cons.2 ⟨he, h⟩
  | cons f fs =>
    obtain ⟨hf, hfs⟩ := aligned_cons.1 h
    rw [Extent.join]
    split
    · exact aligned_cons.2 ⟨⟨he.1, Nat.dvd_add he.2 hf.2⟩, hfs⟩
    · exact aligned_cons.2 ⟨he, h⟩

theorem Aligned.attach (hp : k ∣ p.addr ∧ k ∣ p.size) (hb : k ∣ b.addr ∧ k ∣ b.size)
    (h : Aligned k fs) : Aligned k (attach p b fs) := by
  rw [Extent.attach]
  split
  · exact .join ⟨hp.1, Nat.dvd_add hp.2 hb.2⟩ h
  · exact aligned_cons.2 ⟨hp, .join hb h⟩

theorem Aligned.insertAfter (hp : k ∣ p.addr ∧ k ∣ p.size) (hb : k ∣ b.addr ∧ k ∣ b.size)
    (h : Aligned k fs) : Aligned k (insertAfter p b fs) := by
  induction fs generalizing p with
  | nil => exact .attach hp hb h
  | cons f fs ih =>
    obtain ⟨hf, hfs⟩ := aligned_cons.1 h
    rw [Extent.insertAfter]
    split
    · exact aligned_cons.2 ⟨hp, ih hf hfs⟩
    · exact .attach hp hb h

theorem Aligned.insert (hb : k ∣ b.addr ∧ k ∣ b.size) (h : Aligned k fs) :
    Aligned k (insert b fs) := by
  cases fs with
  | nil => exact aligned_cons.2 ⟨hb, h⟩
  | cons f fs =>
    obtain ⟨hf, hfs⟩ := aligned_cons.1 h
    rw [Extent.insert]
    split
    · exact .insertAfter hf hb hfs
    · exact .join hb h

end Aligned

end Extent
