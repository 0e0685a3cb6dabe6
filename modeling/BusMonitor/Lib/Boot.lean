import BusMonitor.Lib.Mem
import BusMonitor.Lib.Run
import Mathlib.Data.List.Pairwise
/-!
# Initialising a memory once

A memory with regions that are filled at the first start: a marker, then
the initial contents. A start fills the regions whose marker it does not
find. `sound_cut_iff` says when a start that is cut short leaves no region
marked and unfilled, and `filled_finish_iff` that this is what the next
complete start needs.
-/


namespace Mem

variable {m : Mem} {w v : Store} {ws : List Store}

/-- Two writes that do not meet. -/
def Store.Apart (w v : Store) : Prop :=
  w.addr + w.bytes.length ≤ v.addr ∨ v.addr + v.bytes.length ≤ w.addr

instance (w v : Store) : Decidable (w.Apart v) := inferInstanceAs (Decidable (_ ∨ _))

theorem Store.Apart.symm (h : w.Apart v) : v.Apart w := Or.symm h

instance : Std.Symm Store.Apart := ⟨fun _ _ h => h.symm⟩

/-- The bytes of a write are in place. -/
def Store.In (w : Store) (m : Mem) : Prop := m.Holds w.addr w.bytes

instance (w : Store) (m : Mem) : Decidable (w.In m) := inferInstanceAs (Decidable (_ = _))

/-- Writes apart from a place leave what is read there. -/
theorem read_writeAll_of_apart (h : ∀ v ∈ ws, v.Apart w) :
    (m.writeAll ws).read w.addr w.bytes.length = m.read w.addr w.bytes.length := by
  induction ws generalizing m with
  | nil => rfl
  | cons v ws ih =>
    rw [writeAll_cons, ih fun u hu => h u (List.mem_cons_of_mem _ hu)]
    exact read_write_disjoint (h v (List.mem_cons_self ..)).symm

/-- Writes apart from what is in place leave it there. -/
theorem in_writeAll_of_apart (h : ∀ v ∈ ws, v.Apart w) : w.In (m.writeAll ws) ↔ w.In m := by
  unfold Store.In Holds
  rw [read_writeAll_of_apart h]

/-- A write of a list that keeps apart is in place after all of them. -/
theorem in_writeAll_of_mem (h : ws.Pairwise Store.Apart) (hw : w ∈ ws) :
    w.In (m.writeAll ws) := by
  induction ws generalizing m with
  | nil => exact absurd hw List.not_mem_nil
  | cons v ws ih =>
    obtain ⟨hv, hws⟩ := List.pairwise_cons.1 h
    rcases List.mem_cons.1 hw with rfl | hmem
    · exact (in_writeAll_of_apart fun u hu => (hv u hu).symm).2 holds_write
    · exact ih hws hmem

/-- **Writing a part.** Of writes that keep apart, those in place after some
of them are those made and those in place before. -/
theorem in_writeAll_iff {all : List Store} (hall : all.Pairwise Store.Apart)
    (hsub : ws.Sublist all) (hw : w ∈ all) : w.In (m.writeAll ws) ↔ w ∈ ws ∨ w.In m := by
  by_cases hmem : w ∈ ws
  · exact iff_of_true (in_writeAll_of_mem (hall.sublist hsub) hmem) (.inl hmem)
  · rw [or_iff_right hmem]
    refine in_writeAll_of_apart fun v hv => ?_
    have hne : v ≠ w := fun h => hmem (h ▸ hv)
    exact hall.forall (hsub.subset hv) hw hne

/-- Writes that keep apart change nothing when all of them are in place, and
only then. -/
theorem writeAll_eq_self (h : ws.Pairwise Store.Apart) :
    m.writeAll ws = m ↔ ∀ w ∈ ws, w.In m := by
  constructor
  · intro heq w hw
    rw [← heq]
    exact in_writeAll_of_mem h hw
  · intro hin
    induction ws with
    | nil => rfl
    | cons v ws ih =>
      have hv : m.write v.addr v.bytes = m := write_eq_self.2 (hin v (List.mem_cons_self ..))
      rw [writeAll_cons, hv]
      exact ih h.of_cons fun w hw => hin w (List.mem_cons_of_mem _ hw)

end Mem

namespace Boot

open Mem

/-- A region: the marker, and what is written behind it. -/
structure Region where
  mark : Store
  initial : List Store

namespace Region

variable (g : Region) (m : Mem)

/-- The writes that fill it. -/
def all : List Store := g.mark :: g.initial

def Marked : Prop := g.mark.In m

instance : Decidable (g.Marked m) := inferInstanceAs (Decidable (g.mark.In m))

/-- The initial contents are in place. -/
def Filled : Prop := ∀ w ∈ g.initial, w.In m

variable {g m} in
/-- Writes apart from a region leave it as it was. -/
theorem sound_writeAll {ws : List Store} (h : ∀ v ∈ ws, ∀ w ∈ g.all, v.Apart w)
    (hs : g.Marked m → g.Filled m) : g.Marked (m.writeAll ws) → g.Filled (m.writeAll ws) := by
  intro hmarked w hw
  have hbefore : g.Marked m :=
    (in_writeAll_of_apart fun v hv => h v hv g.mark List.mem_cons_self).1 hmarked
  exact (in_writeAll_of_apart fun v hv => h v hv w (List.mem_cons_of_mem _ hw)).2 (hs hbefore w hw)

end Region

/-- The regions keep apart, and no write is empty. -/
structure Layout (gs : List Region) : Prop where
  apart : (gs.flatMap Region.all).Pairwise Store.Apart
  nonempty : ∀ g ∈ gs, ∀ w ∈ g.all, w.bytes ≠ []

variable {gs : List Region} {g : Region} {m : Mem} {w : Store} {n : Nat}

/-- The writes of a start that takes some regions for initialised. -/
def writesBut (taken : Region → Prop) [DecidablePred taken] (gs : List Region) : List Store :=
  gs.flatMap fun g => if taken g then [] else g.all

/-- The writes of a start. -/
def pending (gs : List Region) (m : Mem) : List Store := writesBut (·.Marked m) gs

/-- A start that loses power after `n` writes. -/
def cut (gs : List Region) (m : Mem) (n : Nat) : Mem := m.writeAll ((pending gs m).take n)

/-- A start that runs to its end. -/
def finish (gs : List Region) (m : Mem) : Mem := m.writeAll (pending gs m)

/-- No region is marked and unfilled. -/
def Sound (gs : List Region) (m : Mem) : Prop := ∀ g ∈ gs, g.Marked m → g.Filled m

/-- Where a start may lose power: the initial contents it has not come to,
in a region whose marker it has written, are in place already. -/
def CutSafe (gs : List Region) (m : Mem) (n : Nat) : Prop :=
  ∀ g ∈ gs, g.mark ∈ (pending gs m).take n →
    ∀ w ∈ g.initial, w ∉ (pending gs m).take n → w.In m

instance : Decidable (CutSafe gs m n) := inferInstanceAs (Decidable (∀ g ∈ gs, _))

section writesBut

variable {taken : Region → Prop} [DecidablePred taken]

theorem mem_writesBut : w ∈ writesBut taken gs ↔ ∃ g ∈ gs, ¬ taken g ∧ w ∈ g.all := by
  unfold writesBut
  simp only [List.mem_flatMap]
  refine exists_congr fun g => and_congr_right fun _ => ?_
  by_cases h : taken g
  · simp [h]
  · simp [h]

theorem writesBut_sublist : (writesBut taken gs).Sublist (gs.flatMap Region.all) := by
  induction gs with
  | nil => exact List.Sublist.refl _
  | cons g gs ih =>
    have hg : (if taken g then [] else g.all).Sublist g.all := by
      split
      · exact List.nil_sublist _
      · exact List.Sublist.refl _
    exact hg.append ih

end writesBut

namespace Layout

variable (h : Layout gs)

include h

/-- A write belongs to one region. -/
theorem eq_of_mem {g' : Region} (hg : g ∈ gs) (hg' : g' ∈ gs) (hw : w ∈ g.all)
    (hw' : w ∈ g'.all) : g = g' := by
  by_contra hne
  have hsymm : Std.Symm fun a b : Region => ∀ x ∈ a.all, ∀ y ∈ b.all, x.Apart y :=
    ⟨fun _ _ hab x hx y hy => (hab y hy x hx).symm⟩
  have hww : w.Apart w := (List.pairwise_flatMap.1 h.apart).2.forall hg hg' hne w hw w hw'
  have hlen : 0 < w.bytes.length := List.length_pos_iff.2 (h.nonempty g hg w hw)
  unfold Store.Apart at hww
  omega

/-- A write of a region is among those of a start when the region is not
taken for initialised. -/
theorem mem_writesBut_iff {taken : Region → Prop} [DecidablePred taken] (hg : g ∈ gs)
    (hw : w ∈ g.all) : w ∈ writesBut taken gs ↔ ¬ taken g := by
  rw [mem_writesBut]
  constructor
  · rintro ⟨g', hg', hnot, hw'⟩
    rwa [h.eq_of_mem hg hg' hw hw']
  · intro hnot
    exact ⟨g, hg, hnot, hw⟩

/-- What is in place after a start that is cut. -/
theorem in_cut_iff (hg : g ∈ gs) (hw : w ∈ g.all) :
    w.In (cut gs m n) ↔ w ∈ (pending gs m).take n ∨ w.In m :=
  in_writeAll_iff h.apart ((List.take_sublist _ _).trans writesBut_sublist)
    (List.mem_flatMap.2 ⟨g, hg, hw⟩)

theorem in_finish_iff (hg : g ∈ gs) (hw : w ∈ g.all) :
    w.In (finish gs m) ↔ ¬ g.Marked m ∨ w.In m := by
  have hpart : w.In (finish gs m) ↔ w ∈ pending gs m ∨ w.In m :=
    in_writeAll_iff h.apart writesBut_sublist (List.mem_flatMap.2 ⟨g, hg, hw⟩)
  rw [hpart, pending, h.mem_writesBut_iff hg hw]

/-- **A cut start.** It leaves the regions sound when they were and it is
cut where it may be, and only then. -/
theorem sound_cut_iff : Sound gs (cut gs m n) ↔ Sound gs m ∧ CutSafe gs m n := by
  have hmark {g : Region} (hg : g ∈ gs) : g.Marked (cut gs m n) ↔
      g.mark ∈ (pending gs m).take n ∨ g.Marked m := h.in_cut_iff hg List.mem_cons_self
  have hin {g : Region} (hg : g ∈ gs) {w : Store} (hw : w ∈ g.initial) : w.In (cut gs m n) ↔
      w ∈ (pending gs m).take n ∨ w.In m := h.in_cut_iff hg (List.mem_cons_of_mem _ hw)
  -- a region that is marked is not written to
  have hnot {g : Region} (hg : g ∈ gs) (hmarked : g.Marked m) {w : Store} (hw : w ∈ g.initial) :
      w ∉ (pending gs m).take n := fun hmem =>
    (h.mem_writesBut_iff hg (List.mem_cons_of_mem _ hw)).1 (List.mem_of_mem_take hmem) hmarked
  constructor
  · intro hs
    refine ⟨fun g hg hmarked w hw => ?_, fun g hg hwritten w hw hleft => ?_⟩
    · have hafter := (hin hg hw).1 (hs g hg ((hmark hg).2 (.inr hmarked)) w hw)
      exact hafter.resolve_left (hnot hg hmarked hw)
    · have hafter := (hin hg hw).1 (hs g hg ((hmark hg).2 (.inl hwritten)) w hw)
      exact hafter.resolve_left hleft
  · rintro ⟨hs, hc⟩ g hg hmarked w hw
    rw [hin hg hw]
    rcases (hmark hg).1 hmarked with hwritten | hbefore
    · by_cases hmem : w ∈ (pending gs m).take n
      · exact .inl hmem
      · exact .inr (hc g hg hwritten w hw hmem)
    · exact .inr (hs g hg hbefore w hw)

/-- **A complete start** fills every region when they were sound, and only
then. -/
theorem filled_finish_iff : (∀ g ∈ gs, g.Filled (finish gs m)) ↔ Sound gs m := by
  refine forall_congr' fun g => forall_congr' fun hg => ?_
  have hin {w : Store} (hw : w ∈ g.initial) : w.In (finish gs m) ↔ ¬ g.Marked m ∨ w.In m :=
    h.in_finish_iff hg (List.mem_cons_of_mem _ hw)
  constructor
  · intro hf hmarked w hw
    exact ((hin hw).1 (hf w hw)).resolve_left (not_not_intro hmarked)
  · intro hs w hw
    rw [hin hw]
    by_cases hmarked : g.Marked m
    · exact .inr (hs hmarked w hw)
    · exact .inl hmarked

/-- **Starts cut one after the other** leave sound regions sound exactly when
each is cut where it may be. -/
theorem sound_run_iff (hs : Sound gs m) (ns : List Nat) :
    Sound gs (Stepwise.run (cut gs) m ns) ↔ Stepwise.Meets (cut gs) (CutSafe gs) m ns := by
  have hlost (ns : List Nat) {m : Mem} (hm : ¬ Sound gs m) :
      ¬ Sound gs (Stepwise.run (cut gs) m ns) := by
    induction ns generalizing m with
    | nil => exact hm
    | cons n ns ih => exact ih fun hc => hm (h.sound_cut_iff.1 hc).1
  induction ns generalizing m with
  | nil => exact iff_of_true hs trivial
  | cons n ns ih =>
    rw [Stepwise.run_cons, Stepwise.meets_cons]
    by_cases hc : CutSafe gs m n
    · exact (ih (h.sound_cut_iff.2 ⟨hs, hc⟩)).trans (and_iff_right hc).symm
    · exact iff_of_false (hlost ns fun hcut => hc (h.sound_cut_iff.1 hcut).2) fun hm => hc hm.1

/-- **A start over marked regions** that takes some of them for
initialised: the others are what they were when they hold the initial
contents already. -/
theorem writesBut_eq_self {taken : Region → Prop} [DecidablePred taken]
    (hm : ∀ g ∈ gs, g.Marked m) :
    m.writeAll (writesBut taken gs) = m ↔ ∀ g ∈ gs, taken g ∨ g.Filled m := by
  rw [writeAll_eq_self (h.apart.sublist writesBut_sublist)]
  constructor
  · intro hin g hg
    by_cases ht : taken g
    · exact .inl ht
    · exact .inr fun w hw => hin w (mem_writesBut.2 ⟨g, hg, ht, List.mem_cons_of_mem _ hw⟩)
  · intro hor w hw
    obtain ⟨g, hg, ht, hmem⟩ := mem_writesBut.1 hw
    rcases List.mem_cons.1 hmem with rfl | hw'
    · exact hm g hg
    · exact (hor g hg).resolve_left ht w hw'

end Layout

end Boot
