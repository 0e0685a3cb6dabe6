import BusMonitor.System
/-!
# The home page

`WindowDLG_Home.c`, as far as it selects branches. A page shows some of
the branches; touching one toggles its set byte and saves it. Nothing
bounds the branch counts the page goes by.
-/


namespace BusMonitor

/-- `MaxPage`, for a number of branches and of places on a page. -/
def maxPage (per n : Nat) : Nat :=
  if 1 ≤ n / per then if n % per = 0 then n / per else n / per + 1 else 1

/-- How many branches a drawing routine goes through on a page. On a page
past the last one it shows `beyond`. -/
def shownBranches (per n page beyond : Nat) : Nat :=
  if 1 ≤ n / per then
    if n % per = 0 then per
    else if page < maxPage per n - 1 then per
    else if page = maxPage per n - 1 then n % per
    else beyond
  else n

/-- `Draw_Branch_Switch`: the branches it shows. -/
def drawBranchSwitch (n page : Nat) : List Nat :=
  (List.range (shownBranches 24 n page (n % 24))).map (page * 24 + ·)

/-- `Draw_Branch_SwitchA`. -/
def drawBranchSwitchA (n page : Nat) : List Nat :=
  (List.range (shownBranches 12 n page 0)).map (page * 12 + ·)

/-- `Draw_Branch_SwitchB`. -/
def drawBranchSwitchB (n page : Nat) : List Nat :=
  (List.range (shownBranches 12 n page 0)).map (page * 12 + 72 + ·)

/-- The branches a page offers to the touch. -/
def homeBranches (o : Optimset) (page : Nat) : List Nat :=
  if o.setup.bBusMode = busModeS then
    drawBranchSwitchA (o.ucBranchN.get 0).toNat page ++
      drawBranchSwitchB (o.ucBranchN.get 1).toNat page
  else drawBranchSwitch (o.ucBranchN.get 0).toNat page

/-- The number of pages. -/
def homePages (o : Optimset) : Nat :=
  if o.setup.bBusMode = busModeS then
    max (maxPage 12 (o.ucBranchN.get 0).toNat) (maxPage 12 (o.ucBranchN.get 1).toNat)
  else maxPage 24 (o.ucBranchN.get 0).toNat

/-- The button for the next page. -/
def nextPage (o : Optimset) (page : Nat) : Nat :=
  if page + 1 < homePages o ∧ o.setup.bQF = 1 then page + 1 else page

/-- The button for the page before. -/
def lastPage (o : Optimset) (page : Nat) : Nat :=
  if 0 < page ∧ o.setup.bQF = 1 then page - 1 else page

/-! ## Counts in range -/

/-- The branches of a busbar have their places in the tables. -/
def CountsInRange (o : Optimset) : Prop :=
  if o.setup.bBusMode = busModeS then
    (o.ucBranchN.get 0).toNat ≤ 72 ∧ (o.ucBranchN.get 1).toNat ≤ 72
  else (o.ucBranchN.get 0).toNat ≤ 144

instance (o : Optimset) : Decidable (CountsInRange o) := by
  unfold CountsInRange
  infer_instance

theorem maxPage_le {per n k : Nat} (hk : 1 ≤ k) (h : n ≤ per * k) :
    maxPage per n ≤ k := by
  have hdiv : n / per ≤ k := Nat.div_le_of_le_mul h
  unfold maxPage
  split
  · split
    · exact hdiv
    · next hmod =>
      have hlt : n / per ≠ k := by
        rintro rfl
        have := Nat.div_add_mod n per
        omega
      omega
  · exact hk

theorem shownBranches_le {per n page beyond : Nat} (hper : 0 < per) (hb : beyond ≤ per) :
    shownBranches per n page beyond ≤ per := by
  have hmod := Nat.mod_lt n hper
  unfold shownBranches
  split
  · split
    · exact le_rfl
    · split
      · exact le_rfl
      · split <;> omega
  · next h =>
    have hz : n / per = 0 := Nat.lt_one_iff.1 (Nat.not_le.1 h)
    rcases (Nat.div_eq_zero_iff).1 hz with h | h
    · omega
    · exact h.le

/-- **With the counts in range** the pages offer the branches of the
tables and no others. -/
theorem homeBranches_lt {o : Optimset} (h : CountsInRange o) {page num : Nat}
    (hpage : page < homePages o) (hnum : num ∈ homeBranches o page) : num < 144 := by
  unfold CountsInRange at h
  unfold homePages at hpage
  unfold homeBranches drawBranchSwitch drawBranchSwitchA drawBranchSwitchB at hnum
  split at h
  · next hs =>
    rw [if_pos hs] at hpage hnum
    have hA : maxPage 12 (o.ucBranchN.get 0).toNat ≤ 6 := maxPage_le (by omega) h.1
    have hB : maxPage 12 (o.ucBranchN.get 1).toNat ≤ 6 := maxPage_le (by omega) h.2
    rcases List.mem_append.1 hnum with hnum | hnum
    all_goals
      obtain ⟨i, hi, rfl⟩ := List.mem_map.1 hnum
      have hlt := (List.mem_range.1 hi).trans_le (shownBranches_le (by omega) (by omega))
      omega
  · next hs =>
    rw [if_neg hs] at hpage hnum
    have hmax : maxPage 24 (o.ucBranchN.get 0).toNat ≤ 6 := maxPage_le (by omega) h
    obtain ⟨i, hi, rfl⟩ := List.mem_map.1 hnum
    have hmod := Nat.mod_lt (o.ucBranchN.get 0).toNat (show 0 < 24 by omega)
    have hlt := (List.mem_range.1 hi).trans_le (shownBranches_le (by omega) hmod.le)
    omega

end BusMonitor
