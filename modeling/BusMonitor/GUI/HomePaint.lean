import BusMonitor.GUI.Console
import BusMonitor.SUB.BranchState
/-!
# Painting the home page

A paint goes through the branches of the page one after another. Each is
put on the screen, toggled and saved if it is touched, and then drawn as the
modules report it. `pageKept_iff` says on which pages these are the branches
that the page is for: side A and side B share the page number, and a side
with fewer pages than the other does not always stop at its last one.
-/


namespace BusMonitor

/-! ## The paint -/

/-- How a branch is drawn over its lines. The first four are its states;
nothing is added for any other one. -/
inductive BranchLook where
  | normal
  | fault
  | closed
  | opened
  | lines
  | unmonitored
  deriving DecidableEq

/-- What one branch of a paint meets: its place on the touch screen, as the
calibration gives it, `adc_x` as `GUI_TOUCH_X_MeasureX` returns it (0 where
the screen is not touched), `adc_y`, and what the stack holds. -/
structure BranchTouch where
  touchX : Int
  touchY : Int
  adcX : UInt16
  adcY : UInt16
  stack : Vector UInt8 144

/-- The screen is touched near the branch. -/
def BranchTouch.Hits (t : BranchTouch) : Prop :=
  t.adcX ≠ 0 ∧ (t.touchX - t.adcX.toNat).natAbs < 60 ∧ (t.touchY - t.adcY.toNat).natAbs < 300

instance (t : BranchTouch) : Decidable t.Hits := inferInstanceAs (Decidable (_ ∧ _ ∧ _))

/-- What a paint works on, and what it has drawn. -/
structure HomePaint where
  data : Guarded
  userLogin : UInt8
  ucSUBSWRec : Vector UInt8 20
  ucBranchState : Vector UInt8 144
  ucPCProtoDataFlag : UInt8
  drawn : List (Nat × BranchLook)

namespace HomePaint

/-- With a login of either kind. -/
def LoggedIn (s : HomePaint) : Prop := s.userLogin = 0xFF ∨ s.userLogin = 0xCC

instance (s : HomePaint) : Decidable s.LoggedIn := inferInstanceAs (Decidable (_ ∨ _))

/-- A touched branch is toggled and saved. An index behind the tables is no
branch. -/
def toggle (s : HomePaint) (num : Nat) : HomePaint :=
  if h : num < maxBranchNum then { s with data := s.data.toggleBranch ⟨num, h⟩ } else s

/-- `SUB_BranchState`. -/
def subBranchState (s : HomePaint) (stack : Vector UInt8 144) : HomePaint :=
  let unit : SubUnit := ⟨s.ucSUBSWRec, s.data.ucBranchSet, s.ucBranchState, s.ucPCProtoDataFlag⟩
  let unit := unit.subBranchState s.data.optimset stack
  { s with ucBranchState := unit.ucBranchState, ucPCProtoDataFlag := unit.ucPCProtoDataFlag }

/-- What is drawn for a branch. -/
def look (s : HomePaint) (num : Nat) : BranchLook :=
  if s.data.optimset.setup.bQF = 1 then
    match s.ucBranchState[num]?.getD 0x20 with
    | 0x00 => .normal
    | 0x01 => .fault
    | 0x02 => .closed
    | 0x03 => .opened
    | _ => .lines
  else .unmonitored

/-- One branch: a round of the loops of `Draw_Branch_Switch`,
`Draw_Branch_SwitchA` and `Draw_Branch_SwitchB`. -/
def branch (touch : Nat → BranchTouch) (s : HomePaint) (num : Nat) : HomePaint :=
  let s := if (touch num).Hits ∧ s.LoggedIn then s.toggle num else s
  -- all states are worked out anew, over the set table as it is now
  let s := s.subBranchState (touch num).stack
  { s with drawn := s.drawn ++ [(num, s.look num)] }

/-- The branches of a `WM_PAINT` on a page. -/
def paint (touch : Nat → BranchTouch) (page : Nat) (s : HomePaint) : HomePaint :=
  (homeBranches s.data.optimset page).foldl (branch touch) { s with drawn := [] }

/-! ## What a list of branches can change -/

/-- Where the FRAM keeps the set byte of a branch. -/
def setAddr (num : Nat) : Nat := fmAddrOptimSet + fmOptSwitchSet + num

/-- The FRAM holds the set table. -/
def Saved (d : Guarded) : Prop := ∀ k : Fin maxBranchNum, d.fram (setAddr k) = d.ucBranchSet.get k

/-- From one state to another these branches were drawn, and no other one
was toggled or saved; and none without a login. -/
structure Covers (nums : List Nat) (s s' : HomePaint) : Prop where
  drawn : s'.drawn.map Prod.fst = s.drawn.map Prod.fst ++ nums
  optimset : s'.data.optimset = s.data.optimset
  userLogin : s'.userLogin = s.userLogin
  table : ∀ k : Fin maxBranchNum, (k : Nat) ∉ nums →
    s'.data.ucBranchSet.get k = s.data.ucBranchSet.get k
  fram : ∀ x, (∀ num ∈ nums, x ≠ setAddr num) → s'.data.fram x = s.data.fram x
  saved : Saved s.data → Saved s'.data
  guarded : ¬s.LoggedIn → s'.data = s.data

variable {s s' s'' : HomePaint} {nums nums' : List Nat}

theorem loggedIn_congr (h : s'.userLogin = s.userLogin) : s'.LoggedIn ↔ s.LoggedIn := by
  rw [LoggedIn, LoggedIn, h]

theorem Covers.trans (h : s.Covers nums s') (h' : s'.Covers nums' s'') :
    s.Covers (nums ++ nums') s'' where
  drawn := by rw [h'.drawn, h.drawn, List.append_assoc]
  optimset := h'.optimset.trans h.optimset
  userLogin := h'.userLogin.trans h.userLogin
  table k hk := by
    obtain ⟨hfst, hsnd⟩ := not_or.1 (mt List.mem_append.2 hk)
    exact (h'.table k hsnd).trans (h.table k hfst)
  fram x hx := by
    have hfst := h.fram x fun num hnum => hx num (List.mem_append_left _ hnum)
    have hsnd := h'.fram x fun num hnum => hx num (List.mem_append_right _ hnum)
    exact hsnd.trans hfst
  saved hs := h'.saved (h.saved hs)
  guarded hs := by
    have hout : ¬s'.LoggedIn := mt (loggedIn_congr h.userLogin).1 hs
    exact (h'.guarded hout).trans (h.guarded hs)

/-- The toggle of a branch stores its byte, and saves it. -/
theorem toggleBranch_spec (d : Guarded) (num : Fin maxBranchNum) :
    (∀ k, k ≠ num → (d.toggleBranch num).ucBranchSet.get k = d.ucBranchSet.get k) ∧
      (∀ x, x ≠ setAddr num → (d.toggleBranch num).fram x = d.fram x) ∧
      (d.toggleBranch num).fram (setAddr num) = (d.toggleBranch num).ucBranchSet.get num := by
  have hnum : (num : Nat) % 256 = num := Nat.mod_eq_of_lt (num.2.trans (by decide))
  have hfram : (d.toggleBranch num).fram =
      d.fram.write (setAddr num) [if d.ucBranchSet.get num = 0 then 1 else 0] := by
    simp only [Guarded.toggleBranch, optBranchSetSaveWrites, hnum]
    rfl
  have hset (k : Fin maxBranchNum) : (d.toggleBranch num).ucBranchSet.get k =
      if (num : Nat) = k then if d.ucBranchSet.get num = 0 then 1 else 0
      else d.ucBranchSet.get k :=
    Vector.getElem_set num.isLt k.isLt
  refine ⟨?_, ?_, ?_⟩
  · intro k hk
    rw [hset, if_neg fun heq => hk (Fin.ext heq.symm)]
  · intro x hx
    rw [hfram, Mem.write_of_disjoint]
    simp only [List.length_singleton]
    omega
  · rw [hfram, Mem.write_byte, hset, if_pos rfl]

/-- **One branch.** Its data change by a toggle, or not at all. -/
theorem covers_branch (touch : Nat → BranchTouch) (s : HomePaint) (num : Nat) :
    s.Covers [num] (s.branch touch num) := by
  have hstay (s' : HomePaint) (hdata : s'.data = s.data) (hlogin : s'.userLogin = s.userLogin)
      (hdrawn : s'.drawn.map Prod.fst = s.drawn.map Prod.fst ++ [num]) : s.Covers [num] s' :=
    { drawn := hdrawn
      optimset := congrArg _ hdata
      userLogin := hlogin
      table := fun k _ => by rw [hdata]
      fram := fun x _ => by rw [hdata]
      saved := fun hs => hdata ▸ hs
      guarded := fun _ => hdata }
  unfold branch toggle
  split_ifs with hhit hnum
  · -- the toggle comes first, and what follows leaves the data alone
    obtain ⟨htable, hfram, hsaved⟩ := toggleBranch_spec s.data ⟨num, hnum⟩
    refine ⟨by simp [subBranchState], rfl, rfl, ?_, ?_, ?_, fun hout => absurd hhit.2 hout⟩
    · intro k hk
      exact htable k fun heq => hk (heq ▸ List.mem_cons_self)
    · intro x hx
      exact hfram x (hx num List.mem_cons_self)
    · intro hs k
      by_cases hk : k = ⟨num, hnum⟩
      · rw [hk]
        exact hsaved
      · have hne : setAddr k ≠ setAddr num := fun heq => hk (Fin.ext (Nat.add_left_cancel heq))
        exact (hfram _ hne).trans ((hs k).trans (htable k hk).symm)
  · exact hstay _ rfl rfl (by simp [subBranchState])
  · exact hstay _ rfl rfl (by simp [subBranchState])

/-- **A list of branches.** -/
theorem covers_foldl (touch : Nat → BranchTouch) (nums : List Nat) (s : HomePaint) :
    s.Covers nums (nums.foldl (branch touch) s) := by
  induction nums generalizing s with
  | nil =>
    exact ⟨(List.append_nil _).symm, rfl, rfl, fun _ _ => rfl, fun _ _ => rfl, id, fun _ => rfl⟩
  | cons num nums ih => exact (covers_branch touch s num).trans (ih _)

end HomePaint

/-! ## The branches of a page -/

/-- The branches a side has on a page: those of its count that the page has
places for. -/
def placed (per n page : Nat) : List Nat := countUp (page * per) (min (page * per + per) n)

/-- The branches that a page is for. -/
def pageBranches (o : Optimset) (page : Nat) : List Nat :=
  let n0 := (o.ucBranchN.get 0).toNat
  let n1 := (o.ucBranchN.get 1).toNat
  if o.setup.bBusMode = busModeS then
    placed 12 n0 page ++ (placed 12 n1 page).map (72 + ·)
  else placed 24 n0 page

/-- A side of `n` branches keeps to the page: it is the first one, or the
side has branches left for it, or none at all, or more than a page of them
that end within a page. -/
def KeepsTo (n page : Nat) : Prop := page = 0 ∨ page * 12 < n ∨ n = 0 ∨ (12 < n ∧ n % 12 ≠ 0)

/-- Both sides do. -/
def KeepsPage (o : Optimset) (page : Nat) : Prop :=
  o.setup.bBusMode = busModeS →
    KeepsTo (o.ucBranchN.get 0).toNat page ∧ KeepsTo (o.ucBranchN.get 1).toNat page

section Places

variable {per n page beyond k : Nat}

/-- The branches that a drawing routine goes through, counted from the first
one of its side. -/
def drawnPlaces (per n page beyond : Nat) : List Nat :=
  (List.range (shownBranches per n page beyond)).map (page * per + ·)

theorem drawBranchSwitchB_eq :
    drawBranchSwitchB n page = (drawnPlaces 12 n page 0).map (72 + ·) := by
  unfold drawBranchSwitchB drawnPlaces
  rw [List.map_map]
  refine List.map_congr_left fun i _ => ?_
  simp only [Function.comp_apply]
  omega

theorem mem_placed : k ∈ placed per n page ↔ page * per ≤ k ∧ k < page * per + per ∧ k < n := by
  rw [placed, countUp, List.mem_range'_1]
  omega

theorem mem_drawnPlaces :
    k ∈ drawnPlaces per n page beyond ↔
      page * per ≤ k ∧ k < page * per + shownBranches per n page beyond := by
  rw [drawnPlaces, ← List.range'_eq_map_range, List.mem_range'_1]

theorem drawnPlaces_eq_placed
    (h : shownBranches per n page beyond = min (page * per + per) n - page * per) :
    drawnPlaces per n page beyond = placed per n page := by
  rw [drawnPlaces, placed, countUp, h, List.range'_eq_map_range]

/-- On a page of its own a side shows what the page is for. -/
theorem shownBranches_of_lt (hper : 0 < per) (hpage : page < maxPage per n) :
    shownBranches per n page beyond = min (page * per + per) n - page * per := by
  have hdiv := Nat.div_add_mod' n per
  have hmod := Nat.mod_lt n hper
  unfold shownBranches
  unfold maxPage at hpage ⊢
  by_cases hq : 1 ≤ n / per
  · rw [if_pos hq] at hpage ⊢
    by_cases hr : n % per = 0
    · rw [if_pos hr] at hpage ⊢
      have hle : (page + 1) * per ≤ n / per * per := Nat.mul_le_mul_right per hpage
      rw [Nat.succ_mul] at hle
      omega
    · -- the rest of the branches has a page of its own behind the full ones
      rw [if_neg hr] at hpage
      rw [if_neg hr, if_pos hq, if_neg hr, Nat.add_sub_cancel]
      rcases (Nat.lt_succ_iff.1 hpage).lt_or_eq with hlt | rfl
      · have hle : (page + 1) * per ≤ n / per * per := Nat.mul_le_mul_right per hlt
        rw [Nat.succ_mul] at hle
        rw [if_pos hlt]
        omega
      · rw [if_neg (lt_irrefl _), if_pos rfl]
        omega
  · rw [if_neg hq] at hpage ⊢
    obtain rfl : page = 0 := Nat.lt_one_iff.1 hpage
    have hlt : n < per := (Nat.div_lt_one_iff hper).1 (Nat.not_le.1 hq)
    omega

/-- The pages have places for all branches. -/
theorem le_maxPage_mul (hper : 0 < per) (n : Nat) : n ≤ maxPage per n * per := by
  have hdiv := Nat.div_add_mod' n per
  have hmod := Nat.mod_lt n hper
  unfold maxPage
  split_ifs with hq hr
  · omega
  · rw [Nat.succ_mul]
    omega
  · rw [Nat.one_mul]
    exact ((Nat.div_lt_one_iff hper).1 (Nat.not_le.1 hq)).le

theorem div_lt_maxPage (hper : 0 < per) (hk : k < n) : k / per < maxPage per n :=
  Nat.div_lt_of_lt_mul (Nat.mul_comm per _ ▸ hk.trans_le (le_maxPage_mul hper n))

/-- Behind its pages a side that ends within a page shows nothing. -/
theorem shownBranches_of_le (hper : 0 < per) (hpage : maxPage per n ≤ page) (hn : per < n)
    (hr : n % per ≠ 0) : shownBranches per n page 0 = 0 := by
  have hq : 1 ≤ n / per := Nat.div_pos hn.le hper
  have hmax : maxPage per n = n / per + 1 := by
    rw [maxPage, if_pos hq, if_neg hr]
  have hlt : ¬page < n / per := by omega
  have hne : page ≠ n / per := by omega
  rw [shownBranches, if_pos hq, if_neg hr, hmax, Nat.add_sub_cancel, if_neg hlt, if_neg hne]

/-- But one of whole pages, or of less than a page, goes on. -/
theorem shownBranches_pos (hper : 0 < per) (hn : n ≠ 0) (h : n ≤ per ∨ n % per = 0) :
    0 < shownBranches per n page beyond := by
  rw [shownBranches]
  by_cases hq : 1 ≤ n / per
  · have hr : n % per = 0 := by
      rcases h with hle | hr
      · have hge : per ≤ n := Nat.le_of_not_lt fun hlt => by simp [Nat.div_eq_of_lt hlt] at hq
        rw [le_antisymm hle hge, Nat.mod_self]
      · exact hr
    rw [if_pos hq, if_pos hr]
    exact hper
  · rw [if_neg hq]
    exact Nat.pos_of_ne_zero hn

theorem maxPage_pos (per n : Nat) : 0 < maxPage per n := by
  unfold maxPage
  split_ifs <;> omega

/-- A side that keeps to the page shows what the page is for. -/
theorem KeepsTo.drawnPlaces_eq (h : KeepsTo n page) :
    drawnPlaces 12 n page 0 = placed 12 n page := by
  refine drawnPlaces_eq_placed ?_
  by_cases hpage : page < maxPage 12 n
  · exact shownBranches_of_lt (by omega) hpage
  · -- the page is behind those of the side
    have hpos := maxPage_pos 12 n
    have hle : n ≤ maxPage 12 n * 12 := le_maxPage_mul (by omega) n
    rcases h with rfl | hleft | rfl | ⟨hn, hr⟩
    · exact absurd hpos hpage
    · omega
    · rw [Nat.min_zero, Nat.zero_sub]
      rfl
    · rw [shownBranches_of_le (by omega) (Nat.not_lt.1 hpage) hn hr]
      omega

/-- One that does not shows a branch behind its last one. -/
theorem mem_drawnPlaces_of_not (h : ¬KeepsTo n page) :
    page * 12 ∈ drawnPlaces 12 n page 0 ∧ n ≤ page * 12 := by
  unfold KeepsTo at h
  have hpos : 0 < shownBranches 12 n page 0 := shownBranches_pos (by omega) (by omega) (by omega)
  exact ⟨mem_drawnPlaces.2 ⟨le_rfl, by omega⟩, by omega⟩

/-- **A branch is on one page**, and nowhere else. -/
theorem mem_drawnPlaces_iff (hper : 0 < per) (hb : beyond ≤ per) (hk : k < n) :
    k ∈ drawnPlaces per n page beyond ↔ page = k / per := by
  have hdiv := Nat.div_add_mod' k per
  have hmod := Nat.mod_lt k hper
  constructor
  · intro hmem
    obtain ⟨hlo, hhi⟩ := mem_drawnPlaces.1 hmem
    have hle : shownBranches per n page beyond ≤ per := shownBranches_le hper hb
    refine (Nat.div_eq_of_lt_le hlo ?_).symm
    rw [Nat.succ_mul]
    omega
  · rintro rfl
    rw [drawnPlaces_eq_placed (shownBranches_of_lt hper (div_lt_maxPage hper hk)), mem_placed]
    omega

end Places

variable {o : Optimset} {page k : Nat}

theorem mem_homeBranches (hs : o.setup.bBusMode = busModeS) :
    k ∈ homeBranches o page ↔ k ∈ drawnPlaces 12 (o.ucBranchN.get 0).toNat page 0 ∨
      72 ≤ k ∧ k - 72 ∈ drawnPlaces 12 (o.ucBranchN.get 1).toNat page 0 := by
  rw [homeBranches, if_pos hs, drawBranchSwitchB_eq, List.mem_append, List.mem_map]
  refine or_congr Iff.rfl ⟨?_, ?_⟩
  · rintro ⟨j, hj, rfl⟩
    rw [Nat.add_sub_cancel_left]
    exact ⟨Nat.le_add_right 72 j, hj⟩
  · rintro ⟨hle, hmem⟩
    exact ⟨k - 72, hmem, Nat.add_sub_cancel' hle⟩

/-- In mode S there are six pages at most. -/
theorem homePages_le (h : CountsInRange o) (hs : o.setup.bBusMode = busModeS) :
    homePages o ≤ 6 := by
  rw [CountsInRange, if_pos hs] at h
  rw [homePages, if_pos hs]
  exact max_le (maxPage_le (by omega) h.1) (maxPage_le (by omega) h.2)

/-- A place on one of the pages is on the first half of the tables. -/
theorem lt_of_mem_drawnPlaces {n : Nat} (hpage : page < 6) (hk : k ∈ drawnPlaces 12 n page 0) :
    k < 72 := by
  have hle : shownBranches 12 n page 0 ≤ 12 := shownBranches_le (by omega) (by omega)
  have hhi := (mem_drawnPlaces.1 hk).2
  omega

/-- **The branches gone through** are those the page is for exactly where
the sides keep to it. -/
theorem homeBranches_eq_iff (h : CountsInRange o) (hpage : page < homePages o) :
    homeBranches o page = pageBranches o page ↔ KeepsPage o page := by
  by_cases hs : o.setup.bBusMode = busModeS
  · have hsix := hpage.trans_le (homePages_le h hs)
    rw [KeepsPage, forall_prop_of_true hs]
    constructor
    · intro heq
      -- a side that does not keep to the page shows a branch that is on no page
      refine ⟨by_contra fun hA => ?_, by_contra fun hB => ?_⟩
      · obtain ⟨hmem, hle⟩ := mem_drawnPlaces_of_not hA
        have hpages := (mem_homeBranches hs).2 (.inl hmem)
        rw [heq, pageBranches, if_pos hs, List.mem_append, mem_placed, List.mem_map] at hpages
        rcases hpages with hin | ⟨j, -, hj⟩ <;> omega
      · obtain ⟨hmem, hle⟩ := mem_drawnPlaces_of_not hB
        have hpages : 72 + page * 12 ∈ homeBranches o page :=
          (mem_homeBranches hs).2 (.inr ⟨by omega, by rwa [Nat.add_sub_cancel_left]⟩)
        rw [heq, pageBranches, if_pos hs, List.mem_append, mem_placed, List.mem_map] at hpages
        rcases hpages with hin | ⟨j, hin, hj⟩
        · omega
        · have hlt := (mem_placed.1 hin).2.2
          omega
    · rintro ⟨hA, hB⟩
      have hdrawA : drawBranchSwitchA (o.ucBranchN.get 0).toNat page = placed 12 _ page :=
        hA.drawnPlaces_eq
      rw [homeBranches, pageBranches, if_pos hs, if_pos hs, drawBranchSwitchB_eq, hdrawA,
        hB.drawnPlaces_eq]
  · rw [homePages, if_neg hs] at hpage
    rw [homeBranches, pageBranches, if_neg hs, if_neg hs]
    refine iff_of_true ?_ fun h => absurd h hs
    exact drawnPlaces_eq_placed (shownBranches_of_lt (by omega) hpage)

/-- A branch whose page is known. -/
theorem once_of_iff {q : Nat} (hq : q < homePages o)
    (hiff : ∀ page < homePages o, (k ∈ homeBranches o page ↔ page = q)) :
    ∃! page, page < homePages o ∧ k ∈ homeBranches o page :=
  ⟨q, ⟨hq, (hiff q hq).2 rfl⟩, fun page hp => (hiff page hp.1).1 hp.2⟩

/-- **A configured branch** is on one of the pages, and on no other. -/
theorem homeBranches_once (h : CountsInRange o) (hk : ¬BeyondCount o k) :
    ∃! page, page < homePages o ∧ k ∈ homeBranches o page := by
  by_cases hs : o.setup.bBusMode = busModeS
  · have hpages : homePages o = max (maxPage 12 (o.ucBranchN.get 0).toNat)
        (maxPage 12 (o.ucBranchN.get 1).toNat) := if_pos hs
    rw [BeyondCount, if_pos hs] at hk
    by_cases hside : k < 72
    · rw [if_pos hside, Nat.not_le] at hk
      have hq : k / 12 < homePages o :=
        hpages ▸ (div_lt_maxPage (by omega) hk).trans_le (Nat.le_max_left _ _)
      refine once_of_iff hq fun page _ => ?_
      rw [mem_homeBranches hs, or_iff_left fun hB => absurd hB.1 (by omega)]
      exact mem_drawnPlaces_iff (by omega) (by omega) hk
    · rw [if_neg hside, Nat.not_le] at hk
      have hq : (k - 72) / 12 < homePages o :=
        hpages ▸ (div_lt_maxPage (by omega) hk).trans_le (Nat.le_max_right _ _)
      refine once_of_iff hq fun page hpage => ?_
      have hsix := hpage.trans_le (homePages_le h hs)
      rw [mem_homeBranches hs, or_iff_right fun hA => hside (lt_of_mem_drawnPlaces hsix hA),
        and_iff_right (Nat.not_lt.1 hside)]
      exact mem_drawnPlaces_iff (by omega) (by omega) hk
  · have hpages : homePages o = maxPage 24 (o.ucBranchN.get 0).toNat := if_neg hs
    rw [BeyondCount, if_neg hs, Nat.not_le] at hk
    refine once_of_iff (hpages ▸ div_lt_maxPage (by omega) hk) fun page _ => ?_
    have hmod := Nat.mod_lt (o.ucBranchN.get 0).toNat (show 0 < 24 by omega)
    rw [homeBranches, if_neg hs]
    exact mem_drawnPlaces_iff (by omega) hmod.le hk

/-! ## Paints -/

namespace HomePaint

/-- After a paint of a page: the branches drawn are those the page is for;
the set table and the FRAM are unchanged elsewhere, and altogether without
a login; a saved table stays saved; each index lies in the tables; and each
configured branch is on one page. -/
structure PageKept (page : Nat) (s s' : HomePaint) : Prop where
  drawn : s'.drawn.map Prod.fst = pageBranches s.data.optimset page
  table : ∀ k : Fin maxBranchNum, (k : Nat) ∉ pageBranches s.data.optimset page →
    s'.data.ucBranchSet.get k = s.data.ucBranchSet.get k
  fram : ∀ x, (∀ num ∈ pageBranches s.data.optimset page, x ≠ setAddr num) →
    s'.data.fram x = s.data.fram x
  saved : Saved s.data → Saved s'.data
  guarded : ¬s.LoggedIn → s'.data = s.data
  index : ∀ d ∈ s'.drawn, d.1 < 144
  once : ∀ k, ¬BeyondCount s.data.optimset k →
    ∃! p, p < homePages s.data.optimset ∧ k ∈ homeBranches s.data.optimset p

/-- **Paging.** With the counts in range, and on a page that is displayed, a
paint keeps to its page exactly when each side does: in mode S a side must
not have run out of branches on an earlier page, unless it has none, or more
than a page of them that end within a page. -/
theorem pageKept_iff (touch : Nat → BranchTouch) (s : HomePaint) {page : Nat}
    (h : CountsInRange s.data.optimset) (hpage : page < homePages s.data.optimset) :
    s.PageKept page (s.paint touch page) ↔ KeepsPage s.data.optimset page := by
  have hcovers : Covers (homeBranches s.data.optimset page) { s with drawn := [] }
      (s.paint touch page) := covers_foldl touch _ _
  rw [← homeBranches_eq_iff h hpage]
  constructor
  · intro hkept
    exact hcovers.drawn.symm.trans hkept.drawn
  · intro heq
    refine ⟨hcovers.drawn.trans heq, ?_, ?_, hcovers.saved, hcovers.guarded, ?_, ?_⟩
    · exact heq ▸ hcovers.table
    · exact heq ▸ hcovers.fram
    · intro d hd
      have hmem : d.1 ∈ homeBranches s.data.optimset page :=
        hcovers.drawn.subst (List.mem_map_of_mem (f := Prod.fst) hd)
      exact homeBranches_lt h hpage hmem
    · exact fun k hk => homeBranches_once h hk

/-- A paint with these counts in mode S, the factory logged in, and every
branch switched off. -/
def withCounts (counts : Vector UInt8 2) : HomePaint where
  data :=
    let d := Guarded.powerOn (fun _ => 0) default
    { d.withStation (optSave { d.station with optimset := { optDefault with ucBranchN := counts } })
        (d.copied_station.optSave _) with ucBranchSet := .replicate _ 0 }
  userLogin := 0xCC
  ucSUBSWRec := .replicate _ 0xFF
  ucBranchState := .replicate _ 0
  ucPCProtoDataFlag := 0
  drawn := []

/-- One branch is touched. -/
def touchOnly (num : Nat) : Nat → BranchTouch := fun k =>
  ⟨500, 500, if k = num then 500 else 0, 500, .replicate _ 0⟩

/-- The second page of 30 and 14 branches. -/
theorem pageKept_iff_second :
    (withCounts #v[30, 14]).PageKept 1 ((withCounts #v[30, 14]).paint (touchOnly 12) 1) ↔
      KeepsPage (withCounts #v[30, 14]).data.optimset 1 :=
  pageKept_iff (touchOnly 12) (withCounts #v[30, 14]) (by decide) (by decide)

/-- Side A has 12 branches, which are one page, and side B has two pages. On
the second one a touch where side A has nothing left toggles branch 12. -/
theorem not_pageKept_whole_page :
    let s := withCounts #v[12, 24]
    let s' := s.paint (touchOnly 12) 1
    s.data.ucBranchSet[12]? = some 0 ∧ s'.data.ucBranchSet[12]? = some 1 ∧ ¬s.PageKept 1 s' := by
  intro s s'
  have hoff : s.data.ucBranchSet.get ⟨12, by decide⟩ = 0 := by decide
  have hon : s'.data.ucBranchSet.get ⟨12, by decide⟩ = 1 := by decide +kernel
  refine ⟨congrArg some hoff, congrArg some hon, fun hkept => ?_⟩
  have hsame := hkept.table ⟨12, by decide⟩ (by decide)
  rw [hoff, hon] at hsame
  exact absurd hsame (by decide)

end HomePaint

end BusMonitor
