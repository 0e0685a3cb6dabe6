import BusMonitor.Energy.Model
/-!
# The energy history screen

`PTE_Get` and `Maxpage` of `WindowDLG_History_Energy.c`: a first page of
two records, then pages of ten. The number of pages is right, but the test
for a full page is one page short, so that the last full page is taken for
the one with the rest. `pagesRight_iff` says that the pages show all
records, each of them once, below twelve records only.
-/


namespace BusMonitor

open Month

/-- `gPTE_GetIndex`: the months since the base, cut to a byte. -/
def gPTEGetIndex (usPTEBaseTime : Nat) (now : Clock) : UInt8 :=
  let t := gPTEFTime now
  UInt8.ofNat ((((t / 256 % 256 : Nat) - (usPTEBaseTime / 256 % 256 : Nat) : Int) * 12 +
    ((t % 256 : Nat) - (usPTEBaseTime % 256 : Nat))) % 256).toNat

/-- Up to 255 months it is their number. -/
theorem gPTEGetIndex_eq {base : Nat} {now : Clock}
    (hle : index base ≤ index (gPTEFTime now)) (hlt : index (gPTEFTime now) < index base + 256) :
    (gPTEGetIndex base now).toNat = index (gPTEFTime now) - index base := by
  have := now.year_lt
  have := now.month_le
  unfold gPTEGetIndex
  unfold index gPTEFTime at *
  rw [UInt8.toNat_ofNat']
  omega

/-- `for(i = 0; i < n; i++)`: the record `newest - i` is read and shown in row
`i`. -/
def showFrom (n : Nat) (newest : Int) : List (Nat × Int) :=
  (List.range n).map fun i => (i, newest - i)

/-- `PTE_Get`: the rows of a page, each with the index of the record it
shows. -/
def pteGet (saveEnergy page : Nat) : List (Nat × Int) :=
  if saveEnergy > 0 then
    if page = 0 then
      if saveEnergy > 1 then showFrom 2 (saveEnergy - 1) else showFrom 1 0
    else if (page + 1 : Int) ≤ (saveEnergy - 2 : Int).tdiv 10 then
      showFrom 10 (saveEnergy - 3 - (page - 1) * 10)
    else if (saveEnergy - 2 : Int).tmod 10 ≠ 0 then
      showFrom ((saveEnergy - 2 : Int).tmod 10).toNat (saveEnergy - 3 - (page - 1) * 10)
    else []
  else []

/-- `Maxpage`. -/
def energyMaxpage (saveEnergy : Nat) : Nat :=
  if saveEnergy ≤ 2 then 1
  else if (saveEnergy - 2) % 10 ≠ 0 then (saveEnergy - 2) / 10 + 2
  else (saveEnergy - 2) / 10 + 1

/-- **The pages are right**: the newest two records on the first page, ten on
each of the others while there are any, every record once, and none that
is not there. -/
structure PagesRight (saveEnergy : Nat) : Prop where
  first : ∀ i < min 2 saveEnergy, (i, (saveEnergy - 1 - i : Int)) ∈ pteGet saveEnergy 0
  later : ∀ p : Nat, 1 ≤ p → p < energyMaxpage saveEnergy → ∀ i : Nat, i < 10 →
    0 ≤ (saveEnergy - 3 - 10 * (p - 1) - i : Int) →
      (i, (saveEnergy - 3 - 10 * (p - 1) - i : Int)) ∈ pteGet saveEnergy p
  once : ∀ k < saveEnergy, ∃! q : Nat × Nat,
    q.1 < energyMaxpage saveEnergy ∧ (q.2, (k : Int)) ∈ pteGet saveEnergy q.1
  inside : ∀ p < energyMaxpage saveEnergy, ∀ d ∈ pteGet saveEnergy p, 0 ≤ d.2 ∧ d.2 < saveEnergy

section pages

variable {n page i : Nat} {k newest : Int}

theorem mem_showFrom : (i, k) ∈ showFrom n newest ↔ i < n ∧ k = newest - i := by
  unfold showFrom
  simp only [List.mem_map, List.mem_range, Prod.mk.injEq]
  constructor
  · rintro ⟨j, hj, rfl, rfl⟩
    exact ⟨hj, rfl⟩
  · rintro ⟨hi, rfl⟩
    exact ⟨i, hi, rfl, rfl⟩

/-- The first page. -/
theorem mem_pteGet_zero : (i, k) ∈ pteGet n 0 ↔ i < min 2 n ∧ k = n - 1 - i := by
  unfold pteGet
  by_cases hn : n > 0
  · rw [if_pos hn, if_pos rfl]
    split
    · rw [mem_showFrom]
      omega
    · rw [mem_showFrom]
      omega
  · rw [if_neg hn]
    simp only [List.not_mem_nil, false_iff]
    omega

/-- The page taken for the last: the rest of the tens, and none of ten. -/
theorem mem_pteGet_rest (hn : 2 < n) (hp : 1 ≤ page) (hlast : (n - 2) / 10 < page + 1) :
    (i, k) ∈ pteGet n page ↔ i < (n - 2) % 10 ∧ k = n - 3 - (page - 1) * 10 - i := by
  have hdiv : (n - 2 : Int).tdiv 10 = ((n - 2) / 10 : Nat) := by
    rw [Int.tdiv_eq_ediv_of_nonneg (by omega)]
    omega
  have hmod : (n - 2 : Int).tmod 10 = ((n - 2) % 10 : Nat) := by
    rw [Int.tmod_eq_emod_of_nonneg (by omega)]
    omega
  unfold pteGet
  rw [if_pos (by omega), if_neg (by omega), hdiv, if_neg (by omega), hmod]
  split
  · rw [mem_showFrom]
    omega
  · simp only [List.not_mem_nil, false_iff]
    omega

/-- The last page with ten records does not show the tenth. -/
theorem not_pagesRight (hn : 12 ≤ n) : ¬ PagesRight n := by
  intro h
  have hpage : (n - 2) / 10 < energyMaxpage n := by
    unfold energyMaxpage
    split
    · omega
    · split <;> omega
  have hrow := h.later ((n - 2) / 10) (by omega) hpage 9 (by omega) (by omega)
  rw [mem_pteGet_rest (by omega) (by omega) (by omega)] at hrow
  omega

theorem energyMaxpage_of_lt (hn : n < 12) : energyMaxpage n = if n ≤ 2 then 1 else 2 := by
  unfold energyMaxpage
  split
  · rfl
  · split <;> omega

/-- Below twelve records there are two pages at most. -/
theorem page_of_lt (hn : n < 12) (hp : page < energyMaxpage n) : page = 0 ∨ page = 1 ∧ 2 < n := by
  rw [energyMaxpage_of_lt hn] at hp
  split at hp <;> omega

theorem pagesRight_of_lt (hn : n < 12) : PagesRight n where
  first i hi := mem_pteGet_zero.2 ⟨hi, rfl⟩
  later p hp hlt i hi hk := by
    rcases page_of_lt hn hlt with rfl | ⟨rfl, hn'⟩
    · omega
    · rw [mem_pteGet_rest hn' le_rfl (by omega)]
      omega
  once k hk := by
    have hmax := energyMaxpage_of_lt hn
    by_cases hnew : n ≤ k + 2
    · -- one of the newest two
      refine ⟨(0, n - 1 - k), ⟨by rw [hmax]; split <;> omega, ?_⟩, ?_⟩
      · rw [mem_pteGet_zero]
        omega
      · rintro ⟨p, i⟩ ⟨hp, hmem⟩
        rcases page_of_lt hn hp with rfl | ⟨rfl, hn'⟩
        · have hshown := mem_pteGet_zero.1 hmem
          exact Prod.ext rfl (by dsimp only; omega)
        · have hshown := (mem_pteGet_rest hn' le_rfl (by omega)).1 hmem
          omega
    · have hn' : 2 < n := by omega
      refine ⟨(1, n - 3 - k), ⟨by rw [hmax]; split <;> omega, ?_⟩, ?_⟩
      · rw [mem_pteGet_rest hn' le_rfl (by omega)]
        omega
      · rintro ⟨p, i⟩ ⟨hp, hmem⟩
        rcases page_of_lt hn hp with rfl | ⟨rfl, -⟩
        · have hshown := mem_pteGet_zero.1 hmem
          omega
        · have hshown := (mem_pteGet_rest hn' le_rfl (by omega)).1 hmem
          exact Prod.ext rfl (by dsimp only; omega)
  inside p hp d hd := by
    obtain ⟨i, k⟩ := d
    rcases page_of_lt hn hp with rfl | ⟨rfl, hn'⟩
    · have hshown := mem_pteGet_zero.1 hd
      dsimp only
      omega
    · have hshown := (mem_pteGet_rest hn' le_rfl (by omega)).1 hd
      dsimp only
      omega

/-- **The energy history screen.** For every number of records
`gPTE_GetIndex` can return, the pages show all of them, each once and in
its place, if and only if there are fewer than twelve. -/
theorem pagesRight_iff (saveEnergy : UInt8) : PagesRight saveEnergy.toNat ↔ saveEnergy < 12 := by
  rw [UInt8.lt_iff_toNat_lt]
  constructor
  · intro h
    by_contra hn
    exact not_pagesRight (Nat.le_of_not_lt hn) h
  · exact pagesRight_of_lt

/-- Twelve records: the second page is empty. -/
theorem not_pagesRight_twelve : ¬ ∀ saveEnergy : UInt8, PagesRight saveEnergy.toNat :=
  fun h => not_pagesRight le_rfl (h 12)

end pages

end BusMonitor
