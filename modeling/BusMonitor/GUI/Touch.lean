import BusMonitor.Lib.LeastSquares
import Mathlib.Algebra.BigOperators.Fin
import Mathlib.Data.Rat.Cast.Order
import Mathlib.Tactic.FieldSimp
/-!
# The calibration of the touch screen

`perform_calibration` of `touch.c`, over the rationals and before its
results are cut to integers. The six coefficients are the inverse of the
matrix of the touch points' moments, written out, against the sums of each
screen coordinate; `performCalibration_fits` says that they are the least
squares fit.
-/


namespace BusMonitor

open LeastSquares

/-- `XPT2046_Calibration`, without what `perform_calibration` leaves alone
and does not read. -/
structure XPT2046Calibration where
  lcdX : Vector Int16 5
  lcdY : Vector Int16 5
  touchX : Vector Int16 5
  touchY : Vector Int16 5
  adjust : Vector ℚ 7

namespace XPT2046Calibration

def scaling : ℚ := 65536

/-- The first loop: the sums of the matrix. -/
def matrixSums (cal : XPT2046Calibration) : Moments ℚ :=
  (List.finRange 5).foldl
    (fun s j =>
      let tx := (cal.touchX.get j).toInt
      let ty := (cal.touchY.get j).toInt
      { n := s.n + 1
        x := s.x + tx
        y := s.y + ty
        x2 := s.x2 + ↑(tx * tx)
        y2 := s.y2 + ↑(ty * ty)
        xy := s.xy + ↑(tx * ty) })
    ⟨0, 0, 0, 0, 0, 0⟩

/-- The sums of a screen coordinate. -/
structure AxisSums where
  z : ℚ
  zx : ℚ
  zy : ℚ

/-- The other two loops, each on a coordinate of the screen points. -/
def axisSums (cal : XPT2046Calibration) (lcd : Vector Int16 5) : AxisSums :=
  (List.finRange 5).foldl
    (fun s j =>
      let lz := (lcd.get j).toInt
      { z := s.z + lz
        zx := s.zx + ↑(lz * (cal.touchX.get j).toInt)
        zy := s.zy + ↑(lz * (cal.touchY.get j).toInt) })
    ⟨0, 0, 0⟩

/-- `det`, as the code has it. -/
def det (s : Moments ℚ) : ℚ :=
  s.n * (s.x2 * s.y2 - s.xy * s.xy) + s.x * (s.xy * s.y - s.x * s.y2) +
    s.y * (s.x * s.xy - s.y * s.x2)

/-- The three coefficients of an axis. -/
def axisAdjust (s : Moments ℚ) (t : AxisSums) : ℚ × ℚ × ℚ :=
  -- the entries of the inverse, in the rows `a b c`, `b e f` and `c f i`
  let a := (s.x2 * s.y2 - s.xy * s.xy) / det s
  let b := (s.xy * s.y - s.x * s.y2) / det s
  let c := (s.x * s.xy - s.y * s.x2) / det s
  let e := (s.n * s.y2 - s.y * s.y) / det s
  let f := (s.x * s.y - s.n * s.xy) / det s
  let i := (s.n * s.x2 - s.x * s.x) / det s
  ((a * t.z + b * t.zx + c * t.zy) * scaling, (b * t.z + e * t.zx + f * t.zy) * scaling,
    (c * t.z + f * t.zx + i * t.zy) * scaling)

/-- `perform_calibration`, with its return code. -/
def performCalibration (cal : XPT2046Calibration) : UInt8 × XPT2046Calibration :=
  let s := cal.matrixSums
  if det s < 1 / 10 ∧ -(1 / 10) < det s then (1, cal)
  else
    let u := axisAdjust s (cal.axisSums cal.lcdX)
    let v := axisAdjust s (cal.axisSums cal.lcdY)
    (0, { cal with adjust := #v[u.1, u.2.1, u.2.2, v.1, v.2.1, v.2.2, scaling] })

/-! ## The fit -/

/-- Five coordinates, as rationals. -/
def points (v : Vector Int16 5) (j : Fin 5) : ℚ := (v.get j).toInt

/-- The map from touch points to a screen coordinate whose coefficients
start at an index. -/
def axisMap (cal : XPT2046Calibration) (k : Fin 5) : Affine ℚ where
  p := cal.adjust.get ⟨k, by omega⟩ / scaling
  q := cal.adjust.get ⟨k + 1, by omega⟩ / scaling
  r := cal.adjust.get ⟨k + 2, by omega⟩ / scaling

/-- A map fits a screen coordinate: it meets the normal equations, no map
has less error, and if there is a map that is exact then it is that one. -/
structure Fits (cal : XPT2046Calibration) (lcd : Vector Int16 5) (m : Affine ℚ) : Prop where
  normal : Normal (points cal.touchX) (points cal.touchY) (points lcd) m
  least : ∀ m', error (points cal.touchX) (points cal.touchY) (points lcd) m ≤
    error (points cal.touchX) (points cal.touchY) (points lcd) m'
  exact_map : ∀ m', (∀ j, points lcd j = m'.at (points cal.touchX j) (points cal.touchY j)) →
    m = m'

variable {cal : XPT2046Calibration}

theorem matrixSums_eq : cal.matrixSums = moments (points cal.touchX) (points cal.touchY) := by
  have hcount : (1 + 1 + 1 + 1 + 1 : ℚ) = 5 := by norm_num
  simp [matrixSums, moments, points, List.finRange_succ, Fin.sum_univ_five, hcount]

theorem axisSums_eq {lcd : Vector Int16 5} :
    cal.axisSums lcd =
      { z := ∑ j, points lcd j
        zx := ∑ j, points lcd j * points cal.touchX j
        zy := ∑ j, points lcd j * points cal.touchY j } := by
  simp [axisSums, points, List.finRange_succ, Fin.sum_univ_five]

theorem det_eq (s : Moments ℚ) : det s = s.det := by
  unfold det Moments.det
  ring

/-- **The inverse matrix.** The coefficients solve the equations of the
moments. -/
theorem axisAdjust_solves {s : Moments ℚ} (t : AxisSums) (hdet : det s ≠ 0) :
    s.Solves t.z t.zx t.zy
      { p := (axisAdjust s t).1 / scaling
        q := (axisAdjust s t).2.1 / scaling
        r := (axisAdjust s t).2.2 / scaling } := by
  have hscaling : scaling ≠ 0 := by norm_num [scaling]
  simp only [axisAdjust, mul_div_cancel_right₀ _ hscaling]
  constructor
  all_goals
    field_simp
    unfold det
    ring

/-- A fit is a solution of the equations of the moments. -/
theorem fits_of_solves {lcd : Vector Int16 5} {m : Affine ℚ} (hdet : det cal.matrixSums ≠ 0)
    (h : cal.matrixSums.Solves (cal.axisSums lcd).z (cal.axisSums lcd).zx (cal.axisSums lcd).zy m) :
    cal.Fits lcd m := by
  rw [det_eq, matrixSums_eq] at hdet
  rw [matrixSums_eq, axisSums_eq] at h
  have hnormal := normal_iff.2 h
  exact ⟨hnormal, hnormal.error_le, fun m' hexact => hnormal.unique hdet (.of_exact hexact)⟩

/-- **The calibration solves the least squares problem.** With a
determinant of a tenth or more it succeeds, and leaves for each screen
coordinate, over the scaling, the map that fits it. -/
theorem performCalibration_fits (cal : XPT2046Calibration)
    (hdet : 1 / 10 ≤ |det cal.matrixSums|) :
    cal.performCalibration.1 = 0 ∧
      cal.Fits cal.lcdX (cal.performCalibration.2.axisMap 0) ∧
      cal.Fits cal.lcdY (cal.performCalibration.2.axisMap 3) := by
  have hlarge : ¬(det cal.matrixSums < 1 / 10 ∧ -(1 / 10) < det cal.matrixSums) := by
    rintro ⟨hlt, hgt⟩
    exact absurd hdet (not_le.2 (abs_lt.2 ⟨hgt, hlt⟩))
  have hne : det cal.matrixSums ≠ 0 := by
    intro hzero
    norm_num [hzero] at hdet
  rw [performCalibration, if_neg hlarge]
  exact ⟨rfl, fits_of_solves hne (axisAdjust_solves _ hne),
    fits_of_solves hne (axisAdjust_solves _ hne)⟩

/-- The five crosses of the calibration, touched on a screen that lies a
little askew. -/
def fiveCrosses : XPT2046Calibration where
  lcdX := #v[20, 20, 460, 460, 240]
  lcdY := #v[20, 252, 252, 20, 136]
  touchX := #v[310, 305, 3790, 3801, 2052]
  touchY := #v[402, 3702, 3690, 411, 2049]
  adjust := .replicate _ 0

theorem performCalibration_fits_fiveCrosses :
    fiveCrosses.performCalibration.1 = 0 ∧
      fiveCrosses.Fits fiveCrosses.lcdX (fiveCrosses.performCalibration.2.axisMap 0) ∧
      fiveCrosses.Fits fiveCrosses.lcdY (fiveCrosses.performCalibration.2.axisMap 3) :=
  performCalibration_fits fiveCrosses (by decide +kernel)

end XPT2046Calibration

end BusMonitor
