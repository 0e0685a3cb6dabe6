import BusMonitor.Lib.OrderStatistics
/-!
# The samples of the touch screen, and their two filters

`XPT2046_ReadCMD` of `touch.c`, which clocks a sample in bit by bit, and
the two filters over it: `XPT2046_ReadAdc_Smooth_XY` drops a least and a
greatest of ten samples and averages the others,
`XPT2046_ReadAdc_Fliter` sorts four and averages the middle two. Both say
in integers what `OrderStatistics` says of the samples themselves, for any
order and any ties (`touch_filters`).
-/


namespace BusMonitor

open OrderStatistics

/-! ## One sample -/

/-- The loop body of `XPT2046_ReadCMD`. The readings of the pin are twelve
bits, the highest first. -/
def readBit (miso : BitVec 12) (usBuf : UInt16) (i : ℕ) : UInt16 :=
  let usTemp : UInt16 := if miso.getMsbD i then 1 else 0
  usBuf ||| (usTemp <<< UInt16.ofNat (11 - i))

/-- `XPT2046_ReadCMD`. -/
def xpt2046ReadCMD (miso : BitVec 12) : UInt16 := (List.range 12).foldl (readBit miso) 0

/-- What the chip would send after each control word. -/
abbrev ChipAnswer := UInt8 → BitVec 12

/-- `XPT2046_ReadAdc`. -/
def xpt2046ReadAdc (chip : ChipAnswer) (ucCh : UInt8) : UInt16 := xpt2046ReadCMD (chip ucCh)

def cmdRdx : UInt8 := 0x90

def cmdRdy : UInt8 := 0xD0

/-- `XPT2046_ReadAdc_XY`, the values of `*sX_Ad` and `*sY_Ad`. The two
readings change places. -/
def xpt2046ReadAdcXY (chip : ChipAnswer) : Int16 × Int16 :=
  let sXAdTemp := (xpt2046ReadAdc chip cmdRdx).toInt16
  let sYAdTemp := (xpt2046ReadAdc chip cmdRdy).toInt16
  (sYAdTemp, sXAdTemp)

/-! ## Ten samples -/

/-- What a look at the IRQ pin finds, and what the chip would then send. -/
inductive IrqLook where
  | released
  | pressed (chip : ChipAnswer)

/-- The body of the first loop: a sample is stored while the screen is
pressed. The count `ucCount` is the length of what is stored. -/
def IrqLook.store (buf : List (Int16 × Int16)) : IrqLook → List (Int16 × Int16)
  | released => buf
  | pressed chip => buf ++ [xpt2046ReadAdcXY chip]

/-- The first loop, with the looks left over; `none` while it goes on. -/
def sampleTen (wait : UInt8) :
    List (Int16 × Int16) → List IrqLook → Option (List (Int16 × Int16) × List IrqLook)
  | buf, [] => if buf.length < 10 then none else some (buf, [])
  | buf, l :: ls =>
    if buf.length < 10 then
      if wait = 0 then some (l.store buf, ls) else sampleTen wait (l.store buf) ls
    else some (buf, l :: ls)

/-- The second loop; `none` while it goes on. -/
def awaitRelease (wait : UInt8) : List IrqLook → Option Unit
  | [] => if wait = 0 then some () else none
  | l :: ls =>
    if wait = 0 then some ()
    else
      match l with
      | .released => some ()
      | .pressed _ => awaitRelease wait ls

/-- An axis of `sBufferArray`: the scan, and the sum without its two ends.
The comparisons and the sum are made in `int`. -/
def smoothAxis (buf : List Int16) : Int16 :=
  let b := buf.tail.foldl (scan Int16.toInt) (buf.headD 0, buf.headD 0)
  Int16.ofInt (((buf.map Int16.toInt).sum - b.1.toInt - b.2.toInt) >>> (3 : ℕ))

/-- `XPT2046_ReadAdc_Smooth_XY`: the return code, `*pTouch_AD_x` and
`*pTouch_AD_y`. -/
def xpt2046ReadAdcSmoothXY (wait : UInt8) (looks : List IrqLook) :
    Option (UInt8 × Int16 × Int16) := do
  let (buf, looks) ← sampleTen wait [] looks
  awaitRelease wait looks
  if buf.length = 10 then
    return (0, smoothAxis (buf.map Prod.fst), smoothAxis (buf.map Prod.snd))
  else return (1, -1, -1)

/-! ## Four samples -/

abbrev sampCnt : ℕ := 4

abbrev sampCntDiv2 : ℕ := 2

/-- The globals of the panel. -/
structure AdcXY where
  adcX : UInt16
  adcY : UInt16
  deriving DecidableEq, Repr

/-- The `int` a `uint16_t` is compared and added as. -/
def promoted (w : UInt16) : ℤ := w.toNat

/-- `XPT2046_ReadAdc_Fliter`, with `none` for a released screen and else
what the chip would send at each of the four samples. -/
def xpt2046ReadAdcFliter (channel : UInt8) (irq : Option (Fin sampCnt → ChipAnswer))
    (g : AdcXY) : UInt16 × AdcXY :=
  match irq with
  | none => (0, g)
  | some chips =>
    let tempXY := selectionSort promoted fun i => xpt2046ReadAdc (chips i) channel
    let middle := promoted (tempXY ⟨sampCntDiv2, by decide⟩) +
      promoted (tempXY ⟨sampCntDiv2 - 1, by decide⟩)
    let adc := UInt16.ofNat (middle / 2).toNat
    if channel = 0xD0 then (adc, { g with adcX := adc }) else (adc, { g with adcY := adc })

/-! ## What a sample is -/

/-- A reading, shifted to its place. -/
theorem one_shiftLeft_getLsbD {i : ℕ} (hi : i < 12) (j : ℕ) :
    ((1 : UInt16) <<< UInt16.ofNat (11 - i)).toBitVec.getLsbD j = decide (i + j = 11) := by
  have hmod : (11 - i) % 65536 % 16 = 11 - i := by omega
  by_cases hj : i + j = 11
  · have hplace : j - (11 - i) = 0 := by omega
    simp [hmod, hj, hplace]
    omega
  · simp [hmod, hj]
    omega

/-- One reading sets one bit of the register. -/
theorem readBit_getLsbD (miso : BitVec 12) (usBuf : UInt16) {i : ℕ} (hi : i < 12) (j : ℕ) :
    (readBit miso usBuf i).toBitVec.getLsbD j =
      (usBuf.toBitVec.getLsbD j || (decide (i + j = 11) && miso.getMsbD i)) := by
  unfold readBit
  cases miso.getMsbD i with
  | false => simp
  | true =>
      rw [if_pos rfl, UInt16.toBitVec_or, BitVec.getLsbD_or, one_shiftLeft_getLsbD hi,
        Bool.and_true]

theorem foldl_readBit_getLsbD (miso : BitVec 12) {is : List ℕ} (his : ∀ i ∈ is, i < 12)
    (usBuf : UInt16) (j : ℕ) :
    (is.foldl (readBit miso) usBuf).toBitVec.getLsbD j =
      (usBuf.toBitVec.getLsbD j || is.any fun i => decide (i + j = 11) && miso.getMsbD i) := by
  induction is generalizing usBuf with
  | nil => simp
  | cons i is ih =>
      rw [List.foldl_cons, ih (fun k hk => his k (by simp [hk])),
        readBit_getLsbD _ _ (his i (by simp)), List.any_cons, Bool.or_assoc]

/-- **Twelve readings make the word.** -/
theorem readCMD_toNat (miso : BitVec 12) : (xpt2046ReadCMD miso).toNat = miso.toNat := by
  have hword : (xpt2046ReadCMD miso).toBitVec = miso.setWidth 16 := by
    apply BitVec.eq_of_getLsbD_eq
    intro j hj
    unfold xpt2046ReadCMD
    rw [foldl_readBit_getLsbD _ (by simp), BitVec.getLsbD_setWidth, Bool.eq_iff_iff]
    simp only [UInt16.toBitVec_zero, BitVec.getLsbD_zero, Bool.false_or, List.any_eq_true,
      List.mem_range, Bool.and_eq_true, decide_eq_true_eq, BitVec.getMsbD]
    constructor
    · rintro ⟨i, hi, hij, -, h⟩
      obtain rfl : j = 11 - i := by omega
      exact ⟨hj, h⟩
    · rintro ⟨-, h⟩
      have hlt := BitVec.lt_of_getLsbD h
      refine ⟨11 - j, by omega, by omega, by omega, ?_⟩
      rwa [show 12 - 1 - (11 - j) = j by omega]
  have := miso.isLt
  rw [← UInt16.toNat_toBitVec, hword, BitVec.toNat_setWidth]
  omega

section Reading

variable (chip : ChipAnswer)

theorem readAdc_toNat (ucCh : UInt8) : (xpt2046ReadAdc chip ucCh).toNat = (chip ucCh).toNat :=
  readCMD_toNat _

/-- A sample keeps its value as an `int16_t`. -/
theorem readAdc_toInt (ucCh : UInt8) :
    (xpt2046ReadAdc chip ucCh).toInt16.toInt = (chip ucCh).toNat := by
  have hlt := (chip ucCh).isLt
  have hnat := readAdc_toNat chip ucCh
  rw [Int16.toInt, BitVec.toInt_eq_toNat_of_lt]
  · exact congrArg Nat.cast hnat
  · change 2 * (xpt2046ReadAdc chip ucCh).toNat < 2 ^ 16
    omega

theorem readAdcXY_fst : (xpt2046ReadAdcXY chip).1.toInt = (chip cmdRdy).toNat :=
  readAdc_toInt chip cmdRdy

theorem readAdcXY_snd : (xpt2046ReadAdcXY chip).2.toInt = (chip cmdRdx).toNat :=
  readAdc_toInt chip cmdRdx

end Reading

/-! ## The two loops -/

/-- What the chip would send at each look that finds the screen pressed. -/
def presses (looks : List IrqLook) : List ChipAnswer :=
  looks.filterMap fun
    | .released => none
    | .pressed chip => some chip

section Loops

variable {wait : UInt8} {buf buf' : List (Int16 × Int16)} {looks rest : List IrqLook}

@[simp] theorem presses_released (ls : List IrqLook) :
    presses (.released :: ls) = presses ls := rfl

@[simp] theorem presses_pressed (chip : ChipAnswer) (ls : List IrqLook) :
    presses (.pressed chip :: ls) = chip :: presses ls := rfl

/-- A look stores what it adds to the presses. -/
theorem store_append (buf : List (Int16 × Int16)) (l : IrqLook) (ls : List IrqLook) :
    l.store buf ++ (presses ls).map xpt2046ReadAdcXY =
      buf ++ (presses (l :: ls)).map xpt2046ReadAdcXY := by
  cases l with
  | released => rfl
  | pressed chip => simp [IrqLook.store]

theorem length_store_le (buf : List (Int16 × Int16)) (l : IrqLook) :
    (l.store buf).length ≤ buf.length + 1 := by
  cases l with
  | released => simp [IrqLook.store]
  | pressed chip => simp [IrqLook.store]

/-- **The first loop.** Where it ends with ten samples, they are those of the
first ten presses. -/
theorem sampleTen_spec (hrun : sampleTen wait buf looks = some (buf', rest))
    (hten : buf'.length = 10) (hbuf : buf.length ≤ 10) :
    buf' = (buf ++ (presses looks).map xpt2046ReadAdcXY).take 10 := by
  induction looks generalizing buf with
  | nil =>
      unfold sampleTen at hrun
      split at hrun
      · cases hrun
      · cases hrun
        exact (List.take_left' hten).symm
  | cons l ls ih =>
      unfold sampleTen at hrun
      rw [← store_append]
      split at hrun
      · next hlt =>
          have hle := length_store_le buf l
          split at hrun
          · cases hrun
            exact (List.take_left' hten).symm
          · exact ih hrun (by omega)
      · next hge =>
          cases hrun
          rw [store_append]
          exact (List.take_left' hten).symm

/-- With `wait` the first loop ends once ten presses have come, with ten
samples. -/
theorem sampleTen_ends (hwait : wait ≠ 0) (after : List IrqLook) {before : List IrqLook}
    (hbuf : buf.length ≤ 10) (hten : 10 ≤ buf.length + (presses before).length) :
    ∃ buf' rest, sampleTen wait buf (before ++ after) = some (buf', rest ++ after) ∧
      buf'.length = 10 := by
  induction before generalizing buf with
  | nil =>
      have hfull : ¬ buf.length < 10 := by
        simp only [presses, List.filterMap_nil, List.length_nil] at hten
        omega
      refine ⟨buf, [], ?_, by omega⟩
      cases after with
      | nil => rw [List.append_nil, sampleTen, if_neg hfull]
      | cons l ls => rw [List.nil_append, sampleTen, if_neg hfull]
  | cons l ls ih =>
      by_cases hlt : buf.length < 10
      · have hstored : (l.store buf).length + (presses ls).length =
            buf.length + (presses (l :: ls)).length := by
          have := congrArg List.length (store_append buf l ls)
          simpa only [List.length_append, List.length_map] using this
        have hle := length_store_le buf l
        rw [List.cons_append, sampleTen, if_pos hlt, if_neg hwait]
        exact ih (by omega) (by omega)
      · refine ⟨buf, l :: ls, ?_, by omega⟩
        rw [List.cons_append, sampleTen, if_neg hlt]

/-- The second loop ends at a release. -/
theorem awaitRelease_released (wait : UInt8) (before after : List IrqLook) :
    awaitRelease wait (before ++ .released :: after) = some () := by
  induction before with
  | nil => simp [awaitRelease]
  | cons l ls ih =>
      by_cases hwait : wait = 0
      · simp [awaitRelease, hwait]
      · cases l with
        | released => simp [awaitRelease]
        | pressed chip => simpa [awaitRelease, hwait] using ih

end Loops

/-! ## What the filters give -/

/-- The first ten samples a control word gets. -/
def samples (ucCh : UInt8) (looks : List IrqLook) : List ℤ :=
  ((presses looks).take 10).map fun chip => ((chip ucCh).toNat : ℤ)

/-- A value smooths ten samples: it is the mean, rounded down, of the eight
left by a least and a greatest, and lies between the two. -/
def Smooths (s : List ℤ) (v : ℤ) : Prop :=
  ∃ lo hi rest, Trims s lo hi rest ∧ rest.length = 8 ∧ v = ⌊mean rest⌋ ∧ lo ≤ v ∧ v ≤ hi

/-- **Smoothing does not look at the order.** -/
theorem Smooths.unique {s s' : List ℤ} {v v' : ℤ} (h : Smooths s v) (h' : Smooths s' v')
    (hperm : s.Perm s') : v = v' := by
  obtain ⟨_, _, _, ht, _, rfl, _⟩ := h
  obtain ⟨_, _, _, ht', _, rfl, _⟩ := h'
  rw [ht.mean_eq ht' hperm]

/-- **An axis is smoothed**, whatever its ten samples are. -/
theorem smoothAxis_smooths {buf : List Int16} (hten : buf.length = 10) :
    Smooths (buf.map Int16.toInt) (smoothAxis buf).toInt := by
  cases buf with
  | nil => cases hten
  | cons x xs =>
      set b := xs.foldl (scan Int16.toInt) (x, x) with hb
      have hext : Extremes ((x :: xs).map Int16.toInt) b.1.toInt b.2.toInt := scan_spec x xs
      obtain ⟨rest, htrim⟩ := hext.exists_trims (by rw [List.length_map]; omega)
      have hlen : rest.length = 8 := by
        have := htrim.length_eq
        rw [List.length_map] at this
        omega
      have hmean : ⌊mean rest⌋ =
          (((x :: xs).map Int16.toInt).sum - b.1.toInt - b.2.toInt) >>> (3 : ℕ) := by
        rw [floor_mean, htrim.sum_rest, hlen, Int.shiftRight_eq_div_pow]
      obtain ⟨hlo, hhi⟩ := htrim.floor_mean_mem (by omega)
      have hval : (smoothAxis (x :: xs)).toInt = ⌊mean rest⌋ := by
        have hmin := b.1.le_toInt
        have hmax := b.2.toInt_lt
        simp only [smoothAxis, List.tail_cons, List.headD_cons, ← hb]
        rw [← hmean]
        exact Int16.toInt_ofInt_of_le (by omega) (by omega)
      rw [hval]
      exact ⟨_, _, rest, htrim, hlen, rfl, hlo, hhi⟩

section Smooth

variable {wait : UInt8} {looks : List IrqLook} {x y : Int16}

/-- What a return code of zero says. -/
theorem smoothXY_sampled (h : xpt2046ReadAdcSmoothXY wait looks = some (0, x, y)) :
    ∃ buf rest, sampleTen wait [] looks = some (buf, rest) ∧ buf.length = 10 ∧
      x = smoothAxis (buf.map Prod.fst) ∧ y = smoothAxis (buf.map Prod.snd) := by
  simp only [xpt2046ReadAdcSmoothXY, Option.bind_eq_bind, Option.bind_eq_some_iff] at h
  obtain ⟨⟨buf, rest⟩, hrun, -, -, hret⟩ := h
  split at hret
  · next hlen =>
      cases hret
      exact ⟨buf, rest, hrun, hlen, rfl, rfl⟩
  · cases hret

/-- An axis of the buffer holds the samples of its control word. -/
theorem axis_eq_samples {buf : List (Int16 × Int16)} {axis : Int16 × Int16 → Int16} {ucCh : UInt8}
    (haxis : ∀ chip, (axis (xpt2046ReadAdcXY chip)).toInt = (chip ucCh).toNat)
    (hbuf : buf = ((presses looks).map xpt2046ReadAdcXY).take 10) :
    (buf.map axis).map Int16.toInt = samples ucCh looks := by
  rw [hbuf, ← List.map_take, List.map_map, List.map_map]
  exact List.map_congr_left fun chip _ => haxis chip

theorem smoothXY_smooths (h : xpt2046ReadAdcSmoothXY wait looks = some (0, x, y)) :
    Smooths (samples cmdRdy looks) x.toInt ∧ Smooths (samples cmdRdx looks) y.toInt := by
  obtain ⟨buf, rest, hrun, hlen, rfl, rfl⟩ := smoothXY_sampled h
  have hbuf : buf = ((presses looks).map xpt2046ReadAdcXY).take 10 :=
    sampleTen_spec hrun hlen (by simp)
  rw [← axis_eq_samples readAdcXY_fst hbuf, ← axis_eq_samples readAdcXY_snd hbuf]
  exact ⟨smoothAxis_smooths (by rwa [List.length_map]),
    smoothAxis_smooths (by rwa [List.length_map])⟩

/-- **It returns.** Ten presses and then a release are enough, whatever else
the pin does. -/
theorem smoothXY_returns (hwait : wait ≠ 0) {before : List IrqLook} (after : List IrqLook)
    (hten : 10 ≤ (presses before).length) :
    ∃ x y, xpt2046ReadAdcSmoothXY wait (before ++ .released :: after) = some (0, x, y) := by
  have hpresses : 10 ≤ ([] : List (Int16 × Int16)).length + (presses before).length := by
    simpa using hten
  obtain ⟨buf, rest, hrun, hlen⟩ :=
    sampleTen_ends hwait (.released :: after) (by simp) hpresses
  refine ⟨smoothAxis (buf.map Prod.fst), smoothAxis (buf.map Prod.snd), ?_⟩
  rw [xpt2046ReadAdcSmoothXY, hrun]
  simp only [Option.bind_eq_bind, Option.bind_some, awaitRelease_released, if_pos hlen]
  rfl

/-- Without `wait` there is one look, so never ten samples. -/
theorem smoothXY_no_wait (looks : List IrqLook) (x y : Int16) :
    xpt2046ReadAdcSmoothXY 0 looks ≠ some (0, x, y) := by
  intro h
  obtain ⟨buf, rest, hrun, hlen, -⟩ := smoothXY_sampled h
  cases looks with
  | nil => cases hrun
  | cons l ls =>
      cases hrun
      have hle : (l.store []).length ≤ 1 := length_store_le [] l
      omega

end Smooth

/-- **The middle two.** The sort is by the values themselves, so what stands
at a place is the order statistic of the samples. -/
theorem fliter_eq (channel : UInt8) (chips : Fin 4 → ChipAnswer) (g : AdcXY) :
    promoted (xpt2046ReadAdcFliter channel (some chips) g).1 =
      ⌊mean [orderStat (fun i => ((chips i channel).toNat : ℤ)) 1,
        orderStat (fun i => ((chips i channel).toNat : ℤ)) 2]⌋ := by
  set tempXY := selectionSort promoted fun i => xpt2046ReadAdc (chips i) channel with htemp
  have hstat (k : Fin 4) :
      promoted (tempXY k) = orderStat (fun i => ((chips i channel).toNat : ℤ)) k := by
    rw [htemp, key_selectionSort promoted]
    congr 1
    funext i
    exact congrArg Nat.cast (readAdc_toNat (chips i) channel)
  have hret : (xpt2046ReadAdcFliter channel (some chips) g).1 =
      UInt16.ofNat ((promoted (tempXY 2) + promoted (tempXY 1)) / 2).toNat := by
    simp only [xpt2046ReadAdcFliter, ← htemp]
    split <;> rfl
  have h1 := (tempXY 1).toNat_lt
  have h2 := (tempXY 2).toNat_lt
  rw [hret, ← hstat 1, ← hstat 2, floor_mean]
  simp only [promoted, UInt16.toNat_ofNat', List.sum_cons, List.sum_nil, List.length_cons,
    List.length_nil]
  omega

/-- **The filters.** With ten presses and a release the smoothing returns;
the value of each axis smooths its ten samples and is the same for any order
of them; and the filter of four returns the mean, rounded down, of the second
and third order statistics. -/
theorem touch_filters :
    (∀ (wait : UInt8) (before after : List IrqLook), wait ≠ 0 → 10 ≤ (presses before).length →
      ∃ x y, xpt2046ReadAdcSmoothXY wait (before ++ .released :: after) = some (0, x, y)) ∧
    (∀ (wait : UInt8) (looks : List IrqLook) (x y : Int16),
      xpt2046ReadAdcSmoothXY wait looks = some (0, x, y) →
        Smooths (samples cmdRdy looks) x.toInt ∧ Smooths (samples cmdRdx looks) y.toInt) ∧
    (∀ (wait wait' : UInt8) (looks looks' : List IrqLook) (x y x' y' : Int16),
      xpt2046ReadAdcSmoothXY wait looks = some (0, x, y) →
      xpt2046ReadAdcSmoothXY wait' looks' = some (0, x', y') →
        ((samples cmdRdy looks).Perm (samples cmdRdy looks') → x = x') ∧
        ((samples cmdRdx looks).Perm (samples cmdRdx looks') → y = y')) ∧
    ∀ (channel : UInt8) (chips : Fin 4 → ChipAnswer) (g : AdcXY),
      promoted (xpt2046ReadAdcFliter channel (some chips) g).1 =
        ⌊mean [orderStat (fun i => ((chips i channel).toNat : ℤ)) 1,
          orderStat (fun i => ((chips i channel).toNat : ℤ)) 2]⌋ := by
  refine ⟨?_, ?_, ?_, fliter_eq⟩
  · intro wait before after hwait hten
    exact smoothXY_returns hwait after hten
  · intro wait looks x y h
    exact smoothXY_smooths h
  · intro wait wait' looks looks' x y x' y' h h'
    obtain ⟨hx, hy⟩ := smoothXY_smooths h
    obtain ⟨hx', hy'⟩ := smoothXY_smooths h'
    exact ⟨fun hperm => Int16.toInt_inj.1 (hx.unique hx' hperm),
      fun hperm => Int16.toInt_inj.1 (hy.unique hy' hperm)⟩

/-- Ten presses that rise by a hundred. -/
def risingPresses : List IrqLook :=
  (List.range 10).map fun k => .pressed fun _ => BitVec.ofNat 12 (100 * k)

theorem touch_filters_rising :
    ∃ x y, xpt2046ReadAdcSmoothXY 1 (risingPresses ++ [.released]) = some (0, x, y) ∧
      Smooths [0, 100, 200, 300, 400, 500, 600, 700, 800, 900] x.toInt ∧
      xpt2046ReadAdcSmoothXY 1 (risingPresses.reverse ++ [.released]) = some (0, x, y) := by
  obtain ⟨x, y, h⟩ := touch_filters.1 1 risingPresses [] (by decide) (by decide)
  obtain ⟨x', y', h'⟩ := touch_filters.1 1 risingPresses.reverse [] (by decide) (by decide)
  obtain ⟨hx, hy⟩ := touch_filters.2.2.1 1 1 _ _ x' y' x y h' h
  obtain rfl := hx (by decide)
  obtain rfl := hy (by decide)
  exact ⟨x', y', h, (touch_filters.2.1 1 _ x' y' h).1, h'⟩

example : xpt2046ReadAdcSmoothXY 1 (risingPresses ++ [.released]) = some (0, 450, 450) := by
  decide +kernel

end BusMonitor
