import BusMonitor.System
/-!
# The real-time clock

`HAL_RTC_SetDate`, `HAL_RTC_SetTime` and their read-outs, in the binary
format and with the weekday 0 that every caller passes. The registers keep
each number in BCD and drop the bits they have no place for, so only
numbers within a register's range come back as they were set.
-/


namespace BusMonitor

/-- The bytes of `RTC_DR` and `RTC_TR` that hold the calendar. -/
structure Rtc where
  drYear : UInt8
  drMonth : UInt8
  drDate : UInt8
  trHours : UInt8
  trMinutes : UInt8
  trSeconds : UInt8
  deriving DecidableEq, Repr, Inhabited

/-- `RTC_ByteToBcd2`. -/
def byteToBcd2 (v : UInt8) : UInt8 := ((v / 10) <<< 4) ||| (v % 10)

/-- `RTC_Bcd2ToByte`. -/
def bcd2ToByte (v : UInt8) : UInt8 := (v >>> 4) * 10 + (v &&& 0x0F)

/-- The month as `HAL_RTC_SetDate` takes it: bit 4 counts as BCD tens. -/
def binMonth (month : UInt8) : UInt8 :=
  if month &&& 0x10 = 0x10 then (month &&& 0xEF) + 0x0A else month

/-- `HAL_RTC_SetDate`. -/
def Rtc.setDate (r : Rtc) (year month date : UInt8) : Rtc :=
  { r with
    drYear := byteToBcd2 year
    drMonth := byteToBcd2 (binMonth month)
    drDate := byteToBcd2 date &&& 0x3F }

/-- `HAL_RTC_SetTime`. -/
def Rtc.setTime (r : Rtc) (hours minutes seconds : UInt8) : Rtc :=
  { r with
    trHours := byteToBcd2 hours &&& 0x7F
    trMinutes := byteToBcd2 minutes &&& 0x7F
    trSeconds := byteToBcd2 seconds &&& 0x7F }

/-- `HAL_RTC_GetDate` and `HAL_RTC_GetTime`. -/
def Rtc.now (r : Rtc) : Stamp where
  year := bcd2ToByte r.drYear
  month := bcd2ToByte (r.drMonth &&& 0x1F)
  date := bcd2ToByte (r.drDate &&& 0x3F)
  hour := bcd2ToByte (r.trHours &&& 0x3F)
  minute := bcd2ToByte (r.trMinutes &&& 0x7F)
  second := bcd2ToByte (r.trSeconds &&& 0x7F)

/-- The times the registers have room for. -/
def Stamp.Fits (t : Stamp) : Prop :=
  t.year ≤ 159 ∧ t.month ≤ 15 ∧ t.date ≤ 39 ∧ t.hour ≤ 39 ∧ t.minute ≤ 79 ∧ t.second ≤ 79

instance (t : Stamp) : Decidable t.Fits := inferInstanceAs (Decidable (_ ∧ _))

/-! ## What comes back -/

/-- What holds of the 256 bytes holds of every byte. -/
theorem forall_byte {P : UInt8 → Prop} (h : ∀ n < 256, P (UInt8.ofNat n)) (b : UInt8) : P b := by
  have := h b.toNat b.toNat_lt
  rwa [UInt8.ofNat_toNat] at this

variable {b : UInt8}

theorem year_back : bcd2ToByte (byteToBcd2 b) = b ↔ b ≤ 159 :=
  forall_byte (P := fun b => bcd2ToByte (byteToBcd2 b) = b ↔ b ≤ 159) (by decide +kernel) b

theorem month_back : bcd2ToByte (byteToBcd2 (binMonth b) &&& 0x1F) = b ↔ b ≤ 15 :=
  forall_byte (P := fun b => bcd2ToByte (byteToBcd2 (binMonth b) &&& 0x1F) = b ↔ b ≤ 15)
    (by decide +kernel) b

theorem date_back : bcd2ToByte (byteToBcd2 b &&& 0x3F &&& 0x3F) = b ↔ b ≤ 39 :=
  forall_byte (P := fun b => bcd2ToByte (byteToBcd2 b &&& 0x3F &&& 0x3F) = b ↔ b ≤ 39)
    (by decide +kernel) b

theorem hour_back : bcd2ToByte (byteToBcd2 b &&& 0x7F &&& 0x3F) = b ↔ b ≤ 39 :=
  forall_byte (P := fun b => bcd2ToByte (byteToBcd2 b &&& 0x7F &&& 0x3F) = b ↔ b ≤ 39)
    (by decide +kernel) b

theorem minute_back : bcd2ToByte (byteToBcd2 b &&& 0x7F &&& 0x7F) = b ↔ b ≤ 79 :=
  forall_byte (P := fun b => bcd2ToByte (byteToBcd2 b &&& 0x7F &&& 0x7F) = b ↔ b ≤ 79)
    (by decide +kernel) b

/-- The clock set to a time. -/
def Rtc.set (r : Rtc) (t : Stamp) : Rtc :=
  (r.setDate t.year t.month t.date).setTime t.hour t.minute t.second

/-- **The clock reads as set** for the times that fit, and for no other. -/
theorem now_set_iff {r : Rtc} {t : Stamp} : (r.set t).now = t ↔ t.Fits := by
  obtain ⟨y, m, d, h, mi, s⟩ := t
  simp only [Rtc.set, Rtc.setTime, Rtc.setDate, Rtc.now, Stamp.mk.injEq, Stamp.Fits, year_back,
    month_back, date_back, hour_back, minute_back]

end BusMonitor
