import BusMonitor.Fram.Startup
import BusMonitor.GUI.Edit
/-!
# The password dialogs

The keypad page lets a user in; the change dialog sets `UsrPassword`. The
keypad reads four characters of the text it is given, the change dialog
nine, and cuts their number to 16 bits. The change dialog shows an edit
widget for the old password and never reads it. So a password of more than
four digits cannot be entered at the keypad, and one of four digits is also
entered by every longer text that starts with it.
-/


namespace BusMonitor

open Decimal Mem LittleEndian

/-- `User_login` after a manager's password. -/
def managerLogin : UInt8 := 0xFF

/-- `User_login` after the factory's. -/
def factoryLogin : UInt8 := 0xCC

/-- The keypad's `OK`: what `User_login` becomes, or none for a wrong
password. `role` is the item of the drop-down, `edit0` the text of the
password widget. -/
def keypadLogin (usrPassword : UInt16) (role : Nat) (edit0 : List Char) : Option UInt8 :=
  let passWord := atoi (editGetText edit0 5)
  if role = 0 ∧ passWord = usrPassword.toNat then some managerLogin
  else if role = 1 ∧ passWord = 0 then some factoryLogin
  else none

/-- The texts of the change dialog: the old password, and the new one. -/
structure ChangeTexts where
  edit0 : List Char
  edit1 : List Char

/-- What the change dialog's `OK` reads. -/
def ChangeTexts.newPassword (t : ChangeTexts) : UInt16 := wordOf (editGetText t.edit1 10)

/-- `UsrPassword`, and the FRAM that holds its copy. -/
structure Secret where
  usrPassword : UInt16
  fram : Mem
  copied : fram.Holds (fmAddrOptimSet + fmOptUsrPW) (wordBytes usrPassword)

namespace Secret

/-- The change dialog's `OK`, with `Opt_PWSave`. -/
def changePassword (s : Secret) (t : ChangeTexts) : Secret where
  usrPassword := t.newPassword
  fram := s.fram.writeAll (optPWSaveWrites t.newPassword)
  copied := holds_write

/-- The password after `Opt_Init`. -/
def start (m : Mem) : Secret where
  usrPassword := (Ram.zero.optInit .fine m).2.usrPassword
  fram := m.writeAll (Ram.zero.optInit .fine m).1
  copied := by
    unfold Ram.optInit
    split
    · exact holds_wordAt
    · exact holds_write

/-- The keypad lets a text in as a manager. -/
def LogsIn (s : Secret) (text : List Char) : Prop :=
  keypadLogin s.usrPassword 0 text = some managerLogin

/-- The password changes, in RAM or in the FRAM. -/
def Changes (s : Secret) (t : ChangeTexts) : Prop :=
  (s.changePassword t).usrPassword ≠ s.usrPassword ∨ (s.changePassword t).fram ≠ s.fram

/-- The old password gates the change, and after it the keypad takes the
new text and no text of digits that stands for another number. -/
structure ChangesRight (s : Secret) (t : ChangeTexts) : Prop where
  gated : s.Changes t → atoi t.edit0 = s.usrPassword.toNat
  accepted : s.Changes t → (s.changePassword t).LogsIn t.edit1
  rejected : s.Changes t → ∀ text, Digits text → value text ≠ value t.edit1 →
    ¬ (s.changePassword t).LogsIn text

variable {s : Secret} {t : ChangeTexts} {text : List Char}

theorem logsIn_iff : s.LogsIn text ↔ atoi (editGetText text 5) = s.usrPassword.toNat := by
  unfold LogsIn keypadLogin
  constructor
  · intro h
    by_contra hne
    rw [if_neg fun hc => hne hc.2, if_neg fun hc => absurd hc.1 (by decide)] at h
    exact absurd h (Option.some_ne_none _).symm
  · intro h
    rw [if_pos ⟨rfl, h⟩]

/-- Of a text of digits the keypad goes by the first four. -/
theorem logsIn_digits (h : Digits text) :
    s.LogsIn text ↔ value (text.take 4) = s.usrPassword.toNat := by
  rw [logsIn_iff, editGetText, atoi_of_digits (h.take _)]
  exact Int.ofNat_inj

/-- The change dialog goes by the first nine, cut to 16 bits. -/
theorem newPassword_digits (h : Digits t.edit1) :
    t.newPassword.toNat = value (t.edit1.take 9) % 2 ^ 16 :=
  toNat_wordOf (h.take _)

/-- The copy changes with the variable and not without it. -/
theorem changes_iff : s.Changes t ↔ t.newPassword ≠ s.usrPassword := by
  constructor
  · intro h heq
    rcases h with hram | hfram
    · exact hram heq
    · refine hfram (write_eq_self.2 ?_)
      rw [heq]
      exact s.copied
  · intro h
    exact .inl h

/-- **The old password gates nothing.** -/
theorem gated_iff : (s.Changes t → atoi t.edit0 = s.usrPassword.toNat) ↔
    t.newPassword = s.usrPassword ∨ atoi t.edit0 = s.usrPassword.toNat := by
  rw [changes_iff]
  tauto

/-- **A new password is taken when its first four digits and its first nine
stand for one number.** -/
theorem accepted_iff (h : Digits t.edit1) : (s.changePassword t).LogsIn t.edit1 ↔
    value (t.edit1.take 4) = value (t.edit1.take 9) % 2 ^ 16 := by
  rw [logsIn_digits h, ← newPassword_digits h]
  exact Iff.rfl

/-- **A password of four digits also lets longer texts in.** Any digits may
follow it. -/
theorem logsIn_longer {tail : List Char} (h : s.usrPassword.toNat < 10 ^ 4) (htail : Digits tail) :
    s.LogsIn (padded 4 s.usrPassword.toNat ++ tail) := by
  have hlen := length_padded (by decide) h
  have hdigits : Digits (padded 4 s.usrPassword.toNat ++ tail) := by
    intro c hc
    exact (List.mem_append.1 hc).elim (digits_padded c) (htail c)
  rw [logsIn_digits hdigits, List.take_left' hlen, value_padded]

/-- A longer text that lets in and stands for another number than `n`. -/
theorem exists_other (h : s.usrPassword.toNat < 10 ^ 4) (n : Nat) :
    ∃ text, Digits text ∧ value text ≠ n ∧ s.LogsIn text := by
  have htail (c : Char) (hc : c.isDigit = true) : Digits [c] := by
    intro d hd
    rwa [List.mem_singleton.1 hd]
  have hvalue (c : Char) : value (padded 4 s.usrPassword.toNat ++ [c]) =
      10 * s.usrPassword.toNat + value [c] := by
    rw [value_append, value_padded, List.length_singleton, Nat.pow_one]
  have hdigits (c : Char) (hc : c.isDigit = true) :
      Digits (padded 4 s.usrPassword.toNat ++ [c]) := by
    intro d hd
    exact (List.mem_append.1 hd).elim (digits_padded d) (htail c hc d)
  have h1 : value ['1'] = 1 := by decide
  have h2 : value ['2'] = 2 := by decide
  -- two texts of five digits let in, and not both stand for `n`
  by_cases hn : value (padded 4 s.usrPassword.toNat ++ ['1']) = n
  · refine ⟨_, hdigits '2' (by decide), ?_, logsIn_longer h (htail '2' (by decide))⟩
    rw [hvalue] at hn ⊢
    omega
  · exact ⟨_, hdigits '1' (by decide), hn, logsIn_longer h (htail '1' (by decide))⟩

/-- **No change of the password is right.** Whatever the texts, a password
that the keypad takes it also takes in longer texts. -/
theorem changesRight_iff (h : Digits t.edit1) :
    s.ChangesRight t ↔ value (t.edit1.take 9) % 2 ^ 16 = s.usrPassword.toNat := by
  rw [← newPassword_digits h, UInt16.toNat_inj]
  constructor
  · intro hr
    by_contra hne
    have hc := changes_iff.2 hne
    have hin := (logsIn_digits h).1 (hr.accepted hc)
    have hlt : (s.changePassword t).usrPassword.toNat < 10 ^ 4 := by
      have hfour := value_lt (h.take 4)
      have hlen : (t.edit1.take 4).length ≤ 4 := List.length_take_le ..
      have hpow := Nat.pow_le_pow_right (show 0 < 10 by decide) hlen
      omega
    obtain ⟨text, hdigits, hother, htaken⟩ := exists_other hlt (value t.edit1)
    exact hr.rejected hc text hdigits hother htaken
  · intro heq
    have hnot : ¬ s.Changes t := fun hc => changes_iff.1 hc heq
    exact ⟨fun hc => absurd hc hnot, fun hc => absurd hc hnot, fun hc => absurd hc hnot⟩

/-- Entering the password that is there. -/
theorem changesRight_same : (start fun _ => 0).ChangesRight ⟨[], ['1', '2', '3', '4']⟩ :=
  (changesRight_iff (by decide)).2 (by decide)

/-- A first start, and `0` for the old password 1234: it changes. -/
theorem not_changesRight_wrong :
    ¬ (start fun _ => 0).ChangesRight ⟨['0'], ['5', '6', '7', '8']⟩ := by
  intro h
  have hc : (start fun _ => 0).Changes ⟨['0'], ['5', '6', '7', '8']⟩ := changes_iff.2 (by decide)
  exact absurd (h.gated hc) (by decide)

end Secret

end BusMonitor
