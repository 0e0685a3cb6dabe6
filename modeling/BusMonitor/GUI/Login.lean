import BusMonitor.GUI.Console
import BusMonitor.Lib.Run
/-!
# The login guard

What a touch does while `User_login` is 0. The two dialogs that write
without asking, for the energy and for the password, come up only with a
login, and every handler that takes the login away covers them with a full
page. What is left are `Set` on the device page and `Config_ok` on the
configuration pages, which the keypad's `Cancel` leads to. They store what
their widgets hold, and nothing that is guarded changes exactly when this
stands for what is stored: no key may have reached a widget, the item of
the rate and the boxes must be the ones there were, and the single page
writes over bus B.
-/


namespace BusMonitor

open Screen Stepwise

/-! ## What a confirmation stores -/

namespace Guarded

variable {d : Guarded} {s : Station}

theorem withStation_eq_self_iff (h : s.Copied) : d.withStation s h = d ↔ s = d.station := by
  constructor
  · intro heq
    rw [← heq]
    rfl
  · rintro rfl
    rfl

theorem deviceSet_eq_self_iff {p : DevicePage} : d.deviceSet p = d ↔ p.Stands d.station := by
  rw [deviceSet, withStation_eq_self_iff]
  exact BusMonitor.deviceSet_eq_self_iff d.copied_station

theorem config_eq_self_iff {edit : Fin 6 → Option (List Char)} {v : ConfigVars} :
    d.config edit v = d ↔ configOk edit v d.optimset = d.optimset := by
  rw [config, withStation_eq_self_iff]
  exact d.copied_station.optSave_eq_self_iff _

end Guarded

namespace Form

variable {f : Form} {n : Nat} {text : List Char}

@[simp] theorem page_setText : (f.setText n text).page = f.page := by
  unfold setText
  split <;> rfl

@[simp] theorem page_select : (f.select n).page = f.page := by
  unfold select
  split
  · split <;> rfl
  · split <;> rfl
  · rfl

/-- A touch of a confirmation finds the widgets standing for what is
stored. On the single page each of them stands for all the fields that are
read from it. -/
structure Stands (f : Form) (s : Console) (t : Touch) : Prop where
  set : f.page = .deviceInform → t = .button 2 → f.device.Stands s.data.station
  configS : f.page = .systemConS → t = .button 0 → ConfigStands f.config s.conS s.data.optimset
  configD : f.page = .systemConD → t = .button 0 →
    ConfigStands (fun i => f.config (widgetD i)) s.conD s.data.optimset

instance (f : Form) (s : Console) (t : Touch) : Decidable (f.Stands s t) :=
  decidable_of_iff (_ ∧ _ ∧ _)
    ⟨fun h => ⟨h.1, h.2.1, h.2.2⟩, fun h => ⟨h.set, h.configS, h.configD⟩⟩

/-- The other pages have no confirmation that asks for no login. -/
theorem stands_of_ne {s : Console} {t : Touch} (hset : f.page ≠ .deviceInform ∨ t ≠ .button 2)
    (hconS : f.page ≠ .systemConS ∨ t ≠ .button 0)
    (hconD : f.page ≠ .systemConD ∨ t ≠ .button 0) : f.Stands s t where
  set hp ht := absurd hset (by simp [hp, ht])
  configS hp ht := absurd hconS (by simp [hp, ht])
  configD hp ht := absurd hconD (by simp [hp, ht])

end Form

/-! ## What is shown without a login -/

/-- The dialogs that write without asking for a login. -/
def Page.writes : Page → Bool
  | energyClear | changePassword => true
  | _ => false

/-- The pages there are before the keypad has been called. -/
def Page.early : Page → Bool
  | home | busData1 | busData2 | nowAlarm | historyAlarm | numberpad => true
  | historyEnergy1 | historyEnergy2 | help => true
  | _ => false

theorem Page.writes_of_full {p : Page} (h : p.full = true) : p.writes = false := by
  cases p <;> first | rfl | exact absurd h (by decide)

namespace Console

/-- The keypad is called for one of eight things, or has not been called
yet: then no page has come up that needs it. -/
structure Called (s : Console) : Prop where
  bound : s.windowCallKeypad ≤ 8
  login : s.windowCallKeypad = 0 → s.userLogin = 0
  help : s.windowCallKeypad = 0 → s.windowHelpCall < 0x11
  pages : s.windowCallKeypad = 0 → ∀ p ∈ s.pages, p.early = true

/-- Without a login no dialog can be touched that writes. -/
structure Safe (s : Console) : Prop extends Called s where
  visible : s.userLogin = 0 → ∀ p ∈ s.visible, p.writes = false

/-- A touch keeps this, and changes nothing that is guarded while there is
no login. -/
structure Quiet (s s' : Console) : Prop where
  safe : s'.Safe
  data : s.userLogin = 0 → s'.userLogin = 0 → s'.data = s.data

/-- A touch keeps this, and without a login it changes nothing that is
guarded on a condition. -/
structure Guards (s s' : Console) (c : Prop) : Prop where
  safe : s'.Safe
  data : s.userLogin = 0 → s'.userLogin = 0 → (s'.data = s.data ↔ c)

section windows

variable {s s' : Console} {p q : Page} {k : Nat}

theorem Quiet.guards {c : Prop} (h : Quiet s s') (hc : c) : Guards s s' c :=
  ⟨h.safe, fun h0 h0' => ⟨fun _ => hc, fun _ => h.data h0 h0'⟩⟩

theorem pages_create : (s.create q).pages = q :: s.pages := by
  unfold create pages
  rw [contents_create, List.map_cons]
  rfl

theorem mem_pages_of_mem_visible (h : p ∈ s.visible) : p ∈ s.pages := by
  obtain ⟨f, hf, rfl⟩ := List.mem_map.1 h
  exact List.mem_map_of_mem (mem_contents_of_mem_shown hf)

theorem mem_pages_of_delete (h : p ∈ (s.delete q).pages) : p ∈ s.pages := by
  obtain ⟨f, hf, rfl⟩ := List.mem_map.1 h
  exact List.mem_map_of_mem (mem_contents_of_mem_delete hf)

section update

variable {n : Nat} {g : Form → Form}

/-- A change in a window that leaves the page leaves all the pages. -/
theorem pages_update (hg : ∀ f, (g f).page = f.page) : (s.update n g).pages = s.pages := by
  unfold Console.update pages
  rw [contents_update]
  exact map_modify_of_view hg _

theorem visible_update (hg : ∀ f, (g f).page = f.page) : (s.update n g).visible = s.visible := by
  have hfull (f : Form) : (g f).full = f.full := congrArg Page.full (hg f)
  unfold visible shown Console.update
  rw [shown_update hfull]
  exact map_modify_of_view hg _

end update

theorem Called.of_ne (hb : s.windowCallKeypad ≤ 8) (hw : s.windowCallKeypad ≠ 0) : s.Called :=
  ⟨hb, fun h => absurd h hw, fun h => absurd h hw, fun h => absurd h hw⟩

theorem Called.delete (h : s.Called) : (s.delete p).Called where
  bound := h.bound
  login := h.login
  help := h.help
  pages hw q hq := h.pages hw q (mem_pages_of_delete hq)

theorem Called.create (h : s.Called) (hq : q.early = true ∨ s.windowCallKeypad ≠ 0) :
    (s.create q).Called where
  bound := h.bound
  login := h.login
  help := h.help
  pages hw p hp := by
    rw [pages_create] at hp
    rcases List.mem_cons.1 hp with rfl | hrest
    · exact hq.resolve_right fun hne => hne hw
    · exact h.pages hw p hrest

theorem visible_create : (s.create q).visible = q :: if q.full then [] else s.visible := by
  have hfull : (Form.create q s.data.optimset s.userLogin).full = q.full := rfl
  unfold create visible shown
  rw [shown_create, List.map_cons, hfull]
  split <;> rfl

/-- A full page hides everything. -/
theorem Called.safe_create (h : s.Called) (hq : q.early = true ∨ s.windowCallKeypad ≠ 0)
    (hf : q.full = true) : (s.create q).Safe where
  toCalled := h.create hq
  visible _ p hp := by
    rw [visible_create, if_pos hf] at hp
    rw [List.mem_singleton.1 hp]
    exact Page.writes_of_full hf

theorem Called.safe_goto (h : s.Called) (hq : q.early = true ∨ s.windowCallKeypad ≠ 0)
    (hf : q.full = true) : (s.goto p q).Safe :=
  Called.safe_create h.delete hq hf

theorem Called.safe_gotoSystemCon (h : s.Called) (hw : s.windowCallKeypad ≠ 0) :
    (s.gotoSystemCon p).Safe := by
  unfold gotoSystemCon
  split
  · exact h.safe_goto (.inr hw) rfl
  · exact h.safe_goto (.inr hw) rfl

/-- With a login everything may be shown. -/
theorem Called.safe_of_login (h : s.Called) (hl : s.userLogin ≠ 0) : s.Safe :=
  ⟨h, fun h0 => absurd h0 hl⟩

/-- A dialog that writes comes up only with a login. -/
theorem Safe.create (h : s.Safe) (hq : q.early = true ∨ s.windowCallKeypad ≠ 0)
    (hd : q.writes = false) : (s.create q).Safe where
  toCalled := h.toCalled.create hq
  visible h0 p hp := by
    rw [visible_create] at hp
    rcases List.mem_cons.1 hp with rfl | hrest
    · exact hd
    · split at hrest
      · exact absurd hrest List.not_mem_nil
      · exact h.visible h0 p hrest

/-- Only the pages, the login and the two calls matter. -/
theorem Safe.congr (h : s.Safe) (hpages : s'.pages = s.pages) (hvisible : s'.visible = s.visible)
    (hlogin : s'.userLogin = s.userLogin) (hkeypad : s'.windowCallKeypad = s.windowCallKeypad)
    (hhelp : s'.windowHelpCall = s.windowHelpCall) : s'.Safe where
  bound := hkeypad ▸ h.bound
  login hw := hlogin.trans (h.login (hkeypad ▸ hw))
  help hw := by
    rw [hhelp]
    exact h.help (hkeypad ▸ hw)
  pages hw := by
    rw [hpages]
    exact h.pages (hkeypad ▸ hw)
  visible h0 := by
    rw [hvisible]
    exact h.visible (hlogin ▸ h0)

theorem Safe.update (h : s.Safe) {n : Nat} {g : Form → Form} (hg : ∀ f, (g f).page = f.page) :
    (s.update n g).Safe :=
  h.congr (pages_update hg) (visible_update hg) rfl rfl rfl

theorem Safe.withData (h : s.Safe) (d : Guarded) : { s with data := d }.Safe :=
  h.congr rfl rfl rfl rfl rfl

@[simp] theorem data_gotoSystemCon : (s.gotoSystemCon p).data = s.data := by
  unfold gotoSystemCon
  split <;> rfl

@[simp] theorem userLogin_gotoSystemCon : (s.gotoSystemCon p).userLogin = s.userLogin := by
  unfold gotoSystemCon
  split <;> rfl

@[simp] theorem windowCall_gotoSystemCon :
    (s.gotoSystemCon p).windowCallKeypad = s.windowCallKeypad := by
  unfold gotoSystemCon
  split <;> rfl

/-! ## What the handlers have in common -/

theorem Safe.quiet (h : s.Safe) : Quiet s s := ⟨h, fun _ _ => rfl⟩

/-- With a login before or after, anything may be written. -/
theorem Safe.quiet_of_login (h : s'.Safe) (hl : s.userLogin ≠ 0 ∨ s'.userLogin ≠ 0) :
    Quiet s s' := by
  refine ⟨h, fun h0 h0' => ?_⟩
  rcases hl with hl | hl
  · exact absurd h0 hl
  · exact absurd h0' hl

theorem Safe.quiet_goto (h : s.Safe) (hq : q.early = true ∨ s.windowCallKeypad ≠ 0)
    (hf : q.full = true) : Quiet s (s.goto p q) :=
  ⟨h.toCalled.safe_goto hq hf, fun _ _ => rfl⟩

theorem Safe.quiet_gotoSystemCon (h : s.Safe) (hw : s.windowCallKeypad ≠ 0) :
    Quiet s (s.gotoSystemCon p) :=
  ⟨h.toCalled.safe_gotoSystemCon hw, fun _ _ => data_gotoSystemCon⟩

theorem Safe.quiet_gotoHelp (h : s.Safe) (hk : k < 0x11 ∨ s.windowCallKeypad ≠ 0) :
    Quiet s (s.gotoHelp p k) := by
  have hcalled : { s with windowHelpCall := k }.Called :=
    ⟨h.bound, h.login, fun hw => hk.resolve_right fun hne => hne hw, h.pages⟩
  exact ⟨hcalled.safe_goto (.inl rfl) rfl, fun _ _ => rfl⟩

theorem Safe.quiet_callKeypad (h : s.Safe) (hk : 1 ≤ k) (hb : k ≤ 8) :
    Quiet s (s.callKeypad k) := by
  have hne : k ≠ 0 := by omega
  have hcalled : { s with windowCallKeypad := k }.Called := .of_ne hb hne
  have hsafe : { s with windowCallKeypad := k }.Safe := ⟨hcalled, h.visible⟩
  exact ⟨hsafe.create (.inr hne) rfl, fun _ _ => rfl⟩

theorem Safe.quiet_keypad (h : s.Safe) (hw : s.windowCallKeypad ≠ 0) :
    Quiet s (s.create .keypad) :=
  ⟨h.create (.inr hw) rfl, fun _ _ => rfl⟩

theorem Safe.quiet_callNumberpad (h : s.Safe) : Quiet s s.callNumberpad := by
  unfold callNumberpad
  split
  · have hpad : (s.create .numberpad).Safe := h.create (.inl rfl) rfl
    exact ⟨hpad.congr rfl rfl rfl rfl rfl, fun _ _ => rfl⟩
  · exact ⟨h.congr rfl rfl rfl rfl rfl, fun _ _ => rfl⟩

theorem Safe.quiet_callEdit (h : s.Safe) {n : Nat} : Quiet s (s.callEdit k n) := by
  have hq := (h.update (n := k) (g := fun f => f.setText n []) fun f => Form.page_setText).quiet_callNumberpad
  exact ⟨hq.safe, hq.data⟩

theorem LoggedIn.ne_zero (h : s.LoggedIn) : s.userLogin ≠ 0 := by
  rcases h with h | h <;> rw [h] <;> decide

end windows

/-! ## One handler after the other -/

section handlers

variable {s : Console} {f : Form} {t : Touch} {n : Nat}

theorem quiet_cbHome (h : s.Safe) : Quiet s (s.cbHome t) := by
  unfold cbHome
  split
  · exact h.quiet_goto (.inl rfl) rfl
  · exact h.quiet_goto (.inl rfl) rfl
  · exact h.quiet_goto (.inl rfl) rfl
  · split
    · exact h.quiet_callKeypad (by decide) (by decide)
    · -- with a login the keypad has been called
      rename_i hl
      exact h.quiet_gotoSystemCon fun hw => hl (h.login hw)
  · split
    · rename_i hl
      exact (h.withData _).quiet_of_login (.inl hl.ne_zero)
    · exact h.quiet
  · exact h.quiet

theorem quiet_cbBusData1 (h : s.Safe) : Quiet s (s.cbBusData1 t) := by
  unfold cbBusData1
  split
  · exact h.quiet_goto (.inl rfl) rfl
  · exact h.quiet_goto (.inl rfl) rfl
  · exact h.quiet_gotoHelp (.inl (by decide))
  · exact h.quiet

/-- A full page that is there before the old one goes. -/
theorem Called.safe_replace {p q : Page} (h : s.Called) (hq : q.early = true)
    (hf : q.full = true) (hp : q.slot ≠ p.slot) : ((s.create q).delete p).Safe where
  toCalled := (h.create (.inl hq)).delete
  visible _ r hr := by
    have hshown : ((s.create q).delete p).shown = [.create q s.data.optimset s.userLogin] :=
      shown_delete_create hf hp
    rw [visible, hshown] at hr
    rw [List.mem_singleton.1 hr]
    exact Page.writes_of_full hf

theorem quiet_cbBusData2 (h : s.Safe) : Quiet s (s.cbBusData2 t) := by
  unfold cbBusData2
  split
  · exact ⟨h.toCalled.safe_replace rfl rfl (by decide), fun _ _ => rfl⟩
  · exact ⟨h.toCalled.safe_replace rfl rfl (by decide), fun _ _ => rfl⟩
  · have hlow : 0x02 < 0x11 := by decide
    have hcalled : { s with windowHelpCall := 0x02 }.Called :=
      ⟨h.bound, h.login, fun _ => hlow, h.pages⟩
    exact ⟨hcalled.safe_replace rfl rfl (by decide), fun _ _ => rfl⟩
  · exact h.quiet

theorem quiet_cbHistoryEnergy1 (h : s.Safe) : Quiet s (s.cbHistoryEnergy1 n t) := by
  unfold cbHistoryEnergy1
  split
  · exact h.quiet_callNumberpad
  · exact h.quiet_gotoHelp (.inl (by decide))
  · exact h.quiet_goto (.inl rfl) rfl
  · split
    · exact h.quiet_goto (.inl rfl) rfl
    · exact h.quiet
  · exact h.quiet

theorem quiet_cbHistoryEnergy2 (h : s.Safe) : Quiet s (s.cbHistoryEnergy2 n t) := by
  unfold cbHistoryEnergy2
  split
  · exact h.quiet_gotoHelp (.inl (by decide))
  · exact h.quiet_goto (.inl rfl) rfl
  · split
    · exact h.quiet_goto (.inl rfl) rfl
    · exact h.quiet
  · exact h.quiet

theorem quiet_cbNowAlarm (h : s.Safe) : Quiet s (s.cbNowAlarm t) := by
  unfold cbNowAlarm
  split
  · exact h.quiet_gotoHelp (.inl (by decide))
  · exact h.quiet_goto (.inl rfl) rfl
  · exact h.quiet_goto (.inl rfl) rfl
  · exact h.quiet

theorem quiet_cbHistoryAlarm (h : s.Safe) : Quiet s (s.cbHistoryAlarm t) := by
  unfold cbHistoryAlarm
  split
  · split
    · exact h.quiet_callKeypad (by decide) (by decide)
    · rename_i hl
      exact (h.withData _).quiet_of_login (.inl hl)
  · exact h.quiet_goto (.inl rfl) rfl
  · exact h.quiet_gotoHelp (.inl (by decide))
  · exact h.quiet

/-- The configuration pages are quiet but for `Config_ok`. -/
theorem quiet_cbSystemCon (h : s.Safe) (hw : s.windowCallKeypad ≠ 0) {page : Page}
    {call help window : Nat} {ok : Guarded} {box : Fin 6 → Console} (hcall : 1 ≤ call ∧ call ≤ 6)
    (hbox : ∀ i, Quiet s (box i)) (ht : t ≠ .button 0) :
    Quiet s (s.cbSystemCon page call help window ok box t) := by
  unfold cbSystemCon
  split
  · split
    · exact h.quiet_callEdit
    · exact h.quiet_keypad hw
  · exact hbox _
  · exact absurd rfl ht
  · exact h.quiet_goto (.inr hw) rfl
  · split
    · exact ⟨h.create (.inr hw) rfl, fun _ _ => rfl⟩
    · exact h.quiet_goto (.inl rfl) rfl
  · split
    · exact h.quiet_callKeypad hcall.1 (by omega)
    · rename_i hl
      exact (h.withData _).quiet_of_login (.inl hl)
  · split
    · exact h.quiet_callKeypad (by omega) (by omega)
    · rename_i hl
      exact ((h.toCalled.create (.inr hw)).safe_of_login hl).quiet_of_login (.inl hl)
  · split
    · exact h.quiet_callKeypad (by omega) (by omega)
    · rename_i hl
      split
      · exact ((h.toCalled.create (.inr hw)).safe_of_login hl).quiet_of_login (.inl hl)
      · exact h.quiet
  · exact h.quiet_gotoHelp (.inr hw)
  · exact h.quiet

/-- **The configuration page of a single busbar.** -/
theorem guards_cbSystemConD (h : s.Safe) (hw : s.windowCallKeypad ≠ 0)
    (hp : f.page = .systemConD) : Guards s (s.cbSystemConD n f t) (f.Stands s t) := by
  by_cases ht : t = .button 0
  · have hstands : f.Stands s t ↔
        ConfigStands (fun i => f.config (widgetD i)) s.conD s.data.optimset := by
      constructor
      · intro hs
        exact hs.configD hp ht
      · intro hs
        exact ⟨fun hd => absurd (hp.symm.trans hd) (by decide),
          fun hd => absurd (hp.symm.trans hd) (by decide), fun _ _ => hs⟩
    rw [hstands, ← configOkD_eq_self_iff, ht]
    exact ⟨h.withData _, fun _ _ => Guarded.config_eq_self_iff⟩
  · have hs : f.Stands s t := Form.stands_of_ne (.inl (by simp [hp])) (.inr ht) (.inr ht)
    have hbox (i : Fin 6) : Quiet s { s with conD := (s.conD.checkbox s.userLogin i).paint } :=
      ⟨h.congr rfl rfl rfl rfl rfl, fun _ _ => rfl⟩
    exact (quiet_cbSystemCon h hw (by decide) hbox ht).guards hs

/-- **The configuration page of two busbars.** -/
theorem guards_cbSystemConS (h : s.Safe) (hw : s.windowCallKeypad ≠ 0)
    (hp : f.page = .systemConS) : Guards s (s.cbSystemConS n f t) (f.Stands s t) := by
  by_cases ht : t = .button 0
  · have hstands : f.Stands s t ↔ ConfigStands f.config s.conS s.data.optimset := by
      constructor
      · intro hs
        exact hs.configS hp ht
      · intro hs
        exact ⟨fun hd => absurd (hp.symm.trans hd) (by decide), fun _ _ => hs,
          fun hd => absurd (hp.symm.trans hd) (by decide)⟩
    rw [hstands, ← configOkS_eq_self_iff, ht]
    exact ⟨h.withData _, fun _ _ => Guarded.config_eq_self_iff⟩
  · have hs : f.Stands s t := Form.stands_of_ne (.inl (by simp [hp])) (.inr ht) (.inr ht)
    have hbox (i : Fin 6) : Quiet s { s with conS := (s.conS.checkbox s.userLogin i).paint } :=
      ⟨h.congr rfl rfl rfl rfl rfl, fun _ _ => rfl⟩
    exact (quiet_cbSystemCon h hw (by decide) hbox ht).guards hs

/-- The device page is quiet but for `Set`. -/
theorem quiet_cbDeviceInform (h : s.Safe) (hw : s.windowCallKeypad ≠ 0) (ht : t ≠ .button 2) :
    Quiet s (s.cbDeviceInform n f t) := by
  unfold cbDeviceInform
  split
  · split
    · exact h.quiet
    · split
      · exact h.quiet_callEdit
      · exact h.quiet_keypad hw
  · exact h.quiet_gotoHelp (.inr hw)
  · exact h.quiet_gotoSystemCon hw
  · exact absurd rfl ht
  · exact h.quiet

/-- **The device page.** -/
theorem guards_cbDeviceInform (h : s.Safe) (hw : s.windowCallKeypad ≠ 0)
    (hp : f.page = .deviceInform) : Guards s (s.cbDeviceInform n f t) (f.Stands s t) := by
  by_cases ht : t = .button 2
  · have hstands : f.Stands s t ↔ f.device.Stands s.data.station := by
      constructor
      · intro hs
        exact hs.set hp ht
      · intro hs
        exact ⟨fun _ _ => hs, fun hd => absurd (hp.symm.trans hd) (by decide),
          fun hd => absurd (hp.symm.trans hd) (by decide)⟩
    rw [hstands, ht]
    exact ⟨h.withData _, fun _ _ => Guarded.deviceSet_eq_self_iff⟩
  · have hs : f.Stands s t :=
      Form.stands_of_ne (.inr ht) (.inl (by simp [hp])) (.inl (by simp [hp]))
    exact (quiet_cbDeviceInform h hw ht).guards hs

theorem managerCall_kept : s.managerCall.userLogin = s.userLogin ∧
    s.managerCall.windowCallKeypad = s.windowCallKeypad := by
  unfold managerCall
  split <;> exact ⟨rfl, rfl⟩

theorem factoryCall_kept : s.factoryCall.userLogin = s.userLogin ∧
    s.factoryCall.windowCallKeypad = s.windowCallKeypad := by
  unfold factoryCall
  split
  · exact ⟨userLogin_gotoSystemCon, windowCall_gotoSystemCon⟩
  all_goals exact ⟨rfl, rfl⟩

theorem keypadLogin_ne_zero {usr : UInt16} {role : Nat} {text : List Char} {login : UInt8}
    (h : keypadLogin usr role text = some login) : login ≠ 0 := by
  unfold keypadLogin at h
  dsimp only at h
  split at h
  · cases h
    decide
  · split at h
    · cases h
      decide
    · cases h

/-- `OK` logs in, or writes nothing. -/
theorem quiet_keypadOk (h : s.Safe) (hw : s.windowCallKeypad ≠ 0) : Quiet s (s.keypadOk f) := by
  unfold keypadOk
  split
  · exact ⟨h.congr rfl rfl rfl rfl rfl, fun _ _ => rfl⟩
  · rename_i login hlogin
    have hl := keypadLogin_ne_zero hlogin
    dsimp only
    split
    · obtain ⟨hsame, hcall⟩ := managerCall_kept (s := { s with userLogin := login })
      have hw' : { s with userLogin := login }.managerCall.windowCallKeypad ≠ 0 := by
        rw [hcall]
        exact hw
      have hcalled : { s with userLogin := login }.managerCall.Called := by
        refine .of_ne ?_ hw'
        rw [hcall]
        exact h.bound
      refine (hcalled.safe_gotoSystemCon hw').quiet_of_login (.inr ?_)
      rw [userLogin_gotoSystemCon, hsame]
      exact hl
    · obtain ⟨hsame, hcall⟩ := factoryCall_kept (s := { s with userLogin := login })
      have hcalled : { s with userLogin := login }.factoryCall.Called := by
        refine .of_ne ?_ ?_ <;> rw [hcall]
        · exact h.bound
        · exact hw
      have hl' : { s with userLogin := login }.factoryCall.userLogin ≠ 0 := by
        rw [hsame]
        exact hl
      exact (hcalled.safe_of_login hl').quiet_of_login (.inr hl')

/-- `Cancel` takes the login away below a full page. -/
theorem quiet_keypadCancel (h : s.Safe) (hw : s.windowCallKeypad ≠ 0) :
    Quiet s s.keypadCancel := by
  have hgoto {q : Page} (hf : q.full = true) :
      Quiet s { s.goto .keypad q with userLogin := 0 } := by
    -- the page is there before the login goes
    have hsafe := ((h.toCalled.delete (p := .keypad)).create (q := q) (.inr hw))
    have hcalled : { s.goto .keypad q with userLogin := 0 }.Called := .of_ne hsafe.bound hw
    refine ⟨⟨hcalled, fun _ p hp => ?_⟩, fun _ _ => rfl⟩
    have hshown : (s.goto .keypad q).visible = q :: if q.full then [] else _ := visible_create
    rw [if_pos hf] at hshown
    have hin : p ∈ (s.goto .keypad q).visible := hp
    rw [hshown] at hin
    rw [List.mem_singleton.1 hin]
    exact Page.writes_of_full hf
  unfold keypadCancel
  split
  · exact hgoto rfl
  · exact hgoto rfl
  · exact hgoto rfl
  · exact hgoto rfl
  · exact hgoto rfl
  · exact hgoto rfl
  · exact hgoto rfl
  · unfold gotoSystemCon
    split
    · exact hgoto rfl
    · exact hgoto rfl
  · -- there is no other call
    have hb := h.bound
    exfalso
    grind

theorem quiet_cbKeypad (h : s.Safe) (hw : s.windowCallKeypad ≠ 0) : Quiet s (s.cbKeypad f t) := by
  unfold cbKeypad
  split
  · exact quiet_keypadOk h hw
  · exact quiet_keypadCancel h hw
  · exact h.quiet

/-- The number pad hides no page. -/
theorem Safe.delete_numberpad (h : s.Safe) : (s.delete .numberpad).Safe where
  toCalled := h.toCalled.delete
  visible h0 p hp := by
    have hpad (q : Page) (hq : q.slot = Page.numberpad.slot) : q.full = false := by
      cases q <;> first | rfl | exact absurd hq (by decide)
    obtain ⟨f, hf, rfl⟩ := List.mem_map.1 hp
    have hshown : f ∈ s.shown := mem_shown_of_mem_delete (fun g hg => hpad g.page hg) hf
    exact h.visible h0 _ (List.mem_map_of_mem hshown)

theorem quiet_cbNumberpad (h : s.Safe) : Quiet s (s.cbNumberpad t) := by
  have hzero : { s with keyboardCall := 0 }.Safe := h.congr rfl rfl rfl rfl rfl
  unfold cbNumberpad
  split
  · exact ⟨hzero.delete_numberpad, fun _ _ => rfl⟩
  · exact ⟨hzero.delete_numberpad, fun _ _ => rfl⟩
  · exact h.quiet

/-- The two dialogs that write, with a login. -/
theorem quiet_cbEnergy (h : s.Safe) (hw : s.windowCallKeypad ≠ 0) (hl : s.userLogin ≠ 0) :
    Quiet s (s.cbEnergy t) := by
  unfold cbEnergy
  split
  · have hsafe := (h.withData (s.data.acqEnergyClear.gPTEBaseTime)).toCalled
    exact (hsafe.safe_gotoSystemCon hw).quiet_of_login (.inl hl)
  · exact h.quiet_gotoSystemCon hw
  · exact h.quiet

theorem quiet_cbChangePassword (h : s.Safe) (hw : s.windowCallKeypad ≠ 0)
    (hl : s.userLogin ≠ 0) : Quiet s (s.cbChangePassword f t) := by
  unfold cbChangePassword
  split
  · have hsafe := (h.withData (s.data.changePassword f.change)).toCalled
    exact (hsafe.safe_gotoSystemCon hw).quiet_of_login (.inl hl)
  · exact h.quiet_gotoSystemCon hw
  · exact h.quiet

theorem quiet_leaveSystemCon (h : s.Called) :
    s.leaveSystemCon.Safe ∧ s.leaveSystemCon.data = s.data := by
  unfold leaveSystemCon
  dsimp only
  split
  · exact ⟨h.delete.safe_goto (.inl rfl) rfl, rfl⟩
  · exact ⟨h.delete.safe_goto (.inl rfl) rfl, rfl⟩

/-- Logging out covers what is shown with the home page. -/
theorem quiet_cbUserloginClear (h : s.Safe) (hw : s.windowCallKeypad ≠ 0) :
    Quiet s (s.cbUserloginClear t) := by
  unfold cbUserloginClear
  split
  · have hcalled : { s with userLogin := 0 }.Called := .of_ne h.bound hw
    obtain ⟨hsafe, hdata⟩ := quiet_leaveSystemCon hcalled
    exact ⟨hsafe, fun _ _ => hdata⟩
  · obtain ⟨hsafe, hdata⟩ := quiet_leaveSystemCon h.toCalled
    exact ⟨hsafe, fun _ _ => hdata⟩
  · exact h.quiet

theorem safe_powerOn (m : Mem) (rtc : Rtc) : (powerOn m rtc).Safe where
  bound := Nat.zero_le 8
  login _ := rfl
  help _ := Nat.succ_pos 0x10
  pages _ p hp := by
    rw [List.mem_singleton.1 hp]
    rfl
  visible _ p hp := by
    rw [List.mem_singleton.1 hp]
    rfl

theorem quiet_cbHelp (h : s.Safe) : Quiet s (s.cbHelp t) := by
  have hcalled (hk : 0x11 ≤ s.windowHelpCall) : s.windowCallKeypad ≠ 0 := by
    intro hw
    have hlt := h.help hw
    omega
  unfold cbHelp
  split
  · split
    · exact h.quiet_goto (.inl rfl) rfl
    · exact h.quiet_goto (.inl rfl) rfl
    · exact h.quiet_goto (.inl rfl) rfl
    · exact h.quiet_goto (.inl rfl) rfl
    · exact h.quiet_goto (.inl rfl) rfl
    · exact h.quiet_goto (.inl rfl) rfl
    · exact h.quiet_goto (.inr (hcalled (by omega))) rfl
    · exact h.quiet_goto (.inr (hcalled (by omega))) rfl
    · exact h.quiet_goto (.inr (hcalled (by omega))) rfl
    · exact h.quiet
  · split
    · rename_i hl
      refine (safe_powerOn _ _).quiet_of_login (.inl ?_)
      rw [hl]
      decide
    · exact h.quiet
  · exact h.quiet

end handlers

/-! ## Every run -/

/-- A confirmation finds the widgets standing for what is stored. -/
def Stands (s : Console) (e : ScreenEvent) : Prop :=
  match e with
  | .touch t => ∀ f ∈ s.shown[t.window]?, f.Stands s t.touch
  | _ => True

instance (s : Console) (e : ScreenEvent) : Decidable (s.Stands e) :=
  match e with
  | .touch t => inferInstanceAs (Decidable (∀ f ∈ s.shown[t.window]?, f.Stands s t.touch))
  | .keys .. => isTrue trivial
  | .item .. => isTrue trivial

section run

variable {s : Console} {e : ScreenEvent}

theorem Safe.called_of_visible (h : s.Safe) {p : Page} (hp : p ∈ s.visible)
    (hearly : p.early = false) : s.windowCallKeypad ≠ 0 := by
  intro hw
  rw [h.pages hw p (mem_pages_of_mem_visible hp)] at hearly
  cases hearly

theorem Safe.login_of_visible (h : s.Safe) {p : Page} (hp : p ∈ s.visible)
    (hwrites : p.writes = true) : s.userLogin ≠ 0 := by
  intro h0
  rw [h.visible h0 p hp] at hwrites
  cases hwrites

/-- The handlers of the pages that confirm nothing without a login. -/
theorem quiet_handle (h : s.Safe) {t : ScreenTouch} {f : Form} (hf : f.page ∈ s.visible)
    (hset : f.page ≠ .deviceInform) (hconS : f.page ≠ .systemConS)
    (hconD : f.page ≠ .systemConD) : Quiet s (s.handle t f) := by
  unfold handle
  cases hp : f.page with
  | home => exact quiet_cbHome h
  | busData1 => exact quiet_cbBusData1 h
  | busData2 => exact quiet_cbBusData2 h
  | nowAlarm => exact quiet_cbNowAlarm h
  | historyAlarm => exact quiet_cbHistoryAlarm h
  | historyEnergy1 => exact quiet_cbHistoryEnergy1 h
  | historyEnergy2 => exact quiet_cbHistoryEnergy2 h
  | numberpad => exact quiet_cbNumberpad h
  | help => exact quiet_cbHelp h
  | systemConS => exact absurd hp hconS
  | systemConD => exact absurd hp hconD
  | deviceInform => exact absurd hp hset
  | keypad => exact quiet_cbKeypad h (h.called_of_visible (hp ▸ hf) rfl)
  | userloginClear => exact quiet_cbUserloginClear h (h.called_of_visible (hp ▸ hf) rfl)
  | energyClear =>
    exact quiet_cbEnergy h (h.called_of_visible (hp ▸ hf) rfl) (h.login_of_visible (hp ▸ hf) rfl)
  | changePassword =>
    exact quiet_cbChangePassword h (h.called_of_visible (hp ▸ hf) rfl)
      (h.login_of_visible (hp ▸ hf) rfl)

/-- **A touch** of a window that can be reached. -/
theorem guards_handle (h : s.Safe) {t : ScreenTouch} {f : Form} (hf : f.page ∈ s.visible) :
    Guards s (s.handle t f) (f.Stands s t.touch) := by
  by_cases hset : f.page = .deviceInform
  · have hhandle : s.handle t f = s.cbDeviceInform t.window f t.touch := by
      rw [handle, hset]
    rw [hhandle]
    exact guards_cbDeviceInform h (h.called_of_visible (hset ▸ hf) rfl) hset
  by_cases hconS : f.page = .systemConS
  · have hhandle : s.handle t f = s.cbSystemConS t.window f t.touch := by
      rw [handle, hconS]
    rw [hhandle]
    exact guards_cbSystemConS h (h.called_of_visible (hconS ▸ hf) rfl) hconS
  by_cases hconD : f.page = .systemConD
  · have hhandle : s.handle t f = s.cbSystemConD t.window f t.touch := by
      rw [handle, hconD]
    rw [hhandle]
    exact guards_cbSystemConD h (h.called_of_visible (hconD ▸ hf) rfl) hconD
  exact (quiet_handle h hf hset hconS hconD).guards
    (Form.stands_of_ne (.inl hset) (.inl hconS) (.inl hconD))

/-- A change in a window touches nothing that is guarded. -/
theorem Safe.quiet_update (h : s.Safe) {n : Nat} {g : Form → Form}
    (hg : ∀ f, (g f).page = f.page) : Quiet s (s.update n g) :=
  ⟨h.update hg, fun _ _ => rfl⟩

/-- **One event.** -/
theorem guards_step (h : s.Safe) : Guards s (s.step e) (s.Stands e) := by
  cases e with
  | touch t =>
    unfold step
    dsimp only
    cases hf : s.shown[t.window]? with
    | none =>
      refine h.quiet.guards fun f hin => ?_
      rw [hf] at hin
      cases hin
    | some f =>
      have hin : f.page ∈ s.visible := List.mem_map_of_mem (List.mem_of_getElem? hf)
      have hstands : s.Stands (.touch t) ↔ f.Stands s t.touch := by
        change (∀ g ∈ s.shown[t.window]?, g.Stands s t.touch) ↔ _
        simp only [hf, Option.mem_some_iff, forall_eq']
      rw [hstands]
      exact guards_handle h hin
  | keys window edit text =>
    refine Quiet.guards ?_ trivial
    unfold step
    dsimp only
    split
    · refine h.quiet_update fun f => ?_
      split
      · exact Form.page_setText
      · rfl
    · exact h.quiet
  | item window item =>
    refine Quiet.guards ?_ trivial
    unfold step
    dsimp only
    split
    · exact h.quiet_update fun f => Form.page_select
    · exact h.quiet

theorem safe_run (h : s.Safe) (es : List ScreenEvent) : (run step s es).Safe := by
  induction es generalizing s with
  | nil => exact h
  | cons e es ih => exact ih (guards_step h).safe

/-- **Without a login** nothing that is guarded changes, as long as each
confirmation finds the widgets standing for what is stored, and only then.
From power-up anything the user does leads to a state without a login; from
there `User_login` stays 0. -/
theorem guarded_run (m : Mem) (rtc : Rtc) (es fs : List ScreenEvent)
    (h0 : (run step (powerOn m rtc) es).userLogin = 0)
    (hfs : Meets step (fun s e => (s.step e).userLogin = 0) (run step (powerOn m rtc) es) fs) :
    Meets step (fun s e => (s.step e).data = s.data) (run step (powerOn m rtc) es) fs ↔
      Meets step Stands (run step (powerOn m rtc) es) fs := by
  have hsafe : (run step (powerOn m rtc) es).Safe := safe_run (safe_powerOn m rtc) es
  generalize run step (powerOn m rtc) es = start at h0 hfs hsafe ⊢
  have hboth : Meets step (fun s e => (s.step e).userLogin = 0 ∧ (s.step e).data = s.data) start fs ↔
      Meets step (fun s e => (s.step e).userLogin = 0 ∧ s.Stands e) start fs := by
    refine meets_congr (I := fun s => s.Safe ∧ s.userLogin = 0) fs ⟨hsafe, h0⟩ ?_ ?_
    · rintro s e ⟨hs, -⟩ ⟨hl, -⟩
      exact ⟨(guards_step hs).safe, hl⟩
    · rintro s e ⟨hs, hl⟩
      exact and_congr_right fun hl' => (guards_step hs).data hl hl'
  rw [meets_and, meets_and] at hboth
  constructor
  · intro hdata
    exact (hboth.1 ⟨hfs, hdata⟩).2
  · intro hstands
    exact (hboth.2 ⟨hfs, hstands⟩).2

/-- A touch, with no list to turn over. -/
def touch (window : Nat) (t : Touch) : ScreenEvent := .touch ⟨window, t, 0, 0⟩

/-- From the home page over the keypad's `Cancel` to the configuration and
the device page, on a new device: `Config_ok` and `Set` store what they
find. -/
theorem guarded_run_neutral :
    Meets step (fun s e => (s.step e).data = s.data) (powerOn (fun _ => 0) default)
      [touch 0 (.button 6), touch 0 (.button 10), touch 0 (.button 0), touch 0 (.button 1),
        touch 0 (.button 2)] := by
  refine (guarded_run (fun _ => 0) default [] _ rfl ?_).2 ?_
  · decide +kernel
  · decide +kernel

/-- Nobody has logged in. The same way to the device page, where another
rate is chosen: `Set` stores it. And after the factory has given bus B the
ratio 100, chosen the single mode and logged out, the same way to the
single page: `Config_ok` makes it the rated current of bus A. -/
theorem not_guarded :
    let start := powerOn (fun _ => 0) default
    let rate := [touch 0 (.button 6), touch 0 (.button 10), touch 0 (.button 1), .item 0 0,
      touch 0 (.button 2)]
    let factory := [touch 0 (.button 6), .item 0 1, touch 0 (.button 14), touch 0 (.edit 5),
      .keys 1 5 ['1', '0', '0'], touch 0 (.button 14), touch 0 (.checkbox 2), touch 0 (.button 0),
      touch 0 (.button 2), touch 0 (.button 0)]
    let single := run step start factory
    let ratio := [touch 0 (.button 6), touch 0 (.button 10), touch 0 (.button 0)]
    (Meets step (fun s e => (s.step e).userLogin = 0) start rate ∧
      (run step start rate).data.optimset.usComBaud ≠ start.data.optimset.usComBaud) ∧
    single.userLogin = 0 ∧ Meets step (fun s e => (s.step e).userLogin = 0) single ratio ∧
      (run step single ratio).data.optimset.usCTR ≠ single.data.optimset.usCTR := by
  refine ⟨⟨?_, ?_⟩, ?_, ?_, ?_⟩
  all_goals decide +kernel

end run

end Console

end BusMonitor
