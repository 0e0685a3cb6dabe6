import BusMonitor.ETH.Receive
/-!
# Frames for the stack

Whatever arrives and whatever the DMA does between any two looks of the
program, `low_level_input` hands on the frames that the DMA has taken whole,
once and in order, and no descriptor is lost to the DMA.
-/


namespace BusMonitor

open Ring Segment

namespace EthRx

/-- A frame with something in it besides its CRC, that the descriptors have
room for. -/
def Legal (f : List UInt8) : Prop := 4 < f.length ∧ f.length ≤ ethRxBufNb * ethRxBufSize

instance (f : List UInt8) : Decidable (Legal f) := inferInstanceAs (Decidable (_ ∧ _))

/-- Only such frames arrive. -/
def LegalSched (sched : Nat → List RxEvent) : Prop := ∀ m f, .arrive f ∈ sched m → Legal f

theorem Quiet.legal {sched : Nat → List RxEvent} (hquiet : Quiet sched) : LegalSched sched :=
  fun m _ hf => RxEvent.noConfusion ((hquiet m).2 _ hf)

variable {s : EthRx} {h : Nat} {q : List RxDesc} {due : List RxPart}
  {sched : Nat → List RxEvent} {frames fs got : List (List UInt8)} {f : List UInt8}

/-! ## Frames in the ring -/

theorem length_rxParts (f : List UInt8) : (rxParts f).length = count ethRxBufSize f.length := by
  rw [rxParts, List.length_map, length_cut]

theorem Legal.count_le (hf : Legal f) : count ethRxBufSize f.length ≤ ethRxBufNb :=
  (Segment.count_le (by decide) (by decide)).2 hf.2

/-- A descriptor that the program has. -/
theorem Holds.desc (hs : s.Holds h q due) {i : Nat} (hi : i < q.length) :
    (s.dscrTab (place ethRxBufNb h i)).own = false ∧
      q[i]? = some (s.dscrTab (place ethRxBufNb h i)) := by
  have hget := hs.shows.get_place i (Nat.lt_of_lt_of_le hi hs.shows.length_le)
  rw [held, Function.comp_apply, RxDesc.held, List.getElem?_eq_getElem hi] at hget
  split at hget
  · exact absurd hget.symm (Option.some_ne_none _)
  next hown =>
    rw [List.getElem?_eq_getElem hi]
    exact ⟨Bool.eq_false_of_not_eq_true hown, hget.symm⟩

/-- And one that it has not. -/
theorem Holds.own (hs : s.Holds h q due) {i : Nat} (hi : q.length ≤ i) (hlt : i < ethRxBufNb) :
    (s.dscrTab (place ethRxBufNb h i)).own = true := by
  have hget := hs.shows.get_place i hlt
  rw [held, Function.comp_apply, RxDesc.held, List.getElem?_eq_none hi] at hget
  by_contra hc
  rw [if_neg hc] at hget
  exact absurd hget (Option.some_ne_none _)

/-- What the descriptors of the first frame carry. -/
theorem Holds.part (hs : s.Holds h q (rxParts f ++ due)) {i : Nat} (hi : i < q.length)
    (hf : i < count ethRxBufSize f.length) :
    (s.dscrTab (place ethRxBufNb h i)).Carries (nth ethRxBufSize f i, f.length) := by
  obtain ⟨xs, hxs, hdue⟩ := hs.carries
  have hlen := hxs.length_eq
  obtain ⟨-, hdesc⟩ := hs.desc hi
  have hx : xs[i]? = some (nth ethRxBufSize f i, f.length) := by
    have hall : (xs ++ s.pending)[i]? = (rxParts f ++ due)[i]? := by rw [hdue]
    rw [List.getElem?_append_left (by omega),
      List.getElem?_append_left (by rw [length_rxParts]; exact hf), rxParts, List.getElem?_map,
      getElem?_cut hf] at hall
    exact hall
  obtain ⟨hq, heq⟩ := List.getElem?_eq_some_iff.1 hdesc
  obtain ⟨hxlt, hxeq⟩ := List.getElem?_eq_some_iff.1 hx
  have hcarry := hxs.get hq hxlt
  rw [List.get_eq_getElem, List.get_eq_getElem, heq, hxeq] at hcarry
  exact hcarry

/-- The buffers. -/
def buffers (s : EthRx) (i : Nat) : Mem := (s.dscrTab i).buffer1

/-- One behind the other, from the first descriptor on. -/
def bytes (s : EthRx) (h : Nat) : Mem := flat ethRxBufSize ethRxBufNb h s.buffers

/-- **A frame** that is there as a whole can be read. -/
theorem Holds.read (hs : s.Holds h q (rxParts f ++ due))
    (hq : count ethRxBufSize f.length ≤ q.length) : (s.bytes h).read 0 f.length = f := by
  refine List.ext_getElem? fun x => ?_
  rcases Nat.lt_or_ge x f.length with hx | hx
  · have hi := div_lt_count (c := ethRxBufSize) hx
    have hdata := (hs.part (Nat.lt_of_lt_of_le hi hq) hi).data
    have hbyte := getElem?_data (c := ethRxBufSize) (by decide) f x
    rw [← hdata, List.getElem?_eq_getElem hx, List.getElem?_eq_some_iff] at hbyte
    obtain ⟨hlt, hbyte⟩ := hbyte
    rw [List.getElem?_eq_getElem (by simpa using hx), List.getElem?_eq_getElem hx, ← hbyte]
    simp [Mem.read, bytes, buffers, flat]
  · rw [List.getElem?_eq_none (by simpa using hx), List.getElem?_eq_none hx]

/-! ## Between calls -/

/-- The frames `got` were found, the first descriptors of the next one may
have been looked at, and `frames` are on their way. -/
structure Sound (s : EthRx) (h : Nat) (q : List RxDesc) (frames got : List (List UInt8)) :
    Prop where
  holds : s.Holds h q (frames.flatMap rxParts)
  rxDesc : s.rxDesc = place ethRxBufNb h s.segCount
  seen : s.segCount ≤ q.length
  first : 0 < s.segCount → s.fsRxDesc = h ∧
    ∃ f fs, frames = f :: fs ∧ s.segCount < count ethRxBufSize f.length
  legal : ∀ f ∈ frames, Legal f
  arrived : s.arrived = got ++ frames
  told : s.Told
  full : s.Full q

theorem sound_init (buffers : Nat → Mem) :
    (halETHDMARxDescListInit buffers).Sound 0 [] [] [] where
  holds := holds_init buffers
  rxDesc := rfl
  seen := le_rfl
  first hc := absurd hc (lt_irrefl 0)
  legal _ hf := absurd hf List.not_mem_nil
  arrived := rfl
  told hc := absurd hc Bool.false_ne_true
  full hc := absurd hc Bool.false_ne_true

/-- Less of a frame was looked at than there is. -/
theorem Sound.seen_lt (hs : s.Sound h q (f :: fs) got) :
    s.segCount < count ethRxBufSize f.length := by
  rcases Nat.eq_zero_or_pos s.segCount with hzero | hpos
  · rw [hzero]
    exact count_pos _ _
  · obtain ⟨-, f', fs', heq, hlt⟩ := hs.first hpos
    rw [(List.cons.inj heq).1]
    exact hlt

/-- Less than all descriptors were looked at. -/
theorem Sound.seen_lt_nb (hs : s.Sound h q frames got) : s.segCount < ethRxBufNb := by
  rcases Nat.eq_zero_or_pos s.segCount with hzero | hpos
  · rw [hzero]
    decide
  · obtain ⟨-, f, fs, rfl, hlt⟩ := hs.first hpos
    exact Nat.lt_of_lt_of_le hlt (hs.legal f List.mem_cons_self).count_le

/-- A look between the descriptors of a frame. -/
theorem Sound.later {s' : EthRx} {q' : List RxDesc} {new : List (List UInt8)}
    (hs : s.Sound h q frames got) (hl : Later s' q' s h q (frames.flatMap rxParts) new)
    (hnew : ∀ f ∈ new, Legal f) : s'.Sound h q' (frames ++ new) got := by
  obtain ⟨hrx, hfsrx, hseg, -⟩ := hl.same
  refine ⟨?_, ?_, ?_, fun hpos => ?_, fun f hf => ?_, ?_, hl.told hs.told, hl.full hs.full⟩
  · rw [List.flatMap_append]
    exact hl.holds
  · rw [hrx, hseg]
    exact hs.rxDesc
  · rw [hseg]
    exact hs.seen.trans hl.isPrefix.length_le
  · rw [hseg] at hpos ⊢
    obtain ⟨hfs, f, fs, rfl, hlt⟩ := hs.first hpos
    exact ⟨hfsrx.trans hfs, f, fs ++ new, rfl, hlt⟩
  · exact (List.mem_append.1 hf).elim (hs.legal f) (hnew f)
  · rw [hl.arrived, hs.arrived, List.append_assoc]

/-- **A look.** At a quiet time the first frame is there after it. -/
theorem Sound.look (hs : s.Sound h q frames got) (hsched : LegalSched sched) :
    ∃ q' new, (s.look sched).Sound h q' (frames ++ new) got ∧ Same (s.look sched) s ∧
      (Quiet sched → new = [] ∧ ∀ f fs, frames = f :: fs →
        count ethRxBufSize f.length ≤ q'.length) := by
  by_cases hquiet : Quiet sched
  · obtain ⟨q', hl, hmin⟩ := hs.holds.look_quiet hs.full hquiet
    refine ⟨q', [], hs.later hl fun f hf => absurd hf List.not_mem_nil, hl.same, fun _ =>
      ⟨rfl, ?_⟩⟩
    rintro f fs rfl
    have hle := (hs.legal f List.mem_cons_self).count_le
    rw [List.flatMap_cons, List.length_append, length_rxParts] at hmin
    omega
  · obtain ⟨q', new, hl, hnew⟩ := hs.holds.look sched
    exact ⟨q', new, hs.later hl fun f hf => hsched _ f (hnew f hf), hl.same,
      fun hc => absurd hc hquiet⟩

/-! ## Looking for a frame -/

/-- The frame `f` was found. -/
structure Found (s : EthRx) (h : Nat) (q : List RxDesc) (f : List UInt8)
    (fs got : List (List UInt8)) : Prop where
  holds : s.Holds h q (rxParts f ++ fs.flatMap rxParts)
  whole : count ethRxBufSize f.length ≤ q.length
  rxDesc : s.rxDesc = place ethRxBufNb h (count ethRxBufSize f.length)
  fsRxDesc : s.fsRxDesc = h
  segCount : s.segCount = count ethRxBufSize f.length
  length : s.length = UInt32.ofNat f.length - 4
  legal : ∀ g ∈ f :: fs, Legal g
  arrived : s.arrived = got ++ f :: fs
  told : s.Told

/-- The descriptor that is looked at, when the program has it. -/
theorem Sound.carries (hs : s.Sound h q frames got)
    (hown : (s.dscrTab s.rxDesc).own = false) :
    ∃ f fs, frames = f :: fs ∧ s.segCount < count ethRxBufSize f.length ∧
      s.segCount < q.length ∧ (s.dscrTab s.rxDesc).Carries
        (nth ethRxBufSize f s.segCount, f.length) := by
  have hlt : s.segCount < q.length := by
    by_contra hc
    have htrue := hs.holds.own (Nat.le_of_not_lt hc) hs.seen_lt_nb
    rw [← hs.rxDesc] at htrue
    exact absurd (htrue.symm.trans hown) (by decide)
  obtain ⟨f, fs, rfl⟩ : ∃ f fs, frames = f :: fs := by
    cases frames with
    | cons f fs => exact ⟨f, fs, rfl⟩
    | nil =>
      obtain ⟨xs, hxs, hdue⟩ := hs.holds.carries
      rw [List.flatMap_nil, List.append_eq_nil_iff] at hdue
      rw [hxs.length_eq, hdue.1] at hlt
      exact absurd hlt (Nat.not_lt_zero _)
  refine ⟨f, fs, rfl, hs.seen_lt, hlt, ?_⟩
  rw [hs.rxDesc]
  exact Holds.part hs.holds hlt hs.seen_lt

/-- A descriptor that is not the last one of the frame: on to the next. -/
theorem Sound.advance (hs : s.Sound h q (f :: fs) got) (hq : s.segCount < q.length)
    (hmore : s.segCount + 1 < count ethRxBufSize f.length) {first : Nat}
    (hfirst : first = if s.segCount = 0 then s.rxDesc else s.fsRxDesc) :
    Sound { s with
      fsRxDesc := first
      segCount := s.segCount + 1
      rxDesc := place ethRxBufNb h (s.segCount + 1) } h q (f :: fs) got := by
  obtain ⟨⟨hshows, hnext, hcur, hcarries⟩, hrx, -, hf, hlegal, harr, htold, hfull⟩ := hs
  refine ⟨⟨hshows, hnext, hcur, hcarries⟩, rfl, hq, fun _ => ⟨?_, f, fs, rfl, hmore⟩, hlegal, harr,
    htold, hfull⟩
  rw [hfirst]
  split
  next hzero => rw [hrx, hzero, place_zero hshows.head_lt]
  next hpos => exact (hf (Nat.pos_of_ne_zero hpos)).1

/-- And the last one. -/
theorem Sound.found (hs : s.Sound h q (f :: fs) got) (hq : s.segCount < q.length)
    (hlast : s.segCount + 1 = count ethRxBufSize f.length) :
    Found { s with
      segCount := s.segCount + 1
      fsRxDesc := if s.segCount + 1 = 1 then s.rxDesc else s.fsRxDesc
      length := UInt32.ofNat f.length - 4
      rxDesc := place ethRxBufNb h (s.segCount + 1) } h q f fs got := by
  obtain ⟨⟨hshows, hnext, hcur, hcarries⟩, hrx, -, hf, hlegal, harr, htold, -⟩ := hs
  refine ⟨⟨hshows, hnext, hcur, hcarries⟩, hlast ▸ hq, ?_, ?_, hlast, rfl, hlegal, harr, htold⟩
  · rw [hlast]
  · dsimp only
    split
    next hone =>
      have hzero : s.segCount = 0 := Nat.succ.inj hone
      rw [hrx, hzero, place_zero hshows.head_lt]
    next hmore => exact (hf (by omega)).1

section pass

variable {f : List UInt8}

/-- **A pass** over a descriptor of a frame that is not the last one. Both
ways on go to the next descriptor. -/
theorem scan_more (n : Nat) (hown : ((s.look sched).dscrTab (s.look sched).rxDesc).own = false)
    (hcarries : ((s.look sched).dscrTab (s.look sched).rxDesc).Carries
      (nth ethRxBufSize f (s.look sched).segCount, f.length))
    (hmore : (s.look sched).segCount + 1 < count ethRxBufSize f.length) :
    EthRx.scan sched (n + 1) s = EthRx.scan sched n { s.look sched with
      fsRxDesc := if (s.look sched).segCount = 0 then (s.look sched).rxDesc
        else (s.look sched).fsRxDesc
      segCount := (s.look sched).segCount + 1
      rxDesc := ((s.look sched).dscrTab (s.look sched).rxDesc).buffer2NextDescAddr } := by
  have hls : ((s.look sched).dscrTab (s.look sched).rxDesc).ls = false :=
    hcarries.ls.trans (decide_eq_false hmore.ne)
  rw [EthRx.scan, hown, hls, if_neg Bool.false_ne_true]
  by_cases hzero : (s.look sched).segCount = 0
  · have hfs : ((s.look sched).dscrTab (s.look sched).rxDesc).fs = true :=
      hcarries.fs.trans (decide_eq_true hzero)
    rw [hfs, if_pos ⟨rfl, Bool.false_ne_true⟩, if_pos hzero, hzero]
  · have hfs : ((s.look sched).dscrTab (s.look sched).rxDesc).fs = false :=
      hcarries.fs.trans (decide_eq_false hzero)
    rw [hfs, if_neg fun hc => absurd hc.1 Bool.false_ne_true,
      if_pos ⟨Bool.false_ne_true, Bool.false_ne_true⟩, if_neg hzero]

/-- And over the last one. -/
theorem scan_last (n : Nat) (hown : ((s.look sched).dscrTab (s.look sched).rxDesc).own = false)
    (hcarries : ((s.look sched).dscrTab (s.look sched).rxDesc).Carries
      (nth ethRxBufSize f (s.look sched).segCount, f.length))
    (hlast : (s.look sched).segCount + 1 = count ethRxBufSize f.length) :
    EthRx.scan sched (n + 1) s = (true, { s.look sched with
      segCount := (s.look sched).segCount + 1
      fsRxDesc := if (s.look sched).segCount + 1 = 1 then (s.look sched).rxDesc
        else (s.look sched).fsRxDesc
      length := UInt32.ofNat f.length - 4
      rxDesc := ((s.look sched).dscrTab (s.look sched).rxDesc).buffer2NextDescAddr }) := by
  have hls : ((s.look sched).dscrTab (s.look sched).rxDesc).ls = true :=
    hcarries.ls.trans (decide_eq_true hlast)
  have hfl : ((s.look sched).dscrTab (s.look sched).rxDesc).fl = f.length := hcarries.fl
  rw [EthRx.scan, hown, hls, if_neg Bool.false_ne_true, if_neg fun hc => hc.2 rfl,
    if_neg fun hc => hc.1 rfl, hfl]

end pass

/-- **The search** finds the first frame when all of it is there, and goes
on at the next call where it has stopped at this one. -/
theorem Sound.scan (hs : s.Sound h q frames got) (hsched : LegalSched sched) (n : Nat) :
    ∃ q' new, (Quiet sched → new = []) ∧
      (((scan sched n s).1 = false ∧ (scan sched n s).2.Sound h q' (frames ++ new) got ∧
        (Quiet sched → ∀ f fs, frames = f :: fs →
          s.segCount + n < count ethRxBufSize f.length)) ∨
      ∃ f fs, (scan sched n s).1 = true ∧ frames ++ new = f :: fs ∧
        (scan sched n s).2.Found h q' f fs got) := by
  induction n generalizing s q frames with
  | zero =>
    obtain ⟨q', new, hs', -, hquiet⟩ := hs.look hsched
    refine ⟨q', new, fun hq => (hquiet hq).1, .inl ⟨rfl, hs', ?_⟩⟩
    rintro - f fs rfl
    exact hs.seen_lt
  | succ n ih =>
    obtain ⟨q₁, new₁, hs₁, hsame, hquiet₁⟩ := hs.look hsched
    have hnext : ((s.look sched).dscrTab (s.look sched).rxDesc).buffer2NextDescAddr =
        place ethRxBufNb h ((s.look sched).segCount + 1) := by
      rw [← place_place, ← hs₁.rxDesc]
      exact hs₁.holds.next _ (hs₁.rxDesc ▸ place_lt (by decide) _ _)
    rw [← hsame.segCount]
    cases hown : ((s.look sched).dscrTab (s.look sched).rxDesc).own with
    | true =>
      rw [EthRx.scan, if_pos hown]
      refine ⟨q₁, new₁, fun hq => (hquiet₁ hq).1, .inl ⟨rfl, hs₁, ?_⟩⟩
      rintro hq f fs rfl
      -- all of the frame is there, so that the program has the descriptor
      have hthere := (hquiet₁ hq).2 f fs rfl
      have hlt : (s.look sched).segCount < count ethRxBufSize f.length :=
        hsame.segCount ▸ hs.seen_lt
      have hfalse := (hs₁.holds.desc (Nat.lt_of_lt_of_le hlt hthere)).1
      rw [← hs₁.rxDesc] at hfalse
      exact absurd (hown.symm.trans hfalse) (by decide)
    | false =>
      obtain ⟨f, fs, hframes, hlt, hltq, hcarries⟩ := hs₁.carries hown
      rw [hframes] at hs₁
      by_cases hlast : (s.look sched).segCount + 1 = count ethRxBufSize f.length
      · rw [scan_last n hown hcarries hlast, hnext]
        exact ⟨q₁, new₁, fun hq => (hquiet₁ hq).1, .inr ⟨f, fs, rfl, hframes,
          hs₁.found hltq hlast⟩⟩
      · have hmore : (s.look sched).segCount + 1 < count ethRxBufSize f.length := by omega
        obtain ⟨q₂, new₂, hquiet₂, hend⟩ := ih (hs₁.advance hltq hmore rfl)
        refine ⟨q₂, new₁ ++ new₂, fun hq => ?_, ?_⟩
        · rw [(hquiet₁ hq).1, hquiet₂ hq]
          rfl
        · rw [scan_more n hown hcarries hmore, hnext, ← List.append_assoc, hframes]
          refine hend.imp_left fun ⟨hret, hs₂, hless⟩ => ⟨hret, hs₂, ?_⟩
          rintro hq f' fs' rfl
          rw [List.cons_append] at hframes
          obtain ⟨rfl, -⟩ := List.cons.inj hframes
          have hless := hless hq _ _ rfl
          dsimp only at hless
          omega

/-! ## Copying -/

/-- The frame is still there, and more may have arrived. -/
def Keeps (sched : Nat → List RxEvent) (s : EthRx) (h : Nat) (f : List UInt8)
    (fs got : List (List UInt8)) : Prop :=
  ∃ q new, s.Found h q f (fs ++ new) got ∧ (Quiet sched → new = [])

theorem Found.keeps (hf : s.Found h q f fs got) : Keeps sched s h f fs got :=
  ⟨q, [], (List.append_nil fs).symm ▸ hf, fun _ => rfl⟩

theorem Found.look (hf : s.Found h q f fs got) (hsched : LegalSched sched) :
    Keeps sched (s.look sched) h f fs got := by
  obtain ⟨q', new, hl, hnew⟩ := hf.holds.look sched
  obtain ⟨hrx, hfsrx, hseg, hlen⟩ := hl.same
  refine ⟨q', new, ⟨?_, hf.whole.trans hl.isPrefix.length_le, hrx.trans hf.rxDesc,
    hfsrx.trans hf.fsRxDesc, hseg.trans hf.segCount, hlen.trans hf.length, fun g hg => ?_, ?_,
    hl.told hf.told⟩, fun hquiet => ?_⟩
  · rw [List.flatMap_append, ← List.append_assoc]
    exact hl.holds
  · rw [← List.cons_append] at hg
    exact (List.mem_append.1 hg).elim (hf.legal g) fun hg => hsched _ g (hnew g hg)
  · rw [hl.arrived, hf.arrived, List.append_assoc]
    rfl
  · refine List.eq_nil_iff_forall_not_mem.2 fun g hg => ?_
    exact RxEvent.noConfusion ((hquiet _).2 _ (hnew g hg))

theorem Keeps.trans {s' : EthRx} (hk : Keeps sched s h f fs got)
    (hnext : ∀ q fs, s.Found h q f fs got → Keeps sched s' h f fs got) :
    Keeps sched s' h f fs got := by
  obtain ⟨q, new, hf, hquiet⟩ := hk
  obtain ⟨q', new', hf', hquiet'⟩ := hnext q _ hf
  refine ⟨q', new ++ new', (List.append_assoc fs new new').symm ▸ hf', fun hq => ?_⟩
  rw [hquiet hq, hquiet' hq]
  rfl

/-- A part of the frame in one buffer. -/
theorem Found.slice (hf : s.Found h q f fs got) {j o k : Nat} (hin : o + k ≤ ethRxBufSize)
    (hle : j * ethRxBufSize + o + k ≤ f.length) :
    (s.dscrTab (place ethRxBufNb h j)).buffer1.read o k =
      (f.drop (j * ethRxBufSize + o)).take k := by
  have hslice := Mem.take_drop_read (s.bytes h) 0 f.length (j * ethRxBufSize + o) k
  rw [hf.holds.read hf.whole, Nat.zero_add, Nat.min_eq_left (by omega)] at hslice
  have hflat : (s.bytes h).read (j * ethRxBufSize + o) k =
      (s.buffers (place ethRxBufNb h j)).read o k := flat_read hin
  exact hflat.symm.trans hslice.symm

/-- The place in the frame that is to be copied next. -/
structure At (c : Reading) (h pos : Nat) : Prop where
  desc : ∃ j, c.dmarxdesc = place ethRxBufNb h j ∧ pos = j * ethRxBufSize + c.bufferoffset
  offset_le : c.bufferoffset ≤ ethRxBufSize

/-- **One pbuf** gets the next bytes of the frame. -/
theorem Found.fillPbuf {s : EthRx} {q : List RxDesc} {fs : List (List UInt8)} {c : Reading}
    {pos : Nat} (hf : s.Found h q f fs got) (hsched : LegalSched sched) (n : Nat)
    (hc : At c h pos) (hle : pos + n ≤ f.length) :
    (s.fillPbuf sched n c).1 = (f.drop pos).take n ∧
      At (s.fillPbuf sched n c).2.1 h (pos + n) ∧
      Keeps sched (s.fillPbuf sched n c).2.2 h f fs got := by
  obtain ⟨⟨j, hdesc, hpos⟩, hoff⟩ := hc
  obtain ⟨q₁, new₁, hf₁, hquiet₁⟩ := hf.look hsched
  have hnext : ((s.look sched).dscrTab c.dmarxdesc).buffer2NextDescAddr =
      place ethRxBufNb h (j + 1) := by
    rw [← place_place, ← hdesc]
    exact hf₁.holds.next _ (hdesc ▸ place_lt (by decide) _ _)
  rw [EthRx.fillPbuf]
  dsimp only
  split
  next hmore =>
    have hmore' : 1524 < n + c.bufferoffset := hmore
    have hsize : ethRxBufSize = 1524 := rfl
    have hroom := hf₁.slice (j := j) (o := c.bufferoffset)
      (k := ethRxBufSize - c.bufferoffset) (by omega) (by omega)
    have hat₁ : At ⟨place ethRxBufNb h (j + 1), 0⟩ h (pos + (ethRxBufSize - c.bufferoffset)) := by
      refine ⟨⟨j + 1, rfl, ?_⟩, Nat.zero_le _⟩
      rw [hpos, Nat.succ_mul]
      dsimp only
      omega
    -- the rest of the pbuf, from the next buffer on
    obtain ⟨hread, hat, hk⟩ := Found.fillPbuf hf₁ hsched
      (n - (ethRxBufSize - c.bufferoffset)) hat₁ (by omega)
    rw [hnext]
    refine ⟨?_, ?_, ?_⟩
    · rw [hdesc, hroom, hread, ← hpos, ← List.drop_drop, ← List.take_add, Nat.add_sub_cancel']
      omega
    · rw [Nat.add_assoc, Nat.add_sub_cancel' (by omega)] at hat
      exact hat
    · obtain ⟨q', new, hf', hquiet⟩ := hk
      refine ⟨q', new₁ ++ new, (List.append_assoc fs new₁ new).symm ▸ hf', fun hq => ?_⟩
      rw [hquiet₁ hq, hquiet hq]
      rfl
  next hless =>
    have hless' : ¬ 1524 < n + c.bufferoffset := hless
    have hin : c.bufferoffset + n ≤ ethRxBufSize := by
      change _ ≤ 1524
      omega
    refine ⟨?_, ⟨⟨j, hdesc, ?_⟩, hin⟩, ⟨q₁, new₁, hf₁, hquiet₁⟩⟩
    · rw [hdesc, hpos]
      exact hf₁.slice hin (by omega)
    · dsimp only
      omega
termination_by n + c.bufferoffset

/-- **A chain of pbufs** gets the frame as far as it is long. -/
theorem Found.fillPbufs (hf : s.Found h q f fs got) (hsched : LegalSched sched)
    (lens : List Nat) {c : Reading} {pos : Nat} (hc : At c h pos)
    (hle : pos + lens.sum ≤ f.length) :
    (fillPbufs sched lens c s).1.flatten = (f.drop pos).take lens.sum ∧
      Keeps sched (fillPbufs sched lens c s).2 h f fs got := by
  induction lens generalizing s q fs c pos with
  | nil => exact ⟨by simp [EthRx.fillPbufs], hf.keeps⟩
  | cons n lens ih =>
    rw [List.sum_cons] at hle ⊢
    obtain ⟨hread, hat, hk⟩ := hf.fillPbuf hsched n hc (by omega)
    rw [EthRx.fillPbufs]
    refine ⟨?_, hk.trans fun q₁ fs₁ hf₁ => (ih hf₁ hat (by omega)).2⟩
    obtain ⟨q₁, new₁, hf₁, -⟩ := hk
    have hrest := (ih hf₁ hat (by omega)).1
    dsimp only
    rw [List.flatten_cons, hread, hrest, List.take_add, List.drop_drop]

/-! ## Giving back -/

/-- Descriptors are given back, and more may have arrived. -/
structure Returned (s' s : EthRx) (h' : Nat) (q' : List RxDesc) (due : List RxPart)
    (new : List (List UInt8)) : Prop where
  holds : s'.Holds h' q' (due ++ new.flatMap rxParts)
  rxDesc : s'.rxDesc = s.rxDesc
  arrived : s'.arrived = s.arrived ++ new
  legal : ∀ f ∈ new, Legal f

/-- The descriptor at the head is given to the DMA. -/
theorem Holds.giveBack {d : RxDesc} {x : RxPart} (hs : s.Holds h (d :: q) (x :: due)) :
    (s.setDesc h { s.dscrTab h with own := true }).Holds (place ethRxBufNb h 1) q due := by
  obtain ⟨hshows, hnext, hcur, xs, hxs, hdue⟩ := hs
  obtain ⟨y, ys, -, hys, rfl⟩ := List.forall₂_cons_left_iff.1 hxs
  refine ⟨hshows.pop.congr fun i _ => congrFun (held_setDesc ..) i, fun i hi => ?_, ?_, ys, hys,
    (List.cons.inj hdue).2⟩
  · refine Eq.trans (congrFun (nexts_setDesc ?_) i) (hnext i hi)
    rfl
  · rw [place_place, Nat.add_comm]
    exact hcur

theorem Later.returned {s' : EthRx} {q' : List RxDesc} {new : List (List UInt8)}
    (hl : Later s' q' s h q due new) (hnew : ∀ f ∈ new, Legal f) : Returned s' s h q' due new :=
  ⟨hl.holds, hl.same.rxDesc, hl.arrived, hnew⟩

theorem Returned.trans {s₁ s₂ s₃ : EthRx} {h₁ h₂ : Nat} {q₁ q₂ : List RxDesc}
    {due₁ due₂ : List RxPart} {new₁ new₂ : List (List UInt8)}
    (hr : Returned s₁ s₂ h₁ q₁ due₁ new₁) (hr' : Returned s₂ s₃ h₂ q₂ due₂ new₂)
    (hdue : due₁ = due₂ ++ new₂.flatMap rxParts) :
    Returned s₁ s₃ h₁ q₁ due₂ (new₂ ++ new₁) := by
  refine ⟨?_, hr.rxDesc.trans hr'.rxDesc, ?_, fun f hf => ?_⟩
  · rw [List.flatMap_append, ← List.append_assoc, ← hdue]
    exact hr.holds
  · rw [hr.arrived, hr'.arrived, List.append_assoc]
  · exact (List.mem_append.1 hf).elim (hr'.legal f) (hr.legal f)

/-- A look of a legal schedule. -/
theorem Holds.look_legal (hs : s.Holds h q due) (hsched : LegalSched sched) :
    ∃ q' new, Later (s.look sched) q' s h q due new ∧ (∀ f ∈ new, Legal f) ∧
      (Quiet sched → new = []) := by
  obtain ⟨q', new, hl, hnew⟩ := hs.look sched
  refine ⟨q', new, hl, fun f hf => hsched _ f (hnew f hf), fun hquiet => ?_⟩
  exact List.eq_nil_iff_forall_not_mem.2 fun f hf =>
    RxEvent.noConfusion ((hquiet _).2 _ (hnew f hf))

/-- **All descriptors** of a frame are given to the DMA. -/
theorem Holds.release (hsched : LegalSched sched) {xs : List RxPart}
    (hs : s.Holds h q (xs ++ due)) (hlen : xs.length ≤ q.length) :
    ∃ q' new, Returned (s.release sched xs.length h) s (place ethRxBufNb h xs.length) q' due new ∧
      (s.Told → (s.release sched xs.length h).Told) ∧ (Quiet sched → new = []) := by
  induction xs generalizing s q h due with
  | nil =>
    rw [List.length_nil, place_zero hs.shows.head_lt]
    exact ⟨q, [], hs.refl.returned fun _ hf => absurd hf List.not_mem_nil, id, fun _ => rfl⟩
  | cons x xs ih =>
    obtain ⟨q₁, new₁, hl, hnew₁, hquiet₁⟩ := hs.look_legal hsched
    have hle := hl.isPrefix.length_le
    rw [List.length_cons] at hlen
    -- what is given back is still the program's, as the DMA takes none
    obtain ⟨d, q₁, rfl⟩ : ∃ d q', q₁ = d :: q' :=
      List.exists_cons_of_length_pos (by omega)
    rw [List.length_cons] at hle
    have hholds := hl.holds
    rw [List.cons_append, List.cons_append, List.append_assoc] at hholds
    have hnext : ((s.look sched).dscrTab h).buffer2NextDescAddr = place ethRxBufNb h 1 :=
      hl.holds.next _ hs.shows.head_lt
    obtain ⟨q₂, new₂, hr, htold₂, hquiet₂⟩ := ih hholds.giveBack (by omega)
    rw [place_place, Nat.add_comm] at hr
    have hgo : s.release sched (xs.length + 1) h = release sched xs.length (place ethRxBufNb h 1)
        ((s.look sched).setDesc h { (s.look sched).dscrTab h with own := true }) := by
      rw [← hnext]
      rfl
    rw [List.length_cons, hgo]
    refine ⟨q₂, new₁ ++ new₂, ⟨?_, hr.rxDesc.trans hl.same.rxDesc, ?_, fun f hf => ?_⟩,
      fun ht => htold₂ (hl.told ht), fun hq => ?_⟩
    · rw [List.flatMap_append, ← List.append_assoc]
      exact hr.holds
    · rw [← List.append_assoc, ← hl.arrived]
      exact hr.arrived
    · exact (List.mem_append.1 hf).elim (hnew₁ f) (hr.legal f)
    · rw [hquiet₁ hq, hquiet₂ hq]
      rfl

/-- **A poll demand**, if it is needed. -/
theorem Holds.resume (hs : s.Holds h q due) (hsched : LegalSched sched) (htold : s.Told) :
    ∃ q' new, Returned (s.resume sched) s h q' due new ∧ (s.resume sched).suspended = false ∧
      (s.resume sched).segCount = s.segCount ∧ (Quiet sched → new = []) := by
  obtain ⟨q₁, new₁, hl₁, hnew₁, hquiet₁⟩ := hs.look_legal hsched
  have htold₁ := hl₁.told htold
  have hr₁ := hl₁.returned hnew₁
  unfold EthRx.resume
  dsimp only
  split
  next hset =>
    obtain ⟨hshows, hnext, hcur, hcarries⟩ := hl₁.holds
    have hclear : Holds { s.look sched with rbus := false } h q₁
        (due ++ new₁.flatMap rxParts) := ⟨hshows, hnext, hcur, hcarries⟩
    obtain ⟨q₂, new₂, hl₂, hnew₂, hquiet₂⟩ := hclear.look_legal hsched
    obtain ⟨⟨hshows, hnext, hcur, hcarries⟩, hrx, harr, hlegal⟩ :=
      (hl₂.returned hnew₂).trans ⟨hclear, hr₁.rxDesc, hr₁.arrived, hr₁.legal⟩ rfl
    refine ⟨q₂, new₁ ++ new₂, ⟨⟨hshows, hnext, hcur, hcarries⟩, hrx, harr, hlegal⟩, rfl,
      hl₂.same.segCount.trans hl₁.same.segCount, fun hq => ?_⟩
    rw [hquiet₁ hq, hquiet₂ hq]
    rfl
  next hclear =>
    refine ⟨q₁, new₁, hr₁, ?_, hl₁.same.segCount, hquiet₁⟩
    by_contra hc
    exact hclear (htold₁ (by simpa using hc))

/-- **The end of a call** that has found a frame. -/
theorem Found.finish (hf : s.Found h q f fs got) (hsched : LegalSched sched) :
    ∃ h' q' new,
      Sound (resume sched { s.release sched s.segCount s.fsRxDesc with segCount := 0 }) h' q'
        (fs ++ new) (got ++ [f]) ∧ (Quiet sched → new = []) := by
  obtain ⟨q₁, new₁, hr₁, htold₁, hquiet₁⟩ := hf.holds.release hsched (length_rxParts f ▸ hf.whole)
  rw [length_rxParts, ← hf.segCount] at hr₁ htold₁
  rw [hf.fsRxDesc]
  obtain ⟨⟨hshows, hnext, hcur, hcarries⟩, hrx₁, harr₁, hlegal₁⟩ := hr₁
  have hzero : Holds { s.release sched s.segCount h with segCount := 0 }
      (place ethRxBufNb h s.segCount) q₁ (fs.flatMap rxParts ++ new₁.flatMap rxParts) :=
    ⟨hshows, hnext, hcur, hcarries⟩
  obtain ⟨q₂, new₂, ⟨hholds, hrx₂, harr₂, hlegal₂⟩, hawake, hseg, hquiet₂⟩ :=
    hzero.resume hsched (htold₁ hf.told)
  refine ⟨place ethRxBufNb h s.segCount, q₂, new₁ ++ new₂, ⟨?_, ?_, ?_, fun hc => ?_, fun g hg => ?_, ?_, fun hc => ?_,
    fun hc => ?_⟩, fun hq => ?_⟩
  · rw [List.flatMap_append, List.flatMap_append, ← List.append_assoc]
    exact hholds
  · rw [hseg, place_place, hrx₂]
    exact hrx₁.trans (hf.segCount ▸ hf.rxDesc)
  · rw [hseg]
    exact Nat.zero_le _
  · exact absurd (hseg ▸ hc) (lt_irrefl 0)
  · rcases List.mem_append.1 hg with hg | hg
    · exact hf.legal g (List.mem_cons_of_mem _ hg)
    · exact (List.mem_append.1 hg).elim (hlegal₁ g) (hlegal₂ g)
  · rw [harr₂]
    change (s.release sched s.segCount h).arrived ++ new₂ = _
    rw [harr₁, hf.arrived]
    simp
  · exact absurd (hawake.symm.trans hc) (by decide)
  · exact absurd (hawake.symm.trans hc) (by decide)
  · rw [hquiet₁ hq, hquiet₂ hq]
    rfl

/-! ## Calls -/

/-- A frame without its CRC. -/
def payload (f : List UInt8) : List UInt8 := f.take (f.length - 4)

/-- The length that `low_level_input` goes by. -/
theorem Found.len (hf : s.Found h q f fs got) : s.length.toUInt16.toNat = f.length - 4 := by
  obtain ⟨hlo, hhi⟩ := hf.legal f List.mem_cons_self
  have hhi : f.length ≤ 6096 := hhi
  have hnat : (UInt32.ofNat f.length).toNat = f.length := by
    rw [UInt32.toNat_ofNat']
    omega
  have hle : (4 : UInt32) ≤ UInt32.ofNat f.length := by
    rw [UInt32.le_iff_toNat_le, hnat]
    exact hlo.le
  rw [hf.length, UInt32.toNat_toUInt16, UInt32.toNat_sub_of_le _ _ hle, hnat]
  exact Nat.mod_eq_of_lt (by change f.length - 4 < 65536; omega)

/-- What `pbuf_alloc` returns is as long as it was asked for. -/
def Measured (alloc : Nat → Nat → Option (List Nat)) : Prop :=
  ∀ m len lens, alloc m len = some lens → lens.sum = len

variable {alloc : Nat → Nat → Option (List Nat)}

/-- **One call** finds nothing, or the first frame on its way: it hands it
on whole, or drops it when there are no pbufs for it. -/
theorem Sound.input (hs : s.Sound h q frames got) (hsched : LegalSched sched)
    (halloc : Measured alloc) :
    ∃ h' q' frames' got', (s.lowLevelInput sched alloc).2.Sound h' q' frames' got' ∧
      (((s.lowLevelInput sched alloc).1 = none ∧ got' = got ∧
        (Quiet sched → frames = [] ∧ frames' = [])) ∨
      ∃ f, got' = got ++ [f] ∧ (Quiet sched → frames = f :: frames') ∧
        (((s.lowLevelInput sched alloc).1 = none ∧ ∃ m len, 0 < len ∧ alloc m len = none) ∨
          (s.lowLevelInput sched alloc).1.map List.flatten = some (payload f))) := by
  obtain ⟨q₁, new₁, hquiet₁, ⟨hnone, hs₁, hmore⟩ | ⟨f, fs, hsome, hframes, hf⟩⟩ :=
    hs.scan hsched ethRxBufNb
  · unfold EthRx.lowLevelInput EthRx.halETHGetReceivedFrameIT
    dsimp only
    rw [if_neg (ne_true_of_eq_false hnone)]
    refine ⟨h, q₁, _, got, hs₁, .inl ⟨rfl, rfl, fun hq => ?_⟩⟩
    -- at a quiet time a frame would have been found
    have hnil : frames = [] := by
      cases frames with
      | nil => rfl
      | cons f fs =>
        have hlt := hmore hq f fs rfl
        have hle := (hs.legal f List.mem_cons_self).count_le
        omega
    rw [hnil, hquiet₁ hq]
    exact ⟨rfl, rfl⟩
  · have hlen := hf.len
    obtain ⟨hlo, -⟩ := hf.legal f List.mem_cons_self
    have hstart : At ⟨(EthRx.scan sched ethRxBufNb s).2.fsRxDesc, 0⟩ h 0 :=
      ⟨⟨0, by rw [hf.fsRxDesc, place_zero hs.holds.shows.head_lt], rfl⟩, Nat.zero_le _⟩
    unfold EthRx.lowLevelInput EthRx.halETHGetReceivedFrameIT
    dsimp only
    rw [if_pos hsome, hlen, if_pos (by omega)]
    generalize (EthRx.scan sched ethRxBufNb s).2 = s₁ at hf hstart
    have hquiet : ∀ new' : List (List UInt8), Quiet sched → new' = [] →
        frames = f :: (fs ++ new') := by
      intro new' hq hnil
      rw [hquiet₁ hq, List.append_nil] at hframes
      rw [hnil, List.append_nil]
      exact hframes
    cases hget : alloc s₁.moment (f.length - 4) with
    | none =>
      obtain ⟨h', q', new₂, hs', hquiet₂⟩ := hf.finish hsched
      exact ⟨h', q', _, _, hs', .inr ⟨f, rfl, fun hq => hquiet new₂ hq (hquiet₂ hq),
        .inl ⟨rfl, _, _, by omega, hget⟩⟩⟩
    | some lens =>
      have hsum := halloc _ _ _ hget
      obtain ⟨hread, q₂, new₂, hf₂, hquiet₂⟩ := hf.fillPbufs hsched lens
        hstart (by omega)
      obtain ⟨h', q', new₃, hs', hquiet₃⟩ := hf₂.finish hsched
      rw [List.append_assoc] at hs'
      refine ⟨h', q', _, _, hs', .inr ⟨f, rfl, fun hq => ?_, .inr ?_⟩⟩
      · exact hquiet (new₂ ++ new₃) hq (by rw [hquiet₂ hq, hquiet₃ hq]; rfl)
      · rw [hsum, List.drop_zero] at hread
        exact congrArg some hread

/-- Calls one after the other, with their results. -/
def inputs (sched : Nat → List RxEvent) (alloc : Nat → Nat → Option (List Nat)) :
    EthRx → Nat → List (Option (List (List UInt8))) × EthRx
  | s, 0 => ([], s)
  | s, n + 1 =>
    let r := s.lowLevelInput sched alloc
    let rest := inputs sched alloc r.2 n
    (r.1 :: rest.1, rest.2)

/-- The frames that were handed on. -/
def received (rs : List (Option (List (List UInt8)))) : List (List UInt8) :=
  rs.filterMap (Option.map List.flatten)

/-- There are always pbufs. -/
def Rich (alloc : Nat → Nat → Option (List Nat)) : Prop := ∀ m len, 0 < len → alloc m len ≠ none

/-- **Calls.** The frames `found` were handed on, but for some there were no
pbufs for; at a quiet time each call finds one. -/
theorem Sound.inputs (hs : s.Sound h q frames got) (hsched : LegalSched sched)
    (halloc : Measured alloc) (n : Nat) :
    ∃ h' q' frames' found, (s.inputs sched alloc n).2.Sound h' q' frames' (got ++ found) ∧
      (received (s.inputs sched alloc n).1).Sublist (found.map payload) ∧
      (Rich alloc → received (s.inputs sched alloc n).1 = found.map payload) ∧
      (Quiet sched → frames = found ++ frames' ∧ frames'.length = frames.length - n) := by
  induction n generalizing s h q frames got with
  | zero =>
    exact ⟨h, q, frames, [], (List.append_nil got).symm ▸ hs, List.Sublist.refl _, fun _ => rfl,
      fun _ => ⟨rfl, rfl⟩⟩
  | succ n ih =>
    -- nothing was found, or a frame was dropped, or handed on
    obtain ⟨h₁, q₁, frames₁, got₁, hs₁, hcall⟩ := hs.input hsched halloc
    obtain ⟨h', q', frames', found, hs', hsub, hrich, hquiet⟩ := ih hs₁
    rw [EthRx.inputs]
    dsimp only
    unfold received at hsub hrich ⊢
    rcases hcall with ⟨hnone, rfl, hend⟩ | ⟨f, rfl, hfirst, ⟨hnone, m, len, hpos, hfail⟩ | hsome⟩
    · rw [List.filterMap_cons_none (congrArg (Option.map List.flatten) hnone)]
      refine ⟨h', q', frames', found, hs', hsub, hrich, fun hq => ?_⟩
      obtain ⟨hnil, hnil₁⟩ := hend hq
      obtain ⟨hsplit, hlen⟩ := hquiet hq
      rw [hnil₁] at hsplit hlen
      rw [hnil]
      exact ⟨hsplit, by rw [hlen, List.length_nil, Nat.zero_sub, Nat.zero_sub]⟩
    · rw [List.filterMap_cons_none (congrArg (Option.map List.flatten) hnone)]
      refine ⟨h', q', frames', f :: found, ?_, hsub.cons _, fun hr => ?_, fun hq => ?_⟩
      · rw [List.append_cons]
        exact hs'
      · exact absurd hfail (hr m len hpos)
      · obtain ⟨hsplit, hlen⟩ := hquiet hq
        rw [hfirst hq, hlen, List.length_cons, Nat.add_sub_add_right]
        exact ⟨congrArg (f :: ·) hsplit, rfl⟩
    · rw [List.filterMap_cons_some hsome]
      refine ⟨h', q', frames', f :: found, ?_, hsub.cons_cons _, fun hr => ?_, fun hq => ?_⟩
      · rw [List.append_cons]
        exact hs'
      · rw [List.map_cons, hrich hr]
      · obtain ⟨hsplit, hlen⟩ := hquiet hq
        rw [hfirst hq, hlen, List.length_cons, Nat.add_sub_add_right]
        exact ⟨congrArg (f :: ·) hsplit, rfl⟩

/-- **The frames for the stack.** Whatever arrives and however the DMA and
the calls go between each other, what is handed on are frames that the DMA
has taken, whole and in order, and none twice; only frames that there were
no pbufs for are left out. -/
theorem frames_received (buffers : Nat → Mem) (hsched : LegalSched sched)
    (halloc : Measured alloc) (n : Nat) :
    let r := (halETHDMARxDescListInit buffers).inputs sched alloc n
    (received r.1).Sublist (r.2.arrived.map payload) ∧
      (Rich alloc → received r.1 <+: r.2.arrived.map payload) := by
  intro r
  obtain ⟨h, q, frames, found, hs, hsub, hrich, -⟩ := (sound_init buffers).inputs hsched halloc n
  have harr : r.2.arrived = found ++ frames := hs.arrived
  rw [harr, List.map_append]
  refine ⟨hsub.trans (List.sublist_append_left _ _), fun hr => ?_⟩
  rw [hrich hr]
  exact List.prefix_append _ _

/-- A frame of two descriptors, of which the DMA is through with one when it
is looked for, and two short ones. -/
def shortTraffic : Nat → List RxEvent
  | 1 => [.arrive (List.replicate 1600 3), .dma]
  | 5 => [.dma, .arrive [1, 2, 3, 4, 5, 6], .dma]
  | 9 => [.arrive (List.replicate 64 8), .dma]
  | _ => []

theorem legal_shortTraffic : LegalSched shortTraffic := by
  intro m f hf
  unfold shortTraffic at hf
  split at hf
  · obtain rfl := RxEvent.arrive.inj ((List.mem_cons.1 hf).resolve_right (by simp))
    decide +kernel
  · obtain rfl : f = [1, 2, 3, 4, 5, 6] := by simpa using hf
    decide
  · obtain rfl := RxEvent.arrive.inj ((List.mem_cons.1 hf).resolve_right (by simp))
    decide +kernel
  · exact absurd hf List.not_mem_nil

/-- A pool of pbufs of 1024 bytes, empty for a while. -/
def shortPool (moment len : Nat) : Option (List Nat) :=
  if 12 ≤ moment ∧ moment < 16 then none
  else some (List.replicate (len / 1024) 1024 ++ [len % 1024])

theorem measured_shortPool : Measured shortPool := by
  intro m len lens hlens
  unfold shortPool at hlens
  split_ifs at hlens
  obtain rfl := Option.some.inj hlens
  have hsplit := Nat.div_add_mod len 1024
  rw [List.sum_append, List.sum_replicate_nat, List.sum_singleton]
  omega

theorem frames_received_short :
    let r := (halETHDMARxDescListInit fun _ _ => 0).inputs shortTraffic shortPool 7
    (received r.1).map List.length = [1596, 60] ∧
    (received r.1).Sublist (r.2.arrived.map payload) := by
  obtain ⟨hsub, -⟩ := frames_received (fun _ _ => 0) legal_shortTraffic measured_shortPool 7
  refine ⟨?_, hsub⟩
  decide +kernel

/-- **Nothing is stuck.** When no more frames arrive, and the DMA has time,
the next calls hand on all that has arrived before; then the DMA has all
descriptors again and does not wait, also when frames were dropped for want
of pbufs. -/
theorem frames_caught_up (buffers : Nat → Mem) (hsched : LegalSched sched)
    (halloc : Measured alloc) (n : Nat) {quiet : Nat → List RxEvent} (hquiet : Quiet quiet)
    {k : Nat}
    (hk : ((halETHDMARxDescListInit buffers).inputs sched alloc n).2.arrived.length ≤ k) :
    let r := (halETHDMARxDescListInit buffers).inputs sched alloc n
    let r' := r.2.inputs quiet alloc k
    (Rich alloc → received r.1 ++ received r'.1 = r.2.arrived.map payload) ∧
      r'.2.suspended = false ∧ ∀ i < ethRxBufNb, (r'.2.dscrTab i).own = true := by
  intro r r'
  obtain ⟨h, q, frames, found, hs, -, hrich, -⟩ := (sound_init buffers).inputs hsched halloc n
  obtain ⟨h', q', frames', found', hs', -, hrich', hend⟩ := hs.inputs hquiet.legal halloc k
  have harr : r.2.arrived = found ++ frames := hs.arrived
  obtain ⟨hsplit, hlen⟩ := hend hquiet
  obtain rfl : frames' = [] := by
    change r.2.arrived.length ≤ k at hk
    rw [harr, List.length_append] at hk
    exact List.length_eq_zero_iff.1 (by omega)
  rw [List.append_nil] at hsplit
  obtain rfl : q' = [] := by
    obtain ⟨xs, hxs, hdue⟩ := hs'.holds.carries
    rw [List.flatMap_nil, List.append_eq_nil_iff] at hdue
    exact List.length_eq_zero_iff.1 (by rw [hxs.length_eq, hdue.1, List.length_nil])
  refine ⟨fun hr => ?_, ?_, fun i hi => ?_⟩
  · rw [harr, List.map_append, hsplit]
    exact congrArg₂ (· ++ ·) (hrich hr) (hrich' hr)
  · by_contra hc
    exact absurd (hs'.full (by simpa using hc)) (by decide)
  · obtain ⟨j, hj, rfl⟩ := exists_place hs'.holds.shows.head_lt hi
    exact hs'.holds.own (Nat.zero_le j) hj

theorem frames_caught_up_short :
    let r := (halETHDMARxDescListInit fun _ _ => 0).inputs shortTraffic shortPool 5
    let r' := r.2.inputs (fun _ => List.replicate 4 .dma) shortPool 3
    received r'.1 = [List.replicate 60 8] ∧ r'.2.suspended = false ∧
      ∀ i < ethRxBufNb, (r'.2.dscrTab i).own = true :=
  ⟨by decide +kernel, (frames_caught_up (fun _ _ => 0) legal_shortTraffic measured_shortPool 5
    (fun _ => ⟨le_rfl, fun e he => List.eq_of_mem_replicate he⟩) (by decide +kernel)).2⟩

end EthRx

end BusMonitor
