import BusMonitor.TCP.Client
/-!
# What the TCP client leaves behind

While the callbacks are installed the client holds its structure and the
chain of `p_tx`, and nothing else (`Holds`). Three kinds of event break
this: a connection whose `pbuf_alloc` fails, data that arrives while `p_tx`
waits, and a fatal error. `released_iff` says that a connection that is gone
has released everything exactly when it met none of them.
-/


namespace BusMonitor

open Ledger Stepwise

/-! ## Chains -/

/-- The resources of a chain. -/
def chain (ps : List Pbuf) : Set Res := {r | ∃ p ∈ ps, r = .pbuf p.id}

theorem chain_eq_empty {ps : List Pbuf} : chain ps = ∅ ↔ ps = [] := by
  constructor
  · intro h
    cases ps with
    | nil => rfl
    | cons p ps =>
      have hp : Res.pbuf p.id ∈ chain (p :: ps) := ⟨p, List.mem_cons_self, rfl⟩
      exact absurd (h ▸ hp) (Set.notMem_empty _)
  · rintro rfl
    rw [Set.eq_empty_iff_forall_notMem]
    rintro r ⟨p, hp, -⟩
    exact List.not_mem_nil hp

theorem chain_cons {p : Pbuf} {ps : List Pbuf} :
    chain (p :: ps) = insert (.pbuf p.id) (chain ps) := by
  ext r
  simp [chain]

theorem pbuf_mem_chain {i : Nat} {ps : List Pbuf} :
    .pbuf i ∈ chain ps ↔ i ∈ ps.map Pbuf.id := by
  simp only [chain, Set.mem_ofPred_eq, Res.pbuf.injEq, List.mem_map]
  exact exists_congr fun p => and_congr_right fun _ => eq_comm

theorem echoclient_notMem_chain {ps : List Pbuf} : .echoclient ∉ chain ps := by
  rintro ⟨p, -, h⟩
  exact Res.noConfusion h

namespace Heap

variable {h : Heap} {ps qs : List Pbuf} {p q : Pbuf}

/-- The last reference to a pbuf. -/
theorem pbufFree_last (hp : h.ref p.id = 1) :
    h.pbufFree (p :: ps) = pbufFree ps (release (.pbuf p.id)
      { h.use (.pbuf p.id) with ref := Function.update h.ref p.id 0 }) := by
  have hzero : h.ref p.id - 1 = 0 := by
    rw [hp]
    rfl
  rw [pbufFree, if_pos hzero, hzero]

/-- One reference of two, and the free of the chain ends. -/
theorem pbufFree_shared (hp : h.ref p.id = 2) :
    h.pbufFree (p :: ps) =
      { h.use (.pbuf p.id) with ref := Function.update h.ref p.id 1 } := by
  have hone : h.ref p.id - 1 = 1 := by
    rw [hp]
    rfl
  have hne : h.ref p.id - 1 ≠ 0 := by
    rw [hone]
    decide
  rw [pbufFree, if_neg hne, hone]

theorem newPbufs_eq_nil {lens : List Nat} : (h.newPbufs lens).1 = [] ↔ lens = [] := by
  cases lens with
  | nil => exact iff_of_true rfl rfl
  | cons len lens => exact iff_of_false (List.cons_ne_nil _ _) (List.cons_ne_nil _ _)

/-- The structure and the chains of `ps` are held, each pbuf by its chain
alone. -/
structure Holds (h : Heap) (ps : List Pbuf) : Prop where
  ledger : Balanced h.log (insert .echoclient (chain ps))
  fresh : ∀ i, .take (.pbuf i) ∈ h.log → i < h.next
  nodup : (ps.map Pbuf.id).Nodup
  ref : ∀ p ∈ ps, h.ref p.id = 1

namespace Holds

theorem perm (hh : h.Holds ps) (hp : ps.Perm qs) : h.Holds qs where
  ledger := by
    have hchain : chain qs = chain ps := by
      ext r
      simp only [chain, Set.mem_ofPred_eq, hp.mem_iff]
    exact hchain ▸ hh.ledger
  fresh := hh.fresh
  nodup := (hp.map _).nodup hh.nodup
  ref p hmem := hh.ref p (hp.mem_iff.2 hmem)

/-- The names of what is held have been given out. -/
theorem lt_next (hh : h.Holds ps) (hp : p ∈ ps) : p.id < h.next :=
  hh.fresh _ (hh.ledger.taken (Set.mem_insert_of_mem _ ⟨p, hp, rfl⟩))

/-- Using what is held. -/
theorem use {r : Res} (hh : h.Holds ps) (hr : r ∈ insert .echoclient (chain ps)) :
    (h.use r).Holds ps where
  ledger := hh.ledger.use hr
  fresh i hi := hh.fresh i (by simpa [Heap.use] using hi)
  nodup := hh.nodup
  ref := hh.ref

theorem useEs (hh : h.Holds ps) : (h.use .echoclient).Holds ps :=
  hh.use (Set.mem_insert _ _)

theorem usePbuf (hh : h.Holds ps) (hp : p ∈ ps) : (h.use (.pbuf p.id)).Holds ps :=
  hh.use (Set.mem_insert_of_mem _ ⟨p, hp, rfl⟩)

/-- A new pbuf. -/
theorem cons (hh : h.Holds ps) (len : Nat) :
    Holds { ref := Function.update h.ref h.next 1
            next := h.next + 1
            log := .take (.pbuf h.next) :: h.log } (⟨h.next, len⟩ :: ps) where
  ledger := by
    rw [chain_cons, Set.insert_comm]
    exact hh.ledger.take fun hin => lt_irrefl _ (hh.fresh _ hin)
  fresh i hi := by
    rcases List.mem_cons.1 hi with heq | hi
    · obtain rfl := Res.pbuf.inj (Entry.take.inj heq)
      exact Nat.lt_succ_self _
    · exact Nat.lt_succ_of_lt (hh.fresh i hi)
  nodup := by
    rw [List.map_cons, List.nodup_cons]
    refine ⟨?_, hh.nodup⟩
    intro hin
    obtain ⟨p, hp, heq⟩ := List.mem_map.1 hin
    exact (hh.lt_next hp).ne heq
  ref p hp := by
    rcases List.mem_cons.1 hp with rfl | hp
    · exact Function.update_self ..
    · exact (Function.update_of_ne (hh.lt_next hp).ne _ _).trans (hh.ref p hp)

/-- The structure alone. -/
theorem memMalloc (hl : h.log = []) : h.memMalloc.Holds [] where
  ledger := by
    have hnew : Entry.take Res.echoclient ∉ h.log := hl ▸ List.not_mem_nil
    have hnone : Balanced h.log (chain []) := chain_eq_empty.2 rfl ▸ hl ▸ .nil
    exact hnone.take hnew
  fresh i hi := by simp [Heap.memMalloc, hl] at hi
  nodup := List.nodup_nil
  ref _ hp := absurd hp List.not_mem_nil

theorem newPbufs (hh : h.Holds ps) (lens : List Nat) :
    (h.newPbufs lens).2.Holds ((h.newPbufs lens).1 ++ ps) := by
  induction lens generalizing h ps with
  | nil => exact hh
  | cons len lens ih => exact (ih (hh.cons len)).perm List.perm_middle

theorem pbufTake (hh : h.Holds ps) (hsub : qs ⊆ ps) : (h.pbufTake qs).Holds ps := by
  induction qs generalizing h with
  | nil => exact hh
  | cons q qs ih =>
    have hq := hsub List.mem_cons_self
    exact ih (hh.usePbuf hq) fun x hx => hsub (List.mem_cons_of_mem _ hx)

/-- A pbuf whose count falls to zero. -/
theorem release (hh : h.Holds (p :: ps)) (c : BitVec 16) :
    Holds (Heap.release (.pbuf p.id)
      { h with ref := Function.update h.ref p.id c }) ps where
  ledger := by
    have hnot : Res.pbuf p.id ∉ insert .echoclient (chain ps) := by
      rw [Set.mem_insert_iff, pbuf_mem_chain, not_or]
      exact ⟨Res.noConfusion, (List.nodup_cons.1 hh.nodup).1⟩
    have hheld := hh.ledger
    rw [chain_cons, Set.insert_comm] at hheld
    exact hheld.release_insert hnot
  fresh i hi := hh.fresh i (by simpa [Heap.release] using hi)
  nodup := (List.nodup_cons.1 hh.nodup).2
  ref q hq := by
    have hne : q.id ≠ p.id := fun heq =>
      (List.nodup_cons.1 hh.nodup).1 (heq ▸ List.mem_map_of_mem hq)
    exact (Function.update_of_ne hne _ _).trans (hh.ref q (List.mem_cons_of_mem _ hq))

/-- Counts that are changed and put back. -/
theorem recount {ref : Nat → BitVec 16} (hh : h.Holds ps) (hr : ∀ p ∈ ps, ref p.id = 1) :
    Holds { h with ref := ref } ps where
  ledger := hh.ledger
  fresh := hh.fresh
  nodup := hh.nodup
  ref := hr

/-- The free of a chain that nothing else refers to. -/
theorem pbufFree (hh : h.Holds (qs ++ ps)) : (h.pbufFree qs).Holds ps := by
  induction qs generalizing h with
  | nil => exact hh
  | cons q qs ih =>
    rw [pbufFree_last (hh.ref q List.mem_cons_self)]
    exact ih ((hh.usePbuf List.mem_cons_self).release _)

/-- After the last free the chain of `ps` is what remains. -/
theorem memFree (hh : h.Holds ps) : Balanced h.memFree.log (chain ps) :=
  hh.ledger.release_insert echoclient_notMem_chain

theorem loopTest (hh : h.Holds ps) : (Client.loopTest ps h).Holds ps := by
  cases ps with
  | nil => exact hh.useEs
  | cons p ps => exact hh.useEs.usePbuf List.mem_cons_self

/-- The reference that `send` takes on the next pbuf ends the free at the
first one. -/
theorem advance (hh : h.Holds (p :: ps)) : (Client.advance p ps h).Holds ps := by
  have hused := (hh.usePbuf List.mem_cons_self).useEs
  cases ps with
  | nil =>
    have hsplit : Holds _ ([p] ++ []) := hused
    exact hsplit.pbufFree
  | cons q ps =>
    have hpq : p.id ≠ q.id := fun heq =>
      (List.nodup_cons.1 hh.nodup).1 (heq ▸ List.mem_cons_self)
    have hp : Function.update h.ref q.id (h.ref q.id + 1) p.id = 1 := by
      rw [Function.update_of_ne hpq]
      exact hh.ref p List.mem_cons_self
    have hq : Function.update (Function.update h.ref q.id (h.ref q.id + 1)) p.id 0 q.id = 2 := by
      rw [Function.update_of_ne hpq.symm, Function.update_self,
        hh.ref q (List.mem_cons_of_mem _ List.mem_cons_self)]
      rfl
    have href := hused.usePbuf (List.mem_cons_of_mem p (List.mem_cons_self (a := q)))
    have hfree := ((href.usePbuf List.mem_cons_self).release 0).usePbuf List.mem_cons_self
    rw [Client.advance, pbufFree_last hp, pbufFree_shared hq]
    refine hfree.recount ?_
    intro r hr
    by_cases hrq : r.id = q.id
    · rw [hrq]
      exact Function.update_self ..
    · have hrp : r.id ≠ p.id := fun heq =>
        (List.nodup_cons.1 hh.nodup).1 (heq ▸ List.mem_map_of_mem hr)
      have hold :
          Function.update (Function.update h.ref q.id (h.ref q.id + 1)) p.id 0 r.id = 1 := by
        rw [Function.update_of_ne hrp, Function.update_of_ne hrq]
        exact hh.ref r (List.mem_cons_of_mem _ hr)
      exact (Function.update_of_ne hrq _ _).trans hold

theorem sendLoop (hh : h.Holds ps) (ts : List Turn) :
    (Client.sendLoop ts ps h).heap.Holds (Client.sendLoop ts ps h).pTx := by
  induction ts generalizing h ps with
  | nil => exact hh.loopTest
  | cons t ts ih =>
    cases ps with
    | nil => exact hh.loopTest
    | cons p ps =>
      have htest := hh.loopTest
      have hwrite := htest.usePbuf List.mem_cons_self
      rw [Client.sendLoop]
      split_ifs
      · exact ih hwrite.advance
      · exact hwrite.useEs
      · exact hwrite
      · exact htest

end Holds

end Heap

/-! ## The stages of a connection -/

namespace Client

variable {c : Client} {s : Set Res} {e : Event}

/-- No callback of the client is installed. -/
structure Bare (c : Client) : Prop where
  recv : c.pcb.recv ≠ .echoclientRecv
  sent : c.pcb.sent = false
  poll : c.pcb.poll = false

/-- The callbacks are installed, over the structure and the chain of
`p_tx`. -/
structure Serving (c : Client) : Prop where
  phase : c.pcb.phase = .established
  recv : c.pcb.recv = .echoclientRecv
  sent : c.pcb.sent = true
  poll : c.pcb.poll = true
  arg : c.pcb.arg = true
  holds : c.heap.Holds c.es.pTx

/-- A connection with what it has leaked: nothing before the callbacks are
installed, nor while they are. -/
inductive Stage (c : Client) : Set Res → Prop where
  | connecting (hp : c.pcb.phase = .connecting) (hb : c.Bare) (hl : c.heap.log = []) : Stage c ∅
  | serving (h : c.Serving) : Stage c ∅
  | left {s : Set Res} (hp : c.pcb.phase ≠ .connecting) (hl : Balanced c.heap.log s)
      (hb : c.Bare ∨ c.pcb.phase = .gone ∧ s ≠ ∅) : Stage c s

/-- The events that leak nothing. -/
def Spares (c : Client) : Event → Prop
  | .connected err malloc lens _ =>
    c.pcb.phase = .connecting → err = errOk → malloc = true → lens ≠ []
  | .recv lens err _ =>
    c.Up → c.pcb.recv = .echoclientRecv → lens ≠ [] → err = errOk →
      c.es.state = .esConnected → c.es.pTx = []
  | .sent _ => True
  | .poll _ => True
  | .fatal => c.pcb.recv ≠ .echoclientRecv
  | .freed => True

theorem stage_connect (n : BitVec 32) : Stage (connect n) ∅ :=
  .connecting rfl ⟨by simp [connect], rfl, rfl⟩ rfl

theorem Stage.balanced (h : Stage c s) : ∃ t, Balanced c.heap.log t := by
  cases h with
  | connecting _ _ hl => exact ⟨∅, hl ▸ .nil⟩
  | serving h => exact ⟨_, h.holds.ledger⟩
  | left _ hl _ => exact ⟨s, hl⟩

theorem Bare.spares (hb : c.Bare) (hp : c.pcb.phase ≠ .connecting) : c.Spares e := by
  cases e with
  | connected => exact fun h => absurd h hp
  | recv => exact fun _ h => absurd h hb.recv
  | sent => trivial
  | poll => trivial
  | fatal => exact hb.recv
  | freed => trivial

theorem Bare.enter (hb : c.Bare) (p : Phase) : (c.enter p).Bare :=
  ⟨hb.recv, hb.sent, hb.poll⟩

/-- Without callbacks only the phase of a connection changes. -/
theorem Bare.step (hb : c.Bare) (hp : c.pcb.phase ≠ .connecting) :
    step c e = c ∨ ∃ p, p ≠ .connecting ∧ step c e = c.enter p := by
  cases e with
  | connected err malloc lens turns => exact .inl (if_neg hp)
  | recv lens err turns =>
    rw [Client.step]
    by_cases hup : c.Up
    · rw [if_pos hup]
      cases hr : c.pcb.recv with
      | null => exact .inl rfl
      | tcpRecvNull =>
        dsimp only
        split_ifs
        · exact .inr ⟨.closing, by decide, rfl⟩
        · exact .inl rfl
      | echoclientRecv => exact absurd hr hb.recv
    · exact .inl (if_neg hup)
  | sent turns => exact .inl (if_neg fun h => by simp [hb.sent] at h)
  | poll turns => exact .inl (if_neg fun h => by simp [hb.poll] at h)
  | fatal => exact .inr ⟨.gone, by decide, rfl⟩
  | freed =>
    rw [Client.step]
    split_ifs
    · exact .inr ⟨.gone, by decide, rfl⟩
    · exact .inl rfl

/-- Nothing happens to a connection that is gone. -/
theorem step_gone (hgone : c.pcb.phase = .gone) (e : Event) : step c e = c := by
  have hdown : ¬c.Up := by simp [Up, hgone]
  cases e with
  | connected => exact if_neg (by simp [hgone])
  | recv => exact if_neg hdown
  | sent => exact if_neg fun h => hdown h.1
  | poll => exact if_neg fun h => hdown h.1
  | fatal =>
    rw [Client.step, Client.enter, ← hgone]
  | freed => exact if_neg (by simp [hgone])

/-- A close gives the structure back, and leaves what is in `p_tx`. -/
theorem stage_connectionClose (hh : c.heap.Holds c.es.pTx) :
    Stage (c.connectionClose true) (chain c.es.pTx) :=
  .left (by simp [connectionClose]) hh.memFree (.inl ⟨by simp [connectionClose], rfl, rfl⟩)

namespace Serving

theorem withHeap {h : Heap} (hc : c.Serving) (hh : h.Holds c.es.pTx) :
    Serving { c with heap := h } :=
  ⟨hc.phase, hc.recv, hc.sent, hc.poll, hc.arg, hh⟩

theorem send (hc : c.Serving) (ts : List Turn) : (c.send ts).Serving :=
  ⟨hc.phase, hc.recv, hc.sent, hc.poll, hc.arg, hc.holds.sendLoop ts⟩

theorem up (hc : c.Serving) : c.Up := .inl hc.phase

/-- A close that comes when `p_tx` is empty. -/
theorem stage_close (hc : c.Serving) (hnil : c.es.pTx = []) :
    Stage (c.connectionClose true) ∅ :=
  chain_eq_empty.2 hnil ▸ stage_connectionClose hc.holds

/-- A `recv` leaks the chain of `p_tx` where it closes over one. -/
theorem stage_recv (hc : c.Serving) {h : Heap} {p : List Pbuf} (hh : h.Holds (p ++ c.es.pTx))
    (err : Int) (turns : List Turn) :
    ∃ s, Stage (({ c with heap := h } : Client).recv p err turns).1 s ∧
      (s = ∅ ↔ (p ≠ [] → err = errOk → c.es.state = .esConnected → c.es.pTx = [])) := by
  cases p with
  | nil =>
    -- the peer has closed: nothing is left over, or the rest is sent first
    have hes : Serving { c with
        es := { c.es with state := .esClosing }, heap := h.use .echoclient } :=
      ⟨hc.phase, hc.recv, hc.sent, hc.poll, hc.arg, hh.useEs⟩
    refine ⟨∅, ?_, iff_of_true rfl fun h => absurd rfl h⟩
    dsimp only [Client.recv]
    split_ifs with hnil
    · exact hes.stage_close hnil
    · exact .serving (hes.send turns)
  | cons q p =>
    have hread := hh.useEs.usePbuf (List.mem_cons_self (a := q))
    dsimp only [Client.recv]
    split_ifs with herr hstate
    · refine ⟨∅, .serving (hc.withHeap hh.pbufFree), iff_of_true rfl ?_⟩
      exact fun _ h => absurd h herr
    · refine ⟨_, stage_connectionClose hread.pbufFree, ?_⟩
      rw [chain_eq_empty]
      exact ⟨fun h _ _ _ => h, fun h => h (List.cons_ne_nil _ _) (not_not.1 herr) hstate⟩
    · refine ⟨∅, .serving (hc.withHeap hread.pbufFree), iff_of_true rfl ?_⟩
      exact fun _ _ h => absurd h hstate

/-- A `poll` closes when the peer has closed and `p_tx` is empty. -/
theorem stage_poll (hc : c.Serving) (turns : List Turn) : Stage (c.poll turns).1 ∅ := by
  have hes := hc.withHeap hc.holds.useEs
  rw [Client.poll, if_pos hc.arg]
  dsimp only
  split_ifs with hnil hstate
  · exact .serving (hes.send turns)
  · exact hes.stage_close (not_not.1 hnil)
  · exact .serving hes

theorem sent_step (hc : c.Serving) (turns : List Turn) : (c.sent turns).1.Serving := by
  have hes := hc.withHeap hc.holds.useEs
  rw [Client.sent]
  dsimp only
  split_ifs
  · exact hes.send turns
  · exact hes

end Serving

/-- The callback of a new connection leaks the structure where `pbuf_alloc`
fails. -/
theorem stage_connected (hb : c.Bare) (hp : c.pcb.phase = .established) (hl : c.heap.log = [])
    (err : Int) (malloc : Bool) (lens : List Nat) (turns : List Turn) :
    ∃ s, Stage (c.connected err malloc lens turns).1 s ∧
      (s = ∅ ↔ (err = errOk → malloc = true → lens ≠ [])) := by
  have hnone : Stage (c.connectionClose false) ∅ :=
    .left (by simp [connectionClose]) (hl ▸ .nil) (.inl ⟨by simp [connectionClose], rfl, rfl⟩)
  have hall := (Heap.Holds.memMalloc hl).useEs.newPbufs lens
  rw [List.append_nil] at hall
  dsimp only [Client.connected]
  split_ifs with herr hm hps
  · refine ⟨∅, .serving (Serving.send ?_ turns), iff_of_true rfl ?_⟩
    · exact ⟨hp, rfl, rfl, rfl, rfl, hall.useEs.pbufTake (List.Subset.refl _)⟩
    · exact fun _ _ => mt Heap.newPbufs_eq_nil.2 hps
  · have hlens := Heap.newPbufs_eq_nil.1 (not_not.1 hps)
    refine ⟨_, .left (by simp [hp]) hall.useEs.ledger (.inl ⟨hb.recv, hb.sent, hb.poll⟩), ?_⟩
    exact iff_of_false (Set.insert_nonempty _ _).ne_empty fun h => h herr hm hlens
  · exact ⟨∅, hnone, iff_of_true rfl fun _ h => absurd h hm⟩
  · exact ⟨∅, hnone, iff_of_true rfl fun h => absurd h herr⟩

/-- An event that changes nothing and leaks nothing. -/
theorem Stage.stay (h : Stage c ∅) (heq : step c e = c) (hs : c.Spares e) :
    ∃ s', Stage (step c e) s' ∧ (s' = ∅ ↔ c.Spares e) := by
  rw [heq]
  exact ⟨∅, h, iff_of_true rfl hs⟩

/-- Before the connection is made only its own callback can leak. -/
theorem step_connecting (hp : c.pcb.phase = .connecting) (hb : c.Bare) (hl : c.heap.log = [])
    (e : Event) : ∃ s', Stage (step c e) s' ∧ (s' = ∅ ↔ c.Spares e) := by
  have hstage : Stage c ∅ := .connecting hp hb hl
  have hdown : ¬c.Up := by simp [Up, hp]
  cases e with
  | connected err malloc lens turns =>
    obtain ⟨s', hs', hiff⟩ := stage_connected (hb.enter .established) rfl hl err malloc lens turns
    rw [Client.step, if_pos hp]
    exact ⟨s', hs', hiff.trans ⟨fun h _ => h, fun h => h hp⟩⟩
  | recv lens err turns => exact hstage.stay (if_neg hdown) fun h => absurd h hdown
  | sent turns => exact hstage.stay (if_neg fun h => hdown h.1) trivial
  | poll turns => exact hstage.stay (if_neg fun h => hdown h.1) trivial
  | fatal =>
    refine ⟨∅, .left (by simp [Client.step, Client.enter]) (hl ▸ .nil) (.inl (hb.enter _)), ?_⟩
    exact iff_of_true rfl hb.recv
  | freed => exact hstage.stay (if_neg (by simp [hp])) trivial

/-- With the callbacks installed data can leak `p_tx`, and a fatal error
leaks all. -/
theorem Serving.step (hc : c.Serving) (e : Event) :
    ∃ s', Stage (step c e) s' ∧ (s' = ∅ ↔ c.Spares e) := by
  have hstage : Stage c ∅ := .serving hc
  cases e with
  | connected err malloc lens turns =>
    have hne : c.pcb.phase ≠ .connecting := by simp [hc.phase]
    exact hstage.stay (if_neg hne) fun h => absurd h hne
  | recv lens err turns =>
    obtain ⟨s', hs', hiff⟩ := hc.stage_recv (hc.holds.newPbufs lens) err turns
    rw [Client.step, if_pos hc.up, hc.recv]
    refine ⟨s', hs', hiff.trans ?_⟩
    rw [Ne, Heap.newPbufs_eq_nil]
    exact ⟨fun h _ _ => h, fun h => h hc.up hc.recv⟩
  | sent turns =>
    rw [Client.step, if_pos ⟨hc.up, hc.sent⟩]
    exact ⟨∅, .serving (hc.sent_step turns), iff_of_true rfl trivial⟩
  | poll turns =>
    rw [Client.step, if_pos ⟨hc.up, hc.poll⟩]
    exact ⟨∅, hc.stage_poll turns, iff_of_true rfl trivial⟩
  | fatal =>
    have hleak : insert Res.echoclient (chain c.es.pTx) ≠ ∅ := (Set.insert_nonempty _ _).ne_empty
    refine ⟨_, .left (by simp [Client.step, Client.enter]) hc.holds.ledger (.inr ⟨rfl, hleak⟩), ?_⟩
    exact iff_of_false hleak fun h => h hc.recv
  | freed => exact hstage.stay (if_neg (by simp [hc.phase])) trivial

/-- What has been leaked stays so, and nothing is added to it. -/
theorem Stage.step_left (hp : c.pcb.phase ≠ .connecting) (hl : Balanced c.heap.log s)
    (hb : c.Bare ∨ c.pcb.phase = .gone ∧ s ≠ ∅) (e : Event) :
    Stage (Client.step c e) s ∧ (s = ∅ → c.Spares e) := by
  rcases hb with hb | ⟨hgone, hleak⟩
  · rcases hb.step hp (e := e) with heq | ⟨p, hne, heq⟩
    · rw [heq]
      exact ⟨.left hp hl (.inl hb), fun _ => hb.spares hp⟩
    · rw [heq]
      exact ⟨.left hne hl (.inl (hb.enter p)), fun _ => hb.spares hp⟩
  · rw [step_gone hgone e]
    exact ⟨.left hp hl (.inr ⟨hgone, hleak⟩), fun h => absurd h hleak⟩

/-- **One event.** A stage leads to a stage, and leaks something when the
event is not one that the client stands. -/
theorem Stage.step (h : Stage c s) (e : Event) :
    ∃ s', Stage (step c e) s' ∧ (s' = ∅ ↔ s = ∅ ∧ c.Spares e) := by
  cases h with
  | connecting hp hb hl =>
    obtain ⟨s', hs', hiff⟩ := step_connecting hp hb hl e
    exact ⟨s', hs', hiff.trans (and_iff_right rfl).symm⟩
  | serving hc =>
    obtain ⟨s', hs', hiff⟩ := hc.step e
    exact ⟨s', hs', hiff.trans (and_iff_right rfl).symm⟩
  | left hp hl hb =>
    obtain ⟨hs, hspares⟩ := step_left hp hl hb e
    exact ⟨s, hs, (and_iff_left_of_imp hspares).symm⟩

/-! ## A connection that is gone -/

/-- Nothing is used after its release or released twice, and when the
connection is gone everything it was given has been released. -/
def Released (c : Client) : Prop :=
  Safe c.heap.log ∧ (c.pcb.phase = .gone → Settled c.heap.log)

theorem Stage.released_of_gone_iff (h : Stage c s) :
    c.Released ↔ (c.pcb.phase = .gone → s = ∅) := by
  obtain ⟨t, ht⟩ := h.balanced
  constructor
  · intro hrel hgone
    cases h with
    | connecting => rfl
    | serving => rfl
    | left _ hl _ => exact hl.settled_iff.1 (hrel.2 hgone)
  · intro hs
    refine ⟨ht.safe, fun hgone => ?_⟩
    cases h with
    | connecting hp _ _ => simp [hp] at hgone
    | serving hc => simp [hc.phase] at hgone
    | left _ hl _ => exact hl.settled_iff.2 (hs hgone)

/-- **What a connection leaves.** In every state that the events of lwIP
lead to nothing has been used after its release or released twice; and once
the connection is gone everything has been released exactly when no
`pbuf_alloc` failed after its `mem_malloc`, no data arrived while `p_tx`
waited, and no fatal error struck while the callbacks were installed. -/
theorem released_iff (n : BitVec 32) (es : List Event) :
    (run step (connect n) es).Released ↔
      ((run step (connect n) es).pcb.phase = .gone → Meets step Spares (connect n) es) := by
  have hstep : ∀ c s e, Stage c s →
      ∃ s', Stage (step c e) s' ∧ (s' = ∅ ↔ s = ∅ ∧ Spares c e) := fun _ _ e h => h.step e
  obtain ⟨s, hs, hiff⟩ := track es (stage_connect n) hstep
  rw [and_iff_right rfl] at hiff
  rw [hs.released_of_gone_iff, hiff]

/-- The structure is left when `pbuf_alloc` fails and the peer closes; the
pbuf when data comes after a `tcp_write` without memory; both after a fatal
error. -/
theorem not_released_leaks :
    ¬(run step (connect 0)
        [.connected errOk true [] [], .recv [] errOk [], .freed]).Released ∧
      ¬(run step (connect 0)
        [.connected errOk true [28] [⟨2920, errMem⟩], .recv [4] errOk [], .freed]).Released ∧
      ¬(run step (connect 0)
        [.connected errOk true [28] [⟨2920, errMem⟩], .fatal]).Released := by
  refine ⟨?_, ?_, ?_⟩
  · intro h
    exact absurd (h.2 rfl .echoclient (by decide)) (by decide)
  · intro h
    exact absurd (h.2 rfl (.pbuf 0) (by decide)) (by decide)
  · intro h
    exact absurd (h.2 rfl .echoclient (by decide)) (by decide)

end Client

end BusMonitor
