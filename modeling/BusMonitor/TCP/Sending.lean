import BusMonitor.TCP.Release
/-!
# The sending of the TCP client

`tcp_echoclient_send` gives the pbufs of `p_tx` to `tcp_write` one after
another, and stops where there is no room or an answer is not `ERR_OK`; the
next callback goes on from there. What was accepted and what `p_tx` still
holds make up the chain at every point, `sending_inOrder`.
-/


namespace BusMonitor

open Ledger Stepwise

namespace Client

/-! ## One call -/

/-- The payloads that were accepted. -/
def accepted (writes : List (Pbuf × Int)) : List Pbuf :=
  (writes.filter fun w => w.2 = errOk).map Prod.fst

variable {ts : List Turn} {ps : List Pbuf} {h : Heap} {c : Client}

theorem accepted_append (writes writes' : List (Pbuf × Int)) :
    accepted (writes ++ writes') = accepted writes ++ accepted writes' := by
  rw [accepted, List.filter_append, List.map_append]
  rfl

theorem accepted_cons_ok (p : Pbuf) (writes : List (Pbuf × Int)) :
    accepted ((p, errOk) :: writes) = p :: accepted writes := by
  simp [accepted]

theorem accepted_refused {err : Int} (p : Pbuf) (hne : err ≠ errOk) : accepted [(p, err)] = [] := by
  simp [accepted, hne]

/-- What is accepted and what is left are what there was. -/
theorem accepted_sendLoop (ts : List Turn) (ps : List Pbuf) (h : Heap) :
    accepted (sendLoop ts ps h).writes ++ (sendLoop ts ps h).pTx = ps := by
  induction ts generalizing ps h with
  | nil => rfl
  | cons t ts ih =>
    cases ps with
    | nil => rfl
    | cons p ps =>
      rw [sendLoop]
      split_ifs with hroom hok hmem
      · dsimp only
        rw [hok, accepted_cons_ok, List.cons_append, ih]
      · dsimp only
        rw [accepted_refused p hok, List.nil_append]
      · dsimp only
        rw [accepted_refused p hok, List.nil_append]
      · rfl

/-- **A call ends** after as many turns as there are pbufs, if not before:
later ones do not come to pass. -/
theorem sendLoop_append (us : List Turn) (hlen : ps.length ≤ ts.length) :
    sendLoop (ts ++ us) ps h = sendLoop ts ps h := by
  induction ts generalizing ps h with
  | nil =>
    obtain rfl : ps = [] := List.length_eq_zero_iff.1 (Nat.le_zero.1 hlen)
    cases us <;> rfl
  | cons t ts ih =>
    cases ps with
    | nil => rfl
    | cons p ps =>
      have hrest : ps.length ≤ ts.length := by
        simp only [List.length_cons] at hlen
        omega
      simp only [List.cons_append, sendLoop, ih hrest]

/-! ## Runs of callbacks -/

/-- The callbacks that send. -/
inductive SendCall where
  | sent (turns : List Turn)
  | poll (turns : List Turn)

namespace Sending

/-- A callback runs where it is installed. -/
def step (c : Client) : SendCall → Client
  | .sent turns => c.step (.sent turns)
  | .poll turns => c.step (.poll turns)

/-- The chain that `pbuf_alloc` gives a new connection. -/
def allocated (messageCount : BitVec 32) (lens : List Nat) : List Pbuf :=
  (((connect messageCount).heap.memMalloc.use .echoclient).newPbufs lens).1

/-- After `tcp_echoclient_connected`, which sends for the first time. -/
def start (messageCount : BitVec 32) (lens : List Nat) (turns : List Turn) : Client :=
  (connect messageCount).step (.connected errOk true lens turns)

/-- In order: what was accepted, in the order it was, and what `p_tx` points
to make up the chain; no payload was accepted twice; the client holds one
reference to each pbuf that is left, and has released the others; and the
next call ends within as many turns as pbufs are left. -/
structure InOrder (whole : List Pbuf) (c : Client) : Prop where
  split : accepted c.writes ++ c.es.pTx = whole
  once : ((accepted c.writes).map Pbuf.id).Nodup
  held : c.heap.Holds c.es.pTx
  ends : ∀ ts us, c.es.pTx.length ≤ ts.length → c.send (ts ++ us) = c.send ts

/-- The callbacks are installed, the peer has not closed, and what was
accepted is what `p_tx` has moved past. -/
structure Underway (whole : List Pbuf) (c : Client) : Prop where
  serving : c.Serving
  connected : c.es.state = .esConnected
  split : accepted c.writes ++ c.es.pTx = whole

variable {whole : List Pbuf}

namespace Underway

theorem inOrder (hc : Underway whole c) (hnodup : (whole.map Pbuf.id).Nodup) :
    InOrder whole c where
  split := hc.split
  once := by
    rw [← hc.split, List.map_append] at hnodup
    exact (List.nodup_append.1 hnodup).1
  held := hc.serving.holds
  ends ts us hlen := by
    rw [Client.send, sendLoop_append us hlen]
    rfl

theorem withHeap (hc : Underway whole c) (hh : h.Holds c.es.pTx) :
    Underway whole { c with heap := h } :=
  ⟨hc.serving.withHeap hh, hc.connected, hc.split⟩

/-- A call of `tcp_echoclient_send`. -/
theorem send (hc : Underway whole c) (ts : List Turn) : Underway whole (c.send ts) where
  serving := hc.serving.send ts
  connected := hc.connected
  split := by
    rw [Client.send, accepted_append, List.append_assoc, accepted_sendLoop]
    exact hc.split

/-- **One callback.** -/
theorem step (hc : Underway whole c) (call : SendCall) : Underway whole (step c call) := by
  have hes := hc.withHeap hc.serving.holds.useEs
  cases call with
  | sent turns =>
    rw [Sending.step, Client.step, if_pos ⟨hc.serving.up, hc.serving.sent⟩, Client.sent]
    dsimp only
    split_ifs
    · exact hes.send turns
    · exact hes
  | poll turns =>
    rw [Sending.step, Client.step, if_pos ⟨hc.serving.up, hc.serving.poll⟩, Client.poll,
      if_pos hc.serving.arg]
    dsimp only
    -- the peer has not closed, so a poll with nothing to send does not either
    split_ifs with hne hclosing
    · exact hes.send turns
    · exact absurd (hc.connected.symm.trans hclosing) EchoclientStates.noConfusion
    · exact hes

end Underway

/-- The structure and the new chain. -/
theorem holds_allocated (messageCount : BitVec 32) (lens : List Nat) :
    (((connect messageCount).heap.memMalloc.use .echoclient).newPbufs lens).2.Holds
      (allocated messageCount lens) := by
  have hall := (Heap.Holds.memMalloc (h := (connect messageCount).heap) rfl).useEs.newPbufs lens
  rwa [List.append_nil] at hall

/-- The callback of the new connection sends what it has allocated. -/
theorem underway_start (messageCount : BitVec 32) (len : Nat) (lens : List Nat)
    (turns : List Turn) :
    Underway (allocated messageCount (len :: lens)) (start messageCount (len :: lens) turns) := by
  have hall := holds_allocated messageCount (len :: lens)
  have htaken := hall.useEs.pbufTake (List.Subset.refl _)
  have hready : Underway (allocated messageCount (len :: lens))
      { pcb := ⟨.established, .echoclientRecv, true, true, true⟩
        es := ⟨.esConnected, allocated messageCount (len :: lens)⟩
        heap := _
        messageCount := messageCount
        data := "sending tcp client message " ++ toString messageCount.toInt
        writes := [] } :=
    ⟨⟨rfl, rfl, rfl, rfl, rfl, htaken⟩, rfl, rfl⟩
  exact hready.send turns

/-- **Sending in order.** Whatever the room and the answers of `tcp_write`,
after any callbacks that send: the payloads accepted are the first ones of
the chain, each accepted once, and `p_tx` holds the rest. -/
theorem sending_inOrder (messageCount : BitVec 32) (len : Nat) (lens : List Nat)
    (turns : List Turn) (calls : List SendCall) :
    InOrder (allocated messageCount (len :: lens))
      (run step (start messageCount (len :: lens) turns) calls) := by
  have hstart := underway_start messageCount len lens turns
  have hrun : Underway (allocated messageCount (len :: lens))
      (run step (start messageCount (len :: lens) turns) calls) :=
    List.foldlRecOn calls step hstart fun _ hc call _ => hc.step call
  exact hrun.inOrder (holds_allocated messageCount (len :: lens)).nodup

end Sending

end Client

end BusMonitor
