import BusMonitor.Lib.Ledger
import BusMonitor.Lib.Run
import Mathlib.Logic.Function.Basic
/-!
# The TCP client

The callbacks that the client gives to lwIP, and what they do with the
structure of the connection and with pbufs. How much room the stack has,
whether an allocation succeeds and what arrives is the stack's affair and
comes with each event. The client installs no `tcp_err` callback, so a
fatal error runs none of its code.
-/


namespace BusMonitor

open Ledger Stepwise

/-! ## Memory -/

/-- A pbuf of a chain: the name of its memory, and its `len`. -/
structure Pbuf where
  id : Nat
  len : Nat
  deriving DecidableEq

/-- What a connection is given. It allocates one `struct echoclient` at
most. -/
inductive Res where
  | echoclient
  | pbuf (id : Nat)
  deriving DecidableEq

/-- The reference counts of the pbufs, the next name, and what was done:
reads with no release between them are one entry. -/
structure Heap where
  ref : Nat → BitVec 16
  next : Nat
  log : List (Entry Res)

namespace Heap

def use (r : Res) (h : Heap) : Heap := { h with log := .use r :: h.log }

def release (r : Res) (h : Heap) : Heap := { h with log := .release r :: h.log }

/-- `mem_malloc(sizeof(struct echoclient))` that succeeds. -/
def memMalloc (h : Heap) : Heap := { h with log := .take .echoclient :: h.log }

def memFree (h : Heap) : Heap := h.release .echoclient

/-- A new chain with a pbuf for each length: from `pbuf_alloc`, or received.
No length is `NULL`. -/
def newPbufs : List Nat → Heap → List Pbuf × Heap
  | [], h => ([], h)
  | len :: lens, h =>
    let q := newPbufs lens
      { ref := Function.update h.ref h.next 1
        next := h.next + 1
        log := .take (.pbuf h.next) :: h.log }
    (⟨h.next, len⟩ :: q.1, q.2)

/-- `pbuf_take`, which copies into each pbuf of the chain. -/
def pbufTake (ps : List Pbuf) (h : Heap) : Heap :=
  ps.foldl (fun h p => h.use (.pbuf p.id)) h

def pbufRef (p : Pbuf) (h : Heap) : Heap :=
  { h.use (.pbuf p.id) with ref := Function.update h.ref p.id (h.ref p.id + 1) }

/-- `pbuf_free`: one reference less, and on to the next pbuf of the chain
where it was the last one. -/
def pbufFree : List Pbuf → Heap → Heap
  | [], h => h
  | p :: ps, h =>
    let ref := h.ref p.id - 1
    let h := { h.use (.pbuf p.id) with ref := Function.update h.ref p.id ref }
    if ref = 0 then pbufFree ps (h.release (.pbuf p.id)) else h

end Heap

/-! ## The callbacks -/

def errOk : Int := 0
def errMem : Int := -1
def errAbrt : Int := -13

/-- `echoclient_states`. -/
inductive EchoclientStates where
  | esNotConnected
  | esConnected
  | esReceived
  | esClosing
  deriving DecidableEq

/-- `struct echoclient`, with the chain that `p_tx` points to. -/
structure Echoclient where
  state : EchoclientStates
  pTx : List Pbuf

/-- How far a connection is. -/
inductive Phase where
  | connecting
  | established
  | closing
  | gone
  deriving DecidableEq

/-- The `recv` of a pcb: lwIP's own at first, and `NULL` after a close. -/
inductive RecvFn where
  | tcpRecvNull
  | echoclientRecv
  | null
  deriving DecidableEq

/-- Which callbacks the pcb has, and whether its argument is the structure
of the connection or `NULL`. -/
structure Pcb where
  phase : Phase
  recv : RecvFn
  sent : Bool
  poll : Bool
  arg : Bool

/-- A connection of the client, with the calls of `tcp_write` made on it and
their answers. -/
structure Client where
  pcb : Pcb
  es : Echoclient
  heap : Heap
  messageCount : BitVec 32
  data : String
  writes : List (Pbuf × Int)

/-- One turn of the sending loop: `tcp_sndbuf`, and the answer of
`tcp_write`. -/
structure Turn where
  sndbuf : Nat
  err : Int

/-- What the sending loop leaves: `p_tx`, the memory, and its calls of
`tcp_write`. -/
structure LoopEnd where
  pTx : List Pbuf
  heap : Heap
  writes : List (Pbuf × Int)

namespace Client

/-- After `tcp_echoclient_connect`. -/
def connect (messageCount : BitVec 32) : Client where
  pcb := ⟨.connecting, .tcpRecvNull, false, false, false⟩
  es := ⟨.esNotConnected, []⟩
  heap := ⟨fun _ => 0, 0, []⟩
  messageCount := messageCount
  data := ""
  writes := []

/-- What the test of the sending loop reads. -/
def loopTest : List Pbuf → Heap → Heap
  | [], h => h.use .echoclient
  | p :: _, h => (h.use .echoclient).use (.pbuf p.id)

/-- After `tcp_write`: `p_tx` moves on to the next pbuf, which is referenced
before the first one is freed. -/
def advance (p : Pbuf) (ps : List Pbuf) (h : Heap) : Heap :=
  let h := (h.use (.pbuf p.id)).use .echoclient
  let h := match ps with
    | [] => h
    | q :: _ => h.pbufRef q
  h.pbufFree (p :: ps)

/-- The loop of `tcp_echoclient_send`, on what `p_tx` points to. There is no
room at a turn that is not listed. -/
def sendLoop : List Turn → List Pbuf → Heap → LoopEnd
  | [], ps, h => ⟨ps, loopTest ps h, []⟩
  | _ :: _, [], h => ⟨[], loopTest [] h, []⟩
  | t :: ts, p :: ps, h =>
    let h := loopTest (p :: ps) h
    if p.len ≤ t.sndbuf then
      let h := h.use (.pbuf p.id)
      if t.err = errOk then
        let q := sendLoop ts ps (advance p ps h)
        { q with writes := (p, t.err) :: q.writes }
      else if t.err = errMem then ⟨p :: ps, h.use .echoclient, [(p, t.err)]⟩
      else ⟨p :: ps, h, [(p, t.err)]⟩
    else ⟨p :: ps, h, []⟩

/-- `tcp_echoclient_send`. -/
def send (turns : List Turn) (c : Client) : Client :=
  let q := sendLoop turns c.es.pTx c.heap
  { c with
    es := { c.es with pTx := q.pTx }
    heap := q.heap
    writes := c.writes ++ q.writes }

/-- `tcp_echoclient_connection_close`; `es` tells whether it is given the
structure. -/
def connectionClose (es : Bool) (c : Client) : Client :=
  { c with
    pcb := { c.pcb with phase := .closing, recv := .null, sent := false, poll := false }
    heap := if es then c.heap.memFree else c.heap }

/-- `tcp_echoclient_connected`, with its return code. `malloc` tells whether
`mem_malloc` succeeds, and `pbuf_alloc` gives a chain of these lengths. -/
def connected (err : Int) (malloc : Bool) (lens : List Nat) (turns : List Turn) (c : Client) :
    Client × Int :=
  if err = errOk then
    if malloc then
      let q := (c.heap.memMalloc.use .echoclient).newPbufs lens
      let c := { c with
        es := ⟨.esConnected, q.1⟩
        heap := q.2.use .echoclient
        data := "sending tcp client message " ++ toString c.messageCount.toInt }
      if c.es.pTx ≠ [] then
        let pcb := { c.pcb with arg := true, recv := .echoclientRecv, sent := true, poll := true }
        (({ c with heap := c.heap.pbufTake c.es.pTx, pcb := pcb } : Client).send turns, errOk)
      else (c, err)
    else (c.connectionClose false, errMem)
  else (c.connectionClose false, err)

/-- `tcp_echoclient_recv`, with its return code; no pbuf is `NULL`. -/
def recv (p : List Pbuf) (err : Int) (turns : List Turn) (c : Client) : Client × Int :=
  match p with
  | [] =>
    let c := { c with
      es := { c.es with state := .esClosing }
      heap := c.heap.use .echoclient }
    if c.es.pTx = [] then (c.connectionClose true, errOk) else (c.send turns, errOk)
  | q :: _ =>
    if err ≠ errOk then ({ c with heap := c.heap.pbufFree p }, err)
    else
      let h := (c.heap.use .echoclient).use (.pbuf q.id)
      if c.es.state = .esConnected then
        let c := { c with messageCount := c.messageCount + 1, heap := h.pbufFree p }
        (c.connectionClose true, errOk)
      else ({ c with heap := h.pbufFree p }, errOk)

/-- `tcp_echoclient_sent`, with its return code. -/
def sent (turns : List Turn) (c : Client) : Client × Int :=
  let c := { c with heap := c.heap.use .echoclient }
  if c.es.pTx ≠ [] then (c.send turns, errOk) else (c, errOk)

/-- `tcp_echoclient_poll`, with its return code; `tcp_abort` frees the pcb. -/
def poll (turns : List Turn) (c : Client) : Client × Int :=
  if c.pcb.arg then
    let c := { c with heap := c.heap.use .echoclient }
    if c.es.pTx ≠ [] then (c.send turns, errOk)
    else if c.es.state = .esClosing then (c.connectionClose true, errOk)
    else (c, errOk)
  else ({ c with pcb := { c.pcb with phase := .gone } }, errAbrt)

/-! ## What lwIP does -/

/-- What can happen to a connection. A `recv` with no lengths is the peer's
close, and `freed` the end of a pcb that has been closed. -/
inductive Event where
  | connected (err : Int) (malloc : Bool) (lens : List Nat) (turns : List Turn)
  | recv (lens : List Nat) (err : Int) (turns : List Turn)
  | sent (turns : List Turn)
  | poll (turns : List Turn)
  | fatal
  | freed

/-- Established, and not freed yet. -/
def Up (c : Client) : Prop := c.pcb.phase = .established ∨ c.pcb.phase = .closing

instance (c : Client) : Decidable c.Up := inferInstanceAs (Decidable (_ ∨ _))

def enter (p : Phase) (c : Client) : Client := { c with pcb := { c.pcb with phase := p } }

/-- An event runs the callback that is installed for it. -/
def step (c : Client) : Event → Client
  | .connected err malloc lens turns =>
    if c.pcb.phase = .connecting then
      ((c.enter .established).connected err malloc lens turns).1
    else c
  | .recv lens err turns =>
    if c.Up then
      match c.pcb.recv with
      | .null => c
      -- `tcp_recv_null` frees what arrives, and closes when the peer does
      | .tcpRecvNull => if lens = [] ∧ err = errOk then c.enter .closing else c
      | .echoclientRecv =>
        let q := c.heap.newPbufs lens
        (({ c with heap := q.2 } : Client).recv q.1 err turns).1
    else c
  | .sent turns => if c.Up ∧ c.pcb.sent then (c.sent turns).1 else c
  | .poll turns => if c.Up ∧ c.pcb.poll then (c.poll turns).1 else c
  | .fatal => c.enter .gone
  | .freed => if c.pcb.phase = .closing then c.enter .gone else c

end Client

end BusMonitor
