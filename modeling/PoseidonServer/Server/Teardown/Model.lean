import Mathlib.Algebra.Group.Pi.Basic
import Mathlib.Data.List.Permutation
import PoseidonServer.Server.Listen

/-! The server around its connections: the accept loops with the streams they start, `Close` and
`Shutdown`, and the transport counters. -/

namespace PoseidonServer.Server.Teardown

open Concurrent

/-- The counters of `conn.ConnStats`; `GoAwaySent` counts as zero or one. -/
inductive Counter
  | bytesSent | bytesReceived | framesSent | framesReceived | streamsAccepted | rapidResets
  | goAwaySent
  deriving DecidableEq

def Counter.all : List Counter :=
  [bytesSent, bytesReceived, framesSent, framesReceived, streamsAccepted, rapidResets, goAwaySent]

abbrev Stats := Counter → Nat

/-- What `TransportStats` has returned, and a history of the call: the connections that were live,
those whose counters had been folded, all that had ever been tracked, and the counters when the call
took `s.mu` and when it returned. -/
structure View where
  activeConns : Nat
  total : Stats
  -- history
  live : List Nat
  folded : List (Nat × Stats)
  ever : List Nat
  low : Nat → Stats
  high : Nat → Stats

structure Book where
  conns : List Nat := []
  closedStats : Stats := 0
  counters : Nat → Stats := 0
  -- history
  ever : List Nat := []
  folded : List (Nat × Stats) := []
  /-- The counters when `s.mu` was last taken or `TransportStats` last returned. -/
  floor : Nat → Stats := 0
  views : List View := []

structure Streams where
  shutdown : Bool := false
  inFlight : Nat := 0
  done : Bool := false
  -- history
  admitted : Nat := 0
  /-- The streams handed to `serveStream`, each with the flag at that time. -/
  handed : List (Nat × Bool) := []
  finished : List Nat := []
  /-- How many had been let in when the flag was set. -/
  flagged : Option Nat := none
  /-- Those that had finished when `Shutdown` came to return nil. -/
  drained : Option (List Nat) := none

structure Ends where
  made : Nat := 0
  owner : Nat → Nat := 0
  isOpen : Nat → Bool := fun _ => false
  closer : Option Nat := none
  snapshot : List Nat := []
  left : List Nat := []

structure State where
  mu : Option Nat := none
  listeners : List Nat := []
  closed : Bool := false
  book : Book := {}
  streams : Streams := {}
  ends : Ends := {}

/-- The atomic steps. A section under `s.mu` with nothing to wait for is one step. -/
inductive Op : Type → Type
  | listen (ln : Nat) : Op Bool
  | unlisten (ln : Nat) : Op Unit
  | accept (ln : Nat) : Op Bool
  | contextDone : Op Bool
  | connCount : Op Nat
  | detect : Op Bool
  | newServerConn : Op (Option Nat)
  | tlsAdmissible (k : Nat) : Op Bool
  | closeConn (k : Nat) : Op Unit
  | acceptStream (k : Nat) : Op (Except Listen.AcceptErr Unit)
  | activeStreams (k : Nat) : Op Bool
  | lock : Op Unit
  | unlock : Op Unit
  | track (k : Nat) : Op Unit
  | isTracked (k : Nat) : Op Bool
  | load (k : Nat) (f : Counter) : Op Nat
  | fold (k : Nat) (st : Stats) : Op Unit
  /-- `closedStats`, and the connections in the order in which they are ranged over. -/
  | totals : Op (Stats × List Nat)
  | report (ts : Stats) (activeConns : Nat) : Op Unit
  | add : Op (Option Nat)
  | hand (s : Nat) : Op Unit
  | finish (s : Nat) : Op Unit
  | beginClose (shutdown : Bool) : Op (Option (List Nat))
  | wait : Op Unit
  | closeDone : Op Unit
  /-- The `select` of `Shutdown`: whether the streams are done, not the context. -/
  | select : Op Bool
  /-- A connection sends or receives. -/
  | count (k : Nat) (st : Stats) : Op Unit

namespace Op

variable (i : Nat) (w : State)

def underMu (r : List (β × State)) : List (β × State) := if w.mu = none then r else []

/-- An answer of the network, of the client or of package `conn` may be any. -/
def exec : Op β → List (β × State)
  | .listen ln => underMu w [if w.closed then (false, w)
      else (true, { w with listeners := ln :: w.listeners })]
  | .unlisten ln => underMu w [((), { w with listeners := w.listeners.erase ln })]
  | .accept ln => (if ln ∈ w.listeners then [(true, w)] else []) ++ [(false, w)]
  | .connCount => underMu w [(w.book.conns.length, w)]
  | .contextDone | .detect | .tlsAdmissible _ | .activeStreams _ => [(true, w), (false, w)]
  | .newServerConn => [(some w.ends.made, { w with ends := { w.ends with
        made := w.ends.made + 1
        owner := Function.update w.ends.owner w.ends.made i
        isOpen := Function.update w.ends.isOpen w.ends.made true } }), (none, w)]
  | .closeConn k => [((), { w with ends := { w.ends with
      isOpen := Function.update w.ends.isOpen k false
      left := w.ends.left.filter (· ≠ k) } })]
  | .acceptStream _ => [(.ok (), w), (.error .connClosed, w), (.error .deadlineExceeded, w),
      (.error .other, w)]
  | .lock => underMu w [((), { w with mu := some i, book := { w.book with
      floor := w.book.counters } })]
  | .unlock => [((), { w with mu := none })]
  | .track k => [((), { w with book := { w.book with
      conns := k :: w.book.conns.erase k
      ever := k :: w.book.ever } })]
  | .isTracked k => [(decide (k ∈ w.book.conns), w)]
  | .load k f => [(w.book.counters k f, w)]
  | .fold k st => [((), { w with book := { w.book with
      conns := w.book.conns.erase k
      closedStats := w.book.closedStats + st
      folded := w.book.folded ++ [(k, st)] } })]
  | .totals => w.book.conns.permutations.map fun ks => ((w.book.closedStats, ks), w)
  | .report ts activeConns => [((), { w with book := { w.book with
      views := w.book.views ++ [{
        activeConns := activeConns
        total := ts
        live := w.book.conns
        folded := w.book.folded
        ever := w.book.ever
        low := w.book.floor
        high := w.book.counters }]
      floor := w.book.counters } })]
  | .add => underMu w [if w.streams.shutdown || w.closed then (none, w)
      else (some w.streams.admitted, { w with streams := { w.streams with
        inFlight := w.streams.inFlight + 1
        admitted := w.streams.admitted + 1 } })]
  | .hand s => [((), { w with streams := { w.streams with
      handed := w.streams.handed ++ [(s, w.streams.shutdown)] } })]
  | .finish s => [((), { w with streams := { w.streams with
      inFlight := w.streams.inFlight - 1
      finished := w.streams.finished ++ [s] } })]
  | .beginClose shutdown => if w.closed then [(none, w)]
      else w.book.conns.permutations.map fun ks => (some ks, { w with
        closed := true
        listeners := []
        streams := if shutdown then { w.streams with
          shutdown := true, flagged := some w.streams.admitted } else w.streams
        ends := { w.ends with closer := some i, snapshot := ks, left := ks } })
  | .wait => if w.streams.inFlight = 0 then [((), w)] else []
  | .closeDone => [((), { w with streams := { w.streams with done := true } })]
  | .select => (if w.streams.done then [(true, { w with streams := { w.streams with
      drained := some w.streams.finished } })] else []) ++ [(false, w)]
  | .count k st => [((), { w with book := { w.book with
      counters := Function.update w.book.counters k fun f =>
        max (w.book.counters k f) (if f = .goAwaySent then min (st f) 1 else st f) } })]

end Op

abbrev machine : Machine Op State where
  exec i _ o w := o.exec i w

abbrev M := Prog Op

def loadEach (k : Nat) : List Counter → M Stats
  | [] => pure 0
  | f :: fs => do
    let n ← .lift (.load k f)
    let st ← loadEach k fs
    pure (Function.update st f n)

def stats (k : Nat) : M Stats := loadEach k Counter.all

def forgetConn (k : Nat) : M Unit := do
  if ← .lift (.isTracked k) then
    let st ← stats k
    .lift (.fold k st)

def trackConn (k : Nat) (add : Bool) : M Unit := do
  .lift .lock
  if add then .lift (.track k) else forgetConn k
  .lift .unlock

def addEach (ts : Stats) : List Nat → M Stats
  | [] => pure ts
  | k :: ks => do
    let st ← stats k
    addEach (ts + st) ks

def transportStats : M Unit := do
  .lift .lock
  let (ts, ks) ← .lift .totals
  let ts ← addEach ts ks
  .lift (.report ts ks.length)
  .lift .unlock

/-- Whatever the handler does, it ends with the deferred `s.inFlight.Done()`. -/
def serveStream (s : Nat) : M Unit := .lift (.finish s)

def spawnStream : M Bool := do
  match ← .lift .add with
  | none => pure false
  | some s =>
    .lift (.hand s)
    .go (serveStream s)
    pure true

def closeIfFinished (k : Nat) (e : Listen.AcceptErr) : M Unit := do
  match e with
  | .connClosed => .lift (.closeConn k)
  | .deadlineExceeded =>
    if ← .lift (.activeStreams k) then pure () else .lift (.closeConn k)
  | .other => pure ()

def acceptLoop (opts : Listen.Options) (k : Nat) : M Unit :=
  .forever () fun _ => do
    match ← .lift (.acceptStream k) with
    | .error e =>
      if opts.idleTimeout && e == .deadlineExceeded then
        if ← .lift (.activeStreams k) then pure (.inl ())
        else
          closeIfFinished k e
          pure (.inr ())
      else
        closeIfFinished k e
        pure (.inr ())
    | .ok () => if ← spawnStream then pure (.inl ()) else pure (.inr ())

/-- `serveConn`, and `serveConnReader` behind the probe of `detectAndServe`. A transport without a
`ServerConn` is closed where no step of this model sees it. -/
def serveConn (opts : Listen.Options) : M Unit := do
  match ← .lift .newServerConn with
  | none => pure ()
  | some k =>
    if ← .lift (.tlsAdmissible k) then
      trackConn k true
      acceptLoop opts k
      trackConn k false
    else .lift (.closeConn k)

def detectAndServe (opts : Listen.Options) : M Unit := do
  if ← .lift .detect then serveConn opts

def closeEach : List Nat → M Unit
  | [] => pure ()
  | k :: ks => do
    .lift (.closeConn k)
    forgetConn k
    closeEach ks

def close : M Unit := do
  .lift .lock
  match ← .lift (.beginClose false) with
  | none => pure ()
  | some ks => closeEach ks
  .lift .unlock

def awaitInFlight : M Unit := do
  .lift .wait
  .lift .closeDone

/-- `Server.Shutdown`; the GOAWAY frames it sends close nothing. -/
def shutdown : M Unit := do
  .lift .lock
  match ← .lift (.beginClose true) with
  | none => .lift .unlock
  | some ks =>
    .lift .unlock
    .go awaitInFlight
    let _ ← .lift .select
    .lift .lock
    closeEach ks
    .lift .unlock

def watchContext : M Unit := do
  if ← .lift .contextDone then close

def examine (opts : Listen.Options) : M Unit := do
  let n ← .lift .connCount
  if 0 < opts.maxConcurrentConnections ∧ opts.maxConcurrentConnections ≤ n then pure ()
  else .go (if opts.h2c then detectAndServe opts else serveConn opts)

def serve (opts : Listen.Options) (ln : Nat) : M Unit := do
  if ← .lift (.listen ln) then
    .go watchContext
    .forever () fun _ => do
      if ← .lift (.accept ln) then
        examine opts
        pure (.inl ())
      else pure (.inr ())
    .lift (.unlisten ln)

/-- What may start at any time: a call of the server, and what package `conn` does by itself: a
connection closes, and its counters go up. -/
inductive Call
  | serve (ln : Nat)
  | close
  | shutdown
  | transportStats
  | drop (k : Nat)
  | count (k : Nat) (st : Stats)

def Call.body (opts : Listen.Options) : Call → M Unit
  | .serve ln => Teardown.serve opts ln
  | .close => Teardown.close
  | .shutdown => Teardown.shutdown
  | .transportStats => Teardown.transportStats
  | .drop k => .lift (.closeConn k)
  | .count k st => .lift (.count k st)

def anyRun : Guard Op State Call := ⟨fun _ _ => True, fun _ _ _ _ => True⟩

/-- When the goroutine of a connection comes to forget it, the connection is closed or `Close` or
`Shutdown` has found it. -/
def handsOver : Guard Op State Call where
  callOk _ _ := True
  opOk i w _ o := match o with
    | .isTracked k => k < w.ends.made → w.ends.owner k = i → w.ends.isOpen k = true →
        k ∈ w.ends.snapshot
    | _ => True

def guardOf (strict : Bool) : Guard Op State Call := if strict then handsOver else anyRun

def Returned (c : Config Op State) (i : Nat) : Prop := ∀ p, c.threads[i]? = some p → p = .ret ()

end PoseidonServer.Server.Teardown
