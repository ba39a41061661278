import Mathlib.Data.List.Perm.Subperm
import PoseidonServer.Concurrent.Logic

/-! The accept loops of the server and the goroutines of its connections: how many connections
are open at a time. -/

namespace PoseidonServer.Listen

open Concurrent

structure Options where
  maxConcurrentConnections : Int
  h2c : Bool := false
  idleTimeout : Bool := true

/-- Why `AcceptStream` returns without a stream. -/
inductive AcceptErr
  | connClosed | deadlineExceeded | other
  deriving DecidableEq

/-- The fields of `Server` behind `s.mu`, and a history of the connections: those that are not
closed, and those that a goroutine examines. -/
structure State where
  mu : Option Nat := none
  listeners : List Nat := []
  conns : List Nat := []
  closed : Bool := false
  shutdown : Bool := false
  -- history
  accepted : Nat := 0
  unclosed : List Nat := []
  examined : List (Nat × Nat) := []
  deriving DecidableEq

def State.decide (w : State) (c : Nat) : State :=
  { w with examined := w.examined.filter (·.2 ≠ c) }

/-- The atomic steps. A section under `s.mu` is one step; `Close` and `Shutdown` hold it across
the steps that close connections. -/
inductive Op : Type → Type
  | listen (ln : Nat) : Op Bool
  | unlisten (ln : Nat) : Op Unit
  | accept (ln : Nat) : Op (Option Nat)
  | connCount (c : Nat) : Op Nat
  | closeConn (c : Nat) : Op Unit
  | detect (c : Nat) : Op Bool
  | newServerConn (c : Nat) : Op Bool
  | tlsAdmissible (c : Nat) : Op Bool
  | trackConn (c : Nat) (add : Bool) : Op Unit
  | acceptStream (c : Nat) : Op (Except AcceptErr Unit)
  | activeStreams (c : Nat) : Op Bool
  | spawnStream : Op Bool
  | lock : Op Unit
  | unlock : Op Unit
  | beginClose (shutdown : Bool) : Op (Option (List Nat))
  | forgetConn (c : Nat) : Op Unit
  | awaitInFlight : Op Unit

namespace Op

variable (opts : Options) (i : Nat) (w : State)

def underMu (r : β × State) : List (β × State) := if w.mu = none then [r] else []

/-- An answer of the network, of the client or of package `conn` may be any. The history keeps a
connection as examined from the accept to the check that lets it pass. -/
def exec : Op β → List (β × State)
  | .listen ln => underMu w (if w.closed then (false, w)
      else (true, { w with listeners := ln :: w.listeners }))
  | .unlisten ln => underMu w ((), { w with listeners := w.listeners.erase ln })
  | .accept ln =>
    (if ln ∈ w.listeners then [(some w.accepted, { w with
      accepted := w.accepted + 1
      unclosed := w.accepted :: w.unclosed
      examined := (i, w.accepted) :: w.examined })] else []) ++ [(none, w)]
  | .connCount c => underMu w (w.conns.length,
      if 0 < opts.maxConcurrentConnections ∧ opts.maxConcurrentConnections ≤ w.conns.length then w
      else w.decide c)
  | .closeConn c =>
    [((), { w.decide c with unclosed := w.unclosed.erase c })]
  | .detect _ | .newServerConn _ | .tlsAdmissible _ | .activeStreams _ => [(true, w), (false, w)]
  | .trackConn c add => underMu w ((), { w with
      conns := if add then c :: w.conns.erase c else w.conns.erase c })
  | .acceptStream _ => [(.ok (), w), (.error .connClosed, w), (.error .deadlineExceeded, w),
      (.error .other, w)]
  | .spawnStream => underMu w (!(w.shutdown || w.closed), w)
  | .lock => if w.mu = none then [((), { w with mu := some i })] else []
  | .unlock => [((), { w with mu := none })]
  | .beginClose shutdown =>
    [if w.closed then (none, w)
      else (some w.conns, { w with
        closed := true, shutdown := w.shutdown || shutdown, listeners := [] })]
  | .forgetConn c => [((), { w with conns := w.conns.erase c })]
  | .awaitInFlight => [((), w)]

end Op

abbrev machine (opts : Options) : Machine Op State where
  exec i _ o w := o.exec opts i w

abbrev M := Prog Op

def closeIfFinished (c : Nat) (e : AcceptErr) : M Unit := do
  match e with
  | .connClosed => .lift (.closeConn c)
  | .deadlineExceeded =>
    if ← .lift (.activeStreams c) then pure () else .lift (.closeConn c)
  | .other => pure ()

def acceptLoop (opts : Options) (c : Nat) : M Unit :=
  .forever () fun _ => do
    match ← .lift (.acceptStream c) with
    | .error e =>
      if opts.idleTimeout && e == .deadlineExceeded then
        if ← .lift (.activeStreams c) then pure (.inl ())
        else
          closeIfFinished c e
          pure (.inr ())
      else
        closeIfFinished c e
        pure (.inr ())
    | .ok () => if ← .lift .spawnStream then pure (.inl ()) else pure (.inr ())

/-- `serveConn`, and `serveConnReader` behind the probe of `detectAndServe`. -/
def serveConn (opts : Options) (c : Nat) : M Unit := do
  if ← .lift (.newServerConn c) then
    if ← .lift (.tlsAdmissible c) then
      .lift (.trackConn c true)
      acceptLoop opts c
      .lift (.trackConn c false)
    else .lift (.closeConn c)
  else .lift (.closeConn c)

def detectAndServe (opts : Options) (c : Nat) : M Unit := do
  if ← .lift (.detect c) then serveConn opts c else .lift (.closeConn c)

def examine (opts : Options) (c : Nat) : M Unit := do
  let n ← .lift (.connCount c)
  if 0 < opts.maxConcurrentConnections ∧ opts.maxConcurrentConnections ≤ n then
    .lift (.closeConn c)
  else .go (if opts.h2c then detectAndServe opts c else serveConn opts c)

def serve (opts : Options) (ln : Nat) : M Unit := do
  if ← .lift (.listen ln) then
    .forever () fun _ => do
      match ← .lift (.accept ln) with
      | none => pure (.inr ())
      | some c =>
        examine opts c
        pure (.inl ())
    .lift (.unlisten ln)
  else pure ()

def closeEach : List Nat → M Unit
  | [] => pure ()
  | c :: cs => do
    .lift (.closeConn c)
    .lift (.forgetConn c)
    closeEach cs

def close : M Unit := do
  .lift .lock
  match ← .lift (.beginClose false) with
  | none => pure ()
  | some cs => closeEach cs
  .lift .unlock

/-- `Server.Shutdown`; the GOAWAY frames it sends close nothing. -/
def shutdown : M Unit := do
  .lift .lock
  match ← .lift (.beginClose true) with
  | none => .lift .unlock
  | some cs =>
    .lift .unlock
    .lift .awaitInFlight
    .lift .lock
    closeEach cs
    .lift .unlock

/-- What may start at any time: a call of `Serve` with a listener, of `Close`, of `Shutdown`, and a
connection that package `conn` closes by itself. -/
inductive Call
  | serve (ln : Nat)
  | close
  | shutdown
  | drop (c : Nat)
  deriving DecidableEq

def Call.body (opts : Options) : Call → M Unit
  | .serve ln => Listen.serve opts ln
  | .close => Listen.close
  | .shutdown => Listen.shutdown
  | .drop c => .lift (.closeConn c)

def State.passed (w : State) : List Nat := w.unclosed.filter (· ∉ w.examined.map Prod.snd)

/-- Those of them that `ConnCount` does not see: in the handshake, or left by `acceptLoop`. -/
def State.untracked (w : State) : List Nat := w.passed.filter (· ∉ w.conns)

/-- The check lets a connection pass only if those that it does not see leave room for it. -/
def counted (opts : Options) : Guard Op State Call where
  callOk _ _ := True
  opOk _ w _ o := match o with
    | .connCount _ => (w.conns.length : Int) < opts.maxConcurrentConnections →
        ((w.conns.length + w.untracked.length : Nat) : Int) < opts.maxConcurrentConnections
    | _ => True

def Idle (i : Nat) (w : State) : Prop := ∀ p ∈ w.examined, p.1 ≠ i

structure Inv (opts : Options) (w : State) : Prop where
  loops : (w.examined.map Prod.fst).Nodup
  nodup : w.unclosed.Nodup
  fresh : ∀ c ∈ w.unclosed, c < w.accepted
  examined : ∀ p ∈ w.examined, p.2 < w.accepted
  capped : (w.passed.length : Int) ≤ opts.maxConcurrentConnections

def spec (opts : Options) : Spec (machine opts) (counted opts) PUnit where
  inv w _ := Inv opts w
  rely i w w' := ∀ p ∈ w'.examined, p.1 = i → p ∈ w.examined
  rely_refl := fun _ _ _ hp _ => hp
  rely_trans := fun h h' p hp hi => h p (h' p hp hi) hi
  pre i w _ o := match o with
    | .accept _ => Idle i w
    | _ => True
  fin i w := Idle i w
  fin_rely := fun h hf p hp hi => hf p (h p hp hi) hi

variable {opts : Options} {i : Nat} {w w' : State}

def Op.still : Op β → Bool
  | .accept _ | .connCount _ | .closeConn _ => false
  | _ => true

def State.history (w : State) := (w.accepted, w.unclosed, w.examined)

theorem mem_underMu {x r : β × State} : x ∈ Op.underMu w r ↔ w.mu = none ∧ x = r := by
  unfold Op.underMu
  split <;> simp_all

theorem history_of_exec {o : Op β} {b : β} (ho : o.still = true)
    (hb : (b, w') ∈ Op.exec opts i w o) : w'.history = w.history := by
  cases o <;> simp only [Op.still, Bool.false_eq_true] at ho <;>
    simp only [Op.exec, mem_underMu, List.mem_cons, List.not_mem_nil, or_false] at hb <;>
    grind [State.history]

theorem Inv.congr (h : Inv opts w) (hw : w'.history = w.history) : Inv opts w' := by
  simp only [State.history, Prod.mk.injEq] at hw
  obtain ⟨ha, hu, he⟩ := hw
  have hp : w'.passed = w.passed := by rw [State.passed, State.passed, hu, he]
  exact ⟨he ▸ h.loops, hu ▸ h.nodup, by rw [hu, ha]; exact h.fresh, by rw [he, ha]; exact h.examined,
    hp ▸ h.capped⟩

theorem examined_decide {p : Nat × Nat} {c : Nat} (hp : p ∈ (w.decide c).examined) :
    p ∈ w.examined := List.mem_of_mem_filter hp

theorem passed_nodup (h : Inv opts w) : w.passed.Nodup := h.nodup.filter _

theorem passed_length_le (h : Inv opts w) : w.passed.length ≤ w.conns.length + w.untracked.length := by
  have hsplit := List.length_eq_length_filter_add (l := w.passed) (· ∉ w.conns)
  have hseen : (w.passed.filter fun c => !decide (c ∉ w.conns)).length ≤ w.conns.length := by
    refine (List.subperm_of_subset ((passed_nodup h).filter _) ?_).length_le
    intro c hc
    simpa using (List.mem_filter.1 hc).2
  rw [State.untracked]
  omega

theorem passed_decide_subset {c x : Nat} (hx : x ∈ (w.decide c).passed) : x = c ∨ x ∈ w.passed := by
  rw [State.passed, List.mem_filter] at hx ⊢
  by_cases hc : x = c
  · exact .inl hc
  · refine .inr ⟨hx.1, ?_⟩
    have hnot := of_decide_eq_true hx.2
    refine decide_eq_true fun hmem => hnot ?_
    obtain ⟨p, hp, rfl⟩ := List.mem_map.1 hmem
    exact List.mem_map.2 ⟨p, List.mem_filter.2 ⟨hp, by simpa using hc⟩, rfl⟩

theorem Inv.decide (h : Inv opts w) (c : Nat)
    (hroom : (w.passed.length : Int) < opts.maxConcurrentConnections) : Inv opts (w.decide c) where
  loops := h.loops.sublist (List.filter_sublist.map _)
  nodup := h.nodup
  fresh := h.fresh
  examined := fun p hp => h.examined p (examined_decide hp)
  capped := by
    have hnodup : (w.decide c).passed.Nodup := h.nodup.filter _
    have hsub : (w.decide c).passed ⊆ c :: w.passed := fun x hx =>
      List.mem_cons.2 (passed_decide_subset hx)
    have := (List.subperm_of_subset hnodup hsub).length_le
    rw [List.length_cons] at this
    omega

theorem Inv.close (h : Inv opts w) (c : Nat) :
    Inv opts { w.decide c with unclosed := w.unclosed.erase c } where
  loops := h.loops.sublist (List.filter_sublist.map _)
  nodup := h.nodup.erase c
  fresh := fun x hx => h.fresh x (List.mem_of_mem_erase hx)
  examined := fun p hp => h.examined p (examined_decide hp)
  capped := by
    have hnodup : ((w.unclosed.erase c).filter (· ∉ (w.decide c).examined.map Prod.snd)).Nodup :=
      (h.nodup.erase c).filter _
    refine le_trans ?_ h.capped
    refine Int.ofNat_le.2 (List.subperm_of_subset hnodup ?_).length_le
    intro x hx
    obtain ⟨hmem, hx⟩ := List.mem_filter.1 hx
    obtain ⟨hne, hmem⟩ := (h.nodup.mem_erase_iff).1 hmem
    exact (passed_decide_subset (List.mem_filter.2 ⟨hmem, hx⟩)).resolve_left hne

theorem Inv.accept (h : Inv opts w) (hidle : Idle i w) :
    Inv opts { w with
      accepted := w.accepted + 1
      unclosed := w.accepted :: w.unclosed
      examined := (i, w.accepted) :: w.examined } where
  loops := List.nodup_cons.2 ⟨fun hmem => by
    obtain ⟨p, hp, hi⟩ := List.mem_map.1 hmem
    exact hidle p hp hi, h.loops⟩
  nodup := List.nodup_cons.2 ⟨fun hmem => absurd (h.fresh _ hmem) (lt_irrefl _), h.nodup⟩
  fresh := by
    intro c hc
    rcases List.mem_cons.1 hc with rfl | hc
    · exact Nat.lt_succ_self _
    · exact Nat.lt_succ_of_lt (h.fresh c hc)
  examined := by
    intro p hp
    rcases List.mem_cons.1 hp with rfl | hp
    · exact Nat.lt_succ_self _
    · exact Nat.lt_succ_of_lt (h.examined p hp)
  capped := by
    have hpassed : (w.accepted :: w.unclosed).filter
        (· ∉ ((i, w.accepted) :: w.examined).map Prod.snd) = w.passed := by
      rw [List.filter_cons_of_neg (by simp)]
      refine List.filter_congr fun c hc => ?_
      have := (h.fresh c hc).ne
      simp [this]
    rw [State.passed, hpassed]
    exact h.capped

theorem rely_of_history (hw : w'.history = w.history) (j : Nat) : (spec opts).rely j w w' := by
  simp only [State.history, Prod.mk.injEq] at hw
  intro p hp _
  exact hw.2.2 ▸ hp

def Op.accepts : Op β → Bool
  | .accept _ => true
  | _ => false

theorem harmless (hmax : 0 < opts.maxConcurrentConnections) {o : Op β} (ho : o.accepts = false) :
    (spec opts).Harmless o := by
  intro i w r (hinv : Inv opts w) hok
  have hpre : (spec opts).pre i w o := by
    cases o <;> trivial
  refine ⟨hpre, fun b w' hb => ?_⟩
  by_cases hstill : o.still = true
  · have hw := history_of_exec hstill hb
    exact ⟨hinv.congr hw, rely_of_history hw⟩
  cases o <;> simp only [Op.still, not_true_eq_false, Bool.false_eq_true, not_false_eq_true] at hstill
  case accept => cases ho
  case closeConn c =>
    cases List.mem_singleton.1 hb
    exact ⟨hinv.close c, fun j p hp _ => examined_decide hp⟩
  case connCount c =>
    obtain ⟨-, hb⟩ := mem_underMu.1 hb
    cases hb
    split
    · exact ⟨hinv, fun j p hp _ => hp⟩
    · rename_i hpass
      have hlt : (w.conns.length : Int) < opts.maxConcurrentConnections := by
        by_contra hle
        exact hpass ⟨hmax, not_lt.1 hle⟩
      have hroom := hok hlt
      have hle := passed_length_le hinv
      exact ⟨hinv.decide c (by omega), fun j p hp _ => examined_decide hp⟩

theorem closeIfFinished_all (c : Nat) (e : AcceptErr) :
    (closeIfFinished c e).All fun o => o.accepts = false := by
  cases e with
  | deadlineExceeded => exact ⟨rfl, by rintro (_ | _) <;> simp [Op.accepts]⟩
  | connClosed => exact ⟨rfl, fun _ => trivial⟩
  | other => trivial

theorem acceptLoop_all (c : Nat) : (acceptLoop opts c).All fun o => o.accepts = false := by
  rw [acceptLoop, Prog.all_forever]
  intro _
  refine ⟨rfl, ?_⟩
  have hend (e : AcceptErr) : Prog.All (fun o => o.accepts = false)
      ((closeIfFinished c e).bind fun _ => (.ret (.inr ()) : M (Unit ⊕ Unit))) :=
    (closeIfFinished_all c e).bind fun _ => trivial
  rintro (e | ⟨⟩)
  · dsimp only [Prog.ret_bind]
    split
    · refine ⟨rfl, ?_⟩
      rintro (_ | _)
      · exact hend e
      · trivial
    · exact hend e
  · refine ⟨rfl, ?_⟩
    rintro (_ | _) <;> trivial

theorem serveConn_all (c : Nat) : (serveConn opts c).All fun o => o.accepts = false := by
  refine ⟨rfl, ?_⟩
  rintro (_ | _)
  · exact ⟨rfl, fun _ => trivial⟩
  refine ⟨rfl, ?_⟩
  rintro (_ | _)
  · exact ⟨rfl, fun _ => trivial⟩
  refine ⟨rfl, fun _ => ?_⟩
  exact (acceptLoop_all c).bind fun _ => ⟨rfl, fun _ => trivial⟩

theorem detectAndServe_all (c : Nat) : (detectAndServe opts c).All fun o => o.accepts = false := by
  refine ⟨rfl, ?_⟩
  rintro (_ | _)
  · exact ⟨rfl, fun _ => trivial⟩
  · exact serveConn_all c

theorem closeEach_all (cs : List Nat) : (closeEach cs).All fun o => o.accepts = false := by
  induction cs with
  | nil => trivial
  | cons c cs ih => exact ⟨rfl, fun _ => ⟨rfl, fun _ => ih⟩⟩

theorem close_all : close.All fun o => o.accepts = false := by
  refine ⟨rfl, fun _ => ⟨rfl, ?_⟩⟩
  rintro (_ | cs)
  · exact ⟨rfl, fun _ => trivial⟩
  · exact (closeEach_all cs).bind fun _ => ⟨rfl, fun _ => trivial⟩

theorem shutdown_all : shutdown.All fun o => o.accepts = false := by
  refine ⟨rfl, fun _ => ⟨rfl, ?_⟩⟩
  rintro (_ | cs)
  · exact ⟨rfl, fun _ => trivial⟩
  refine ⟨rfl, fun _ => ⟨rfl, fun _ => ⟨rfl, fun _ => ?_⟩⟩⟩
  exact (closeEach_all cs).bind fun _ => ⟨rfl, fun _ => trivial⟩

theorem proper_of_quiet (hmax : 0 < opts.maxConcurrentConnections) {p : M α}
    (h : p.All fun o => o.accepts = false) : (spec opts).Proper p :=
  Spec.proper_of_all (h.mono fun _ ho => (harmless hmax ho).mild)

def Examines (i c : Nat) (w : State) : Prop := ∀ p ∈ w.examined, p.1 = i → p.2 = c

theorem idle_decide {c : Nat} (h : Examines i c w) : Idle i (w.decide c) := by
  intro p hp hi
  have := of_decide_eq_true (List.mem_filter.1 hp).2
  exact this (h p (examined_decide hp) hi)

theorem Examines.rely {c : Nat} (h : Examines i c w) (hw : (spec opts).rely i w w') :
    Examines i c w' := fun p hp hi => h p (hw p hp hi) hi

theorem examine_safe (hmax : 0 < opts.maxConcurrentConnections) {c : Nat} (h : Examines i c w) :
    (spec opts).Safe i (examine opts c) 0 ((spec opts).Done i) w := by
  refine (harmless hmax rfl).safe_op fun w₁ n w₂ hw₁ _ _ hb hw₂ => ?_
  obtain ⟨-, hb⟩ := mem_underMu.1 hb
  cases hb
  dsimp only [Prog.ret_bind]
  split
  · refine (harmless hmax rfl).safe_op fun w₃ _ w₄ hw₃ _ _ hb _ => ?_
    cases List.mem_singleton.1 hb
    intro w₅ hw₅
    exact ⟨rfl, (spec opts).fin_rely hw₅ (idle_decide ((h.rely hw₁).rely hw₃))⟩
  · refine ⟨0, 0, rfl, fun j w₃ _ hj => ?_, fun w₃ hw₃ => ⟨rfl, ?_⟩⟩
    · split
      · exact proper_of_quiet hmax (detectAndServe_all c) j w₃ hj
      · exact proper_of_quiet hmax (serveConn_all c) j w₃ hj
    · exact (spec opts).fin_rely hw₃ (idle_decide (h.rely hw₁))

theorem serve_proper (hmax : 0 < opts.maxConcurrentConnections) (ln : Nat) :
    (spec opts).Proper (serve opts ln) := by
  refine .op (harmless hmax rfl).mild ?_
  rintro (_ | _)
  · exact Spec.proper_ret ()
  refine .iter (fun _ => ?_) fun _ => .op (harmless hmax rfl).mild fun _ => Spec.proper_ret ()
  intro i w hidle w₁ hw₁ hr hok
  have hidle := (spec opts).fin_rely hw₁ hidle
  refine ⟨hidle, fun b w₂ hb => ?_⟩
  rcases List.mem_append.1 hb with hb | hb
  · split at hb
    · cases List.mem_singleton.1 hb
      refine ⟨0, fun r hinv => Inv.accept hinv hidle, fun j hj p hp hpj => ?_, ?_⟩
      · rcases List.mem_cons.1 hp with rfl | hp
        · exact absurd hpj.symm hj
        · exact hp
      · dsimp only [Prog.ret_bind, Prog.bind_eq]
        refine Spec.Safe.bind ((examine_safe hmax ?_).mono ?_)
        · intro p hp hi
          rcases List.mem_cons.1 hp with rfl | hp
          · rfl
          · exact absurd hi (hidle p hp)
        · rintro _ _ w₃ ⟨rfl, hf⟩
          exact Spec.proper_ret _ i w₃ hf
    · cases hb
  · cases List.mem_singleton.1 hb
    exact ⟨0, fun r hinv => hinv, fun j _ p hp _ => hp, Spec.proper_ret _ i w₁ hidle⟩

theorem verifies (hmax : 0 < opts.maxConcurrentConnections) :
    (spec opts).Verifies (Call.body opts) := by
  refine Spec.verifies_of_proper fun q w _ => ?_
  cases q with
  | serve ln => exact serve_proper hmax ln
  | close => exact proper_of_quiet hmax close_all
  | shutdown => exact proper_of_quiet hmax shutdown_all
  | drop c => exact proper_of_quiet hmax ⟨rfl, fun _ => trivial⟩

theorem examined_length_le (h : Inv opts w) :
    w.unclosed.length ≤ w.passed.length + w.examined.length := by
  have hsplit := List.length_eq_length_filter_add (l := w.unclosed) (· ∉ w.examined.map Prod.snd)
  have hex : (w.unclosed.filter fun c => !decide (c ∉ w.examined.map Prod.snd)).length ≤
      (w.examined.map Prod.snd).length := by
    refine (List.subperm_of_subset (h.nodup.filter _) ?_).length_le
    intro c hc
    simpa using (List.mem_filter.1 hc).2
  rw [List.length_map] at hex
  rw [State.passed]
  omega

def oneConnection : Options where
  maxConcurrentConnections := 1

def anyRun : Test Op State Call := ⟨fun _ _ => true, fun _ _ _ _ => true⟩

def countedRun (opts : Options) : Test Op State Call where
  callOk _ _ := true
  opOk _ w _ o := match o with
    | .connCount _ => decide ((w.conns.length : Int) < opts.maxConcurrentConnections →
        ((w.conns.length + w.untracked.length : Nat) : Int) < opts.maxConcurrentConnections)
    | _ => true

end PoseidonServer.Listen
