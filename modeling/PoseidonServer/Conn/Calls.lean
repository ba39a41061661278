import PoseidonServer.Conn.Frame

/-! A proof rule for invariants that no round of the reader has to carry: every call is proper
once the methods it is made of are. -/

namespace PoseidonServer.Conn

open Concurrent Spec

variable {env : Env} {σ : Type} {m : Machine Op σ} {G : Guard Op σ Call} {γ : Type}
  [AddCommMonoid γ]

def turnSteps : List Tag :=
  [.frameDone, .stopReader, .loadHandler, .isEstablished, .establish, .loadRecorder,
    .idle, .cancelConn, .closeTransport]

theorem wellFormed_of_available {w : World} {f : Inbound} (h : (Call.frame f).available w = true) :
    f.WellFormed := by
  simpa [Call.available] using h

def blockTurnSteps : List Tag := [.loadHandler, .storeHandler, .decodeBlock, .lookup, .state,
  .validateClientID, .advance { recvFields := true }] ++ doneSteps

def plainBlockSteps : List Tag := .trySend .headers :: blockTurnSteps ++ registerSteps ++
  deliverSteps .trailers

/-- Goroutine `i` keeps `P` in whatever the callbacks for field blocks are made of. -/
structure Blocks (env : Env) (S : Spec m G γ) (i : Nat) (P : σ → Prop) : Prop where
  rely : ∀ {w w'}, S.rely i w w' → P w → P w'
  turn : ∀ {β} {o : Op β}, o.tag ∈ blockTurnSteps → S.Under i P o
  send : ∀ x, S.Keeps i P (sendHeaders env x status431Fields true none)
  reset : ∀ x code, code ∈ [.streamClosed, .protocolError] →
    S.Keeps i P (writeServerRSTStream x code)
  deliver : ∀ x endStream e, e.tag ∈ [.headers, .trailers] → S.Keeps i P (deliverEvent x endStream e)
  register : ∀ x prio, x % 2 = 1 → S.Keeps i P (registerStream x prio)

namespace Blocks

variable {S : Spec m G γ} {bad : List Tag} {i : Nat} {P : σ → Prop}

theorem of_under (hP : ∀ {w w'}, S.rely i w w' → P w → P w')
    (hops : ∀ {β} {o : Op β}, o.tag ∉ bad → S.Under i P o ∧ S.Mild o)
    (hbad : ∀ t ∈ plainBlockSteps, t ∉ bad)
    (hsend : ∀ x, S.Keeps i P (sendHeaders env x status431Fields true none)) :
    Blocks env S i P := by
  have huses {α : Type} {l : List Tag} {p : M α} (hp : Uses l p) (hl : l ⊆ plainBlockSteps) :
      S.Keeps i P p := keeps_of_all hP (Prog.All.mono (fun _ ho => hops (hbad _ (hl ho))) hp)
  constructor
  case rely => exact hP
  case turn =>
    have hl : blockTurnSteps ⊆ plainBlockSteps := by decide
    exact fun {β o} ho => (hops (hbad _ (hl ho))).1
  case send => exact hsend
  case reset => exact fun x code _ => huses (writeServerRSTStream_uses x code) (by decide)
  case deliver =>
    intro x endStream e he
    refine huses (deliverEvent_uses rfl x endStream) ?_
    generalize e.tag = q at he
    revert q
    decide
  case register => exact fun x prio _ => huses (registerStream_uses x prio) (by decide)

theorem op (H : Blocks env S i P) {o : Op β} {k : β → M α} (ho : o.tag ∈ blockTurnSteps)
    (hk : ∀ b, S.Keeps i P (k b)) : S.Keeps i P (.op o k) := (H.turn ho).keeps H.rely hk

theorem ret (H : Blocks env S i P) (a : α) : S.Keeps i P (.ret a) := keeps_ret H.rely a

theorem markStreamDone (H : Blocks env S i P) (x : Nat) : S.Keeps i P (markStreamDone x) := by
  refine H.op (by simp +decide) fun live => ?_
  dsimp only [Prog.ret_bind]
  split
  · exact H.op (by simp +decide) fun _ => H.ret _
  · exact H.ret _

theorem respondFieldsTooLarge (H : Blocks env S i P) (x : Nat) :
    S.Keeps i P (respondFieldsTooLarge env x) :=
  .bind (H.send _) fun _ => H.markStreamDone x

theorem discardHeaderBlock (H : Blocks env S i P) (hb : Bytes) :
    S.Keeps i P (discardHeaderBlock hb) := by
  refine H.op (by decide) fun h => H.op (by simp +decide) fun _ => H.op (by simp +decide) fun r => ?_
  cases r <;> exact H.ret _

theorem emitHeaderBlock (H : Blocks env S i P) (x : Nat) (hb : Bytes) (endStream isTrailer : Bool) :
    S.Keeps i P (emitHeaderBlock env x hb endStream isTrailer) := by
  have hfields (fields) : S.Keeps i P (emitFields env x fields endStream isTrailer) := by
    unfold emitFields
    split
    · exact (H.respondFieldsTooLarge x).bind fun _ => H.ret _
    refine H.op (by simp +decide) fun st => ?_
    dsimp only [Prog.ret_bind]
    split
    · exact (H.reset _ _ (by simp)).bind fun _ => H.ret _
    split
    · exact (H.reset _ _ (by simp)).bind fun _ => H.ret _
    · cases isTrailer <;> exact H.deliver _ _ _ (by simp)
  refine H.op (by decide) fun h => H.op (by simp +decide) fun _ => H.op (by simp +decide) fun r => ?_
  cases r with
  | error msg => exact H.ret _
  | ok fields => exact hfields fields

theorem onHeaders (H : Blocks env S i P) (x : Nat) (endStream endHeaders : Bool) (hb : Bytes)
    (prio : Option Priority) : S.Keeps i P (onHeaders env x endStream endHeaders hb prio) := by
  have hstream (isNew refused) :
      S.Keeps i P (onStreamHeaders env x endStream endHeaders hb isNew refused) := by
    unfold onStreamHeaders
    split
    · split
      · exact (H.respondFieldsTooLarge x).bind fun _ => H.ret _
      · exact H.op (by simp +decide) fun _ => H.op (by simp +decide) fun _ => H.ret _
    split
    · exact H.discardHeaderBlock hb
    refine H.op (by simp +decide) fun st => ?_
    dsimp only [Prog.ret_bind]
    split
    · exact H.op (by simp +decide) fun _ => H.emitHeaderBlock _ _ _ _
    · exact H.emitHeaderBlock _ _ _ _
  refine H.op (by decide) fun h => ?_
  dsimp only [Prog.ret_bind]
  split
  · exact H.ret _
  split
  · exact H.ret _
  rename_i heven
  refine H.op (by simp +decide) fun live => ?_
  dsimp only [Prog.ret_bind]
  split
  · exact hstream _ _
  refine H.op (by simp +decide) fun r => ?_
  cases r with
  | error e => exact H.ret _
  | ok _ => exact (H.register x prio (by omega)).bind fun _ => hstream _ _

theorem onContinuation (H : Blocks env S i P) (x : Nat) (endHeaders : Bool) (hb : Bytes) :
    S.Keeps i P (onContinuation env x endHeaders hb) := by
  have hcomplete (hd : Handler) (buf : Bytes) : S.Keeps i P (onBlockComplete env x hd buf) := by
    unfold onBlockComplete
    split
    · exact H.discardHeaderBlock buf
    refine H.op (by simp +decide) fun live => ?_
    dsimp only [Prog.ret_bind]
    split
    · exact H.discardHeaderBlock buf
    split
    · exact H.op (by simp +decide) fun _ => H.emitHeaderBlock _ _ _ _
    · exact H.emitHeaderBlock _ _ _ _
  refine H.op (by decide) fun h => ?_
  dsimp only [Prog.ret_bind]
  split
  · exact H.ret _
  split
  · exact H.ret _
  split
  · refine H.op (by simp +decide) fun live => ?_
    dsimp only [Prog.ret_bind]
    split
    · exact (H.respondFieldsTooLarge x).bind fun _ => H.ret _
    · exact H.ret _
  · refine H.op (by simp +decide) fun _ => ?_
    dsimp only [Prog.ret_bind]
    split
    · exact H.ret _
    · exact hcomplete _ _

end Blocks

structure Methods (env : Env) (S : Spec m G γ) : Prop where
  turn : ∀ {β} {o : Op β}, o.tag ∈ turnSteps → S.Mild o
  dispatch : ∀ f, f.WellFormed → S.Proper (dispatch env f)
  settings : ∀ ack params, S.Proper (recorderSettings ack params)
  answer : ∀ x (e : GoErr) code, e.streamCode = some code → S.Proper (writeRSTStreamID x code)
  announce : ∀ code, S.Proper (sendGoAway code)
  shutdown : S.Proper shutdownStreams
  initial : S.Proper sendInitialConnWindowUpdate
  seed : S.Proper (seed env)
  body : ∀ q : Call, (∀ f, q ≠ .frame f) → ∀ i s, G.callOk s q → (∃ r, S.inv s r) → S.fin i s →
    S.Safe i (q.body env) 0 (S.Done i) s

namespace Methods

variable {S : Spec m G γ}

def steps : List (List Tag) :=
  [turnSteps, callbackSteps, recorderSteps, rstIDSteps, goAwaySteps, shutdownSteps, initialSteps,
    seedSteps, sendHeadersSteps, sendDataSteps, pushPromiseSteps, rstSteps, recvSteps .connUpdate,
    recvSteps .streamUpdate, acceptSteps, closeConnSteps, [.cancelRequest], [.closeTransport]]

theorem of_mild (bad : List Tag) (hmild : ∀ {β} {o : Op β}, o.tag ∉ bad → S.Mild o)
    (hbad : ∀ l ∈ steps, ∀ t ∈ l, t ∉ bad) : Methods env S := by
  have hproper {α : Type} {l : List Tag} {p : M α} (hp : Uses l p) (hl : l ∈ steps) : S.Proper p :=
    hp.proper hmild (hbad l hl)
  constructor
  case turn => exact fun {β o} ho => hmild (hbad turnSteps (by simp [steps]) _ ho)
  case dispatch => exact fun f _ => hproper (dispatch_callback_uses env f) (by simp [steps])
  case settings => exact fun ack params => hproper (recorderSettings_uses ack params) (by simp [steps])
  case answer => exact fun x _ code _ => hproper (writeRSTStreamID_uses x code) (by simp [steps])
  case announce => exact fun code => hproper (sendGoAway_uses code) (by simp [steps])
  case shutdown => exact hproper shutdownStreams_uses (by simp [steps])
  case initial => exact hproper sendInitialConnWindowUpdate_uses (by simp [steps])
  case seed => exact hproper (seed_uses env) (by simp [steps])
  case body =>
    intro q hq i s _ _ hf
    refine hproper (Call.body_uses env hq) ?_ i s hf
    cases q <;> simp only [Call.steps, Outbound.tag_windowUpdate]
    case frame => exact absurd rfl (hq _)
    case recv => split <;> simp [steps]
    all_goals simp [steps]

theorem turnOp (H : Methods env S) {o : Op β} {k : β → M α} (ho : o.tag ∈ turnSteps)
    (hk : ∀ b, S.Proper (k b)) : S.Proper (.op o k) := .op (H.turn ho) hk

theorem teardown (H : Methods env S) (code : Option ErrCode) : S.Proper (teardown code) := by
  refine .bind ?_ fun _ => .bind H.shutdown fun _ => H.turnOp (by decide) fun _ => proper_ret _
  cases code with
  | none => exact proper_ret _
  | some code => exact .bind (H.announce code) fun _ => H.turnOp (by decide) fun _ => proper_ret _

theorem readerError (H : Methods env S) (f : Inbound) (pending : Nat) (e : GoErr) :
    S.Proper (readerError f pending e) := by
  unfold Conn.readerError
  split
  · exact H.teardown _
  split
  · refine H.turnOp (by simp [turnSteps]) fun idle => ?_
    rw [Prog.ret_bind]
    split
    · exact H.teardown _
    split
    · rename_i hcode
      exact .bind (H.answer _ _ _ hcode) fun _ => H.turnOp (by decide) fun _ => proper_ret _
    · exact H.teardown _
  · exact H.teardown _

theorem abortHandshake (H : Methods env S) : S.Proper abortHandshake :=
  .bind H.shutdown fun _ => H.turnOp (by decide) fun _ => H.turnOp (by decide) fun _ =>
    H.turnOp (by decide) fun _ => proper_ret _

theorem readerStep (H : Methods env S) {f : Inbound} (hf : f.WellFormed) :
    S.Proper (readerStep env f) := by
  refine .bind (H.dispatch f hf) fun r => H.turnOp (by decide) fun h => ?_
  cases r with
  | ok _ =>
    dsimp only [Prog.ret_bind]
    split
    · exact H.readerError _ _ _
    · exact H.turnOp (by decide) fun _ => proper_ret _
  | error e => exact H.readerError _ _ _

theorem finishHandshake (H : Methods env S) : S.Proper (finishHandshake env) := by
  refine .bind H.initial fun r => ?_
  cases r with
  | error e => exact H.abortHandshake
  | ok _ =>
    exact .bind H.seed fun _ => H.turnOp (by decide) fun _ => H.turnOp (by decide) fun _ =>
      proper_ret _

theorem handshakeStep (H : Methods env S) {f : Inbound} (hf : f.WellFormed) :
    S.Proper (handshakeStep env f) := by
  have hdispatch : S.Proper (recorderDispatch env f) := by
    unfold recorderDispatch
    split
    · exact H.settings _ _
    · exact H.dispatch f hf
  refine .bind hdispatch fun r => ?_
  cases r with
  | error e =>
    refine .bind ?_ fun _ => H.abortHandshake
    unfold handshakeGoAway
    split
    · exact H.announce _
    · exact proper_ret _
  | ok _ =>
    refine H.turnOp (by decide) fun r => ?_
    rw [Prog.ret_bind]
    split
    · exact H.finishHandshake
    · exact H.turnOp (by decide) fun _ => proper_ret _

theorem round (H : Methods env S) {f : Inbound} (hf : f.WellFormed) :
    S.Proper (.op .isEstablished fun established =>
      if established then Conn.readerStep env f else Conn.handshakeStep env f) := by
  refine H.turnOp (by decide) fun established => ?_
  split
  · exact H.readerStep hf
  · exact H.handshakeStep hf

theorem verifies (H : Methods env S) (hcall : ∀ s f, G.callOk s (.frame f) → f.WellFormed)
    (hread : ∀ f, f.WellFormed → S.Proper (serveFrame env f)) : S.Verifies (Call.body env) := by
  intro q i s hq hinv hf
  cases q with
  | frame f => exact hread f (hcall s f hq) i s hf
  | _ => exact H.body _ (by simp) i s hq hinv hf

end Methods

end PoseidonServer.Conn
