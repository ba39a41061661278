import PoseidonServer.Conn.Steps

/-! Which kinds of steps each method can take, so that an invariant which some kinds cannot
touch passes over a method by its name alone. -/

namespace PoseidonServer.Conn

open Concurrent

inductive Kind
  | reader | handler | register | reserve | release | drain | lockTable | settings | advance
  | advanceRecv | queue | recv | update | lockFc | credit | close | lockW | write | down | accept
  | quiet
  deriving DecidableEq

theorem avoids {l l' : List α} {k : α} (hk : k ∉ l) (hl : l' ⊆ l) : k ∉ l' := fun h => hk (hl h)

theorem avoids_one {l : List α} {k a : α} (hk : k ∉ l) (ha : a ∈ l) : k ≠ a := fun h => hk (h ▸ ha)

/-- A stream's window update gives back what its reader has consumed. -/
@[simp] def Outbound.kind : Outbound → Kind
  | .windowUpdate x _ => if x = 0 then .write else .update
  | _ => .write

@[simp] def StreamState.kind : StreamState → Kind
  | ⟨false, false, _, _, _⟩ => .advance
  | _ => .advanceRecv

@[simp] def Op.kind : Op β → Kind
  | .readFrame _ | .frameDone | .stopReader => .reader
  | .storeHandler _ | .decodeBlock _ => .handler
  | .admitClient .. => .register
  | .reservePush _ => .reserve
  | .release _ => .release
  | .drain => .drain
  | .lockTable | .unlockTable => .lockTable
  | .publishSettings _ | .adjustWindow .. => .settings
  | .advance _ delta => delta.kind
  | .trySend .. | .closeEvents _ => .queue
  | .tryRecv _ | .awaitRecv .. | .recvReturn _ | .creditRecv .. => .recv
  | .growStream .. | .growConn _ | .takeSendCredits .. | .refundConn _ | .refundStream ..
  | .newWaiter _ | .sampleNeedConn | .fcPark | .fcUnpark | .awaitReady _
  | .drainReady | .fcWakeStream _ | .fcWakeConn | .fcWakeAll => .credit
  | .lockFc | .unlockFc => .lockFc
  | .close => .close
  | .lockW | .unlockW => .lockW
  | .write f => f.kind
  | .closeTransport => .down
  | .tryEnqueue _ | .tryAccept | .awaitAccept _ | .deliver _ => .accept
  | .loadHandler | .loadRecorder | .storeRecorder _ | .isEstablished | .establish
  | .addRapidReset | .notePeerGoAway | .lookup _ | .idle _ | .validateClientID _ | .lastPeerID
  | .liveStreams | .peerSettings | .state _ | .priority _ | .setPriority .. | .cancelStream _
  | .debitRecv .. | .debitConnRecv _ | .connRecvWindow | .ctxErr _ | .encodeBlock _
  | .setMaxDynamicTableSize _ | .isClosed | .requestGoAway | .goAwayDone | .clampGoAwayID _
  | .hasPeerGoAway | .cancelConn | .awaitReaderDone | .cancelRequest _ => .quiet

theorem Outbound.kind_notMem (f : Outbound) {l : List Kind} (h : .write ∉ l ∧ .update ∉ l) :
    f.kind ∉ l := by
  have hk : f.kind = .write ∨ f.kind = .update := by cases f <;> simp [Decidable.em]
  obtain hk | hk := hk <;> rw [hk]
  · exact h.1
  · exact h.2

theorem Outbound.kind_ne (f : Outbound) {k : Kind} (h : k ∉ [.write, .update]) : f.kind ≠ k := by
  have := f.kind_notMem (l := [k]) (by simp_all [eq_comm])
  rwa [List.mem_singleton] at this

theorem StreamState.kind_mem (delta : StreamState) : delta.kind ∈ [.advance, .advanceRecv] := by
  unfold kind
  split <;> simp

theorem StreamState.kind_notMem (delta : StreamState) {l : List Kind}
    (h : .advance ∉ l ∧ .advanceRecv ∉ l) : delta.kind ∉ l := by
  have hk : delta.kind = .advance ∨ delta.kind = .advanceRecv := by
    have := delta.kind_mem
    rwa [List.mem_cons, List.mem_singleton] at this
  obtain hk | hk := hk <;> rw [hk]
  · exact h.1
  · exact h.2

theorem StreamState.kind_ne (delta : StreamState) {k : Kind} (h : k ∉ [.advance, .advanceRecv]) :
    delta.kind ≠ k := by
  have := delta.kind_notMem (l := [k]) (by simp_all [eq_comm])
  rwa [List.mem_singleton] at this

/-- The program takes only steps of the kinds in `P`. -/
def Within (P : Kind → Prop) (p : M α) : Prop := p.All fun o => P o.kind

variable {P : Kind → Prop}

@[simp] theorem within_ret (a : α) : Within P (.ret a) := trivial

@[simp] theorem within_op (o : Op α) (k : α → M β) :
    Within P (.op o k) ↔ P o.kind ∧ ∀ a, Within P (k a) := Iff.rfl

@[simp] theorem within_lift (o : Op α) : Within P (.lift o) ↔ P o.kind :=
  and_iff_left fun _ => trivial

@[simp] theorem within_fork (p : M Unit) (k : M α) :
    Within P (.fork p k) ↔ Within P p ∧ Within P k := Iff.rfl

@[simp] theorem within_iter (body : τ → M (τ ⊕ β)) (t : τ) (k : β → M α) :
    Within P (.iter body t k) ↔ (∀ t, Within P (body t)) ∧ ∀ b, Within P (k b) := Iff.rfl

@[simp] theorem within_forever (t : τ) (body : τ → M (τ ⊕ β)) :
    Within P (.forever t body) ↔ ∀ t, Within P (body t) :=
  and_iff_left fun _ => trivial

@[simp] theorem within_ite (c : Prop) [Decidable c] (p q : M α) :
    Within P (if c then p else q) ↔ (c → Within P p) ∧ (¬c → Within P q) := by
  split <;> simp [*]

theorem Within.bind {p : M α} {f : α → M β} (hp : Within P p) (hf : ∀ a, Within P (f a)) :
    Within P (p.bind f) := Prog.All.bind hp hf

def Tag.kind : Tag → Kind
  | .readFrame | .frameDone | .stopReader => .reader
  | .storeHandler | .decodeBlock => .handler
  | .admitClient => .register
  | .reservePush => .reserve
  | .release => .release
  | .drain => .drain
  | .lockTable | .unlockTable => .lockTable
  | .publishSettings | .adjustWindow => .settings
  | .advance delta => delta.kind
  | .trySend _ | .closeEvents => .queue
  | .tryRecv | .awaitRecv | .recvReturn | .creditRecv => .recv
  | .growStream | .growConn | .takeSendCredits | .refundConn | .refundStream | .newWaiter
  | .sampleNeedConn | .fcPark | .fcUnpark | .awaitReady | .drainReady | .fcWakeStream
  | .fcWakeConn | .fcWakeAll => .credit
  | .lockFc | .unlockFc => .lockFc
  | .close => .close
  | .lockW | .unlockW => .lockW
  | .write .streamUpdate => .update
  | .write _ => .write
  | .closeTransport => .down
  | .tryEnqueue | .tryAccept | .awaitAccept | .deliver => .accept
  | _ => .quiet

namespace Tag

variable {t : Tag}

attribute [local simp] kind

theorem kind_lockW : t.kind = .lockW ↔ t = .lockW ∨ t = .unlockW := by
  cases t
  case advance delta => exact iff_of_false (delta.kind_ne (by simp)) (by simp)
  case write f => cases f <;> simp
  all_goals simp

theorem kind_write : t.kind ∈ [.write, .update] ↔ ∃ f, t = .write f := by
  cases t
  case advance delta => exact iff_of_false (delta.kind_notMem (by simp)) (by simp)
  case write f => cases f <;> simp
  all_goals simp

theorem kind_reader : t.kind = .reader ↔ t = .readFrame ∨ t = .frameDone ∨ t = .stopReader := by
  cases t
  case advance delta => exact iff_of_false (delta.kind_ne (by simp)) (by simp)
  case write f => cases f <;> simp
  all_goals simp

theorem kind_down : t.kind = .down ↔ t = .closeTransport := by
  cases t
  case advance delta => exact iff_of_false (delta.kind_ne (by simp)) (by simp)
  case write f => cases f <;> simp
  all_goals simp

theorem kind_register : t.kind = .register ↔ t = .admitClient := by
  cases t
  case advance delta => exact iff_of_false (delta.kind_ne (by simp)) (by simp)
  case write f => cases f <;> simp
  all_goals simp

end Tag

theorem Op.kind_tag (o : Op β) : o.tag.kind = o.kind := by
  cases o
  case write f =>
    cases f
    case windowUpdate x n => by_cases hx : x = 0 <;> simp [Tag.kind, hx]
    all_goals rfl
  all_goals rfl

theorem Uses.within {l : List Tag} {p : M α} (hp : Uses l p) (hl : ∀ t ∈ l, P t.kind) :
    Within P p :=
  Prog.All.mono (fun o ho => by rw [← o.kind_tag]; exact hl _ ho) hp

theorem Uses.within_kinds {l : List Tag} {p : M α} (hp : Uses l p) (ks : List Kind)
    (hl : ∀ t ∈ l, t.kind ∈ ks) (h : ∀ k ∈ ks, P k) : Within P p :=
  hp.within fun t ht => h _ (hl t ht)

theorem writeLocked_within {f : Outbound} (h : P .lockW ∧ P f.kind) :
    Within P (writeLocked f) :=
  ⟨h.1, fun _ => ⟨h.2, fun _ => ⟨h.1, fun _ => trivial⟩⟩⟩

theorem push_within
    (h : P .queue ∧ P .advance ∧ P .release ∧ P .lockW ∧ P .write ∧ P .quiet) (x : Nat)
    (e : StreamEvent) : Within P (push x e) := by
  refine (push_uses rfl x).within_kinds [.queue, .advance, .release, .lockW, .write, .quiet] ?_
    (by simp [h])
  cases e.tag <;> decide

theorem guardHeaderBlock_within (h : P .quiet) {k : M (Except GoErr Unit)} (hk : Within P k) :
    Within P (guardHeaderBlock k) := by
  simp [guardHeaderBlock, hk, h]

theorem announce_within (h : P .lockW ∧ P .write ∧ P .down ∧ P .quiet) (code : Option ErrCode) :
    Within P (announce code) := by
  have hgoaway (code) := (sendGoAway_uses code).within_kinds (P := P) [.lockW, .write, .quiet]
    (by decide) (by simp [h])
  cases code <;> simp [announce, Within.bind, hgoaway, h]

def callKinds : List Kind :=
  [.reserve, .release, .advance, .recv, .update, .lockFc, .credit, .close, .lockW, .write, .down,
    .quiet]

theorem Call.kind_mem_callKinds {q : Call} (ha : ∀ ctx, q ≠ .accept ctx) :
    ∀ t ∈ q.steps, t.kind ∈ callKinds := by
  cases q with
  | frame f => simp [steps]
  | accept ctx => exact absurd rfl (ha ctx)
  | recv x ctx =>
    rw [steps]
    cases (Outbound.windowUpdate x 0).tag <;> decide
  | sendHeaders => exact (by decide : ∀ t ∈ sendHeadersSteps, t.kind ∈ callKinds)
  | sendData => exact (by decide : ∀ t ∈ sendDataSteps, t.kind ∈ callKinds)
  | push => exact (by decide : ∀ t ∈ pushPromiseSteps, t.kind ∈ callKinds)
  | close => exact (by decide : ∀ t ∈ rstSteps, t.kind ∈ callKinds)
  | closeConn => decide
  | goAwayGraceful | goAway => exact (by decide : ∀ t ∈ goAwaySteps, t.kind ∈ callKinds)
  | cancelRequest | failTransport => simp [steps, Tag.kind, callKinds]

theorem Call.body_within (h : ∀ k ∈ callKinds, P k) (env : Env) {q : Call}
    (hq : ∀ f, q ≠ .frame f) (ha : P .accept ∨ ∀ ctx, q ≠ .accept ctx) :
    Within P (q.body env) := by
  refine (Call.body_uses env hq).within fun t ht => ?_
  by_cases haccept : ∃ ctx, q = .accept ctx
  · obtain ⟨ctx, rfl⟩ := haccept
    have ha : P .accept := ha.resolve_right fun ha => ha ctx rfl
    have hk : t.kind ∈ [.accept, .quiet] :=
      (by decide : ∀ t ∈ acceptSteps, t.kind ∈ [.accept, .quiet]) t ht
    rcases List.mem_pair.1 hk with hk | hk <;> rw [hk]
    · exact ha
    · exact h _ (by decide)
  · exact h _ (kind_mem_callKinds (fun ctx hctx => haccept ⟨ctx, hctx⟩) t ht)

end PoseidonServer.Conn
