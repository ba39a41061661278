import PoseidonServer.Conn.Footprint

/-! What a step of each kind leaves alone. -/

namespace PoseidonServer.Conn

open Concurrent

def Stream.queueView (s : Stream) :=
  (s.events, s.cap, s.eventsClosed, s.recvd, s.dropped, s.recvBusy, s.recvRefundPending)

def Stream.creditView (s : Stream) :=
  (s.sendWindow, s.fcHead, s.base, s.granted, s.debited, s.saturated, s.stale)

namespace World

variable (w : World)

def readerView := (w.reader, w.readerDone, w.handler, w.decoded, w.inbound)
def turnView := (w.reader, w.readerDone, w.inbound)
def tableView := (w.live, w.maxClient, w.nextPush, w.nClient, w.nPush, w.drained)
def acceptView := (w.acceptCh, w.delivered, w.streamsAccepted)
def creditView := (w.peerConnSendWindow, w.fcHead, w.fcConnBlocked, w.waiter,
  w.connGranted, w.connDebited, w.connSaturated)

theorem upd_eq (x : Nat) (f : Stream → Stream) :
    w.upd x f = { w with str := Function.update w.str x ((w.str x).map f) } := by
  unfold upd setStr
  cases h : w.str x with
  | none =>
    have : Function.update w.str x none = w.str := by rw [← h, Function.update_eq_self]
    simp [this]
  | some s => rfl

end World

structure Frame (k : Kind) (w w' : World) : Prop where
  reader : k ∉ [.reader, .handler] → w'.readerView = w.readerView
  turn : k ≠ .reader → w'.turnView = w.turnView
  table : k ∉ [.register, .reserve, .release, .drain] → w'.tableView = w.tableView
  tmu : k ≠ .lockTable → w'.tmu = w.tmu
  settings : k ≠ .settings → w'.peerSettings = w.peerSettings
  wmu : k ≠ .lockW → w'.wmu = w.wmu
  wire : k ∉ [.write, .update] → w'.wire = w.wire
  fcOutMu : k ≠ .lockFc → w'.fcOutMu = w.fcOutMu
  closed : k ≠ .close → w'.closed = w.closed
  down : k ≠ .down → w'.down = w.down
  accept : k ≠ .accept → w'.acceptView = w.acceptView
  state : k ∉ [.register, .reserve, .advance, .advanceRecv] →
    ∀ x, (w'.str x).map (·.st) = (w.str x).map (·.st)
  queue : k ∉ [.register, .reserve, .queue, .recv] →
    ∀ x, (w'.str x).map (·.queueView) = (w.str x).map (·.queueView)
  credit : k ∉ [.register, .reserve, .settings, .credit] →
    ∀ x, (w'.str x).map (·.creditView) = (w.str x).map (·.creditView)
  connCredit : k ≠ .credit → w'.creditView = w.creditView
  owed : k ∉ [.settings, .credit, .close] → w'.owed = w.owed
  inHand : k ∉ [.reader, .queue, .recv, .update] → w'.inHand = w.inHand

theorem Frame.refl (k : Kind) (w : World) : Frame k w w := by
  constructor <;> intros <;> simp

theorem map_update {V : Stream → α} {f : Stream → Stream} (hf : ∀ s, V (f s) = V s)
    (w : World) (x y : Nat) :
    ((Function.update w.str x ((w.str x).map f)) y).map V = (w.str y).map V := by
  by_cases hy : y = x
  · subst hy
    cases w.str y <;> simp [hf]
  · simp [hy]

theorem Frame.upd {k : Kind} (w : World) (x : Nat) {f : Stream → Stream}
    (hst : k ∉ [.register, .reserve, .advance, .advanceRecv] → ∀ s, (f s).st = s.st)
    (hq : k ∉ [.register, .reserve, .queue, .recv] → ∀ s, (f s).queueView = s.queueView)
    (hc : k ∉ [.register, .reserve, .settings, .credit] → ∀ s, (f s).creditView = s.creditView) :
    Frame k w (w.upd x f) := by
  rw [World.upd_eq]
  constructor <;> intro hk
  case state => exact map_update (hst hk) w x
  case queue => exact map_update (hq hk) w x
  case credit => exact map_update (hc hk) w x
  all_goals first | rfl

theorem Frame.setStr {k : Kind} {w : World} {x : Nat} {s s' : Stream} (hs : w.str x = some s)
    (hst : k ∉ [.register, .reserve, .advance, .advanceRecv] → s'.st = s.st)
    (hq : k ∉ [.register, .reserve, .queue, .recv] → s'.queueView = s.queueView)
    (hc : k ∉ [.register, .reserve, .settings, .credit] → s'.creditView = s.creditView) :
    Frame k w (w.setStr x s') := by
  have h : w.setStr x s' = w.upd x fun _ => s' := by simp [World.upd, hs]
  rw [World.upd_eq, hs] at h
  rw [h]
  have hmap {α : Type} {V : Stream → α} (hV : V s' = V s) (y : Nat) :
      ((Function.update w.str x ((some s).map fun _ => s')) y).map V = (w.str y).map V := by
    by_cases hy : y = x
    · subst hy
      simp [hs, hV]
    · simp [hy]
  constructor <;> intro hk
  case state => exact hmap (hst hk)
  case queue => exact hmap (hq hk)
  case credit => exact hmap (hc hk)
  all_goals first | rfl

theorem Frame.trans {k : Kind} {w₁ w₂ w₃ : World} (h₁ : Frame k w₁ w₂) (h₂ : Frame k w₂ w₃) :
    Frame k w₁ w₃ where
  reader hk := (h₂.reader hk).trans (h₁.reader hk)
  turn hk := (h₂.turn hk).trans (h₁.turn hk)
  table hk := (h₂.table hk).trans (h₁.table hk)
  tmu hk := (h₂.tmu hk).trans (h₁.tmu hk)
  settings hk := (h₂.settings hk).trans (h₁.settings hk)
  wmu hk := (h₂.wmu hk).trans (h₁.wmu hk)
  wire hk := (h₂.wire hk).trans (h₁.wire hk)
  fcOutMu hk := (h₂.fcOutMu hk).trans (h₁.fcOutMu hk)
  closed hk := (h₂.closed hk).trans (h₁.closed hk)
  down hk := (h₂.down hk).trans (h₁.down hk)
  accept hk := (h₂.accept hk).trans (h₁.accept hk)
  state hk x := (h₂.state hk x).trans (h₁.state hk x)
  queue hk x := (h₂.queue hk x).trans (h₁.queue hk x)
  credit hk x := (h₂.credit hk x).trans (h₁.credit hk x)
  connCredit hk := (h₂.connCredit hk).trans (h₁.connCredit hk)
  owed hk := (h₂.owed hk).trans (h₁.owed hk)
  inHand hk := (h₂.inHand hk).trans (h₁.inHand hk)

theorem Frame.foldl {k : Kind} {f : World → Nat → World} (hf : ∀ w i, Frame k w (f w i))
    (l : List Nat) (w : World) : Frame k w (l.foldl f w) := by
  induction l generalizing w with
  | nil => exact .refl k w
  | cons i l ih => exact (hf w i).trans (ih (f w i))

theorem frame_setWaiter (w : World) (i : Nat) (v : Waiter) : Frame .credit w (w.setWaiter i v) := by
  constructor <;> intros <;> first | rfl | contradiction

theorem frame_fcUnpark (w : World) (i : Nat) : Frame .credit w (w.fcUnpark i) := by
  unfold World.fcUnpark
  dsimp only
  split
  · exact .refl _ w
  · refine (Frame.upd (k := .credit) w (w.waiter i).ss (f := fun s => { s with fcHead := s.fcHead.erase i })
      (fun _ _ => rfl) (fun _ _ => rfl) (fun hk => absurd (by simp) hk)).trans ?_
    constructor <;> intros <;> first | rfl | contradiction

theorem frame_fcPark (w : World) (i : Nat) : Frame .credit w (w.fcPark i) := by
  unfold World.fcPark
  dsimp only
  split
  · exact .refl _ w
  · refine (Frame.upd (k := .credit) w (w.waiter i).ss (f := fun s => { s with fcHead := i :: s.fcHead })
      (fun _ _ => rfl) (fun _ _ => rfl) (fun hk => absurd (by simp) hk)).trans ?_
    constructor <;> intros <;> first | rfl | contradiction

theorem frame_fcWake (w : World) (i : Nat) : Frame .credit w (w.fcWake i) :=
  (frame_fcUnpark w i).trans (frame_setWaiter _ _ _)

theorem frame_settle (w : World) (i : Nat) (n : Notice) : Frame .credit w (w.settle i n) := by
  constructor <;> intros <;> first | rfl | contradiction

theorem frame_fcWakeStream (w : World) (x : Nat) : Frame .credit w (w.fcWakeStream x) := by
  unfold World.fcWakeStream
  split
  · exact .foldl frame_fcWake _ w
  · exact .refl _ w

theorem frame_fcWakeConn (w : World) : Frame .credit w w.fcWakeConn := by
  unfold World.fcWakeConn
  split
  · exact .refl _ w
  · refine .foldl (fun w i => ?_) _ w
    split
    · exact frame_fcWake w i
    · exact .refl _ w

theorem frame_owe {k : Kind} (hk : k ∈ [.settings, .credit, .close]) (w : World) (i : Nat)
    (n : Notice) : Frame k w (w.owe i n) := by
  constructor <;> intros <;> first | rfl | contradiction

theorem frame_debitConn (w : World) (n : Int) : Frame .credit w (w.debitConn n) := by
  constructor <;> intros <;> first | rfl | contradiction

theorem frame_hold {k : Kind} (hk : k ∈ [.reader, .queue, .recv, .update]) (w : World)
    (i x n : Nat) : Frame k w (w.hold i x n) := by
  constructor <;> intros <;> first | rfl | contradiction

theorem frame_handOn {k : Kind} (hk : k ∈ [.reader, .queue, .recv, .update]) (w : World)
    (i x n : Nat) : Frame k w (w.handOn i x n) := by
  constructor <;> intros <;> first | rfl | contradiction

variable {env : Env} {i : Nat} {w w' : World}

theorem frame_dequeue {x : Nat} {e : StreamEvent} (h : w.dequeue i x = some (e, w')) :
    Frame .recv w w' := by
  unfold World.dequeue at h
  split at h
  · cases h
  · split at h
    · cases h
    · cases h
      refine .trans ?_ (frame_hold (by simp) _ i x _)
      exact .setStr ‹_› (by simp) (by simp) (by simp [Stream.creditView])

theorem frame_of_exec {o : Op β} {b : β} (h : (b, w') ∈ o.exec env i w) : Frame o.kind w w' := by
  cases o
  case lookup | idle | validateClientID | lastPeerID =>
    simp only [Op.exec, Op.underTable] at h
    split at h
    · cases List.mem_singleton.1 h
      exact .refl _ _
    · cases h
  case loadHandler | loadRecorder | isEstablished | peerSettings | state | priority | connRecvWindow
    | ctxErr | setMaxDynamicTableSize | isClosed | hasPeerGoAway =>
    cases List.mem_singleton.1 h
    exact .refl _ _
  case advance x delta =>
    cases List.mem_singleton.1 h
    refine .upd w _ (fun hk => ?_) (by simp [Stream.queueView]) (by simp [Stream.creditView])
    exact absurd rfl (delta.kind_ne (by simp_all))
  case setPriority | cancelStream | closeEvents | recvReturn =>
    cases List.mem_singleton.1 h
    exact .upd w _ (by simp) (by simp [Stream.queueView]) (by simp [Stream.creditView])
  case fcPark =>
    cases List.mem_singleton.1 h
    exact frame_fcPark w i
  case fcUnpark =>
    cases List.mem_singleton.1 h
    exact frame_fcUnpark w i
  case newWaiter | sampleNeedConn | drainReady =>
    cases List.mem_singleton.1 h
    exact frame_setWaiter w i _
  case fcWakeStream x =>
    cases List.mem_singleton.1 h
    exact (frame_fcWakeStream w x).trans (frame_settle _ _ _)
  case fcWakeConn =>
    cases List.mem_singleton.1 h
    exact frame_fcWakeConn w
  case fcWakeAll =>
    cases List.mem_singleton.1 h
    exact (Frame.foldl frame_fcWake _ w).trans (frame_settle _ _ _)
  case awaitReady =>
    simp only [Op.exec, List.mem_append] at h
    obtain h | h := h <;> split at h
    · cases List.mem_singleton.1 h
      exact frame_setWaiter w i _
    · cases h
    · cases List.mem_singleton.1 h
      exact .refl _ w
    · cases h
  case refundStream x n =>
    cases List.mem_singleton.1 h
    exact .upd w x (by simp) (by simp [Stream.queueView]) (by simp)
  case lockTable | lockFc | lockW =>
    simp only [Op.exec, Op.whenFree] at h
    split at h
    · cases List.mem_singleton.1 h
      constructor <;> intros <;> first | rfl | simp_all
    · cases h
  case frameDone | stopReader | storeHandler | decodeBlock | storeRecorder | establish | addRapidReset
    | notePeerGoAway | unlockTable | publishSettings | unlockFc | unlockW | encodeBlock
    | requestGoAway | goAwayDone | clampGoAwayID | cancelConn | closeTransport | cancelRequest
    | refundConn =>
    cases List.mem_singleton.1 h
    constructor <;> intros <;> first | rfl | simp_all
  case readFrame f =>
    simp only [Op.exec] at h
    split at h
    · cases f <;> cases List.mem_singleton.1 h <;> constructor <;> intros <;>
        first | rfl | simp_all
    · cases h
  case admitClient x prio =>
    simp only [Op.exec, Op.underTable, World.admitClient] at h
    split at h
    · split at h <;> cases List.mem_singleton.1 h <;> constructor <;> intros <;>
        first | rfl | simp_all
    · cases h
  case reservePush limit =>
    simp only [Op.exec, Op.underTable, World.reservePush] at h
    split at h
    · split at h <;> cases List.mem_singleton.1 h <;> constructor <;> intros <;>
        first | rfl | simp_all
    · cases h
  case release x =>
    simp only [Op.exec, Op.underTable, World.release] at h
    split at h
    · split at h <;> cases List.mem_singleton.1 h <;> constructor <;> intros <;>
        first | rfl | simp_all
    · cases h
  case drain =>
    simp only [Op.exec] at h
    split at h
    · obtain ⟨l, -, hl⟩ := List.mem_map.1 h
      cases hl
      constructor <;> intros <;> first | rfl | simp_all
    · cases h
  case liveStreams =>
    obtain ⟨l, -, hl⟩ := List.mem_map.1 h
    cases hl
    exact .refl _ w
  case close =>
    simp only [Op.exec] at h
    split at h <;> cases List.mem_singleton.1 h <;> constructor <;> intros <;>
      first | rfl | simp_all
  case awaitReaderDone =>
    simp only [Op.exec] at h
    split at h
    · cases List.mem_singleton.1 h
      exact .refl _ w
    · cases h
  case tryEnqueue | deliver =>
    simp only [Op.exec] at h
    split at h <;> cases List.mem_singleton.1 h <;> constructor <;> intros <;>
      first | rfl | simp_all
  case tryAccept =>
    simp only [Op.exec] at h
    split at h <;> cases List.mem_singleton.1 h <;> constructor <;> intros <;>
      first | rfl | simp_all
  case write f =>
    simp only [Op.exec] at h
    split at h
    · cases List.mem_singleton.1 h
      exact .refl _ w
    · cases f
      case windowUpdate x n =>
        cases List.mem_singleton.1 h
        by_cases hx : x = 0 <;> simp only [Op.kind, Outbound.kind, hx, if_true, if_false] <;> constructor <;>
          intros <;> first | rfl | contradiction
      all_goals
        cases List.mem_singleton.1 h
        constructor <;> intros <;> first | rfl | simp_all
  case growConn n =>
    simp only [Op.exec, World.growConn, List.mem_singleton] at h
    split at h <;> cases h <;> constructor <;> intros <;>
      first | rfl | simp_all
  case debitConnRecv n =>
    simp only [Op.exec, World.debitConnRecv, List.mem_singleton] at h
    split at h
    · cases h
      constructor <;> intros <;> first | rfl
    · split at h <;> cases h <;> constructor <;> intros <;>
        first | rfl
  case awaitAccept ctx =>
    simp only [Op.exec, List.mem_append] at h
    obtain (h | h) | h := h <;> split at h <;>
      first
      | (cases List.mem_singleton.1 h
         constructor <;> intros <;> first | rfl | simp_all)
      | cases h
  case adjustWindow x delta =>
    cases hs : w.str x with
    | none =>
      simp only [Op.exec, World.adjustWindow, hs, List.mem_singleton] at h
      cases h
      exact .refl _ w
    | some s =>
      simp only [Op.exec, World.adjustWindow, hs, List.mem_singleton] at h
      split at h <;> cases h
      · exact .setStr hs (by simp) (by simp [Stream.queueView]) (by simp)
      · refine .trans ?_ (frame_owe (by simp) _ i .all)
        exact .setStr hs (by simp) (by simp [Stream.queueView]) (by simp)
  case growStream x n =>
    cases hs : w.str x with
    | none =>
      simp only [Op.exec, World.growStream, hs, List.mem_singleton] at h
      cases h
      exact .refl _ w
    | some s =>
      simp only [Op.exec, World.growStream, hs, List.mem_singleton] at h
      split at h <;> cases h
      · exact .refl _ w
      · refine .trans ?_ (frame_owe (by simp) _ i (.stream x))
        exact .setStr hs (by simp) (by simp [Stream.queueView]) (by simp)
  case takeSendCredits x n =>
    cases hs : w.str x with
    | none =>
      simp only [Op.exec, World.takeSendCredits, hs, List.mem_singleton] at h
      cases h
      exact .refl _ w
    | some s =>
      simp only [Op.exec, World.takeSendCredits, hs, List.mem_singleton] at h
      split at h <;> cases h
      · exact .refl _ w
      · refine .trans ?_ (frame_debitConn _ _)
        exact .setStr hs (by simp) (by simp [Stream.queueView]) (by simp)
  case trySend x e =>
    cases hs : w.str x with
    | none =>
      simp only [Op.exec, World.trySend, hs, List.mem_singleton] at h
      cases h
      exact .refl _ w
    | some s =>
      simp only [Op.exec, World.trySend, hs, List.mem_singleton] at h
      split at h <;> cases h
      · refine .trans ?_ (frame_handOn (by simp) _ i x _)
        exact .setStr hs (by simp) (by simp) (by simp [Stream.creditView])
      · exact .setStr hs (by simp) (by simp) (by simp [Stream.creditView])
  case debitRecv x n =>
    cases hs : w.str x with
    | none =>
      simp only [Op.exec, World.debitRecv, hs, List.mem_singleton] at h
      cases h
      exact .refl _ w
    | some s =>
      simp only [Op.exec, World.debitRecv, hs, List.mem_singleton] at h
      cases h
      exact .setStr hs (by simp) (by simp [Stream.queueView]) (by simp [Stream.creditView])
  case creditRecv x n =>
    cases hs : w.str x with
    | none =>
      simp only [Op.exec, World.creditRecv, hs, List.mem_singleton] at h
      cases h
      exact .refl _ w
    | some s =>
      have hs' : (w.handOn i x n).str x = some s := hs
      simp only [Op.exec, World.creditRecv, hs, List.mem_singleton] at h
      split at h <;> cases h
      · refine .trans (.trans (frame_handOn (by simp) w i x n) ?_) (frame_hold (by simp) _ i x _)
        exact .setStr hs' (by simp) (by simp) (by simp [Stream.creditView])
      · refine .trans (frame_handOn (by simp) w i x n) ?_
        exact .setStr hs' (by simp) (by simp) (by simp [Stream.creditView])
  case tryRecv x =>
    simp only [Op.exec] at h
    split at h <;> cases List.mem_singleton.1 h
    · exact frame_dequeue ‹_›
    · exact .refl _ w
  case awaitRecv x ctx =>
    simp only [Op.exec, List.mem_append] at h
    obtain h | h := h
    · split at h
      · cases List.mem_singleton.1 h
        exact frame_dequeue ‹_›
      · split at h
        · cases List.mem_singleton.1 h
          exact .refl _ w
        · cases h
    · split at h
      · cases List.mem_singleton.1 h
        exact .refl _ w
      · cases h

theorem Frame.state_eq {k : Kind} (h : Frame k w w')
    (hk : k ∉ [.register, .reserve, .advance, .advanceRecv]) (x : Nat) :
    w'.state x = w.state x := by
  simp only [World.state, h.state hk x]

theorem StreamState.terminal_union {s delta : StreamState} (h : s.terminal = true) :
    (s.union delta).terminal = true := by
  simp only [terminal, union, Bool.or_eq_true, Bool.and_eq_true] at h ⊢
  exact h.imp .inl fun h => ⟨.inl h.1, .inl h.2⟩

theorem state_advance (w : World) (x y : Nat) (delta : StreamState) :
    (w.upd x fun s => { s with st := s.st.union delta }).state y =
      if y = x ∧ (w.str x).isSome then (w.state x).union delta else w.state y := by
  rw [World.upd_eq]
  by_cases hy : y = x
  · subst hy
    cases h : w.str y <;> simp [World.state, h]
  · simp [World.state, hy]

theorem write_exec {f : Outbound} {ok : Bool} (h : (ok, w') ∈ Op.exec env i w (.write f)) :
    ok = false ∧ w.down = true ∧ w' = w ∨
      ok = true ∧ w.down = false ∧ w'.wire = w.wire ++ [f] := by
  simp only [Op.exec] at h
  split at h
  · cases List.mem_singleton.1 h
    exact .inl ⟨rfl, ‹_›, rfl⟩
  · refine .inr ?_
    rename_i hd
    have hd : w.down = false := by simpa using hd
    cases f
    case windowUpdate x n =>
      cases List.mem_singleton.1 h
      exact ⟨rfl, hd, by split <;> rfl⟩
    all_goals
      cases List.mem_singleton.1 h
      exact ⟨rfl, hd, rfl⟩

theorem frame_of_tag {o : Op β} {b : β} (h : (b, w') ∈ o.exec env i w) : Frame o.tag.kind w w' :=
  o.kind_tag ▸ frame_of_exec h

theorem down_of_exec {o : Op β} {b : β} (h : (b, w') ∈ o.exec env i w) (hd : w.down = true) :
    w'.down = true := by
  by_cases hk : o.kind = .down
  · cases o <;> simp only [Op.kind, reduceCtorEq] at hk
    case advance delta => exact absurd hk (delta.kind_ne (by simp))
    case write f => exact absurd hk (f.kind_ne (by simp))
    case closeTransport =>
      cases List.mem_singleton.1 h
      rfl
  · rw [(frame_of_exec h).down hk, hd]

theorem wire_exec {o : Op β} {b : β} (h : (b, w') ∈ o.exec env i w) :
    w'.wire = w.wire ∨ ∃ f : Outbound, o.tag = .write f.tag ∧ w'.wire = w.wire ++ [f] := by
  by_cases hk : o.tag.kind ∈ [.write, .update]
  · obtain ⟨t, ht⟩ := Tag.kind_write.1 hk
    cases o <;> simp only [Op.tag, reduceCtorEq] at ht
    case write f =>
      obtain ⟨-, -, rfl⟩ | ⟨-, -, hw⟩ := write_exec h
      · exact .inl rfl
      · exact .inr ⟨f, rfl, hw⟩
  · exact .inl ((frame_of_tag h).wire hk)

theorem readFrame_exec {f : Inbound} {u : Unit} (h : (u, w') ∈ Op.exec env i w (.readFrame f)) :
    w.reader = none ∧ w.readerDone = false ∧
      w'.readerView = (some i, false, w.handler, w.decoded, w.inbound ++ [f]) := by
  simp only [Op.exec] at h
  split at h
  · rename_i hfree
    simp only [Bool.not_eq_true'] at hfree
    refine ⟨hfree.1, hfree.2, ?_⟩
    cases f <;> cases List.mem_singleton.1 h <;> simp [World.readerView, World.hold, hfree.2]
  · cases h

@[simp] def Op.queues : Op β → Option Nat
  | .tryEnqueue x => some x
  | _ => none

@[simp] def Op.delivers : Op β → Option Nat
  | .deliver x => some x
  | _ => none

theorem acceptCh_of_exec {o : Op β} {b : β} (h : (b, w') ∈ o.exec env i w) :
    w'.acceptCh.Sublist w.acceptCh ∨ ∃ x, o.queues = some x ∧ w'.acceptCh = w.acceptCh ++ [x] := by
  by_cases ho : o.kind = .accept
  · cases o <;> simp only [Op.kind, reduceCtorEq] at ho
    case advance delta => exact absurd ho (delta.kind_ne (by simp))
    case write f => exact absurd ho (f.kind_ne (by simp))
    case tryEnqueue x =>
      simp only [Op.exec] at h
      split at h <;> cases List.mem_singleton.1 h
      · exact .inr ⟨x, rfl, rfl⟩
      · exact .inl (.refl _)
    case deliver x =>
      simp only [Op.exec] at h
      split at h <;> cases List.mem_singleton.1 h <;> exact .inl (.refl _)
    case tryAccept =>
      simp only [Op.exec] at h
      split at h <;> cases List.mem_singleton.1 h
      · exact .inl (.refl _)
      · rename_i hq
        exact .inl (hq ▸ List.sublist_cons_self _ _)
    case awaitAccept ctx =>
      simp only [Op.exec, List.mem_append] at h
      obtain (h | h) | h := h <;> split at h
      · cases h
      · rename_i hq
        cases List.mem_singleton.1 h
        exact .inl (hq ▸ List.sublist_cons_self _ _)
      all_goals first
        | cases h
          done
        | cases List.mem_singleton.1 h
          exact .inl (.refl _)
  · have ha := (frame_of_exec h).accept ho
    simp only [World.acceptView, Prod.mk.injEq] at ha
    exact .inl (ha.1 ▸ .refl _)

theorem delivered_of_exec {o : Op β} {b : β} (h : (b, w') ∈ o.exec env i w) :
    w'.delivered = w.delivered ∧ w'.streamsAccepted = w.streamsAccepted ∨
      ∃ x, o.delivers = some x ∧ (w.state x).terminal = false ∧
        w'.delivered = w.delivered ++ [x] ∧ w'.streamsAccepted = w.streamsAccepted + 1 := by
  by_cases ho : o.kind = .accept
  · cases o <;> simp only [Op.kind, reduceCtorEq] at ho
    case advance delta => exact absurd ho (delta.kind_ne (by simp))
    case write f => exact absurd ho (f.kind_ne (by simp))
    case tryEnqueue x =>
      simp only [Op.exec] at h
      split at h <;> cases List.mem_singleton.1 h <;> exact .inl ⟨rfl, rfl⟩
    case deliver x =>
      simp only [Op.exec] at h
      split at h <;> cases List.mem_singleton.1 h
      · exact .inl ⟨rfl, rfl⟩
      · exact .inr ⟨x, rfl, by simpa using ‹¬(w.state x).terminal = true›, rfl, rfl⟩
    case tryAccept =>
      simp only [Op.exec] at h
      split at h <;> cases List.mem_singleton.1 h <;> exact .inl ⟨rfl, rfl⟩
    case awaitAccept ctx =>
      simp only [Op.exec, List.mem_append] at h
      obtain (h | h) | h := h <;> split at h <;> first
        | cases h
          done
        | cases List.mem_singleton.1 h
          exact .inl ⟨rfl, rfl⟩
  · have ha := (frame_of_exec h).accept ho
    simp only [World.acceptView, Prod.mk.injEq] at ha
    exact .inl ha.2

/-- What a step can do to the accept queue and to what has been taken out of it. -/
theorem accept_exec {o : Op β} {b : β} (h : (b, w') ∈ o.exec env i w) :
    (∀ x ∈ w'.acceptCh, x ∈ w.acceptCh ∨ o.queues = some x) ∧
      (w'.delivered = w.delivered ∧ w'.streamsAccepted = w.streamsAccepted ∨
        ∃ x, o.delivers = some x ∧ (w.state x).terminal = false ∧
          w'.delivered = w.delivered ++ [x] ∧ w'.streamsAccepted = w.streamsAccepted + 1) := by
  refine ⟨fun x hx => ?_, delivered_of_exec h⟩
  obtain hsub | ⟨y, hy, hq⟩ := acceptCh_of_exec h
  · exact .inl (hsub.subset hx)
  · rw [hq, List.mem_append, List.mem_singleton] at hx
    exact hx.imp_right (by rintro rfl; exact hy)

theorem tryAccept_mem {x : Nat} (h : (some x, w') ∈ Op.exec env i w .tryAccept) :
    x ∈ w.acceptCh := by
  simp only [Op.exec] at h
  split at h <;> cases List.mem_singleton.1 h
  simp [*]

theorem awaitAccept_mem {x : Nat} {ctx : Ctx}
    (h : (.ok x, w') ∈ Op.exec env i w (.awaitAccept ctx)) : x ∈ w.acceptCh := by
  simp only [Op.exec, List.mem_append] at h
  obtain (h | h) | h := h <;> split at h <;> simp_all

@[simp] def Op.written : Op β → Option Outbound
  | .write f => some f
  | _ => none

theorem write_of_wire {env : Env} {i : Nat} {w w' : World} {o : Op β} {b : β} {f : Outbound}
    (hb : (b, w') ∈ o.exec env i w) (h : w'.wire = w.wire ++ [f]) :
    o.written = some f ∧ w.down = false := by
  obtain hw | ⟨f', ht, hw⟩ := wire_exec hb
  · simp [hw] at h
  · cases o <;> simp only [Op.tag, reduceCtorEq] at ht
    case write g =>
      obtain ⟨-, -, rfl⟩ | ⟨-, hup, hw⟩ := write_exec hb
      · simp at h
      · cases List.singleton_inj.1 (List.append_cancel_left (hw.symm.trans h))
        exact ⟨rfl, hup⟩

theorem written_of_wire {env : Env} {i : Nat} {w w' : World} {o : Op β} {b : β} {f : Outbound}
    (hb : (b, w') ∈ o.exec env i w) (h : w'.wire = w.wire ++ [f]) : o.written = some f :=
  (write_of_wire hb h).1

end PoseidonServer.Conn
