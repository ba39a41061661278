import PoseidonServer.Conn.Frame

/-! What each step leaves alone of the data that only few steps touch: the GOAWAY state, the
windows, the encoder, the handshake and the live streams. -/

namespace PoseidonServer.Conn

open Concurrent

def Stream.sendView (s : Stream) :=
  (s.sendWindow, s.base, s.granted, s.debited, s.saturated, s.stale)

def recvWindowSteps : List Tag := [.admitClient, .reservePush, .debitRecv, .creditRecv]

def sendWindowSteps : List Tag :=
  [.admitClient, .reservePush, .adjustWindow, .growStream, .takeSendCredits, .refundStream]

structure Stream.Still (t : Tag) (s s' : Stream) : Prop where
  window : t ∉ recvWindowSteps → s'.recvWindow = s.recvWindow
  send : t ∉ sendWindowSteps → s'.sendView = s.sendView

theorem Stream.Still.of_eq {t : Tag} {s s' : Stream} (hw : s'.recvWindow = s.recvWindow)
    (hs : s'.sendView = s.sendView) : Stream.Still t s s' :=
  ⟨fun _ => hw, fun _ => hs⟩

namespace World

variable (w : World)

def connSendView := (w.peerConnSendWindow, w.connGranted, w.connDebited, w.connSaturated)

def quietView := (w.goAwaySentID, w.goAwayRequested, w.connRecvWindow, w.connRefundPending,
  w.established, w.encoded, w.recorder, w.peerGoAway, w.connSendView)

end World

structure Still (t : Tag) (w w' : World) : Prop where
  sent : t ≠ .clampGoAwayID → w'.goAwaySentID = w.goAwaySentID
  requested : t ∉ [.requestGoAway, .goAwayDone] → w'.goAwayRequested = w.goAwayRequested
  connRecv : t ≠ .debitConnRecv →
    w'.connRecvWindow = w.connRecvWindow ∧ w'.connRefundPending = w.connRefundPending
  established : t ≠ .establish → w'.established = w.established
  encoded : t ≠ .encodeBlock → w'.encoded = w.encoded
  recorder : t ≠ .storeRecorder → w'.recorder = w.recorder
  peerGoAway : t ≠ .notePeerGoAway → w'.peerGoAway = w.peerGoAway
  connSend : t ∉ [.growConn, .takeSendCredits, .refundConn] → w'.connSendView = w.connSendView
  window : t ∉ recvWindowSteps → ∀ x, (w'.str x).map (·.recvWindow) = (w.str x).map (·.recvWindow)
  send : t ∉ sendWindowSteps → ∀ x, (w'.str x).map (·.sendView) = (w.str x).map (·.sendView)

namespace Still

variable {t : Tag} {w w' : World}

theorem of_view (h : w'.quietView = w.quietView)
    (hx : t ∉ recvWindowSteps → ∀ x, (w'.str x).map (·.recvWindow) = (w.str x).map (·.recvWindow))
    (hs : t ∉ sendWindowSteps → ∀ x, (w'.str x).map (·.sendView) = (w.str x).map (·.sendView)) :
    Still t w w' := by
  simp only [World.quietView, Prod.mk.injEq] at h
  obtain ⟨h₁, h₂, h₃, h₄, h₅, h₆, h₇, h₈, h₉⟩ := h
  exact ⟨fun _ => h₁, fun _ => h₂, fun _ => ⟨h₃, h₄⟩, fun _ => h₅, fun _ => h₆, fun _ => h₇,
    fun _ => h₈, fun _ => h₉, hx, hs⟩

theorem of_str (h : w'.quietView = w.quietView) (hx : w'.str = w.str) : Still t w w' :=
  of_view h (fun _ x => by rw [hx]) fun _ x => by rw [hx]

theorem refl (t : Tag) (w : World) : Still t w w := of_str rfl rfl

theorem upd (w : World) (x : Nat) {f : Stream → Stream} (hf : ∀ s, Stream.Still t s (f s)) :
    Still t w (w.upd x f) := by
  rw [World.upd_eq]
  exact of_view rfl (fun ht => map_update (fun s => (hf s).window ht) w x)
    fun ht => map_update (fun s => (hf s).send ht) w x

theorem set {x : Nat} {s s' : Stream} (hs : w.str x = some s) (h : w'.quietView = w.quietView)
    (hstr : w'.str = Function.update w.str x (some s')) (hst : Stream.Still t s s') :
    Still t w w' := by
  refine of_view h (fun ht y => ?_) fun ht y => ?_
  all_goals
    rw [hstr]
    by_cases hy : y = x
    · subst hy
      simp [hs, hst.window, hst.send, ht]
    · simp [hy]

theorem trans {w₁ w₂ w₃ : World} (h₁ : Still t w₁ w₂) (h₂ : Still t w₂ w₃) : Still t w₁ w₃ where
  sent ht := (h₂.sent ht).trans (h₁.sent ht)
  requested ht := (h₂.requested ht).trans (h₁.requested ht)
  connRecv ht := ⟨(h₂.connRecv ht).1.trans (h₁.connRecv ht).1,
    (h₂.connRecv ht).2.trans (h₁.connRecv ht).2⟩
  established ht := (h₂.established ht).trans (h₁.established ht)
  encoded ht := (h₂.encoded ht).trans (h₁.encoded ht)
  recorder ht := (h₂.recorder ht).trans (h₁.recorder ht)
  peerGoAway ht := (h₂.peerGoAway ht).trans (h₁.peerGoAway ht)
  connSend ht := (h₂.connSend ht).trans (h₁.connSend ht)
  send ht x := (h₂.send ht x).trans (h₁.send ht x)
  window ht x := (h₂.window ht x).trans (h₁.window ht x)

theorem foldl {f : World → Nat → World} (hf : ∀ w i, Still t w (f w i)) (l : List Nat) (w : World) :
    Still t w (l.foldl f w) := by
  induction l generalizing w with
  | nil => exact refl t w
  | cons i l ih => exact (hf w i).trans (ih (f w i))

theorem fcPark (w : World) (i : Nat) : Still t w (w.fcPark i) := by
  unfold World.fcPark
  dsimp only
  split
  · exact refl t w
  · exact (upd w (w.waiter i).ss (f := fun s => { s with fcHead := i :: s.fcHead })
      fun _ => .of_eq rfl rfl).trans (of_str rfl rfl)

theorem fcUnpark (w : World) (i : Nat) : Still t w (w.fcUnpark i) := by
  unfold World.fcUnpark
  dsimp only
  split
  · exact refl t w
  · exact (upd w (w.waiter i).ss (f := fun s => { s with fcHead := s.fcHead.erase i })
      fun _ => .of_eq rfl rfl).trans (of_str rfl rfl)

theorem fcWake (w : World) (i : Nat) : Still t w (w.fcWake i) :=
  (fcUnpark w i).trans (of_str rfl rfl)

theorem dequeue {i x : Nat} {e : StreamEvent} (h : w.dequeue i x = some (e, w')) : Still t w w' := by
  unfold World.dequeue at h
  split at h
  · cases h
  · split at h
    · cases h
    · cases h
      have hs := ‹w.str x = some _›
      exact .set hs rfl rfl (.of_eq rfl rfl)

end Still

variable {env : Env} {i : Nat} {w w' : World}

theorem still_of_exec {o : Op β} {b : β} (h : (b, w') ∈ o.exec env i w) : Still o.tag w w' := by
  cases o
  case lookup | idle | validateClientID | lastPeerID =>
    simp only [Op.exec, Op.underTable] at h
    split at h
    · cases List.mem_singleton.1 h
      exact .refl _ _
    · cases h
  case loadHandler | loadRecorder | isEstablished | peerSettings | state | priority | connRecvWindow
    | ctxErr | setMaxDynamicTableSize | isClosed | hasPeerGoAway | frameDone | stopReader
    | storeHandler | decodeBlock | addRapidReset | unlockTable | publishSettings | unlockFc
    | unlockW | cancelConn | closeTransport | cancelRequest | newWaiter | sampleNeedConn
    | drainReady =>
    cases List.mem_singleton.1 h
    exact .of_str rfl rfl
  case storeRecorder | establish | encodeBlock | requestGoAway | goAwayDone | clampGoAwayID
    | notePeerGoAway | refundConn =>
    cases List.mem_singleton.1 h
    constructor <;> intros <;> first | rfl | exact ⟨rfl, rfl⟩ | simp_all
  case advance | setPriority | cancelStream | closeEvents | recvReturn =>
    cases List.mem_singleton.1 h
    exact .upd w _ fun _ => .of_eq rfl rfl
  case refundStream =>
    cases List.mem_singleton.1 h
    exact .upd w _ fun _ => ⟨fun _ => rfl, by simp [sendWindowSteps]⟩
  case fcPark =>
    cases List.mem_singleton.1 h
    exact .fcPark w i
  case fcUnpark =>
    cases List.mem_singleton.1 h
    exact .fcUnpark w i
  case fcWakeStream x =>
    cases List.mem_singleton.1 h
    refine .trans ?_ (.of_str (w := w.fcWakeStream x) rfl rfl)
    unfold World.fcWakeStream
    split
    · exact .foldl .fcWake _ w
    · exact .refl _ w
  case fcWakeConn =>
    cases List.mem_singleton.1 h
    unfold World.fcWakeConn
    split
    · exact .refl _ w
    · refine .foldl (fun w i => ?_) _ w
      split
      · exact .fcWake w i
      · exact .refl _ w
  case fcWakeAll =>
    cases List.mem_singleton.1 h
    exact (Still.foldl .fcWake _ w).trans (.of_str rfl rfl)
  case awaitReady | awaitAccept =>
    simp only [Op.exec, List.mem_append] at h
    repeat' obtain h | h := h
    all_goals
      split at h <;> first
        | cases h
          done
        | cases List.mem_singleton.1 h
          exact .of_str rfl rfl
  case lockTable | lockFc | lockW =>
    simp only [Op.exec, Op.whenFree] at h
    split at h
    · cases List.mem_singleton.1 h
      exact .of_str rfl rfl
    · cases h
  case readFrame f =>
    simp only [Op.exec] at h
    split at h
    · cases f <;> cases List.mem_singleton.1 h <;> exact .of_str rfl rfl
    · cases h
  case admitClient x prio =>
    simp only [Op.exec, Op.underTable, World.admitClient] at h
    split at h
    · split at h <;> cases List.mem_singleton.1 h <;>
        exact .of_view rfl (by simp [recvWindowSteps]) (by simp [sendWindowSteps])
    · cases h
  case reservePush limit =>
    simp only [Op.exec, Op.underTable, World.reservePush] at h
    split at h
    · split at h <;> cases List.mem_singleton.1 h <;>
        exact .of_view rfl (by simp [recvWindowSteps]) (by simp [sendWindowSteps])
    · cases h
  case release x =>
    simp only [Op.exec, Op.underTable, World.release] at h
    split at h
    · split at h <;> cases List.mem_singleton.1 h <;> exact .of_str rfl rfl
    · cases h
  case drain =>
    simp only [Op.exec] at h
    split at h
    · obtain ⟨l, -, hl⟩ := List.mem_map.1 h
      cases hl
      exact .of_str rfl rfl
    · cases h
  case liveStreams =>
    obtain ⟨l, -, hl⟩ := List.mem_map.1 h
    cases hl
    exact .refl _ w
  case close | tryEnqueue | deliver | tryAccept =>
    simp only [Op.exec] at h
    split at h <;> cases List.mem_singleton.1 h <;> exact .of_str rfl rfl
  case awaitReaderDone =>
    simp only [Op.exec] at h
    split at h
    · cases List.mem_singleton.1 h
      exact .refl _ w
    · cases h
  case write f =>
    simp only [Op.exec] at h
    split at h
    · cases List.mem_singleton.1 h
      exact .refl _ w
    · cases f
      case windowUpdate x n =>
        cases List.mem_singleton.1 h
        split <;> exact .of_str rfl rfl
      all_goals
        cases List.mem_singleton.1 h
        exact .of_str rfl rfl
  case growConn n =>
    simp only [Op.exec, World.growConn, List.mem_singleton] at h
    split at h <;> cases h <;> constructor <;> intros <;> first | rfl | exact ⟨rfl, rfl⟩ | simp_all
  case debitConnRecv n =>
    simp only [Op.exec, World.debitConnRecv, List.mem_singleton] at h
    split at h
    · cases h
      constructor <;> intros <;> first | rfl | contradiction
    · split at h <;> cases h <;> constructor <;> intros <;> first | rfl | contradiction
  case adjustWindow x delta =>
    simp only [Op.exec, World.adjustWindow, List.mem_singleton] at h
    split at h
    · cases h
      exact .refl _ w
    · split at h <;> cases h
      · have hs := ‹w.str x = some _›
        exact .set hs rfl rfl ⟨fun _ => rfl, by simp [sendWindowSteps]⟩
      · have hs := ‹w.str x = some _›
        exact .set hs rfl rfl ⟨fun _ => rfl, by simp [sendWindowSteps]⟩
  case growStream x n =>
    simp only [Op.exec, World.growStream, List.mem_singleton] at h
    split at h
    · cases h
      exact .refl _ w
    · split at h <;> cases h
      · exact .refl _ w
      · have hs := ‹w.str x = some _›
        exact .set hs rfl rfl ⟨fun _ => rfl, by simp [sendWindowSteps]⟩
  case takeSendCredits x n =>
    simp only [Op.exec, World.takeSendCredits, List.mem_singleton] at h
    split at h
    · cases h
      exact .refl _ w
    · split at h <;> cases h
      · exact .refl _ w
      · have hs := ‹w.str x = some _›
        have hconn (n : Int) : Still .takeSendCredits w (w.debitConn n) := by
          constructor <;> intros <;> first | rfl | exact ⟨rfl, rfl⟩ | simp_all
        exact (hconn _).trans (.set hs rfl rfl ⟨fun _ => rfl, by simp [sendWindowSteps]⟩)
  case trySend x e =>
    simp only [Op.exec, World.trySend, List.mem_singleton] at h
    split at h
    · cases h
      exact .refl _ w
    · split at h <;> cases h
      · have hs := ‹w.str x = some _›
        exact .set hs rfl rfl (.of_eq rfl rfl)
      · have hs := ‹w.str x = some _›
        exact .set hs rfl rfl (.of_eq rfl rfl)
  case debitRecv x n =>
    simp only [Op.exec, World.debitRecv, List.mem_singleton] at h
    split at h <;> cases h
    · exact .refl _ w
    · have hs := ‹w.str x = some _›
      exact .set hs rfl rfl ⟨by simp [recvWindowSteps], fun _ => rfl⟩
  case creditRecv x n =>
    simp only [Op.exec, World.creditRecv, List.mem_singleton] at h
    split at h
    · cases h
      exact .refl _ w
    · have hs := ‹w.str x = some _›
      split at h <;> cases h <;>
        exact .set hs rfl rfl ⟨by simp [recvWindowSteps], fun _ => rfl⟩
  case tryRecv x =>
    simp only [Op.exec] at h
    split at h <;> cases List.mem_singleton.1 h
    · exact .dequeue ‹_›
    · exact .refl _ w
  case awaitRecv x ctx =>
    simp only [Op.exec, List.mem_append] at h
    obtain h | h := h
    · split at h
      · cases List.mem_singleton.1 h
        exact .dequeue ‹_›
      · split at h
        · cases List.mem_singleton.1 h
          exact .refl _ w
        · cases h
    · split at h
      · cases List.mem_singleton.1 h
        exact .refl _ w
      · cases h

/-- What a step does to the live streams and to the counter of pushed ones. -/
inductive TableStep (w w' : World) : {β : Type} → Op β → Prop
  | same {β : Type} {o : Op β} (hlive : w'.live = w.live) (hnext : w'.nextPush = w.nextPush)
    (hpush : w'.nPush = w.nPush) : TableStep w w' o
  | register {x : Nat} {prio : Option Priority} (hfree : w.tmu = none) (hlive : w'.live = x :: w.live)
    (hnext : w'.nextPush = w.nextPush) (hpush : w'.nPush = w.nPush) :
    TableStep w w' (.admitClient x prio)
  | reserve {limit : Nat} (hfree : w.tmu = none) (hroom : limit = noStreamLimit ∨ w.nPush < limit)
    (hlive : w'.live = w.nextPush :: w.live) (hnext : w'.nextPush = w.nextPush + 2)
    (hpush : w'.nPush = w.nPush + 1) : TableStep w w' (.reservePush limit)
  | release {x : Nat} (hfree : w.tmu = none) (hx : x ∈ w.live) (hlive : w'.live = w.live.erase x)
    (hnext : w'.nextPush = w.nextPush)
    (hpush : w'.nPush = if x % 2 = 1 then w.nPush else w.nPush - 1) : TableStep w w' (.release x)
  | drain (hfree : w.tmu = none) (hlive : w'.live = []) (hnext : w'.nextPush = w.nextPush)
    (hpush : w'.nPush = 0) : TableStep w w' .drain

theorem Tag.kind_table {t : Tag} : t.kind ∈ [.register, .reserve, .release, .drain] ↔
    t ∈ [.admitClient, .reservePush, .release, .drain] := by
  cases t
  case advance delta => exact iff_of_false (delta.kind_notMem (by simp)) (by simp)
  case write f => cases f <;> simp [kind]
  all_goals simp [kind]

theorem Tag.kind_settings {t : Tag} :
    t.kind = .settings ↔ t = .publishSettings ∨ t = .adjustWindow := by
  cases t
  case advance delta => exact iff_of_false (delta.kind_ne (by simp)) (by simp)
  case write f => cases f <;> simp [kind]
  all_goals simp [kind]

theorem TableStep.of_view {o : Op β} (h : w'.tableView = w.tableView) : TableStep w w' o := by
  simp only [World.tableView, Prod.mk.injEq] at h
  exact .same h.1 h.2.2.1 h.2.2.2.2.1

theorem tableStep_of_exec {o : Op β} {b : β} (hb : (b, w') ∈ o.exec env i w) :
    TableStep w w' o := by
  by_cases ht : o.tag ∈ [.admitClient, .reservePush, .release, .drain]
  case neg => exact .of_view ((frame_of_tag hb).table (mt Tag.kind_table.1 ht))
  cases o <;> simp only [Op.tag, List.mem_cons, List.not_mem_nil, reduceCtorEq, or_self] at ht
  case admitClient x prio =>
    simp only [Op.exec, Op.underTable, World.admitClient] at hb
    split at hb
    · split at hb <;> cases List.mem_singleton.1 hb
      · exact .same rfl rfl rfl
      · exact .register ‹_› rfl rfl rfl
    · cases hb
  case reservePush limit =>
    simp only [Op.exec, Op.underTable, World.reservePush] at hb
    split at hb
    · split at hb <;> cases List.mem_singleton.1 hb
      · exact .same rfl rfl rfl
      · exact .reserve ‹_› (by omega) rfl rfl rfl
    · cases hb
  case release x =>
    simp only [Op.exec, Op.underTable, World.release] at hb
    split at hb
    · split at hb <;> cases List.mem_singleton.1 hb
      · exact .release ‹_› ‹_› rfl rfl rfl
      · exact .same rfl rfl rfl
    · cases hb
  case drain =>
    simp only [Op.exec] at hb
    split at hb
    · obtain ⟨l, -, hl⟩ := List.mem_map.1 hb
      cases hl
      exact .drain ‹_› rfl rfl rfl
    · cases hb

theorem Tag.kind_lockTable {t : Tag} : t.kind = .lockTable ↔ t = .lockTable ∨ t = .unlockTable := by
  cases t
  case advance delta => exact iff_of_false (delta.kind_ne (by simp)) (by simp)
  case write f => cases f <;> simp [kind]
  all_goals simp [kind]

theorem peerSettings_of_exec {o : Op β} {b : β} (ht : o.tag ≠ .publishSettings)
    (hb : (b, w') ∈ o.exec env i w) : w'.peerSettings = w.peerSettings := by
  by_cases ha : o.tag = .adjustWindow
  · cases o <;> simp only [Op.tag, reduceCtorEq] at ha
    case adjustWindow y delta =>
      have hb : w' = (w.adjustWindow i y delta).2 := congrArg Prod.snd (List.mem_singleton.1 hb)
      rw [hb, World.adjustWindow]
      split
      · rfl
      · split <;> rfl
  · refine (frame_of_tag hb).settings ?_
    generalize o.tag = t at ht ha
    rw [Ne, Tag.kind_settings]
    simp [ht, ha]

end PoseidonServer.Conn
