import PoseidonServer.Conn.SendCredit.Settings
import PoseidonServer.Conn.SendCredit.Writers

/-! Every send window counts what the peer has granted and what has been debited, and no more is
debited than was granted. -/

namespace PoseidonServer.Conn

open Concurrent

namespace SendCredit

variable {env : Env} {G : Guard Op World Call} {i j x : Nat} {w w' : World} {r r' : Share}
  {s s' : Stream}

theorem turnSteps_still : ∀ t ∈ [Tag.readFrame, .frameDone, .stopReader], t.kind = .reader ∧
    t ∉ [.growConn, .takeSendCredits, .refundConn] ∧ t ∉ sendWindowSteps := by decide

theorem turn_exec {o : Op β} {b : β} (ho : o.tag ∈ [.readFrame, .frameDone, .stopReader])
    (hb : (b, w') ∈ o.exec env i w) :
    Calm { w with reader := w'.reader, readerDone := w'.readerDone } w' := by
  have hf := frame_of_tag hb
  have hst := still_of_exec hb
  obtain ⟨hk, hconn, hsend⟩ := turnSteps_still _ ho
  rw [hk] at hf
  have hwire : w'.wire = w.wire := hf.wire (by simp)
  have htable := hf.table (by simp)
  simp only [World.tableView, Prod.mk.injEq] at htable
  exact
    { turn := ⟨rfl, rfl⟩
      tmu := hf.tmu (by simp)
      settings := hf.settings (by simp)
      live := ⟨by simp [htable.1], fun _ => htable.1⟩
      sentOn := fun x => by simp [World.sentOn, hwire]
      sent := by simp [World.sent, hwire]
      conn := hst.connSend hconn
      str := hst.send hsend }

theorem inv_turn {o : Op β} {b : β} (ho : o.tag ∈ [.readFrame, .frameDone, .stopReader])
    (hb : (b, w') ∈ o.exec env i w) (h : Inv w r)
    (hno : w'.reader = none → w'.readerDone = false → w.NoStale) : Inv w' r :=
  (turn_exec ho hb).inv { h with conn := h.conn.congr rfl, noStale := hno }

theorem rely_turn {o : Op β} {b : β} (ho : o.tag ∈ [.readFrame, .frameDone, .stopReader])
    (hb : (b, w') ∈ o.exec env i w) (hj : w.reader ≠ some j) : Rely j w w' where
  reader hr := absurd hr hj
  table ht := ((turn_exec ho hb).rely j).table ht

theorem frameDone_safe (h : Kept i w) :
    (spec env G).Safe i (.lift .frameDone) 0 ((spec env G).Done i) w := by
  intro w₁ hw _ _
  have h₁ := h.rely hw
  refine ⟨trivial, fun b w₂ hb => ?_⟩
  change (b, w₂) ∈ Op.exec env i w₁ .frameDone at hb
  refine ⟨0, fun r hr => inv_turn (by simp) hb hr fun _ _ => h₁.2, fun j hj => ?_,
    fun _ _ => ⟨rfl, trivial⟩⟩
  exact rely_turn (by simp) hb (by simpa [h₁.1] using hj.symm)

theorem stopReader_safe (h : w.reader = some i) :
    (spec env G).Safe i (.lift .stopReader) 0 ((spec env G).Done i) w := by
  intro w₁ hw _ _
  have h₁ := (hw.reader h).1
  refine ⟨trivial, fun b w₂ hb => ?_⟩
  change (b, w₂) ∈ Op.exec env i w₁ .stopReader at hb
  have hdone : w₂.readerDone = true := by
    cases List.mem_singleton.1 hb
    rfl
  refine ⟨0, fun r hr => inv_turn (by simp) hb hr fun _ hd => by simp [hdone] at hd, fun j hj => ?_,
    fun _ _ => ⟨rfl, trivial⟩⟩
  exact rely_turn (by simp) hb (by simpa [h₁] using hj.symm)

theorem broken_safe {p : M α} {l : List Tag} (hp : Uses l p) (hl : ∀ t ∈ l, t ∉ ownSteps)
    (h : w.reader = some i) :
    (spec env G).Safe i p 0 (fun _ g w => g = 0 ∧ w.reader = some i) w :=
  uses_safe hp hl fun _ _ hw => ⟨rfl, (hw.reader h).1⟩

theorem ownSteps_kind : ∀ t ∈ ownSteps, t.kind ≠ .quiet := by decide

theorem round {f : Inbound} : Round (spec env G) i f (Kept i) fun w => w.reader = some i where
  quiet ho := harmless fun h => ownSteps_kind _ h ((Op.kind_tag _).trans ho)
  kept_rely hw h := h.rely hw
  broken_rely hw h := (hw.reader h).1
  broken h := h.1
  answer code h _ := kept_safe (writeRSTStreamID_uses _ code) (by decide) h
  frameDone := frameDone_safe
  announce code h := broken_safe (sendGoAway_uses code) (by decide) h
  closeTransport h := broken_safe (l := [.closeTransport]) (by simp) (by decide) h
  shutdown h := broken_safe shutdownStreams_uses (by decide) h
  stop := stopReader_safe
  initial h := kept_safe sendInitialConnWindowUpdate_uses (by decide) h
  seed h := kept_safe (seed_uses env) (by decide) h

theorem dispatch_safe (f : Inbound) (h : Kept i w) : (spec env G).Safe i (dispatch env f) 0
    (Handled (Kept i) fun w => w.reader = some i) w := by
  have hkept {p : M (Except GoErr Unit)} {l : List Tag} (hp : Uses l p)
      (hl : ∀ t ∈ l, t ∉ ownSteps) :
      (spec env G).Safe i p 0 (Handled (Kept i) fun w => w.reader = some i) w :=
    (kept_safe hp hl h).mono fun _ _ _ h => ⟨h.1, .inl h.2⟩
  cases f with
  | settings ack p => exact onSettings_safe ack p h
  | headers => exact hkept (onHeaders_uses ..) (by decide)
  | continuation => exact hkept (onContinuation_uses ..) (by decide)
  | data => exact hkept (onData_uses ..) (by decide)
  | rstStream => exact hkept (onRSTStream_uses ..) (by decide)
  | ping => exact hkept (onPing_uses ..) (by decide)
  | windowUpdate x n =>
    exact hkept (l := .loadHandler :: onWindowUpdateSteps) (guardHeaderBlock_uses (by simp)
      ((onWindowUpdate_uses x n).mono (List.subset_cons_self ..))) (by decide)
  | goAway =>
    exact hkept (l := [.loadHandler, .notePeerGoAway]) (guardHeaderBlock_uses (by simp) (by simp))
      (by decide)
  | priority | altSvc | origin =>
    exact hkept (l := [.loadHandler]) (guardHeaderBlock_uses (by simp) (by simp)) (by decide)
  | pushPromise | unknown | rejected => exact hkept (l := []) (uses_ret _) (by simp)

theorem serveFrame_safe (f : Inbound) :
    (spec env G).Safe i (serveFrame env f) 0 ((spec env G).Done i) w := by
  intro w₁ _ ⟨r, hinv⟩ _
  refine ⟨trivial, fun b w₂ hb => ?_⟩
  change (b, w₂) ∈ Op.exec env i w₁ (.readFrame f) at hb
  obtain ⟨hfree, hdone, hview⟩ := readFrame_exec hb
  simp only [World.readerView, Prod.mk.injEq] at hview
  have hno := hinv.noStale hfree hdone
  refine ⟨0, fun r hr => inv_turn (by simp) hb hr fun h => by simp [hview.1] at h, fun j _ =>
    rely_turn (by simp) hb (by simp [hfree]), ?_⟩
  have h₂ : Kept i w₂ := by
    refine ⟨hview.1, fun x s' hs' => ?_⟩
    obtain ⟨s, hs, hv⟩ := exists_of_map_eq ((turn_exec (by simp) hb).str x) hs'
    simp only [Stream.sendView, Prod.mk.injEq] at hv
    rw [hv.2.2.2.2.2, hno x s hs]
  exact round.serveSafe (Kept i) (fun hw h => h.rely hw) (fun w _ h => dispatch_safe f h)
    (fun w ack p _ _ h => recorderSettings_safe ack p h) h₂

theorem verifies : (spec env G).Verifies (Call.body env) := by
  intro q i w _ _ _
  cases q with
  | frame f => exact serveFrame_safe f
  | sendData x p endStream ctx =>
    exact Spec.Safe.bind ((sendData_safe x p endStream ctx).mono fun _ _ _ hg _ _ => ⟨hg, trivial⟩)
  | recv x ctx =>
    refine uses_safe (Call.body_uses env (by simp)) ?_ fun _ _ _ => ⟨rfl, trivial⟩
    rw [Call.steps, Outbound.tag_windowUpdate]
    split <;> decide
  | _ =>
    exact uses_safe (Call.body_uses env (by simp)) (by simp only [Call.steps]; decide)
      fun _ _ _ => ⟨rfl, trivial⟩

theorem init_inv (env : Env) : Inv (World.init env) 0 where
  initial := by
    simp [World.init, World.initialWindow, settingValue, maxWindow, connInitialRecvWindow]
  window x s hs := by cases hs
  conn := ⟨⟨le_rfl, fun _ => rfl⟩, by simp [World.init, connInitialRecvWindow, maxWindow]⟩
  level _ x hx := by cases hx
  noStale _ _ x s hs := by cases hs
  sentOn x := by simp [World.init, World.sentOn, Outbound.octetsOn]
  sent := by simp [World.init, World.sent, Outbound.octets]

theorem inv_of_reach (hG : Fresh env G) {c : Config Op World} (hc : Reach env G c) :
    ∃ r, Inv c.shared r :=
  Spec.inv_of_reachable (init_inv env) (fun _ => trivial) verifies (reach_tabled hG hc)

inductive DebitStep (x : Nat) (s s' : Stream) : Op β → Prop
  | keep {o : Op β} (base : s'.base = s.base) (granted : s.granted ≤ s'.granted)
    (debited : s'.debited ≤ s.debited) : DebitStep x s s' o
  | renew {o : Op β} (new : o.tag ∈ [.admitClient, .reservePush]) (debited : s'.debited = 0) :
    DebitStep x s s' o
  | adjust {delta : Int} (base : s'.base = s.base + delta) (granted : s'.granted = s.granted)
    (debited : s'.debited = s.debited) : DebitStep x s s' (.adjustWindow x delta)
  | take {want : Nat} (base : s'.base = s.base) (granted : s'.granted = s.granted)
    (window : 0 ≤ s'.sendWindow) : DebitStep x s s' (.takeSendCredits x want)

theorem debitStep_of_exec {o : Op β} {b : β} (hb : (b, w') ∈ o.exec env i w)
    (hs : w.str x = some s) (hs' : w'.str x = some s') : DebitStep x s s' o := by
  have hset {y : Nat} {t : Stream} (hstr : w'.str = Function.update w.str y (some t))
      (h : y = x → DebitStep x s t o) : DebitStep x s s' o := by
    obtain ⟨rfl, rfl⟩ | ⟨-, h'⟩ := str_update hstr hs'
    · exact h rfl
    · obtain rfl := Option.some.inj (hs.symm.trans h')
      exact .keep rfl le_rfl le_rfl
  have hsame (hstr : w'.str = w.str) : DebitStep x s s' o := by
    obtain rfl := Option.some.inj (hs.symm.trans (hstr ▸ hs'))
    exact .keep rfl le_rfl le_rfl
  by_cases ho : o.tag ∈ sendWindowSteps
  case neg =>
    have h := (still_of_exec hb).send ho x
    simp only [hs, hs', Option.map_some, Option.some.injEq, Stream.sendView, Prod.mk.injEq] at h
    exact .keep h.2.1 h.2.2.1.ge h.2.2.2.1.le
  simp only [sendWindowSteps] at ho
  cases o <;> simp only [Op.tag, List.mem_cons, List.not_mem_nil, reduceCtorEq, or_self] at ho
  case admitClient y prio =>
    simp only [Op.exec, Op.underTable, World.admitClient] at hb
    split_ifs at hb
    · cases List.mem_singleton.1 hb
      exact hset rfl fun _ => .renew (by simp) rfl
    · cases List.mem_singleton.1 hb
      exact hset rfl fun _ => .renew (by simp) rfl
    · cases hb
  case reservePush limit =>
    simp only [Op.exec, Op.underTable, World.reservePush] at hb
    split_ifs at hb
    · cases List.mem_singleton.1 hb
      exact hsame rfl
    · cases List.mem_singleton.1 hb
      exact hset rfl fun _ => .renew (by simp) rfl
    · cases hb
  case refundStream y n =>
    cases List.mem_singleton.1 hb
    rw [World.refundStream, World.upd_eq] at hs'
    by_cases hy : y = x
    · subst hy
      simp only [hs, Option.map_some, Function.update_self, Option.some.injEq] at hs'
      subst hs'
      exact .keep rfl le_rfl (by dsimp only; omega)
    · simp only [Function.update_of_ne (Ne.symm hy)] at hs'
      cases hs.symm.trans hs'
      exact .keep rfl le_rfl le_rfl
  case adjustWindow y delta =>
    simp only [Op.exec, World.adjustWindow, List.mem_singleton] at hb
    split at hb
    · cases hb
      exact hsame rfl
    · rename_i t ht
      split at hb <;> cases hb <;> refine hset rfl fun hy => ?_ <;> subst hy <;>
        cases hs.symm.trans ht
      · exact .keep rfl le_rfl le_rfl
      · exact .adjust rfl rfl rfl
  case growStream y n =>
    simp only [Op.exec, World.growStream, List.mem_singleton] at hb
    split at hb
    · cases hb
      exact hsame rfl
    · rename_i t ht
      split at hb <;> cases hb
      · exact hsame rfl
      · refine hset rfl fun hy => ?_
        subst hy
        cases hs.symm.trans ht
        exact .keep rfl (by dsimp only; omega) le_rfl
  case takeSendCredits y want =>
    simp only [Op.exec, World.takeSendCredits, List.mem_singleton] at hb
    split at hb
    · cases hb
      exact hsame rfl
    · rename_i t ht
      split at hb <;> cases hb
      · exact hsame rfl
      · refine hset rfl fun hy => ?_
        subst hy
        cases hs.symm.trans ht
        exact .take rfl rfl (by dsimp only; omega)

end SendCredit

open SendCredit

/-- Runs in which no stream is admitted under an identifier that has been used. -/
def onceAdmitted : Test Op World Call where
  callOk w q := q.available w
  opOk _ w _ o := match o with
    | .admitClient x _ => w.idle x
    | _ => true

theorem fresh_onceAdmitted (env : Env) : Fresh env onceAdmitted.guard where
  call _ _ h := h
  admission := .inr fun _ _ _ _ h => h

end PoseidonServer.Conn
