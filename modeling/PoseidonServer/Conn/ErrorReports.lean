import PoseidonServer.Conn.Locks
import PoseidonServer.Conn.Quiet

/-! How the reader loop reports the error it stops on: the GOAWAY it writes before it closes the
transport. -/

namespace PoseidonServer.Conn

open Concurrent

/-- The code that an error is reported with while the open field block is `pending`: an error on
any frame but the block's own CONTINUATION is PROTOCOL_ERROR. -/
def reportedCode (f : Inbound) (pending : Nat) (e : GoErr) : Option ErrCode :=
  if pending ≠ 0 && !transportErr e && (f.type != .continuation || f.streamID != pending) then
    some .protocolError
  else e.code

/-- Runs in which no GOAWAY has been asked for when the reader asks for its own. -/
def reportsFirst : Test Op World Call where
  callOk w q := q.available w
  opOk i w _ o := match o with
    | .requestGoAway => w.reader = some i → w.closed = false → w.goAwayRequested = false
    | _ => true

def Outbound.goAwayCode : Outbound → Option ErrCode
  | .goAway _ code => some code
  | _ => none

def World.goAwayCodes (w : World) : List ErrCode := w.wire.filterMap Outbound.goAwayCode

def Reported (code : ErrCode) (w : World) : Prop :=
  w.closed = false → w.down = false → code ∈ w.goAwayCodes

structure Onward (w w' : World) : Prop where
  closed : w.closed = true → w'.closed = true
  down : w.down = true → w'.down = true
  codes : w.goAwayCodes ⊆ w'.goAwayCodes
  established : w.established = true → w'.established = true

variable {env : Env} {code : ErrCode} {i j : Nat} {w w' : World}

theorem Onward.refl (w : World) : Onward w w := ⟨id, id, List.Subset.refl _, id⟩

theorem Onward.trans {w₁ w₂ w₃ : World} (h₁ : Onward w₁ w₂) (h₂ : Onward w₂ w₃) : Onward w₁ w₃ :=
  ⟨h₂.closed ∘ h₁.closed, h₂.down ∘ h₁.down, List.Subset.trans h₁.codes h₂.codes,
    h₂.established ∘ h₁.established⟩

theorem onward_of_exec {o : Op β} {b : β} (hb : (b, w') ∈ o.exec env i w) : Onward w w' where
  closed h := by
    by_cases ho : o.kind = .close
    · cases o <;> simp only [Op.kind, reduceCtorEq] at ho
      case advance delta => exact absurd ho (delta.kind_ne (by simp))
      case write f => exact absurd ho (f.kind_ne (by simp))
      case close =>
        simp only [Op.exec, h, if_true] at hb
        cases List.mem_singleton.1 hb
        exact h
    · rw [(frame_of_exec hb).closed ho, h]
  down := down_of_exec hb
  codes := by
    obtain hw | ⟨f, -, hw⟩ := wire_exec hb <;> simp [World.goAwayCodes, hw]
  established h := by
    by_cases ho : o.tag = .establish
    · cases o <;> simp only [Op.tag, reduceCtorEq] at ho
      cases List.mem_singleton.1 hb
      rfl
    · rw [(still_of_exec hb).established ho, h]

theorem Reported.onward (h : Reported code w) (hw : Onward w w') : Reported code w' := by
  intro hc hd
  have hc : w.closed = false := Bool.eq_false_iff.2 fun h => by simp [hw.closed h] at hc
  have hd : w.down = false := Bool.eq_false_iff.2 fun h => by simp [hw.down h] at hd
  exact hw.codes (h hc hd)

@[simp] def Op.announces (code : ErrCode) : Op β → Prop
  | .requestGoAway | .lockW | .isClosed | .lastPeerID | .clampGoAwayID _ | .unlockW => True
  | .write f => f.goAwayCode = some code
  | _ => False

theorem Op.tag_of_announces {o : Op β} {code : ErrCode} (ho : o.announces code) :
    o.tag ∈ goAwaySteps := by
  unfold Op.announces at ho
  split at ho
  case h_7 f =>
    cases f <;> simp only [Outbound.goAwayCode, reduceCtorEq] at ho
    simp [goAwaySteps, writeSteps]
  case h_8 => cases ho
  all_goals simp [goAwaySteps, writeSteps]

section SendGoAway

variable {G : Guard Op World Call} {γ : Type} [AddCommMonoid γ] {S : Spec (machine env) G γ}
  {P : World → Prop} {g : γ}

theorem sendGoAway_reports (hP : ∀ {w w'}, S.rely i w w' → P w → P w')
    (honward : ∀ {w w'}, S.rely i w w' → Onward w w')
    (hops : ∀ {β} {o : Op β}, o.announces code → S.Under i P o)
    (hfirst : ∀ {w}, P w → G.opOk i w .requestGoAway → w.closed = false →
      w.goAwayRequested = false) (h : P w) :
    S.Safe i (sendGoAway code) g (fun _ g' w => g' = g ∧ P w ∧ Reported code w) w := by
  simp only [sendGoAway, writeGoAway, Prog.bind_eq, Prog.lift_bind, Prog.pure_eq, Prog.op_bind]
  have hdone {w} (h : P w) (hr : Reported code w) : S.Safe i (.op .unlockW .ret) g
      (fun _ g' w => g' = g ∧ P w ∧ Reported code w) w := by
    refine (hops (o := .unlockW) trivial).safe_op hP h fun w₁ u w₂ hw _ _ hb h₂ w₃ hw₃ => ?_
    change (u, w₂) ∈ Op.exec env i w₁ .unlockW at hb
    have hw₂ := ((honward hw).trans (onward_of_exec hb)).trans (honward hw₃)
    exact ⟨rfl, hP hw₃ h₂, hr.onward hw₂⟩
  refine (hops (o := .requestGoAway) trivial).safe_op hP h fun w₁ b w₂ _ h₁ hok hb h₂ => ?_
  change (b, w₂) ∈ Op.exec env i w₁ .requestGoAway at hb
  cases List.mem_singleton.1 hb
  cases hreq : w₁.goAwayRequested with
  | true =>
    simp only [Bool.not_true, Bool.false_eq_true, if_false]
    refine fun w' hw' => ⟨rfl, hP hw' h₂, Reported.onward (fun hc => ?_) (honward hw')⟩
    rw [hfirst h₁ hok hc] at hreq
    cases hreq
  | false =>
    simp only [Bool.not_false, if_true]
    refine (hops (o := .lockW) trivial).safe_op hP h₂ fun _ _ w₃ _ _ _ _ h₃ =>
      (hops (o := .isClosed) trivial).safe_op hP h₃ fun w₄ closed w₅ _ _ _ hb h₅ => ?_
    change (closed, w₅) ∈ Op.exec env i w₄ .isClosed at hb
    cases List.mem_singleton.1 hb
    split
    · rename_i hclosed
      exact hdone h₅ fun hc => absurd hclosed (by simp [hc])
    · refine (hops (o := .lastPeerID) trivial).safe_op hP h₅ fun _ last w₆ _ _ _ _ h₆ =>
        (hops (o := .clampGoAwayID last) trivial).safe_op hP h₆ fun _ last w₇ _ _ _ _ h₇ =>
          (hops (o := .write (.goAway last code)) rfl).safe_op hP h₇ fun w₈ ok w₉ _ _ _ hb h₉ => hdone h₉ fun _ hd => ?_
      change (ok, w₉) ∈ Op.exec env i w₈ (.write (.goAway last code)) at hb
      obtain ⟨-, hdown, rfl⟩ | ⟨-, -, hwire⟩ := write_exec hb
      · simp [hdown] at hd
      · simp [World.goAwayCodes, hwire, Outbound.goAwayCode]

end SendGoAway

namespace ErrorReports

def spec (env : Env) (code : ErrCode) : Spec (machine env) (owned reportsFirst.guard) PUnit where
  inv _ _ := True
  rely i w w' := Onward w w' ∧ (w.reader = some i → w'.reader = some i)
  rely_refl _ w := ⟨.refl w, id⟩
  rely_trans h₁ h₂ := ⟨h₁.1.trans h₂.1, h₂.2 ∘ h₁.2⟩
  pre _ w _ o := o.tag = .closeTransport → Reported code w

theorem rely_other {o : Op β} {b : β} (hj : j ≠ i) (hok : (owned reportsFirst.guard).opOk i w o)
    (hb : (b, w') ∈ o.exec env i w) : (spec env code).rely j w w' := by
  obtain ⟨-, held, hof, hallows⟩ := hok
  exact ⟨onward_of_exec hb, Held.reader_other hj hof hallows hb⟩

def turningSteps : List Tag := [.readFrame, .frameDone, .stopReader, .closeTransport]

theorem harmless {o : Op β} (ho : o.tag ∉ turningSteps) : (spec env code).Harmless o := by
  intro i w _ _ _
  refine ⟨fun ht => ?_, fun b w' hb => ⟨trivial, fun j => ?_⟩⟩
  · rw [ht] at ho
    exact absurd ho (by decide)
  · have hk : o.tag.kind ≠ .reader := by
      rw [Ne, Tag.kind_reader]
      generalize o.tag = t at ho
      simp_all [turningSteps]
    have ht := (frame_of_tag hb).turn hk
    simp only [World.turnView, Prod.mk.injEq] at ht
    refine ⟨onward_of_exec hb, fun h => ?_⟩
    rw [ht.1, h]

theorem announces_tag {o : Op β} (ho : o.announces code) : o.tag ∉ turningSteps := by
  have hsteps : ∀ t ∈ goAwaySteps, t ∉ turningSteps := by decide
  exact hsteps _ (Op.tag_of_announces ho)

theorem sendGoAway_safe (h : w.reader = some i) :
    (spec env code).Safe i (sendGoAway code) 0 (fun _ _ w => Reported code w) w := by
  have hreader {w w'} (hw : (spec env code).rely i w w') (h : w.reader = some i) :
      w'.reader = some i := hw.2 h
  refine Spec.Safe.mono (sendGoAway_reports hreader ?_ ?_ ?_ h) ?_
  · exact fun hw => hw.1
  · exact fun ho => (harmless (announces_tag ho)).under hreader
  · exact fun h hok => of_decide_eq_true hok.1 h
  · exact fun _ _ _ h => h.2.2

theorem last_safe {o : Op β} (ho : o.tag ≠ .closeTransport) :
    (spec env code).Safe i (.lift o) 0 (fun _ _ _ => True) w := by
  intro w₁ _ _ hok
  refine ⟨fun h => absurd h ho, fun b w₂ hb => ⟨0, fun _ _ => trivial, ?_, fun _ _ => trivial⟩⟩
  exact fun j hj => rely_other hj hok hb

theorem teardown_safe (h : w.reader = some i) :
    (spec env code).Safe i (teardown (some code)) 0 (fun _ _ _ => True) w := by
  refine Spec.Safe.bind (Spec.Safe.bind ((sendGoAway_safe h).mono ?_))
  intro _ _ w h w₁ hw _ hok
  refine ⟨fun _ => h.onward hw.1, fun b w₂ hb => ⟨0, fun _ _ => trivial, ?_, ?_⟩⟩
  · exact fun j hj => rely_other hj hok hb
  refine fun w₃ _ => Spec.Safe.bind (shutdownStreams_uses.safe harmless (by decide) ?_)
  exact fun _ _ _ => last_safe (by decide)

theorem readerError_safe {f : Inbound} {pending : Nat} {e : GoErr}
    (hcode : reportedCode f pending e = some code) (h : w.reader = some i) :
    (spec env code).Safe i (readerError f pending e) 0 (fun _ _ _ => True) w := by
  simp only [readerError, Prog.bind_eq, Prog.lift_bind]
  unfold reportedCode at hcode
  split
  · rw [if_pos ‹_›] at hcode
    cases hcode
    exact teardown_safe h
  · rw [if_neg ‹_›] at hcode
    rw [hcode]
    split
    · refine (harmless (by simp +decide)).safe_op fun _ idle w₂ _ _ _ _ hw => ?_
      split
      · exact teardown_safe (hw.2 h)
      split
      · refine Spec.Safe.bind ((writeRSTStreamID_uses _ _).safe harmless (by decide) ?_)
        exact fun _ _ _ => last_safe (by decide)
      · exact teardown_safe (hw.2 h)
    · exact teardown_safe h

end ErrorReports

theorem reader_of_teardown {h : Held} {code : Option ErrCode} {Q : Unit → Held → Prop}
    (hf : discipline.Follows h (teardown code) Q) : h.reader := by
  cases code with
  | none => exact hf.1
  | some code => exact ((hf.2 false).2 ()).1

theorem reader_of_readerError {h : Held} {f : Inbound} {pending : Nat} {e : GoErr}
    {Q : Unit → Held → Prop} (hf : discipline.Follows h (readerError f pending e) Q) :
    h.reader := by
  simp only [readerError, Prog.bind_eq, Prog.lift_bind] at hf
  split at hf
  · exact reader_of_teardown hf
  split at hf
  · exact reader_of_teardown (hf.2 true)
  · exact reader_of_teardown hf

/-- A connection error, or a codec error that has a code, that the reader loop meets while the
connection is not closed and writes succeed: by the time it closes the transport a GOAWAY with
that code is out, unless a GOAWAY had been asked for before. -/
theorem connection_errors_are_reported {env : Env} {c c₁ c₂ : Config Op World} {i pick : Nat}
    {f : Inbound} {pending : Nat} {e : GoErr} {code : ErrCode}
    (hc : Reach env reportsFirst.guard c) (hi : c.threads[i]? = some (readerError f pending e))
    (hcode : reportedCode f pending e = some code)
    (hrun : Running env reportsFirst.guard c c₁)
    (hclosed : c₁.shared.closed = false) (hup : c₁.shared.down = false)
    (hnext : c₁.next (machine env) (Call.body env) (.step i pick) = some c₂)
    (hdown : c₂.shared.down = true) : code ∈ c₁.shared.goAwayCodes := by
  have hcall (w : World) (q : Call) (h : reportsFirst.guard.callOk w q) : q.available w := h
  obtain ⟨held, hof, hfollows⟩ := Discipline.follows_of_reachable (realizes env reportsFirst.guard)
    (fun q w hq => Call.body_keeps env (hcall w q hq)) hc hi
  have hreader := hof.1 (reader_of_readerError hfollows)
  have hsafe : (ErrorReports.spec env code).Safe i _ 0 _ c.shared :=
    ErrorReports.readerError_safe hcode hreader
  obtain ⟨p, _, hp, hp'⟩ := hsafe.runs (fun _ _ => trivial) (fun hj hok hb =>
      ErrorReports.rely_other hj.symm hok hb)
    (runs_owned hcall hc hrun) hi
  simp only [Config.next, hp] at hnext
  cases p with
  | ret a => cases hnext
  | op o k =>
    dsimp only at hnext
    split at hnext
    · rename_i b w hb
      cases hnext
      have ho : o.tag = .closeTransport := by
        by_contra ho
        have := (frame_of_tag (List.mem_of_getElem? hb)).down (by rwa [Ne, Tag.kind_down])
        rw [this, hup] at hdown
        cases hdown
      have hok : (owned reportsFirst.guard).opOk i c₁.shared o := by
        cases o <;> simp only [Op.tag, reduceCtorEq] at ho
        exact ⟨rfl, {}, (realizes env reportsFirst.guard).start i _, trivial⟩
      exact (hp' _ ((ErrorReports.spec env code).rely_refl i _) ⟨0, trivial⟩ hok).1 ho hclosed hup
    · cases hnext
  | fork | iter =>
    cases hnext
    simp [hup] at hdown

def pushPromiseRead : List (Event Call) :=
  Config.inTurn 0 (handshake ++ [(.frame (.pushPromise 1), 3)])

theorem connection_errors_are_reported_pushPromise : ∃ c c₁ c₂,
    Reach getRequests reportsFirst.guard c ∧ Running getRequests reportsFirst.guard c c₁ ∧
    c₁.shared.closed = false ∧ c₁.shared.down = false ∧
    c₁.next (machine getRequests) (Call.body getRequests) (.step 2 0) = some c₂ ∧
    c₂.shared.down = true ∧ .protocolError ∈ c₁.shared.goAwayCodes := by
  obtain ⟨c, c₁, c₂, hc, hi, hrun, hnext, h⟩ := exists_runs_of_test getRequests reportsFirst
    reportsFirst pushPromiseRead (List.replicate 8 (.step 2 0)) (i := 2)
    (p := readerError (.pushPromise 1) 0
      (.connError .protocolError "server received PUSH_PROMISE"))
    (P := fun _ c₁ c₂ => c₁.shared.closed = false ∧ c₁.shared.down = false ∧ c₂.shared.down = true)
    rfl (by decide +kernel)
  simp only [decide_eq_true_eq] at h
  obtain ⟨hclosed, hup, hdown⟩ := h
  exact ⟨c, c₁, c₂, hc, hrun, hclosed, hup, hnext, hdown,
    connection_errors_are_reported hc hi rfl hrun hclosed hup hnext hdown⟩

/-- The reader loop closes the transport over an error whose code no GOAWAY has carried, although
the connection was not closed and writes succeeded. -/
def Unreported (env : Env) (f : Inbound) (pending : Nat) (e : GoErr) : Prop :=
  ∃ c c₁ c₂ i code, Reach env anyCall c ∧ c.threads[i]? = some (readerError f pending e) ∧
    e.code = some code ∧ Running env anyCall c c₁ ∧
    c₁.shared.closed = false ∧ c₁.shared.down = false ∧
    c₁.next (machine env) (Call.body env) (.step i 0) = some c₂ ∧ c₂.shared.down = true ∧
    code ∉ c₁.shared.goAwayCodes

theorem unreported_of_run {env : Env} (es : List (Event Call)) (n i : Nat) {f : Inbound}
    {pending : Nat} {e : GoErr} {code : ErrCode} (hcode : e.code = some code)
    (hp : ((anyRun.run (machine env) (Call.body env) ⟨World.init env, []⟩ es).bind fun c =>
      c.threads[i]?) = some (readerError f pending e))
    (h : (anyRun.run (machine env) (Call.body env) ⟨World.init env, []⟩ es).any (fun c =>
      (anyRun.run (machine env) (Call.body env) c (List.replicate n (.step i 0))).any fun c₁ =>
        (c₁.next (machine env) (Call.body env) (.step i 0)).any fun c₂ => c₁.shared.closed = false ∧
          c₁.shared.down = false ∧ c₂.shared.down = true ∧ code ∉ c₁.shared.goAwayCodes) = true) :
    Unreported env f pending e := by
  obtain ⟨c, c₁, c₂, hc, hi, hrun, hnext, h⟩ := exists_runs_of_test env anyRun _ es _ hp h
  simp only [decide_eq_true_eq] at h
  obtain ⟨hclosed, hup, hdown, hsilent⟩ := h
  refine ⟨c, c₁, c₂, i, code, ?_, hi, hcode, ?_, hclosed, hup, hnext, hdown, hsilent⟩
  · exact hc.mono (fun _ _ h => h) fun _ _ _ _ _ => trivial
  · exact hrun.mono (fun _ _ h => h) fun _ _ _ _ _ => trivial

/-- After a graceful GOAWAY no error is reported; and a frame of a wrong size inside an open field
block is reported as PROTOCOL_ERROR. -/
theorem connection_errors_go_unreported :
    Unreported getRequests (.pushPromise 1) 0
      (.connError .protocolError "server received PUSH_PROMISE") ∧
    Unreported getRequests (.rejected .ping 0 .pingWrongLength) 1 (.codec .pingWrongLength) := by
  constructor
  · exact unreported_of_run (Config.inTurn 0 (handshake ++ [(.goAwayGraceful, 6),
      (.frame (.pushPromise 1), 3)])) 2 3 rfl rfl (by decide +kernel)
  · exact unreported_of_run (Config.inTurn 0 (handshake ++
      [(.frame (.headers 1 false false [1] none), 11),
        (.frame (.rejected .ping 0 .pingWrongLength), 3)])) 7 3 rfl rfl (by decide +kernel)

end PoseidonServer.Conn
