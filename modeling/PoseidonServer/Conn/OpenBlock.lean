import PoseidonServer.Conn.Calls
import PoseidonServer.Conn.ErrorReports
import PoseidonServer.Conn.HpackSync

/-! While a field block is open the next frame is a CONTINUATION of it, or it ends the
connection. -/

namespace PoseidonServer.Conn

open Concurrent

/-- A frame that must not come while the field block of stream `x` is open. A frame that could not
be read at all is none. -/
def Inbound.intrudes (x : Nat) : Inbound → Bool
  | .rejected _ _ .transport => false
  | f => f.type != .continuation || f.streamID != x

def intruded (frames : List Inbound) : Bool :=
  openStream frames.dropLast != 0 && frames.getLast?.any (Inbound.intrudes (openStream frames.dropLast))

def Inbound.unguarded : Inbound → Bool
  | .settings .. | .unknown .. | .rejected .. => true
  | _ => false

/-- Runs in which no such frame comes inside a field block during the handshake, and in which no
GOAWAY has been asked for when the reader asks for one over a frame inside a field block. -/
def exclusive : Test Op World Call where
  callOk w q := q.available w
  opOk i w _ o := match o with
    | .readFrame f => w.established = false → w.handler.pendingStreamID ≠ 0 → f.unguarded = true →
        f.intrudes w.handler.pendingStreamID = false
    | .requestGoAway => w.reader = some i → intruded w.inbound = true → w.closed = false →
        w.goAwayRequested = false
    | _ => true

namespace OpenBlock

def endSteps : List Tag :=
  [.isEstablished, .loadHandler, .cancelConn, .closeTransport, .stopReader] ++ shutdownSteps

abbrev guard (env : Env) : Guard Op World Call :=
  (HpackSync.spec env (owned exclusive.guard)).guard

def spec (env : Env) : Spec (machine env) (guard env) PUnit where
  inv w _ := w.reader = none → intruded w.inbound = true → w.readerDone = true ∧ w.down = true
  rely i w w' := Onward w w' ∧ (w'.reader = some i ↔ w.reader = some i) ∧
    (w.reader = some i → w'.inbound = w.inbound ∧ w'.handler = w.handler)
  rely_refl _ w := ⟨.refl w, Iff.rfl, fun _ => ⟨rfl, rfl⟩⟩
  rely_trans h₁ h₂ := by
    refine ⟨h₁.1.trans h₂.1, h₂.2.1.trans h₁.2.1, fun h => ?_⟩
    obtain ⟨hin₁, hh₁⟩ := h₁.2.2 h
    obtain ⟨hin₂, hh₂⟩ := h₂.2.2 (h₁.2.1.2 h)
    exact ⟨hin₂.trans hin₁, hh₂.trans hh₁⟩
  pre i w _ o := w.reader = some i → intruded w.inbound = true →
    (o.tag ∈ endSteps ∨ o.announces .protocolError) ∧
      (o.tag = .closeTransport → Reported .protocolError w)
  fin i w := w.reader = some i → intruded w.inbound = false
  fin_rely := fun h hf hr => by
    have hr := h.2.1.1 hr
    rw [(h.2.2 hr).1]
    exact hf hr

variable {env : Env} {i j : Nat} {w w' : World}

theorem pre_of_fin (h : (spec env).fin i w) (o : Op β) : (spec env).pre i w o := by
  intro hr hin
  rw [h hr] at hin
  cases hin

theorem rely_of_view {o : Op β} {b : β} (ho : o.kind ∉ [.reader, .handler])
    (hb : (b, w') ∈ o.exec env i w) (j : Nat) : (spec env).rely j w w' := by
  have hv := (frame_of_exec hb).reader ho
  simp only [World.readerView, Prod.mk.injEq] at hv
  refine ⟨onward_of_exec hb, by rw [hv.1], fun _ => ⟨hv.2.2.2.2, hv.2.2.1⟩⟩

theorem rely_of_reader {o : Op β} {b : β} (hr : w.reader = some i)
    (hr' : w'.reader = none ∨ w'.reader = some i) (hb : (b, w') ∈ o.exec env i w) (hj : j ≠ i) :
    (spec env).rely j w w' := by
  have hne : w.reader ≠ some j := by simpa [hr] using hj.symm
  have hne' : w'.reader ≠ some j := by
    obtain h | h := hr' <;> simp [h, hj.symm]
  exact ⟨onward_of_exec hb, iff_of_false hne' hne, fun h => absurd h hne⟩

theorem held_reader {o : Op β} (hok : (guard env).opOk i w o) (hk : o.kind ∈ [.reader, .handler])
    (ho : o.tag ≠ .readFrame) : w.reader = some i := by
  obtain ⟨⟨-, held, hof, hallows⟩, -⟩ := hok
  exact hof.1 (Held.reader_of_allows hk ho hallows)

theorem inv_of_view {o : Op β} {b : β} {r : PUnit} (ho : o.kind ≠ .reader) (h : (spec env).inv w r)
    (hb : (b, w') ∈ o.exec env i w) : (spec env).inv w' r := by
  have hv := (frame_of_exec hb).turn ho
  simp only [World.turnView, Prod.mk.injEq] at hv
  intro hr hin
  rw [hv.1] at hr
  rw [hv.2.2] at hin
  obtain ⟨hdone, hdown⟩ := h hr hin
  exact ⟨hv.2.1.trans hdone, down_of_exec hb hdown⟩

theorem frameDone_view {o : Op β} {b : β} (ho : o.tag ∈ [.frameDone, .stopReader])
    (hb : (b, w') ∈ o.exec env i w) : w'.reader = none ∧ w'.inbound = w.inbound ∧
      w'.down = w.down ∧ (o.tag = .stopReader → w'.readerDone = true) := by
  cases o <;> simp only [Op.tag, List.mem_cons, List.not_mem_nil, or_false, reduceCtorEq] at ho
  case frameDone | stopReader =>
    cases List.mem_singleton.1 hb
    simp

theorem mild {o : Op β} (ho : o.tag ≠ .readFrame) : (spec env).Mild o := by
  intro i w r h hf hok
  refine ⟨pre_of_fin hf o, fun b w' hb => ?_⟩
  change (b, w') ∈ o.exec env i w at hb
  by_cases hk : o.kind = .reader
  · have ht : o.tag ∈ [.frameDone, .stopReader] := by
      rw [← o.kind_tag, Tag.kind_reader] at hk
      generalize o.tag = t at ho hk
      simp_all
    have hr : w.reader = some i := held_reader hok (List.mem_pair.2 (.inl hk)) ho
    obtain ⟨hr', hin, -⟩ := frameDone_view ht hb
    refine ⟨fun _ hintruded => ?_, fun j hj => rely_of_reader hr (.inl hr') hb hj, fun h => ?_⟩
    · rw [hin, hf hr] at hintruded
      cases hintruded
    · rw [hr'] at h
      cases h
  · have hv := (frame_of_exec hb).turn hk
    simp only [World.turnView, Prod.mk.injEq] at hv
    refine ⟨inv_of_view hk h hb, fun j hj => ?_, fun h => ?_⟩
    · by_cases hk' : o.kind = .handler
      · have hr : w.reader = some i := held_reader hok (List.mem_pair.2 (.inr hk')) ho
        exact rely_of_reader hr (.inr (hv.1.trans hr)) hb hj
      · exact rely_of_view (fun h => (List.mem_pair.1 h).elim hk hk') hb j
    · rw [hv.2.2]
      exact hf (hv.1 ▸ h)

theorem methods : Methods env (spec env) :=
  .of_mild [.readFrame] (fun ho => mild (avoids_one ho (by decide))) (by decide)

structure Ends (i x : Nat) (R : World → Prop) (w : World) : Prop where
  reader : w.reader = some i
  intruded : intruded w.inbound = true
  pending : w.handler.pendingStreamID = x
  more : R w

section Ending

variable {x : Nat} {R : World → Prop} (hR : ∀ {w w'}, Onward w w' → R w → R w')

include hR

theorem Ends.rely (hw : (spec env).rely i w w') (h : Ends i x R w) : Ends i x R w' := by
  obtain ⟨honward, hreader, hsame⟩ := hw
  obtain ⟨hin, hh⟩ := hsame h.reader
  exact ⟨hreader.2 h.reader, hin ▸ h.intruded, hh ▸ h.pending, hR honward h.more⟩

theorem under {o : Op β} (ho : o.tag ∈ endSteps ∨ o.announces .protocolError)
    (hk : o.kind ∉ [.reader, .handler]) (hc : o.tag ≠ .closeTransport) :
    (spec env).Under i (Ends i x R) o := by
  intro w r h hends _
  refine ⟨fun _ _ => ⟨ho, fun h => absurd h hc⟩, fun b w' hb => ?_⟩
  have hrely := rely_of_view hk hb
  have hread : o.kind ≠ .reader := fun h => hk (h ▸ List.mem_cons_self)
  exact ⟨inv_of_view hread h hb, fun j _ => hrely j, hends.rely hR (hrely i)⟩

theorem shutdown_ends (h : Ends i x R w) :
    (spec env).Safe i shutdownStreams 0 (fun _ g w => g = 0 ∧ Ends i x R w) w := by
  have hsteps : ∀ t ∈ shutdownSteps, t ∈ endSteps ∧ t.kind ∉ [.reader, .handler] ∧
      t ≠ .closeTransport ∧ t ≠ .readFrame := by decide
  refine Spec.safe_of_under (fun hw h => h.rely hR hw) ?_ h
  refine Prog.All.mono (fun o ho => ?_) shutdownStreams_uses
  obtain ⟨hend, hk, hclose, hread⟩ := hsteps _ ho
  exact ⟨under hR (.inl hend) (o.kind_tag ▸ hk) hclose, mild hread⟩

theorem lookOp {o : Op β} {k : β → M α} {Q : α → PUnit → World → Prop}
    (ho : o.tag ∈ [.isEstablished, .loadHandler, .cancelConn]) (h : Ends i x R w)
    (hk : ∀ b w₁ w₂, Ends i x R w₁ → (b, w₂) ∈ o.exec env i w₁ → Ends i x R w₂ →
      (spec env).Safe i (k b) 0 Q w₂) : (spec env).Safe i (.op o k) 0 Q w := by
  have hsteps : ∀ t ∈ [Tag.isEstablished, .loadHandler, .cancelConn], t ∈ endSteps ∧
      t.kind ∉ [.reader, .handler] ∧ t ≠ .closeTransport := by decide
  obtain ⟨hend, hkind, hclose⟩ := hsteps _ ho
  refine (under hR (.inl hend) (o.kind_tag ▸ hkind) hclose).safe_op (fun hw h => h.rely hR hw) h ?_
  exact fun w₁ b w₂ _ h₁ _ hb h₂ => hk b w₁ w₂ h₁ hb h₂

theorem loadHandlerOp {k : Handler → M α} {Q : α → PUnit → World → Prop} (h : Ends i x R w)
    (hk : ∀ hd w', hd.pendingStreamID = x → Ends i x R w' → (spec env).Safe i (k hd) 0 Q w') :
    (spec env).Safe i (.op .loadHandler k) 0 Q w := by
  refine lookOp hR (by decide) h fun hd w₁ w₂ h₁ hb h₂ => ?_
  cases List.mem_singleton.1 hb
  exact hk _ _ h₁.pending h₂

end Ending

variable {x : Nat}

theorem closeTransportOp {k : Unit → M α} {Q : α → PUnit → World → Prop}
    (h : Ends i x (Reported .protocolError) w)
    (hk : ∀ w', Ends i x (·.down = true) w' → (spec env).Safe i (k ()) 0 Q w') :
    (spec env).Safe i (.op .closeTransport k) 0 Q w := by
  have hR {w w'} (hw : Onward w w') (h : Reported .protocolError w) := h.onward hw
  intro w₁ hw _ _
  have h₁ := h.rely hR hw
  refine ⟨fun _ _ => ⟨.inl (by decide), fun _ => h₁.more⟩, fun b w₂ hb => ?_⟩
  change (b, w₂) ∈ Op.exec env i w₁ .closeTransport at hb
  have hrely := rely_of_view (by decide) hb
  refine ⟨0, fun r h => inv_of_view (by decide) h hb, fun j _ => hrely j, ?_⟩
  have h₂ := h₁.rely hR (hrely i)
  cases List.mem_singleton.1 hb
  exact hk _ ⟨h₂.reader, h₂.intruded, h₂.pending, rfl⟩

theorem stop_ends (h : Ends i x (·.down = true) w) :
    (spec env).Safe i (.lift .stopReader) 0 ((spec env).Done i) w := by
  intro w₁ hw _ _
  have h₁ := h.rely Onward.down hw
  refine ⟨fun _ _ => ⟨.inl (by decide), fun h => nomatch h⟩, fun b w₂ hb => ?_⟩
  change (b, w₂) ∈ Op.exec env i w₁ .stopReader at hb
  obtain ⟨hr, hin, hdown, hdone⟩ := frameDone_view (by decide) hb
  refine ⟨0, fun _ _ _ _ => ⟨hdone rfl, hdown.trans h₁.more⟩,
    fun j hj => rely_of_reader h₁.reader (.inl hr) hb hj, fun w₃ hw₃ => ⟨rfl, fun h => ?_⟩⟩
  rw [hw₃.2.1, hr] at h
  cases h

theorem announces_kind {o : Op β} {code : ErrCode} (ho : o.announces code) :
    o.kind ∉ [.reader, .handler] ∧ o.tag ≠ .closeTransport := by
  have hsteps : ∀ t ∈ goAwaySteps, t.kind ∉ [.reader, .handler] ∧ t ≠ .closeTransport := by decide
  exact o.kind_tag ▸ hsteps _ (Op.tag_of_announces ho)

theorem sendGoAway_ends (h : Ends i x (fun _ => True) w) :
    (spec env).Safe i (sendGoAway .protocolError) 0
      (fun _ g w => g = 0 ∧ Ends i x (Reported .protocolError) w) w := by
  have hrely {w w'} (hw : (spec env).rely i w w') (h : Ends i x (fun _ => True) w) :=
    h.rely (fun _ _ => trivial) hw
  refine Spec.Safe.mono (sendGoAway_reports hrely ?_ ?_ ?_ h) ?_
  · exact fun hw => hw.1
  · exact fun ho => under (fun _ _ => trivial) (.inr ho) (announces_kind ho).1 (announces_kind ho).2
  · exact fun h hok => of_decide_eq_true hok.1.1 h.reader h.intruded
  · rintro _ g w ⟨rfl, h, hreported⟩
    exact ⟨rfl, h.reader, h.intruded, h.pending, hreported⟩

theorem teardown_ends (h : Ends i x (fun _ => True) w) :
    (spec env).Safe i (teardown (some .protocolError)) 0 ((spec env).Done i) w := by
  refine Spec.Safe.bind (Spec.Safe.bind ((sendGoAway_ends h).mono ?_))
  rintro _ g w ⟨rfl, h⟩
  refine closeTransportOp h fun w h w' hw => ?_
  refine Spec.Safe.bind ((shutdown_ends Onward.down (h.rely Onward.down hw)).mono ?_)
  rintro _ g w ⟨rfl, h⟩
  exact stop_ends h

theorem handshakeError_ends (h : Ends i x (fun _ => True) w) (msg : String) :
    (spec env).Safe i (handshakeError (.connError .protocolError msg)) 0 ((spec env).Done i) w := by
  have hR {w w'} (hw : Onward w w') (h : Reported .protocolError w) := h.onward hw
  refine Spec.Safe.bind ((sendGoAway_ends h).mono ?_)
  rintro _ g w ⟨rfl, h⟩
  refine Spec.Safe.bind ((shutdown_ends hR h).mono ?_)
  rintro _ g w ⟨rfl, h⟩
  exact lookOp hR (by decide) h fun _ _ w _ _ h => closeTransportOp h fun w h => stop_ends h

variable {f : Inbound}

theorem intrudes_type (hf : f.intrudes x = true) :
    (f.type != .continuation || f.streamID != x) = true := by
  unfold Inbound.intrudes at hf
  split at hf
  · cases hf
  · exact hf

theorem readerError_ends {e : GoErr} (hx : x ≠ 0) (hf : f.intrudes x = true)
    (he : transportErr e = false) (h : Ends i x (fun _ => True) w) :
    (spec env).Safe i (readerError f x e) 0 ((spec env).Done i) w := by
  unfold readerError
  rw [if_pos (by simp [hx, he, intrudes_type hf])]
  exact teardown_ends h

def Rejects (f : Inbound) : Except GoErr Unit → Prop
  | .ok _ => undispatchedFrameType f.type = true ∧ f.unguarded = true
  | .error e => transportErr e = false ∧
      (f.unguarded = false → ∃ msg, e = .connError .protocolError msg)

theorem rejects_protocolError (msg : String) : Rejects f (protocolError msg) :=
  ⟨rfl, fun _ => ⟨msg, rfl⟩⟩

theorem guard_ends {k : M (Except GoErr Unit)} (hx : x ≠ 0) (h : Ends i x (fun _ => True) w) :
    (spec env).Safe i (guardHeaderBlock k) 0
      (fun r g w => g = 0 ∧ Ends i x (fun _ => True) w ∧ Rejects f r) w := by
  refine loadHandlerOp (R := fun _ => True) (fun _ _ => trivial) h fun hd w hpending h => ?_
  dsimp only [Prog.ret_bind]
  rw [hpending, if_pos hx]
  exact fun w' hw => ⟨rfl, h.rely (fun _ _ => trivial) hw, rejects_protocolError _⟩

theorem dispatch_ends (hx : x ≠ 0) (hf : f.intrudes x = true) (h : Ends i x (fun _ => True) w) :
    (spec env).Safe i (dispatch env f) 0
      (fun r g w => g = 0 ∧ Ends i x (fun _ => True) w ∧ Rejects f r) w := by
  have hret {r} (hr : Rejects f r) : (spec env).Safe i (.ret r) 0
      (fun r g w => g = 0 ∧ Ends i x (fun _ => True) w ∧ Rejects f r) w :=
    fun w' hw => ⟨rfl, h.rely (fun _ _ => trivial) hw, hr⟩
  cases f with
  | pushPromise => exact hret (rejects_protocolError _)
  | unknown => exact hret ⟨rfl, rfl⟩
  | rejected ty id err =>
    refine hret ⟨?_, by simp [Inbound.unguarded]⟩
    cases err <;> first | rfl | cases hf
  | continuation y endHeaders hb =>
    have hy : y ≠ x := by simpa [Inbound.intrudes, Inbound.type, Inbound.streamID] using hf
    refine loadHandlerOp (R := fun _ => True) (fun _ _ => trivial) h fun hd w hpending h => ?_
    dsimp only [Prog.ret_bind]
    rw [hpending, if_neg hx, if_pos hy]
    exact fun w' hw => ⟨rfl, h.rely (fun _ _ => trivial) hw, rejects_protocolError _⟩
  | _ => exact guard_ends hx h

theorem readerStep_ends (hx : x ≠ 0) (hf : f.intrudes x = true) (h : Ends i x (fun _ => True) w) :
    (spec env).Safe i (readerStep env f) 0 ((spec env).Done i) w := by
  refine Spec.Safe.bind ((dispatch_ends hx hf h).mono ?_)
  rintro r g w ⟨rfl, h, hr⟩
  refine loadHandlerOp (R := fun _ => True) (fun _ _ => trivial) h fun hd w hpending h => ?_
  cases r with
  | ok _ =>
    dsimp only [Prog.ret_bind]
    rw [hpending, if_pos (by simp [hx, hr.1])]
    exact readerError_ends hx hf rfl h
  | error e =>
    dsimp only [Prog.ret_bind]
    rw [hpending]
    exact readerError_ends hx hf hr.1 h

theorem handshakeStep_ends (hx : x ≠ 0) (hf : f.intrudes x = true) (hu : f.unguarded = false)
    (h : Ends i x (fun _ => True) w) :
    (spec env).Safe i (handshakeStep env f) 0 ((spec env).Done i) w := by
  have hdispatch : recorderDispatch env f = dispatch env f := by
    cases f <;> first | rfl | cases hu
  refine Spec.Safe.bind ?_
  rw [hdispatch]
  refine (dispatch_ends hx hf h).mono ?_
  rintro r g w ⟨rfl, h, hr⟩
  cases r with
  | ok _ => simp [Rejects, hu] at hr
  | error e =>
    obtain ⟨msg, rfl⟩ := hr.2 hu
    exact handshakeError_ends h msg

theorem Ends.weaken {R : World → Prop} (h : Ends i x R w) : Ends i x (fun _ => True) w :=
  ⟨h.reader, h.intruded, h.pending, trivial⟩

theorem intruded_append (frames : List Inbound) (f : Inbound) :
    intruded (frames ++ [f]) = (openStream frames != 0 && f.intrudes (openStream frames)) := by
  simp [intruded]

theorem serveFrame_proper (hf : f.WellFormed) : (spec env).Proper (serveFrame env f) := by
  intro i w hfin w₁ hw _ hok
  refine ⟨pre_of_fin ((spec env).fin_rely hw hfin) _, fun u w₂ hb => ?_⟩
  change (u, w₂) ∈ Op.exec env i w₁ (.readFrame f) at hb
  obtain ⟨hfree, hdone, hview⟩ := readFrame_exec hb
  simp only [World.readerView, Prod.mk.injEq] at hview
  obtain ⟨hreader, -, hhandler, -, hinbound⟩ := hview
  refine ⟨0, fun _ _ hnone => ?_, fun j hj => ?_, ?_⟩
  · simp [hreader] at hnone
  · refine ⟨onward_of_exec hb, iff_of_false ?_ ?_, fun h => ?_⟩
    · simpa [hreader] using hj.symm
    · simp [hfree]
    · simp [hfree] at h
  cases hin : intruded w₂.inbound with
  | false => exact methods.round hf i w₂ fun _ => hin
  | true =>
    obtain ⟨⟨hguard, -⟩, -, r, hsync⟩ := hok
    have hpending : w₁.handler.pendingStreamID = openStream w₁.inbound := (hsync hfree hdone).2.1
    obtain ⟨hx, hintrudes⟩ : openStream w₁.inbound ≠ 0 ∧
        f.intrudes (openStream w₁.inbound) = true := by
      simpa [hinbound, intruded_append] using hin
    have hguarded (hu : f.unguarded = true) : w₂.established = true := by
      refine (onward_of_exec hb).established (Bool.eq_false_imp_eq_true.1 fun he => ?_)
      have := of_decide_eq_true hguard he (by rwa [hpending]) hu
      rw [hpending, hintrudes] at this
      cases this
    have hends : Ends i (openStream w₁.inbound)
        (fun w => f.unguarded = true → w.established = true) w₂ :=
      ⟨hreader, hin, hhandler ▸ hpending, hguarded⟩
    refine lookOp (fun hw h hu => hw.established (h hu)) (by decide) hends
      fun established w₃ w₄ h₃ hb h₄ => ?_
    cases List.mem_singleton.1 hb
    dsimp only [Prog.ret_bind]
    split
    · exact readerStep_ends hx hintrudes h₄.weaken
    · refine handshakeStep_ends hx hintrudes (Bool.eq_false_iff.2 fun hu => ?_) h₄.weaken
      exact absurd (h₃.more hu) ‹_›

theorem verifies : (spec env).Verifies (Call.body env) :=
  methods.verifies (fun w _ h => wellFormed_of_available (w := w) h.1) fun _ => serveFrame_proper

theorem init_inv (env : Env) : (spec env).inv (World.init env) 0 := by
  intro _ h
  cases h

theorem sync_init (env : Env) (G : Guard Op World Call) :
    (HpackSync.spec env G).inv (World.init env) 0 := fun _ _ => ⟨rfl, rfl, rfl⟩

theorem reach {c : Config Op World} (hc : Reach env exclusive.guard c) : Reach env (guard env) c :=
  Spec.reachable_guard (sync_init env _) (fun _ => trivial) HpackSync.verifies
    (reach_owned (fun _ _ h => h) hc)

theorem step {c c' : Config Op World} {e : Event Call} (h : Step env exclusive.guard c e c') :
    Step env (guard env) c e c' :=
  Spec.taken_guard (sync_init env _) (fun _ => trivial) HpackSync.verifies
    (step_owned (fun _ _ h => h) h)

end OpenBlock

/-- No effect on settings, streams, windows or acknowledgements: at most the live streams are cut
off and a GOAWAY says PROTOCOL_ERROR. -/
structure Untouched (w w' : World) : Prop where
  settings : w'.peerSettings = w.peerSettings
  state : ∀ x, (w'.str x).map (·.st) = (w.str x).map (·.st)
  sendWindow : ∀ x, (w'.str x).map (·.sendWindow) = (w.str x).map (·.sendWindow)
  recvWindow : ∀ x, (w'.str x).map (·.recvWindow) = (w.str x).map (·.recvWindow)
  connSendWindow : w'.peerConnSendWindow = w.peerConnSendWindow
  connRecvWindow : w'.connRecvWindow = w.connRecvWindow
  admitted : w'.maxClient = w.maxClient ∧ w'.nextPush = w.nextPush
  live : w'.live = w.live ∨ w'.live = []
  wire : w'.wire = w.wire ∨ ∃ last, w'.wire = w.wire ++ [.goAway last .protocolError]

theorem Untouched.refl (w : World) : Untouched w w :=
  ⟨rfl, fun _ => rfl, fun _ => rfl, fun _ => rfl, rfl, rfl, ⟨rfl, rfl⟩, .inl rfl, .inl rfl⟩

namespace OpenBlock

variable {env : Env} {i : Nat} {w w' : World}

theorem table_of_exec {o : Op β} {b : β} (ho : o.kind ∉ [.register, .reserve, .release])
    (hb : (b, w') ∈ o.exec env i w) :
    (w'.maxClient = w.maxClient ∧ w'.nextPush = w.nextPush) ∧ (w'.live = w.live ∨ w'.live = []) := by
  by_cases hd : o.kind = .drain
  · cases o <;> simp only [Op.kind, reduceCtorEq] at hd
    case advance delta => exact absurd hd (delta.kind_ne (by simp))
    case write f => exact absurd hd (f.kind_ne (by simp))
    case drain =>
      simp only [Op.exec] at hb
      split at hb
      · obtain ⟨l, -, hl⟩ := List.mem_map.1 hb
        cases hl
        exact ⟨⟨rfl, rfl⟩, .inr rfl⟩
      · cases hb
  · have hk : o.kind ∉ [.register, .reserve, .release, .drain] := by
      generalize o.kind = k at ho hd
      simp_all
    have ht := (frame_of_exec hb).table hk
    simp only [World.tableView, Prod.mk.injEq] at ht
    exact ⟨⟨ht.2.1, ht.2.2.1⟩, .inl ht.1⟩

theorem wire_of_ends {o : Op β} {b : β} (ho : o.tag ∈ endSteps ∨ o.announces .protocolError)
    (hb : (b, w') ∈ o.exec env i w) :
    w'.wire = w.wire ∨ ∃ last, w'.wire = w.wire ++ [.goAway last .protocolError] := by
  have hsteps : ∀ t ∈ endSteps, t.kind ∉ [.write, .update] := by decide
  obtain hend | hannounce := ho
  · exact .inl ((frame_of_tag hb).wire (hsteps _ hend))
  · unfold Op.announces at hannounce
    split at hannounce
    case h_7 f =>
      cases f <;> simp only [Outbound.goAwayCode, reduceCtorEq, Option.some.injEq] at hannounce
      subst hannounce
      obtain ⟨-, -, rfl⟩ | ⟨-, -, hw⟩ := write_exec hb
      · exact .inl rfl
      · exact .inr ⟨_, hw⟩
    case h_8 => cases hannounce
    all_goals exact .inl ((frame_of_exec hb).wire (by simp))

theorem untouched {o : Op β} {b : β} (ho : o.tag ∈ endSteps ∨ o.announces .protocolError)
    (hb : (b, w') ∈ o.exec env i w) : Untouched w w' := by
  have hsteps : ∀ t ∈ endSteps ++ goAwaySteps,
      t.kind ∉ [.register, .reserve, .release] ∧ t.kind ≠ .settings ∧
        t.kind ∉ [.register, .reserve, .advance, .advanceRecv] ∧
        t.kind ∉ [.register, .reserve, .settings, .credit] ∧ t.kind ≠ .credit ∧
        t ∉ [.admitClient, .reservePush, .debitRecv, .creditRecv] ∧ t ≠ .debitConnRecv := by decide
  have ht : o.tag ∈ endSteps ++ goAwaySteps :=
    List.mem_append.2 (ho.imp_right Op.tag_of_announces)
  obtain ⟨htable, hsettings, hstate, hcredit, hconnCredit, hrecv, hconnRecv⟩ := hsteps _ ht
  have hf := frame_of_tag hb
  have hst := still_of_exec hb
  have hview := table_of_exec (o.kind_tag ▸ htable) hb
  have hsend := hf.connCredit hconnCredit
  simp only [World.creditView, Prod.mk.injEq] at hsend
  exact {
    settings := hf.settings hsettings
    state := hf.state hstate
    sendWindow := fun x => by
      have := congrArg (Option.map (·.1)) (hf.credit hcredit x)
      simpa [Stream.creditView, Function.comp_def] using this
    recvWindow := hst.window hrecv
    connSendWindow := hsend.1
    connRecvWindow := (hst.connRecv hconnRecv).1
    admitted := hview.1
    live := hview.2
    wire := wire_of_ends ho hb }

end OpenBlock

/-- A frame that comes while a field block is open, and is no CONTINUATION of it, stops the reader
and closes the transport; until then its callback changes nothing, and the only frame written over
it is a GOAWAY with PROTOCOL_ERROR, which is out before the transport is closed. -/
theorem open_block_is_exclusive (env : Env) :
    (∀ c, Reach env exclusive.guard c → c.shared.reader = none →
      intruded c.shared.inbound = true → c.shared.readerDone = true ∧ c.shared.down = true) ∧
    ∀ c i pick c', Step env exclusive.guard c (.step i pick) c' → c.shared.reader = some i →
      intruded c.shared.inbound = true → Untouched c.shared c'.shared ∧
        (c.shared.closed = false → c.shared.down = false → c'.shared.down = true →
          .protocolError ∈ c.shared.goAwayCodes) := by
  refine ⟨fun c hc hr hin => ?_, fun c i pick c' h hr hin => ?_⟩
  · obtain ⟨_, hinv⟩ := Spec.inv_of_reachable (OpenBlock.init_inv env) (fun _ h => by cases h)
      OpenBlock.verifies (OpenBlock.reach hc)
    exact hinv hr hin
  · have h' := Spec.taken_guard (OpenBlock.init_inv env) (fun _ h => by cases h)
      OpenBlock.verifies (OpenBlock.step h)
    obtain hsame | ⟨β, o, b, hok, hb⟩ := h'.step_exec
    · rw [hsame]
      exact ⟨.refl _, fun _ hup hdown => by simp [hup] at hdown⟩
    · obtain ⟨hends, hreported⟩ := hok.2.1 hr hin
      refine ⟨OpenBlock.untouched hends hb, fun hclosed hup hdown => hreported ?_ hclosed hup⟩
      by_contra ho
      have := (frame_of_tag hb).down (by rwa [Ne, Tag.kind_down])
      rw [this, hup] at hdown
      cases hdown

def pingInBlock (n : Nat) : List (Event Call) :=
  Config.inTurn 0 (handshake ++ [(.frame (.headers 1 false false [1] none), 11),
    (.frame (.ping false [1, 2, 3, 4, 5, 6, 7, 8]), n)])

theorem open_block_is_exclusive_ping :
    (∃ c, Reach getRequests exclusive.guard c ∧ intruded c.shared.inbound = true ∧
      c.shared.readerDone = true ∧ c.shared.down = true) ∧
    ∃ c c', Step getRequests exclusive.guard c (.step 3 0) c' ∧ c'.shared.down = true ∧
      Untouched c.shared c'.shared ∧ .protocolError ∈ c.shared.goAwayCodes := by
  obtain ⟨hstops, hsteps⟩ := open_block_is_exclusive getRequests
  constructor
  · obtain ⟨c, hc, h⟩ := exists_reach_of_test getRequests exclusive (pingInBlock 17)
      (p := fun c => c.shared.reader = none ∧ intruded c.shared.inbound = true) (by decide +kernel)
    simp only [decide_eq_true_eq] at h
    exact ⟨c, hc, h.2, hstops c hc h.1 h.2⟩
  · obtain ⟨c, c', hc, h⟩ := exists_step_of_test getRequests exclusive (pingInBlock 11)
      (e := .step 3 0) (p := fun c c' => c.shared.reader = some 3 ∧
        intruded c.shared.inbound = true ∧ c.shared.closed = false ∧ c.shared.down = false ∧
          c'.shared.down = true) (by decide +kernel)
    simp only [decide_eq_true_eq] at h
    obtain ⟨hr, hin, hclosed, hup, hdown⟩ := h
    obtain ⟨huntouched, hreported⟩ := hsteps c 3 0 c' hc hr hin
    exact ⟨c, c', hc, hdown, huntouched, hreported hclosed hup hdown⟩

/-- In the handshake SETTINGS inside a field block are applied and acknowledged, and the
connection goes on. -/
theorem settings_inside_open_block : ∃ c, Reach getRequests anyCall c ∧ c.shared.reader = none ∧
    intruded c.shared.inbound = true ∧ c.shared.readerDone = false ∧
    c.shared.initialWindow = 10 ∧ .settingsAck ∈ c.shared.wire := by
  obtain ⟨c, hc, h⟩ := exists_reach_of_run getRequests (Config.inTurn 0
      [(.frame (.headers 1 false false [1] none), 11),
        (.frame (.settings false [(.initialWindowSize, 10)]), 17)])
    (p := fun c => c.shared.reader = none ∧ intruded c.shared.inbound = true ∧
      c.shared.readerDone = false ∧ c.shared.initialWindow = 10 ∧ .settingsAck ∈ c.shared.wire)
    (by decide +kernel)
  simp only [decide_eq_true_eq] at h
  exact ⟨c, hc, h⟩

end PoseidonServer.Conn
