import PoseidonServer.Conn.Lifecycle.Callbacks

/-! The life of a stream over whole runs, and that nothing is written on a stream after its
RST_STREAM. -/

namespace PoseidonServer.Conn

open Concurrent

namespace Lifecycle

variable {strict : Bool} {env : Env} {G : Guard Op World Call} {i j : Nat} {w w' : World}
  {Q : α → PUnit → World → Prop}

theorem writeRSTStreamID_safe {x : Nat} (h : Reading strict i w) (hidle : w.idle x = false)
    (code : ErrCode) : (spec env G strict).Safe i (writeRSTStreamID x code) 0
      (Since strict i w fun _ _ => True) w := by
  simp only [writeRSTStreamID, Prog.bind_eq, Prog.lift_bind, Prog.pure_eq]
  refine safe_op trivial fun w₁ closed _ hw₁ _ _ hb _ _ => ?_
  cases List.mem_singleton.1 hb
  have hw₁ := hw₁.1
  have h₁ := h.base hw₁
  split
  · exact safe_ret hw₁ fun _ _ => trivial
  rename_i hopen
  refine safe_lookup (fun w₂ hw₂ _ hc _ => ?_) fun w₂ hw₂ hl => ?_
  · refine safe_op trivial fun w₃ before w₄ hw₃ _ _ hb _ hw₄ => ?_
    have hterm : (w₄.state x).terminal = true := by
      rw [(advance_exec hb (hw₃.1.created x hc)).2]
      simp [StreamState.terminal, StreamState.union]
    have hw₄ := hw₁.trans (hw₂.trans hw₄.1)
    exact safe_earlier hw₄ (writeRST_safe (hw₄.idle x hidle) hterm)
  · have hidle₂ := hw₂.idle x (hw₁.idle x hidle)
    have hshut (hc : w₂.created x) : Shut strict (w₂.state x) ∨ w₂.down = true := by
      obtain ⟨hc, hl⟩ | ht | hd := hw₂.calm h₁.reader x hc hl
      · obtain hs | hd | ⟨-, hclosed | hd⟩ := h₁.settled x hc hl
        · exact .inl (hs.grows (hw₂.state x))
        · exact .inr (hw₂.down hd.1)
        · exact absurd hclosed hopen
        · exact .inr (hw₂.down hd)
      · exact .inl (.inl ht)
      · exact .inr hd.1
    refine safe_lockW fun w₃ hw₃ hlock => ?_
    refine safe_writeRST hlock (hw₃.idle x hidle₂) (fun hc => ?_) fun ok w₄ hw₄ hlock => ?_
    · obtain hc | hc := hw₃.fresh x hc
      · exact (hshut hc).imp (fun hs => hs.grows (hw₃.state x)) hw₃.down
      · simp [hidle₂] at hc
    · have hw₄ := hw₃.trans hw₄
      have hlocked : Locked i w₄ := by
        refine ⟨hlock.1, fun y hy => ⟨(hlock.2 y hy).1, fun hyl => ?_⟩⟩
        exact hw₄.gone x hidle₂ hl ((hlock.2 y hy).2 hyl ▸ hyl)
      refine safe_unlockW hlocked fun w₅ hw₅ => ?_
      exact safe_ret (((hw₁.trans hw₂).trans hw₄).trans hw₅) fun _ _ => trivial

theorem safe_goingDown {o : Op β} {k : β → M α} {kind : Kind} (ho : o.kind = kind)
    (hkind : kind ∉ [.reader, .handler, .register, .reserve, .release, .drain, .advance,
      .advanceRecv, .write, .update, .lockW]) (hpre : ∀ w, Pre strict i w o)
    (hready : ∀ w, strict = true → G.opOk i w o → w.reader = none ∨ w.reader = some i)
    (hup : ∀ w b w', (b, w') ∈ o.exec env i w →
      (w.closed = true → w'.closed = true) ∧ (w.down = true → w'.down = true))
    (hk : ∀ b w', (w.reader = some i → w'.reader = some i) →
      (spec env G strict).Safe i (k b) 0 Q w') :
    (spec env G strict).Safe i (.op o k) 0 Q w := by
  refine fun w₁ hw ⟨_, hinv⟩ hok => ⟨hpre w₁, fun b w₂ hb => ?_⟩
  change (b, w₂) ∈ Op.exec env i w₁ o at hb
  have hinv : Inv strict w₁ := hinv
  have hframe := peerMaxFrameSize_of_exec hok hb hinv.frameSize
  have hf := frame_of_exec hb
  rw [ho] at hf
  have hup := hup w₁ b w₂ hb
  have hreader : w₂.readerView = w₁.readerView := hf.reader (avoids hkind (by decide))
  have ht := hf.table (avoids hkind (by decide))
  have hc := hf.created (avoids hkind (by decide))
  have hwire := hf.wire (avoids hkind (by decide))
  have hwmu := hf.wmu (avoids_one hkind (by decide))
  simp only [World.tableView, Prod.mk.injEq] at ht
  have hm : Mono w₁ w₂ := mono_of_frame hf (avoids hkind (by decide)) hup.1 hup.2
  have hcalm : Calm w₁ w₂ := fun x h hx => .inl ⟨(hc x).1 h, by rwa [ht.1] at hx⟩
  have hrst (x) : w₂.rstSent x ↔ w₁.rstSent x := by simp [World.rstSent, hwire]
  have hbase (j) (hj : j ≠ i) : Base strict j w₁ w₂ :=
    { hm with
      reader := fun _ => hreader
      calm := fun _ => hcalm
      live := fun _ x hx _ => by rwa [ht.1] at hx
      up := fun hs hjr => by
        obtain hr | hr := hready w₁ hs (tabled_guard hok)
        · simp [hr] at hjr
        · rw [hr] at hjr
          exact absurd (Option.some.inj hjr) (Ne.symm hj) }
  refine ⟨0, fun _ _ => ?_, fun j hj => ⟨hbase j hj, fun hjw => ⟨by rw [hwmu, hjw], hrst⟩⟩, ?_⟩
  · refine hinv.of_calm hm hcalm hreader hrst ?_ ?_ hframe
    · rw [hwire]
      exact hinv.wire
    · rw [hwmu]
      exact hinv.gone
  · refine hk b w₂ fun hr => ?_
    simp only [World.readerView, Prod.mk.injEq] at hreader
    rw [hreader.1, hw.1.reading hr]

theorem safe_close {k : Bool → M α} (hS : strict = true → Strict env G)
    (hk : ∀ b w', (spec env G strict).Safe i (k b) 0 Q w') :
    (spec env G strict).Safe i (.op .close k) 0 Q w := by
  refine safe_goingDown (o := .close) rfl (by simp) (fun _ => trivial)
    (fun w hs hok => .inl ((hS hs).close hok)) (fun w b w' hb => ?_) fun b w' _ => hk b w'
  simp only [Op.exec] at hb
  split at hb <;> cases List.mem_singleton.1 hb <;> simp [World.owe]

theorem safe_closeTransport {k : Unit → M α} (hS : strict = true → Strict env G)
    (hk : ∀ w', (w.reader = some i → w'.reader = some i) →
      (spec env G strict).Safe i (k ()) 0 Q w') :
    (spec env G strict).Safe i (.op .closeTransport k) 0 Q w := by
  refine safe_goingDown (o := .closeTransport) rfl (by simp) (fun _ => trivial)
    (fun w hs hok => (hS hs).closeTransport hok) (fun w b w' hb => ?_) fun _ => hk
  cases List.mem_singleton.1 hb
  simp

theorem closeConn_safe (hS : strict = true → Strict env G) :
    (spec env G strict).Safe i closeConn 0 ((spec env G strict).Done i) w := by
  simp only [closeConn, Prog.bind_eq, Prog.lift_bind, Prog.pure_eq]
  refine safe_close hS fun first w₁ => ?_
  split
  · refine safe_op trivial fun _ _ w₂ _ _ _ _ _ _ => safe_op trivial fun _ _ w₃ _ _ _ _ _ _ => ?_
    refine safe_op trivial fun _ _ w₄ _ _ _ _ _ _ => safe_op trivial fun _ _ w₅ _ _ _ _ _ _ => ?_
    refine safe_lockW fun w₆ _ hl => safe_op trivial fun _ last w₇ _ _ _ _ _ hw₇ => ?_
    have hl := hl.rely hw₇
    refine Spec.Safe.bind (safe_all (writeGoAway_ordinary last _) fun ok w₈ hw₈ => ?_)
    have hl := hl.rely hw₈
    have hend (w) (hl : Locked i w) : (spec env G strict).Safe i (.op .unlockW fun _ =>
        .op .closeTransport fun _ => .lift .awaitReaderDone) 0 ((spec env G strict).Done i) w :=
      safe_unlockW hl fun _ _ => safe_closeTransport hS fun _ _ =>
        safe_op trivial fun _ _ _ _ _ _ _ _ _ _ _ => ⟨rfl, trivial⟩
    cases ok with
    | true => exact safe_op trivial fun _ _ w₉ _ _ _ _ _ hw₉ => hend w₉ (hl.rely hw₉)
    | false => exact hend w₈ hl
  · exact fun _ _ => ⟨rfl, trivial⟩

section Reader

variable (hS : strict = true → Strict env G) {f : Inbound}

include hS in
theorem seed_safe (h : Reading strict i w) :
    (spec env G strict).Safe i (seed env) 0 (Reads strict i w fun _ _ => True) w := by
  unfold seed
  split
  · simp only [seedUpgradedStream, markRemoteEnd, Prog.bind_eq, Prog.lift_bind, Prog.pure_eq]
    refine safe_reads (registerStream_safe hS h rfl none) fun ok w₁ hm h₁ hnew => ?_
    have hc := hnew.1
    split
    · refine safe_op trivial fun _ _ w₂ _ _ _ _ _ hw₂ => ?_
      refine safe_since (push_safe (hw₂.1.created 1 hc) _) fun _ w₃ hw₃ _ => ?_
      have hw₃ := hw₂.1.trans hw₃
      refine safe_op trivial fun _ _ w₄ _ _ _ _ _ hw₄ => ?_
      have hw₄ := hw₃.trans hw₄.1
      exact reads_ret (hm.trans (h₁.turn hw₄)) (h₁.base hw₄) fun _ _ => trivial
    · exact reads_ret hm h₁ fun _ _ => trivial
  · exact reads_ret ⟨.refl w, fun _ => ⟨rfl, rfl⟩⟩ h fun _ _ => trivial

theorem shutdownStreams_safe (hr : w.reader = some i) :
    (spec env G strict).Safe i shutdownStreams 0 (fun _ g w => g = 0 ∧ w.reader = some i) w := by
  refine safe_reader hr (fun _ => trivial) fun w₁ xs w₂ hw hinv _ hb => ?_
  have hr₁ := hw.reading hr
  simp only [Op.exec] at hb
  split at hb
  · obtain ⟨l, -, hl⟩ := List.mem_map.1 hb
    cases hl
    refine ⟨{ Mono.refl w₁ with gone := fun _ _ _ => by simp [World.drain] }, rfl, rfl, hr₁,
      hinv.pending, ?_⟩
    refine safe_within ((shutdownEach_uses _).within (by decide)) fun _ w₃ hw₃ => ⟨rfl, ?_⟩
    exact hw₃.1.reading hr₁
  · cases hb

theorem safe_ending {o : Op Unit} (ho : o = .frameDone ∨ o = .stopReader) (hr : w.reader = some i)
    (hsettled : o = .frameDone → Settled strict w) :
    (spec env G strict).Safe i (.lift o) 0 ((spec env G strict).Done i) w := by
  intro w₁ hw ⟨_, hinv⟩ hok
  have hinv : Inv strict w₁ := hinv
  have hr₁ := hw.1.reading hr
  refine ⟨by obtain rfl | rfl := ho <;> trivial, fun b w₂ hb => ?_⟩
  change (b, w₂) ∈ Op.exec env i w₁ o at hb
  have hframe := peerMaxFrameSize_of_exec hok hb hinv.frameSize
  have hm : Mono w₁ w₂ ∧ w₂.wmu = w₁.wmu ∧ w₂.wire = w₁.wire ∧ w₂.handler = w₁.handler := by
    obtain rfl | rfl := ho <;> cases List.mem_singleton.1 hb <;>
      exact ⟨{ Mono.refl w₁ with }, rfl, rfl, rfl⟩
  obtain ⟨hm, hwmu, hwire, hhandler⟩ := hm
  refine ⟨0, fun _ _ => ?_, fun j hj => rely_of_mono hr₁ hj hm hwmu hwire, fun _ _ => ⟨rfl, trivial⟩⟩
  refine hinv.of_mono hm hwmu hwire hframe ?_ (by rw [hhandler]; exact hinv.pending)
  obtain rfl | rfl := ho <;> cases List.mem_singleton.1 hb
  · have hsettled : Settled strict w₁ := (hsettled rfl).calm hw.1.toMono (hw.1.calm hr)
    exact fun _ _ => hsettled
  · simp

include hS in
theorem round : Round (spec env G strict) i f (Reading strict i) (·.reader = some i) where
  quiet ho := harmless (ordinary_of_kind (by rw [ho]; simp))
  kept_rely hw h := h.base hw.1
  broken_rely hw h := hw.1.reading h
  broken h := h.reader
  answer code h hidle := (writeRSTStreamID_safe h hidle code).mono fun _ _ _ hw =>
    ⟨rfl, h.base hw.1⟩
  frameDone h := safe_ending (.inl rfl) h.reader fun _ => h.settled
  announce code h := (sendGoAway_safe code).mono fun _ _ _ hw => ⟨rfl, hw.1.reading h⟩
  closeTransport h := safe_closeTransport hS fun _ hr _ hw => ⟨rfl, hw.1.reading (hr h)⟩
  shutdown h := shutdownStreams_safe h
  stop h := safe_ending (.inr rfl) h (by simp)
  initial h := by
    simp only [sendInitialConnWindowUpdate, Prog.bind_eq, Prog.lift_bind, Prog.pure_eq]
    refine safe_op trivial fun _ win w₁ _ _ _ _ _ hw₁ => ?_
    split
    · exact fun _ hw => ⟨trivial, h.base (hw₁.1.trans hw.1)⟩
    · exact (writeUnlessClosed_safe rfl).mono fun _ _ _ hw =>
        ⟨trivial, h.base (hw₁.1.trans hw.1)⟩
  seed h := (seed_safe hS h).mono fun _ _ _ hw => ⟨rfl, hw.2.1⟩

include hS in
theorem serveFrame_safe :
    (spec env G strict).Safe i (serveFrame env f) 0 ((spec env G strict).Done i) w := by
  refine fun w₁ _ ⟨_, hinv⟩ hok => ⟨trivial, fun u w₂ hr => ?_⟩
  change (u, w₂) ∈ Op.exec env i w₁ (.readFrame f) at hr
  have hinv : Inv strict w₁ := hinv
  have hframe := peerMaxFrameSize_of_exec hok hr hinv.frameSize
  obtain ⟨hfree, hdone, hview⟩ := readFrame_exec hr
  have hf := frame_of_exec hr
  have ht := hf.table (by simp)
  have hc := hf.created (by simp)
  have hst := hf.state_eq (by simp)
  have hclosed := hf.closed (by simp)
  have hdown := hf.down (by simp)
  have hwire := hf.wire (by simp)
  have hwmu := hf.wmu (by simp)
  simp only [World.readerView, World.tableView, Prod.mk.injEq] at hview ht
  have hm : Mono w₁ w₂ := mono_of_frame hf (by simp) (by simp [hclosed]) (by simp [hdown])
  have hbegun : Begun strict env i f w₂ :=
    { reader := hview.1
      settled := (hinv.settled hfree hdone).calm hm fun x h hx => .inl ⟨(hc x).1 h, by rwa [ht.1] at hx⟩
      frame := by simp [hview]
      closing := fun hs hover hl => by
        have hover : oversized env w₁ f = true := by
          rw [← hover]
          cases f <;> simp [oversized, bigBlock, hview]
        rw [ht.1] at hl
        have := (hS hs).readFrame (tabled_guard hok) hover hl
        simpa [World.closing, hst, hclosed, hdown] using this }
  have hrely (j) : (spec env G strict).rely j w₁ w₂ := by
    refine ⟨{ hm with reader := ?_, calm := ?_, live := ?_, up := ?_ }, fun hj => ⟨by rw [hwmu, hj], ?_⟩⟩
    · simp [hfree]
    · simp [hfree]
    · simp [hfree]
    · simp [hfree]
    · simp [World.rstSent, hwire]
  refine ⟨0, fun _ _ => ?_, fun j _ => hrely j, ?_⟩
  · refine hinv.of_mono hm hwmu hwire hframe (by simp [hview]) ?_
    rw [hview.2.2.1]
    exact hinv.pending
  · refine (round hS).serveSafe (fun w => ∃ w₀, Begun strict env i f w₀ ∧
      (spec env G strict).rely i w₀ w) ?_ ?_ ?_ ⟨w₂, hbegun, (spec env G strict).rely_refl i w₂⟩
    · rintro w w' hw ⟨w₀, h, hw₀⟩
      exact ⟨w₀, h, (spec env G strict).rely_trans hw₀ hw⟩
    · rintro w - ⟨w₀, h, hw₀⟩
      exact ((dispatch_safe hS h).rely hw₀).mono fun _ _ _ hw => ⟨rfl, .inl hw.2.1⟩
    · rintro w ack params - - ⟨w₀, h, hw₀⟩
      refine (recorderSettings_safe ack params).mono fun _ _ _ hw => ⟨rfl, .inl ?_⟩
      exact h.toReading.base (hw₀.1.trans hw.1)

end Reader

theorem created_of_held {x : Nat} (ht : Table w) (hx : w.held x = true) : w.created x := by
  simp only [World.held, Bool.and_eq_true, Bool.or_eq_true, decide_eq_true_eq] at hx
  obtain ⟨-, hx | hx⟩ := hx
  · exact ht.delivered x hx
  · exact hx.2

theorem verifies (hG : Fresh env G) (hS : strict = true → Strict env G) :
    (spec env G strict).Verifies (Call.body env) := by
  intro q i w hcall _ _
  have ht : Table w := hcall.2.elim fun _ h => h
  have hav := hG.call w q hcall.1
  have hdiscard {α : Type} {p : M α} {R : α → World → Prop}
      (hp : (spec env G strict).Safe i p 0 (Since strict i w R) w) :
      (spec env G strict).Safe i (discard p) 0 ((spec env G strict).Done i) w :=
    safe_since hp fun _ _ _ _ _ _ => ⟨rfl, trivial⟩
  cases q with
  | frame f => exact serveFrame_safe hS
  | sendHeaders => exact hdiscard (sendHeaders_safe (created_of_held ht hav) ..)
  | sendData => exact hdiscard (sendData_safe (created_of_held ht hav) ..)
  | push => exact hdiscard (pushWithPriority_safe ..)
  | close => exact hdiscard (closeStream_safe (created_of_held ht hav))
  | recv => exact hdiscard (recv_safe ..)
  | accept ctx =>
    exact safe_within ((discard_uses (acceptStream_uses ctx)).within (by decide)) fun _ _ _ => ⟨rfl, trivial⟩
  | closeConn => exact closeConn_safe hS
  | goAwayGraceful => exact hdiscard (goAwayWith_safe (by simp) _)
  | goAway => exact hdiscard (goAwayWith_safe (by simp) _)
  | cancelRequest n => exact safe_op trivial fun _ _ _ _ _ _ _ _ _ _ _ => ⟨rfl, trivial⟩
  | failTransport => exact safe_closeTransport hS fun _ _ _ _ => ⟨rfl, trivial⟩

theorem init_inv (env : Env) (strict : Bool) : Inv strict (World.init env) where
  rst x hx := by simp [World.rstSent, World.init, Outbound.resets] at hx
  gone _ _ _ := by simp [World.init]
  wire := List.pairwise_singleton ..
  frameSize := le_rfl
  settled _ _ x hx := by simp [World.created, World.init] at hx
  pending h := by simp [World.init] at h

end Lifecycle

abbrev lived (env : Env) (G : Guard Op World Call) (strict : Bool) : Guard Op World Call :=
  (Lifecycle.spec env G strict).guard

section Lived

variable {strict : Bool} {env : Env} {G : Guard Op World Call} {c : Config Op World}

theorem reach_lived (hG : Fresh env G) (hS : strict = true → Lifecycle.Strict env G)
    (hc : Reach env G c) : Reach env (lived env G strict) c :=
  Spec.reachable_guard (Lifecycle.init_inv env strict) (fun _ => trivial)
    (Lifecycle.verifies hG hS) (reach_tabled hG hc)

theorem step_lived {c' : Config Op World} {e : Event Call} (hG : Fresh env G)
    (hS : strict = true → Lifecycle.Strict env G) (h : Step env G c e c') :
    Step env (lived env G strict) c e c' :=
  Spec.taken_guard (Lifecycle.init_inv env strict) (fun _ => trivial) (Lifecycle.verifies hG hS)
    (step_tabled hG h)

theorem runs_lived {c' : Config Op World} (hG : Fresh env G)
    (hS : strict = true → Lifecycle.Strict env G) (hc : Reach env G c) (h : Running env G c c') :
    Running env (lived env G strict) c c' :=
  Spec.runs_guard (Lifecycle.init_inv env strict) (fun _ => trivial) (Lifecycle.verifies hG hS)
    (reach_tabled hG hc) (Spec.runs_guard (Table.init env) (fun _ => trivial) (Table.verifies hG)
      (reach_owned hG.call hc) (runs_owned hG.call hc h))

theorem lifecycle_of_reach (hG : Fresh env G) (hS : strict = true → Lifecycle.Strict env G)
    (hc : Reach env G c) : Lifecycle.Inv strict c.shared := by
  obtain ⟨_, h⟩ := Spec.inv_of_reachable (S := Lifecycle.spec env G strict)
    (Lifecycle.init_inv env strict) (fun _ => trivial) (Lifecycle.verifies hG hS)
    (reach_tabled hG hc)
  exact h

end Lived

/-- Once RST_STREAM has been written for a stream, no later frame is a HEADERS or DATA frame on
it or a PUSH_PROMISE whose parent it is. -/
theorem nothing_after_reset {env : Env} (hup : env.cfg.upgradedRequest = none)
    {c : Config Op World} (hc : Reach env anyCall c) :
    c.shared.wire.Pairwise fun f g => ∀ x, f.resets x = true → g.uses x = false := by
  have hG : Fresh env anyCall := ⟨fun _ _ h => h, .inl hup⟩
  have h : Lifecycle.Inv false c.shared := lifecycle_of_reach hG (by simp) hc
  exact h.wire

def closedWhileSending : List (Event Call) :=
  Config.inTurn 0 (handshake ++
    [(.frame (.headers 1 false true [1] none), 16), (.accept .background, 4)]) ++
  [.call (.sendHeaders 1 [] true none), .call (.close 1)] ++
  List.replicate 3 (.step 4 0) ++ List.replicate 8 (.step 5 0) ++ List.replicate 3 (.step 4 0)

theorem nothing_after_reset_of_closedWhileSending : ∃ c, Reach getRequests anyCall c ∧ c.Quiet ∧
    Outbound.rstStream 1 .cancel ∈ c.shared.wire ∧
    c.shared.wire.Pairwise fun f g => ∀ x, f.resets x = true → g.uses x = false := by
  obtain ⟨c, hc, h⟩ := exists_reach_of_run getRequests closedWhileSending
    (p := fun c => c.threads.all Prog.returned ∧ Outbound.rstStream 1 .cancel ∈ c.shared.wire)
    (by decide +kernel)
  simp only [decide_eq_true_eq] at h
  exact ⟨c, hc, Config.quiet_of_returned h.1, h.2, nothing_after_reset rfl hc⟩

end PoseidonServer.Conn
