import PoseidonServer.Conn.Reader

/-! The receiving HPACK decoder is fed every field block on the wire, once and in order,
whatever becomes of the block's stream. -/

namespace PoseidonServer.Conn

open Concurrent

/-- The complete field blocks among dispatched frames, and the one that is still open. -/
structure FieldBlocks where
  complete : List Bytes := []
  current : Option Bytes := none

def FieldBlocks.feed (b : FieldBlocks) : Inbound → FieldBlocks
  | .headers _ _ endHeaders hb _ =>
    if endHeaders then ⟨b.complete ++ [hb], none⟩ else ⟨b.complete, some hb⟩
  | .continuation _ endHeaders hb => match b.current with
    | some buf =>
      if endHeaders then ⟨b.complete ++ [buf ++ hb], none⟩ else ⟨b.complete, some (buf ++ hb)⟩
    | none => b
  | _ => b

def fieldBlocks (frames : List Inbound) : FieldBlocks := frames.foldl FieldBlocks.feed {}

theorem fieldBlocks_append (frames : List Inbound) (f : Inbound) :
    fieldBlocks (frames ++ [f]) = (fieldBlocks frames).feed f := by
  simp [fieldBlocks]

def feedStream (x : Nat) : Inbound → Nat
  | .headers y _ endHeaders _ _ => if endHeaders then 0 else y
  | .continuation _ endHeaders _ => if endHeaders then 0 else x
  | _ => x

def openStream (frames : List Inbound) : Nat := frames.foldl feedStream 0

namespace HpackSync

structure Blocks extends FieldBlocks where
  stream : Nat := 0

abbrev Blocks.closed (l : List Bytes) : Blocks := ⟨⟨l, none⟩, 0⟩

def Blocks.feed (b : Blocks) (f : Inbound) : Blocks :=
  ⟨b.toFieldBlocks.feed f, feedStream b.stream f⟩

def blocks (frames : List Inbound) : Blocks := ⟨fieldBlocks frames, openStream frames⟩

theorem blocks_append (frames : List Inbound) (f : Inbound) :
    blocks (frames ++ [f]) = (blocks frames).feed f := by
  simp [blocks, Blocks.feed, fieldBlocks_append, openStream]

def Synced (w : World) (b : Blocks) : Prop :=
  w.decoded = b.complete ∧ w.handler.pendingStreamID = b.stream ∧ match b.current with
    | none => b.stream = 0
    | some buf => b.stream ≠ 0 ∧ w.handler.pendingBuf = buf

def spec (env : Env) (G : Guard Op World Call) : Spec (machine env) G PUnit where
  inv w _ := w.reader = none → w.readerDone = false → Synced w (blocks w.inbound)
  rely i w w' := w.reader = some i → w'.readerView = w.readerView
  rely_refl _ _ _ := rfl
  rely_trans h₁ h₂ h := by
    have h₁ := h₁ h
    simp only [World.readerView, Prod.mk.injEq] at h₁
    rw [h₂ (h₁.1.trans h)]
    simp [World.readerView, h₁]

variable {env : Env} {G : Guard Op World Call} {i : Nat} {w w' : World} {f : Inbound}

theorem harmless {o : Op β} (ho : o.kind ∉ [.reader, .handler]) : (spec env G).Harmless o := by
  refine fun i w r hinv _ => ⟨trivial, fun b w' hb => ?_⟩
  have hview := (frame_of_exec hb).reader ho
  refine ⟨?_, fun j _ => hview⟩
  simp only [World.readerView, Prod.mk.injEq] at hview
  simpa [spec, Synced, hview] using hinv

theorem safe_of_within {p : M α} {Q : α → PUnit → World → Prop}
    (hp : Within (· ∉ [.reader, .handler]) p)
    (hQ : ∀ a w', (spec env G).rely i w w' → Q a 0 w') : (spec env G).Safe i p 0 Q w :=
  Spec.safe_of_all (hp.mono fun _ ho => harmless ho) hQ

def Reads (i : Nat) (frames : List Inbound) (b : Blocks) (w : World) : Prop :=
  w.reader = some i ∧ w.inbound = frames ∧ Synced w b

abbrev Handled (i : Nat) (frames : List Inbound) : Except GoErr Unit → PUnit → World → Prop :=
  Conn.Handled (Reads i frames (blocks frames)) fun w => w.reader = some i

variable {frames : List Inbound} {b : Blocks}

theorem Reads.rely (h : Reads i frames b w) (hw : (spec env G).rely i w w') :
    Reads i frames b w' := by
  have hw := hw h.1
  simp only [World.readerView, Prod.mk.injEq] at hw
  simpa [Reads, Synced, hw] using h

theorem Reads.handled (h : Reads i frames (blocks frames) w) (r : Except GoErr Unit) :
    Handled i frames r 0 w := ⟨rfl, .inl h⟩

theorem Reads.failed (h : Reads i frames b w) {e : GoErr} (he : e.streamCode = none) :
    Handled i frames (.error e) 0 w := ⟨rfl, .inr ⟨e, rfl, he, h.1⟩⟩

section Ops

variable {Q : α → PUnit → World → Prop}

theorem safe_ret {a : α} (h : Reads i frames b w)
    (hQ : ∀ w', Reads i frames b w' → Q a 0 w') : (spec env G).Safe i (.ret a) 0 Q w :=
  fun _ hw => hQ _ (h.rely hw)

theorem safe_within {p : M α} (h : Reads i frames b w)
    (hp : Within (· ∉ [.reader, .handler]) p)
    (hQ : ∀ a w', Reads i frames b w' → Q a 0 w') : (spec env G).Safe i p 0 Q w :=
  safe_of_within hp fun a _ hw => hQ a _ (h.rely hw)

theorem safe_quiet {o : Op β} {k : β → M α} (h : Reads i frames b w)
    (ho : o.kind ∉ [.reader, .handler])
    (hk : ∀ r w₁ w₂, Reads i frames b w₁ → (r, w₂) ∈ o.exec env i w₁ → Reads i frames b w₂ →
      (spec env G).Safe i (k r) 0 Q w₂) : (spec env G).Safe i (.op o k) 0 Q w :=
  (harmless ho).safe_op fun w₁ r w₂ hw _ _ hr hw' => hk r w₁ w₂ (h.rely hw) hr (h.rely hw')

theorem safe_loadHandler {k : Handler → M α} (h : Reads i frames b w)
    (hk : ∀ w', Reads i frames b w' → (spec env G).Safe i (k w'.handler) 0 Q w') :
    (spec env G).Safe i (.op .loadHandler k) 0 Q w := by
  refine safe_quiet h (by simp) fun r w₁ w₂ h₁ hr _ => ?_
  cases List.mem_singleton.1 hr
  exact hk w₁ h₁

theorem safe_own {o : Op β} {k : β → M α} (b' : Blocks) (h : Reads i frames b w)
    (ho : ∀ r w₁ w₂, Reads i frames b w₁ → (r, w₂) ∈ o.exec env i w₁ →
      Reads i frames b' w₂ ∧ (spec env G).Safe i (k r) 0 Q w₂) :
    (spec env G).Safe i (.op o k) 0 Q w := by
  refine fun w₁ hw _ _ => ⟨trivial, fun r w₂ hr => ?_⟩
  have h₁ := h.rely hw
  obtain ⟨h₂, hk⟩ := ho r w₁ w₂ h₁ hr
  refine ⟨0, fun _ _ hnone => ?_, fun j hj hsome => ?_, hk⟩
  · rw [h₂.1] at hnone
    cases hnone
  · rw [h₁.1] at hsome
    exact absurd (Option.some.inj hsome) (Ne.symm hj)

theorem safe_storeHandler {hd : Handler} {k : Unit → M α} (b' : Blocks) (h : Reads i frames b w)
    (hs : ∀ w', Reads i frames b w' → Synced { w' with handler := hd } b')
    (hk : ∀ w', Reads i frames b' w' → (spec env G).Safe i (k ()) 0 Q w') :
    (spec env G).Safe i (.op (.storeHandler hd) k) 0 Q w := by
  refine safe_own b' h fun r w₁ w₂ h₁ hr => ?_
  cases List.mem_singleton.1 hr
  have h₂ : Reads i frames b' { w₁ with handler := hd } := ⟨h₁.1, h₁.2.1, hs w₁ h₁⟩
  exact ⟨h₂, hk _ h₂⟩

theorem safe_decodeBlock {hb : Bytes} {k : Except String (List HeaderField) → M α}
    (h : Reads i frames (.closed l) w)
    (hk : ∀ r w', Reads i frames (.closed (l ++ [hb])) w' → (spec env G).Safe i (k r) 0 Q w') :
    (spec env G).Safe i (.op (.decodeBlock hb) k) 0 Q w := by
  refine safe_own (.closed (l ++ [hb])) h fun r w₁ w₂ h₁ hr => ?_
  cases List.mem_singleton.1 hr
  obtain ⟨hreader, hin, hdec, hpend⟩ := h₁
  have h₂ : Reads i frames (.closed (l ++ [hb])) { w₁ with decoded := w₁.decoded ++ [hb] } :=
    ⟨hreader, hin, by simp [hdec], hpend⟩
  exact ⟨h₂, hk _ _ h₂⟩

end Ops

theorem discardHeaderBlock_safe {hb : Bytes} (h : Reads i frames b w)
    (hf : blocks frames = .closed (b.complete ++ [hb])) :
    (spec env G).Safe i (discardHeaderBlock hb) 0 (Handled i frames) w := by
  simp only [discardHeaderBlock, Prog.bind_eq, Prog.lift_bind, Prog.pure_eq]
  refine safe_loadHandler h fun w₁ h₁ => ?_
  refine safe_storeHandler (.closed b.complete) h₁ (fun w' h' => ⟨h'.2.2.1, rfl, rfl⟩) fun w₂ h₂ => ?_
  refine safe_decodeBlock h₂ fun r w₃ h₃ => ?_
  rw [← hf] at h₃
  cases r <;> exact safe_ret h₃ fun w₄ h₄ => h₄.handled _

theorem emitHeaderBlock_safe {hb : Bytes} (h : Reads i frames b w)
    (hf : blocks frames = .closed (b.complete ++ [hb])) (x : Nat) (endStream isTrailer : Bool) :
    (spec env G).Safe i (emitHeaderBlock env x hb endStream isTrailer) 0 (Handled i frames) w := by
  simp only [emitHeaderBlock, Prog.bind_eq, Prog.lift_bind, Prog.pure_eq]
  refine safe_loadHandler h fun w₁ h₁ => ?_
  refine safe_storeHandler (.closed b.complete) h₁ (fun w' h' => ⟨h'.2.2.1, rfl, rfl⟩) fun w₂ h₂ => ?_
  refine safe_decodeBlock h₂ fun r w₃ h₃ => ?_
  rw [← hf] at h₃
  cases r with
  | error msg => exact safe_ret h₃ fun w₄ h₄ => h₄.handled _
  | ok fields =>
    exact safe_within h₃ ((emitFields_uses ..).within (by decide)) fun r w₄ h₄ => h₄.handled r

theorem onStreamHeaders_safe {x : Nat} (hx : x ≠ 0) {endStream endHeaders : Bool} {hb : Bytes}
    {prio : Option Priority} (h : Reads i frames (.closed l) w)
    (hf : blocks frames =
      Blocks.feed (.closed l) (.headers x endStream endHeaders hb prio))
    (isNew refused : Bool) :
    (spec env G).Safe i (onStreamHeaders env x endStream endHeaders hb isNew refused) 0
      (Handled i frames) w := by
  simp only [onStreamHeaders, Prog.bind_eq, Prog.lift_bind, Prog.pure_eq]
  cases endHeaders with
  | false =>
    simp only [Bool.not_false, if_true]
    split
    · refine Spec.Safe.bind (safe_within h ((respondFieldsTooLarge_uses ..).within (by decide)) ?_)
      exact fun _ w₁ h₁ => safe_ret h₁ fun w₂ h₂ => h₂.failed rfl
    · refine safe_quiet h (by simp) fun st _ w₂ _ _ h₂ => ?_
      refine safe_storeHandler ⟨⟨l, some hb⟩, x⟩ h₂ (fun w' h' => ⟨h'.2.2.1, rfl, hx, rfl⟩) ?_
      refine fun w₃ h₃ => safe_ret h₃ fun w₄ h₄ => Reads.handled ?_ _
      rwa [hf]
  | true =>
    simp only [Bool.not_true, Bool.false_eq_true, if_false]
    split
    · exact discardHeaderBlock_safe h hf
    · refine safe_quiet h (by simp) fun st _ w₂ _ _ h₂ => ?_
      split
      · refine safe_quiet h₂ (by simp) fun _ _ w₃ _ _ h₃ => ?_
        exact emitHeaderBlock_safe h₃ hf ..
      · exact emitHeaderBlock_safe h₂ hf ..

theorem guardHeaderBlock_safe {k : M (Except GoErr Unit)} (h : Reads i frames b w)
    (hk : ∀ w', Reads i frames b w' → b = .closed b.complete →
      (spec env G).Safe i k 0 (Handled i frames) w') :
    (spec env G).Safe i (guardHeaderBlock k) 0 (Handled i frames) w := by
  simp only [guardHeaderBlock, Prog.bind_eq, Prog.lift_bind, Prog.pure_eq]
  refine safe_loadHandler h fun w₁ h₁ => ?_
  split
  · exact safe_ret h₁ fun w₂ h₂ => h₂.failed rfl
  · rename_i hpend
    refine hk w₁ h₁ ?_
    obtain ⟨-, -, -, hstream, hcur⟩ := h₁
    obtain ⟨⟨l, current⟩, x⟩ := b
    obtain rfl : x = 0 := hstream.symm.trans (not_not.1 hpend)
    cases current with
    | none => rfl
    | some buf => exact absurd rfl hcur.1

theorem validateClientID_streamCode {x : Nat} {e : GoErr} (h : w.validateClientID x = .error e) :
    e.streamCode = none := by
  unfold World.validateClientID at h
  split at h
  · cases h
    rfl
  · split at h <;> cases h
    rfl

theorem onHeaders_safe {x : Nat} {endStream endHeaders : Bool} {hb : Bytes}
    {prio : Option Priority} (h : Reads i frames b w)
    (hf : blocks frames = b.feed (.headers x endStream endHeaders hb prio)) :
    (spec env G).Safe i (onHeaders env x endStream endHeaders hb prio) 0 (Handled i frames) w := by
  refine guardHeaderBlock_safe h fun w₁ h₁ hb => ?_
  rw [hb] at h₁ hf
  simp only [Prog.bind_eq, Prog.lift_bind, Prog.pure_eq]
  split
  · exact safe_ret h₁ fun w₂ h₂ => h₂.failed rfl
  · have hx : x ≠ 0 := by omega
    refine safe_quiet h₁ (by simp) fun live _ w₂ _ _ h₂ => ?_
    split
    · exact onStreamHeaders_safe hx h₂ hf ..
    · refine safe_quiet h₂ (by simp) fun r w₃ w₄ _ hr h₄ => ?_
      simp only [Op.exec, Op.underTable] at hr
      split at hr
      · cases List.mem_singleton.1 hr
        cases hv : w₃.validateClientID x with
        | error e =>
          exact safe_ret h₄ fun w₅ h₅ => h₅.failed (validateClientID_streamCode hv)
        | ok _ =>
          refine Spec.Safe.bind (safe_within h₄ ((registerStream_uses ..).within (by decide)) ?_)
          exact fun ok w₅ h₅ => onStreamHeaders_safe hx h₅ hf ..
      · cases hr

theorem onBlockComplete_safe {x : Nat} {hd : Handler} {buf : Bytes} (h : Reads i frames b w)
    (hf : blocks frames = .closed (b.complete ++ [buf])) :
    (spec env G).Safe i (onBlockComplete env x hd buf) 0 (Handled i frames) w := by
  simp only [onBlockComplete, Prog.bind_eq, Prog.lift_bind]
  split
  · exact discardHeaderBlock_safe h hf
  refine safe_quiet h (by simp) fun live _ w₂ _ _ h₂ => ?_
  split
  · exact discardHeaderBlock_safe h₂ hf
  split
  · refine safe_quiet h₂ (by simp) fun _ _ w₃ _ _ h₃ => ?_
    exact emitHeaderBlock_safe h₃ hf ..
  · exact emitHeaderBlock_safe h₂ hf ..

theorem onContinuation_safe {x : Nat} {endHeaders : Bool} {hb : Bytes}
    (h : Reads i frames b w) (hf : blocks frames = b.feed (.continuation x endHeaders hb)) :
    (spec env G).Safe i (onContinuation env x endHeaders hb) 0 (Handled i frames) w := by
  simp only [onContinuation, Prog.bind_eq, Prog.lift_bind, Prog.pure_eq]
  refine safe_loadHandler h fun w₁ h₁ => ?_
  split
  · exact safe_ret h₁ fun w₂ h₂ => h₂.failed rfl
  split
  · exact safe_ret h₁ fun w₂ h₂ => h₂.failed rfl
  obtain ⟨hpending, hp⟩ := h₁.2.2.2
  cases hcur : b.current with
  | none =>
    rw [hcur] at hp
    exact absurd (hpending.trans hp) ‹_›
  | some buf =>
    rw [hcur] at hp
    split
    · refine safe_quiet h₁ (by simp) fun live _ w₂ _ _ h₂ => ?_
      split
      · refine Spec.Safe.bind (safe_within h₂ ((respondFieldsTooLarge_uses ..).within (by decide)) ?_)
        exact fun _ w₃ h₃ => safe_ret h₃ fun w₄ h₄ => h₄.failed rfl
      · exact safe_ret h₂ fun w₃ h₃ => h₃.failed rfl
    · refine safe_storeHandler ⟨⟨b.complete, some (buf ++ hb)⟩, b.stream⟩ h₁ ?_ fun w₂ h₂ => ?_
      · exact fun w' h' => ⟨h'.2.2.1, hpending, hp.1, by rw [← hp.2]⟩
      split
      · refine safe_ret h₂ fun w₃ h₃ => Reads.handled ?_ _
        simp_all [Blocks.feed, FieldBlocks.feed, feedStream]
      · have hf' : blocks frames = .closed (b.complete ++ [w₁.handler.pendingBuf ++ hb]) := by
          simp_all [Blocks.feed, FieldBlocks.feed, feedStream]
        exact onBlockComplete_safe h₂ hf' ..

theorem dispatch_safe (h : Reads i frames b w) (hf : blocks frames = b.feed f) :
    (spec env G).Safe i (dispatch env f) 0 (Handled i frames) w := by
  cases f with
  | headers x endStream endHeaders hb prio => exact onHeaders_safe h hf
  | continuation x endHeaders hb => exact onContinuation_safe h hf
  | _ =>
    rw [show b.feed _ = b from rfl] at hf
    subst hf
    exact safe_within h ((dispatch_uses env (by simp) (by simp)).within (by decide)) fun r w₁ h₁ =>
      h₁.handled r

theorem safe_release {o : Op Unit} (h : w.reader = some i)
    (ho : ∀ w₁ w₂, ((), w₂) ∈ o.exec env i w₁ → w₁.readerView = w.readerView →
      w₂.readerDone = false → Synced w₂ (blocks w₂.inbound)) :
    (spec env G).Safe i (.lift o) 0 ((spec env G).Done i) w := by
  refine fun w₁ hw _ _ => ⟨trivial, fun r w₂ hr => ?_⟩
  have hw := hw h
  refine ⟨0, fun _ _ _ hd => ho w₁ w₂ hr hw hd, fun j hj hsome => ?_, fun _ _ => ⟨rfl, trivial⟩⟩
  simp only [World.readerView, Prod.mk.injEq] at hw
  rw [hw.1, h] at hsome
  exact absurd (Option.some.inj hsome) (Ne.symm hj)

theorem safe_reading {p : M α} (h : w.reader = some i) (hp : Within (· ∉ [.reader, .handler]) p) :
    (spec env G).Safe i p 0 (fun _ g w => g = 0 ∧ w.reader = some i) w := by
  refine safe_of_within hp fun a w₁ hw => ⟨rfl, ?_⟩
  have hw := hw h
  simp only [World.readerView, Prod.mk.injEq] at hw
  rw [hw.1, h]

theorem round : Round (spec env G) i f (Reads i frames (blocks frames)) (·.reader = some i) where
  quiet ho := harmless (by rw [ho]; simp)
  kept_rely hw h := h.rely hw
  broken_rely hw h := by
    have hw := hw h
    simp only [World.readerView, Prod.mk.injEq] at hw
    rw [hw.1, h]
  broken h := h.1
  answer code h _ := safe_within h ((writeRSTStreamID_uses ..).within (by decide)) fun _ _ h => ⟨rfl, h⟩
  frameDone h := by
    refine safe_release h.1 fun w₁ w₂ hr hw _ => ?_
    cases List.mem_singleton.1 hr
    simp only [World.readerView, Prod.mk.injEq] at hw
    simpa [Synced, hw, h.2.1] using h.2.2
  announce code h := safe_reading h ((sendGoAway_uses code).within (by decide))
  closeTransport h := safe_reading h (by simp)
  shutdown h := safe_reading h (shutdownStreams_uses.within (by decide))
  stop h := by
    refine safe_release h fun w₁ w₂ hr _ hd => ?_
    cases List.mem_singleton.1 hr
    cases hd
  initial h := safe_within h (sendInitialConnWindowUpdate_uses.within (by decide)) fun _ _ h => ⟨rfl, h⟩
  seed h := safe_within h ((seed_uses _).within (by decide)) fun _ _ h => ⟨rfl, h⟩

theorem serveFrame_safe (f : Inbound) :
    (spec env G).Safe i (serveFrame env f) 0 ((spec env G).Done i) w := by
  refine fun w₁ _ ⟨_, hinv⟩ _ => ⟨trivial, fun u w₂ hr => ?_⟩
  change (u, w₂) ∈ Op.exec env i w₁ (.readFrame f) at hr
  obtain ⟨hfree, hdone, hview⟩ := readFrame_exec hr
  simp only [World.readerView, Prod.mk.injEq] at hview
  have h₂ : Reads i (w₁.inbound ++ [f]) (blocks w₁.inbound) w₂ := by
    refine ⟨hview.1, hview.2.2.2.2, ?_⟩
    simpa [Synced, hview] using hinv hfree hdone
  refine ⟨0, fun _ _ hnone => ?_, fun j _ hsome => ?_, ?_⟩
  · rw [h₂.1] at hnone
    cases hnone
  · rw [hfree] at hsome
    cases hsome
  · have hf := blocks_append w₁.inbound f
    refine round.serveSafe (Reads i (w₁.inbound ++ [f]) (blocks w₁.inbound))
      (fun hw h => h.rely hw) (fun w _ h => dispatch_safe h hf) ?_ h₂
    rintro w ack params rfl - h
    rw [show Blocks.feed _ _ = blocks w₁.inbound from rfl] at hf
    rw [← hf] at h
    exact safe_within h ((recorderSettings_uses ..).within (by decide)) fun r w₃ h₃ => h₃.handled r

theorem verifies : (spec env G).Verifies (Call.body env) := by
  intro q i w _ _ _
  by_cases hq : ∃ f, q = .frame f
  · obtain ⟨f, rfl⟩ := hq
    exact serveFrame_safe f
  · have hq : ∀ f, q ≠ .frame f := fun f h => hq ⟨f, h⟩
    exact safe_of_within (Call.body_within (by decide) env hq (.inl (by decide))) fun _ _ _ => ⟨rfl, trivial⟩

end HpackSync

/-- Whenever the reader is between two frames and no error has stopped it, the blocks handed
to the HPACK decoder are the complete field blocks among the frames read so far. -/
theorem decoded_eq_fieldBlocks {env : Env} {c : Config Op World} (hc : Reach env anyCall c)
    (hreader : c.shared.reader = none) (hopen : c.shared.readerDone = false) :
    c.shared.decoded = (fieldBlocks c.shared.inbound).complete := by
  have hinit : (HpackSync.spec env anyCall).inv (World.init env) 0 := fun _ _ => ⟨rfl, rfl, rfl⟩
  obtain ⟨_, hinv⟩ :=
    Spec.inv_of_reachable hinit (fun _ => trivial) HpackSync.verifies hc
  exact (hinv hreader hopen).1

def emptyDecoder : Env where
  opts := {}
  decode _ _ := .ok []

theorem decoded_eq_fieldBlocks_of_split_block : ∃ c, Reach emptyDecoder anyCall c ∧
    (fieldBlocks c.shared.inbound).complete = [[1, 2]] ∧
    c.shared.wire.getLast? = some (.rstStream 1 .protocolError) ∧
    c.shared.decoded = [[1, 2]] := by
  obtain ⟨c, hc, h⟩ := exists_reach_of_run emptyDecoder
    (Config.inTurn 0 (handshake ++
      [(.frame (.headers 1 false false [1] none), 11), (.frame (.continuation 1 true [2]), 19)]))
    (p := fun c => c.shared.reader = none ∧ c.shared.readerDone = false ∧
      (fieldBlocks c.shared.inbound).complete = [[1, 2]] ∧
      c.shared.wire.getLast? = some (.rstStream 1 .protocolError)) (by decide +kernel)
  simp only [decide_eq_true_eq] at h
  obtain ⟨hreader, hopen, hblocks, hwire⟩ := h
  exact ⟨c, hc, hblocks, hwire, by rw [decoded_eq_fieldBlocks hc hreader hopen, hblocks]⟩

end PoseidonServer.Conn
