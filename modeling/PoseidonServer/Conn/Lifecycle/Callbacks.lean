import PoseidonServer.Conn.Lifecycle.Methods

/-! The reader's callbacks keep to the life of a stream. -/

namespace PoseidonServer.Conn

open Concurrent

def tooLarge (env : Env) : Except String (List HeaderField) → Bool
  | .ok fields => fieldSectionSize fields > env.cfg.maxHeaderBytes
  | .error _ => false

def bigBlock (env : Env) (w : World) (endHeaders : Bool) (hb : Bytes) : Bool :=
  if endHeaders then tooLarge env (env.decode w.decoded hb) else hb.length > env.cfg.maxHeaderBytes

def oversized (env : Env) (w : World) : Inbound → Bool
  | .headers x _ endHeaders hb _ =>
    w.handler.pendingStreamID = 0 && x % 2 = 1 && bigBlock env w endHeaders hb
  | .continuation x endHeaders hb => x ≠ 0 && x = w.handler.pendingStreamID &&
    (w.handler.pendingBuf.length + hb.length > env.cfg.maxHeaderBytes ||
      endHeaders && !w.handler.pendingDiscard &&
        tooLarge env (env.decode w.decoded (w.handler.pendingBuf ++ hb)))
  | _ => false

theorem oversized_congr {env : Env} {w w' : World} (h : w'.readerView = w.readerView) (f : Inbound) :
    oversized env w' f = oversized env w f := by
  simp only [World.readerView, Prod.mk.injEq] at h
  cases f <;> simp [oversized, bigBlock, h]

def World.closing (w : World) (x : Nat) : Prop :=
  (w.state x).reset = true ∨
    ((w.state x).recvEnded = true ∧ w.closed = false ∧ w.down = false)

namespace Lifecycle

/-- Runs in which nobody else closes the connection during a callback, and in which it answers an
oversized section by itself only on a stream that is closed by that. -/
structure Strict (env : Env) (G : Guard Op World Call) : Prop where
  close : ∀ {i w}, G.opOk i w .close → w.reader = none
  closeTransport : ∀ {i w}, G.opOk i w .closeTransport → w.reader = none ∨ w.reader = some i
  readFrame : ∀ {i w f}, G.opOk i w (.readFrame f) → oversized env w f = true →
    f.streamID ∈ w.live → w.closing f.streamID
  tryEnqueue : ∀ {i w x f}, G.opOk i w (.tryEnqueue x) → w.inbound.getLast? = some f →
    oversized env w f = true → env.cfg.acceptQueueDepth ≤ w.acceptCh.length

structure Reading (strict : Bool) (i : Nat) (w : World) : Prop where
  reader : w.reader = some i
  settled : Settled strict w

structure Turn (strict : Bool) (w w' : World) : Prop extends Mono w w' where
  up : strict = true → w'.closed = w.closed ∧ w'.down = w.down

variable {strict : Bool} {env : Env} {G : Guard Op World Call} {i j : Nat}
  {w w' w₁ w₂ w₃ : World} {Q : α → PUnit → World → Prop}

theorem Turn.trans (h₁ : Turn strict w₁ w₂) (h₂ : Turn strict w₂ w₃) : Turn strict w₁ w₃ :=
  { h₁.toMono.trans h₂.toMono with
    up := fun hs => ⟨(h₂.up hs).1.trans (h₁.up hs).1, (h₂.up hs).2.trans (h₁.up hs).2⟩ }

theorem Turn.closing {x : Nat} (h : Turn strict w w') (hs : strict = true) (hx : w.closing x) :
    w'.closing x := by
  obtain ⟨hc, hd⟩ := h.up hs
  unfold World.closing
  rw [hc, hd]
  exact hx.imp (h.state x).reset (And.imp_left (h.state x).recvEnded)

theorem Reading.base (h : Reading strict i w) (hw : Base strict i w w') : Reading strict i w' where
  reader := hw.reading h.reader
  settled := h.settled.calm hw.toMono (hw.calm h.reader)

theorem Reading.turn (h : Reading strict i w) (hw : Base strict i w w') : Turn strict w w' :=
  { hw.toMono with up := fun hs => hw.up hs h.reader }

section Rules

theorem rely_of_mono (hr : w.reader = some i) (hj : j ≠ i) (hm : Mono w w')
    (hwmu : w'.wmu = w.wmu) (hwire : w'.wire = w.wire) : (spec env G strict).rely j w w' := by
  have hr (hjr : w.reader = some j) : False := by
    rw [hr] at hjr
    exact hj (Option.some.inj hjr).symm
  refine ⟨{ hm with reader := ?_, calm := ?_, live := ?_, up := ?_ },
    fun hjw => ⟨by rw [hwmu, hjw], ?_⟩⟩
  · exact fun h => (hr h).elim
  · exact fun h => (hr h).elim
  · exact fun h => (hr h).elim
  · exact fun _ h => (hr h).elim
  · exact fun x => by simp [World.rstSent, hwire]

theorem Inv.of_mono (h : Inv strict w) (hm : Mono w w') (hwmu : w'.wmu = w.wmu)
    (hwire : w'.wire = w.wire) (hframe : 16384 ≤ w'.peerMaxFrameSize)
    (hsettled : w'.reader = none → w'.readerDone = false → Settled strict w')
    (hp : w'.handler.pendingStreamID ≠ 0 → w'.handler.pendingStreamID % 2 = 1) :
    Inv strict w' := by
  have hrst (x) : w'.rstSent x ↔ w.rstSent x := by simp [World.rstSent, hwire]
  refine h.next hm (fun x hx => .inl ((hrst x).1 hx)) (fun hfree x hx => ?_) ?_ hframe hsettled hp
  · rw [hwmu] at hfree
    have hx := (hrst x).1 hx
    exact hm.gone x (h.rst x hx).1 (h.gone hfree x hx)
  · rw [hwire]
    exact h.wire

theorem safe_reader {o : Op β} {k : β → M α} (h : w.reader = some i) (hpre : ∀ w, Pre strict i w o)
    (ho : ∀ w₁ b w₂, Base strict i w w₁ → Inv strict w₁ → (tabled env G).opOk i w₁ o →
      (b, w₂) ∈ o.exec env i w₁ → Mono w₁ w₂ ∧ w₂.wmu = w₁.wmu ∧ w₂.wire = w₁.wire ∧
        w₂.reader = some i ∧
        (w₂.handler.pendingStreamID ≠ 0 → w₂.handler.pendingStreamID % 2 = 1) ∧
        (spec env G strict).Safe i (k b) 0 Q w₂) :
    (spec env G strict).Safe i (.op o k) 0 Q w := by
  refine fun w₁ hw ⟨_, hinv⟩ hok => ⟨hpre w₁, fun b w₂ hb => ?_⟩
  obtain ⟨hm, hwmu, hwire, hr, hp, hk⟩ := ho w₁ b w₂ hw.1 hinv hok hb
  refine ⟨0, fun _ _ => ?_, fun j hj => rely_of_mono (hw.1.reading h) hj hm hwmu hwire, hk⟩
  refine Inv.of_mono hinv hm hwmu hwire ?_ (by simp [hr]) hp
  exact peerMaxFrameSize_of_exec hok hb (Inv.frameSize hinv)

theorem mono_of_handler {o : Op β} {b : β} (ho : o.kind = .handler)
    (hb : (b, w') ∈ o.exec env i w) : Mono w w' := by
  have hf := frame_of_exec hb
  rw [ho] at hf
  exact mono_of_frame hf (by simp) (by simp [hf.closed]) (by simp [hf.down])

theorem safe_handler {o : Op β} {k : β → M α} (ho : o.kind = .handler) (h : Reading strict i w)
    (hp : ∀ w₁ b w₂, Base strict i w w₁ → Inv strict w₁ → (b, w₂) ∈ o.exec env i w₁ →
      w₂.handler.pendingStreamID ≠ 0 → w₂.handler.pendingStreamID % 2 = 1)
    (hk : ∀ w₁ b w₂, Base strict i w w₁ → (b, w₂) ∈ o.exec env i w₁ → Turn strict w w₂ →
      Reading strict i w₂ → (spec env G strict).Safe i (k b) 0 Q w₂) :
    (spec env G strict).Safe i (.op o k) 0 Q w := by
  refine safe_reader h.reader ?_ fun w₁ b w₂ hw hinv _ hb => ?_
  · cases o <;> first
      | exact fun _ => trivial
      | cases ho
      | skip
    case write f => exact absurd ho (f.kind_ne (by simp))
  have hm := mono_of_handler ho hb
  have hf := frame_of_exec hb
  rw [ho] at hf
  have ht := hf.table (by simp)
  have hturn := hf.turn (by simp)
  simp only [World.tableView, World.turnView, Prod.mk.injEq] at ht hturn
  have h₁ := h.base hw
  have h₂ : Reading strict i w₂ :=
    { reader := by rw [hturn.1, h₁.reader]
      settled := h₁.settled.calm hm fun x hc hx =>
        .inl ⟨(hf.created (by simp) x).1 hc, by rwa [ht.1] at hx⟩ }
  have hturn : Turn strict w₁ w₂ := { hm with up := fun _ => ⟨hf.closed (by simp), hf.down (by simp)⟩ }
  exact ⟨hm, hf.wmu (by simp), hf.wire (by simp), h₂.reader, hp w₁ b w₂ hw hinv hb,
    hk w₁ b w₂ hw hb ((h.turn hw).trans hturn) h₂⟩

theorem safe_releaseAnswered {x : Nat} {k : Bool → M α} (h : Reading false i w)
    (hx : Gone false w x) (hk : ∀ b w', Turn false w w' → Reading false i w' →
      (spec env G false).Safe i (k b) 0 Q w') :
    (spec env G false).Safe i (.op (.release x) k) 0 Q w := by
  intro w₁ hw ⟨_, hinv⟩ hok
  have hinv : Inv false w₁ := hinv
  have h₁ := h.base hw.1
  have hx := hx.mono hw.1.toMono
  refine ⟨fun _ => .inr (.inr ⟨rfl, h₁.reader, hx⟩), fun b w₂ hb => ?_⟩
  change (b, w₂) ∈ Op.exec env i w₁ (.release x) at hb
  have hm := mono_release hb
  have hf := frame_of_exec hb
  have hturn := hf.turn (by simp)
  simp only [World.turnView, Prod.mk.injEq] at hturn
  have hr : w₂.reader = some i := by rw [hturn.1, h₁.reader]
  refine ⟨0, fun _ _ => ?_, fun j hj => ?_, hk b w₂ ⟨hw.1.toMono.trans hm, by simp⟩ ⟨hr, ?_⟩⟩
  · have hreader := hf.reader (by simp)
    simp only [World.readerView, Prod.mk.injEq] at hreader
    refine hinv.of_mono hm (hf.wmu (by simp)) (hf.wire (by simp)) ?_ (by simp [hr]) ?_
    · exact peerMaxFrameSize_of_exec hok hb hinv.frameSize
    · rw [hreader.2.2.1]
      exact hinv.pending
  · exact rely_of_mono h₁.reader hj hm (hf.wmu (by simp)) (hf.wire (by simp))
  · intro y hc hy
    have hc := (hf.created (by simp) y).1 hc
    refine Gone.mono ?_ hm
    by_cases hyx : y = x
    · exact hyx ▸ hx
    · refine h₁.settled y hc fun hl => hy ?_
      simp only [Op.exec, Op.underTable, World.release] at hb
      split at hb
      · split at hb <;> cases List.mem_singleton.1 hb
        · exact (List.mem_erase_of_ne hyx).2 hl
        · exact hl
      · cases hb

def Reads (strict : Bool) (i : Nat) (w : World) (R : β → World → Prop) (b : β) (_ : PUnit)
    (w' : World) : Prop := Turn strict w w' ∧ Reading strict i w' ∧ R b w'

theorem safe_reads {p : M β} {k : β → M α} {R : β → World → Prop}
    (hp : (spec env G strict).Safe i p 0 (Reads strict i w R) w)
    (hk : ∀ b w', Turn strict w w' → Reading strict i w' → R b w' →
      (spec env G strict).Safe i (k b) 0 Q w') :
    (spec env G strict).Safe i (p.bind k) 0 Q w :=
  Spec.Safe.bind (hp.mono fun b _ w' h => hk b w' h.1 h.2.1 h.2.2)

theorem reads_of_since {p : M β} {R : β → World → Prop} (h : Reading strict i w)
    (hp : (spec env G strict).Safe i p 0 (Since strict i w R) w) :
    (spec env G strict).Safe i p 0 (Reads strict i w R) w :=
  hp.mono fun _ _ _ hb => ⟨h.turn hb.1, h.base hb.1, hb.2⟩

theorem reads_earlier {p : M β} {R : β → World → Prop} (hm : Turn strict w w')
    (hp : (spec env G strict).Safe i p 0 (Reads strict i w' R) w') :
    (spec env G strict).Safe i p 0 (Reads strict i w R) w' :=
  hp.mono fun _ _ _ hb => ⟨hm.trans hb.1, hb.2⟩

theorem reads_ret {a : β} {R : β → World → Prop} (hm : Turn strict w w') (h : Reading strict i w')
    (hR : ∀ w'', Base strict i w' w'' → R a w'') :
    (spec env G strict).Safe i (.ret a) 0 (Reads strict i w R) w' :=
  fun _ hw => ⟨hm.trans (h.turn hw.1), h.base hw.1, hR _ hw.1⟩

end Rules

theorem push_safe {x : Nat} (hx : w.created x) (e : StreamEvent) :
    (spec env G strict).Safe i (push x e) 0 (Since strict i w fun _ _ => True) w := by
  simp only [push, Prog.bind_eq, Prog.lift_bind, Prog.pure_eq]
  refine safe_op trivial fun _ sent w₁ _ _ _ _ _ hw₁ => ?_
  split
  · exact safe_ret hw₁.1 fun _ _ => trivial
  refine safe_op trivial fun _ before w₂ _ _ _ _ _ hw₂ => ?_
  have hw₂ := hw₁.1.trans hw₂.1
  split
  · exact safe_ret hw₂ fun _ _ => trivial
  · refine ⟨0, 0, rfl, fun j w₃ hw₃ _ => ?_, ?_⟩
    · refine safe_since (writeServerRSTStream_safe (hw₃.1.created x (hw₂.created x hx)) _) ?_
      exact fun _ _ _ _ _ _ => ⟨rfl, trivial⟩
    · refine safe_op trivial fun _ _ w₃ _ _ _ _ _ hw₃ => ?_
      exact safe_ret (hw₂.trans hw₃.1) fun _ _ => trivial

theorem deliverEvent_safe {x : Nat} (hx : w.created x) (endStream : Bool) (e : StreamEvent) :
    (spec env G strict).Safe i (deliverEvent x endStream e) 0 (Since strict i w fun _ _ => True)
      w := by
  simp only [deliverEvent, markRemoteEnd, Prog.bind_eq, Prog.lift_bind, Prog.pure_eq]
  cases endStream with
  | false =>
    simp only [Bool.false_eq_true, if_false, Prog.ret_bind]
    refine safe_since (push_safe hx e) fun _ w₁ hw₁ _ => ?_
    exact safe_ret hw₁ fun _ _ => trivial
  | true =>
    refine safe_op trivial fun w₁ before w₂ hw _ ht hb hw' hw₂ => ?_
    have hc₁ := hw.1.created x hx
    have hst := (advance_exec hb hc₁).2
    dsimp only [Prog.ret_bind]
    refine safe_since (push_safe (hw₂.1.created x hx) e) fun _ w₃ hw₃ _ => ?_
    split
    · rename_i hended
      have hterm : (w₂.state x).terminal = true := by
        rw [hst]
        simp [StreamState.terminal, StreamState.union, hended]
      have hidle := (hw'.1.trans hw₃).idle x (ht.used x hc₁)
      refine markStreamDone_safe hidle ((hw₃.state x).terminal hterm) fun w₄ hw₄ _ => ?_
      exact safe_ret ((hw₂.1.trans hw₃).trans hw₄.1) fun _ _ => trivial
    · exact safe_ret (hw₂.1.trans hw₃) fun _ _ => trivial

theorem onStreamData_safe {x : Nat} (hx : w.created x) (endStream : Bool) (p : Bytes) :
    (spec env G strict).Safe i (onStreamData x endStream p) 0 (Since strict i w fun _ _ => True)
      w := by
  simp only [onStreamData, Prog.bind_eq, Prog.lift_bind, Prog.pure_eq]
  refine safe_op trivial fun _ st w₁ _ _ _ _ _ hw₁ => ?_
  split
  · refine safe_since (writeServerRSTStream_safe (hw₁.1.created x hx) _) fun _ w₂ hw₂ _ => ?_
    exact safe_ret (hw₁.1.trans hw₂) fun _ _ => trivial
  · exact safe_earlier hw₁.1 (deliverEvent_safe (hw₁.1.created x hx) ..)

theorem onDataReceived_safe (s : Option Nat) (length : Nat) :
    (spec env G strict).Safe i (onDataReceived s length) 0 (Since strict i w fun _ _ => True)
      w := by
  have hconn (w) : (spec env G strict).Safe i (onConnDataReceived length) 0
      (Since strict i w fun _ _ => True) w := by
    simp only [onConnDataReceived, Prog.bind_eq, Prog.lift_bind, Prog.pure_eq]
    refine safe_op trivial fun _ r w₁ _ _ _ _ _ hw₁ => ?_
    cases r with
    | none => exact safe_ret hw₁.1 fun _ _ => trivial
    | some refund =>
      dsimp only
      split
      · exact safe_earlier hw₁.1 (writeUnlessClosed_safe rfl)
      · exact safe_ret hw₁.1 fun _ _ => trivial
  cases s with
  | none => exact hconn w
  | some x =>
    simp only [onDataReceived, Prog.bind_eq, Prog.lift_bind, Prog.pure_eq]
    refine safe_op trivial fun _ ok w₁ _ _ _ _ _ hw₁ => ?_
    split
    · exact safe_earlier hw₁.1 (hconn w₁)
    · exact safe_ret hw₁.1 fun _ _ => trivial

theorem lookup_exec {x : Nat} {b : Bool} (hb : (b, w') ∈ Op.exec env i w (.lookup x)) :
    w' = w ∧ b = decide (x ∈ w.live) := by
  simp only [Op.exec, Op.underTable] at hb
  split at hb
  · cases List.mem_singleton.1 hb
    exact ⟨rfl, rfl⟩
  · cases hb

theorem safe_lookup {x : Nat} {k : Bool → M α}
    (hlive : ∀ w', Base strict i w w' → x ∈ w'.live → w'.created x → w'.idle x = false →
      (spec env G strict).Safe i (k true) 0 Q w')
    (hgone : ∀ w', Base strict i w w' → x ∉ w'.live → (spec env G strict).Safe i (k false) 0 Q w') :
    (spec env G strict).Safe i (.op (.lookup x) k) 0 Q w := by
  refine safe_op trivial fun w₁ b w₂ _ _ ht hb _ hw₂ => ?_
  obtain ⟨rfl, rfl⟩ := lookup_exec hb
  by_cases hx : x ∈ w₂.live
  · simpa [hx] using hlive w₂ hw₂.1 hx (ht.live x hx) (ht.used x (ht.live x hx))
  · simpa [hx] using hgone w₂ hw₂.1 hx

theorem guardHeaderBlock_safe {k : M (Except GoErr Unit)}
    {Q : Except GoErr Unit → PUnit → World → Prop} (hQ : ∀ r w', Base strict i w w' → Q r 0 w')
    (hk : ∀ w', Base strict i w w' → w'.handler.pendingStreamID = 0 →
      (spec env G strict).Safe i k 0 Q w') :
    (spec env G strict).Safe i (guardHeaderBlock k) 0 Q w := by
  simp only [guardHeaderBlock, Prog.bind_eq, Prog.lift_bind, Prog.pure_eq]
  refine safe_op trivial fun w₁ h w₂ _ _ _ hb _ hw₂ => ?_
  cases List.mem_singleton.1 hb
  split
  · exact fun w₂ hw => hQ _ w₂ (hw₂.1.trans hw.1)
  · exact hk w₁ hw₂.1 (by simpa using ‹¬w₁.handler.pendingStreamID ≠ 0›)

theorem onData_safe (x : Nat) (endStream : Bool) (length : Nat) (p : Bytes) :
    (spec env G strict).Safe i (onData x endStream length p) 0 (Since strict i w fun _ _ => True)
      w := by
  refine guardHeaderBlock_safe (fun _ _ hw => ⟨hw, trivial⟩) fun w₁ hw₁ _ => ?_
  simp only [Prog.bind_eq, Prog.lift_bind, Prog.pure_eq]
  split
  · exact safe_ret hw₁ fun _ _ => trivial
  refine safe_op trivial fun _ idle w₂ _ _ _ _ _ hw₂ => ?_
  have hw₂ := hw₁.trans hw₂.1
  split
  · exact safe_ret hw₂ fun _ _ => trivial
  refine safe_lookup (fun w₃ hw₃ _ hc _ => ?_) fun w₃ hw₃ _ => ?_
  · have hw₃ := hw₂.trans hw₃
    refine safe_since (onDataReceived_safe _ length) fun r w₄ hw₄ _ => ?_
    cases r with
    | error e => exact safe_ret (hw₃.trans hw₄) fun _ _ => trivial
    | ok _ => exact safe_earlier (hw₃.trans hw₄) (onStreamData_safe (hw₄.created x hc) ..)
  · have hw₃ := hw₂.trans hw₃
    refine safe_since (onDataReceived_safe _ length) fun r w₄ hw₄ _ => ?_
    cases r <;> exact safe_ret (hw₃.trans hw₄) fun _ _ => trivial

theorem status431_fits : fieldsFitFrame status431Fields 16379 = true := by decide

theorem respondFieldsTooLarge_safe {x : Nat} (h : Reading strict i w) (hx : w.created x)
    (hidle : w.idle x = false) (hclosing : strict = true → x ∈ w.live → w.closing x) :
    (spec env G strict).Safe i (respondFieldsTooLarge env x) 0 (Reads strict i w fun _ _ => True)
      w := by
  refine safe_since (sendHeaders_safe hx ..) fun _ w₁ hw₁ hanswer => ?_
  have h₁ := h.base hw₁
  have hanswer := hanswer rfl status431_fits
  have hdone (b : Bool) (w₂ : World) (hm : Turn strict w w₂) (h₂ : Reading strict i w₂) :
      (spec env G strict).Safe i (if b then .op (.cancelStream x) .ret else .ret ()) 0
        (Reads strict i w fun _ _ => True) w₂ := by
    cases b with
    | false => exact reads_ret hm h₂ fun _ _ => trivial
    | true =>
      refine safe_op trivial fun _ _ w₃ _ _ _ _ _ hw₃ => ?_
      exact reads_ret (hm.trans (h₂.turn hw₃.1)) (h₂.base hw₃.1) fun _ _ => trivial
  cases hs : strict with
  | false =>
    subst hs
    have hx : Gone false w₁ x := by
      obtain hw | hup := hanswer
      · exact .inl (.inr ⟨rfl, hw⟩)
      · exact .inr (.inr ⟨rfl, hup⟩)
    exact safe_releaseAnswered h₁ hx fun b w₂ hm h₂ => hdone b w₂ ((h.turn hw₁).trans hm) h₂
  | true =>
    subst hs
    refine safe_release (fun w₂ hw₂ hl => .inl ((hw₂.state x).terminal ?_)) fun b w₂ hw₂ _ =>
      hdone b w₂ (h.turn (hw₁.trans hw₂.1)) (h₁.base hw₂.1)
    have hl : x ∈ w.live := by
      by_contra hnot
      exact (hw₁.trans hw₂).gone x hidle hnot hl
    obtain hreset | ⟨hended, hclosed, hdown⟩ := (h.turn hw₁).closing rfl (hclosing rfl hl)
    · simp [StreamState.terminal, hreset]
    · have hwr : (w₁.state x).writable = false := by simpa [hclosed, hdown] using hanswer
      rw [StreamState.writable_eq_false] at hwr
      simpa [StreamState.terminal, hended] using hwr

theorem emitFields_safe {x : Nat} {fields : List HeaderField} (h : Reading strict i w)
    (hx : w.created x) (hidle : w.idle x = false)
    (hclosing : strict = true → fieldSectionSize fields > env.cfg.maxHeaderBytes → x ∈ w.live →
      w.closing x) (endStream isTrailer : Bool) :
    (spec env G strict).Safe i (emitFields env x fields endStream isTrailer) 0
      (Reads strict i w fun _ _ => True) w := by
  simp only [emitFields, Prog.bind_eq, Prog.lift_bind, Prog.pure_eq]
  split
  · rename_i hsize
    refine safe_reads (respondFieldsTooLarge_safe h hx hidle fun hs => hclosing hs hsize) ?_
    exact fun _ w₁ hm h₁ _ => reads_ret hm h₁ fun _ _ => trivial
  refine safe_op trivial fun _ st w₁ _ _ _ _ _ hw₁ => ?_
  have h₁ := h.base hw₁.1
  have hrst (code) : (spec env G strict).Safe i ((writeServerRSTStream x code).bind fun _ =>
      .ret (.ok () : Except GoErr Unit)) 0 (Reads strict i w fun _ _ => True) w₁ := by
    refine safe_since (writeServerRSTStream_safe (hw₁.1.created x hx) _) fun _ w₂ hw₂ _ => ?_
    exact reads_ret (h.turn (hw₁.1.trans hw₂)) (h₁.base hw₂) fun _ _ => trivial
  split
  · exact hrst _
  split
  · exact hrst _
  · refine reads_earlier (h.turn hw₁.1) (reads_of_since h₁ ?_)
    exact deliverEvent_safe (hw₁.1.created x hx) ..

theorem Base.decoded (hw : Base strict i w w') (hr : w.reader = some i) : w'.decoded = w.decoded := by
  have := hw.reader hr
  simp only [World.readerView, Prod.mk.injEq] at this
  exact this.2.2.2.1

theorem closesBlock {hd : Handler} (hp : hd.pendingStreamID = 0) (w₁ : World) (b : Unit) (w₂ : World)
    (_ : Base strict i w w₁) (_ : Inv strict w₁) (hb : (b, w₂) ∈ Op.exec env i w₁ (.storeHandler hd)) :
    w₂.handler.pendingStreamID ≠ 0 → w₂.handler.pendingStreamID % 2 = 1 := by
  cases List.mem_singleton.1 hb
  simp [hp]

theorem decodes {hb : Bytes} (w₁ : World) (r : Except String (List HeaderField)) (w₂ : World)
    (_ : Base strict i w w₁) (hinv : Inv strict w₁)
    (hr : (r, w₂) ∈ Op.exec env i w₁ (.decodeBlock hb)) :
    w₂.handler.pendingStreamID ≠ 0 → w₂.handler.pendingStreamID % 2 = 1 := by
  cases List.mem_singleton.1 hr
  exact hinv.pending

theorem emitHeaderBlock_safe {x : Nat} {hb : Bytes} (h : Reading strict i w) (hx : w.created x)
    (hidle : w.idle x = false)
    (hclosing : strict = true → tooLarge env (env.decode w.decoded hb) = true → x ∈ w.live →
      w.closing x) (endStream isTrailer : Bool) :
    (spec env G strict).Safe i (emitHeaderBlock env x hb endStream isTrailer) 0
      (Reads strict i w fun _ _ => True) w := by
  simp only [emitHeaderBlock, Prog.bind_eq, Prog.lift_bind, Prog.pure_eq]
  refine safe_op trivial fun _ hd w₁ _ _ _ _ _ hw₁ => ?_
  have h₁ := h.base hw₁.1
  refine safe_handler rfl h₁ (closesBlock rfl) fun w₂ _ w₃ hw₂ hb₂ hm₃ h₃ => ?_
  have hm₃ := (h.turn hw₁.1).trans hm₃
  have hdec₃ : w₃.decoded = w.decoded := by
    cases List.mem_singleton.1 hb₂
    exact (hw₂.decoded h₁.reader).trans (hw₁.1.decoded h.reader)
  refine safe_handler rfl h₃ decodes fun w₄ r w₅ hw₄ hb₄ hm₅ h₅ => ?_
  have hm₅ := hm₃.trans hm₅
  have hr : r = env.decode w.decoded hb := by
    cases List.mem_singleton.1 hb₄
    rw [hw₄.decoded h₃.reader, hdec₃]
  cases r with
  | error msg => exact reads_ret hm₅ h₅ fun _ _ => trivial
  | ok fields =>
    refine reads_earlier hm₅ (emitFields_safe h₅ (hm₅.created x hx) (hm₅.idle x hidle) ?_ ..)
    intro hs hsize hl
    have hl : x ∈ w.live := by
      by_contra hnot
      exact hm₅.gone x hidle hnot hl
    exact hm₅.closing hs (hclosing hs (by simpa [← hr, tooLarge] using hsize) hl)

theorem discardHeaderBlock_safe (h : Reading strict i w) (hb : Bytes) :
    (spec env G strict).Safe i (discardHeaderBlock hb) 0 (Reads strict i w fun _ _ => True) w := by
  simp only [discardHeaderBlock, Prog.bind_eq, Prog.lift_bind, Prog.pure_eq]
  refine safe_op trivial fun _ hd w₁ _ _ _ _ _ hw₁ => ?_
  refine safe_handler rfl (h.base hw₁.1) (closesBlock rfl) fun w₂ _ w₃ _ _ hm₃ h₃ => ?_
  refine safe_handler rfl h₃ decodes fun w₄ r w₅ _ _ hm₅ h₅ => ?_
  have hm₅ := ((h.turn hw₁.1).trans hm₃).trans hm₅
  cases r <;> exact reads_ret hm₅ h₅ fun _ _ => trivial

theorem onStreamHeaders_safe {x : Nat} {endHeaders : Bool} {hb : Bytes} (h : Reading strict i w)
    (hx : w.created x) (hidle : w.idle x = false) (hodd : x % 2 = 1)
    (hclosing : strict = true → bigBlock env w endHeaders hb = true → x ∈ w.live → w.closing x)
    (endStream isNew refused : Bool) :
    (spec env G strict).Safe i (onStreamHeaders env x endStream endHeaders hb isNew refused) 0
      (Reads strict i w fun _ _ => True) w := by
  simp only [onStreamHeaders, Prog.bind_eq, Prog.lift_bind, Prog.pure_eq]
  cases endHeaders with
  | false =>
    simp only [Bool.not_false, if_true]
    split
    · rename_i hlong
      refine safe_reads (respondFieldsTooLarge_safe h hx hidle fun hs => hclosing hs ?_) ?_
      · simpa [bigBlock] using hlong
      · exact fun _ w₁ hm h₁ _ => reads_ret hm h₁ fun _ _ => trivial
    · refine safe_op trivial fun _ st w₁ _ _ _ _ _ hw₁ => ?_
      refine safe_handler rfl (h.base hw₁.1) (fun w₂ b w₃ _ _ hb => ?_) fun w₂ _ w₃ _ _ hm₃ h₃ => ?_
      · cases List.mem_singleton.1 hb
        exact fun _ => hodd
      · exact reads_ret ((h.turn hw₁.1).trans hm₃) h₃ fun _ _ => trivial
  | true =>
    simp only [Bool.not_true, Bool.false_eq_true, if_false]
    split
    · exact discardHeaderBlock_safe h hb
    have hemit (w₂) (hw₂ : Base strict i w w₂) (isTrailer) : (spec env G strict).Safe i
        (emitHeaderBlock env x hb endStream isTrailer) 0 (Reads strict i w fun _ _ => True) w₂ := by
      refine reads_earlier (h.turn hw₂) (emitHeaderBlock_safe (h.base hw₂) (hw₂.created x hx)
        (hw₂.idle x hidle) (fun hs hbig hl => ?_) ..)
      refine (h.turn hw₂).closing hs (hclosing hs ?_ (hw₂.live h.reader x hl hodd))
      simpa [bigBlock, hw₂.decoded h.reader] using hbig
    refine safe_op trivial fun _ st w₁ _ _ _ _ _ hw₁ => ?_
    split
    · exact safe_op trivial fun _ _ w₂ _ _ _ _ _ hw₂ => hemit w₂ (hw₁.1.trans hw₂.1) false
    · exact hemit w₁ hw₁.1 true

theorem admitClient_exec {x : Nat} {prio : Option Priority} {b : Bool} (ht : Table w)
    (hodd : x % 2 = 1) (hidle : w.idle x = true)
    (hb : (b, w') ∈ Op.exec env i w (.admitClient x prio)) :
    Mono w w' ∧ (b = true → x ∈ w'.live) ∧ ∀ y, y ≠ x → w'.created y → y ∉ w'.live →
      w.created y ∧ y ∉ w.live := by
  obtain ⟨-, -, hcreated⟩ := ht.admitClient hodd hidle hb
  have hx : w.str x = none := by
    by_contra hsome
    have := ht.used x (Option.isSome_iff_ne_none.2 hsome)
    simp [hidle] at this
  have hf := frame_of_exec hb
  have hidle' (y) (hy : w.idle y = false) : y ≠ x := by
    rintro rfl
    simp [hidle] at hy
  have hmono (hstr : ∀ y, y ≠ x → w'.str y = w.str y) (hmax : w'.maxClient = max w.maxClient x)
      (hpush : w'.nextPush = w.nextPush) (hlive : ∀ y ∈ w'.live, y ≠ x → y ∈ w.live) : Mono w w' :=
    { created := hcreated
      fresh := fun y hy => by
        by_cases hyx : y = x
        · exact .inr (hyx ▸ hidle)
        · exact .inl (by rwa [World.created, ← hstr y hyx])
      state := fun y => by
        by_cases hyx : y = x
        · rw [hyx, show w.state x = {} by simp [World.state, hx]]
          exact StreamState.grows_of_empty _
        · rw [World.state, World.state, hstr y hyx]
          exact .refl _
      closed := fun h => by rw [hf.closed (by simp), h]
      down := fun h => by rw [hf.down (by simp), h]
      idle := fun y hy => by
        unfold World.idle at hy ⊢
        split <;> simp_all
      gone := fun y hy hl hl' => hl (hlive y hl' (hidle' y hy)) }
  simp only [Op.exec, Op.underTable, World.admitClient] at hb
  split at hb
  · split at hb <;> cases List.mem_singleton.1 hb
    · refine ⟨hmono (fun y hy => ?_) rfl rfl fun _ hy _ => hy, by simp, fun y hy hc hl => ?_⟩
      · simp [World.setStr, hy]
      · exact ⟨by simpa [World.created, World.setStr, hy] using hc, hl⟩
    · refine ⟨hmono (fun y hy => ?_) rfl rfl fun y hy hyx => ?_, by simp, fun y hy hc hl => ?_⟩
      · simp [World.setStr, hy]
      · exact (List.mem_cons.1 hy).resolve_left hyx
      · refine ⟨by simpa [World.created, World.setStr, hy] using hc, fun hl' => hl ?_⟩
        exact List.mem_cons_of_mem _ hl'
  · cases hb

theorem mono_of_exec {o : Op β} {b : β} (hok : (tabled env G).opOk i w o)
    (hb : (b, w') ∈ o.exec env i w) : Mono w w' := by
  by_cases ho : Ordinary o
  · have hs : Steady false w w' := steady_of_ordinary (tabled_table hok) ho hb
    exact hs.toMono
  have hf := frame_of_exec hb
  cases o
  case readFrame | frameDone | stopReader | storeHandler | decodeBlock | unlockW =>
    exact mono_of_frame hf (by simp) (by simp [hf.closed (by simp)]) (by simp [hf.down (by simp)])
  case write f =>
    exact mono_of_frame hf (f.kind_notMem (by simp)) (by simp [hf.closed (f.kind_ne (by simp))])
      (by simp [hf.down (f.kind_ne (by simp))])
  case release => exact mono_release hb
  case admitClient x prio =>
    obtain ⟨h, -, -, hodd⟩ := tabled_held hok
    exact (admitClient_exec (tabled_table hok) hodd (tabled_asks hok) hb).1
  case drain =>
    simp only [Op.exec] at hb
    split at hb
    · obtain ⟨l, -, hl⟩ := List.mem_map.1 hb
      cases hl
      exact { Mono.refl w with gone := fun _ _ _ => by simp [World.drain] }
    · cases hb
  case close =>
    refine mono_of_frame hf (by simp) (fun hc => ?_) (by simp [hf.down (by simp)])
    simp [Op.exec, hc] at hb
    rw [hb.2, hc]
  case closeTransport =>
    refine mono_of_frame hf (by simp) (by simp [hf.closed (by simp)]) fun _ => ?_
    cases List.mem_singleton.1 hb
    rfl
  all_goals exact absurd trivial ho

theorem registerStream_safe {x : Nat} (hS : strict = true → Strict env G) (h : Reading strict i w)
    (hodd : x % 2 = 1) (prio : Option Priority) :
    (spec env G strict).Safe i (registerStream x prio) 0
      (Reads strict i w fun _ w' => w'.created x ∧ w'.idle x = false ∧
        w'.readerView = w.readerView ∧ (strict = true → ∀ f, w.inbound.getLast? = some f →
          oversized env w f = true → (w'.state x).reset = true)) w := by
  have hrefuse (w₃ : World) (hm : Turn strict w w₃) (hc : w₃.created x) (hidle : w₃.idle x = false)
      (hview : w₃.readerView = w.readerView)
      (hsettled : ∀ y, y ≠ x → w₃.created y → y ∉ w₃.live → Gone strict w₃ y) :
      (spec env G strict).Safe i ((writeServerRSTStream x .refusedStream).bind fun _ =>
        .op (.cancelStream x) fun _ => .ret false) 0
        (Reads strict i w fun _ w' => w'.created x ∧ w'.idle x = false ∧
          w'.readerView = w.readerView ∧ (strict = true → ∀ f, w.inbound.getLast? = some f →
            oversized env w f = true → (w'.state x).reset = true)) w₃ := by
    have hr : w₃.reader = some i := by
      simp only [World.readerView, Prod.mk.injEq] at hview
      rw [hview.1, h.reader]
    refine safe_since (writeServerRSTStream_safe hc _) fun _ w₄ hw₄ hreset => ?_
    refine safe_op trivial fun _ _ w₅ _ _ _ _ _ hw₅ => ?_
    have hreset := (hw₅.1.state x).reset hreset
    have hw₅ := hw₄.trans hw₅.1
    have h₅ : Reading strict i w₅ := by
      refine ⟨hw₅.reading hr, fun y hy hl => ?_⟩
      obtain ⟨hy', hl'⟩ | ht | hd := hw₅.calm hr y hy hl
      · by_cases hyx : y = x
        · exact .inl (.inl (by simp [StreamState.terminal, hyx, hreset]))
        · exact (hsettled y hyx hy' hl').mono hw₅.toMono
      · exact .inl (.inl ht)
      · exact .inr (.inl hd)
    refine reads_ret (hm.trans { hw₅.toMono with up := fun hs => hw₅.up hs hr }) h₅ fun w₆ hw₆ => ?_
    have hw₆' := hw₅.trans hw₆
    exact ⟨hw₆'.created x hc, hw₆'.idle x hidle, (hw₆'.reader hr).trans hview,
      fun _ _ _ _ => (hw₆.state x).reset hreset⟩
  simp only [registerStream, Prog.bind_eq, Prog.lift_bind, Prog.pure_eq]
  refine safe_reader h.reader (fun _ => trivial) fun w₁ b w₂ hw₁ hinv hok hb => ?_
  have h₁ := h.base hw₁
  have ht := tabled_table hok
  have hidle : w₁.idle x = true := tabled_asks hok
  obtain ⟨hm, hlive, hother⟩ := admitClient_exec ht hodd hidle hb
  obtain ⟨ht₂, hc, -⟩ := ht.admitClient hodd hidle hb
  have hf := frame_of_exec hb
  have hview := (hf.reader (by simp)).trans (hw₁.reader h.reader)
  have hview' := hf.reader (by simp)
  simp only [World.readerView, Prod.mk.injEq] at hview'
  refine ⟨hm, hf.wmu (by simp), hf.wire (by simp), hview'.1.trans h₁.reader, ?_, ?_⟩
  · rw [hview'.2.2.1]
    exact hinv.pending
  have hm₂ : Turn strict w w₂ :=
    (h.turn hw₁).trans { hm with up := fun _ => ⟨hf.closed (by simp), hf.down (by simp)⟩ }
  have hsettled (y) (hy : y ≠ x) (hyc : w₂.created y) (hl : y ∉ w₂.live) : Gone strict w₂ y := by
    obtain ⟨hyc, hl⟩ := hother y hy hyc hl
    exact (h₁.settled y hyc hl).mono hm
  cases b with
  | false => exact hrefuse w₂ hm₂ hc (ht₂.used x hc) hview hsettled
  | true =>
    have h₂ : Reading strict i w₂ := by
      refine ⟨hview'.1.trans h₁.reader, fun y hyc hl => hsettled y ?_ hyc hl⟩
      rintro rfl
      exact hl (hlive rfl)
    refine safe_allowed trivial fun w₃ r w₄ hw₃ _ hok hb hw₄ => ?_
    have hw₄ := hw₃.1.trans hw₄.1
    have hm₄ := hm₂.trans (h₂.turn hw₄)
    have h₄ := h₂.base hw₄
    have hview₄ := (hw₄.reader h₂.reader).trans hview
    have hidle₄ := hw₄.idle x (ht₂.used x hc)
    cases r with
    | false => exact hrefuse w₄ hm₄ (hw₄.created x hc) hidle₄ hview₄ fun y _ => h₄.settled y
    | true =>
      refine reads_ret hm₄ h₄ fun w₅ hw₅ => ⟨hw₅.created x (hw₄.created x hc), hw₅.idle x hidle₄,
        (hw₅.reader h₄.reader).trans hview₄, fun hs f hlast hover => ?_⟩
      have hview₃ := (hw₃.1.reader h₂.reader).trans hview
      have hfull := (hS hs).tryEnqueue (f := f) (tabled_guard hok) (by
        simp only [World.readerView, Prod.mk.injEq] at hview₃
        rw [hview₃.2.2.2.2, hlast]) (by rw [oversized_congr hview₃, hover])
      simp only [Op.exec] at hb
      split at hb
      · omega
      · cases List.mem_singleton.1 hb

structure Begun (strict : Bool) (env : Env) (i : Nat) (f : Inbound) (w : World) : Prop
    extends Reading strict i w where
  frame : w.inbound.getLast? = some f
  closing : strict = true → oversized env w f = true → f.streamID ∈ w.live → w.closing f.streamID

theorem onHeaders_safe {x : Nat} {endStream endHeaders : Bool} {hb : Bytes}
    {prio : Option Priority} (hS : strict = true → Strict env G)
    (h : Begun strict env i (.headers x endStream endHeaders hb prio) w) :
    (spec env G strict).Safe i (onHeaders env x endStream endHeaders hb prio) 0
      (Reads strict i w fun _ _ => True) w := by
  have hbegun := h
  have h := h.toReading
  refine guardHeaderBlock_safe (fun _ _ hw => ⟨h.turn hw, h.base hw, trivial⟩) fun w₁ hw₁ hp => ?_
  simp only [Prog.bind_eq, Prog.lift_bind, Prog.pure_eq]
  split
  · exact reads_ret (h.turn hw₁) (h.base hw₁) fun _ _ => trivial
  have hodd : x % 2 = 1 := by omega
  have hover {w'} (hw : w'.readerView = w.readerView) (hbig : bigBlock env w' endHeaders hb = true) :
      oversized env w (.headers x endStream endHeaders hb prio) = true := by
    have hview := hw₁.reader h.reader
    simp only [World.readerView, Prod.mk.injEq] at hw hview
    simp only [bigBlock, hw] at hbig
    simpa [oversized, bigBlock, ← hview, hp, hodd] using hbig
  refine safe_lookup (fun w₂ hw₂ hl hc hidle => ?_) fun w₂ hw₂ hl => ?_
  · have hw₂ := hw₁.trans hw₂
    refine reads_earlier (h.turn hw₂) (onStreamHeaders_safe (h.base hw₂) hc hidle hodd ?_ ..)
    intro hs hbig _
    refine (h.turn hw₂).closing hs (hbegun.closing hs (hover (hw₂.reader h.reader) hbig) ?_)
    exact hw₂.live h.reader x hl hodd
  · have hw₂ := hw₁.trans hw₂
    refine safe_op trivial fun _ r w₃ _ _ _ _ _ hw₃ => ?_
    have hw₃ := hw₂.trans hw₃.1
    cases r with
    | error e => exact reads_ret (h.turn hw₃) (h.base hw₃) fun _ _ => trivial
    | ok _ =>
      refine safe_reads (registerStream_safe hS (h.base hw₃) hodd prio) fun ok w₄ hm₄ h₄ hnew => ?_
      obtain ⟨hc, hidle, hview, hreset⟩ := hnew
      have hview₃ := hw₃.reader h.reader
      refine reads_earlier ((h.turn hw₃).trans hm₄) (onStreamHeaders_safe h₄ hc hidle hodd ?_ ..)
      intro hs hbig _
      refine .inl (hreset hs (.headers x endStream endHeaders hb prio) ?_ ?_)
      · have hview₃ := hview₃
        simp only [World.readerView, Prod.mk.injEq] at hview₃
        rw [hview₃.2.2.2.2]
        exact hbegun.frame
      · rw [oversized_congr hview₃]
        exact hover (hview.trans hview₃) hbig

theorem onBlockComplete_safe {x : Nat} {hd : Handler} {buf : Bytes} (h : Reading strict i w)
    (hodd : x % 2 = 1) (hclosing : strict = true → hd.pendingDiscard = false →
      tooLarge env (env.decode w.decoded buf) = true → x ∈ w.live → w.closing x) :
    (spec env G strict).Safe i (onBlockComplete env x hd buf) 0
      (Reads strict i w fun _ _ => True) w := by
  simp only [onBlockComplete, Prog.bind_eq, Prog.lift_bind]
  split
  · exact discardHeaderBlock_safe h buf
  rename_i hkeep
  have hemit (w₁ w₂) (hw₁ : Base strict i w w₁) (hw₂ : Base strict i w₁ w₂) (hl : x ∈ w₁.live)
      (hc : w₁.created x) (hidle : w₁.idle x = false) (isTrailer) : (spec env G strict).Safe i
      (emitHeaderBlock env x buf hd.pendingEndStream isTrailer) 0
        (Reads strict i w fun _ _ => True) w₂ := by
    have hw₂' := hw₁.trans hw₂
    refine reads_earlier (h.turn hw₂') (emitHeaderBlock_safe (h.base hw₂') (hw₂.created x hc)
      (hw₂.idle x hidle) (fun hs hbig _ => ?_) ..)
    rw [hw₂'.decoded h.reader] at hbig
    exact (h.turn hw₂').closing hs
      (hclosing hs (by simpa using hkeep) hbig (hw₁.live h.reader x hl hodd))
  refine safe_lookup (fun w₁ hw₁ hl hc hidle => ?_) fun w₁ hw₁ _ => ?_
  · simp only [Bool.not_true, Bool.false_eq_true, if_false]
    split
    · exact safe_op trivial fun _ _ w₂ _ _ _ _ _ hw₂ => hemit w₁ w₂ hw₁ hw₂.1 hl hc hidle false
    · exact hemit w₁ w₁ hw₁ (.refl ..) hl hc hidle true
  · exact reads_earlier (h.turn hw₁) (discardHeaderBlock_safe (h.base hw₁) buf)

theorem onContinuation_safe {x : Nat} {endHeaders : Bool} {hb : Bytes}
    (h : Begun strict env i (.continuation x endHeaders hb) w) :
    (spec env G strict).Safe i (onContinuation env x endHeaders hb) 0
      (Reads strict i w fun _ _ => True) w := by
  have hbegun := h
  have h := h.toReading
  simp only [onContinuation, Prog.bind_eq, Prog.lift_bind, Prog.pure_eq]
  refine safe_op trivial fun w₁ hd _ _ hinv _ hload _ hw₁ => ?_
  cases List.mem_singleton.1 hload
  have hw₁ := hw₁.1
  have h₁ := h.base hw₁
  have hview := hw₁.reader h.reader
  simp only [World.readerView, Prod.mk.injEq] at hview
  split
  · exact reads_ret (h.turn hw₁) h₁ fun _ _ => trivial
  rename_i hopen
  split
  · exact reads_ret (h.turn hw₁) h₁ fun _ _ => trivial
  rename_i hx
  have hx : x = w₁.handler.pendingStreamID := by simpa using hx
  have hodd : x % 2 = 1 := hx ▸ hinv.pending hopen
  have hx0 : x ≠ 0 := by omega
  split
  · rename_i hlong
    refine safe_lookup (fun w₂ hw₂ hl hc hidle => ?_) fun w₂ hw₂ _ => ?_
    · have hw₂ := hw₁.trans hw₂
      refine safe_reads (respondFieldsTooLarge_safe (h.base hw₂) hc hidle fun hs _ => ?_) ?_
      · refine (h.turn hw₂).closing hs (hbegun.closing hs ?_ (hw₂.live h.reader x hl hodd))
        simp [oversized, ← hview, hx0, ← hx, hlong]
      · exact fun _ w₃ hm h₃ _ => reads_ret ((h.turn hw₂).trans hm) h₃ fun _ _ => trivial
    · have hw₂ := hw₁.trans hw₂
      exact reads_ret (h.turn hw₂) (h.base hw₂) fun _ _ => trivial
  · refine safe_handler rfl h₁ (fun w₂ b w₃ _ _ hb => ?_) fun w₂ _ w₃ hw₂ hb₃ hm₃ h₃ => ?_
    · cases List.mem_singleton.1 hb
      exact fun _ => hinv.pending hopen
    have hm₃ := (h.turn hw₁).trans hm₃
    split
    · exact reads_ret hm₃ h₃ fun _ _ => trivial
    rename_i hend
    have hw₂ := hw₁.trans hw₂
    cases List.mem_singleton.1 hb₃
    refine reads_earlier hm₃ (onBlockComplete_safe h₃ hodd fun hs hkeep hbig hl => ?_)
    refine hm₃.closing hs (hbegun.closing hs ?_ (hw₂.live h.reader x hl hodd))
    have hdec := hw₂.decoded h.reader
    simp only [hdec] at hbig
    simp_all [oversized]

theorem onRSTStream_safe (x : Nat) (code : ErrCode) :
    (spec env G strict).Safe i (onRSTStream env x code) 0 (Since strict i w fun _ _ => True) w := by
  have hrapid (rapid w₁) (hw₁ : Base strict i w w₁) : (spec env G strict).Safe i
      (onClientRSTStream env rapid) 0 (Since strict i w fun _ _ => True) w₁ :=
    safe_within ((onClientRSTStream_uses ..).within (by decide)) fun _ _ hw => ⟨hw₁.trans hw.1, trivial⟩
  refine guardHeaderBlock_safe (fun _ _ hw => ⟨hw, trivial⟩) fun w₁ hw₁ _ => ?_
  simp only [markRemoteEndReset, Prog.bind_eq, Prog.lift_bind, Prog.pure_eq]
  refine safe_op trivial fun _ idle w₂ _ _ _ _ _ hw₂ => ?_
  have hw₂ := hw₁.trans hw₂.1
  split
  · exact safe_ret hw₂ fun _ _ => trivial
  refine safe_lookup (fun w₃ hw₃ _ hc hidle => ?_) fun w₃ hw₃ _ => hrapid _ _ (hw₂.trans hw₃)
  have hw₃ := hw₂.trans hw₃
  refine safe_op trivial fun w₄ before w₅ hw₄ _ _ hb _ hw₅ => ?_
  have hst := (advance_exec hb (hw₄.1.created x hc)).2
  have hterm : (w₅.state x).terminal = true := by
    rw [hst]
    simp [StreamState.terminal, StreamState.union]
  dsimp only [Prog.ret_bind]
  refine safe_since (push_safe (hw₅.1.created x hc) _) fun _ w₆ hw₆ _ => ?_
  have hw₆' := (hw₃.trans hw₅.1).trans hw₆
  refine markStreamDone_safe ((hw₅.1.trans hw₆).idle x hidle) ((hw₆.state x).terminal hterm) ?_
  exact fun w₇ hw₇ _ => hrapid _ _ (hw₆'.trans hw₇.1)

theorem onWindowUpdate_safe (x increment : Nat) :
    (spec env G strict).Safe i (onWindowUpdate x increment) 0 (Since strict i w fun _ _ => True)
      w := by
  simp only [onWindowUpdate, Prog.bind_eq, Prog.lift_bind, Prog.pure_eq]
  split
  · exact safe_within (by simp [onConnWindowUpdate]) fun _ _ hw => ⟨hw.1, trivial⟩
  refine safe_op trivial fun _ idle w₁ _ _ _ _ _ hw₁ => ?_
  split
  · exact safe_ret hw₁.1 fun _ _ => trivial
  refine safe_lookup (fun w₂ hw₂ _ hc _ => ?_) fun w₂ hw₂ _ => ?_
  · have hw₂ := hw₁.1.trans hw₂
    refine safe_op trivial fun _ ok w₃ _ _ _ _ _ hw₃ => ?_
    have hc₃ := hw₃.1.created x hc
    have hw₃ := hw₂.trans hw₃.1
    split
    · exact safe_within (by simp) fun _ _ hw => ⟨hw₃.trans hw.1, trivial⟩
    · refine safe_op trivial fun _ _ w₄ _ _ _ _ _ hw₄ => ?_
      have hc₄ := hw₄.1.created x hc₃
      refine safe_since (push_safe hc₄ _) fun _ w₅ hw₅ _ => ?_
      refine safe_since (writeServerRSTStream_safe (hw₅.created x hc₄) _) fun _ w₆ hw₆ _ => ?_
      exact safe_ret (((hw₃.trans hw₄.1).trans hw₅).trans hw₆) fun _ _ => trivial
  · exact safe_ret (hw₁.1.trans hw₂) fun _ _ => trivial

theorem onSettings_safe (ack : Bool) (params : SettingsParams) :
    (spec env G strict).Safe i (onSettings ack params) 0 (Since strict i w fun _ _ => True) w := by
  refine guardHeaderBlock_safe (fun _ _ hw => ⟨hw, trivial⟩) fun w₁ hw₁ _ => ?_
  split
  · exact safe_ret hw₁ fun _ _ => trivial
  refine safe_since (applyPeerSettings_safe params) fun r w₂ hw₂ _ => ?_
  cases r with
  | error e => exact safe_ret (hw₁.trans hw₂) fun _ _ => trivial
  | ok _ => exact safe_earlier (hw₁.trans hw₂) (writeUnlessClosed_safe rfl)

theorem recorderSettings_safe (ack : Bool) (params : SettingsParams) :
    (spec env G strict).Safe i (recorderSettings ack params) 0 (Since strict i w fun _ _ => True)
      w := by
  simp only [recorderSettings, Prog.bind_eq, Prog.lift_bind, Prog.pure_eq]
  refine safe_op trivial fun _ r w₁ _ _ _ _ _ hw₁ => ?_
  split
  · exact safe_within (by simp) fun _ _ hw => ⟨hw₁.1.trans hw.1, trivial⟩
  · refine safe_op trivial fun _ _ w₂ _ _ _ _ _ hw₂ => ?_
    have hw₂ := hw₁.1.trans hw₂.1
    refine safe_since (applyPeerSettings_safe _) fun r w₃ hw₃ _ => ?_
    have hw₃ := hw₂.trans hw₃
    cases r with
    | error e => exact safe_ret hw₃ fun _ _ => trivial
    | ok _ =>
      refine safe_op rfl fun _ _ w₄ _ _ _ _ _ hw₄ => ?_
      exact safe_ret (hw₃.trans hw₄.1) fun _ _ => trivial

theorem dispatch_safe {f : Inbound} (hS : strict = true → Strict env G)
    (h : Begun strict env i f w) : (spec env G strict).Safe i (dispatch env f) 0
      (Reads strict i w fun _ _ => True) w := by
  cases f with
  | headers => exact onHeaders_safe hS h
  | continuation => exact onContinuation_safe h
  | data => exact reads_of_since h.toReading (onData_safe ..)
  | rstStream => exact reads_of_since h.toReading (onRSTStream_safe ..)
  | settings => exact reads_of_since h.toReading (onSettings_safe ..)
  | ping ack payload =>
    refine reads_of_since h.toReading ?_
    refine guardHeaderBlock_safe (fun _ _ hw => ⟨hw, trivial⟩) fun w₁ hw₁ _ => ?_
    split
    · exact safe_ret hw₁ fun _ _ => trivial
    · exact safe_earlier hw₁ (writeUnlessClosed_safe rfl)
  | windowUpdate x increment =>
    refine reads_of_since h.toReading ?_
    refine guardHeaderBlock_safe (fun _ _ hw => ⟨hw, trivial⟩) fun w₁ hw₁ _ => ?_
    exact safe_earlier hw₁ (onWindowUpdate_safe x increment)
  | _ =>
    refine reads_of_since h.toReading (safe_within ?_ fun _ _ hw => ⟨hw.1, trivial⟩)
    simp [dispatch, guardHeaderBlock]

end Lifecycle

end PoseidonServer.Conn
