import PoseidonServer.Conn.Lifecycle.Spec

/-! The methods of a stream keep to the life of a stream. -/

namespace PoseidonServer.Conn

open Concurrent

namespace Lifecycle

variable {strict : Bool} {env : Env} {G : Guard Op World Call} {i : Nat} {w w' : World}
  {Q : α → PUnit → World → Prop}

theorem advance_exec {x : Nat} {delta before : StreamState}
    (hb : (before, w') ∈ Op.exec env i w (.advance x delta)) (hx : w.created x) :
    before = w.state x ∧ w'.state x = before.union delta := by
  cases List.mem_singleton.1 hb
  refine ⟨rfl, ?_⟩
  rw [state_advance, if_pos ⟨rfl, hx⟩]

theorem markStreamDone_safe {x : Nat} {k : Unit → M α} (hidle : w.idle x = false)
    (hx : (w.state x).terminal = true)
    (hk : ∀ w', (spec env G strict).rely i w w' → x ∉ w'.live →
      (spec env G strict).Safe i (k ()) 0 Q w') :
    (spec env G strict).Safe i ((markStreamDone x).bind k) 0 Q w := by
  refine safe_release (fun _ hw _ => .inl ((hw.state x).terminal hx)) fun b w₁ hw hlive => ?_
  cases b with
  | false => exact hk w₁ hw hlive
  | true =>
    refine safe_op trivial fun _ _ w₂ _ _ _ _ _ hw' => ?_
    refine hk w₂ ((spec env G strict).rely_trans hw hw') ?_
    exact hw'.1.gone x (hw.1.idle x hidle) hlive

theorem section_safe {p : M β} {k : β → M α} (hp : p.All fun o => Ordinary o)
    (hk : ∀ b w', Base strict i w w' → (spec env G strict).Safe i (k b) 0 Q w') :
    (spec env G strict).Safe i
      (.op .lockW fun _ => p.bind fun b => .op .unlockW fun _ => k b) 0 Q w := by
  refine safe_lockW fun w₁ hw hl => Spec.Safe.bind (safe_all hp fun b w₂ hw' => ?_)
  exact safe_unlockW (hl.rely hw') fun w₃ hw'' => hk b w₃ ((hw.trans hw'.1).trans hw'')

theorem writeLocked_safe {f : Outbound} (hf : f.plain = true) :
    (spec env G strict).Safe i (writeLocked f) 0 (Since strict i w fun _ _ => True) w :=
  section_safe (p := .lift (.write f)) (by simpa using hf) fun _ _ hw =>
    safe_ret hw fun _ _ => trivial

theorem writeUnlessClosed_safe {f : Outbound} (hf : f.plain = true) :
    (spec env G strict).Safe i (writeUnlessClosed f) 0 (Since strict i w fun _ _ => True) w := by
  refine safe_op trivial fun _ closed w₁ _ _ _ _ _ hw => ?_
  dsimp only [Prog.ret_bind]
  split
  · exact safe_ret hw.1 fun _ _ => trivial
  · exact safe_earlier hw.1 (writeLocked_safe hf)

theorem writeRST_safe {x : Nat} {code : ErrCode} {r : Bool → Except GoErr Unit}
    (hidle : w.idle x = false) (hx : (w.state x).terminal = true) :
    (spec env G strict).Safe i (.op .lockW fun _ => .op (.write (.rstStream x code)) fun ok =>
      (markStreamDone x).bind fun _ => .op .unlockW fun _ => .ret (r ok)) 0
      (Since strict i w fun _ _ => True) w := by
  refine safe_lockW fun w₁ hw₁ hl => ?_
  have hterm₁ := (hw₁.state x).terminal hx
  refine safe_writeRST hl (hw₁.idle x hidle) (fun _ => .inl (.inl hterm₁)) fun ok w₂ hw₂ hl => ?_
  have hw₂' := hw₁.trans hw₂
  refine markStreamDone_safe (hw₂'.idle x hidle) ((hw₂.state x).terminal hterm₁) ?_
  intro w₃ hw₃ hlive
  have hl : Locked i w₃ := by
    refine ⟨(hl.rely hw₃).1, fun y hy => ?_⟩
    obtain ⟨hyidle, hylive⟩ := (hl.rely hw₃).2 y hy
    exact ⟨hyidle, fun h => hlive (hylive h ▸ h)⟩
  refine safe_unlockW hl fun w₄ hw₄ => ?_
  exact safe_ret ((hw₂'.trans hw₃.1).trans hw₄) fun _ _ => trivial

theorem writeServerRSTStream_safe {x : Nat} (hx : w.created x) (code : ErrCode) :
    (spec env G strict).Safe i (writeServerRSTStream x code) 0
      (Since strict i w fun _ w' => (w'.state x).reset = true) w := by
  simp only [writeServerRSTStream, Prog.bind_eq, Prog.lift_bind, Prog.pure_eq]
  refine safe_op trivial fun w₁ before w₂ hw _ ht hb hw' hw₂ => ?_
  have hc₁ := hw.1.created x hx
  have hreset : (w₂.state x).reset = true := by
    rw [(advance_exec hb hc₁).2]
    simp [StreamState.union]
  have hidle := hw'.1.idle x (ht.used x hc₁)
  have hterm : (w₂.state x).terminal = true := by simp [StreamState.terminal, hreset]
  refine safe_op trivial fun _ closed w₃ _ _ _ _ _ hw₃ => ?_
  have hidle₃ := hw₃.1.idle x hidle
  have hterm₃ := (hw₃.1.state x).terminal hterm
  split
  · refine markStreamDone_safe hidle₃ hterm₃ fun w₄ hw₄ _ => ?_
    have hw₄ := hw₃.1.trans hw₄.1
    exact safe_ret (hw₂.1.trans hw₄) fun w₅ hw₅ => ((hw₄.trans hw₅).state x).reset hreset
  · refine safe_earlier (hw₂.1.trans hw₃.1) ((writeRST_safe hidle₃ hterm₃).mono ?_)
    exact fun _ _ w₄ hw₄ => ⟨hw₄.1, ((hw₃.1.trans hw₄.1).state x).reset hreset⟩

theorem notReset_of_writable {x : Nat} (hinv : Inv strict w) (hx : w.created x)
    (hwr : (w.state x).writable = true) : ¬w.rstSent x := fun h => by
  simp [((hinv.rst x h).2 hx).writable] at hwr

theorem fieldsFitFrame_mono {fields : List HeaderField} {m n : Int} (hmn : m ≤ n)
    (h : fieldsFitFrame fields m = true) : fieldsFitFrame fields n = true := by
  unfold fieldsFitFrame at h ⊢
  generalize (0 : Int) = total at h ⊢
  induction fields generalizing total with
  | nil => rfl
  | cons f fs ih =>
    simp only [fieldsFitFrame.go] at h ⊢
    split at h
    · cases h
    · rw [if_neg (by omega)]
      exact ih _ h

theorem maxFrameSize_le (env : Env) : 16384 ≤ env.cfg.advertisedSettings.maxFrameSize := by
  simp only [Env.cfg, ServerConnOptions.defaulted, AdvertisedSettings.defaulted]
  split
  · exact le_rfl
  split <;> omega

theorem maxWritableFrame_safe {k : Nat → M α}
    (hk : ∀ n w', (spec env G strict).rely i w w' → 16384 ≤ n →
      (spec env G strict).Safe i (k n) 0 Q w') :
    (spec env G strict).Safe i ((maxWritableFrame env).bind k) 0 Q w := by
  refine safe_op trivial fun w₁ ps w₂ _ hinv _ hb _ hw => ?_
  cases List.mem_singleton.1 hb
  refine hk _ w₁ hw (le_min ?_ (maxFrameSize_le env))
  exact hinv.frameSize

def Answered (x : Nat) (fields : List HeaderField) (r : Except GoErr Unit) (w : World) : Prop :=
  ∀ e, r = .error e → fieldsFitFrame fields 16379 = true →
    (w.state x).writable = false ∨ w.closed = true ∨ w.down = true

theorem Answered.mono {x : Nat} {fields : List HeaderField} {r : Except GoErr Unit}
    (h : Answered x fields r w) (hw : Mono w w') : Answered x fields r w' :=
  fun e he hfit => (h e he hfit).imp (hw.state x).writable (Or.imp hw.closed hw.down)

theorem writeHeadersLocked_safe {x : Nat} (h : Locked i w) (hx : w.created x)
    (fields : List HeaderField) (endStream : Bool) (prio : Option Priority) :
    (spec env G strict).Safe i (writeHeadersLocked env x fields endStream prio) 0
      (fun r _ w' => (spec env G strict).rely i w w' ∧ Answered x fields r w') w := by
  simp only [writeHeadersLocked, Prog.bind_eq, Prog.lift_bind, Prog.pure_eq]
  refine safe_op trivial fun w₁ st w₂ hw hinv _ hb _ _ => ?_
  cases List.mem_singleton.1 hb
  split
  · rename_i hst
    refine fun w₂ hw₂ => ⟨(spec env G strict).rely_trans hw hw₂, fun e _ _ => .inl ?_⟩
    exact (hw₂.1.state x).writable (by simpa using hst)
  rename_i hst
  have hrst := notReset_of_writable hinv (hw.1.created x hx) (by simpa using hst)
  have hl := h.rely hw
  refine maxWritableFrame_safe fun n w₂ hw₂ hn => ?_
  have hw₂' := (spec env G strict).rely_trans hw hw₂
  have hm : (16379 : Int) ≤ if prio.isSome then (n : Int) - 5 else n := by split <;> omega
  generalize (if prio.isSome then (n : Int) - 5 else n) = m at hm
  split
  · rename_i hfit
    refine fun w₃ hw₃ => ⟨(spec env G strict).rely_trans hw₂' hw₃, fun e _ hfit' => ?_⟩
    simp [fieldsFitFrame_mono hm hfit'] at hfit
  refine safe_op trivial fun _ _ w₃ _ _ _ _ _ hw₃ => ?_
  have hw₃ := (spec env G strict).rely_trans hw₂ hw₃
  refine safe_writeUse (hl.rely hw₃) (fun y hy => ?_) (fun _ => rfl) fun ok w₄ hw₄ hd => ?_
  · have hy : x = y := by simpa [Outbound.uses] using hy
    subst hy
    rw [(hw₃.2 hl.1).2 x]
    exact hrst
  · refine fun w₅ hw₅ => ⟨?_, fun e he _ => .inr (.inr (hw₅.1.down (hd ?_)))⟩
    · have hw₄ := (spec env G strict).rely_trans hw₃ hw₄
      exact (spec env G strict).rely_trans hw ((spec env G strict).rely_trans hw₄ hw₅)
    · cases ok with
      | true => cases he
      | false => rfl

theorem writeServerHeaders_safe {x : Nat} (hx : w.created x) (fields : List HeaderField)
    (endStream : Bool) (prio : Option Priority) :
    (spec env G strict).Safe i (writeServerHeaders env x fields endStream prio) 0
      (Since strict i w (Answered x fields)) w := by
  simp only [writeServerHeaders, Prog.bind_eq, Prog.lift_bind, Prog.pure_eq]
  refine safe_op trivial fun _ closed w₁ _ _ _ hb _ hw₁ => ?_
  split
  · cases List.mem_singleton.1 hb
    exact safe_ret hw₁.1 fun w₂ hw₂ e _ _ => .inr (.inl (hw₂.closed ‹_›))
  refine safe_op trivial fun _ stored w₂ _ _ _ _ _ hw₂ => ?_
  have hw₂ := hw₁.1.trans hw₂.1
  refine safe_lockW fun w₃ hw₃ hl => ?_
  have hw₃ := hw₂.trans hw₃
  refine Spec.Safe.bind ((writeHeadersLocked_safe hl (hw₃.created x hx) ..).mono ?_)
  rintro r _ w₄ ⟨hw₄, hr⟩
  refine safe_unlockW (hl.rely hw₄) fun w₅ hw₅ => ?_
  exact safe_ret ((hw₃.trans hw₄.1).trans hw₅) fun w₆ hw₆ => hr.mono (hw₅.trans hw₆).toMono

theorem endLocal_safe {x : Nat} (hx : w.created x) (endStream : Bool) :
    (spec env G strict).Safe i (endLocal x endStream) 0
      (Since strict i w fun _ w' => endStream = true → (w'.state x).sentEnded = true) w := by
  cases endStream with
  | false => exact safe_ret (.refl ..) fun _ _ h => by cases h
  | true =>
    simp only [endLocal, markLocalEnd, if_true, Prog.bind_eq, Prog.lift_bind, Prog.op_bind,
      Prog.pure_eq, Prog.ret_bind]
    refine safe_op trivial fun w₁ before w₂ hw _ ht hb hw' hw₂ => ?_
    have hc₁ := hw.1.created x hx
    have hst := (advance_exec hb hc₁).2
    have hend {w₃ : World} (h : Base strict i w₂ w₃) : (w₃.state x).sentEnded = true := by
      refine (h.state x).sentEnded ?_
      rw [hst]
      simp [StreamState.union]
    split
    · rename_i hended
      have hterm : (w₂.state x).terminal = true := by
        rw [hst]
        simp [StreamState.terminal, StreamState.union, hended]
      rw [← Prog.bind_ret (markStreamDone x)]
      refine markStreamDone_safe (hw'.1.idle x (ht.used x hc₁)) hterm fun w₃ hw₃ _ => ?_
      exact safe_ret (hw₂.1.trans hw₃.1) fun w₄ hw₄ _ => hend (hw₃.1.trans hw₄)
    · exact safe_ret hw₂.1 fun w₃ hw₃ _ => hend hw₃

theorem sendHeaders_safe {x : Nat} (hx : w.created x) (fields : List HeaderField)
    (endStream : Bool) (prio : Option Priority) :
    (spec env G strict).Safe i (sendHeaders env x fields endStream prio) 0
      (Since strict i w fun _ w' => endStream = true → fieldsFitFrame fields 16379 = true →
        (w'.state x).writable = false ∨ w'.closed = true ∨ w'.down = true) w := by
  simp only [sendHeaders, Prog.bind_eq, Prog.lift_bind, Prog.pure_eq]
  refine safe_op trivial fun w₁ st w₂ _ _ _ hb _ hw₂ => ?_
  split
  · cases List.mem_singleton.1 hb
    exact safe_ret hw₂.1 fun w₃ hw₃ _ _ =>
      .inl ((hw₃.state x).writable (by simpa using ‹(!(w₁.state x).writable) = true›))
  refine safe_since (writeServerHeaders_safe (hw₂.1.created x hx) ..) fun r w₃ hw₃ hr => ?_
  have hw₃ := hw₂.1.trans hw₃
  cases r with
  | error e => exact safe_ret hw₃ fun w₄ hw₄ _ hfit => hr.mono hw₄.toMono e rfl hfit
  | ok _ =>
    refine safe_op trivial fun _ _ w₄ _ _ _ _ _ hw₄ => ?_
    have hw₄ := hw₃.trans hw₄.1
    refine safe_since (endLocal_safe (hw₄.created x hx) endStream) fun _ w₅ hw₅ hend => ?_
    refine safe_ret (hw₄.trans hw₅) fun w₆ hw₆ hes _ => .inl ?_
    exact StreamState.writable_eq_false.2 (.inr ((hw₆.state x).sentEnded (hend hes)))

theorem writeChunk_safe {x : Nat} (hx : w.created x) (maxFrame : Nat) (endStream : Bool)
    (ctx : Ctx) (p : Bytes) :
    (spec env G strict).Safe i (writeChunk x maxFrame endStream ctx p) 0
      (Since strict i w fun _ _ => True) w := by
  simp only [writeChunk, Prog.bind_eq, Prog.lift_bind, Prog.pure_eq]
  split
  · exact safe_ret (.refl ..) fun _ _ => trivial
  refine Spec.Safe.bind (safe_within ((acquireSendCredits_uses ..).within (by decide)) fun r w₁ hw₁ => ?_)
  cases r with
  | error e => exact safe_ret hw₁.1 fun _ _ => trivial
  | ok n =>
    refine safe_lockW fun w₂ hw₂ hl => ?_
    have hw₂ := hw₁.1.trans hw₂
    refine safe_op trivial fun _ closed w₃ _ _ _ _ _ hw₃ => ?_
    have hl := hl.rely hw₃
    have hw₃ := hw₂.trans hw₃.1
    split
    · refine safe_unlockW hl fun w₄ hw₄ => safe_ret (hw₃.trans hw₄) fun _ _ => trivial
    refine safe_op trivial fun w₄ st w₅ hw₄ hinv _ hb _ _ => ?_
    cases List.mem_singleton.1 hb
    have hl := hl.rely hw₄
    have hw₄ := hw₃.trans hw₄.1
    split
    · refine safe_unlockW hl fun w₅ hw₅ => ?_
      have hw₅ := hw₄.trans hw₅
      refine Spec.Safe.bind (safe_within ((releaseSendCredits_uses ..).within (by decide)) ?_)
      exact fun _ w₆ hw₆ => safe_ret (hw₅.trans hw₆.1) fun _ _ => trivial
    · rename_i hst
      have hrst := notReset_of_writable hinv (hw₄.created x hx) (by simpa using hst)
      refine safe_writeUse hl (fun y hy => ?_) (fun _ => rfl) fun ok w₅ hw₅ _ => ?_
      · have hy : x = y := by simpa [Outbound.uses] using hy
        exact hy ▸ hrst
      · refine safe_unlockW (hl.rely hw₅) fun w₆ hw₆ => ?_
        have hw₆ := (hw₄.trans hw₅.1).trans hw₆
        split <;> exact safe_ret hw₆ fun _ _ => trivial

theorem writeEndLocked_safe {x : Nat} (h : Locked i w) (hx : w.created x) :
    (spec env G strict).Safe i (writeEndLocked x) 0
      (fun _ _ w' => (spec env G strict).rely i w w') w := by
  simp only [writeEndLocked, Prog.bind_eq, Prog.lift_bind, Prog.pure_eq]
  refine safe_op trivial fun _ closed w₁ _ _ _ _ _ hw₁ => ?_
  split
  · exact fun w₂ hw₂ => (spec env G strict).rely_trans hw₁ hw₂
  refine safe_op trivial fun w₂ st w₃ hw₂ hinv _ hb _ _ => ?_
  cases List.mem_singleton.1 hb
  have hw₂ := (spec env G strict).rely_trans hw₁ hw₂
  split
  · exact fun w₃ hw₃ => (spec env G strict).rely_trans hw₂ hw₃
  · rename_i hst
    have hrst := notReset_of_writable hinv (hw₂.1.created x hx) (by simpa using hst)
    refine safe_writeUse (h.rely hw₂) (fun y hy => ?_) (fun _ => rfl) fun ok w₃ hw₃ _ => ?_
    · have hy : x = y := by simpa [Outbound.uses] using hy
      exact hy ▸ hrst
    · exact fun w₄ hw₄ => (spec env G strict).rely_trans
        ((spec env G strict).rely_trans hw₂ hw₃) hw₄

theorem writeServerData_safe {x : Nat} (hx : w.created x) (p : Bytes) (endStream : Bool)
    (ctx : Ctx) : (spec env G strict).Safe i (writeServerData env x p endStream ctx) 0
      (Since strict i w fun _ _ => True) w := by
  simp only [writeServerData, Prog.bind_eq, Prog.lift_bind, Prog.pure_eq]
  refine safe_op trivial fun _ closed w₁ _ _ _ _ _ hw₁ => ?_
  split
  · exact safe_ret hw₁.1 fun _ _ => trivial
  refine maxWritableFrame_safe fun n w₂ hw₂ _ => ?_
  have hw₂ := hw₁.1.trans hw₂.1
  split
  · split
    · exact safe_ret hw₂ fun _ _ => trivial
    · refine safe_lockW fun w₃ hw₃ hl => ?_
      have hw₃ := hw₂.trans hw₃
      refine Spec.Safe.bind ((writeEndLocked_safe hl (hw₃.created x hx)).mono ?_)
      intro r _ w₄ hw₄
      refine safe_unlockW (hl.rely hw₄) fun w₅ hw₅ => ?_
      exact safe_ret ((hw₃.trans hw₄.1).trans hw₅) fun _ _ => trivial
  · refine Spec.safe_forever (fun _ _ w' => Base strict i w w') (fun w' hw' => hw₂.trans hw'.1) ?_
    intro p _ w₃ hw₃
    refine (writeChunk_safe (hw₃.created x hx) _ endStream ctx p).mono fun r _ w₄ hchunk => ?_
    have hw₄ := hw₃.trans hchunk.1
    cases r with
    | inl p' => exact hw₄
    | inr r => exact fun w₅ hw₅ => ⟨hw₄.trans hw₅.1, trivial⟩

theorem sendData_safe {x : Nat} (hx : w.created x) (p : Bytes) (endStream : Bool) (ctx : Ctx) :
    (spec env G strict).Safe i (sendData env x p endStream ctx) 0
      (Since strict i w fun _ _ => True) w := by
  simp only [sendData, Prog.bind_eq, Prog.lift_bind, Prog.pure_eq]
  refine safe_op trivial fun _ st w₁ _ _ _ _ _ hw₁ => ?_
  split
  · exact safe_ret hw₁.1 fun _ _ => trivial
  refine safe_since (writeServerData_safe (hw₁.1.created x hx) ..) fun r w₂ hw₂ _ => ?_
  have hw₂ := hw₁.1.trans hw₂
  cases r with
  | error e => exact safe_ret hw₂ fun _ _ => trivial
  | ok _ =>
    refine safe_since (endLocal_safe (hw₂.created x hx) endStream) fun _ w₃ hw₃ _ => ?_
    exact safe_ret (hw₂.trans hw₃) fun _ _ => trivial

theorem closeStream_safe {x : Nat} (hx : w.created x) :
    (spec env G strict).Safe i (closeStream x) 0 (Since strict i w fun _ _ => True) w := by
  simp only [closeStream, Prog.bind_eq, Prog.lift_bind, Prog.pure_eq]
  refine safe_op trivial fun _ before w₁ _ _ _ _ _ hw₁ => ?_
  split
  · exact safe_ret hw₁.1 fun _ _ => trivial
  · refine safe_earlier hw₁.1 ((writeServerRSTStream_safe (hw₁.1.created x hx) _).mono ?_)
    exact fun _ _ _ h => ⟨h.1, trivial⟩

theorem received_safe (x : Nat) (e : Option StreamEvent) :
    (spec env G strict).Safe i (received x e) 0 (Since strict i w fun _ _ => True) w := by
  have hcredit (e w) : (spec env G strict).Safe i (creditConsumed x e) 0
      (Since strict i w fun _ _ => True) w := by
    unfold creditConsumed
    split
    · simp only [Prog.bind_eq, Prog.lift_bind, Prog.pure_eq]
      split
      · exact safe_ret (.refl ..) fun _ _ => trivial
      refine safe_op trivial fun _ refund w₁ _ _ _ _ _ hw₁ => ?_
      split
      · refine safe_op trivial fun _ st w₂ _ _ _ _ _ hw₂ => ?_
        have hw₂ := hw₁.1.trans hw₂.1
        split
        · refine safe_since (writeUnlessClosed_safe rfl) fun _ w₃ hw₃ _ => ?_
          exact safe_ret (hw₂.trans hw₃) fun _ _ => trivial
        · exact safe_ret hw₂ fun _ _ => trivial
      · exact safe_ret hw₁.1 fun _ _ => trivial
    · exact safe_ret (.refl ..) fun _ _ => trivial
  cases e with
  | none => exact safe_ret (.refl ..) fun _ _ => trivial
  | some e =>
    refine safe_since (hcredit e w) fun _ w₁ hw₁ _ => ?_
    refine safe_op trivial fun _ _ w₂ _ _ _ _ _ hw₂ => ?_
    exact safe_ret (hw₁.trans hw₂.1) fun _ _ => trivial

theorem recv_safe (x : Nat) (ctx : Ctx) :
    (spec env G strict).Safe i (recv x ctx) 0 (Since strict i w fun _ _ => True) w := by
  simp only [recv, Prog.bind_eq, Prog.lift_bind, Prog.pure_eq]
  refine safe_op trivial fun _ r w₁ _ _ _ _ _ hw₁ => ?_
  cases r with
  | some e => exact safe_earlier hw₁.1 (received_safe x e)
  | none =>
    refine safe_op trivial fun _ r w₂ _ _ _ _ _ hw₂ => ?_
    have hw₂ := hw₁.1.trans hw₂.1
    cases r with
    | ok e => exact safe_earlier hw₂ (received_safe x e)
    | error e => exact safe_ret hw₂ fun _ _ => trivial

theorem reservePush_exec {limit : Nat} {b : Option Nat}
    (hb : (b, w') ∈ Op.exec env i w (.reservePush limit)) {x : Nat} (hx : b = some x) :
    x = w.nextPush := by
  simp only [Op.exec, Op.underTable, World.reservePush] at hb
  split at hb
  · split at hb <;> cases List.mem_singleton.1 hb <;> cases hx
    rfl
  · cases hb

theorem writePushPromiseLocked_safe {parent : Nat} (h : Locked i w) (fields : List HeaderField) :
    (spec env G strict).Safe i (writePushPromiseLocked env parent fields) 0
      (fun _ _ w' => (spec env G strict).rely i w w') w := by
  simp only [writePushPromiseLocked, Prog.bind_eq, Prog.lift_bind, Prog.pure_eq]
  refine safe_op trivial fun w₁ live w₂ hw₁ _ _ hb _ _ => ?_
  simp only [Op.exec, Op.underTable] at hb
  split at hb
  · cases List.mem_singleton.1 hb
    have hl := h.rely hw₁
    split
    · exact fun w₂ hw₂ => (spec env G strict).rely_trans hw₁ hw₂
    rename_i hlive
    have hrst : ¬w₁.rstSent parent := fun hr => (hl.2 parent hr).2 (by simpa using hlive)
    refine safe_op trivial fun _ ps w₂ _ _ _ _ _ hw₂ => ?_
    refine maxWritableFrame_safe fun n w₃ hw₃ _ => ?_
    have hw₃ := (spec env G strict).rely_trans hw₂ hw₃
    have hw₃' := (spec env G strict).rely_trans hw₁ hw₃
    split
    · exact fun w₄ hw₄ => (spec env G strict).rely_trans hw₃' hw₄
    refine safe_op trivial fun w₄ promised w₅ _ _ ht hb _ hw₅ => ?_
    have hw₅ := (spec env G strict).rely_trans hw₃ hw₅
    cases promised with
    | none => exact fun w₆ hw₆ =>
        (spec env G strict).rely_trans ((spec env G strict).rely_trans hw₁ hw₅) hw₆
    | some x =>
      have hx : x % 2 = 0 := by
        rw [reservePush_exec hb rfl]
        exact ht.nextPush
      refine safe_op trivial fun _ _ w₆ _ _ _ _ _ hw₆ => ?_
      have hw₆ := (spec env G strict).rely_trans hw₅ hw₆
      refine safe_writeUse (hl.rely hw₆) (fun y hy => ?_) (fun _ => rfl) fun ok w₇ hw₇ hd => ?_
      · have hy : parent = y := by simpa [Outbound.uses] using hy
        subst hy
        rw [(hw₆.2 hl.1).2 parent]
        exact hrst
      · have hw₇ := (spec env G strict).rely_trans hw₁ ((spec env G strict).rely_trans hw₆ hw₇)
        cases ok with
        | true => exact fun w₈ hw₈ => (spec env G strict).rely_trans hw₇ hw₈
        | false =>
          refine safe_release (fun _ hw _ => .inr ⟨hw.down (hd rfl), hx⟩) fun _ w₈ hw₈ _ => ?_
          have hw₈ := (spec env G strict).rely_trans hw₇ hw₈
          refine safe_op trivial fun _ _ w₉ _ _ _ _ _ hw₉ => ?_
          have hw₉ := (spec env G strict).rely_trans hw₈ hw₉
          exact fun w₀ hw₀ => (spec env G strict).rely_trans hw₉ hw₀
  · cases hb

theorem pushWithPriority_safe (x : Nat) (fields : List HeaderField) (prio : Option Priority) :
    (spec env G strict).Safe i (pushWithPriority env x fields prio) 0
      (Since strict i w fun _ _ => True) w := by
  have hwrite (w) : (spec env G strict).Safe i (writePushPromise env x fields) 0
      (Since strict i w fun _ _ => True) w := by
    simp only [writePushPromise, Prog.bind_eq, Prog.lift_bind, Prog.pure_eq]
    refine safe_op trivial fun _ closed w₁ _ _ _ _ _ hw₁ => ?_
    split
    · exact safe_ret hw₁.1 fun _ _ => trivial
    refine safe_lockW fun w₂ hw₂ hl => ?_
    refine Spec.Safe.bind ((writePushPromiseLocked_safe hl fields).mono fun r _ w₃ hw₃ => ?_)
    refine safe_unlockW (hl.rely hw₃) fun w₄ hw₄ => ?_
    exact safe_ret (((hw₁.1.trans hw₂).trans hw₃.1).trans hw₄) fun _ _ => trivial
  have hpush : (spec env G strict).Safe i (pushPromise env x fields) 0
      (Since strict i w fun _ _ => True) w := by
    simp only [pushPromise, Prog.bind_eq, Prog.lift_bind, Prog.pure_eq]
    refine safe_op trivial fun _ ps w₁ _ _ _ _ _ hw₁ => ?_
    split
    · exact safe_ret hw₁.1 fun _ _ => trivial
    refine safe_op trivial fun _ gone w₂ _ _ _ _ _ hw₂ => ?_
    have hw₂ := hw₁.1.trans hw₂.1
    split
    · exact safe_ret hw₂ fun _ _ => trivial
    split
    · exact safe_ret hw₂ fun _ _ => trivial
    split
    · exact safe_ret hw₂ fun _ _ => trivial
    refine safe_op trivial fun _ st w₃ _ _ _ _ _ hw₃ => ?_
    have hw₃ := hw₂.trans hw₃.1
    split
    · exact safe_ret hw₃ fun _ _ => trivial
    · exact safe_earlier hw₃ (hwrite w₃)
  refine safe_since hpush fun r w₁ hw₁ _ => ?_
  cases r with
  | error e => exact safe_ret hw₁ fun _ _ => trivial
  | ok promised =>
    refine safe_op trivial fun _ _ w₂ _ _ _ _ _ hw₂ => ?_
    exact safe_ret (hw₁.trans hw₂.1) fun _ _ => trivial

theorem writeGoAway_ordinary (last : Nat) (code : ErrCode) :
    (writeGoAway last code).All fun o => Ordinary o := by
  simp [writeGoAway, Outbound.plain]

theorem sendGoAway_safe (code : ErrCode) :
    (spec env G strict).Safe i (sendGoAway code) 0 (Since strict i w fun _ _ => True) w := by
  simp only [sendGoAway, Prog.bind_eq, Prog.lift_bind, Prog.pure_eq]
  refine safe_op trivial fun _ first w₁ _ _ _ _ _ hw₁ => ?_
  split
  · refine safe_lockW fun w₂ hw₂ hl => ?_
    have hw₂ := hw₁.1.trans hw₂
    refine safe_op trivial fun _ closed w₃ _ _ _ _ _ hw₃ => ?_
    have hl := hl.rely hw₃
    have hw₃ := hw₂.trans hw₃.1
    split
    · exact safe_unlockW hl fun w₄ hw₄ => safe_ret (hw₃.trans hw₄) fun _ _ => trivial
    · refine safe_op trivial fun _ last w₄ _ _ _ _ _ hw₄ => ?_
      have hl := hl.rely hw₄
      refine Spec.Safe.bind (safe_all (writeGoAway_ordinary last code) fun _ w₅ hw₅ => ?_)
      refine safe_unlockW (hl.rely hw₅) fun w₆ hw₆ => ?_
      exact safe_ret (((hw₃.trans hw₄.1).trans hw₅.1).trans hw₆) fun _ _ => trivial
  · exact safe_ret hw₁.1 fun _ _ => trivial

theorem goAwayWith_safe {last : M Nat} (hlast : last.All fun o => Ordinary o) (code : ErrCode) :
    (spec env G strict).Safe i (goAwayWith last code) 0 (Since strict i w fun _ _ => True) w := by
  simp only [goAwayWith, Prog.bind_eq, Prog.lift_bind, Prog.pure_eq]
  refine safe_op trivial fun _ first w₁ _ _ _ _ _ hw₁ => ?_
  split
  · refine safe_lockW fun w₂ hw₂ hl => ?_
    have hw₂ := hw₁.1.trans hw₂
    refine safe_op trivial fun _ closed w₃ _ _ _ _ _ hw₃ => ?_
    have hl := hl.rely hw₃
    have hw₃ := hw₂.trans hw₃.1
    split
    · exact safe_unlockW hl fun w₄ hw₄ => safe_ret (hw₃.trans hw₄) fun _ _ => trivial
    · refine Spec.Safe.bind (safe_all hlast fun last w₄ hw₄ => ?_)
      have hl := hl.rely hw₄
      refine Spec.Safe.bind (safe_all (writeGoAway_ordinary last code) fun _ w₅ hw₅ => ?_)
      refine safe_unlockW (hl.rely hw₅) fun w₆ hw₆ => ?_
      exact safe_ret (((hw₃.trans hw₄.1).trans hw₅.1).trans hw₆) fun _ _ => trivial
  · exact safe_ret hw₁.1 fun _ _ => trivial

theorem applyPeerSettings_safe (s : SettingsParams) :
    (spec env G strict).Safe i (applyPeerSettings s) 0 (Since strict i w fun _ _ => True) w := by
  unfold applyPeerSettings
  split
  · exact safe_ret (.refl ..) fun _ _ => trivial
  · simp only [Prog.bind_eq, Prog.lift_bind, Prog.pure_eq]
    refine section_safe (((resizeEncoder_uses s).within (P := (· = .quiet)) (by decide)).mono ?_) fun _ w₁ hw₁ => ?_
    · exact fun o ho => ordinary_of_kind (by rw [ho]; simp)
    refine Spec.Safe.bind (safe_within ((applyInitialWindow_uses s).within (by decide)) fun r w₂ hw₂ => ?_)
    have hw₂ := hw₁.trans hw₂.1
    split
    · exact safe_ret hw₂ fun _ _ => trivial
    · exact safe_within (by simp) fun _ w₃ hw₃ => ⟨hw₂.trans hw₃.1, trivial⟩
    · exact safe_ret hw₂ fun _ _ => trivial

end Lifecycle

end PoseidonServer.Conn
