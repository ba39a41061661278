import PoseidonServer.Conn.InForce.Window

/-! Once SETTINGS have been acknowledged they are in force: the frame size for everything that is
written, and the initial window for DATA. -/

namespace PoseidonServer.Conn

open Concurrent

/-- While goroutine `i` sends `n` octets, no SETTINGS take the frame size below what its frames may
have. -/
def unshrunk (env : Env) (i n : Nat) : Guard Op World Call where
  callOk w q := q.available w
  opOk j w _ o := j ≠ i → match o with
    | .publishSettings s => min (min n env.cfg.advertisedSettings.maxFrameSize) w.peerMaxFrame ≤
        (w.publishSettings s).2.peerMaxFrame
    | _ => True

/-- Runs in which no change of the initial window leaves a stream with less than what goroutines
have taken and not yet written. -/
def creditKept : Test Op World Call where
  callOk w q := q.available w
  opOk _ w _ o := match o with
    | .admitClient x _ => w.idle x
    | .adjustWindow x delta => (w.str x).all fun s =>
        s.debited = (w.sentOn x : Int) ∨ s.debited ≤ s.base + delta + s.granted
    | _ => true

theorem fresh_creditKept (env : Env) : Fresh env creditKept.guard where
  call _ _ h := h
  admission := .inr fun _ _ _ _ h => h

namespace FrameSize

variable {env : Env} {i j n x : Nat} {w w' : World}

def Sized (env : Env) (n k : Nat) (w : World) : Prop :=
  k ≤ 16384 ∨ k ≤ min n env.cfg.advertisedSettings.maxFrameSize ∧ k ≤ w.peerMaxFrame

def spec (env : Env) (i n : Nat) : Spec (machine env) (unshrunk env i n) PUnit where
  inv _ _ := True
  rely j w w' := j = i → ∀ k, Sized env n k w → Sized env n k w'
  rely_refl _ _ _ _ h := h
  rely_trans h₁ h₂ hj k h := h₂ hj k (h₁ hj k h)
  pre j w _ o := j = i → ∀ x e p, o.written = some (.data x e p) → Sized env n p.length w

theorem Sized.mono {k k' : Nat} (h : Sized env n k w) (hk : k' ≤ k) : Sized env n k' w :=
  h.imp hk.trans fun h => ⟨hk.trans h.1, hk.trans h.2⟩

theorem Sized.congr {k : Nat} (h : Sized env n k w) (hw : w'.peerSettings = w.peerSettings) :
    Sized env n k w' := by
  rwa [Sized, World.peerMaxFrame, hw]

theorem sized_of_other {o : Op β} {b : β} (hj : j ≠ i) (hok : (unshrunk env i n).opOk j w o)
    (hb : (b, w') ∈ o.exec env j w) : (spec env i n).rely i w w' := by
  intro _ k h
  by_cases ht : o.tag = .publishSettings
  · cases o <;> simp only [Op.tag, reduceCtorEq] at ht
    case publishSettings s =>
      cases List.mem_singleton.1 hb
      exact h.imp_right fun ⟨hk, hle⟩ => ⟨hk, (le_min hk hle).trans (hok hj)⟩
  · exact h.congr (peerSettings_of_exec ht hb)

theorem written_ne {o : Op β} (ho : o.tag ≠ .write .data) {e : Bool} {p : Bytes} :
    o.written ≠ some (.data x e p) := by
  intro h
  cases o <;> simp only [Op.written, reduceCtorEq, Option.some.injEq] at h
  case write f =>
    subst h
    exact ho rfl

def ownSteps : List Tag := [.publishSettings, .write .data]

theorem easy {k : Nat} {o : Op β} (ho : o.tag ∉ ownSteps) :
    (spec env i n).Under i (Sized env n k) o ∧ (spec env i n).Mild o := by
  simp only [ownSteps, List.mem_cons, List.not_mem_nil, or_false, not_or] at ho
  refine ⟨fun w _ _ h _ => ?_, fun j w _ _ _ hok => ?_⟩
  · refine ⟨fun _ _ _ _ hw => absurd hw (written_ne ho.2), fun b w' hb => ⟨trivial, ?_, ?_⟩⟩
    · exact fun j hj hji => absurd hji hj
    · exact h.congr (peerSettings_of_exec ho.1 hb)
  · refine ⟨fun _ _ _ _ hw => absurd hw (written_ne ho.2), fun b w' hb => ⟨trivial, ?_, trivial⟩⟩
    rintro _ hne rfl
    exact sized_of_other hne.symm hok hb rfl

section Writer

variable {k : Nat}

theorem sized_rely (hw : (spec env i n).rely i w w') (h : Sized env n k w) : Sized env n k w' :=
  hw rfl k h

theorem keepsOp {o : Op β} {p : β → M α} (ho : o.tag ∉ ownSteps)
    (hp : ∀ b, (spec env i n).Keeps i (Sized env n k) (p b)) :
    (spec env i n).Keeps i (Sized env n k) (.op o p) :=
  (easy ho).1.keeps sized_rely hp

theorem keepsRet (a : α) : (spec env i n).Keeps i (Sized env n k) (.ret a) :=
  Spec.keeps_ret sized_rely a

theorem uses {p : M α} {l : List Tag} (hp : Uses l p) (hl : ∀ t ∈ l, t ∉ ownSteps) :
    (spec env i n).Keeps i (Sized env n k) p :=
  Spec.keeps_of_all sized_rely (Prog.All.mono (fun _ ho => easy (hl _ ho)) hp)

theorem writeOp {e : Bool} {p : Bytes} {q : Bool → M α} (hp : p.length ≤ k)
    (hq : ∀ ok, (spec env i n).Keeps i (Sized env n k) (q ok)) :
    (spec env i n).Keeps i (Sized env n k) (.op (.write (.data x e p)) q) := by
  have hunder : (spec env i n).Under i (Sized env n k) (.write (.data x e p)) := by
    refine fun w _ _ h _ => ⟨fun _ y e' p' hw => ?_, fun b w' hb => ⟨trivial, ?_, ?_⟩⟩
    · cases hw
      exact h.mono hp
    · exact fun j hj hji => absurd hji hj
    · change (b, w') ∈ Op.exec env i w (.write (.data x e p)) at hb
      exact h.congr (peerSettings_of_exec (by simp) hb)
  exact hunder.keeps sized_rely hq

end Writer

def Grants : ∀ {β : Type}, Op β → β → Prop
  | _, .takeSendCredits _ want, b => ∀ n, b = some n → n ≤ want
  | _, _, _ => True

theorem int32_le {v : Int} (hv : 0 ≤ v) : int32 v ≤ v := by
  unfold int32
  omega

theorem grants_of_exec {o : Op β} {b : β} (hb : (b, w') ∈ o.exec env i w) : Grants o b := by
  cases o with
  | takeSendCredits x want =>
    intro n hn
    subst hn
    simp only [Op.exec, World.takeSendCredits, List.mem_singleton] at hb
    split at hb
    · cases hb
    · split at hb <;> cases hb
      have := int32_le (v := want) (by omega)
      omega
  | _ => trivial

def Granted (want : Nat) (r : Except GoErr Nat) : Prop := ∀ n, r = .ok n → n ≤ want

theorem parkLoop_returns (x want : Nat) (ctx : Ctx) :
    (parkLoop x want ctx).Returns Grants (Granted want) := by
  have herror (e : GoErr) : ∀ r : Except GoErr Nat,
      (.inr (.error e) : Unit ⊕ Except GoErr Nat) = .inr r → Granted want r := by
    rintro _ ⟨⟩ n hn
    cases hn
  refine Prog.returns_forever fun _ => ?_
  simp only [Prog.bind_eq, Prog.lift_bind, Prog.pure_eq]
  intro closed _
  dsimp only
  split
  · exact herror _
  intro done _
  dsimp only
  split
  · exact herror _
  intro b hb
  cases b with
  | some n =>
    rintro _ ⟨⟩ m ⟨⟩
    exact hb n rfl
  | none =>
    rintro _ - _ - _ - _ - _ - _ - _ - r ⟨⟩

theorem acquireSendCredits_returns (x want : Nat) (ctx : Ctx) :
    (acquireSendCredits x want ctx).Returns Grants (Granted want) := by
  have herror (e : GoErr) : Granted want (.error e) := by
    rintro n ⟨⟩
  simp only [acquireSendCredits, Prog.bind_eq, Prog.lift_bind, Prog.pure_eq]
  split
  · rintro n ⟨⟩
    exact Nat.zero_le _
  intro _ _ closed _
  dsimp only
  split
  · exact fun _ _ => herror _
  intro done _
  dsimp only
  split
  · exact fun _ _ => herror _
  intro b hb
  cases b with
  | some n =>
    rintro _ - m ⟨⟩
    exact hb n rfl
  | none =>
    refine fun _ _ _ _ _ _ => (parkLoop_returns x want ctx).bind fun r hr => ?_
    exact fun _ _ _ _ => hr

theorem writeChunk_returns (x maxFrame : Nat) (endStream : Bool) (ctx : Ctx) (p : Bytes) :
    (writeChunk x maxFrame endStream ctx p).Returns (fun _ _ => True)
      fun r => ∀ q, r = .inl q → q.length ≤ p.length := by
  have herror (r : Except GoErr Unit) :
      ∀ q : Bytes, (.inr r : Bytes ⊕ Except GoErr Unit) = .inl q → q.length ≤ p.length := by
    rintro q ⟨⟩
  simp only [writeChunk, Prog.bind_eq, Prog.lift_bind, Prog.pure_eq]
  split
  · exact herror _
  refine Prog.returns_bind _ fun r => ?_
  cases r with
  | error e => exact herror _
  | ok n =>
    intro _ _ closed _
    dsimp only
    split
    · exact fun _ _ => herror _
    intro st _
    dsimp only
    split
    · exact fun _ _ => Prog.returns_bind _ fun _ => herror _
    intro ok _ _ _
    dsimp only
    split
    · exact herror _
    · rintro q ⟨⟩
      simp

theorem writeChunk_keeps {maxFrame : Nat} (endStream : Bool) (ctx : Ctx) {p : Bytes}
    (hp : p.length ≤ n) : (spec env i n).Keeps i (Sized env n (min n maxFrame))
      (writeChunk x maxFrame endStream ctx p) := by
  simp only [writeChunk, Prog.bind_eq, Prog.lift_bind, Prog.pure_eq]
  split
  · exact keepsRet _
  intro w h
  have hacquire : (spec env i n).Keeps i (Sized env n (min n maxFrame))
      (acquireSendCredits x (min p.length maxFrame) ctx) :=
    uses (acquireSendCredits_uses x _ ctx) (by decide)
  refine Spec.Safe.bind (((hacquire w h).returns grants_of_exec
    (acquireSendCredits_returns x _ ctx)).mono ?_)
  rintro r g w₁ ⟨⟨rfl, h₁⟩, hr⟩
  cases r with
  | error e => exact keepsRet _ w₁ h₁
  | ok m =>
    have hm : m ≤ min n maxFrame := (hr m rfl).trans (min_le_min_right _ hp)
    refine keepsOp (by decide) (fun _ => keepsOp (by decide) fun closed => ?_) w₁ h₁
    split
    · exact keepsOp (by decide) fun _ => keepsRet _
    refine keepsOp (by simp [ownSteps]) fun st => ?_
    split
    · exact keepsOp (by decide) fun _ =>
        (uses (releaseSendCredits_uses x m) (by decide)).bind fun _ => keepsRet _
    · refine writeOp ((List.length_take_le ..).trans hm) fun ok => keepsOp (by decide) fun _ => ?_
      split <;> exact keepsRet _

theorem writeEndLocked_keeps {k : Nat} :
    (spec env i n).Keeps i (Sized env n k) (writeEndLocked x) := by
  simp only [writeEndLocked, Prog.bind_eq, Prog.lift_bind, Prog.pure_eq]
  refine keepsOp (by decide) fun closed => ?_
  split
  · exact keepsRet _
  refine keepsOp (by simp [ownSteps]) fun st => ?_
  split
  · exact keepsRet _
  · exact writeOp (Nat.zero_le _) fun ok => keepsRet _

theorem writeServerData_safe {p : Bytes} (hp : p.length ≤ n) (endStream : Bool) (ctx : Ctx) :
    (spec env i n).Safe i (writeServerData env x p endStream ctx) 0 (fun _ _ _ => True) w := by
  have hweak {α : Type} {q : M α} {k : Nat} {w : World} (hq : (spec env i n).Keeps i (Sized env n k) q)
      (h : Sized env n k w) : (spec env i n).Safe i q 0 (fun _ _ _ => True) w :=
    (hq w h).mono fun _ _ _ _ => trivial
  have hzero (w : World) : Sized env n 0 w := .inl (Nat.zero_le _)
  simp only [writeServerData, maxWritableFrame, Prog.bind_eq, Prog.lift_bind, Prog.pure_eq,
    Prog.op_bind, Prog.ret_bind]
  refine (easy (by decide)).1.safe_op sized_rely (hzero w) fun w₁ closed w₂ _ _ _ _ _ => ?_
  split
  · exact fun _ _ => trivial
  refine (easy (by decide)).1.safe_op sized_rely (hzero w₂) fun w₃ ps w₄ _ _ _ hb _ => ?_
  change (ps, w₄) ∈ Op.exec env i w₃ .peerSettings at hb
  cases List.mem_singleton.1 hb
  split
  · split
    · exact fun _ _ => trivial
    · refine hweak (keepsOp (o := .lockW) (by decide) fun _ => ?_) (hzero w₃)
      exact writeEndLocked_keeps.bind fun r => keepsOp (by decide) fun _ => keepsRet _
  · generalize hframe : min (settingValue w₃.peerSettings .maxFrameSize 16384)
      env.cfg.advertisedSettings.maxFrameSize = m
    have hsized : Sized env n (min n (if m ≤ 0 then 16384 else m)) w₃ := by
      split
      · exact .inl (min_le_right ..)
      · refine .inr ⟨by omega, ?_⟩
        rw [World.peerMaxFrame]
        omega
    refine Spec.safe_forever (fun q _ w => q.length ≤ n ∧ Sized env n _ w)
      (fun _ hw => ⟨hp, sized_rely hw hsized⟩) ?_
    rintro q ⟨⟩ w ⟨hq, h⟩
    refine ((writeChunk_keeps endStream ctx hq w h).returns (A := fun _ _ => True)
      (fun _ => trivial) (writeChunk_returns x _ endStream ctx q)).mono ?_
    rintro (q' | r) _ w' ⟨⟨-, h'⟩, hq'⟩
    · exact ⟨(hq' q' rfl).trans hq, h'⟩
    · exact fun _ _ => trivial

theorem sendData_safe {p : Bytes} (hp : p.length ≤ n) (endStream : Bool) (ctx : Ctx) :
    (spec env i n).Safe i (Call.body env (.sendData x p endStream ctx)) 0 (fun _ _ _ => True) w := by
  have hzero (w : World) : Sized env n 0 w := .inl (Nat.zero_le _)
  refine Spec.Safe.bind ?_
  simp only [sendData, Prog.bind_eq, Prog.lift_bind, Prog.pure_eq]
  refine (easy (by simp [ownSteps])).1.safe_op sized_rely (hzero w) fun w₁ st w₂ _ _ _ _ _ => ?_
  split
  · exact fun _ _ _ _ => trivial
  refine Spec.Safe.bind ((writeServerData_safe hp endStream ctx).mono ?_)
  rintro r ⟨⟩ w₃ -
  cases r with
  | error e => exact fun _ _ _ _ => trivial
  | ok _ =>
    refine Spec.Safe.bind ((uses (endLocal_uses x endStream) (by decide) w₃ (hzero w₃)).mono ?_)
    exact fun _ _ _ _ _ _ _ _ => trivial

end FrameSize

section Covered

variable {env : Env} {G : Guard Op World Call} {i x : Nat} {w w' : World}

def World.Covered (w : World) : Prop := ∀ x s, w.str x = some s →
  s.debited = w.sentOn x ∨ s.debited ≤ s.base + s.granted

theorem sentOn_le_of_exec {o : Op β} {b : β} (hb : (b, w') ∈ o.exec env i w) (x : Nat) :
    w.sentOn x ≤ w'.sentOn x := by
  obtain hw | ⟨f, -, hw⟩ := wire_exec hb
  · rw [World.sentOn, World.sentOn, hw]
  · simp [World.sentOn, hw]

theorem sentOn_le_debited {r : SendCredit.Share} (h : SendCredit.Inv w r) {s : Stream}
    (hs : w.str x = some s) : (w.sentOn x : Int) ≤ s.debited := by
  have := h.sentOn x
  simp only [hs, Option.map_some, Option.getD_some] at this
  omega

theorem World.Covered.exec {o : Op β} {b : β} {r : SendCredit.Share} (h : w.Covered)
    (hinv : SendCredit.Inv w' r) (hok : (credited env G).opOk i w o)
    (hadjust : creditKept.guard.opOk i w o) (hb : (b, w') ∈ o.exec env i w) : w'.Covered := by
  intro x s' hs'
  have hsent := sentOn_le_debited hinv hs'
  have hmono := sentOn_le_of_exec hb x
  cases hs : w.str x with
  | none =>
    have := Levels.debited_of_new hok hb hs hs'
    omega
  | some s =>
    have hcovered := h x s hs
    cases SendCredit.debitStep_of_exec hb hs hs' with
    | keep | renew => omega
    | take =>
      have := (hinv.window x s' hs').counts.le
      omega
    | adjust =>
      simp only [creditKept, Test.guard, hs, Option.all_some, decide_eq_true_eq] at hadjust
      omega

theorem covered_of_reach {c : Config Op World} (hc : Reach env creditKept.guard c) :
    c.shared.Covered := by
  have hG := fresh_creditKept env
  induction hc with
  | init => exact fun x s hs => by cases hs
  | @next c e c' hc he hn ih =>
    obtain ⟨r, hinv⟩ := SendCredit.inv_of_reach hG (hc.next he hn)
    have hstep := step_credited hG ⟨hc, he, hn⟩
    obtain hsame | ⟨i, β, o, b, hok, hb⟩ := hstep.exec
    · rwa [hsame]
    · refine ih.exec hinv hok ?_ hb
      exact (tabled_guard (credited_lived hok).1).1.1

end Covered

section InForce

variable {env : Env}

theorem within_of_step {c c' : Config Op World} {e : Event Call} {f : Outbound}
    (h : Step env anyCall c e c') (hwire : c'.shared.wire = c.shared.wire ++ [f])
    (hf : f.tag ≠ .data) : f.Within c.shared.frameLimit := by
  have hstep : Step env (recorded env anyCall) c e c' := step_recorded (fun _ _ h => h) h
  obtain hsame | ⟨i, β, o, b, hok, hb⟩ := hstep.exec
  · simp [hsame] at hwire
  · have hasks : InForce.Asks i c.shared o := hok.2.1
    exact (hasks.within (written_of_wire hb hwire)).resolve_left hf

theorem within_of_data {x limit : Nat} {last : Bool} {p : Bytes} (h : p.length ≤ limit) :
    (Outbound.data x last p).Within limit :=
  ⟨h, by simp [Outbound.Fits, Outbound.block]⟩

theorem within_of_sending {c c₁ c₂ : Config Op World} {i pick x : Nat} {p : Bytes} {last : Bool}
    {ctx : Ctx} {f : Outbound} (hc : Reach env anyCall c)
    (hi : c.threads[i]? = some (Call.body env (.sendData x p last ctx)))
    (hrun : Running env (unshrunk env i p.length) c c₁)
    (hnext : c₁.next (machine env) (Call.body env) (.step i pick) = some c₂)
    (hwire : c₂.shared.wire = c₁.shared.wire ++ [f]) : f.Within c₁.shared.frameLimit := by
  have hc₁ : Reach env anyCall c₁ := hc.runs (hrun.mono (fun _ _ h => h) fun _ _ _ _ _ => trivial)
  by_cases hf : f.tag = .data
  case neg =>
    refine within_of_step ⟨hc₁, ?_, hnext⟩ hwire hf
    simp only [Guard.Enabled]
    split <;> trivial
  obtain ⟨q, _, hq, hsafe⟩ := Spec.Safe.runs (fun _ _ => trivial)
    (fun hj hok hb => FrameSize.sized_of_other hj hok hb) hrun hi (FrameSize.sendData_safe le_rfl last ctx)
  have hok : (unshrunk env i p.length).Enabled c₁ (.step i pick) := by
    simp only [Guard.Enabled]
    split
    · exact fun hne => absurd rfl hne
    · trivial
  obtain hsame | ⟨β, o, b, hpre, hb⟩ := hsafe.pre_of_next hq ⟨0, trivial⟩ hok hnext
  · simp [hsame] at hwire
  have hlimit := (inForce_of_reach (fun _ _ h => h) hc₁).limit
  cases f <;> simp only [Outbound.tag, reduceCtorEq] at hf
  case data y last' d =>
    refine within_of_data ?_
    obtain hsmall | ⟨-, hle⟩ := hpre rfl y last' d (written_of_wire hb hwire)
    · exact hsmall.trans (hlimit.trans (le_max_right ..))
    · exact hle.trans (le_max_right ..)
  case windowUpdate => split at hf <;> cases hf

theorem kind_of_written {o : Op β} {x : Nat} {last : Bool} {p : Bytes}
    (h : o.written = some (.data x last p)) :
    o.kind ∉ [.register, .reserve, .settings, .credit] := by
  cases o <;> simp only [Op.written, reduceCtorEq, Option.some.injEq] at h
  subst h
  simp

theorem sentOn_of_step {c c' : Config Op World} {e : Event Call} {x : Nat} {last : Bool} {p : Bytes}
    (h : Step env creditKept.guard c e c')
    (hwire : c'.shared.wire = c.shared.wire ++ [.data x last p]) (hp : p ≠ []) :
    ∃ s, c.shared.str x = some s ∧
      (c'.shared.sentOn x : Int) ≤ c.shared.windowLimit + s.granted := by
  have hG := fresh_creditKept env
  obtain ⟨r, hinv⟩ := SendCredit.inv_of_reach hG (h.reach.next h.enabled h.next)
  have hlen := List.length_pos_iff.2 hp
  have hsent : c'.shared.sentOn x = c.shared.sentOn x + p.length := by
    simp [World.sentOn, hwire, Outbound.octetsOn]
  obtain hsame | ⟨i, β, o, b, -, hb⟩ := h.exec
  · simp [hsame] at hwire
  have hview := (frame_of_exec hb).credit (kind_of_written (written_of_wire hb hwire)) x
  cases hs' : c'.shared.str x with
  | none =>
    have := hinv.sentOn x
    simp only [hs', Option.map_none, Option.getD_none] at this
    omega
  | some s' =>
    obtain ⟨s, hs, hcredit⟩ := exists_of_map_eq hview hs'
    simp only [Stream.creditView, Prod.mk.injEq] at hcredit
    have hdebited := sentOn_le_debited hinv hs'
    have hcovered := covered_of_reach h.reach x s hs
    have hlevel := levelled_of_step hG h hwire s hs
    exact ⟨s, hs, by omega⟩

end InForce

/-- Once every SETTINGS frame that has come in is acknowledged, their values are those recorded, and
the reader goes on only then. What goes out is within the frame size in force: every frame but DATA,
and DATA provided that no SETTINGS take the frame size below that of the frames while they are being
sent. DATA keeps within the initial window in force, provided that no SETTINGS take from a stream
what a goroutine has taken and not yet written. -/
theorem acknowledged_settings_are_in_force (env : Env) :
    (∀ c, Reach env anyCall c →
      (c.shared.reader = none → c.shared.readerDone = false → c.shared.Acked) ∧
      (c.shared.Acked → c.shared.tmu = none ∧ c.shared.Agrees)) ∧
    (∀ c e c' f, Step env anyCall c e c' → c'.shared.wire = c.shared.wire ++ [f] → f.tag ≠ .data →
      f.Within c.shared.frameLimit) ∧
    (∀ c c₁ c₂ i pick x p last ctx f, Reach env anyCall c →
      c.threads[i]? = some (Call.body env (.sendData x p last ctx)) →
      Running env (unshrunk env i p.length) c c₁ →
      c₁.next (machine env) (Call.body env) (.step i pick) = some c₂ →
      c₂.shared.wire = c₁.shared.wire ++ [f] → f.Within c₁.shared.frameLimit) ∧
    ∀ c e c' x last p, Step env creditKept.guard c e c' →
      c'.shared.wire = c.shared.wire ++ [.data x last p] → p ≠ [] →
      ∃ s, c.shared.str x = some s ∧ (c'.shared.sentOn x : Int) ≤ c.shared.windowLimit + s.granted := by
  refine ⟨fun c hc => ?_, fun c e c' f h hwire hf => within_of_step h hwire hf, ?_, ?_⟩
  · have h := inForce_of_reach (fun _ _ h => h) hc
    exact ⟨fun hr hd => (h.idle hr hd).1, h.settled⟩
  · exact fun c c₁ c₂ i pick x p last ctx f hc hi hrun hnext hwire =>
      within_of_sending hc hi hrun hnext hwire
  · exact fun c e c' x last p h hwire hp => sentOn_of_step h hwire hp

theorem acknowledged_settings_are_in_force_alone : ∃ c c₁ c₂ s,
    Reach getRequests anyCall c ∧ Running getRequests (unshrunk getRequests 4 3) c c₁ ∧
    Step getRequests creditKept.guard c₁ (.step 4 0) c₂ ∧
    c₂.shared.wire = c₁.shared.wire ++ [.data 1 true [1, 2, 3]] ∧
    (Outbound.data 1 true [1, 2, 3]).Within c₁.shared.frameLimit ∧
    c₁.shared.str 1 = some s ∧ (c₂.shared.sentOn 1 : Int) ≤ c₁.shared.windowLimit + s.granted := by
  obtain ⟨-, -, hsize, hcredit⟩ := acknowledged_settings_are_in_force getRequests
  obtain ⟨c, c₁, c₂, hc, hi, hrun, hnext, h⟩ := exists_runs_of_test getRequests creditKept
    ⟨fun w q => q.available w, fun j w _ o => j = 4 ∧ creditKept.opOk j w o⟩
    (Config.inTurn 0 (acceptedRequest ++ [(.sendData 1 [1, 2, 3] true .background, 0)]))
    (List.replicate 12 (.step 4 0)) (i := 4)
    (p := Call.body getRequests (.sendData 1 [1, 2, 3] true .background))
    (P := fun _ c₁ c₂ => creditKept.enabled c₁ (.step 4 0) ∧
      c₂.shared.wire = c₁.shared.wire ++ [.data 1 true [1, 2, 3]])
    rfl (by decide +kernel)
  simp only [decide_eq_true_eq] at h
  obtain ⟨he, hwire⟩ := h
  have hany : Reach getRequests anyCall c := hc.mono (fun _ _ h => h) fun _ _ _ _ _ => trivial
  have halone : Running getRequests (unshrunk getRequests 4 3) c c₁ :=
    hrun.mono (fun _ _ h => h) fun _ _ _ _ h hne => absurd (of_decide_eq_true h).1 hne
  have hkept : Running getRequests creditKept.guard c c₁ :=
    hrun.mono (fun _ _ h => h) fun _ _ _ _ h => (of_decide_eq_true h).2
  have hstep : Step getRequests creditKept.guard c₁ (.step 4 0) c₂ :=
    ⟨hc.runs hkept, Test.guard_enabled he, hnext⟩
  obtain ⟨s, hs, hsent⟩ := hcredit _ _ _ _ _ _ hstep hwire (by simp)
  exact ⟨c, c₁, c₂, s, hany, halone, hstep, hwire,
    hsize _ _ _ _ _ _ _ _ _ _ hany hi halone hnext hwire, hs, hsent⟩

def sendOvertaken (first : SettingsParams) (p : Bytes) (s : SettingsParams) (n : Nat) :
    List (Event Call) :=
  Config.inTurn 0 [(.frame (.settings false first), 12), (.frame (.settings true []), 8),
    (.frame (.headers 1 false true [1] none), 16), (.accept .background, 4),
    (.sendData 1 p true .background, 9), (.frame (.settings false s), n)] ++
  List.replicate 3 (.step 4 0)

def wideFrames : Env := { getRequests with opts := { advertisedSettings := { maxFrameSize := 16385 } } }

/-- DATA of 16385 octets goes out after SETTINGS that allow 16384 have been acknowledged, and three
octets go out after the initial window has become zero. -/
theorem data_overtaken_by_settings :
    (∃ c c', Step wideFrames anyCall c (.step 4 0) c' ∧ c.shared.Acked ∧
      c.shared.frameLimit = 16384 ∧ c.shared.sentOn 1 = 0 ∧ c'.shared.sentOn 1 = 16385) ∧
    ∃ c c' s, Step getRequests anyCall c (.step 4 0) c' ∧ c.shared.Acked ∧
      c.shared.windowLimit = 0 ∧ c.shared.str 1 = some s ∧ s.granted = 0 ∧ c.shared.sentOn 1 = 0 ∧
      c'.shared.wire = c.shared.wire ++ [.data 1 true [1, 2, 3]] := by
  constructor
  · obtain ⟨c, c', hstep, h⟩ := exists_step_of_run wideFrames
      (sendOvertaken [(.maxFrameSize, 16385)] (List.replicate 16385 0) [(.maxFrameSize, 16384)] 14)
      (e := .step 4 0) (p := fun c c' => c.shared.acks = c.shared.settingsRead.length ∧
        c.shared.frameLimit = 16384 ∧ c.shared.sentOn 1 = 0 ∧ c'.shared.sentOn 1 = 16385)
      (by decide +kernel)
    simp only [decide_eq_true_eq] at h
    exact ⟨c, c', hstep, h⟩
  · obtain ⟨c, c', hstep, h⟩ := exists_step_of_run getRequests
      (sendOvertaken [] [1, 2, 3] [(.initialWindowSize, 0)] 19)
      (e := .step 4 0) (p := fun c c' => c.shared.acks = c.shared.settingsRead.length ∧
        c.shared.windowLimit = 0 ∧ (c.shared.str 1).any (·.granted = 0) ∧ c.shared.sentOn 1 = 0 ∧
        c'.shared.wire = c.shared.wire ++ [.data 1 true [1, 2, 3]])
      (by decide +kernel)
    simp only [decide_eq_true_eq, Option.any_eq_true] at h
    obtain ⟨hacked, hlimit, ⟨s, hs, hgranted⟩, hsent, hwire⟩ := h
    exact ⟨c, c', s, hstep, hacked, hlimit, hs, hgranted, hsent, hwire⟩

end PoseidonServer.Conn
