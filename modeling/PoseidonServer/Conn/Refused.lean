import PoseidonServer.Concurrent.Observer
import PoseidonServer.Conn.AcceptQueue
import PoseidonServer.Conn.Calls

/-! Which streams are reset with REFUSED_STREAM, and which with CANCEL. -/

namespace PoseidonServer.Conn

open Concurrent

inductive Stage
  | admitted | refused | queued
  deriving DecidableEq

def Op.stages : {β : Type} → Op β → β → Option (Nat × Stage)
  | _, .admitClient x _, ok => some (x, if ok then .admitted else .refused)
  | _, .tryEnqueue x, ok => some (x, if ok then .queued else .refused)
  | _, _, _ => none

def Op.takes : {β : Type} → Op β → β → Option Nat
  | _, .tryRecv x, r => r.join.map fun _ => x
  | _, .awaitRecv x _, r => r.toOption.join.map fun _ => x
  | _, _, _ => none

/-- What an observer of `registerStream` and `Recv` notes: the stage of each stream, with the
goroutine that registers it, and the streams whose events have been delivered. -/
structure Intake where
  stage : Nat → Option (Nat × Stage) := fun _ => none
  received : List Nat := []

def Intake.see (i : Nat) {β : Type} (o : Op β) (b : β) (t : Intake) : Intake where
  stage := match o.stages b with
    | some (x, st) => Function.update t.stage x (some (i, st))
    | none => t.stage
  received := (o.takes b).toList ++ t.received

abbrev intakeMachine (env : Env) : Machine Op (World × Intake) := (machine env).observed Intake.see

/-- `Server.spawnStream` on a stream that AcceptStream has just handed out: what it calls itself.
Unless the server is shutting down the stream goes to `serveStream`, which starts to receive. -/
def spawnStream (shutdown closed : Bool) (x : Nat) : Option Call :=
  if shutdown || closed then some (.close x) else none

/-- Runs in which no identifier is registered twice, and no stream of the client is closed before
any event of it has been received. -/
def nobodyTurnedAway : Test Op (World × Intake) Call where
  callOk s q := q.available s.1 && match q with
    | .close x => decide (x % 2 = 1 → x ∈ s.2.received)
    | _ => true
  opOk _ s _ o := match o with
    | .admitClient x _ => s.1.idle x
    | _ => true

theorem maxClient_of_exec {env : Env} {i : Nat} {w w' : World} {o : Op β} {b : β}
    (hb : (b, w') ∈ o.exec env i w) : w.maxClient ≤ w'.maxClient := by
  by_cases hk : o.kind ∉ [.register, .reserve, .release, .drain]
  · have ht := (frame_of_exec hb).table hk
    simp only [World.tableView, Prod.mk.injEq] at ht
    rw [ht.2.1]
  · cases o
    case admitClient x prio =>
      simp only [Op.exec, Op.underTable, World.admitClient] at hb
      split at hb
      · split at hb <;> cases List.mem_singleton.1 hb <;> exact Nat.le_max_left ..
      · cases hb
    case reservePush limit =>
      simp only [Op.exec, Op.underTable, World.reservePush] at hb
      split at hb
      · split at hb <;> cases List.mem_singleton.1 hb <;> rfl
      · cases hb
    case release x =>
      simp only [Op.exec, Op.underTable, World.release] at hb
      split at hb
      · split at hb <;> cases List.mem_singleton.1 hb <;> rfl
      · cases hb
    case drain =>
      simp only [Op.exec] at hb
      split at hb
      · obtain ⟨l, -, hl⟩ := List.mem_map.1 hb
        cases hl
        rfl
      · cases hb
    case advance delta => exact absurd (delta.kind_notMem (by simp)) hk
    case write f => exact absurd (f.kind_notMem (by simp)) hk
    all_goals simp at hk

theorem le_maxClient_of_admit {env : Env} {i x : Nat} {w w' : World} {prio : Option Priority} {ok : Bool}
    (hb : (ok, w') ∈ Op.exec env i w (.admitClient x prio)) : x ≤ w'.maxClient := by
  simp only [Op.exec, Op.underTable, World.admitClient] at hb
  split at hb
  · split at hb <;> cases List.mem_singleton.1 hb <;> exact Nat.le_max_right ..
  · cases hb

theorem closed_of_exec {env : Env} {i : Nat} {w w' : World} {o : Op β} {b : β}
    (hb : (b, w') ∈ o.exec env i w) (h : w.closed = true) : w'.closed = true := by
  by_cases hk : o.kind = .close
  · cases o
    case close =>
      simp only [Op.exec, h, if_true] at hb
      cases List.mem_singleton.1 hb
      exact h
    case advance delta => exact absurd hk (delta.kind_ne (by simp))
    case write f => exact absurd hk (f.kind_ne (by simp))
    all_goals simp at hk
  · rw [(frame_of_exec hb).closed hk, h]

/-- The server has answered a refused stream, or cannot any more. -/
def World.turnedAway (w : World) (x : Nat) : Prop :=
  Outbound.rstStream x .refusedStream ∈ w.wire ∨ w.closed = true ∨ w.down = true

theorem turnedAway_of_exec {env : Env} {i x : Nat} {w w' : World} {o : Op β} {b : β}
    (hb : (b, w') ∈ o.exec env i w) (h : w.turnedAway x) : w'.turnedAway x := by
  refine h.imp (fun h => ?_) (Or.imp (closed_of_exec hb) (down_of_exec hb))
  obtain hw | ⟨f, -, hw⟩ := wire_exec hb
  · rwa [hw]
  · rw [hw]
    exact List.mem_append_left _ h

namespace Intake

variable {env : Env} {i j x : Nat} {s s' : World × Intake}

theorem exec_of_observed {o : Op β} {b : β} (hb : (b, s') ∈ (intakeMachine env).exec i o s) :
    (b, s'.1) ∈ o.exec env i s.1 ∧ s'.2 = see i o b s.2 := mem_observed hb

def Queued (t : Intake) (x : Nat) : Prop := ∃ j, t.stage x = some (j, .queued)

structure Inv (s : World × Intake) : Prop where
  used : ∀ x p, s.2.stage x = some p → x % 2 = 1 ∧ x ≤ s.1.maxClient
  refused : ∀ x, .rstStream x .refusedStream ∈ s.1.wire → ∃ j, s.2.stage x = some (j, .refused)
  waiting : ∀ x ∈ s.1.acceptCh, s.2.Queued x
  delivered : ∀ x ∈ s.1.delivered, s.2.Queued x
  received : ∀ x ∈ s.2.received, x % 2 = 1 → s.2.Queued x
  cancelled : ∀ x, .rstStream x .cancel ∈ s.1.wire → x % 2 = 1 → x ∈ s.2.received

def Answered (i : Nat) (s : World × Intake) : Prop :=
  ∀ x, s.2.stage x = some (i, .refused) → s.1.turnedAway x

structure Backed (i x : Nat) (code : ErrCode) (s : World × Intake) : Prop where
  refused : code = .refusedStream → s.2.stage x = some (i, .refused)
  cancelled : code = .cancel → x % 2 = 1 → x ∈ s.2.received

@[simp] def Asks (i : Nat) (s : World × Intake) : Op β → Prop
  | .admitClient x _ => x % 2 = 1
  | .tryEnqueue x => s.2.stage x = some (i, .admitted)
  | .deliver x => s.2.Queued x
  | .tryRecv x | .awaitRecv x _ => x % 2 = 1 → s.2.Queued x
  | .write (.rstStream x code) => Backed i x code s
  | _ => True

def spec (env : Env) : Spec (intakeMachine env) nobodyTurnedAway.guard PUnit where
  inv s _ := Inv s
  rely i s s' := (∀ x st, s'.2.stage x = some (i, st) ↔ s.2.stage x = some (i, st)) ∧
    (∀ x, s.2.Queued x → s'.2.Queued x) ∧ (∀ x ∈ s.2.received, x ∈ s'.2.received) ∧
    ∀ x, s.1.turnedAway x → s'.1.turnedAway x
  rely_refl _ _ := ⟨fun _ _ => Iff.rfl, fun _ h => h, fun _ h => h, fun _ h => h⟩
  rely_trans h₁ h₂ := ⟨fun x st => (h₂.1 x st).trans (h₁.1 x st), fun x h => h₂.2.1 x (h₁.2.1 x h),
    fun x h => h₂.2.2.1 x (h₁.2.2.1 x h), fun x h => h₂.2.2.2 x (h₁.2.2.2 x h)⟩
  pre i s _ o := Asks i s o
  fin := Answered
  fin_rely h hf x hx := h.2.2.2 x (hf x ((h.1 x _).1 hx))

/-- A step that registers a stream moves on one that is new, or that its goroutine has admitted. -/
theorem stage_see {o : Op β} {b : β} (h : Inv s) (hok : nobodyTurnedAway.guard.opOk i s o)
    (hask : Asks i s o) (y : Nat) : (see i o b s.2).stage y = s.2.stage y ∨
      ∃ st, o.stages b = some (y, st) ∧ (see i o b s.2).stage y = some (i, st) ∧
        (s.2.stage y = none ∨ s.2.stage y = some (i, .admitted)) := by
  have hmove {x : Nat} {st : Stage} (hst : o.stages b = some (x, st))
      (hx : s.2.stage x = none ∨ s.2.stage x = some (i, .admitted)) :
      (see i o b s.2).stage y = s.2.stage y ∨ ∃ st, o.stages b = some (y, st) ∧
        (see i o b s.2).stage y = some (i, st) ∧
          (s.2.stage y = none ∨ s.2.stage y = some (i, .admitted)) := by
    simp only [see, hst]
    by_cases hyx : y = x
    · subst hyx
      exact .inr ⟨st, rfl, Function.update_self .., hx⟩
    · exact .inl (Function.update_of_ne hyx ..)
  cases o
  case admitClient x prio =>
    refine hmove rfl (.inl ?_)
    have hidle : s.1.idle x = true := hok
    have hodd : x % 2 = 1 := hask
    simp only [World.idle, hodd, if_true, decide_eq_true_eq] at hidle
    by_contra hne
    obtain ⟨p, hp⟩ := Option.ne_none_iff_exists'.1 hne
    have := (h.used x p hp).2
    omega
  case tryEnqueue x => exact hmove rfl (.inr hask)
  all_goals exact .inl rfl

section Step

variable {o : Op β} {b : β} (h : Inv s) (hok : nobodyTurnedAway.guard.opOk i s o)
  (hask : Asks i s o)

include h hok hask

theorem stage_kept {st : Stage} (hst : st ≠ .admitted) (hx : s.2.stage x = some (j, st)) :
    (see i o b s.2).stage x = some (j, st) := by
  obtain hsame | ⟨_, _, _, hnone | hadm⟩ := stage_see (b := b) h hok hask x
  · rw [hsame, hx]
  · simp [hnone] at hx
  · rw [hadm] at hx
    cases hx
    exact absurd rfl hst

theorem stage_other (hij : j ≠ i) (st : Stage) :
    (see i o b s.2).stage x = some (j, st) ↔ s.2.stage x = some (j, st) := by
  obtain hsame | ⟨_, _, hnew, hold⟩ := stage_see (b := b) h hok hask x
  · rw [hsame]
  · rw [hnew]
    obtain hold | hold := hold <;> simp [hold, hij.symm]

theorem queued_kept (hx : s.2.Queued x) : (see i o b s.2).Queued x :=
  hx.imp fun _ hj => stage_kept h hok hask (by simp) hj

theorem Inv.step (hb : (b, s') ∈ (intakeMachine env).exec i o s) : Inv s' := by
  obtain ⟨w, t⟩ := s
  obtain ⟨w', t'⟩ := s'
  obtain ⟨hw, rfl⟩ := exec_of_observed hb
  change (b, w') ∈ o.exec env i w at hw
  have hwire {f : Outbound} (hf : f ∈ w'.wire) : f ∈ w.wire ∨ o.written = some f := by
    obtain hsame | ⟨g, ht, hg⟩ := wire_exec hw
    · exact .inl (hsame ▸ hf)
    · rw [hg, List.mem_append, List.mem_singleton] at hf
      refine hf.imp_right fun hf => ?_
      rw [hf]
      exact (write_of_wire hw hg).1
  constructor
  · intro x p hp
    obtain hsame | ⟨st, hst, -, hold⟩ := stage_see (b := b) h hok hask x
    · rw [hsame] at hp
      have := h.used x p hp
      exact ⟨this.1, this.2.trans (maxClient_of_exec hw)⟩
    · cases o <;> simp only [Op.stages, reduceCtorEq, Option.some.injEq, Prod.mk.injEq] at hst
      case admitClient y prio =>
        obtain ⟨rfl, -⟩ := hst
        exact ⟨hask, le_maxClient_of_admit hw⟩
      case tryEnqueue y =>
        obtain ⟨rfl, -⟩ := hst
        have := h.used y _ hask
        exact ⟨this.1, this.2.trans (maxClient_of_exec hw)⟩
  · intro x hx
    obtain hx | hx := hwire hx
    · exact (h.refused x hx).imp fun _ hj => stage_kept h hok hask (by simp) hj
    · cases o <;> simp only [Op.written, reduceCtorEq, Option.some.injEq] at hx
      subst hx
      exact ⟨i, hask.refused rfl⟩
  · intro x hx
    obtain hsub | ⟨y, ho, hadd⟩ := acceptCh_of_exec hw
    · exact queued_kept h hok hask (h.waiting x (hsub.subset hx))
    · cases o <;> simp only [Op.queues, reduceCtorEq, Option.some.injEq] at ho
      subst ho
      simp only [Op.exec] at hw
      split at hw <;> cases List.mem_singleton.1 hw
      · rw [hadd, List.mem_append, List.mem_singleton] at hx
        obtain hx | rfl := hx
        · exact queued_kept h hok hask (h.waiting x hx)
        · exact ⟨i, Function.update_self ..⟩
      · exact queued_kept h hok hask (h.waiting x hx)
  · intro x hx
    obtain ⟨hsame, -⟩ | ⟨y, ho, -, hadd, -⟩ := delivered_of_exec hw
    · exact queued_kept h hok hask (h.delivered x (hsame ▸ hx))
    · simp only [hadd, List.mem_append, List.mem_singleton] at hx
      refine queued_kept h hok hask (hx.elim (h.delivered x) fun hx => ?_)
      cases o <;> simp only [Op.delivers, reduceCtorEq, Option.some.injEq] at ho
      rw [hx, ← ho]
      exact hask
  · intro x hx hodd
    simp only [see, List.mem_append, Option.mem_toList] at hx
    refine queued_kept h hok hask (hx.elim (fun hx => ?_) fun hx => h.received x hx hodd)
    cases o <;> simp only [Op.takes, reduceCtorEq, Option.map_eq_some_iff] at hx
    all_goals
      obtain ⟨_, -, rfl⟩ := hx
      exact hask hodd
  · intro x hx hodd
    obtain hx | hx := hwire hx
    · exact List.mem_append_right _ (h.cancelled x hx hodd)
    · cases o <;> simp only [Op.written, reduceCtorEq, Option.some.injEq] at hx
      subst hx
      exact List.mem_append_right _ (hask.cancelled rfl hodd)

theorem respects (hb : (b, s') ∈ (intakeMachine env).exec i o s) (hij : j ≠ i) :
    (spec env).rely j s s' := by
  obtain ⟨hw, ht⟩ := exec_of_observed hb
  refine ⟨fun x st => ?_, fun x hx => ?_, fun x hx => ?_, fun x => turnedAway_of_exec hw⟩ <;> rw [ht]
  · exact stage_other h hok hask hij st
  · exact queued_kept h hok hask hx
  · exact List.mem_append_right _ hx

end Step

theorem answered_of_exec {o : Op β} {b : β} (ho : o.stages b = none) (h : Answered i s)
    (hb : (b, s') ∈ (intakeMachine env).exec i o s) : Answered i s' := by
  intro y hy
  obtain ⟨hw, ht⟩ := exec_of_observed hb
  rw [ht] at hy
  simp only [see, ho] at hy
  exact turnedAway_of_exec hw (h y hy)

def Owing (i x : Nat) (code : ErrCode) (s : World × Intake) : Prop :=
  ∀ y, s.2.stage y = some (i, .refused) → s.1.turnedAway y ∨ y = x ∧ code = .refusedStream

theorem Owing.rely {code : ErrCode} (hs : (spec env).rely i s s') (h : Owing i x code s) :
    Owing i x code s' :=
  fun y hy => (h y ((hs.1 y _).1 hy)).imp_left (hs.2.2.2 y)

theorem Backed.rely {code : ErrCode} (hs : (spec env).rely i s s') (h : Backed i x code s) :
    Backed i x code s' :=
  ⟨fun hc => (hs.1 x _).2 (h.refused hc), fun hc hx => hs.2.2.1 x (h.cancelled hc hx)⟩

theorem backed_of_ne {code : ErrCode} (hr : code ≠ .refusedStream) (hc : code ≠ .cancel) :
    Backed i x code s := ⟨fun h => absurd h hr, fun h => absurd h hc⟩

theorem safe_op {o : Op β} {k : β → M α} {Q : α → PUnit → World × Intake → Prop}
    (hask : ∀ s₁, (spec env).rely i s s₁ → Asks i s₁ o)
    (hk : ∀ s₁ b s₂, (spec env).rely i s s₁ → Inv s₁ → (b, s₂) ∈ (intakeMachine env).exec i o s₁ →
      (spec env).Safe i (k b) 0 Q s₂) : (spec env).Safe i (.op o k) 0 Q s := by
  intro s₁ hs ⟨_, hinv⟩ hok
  have hask := hask s₁ hs
  refine ⟨hask, fun b s₂ hb => ⟨0, fun _ _ => hinv.step hok hask hb, fun j hj => ?_, ?_⟩⟩
  · exact respects hinv hok hask hb hj
  · exact hk s₁ b s₂ hs hinv hb

def notedSteps : List Tag := [.admitClient, .tryEnqueue, .tryRecv, .awaitRecv]

theorem see_eq {o : Op β} {b : β} {t : Intake} (ho : o.tag ∉ notedSteps) : see i o b t = t := by
  cases o
  case admitClient | tryEnqueue | tryRecv | awaitRecv => simp [notedSteps] at ho
  all_goals rfl

theorem harmless {o : Op β} (ho : o.tag ∉ notedSteps) (hask : ∀ i s, Asks i s o) :
    (spec env).Harmless o := by
  intro i s _ h hok
  refine ⟨hask i s, fun b s' hb => ⟨h.step hok (hask i s) hb, fun j => ?_⟩⟩
  obtain ⟨hw, ht⟩ := exec_of_observed hb
  rw [see_eq ho] at ht
  refine ⟨fun x st => by rw [ht], fun x hx => by rwa [ht], fun x hx => by rwa [ht], fun x => ?_⟩
  exact turnedAway_of_exec hw

def askingSteps : List Tag := [.admitClient, .tryEnqueue, .deliver, .tryRecv, .awaitRecv,
  .write .rstStream]

theorem harmless_of_tag {o : Op β} (ho : o.tag ∉ askingSteps) : (spec env).Harmless o := by
  refine harmless (fun h => ho ?_) fun i s => ?_
  · generalize o.tag = t at h
    revert t
    decide
  · cases o
    case write f =>
      cases f
      case rstStream => simp [askingSteps] at ho
      all_goals trivial
    case admitClient | tryEnqueue | deliver | tryRecv | awaitRecv => simp [askingSteps] at ho
    all_goals trivial

theorem mild {o : Op β} (ho : o.tag ∉ askingSteps) : (spec env).Mild o := (harmless_of_tag ho).mild

theorem properOp {o : Op β} {k : β → M α} (ho : o.tag ∉ askingSteps)
    (hk : ∀ b, (spec env).Proper (k b)) : (spec env).Proper (.op o k) := .op (mild ho) hk

theorem markStreamDone_proper (x : Nat) : (spec env).Proper (markStreamDone x) :=
  (markStreamDone_uses x).proper mild (by decide)

theorem writeServerRSTStream_safe {code : ErrCode} (hask : Backed i x code s)
    (h : Owing i x code s) : (spec env).Safe i (writeServerRSTStream x code) 0
      ((spec env).Done i) s := by
  have hret (r : Except GoErr Unit) : (spec env).Proper (.ret r) := Spec.proper_ret _
  refine (harmless_of_tag (by simp +decide)).safe_op fun _ _ s₁ _ _ _ _ hs => ?_
  replace hask := hask.rely hs
  replace h := h.rely hs
  refine (harmless_of_tag (by simp +decide)).safe_op fun s₂ closed s₃ _ _ _ hb hs => ?_
  cases closed with
  | true =>
    obtain ⟨hclosed, hsame⟩ := Prod.mk.inj (List.mem_singleton.1 (exec_of_observed hb).1)
    have hclosed : s₃.1.closed = true := by rw [hsame, ← hclosed]
    exact ((markStreamDone_proper x).bind fun _ => hret _) i s₃ fun y _ => .inr (.inl hclosed)
  | false =>
    replace hask := hask.rely hs
    replace h := h.rely hs
    refine (harmless_of_tag (by simp +decide)).safe_op fun _ _ s₄ _ _ _ _ hs => ?_
    replace hask := hask.rely hs
    replace h := h.rely hs
    refine safe_op (fun _ hs => hask.rely hs) fun s₅ ok s₆ hs _ hb => ?_
    obtain ⟨hw, ht⟩ := exec_of_observed hb
    have hanswered : Answered i s₆ := by
      intro y hy
      rw [ht, see_eq (by simp [notedSteps])] at hy
      obtain hy | ⟨rfl, rfl⟩ := h.rely hs y hy
      · exact turnedAway_of_exec hw hy
      · obtain ⟨-, hdown, hsame⟩ | ⟨-, -, hadd⟩ := write_exec hw
        · exact .inr (.inr (hsame ▸ hdown))
        · exact .inl (by simp [hadd])
    refine ((markStreamDone_proper x).bind fun _ => ?_) i s₆ hanswered
    exact properOp (by simp +decide) fun _ => hret _

theorem reset_proper {code : ErrCode} (hr : code ≠ .refusedStream) (hc : code ≠ .cancel) (x : Nat) :
    (spec env).Proper (writeServerRSTStream x code) := fun _ _ hf =>
  writeServerRSTStream_safe (backed_of_ne hr hc) fun y hy => .inl (hf y hy)

theorem writeRSTStreamID_proper {code : ErrCode} (hr : code ≠ .refusedStream) (hc : code ≠ .cancel)
    (x : Nat) : (spec env).Proper (writeRSTStreamID x code) := by
  have hret (r : Except GoErr Unit) : (spec env).Proper (.ret r) := Spec.proper_ret _
  have hwrite {k : Bool → M (Except GoErr Unit)} (hk : ∀ ok, (spec env).Proper (k ok)) :
      (spec env).Proper (.op (.write (.rstStream x code)) k) :=
    .op (harmless (o := .write (.rstStream x code)) (by simp [notedSteps])
      fun _ _ => backed_of_ne hr hc).mild hk
  refine properOp (by simp +decide) fun closed => ?_
  dsimp only [Prog.ret_bind]
  split
  · exact hret _
  refine properOp (by simp +decide) fun live => ?_
  dsimp only [Prog.ret_bind]
  split
  · refine properOp (by simp +decide) fun _ => properOp (by simp +decide) fun _ => hwrite fun _ => ?_
    exact (markStreamDone_proper x).bind fun _ => properOp (by simp +decide) fun _ => hret _
  · exact properOp (by simp +decide) fun _ => hwrite fun _ => properOp (by simp +decide) fun _ => hret _

theorem push_proper (x : Nat) (e : StreamEvent) : (spec env).Proper (push x e) := by
  refine properOp (by simp [askingSteps]) fun ok => ?_
  dsimp only [Prog.ret_bind]
  split
  · exact Spec.proper_ret _
  refine properOp (by simp +decide) fun before => ?_
  dsimp only [Prog.ret_bind]
  split
  · exact Spec.proper_ret _
  refine .fork ?_ (properOp (by simp +decide) fun _ => Spec.proper_ret _)
  exact (reset_proper (by simp) (by simp) x).bind fun _ => Spec.proper_ret _

theorem deliverEvent_proper (x : Nat) (endStream : Bool) (e : StreamEvent) :
    (spec env).Proper (deliverEvent x endStream e) := by
  have hend (fullyClosed : Bool) : (spec env).Proper ((push x e).bind fun _ =>
      if fullyClosed then (markStreamDone x).bind fun _ => .ret (Except.ok ())
      else .ret (Except.ok () : Except GoErr Unit)) := by
    refine (push_proper x e).bind fun _ => ?_
    split
    · exact (markStreamDone_proper x).bind fun _ => Spec.proper_ret _
    · exact Spec.proper_ret _
  cases endStream with
  | false => exact hend false
  | true => exact properOp (by simp +decide) fun before => hend before.sentEnded

theorem registerStream_proper (hx : x % 2 = 1) (prio : Option Priority) :
    (spec env).Proper (registerStream x prio) := by
  intro i s hf
  -- the stream `x` alone has moved, and what else goroutine `i` refused is answered
  have hmove {β : Type} {o : Op β} {b : β} {t : Stage} {s₁ s₂ : World × Intake}
      (hf : Answered i s₁) (ho : o.stages b = some (x, t))
      (hb : (b, s₂) ∈ (intakeMachine env).exec i o s₁) :
      s₂.2.stage x = some (i, t) ∧ ∀ y, s₂.2.stage y = some (i, .refused) →
        s₂.1.turnedAway y ∨ y = x ∧ t = .refused := by
    obtain ⟨hw, ht⟩ := exec_of_observed hb
    rw [ht]
    simp only [see, ho]
    refine ⟨Function.update_self .., fun y hy => ?_⟩
    by_cases hyx : y = x
    · rw [hyx, Function.update_self] at hy
      cases hy
      exact .inr ⟨hyx, rfl⟩
    · rw [Function.update_of_ne hyx] at hy
      exact .inl (turnedAway_of_exec hw (hf y hy))
  have hrefuse {s₂ : World × Intake} (hst : s₂.2.stage x = some (i, .refused))
      (h : Owing i x .refusedStream s₂) : (spec env).Safe i
        ((writeServerRSTStream x .refusedStream).bind fun _ =>
          .op (.cancelStream x) fun _ => .ret false) 0 ((spec env).Done i) s₂ := by
    refine Spec.Safe.bind ((writeServerRSTStream_safe ⟨fun _ => hst, by simp⟩ h).mono ?_)
    rintro _ g s₃ ⟨rfl, h₃⟩
    exact properOp (by simp +decide) (fun _ => Spec.proper_ret _) i s₃ h₃
  refine safe_op (fun _ _ => hx) fun s₁ ok s₂ hs _ hb => ?_
  have hf₁ : Answered i s₁ := (spec env).fin_rely hs hf
  cases ok with
  | false =>
    obtain ⟨hst, hother⟩ := hmove (t := .refused) hf₁ rfl hb
    exact hrefuse hst fun y hy => (hother y hy).imp_right fun h => ⟨h.1, rfl⟩
  | true =>
    obtain ⟨hst, hother⟩ := hmove (t := .admitted) hf₁ rfl hb
    have hf₂ : Answered i s₂ := fun y hy => (hother y hy).resolve_right (by simp)
    refine safe_op (fun _ hs => (hs.1 x _).2 hst) fun s₃ ok s₄ hs _ hb => ?_
    have hf₃ : Answered i s₃ := (spec env).fin_rely hs hf₂
    cases ok with
    | false =>
      obtain ⟨hst, hother⟩ := hmove (t := .refused) hf₃ rfl hb
      exact hrefuse hst fun y hy => (hother y hy).imp_right fun h => ⟨h.1, rfl⟩
    | true =>
      obtain ⟨-, hother⟩ := hmove (t := .queued) hf₃ rfl hb
      refine Spec.proper_ret _ i s₄ fun y hy => ?_
      exact (hother y hy).resolve_right (by simp)

theorem blocks (i : Nat) : Blocks env (spec env) i ((spec env).fin i) where
  rely := (spec env).fin_rely
  turn ho := mild (by
    revert ho
    generalize Op.tag _ = t
    revert t
    decide) i
  send x := (sendHeaders_uses env x _ _ _).proper mild (by decide) i
  reset x code hc := by
    refine reset_proper ?_ ?_ x i <;>
      · rintro rfl
        simp at hc
  deliver x endStream e _ := deliverEvent_proper x endStream e i
  register x prio hx := registerStream_proper hx prio i

theorem guarded {k : M (Except GoErr Unit)} (hk : (spec env).Proper k) :
    (spec env).Proper (guardHeaderBlock k) := by
  refine properOp (by simp +decide) fun h => ?_
  dsimp only [Prog.ret_bind]
  split
  · exact Spec.proper_ret _
  · exact hk

theorem onData_proper (x : Nat) (endStream : Bool) (length : Nat) (p : Bytes) :
    (spec env).Proper (onData x endStream length p) := by
  have hret (r : Except GoErr Unit) : (spec env).Proper (.ret r) := Spec.proper_ret _
  refine guarded ?_
  split
  · exact hret _
  refine properOp (by simp +decide) fun idle => ?_
  dsimp only [Prog.ret_bind]
  split
  · exact hret _
  refine properOp (by simp +decide) fun live => ?_
  dsimp only [Prog.ret_bind]
  refine .bind ((onDataReceived_uses _ _).proper mild (by decide)) fun r => ?_
  cases r with
  | error e => exact hret _
  | ok _ =>
    dsimp only
    split
    · refine properOp (by simp +decide) fun st => ?_
      dsimp only [Prog.ret_bind]
      split
      · exact (reset_proper (by simp) (by simp) x).bind fun _ => hret _
      · exact deliverEvent_proper _ _ _
    · exact hret _

theorem onRSTStream_proper (x : Nat) (code : ErrCode) :
    (spec env).Proper (onRSTStream env x code) := by
  have hrapid (rapid) : (spec env).Proper (onClientRSTStream env rapid) :=
    (onClientRSTStream_uses env rapid).proper mild (by decide)
  refine guarded (properOp (by simp +decide) fun idle => ?_)
  dsimp only [Prog.ret_bind]
  split
  · exact Spec.proper_ret _
  refine properOp (by simp +decide) fun live => ?_
  dsimp only [Prog.ret_bind]
  split
  · exact hrapid _
  refine properOp (by simp +decide) fun before => ?_
  exact (push_proper x _).bind fun _ => (markStreamDone_proper x).bind fun _ => hrapid _

theorem onWindowUpdate_proper (x increment : Nat) : (spec env).Proper (onWindowUpdate x increment) := by
  have hret (r : Except GoErr Unit) : (spec env).Proper (.ret r) := Spec.proper_ret _
  unfold onWindowUpdate
  split
  · refine properOp (by simp +decide) fun _ => properOp (by simp +decide) fun grown => ?_
    dsimp only [Prog.ret_bind]
    split
    · exact properOp (by simp +decide) fun _ => properOp (by simp +decide) fun _ => hret _
    · exact properOp (by simp +decide) fun _ => hret _
  refine properOp (by simp +decide) fun idle => ?_
  dsimp only [Prog.ret_bind]
  split
  · exact hret _
  refine properOp (by simp +decide) fun live => ?_
  dsimp only [Prog.ret_bind]
  split
  · exact hret _
  refine properOp (by simp +decide) fun grown => ?_
  dsimp only [Prog.ret_bind]
  split
  · exact properOp (by simp +decide) fun _ => properOp (by simp +decide) fun _ =>
      properOp (by simp +decide) fun _ => hret _
  · exact properOp (by simp +decide) fun _ => (push_proper x _).bind fun _ =>
      (reset_proper (by simp) (by simp) x).bind fun _ => hret _

theorem dispatch_proper (f : Inbound) : (spec env).Proper (dispatch env f) := by
  cases f with
  | data => exact onData_proper _ _ _ _
  | headers => exact fun i => (blocks i).onHeaders _ _ _ _ _
  | continuation => exact fun i => (blocks i).onContinuation _ _ _
  | rstStream => exact onRSTStream_proper _ _
  | windowUpdate => exact guarded (onWindowUpdate_proper _ _)
  | settings => exact (onSettings_uses ..).proper mild (by decide)
  | ping => exact (onPing_uses ..).proper mild (by decide)
  | priority | altSvc | origin => exact guarded (Spec.proper_ret _)
  | goAway => exact guarded (properOp (by simp +decide) fun _ => Spec.proper_ret _)
  | pushPromise | unknown | rejected => exact Spec.proper_ret _

theorem seed_proper : (spec env).Proper (seed env) := by
  unfold seed
  split
  · refine (registerStream_proper rfl none).bind fun ok => ?_
    split
    · refine properOp (by simp +decide) fun _ => (push_proper 1 _).bind fun _ => ?_
      exact properOp (by simp +decide) fun _ => Spec.proper_ret _
    · exact Spec.proper_ret _
  · exact Spec.proper_ret _

theorem acceptStream_proper (ctx : Ctx) : (spec env).Proper (acceptStream ctx) := by
  have hone {i x : Nat} {s : World × Intake} (hf : Answered i s) (hx : s.2.Queued x) :
      (spec env).Safe i (acceptOne x) 0 ((spec env).Done i) s := by
    refine safe_op (fun _ hs => hs.2.1 x hx) fun s₁ ok s₂ hs _ hb => ?_
    have hf₂ : Answered i s₂ := answered_of_exec rfl ((spec env).fin_rely hs hf) hb
    cases ok <;> exact Spec.proper_ret _ i s₂ hf₂
  refine properOp (by simp +decide) fun closed => ?_
  dsimp only [Prog.ret_bind]
  split
  · exact Spec.proper_ret _
  refine .iter (fun _ i s hf => ?_) fun _ => Spec.proper_ret _
  refine (harmless_of_tag (by simp +decide)).safe_op fun s₁ r s₂ _ ⟨_, hinv⟩ _ hb hs => ?_
  have hf₂ : Answered i s₂ := (spec env).fin_rely hs hf
  cases r with
  | some x =>
    obtain ⟨hw, ht⟩ := exec_of_observed hb
    have hx : s₂.2.Queued x := by
      rw [ht]
      exact hinv.waiting x (tryAccept_mem hw)
    exact hone hf₂ hx
  | none =>
    refine (harmless_of_tag (by simp +decide)).safe_op fun s₃ r s₄ _ ⟨_, hinv⟩ _ hb hs => ?_
    have hf₄ : Answered i s₄ := (spec env).fin_rely hs hf₂
    cases r with
    | error e => exact Spec.proper_ret _ i s₄ hf₄
    | ok x =>
      obtain ⟨hw, ht⟩ := exec_of_observed hb
      have hx : s₄.2.Queued x := by
        rw [ht]
        exact hinv.waiting x (awaitAccept_mem hw)
      exact hone hf₄ hx

theorem recv_safe (ctx : Ctx) (hf : Answered i s) (hx : x % 2 = 1 → s.2.Queued x) :
    (spec env).Safe i (recv x ctx) 0 ((spec env).Done i) s := by
  have hwrite (n : Nat) : (spec env).Proper (writeWindowUpdate x n) := by
    refine (writeUnlessClosed_uses (f := .windowUpdate x n) rfl).proper mild ?_
    simp only [writeSteps, askingSteps, Outbound.tag_windowUpdate]
    split <;> decide
  have hcredit (e : StreamEvent) : (spec env).Proper (creditConsumed x e) := by
    cases e with
    | data p endStream =>
      unfold creditConsumed
      dsimp only
      split
      · exact Spec.proper_ret _
      refine properOp (by simp +decide) fun refund => ?_
      dsimp only [Prog.ret_bind]
      split
      · refine properOp (by simp +decide) fun st => ?_
        dsimp only [Prog.ret_bind]
        split
        · exact (hwrite _).bind fun _ => Spec.proper_ret _
        · exact Spec.proper_ret _
      · exact Spec.proper_ret _
    | _ => exact Spec.proper_ret _
  have hreceived (e : Option StreamEvent) : (spec env).Proper (Conn.received x e) := by
    cases e with
    | none => exact Spec.proper_ret _
    | some e => exact (hcredit e).bind fun _ => properOp (by simp +decide) fun _ => Spec.proper_ret _
  refine safe_op (fun _ hs hodd => hs.2.1 x (hx hodd)) fun s₁ r s₂ hs hinv hb => ?_
  have hf₂ := answered_of_exec rfl ((spec env).fin_rely hs hf) hb
  cases r with
  | some e => exact hreceived e i s₂ hf₂
  | none =>
    have hx₂ : x % 2 = 1 → s₂.2.Queued x := by
      intro hodd
      obtain ⟨j, hj⟩ := hs.2.1 x (hx hodd)
      refine ⟨j, ?_⟩
      rw [(exec_of_observed hb).2]
      exact hj
    refine safe_op (fun _ hs hodd => hs.2.1 x (hx₂ hodd)) fun s₃ r s₄ hs _ hb => ?_
    have hf₄ := answered_of_exec rfl ((spec env).fin_rely hs hf₂) hb
    cases r with
    | ok e => exact hreceived e i s₄ hf₄
    | error e => exact Spec.proper_ret _ i s₄ hf₄

theorem close_safe (hf : Answered i s) (hx : x % 2 = 1 → x ∈ s.2.received) :
    (spec env).Safe i (closeStream x) 0 ((spec env).Done i) s := by
  refine (harmless_of_tag (by simp +decide)).safe_op fun _ before s₁ _ _ _ _ hs => ?_
  have hf₁ : Answered i s₁ := (spec env).fin_rely hs hf
  dsimp only [Prog.ret_bind]
  split
  · exact Spec.proper_ret _ i s₁ hf₁
  · exact writeServerRSTStream_safe ⟨by simp, fun _ hodd => hs.2.2.1 x (hx hodd)⟩ fun y hy => .inl (hf₁ y hy)

theorem methods : Methods env (spec env) where
  turn ho := mild (by
    revert ho
    generalize Op.tag _ = t
    revert t
    decide)
  dispatch f _ := dispatch_proper f
  settings ack params := (recorderSettings_uses ack params).proper mild (by decide)
  answer x e code he := by
    refine writeRSTStreamID_proper ?_ ?_ x <;>
      · rintro rfl
        unfold GoErr.streamCode at he
        split at he <;> simp at he
  announce code := (sendGoAway_uses code).proper mild (by decide)
  shutdown := shutdownStreams_uses.proper mild (by decide)
  initial := sendInitialConnWindowUpdate_uses.proper mild (by decide)
  seed := seed_proper
  body q hq i s hcall hinv hf := by
    have hdone {α : Type} {p : M α} (hp : (spec env).Safe i p 0 ((spec env).Done i) s) :
        (spec env).Safe i (discard p) 0 ((spec env).Done i) s := by
      refine Spec.Safe.bind (hp.mono ?_)
      rintro _ g s₁ ⟨rfl, h₁⟩
      exact Spec.proper_ret _ i s₁ h₁
    cases q with
    | recv x ctx =>
      obtain ⟨_, hinv⟩ := hinv
      refine hdone (recv_safe ctx hf fun hodd => hinv.delivered x ?_)
      have hheld : (s.1.held x && true) = true := hcall
      simp only [World.held, Bool.and_true, Bool.and_eq_true, Bool.or_eq_true] at hheld
      simpa [hodd] using hheld.2
    | close x =>
      have hcall : (Call.close x).available s.1 && decide (x % 2 = 1 → x ∈ s.2.received) := hcall
      simp only [Bool.and_eq_true, decide_eq_true_eq] at hcall
      exact hdone (close_safe hf hcall.2)
    | accept ctx => exact hdone (acceptStream_proper ctx i s hf)
    | _ => exact (Call.body_uses env hq).proper mild (by simp only [Call.steps]; decide) i s hf

theorem verifies : (spec env).Verifies (Call.body env) :=
  methods.verifies (fun s _ h => wellFormed_of_available (w := s.1) (Bool.and_eq_true_iff.1 h).1)
    fun _ hf => properOp (by simp +decide) fun _ => methods.round hf

theorem init_inv (env : Env) : Inv (World.init env, {}) := by
  constructor <;> simp [World.init]

end Intake

/-- A stream that `registerStream` turns away, for the limit or for the queue, is reset with
REFUSED_STREAM; no other is, so none that was handed out or received from; and `Close` cancels
only what has been received from. -/
theorem refusals_truthful {env : Env} {c : Config Op (World × Intake)}
    (h : Reachable (intakeMachine env) (Call.body env) nobodyTurnedAway.guard
      (World.init env, {}) c) :
    (∀ i x, c.shared.2.stage x = some (i, .refused) → c.threads[i]? = some (.ret ()) →
      c.shared.1.turnedAway x) ∧
    (∀ x, .rstStream x .refusedStream ∈ c.shared.1.wire →
      (∃ i, c.shared.2.stage x = some (i, .refused)) ∧ x ∉ c.shared.1.delivered ∧
        x ∉ c.shared.2.received) ∧
    ∀ x, x % 2 = 1 → .rstStream x .cancel ∈ c.shared.1.wire → x ∈ c.shared.2.received := by
  have hinit : (Intake.spec env).inv (World.init env, {}) 0 := Intake.init_inv env
  have hfin (i) : (Intake.spec env).fin i (World.init env, {}) := fun x hx => by cases hx
  obtain ⟨_, hinv⟩ := Spec.inv_of_reachable hinit hfin Intake.verifies h
  refine ⟨fun i x hx hret => ?_, fun x hx => ?_, fun x hodd hx => hinv.cancelled x hx hodd⟩
  · refine Spec.fin_of_returned hinit hfin Intake.verifies h (fun p hp => ?_) x hx
    rw [hret] at hp
    exact (Option.some.inj hp).symm
  · obtain ⟨i, hi⟩ := hinv.refused x hx
    have hunqueued : ¬c.shared.2.Queued x := by
      rintro ⟨j, hj⟩
      simp [hi] at hj
    exact ⟨⟨i, hi⟩, fun h => hunqueued (hinv.delivered x h),
      fun h => hunqueued (hinv.received x h (hinv.used x _ hi).1)⟩

def refusedAndClosed : List (Event Call) :=
  Config.inTurn 0 (handshake ++ [(.frame (.headers 1 false true [1] none), 16),
    (.frame (.headers 3 false true [1] none), 18), (.accept .background, 4),
    (.recv 1 .background, 2), (.close 1, 8)])

theorem refusals_truthful_of_limit : ∃ c, Reachable (intakeMachine oneStream) (Call.body oneStream)
      nobodyTurnedAway.guard (World.init oneStream, {}) c ∧
    c.shared.2.stage 3 = some (3, .refused) ∧ c.shared.1.turnedAway 3 ∧
    .rstStream 3 .refusedStream ∈ c.shared.1.wire ∧ 3 ∉ c.shared.2.received ∧
    .rstStream 1 .cancel ∈ c.shared.1.wire ∧ 1 ∈ c.shared.2.received := by
  have hrun : (nobodyTurnedAway.run (intakeMachine oneStream) (Call.body oneStream)
      ⟨(World.init oneStream, {}), []⟩ refusedAndClosed).any (fun c =>
        c.shared.2.stage 3 = some (3, .refused) ∧ c.threads.all Prog.returned ∧
          c.threads.length = 7 ∧ .rstStream 3 .refusedStream ∈ c.shared.1.wire ∧
          .rstStream 1 .cancel ∈ c.shared.1.wire) = true := by
    decide +kernel
  obtain ⟨c, hc, h⟩ := Test.exists_reachable hrun
  simp only [decide_eq_true_eq] at h
  obtain ⟨hst, hret, hlen, hrefused, hcancel⟩ := h
  have htrue := refusals_truthful hc
  refine ⟨c, hc, hst, htrue.1 3 3 hst ?_, hrefused, (htrue.2.1 3 hrefused).2.2, hcancel,
    htrue.2.2 1 rfl hcancel⟩
  have hthree : 3 < c.threads.length := by omega
  rw [List.getElem?_eq_getElem hthree]
  exact congrArg some (Config.quiet_of_returned hret _ (List.getElem_mem hthree))

/-- The server shuts down, so it closes the next stream as soon as it is handed out: nothing of it has
been received, nothing has been answered, and it is cancelled. -/
theorem drained_stream_is_cancelled : ∃ c, Reachable (intakeMachine getRequests)
      (Call.body getRequests) anyCall.noted (World.init getRequests, {}) c ∧
    spawnStream true false 1 = some (.close 1) ∧ c.shared.1.delivered = [1] ∧
    c.shared.2.received = [] ∧ c.shared.1.wire = (World.init getRequests).wire ++
      [.settingsAck, .goAway maxStreamID .noError, .rstStream 1 .cancel] := by
  have hrun : (Test.run ⟨fun s q => q.available s.1, fun _ _ _ _ => true⟩ (intakeMachine getRequests)
      (Call.body getRequests) ⟨(World.init getRequests, {}), []⟩
      (Config.inTurn 0 (handshake ++ [(.goAwayGraceful, 6),
        (.frame (.headers 1 true true [1] none), 17), (.accept .background, 4), (.close 1, 8)]))).any
      (fun c => c.shared.1.delivered = [1] ∧ c.shared.2.received = [] ∧
        c.shared.1.wire = (World.init getRequests).wire ++
          [.settingsAck, .goAway maxStreamID .noError, .rstStream 1 .cancel]) = true := by
    decide +kernel
  obtain ⟨c, hc, h⟩ := Test.exists_reachable hrun
  simp only [decide_eq_true_eq] at h
  refine ⟨c, hc.mono (fun _ _ h => h) fun _ _ _ _ _ => trivial, rfl, h⟩

end PoseidonServer.Conn
