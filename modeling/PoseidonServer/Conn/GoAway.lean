import PoseidonServer.Conn.Calls
import PoseidonServer.Conn.Quiet
import PoseidonServer.Conn.Table

/-! What GOAWAY promises: the identifiers announced never rise, and no stream above the last one
announced is handed out. -/

namespace PoseidonServer.Conn

open Concurrent

def Outbound.lastStreamID : Outbound → Option Nat
  | .goAway last _ => some last
  | _ => none

def World.announced (w : World) : List Nat := w.wire.filterMap Outbound.lastStreamID

namespace Announced

structure Inv (w : World) : Prop where
  bound : ∀ last ∈ w.announced, w.goAwaySentID ≤ last
  falling : w.announced.Pairwise (· ≥ ·)

def spec (env : Env) (G : Guard Op World Call) : Spec (machine env) (owned G) PUnit where
  inv w _ := Inv w
  rely i w w' := w.wmu = some i → w'.wmu = some i ∧ w'.goAwaySentID = w.goAwaySentID
  rely_refl _ _ h := ⟨h, rfl⟩
  rely_trans h₁ h₂ h := by
    obtain ⟨hw, hs⟩ := h₁ h
    exact ⟨(h₂ hw).1, (h₂ hw).2.trans hs⟩

variable {env : Env} {G : Guard Op World Call} {i : Nat} {w w' : World}

theorem Inv.congr (h : Inv w) (ha : w'.announced = w.announced)
    (hs : w'.goAwaySentID ≤ w.goAwaySentID) : Inv w' := by
  refine ⟨fun last hl => hs.trans (h.bound last ?_), ?_⟩
  · rwa [ha] at hl
  · rw [ha]
    exact h.falling

theorem announced_of_exec {o : Op β} {b : β} (ho : o.tag ≠ .write .goAway)
    (hb : (b, w') ∈ o.exec env i w) : w'.announced = w.announced := by
  obtain hw | ⟨f, hf, hw⟩ := wire_exec hb
  · simp only [World.announced, hw]
  · rw [hf] at ho
    have hnone : f.lastStreamID = none := by
      cases f
      case goAway => exact absurd rfl ho
      all_goals rfl
    simp [World.announced, hw, hnone]

theorem inv_of_exec {o : Op β} {b : β} (h : Inv w) (ho : o.tag ∉ [.clampGoAwayID, .write .goAway])
    (hb : (b, w') ∈ o.exec env i w) : Inv w' ∧ w'.goAwaySentID = w.goAwaySentID := by
  have hst := still_of_exec hb
  have ha : o.tag ≠ .write .goAway → w'.announced = w.announced := fun h => announced_of_exec h hb
  have hs := hst.sent (avoids_one ho (by decide))
  exact ⟨h.congr (ha (avoids_one ho (by decide))) hs.le, hs⟩

theorem harmless {o : Op β} (ho : o.tag ∉ [.clampGoAwayID, .write .goAway, .lockW, .unlockW]) :
    (spec env G).Harmless o := by
  intro i w _ h _
  refine ⟨trivial, fun b w' hb => ?_⟩
  have hf := frame_of_tag hb
  have hinv : o.tag ∉ [.clampGoAwayID, .write .goAway] → _ := fun ho => inv_of_exec h ho hb
  generalize o.tag = t at ho hf hinv
  obtain ⟨hinv, hs⟩ := hinv (by simp_all)
  refine ⟨hinv, fun j hj => ⟨?_, hs⟩⟩
  rw [hf.wmu (by simp_all [Tag.kind_lockW]), hj]

theorem mild_lockW : (spec env G).Mild .lockW := by
  intro i w _ h _ _
  refine ⟨trivial, fun b w' hb => ?_⟩
  change (b, w') ∈ Op.exec env i w .lockW at hb
  refine ⟨(inv_of_exec h (by decide) hb).1, fun j _ hj => ?_, trivial⟩
  rw [(mem_whenFree hb).1] at hj
  cases hj

theorem mild_unlockW : (spec env G).Mild .unlockW := by
  intro i w _ h _ hok
  obtain ⟨-, held, hof, hw⟩ := hok
  refine ⟨trivial, fun b w' hb => ?_⟩
  change (b, w') ∈ Op.exec env i w .unlockW at hb
  refine ⟨(inv_of_exec h (by decide) hb).1, fun j hne hj => ?_, trivial⟩
  rw [hof.2.2.1 hw] at hj
  exact absurd (Option.some.inj hj).symm hne

theorem mild {o : Op β} (ho : o.tag ∉ [.clampGoAwayID, .write .goAway]) : (spec env G).Mild o := by
  by_cases hl : o.tag ∈ [.lockW, .unlockW]
  · cases o <;> simp only [Op.tag, List.mem_cons, List.not_mem_nil, or_false, reduceCtorEq] at hl
    case lockW => exact mild_lockW
    case unlockW => exact mild_unlockW
  · refine (harmless ?_).mild
    generalize o.tag = t at ho hl
    simp_all

theorem writeGoAway_safe {last : Nat} {code : ErrCode} {k : Bool → M α}
    (hw : w.wmu = some i) (hk : ∀ ok, (spec env G).Proper (k ok)) :
    (spec env G).Safe i ((writeGoAway last code).bind k) 0 ((spec env G).Done i) w := by
  intro w₁ hw₁ _ _
  have h₁ := (hw₁ hw).1
  refine ⟨trivial, fun b w₂ hb => ?_⟩
  change (b, w₂) ∈ Op.exec env i w₁ (.clampGoAwayID last) at hb
  cases List.mem_singleton.1 hb
  refine ⟨0, fun _ (h : Inv w₁) => h.congr rfl (min_le_right _ _), fun j hne hj => ?_, ?_⟩
  · rw [h₁] at hj
    exact absurd (Option.some.inj hj).symm hne
  intro w₃ hw₃ _ _
  obtain ⟨h₃, hs₃⟩ := hw₃ h₁
  refine ⟨trivial, fun ok w₄ hb => ?_⟩
  change (ok, w₄) ∈ Op.exec env i w₃ (.write (.goAway (min last w₁.goAwaySentID) code)) at hb
  refine ⟨0, fun _ (h : Inv w₃) => ?_, fun j hne hj => ?_, hk ok i w₄ trivial⟩
  · have hs₄ := (still_of_exec hb).sent (by simp)
    obtain ⟨-, -, rfl⟩ | ⟨-, -, hwire⟩ := write_exec hb
    · exact h
    · have ha : w₄.announced = w₃.announced ++ [w₃.goAwaySentID] := by
        simp [World.announced, hwire, Outbound.lastStreamID, hs₃]
      refine ⟨fun last hlast => ?_, ?_⟩
      · rw [ha, List.mem_append, List.mem_singleton] at hlast
        rw [hs₄]
        exact hlast.elim (h.bound last) fun h => h.ge
      · rw [ha, List.pairwise_append]
        exact ⟨h.falling, List.pairwise_singleton _ _, by simpa using h.bound⟩
  · rw [h₃] at hj
    exact absurd (Option.some.inj hj).symm hne

theorem locked_op {o : Op β} {k : β → M α} (ho : o.tag ∈ [.isClosed, .lastPeerID])
    (hw : w.wmu = some i)
    (hk : ∀ b w', w'.wmu = some i → (spec env G).Safe i (k b) 0 ((spec env G).Done i) w') :
    (spec env G).Safe i (.op o k) 0 ((spec env G).Done i) w := by
  refine (harmless ?_).safe_op fun _ b w₂ _ _ _ _ h => hk b w₂ (h hw).1
  generalize o.tag = t at ho
  simp only [List.mem_cons, List.not_mem_nil, or_false] at ho
  obtain rfl | rfl := ho <;> decide

theorem lockW_proper {k : Unit → M α} (hk : ∀ i w, w.wmu = some i →
    (spec env G).Safe i (k ()) 0 ((spec env G).Done i) w) : (spec env G).Proper (.op .lockW k) := by
  intro i w _ w₁ _ ⟨r, hr⟩ hok
  obtain ⟨-, h⟩ := mild_lockW i w₁ _ hr trivial hok
  refine ⟨trivial, fun b w₂ hb => ⟨0, fun r hr => ((mild_lockW i w₁ r hr trivial hok).2 b w₂ hb).1,
    (h b w₂ hb).2.1, hk i w₂ ?_⟩⟩
  change (b, w₂) ∈ Op.exec env i w₁ .lockW at hb
  rw [(mem_whenFree hb).2]

theorem mildOp {o : Op β} {k : β → M α} (ho : o.tag ∉ [.clampGoAwayID, .write .goAway])
    (hk : ∀ b, (spec env G).Proper (k b)) : (spec env G).Proper (.op o k) := .op (mild ho) hk

theorem sendGoAway_proper (code : ErrCode) : (spec env G).Proper (sendGoAway code) := by
  simp only [sendGoAway, Prog.bind_eq, Prog.lift_bind, Prog.pure_eq]
  refine mildOp (by decide) fun requested => ?_
  split
  · refine lockW_proper fun i w hw => locked_op (by decide) hw fun closed w hw => ?_
    have hunlock : (spec env G).Proper (Prog.lift .unlockW) :=
      mildOp (by decide) fun _ => Spec.proper_ret _
    cases closed with
    | true => exact hunlock i w trivial
    | false =>
      refine locked_op (by decide) hw fun last w hw => ?_
      exact writeGoAway_safe hw fun _ => hunlock
  · exact Spec.proper_ret _

theorem goAwayWith_proper {last : M Nat} (hlast : last = pure maxStreamID ∨ last = .lift .lastPeerID)
    (code : ErrCode) : (spec env G).Proper (goAwayWith last code) := by
  have hunlock (r : Except GoErr Unit) : (spec env G).Proper (.op .unlockW fun _ => .ret r) :=
    mildOp (by decide) fun _ => Spec.proper_ret _
  simp only [goAwayWith, Prog.bind_eq, Prog.lift_bind, Prog.pure_eq]
  refine mildOp (by decide) fun requested => ?_
  split
  · refine lockW_proper fun i w hw => locked_op (by decide) hw fun closed w hw => ?_
    split
    · exact hunlock _ i w trivial
    · obtain rfl | rfl := hlast
      · exact writeGoAway_safe hw fun _ => hunlock _
      · exact locked_op (by decide) hw fun last w hw => writeGoAway_safe hw fun _ => hunlock _
  · exact Spec.proper_ret _

theorem closeConn_proper : (spec env G).Proper closeConn := by
  have hrest : (spec env G).Proper (.op .unlockW fun _ => .op .closeTransport fun _ =>
      .op .awaitReaderDone .ret) :=
    mildOp (by decide) fun _ => mildOp (by decide) fun _ => mildOp (by decide) fun _ =>
      Spec.proper_ret _
  simp only [closeConn, Prog.bind_eq, Prog.lift_bind, Prog.pure_eq]
  refine mildOp (by decide) fun closed => ?_
  split
  · refine mildOp (by decide) fun _ => mildOp (by decide) fun _ => mildOp (by decide) fun _ =>
      mildOp (by decide) fun _ => lockW_proper fun i w hw => ?_
    refine locked_op (by decide) hw fun last w hw => writeGoAway_safe hw fun ok => ?_
    cases ok with
    | true => exact mildOp (by decide) fun _ => hrest
    | false => exact hrest
  · exact Spec.proper_ret _

theorem methods : Methods env (spec env G) where
  turn ho := mild (by
    revert ho
    generalize Op.tag _ = t
    revert t
    decide)
  dispatch f _ := (dispatch_callback_uses env f).proper mild (by decide)
  settings ack params := (recorderSettings_uses ack params).proper mild (by decide)
  answer x _ code _ := (writeRSTStreamID_uses x code).proper mild (by decide)
  announce := sendGoAway_proper
  shutdown := shutdownStreams_uses.proper mild (by decide)
  initial := sendInitialConnWindowUpdate_uses.proper mild (by decide)
  seed := (seed_uses env).proper mild (by decide)
  body q hq i s _ _ hf := by
    refine (?_ : (spec env G).Proper (q.body env)) i s hf
    cases q with
    | closeConn => exact closeConn_proper
    | goAwayGraceful => exact (goAwayWith_proper (.inl rfl) _).bind fun _ => Spec.proper_ret _
    | goAway => exact (goAwayWith_proper (.inr rfl) _).bind fun _ => Spec.proper_ret _
    | recv x ctx =>
      refine (Call.body_uses env hq).proper mild ?_
      rw [Call.steps, Outbound.tag_windowUpdate]
      split <;> decide
    | _ => exact (Call.body_uses env hq).proper mild (by simp only [Call.steps]; decide)

theorem serveFrame_proper {f : Inbound} (hf : f.WellFormed) :
    (spec env G).Proper (serveFrame env f) := mildOp (by simp) fun _ => methods.round hf

theorem init_inv (env : Env) : Inv (World.init env) := by
  have ha : (World.init env).announced = [] := rfl
  constructor <;> simp [ha]

theorem inv_of_reach (hG : ∀ w q, G.callOk w q → q.available w) {c : Config Op World}
    (hc : Reach env G c) : Inv c.shared :=
  (Spec.inv_of_reachable (init_inv env) (fun _ => trivial) (methods.verifies
    (fun _ _ h => wellFormed_of_available (hG _ _ h)) fun _ => serveFrame_proper)
    (reach_owned hG hc)).elim fun _ h => h

end Announced

def World.covered (w : World) (id : Nat) : Bool :=
  (List.range (w.maxClient + 1)).all fun x =>
    x % 2 = 1 && id < x → (w.str x).isNone || (w.state x).terminal

/-- Runs in which a stream is admitted only while its identifier is not above the last one
announced, and the highest identifier read for a GOAWAY is not overtaken before it is clamped. -/
def promiseKept : Test Op World Call where
  callOk w q := q.available w
  opOk _ w _ o := match o with
    | .admitClient x _ => x ≤ w.goAwaySentID
    | .clampGoAwayID id => w.covered id
    | _ => true

namespace Promised

structure Of (w : World) (x : Nat) : Prop where
  odd : x % 2 = 1
  used : x ≤ w.maxClient
  created : w.created x
  kept : x ≤ w.goAwaySentID ∨ (w.state x).terminal = true

structure Inv (w : World) : Prop where
  nextPush : w.nextPush % 2 = 0
  queued : ∀ x ∈ w.acceptCh, Of w x

@[simp] def Asks (w : World) : Op β → Prop
  | .tryEnqueue x | .deliver x => Of w x
  | _ => True

def spec (env : Env) : Spec (machine env) (owned promiseKept.guard) PUnit where
  inv w _ := Inv w
  rely _ w w' := ∀ x, Of w x → Of w' x
  rely_refl _ _ _ h := h
  rely_trans h₁ h₂ x h := h₂ x (h₁ x h)
  pre _ w _ o := Asks w o

variable {env : Env} {i : Nat} {w w' : World}

theorem client_of_exec {o : Op β} {b : β} {x : Nat} (hpush : w.nextPush % 2 = 0) (hx : x % 2 = 1)
    (ho : o.kind ≠ .register) (hb : (b, w') ∈ o.exec env i w) :
    w'.maxClient = w.maxClient ∧ w'.nextPush % 2 = 0 ∧ (w.created x → w'.created x) ∧
      ((w.state x).terminal = true → (w'.state x).terminal = true) := by
  have hf := frame_of_exec hb
  have hsame (hk : o.kind ∉ [.register, .reserve, .release, .drain, .advance, .advanceRecv]) :
      w'.maxClient = w.maxClient ∧ w'.nextPush % 2 = 0 ∧ (w.created x → w'.created x) ∧
        ((w.state x).terminal = true → (w'.state x).terminal = true) := by
    have ht := hf.table (avoids hk (by decide))
    simp only [World.tableView, Prod.mk.injEq] at ht
    refine ⟨ht.2.1, by rw [ht.2.2.1, hpush], (hf.created (avoids hk (by decide)) x).2, ?_⟩
    rw [hf.state_eq (avoids hk (by decide))]
    exact id
  by_cases hk : o.kind ∉ [.register, .reserve, .release, .drain, .advance, .advanceRecv]
  · exact hsame hk
  rw [not_not] at hk
  cases o <;> simp only [Op.kind, List.mem_cons, List.not_mem_nil, or_false, or_self, reduceCtorEq]
    at hk
  case admitClient => exact absurd rfl ho
  case reservePush limit =>
    have hne : x ≠ w.nextPush := by omega
    simp only [Op.exec, Op.underTable, World.reservePush] at hb
    split at hb
    · split at hb <;> cases List.mem_singleton.1 hb
      · exact ⟨rfl, hpush, id, id⟩
      · refine ⟨rfl, by simpa using hpush, ?_⟩
        simp [World.created, World.state, World.setStr, hne]
    · cases hb
  case release y =>
    simp only [Op.exec, Op.underTable, World.release] at hb
    split at hb
    · split at hb <;> cases List.mem_singleton.1 hb <;> exact ⟨rfl, hpush, id, id⟩
    · cases hb
  case drain =>
    simp only [Op.exec] at hb
    split at hb
    · obtain ⟨l, -, hl⟩ := List.mem_map.1 hb
      cases hl
      exact ⟨rfl, hpush, id, id⟩
    · cases hb
  case advance y delta =>
    have ht := hf.table (delta.kind_notMem (by simp))
    have hc := hf.created (delta.kind_notMem (by simp)) x
    simp only [World.tableView, Prod.mk.injEq] at ht
    cases List.mem_singleton.1 hb
    refine ⟨ht.2.1, by rw [ht.2.2.1, hpush], hc.2, fun h => ?_⟩
    rw [state_advance]
    split
    · rename_i hy
      exact StreamState.terminal_union (hy.1 ▸ h)
    · exact h
  case write f => exact hsame (f.kind_notMem (by simp))

theorem of_covered {id x : Nat} (h : Of w x) (hid : w.covered id = true) :
    x ≤ id ∨ (w.state x).terminal = true := by
  by_contra hcon
  simp only [not_or, Nat.not_le] at hcon
  have := List.all_eq_true.1 hid x (List.mem_range.2 (Nat.lt_succ_of_le h.used))
  have hsome : (w.str x).isNone = false := by simpa [World.created] using h.created
  simp_all [h.odd]

theorem of_exec {o : Op β} {b : β} {x : Nat} (hpush : w.nextPush % 2 = 0) (ho : o.kind ≠ .register)
    (hok : promiseKept.guard.opOk i w o) (hb : (b, w') ∈ o.exec env i w) (h : Of w x) : Of w' x := by
  obtain ⟨hmax, -, hc, ht⟩ := client_of_exec hpush h.odd ho hb
  refine ⟨h.odd, hmax ▸ h.used, hc h.created, ?_⟩
  by_cases hclamp : o.tag = .clampGoAwayID
  · cases o <;> simp only [Op.tag, reduceCtorEq] at hclamp
    case clampGoAwayID id =>
      have hcov := of_covered h hok
      cases List.mem_singleton.1 hb
      obtain hid | hterm := hcov
      · exact h.kept.imp_left (le_min hid)
      · exact .inr hterm
  · rw [(still_of_exec hb).sent hclamp]
    exact h.kept.imp_right ht

theorem Asks.queued {o : Op β} {x : Nat} (h : Asks w o) (hx : o.queues = some x) : Of w x := by
  cases o <;> simp only [Op.queues, reduceCtorEq, Option.some.injEq] at hx
  exact hx ▸ h

theorem step {o : Op β} {b : β} (h : Inv w) (hok : promiseKept.guard.opOk i w o)
    (ho : o.kind ≠ .register) (hask : Asks w o) (hb : (b, w') ∈ o.exec env i w) :
    Inv w' ∧ ∀ j, (spec env).rely j w w' := by
  have hof (x) := of_exec (x := x) h.nextPush ho hok hb
  refine ⟨⟨(client_of_exec (x := 1) h.nextPush rfl ho hb).2.1, fun x hx => hof x ?_⟩, fun _ => hof⟩
  exact ((accept_exec hb).1 x hx).elim (h.queued x) hask.queued

theorem harmless {o : Op β} (ho : o.tag ∉ [.admitClient, .tryEnqueue, .deliver]) :
    (spec env).Harmless o := by
  intro i w _ h hok
  have hask : o.kind ≠ .register ∧ Asks w o := by
    rw [← o.kind_tag, Ne, Tag.kind_register]
    cases o <;> simp_all
  exact ⟨hask.2, fun b w' hb => step h hok.1 hask.1 hask.2 hb⟩

theorem safe_op {o : Op β} {k : β → M α} {Q : α → PUnit → World → Prop} (ho : o.kind ≠ .register)
    (hask : ∀ w', (spec env).rely i w w' → Asks w' o)
    (hk : ∀ b w', (spec env).Safe i (k b) 0 Q w') : (spec env).Safe i (.op o k) 0 Q w := by
  intro w₁ hw ⟨_, h⟩ hok
  refine ⟨hask w₁ hw, fun b w₂ hb => ?_⟩
  obtain ⟨h₂, hrely⟩ := step h hok.1 ho (hask w₁ hw) hb
  exact ⟨0, fun _ _ => h₂, fun j _ => hrely j, hk b w₂⟩

theorem admit_exec {x : Nat} {prio : Option Priority} {b : Bool} (h : Inv w) (hx : x % 2 = 1)
    (hsent : x ≤ w.goAwaySentID) (hb : (b, w') ∈ Op.exec env i w (.admitClient x prio)) :
    Inv w' ∧ Of w' x ∧ ∀ y, Of w y → Of w' y := by
  have hs := (still_of_exec hb).sent (by simp)
  have ha := (frame_of_exec hb).accept (by simp)
  simp only [World.acceptView, Prod.mk.injEq] at ha
  have hstr : w'.nextPush = w.nextPush ∧ w'.maxClient = max w.maxClient x ∧ w'.created x ∧
      ∀ y, y ≠ x → w'.str y = w.str y := by
    simp only [Op.exec, Op.underTable, World.admitClient] at hb
    split at hb
    · split at hb <;> cases List.mem_singleton.1 hb <;> simp +contextual [World.created, World.setStr]
    · cases hb
  obtain ⟨hnext, hmax, hc, hother⟩ := hstr
  have hof : Of w' x := ⟨hx, by omega, hc, .inl (hs ▸ hsent)⟩
  have hmono (y) (hy : Of w y) : Of w' y := by
    by_cases hyx : y = x
    · exact hyx ▸ hof
    · refine ⟨hy.odd, by have := hy.used; omega, ?_, ?_⟩
      · rw [World.created, hother y hyx]
        exact hy.created
      · rw [hs, World.state, hother y hyx]
        exact hy.kept
  exact ⟨⟨hnext ▸ h.nextPush, fun y hy => hmono y (h.queued y (ha.1 ▸ hy))⟩, hof, hmono⟩

theorem registerStream_safe {x : Nat} (hx : x % 2 = 1) (prio : Option Priority) :
    (spec env).Safe i (registerStream x prio) 0 (fun _ g _ => g = 0 ∧ True) w := by
  have hrefuse (w : World) : (spec env).Safe i ((writeServerRSTStream x .refusedStream).bind fun _ =>
      .op (.cancelStream x) fun _ => .ret false) 0 (fun _ g _ => g = 0 ∧ True) w := by
    have hrst := writeServerRSTStream_uses x .refusedStream
    refine (hrst.bind fun _ => ?_).safe harmless (by decide) fun _ _ _ => ⟨rfl, trivial⟩
    simp +decide
  intro w₁ _ ⟨_, h⟩ hok
  refine ⟨trivial, fun b w₂ hb => ?_⟩
  change (b, w₂) ∈ Op.exec env i w₁ (.admitClient x prio) at hb
  obtain ⟨h₂, hof, hmono⟩ := admit_exec h hx (of_decide_eq_true hok.1) hb
  refine ⟨0, fun _ _ => h₂, fun j _ => hmono, ?_⟩
  cases b with
  | false => exact hrefuse w₂
  | true =>
    refine safe_op (by simp) (fun w' hw => hw x hof) fun ok w₃ => ?_
    cases ok with
    | true => exact fun _ _ => ⟨rfl, trivial⟩
    | false => exact hrefuse w₃

theorem layer : Layer (spec env) (fun _ _ => True) where
  fin _ _ := trivial
  harmless := fun {β o} ho => by
    refine harmless fun ht => ho ?_
    rw [← o.kind_tag]
    generalize o.tag = t at ht
    revert t
    decide
  rely _ h := h
  read := fun {i w f k} hk => (harmless (by simp)).safe_op fun _ _ w₂ _ _ _ _ _ => hk w₂ trivial
  register prio _ hx _ := registerStream_safe hx prio
  frameDone _ := (harmless (by simp)).safe_op fun _ _ _ _ _ _ _ _ => fun _ _ => ⟨rfl, trivial⟩
  stopReader _ := (harmless (by simp)).safe_op fun _ _ _ _ _ _ _ _ => fun _ _ => ⟨rfl, trivial⟩
  accept := fun {i w} ctx => by
    refine acceptStream_safe (S := spec env) Of ?_ ?_ ?_ ?_ ctx
    · exact fun hw h => hw _ h
    · refine fun {β o} ho => harmless ?_
      generalize o.tag = t at ho
      revert t
      decide
    · exact fun h _ hx => h.queued _ hx
    · exact fun hx => safe_op (by simp) (fun w' hw => hw _ hx) fun _ _ _ _ => rfl

theorem init_inv (env : Env) : Inv (World.init env) := by
  constructor <;> simp [World.init]

end Promised

/-- The last-stream-ids of the GOAWAY frames never rise, in any run; and as long as streams are
admitted only up to the identifier announced, AcceptStream hands out none above it. -/
theorem goAway_promise_kept (env : Env) :
    (∀ c, Reach env anyCall c → c.shared.announced.Pairwise (· ≥ ·)) ∧
    ∀ c e c', Step env promiseKept.guard c e c' → ∀ x,
      c'.shared.delivered = c.shared.delivered ++ [x] → ∀ last ∈ c.shared.announced, x ≤ last := by
  refine ⟨fun c hc => (Announced.inv_of_reach (fun _ _ h => h) hc).falling, ?_⟩
  intro c e c' h x hx last hlast
  have hannounced := Announced.inv_of_reach (G := promiseKept.guard) (fun _ _ h => h) h.reach
  have h' := Spec.taken_guard (Promised.init_inv env) (fun _ => trivial)
    Promised.layer.verifies (step_owned (fun _ _ h => h) h)
  obtain hsame | ⟨i, β, o, b, hok, hb⟩ := h'.exec
  · simp [hsame] at hx
  · obtain ⟨hsame, -⟩ | ⟨y, hy, hopen, hadd, -⟩ := (accept_exec hb).2
    · simp [hsame] at hx
    · obtain rfl : y = x := by simpa [hadd] using hx
      have hof : Promised.Of c.shared y := by
        have hask : Promised.Asks c.shared o := hok.2.1
        cases o <;> simp only [Op.delivers, reduceCtorEq, Option.some.injEq] at hy
        exact hy ▸ hask
      have hkept := hof.kept.resolve_right (by simp [hopen])
      exact hkept.trans (hannounced.bound last hlast)

def acceptedAfterGraceful : List (Event Call) :=
  Config.inTurn 0 (handshake ++ [(.frame (.headers 1 false true [1] none), 16),
    (.goAwayGraceful, 6), (.frame (.headers 3 false true [1] none), 16), (.accept .background, 4),
    (.accept .background, 3)])

theorem goAway_promise_kept_graceful : ∃ c c',
    Step getRequests promiseKept.guard c (.step 6 0) c' ∧ c.shared.announced = [maxStreamID] ∧
      c'.shared.delivered = c.shared.delivered ++ [3] ∧ 3 ≤ maxStreamID := by
  obtain ⟨c, c', hc, h⟩ := exists_step_of_test getRequests promiseKept acceptedAfterGraceful
    (e := .step 6 0) (p := fun c c' => c.shared.announced = [maxStreamID] ∧
      c'.shared.delivered = c.shared.delivered ++ [3]) (by decide +kernel)
  simp only [decide_eq_true_eq] at h
  refine ⟨c, c', hc, h.1, h.2, ?_⟩
  exact (goAway_promise_kept getRequests).2 c _ c' hc 3 h.2 maxStreamID (by simp [h.1])

/-- GOAWAY announces that no stream will be processed; the next request is admitted and handed
out all the same. -/
theorem stream_above_goAway_is_delivered : ∃ c e c', Step getRequests anyCall c e c' ∧
    c.shared.announced = [0] ∧ c'.shared.delivered = c.shared.delivered ++ [1] := by
  obtain ⟨c, c', hc, h⟩ := exists_step_of_run getRequests (Config.inTurn 0 (handshake ++
      [(.goAway .noError, 7), (.frame (.headers 1 false true [1] none), 16),
        (.accept .background, 3)])) (e := .step 4 0)
    (p := fun c c' => c.shared.announced = [0] ∧
      c'.shared.delivered = c.shared.delivered ++ [1]) (by decide +kernel)
  simp only [decide_eq_true_eq] at h
  exact ⟨c, _, c', hc, h⟩

end PoseidonServer.Conn
