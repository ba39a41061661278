import PoseidonServer.Concurrent.Observer
import PoseidonServer.Conn.Reset.Silent

/-! Stream-level WINDOW_UPDATE frames: a refund that is decided while the stream is open goes out
while it is open, if the stream is not closed in between. -/

namespace PoseidonServer.Conn

open Concurrent

/-- What an observer of `creditConsumed` notes, for each goroutine and its stream. -/
structure Refunds where
  /-- The refund has been taken out of the books, and the state is to be looked at. -/
  due : List (Nat × Nat) := []
  /-- The state has been found not to be reset, and the frame is to be written. -/
  decided : List (Nat × Nat) := []

def Refunds.see (i : Nat) : {β : Type} → Op β → β → Refunds → Refunds
  | _, .creditRecv x _, refund, t => if 0 < refund then { t with due := (i, x) :: t.due } else t
  | _, .state x, st, t =>
    if (i, x) ∈ t.due then
      { due := t.due.filter (·.1 ≠ i), decided := if st.reset then t.decided else (i, x) :: t.decided }
    else t
  | _, .isClosed, closed, t =>
    if closed then { t with decided := t.decided.filter (·.1 ≠ i) } else t
  | _, .write _, _, t => { t with decided := t.decided.filter (·.1 ≠ i) }
  | _, _, _, t => t

abbrev refundMachine (env : Env) : Machine Op (World × Refunds) :=
  (machine env).observed Refunds.see

theorem reach_iff_observed {env : Env} {c : Config Op World} : Reach env anyCall c ↔
    ∃ t, Reachable (refundMachine env) (Call.body env) anyCall.noted (World.init env, {}) (c.noted t) :=
  reachable_observed_iff (Refunds.mk [] [])

/-- Runs in which a stream that is not reset is not closed when the state is looked at for a refund,
and no frame that closes a stream is read or written between that and the WINDOW_UPDATE. -/
def refundsInTime : Test Op (World × Refunds) Call where
  callOk s q := q.available s.1
  opOk i s _ o := match o with
    | .state x => (i, x) ∈ s.2.due → (s.1.state x).reset = false → s.1.closedOnWire x = false
    | .readFrame f => ∀ p ∈ s.2.decided,
        { s.1 with inbound := s.1.inbound ++ [f] }.closedOnWire p.2 = false
    | .write f => s.1.down = true ∨ ∀ p ∈ s.2.decided,
        { s.1 with wire := s.1.wire ++ [f] }.closedOnWire p.2 = false
    | _ => true

theorem closedOnWire_congr {w w' : World} (hin : w'.inbound = w.inbound) (hout : w'.wire = w.wire)
    (x : Nat) : w'.closedOnWire x = w.closedOnWire x := by
  simp only [World.closedOnWire, hin, hout]

namespace Refunds

variable {env : Env} {i j x : Nat} {t : Refunds}

theorem see_decided {o : Op β} {b : β} (hij : j ≠ i) :
    (j, x) ∈ (see i o b t).decided ↔ (j, x) ∈ t.decided := by
  cases o <;> simp only [see]
  case creditRecv => split <;> rfl
  case state y =>
    split
    · dsimp only
      split
      · rfl
      · simp [hij]
    · rfl
  case isClosed => split <;> simp [hij]
  case write => simp [hij]

theorem see_due {o : Op β} {b : β} (hij : j ≠ i) :
    (j, x) ∈ (see i o b t).due ↔ (j, x) ∈ t.due := by
  cases o <;> simp only [see]
  case creditRecv => split <;> simp [hij]
  case state y => split <;> simp [hij]
  case isClosed => split <;> rfl

def Inv (s : World × Refunds) : Prop := ∀ p ∈ s.2.decided, s.1.closedOnWire p.2 = false

def Idle (i : Nat) (s : World × Refunds) : Prop := ∀ x, (i, x) ∉ s.2.due ∧ (i, x) ∉ s.2.decided

def spec (env : Env) : Spec (refundMachine env) refundsInTime.guard PUnit where
  inv s _ := Inv s
  rely i s s' := ∀ x, ((i, x) ∈ s'.2.due ↔ (i, x) ∈ s.2.due) ∧
    ((i, x) ∈ s'.2.decided ↔ (i, x) ∈ s.2.decided)
  rely_refl _ _ _ := ⟨Iff.rfl, Iff.rfl⟩
  rely_trans h₁ h₂ x := ⟨(h₂ x).1.trans (h₁ x).1, (h₂ x).2.trans (h₁ x).2⟩
  pre i s _ o := ∀ x n, o.written = some (.windowUpdate x n) → x ≠ 0 → (i, x) ∈ s.2.decided
  fin := Idle
  fin_rely h hf x := ⟨fun hx => (hf x).1 ((h x).1.1 hx), fun hx => (hf x).2 ((h x).2.1 hx)⟩

variable {s s' : World × Refunds}

theorem Inv.step {o : Op β} {b : β} (h : Inv s) (hok : refundsInTime.guard.opOk i s o)
    (hb : (b, s') ∈ (refundMachine env).exec i o s) : Inv s' := by
  obtain ⟨w, t⟩ := s
  obtain ⟨w', t'⟩ := s'
  obtain ⟨hw, rfl⟩ := mem_observed hb
  change (b, w') ∈ o.exec env i w at hw
  intro p hp
  change p ∈ (see i o b t).decided at hp
  have hwire := wire_exec hw
  have hturn := (frame_of_exec hw).turn
  have hclosed (hin : w'.inbound = w.inbound) (hout : w'.wire = w.wire)
      (hp : p ∈ t.decided) : w'.closedOnWire p.2 = false := by
    rw [closedOnWire_congr hin hout]
    exact h p hp
  cases o
  case readFrame f =>
    obtain ⟨-, -, hview⟩ := readFrame_exec hw
    simp only [World.readerView, Prod.mk.injEq] at hview
    have hout : w'.wire = w.wire := by simpa using hwire
    rw [closedOnWire_congr (w := { w with inbound := w.inbound ++ [f] }) hview.2.2.2.2 hout]
    exact of_decide_eq_true hok p hp
  case write f =>
    obtain ⟨-, -, hsame⟩ | ⟨-, hup, hout⟩ := write_exec hw
    · rw [hsame]
      exact h p (List.mem_of_mem_filter hp)
    · obtain hdown | hopen := of_decide_eq_true hok
      · simp [hup] at hdown
      · rw [closedOnWire_congr (w := { w with wire := w.wire ++ [f] }) ?_ hout]
        · exact hopen p (List.mem_of_mem_filter hp)
        · exact congrArg (·.2.2) (hturn (f.kind_ne (by simp)))
  case state x =>
    cases List.mem_singleton.1 hw
    simp only [see] at hp
    split at hp
    · rename_i hdue
      dsimp only at hp
      split at hp
      · exact h p hp
      · rename_i hst
        obtain rfl | hp := List.mem_cons.1 hp
        · exact of_decide_eq_true hok hdue (by simpa using hst)
        · exact h p hp
    · exact h p hp
  case frameDone | stopReader =>
    cases List.mem_singleton.1 hw
    exact h p hp
  case isClosed =>
    cases List.mem_singleton.1 hw
    simp only [see] at hp
    split at hp
    · exact h p (List.mem_of_mem_filter hp)
    · exact h p hp
  case creditRecv =>
    refine hclosed (congrArg (·.2.2) (hturn (by simp))) (by simpa using hwire) ?_
    simp only [see] at hp
    split at hp <;> exact hp
  case advance x delta =>
    exact hclosed (congrArg (·.2.2) (hturn (delta.kind_ne (by simp)))) (by simpa using hwire) hp
  all_goals exact hclosed (congrArg (·.2.2) (hturn (by simp))) (by simpa using hwire) hp

theorem respects {o : Op β} {b : β} (hb : (b, s') ∈ (refundMachine env).exec i o s) (hij : j ≠ i) :
    (spec env).rely j s s' := by
  obtain ⟨-, ht⟩ := mem_observed hb
  intro x
  rw [ht]
  exact ⟨see_due hij, see_decided hij⟩

theorem safe_op {o : Op β} {k : β → M α} {Q : α → PUnit → World × Refunds → Prop}
    (hpre : ∀ s₁, (spec env).rely i s s₁ → (spec env).pre i s₁ o)
    (hk : ∀ s₁ b s₂, (spec env).rely i s s₁ → (b, s₂) ∈ (refundMachine env).exec i o s₁ →
      (spec env).Safe i (k b) 0 Q s₂) : (spec env).Safe i (.op o k) 0 Q s := by
  intro s₁ hs ⟨_, hinv⟩ hok
  refine ⟨hpre s₁ hs, fun b s₂ hb => ⟨0, fun _ _ => Inv.step hinv hok hb, fun j hj => ?_, hk s₁ b s₂ hs hb⟩⟩
  exact respects hb hj

theorem mild {o : Op β} (ho : o.tag ∉ [.creditRecv, .write .streamUpdate]) : (spec env).Mild o := by
  intro i s _ h hf hok
  refine ⟨fun x n hx h0 => ?_, fun b s' hb => ⟨Inv.step h hok hb, fun j hj => respects hb hj, ?_⟩⟩
  · cases o <;> simp only [Op.written, reduceCtorEq, Option.some.injEq] at hx
    simp [hx, h0] at ho
  · obtain ⟨-, ht⟩ := mem_observed hb
    intro x
    rw [ht]
    cases o
    case creditRecv => simp at ho
    case state y => simpa [see, (hf y).1] using hf x
    case isClosed =>
      simp only [see]
      split
      · exact ⟨(hf x).1, by simp⟩
      · exact hf x
    case write => exact ⟨(hf x).1, by simp [see]⟩
    all_goals exact hf x

def Deciding (i x : Nat) (s : World × Refunds) : Prop :=
  (i, x) ∈ s.2.decided ∧ ∀ y, (i, y) ∉ s.2.due

theorem Deciding.rely (h : Deciding i x s) (hs : (spec env).rely i s s') : Deciding i x s' :=
  ⟨(hs x).2.2 h.1, fun y hy => h.2 y ((hs y).1.1 hy)⟩

theorem proper_op {o : Op β} {k : β → M α} (ho : o.tag ∉ [.creditRecv, .write .streamUpdate])
    (hk : ∀ b, (spec env).Proper (k b)) : (spec env).Proper (.op o k) := .op (mild ho) hk

theorem writeWindowUpdate_safe (n : Nat) (h : Deciding i x s) :
    (spec env).Safe i (writeWindowUpdate x n) 0 ((spec env).Done i) s := by
  refine safe_op (fun _ _ y n hy => by cases hy) fun s₁ closed s₂ hs hb => ?_
  have h₁ := h.rely hs
  obtain ⟨-, ht⟩ := mem_observed hb
  cases closed with
  | true =>
    refine (Spec.proper_ret _) i s₂ fun y => ?_
    rw [ht]
    exact ⟨h₁.2 y, by simp [see]⟩
  | false =>
    have h₂ : Deciding i x s₂ := by
      unfold Deciding
      rw [ht]
      exact h₁
    refine safe_op (fun _ _ y n hy => by cases hy) fun s₃ _ s₄ hs hb => ?_
    have h₄ : Deciding i x s₄ := by
      unfold Deciding
      rw [(mem_observed hb).2]
      exact h₂.rely hs
    refine safe_op (fun s₅ hs y n hy _ => ?_) fun s₅ ok s₆ hs hb => ?_
    · cases hy
      exact (h₄.rely hs).1
    · refine proper_op (by simp) (fun _ => Spec.proper_ret _) i s₆ fun y => ?_
      rw [(mem_observed hb).2]
      exact ⟨(h₄.rely hs).2 y, by simp [see]⟩

theorem creditConsumed_proper (e : StreamEvent) : (spec env).Proper (creditConsumed x e) := by
  intro i s hf
  cases e with
  | data p endStream =>
    unfold creditConsumed
    dsimp only
    split
    · exact Spec.proper_ret _ i s hf
    refine safe_op (fun _ _ y n hy => by cases hy) fun s₁ refund s₂ hs hb => ?_
    have h₁ := (spec env).fin_rely hs hf
    have ht := (mem_observed hb).2
    dsimp only [Prog.ret_bind]
    split
    · rename_i hpos
      have hdue : s₂.2 = { s₁.2 with due := (i, x) :: s₁.2.due } := by
        rw [ht]
        exact if_pos hpos
      refine safe_op (fun _ _ y n hy => by cases hy) fun s₃ st s₄ hs hb => ?_
      have hmem : (i, x) ∈ s₃.2.due := (hs x).1.2 (by simp [hdue])
      have hnone (y) : (i, y) ∉ s₃.2.decided := fun hy => (h₁ y).2 (by simpa [hdue] using (hs y).2.1 hy)
      have ht := (mem_observed hb).2
      simp only [see, hmem, if_true] at ht
      dsimp only [Prog.ret_bind]
      split
      · rename_i hst
        simp only [Bool.not_eq_true'] at hst
        have h₄ : Deciding i x s₄ := by simp [Deciding, ht, hst]
        refine Spec.Safe.bind ((writeWindowUpdate_safe refund h₄).mono ?_)
        rintro r g s₅ ⟨rfl, h₅⟩
        exact Spec.proper_ret _ i s₅ h₅
      · rename_i hst
        refine Spec.proper_ret _ i s₄ fun y => ?_
        simp only [Bool.not_eq_true', Bool.not_eq_false] at hst
        simp [ht, hst, hnone y]
    · rename_i hpos
      refine Spec.proper_ret _ i s₂ ?_
      have hsame : s₂.2 = s₁.2 := by
        rw [ht]
        exact if_neg hpos
      change Idle i s₂
      unfold Idle
      rw [hsame]
      exact h₁
  | _ => exact Spec.proper_ret _ i s hf

theorem recv_proper (ctx : Ctx) : (spec env).Proper (recv x ctx) := by
  have hreceived (e : Option StreamEvent) : (spec env).Proper (received x e) := by
    cases e with
    | none => exact Spec.proper_ret _
    | some e =>
      exact (creditConsumed_proper e).bind fun _ => proper_op (by simp) fun _ => Spec.proper_ret _
  refine proper_op (by simp) fun r => ?_
  cases r with
  | some e => exact hreceived e
  | none =>
    refine proper_op (by simp) fun r => ?_
    cases r with
    | ok e => exact hreceived e
    | error e => exact Spec.proper_ret _

theorem methods : Methods env (spec env) where
  turn ho := mild (by
    revert ho
    generalize Op.tag _ = t
    revert t
    decide)
  dispatch f _ := (dispatch_callback_uses env f).proper mild (by decide)
  settings ack params := (recorderSettings_uses ack params).proper mild (by decide)
  answer x _ code _ := (writeRSTStreamID_uses x code).proper mild (by decide)
  announce code := (sendGoAway_uses code).proper mild (by decide)
  shutdown := shutdownStreams_uses.proper mild (by decide)
  initial := sendInitialConnWindowUpdate_uses.proper mild (by decide)
  seed := (seed_uses env).proper mild (by decide)
  body q hq i s _ _ hf := by
    refine (?_ : (spec env).Proper (q.body env)) i s hf
    cases q with
    | recv x ctx => exact (recv_proper ctx).bind fun _ => Spec.proper_ret _
    | _ => exact (Call.body_uses env hq).proper mild (by simp only [Call.steps]; decide)

theorem verifies : (spec env).Verifies (Call.body env) :=
  methods.verifies (fun s _ h => wellFormed_of_available (w := s.1) h) fun _ hf =>
    proper_op (by simp) fun _ => methods.round hf

end Refunds

/-- A WINDOW_UPDATE on a stream is written only while the stream is open. -/
theorem updates_on_open_streams {env : Env} {c c' : Config Op (World × Refunds)} {e : Event Call}
    (h : Taken (refundMachine env) (Call.body env) refundsInTime.guard (World.init env, {}) c e c')
    {x n : Nat} (hx : x ≠ 0)
    (hw : c'.shared.1.wire = c.shared.1.wire ++ [.windowUpdate x n]) :
    c.shared.1.closedOnWire x = false := by
  have hinit : Refunds.Inv (World.init env, {}) := fun p hp => by cases hp
  have hidle (i) : Refunds.Idle i (World.init env, {}) := fun x => ⟨by simp, by simp⟩
  have h := Spec.taken_guard (S := Refunds.spec env) hinit hidle Refunds.verifies h
  obtain hsame | ⟨i, β, o, b, ⟨-, hpre, _, hinv⟩, hb⟩ := h.exec
  · simp [hsame] at hw
  · have hb := (mem_observed hb).1
    exact hinv (i, x) (hpre x n (written_of_wire hb hw) hx)

def bodyRead (last : Bool) (n : Nat) (answer : List (Call × Nat)) : List (Event Call) :=
  Config.inTurn 0 (acceptedRequest ++
    [(.frame (.data 1 false 16384 (List.replicate 16384 0)), 11),
      (.frame (.data 1 last 16384 (List.replicate 16384 0)), n)] ++ answer ++
    [(.recv 1 .background, 2), (.recv 1 .background, 3), (.recv 1 .background, 5)])

theorem updates_on_open_streams_of_upload : ∃ c c',
    Taken (refundMachine getRequests) (Call.body getRequests) refundsInTime.guard
      (World.init getRequests, {}) c (.step 8 0) c' ∧
    c'.shared.1.wire = c.shared.1.wire ++ [.windowUpdate 1 32768] ∧
    c.shared.1.closedOnWire 1 = false := by
  have hrun : (refundsInTime.run (refundMachine getRequests) (Call.body getRequests)
      ⟨(World.init getRequests, {}), []⟩ (bodyRead false 15 [])).any (fun c =>
        refundsInTime.enabled c (.step 8 0) && (c.next (refundMachine getRequests)
          (Call.body getRequests) (.step 8 0)).any fun c' =>
            c'.shared.1.wire = c.shared.1.wire ++ [.windowUpdate 1 32768]) = true := by
    decide +kernel
  obtain ⟨c, hc, h⟩ := Test.exists_reachable hrun
  obtain ⟨he, h⟩ := (Bool.and_eq_true _ _).mp h
  obtain ⟨c', hn, hw⟩ := (Option.any_eq_true _ _).1 h
  have hstep : Taken (refundMachine getRequests) (Call.body getRequests) refundsInTime.guard
      (World.init getRequests, {}) c (.step 8 0) c' := ⟨hc, Test.guard_enabled he, hn⟩
  have hw := of_decide_eq_true hw
  exact ⟨c, c', hstep, hw, updates_on_open_streams hstep (by decide) hw⟩

/-- Both sides have ended the stream when its body is read, and it still gets a WINDOW_UPDATE. -/
theorem update_on_ended_stream : ∃ c c', Step getRequests anyCall c (.step 9 0) c' ∧
    c.shared.closedOnWire 1 = true ∧ (c.shared.state 1).terminal = true ∧ 1 ∉ c.shared.live ∧
    c'.shared.wire = c.shared.wire ++ [.windowUpdate 1 32768] := by
  obtain ⟨c, c', hstep, h⟩ := exists_step_of_run getRequests
    (bodyRead true 16 [(.sendHeaders 1 [] true none, 13)]) (e := .step 9 0)
    (p := fun c c' => c.shared.closedOnWire 1 = true ∧ (c.shared.state 1).terminal = true ∧
      1 ∉ c.shared.live ∧ c'.shared.wire = c.shared.wire ++ [.windowUpdate 1 32768])
    (by decide +kernel)
  exact ⟨c, c', hstep, of_decide_eq_true h⟩

end PoseidonServer.Conn
