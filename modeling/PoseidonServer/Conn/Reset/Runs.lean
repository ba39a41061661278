import PoseidonServer.Conn.Reset.Silent
import PoseidonServer.Conn.Reset.Ticket
import PoseidonServer.Conn.SendCredit.Runs

/-! RST_STREAM goes out at most once for a registered stream, and not at all once the client's own
has been recorded before the server had marked the stream. -/

namespace PoseidonServer.Conn

open Concurrent Lifecycle

def recordReset (env : Env) (x : Nat) (code : ErrCode) : M (Except GoErr Unit) := do
  let rapid ← markRemoteEndReset x
  push x (.reset code)
  markStreamDone x
  onClientRSTStream env rapid

/-- Runs in which no stream is admitted under an identifier that has been used and, once the client
has reset stream `x`, the codec rejects no frame on it with an error on the stream. -/
def quietAfterReset (x : Nat) : Test Op World Call where
  callOk w q := q.available w
  opOk _ w _ o := match o with
    | .admitClient y _ => w.idle y
    | .readFrame (.rejected _ y err) =>
      y ≠ x || (GoErr.codec err).streamCode.isNone || !w.inbound.any (·.resets x)
    | _ => true

theorem fresh_quietAfterReset (env : Env) (x : Nat) : Fresh env (quietAfterReset x).guard where
  call _ _ h := h
  admission := .inr fun _ _ _ _ h => h

theorem unblamed_quietAfterReset (x : Nat) : Silent.Unblamed (quietAfterReset x).guard x := by
  rintro i w ty err hok hcode ⟨f, hf, hx⟩
  change ((x ≠ x || (GoErr.codec err).streamCode.isNone || !w.inbound.any (·.resets x)) : Bool) = true
    at hok
  have hany : w.inbound.any (·.resets x) = true := List.any_eq_true.2 ⟨f, hf, hx⟩
  simp [hany, hcode] at hok

theorem mem_inbound_of_exec {env : Env} {i : Nat} {w w' : World} {o : Op β} {b : β} {f : Inbound}
    (hb : (b, w') ∈ o.exec env i w) (hf : f ∈ w.inbound) : f ∈ w'.inbound := by
  by_cases hk : o.tag.kind = .reader
  · cases o <;> simp only [Op.tag, Tag.kind_reader, reduceCtorEq, or_false, false_or] at hk
    case readFrame g =>
      obtain ⟨-, -, hview⟩ := readFrame_exec hb
      simp only [World.readerView, Prod.mk.injEq] at hview
      simp [hview.2.2.2.2, hf]
    all_goals
      cases List.mem_singleton.1 hb
      exact hf
  · have hturn := (frame_of_tag hb).turn hk
    simp only [World.turnView, Prod.mk.injEq] at hturn
    rwa [hturn.2.2]

theorem recordReset_bind (env : Env) (x : Nat) (code : ErrCode) (k : Except GoErr Unit → M Unit) :
    (recordReset env x code).bind k = .op (.advance x { recvEnded := true, reset := true })
      fun before => (push x (.reset code)).bind fun _ => (markStreamDone x).bind fun _ =>
        (onClientRSTStream env (!before.recvEnded)).bind k := by
  simp only [recordReset, markRemoteEndReset, Prog.bind_eq, Prog.lift_bind, Prog.op_bind,
    Prog.pure_eq, Prog.ret_bind, Prog.bind_assoc]

section Assembly

variable {env : Env} {G : Guard Op World Call} {c c₁ c₂ : Config Op World} {i x : Nat}

theorem once_init (env : Env) (G : Guard Op World Call) : (Once.spec env G).inv (World.init env) 0 := by
  intro x hx
  simp [World.init] at hx

theorem notSent_of_write (hG : Fresh env G) {e : Event Call} (h : Step env G c e c₁) {code : ErrCode}
    (hw : c₁.shared.wire = c.shared.wire ++ [.rstStream x code]) (hx : x ∈ c.shared.live) :
    ¬c.shared.rstSent x := by
  have hlived : Step env (lived env G false) c e c₁ := step_lived hG (by simp) h
  have hstep := Spec.taken_guard (once_init env G) (fun _ => trivial) (Once.verifies hG) hlived
  obtain hs | ⟨i, β, o, b, ⟨-, hpre, -⟩, hb⟩ := hstep.exec
  · simp [hs] at hw
  · exact hpre _ (written_of_wire hb hw) x hx (by simp [Outbound.resets])

theorem marked_of_reach (hG : Fresh env G) (hc : Reach env G c) : Once.Marked c.shared := by
  have hlived : Reach env (lived env G false) c := reach_lived hG (by simp) hc
  obtain ⟨_, h⟩ := Spec.inv_of_reachable (once_init env G) (fun _ => trivial) (Once.verifies hG) hlived
  exact h

theorem reach_hushed (hc : Reach env (lived env G false) c) (hno : ¬c.shared.rstSent x) :
    Reach env (Ticket.hushed env G x) c := by
  refine hc.hitherto (P := fun w => ¬w.rstSent x) hno (fun _ _ h => h) ?_
  intro i w β o b w' hno hok hb
  change (b, w') ∈ o.exec env i w at hb
  have hsent (h : w.rstSent x) : w'.rstSent x := by
    obtain hw | ⟨f, -, hw⟩ := wire_exec hb
    · simpa [World.rstSent, hw] using h
    · obtain ⟨f, hf, hx⟩ := h
      exact ⟨f, by simp [hw, hf], hx⟩
  refine ⟨⟨hok, fun f hf hx _ => ?_⟩, fun h => hno (hsent h)⟩
  cases o <;> simp only [Op.written, reduceCtorEq, Option.some.injEq] at hf
  subst hf
  obtain ⟨-, hd, -⟩ | ⟨-, -, hw⟩ := write_exec hb
  · exact hd
  · exact absurd ⟨_, by simp [hw], hx⟩ hno

theorem runs_hushed (hG : Fresh env G) (hx : Silent.Unblamed G x) (hc : Reach env G c)
    (hreset : c.shared.clientReset x) (hr : Running env G c c₁) :
    Running env (Ticket.hushed env G x) c c₁ := by
  have hinit : (Silent.spec env G x).inv (World.init env) 0 := by
    rintro - - ⟨f, hf, -⟩
    simp [World.init] at hf
  have hlived : Reach env (lived env G false) c := reach_lived hG (by simp) hc
  have hrun := Spec.runs_guard hinit (fun _ h => by simp [World.init] at h) (Silent.verifies hx)
    hlived (runs_lived hG (by simp) hc hr)
  have hcall (w q) (h : (Silent.spec env G x).guard.callOk w q) : (Ticket.hushed env G x).callOk w q :=
    h.1
  refine (hrun.onward (P := fun w => w.clientReset x) hreset hcall ?_).1
  rintro i w β o b w' hreset ⟨hok, hpre, -⟩ hb
  refine ⟨⟨hok, fun f hf hx hr => ?_⟩, ?_⟩
  · simp [hpre f hf hr hreset] at hx
  · obtain ⟨f, hf, hx⟩ := hreset
    exact ⟨f, mem_inbound_of_exec hb hf, hx⟩

theorem notSent_of_record (hG : Fresh env G) (hx : Silent.Unblamed G x)
    (hadvance : ∀ i w delta, G.opOk i w (.advance x delta)) (hc : Reach env G c) {code : ErrCode}
    {established : Bool} (hi : c.threads[i]? = some ((recordReset env x code).bind
      (turnEnd env established (.rstStream x code))))
    (hin : .rstStream x code ∈ c.shared.inbound) (hlive : x ∈ c.shared.live)
    (hreset : (c.shared.state x).reset = false) {pick : Nat}
    (hn : c.next (machine env) (Call.body env) (.step i pick) = some c₁)
    (hr : Running env G c₁ c₂) : ¬c.shared.rstSent x ∧ ¬c₂.shared.rstSent x := by
  have hno : ¬c.shared.rstSent x := fun h => by simp [marked_of_reach hG hc x hlive h] at hreset
  refine ⟨hno, ?_⟩
  rw [recordReset_bind] at hi
  have he : G.Enabled c (.step i pick) := by
    simp only [Guard.Enabled, hi]
    exact hadvance _ _ _
  have hstep : Step env (lived env G false) c (.step i pick) c₁ :=
    step_lived hG (by simp) ⟨hc, he, hn⟩
  have hreach := hc.next he hn
  have hpool := Spec.pool_of_reachable (Ticket.init_inv env x) (fun _ => trivial)
    (Ticket.verifies hG) (reach_hushed hstep.reach hno)
  -- the first step of the record marks the stream
  have hok := hstep.enabled
  simp only [Guard.Enabled, hi] at hok
  simp only [Config.next, hi] at hn
  split at hn
  on_goal 2 => cases hn
  rename_i before w₁ hb
  cases hn
  have hb := List.mem_of_getElem? hb
  change (before, w₁) ∈ Op.exec env i c.shared (.advance x { recvEnded := true, reset := true }) at hb
  have hhushed : (Ticket.hushed env G x).opOk i c.shared
      (.advance x { recvEnded := true, reset := true }) := ⟨hok, fun _ hf => by cases hf⟩
  obtain ⟨hm, hrst, hrely⟩ := Ticket.step (.inl (Ticket.light_of_tag (by simp))) hhushed hb
  have hcreated := (tabled_table hok.1).live x hlive
  have hmarked : (w₁.state x).reset = true := by
    rw [(advance_exec hb hcreated).2]
    simp [StreamState.union]
  have hreader : w₁.reader = some i := by
    obtain ⟨hd, hof, hall⟩ := tabled_held hok.1
    exact (Ticket.rely_of_exec (by simp +decide) hhushed hb).2 (hof.1 (hall (by simp)))
  have hkept : Ticket.Kept i (some x) w₁ := ⟨hreader, fun y hy => by
    cases hy
    exact hm.created x hcreated⟩
  have hpool₁ := Ticket.pool_framed hpool hi hreset hmarked hrst hrely
    (Ticket.recorded_safe hkept hmarked code (!before.recvEnded) established)
  obtain ⟨share, -, -, hinv⟩ := hpool₁.runs ((Ticket.verifies hG).framed 1)
    (runs_hushed hG hx hreach ⟨_, mem_inbound_of_exec hb hin, by simp [Inbound.resets]⟩ hr)
  have hinv : Ticket.Inv x c₂.shared (_ + 1) := hinv
  have := hinv.le
  exact (hinv.used (by omega)).2

end Assembly

/-- After the client's RST_STREAM has come in for a registered stream, the server writes one. -/
def AnswersReset (code : ErrCode) : Prop :=
  ∃ c c', Reach getRequests anyCall c ∧ .rstStream 1 .cancel ∈ c.shared.inbound ∧
    1 ∈ c.shared.live ∧ c.shared.wire.any (·.resets 1) = false ∧
    Running getRequests anyCall c c' ∧ .rstStream 1 code ∈ c'.shared.wire

theorem answersReset_of_run {code : ErrCode} (es es' : List (Event Call))
    (h : (anyRun.run (machine getRequests) (Call.body getRequests) ⟨World.init getRequests, []⟩
      es).any (fun c => (anyRun.run (machine getRequests) (Call.body getRequests) c es').any fun c' =>
        .rstStream 1 .cancel ∈ c.shared.inbound ∧ 1 ∈ c.shared.live ∧
          c.shared.wire.any (·.resets 1) = false ∧ .rstStream 1 code ∈ c'.shared.wire) = true) :
    AnswersReset code := by
  obtain ⟨c, c', hc, hr, h⟩ := exists_running_of_run getRequests es es' h
  simp only [decide_eq_true_eq] at h
  exact ⟨c, c', hc, h.1, h.2.1, h.2.2.1, hr, h.2.2.2⟩

end PoseidonServer.Conn
