import PoseidonServer.Conn.Reset.Silent
import PoseidonServer.Conn.SendCredit.Runs

/-! The accept queue has room for every stream that the advertised limit lets in, unless it holds
streams that have left the table; and what the limit refuses is what the client has open, as long
as the table keeps up with what is closed on the wire. -/

namespace PoseidonServer.Conn

open Concurrent

def World.clients (w : World) : List Nat := w.live.filter (· % 2 = 1)

namespace AcceptQueue

structure Inv (w : World) : Prop where
  nodup : w.acceptCh.Nodup
  odd : ∀ x ∈ w.acceptCh, x % 2 = 1

@[simp] def Asks (env : Env) (w : World) : Op β → Prop
  | .tryEnqueue x => x % 2 = 1 ∧ x ∉ w.acceptCh ∧
      (0 < env.cfg.advertisedSettings.maxConcurrentStreams →
        (w.clients.filter (· ≠ x)).length < env.cfg.advertisedSettings.maxConcurrentStreams)
  | _ => True

def spec (env : Env) (G : Guard Op World Call) : Spec (machine env) (tabled env G) PUnit where
  inv w _ := Inv w
  rely i w w' := w.reader = some i → w'.reader = some i ∧ w'.acceptCh.Sublist w.acceptCh ∧
    ∀ x ∈ w'.clients, x ∈ w.clients
  rely_refl _ _ h := ⟨h, .refl _, fun _ h => h⟩
  rely_trans h₁ h₂ hr := by
    obtain ⟨hr₂, hq, hl⟩ := h₁ hr
    obtain ⟨hr₃, hq', hl'⟩ := h₂ hr₂
    exact ⟨hr₃, hq'.trans hq, fun x hx => hl x (hl' x hx)⟩
  pre _ w _ o := Asks env w o

variable {env : Env} {G : Guard Op World Call} {i : Nat} {w w' : World}

theorem nodup_clients (ht : Table w) : w.clients.Nodup := ht.nodup.filter _

theorem length_clients (ht : Table w) : (w.clients.length : Int) = w.nClient := by
  rw [ht.nClient, World.clients, List.countP_eq_length_filter]

theorem clients_of_exec {o : Op β} {b : β} (ht : Table w) (ho : o.kind ≠ .register)
    (hb : (b, w') ∈ o.exec env i w) : ∀ x ∈ w'.clients, x ∈ w.clients := by
  intro x hx
  obtain ⟨hx, hodd⟩ := List.mem_filter.1 hx
  refine List.mem_filter.2 ⟨?_, hodd⟩
  cases tableStep_of_exec hb with
  | same hlive => exact hlive ▸ hx
  | register => exact absurd rfl ho
  | reserve _ _ hlive =>
    rw [hlive] at hx
    obtain rfl | hx := List.mem_cons.1 hx
    · simp [ht.nextPush] at hodd
    · exact hx
  | release _ _ hlive =>
    rw [hlive] at hx
    exact List.mem_of_mem_erase hx
  | drain _ hlive =>
    rw [hlive] at hx
    cases hx

theorem Asks.queued {o : Op β} {x : Nat} (h : Asks env w o) (hx : o.queues = some x) :
    x % 2 = 1 ∧ x ∉ w.acceptCh := by
  cases o <;> simp only [Op.queues, reduceCtorEq, Option.some.injEq] at hx
  exact hx ▸ ⟨h.1, h.2.1⟩

theorem Inv.exec {o : Op β} {b : β} (h : Inv w) (hask : Asks env w o)
    (hb : (b, w') ∈ o.exec env i w) : Inv w' := by
  obtain hq | ⟨x, hx, hq⟩ := acceptCh_of_exec hb
  · exact ⟨h.nodup.sublist hq, fun x hx => h.odd x (hq.subset hx)⟩
  · obtain ⟨hodd, hnew⟩ := hask.queued hx
    refine ⟨?_, fun y hy => ?_⟩
    · rw [hq]
      exact List.nodup_append.2 ⟨h.nodup, List.nodup_singleton x, fun y hy z hz => by
        rw [List.mem_singleton.1 hz]
        rintro rfl
        exact hnew hy⟩
    · rw [hq, List.mem_append, List.mem_singleton] at hy
      obtain hy | rfl := hy
      · exact h.odd y hy
      · exact hodd

theorem harmless {o : Op β} (ho : o.kind ∉ [.reader, .register]) (htag : o.queues = none) :
    (spec env G).Harmless o := by
  intro i w _ h hok
  have hask : Asks env w o := by
    cases o <;> trivial
  refine ⟨hask, fun b w' hb => ⟨Inv.exec h hask hb, fun j hj => ?_⟩⟩
  have hturn : w'.turnView = w.turnView := (frame_of_exec hb).turn fun h => ho (by rw [h]; simp)
  simp only [World.turnView, Prod.mk.injEq] at hturn
  refine ⟨hturn.1.trans hj, ?_, clients_of_exec (tabled_table hok) (fun h => ho (by rw [h]; simp)) hb⟩
  obtain hq | ⟨x, hx, -⟩ := acceptCh_of_exec hb
  · exact hq
  · rw [htag] at hx
    cases hx

theorem harmless_other {o : Op β} (ho : o.kind ∉ [.reader, .register, .accept]) :
    (spec env G).Harmless o := by
  refine harmless (avoids ho (by decide)) ?_
  unfold Op.queues
  split
  · exact absurd (by simp) ho
  · rfl

theorem within {p : M α} {Q : α → PUnit → World → Prop}
    (hp : Within (· ∉ [.reader, .register, .accept]) p)
    (hQ : ∀ a w', (spec env G).rely i w w' → Q a 0 w') : (spec env G).Safe i p 0 Q w :=
  Spec.safe_of_all (hp.mono fun _ ho => harmless_other ho) hQ

theorem beside_le {x : Nat} (ht : Table w') (h : ∀ y ∈ w'.clients, y ∈ w.clients) :
    (w'.clients.filter (· ≠ x)).length ≤ (w.clients.filter (· ≠ x)).length := by
  refine (List.subperm_of_subset ((nodup_clients ht).filter _) fun y hy => ?_).length_le
  obtain ⟨hy, hne⟩ := List.mem_filter.1 hy
  exact List.mem_filter.2 ⟨h y hy, hne⟩

theorem admitClient_exec {x : Nat} {prio : Option Priority} {b : Bool} (ht : Table w)
    (hx : x % 2 = 1) (hb : (b, w') ∈ Op.exec env i w (.admitClient x prio)) :
    b = true → 0 < env.cfg.advertisedSettings.maxConcurrentStreams →
      (w'.clients.filter (· ≠ x)).length < env.cfg.advertisedSettings.maxConcurrentStreams := by
  intro hadmitted hlimit
  simp only [Op.exec, Op.underTable, World.admitClient] at hb
  split at hb
  · split at hb <;> cases List.mem_singleton.1 hb
    · cases hadmitted
    · rename_i hroom
      have hlt : w.clients.length < env.cfg.advertisedSettings.maxConcurrentStreams := by
        have := length_clients ht
        simp only [hlimit, true_and, not_le] at hroom
        omega
      refine lt_of_le_of_lt ?_ hlt
      simp only [World.clients, List.filter_cons, hx, decide_true, if_true, ne_eq,
        not_true_eq_false, decide_false, Bool.false_eq_true, if_false]
      exact List.length_filter_le ..
  · cases hb

theorem registerStream_safe {x : Nat} (h : w.reader = some i) (hx : x % 2 = 1)
    (prio : Option Priority) : (spec env G).Safe i (registerStream x prio) 0
      (fun _ g w => g = 0 ∧ w.reader = some i) w := by
  have hrefuse (w : World) (hr : w.reader = some i) : (spec env G).Safe i
      ((writeServerRSTStream x .refusedStream).bind fun _ =>
        .op (.cancelStream x) fun _ => .ret false) 0 (fun _ g w => g = 0 ∧ w.reader = some i) w :=
    within (.bind ((writeServerRSTStream_uses _ _).within (by decide)) (by simp))
      fun _ w' hw => ⟨rfl, (hw hr).1⟩
  intro w₁ hw ⟨_, hinv⟩ hok
  have hr₁ := (hw h).1
  have ht := tabled_table hok
  have hidle : w₁.idle x = true := tabled_asks hok
  refine ⟨trivial, fun b w₂ hb => ?_⟩
  change (b, w₂) ∈ Op.exec env i w₁ (.admitClient x prio) at hb
  have hf := frame_of_exec hb
  have hturn := hf.turn (by simp)
  have haccept := hf.accept (by simp)
  simp only [World.turnView, World.acceptView, Prod.mk.injEq] at hturn haccept
  have hr₂ : w₂.reader = some i := hturn.1.trans hr₁
  refine ⟨0, fun _ _ => Inv.exec hinv (by trivial) hb, fun j hj hjr => ?_, ?_⟩
  · rw [hr₁] at hjr
    exact absurd (Option.some.inj hjr) (Ne.symm hj)
  cases b with
  | false => exact hrefuse w₂ hr₂
  | true =>
    intro w₃ hw₃ ⟨_, hinv₃⟩ hok₃
    obtain ⟨hr₃, hq₃, hl₃⟩ := hw₃ hr₂
    have hnew : x ∉ w₃.acceptCh := fun hmem => by
      have hmem := hq₃.subset hmem
      rw [haccept.1] at hmem
      simp [ht.used x (ht.queued x hmem)] at hidle
    have hask : Asks env w₃ (.tryEnqueue x) := by
      refine ⟨hx, hnew, fun hlimit => ?_⟩
      exact lt_of_le_of_lt (beside_le (tabled_table hok₃) hl₃) (admitClient_exec ht hx hb rfl hlimit)
    refine ⟨hask, fun r w₄ hr => ?_⟩
    change (r, w₄) ∈ Op.exec env i w₃ (.tryEnqueue x) at hr
    have hturn₄ := (frame_of_exec hr).turn (by simp)
    simp only [World.turnView, Prod.mk.injEq] at hturn₄
    have hr₄ : w₄.reader = some i := hturn₄.1.trans hr₃
    refine ⟨0, fun _ _ => Inv.exec hinv₃ hask hr, fun j hj hjr => ?_, ?_⟩
    · rw [hr₃] at hjr
      exact absurd (Option.some.inj hjr) (Ne.symm hj)
    · cases r with
      | true => exact fun w' hw' => ⟨rfl, (hw' hr₄).1⟩
      | false => exact hrefuse w₄ hr₄

theorem safe_ending {o : Op Unit} (ho : o = .frameDone ∨ o = .stopReader) (hr : w.reader = some i) :
    (spec env G).Safe i (.lift o) 0 ((spec env G).Done i) w := by
  intro w₁ hw ⟨_, hinv⟩ _
  have hask : Asks env w₁ o := by obtain rfl | rfl := ho <;> trivial
  refine ⟨hask, fun b w₂ hb => ⟨0, fun _ _ => Inv.exec hinv hask hb, fun j hj hjr => ?_, ?_⟩⟩
  · rw [(hw hr).1] at hjr
    exact absurd (Option.some.inj hjr) (Ne.symm hj)
  · exact fun _ _ => ⟨rfl, trivial⟩

theorem layer : Layer (spec env G) (fun i w => w.reader = some i) where
  fin _ _ := trivial
  harmless := harmless_other
  rely hw h := (hw h).1
  read := fun {i w f k} hk => by
    refine fun w₁ _ ⟨_, hinv⟩ _ => ⟨trivial, fun u w₂ hr => ?_⟩
    change (u, w₂) ∈ Op.exec env i w₁ (.readFrame f) at hr
    obtain ⟨hfree, hdone, hview⟩ := readFrame_exec hr
    simp only [World.readerView, Prod.mk.injEq] at hview
    exact ⟨0, fun _ _ => Inv.exec (o := .readFrame f) hinv trivial hr, fun j _ hj => by simp [hfree] at hj,
      hk w₂ hview.1⟩
  register prio h hx _ := registerStream_safe h hx prio
  frameDone h := safe_ending (.inl rfl) h
  stopReader h := safe_ending (.inr rfl) h
  accept := fun {i w} ctx => by
    refine Conn.acceptStream_safe (S := spec env G) (fun _ _ => True) (fun _ _ => trivial) ?_
      (fun _ _ _ => trivial) (fun _ => ?_) ctx
    · intro β o ho
      refine harmless ?_ ?_ <;> cases o <;> simp_all [Op.queues]
    · exact (harmless (by simp) rfl).safe_op fun _ _ _ _ _ _ _ _ => fun _ _ => rfl

theorem init_inv (env : Env) : Inv (World.init env) := by
  constructor <;> simp [World.init]

theorem asks_of_step (hG : Fresh env G) {c c' : Config Op World} {pick : Nat} {o : Op β}
    {k : β → M Unit} (h : Step env G c (.step i pick) c') (hi : c.threads[i]? = some (.op o k)) :
    Table c.shared ∧ Inv c.shared ∧ Asks env c.shared o := by
  obtain ⟨⟨hok, hask, _, hinv⟩, -⟩ := (Spec.taken_guard (init_inv env) (fun _ => trivial)
    layer.verifies (step_tabled hG h)).op_exec hi
  exact ⟨tabled_table hok, hinv, hask⟩

theorem exists_released {x : Nat} (hinv : Inv w) (hask : Asks env w (.tryEnqueue x))
    (hpos : 0 < env.cfg.advertisedSettings.maxConcurrentStreams)
    (hfull : env.cfg.advertisedSettings.maxConcurrentStreams ≤ w.acceptCh.length) :
    ∃ y ∈ w.acceptCh, y ∉ w.live := by
  by_contra hnone
  simp only [not_exists, not_and, not_not] at hnone
  have hsub : w.acceptCh ⊆ w.clients.filter (· ≠ x) := fun y hy => by
    have hne : y ≠ x := fun h => hask.2.1 (h ▸ hy)
    simp [World.clients, hnone y hy, hinv.odd y hy, hne]
  have hle := (List.subperm_of_subset hinv.nodup hsub).length_le
  have hlt := hask.2.2 hpos
  omega

end AcceptQueue

/-- The streams that a client which has seen all the frames so far counts against the limit. -/
def World.openOnWire (w : World) : List Nat :=
  (List.range (w.maxClient + 1)).filter fun x =>
    x % 2 = 1 ∧ (w.str x).isSome ∧ w.closedOnWire x = false

theorem clients_le_openOnWire {w : World} (ht : Table w)
    (h : ∀ x ∈ w.clients, w.closedOnWire x = false) : w.clients.length ≤ w.openOnWire.length := by
  refine (List.subperm_of_subset (AcceptQueue.nodup_clients ht) fun x hx => ?_).length_le
  have hopen := h x hx
  obtain ⟨hlive, hodd⟩ := List.mem_filter.1 hx
  have hodd : x % 2 = 1 := of_decide_eq_true hodd
  have hused := ht.used x (ht.live x hlive)
  simp only [World.idle, hodd, if_true, decide_eq_false_iff_not, not_lt] at hused
  have hcreated : (w.str x).isSome := ht.live x hlive
  exact List.mem_filter.2 ⟨List.mem_range.2 (by omega), by simp [hodd, hopen, hcreated]⟩

/-- Runs in which no identifier is registered twice and a stream that is closed on the wire has
left the table before the next one arrives. -/
def releasedInTime : Test Op World Call where
  callOk w q := q.available w
  opOk _ w _ o := match o with
    | .admitClient x _ => w.idle x ∧ ∀ y ∈ w.clients, w.closedOnWire y = false
    | _ => true

theorem fresh_releasedInTime (env : Env) : Fresh env releasedInTime.guard where
  call _ _ h := h
  admission := .inr fun _ _ _ _ h => (of_decide_eq_true h).1

def Op.admits : Op β → Option Nat
  | .admitClient x _ => some x
  | _ => none

/-- A stream that finds the queue full leaves a stream in it that is no longer registered. If the
table keeps up with the wire, a stream that keeps to the limit is registered, so a client whose
streams are all delivered before they are released is never refused. -/
theorem refusals_explained {env : Env}
    (hpos : 1 ≤ env.cfg.advertisedSettings.maxConcurrentStreams)
    (hmax : env.cfg.advertisedSettings.maxConcurrentStreams ≤ 1024) :
    (∀ {c c' i pick x}, Step env onceAdmitted.guard c (.step i pick) c' →
      c.about i Op.queues = some x →
      x ∈ c'.shared.acceptCh ∨ ∃ y ∈ c.shared.acceptCh, y ∉ c.shared.live) ∧
    (∀ {c c' i pick x}, Step env releasedInTime.guard c (.step i pick) c' →
      c.about i Op.admits = some x →
      c.shared.openOnWire.length < env.cfg.advertisedSettings.maxConcurrentStreams →
      x ∈ c'.shared.live) := by
  refine ⟨fun {c c' i pick x} h hx => ?_, fun {c c' i pick x} h hx hopen => ?_⟩
  · obtain ⟨β, o, k, hi, hx⟩ := Config.about_eq hx
    cases o <;> simp only [Op.queues, reduceCtorEq, Option.some.injEq] at hx
    subst hx
    obtain ⟨-, hinv, hask⟩ := AcceptQueue.asks_of_step (fresh_onceAdmitted env) h hi
    have hdepth : env.cfg.acceptQueueDepth = env.cfg.advertisedSettings.maxConcurrentStreams := by
      have hn : ¬(env.cfg.advertisedSettings.maxConcurrentStreams = 0 ∨
        1024 < env.cfg.advertisedSettings.maxConcurrentStreams) := by omega
      simp only [ServerConnOptions.acceptQueueDepth, maxAcceptQueueDepth, Bool.or_eq_true,
        decide_eq_true_eq, gt_iff_lt]
      exact if_neg hn
    by_cases hroom : c.shared.acceptCh.length < env.cfg.acceptQueueDepth
    · obtain ⟨-, b, hb⟩ := h.op_exec hi
      simp only [Op.exec, if_pos hroom, List.mem_singleton, Prod.mk.injEq] at hb
      rw [hb.2]
      exact .inl (List.mem_append_right _ (List.mem_singleton_self _))
    · exact .inr (AcceptQueue.exists_released hinv hask hpos (by omega))
  · obtain ⟨β, o, k, hi, hx⟩ := Config.about_eq hx
    cases o <;> simp only [Op.admits, reduceCtorEq, Option.some.injEq] at hx
    subst hx
    obtain ⟨ht, -, -⟩ := AcceptQueue.asks_of_step (fresh_releasedInTime env) h hi
    obtain ⟨hok, b, hb⟩ := h.op_exec hi
    have hle := clients_le_openOnWire ht (of_decide_eq_true hok).2
    have hcount := AcceptQueue.length_clients ht
    simp only [Op.exec, Op.underTable, World.admitClient] at hb
    split at hb
    · split at hb
      · rename_i hfull
        omega
      · obtain ⟨-, hc'⟩ := Prod.mk.inj (List.mem_singleton.1 hb)
        rw [hc']
        exact List.mem_cons_self ..
    · cases hb

def oneStream : Env :=
  { getRequests with opts := { advertisedSettings := { maxConcurrentStreams := 1 } } }

def nextRequest (n : Nat) : List (Event Call) :=
  Config.inTurn 0 (handshake ++ [(.frame (.headers 1 true true [1] none), 17),
    (.accept .background, 4), (.sendHeaders 1 [] true none, n),
    (.frame (.headers 3 true true [1] none), 5)])

theorem refusals_explained_of_released : ∃ c c',
    Step oneStream releasedInTime.guard c (.step 5 0) c' ∧ 3 ∈ c'.shared.live := by
  obtain ⟨c, c', hstep, h⟩ := exists_step_of_test oneStream releasedInTime (nextRequest 13)
    (e := .step 5 0) (p := fun c _ => c.about 5 Op.admits = some 3 ∧
      c.shared.openOnWire.length < 1) (by decide +kernel)
  simp only [decide_eq_true_eq] at h
  exact ⟨c, c', hstep, (refusals_explained (by decide) (by decide)).2 hstep h.1 h.2⟩

/-- The answer to stream 1 ends it on the wire. Before it has left the table stream 3 arrives and is
refused, although no stream is open any more and none is waiting in the queue. -/
theorem closed_stream_counts : ∃ c c', Step oneStream onceAdmitted.guard c (.step 5 0) c' ∧
    c.about 5 Op.admits = some 3 ∧ c.shared.openOnWire = [] ∧ c.shared.acceptCh = [] ∧
    c.shared.delivered = [1] ∧ 3 ∉ c'.shared.live ∧
    ∃ c'', Reach oneStream onceAdmitted.guard c'' ∧
      c''.shared.wire = c.shared.wire ++ [.rstStream 3 .refusedStream] := by
  obtain ⟨c, c', hstep, h⟩ := exists_step_of_test oneStream onceAdmitted (nextRequest 9)
    (e := .step 5 0) (p := fun c c' => c.about 5 Op.admits = some 3 ∧
      c.shared.openOnWire = [] ∧ c.shared.acceptCh = [] ∧ c.shared.delivered = [1] ∧
      3 ∉ c'.shared.live ∧ (onceAdmitted.run (machine oneStream) (Call.body oneStream) c
        (List.replicate 5 (.step 5 0))).any fun c'' =>
          c''.shared.wire = c.shared.wire ++ [.rstStream 3 .refusedStream]) (by decide +kernel)
  simp only [decide_eq_true_eq] at h
  obtain ⟨habout, hopen, hqueue, hdel, hgone, hrun⟩ := h
  refine ⟨c, c', hstep, habout, hopen, hqueue, hdel, hgone, ?_⟩
  obtain ⟨c'', hrun, hwire⟩ := (Option.any_eq_true _ _).1 hrun
  exact ⟨c'', Test.reachable_of_run hstep.reach hrun, of_decide_eq_true hwire⟩

end PoseidonServer.Conn
