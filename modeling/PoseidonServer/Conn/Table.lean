import PoseidonServer.Conn.Layer
import PoseidonServer.Conn.Locks

/-! The stream table: which streams exist, which are registered, and that the two counters
count them. -/

namespace PoseidonServer.Conn

open Concurrent

def World.created (w : World) (x : Nat) : Prop := (w.str x).isSome

theorem Frame.created {k : Kind} {w w' : World} (h : Frame k w w')
    (hk : k ∉ [.register, .reserve]) (x : Nat) : w'.created x ↔ w.created x := by
  have hsome {α : Type} {V : Stream → α} (hV : (w'.str x).map V = (w.str x).map V) :
      w'.created x ↔ w.created x := by
    have hV := congrArg Option.isSome hV
    simp only [Option.isSome_map] at hV
    simp [World.created, hV]
  by_cases hs : k ∈ [.advance, .advanceRecv]
  · exact hsome (h.credit (by simp at hs; rcases hs with rfl | rfl <;> simp) x)
  · exact hsome (h.state (by simp_all) x)

/-- What is assumed of the runs that are looked at: calls start only when they can be made, and
no stream of a client is registered twice. -/
structure Fresh (env : Env) (G : Guard Op World Call) : Prop where
  call : ∀ w q, G.callOk w q → q.available w
  admission : env.cfg.upgradedRequest = none ∨
    ∀ i w x prio, G.opOk i w (.admitClient x prio) → w.idle x = true

structure Table (w : World) : Prop where
  nextPush : w.nextPush % 2 = 0
  live : ∀ x ∈ w.live, w.created x
  used : ∀ x, w.created x → w.idle x = false
  nodup : w.live.Nodup
  nClient : w.nClient = w.live.countP (· % 2 = 1)
  nPush : w.nPush = w.live.countP (· % 2 = 0)
  queued : ∀ x ∈ w.acceptCh, w.created x
  delivered : ∀ x ∈ w.delivered, w.created x

namespace Table

variable {env : Env} {G : Guard Op World Call} {i : Nat} {w w' : World}

theorem init (env : Env) : Table (World.init env) := by
  constructor <;> simp [World.init, World.created]

theorem congr (h : Table w) (ht : w'.tableView = w.tableView) (ha : w'.acceptView = w.acceptView)
    (hc : ∀ x, w'.created x ↔ w.created x) : Table w' := by
  simp only [World.tableView, World.acceptView, Prod.mk.injEq] at ht ha
  have hidle (x) : w'.idle x = w.idle x := by simp [World.idle, ht]
  exact
    { nextPush := by simp [ht, h.nextPush]
      live := by simpa [ht, hc] using h.live
      used := by simpa [hc, hidle] using h.used
      nodup := by simpa [ht] using h.nodup
      nClient := by simpa [ht] using h.nClient
      nPush := by simpa [ht] using h.nPush
      queued := by simpa [ha, hc] using h.queued
      delivered := by simpa [ha, hc] using h.delivered }

@[simp] def Asks (w : World) : Op β → Prop
  | .admitClient x _ => w.idle x = true
  | .tryEnqueue x | .deliver x => w.created x
  | _ => True

theorem Asks.queued {o : Op β} {x : Nat} (h : Asks w o) (hx : o.queues = some x) : w.created x := by
  cases o <;> simp only [Op.queues, reduceCtorEq, Option.some.injEq] at hx
  exact hx ▸ h

theorem Asks.delivered {o : Op β} {x : Nat} (h : Asks w o) (hx : o.delivers = some x) :
    w.created x := by
  cases o <;> simp only [Op.delivers, reduceCtorEq, Option.some.injEq] at hx
  exact hx ▸ h

theorem admitClient {x : Nat} {prio : Option Priority} {b : Bool} (h : Table w) (hx : x % 2 = 1)
    (hidle : w.idle x = true) (hb : (b, w') ∈ Op.exec env i w (.admitClient x prio)) :
    Table w' ∧ w'.created x ∧ ∀ y, w.created y → w'.created y := by
  have hnew : x ∉ w.live := fun hlive => by
    have := h.used x (h.live x hlive)
    rw [hidle] at this
    cases this
  have hmax : w.maxClient < x := by simpa [World.idle, hx] using hidle
  have hcreated (y : Nat) (s : Stream) :
      (Function.update w.str x (some s) y).isSome ↔ y = x ∨ w.created y := by
    by_cases hy : y = x <;> simp [World.created, hy]
  have hused (y : Nat) (hy : y = x ∨ w.created y) :
      (if y % 2 = 1 then decide (y > max w.maxClient x) else decide (y ≥ w.nextPush)) = false := by
    obtain rfl | hy := hy
    · simp [hx]
    · have := h.used y hy
      unfold World.idle at this
      split <;> simp_all
  simp only [Op.exec, Op.underTable, World.admitClient] at hb
  split at hb
  · split at hb <;> cases List.mem_singleton.1 hb
    · refine ⟨?_, by simp [World.created, World.setStr], fun y hy => ?_⟩
      · exact
          { nextPush := h.nextPush
            live := fun y hy => (hcreated _ _).2 (.inr (h.live y hy))
            used := fun y hy => hused y ((hcreated _ _).1 hy)
            nodup := h.nodup
            nClient := h.nClient
            nPush := h.nPush
            queued := fun y hy => (hcreated _ _).2 (.inr (h.queued y hy))
            delivered := fun y hy => (hcreated _ _).2 (.inr (h.delivered y hy)) }
      · exact (hcreated _ _).2 (.inr hy)
    · refine ⟨?_, by simp [World.created, World.setStr], fun y hy => ?_⟩
      · exact
          { nextPush := h.nextPush
            live := fun y hy => (hcreated _ _).2 ((List.mem_cons.1 hy).imp_right (h.live y))
            used := fun y hy => hused y ((hcreated _ _).1 hy)
            nodup := List.nodup_cons.2 ⟨hnew, h.nodup⟩
            nClient := by simp [h.nClient, hx]
            nPush := by simp [World.setStr, h.nPush, hx]
            queued := fun y hy => (hcreated _ _).2 (.inr (h.queued y hy))
            delivered := fun y hy => (hcreated _ _).2 (.inr (h.delivered y hy)) }
      · exact (hcreated _ _).2 (.inr hy)
  · cases hb

theorem reservePush {limit : Nat} {b : Option Nat} (h : Table w)
    (hb : (b, w') ∈ Op.exec env i w (.reservePush limit)) :
    Table w' ∧ (∀ y, w.created y → w'.created y) ∧ w'.maxClient = w.maxClient := by
  have hcreated (y : Nat) (s : Stream) :
      (Function.update w.str w.nextPush (some s) y).isSome ↔ y = w.nextPush ∨ w.created y := by
    by_cases hy : y = w.nextPush <;> simp [World.created, hy]
  have hnew : w.nextPush ∉ w.live := fun hlive => by
    have := h.used _ (h.live _ hlive)
    simp [World.idle, h.nextPush] at this
  simp only [Op.exec, Op.underTable, World.reservePush] at hb
  split at hb
  · split at hb <;> cases List.mem_singleton.1 hb
    · exact ⟨h, fun _ hy => hy, rfl⟩
    · refine ⟨?_, fun y hy => (hcreated _ _).2 (.inr hy), rfl⟩
      exact
        { nextPush := by simp [h.nextPush]
          live := fun y hy => (hcreated _ _).2 ((List.mem_cons.1 hy).imp_right (h.live y))
          used := fun y hy => by
            obtain rfl | hy := (hcreated _ _).1 hy
            · simp [World.idle, h.nextPush]
            · have := h.used y hy
              unfold World.idle at this ⊢
              split <;> simp_all [World.setStr]
              omega
          nodup := List.nodup_cons.2 ⟨hnew, h.nodup⟩
          nClient := by simp [World.setStr, h.nClient, h.nextPush]
          nPush := by simp [h.nPush, h.nextPush]
          queued := fun y hy => (hcreated _ _).2 (.inr (h.queued y hy))
          delivered := fun y hy => (hcreated _ _).2 (.inr (h.delivered y hy)) }
  · cases hb

theorem countP_erase_of_mem {x : Nat} {l : List Nat} (hx : x ∈ l) (p : Nat → Bool) :
    ((l.erase x).countP p : Int) = l.countP p - if p x then 1 else 0 := by
  have := (List.perm_cons_erase hx).countP_eq p
  rw [this, List.countP_cons]
  split <;> simp

theorem release {x : Nat} {b : Bool} (h : Table w)
    (hb : (b, w') ∈ Op.exec env i w (.release x)) : Table w' ∧ w'.maxClient = w.maxClient := by
  simp only [Op.exec, Op.underTable, World.release] at hb
  split at hb
  · split at hb <;> cases List.mem_singleton.1 hb
    · rename_i hlive
      refine ⟨?_, rfl⟩
      exact
        { h with
          live := fun y hy => h.live y (List.mem_of_mem_erase hy)
          nodup := h.nodup.erase x
          nClient := by
            rw [countP_erase_of_mem hlive]
            by_cases hx : x % 2 = 1 <;> simp [h.nClient, hx]
          nPush := by
            rw [countP_erase_of_mem hlive]
            obtain hx | hx := Nat.mod_two_eq_zero_or_one x <;> simp [h.nPush, hx] }
    · exact ⟨h, rfl⟩
  · cases hb

theorem accept {o : Op β} {b : β} (h : Table w) (ho : o.kind = .accept) (hask : Asks w o)
    (hb : (b, w') ∈ o.exec env i w) : Table w' := by
  have hf := frame_of_exec hb
  rw [ho] at hf
  have ht := hf.table (by simp)
  have hc := hf.created (by simp)
  suffices (∀ x ∈ w'.acceptCh, w'.created x) ∧ ∀ x ∈ w'.delivered, w'.created x by
    simp only [World.tableView, Prod.mk.injEq] at ht
    have h' : Table { w' with
        acceptCh := w.acceptCh, delivered := w.delivered, streamsAccepted := w.streamsAccepted } :=
      h.congr (by simp [World.tableView, ht]) rfl hc
    exact { h' with queued := this.1, delivered := this.2 }
  obtain ⟨hqueue, hgiven⟩ := accept_exec hb
  refine ⟨fun x hx => (hc x).2 ?_, fun x hx => (hc x).2 ?_⟩
  · obtain hx | hx := hqueue x hx
    · exact h.queued x hx
    · exact hask.queued hx
  · obtain ⟨hsame, -⟩ | ⟨y, hy, -, hadd, -⟩ := hgiven
    · exact h.delivered x (hsame ▸ hx)
    · rw [hadd, List.mem_append, List.mem_singleton] at hx
      obtain hx | rfl := hx
      · exact h.delivered x hx
      · exact hask.delivered hy

theorem drain {b : List Nat} (h : Table w) (hb : (b, w') ∈ Op.exec env i w .drain) :
    Table w' ∧ w'.maxClient = w.maxClient := by
  simp only [Op.exec] at hb
  split at hb
  · obtain ⟨l, -, hl⟩ := List.mem_map.1 hb
    cases hl
    refine ⟨?_, rfl⟩
    exact { h with live := by simp [World.drain], nodup := .nil, nClient := rfl, nPush := rfl }
  · cases hb

theorem other {o : Op β} {b : β} (h : Table w)
    (ho : o.kind ∉ [.register, .reserve, .release, .drain, .accept])
    (hb : (b, w') ∈ o.exec env i w) : Table w' := by
  have hf := frame_of_exec hb
  exact h.congr (hf.table (avoids ho (by decide))) (hf.accept (avoids_one ho (by decide)))
    (hf.created (avoids ho (by decide)))

theorem exec {o : Op β} {b : β} (h : Table w) (ho : o.kind ≠ .register) (hask : Asks w o)
    (hb : (b, w') ∈ o.exec env i w) :
    Table w' ∧ (∀ x, w.created x → w'.created x) ∧ w'.maxClient = w.maxClient := by
  have hf := frame_of_exec hb
  have hcreated (hk : o.kind ≠ .reserve) (x) : w.created x → w'.created x := by
    exact (hf.created (fun h => (List.mem_pair.1 h).elim ho hk) x).2
  have hmax (hk : o.kind ∉ [.register, .reserve, .release, .drain]) : w'.maxClient = w.maxClient := by
    have := hf.table hk
    simp only [World.tableView, Prod.mk.injEq] at this
    exact this.2.1
  cases o
  case admitClient => exact absurd rfl ho
  case reservePush => exact h.reservePush hb
  case release => exact ⟨(h.release hb).1, hcreated (by simp), (h.release hb).2⟩
  case drain => exact ⟨(h.drain hb).1, hcreated (by simp), (h.drain hb).2⟩
  case tryEnqueue | tryAccept | awaitAccept | deliver =>
    exact ⟨h.accept rfl hask hb, hcreated (by simp), hmax (by simp)⟩
  case advance x delta =>
    exact ⟨h.other (delta.kind_notMem (by simp)) hb, hcreated (delta.kind_ne (by simp)),
      hmax (delta.kind_notMem (by simp))⟩
  case write f =>
    exact ⟨h.other (f.kind_notMem (by simp)) hb, hcreated (f.kind_ne (by simp)),
      hmax (f.kind_notMem (by simp))⟩
  all_goals exact ⟨h.other (by simp) hb, hcreated (by simp), hmax (by simp)⟩

def spec (env : Env) (G : Guard Op World Call) : Spec (machine env) (owned G) PUnit where
  inv w _ := Table w
  rely i w w' := (∀ x, w.created x → w'.created x) ∧
    (w.reader = some i → w'.reader = some i ∧ w'.maxClient = w.maxClient)
  rely_refl _ _ := ⟨fun _ h => h, fun h => ⟨h, rfl⟩⟩
  rely_trans h₁ h₂ := by
    refine ⟨fun x h => h₂.1 x (h₁.1 x h), fun h => ?_⟩
    obtain ⟨hr, hm⟩ := h₁.2 h
    exact ⟨(h₂.2 hr).1, (h₂.2 hr).2.trans hm⟩
  pre _ w _ o := Asks w o

section Safe

theorem step {o : Op β} {b : β} (h : Table w) (ho : o.kind ∉ [.reader, .register])
    (hask : Asks w o) (hb : (b, w') ∈ o.exec env i w) :
    Table w' ∧ ∀ j, (spec env G).rely j w w' := by
  have hturn : w'.turnView = w.turnView := (frame_of_exec hb).turn fun h => ho (by rw [h]; simp)
  simp only [World.turnView, Prod.mk.injEq] at hturn
  obtain ⟨h', hc, hm⟩ := h.exec (fun h => ho (by rw [h]; simp)) hask hb
  exact ⟨h', fun j => ⟨hc, fun hj => ⟨hturn.1.trans hj, hm⟩⟩⟩

theorem harmless {o : Op β} (ho : o.kind ∉ [.reader, .register, .accept]) :
    (spec env G).Harmless o := by
  intro i w _ h _
  have hask : Asks w o := by
    unfold Asks
    split
    all_goals first
      | trivial
      | exact absurd (by simp) ho
  have ho : o.kind ∉ [.reader, .register] := avoids ho (by decide)
  exact ⟨hask, fun b w' hb => step h ho hask hb⟩

theorem safe_op {o : Op β} {k : β → M α} {Q : α → PUnit → World → Prop} 
    (ho : o.kind ∉ [.reader, .register]) (hask : ∀ w', (spec env G).rely i w w' → Asks w' o)
    (hk : ∀ w₁ b w₂, Table w₁ → (b, w₂) ∈ o.exec env i w₁ → (spec env G).rely i w₁ w₂ →
      (spec env G).rely i w w₂ → (spec env G).Safe i (k b) 0 Q w₂) :
    (spec env G).Safe i (.op o k) 0 Q w := by
  intro w₁ hw ⟨_, hinv⟩ _
  refine ⟨hask w₁ hw, fun b w₂ hb => ?_⟩
  obtain ⟨h₂, hrely⟩ := step hinv ho (hask w₁ hw) hb
  refine ⟨0, fun _ _ => h₂, fun j _ => hrely j, ?_⟩
  exact hk w₁ b w₂ hinv hb (hrely i) ((spec env G).rely_trans hw (hrely i))

theorem safe_within {p : M α} {Q : α → PUnit → World → Prop}
    (hp : Within (· ∉ [.reader, .register, .accept]) p)
    (hQ : ∀ a w', (spec env G).rely i w w' → Q a 0 w') : (spec env G).Safe i p 0 Q w :=
  Spec.safe_of_all (hp.mono fun _ ho => harmless ho) hQ

theorem acceptStream_safe (ctx : Ctx) :
    (spec env G).Safe i (acceptStream ctx) 0 (fun _ g _ => g = 0) w := by
  refine Conn.acceptStream_safe (S := spec env G) World.created ?_ ?_ ?_ ?_ ctx
  · exact fun hw h => hw.1 _ h
  · intro β o ho i w _ h _
    have hk : o.kind ∉ [.reader, .register] ∧ Asks w o := by
      cases o <;> simp_all
    exact ⟨hk.2, fun b w' hb => step h hk.1 hk.2 hb⟩
  · exact fun h _ hx => h.queued _ hx
  · exact fun hx => safe_op (by simp) (fun w' hw => hw.1 _ hx) fun _ _ _ _ _ _ _ => fun _ _ => rfl

theorem registerStream_safe (hG : Fresh env G) {x : Nat} (hr : w.reader = some i) (hx : x % 2 = 1)
    (hidle : env.cfg.upgradedRequest = none → w.idle x = true) (prio : Option Priority) :
    (spec env G).Safe i (registerStream x prio) 0 (fun _ g w => g = 0 ∧ w.reader = some i) w := by
  intro w₁ hw ⟨_, hinv⟩ hok
  have h₁ := hw.2 hr
  have hidle : w₁.idle x = true := by
    obtain hup | hadmit := hG.admission
    · simpa [World.idle, hx, h₁.2] using hidle hup
    · exact hadmit _ _ _ _ hok.1
  refine ⟨hidle, fun b w₂ hb => ?_⟩
  change (b, w₂) ∈ Op.exec env i w₁ (.admitClient x prio) at hb
  obtain ⟨h₂, hcreated, hmono⟩ := hinv.admitClient hx hidle hb
  have hturn : w₂.reader = some i := by
    have := (frame_of_exec hb).turn (by simp)
    simp only [World.turnView, Prod.mk.injEq] at this
    rw [this.1, h₁.1]
  refine ⟨0, fun _ _ => h₂, fun j hj => ⟨hmono, fun hjr => ?_⟩, ?_⟩
  · rw [h₁.1] at hjr
    exact absurd (Option.some.inj hjr) (Ne.symm hj)
  have hrefuse (w : World) (hr : w.reader = some i) : (spec env G).Safe i
      ((writeServerRSTStream x .refusedStream).bind fun _ =>
        .op (.cancelStream x) fun _ => .ret false) 0 (fun _ g w => g = 0 ∧ w.reader = some i) w := by
    refine safe_within (.bind ((writeServerRSTStream_uses _ _).within (by decide)) (by simp)) ?_
    exact fun _ w' hw => ⟨rfl, (hw.2 hr).1⟩
  cases b with
  | false => exact hrefuse w₂ hturn
  | true =>
    refine safe_op (by simp) (fun w' hw => hw.1 x hcreated) fun _ r w₃ _ _ _ hw => ?_
    cases r with
    | true => exact fun w' hw' => ⟨rfl, (hw'.2 (hw.2 hturn).1).1⟩
    | false => exact hrefuse w₃ (hw.2 hturn).1

theorem safe_ending {o : Op Unit} (ho : o = .frameDone ∨ o = .stopReader) (hr : w.reader = some i) :
    (spec env G).Safe i (.lift o) 0 ((spec env G).Done i) w := by
  intro w₁ hw ⟨_, hinv⟩ _
  have hask : Asks w₁ o := by obtain rfl | rfl := ho <;> trivial
  refine ⟨hask, fun b w₂ hb => ?_⟩
  obtain ⟨h₂, hc, -⟩ := hinv.exec (by obtain rfl | rfl := ho <;> simp) hask hb
  refine ⟨0, fun _ _ => h₂, fun j hj => ⟨hc, fun hjr => ?_⟩, fun _ _ => ⟨rfl, trivial⟩⟩
  rw [(hw.2 hr).1] at hjr
  exact absurd (Option.some.inj hjr) (Ne.symm hj)

theorem layer (hG : Fresh env G) : Layer (spec env G) (fun i w => w.reader = some i) where
  fin _ _ := trivial
  harmless := harmless
  rely hw h := (hw.2 h).1
  read := fun {i w f k} hk => by
    refine fun w₁ _ ⟨_, hinv⟩ _ => ⟨trivial, fun u w₂ hr => ?_⟩
    change (u, w₂) ∈ Op.exec env i w₁ (.readFrame f) at hr
    obtain ⟨h₂, hc, -⟩ := Table.exec hinv (by simp) (by simp) hr
    obtain ⟨hfree, hdone, hview⟩ := readFrame_exec hr
    simp only [World.readerView, Prod.mk.injEq] at hview
    exact ⟨0, fun _ _ => h₂, fun j _ => ⟨hc, fun hj => by simp [hfree] at hj⟩, hk w₂ hview.1⟩
  register prio h hx hidle := registerStream_safe hG h hx hidle prio
  frameDone h := safe_ending (.inl rfl) h
  stopReader h := safe_ending (.inr rfl) h
  accept ctx := acceptStream_safe ctx

theorem verifies (hG : Fresh env G) : (spec env G).Verifies (Call.body env) := (layer hG).verifies

end Safe

end Table

abbrev tabled (env : Env) (G : Guard Op World Call) : Guard Op World Call := (Table.spec env G).guard

section Tabled

variable {env : Env} {G : Guard Op World Call} {i : Nat} {w : World} {o : Op β}

theorem tabled_table (h : (tabled env G).opOk i w o) : Table w := h.2.2.elim fun _ h => h

theorem tabled_asks (h : (tabled env G).opOk i w o) : Table.Asks w o := h.2.1

theorem tabled_held (h : (tabled env G).opOk i w o) : ∃ h : Held, h.Of i w ∧ h.Allows o := h.1.2

theorem tabled_guard (h : (tabled env G).opOk i w o) : G.opOk i w o := h.1.1

end Tabled

theorem reach_tabled {env : Env} {G : Guard Op World Call} (hG : Fresh env G) {c : Config Op World}
    (hc : Reach env G c) : Reach env (tabled env G) c :=
  Spec.reachable_guard (Table.init env) (fun _ => trivial) (Table.verifies hG)
    (reach_owned hG.call hc)

theorem step_tabled {env : Env} {G : Guard Op World Call} (hG : Fresh env G)
    {c c' : Config Op World} {e : Event Call} (h : Step env G c e c') : Step env (tabled env G) c e c' :=
  Spec.taken_guard (Table.init env) (fun _ => trivial) (Table.verifies hG) (step_owned hG.call h)

theorem table_of_reach {env : Env} {G : Guard Op World Call} (hG : Fresh env G)
    {c : Config Op World} (hc : Reach env G c) : Table c.shared := by
  obtain ⟨_, h⟩ := Spec.inv_of_reachable (Table.init env) (fun _ => trivial) (Table.verifies hG)
    (reach_owned hG.call hc)
  exact h

end PoseidonServer.Conn
