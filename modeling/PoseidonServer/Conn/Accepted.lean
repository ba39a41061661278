import PoseidonServer.Conn.Lifecycle.Runs

/-! What AcceptStream hands out: a stream that has left the table is closed, or was in it when the
connection was torn down, and closed streams are skipped. -/

namespace PoseidonServer.Conn

open Concurrent

/-- Where the streams of a connection are: in the table, in it when the connection was torn
down, or closed. A promise that could not be written was never open. -/
def World.known (w : World) (x : Nat) : Prop :=
  x ∈ w.live ∨ x ∈ w.drained ∨ (w.state x).terminal = true ∨ (w.down = true ∧ x % 2 = 0)

namespace Accepted

structure Inv (w : World) : Prop where
  known : w.reader = none → ∀ x, w.created x → w.known x
  queued : ∀ x ∈ w.acceptCh, x % 2 = 1 ∧ w.known x
  counted : w.streamsAccepted = w.delivered.length

@[simp] def Asks (w : World) : Op β → Prop
  | .tryEnqueue x | .deliver x => x % 2 = 1 ∧ w.known x
  | _ => True

def spec (env : Env) (G : Guard Op World Call) : Spec (machine env) (lived env G true) PUnit where
  inv w _ := Inv w
  rely i w w' := (∀ x, w.created x → w.known x → w'.known x) ∧
    (∀ x, w.created x → w'.created x) ∧ (w.reader = some i → w'.reader = some i ∧
      ∀ x, w'.created x → w.created x ∨ w'.known x)
  rely_refl _ _ := ⟨fun _ _ h => h, fun _ h => h, fun h => ⟨h, fun _ => .inl⟩⟩
  rely_trans h₁ h₂ := by
    obtain ⟨hk₁, hc₁, hr₁⟩ := h₁
    obtain ⟨hk₂, hc₂, hr₂⟩ := h₂
    refine ⟨fun x hc h => hk₂ x (hc₁ x hc) (hk₁ x hc h), fun x h => hc₂ x (hc₁ x h), fun h => ?_⟩
    obtain ⟨hr, hn₁⟩ := hr₁ h
    obtain ⟨hr, hn₂⟩ := hr₂ hr
    refine ⟨hr, fun x hx => ?_⟩
    obtain hx | hx := hn₂ x hx
    · exact (hn₁ x hx).imp_right (hk₂ x hx)
    · exact .inr hx
  pre _ w _ o := Asks w o

variable {env : Env} {G : Guard Op World Call} {i : Nat} {w w' : World}

theorem lived_tabled {o : Op β} (h : (lived env G true).opOk i w o) : (tabled env G).opOk i w o := h.1

theorem known_congr (ht : w'.tableView = w.tableView) (hs : ∀ x, w'.state x = w.state x)
    (hd : w.down = true → w'.down = true) {x : Nat} (h : w.known x) : w'.known x := by
  simp only [World.tableView, Prod.mk.injEq] at ht
  unfold World.known
  rw [ht.1, ht.2.2.2.2.2, hs]
  exact h.imp_right (Or.imp_right (Or.imp_right (And.imp_left hd)))

theorem known_release {x y : Nat} {b : Bool} (hok : (lived env G true).opOk i w (.release x))
    (hb : (b, w') ∈ Op.exec env i w (.release x)) (h : w.known y) : w'.known y := by
  have hpre : Lifecycle.Pre true i w (.release x) := hok.2.1
  simp only [Op.exec, Op.underTable, World.release] at hb
  split at hb
  · split at hb <;> cases List.mem_singleton.1 hb
    · rename_i hx
      obtain hl | h := h
      · by_cases hy : y = x
        · subst hy
          obtain ht | hd | ⟨hs, -⟩ := hpre hx
          · exact .inr (.inr (.inl ht))
          · exact .inr (.inr (.inr hd))
          · cases hs
        · exact .inl ((List.mem_erase_of_ne hy).2 hl)
      · exact .inr h
    · exact h
  · cases hb

theorem known_drain {y : Nat} {l : List Nat} (hb : (l, w') ∈ Op.exec env i w .drain)
    (h : w.known y) : w'.known y := by
  simp only [Op.exec] at hb
  split at hb
  · obtain ⟨l, -, hl⟩ := List.mem_map.1 hb
    cases hl
    obtain hy | hy | h := h
    · exact .inr (.inl (List.mem_append_left _ hy))
    · exact .inr (.inl (List.mem_append_right _ hy))
    · exact .inr (.inr h)
  · cases hb

theorem known_advance {x y : Nat} {delta b : StreamState}
    (hb : (b, w') ∈ Op.exec env i w (.advance x delta)) (h : w.known y) : w'.known y := by
  have hs : Lifecycle.Steady true w w' := Lifecycle.steady_advance hb
  have ht := (frame_of_exec hb).table (delta.kind_notMem (by simp))
  simp only [World.tableView, Prod.mk.injEq] at ht
  unfold World.known
  rw [ht.1, ht.2.2.2.2.2]
  exact h.imp_right (Or.imp_right (Or.imp (hs.state y).terminal (And.imp_left hs.down)))

theorem known_reserve {limit y : Nat} {b : Option Nat} (ht : Table w)
    (hb : (b, w') ∈ Op.exec env i w (.reservePush limit)) :
    (w.known y → w'.known y) ∧ (w'.created y → w.created y ∨ w'.known y) := by
  have hs : Lifecycle.Steady true w w' := Lifecycle.steady_reserve ht hb
  have hf := frame_of_exec hb
  simp only [Op.exec, Op.underTable, World.reservePush] at hb
  split at hb
  · split at hb <;> cases List.mem_singleton.1 hb
    · exact ⟨id, .inl⟩
    · refine ⟨fun h => ?_, fun h => ?_⟩
      · obtain h | h | h := h
        · exact .inl (List.mem_cons_of_mem _ h)
        · exact .inr (.inl h)
        · exact .inr (.inr (h.imp_left (hs.state y).terminal))
      · by_cases hy : y = w.nextPush
        · exact .inr (.inl (hy ▸ List.mem_cons_self ..))
        · refine .inl ?_
          simpa [World.created, World.setStr, hy] using h
  · cases hb

theorem known_exec {o : Op β} {b : β} (hok : (lived env G true).opOk i w o) (ho : o.kind ≠ .register)
    (hb : (b, w') ∈ o.exec env i w) : (∀ x, w.known x → w'.known x) ∧
      ∀ x, w'.created x → w.created x ∨ w'.known x := by
  have hf := frame_of_exec hb
  have hcreated (hk : o.kind ≠ .reserve) (x) (hx : w'.created x) : w.created x ∨ w'.known x := by
    exact .inl ((hf.created (fun h => (List.mem_pair.1 h).elim ho hk) x).1 hx)
  have hdown := down_of_exec hb
  have hsame (hk : o.kind ∉ [.register, .reserve, .release, .drain, .advance, .advanceRecv]) (x)
      (hx : w.known x) : w'.known x := by
    exact known_congr (hf.table (avoids hk (by decide))) (hf.state_eq (avoids hk (by decide))) hdown hx
  cases o
  case admitClient => exact absurd rfl ho
  case reservePush =>
    have ht := tabled_table (lived_tabled hok)
    exact ⟨fun x => (known_reserve ht hb).1, fun x => (known_reserve ht hb).2⟩
  case release => exact ⟨fun x => known_release hok hb, hcreated (by simp)⟩
  case drain => exact ⟨fun x => known_drain hb, hcreated (by simp)⟩
  case advance x delta => exact ⟨fun y => known_advance hb, hcreated (delta.kind_ne (by simp))⟩
  case write f => exact ⟨hsame (f.kind_notMem (by simp)), hcreated (f.kind_ne (by simp))⟩
  all_goals exact ⟨hsame (by simp), hcreated (by simp)⟩

theorem Asks.queued {o : Op β} {x : Nat} (h : Asks w o) (hx : o.queues = some x) :
    x % 2 = 1 ∧ w.known x := by
  cases o <;> simp only [Op.queues, reduceCtorEq, Option.some.injEq] at hx
  exact hx ▸ h

theorem Asks.delivered {o : Op β} {x : Nat} (h : Asks w o) (hx : o.delivers = some x) :
    x % 2 = 1 ∧ w.known x := by
  cases o <;> simp only [Op.delivers, reduceCtorEq, Option.some.injEq] at hx
  exact hx ▸ h

theorem queue_exec {o : Op β} {b : β} (h : Inv w) (hask : Asks w o)
    (hb : (b, w') ∈ o.exec env i w) : (∀ x ∈ w'.acceptCh, x % 2 = 1 ∧ w.known x) ∧
      w'.streamsAccepted = w'.delivered.length := by
  obtain ⟨hqueue, hgiven⟩ := accept_exec hb
  refine ⟨fun x hx => (hqueue x hx).elim (h.queued x) hask.queued, ?_⟩
  obtain ⟨hd, hn⟩ | ⟨y, -, -, hd, hn⟩ := hgiven
  · rw [hd, hn, h.counted]
  · rw [hd, hn, h.counted, List.length_append, List.length_singleton]

theorem step {o : Op β} {b : β} (h : Inv w) (hok : (lived env G true).opOk i w o)
    (ho : o.kind ∉ [.reader, .register]) (hask : Asks w o) (hb : (b, w') ∈ o.exec env i w) :
    Inv w' ∧ ∀ j, (spec env G).rely j w w' := by
  have hturn : w'.turnView = w.turnView := (frame_of_exec hb).turn fun h => ho (by rw [h]; simp)
  simp only [World.turnView, Prod.mk.injEq] at hturn
  have hreg : o.kind ≠ .register := fun h => ho (by rw [h]; simp)
  obtain ⟨hk, hc⟩ := known_exec hok hreg hb
  obtain ⟨hq, hn⟩ := queue_exec h hask hb
  refine ⟨⟨fun hr x hx => ?_, fun x hx => ⟨(hq x hx).1, hk x (hq x hx).2⟩, hn⟩,
    fun j => ⟨fun x _ => hk x, ?_, fun hj => ⟨hturn.1.trans hj, hc⟩⟩⟩
  · exact (hc x hx).elim (fun hx => hk x (h.known (hturn.1 ▸ hr) x hx)) id
  have hask' : Table.Asks w o := tabled_asks (lived_tabled hok)
  exact ((tabled_table (lived_tabled hok)).exec hreg hask' hb).2.1

theorem harmless {o : Op β} (ho : o.kind ∉ [.reader, .register, .accept]) :
    (spec env G).Harmless o := by
  intro i w _ h hok
  have hask : Asks w o := by
    unfold Asks
    split
    all_goals first
      | trivial
      | exact absurd (by simp) ho
  have ho : o.kind ∉ [.reader, .register] := avoids ho (by decide)
  exact ⟨hask, fun b w' hb => step h hok ho hask hb⟩

theorem safe_op {o : Op β} {k : β → M α} {Q : α → PUnit → World → Prop}
    (ho : o.kind ∉ [.reader, .register]) (hask : ∀ w', (spec env G).rely i w w' → Asks w' o)
    (hk : ∀ w₁ b w₂, Inv w₁ → Table w₁ → (b, w₂) ∈ o.exec env i w₁ → (spec env G).rely i w₁ w₂ →
      (spec env G).rely i w w₂ → (spec env G).Safe i (k b) 0 Q w₂) :
    (spec env G).Safe i (.op o k) 0 Q w := by
  intro w₁ hw ⟨_, hinv⟩ hok
  refine ⟨hask w₁ hw, fun b w₂ hb => ?_⟩
  obtain ⟨h₂, hrely⟩ := step hinv hok ho (hask w₁ hw) hb
  refine ⟨0, fun _ _ => h₂, fun j _ => hrely j, ?_⟩
  exact hk w₁ b w₂ hinv (tabled_table (lived_tabled hok)) hb (hrely i)
    ((spec env G).rely_trans hw (hrely i))

theorem acceptStream_safe (ctx : Ctx) :
    (spec env G).Safe i (acceptStream ctx) 0 (fun _ g _ => g = 0) w := by
  refine Conn.acceptStream_safe (S := spec env G)
    (fun w x => w.created x ∧ x % 2 = 1 ∧ w.known x) ?_ ?_ ?_ ?_ ctx
  · exact fun hw h => ⟨hw.2.1 _ h.1, h.2.1, hw.1 _ h.1 h.2.2⟩
  · intro β o ho i w _ h hok
    have hk : o.kind ∉ [.reader, .register] ∧ Asks w o := by
      cases o <;> simp_all
    exact ⟨hk.2, fun b w' hb => step h hok hk.1 hk.2 hb⟩
  · exact fun h hok hx => ⟨(tabled_table (lived_tabled hok)).queued _ hx, h.queued _ hx⟩
  · intro w x h
    refine safe_op (by simp) (fun w' hw => ⟨h.2.1, hw.1 x h.1 h.2.2⟩) fun _ _ _ _ _ _ _ _ => ?_
    exact fun _ _ => rfl

def KeptBut (P : Nat → Prop) (i : Nat) (w : World) : Prop :=
  w.reader = some i ∧ ∀ x, w.created x → P x ∨ w.known x

theorem KeptBut.rely {P : Nat → Prop} (h : KeptBut P i w) (hw : (spec env G).rely i w w') :
    KeptBut P i w' := by
  obtain ⟨hr, hnew⟩ := hw.2.2 h.1
  refine ⟨hr, fun x hx => ?_⟩
  obtain hx | hx := hnew x hx
  · exact (h.2 x hx).imp_right (hw.1 x hx)
  · exact .inr hx

def Kept : Nat → World → Prop := KeptBut fun _ => False

theorem refused_safe {x : Nat} (h : KeptBut (· = x) i w) (hc : w.created x) : (spec env G).Safe i
      ((writeServerRSTStream x .refusedStream).bind fun _ =>
        .op (.cancelStream x) fun _ => .ret false) 0 (fun _ g w => g = 0 ∧ Kept i w) w := by
  have hrest : Within (· ∉ [.reader, .register, .accept])
      ((writeServerRSTStream x .refusedStream).bind fun _ =>
        .op (.cancelStream x) fun _ => .ret false) :=
    .bind ((writeServerRSTStream_uses _ _).within (by decide)) (by simp)
  obtain ⟨-, hrest⟩ := hrest
  intro w₁ hw ⟨_, hinv⟩ hok
  refine ⟨trivial, fun before w₂ hb => ?_⟩
  change (before, w₂) ∈ Op.exec env i w₁ (.advance x { reset := true }) at hb
  obtain ⟨h₂, hrely⟩ := step hinv hok (by simp) trivial hb
  refine ⟨0, fun _ _ => h₂, fun j _ => hrely j, ?_⟩
  have hkept : Kept i w₂ := by
    have h₂ := (h.rely hw).rely (hrely i)
    refine ⟨h₂.1, fun y hy => .inr ?_⟩
    obtain rfl | hy := h₂.2 y hy
    · refine .inr (.inr (.inl ?_))
      rw [(Lifecycle.advance_exec hb (hw.2.1 y hc)).2]
      simp [StreamState.terminal, StreamState.union]
    · exact hy
  exact Spec.safe_of_all ((hrest before).mono fun _ ho => harmless ho) fun _ _ hw => ⟨rfl, hkept.rely hw⟩

theorem admit_known {x : Nat} {prio : Option Priority} {b : Bool} (ht : Table w)
    (hx : x % 2 = 1) (hidle : w.idle x = true)
    (hb : (b, w') ∈ Op.exec env i w (.admitClient x prio)) :
    (∀ y, w.created y → w.known y → w'.known y) ∧ (b = true → w'.known x) ∧
      ∀ y, w'.created y → y = x ∨ w.created y := by
  have hm := (Lifecycle.admitClient_exec ht hx hidle hb).1
  have hnew {y : Nat} (hy : w.created y) : y ≠ x := by
    rintro rfl
    simp [ht.used y hy] at hidle
  simp only [Op.exec, Op.underTable, World.admitClient] at hb
  split at hb
  · split at hb <;> cases List.mem_singleton.1 hb
    · refine ⟨fun y hy h => ?_, by simp, fun y hy => ?_⟩
      · exact h.imp_right (Or.imp_right (Or.imp_left (hm.state y).terminal))
      · by_cases hyx : y = x
        · exact .inl hyx
        · exact .inr (by simpa [World.created, World.setStr, hyx] using hy)
    · refine ⟨fun y hy h => ?_, fun _ => .inl (List.mem_cons_self ..), fun y hy => ?_⟩
      · exact h.imp (List.mem_cons_of_mem x) (Or.imp_right (Or.imp_left (hm.state y).terminal))
      · by_cases hyx : y = x
        · exact .inl hyx
        · exact .inr (by simpa [World.created, World.setStr, hyx] using hy)
  · cases hb

theorem registerStream_safe {x : Nat} (h : Kept i w) (hx : x % 2 = 1) (prio : Option Priority) :
    (spec env G).Safe i (registerStream x prio) 0 (fun _ g w => g = 0 ∧ Kept i w) w := by
  intro w₁ hw ⟨_, hinv⟩ hok
  refine ⟨trivial, fun b w₂ hb => ?_⟩
  change (b, w₂) ∈ Op.exec env i w₁ (.admitClient x prio) at hb
  have hinv : Inv w₁ := hinv
  have h₁ := h.rely hw
  have ht := tabled_table (lived_tabled hok)
  have hidle : w₁.idle x = true := tabled_asks (lived_tabled hok)
  obtain ⟨-, hc, hcreated⟩ := ht.admitClient hx hidle hb
  obtain ⟨hknown, hnew, hcreated'⟩ := admit_known ht hx hidle hb
  have hf := frame_of_exec hb
  have hturn := hf.turn (by simp)
  have haccept := hf.accept (by simp)
  simp only [World.turnView, World.acceptView, Prod.mk.injEq] at hturn haccept
  have hr₂ : w₂.reader = some i := hturn.1.trans h₁.1
  have hinv₂ : Inv w₂ := by
    refine ⟨by simp [hr₂], fun y hy => ?_, ?_⟩
    · rw [haccept.1] at hy
      exact ⟨(hinv.queued y hy).1, hknown y (ht.queued y hy) (hinv.queued y hy).2⟩
    · rw [haccept.2.1, haccept.2.2]
      exact hinv.counted
  have h₂ : KeptBut (· = x) i w₂ := by
    refine ⟨hr₂, fun y hy => ?_⟩
    obtain hyx | hy := hcreated' y hy
    · exact .inl hyx
    · exact .inr (hknown y hy ((h₁.2 y hy).resolve_left id))
  refine ⟨0, fun _ _ => hinv₂, fun j hj => ⟨hknown, hcreated, fun hjr => ?_⟩, ?_⟩
  · rw [h₁.1] at hjr
    exact absurd (Option.some.inj hjr) (Ne.symm hj)
  cases b with
  | false => exact refused_safe h₂ hc
  | true =>
    refine safe_op (by simp) (fun w' hw => ⟨hx, hw.1 x hc (hnew rfl)⟩) fun _ r w₃ _ _ _ _ hw => ?_
    cases r with
    | true =>
      refine fun w' hw' => ⟨rfl, KeptBut.rely ⟨(h₂.rely hw).1, fun y hy => .inr ?_⟩ hw'⟩
      obtain rfl | hy := (h₂.rely hw).2 y hy
      · exact hw.1 y hc (hnew rfl)
      · exact hy
    | false => exact refused_safe (h₂.rely hw) (hw.2.1 x hc)

theorem safe_ending {o : Op Unit} (ho : o = .frameDone ∨ o = .stopReader) (h : Kept i w) :
    (spec env G).Safe i (.lift o) 0 ((spec env G).Done i) w := by
  intro w₁ hw ⟨_, hinv⟩ hok
  have hinv : Inv w₁ := hinv
  have h₁ := h.rely hw
  have hask : Asks w₁ o := by obtain rfl | rfl := ho <;> trivial
  refine ⟨hask, fun b w₂ hb => ?_⟩
  change (b, w₂) ∈ Op.exec env i w₁ o at hb
  have hreg : o.kind ≠ .register := by obtain rfl | rfl := ho <;> simp
  obtain ⟨hk, hc⟩ := known_exec hok hreg hb
  obtain ⟨hq, hn⟩ := queue_exec hinv hask hb
  have hinv₂ : Inv w₂ := by
    refine ⟨fun _ x hx => ?_, fun x hx => ⟨(hq x hx).1, hk x (hq x hx).2⟩, hn⟩
    exact (hc x hx).elim (fun hx => hk x ((h₁.2 x hx).resolve_left id)) id
  have ht := tabled_table (lived_tabled hok)
  refine ⟨0, fun _ _ => hinv₂, fun j hj => ⟨fun x _ => hk x, ?_, fun hjr => ?_⟩,
    fun _ _ => ⟨rfl, trivial⟩⟩
  · exact (ht.exec hreg (tabled_asks (lived_tabled hok)) hb).2.1
  · rw [h₁.1] at hjr
    exact absurd (Option.some.inj hjr) (Ne.symm hj)

theorem layer : Layer (spec env G) Kept where
  fin _ _ := trivial
  harmless := harmless
  rely hw h := h.rely hw
  read := fun {i w f k} hk => by
    intro w₁ _ ⟨_, hinv⟩ hok
    have hinv : Inv w₁ := hinv
    refine ⟨trivial, fun u w₂ hr => ?_⟩
    change (u, w₂) ∈ Op.exec env i w₁ (.readFrame f) at hr
    obtain ⟨hfree, hdone, hview⟩ := readFrame_exec hr
    simp only [World.readerView, Prod.mk.injEq] at hview
    obtain ⟨hkn, hc⟩ := known_exec hok (by simp) hr
    obtain ⟨hq, hn⟩ := queue_exec (o := .readFrame f) hinv trivial hr
    have ht := tabled_table (lived_tabled hok)
    refine ⟨0, fun _ _ => ⟨by simp [hview], fun x hx => ⟨(hq x hx).1, hkn x (hq x hx).2⟩, hn⟩,
      fun j _ => ⟨fun x _ => hkn x, ?_, fun hj => by simp [hfree] at hj⟩, hk w₂ ⟨hview.1, fun x hx => ?_⟩⟩
    · exact (ht.exec (by simp) (tabled_asks (lived_tabled hok)) hr).2.1
    · exact .inr ((hc x hx).elim (fun hx => hkn x (hinv.known hfree x hx)) id)
  register prio h hx _ := registerStream_safe h hx prio
  frameDone h := safe_ending (.inl rfl) h
  stopReader h := safe_ending (.inr rfl) h
  accept ctx := acceptStream_safe ctx

theorem init_inv (env : Env) : Inv (World.init env) := by
  constructor <;> simp [World.init, World.created]

end Accepted

instance (w : World) (x : Nat) : Decidable (w.closing x) := inferInstanceAs (Decidable (_ ∨ _))

/-- Runs in which no identifier is registered twice, nobody else closes the connection during a
callback of the reader, and an oversized section arrives only on a stream that the automatic
answer closes: it is unregistered, reset, or the client has ended it and the answer can still be
written; a new stream with such a section finds the queue full. -/
def closesAnswered (env : Env) : Test Op World Call where
  callOk w q := q.available w
  opOk i w _ o := match o with
    | .close => w.reader = none
    | .closeTransport => w.reader = none ∨ w.reader = some i
    | .admitClient x _ => w.idle x
    | .readFrame f => oversized env w f = true → f.streamID ∈ w.live → w.closing f.streamID
    | .tryEnqueue _ => ∀ f ∈ w.inbound.getLast?,
        oversized env w f = true → env.cfg.acceptQueueDepth ≤ w.acceptCh.length
    | _ => true

theorem fresh_closesAnswered (env : Env) : Fresh env (closesAnswered env).guard where
  call _ _ h := h
  admission := .inr fun _ _ _ _ h => h

theorem strict_closesAnswered (env : Env) : Lifecycle.Strict env (closesAnswered env).guard where
  close h := of_decide_eq_true h
  closeTransport h := of_decide_eq_true h
  readFrame h := of_decide_eq_true h
  tryEnqueue h hlast := of_decide_eq_true h _ hlast

/-- A stream that has left the table is closed, unless it was there when the connection was torn
down; a stream that RST_STREAM has been written for is closed; and AcceptStream hands out, and
counts, only streams that are not closed and still in the table, or were at the teardown. -/
theorem released_streams_are_closed {env : Env} {c : Config Op World}
    (hc : Reach env (closesAnswered env).guard c) :
    (c.shared.reader = none → ∀ x, c.shared.created x → x ∉ c.shared.live →
      x ∉ c.shared.drained →
      (c.shared.state x).terminal = true ∨ (c.shared.down = true ∧ x % 2 = 0)) ∧
    (∀ x, c.shared.rstSent x → c.shared.created x → (c.shared.state x).terminal = true) ∧
    c.shared.streamsAccepted = c.shared.delivered.length ∧
    ∀ e c', Step env (closesAnswered env).guard c e c' →
      c'.shared.delivered = c.shared.delivered ∨
      ∃ x, c'.shared.delivered = c.shared.delivered ++ [x] ∧
        (c.shared.state x).terminal = false ∧ (x ∈ c.shared.live ∨ x ∈ c.shared.drained) := by
  have hG := fresh_closesAnswered env
  have hS (_ : true = true) := strict_closesAnswered env
  obtain ⟨_, hinv⟩ := Spec.inv_of_reachable (Accepted.init_inv env) (fun _ => trivial)
    Accepted.layer.verifies (reach_lived hG hS hc)
  have hinv : Accepted.Inv c.shared := hinv
  refine ⟨fun hr x hx hl hd => ?_, fun x hx hcr => ?_, hinv.counted, fun e c' h => ?_⟩
  · exact ((hinv.known hr x hx).resolve_left hl).resolve_left hd
  · have hlife : Lifecycle.Inv true c.shared := lifecycle_of_reach hG hS hc
    exact ((hlife.rst x hx).2 hcr).resolve_right (by simp)
  · have h' := Spec.taken_guard (Accepted.init_inv env) (fun _ => trivial)
      Accepted.layer.verifies (step_lived hG hS h)
    obtain hsame | ⟨i, β, o, b, hok, hb⟩ := h'.exec
    · exact .inl (by rw [hsame])
    · refine (accept_exec hb).2.imp And.left fun ⟨x, ho, hopen, hx, _⟩ => ⟨x, hx, hopen, ?_⟩
      obtain ⟨hodd, hl | hd | ht | ⟨-, heven⟩⟩ := hok.2.1.delivered ho
      · exact .inl hl
      · exact .inr hd
      · simp [hopen] at ht
      · omega

def resetInQueue : List (Event Call) :=
  Config.inTurn 0 (handshake ++ [(.frame (.headers 1 false true [1] none), 16),
    (.frame (.rstStream 1 .cancel), 12), (.frame (.headers 3 false true [1] none), 16),
    (.accept .background, 7)])

theorem released_streams_are_closed_of_resetInQueue : ∃ c,
    Reach getRequests (closesAnswered getRequests).guard c ∧ c.shared.created 1 ∧
    (c.shared.state 1).terminal = true ∧ c.shared.delivered = [3] ∧
    c.shared.streamsAccepted = 1 := by
  obtain ⟨c, hc, h⟩ := exists_reach_of_test getRequests (closesAnswered getRequests) resetInQueue
    (p := fun c => c.shared.reader = none ∧ (c.shared.str 1).isSome ∧ 1 ∉ c.shared.live ∧
      1 ∉ c.shared.drained ∧ c.shared.delivered = [3]) (by decide +kernel)
  simp only [decide_eq_true_eq] at h
  obtain ⟨hr, hcr, hl, hd, hdel⟩ := h
  obtain ⟨hclosed, -, hcount, -⟩ := released_streams_are_closed hc
  refine ⟨c, hc, hcr, ?_, hdel, by rw [hcount, hdel]; rfl⟩
  exact (hclosed hr 1 hcr hl hd).resolve_right (by simp)

def tinySections : Env :=
  { getRequests with opts := { advertisedSettings := { maxHeaderListSize := 1 } } }

/-- A request whose section is too large is answered with 431 and released, and then AcceptStream
hands it out: it is not closed, because the client's side is still open. -/
theorem answered_stream_is_delivered : ∃ c, Reach tinySections anyCall c ∧ c.Quiet ∧
    Outbound.headers 1 status431Fields true none ∈ c.shared.wire ∧ 1 ∉ c.shared.live ∧
    c.shared.drained = [] ∧ (c.shared.state 1).terminal = false ∧ c.shared.delivered = [1] ∧
    c.shared.streamsAccepted = 1 := by
  obtain ⟨c, hc, h⟩ := exists_reach_of_run tinySections (Config.inTurn 0 (handshake ++
      [(.frame (.headers 1 false true [1] none), 27), (.accept .background, 4)]))
    (p := fun c => c.threads.all Prog.returned ∧
      Outbound.headers 1 status431Fields true none ∈ c.shared.wire ∧ 1 ∉ c.shared.live ∧
      c.shared.drained = [] ∧ (c.shared.state 1).terminal = false ∧ c.shared.delivered = [1] ∧
      c.shared.streamsAccepted = 1) (by decide +kernel)
  simp only [decide_eq_true_eq] at h
  exact ⟨c, hc, Config.quiet_of_returned h.1, h.2⟩

end PoseidonServer.Conn
