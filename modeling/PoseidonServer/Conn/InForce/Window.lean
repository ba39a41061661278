import PoseidonServer.Conn.InForce.Runs
import PoseidonServer.Conn.Lifecycle.Runs
import PoseidonServer.Conn.SendCredit.Runs

/-! The initial window that a stream has been given while it may be written to: it is the one that
has been acknowledged, or that of the SETTINGS that are about to be. -/

namespace PoseidonServer.Conn

open Concurrent

namespace World

variable (w : World)

/-- The largest initial window: SETTINGS that have come in and not been acknowledged yet may be
followed or not. -/
def windowLimit : Nat :=
  max (w.ackedValue .initialWindowSize connInitialRecvWindow) w.initialWindow

def Levelled (x : Nat) : Prop := ∀ s, w.str x = some s → s.base ≤ w.windowLimit

end World

abbrev recorded (env : Env) (G : Guard Op World Call) : Guard Op World Call :=
  (InForce.spec env G).guard

abbrev credited (env : Env) (G : Guard Op World Call) : Guard Op World Call :=
  (SendCredit.spec env (lived env (recorded env G) false)).guard

section Layers

variable {env : Env} {G : Guard Op World Call} {i : Nat} {w : World} {o : Op β}

theorem fresh_recorded (hG : Fresh env G) : Fresh env (recorded env G) where
  call w q h := hG.call w q h.1
  admission := hG.admission.imp_right fun h i w x prio hok => h i w x prio hok.1.1

theorem fresh_lived (hG : Fresh env G) (strict : Bool) : Fresh env (lived env G strict) where
  call w q h := hG.call w q h.1.1
  admission := hG.admission.imp_right fun h i w x prio hok => h i w x prio (tabled_guard hok.1)

theorem step_recorded (hcall : ∀ w q, G.callOk w q → q.available w) {c c' : Config Op World}
    {e : Event Call} (h : Step env G c e c') : Step env (recorded env G) c e c' :=
  Spec.taken_guard (InForce.init_inv env) (fun _ => trivial) (InForce.verifies hcall)
    (step_owned hcall h)

theorem inForce_of_reach (hcall : ∀ w q, G.callOk w q → q.available w) {c : Config Op World}
    (hc : Reach env G c) : InForce.Inv c.shared := by
  obtain ⟨_, h⟩ := Spec.inv_of_reachable (S := InForce.spec env G) (InForce.init_inv env)
    (fun _ => trivial) (InForce.verifies hcall) (reach_owned hcall hc)
  exact h

theorem step_credited (hG : Fresh env G) {c c' : Config Op World} {e : Event Call}
    (h : Step env G c e c') : Step env (credited env G) c e c' := by
  have hR := fresh_recorded hG
  have hL := fresh_lived hR false
  have hlived : Step env (lived env (recorded env G) false) c e c' :=
    step_lived hR (by simp) (step_recorded hG.call h)
  exact Spec.taken_guard (SendCredit.init_inv env) (fun _ => trivial) SendCredit.verifies
    (step_tabled hL hlived)

variable (hok : (credited env G).opOk i w o)

include hok

theorem credited_lived : (lived env (recorded env G) false).opOk i w o := tabled_guard hok.1

theorem credited_recorded : (recorded env G).opOk i w o := tabled_guard (credited_lived hok).1

theorem credited_inForce : InForce.Inv w := (credited_recorded hok).2.2.elim fun _ h => h

end Layers

namespace Levels

open Lifecycle (Gone Mono)

/-- What streams outside the table have been given does not matter, as they are closed, or as
nothing is acknowledged any more. -/
structure Inv (w : World) : Prop where
  level : ∀ x, x ∈ w.live ∨ x ∈ w.drained → w.Levelled x
  gone : ∀ x s, w.str x = some s → x ∉ w.live → x ∉ w.drained → Gone false w x ∨ s.base ≤ 0
  idle : w.reader = none → w.readerDone = false → w.drained = []

structure Rely (i : Nat) (w w' : World) : Prop extends Mono w w' where
  reader : w.reader = some i → w'.reader = some i ∧ w'.drained = w.drained
  lock : w.wmu = some i →
    w'.wmu = some i ∧ (w.established = true → ∀ x, w.Levelled x → w'.Levelled x)
  established : w.established = true → w'.established = true

theorem Rely.refl (i : Nat) (w : World) : Rely i w w :=
  { Mono.refl w with
    reader := fun h => ⟨h, rfl⟩
    lock := fun h => ⟨h, fun _ _ h => h⟩
    established := id }

theorem Rely.trans {i : Nat} {w₁ w₂ w₃ : World} (h₁ : Rely i w₁ w₂) (h₂ : Rely i w₂ w₃) :
    Rely i w₁ w₃ :=
  { h₁.toMono.trans h₂.toMono with
    reader := fun h => by
      obtain ⟨hr₁, hd₁⟩ := h₁.reader h
      obtain ⟨hr₂, hd₂⟩ := h₂.reader hr₁
      exact ⟨hr₂, hd₂.trans hd₁⟩
    lock := fun h => by
      obtain ⟨hw₁, hl₁⟩ := h₁.lock h
      obtain ⟨hw₂, hl₂⟩ := h₂.lock hw₁
      exact ⟨hw₂, fun he x hx => hl₂ (h₁.established he) x (hl₁ he x hx)⟩
    established := h₂.established ∘ h₁.established }

def Asks (w : World) (o : Op β) : Prop :=
  ∀ x e p, o.written = some (.data x e p) → w.Levelled x ∨ w.down = true

def spec (env : Env) (G : Guard Op World Call) : Spec (machine env) (credited env G) PUnit where
  inv w _ := Inv w
  rely := Rely
  rely_refl := .refl
  rely_trans := .trans
  pre _ w _ o := Asks w o

variable {env : Env} {G : Guard Op World Call} {i j x : Nat} {w w' : World} {o : Op β} {b : β}

section Steps

theorem acknowledged_of_exec (hread : o.tag ≠ .readFrame) (hack : o.tag ≠ .write .settingsAck)
    (hb : (b, w') ∈ o.exec env i w) : w'.acknowledged = w.acknowledged := by
  have hf := frame_of_tag hb
  have hwire := wire_exec hb
  have hinbound : w'.inbound = w.inbound := by
    by_cases ht : o.tag ∈ [.frameDone, .stopReader]
    · cases o <;> simp only [Op.tag, List.mem_cons, List.not_mem_nil, reduceCtorEq, or_self] at ht
      case frameDone | stopReader =>
        cases List.mem_singleton.1 hb
        rfl
    · have hturn := hf.turn fun hk => by
        obtain h | h | h := Tag.kind_reader.1 hk
        · exact hread h
        · exact ht (by rw [h]; decide)
        · exact ht (by rw [h]; decide)
      simp only [World.turnView, Prod.mk.injEq] at hturn
      exact hturn.2.2
  have hacks : w'.acks = w.acks := by
    obtain hw | ⟨f, ht, hw⟩ := hwire
    · rw [World.acks, hw, World.acks]
    · exact InForce.acks_append hw fun hf => hack (by rw [ht, hf])
  rw [World.acknowledged, World.settingsRead, hinbound, hacks, World.acknowledged,
    World.settingsRead]

theorem windowLimit_le (hok : (credited env G).opOk i w o) (hack : o.tag ≠ .write .settingsAck)
    (hb : (b, w') ∈ o.exec env i w) : w.windowLimit ≤ w'.windowLimit := by
  have hacknowledged : w'.acknowledged = w.acknowledged := by
    by_cases hread : o.tag = .readFrame
    · cases o <;> simp only [Op.tag, reduceCtorEq] at hread
      case readFrame => exact InForce.acknowledged_of_read (credited_inForce hok) hb
    · exact acknowledged_of_exec hread hack hb
  have hvalue (id d) : w'.ackedValue id d = w.ackedValue id d := by
    rw [World.ackedValue, hacknowledged, World.ackedValue]
  by_cases ht : o.tag = .publishSettings
  · cases o <;> simp only [Op.tag, reduceCtorEq] at ht
    case publishSettings s =>
      have hagrees : w.Agrees := (credited_recorded hok).2.1
      rw [World.windowLimit, World.initialWindow, hagrees, World.windowLimit, hvalue]
      exact max_le (le_max_left ..) (le_max_left ..)
  · rw [World.windowLimit, World.windowLimit, hvalue, World.initialWindow, World.initialWindow,
      peerSettings_of_exec ht hb]

theorem initialWindow_le (w : World) : w.initialWindow ≤ w.windowLimit := le_max_right ..

theorem ack_of_tag {f : Outbound} (h : f.tag = .settingsAck) : f = .settingsAck := by
  cases f with
  | windowUpdate x =>
    rw [Outbound.tag_windowUpdate] at h
    split at h <;> cases h
  | settingsAck => rfl
  | _ => cases h

theorem kind_new {t : Tag} :
    t.kind ∈ [.register, .reserve] ↔ t ∈ [.admitClient, .reservePush] := by
  cases t
  case advance delta => exact iff_of_false (delta.kind_notMem (by simp)) (by simp)
  case write f => cases f <;> simp [Tag.kind]
  all_goals simp [Tag.kind]

theorem created_of_new (hok : (credited env G).opOk i w o)
    (ho : o.tag ∈ [.admitClient, .reservePush]) (hb : (b, w') ∈ o.exec env i w) :
    ∃ y s', w.idle y = true ∧ (w'.str = w.str ∨ w'.str = Function.update w.str y (some s') ∧
      s'.debited = 0 ∧ ((y ∈ w'.live ∧ s'.base ≤ w'.initialWindow) ∨ s'.base ≤ 0)) := by
  have htable := tabled_table hok.1
  have hasks := tabled_asks hok.1
  cases o <;> simp only [Op.tag, List.mem_cons, List.not_mem_nil, reduceCtorEq, or_self] at ho
  case admitClient y prio =>
    simp only [Op.exec, Op.underTable, World.admitClient] at hb
    split at hb
    · split at hb <;> cases List.mem_singleton.1 hb
      · exact ⟨y, _, hasks, .inr ⟨rfl, rfl, .inr le_rfl⟩⟩
      · exact ⟨y, _, hasks, .inr ⟨rfl, rfl, .inl ⟨List.mem_cons_self .., le_rfl⟩⟩⟩
    · cases hb
  case reservePush limit =>
    have hidle : w.idle w.nextPush = true := by simp [World.idle, htable.nextPush]
    simp only [Op.exec, Op.underTable, World.reservePush] at hb
    split at hb
    · split at hb <;> cases List.mem_singleton.1 hb
      · exact ⟨w.nextPush, { cap := 0, recvWindow := 0 }, hidle, .inl rfl⟩
      · exact ⟨w.nextPush, _, hidle, .inr ⟨rfl, rfl, .inl ⟨List.mem_cons_self .., le_rfl⟩⟩⟩
    · cases hb

theorem debited_of_new (hok : (credited env G).opOk i w o) (hb : (b, w') ∈ o.exec env i w)
    {s' : Stream} (hs : w.str x = none) (hs' : w'.str x = some s') : s'.debited = 0 := by
  by_cases ho : o.tag ∈ [.admitClient, .reservePush]
  · obtain ⟨y, t, -, hstr | ⟨hstr, hdebited, -⟩⟩ := created_of_new hok ho hb
    · simp [hstr, hs] at hs'
    · obtain ⟨rfl, rfl⟩ | ⟨-, h⟩ := SendCredit.str_update hstr hs'
      · exact hdebited
      · simp [hs] at h
  · have hc := ((frame_of_tag hb).created (mt kind_new.1 ho) x).1 (by simp [World.created, hs'])
    simp [World.created, hs] at hc

theorem base_of_exec (hok : (credited env G).opOk i w o) (hb : (b, w') ∈ o.exec env i w)
    {s' : Stream} (hs' : w'.str x = some s') :
    (∃ s, w.str x = some s ∧ s'.base = s.base) ∨ (x ∈ w'.live ∧ s'.base ≤ w'.initialWindow) ∨
      s'.base ≤ 0 := by
  by_cases ho : o.tag ∈ [.admitClient, .reservePush]
  case pos =>
    obtain ⟨y, t, -, hstr | ⟨hstr, -, hbase⟩⟩ := created_of_new hok ho hb
    · exact .inl ⟨s', hstr ▸ hs', rfl⟩
    · obtain ⟨rfl, rfl⟩ | ⟨-, hs⟩ := SendCredit.str_update hstr hs'
      · exact .inr hbase
      · exact .inl ⟨s', hs, rfl⟩
  cases hs : w.str x with
  | none =>
    have hc := ((frame_of_tag hb).created (mt kind_new.1 ho) x).1 (by simp [World.created, hs'])
    simp [World.created, hs] at hc
  | some s =>
    cases SendCredit.debitStep_of_exec hb hs hs' with
    | keep hbase => exact .inl ⟨s, rfl, hbase⟩
    | renew hnew => exact absurd hnew ho
    | take hbase => exact .inl ⟨s, rfl, hbase⟩
    | adjust hbase =>
      obtain ⟨hlive, hle⟩ := hok.2.1
      have hps : w'.peerSettings = w.peerSettings := peerSettings_of_exec (by simp) hb
      have ht := (frame_of_exec hb).table (by simp)
      simp only [World.tableView, Prod.mk.injEq] at ht
      refine .inr (.inl ⟨ht.1 ▸ hlive, ?_⟩)
      rw [hbase, World.initialWindow, hps]
      exact hle s hs

theorem drained_of_exec (hb : (b, w') ∈ o.exec env i w) :
    (o.tag ≠ .drain ∧ w'.drained = w.drained) ∨
      (o.tag = .drain ∧ w'.drained = w.live ++ w.drained) := by
  by_cases ht : o.tag ∈ [.admitClient, .reservePush, .release, .drain]
  case neg =>
    have hview := (frame_of_tag hb).table (mt Tag.kind_table.1 ht)
    simp only [World.tableView, Prod.mk.injEq] at hview
    exact .inl ⟨fun h => ht (by rw [h]; decide), hview.2.2.2.2.2⟩
  cases o <;> simp only [Op.tag, List.mem_cons, List.not_mem_nil, reduceCtorEq, or_self] at ht
  case admitClient =>
    simp only [Op.exec, Op.underTable, World.admitClient] at hb
    split at hb
    · split at hb <;> cases List.mem_singleton.1 hb <;> exact .inl ⟨by simp, rfl⟩
    · cases hb
  case reservePush =>
    simp only [Op.exec, Op.underTable, World.reservePush] at hb
    split at hb
    · split at hb <;> cases List.mem_singleton.1 hb <;> exact .inl ⟨by simp, rfl⟩
    · cases hb
  case release =>
    simp only [Op.exec, Op.underTable, World.release] at hb
    split at hb
    · split at hb <;> cases List.mem_singleton.1 hb <;> exact .inl ⟨by simp, rfl⟩
    · cases hb
  case drain =>
    simp only [Op.exec] at hb
    split at hb
    · obtain ⟨l, -, hl⟩ := List.mem_map.1 hb
      cases hl
      exact .inr ⟨rfl, rfl⟩
    · cases hb

theorem gone_of_exec (hok : (credited env G).opOk i w o) (hb : (b, w') ∈ o.exec env i w)
    (hx : x ∈ w.live) (hx' : x ∉ w'.live) : x ∈ w'.drained ∨ Gone false w x := by
  have hpre := (credited_lived hok).2.1
  have hdrained := drained_of_exec hb
  cases tableStep_of_exec hb with
  | same hlive => exact absurd (hlive ▸ hx) hx'
  | register _ hlive | reserve _ _ hlive => exact absurd (by simp [hlive, hx]) hx'
  | @release y _ _ hlive =>
    obtain rfl | hne := eq_or_ne x y
    · refine .inr ?_
      obtain h | h | ⟨-, -, h⟩ := hpre hx
      · exact .inl (.inl h)
      · exact .inr (.inl h)
      · exact h
    · exact absurd (by rw [hlive]; exact (List.mem_erase_of_ne hne).2 hx) hx'
  | drain =>
    obtain ⟨h, -⟩ | ⟨-, h⟩ := hdrained
    · exact absurd rfl h
    · exact .inl (by simp [h, hx])

theorem live_or_drained (hok : (credited env G).opOk i w o) (hb : (b, w') ∈ o.exec env i w)
    (hx : w.created x) (h : x ∈ w'.live ∨ x ∈ w'.drained) : x ∈ w.live ∨ x ∈ w.drained := by
  have hm := Lifecycle.mono_of_exec hok.1 hb
  obtain h | h := h
  · refine .inl (by_contra fun hn => ?_)
    exact hm.gone x ((tabled_table hok.1).used x hx) hn h
  · obtain ⟨-, hd⟩ | ⟨-, hd⟩ := drained_of_exec hb
    · exact .inr (hd ▸ h)
    · rw [hd] at h
      exact List.mem_append.1 h

theorem levelled_of_exec (hok : (credited env G).opOk i w o) (hack : o.tag ≠ .write .settingsAck)
    (hb : (b, w') ∈ o.exec env i w) (h : w.created x → w.Levelled x) : w'.Levelled x := by
  intro s' hs'
  have hle := windowLimit_le hok hack hb
  have hinit := initialWindow_le w'
  obtain ⟨s, hs, hbase⟩ | ⟨-, hbase⟩ | hbase := base_of_exec hok hb hs'
  · have := h (by simp [World.created, hs]) s hs
    omega
  · omega
  · omega

/-- Once the acknowledgement is out, the streams in the table have the initial window that has been
acknowledged. -/
theorem levelled_of_ack (hok : (credited env G).opOk i w (.write .settingsAck)) {ok : Bool}
    (hb : (ok, w') ∈ Op.exec env i w (.write .settingsAck)) (hx : x ∈ w'.live) :
    w'.Levelled x := by
  obtain ⟨-, hdue⟩ : InForce.Asks i w (.write .settingsAck) := (credited_recorded hok).2.1
  obtain ⟨r, hcredit⟩ := hok.2.2
  intro s' hs'
  have hf := frame_of_exec hb
  have ht := hf.table (by simp)
  simp only [World.tableView, Prod.mk.injEq] at ht
  have hps : w'.peerSettings = w.peerSettings := hf.settings (by simp)
  have hinit : w'.initialWindow = w.initialWindow := by
    rw [World.initialWindow, hps, World.initialWindow]
  obtain ⟨s, hs, hview⟩ := exists_of_map_eq (hf.credit (by simp) x) hs'
  simp only [Stream.creditView, Prod.mk.injEq] at hview
  have hlevel := hcredit.level (hdue rfl).table x (ht.1 ▸ hx) s hs
  have hle := initialWindow_le w'
  unfold SendCredit.Level at hlevel
  split at hlevel <;> omega

/-- Every step keeps the levels; the acknowledgement, and the end of the reader's round, when no
stream has been drained. -/
theorem Inv.exec (h : Inv w) (hok : (credited env G).opOk i w o) (hb : (b, w') ∈ o.exec env i w)
    (hdrained : o.tag ∈ [.frameDone, .write .settingsAck] → w.drained = []) : Inv w' := by
  have hm := Lifecycle.mono_of_exec hok.1 hb
  constructor
  case level =>
    intro x hx
    by_cases hack : o.tag = .write .settingsAck
    · cases o <;> simp only [Op.tag, reduceCtorEq] at hack
      case write f =>
        obtain rfl := ack_of_tag (Tag.write.inj hack)
        obtain ⟨-, hd⟩ | ⟨hd, -⟩ := drained_of_exec hb
        · rw [hd, hdrained (by simp)] at hx
          exact levelled_of_ack hok hb (by simpa using hx)
        · cases hd
    · exact levelled_of_exec hok hack hb fun hc => h.level x (live_or_drained hok hb hc hx)
  case gone =>
    intro x s' hs' hl hd
    obtain ⟨s, hs, hbase⟩ | ⟨hlive, -⟩ | hbase := base_of_exec hok hb hs'
    · have hd' : x ∉ w.drained := by
        obtain ⟨-, h⟩ | ⟨-, h⟩ := drained_of_exec hb
        · rwa [← h]
        · rw [h] at hd
          exact fun hx => hd (List.mem_append_right _ hx)
      by_cases hx : x ∈ w.live
      · obtain h | h := gone_of_exec hok hb hx hl
        · exact absurd h hd
        · exact .inl (h.mono hm)
      · rw [hbase]
        exact (h.gone x s hs hx hd').imp_left fun h => h.mono hm
    · exact absurd hlive hl
    · exact .inr hbase
  case idle =>
    intro hr hdone
    by_cases ht : o.tag ∈ [.readFrame, .frameDone, .stopReader]
    · cases o <;> simp only [Op.tag, List.mem_cons, List.not_mem_nil, reduceCtorEq, or_self] at ht
      case readFrame f =>
        obtain ⟨-, -, hview⟩ := readFrame_exec hb
        simp only [World.readerView, Prod.mk.injEq] at hview
        simp [hview.1] at hr
      case frameDone =>
        cases List.mem_singleton.1 hb
        exact hdrained (by simp)
      case stopReader =>
        cases List.mem_singleton.1 hb
        cases hdone
    · simp only [List.mem_cons, List.not_mem_nil, or_false] at ht
      have hturn := (frame_of_tag hb).turn (mt Tag.kind_reader.1 ht)
      simp only [World.turnView, Prod.mk.injEq] at hturn
      obtain ⟨-, hd⟩ | ⟨hd, -⟩ := drained_of_exec hb
      · rw [hd]
        exact h.idle (hturn.1 ▸ hr) (hturn.2.1 ▸ hdone)
      · cases o <;> simp only [Op.tag, reduceCtorEq] at hd
        case drain =>
          obtain ⟨held, hof, hallows⟩ := tabled_held hok.1
          rw [hturn.1, hof.1 hallows] at hr
          cases hr

theorem established_of_exec (hb : (b, w') ∈ o.exec env i w) (he : w.established = true) :
    w'.established = true := by
  by_cases ht : o.tag = .establish
  · cases o <;> simp only [Op.tag, reduceCtorEq] at ht
    case establish =>
      cases List.mem_singleton.1 hb
      rfl
  · exact ((still_of_exec hb).established ht).trans he

theorem rely_other (hok : (credited env G).opOk i w o) (hb : (b, w') ∈ o.exec env i w)
    (hj : j ≠ i) : Rely j w w' := by
  obtain ⟨held, hof, hallows⟩ := tabled_held hok.1
  have hlock (hw : w.wmu = some j) := Held.write_other hj hof hallows hb hw
  refine { Lifecycle.mono_of_exec hok.1 hb with
    reader := fun hr => ⟨Held.reader_other hj hof hallows hb hr, ?_⟩
    lock := fun hw => ⟨hlock hw, fun he x hx => ?_⟩
    established := fun he => ?_ }
  · obtain ⟨-, hd⟩ | ⟨hd, -⟩ := drained_of_exec hb
    · exact hd
    · cases o <;> simp only [Op.tag, reduceCtorEq] at hd
      case drain => exact absurd (hr.symm.trans (hof.1 hallows)) (by simpa using hj)
  · refine levelled_of_exec hok (fun hack => ?_) hb fun _ => hx
    cases o <;> simp only [Op.tag, reduceCtorEq] at hack
    case write f =>
      obtain rfl := ack_of_tag (Tag.write.inj hack)
      obtain ⟨-, hdue⟩ : InForce.Asks i w (.write .settingsAck) := (credited_recorded hok).2.1
      obtain hown | hnew := (hdue rfl).lock
      · exact absurd (hw.symm.trans hown) (by simpa using hj)
      · simp [he] at hnew
  · exact established_of_exec hb he

theorem asks_of_tag (ho : o.tag ≠ .write .data) : Asks w o := by
  intro x e p h
  cases o <;> simp only [Op.written, reduceCtorEq, Option.some.injEq] at h
  case write f =>
    subst h
    exact absurd rfl ho

theorem harmless (ho : o.kind = .quiet) : (spec env G).Harmless o := by
  have hne {t : Tag} (ht : t.kind ≠ .quiet) : o.tag ≠ t := by
    rintro rfl
    exact ht ((Op.kind_tag o).trans ho)
  intro i w _ h hok
  refine ⟨asks_of_tag (hne (by decide)), fun b w' hb => ⟨Inv.exec h hok hb fun ht => ?_, fun j => ?_⟩⟩
  · simp only [List.mem_cons, List.not_mem_nil, or_false] at ht
    exact ht.elim (fun ht => absurd ht (hne (by decide))) fun ht => absurd ht (hne (by decide))
  · have hf := frame_of_exec hb
    rw [ho] at hf
    have hturn := hf.turn (by simp)
    have htable := hf.table (by simp)
    simp only [World.turnView, World.tableView, Prod.mk.injEq] at hturn htable
    exact
      { Lifecycle.mono_of_exec hok.1 hb with
        reader := fun hr => ⟨hturn.1.trans hr, htable.2.2.2.2.2⟩
        lock := fun hw => ⟨(hf.wmu (by simp)).trans hw, fun _ x hx =>
          levelled_of_exec hok (hne (by decide)) hb fun _ => hx⟩
        established := established_of_exec hb }

theorem mild (ho : o.tag ∉ [.frameDone, .write .settingsAck, .write .data]) :
    (spec env G).Mild o := by
  simp only [List.mem_cons, List.not_mem_nil, or_false, not_or] at ho
  intro i w _ h _ hok
  refine ⟨asks_of_tag ho.2.2, fun b w' hb => ⟨Inv.exec h hok hb fun ht => ?_, fun j hj =>
    rely_other hok hb hj, trivial⟩⟩
  simp only [List.mem_cons, List.not_mem_nil, or_false] at ht
  exact ht.elim (fun h => absurd h ho.1) fun h => absurd h ho.2.1

end Steps

section Reader

def Kept (i : Nat) (w : World) : Prop := w.reader = some i ∧ w.drained = []

theorem kept_rely (hw : Rely i w w') (h : Kept i w) : Kept i w' :=
  ⟨(hw.reader h.1).1, (hw.reader h.1).2.trans h.2⟩

def turnSteps : List Tag := [.readFrame, .frameDone, .stopReader]

theorem reader_of_exec (ho : o.tag ∉ turnSteps) (hb : (b, w') ∈ o.exec env i w) :
    w'.reader = w.reader := by
  have hturn := (frame_of_tag hb).turn fun hk => ho <| by
    obtain h | h | h := Tag.kind_reader.1 hk <;> rw [h] <;> decide
  simp only [World.turnView, Prod.mk.injEq] at hturn
  exact hturn.1

theorem under_kept (ho : o.tag ∉ .drain :: .write .data :: turnSteps) :
    (spec env G).Under i (Kept i) o := by
  simp only [List.mem_cons, not_or] at ho
  intro w _ h hw hok
  refine ⟨asks_of_tag ho.2.1, fun b w' hb => ⟨Inv.exec h hok hb fun _ => hw.2, fun j hj =>
    rely_other hok hb hj, (reader_of_exec ho.2.2 hb).trans hw.1, ?_⟩⟩
  obtain ⟨-, hd⟩ | ⟨hd, -⟩ := drained_of_exec hb
  · exact hd.trans hw.2
  · exact absurd hd ho.1

theorem under_broken (ho : o.tag ∉ .write .settingsAck :: .write .data :: turnSteps) :
    (spec env G).Under i (fun w => w.reader = some i) o := by
  simp only [List.mem_cons, not_or] at ho
  intro w _ h hw hok
  refine ⟨asks_of_tag ho.2.1, fun b w' hb => ⟨Inv.exec h hok hb fun ht => ?_, fun j hj =>
    rely_other hok hb hj, (reader_of_exec ho.2.2 hb).trans hw⟩⟩
  simp only [List.mem_cons, List.not_mem_nil, or_false] at ht
  obtain ht | ht := ht
  · exact absurd (by rw [ht]; decide) ho.2.2
  · exact absurd ht ho.1

def ownSteps : List Tag := .drain :: .write .settingsAck :: .write .data :: turnSteps

theorem kept_uses {p : M α} {l : List Tag} (hp : Uses l p) (hl : ∀ t ∈ l, t ∉ ownSteps) :
    (spec env G).Keeps i (Kept i) p := by
  refine Spec.keeps_of_all kept_rely (Prog.All.mono (fun o ho => ?_) hp)
  have ho := hl _ ho
  exact ⟨under_kept (avoids ho (by decide)), mild (avoids ho (by decide))⟩

theorem broken_uses {p : M α} {l : List Tag} (hp : Uses l p)
    (hl : ∀ t ∈ l, t ∉ .write .settingsAck :: .write .data :: turnSteps) :
    (spec env G).Keeps i (fun w => w.reader = some i) p := by
  refine Spec.keeps_of_all (fun hw h => (hw.reader h).1) (Prog.All.mono (fun o ho => ?_) hp)
  have ho := hl _ ho
  exact ⟨under_broken ho, mild (avoids ho (by decide))⟩

theorem writeSettingsAck_keeps : (spec env G).Keeps i (Kept i) writeSettingsAck := by
  have hret (r : Except GoErr Unit) : (spec env G).Keeps i (Kept i) (.ret r) :=
    Spec.keeps_ret kept_rely r
  simp only [writeSettingsAck, writeUnlessClosed, writeLocked, Prog.bind_eq, Prog.lift_bind,
    Prog.pure_eq]
  refine (under_kept (by decide)).keeps kept_rely fun closed => ?_
  split
  · exact hret _
  exact (under_kept (by decide)).keeps kept_rely fun _ => (under_kept (by decide)).keeps kept_rely
    fun ok => (under_kept (by decide)).keeps kept_rely fun _ => hret _

theorem onSettings_keeps (ack : Bool) (params : SettingsParams) :
    (spec env G).Keeps i (Kept i) (onSettings ack params) := by
  have hret (r : Except GoErr Unit) : (spec env G).Keeps i (Kept i) (.ret r) :=
    Spec.keeps_ret kept_rely r
  simp only [onSettings, guardHeaderBlock, Prog.bind_eq, Prog.lift_bind, Prog.pure_eq]
  refine (under_kept (by decide)).keeps kept_rely fun hd => ?_
  split
  · exact hret _
  split
  · exact hret _
  refine (kept_uses (applyPeerSettings_uses params) (by decide)).bind fun r => ?_
  cases r with
  | error e => exact hret _
  | ok _ => exact writeSettingsAck_keeps

theorem recorderSettings_keeps (ack : Bool) (params : SettingsParams) :
    (spec env G).Keeps i (Kept i) (recorderSettings ack params) := by
  have hret (r : Except GoErr Unit) : (spec env G).Keeps i (Kept i) (.ret r) :=
    Spec.keeps_ret kept_rely r
  simp only [recorderSettings, Prog.bind_eq, Prog.lift_bind, Prog.pure_eq]
  refine (under_kept (by decide)).keeps kept_rely fun rcd => ?_
  split
  · exact (under_kept (by simp +decide)).keeps kept_rely fun _ => hret _
  refine (under_kept (by simp +decide)).keeps kept_rely fun _ => ?_
  refine (kept_uses (applyPeerSettings_uses _) (by decide)).bind fun r => ?_
  cases r with
  | error e => exact hret _
  | ok _ => exact (under_kept (by decide)).keeps kept_rely fun _ => hret _

theorem dispatch_keeps (f : Inbound) : (spec env G).Keeps i (Kept i) (dispatch env f) := by
  cases f with
  | settings ack p => exact onSettings_keeps ack p
  | headers => exact kept_uses (onHeaders_uses ..) (by decide)
  | continuation => exact kept_uses (onContinuation_uses ..) (by decide)
  | data => exact kept_uses (onData_uses ..) (by decide)
  | rstStream => exact kept_uses (onRSTStream_uses ..) (by decide)
  | ping => exact kept_uses (onPing_uses ..) (by decide)
  | windowUpdate x n =>
    exact kept_uses (l := .loadHandler :: onWindowUpdateSteps) (guardHeaderBlock_uses (by simp)
      ((onWindowUpdate_uses x n).mono (List.subset_cons_self ..))) (by decide)
  | goAway =>
    exact kept_uses (l := [.loadHandler, .notePeerGoAway])
      (guardHeaderBlock_uses (by simp) (by simp)) (by decide)
  | priority | altSvc | origin =>
    exact kept_uses (l := [.loadHandler]) (guardHeaderBlock_uses (by simp) (by simp)) (by decide)
  | pushPromise | unknown | rejected => exact kept_uses (l := []) (uses_ret _) (by simp)

theorem ending_safe {o : Op Unit} (ho : o = .frameDone ∨ o = .stopReader)
    (h : o = .frameDone → Kept i w) :
    (spec env G).Safe i (.lift o) 0 ((spec env G).Done i) w := by
  intro w₁ hw _ hok
  refine ⟨asks_of_tag (by obtain rfl | rfl := ho <;> simp), fun b w₂ hb => ⟨0, fun _ hr => ?_,
    fun j hj => rely_other hok hb hj, fun _ _ => ⟨rfl, trivial⟩⟩⟩
  refine Inv.exec hr hok hb fun ht => ?_
  obtain rfl | rfl := ho
  · exact (kept_rely hw (h rfl)).2
  · simp at ht

theorem round {f : Inbound} : Round (spec env G) i f (Kept i) fun w => w.reader = some i where
  quiet ho := harmless ho
  kept_rely := kept_rely
  broken_rely hw h := (hw.reader h).1
  broken h := h.1
  answer code h _ := kept_uses (writeRSTStreamID_uses _ code) (by decide) _ h
  frameDone h := ending_safe (.inl rfl) fun _ => h
  announce code h := broken_uses (sendGoAway_uses code) (by decide) _ h
  closeTransport h := broken_uses (l := [.closeTransport]) (by simp) (by decide) _ h
  shutdown h := broken_uses shutdownStreams_uses (by decide) _ h
  stop h := ending_safe (.inr rfl) (by simp)
  initial h := kept_uses sendInitialConnWindowUpdate_uses (by decide) _ h
  seed h := kept_uses (seed_uses env) (by decide) _ h

theorem serveFrame_safe (f : Inbound) :
    (spec env G).Safe i (serveFrame env f) 0 ((spec env G).Done i) w := by
  intro w₁ _ ⟨_, hinv⟩ hok
  refine ⟨asks_of_tag (by simp), fun u w₂ hb => ?_⟩
  change (u, w₂) ∈ Op.exec env i w₁ (.readFrame f) at hb
  obtain ⟨hfree, hdone, hview⟩ := readFrame_exec hb
  simp only [World.readerView, Prod.mk.injEq] at hview
  refine ⟨0, fun _ hr => Inv.exec hr hok hb (by simp), fun j hj => rely_other hok hb hj, ?_⟩
  have h₂ : Kept i w₂ := by
    refine ⟨hview.1, ?_⟩
    obtain ⟨-, hd⟩ | ⟨hd, -⟩ := drained_of_exec hb
    · rw [hd]
      exact Inv.idle hinv hfree hdone
    · cases hd
  exact round.serveSafe (Kept i) kept_rely
    (fun w _ h => (dispatch_keeps f w h).mono fun _ _ _ h => ⟨h.1, .inl h.2⟩)
    (fun w ack p _ _ h => (recorderSettings_keeps ack p w h).mono fun _ _ _ h => ⟨h.1, .inl h.2⟩) h₂

end Reader

section Writers

variable {Q : α → PUnit → World → Prop}

def Established (w : World) : Prop := w.established = true

theorem established_rely (hw : Rely i w w') (h : Established w) : Established w' :=
  hw.established h

theorem under_established (ho : o.tag ∉ [.frameDone, .write .settingsAck, .write .data]) :
    (spec env G).Under i Established o ∧ (spec env G).Mild o := by
  refine ⟨fun w _ h hw hok => ?_, mild ho⟩
  obtain ⟨hpre, hm⟩ := mild ho i w 0 h trivial hok
  refine ⟨hpre, fun b w' hb => ?_⟩
  obtain ⟨hinv, hrely, -⟩ := hm b w' hb
  exact ⟨hinv, hrely, established_of_exec hb hw⟩

theorem established_uses {p : M α} {l : List Tag} (hp : Uses l p)
    (hl : ∀ t ∈ l, t ∉ [.frameDone, .write .settingsAck, .write .data]) :
    (spec env G).Keeps i Established p :=
  Spec.keeps_of_all established_rely
    (Prog.All.mono (fun _ ho => under_established (hl _ ho)) hp)

def Locked (i : Nat) (w : World) : Prop := w.established = true ∧ w.wmu = some i

theorem Locked.rely (h : Locked i w) (hw : Rely i w w') : Locked i w' :=
  ⟨hw.established h.1, (hw.lock h.2).1⟩

theorem levelled_or_shut (h : Inv w) (hopen : w.closed = false) (x : Nat) :
    w.Levelled x ∨ (w.state x).writable = false ∨ w.down = true := by
  by_cases hx : x ∈ w.live ∨ x ∈ w.drained
  · exact .inl (h.level x hx)
  rw [not_or] at hx
  cases hs : w.str x with
  | none => exact .inl fun s hs' => by simp [hs] at hs'
  | some s =>
    obtain (hshut | hdown | ⟨-, hclosed | hdown⟩) | hbase := h.gone x s hs hx.1 hx.2
    · exact .inr (.inl hshut.writable)
    · exact .inr (.inr hdown.1)
    · simp [hopen] at hclosed
    · exact .inr (.inr hdown)
    · refine .inl fun s' hs' => ?_
      cases hs.symm.trans hs'
      omega

theorem data_safe {e : Bool} {p : Bytes} {A : M α} {B : StreamState → M α} {C : Bool → M α}
    (h : Locked i w) (hA : ∀ w, Locked i w → (spec env G).Safe i A 0 Q w)
    (hB : ∀ st w, Locked i w → (spec env G).Safe i (B st) 0 Q w)
    (hC : ∀ ok w, Locked i w → (spec env G).Safe i (C ok) 0 Q w) :
    (spec env G).Safe i (.op .isClosed fun closed => if closed then A else .op (.state x) fun st =>
      if !st.writable then B st else .op (.write (.data x e p)) C) 0 Q w := by
  refine (harmless rfl).safe_op fun w₁ closed w₂ hw₁ hinv _ hb _ => ?_
  change (closed, w₂) ∈ Op.exec env i w₁ .isClosed at hb
  cases List.mem_singleton.1 hb
  have h₁ := h.rely hw₁
  split
  · exact hA w₁ h₁
  rename_i hopen
  obtain ⟨_, hinv⟩ := hinv
  have hlevel := levelled_or_shut hinv (by simpa using hopen) x
  refine (harmless rfl).safe_op fun w₃ st w₄ hw₃ _ _ hb _ => ?_
  change (st, w₄) ∈ Op.exec env i w₃ (.state x) at hb
  cases List.mem_singleton.1 hb
  have h₃ := h₁.rely hw₃
  split
  · exact hB _ w₃ h₃
  rename_i hwritable
  have hlevel₃ : w₃.Levelled x ∨ w₃.down = true := by
    obtain h | h | h := hlevel
    · exact .inl ((hw₃.lock h₁.2).2 h₁.1 x h)
    · simp [(hw₃.state x).writable h] at hwritable
    · exact .inr (hw₃.down h)
  intro w₅ hw₅ _ hok
  have h₅ := h₃.rely hw₅
  refine ⟨fun y e' p' hy => ?_, fun ok w₆ hb => ?_⟩
  · cases hy
    exact hlevel₃.imp ((hw₅.lock h₃.2).2 h₃.1 x) hw₅.down
  change (ok, w₆) ∈ Op.exec env i w₅ (.write (.data x e p)) at hb
  refine ⟨0, fun _ hr => Inv.exec hr hok hb (by simp), fun j hj => rely_other hok hb hj, hC ok w₆ ?_⟩
  exact ⟨established_of_exec hb h₅.1, ((frame_of_exec hb).wmu (by simp)).trans h₅.2⟩

theorem lockW_safe {k : Unit → M α} (h : w.established = true)
    (hk : ∀ w, Locked i w → (spec env G).Safe i (k ()) 0 Q w) :
    (spec env G).Safe i (.op .lockW k) 0 Q w := by
  refine (under_established (by decide)).1.safe_op established_rely h
    fun w₁ u w₂ _ _ _ hb h₂ => hk w₂ ⟨h₂, ?_⟩
  obtain ⟨-, rfl⟩ := mem_whenFree hb
  rfl

theorem unlock_keeps (a : α) : (spec env G).Keeps i Established
    (.op .unlockW fun _ => .ret a) :=
  (under_established (by decide)).1.keeps established_rely
    fun _ => Spec.keeps_ret established_rely a

theorem writeChunk_keeps (maxFrame : Nat) (endStream : Bool) (ctx : Ctx) (p : Bytes) :
    (spec env G).Keeps i Established
      (writeChunk x maxFrame endStream ctx p) := by
  have hret (r : Bytes ⊕ Except GoErr Unit) :
      (spec env G).Keeps i Established (.ret r) :=
    Spec.keeps_ret established_rely r
  simp only [writeChunk, Prog.bind_eq, Prog.lift_bind, Prog.pure_eq]
  split
  · exact hret _
  refine (established_uses (acquireSendCredits_uses x _ ctx) (by decide)).bind fun r => ?_
  cases r with
  | error e => exact hret _
  | ok n =>
    refine fun w h => lockW_safe h fun w₁ h₁ => data_safe h₁ ?_ ?_ ?_
    · exact fun w h => unlock_keeps _ w h.1
    · refine fun _ w h => (under_established (by decide)).1.keeps established_rely
        (fun _ => ?_) w h.1
      exact (established_uses (releaseSendCredits_uses x n) (by decide)).bind fun _ => hret _
    · refine fun ok w h => (under_established (by decide)).1.keeps established_rely
        (fun _ => ?_) w h.1
      split <;> exact hret _

theorem writeEnd_keeps : (spec env G).Keeps i Established
    (.op .lockW fun _ => (writeEndLocked x).bind fun r => .op .unlockW fun _ => .ret r) := by
  refine fun w h => lockW_safe h fun w₁ h₁ => Spec.Safe.bind ?_
  have hret (r : Except GoErr Unit) (w : World) (h : Locked i w) : (spec env G).Safe i (.ret r) 0
      (fun r g w => (spec env G).Safe i (.op .unlockW fun _ => .ret r) g
        (fun _ g w => g = 0 ∧ Established w) w) w :=
    fun w' hw => unlock_keeps r w' (hw.established h.1)
  exact data_safe h₁ (hret _) (fun _ => hret _) fun ok => hret _

theorem sendData_keeps (p : Bytes) (endStream : Bool) (ctx : Ctx) :
    (spec env G).Keeps i Established (sendData env x p endStream ctx) := by
  have hret {α : Type} (r : α) : (spec env G).Keeps i Established (.ret r) :=
    Spec.keeps_ret established_rely r
  have hloop (maxFrame : Nat) : (spec env G).Keeps i Established
      (writeServerDataChunks x maxFrame p endStream ctx) := by
    refine fun w h => Spec.safe_forever (fun _ g w => g = 0 ∧ Established w)
      (fun _ hw => ⟨rfl, established_rely hw h⟩) ?_
    rintro q _ w ⟨rfl, h⟩
    refine (writeChunk_keeps maxFrame endStream ctx q w h).mono ?_
    rintro (q' | r) g w' ⟨rfl, h'⟩
    · exact ⟨rfl, h'⟩
    · exact fun w'' hw => ⟨rfl, established_rely hw h'⟩
  have hwrite : (spec env G).Keeps i Established
      (writeServerData env x p endStream ctx) := by
    simp only [writeServerData, maxWritableFrame, Prog.bind_eq, Prog.lift_bind, Prog.pure_eq]
    refine (under_established (by decide)).1.keeps established_rely fun closed => ?_
    split
    · exact hret _
    refine (under_established (by decide)).1.keeps established_rely fun ps => ?_
    dsimp only [Prog.ret_bind]
    split
    · split
      · exact hret _
      · exact writeEnd_keeps
    · exact hloop _
  simp only [sendData, Prog.bind_eq, Prog.lift_bind, Prog.pure_eq]
  refine (under_established (by simp)).1.keeps established_rely fun st => ?_
  split
  · exact hret _
  refine hwrite.bind fun r => ?_
  cases r with
  | error e => exact hret _
  | ok _ => exact (established_uses (endLocal_uses x endStream) (by decide)).bind fun _ => hret _

end Writers

theorem verifies (hG : Fresh env G) : (spec env G).Verifies (Call.body env) := by
  intro q i w hcall _ _
  have hav := (fresh_lived (fresh_recorded hG) false).call w q hcall.1.1
  cases q with
  | frame f => exact serveFrame_safe f
  | sendData x p endStream ctx =>
    have he : w.established = true := by
      simp only [Call.available, World.held, Bool.and_eq_true] at hav
      exact hav.1
    exact ((sendData_keeps p endStream ctx).bind fun _ =>
      Spec.keeps_ret established_rely ()) w he |>.mono fun _ _ _ h => ⟨h.1, trivial⟩
  | recv x ctx =>
    refine (Call.body_uses env (by simp)).proper mild ?_ i w trivial
    rw [Call.steps, Outbound.tag_windowUpdate]
    split <;> decide
  | _ =>
    exact (Call.body_uses env (by simp)).proper mild (by simp only [Call.steps]; decide) i w trivial

theorem init_inv (env : Env) : Inv (World.init env) where
  level x hx := by simp [World.init] at hx
  gone x s hs := by simp [World.init] at hs
  idle _ _ := rfl

end Levels

theorem levelled_of_step {env : Env} {G : Guard Op World Call} (hG : Fresh env G)
    {c c' : Config Op World} {e : Event Call} (h : Step env G c e c') {x : Nat} {last : Bool}
    {p : Bytes} (hwire : c'.shared.wire = c.shared.wire ++ [.data x last p]) :
    c.shared.Levelled x := by
  have h := Spec.taken_guard (Levels.init_inv env) (fun _ => trivial) (Levels.verifies hG)
    (step_credited hG h)
  obtain hsame | ⟨i, β, o, b, hok, hb⟩ := h.exec
  · simp [hsame] at hwire
  · obtain ⟨hwritten, hup⟩ := write_of_wire hb hwire
    exact (hok.2.1 x last p hwritten).resolve_right (by simp [hup])

end PoseidonServer.Conn
