import PoseidonServer.Conn.Locks
import PoseidonServer.Conn.Quiet

/-! Server push: what holds of the connection when a PUSH_PROMISE goes out. -/

namespace PoseidonServer.Conn

open Concurrent

def World.pushLimit (w : World) : Nat :=
  settingValue w.peerSettings .maxConcurrentStreams noStreamLimit

def World.pushEnabled (w : World) : Prop := settingValue w.peerSettings .enablePush 1 = 1

def World.pushes (w : World) : Nat := w.live.countP (· % 2 = 0)

def World.pushesBeside (w : World) (promised : Nat) : Nat :=
  w.live.countP fun y => y % 2 = 0 && y != promised

def Outbound.isHeadersOn (x : Nat) : Outbound → Bool
  | .headers y .. => y = x
  | _ => false

def World.Unanswered (w : World) (x : Nat) : Prop := ∀ f ∈ w.wire, f.isHeadersOn x = false

/-- What a client may expect when it is sent a PUSH_PROMISE. -/
structure PushAllowed (w : World) (parent promised : Nat) : Prop where
  enabled : w.pushEnabled
  goAway : w.peerGoAway = false
  client : parent % 2 = 1
  live : parent ∈ w.live
  unanswered : w.Unanswered parent
  room : noStreamLimit ≤ w.pushLimit ∨ w.pushesBeside promised + 1 ≤ w.pushLimit

/-- No other goroutine than `i` undoes what a push on `x` has checked: SETTINGS that disable push
or leave no room, a GOAWAY of the peer, response headers on `x`, and, while `i` holds the write
lock, the end of `x`. -/
def undisturbed (i x : Nat) : Guard Op World Call where
  callOk w q := q.available w
  opOk j w _ o := j ≠ i → match o with
    | .publishSettings s =>
      let w' := (w.publishSettings s).2
      w'.pushEnabled ∧ (w.wmu = some i → w.pushLimit ≤ w'.pushLimit ∨ w.pushes + 1 ≤ w'.pushLimit)
    | .notePeerGoAway => False
    | .write f => f.isHeadersOn x = false
    | .release y => w.wmu = some i → y ≠ x
    | .drain => w.wmu = some i → x ∉ w.live
    | .admitClient y _ => y ≠ x
    | _ => True

@[simp] def Op.pushes : Op β → Option (Nat × Nat)
  | .write (.pushPromise parent promised _) => some (parent, promised)
  | _ => none

namespace PushPromise

variable {env : Env} {G : Guard Op World Call} {i j x : Nat} {w w' : World}

structure Counted (w : World) : Prop where
  nextPush : w.nextPush % 2 = 0
  nPush : w.nPush = w.pushes

theorem Counted.exec {o : Op β} {b : β} (h : Counted w) (hok : (owned G).opOk i w o)
    (hb : (b, w') ∈ o.exec env i w) : Counted w' := by
  obtain ⟨hnextPush, hnPush⟩ := h
  rw [World.pushes] at hnPush
  cases tableStep_of_exec hb with
  | same hlive hnext hpush =>
    exact ⟨by rw [hnext, hnextPush], by rw [hpush, World.pushes, hlive, hnPush]⟩
  | @register x prio _ hlive hnext hpush =>
    obtain ⟨-, held, -, -, hodd⟩ := hok
    exact ⟨by rw [hnext, hnextPush], by simp [hpush, World.pushes, hlive, hnPush, hodd]⟩
  | reserve _ _ hlive hnext hpush =>
    exact ⟨by simp [hnext, hnextPush], by simp [hpush, World.pushes, hlive, hnPush, hnextPush]⟩
  | @release x _ hx hlive hnext hpush =>
    have hcount := (List.perm_cons_erase hx).countP_eq (· % 2 = 0)
    rw [List.countP_cons] at hcount
    refine ⟨by rw [hnext, hnextPush], ?_⟩
    rw [hpush, World.pushes, hlive, hnPush]
    obtain hx | hx := Nat.mod_two_eq_zero_or_one x <;> simp [hx] at hcount ⊢ <;> omega
  | drain _ hlive hnext hpush =>
    exact ⟨by rw [hnext, hnextPush], by simp [hpush, World.pushes, hlive]⟩

def counting (env : Env) (G : Guard Op World Call) : Spec (machine env) (owned G) PUnit where
  inv w _ := Counted w
  rely _ _ _ := True
  rely_refl _ _ := trivial
  rely_trans _ _ := trivial

theorem counting_verifies : (counting env G).Verifies (Call.body env) := by
  refine Spec.verifies_of_proper fun q w _ => Spec.proper_of_all (Prog.all_of_forall ?_ _)
  exact fun o i w _ h _ hok => ⟨trivial, fun b w' hb =>
    ⟨Counted.exec h hok hb, fun _ _ => trivial, trivial⟩⟩

theorem counted_init (env : Env) : Counted (World.init env) := by
  constructor <;> simp [World.init, World.pushes]

def Room (w : World) (limit promised : Nat) : Prop :=
  limit ≤ w.pushLimit ∨ w.pushesBeside promised + 1 ≤ w.pushLimit

structure Steady (i x : Nat) (w w' : World) : Prop where
  enabled : w.pushEnabled → w'.pushEnabled
  goAway : w.peerGoAway = false → w'.peerGoAway = false
  unanswered : w.Unanswered x → w'.Unanswered x
  sent : x % 2 = 1 → (w.state x).sentFields = true → (w'.state x).sentFields = true
  held : w.wmu = some i → w'.wmu = some i
  live : w.wmu = some i → x ∈ w.live → x ∈ w'.live
  room : w.wmu = some i → ∀ limit promised, Room w limit promised → Room w' limit promised

theorem Steady.refl (w : World) : Steady i x w w :=
  ⟨id, id, id, fun _ => id, id, fun _ => id, fun _ _ _ => id⟩

theorem Steady.trans {w₁ w₂ w₃ : World} (h₁ : Steady i x w₁ w₂) (h₂ : Steady i x w₂ w₃) :
    Steady i x w₁ w₃ where
  enabled h := h₂.enabled (h₁.enabled h)
  goAway h := h₂.goAway (h₁.goAway h)
  unanswered h := h₂.unanswered (h₁.unanswered h)
  sent hx h := h₂.sent hx (h₁.sent hx h)
  held h := h₂.held (h₁.held h)
  live hw h := h₂.live (h₁.held hw) (h₁.live hw h)
  room hw limit promised h := h₂.room (h₁.held hw) limit promised (h₁.room hw limit promised h)

theorem sentFields_of_exec {o : Op β} {b : β} (hx : x % 2 = 1) (hnext : w.nextPush % 2 = 0)
    (ht : o.tag ≠ .admitClient) (hb : (b, w') ∈ o.exec env i w)
    (h : (w.state x).sentFields = true) : (w'.state x).sentFields = true := by
  by_cases hk : o.kind ∈ [.register, .reserve, .advance, .advanceRecv]
  case neg => rwa [(frame_of_exec hb).state_eq hk]
  cases o <;> try simp at hk
  case admitClient => exact absurd rfl ht
  case reservePush limit =>
    have hne : x ≠ w.nextPush := by omega
    simp only [Op.exec, Op.underTable, World.reservePush] at hb
    split at hb
    · split at hb <;> cases List.mem_singleton.1 hb
      · exact h
      · simpa [World.state, World.setStr, hne] using h
    · cases hb
  case advance y delta =>
    cases List.mem_singleton.1 hb
    rw [state_advance]
    split
    · rename_i hy
      rw [← hy.1]
      simp [StreamState.union, h]
    · exact h
  case write f =>
    refine absurd hk ?_
    simpa using f.kind_notMem (l := [.register, .reserve, .advance, .advanceRecv]) (by simp)

theorem pushesBeside_le (w : World) (promised : Nat) : w.pushesBeside promised ≤ w.pushes :=
  List.countP_mono_left fun y _ hy => by
    simp only [Bool.and_eq_true] at hy
    exact hy.1

theorem Room.of_live {limit promised : Nat} (h : Room w limit promised)
    (hs : w'.peerSettings = w.peerSettings)
    (hlive : w'.pushesBeside promised ≤ w.pushesBeside promised) : Room w' limit promised := by
  have hlimit : w'.pushLimit = w.pushLimit := by rw [World.pushLimit, World.pushLimit, hs]
  rw [Room, hlimit]
  exact h.imp_right fun h => by omega

abbrev counted (env : Env) (i x : Nat) : Guard Op World Call :=
  (counting env (undisturbed i x)).guard

theorem steady_of_other {o : Op β} {b : β} (hj : j ≠ i) (hok : (counted env i x).opOk j w o)
    (hb : (b, w') ∈ o.exec env j w) : Steady i x w w' := by
  obtain ⟨⟨hguard, held, hof, hallows⟩, -, _, (hcount : Counted w)⟩ := hok
  have hguard := hguard hj
  -- whoever reserves a stream holds the write lock
  have hreserve (hw : held.write = true) (hi : w.wmu = some i) : False := by
    have := hof.2.2.1 hw
    rw [hi] at this
    exact hj (Option.some.inj this).symm
  refine ⟨fun h => ?_, fun h => ?_, fun h => ?_, fun hx h => ?_, ?_, fun hi h => ?_,
    fun hi limit promised h => ?_⟩
  · by_cases ht : o.tag = .publishSettings
    · cases o <;> simp only [Op.tag, reduceCtorEq] at ht
      cases List.mem_singleton.1 hb
      exact hguard.1
    · rwa [World.pushEnabled, peerSettings_of_exec ht hb]
  · by_cases ht : o.tag = .notePeerGoAway
    · cases o <;> simp only [Op.tag, reduceCtorEq] at ht
      exact hguard.elim
    · rwa [(still_of_exec hb).peerGoAway ht]
  · obtain hw | ⟨f, ht, hw⟩ := wire_exec hb
    · rwa [World.Unanswered, hw]
    · cases o <;> simp only [Op.tag, reduceCtorEq] at ht
      case write f' =>
        obtain ⟨-, -, rfl⟩ | ⟨-, -, hw⟩ := write_exec hb
        · exact h
        · rw [World.Unanswered, hw]
          simpa [or_imp, forall_and] using ⟨h, hguard⟩
  · by_cases ht : o.tag = .admitClient
    · cases o <;> simp only [Op.tag, reduceCtorEq] at ht
      case admitClient y prio _ =>
        have hne : x ≠ y := Ne.symm hguard
        simp only [Op.exec, Op.underTable, World.admitClient] at hb
        split at hb
        · split at hb <;> cases List.mem_singleton.1 hb <;>
            simpa [World.state, World.setStr, hne] using h
        · cases hb
    · exact sentFields_of_exec hx hcount.nextPush ht hb h
  · exact Held.write_other hj.symm hof hallows hb
  · cases tableStep_of_exec hb with
    | same hlive _ _ => rwa [hlive]
    | register _ hlive _ _ => rw [hlive]; exact List.mem_cons_of_mem _ h
    | reserve => exact (hreserve hallows hi).elim
    | release _ _ hlive _ _ => rw [hlive]; exact (List.mem_erase_of_ne (Ne.symm (hguard hi))).2 h
    | drain => exact absurd h (hguard hi)
  · by_cases ht : o.tag = .publishSettings
    · cases o <;> simp only [Op.tag, reduceCtorEq] at ht
      cases List.mem_singleton.1 hb
      have hbeside := pushesBeside_le w promised
      obtain hgrow | hroom := hguard.2 hi
      · exact h.imp (fun h => h.trans hgrow) fun h => h.trans hgrow
      · exact .inr ((Nat.succ_le_succ hbeside).trans hroom)
    · refine h.of_live (peerSettings_of_exec ht hb) ?_
      simp only [World.pushesBeside]
      cases tableStep_of_exec hb with
      | same hlive _ _ => rw [hlive]
      | @register y _ _ hlive _ _ =>
        have hodd : y % 2 = 1 := hallows.2
        simp [hlive, hodd]
      | reserve => exact (hreserve hallows hi).elim
      | release _ _ hlive _ _ => rw [hlive]; exact List.erase_sublist.countP_le
      | drain _ hlive _ _ => simp [hlive]

def spec (env : Env) (i x : Nat) : Spec (machine env) (counted env i x) PUnit where
  inv _ _ := True
  rely j w w' := j = i → Steady i x w w'
  rely_refl _ w _ := .refl w
  rely_trans h₁ h₂ hj := (h₁ hj).trans (h₂ hj)
  pre j w _ o := j = i → ∀ parent promised, o.pushes = some (parent, promised) →
    PushAllowed w parent promised

theorem safe_op {o : Op β} {k : β → M α} {Q : α → PUnit → World → Prop} {P : World → Prop}
    (hP : ∀ {w w'}, Steady i x w w' → P w → P w')
    (hpre : ∀ w, P w → ∀ parent promised, o.pushes = some (parent, promised) →
      PushAllowed w parent promised) (h : P w)
    (hk : ∀ w₁ b w₂, P w₁ → (counted env i x).opOk i w₁ o → (b, w₂) ∈ o.exec env i w₁ →
      (spec env i x).Safe i (k b) 0 Q w₂) : (spec env i x).Safe i (.op o k) 0 Q w := by
  intro w₁ hw _ hok
  have h₁ := hP (hw rfl) h
  refine ⟨fun _ => hpre w₁ h₁, fun b w₂ hb => ⟨0, fun _ _ => trivial, ?_, hk w₁ b w₂ h₁ hok hb⟩⟩
  exact fun j hj hji => absurd hji hj

theorem safe_silent {p : M α} (hp : p.All fun o => o.pushes = none) :
    (spec env i x).Safe j p 0 (fun _ _ _ => True) w := by
  induction p generalizing j w with
  | ret a => exact fun _ _ => trivial
  | op o k ih =>
    intro w₁ _ _ hok
    refine ⟨fun _ parent promised ho => ?_,
      fun b w₂ hb => ⟨0, fun _ _ => trivial, ?_, ih b (hp.2 b)⟩⟩
    · rw [hp.1] at ho
      cases ho
    · rintro _ hne rfl
      exact steady_of_other hne.symm hok hb
  | fork q k ihq ih =>
    exact ⟨0, 0, rfl, fun j w' _ _ => (ihq hp.1).mono fun _ _ _ _ => ⟨rfl, trivial⟩, ih hp.2⟩
  | iter body t k ihb ih =>
    refine ⟨fun _ _ _ => True, fun _ _ => trivial, fun t _ w _ => (ihb t (hp.1 t)).mono ?_⟩
    rintro (t' | b) _ w _
    · trivial
    · exact ih b (hp.2 b)

structure Checked (x : Nat) (w : World) : Prop where
  enabled : w.pushEnabled
  goAway : w.peerGoAway = false
  unanswered : w.Unanswered x

theorem Checked.steady (h : Checked x w) (hw : Steady i x w w') : Checked x w' :=
  ⟨hw.enabled h.enabled, hw.goAway h.goAway, hw.unanswered h.unanswered⟩

structure Locked (i x : Nat) (w : World) : Prop where
  checked : Checked x w
  held : w.wmu = some i
  live : x ∈ w.live

theorem Locked.steady (hw : Steady i x w w') (h : Locked i x w) : Locked i x w' :=
  ⟨h.checked.steady hw, hw.held h.held, hw.live h.held h.live⟩

theorem promise_safe {fields : List HeaderField} {promised : Nat} (hx : x % 2 = 1)
    (h : Locked i x w) (hroom : Room w noStreamLimit promised) {k : Bool → M α}
    (hk : ∀ ok, (k ok).All fun o => o.pushes = none) :
    (spec env i x).Safe i
      (.op (.encodeBlock fields) fun _ => .op (.write (.pushPromise x promised fields)) k)
      0 (fun _ _ _ => True) w := by
  have hP {w w'} (hw : Steady i x w w') (h : Locked i x w ∧ Room w noStreamLimit promised) :
      Locked i x w' ∧ Room w' noStreamLimit promised :=
    ⟨.steady hw h.1, hw.room h.1.held _ _ h.2⟩
  refine safe_op hP (by simp) ⟨h, hroom⟩ fun w₁ b w₂ ⟨hl, hr⟩ _ hb => ?_
  cases List.mem_singleton.1 hb
  have hl₂ : Locked i x { w₁ with encoded := w₁.encoded ++ [fields] } :=
    ⟨⟨hl.checked.enabled, hl.checked.goAway, hl.checked.unanswered⟩, hl.held, hl.live⟩
  refine safe_op hP ?_ ⟨hl₂, hr⟩ fun _ ok _ _ _ _ => safe_silent (hk ok)
  rintro w ⟨hl, hroom⟩ parent promised' ho
  simp only [Op.pushes, Option.some.injEq, Prod.mk.injEq] at ho
  obtain ⟨rfl, rfl⟩ := ho
  exact ⟨hl.checked.enabled, hl.checked.goAway, hx, hl.live, hl.checked.unanswered, hroom⟩

theorem Locked.reserve {limit : Nat} {r : Option Nat} (h : Locked i x w)
    (hb : (r, w') ∈ Op.exec env i w (.reservePush limit)) : Locked i x w' := by
  simp only [Op.exec, Op.underTable, World.reservePush] at hb
  split at hb
  · split at hb <;> cases List.mem_singleton.1 hb
    · exact h
    · exact ⟨⟨h.checked.enabled, h.checked.goAway, h.checked.unanswered⟩, h.held,
        List.mem_cons_of_mem _ h.live⟩
  · cases hb

theorem reserve_room {limit promised : Nat} (hcount : Counted w)
    (hroom : ∀ promised, Room w limit promised)
    (hb : (some promised, w') ∈ Op.exec env i w (.reservePush limit)) :
    Room w' noStreamLimit promised := by
  have hsettings := peerSettings_of_exec (by simp) hb
  have hbeside : w'.pushesBeside promised ≤ w.pushesBeside promised ∧
      (limit = noStreamLimit ∨ w.pushes < limit) := by
    simp only [Op.exec, Op.underTable, World.reservePush] at hb
    split at hb
    · split at hb <;> cases List.mem_singleton.1 hb
      rename_i hfree
      have hn := hcount.nPush
      exact ⟨by simp [World.pushesBeside], by omega⟩
    · cases hb
  have hlimit : w'.pushLimit = w.pushLimit := by rw [World.pushLimit, World.pushLimit, hsettings]
  have hle := pushesBeside_le w promised
  rw [Room, hlimit]
  obtain h | h := hroom promised <;> omega

theorem locked_safe {fields : List HeaderField} (hx : x % 2 = 1) (h : Checked x w)
    (hi : w.wmu = some i) :
    (spec env i x).Safe i (writePushPromiseLocked env x fields) 0 (fun _ _ _ => True) w := by
  have hheld {w w'} (hw : Steady i x w w') (h : Checked x w ∧ w.wmu = some i) :
      Checked x w' ∧ w'.wmu = some i := ⟨h.1.steady hw, hw.held h.2⟩
  simp only [writePushPromiseLocked, maxWritableFrame, Prog.bind_eq, Prog.lift_bind, Prog.pure_eq,
    Prog.op_bind, Prog.ret_bind]
  refine safe_op hheld (by simp) ⟨h, hi⟩ fun w₁ live w₂ h₁ _ hb => ?_
  simp only [Op.exec, Op.underTable] at hb
  split at hb
  case isFalse => cases hb
  cases List.mem_singleton.1 hb
  split
  · exact safe_silent (by simp)
  rename_i hlive
  have hl : Locked i x w₁ := ⟨h₁.1, h₁.2, by simpa using hlive⟩
  refine safe_op Locked.steady (by simp) hl fun w₂ ps w₃ hl _ hb => ?_
  cases List.mem_singleton.1 hb
  -- from here on there is room, or there was when the limit was read
  have hP {w w'} (hw : Steady i x w w')
      (h : Locked i x w ∧ ∀ promised, Room w w₂.pushLimit promised) :
      Locked i x w' ∧ ∀ promised, Room w' w₂.pushLimit promised :=
    ⟨.steady hw h.1, fun promised => hw.room h.1.held _ _ (h.2 promised)⟩
  refine safe_op hP (by simp) ⟨hl, fun _ => .inl le_rfl⟩ fun w₄ ps' w₅ h₄ _ hb => ?_
  cases List.mem_singleton.1 hb
  split
  · exact safe_silent (by simp)
  refine safe_op hP (by simp) h₄ fun w₅ r w₆ h₅ hok hb => ?_
  change (r, w₆) ∈ Op.exec env i w₅ (.reservePush w₂.pushLimit) at hb
  cases r with
  | none => exact safe_silent (by simp)
  | some promised =>
    obtain ⟨-, -, _, (hcount : Counted w₅)⟩ := hok
    refine promise_safe hx (h₅.1.reserve hb) (reserve_room hcount h₅.2 hb) fun ok => ?_
    cases ok <;> simp

theorem pushPromise_safe {fields : List HeaderField}
    (h : w.Unanswered x ∨ (w.state x).sentFields = true) :
    (spec env i x).Safe i (pushPromise env x fields) 0 (fun _ _ _ => True) w := by
  simp only [pushPromise, writePushPromise, Prog.bind_eq, Prog.lift_bind, Prog.pure_eq]
  refine safe_op (P := fun w => x % 2 = 1 → w.Unanswered x ∨ (w.state x).sentFields = true)
    (fun hw h hx => (h hx).imp hw.unanswered (hw.sent hx)) (by simp) (fun _ => h)
    fun w₁ ps _ h₁ _ hb => ?_
  cases List.mem_singleton.1 hb
  split
  · exact safe_silent (by simp)
  rename_i henabled
  have henabled : w₁.pushEnabled := not_not.1 henabled
  refine safe_op (P := fun w => (x % 2 = 1 → w.Unanswered x ∨ (w.state x).sentFields = true) ∧
      w.pushEnabled)
    (fun hw h => ⟨fun hx => (h.1 hx).imp hw.unanswered (hw.sent hx), hw.enabled h.2⟩) (by simp)
    ⟨h₁, henabled⟩ fun w₂ goAway _ h₂ _ hb => ?_
  cases List.mem_singleton.1 hb
  split
  · exact safe_silent (by simp)
  rename_i hgoAway
  have hgoAway : w₂.peerGoAway = false := by simpa using hgoAway
  split
  · exact safe_silent (by simp)
  split
  · exact safe_silent (by simp)
  rename_i hx _
  have hx : x % 2 = 1 := by omega
  refine safe_op (P := fun w => (w.Unanswered x ∨ (w.state x).sentFields = true) ∧ w.pushEnabled ∧
      w.peerGoAway = false)
    (fun hw h => ⟨h.1.imp hw.unanswered (hw.sent hx), hw.enabled h.2.1, hw.goAway h.2.2⟩) (by simp)
    ⟨h₂.1 hx, h₂.2, hgoAway⟩ fun w₃ st _ h₃ _ hb => ?_
  cases List.mem_singleton.1 hb
  split
  · exact safe_silent (by simp)
  rename_i hsent
  have hc : Checked x w₃ := ⟨h₃.2.1, h₃.2.2, h₃.1.resolve_right hsent⟩
  refine safe_op (fun hw h => Checked.steady h hw) (by simp) hc fun w₄ closed _ h₄ _ hb => ?_
  cases List.mem_singleton.1 hb
  split
  · exact safe_silent (by simp)
  refine safe_op (fun hw h => Checked.steady h hw) (by simp) h₄ fun w₅ _ w₆ h₅ _ hb => ?_
  obtain ⟨-, rfl⟩ := mem_whenFree hb
  have hc₅ : Checked x { w₅ with wmu := some i } := ⟨h₅.enabled, h₅.goAway, h₅.unanswered⟩
  refine Spec.Safe.bind ((locked_safe hx hc₅ rfl).mono fun r _ w _ => ?_)
  exact safe_silent (by simp)

theorem push_safe {fields : List HeaderField} {prio : Option Priority}
    (h : w.Unanswered x ∨ (w.state x).sentFields = true) :
    (spec env i x).Safe i (Call.body env (.push x fields prio)) 0 (fun _ _ _ => True) w := by
  refine Spec.Safe.bind (Spec.Safe.bind ((pushPromise_safe h).mono fun r _ w _ => ?_))
  refine (safe_silent ?_).mono fun _ _ _ _ => fun _ _ => trivial
  cases r <;> simp

theorem anyCall_of_undisturbed {c c' : Config Op World} (h : Running env (undisturbed i x) c c') :
    Running env anyCall c c' :=
  h.mono (fun _ _ h => h) fun _ _ _ _ _ => trivial

theorem enabled_counted {c : Config Op World} {e : Event Call} (hc : Reach env anyCall c)
    (he : (undisturbed i x).Enabled c e) : (counted env i x).Enabled c e := by
  have hcall (w : World) (q : Call) (h : anyCall.callOk w q) : q.available w := h
  have hpool : (counting env anyCall).Pool c := Spec.pool_of_reachable (counted_init env)
    (fun _ => trivial) counting_verifies (reach_owned hcall hc)
  have hany : anyCall.Enabled c e :=
    Guard.Enabled.mono (G := undisturbed i x) (fun _ _ h => h) (fun _ _ _ _ _ => trivial) he
  have hcounted := hpool.enabled (enabled_owned hcall hc hany)
  cases e with
  | call q => exact ⟨he, hcounted.2⟩
  | step j pick =>
    simp only [Guard.Enabled] at he hcounted ⊢
    split
    · rename_i hp
      simp only [hp] at he hcounted
      exact ⟨⟨he, hcounted.1.2⟩, trivial, hcounted.2.2⟩
    · trivial

theorem runs_counted {c c' : Config Op World} (hc : Reach env anyCall c)
    (h : Running env (undisturbed i x) c c') : Running env (counted env i x) c c' := by
  induction h with
  | refl => exact .refl
  | next h he hn ih =>
    exact ih.next (enabled_counted (hc.runs (anyCall_of_undisturbed h)) he) hn

end PushPromise

/-- A PUSH_PROMISE goes out on a live stream of the client that has had no response header section,
while push is enabled, no GOAWAY has come in and the peer's limit has room: provided that no other
goroutine undoes one of these while the push is under way, and that the headers on the wire when it
begins are recorded. -/
theorem push_promise_is_allowed {env : Env} {c c₁ c₂ : Config Op World} {i pick x : Nat}
    {fields : List HeaderField} {prio : Option Priority} {parent promised : Nat}
    {promise : List HeaderField} (hc : Reach env anyCall c)
    (hi : c.threads[i]? = some (Call.body env (.push x fields prio)))
    (hrecorded : c.shared.Unanswered x ∨ (c.shared.state x).sentFields = true)
    (hrun : Running env (undisturbed i x) c c₁)
    (hnext : c₁.next (machine env) (Call.body env) (.step i pick) = some c₂)
    (hwire : c₂.shared.wire = c₁.shared.wire ++ [.pushPromise parent promised promise]) :
    PushAllowed c₁.shared parent promised := by
  obtain ⟨p, _, hp, hp'⟩ := Spec.Safe.runs (fun _ _ => trivial)
    (fun hj hok hb _ => PushPromise.steady_of_other hj hok hb) (PushPromise.runs_counted hc hrun)
    hi
    (PushPromise.push_safe hrecorded)
  have hreach := hc.runs (PushPromise.anyCall_of_undisturbed hrun)
  have hok : (undisturbed i x).Enabled c₁ (.step i pick) := by
    simp only [Guard.Enabled]
    split
    · exact fun hne => absurd rfl hne
    · trivial
  obtain hsame | ⟨β, o, b, hpre, hb⟩ :=
    hp'.pre_of_next hp ⟨0, trivial⟩ (PushPromise.enabled_counted hreach hok) hnext
  · simp [hsame] at hwire
  · have hwritten := written_of_wire hb hwire
    refine hpre rfl parent promised ?_
    cases o <;> simp only [Op.written, reduceCtorEq, Option.some.injEq] at hwritten
    case write f =>
      subst hwritten
      rfl

def requestFields : List HeaderField :=
  [⟨ascii ":method", some (ascii "GET"), .incremental⟩,
    ⟨ascii ":scheme", some (ascii "https"), .incremental⟩,
    ⟨ascii ":path", some (ascii "/"), .incremental⟩]

def pushRequested : List (Call × Nat) :=
  handshake ++ [(.frame (.headers 1 false true [1] none), 16), (.accept .background, 4)]

theorem push_promise_is_allowed_alone : ∃ c c₁ c₂,
    Reach getRequests anyCall c ∧ c.shared.Unanswered 1 ∧
    Running getRequests (undisturbed 4 1) c c₁ ∧
    c₁.next (machine getRequests) (Call.body getRequests) (.step 4 0) = some c₂ ∧
    c₂.shared.wire = c₁.shared.wire ++ [.pushPromise 1 2 requestFields] ∧
    PushAllowed c₁.shared 1 2 := by
  obtain ⟨c, c₁, c₂, hc, hi, hrun, hnext, h⟩ := exists_runs_of_test getRequests anyRun
    ⟨fun w q => q.available w, fun j _ _ _ => j = 4⟩
    (Config.inTurn 0 (pushRequested ++ [(.push 1 requestFields none, 0)]))
    (List.replicate 10 (.step 4 0)) (i := 4)
    (p := Call.body getRequests (.push 1 requestFields none))
    (P := fun c c₁ c₂ => (∀ f ∈ c.shared.wire, f.isHeadersOn 1 = false) ∧
      c₂.shared.wire = c₁.shared.wire ++ [.pushPromise 1 2 requestFields])
    rfl (by decide +kernel)
  simp only [decide_eq_true_eq] at h
  obtain ⟨hunanswered, hwire⟩ := h
  have hc : Reach getRequests anyCall c := hc.mono (fun _ _ h => h) fun _ _ _ _ _ => trivial
  have hrun : Running getRequests (undisturbed 4 1) c c₁ :=
    hrun.mono (fun _ _ h => h) fun _ _ _ _ h hne => absurd (of_decide_eq_true h) hne
  exact ⟨c, c₁, c₂, hc, hunanswered, hrun, hnext, hwire,
    push_promise_is_allowed hc hi (.inl hunanswered) hrun hnext hwire⟩

def pushOvertaken (q : Call) (n : Nat) : List (Event Call) :=
  Config.inTurn 0 (pushRequested ++ [(.push 1 requestFields none, 4), (q, n)]) ++
    List.replicate 6 (.step 4 0)

def PushedFrom (P : World → Prop) : Prop :=
  ∃ c c', Step getRequests anyCall c (.step 4 0) c' ∧ P c.shared ∧
    c'.shared.wire = c.shared.wire ++ [.pushPromise 1 2 requestFields]

theorem pushedFrom_of_run (q : Call) (n : Nat) {P : World → Prop} {p : World → Bool}
    (hp : ∀ w, p w = true → P w)
    (h : (anyRun.run (machine getRequests) (Call.body getRequests) ⟨World.init getRequests, []⟩
      (pushOvertaken q n)).any (fun c => anyRun.enabled c (.step 4 0) &&
        (c.next (machine getRequests) (Call.body getRequests) (.step 4 0)).any fun c' =>
          p c.shared ∧ c'.shared.wire = c.shared.wire ++ [.pushPromise 1 2 requestFields]) = true) :
    PushedFrom P := by
  obtain ⟨c, c', hstep, h⟩ := exists_step_of_run getRequests (pushOvertaken q n) h
  simp only [decide_eq_true_eq] at h
  exact ⟨c, c', hstep, hp _ h.1, h.2⟩

/-- PUSH_PROMISE goes out after SETTINGS that disable push have been acknowledged, after a GOAWAY of
the client, and after the response headers. -/
theorem push_promise_is_overtaken :
    PushedFrom (fun w => ¬ w.pushEnabled ∧ w.wire.getLast? = some .settingsAck) ∧
    PushedFrom (fun w => w.peerGoAway = true) ∧ PushedFrom (fun w => ¬ w.Unanswered 1) := by
  refine ⟨?_, ?_, ?_⟩
  · exact pushedFrom_of_run (.frame (.settings false [(.enablePush, 0)])) 14
      (p := fun w => settingValue w.peerSettings .enablePush 1 ≠ 1 ∧
        w.wire.getLast? = some .settingsAck)
      (fun w h => by simpa [World.pushEnabled] using h) (by decide +kernel)
  · exact pushedFrom_of_run (.frame .goAway) 6 (p := fun w => w.peerGoAway)
      (fun w h => h) (by decide +kernel)
  · exact pushedFrom_of_run (.sendHeaders 1 status431Fields false none) 10
      (p := fun w => w.wire.any (Outbound.isHeadersOn 1))
      (fun w h => by simpa [World.Unanswered] using h) (by decide +kernel)

end PoseidonServer.Conn
