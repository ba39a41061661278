import PoseidonServer.Conn.Calls
import PoseidonServer.Conn.Locks
import PoseidonServer.Conn.Quiet

/-! HPACK on the way out: what the shared encoder produces is what goes on the wire, in order. -/

namespace PoseidonServer.Conn

open Concurrent

def Outbound.block : Outbound → Option (List HeaderField)
  | .headers _ fields _ _ => some fields
  | .pushPromise _ _ fields => some fields
  | _ => none

def Outbound.overhead : Outbound → Nat
  | .headers _ _ _ prio => if prio.isSome then 5 else 0
  | .pushPromise .. => 4
  | _ => 0

/-- The framer takes the frame: whatever length the encoder gives the block, if it is within
every budget that `fieldsFitFrame` accepts the fields for, then the payload is within `limit`. -/
def Outbound.Fits (limit : Nat) (f : Outbound) : Prop :=
  ∀ fields ∈ f.block, ∀ n : Nat,
    (∀ budget : Int, fieldsFitFrame fields budget = true → (n : Int) ≤ budget) →
      n + f.overhead ≤ limit

def World.blocks (w : World) : List (List HeaderField) := w.wire.filterMap Outbound.block

@[simp] def Op.block : Op β → Option (List HeaderField)
  | .write f => f.block
  | _ => none

namespace HpackSend

structure Inv (env : Env) (w : World) : Prop where
  sync : w.down = false → w.encoded = w.blocks ∨
    (∃ fields, w.encoded = w.blocks ++ [fields]) ∧ ∃ i, w.wmu = some i
  fits : ∀ f ∈ w.wire, f.Fits env.cfg.advertisedSettings.maxFrameSize

def spec (env : Env) (G : Guard Op World Call) : Spec (machine env) (owned G) PUnit where
  inv w _ := Inv env w
  rely i w w' := (w'.wmu = some i ↔ w.wmu = some i) ∧ (w.down = true → w'.down = true) ∧
    (w.wmu = some i → w'.encoded = w.encoded ∧ w'.blocks = w.blocks)
  rely_refl _ _ := ⟨Iff.rfl, id, fun _ => ⟨rfl, rfl⟩⟩
  rely_trans h₁ h₂ := by
    refine ⟨h₂.1.trans h₁.1, fun h => h₂.2.1 (h₁.2.1 h), fun h => ?_⟩
    obtain ⟨he₁, hb₁⟩ := h₁.2.2 h
    obtain ⟨he₂, hb₂⟩ := h₂.2.2 (h₁.1.2 h)
    exact ⟨he₂.trans he₁, hb₂.trans hb₁⟩
  pre i w _ o := w.wmu = some i → w.down = false → ∀ fields, w.encoded = w.blocks ++ [fields] →
    o.block = some fields
  fin i w := w.wmu = some i → w.down = false → w.encoded = w.blocks
  fin_rely := fun h hf hw hd => by
    obtain ⟨hlock, hdown, hsame⟩ := h
    have hw := hlock.1 hw
    rw [(hsame hw).1, (hsame hw).2]
    refine hf hw (Bool.eq_false_iff.2 fun h => ?_)
    rw [hdown h] at hd
    cases hd

variable {env : Env} {G : Guard Op World Call} {i j : Nat} {w w' : World}

theorem pre_of_fin (h : (spec env G).fin i w) (o : Op β) : (spec env G).pre i w o := by
  intro hw hd fields he
  rw [h hw hd] at he
  simp at he

theorem rely_of_other (hw : w.wmu = some i) (hw' : w'.wmu = none ∨ w'.wmu = some i)
    (hd : w.down = true → w'.down = true) (hj : j ≠ i) : (spec env G).rely j w w' := by
  have hne : w.wmu ≠ some j := by simpa [hw] using hj.symm
  have hne' : w'.wmu ≠ some j := by
    obtain h | h := hw' <;> simp [h, hj.symm]
  exact ⟨iff_of_false hne' hne, hd, fun h => absurd h hne⟩

theorem block_of_tag {f : Outbound} (h : f.tag ∉ [.headers, .pushPromise]) : f.block = none := by
  cases f <;> simp_all [Outbound.block]

def blockSteps : List Tag :=
  [.encodeBlock, .write .headers, .write .pushPromise, .lockW, .unlockW]

theorem still {o : Op β} {b : β} (ho : o.tag ∉ blockSteps) (hb : (b, w') ∈ o.exec env i w) :
    w'.wmu = w.wmu ∧ w'.encoded = w.encoded ∧ w'.blocks = w.blocks ∧
      ((∀ f ∈ w.wire, f.Fits env.cfg.advertisedSettings.maxFrameSize) →
        ∀ f ∈ w'.wire, f.Fits env.cfg.advertisedSettings.maxFrameSize) := by
  have hf := frame_of_tag hb
  have hst := still_of_exec hb
  have hwire := wire_exec hb
  generalize o.tag = t at ho hf hst hwire
  refine ⟨hf.wmu ?_, hst.encoded ?_, ?_⟩
  · rw [Ne, Tag.kind_lockW]
    rintro (rfl | rfl) <;> exact ho (by decide)
  · rintro rfl
    exact ho (by decide)
  · obtain hw | ⟨f, rfl, hw⟩ := hwire
    · simp only [World.blocks, hw, true_and]
      exact id
    · have hnone : f.block = none := by
        refine block_of_tag fun hf => ho ?_
        simp only [List.mem_cons, List.not_mem_nil, or_false] at hf
        obtain hf | hf := hf <;> simp [hf, blockSteps]
      refine ⟨by simp [World.blocks, hw, hnone], fun h g hg => ?_⟩
      rw [hw, List.mem_append, List.mem_singleton] at hg
      obtain hg | rfl := hg
      · exact h g hg
      · simp [Outbound.Fits, hnone]

theorem harmless {o : Op β} {b : β} (h : Inv env w) (ho : o.tag ∉ blockSteps)
    (hb : (b, w') ∈ o.exec env i w) : Inv env w' ∧ ∀ j, (spec env G).rely j w w' := by
  obtain ⟨hw, he, hbl, hfits⟩ := still ho hb
  have hdown := down_of_exec hb
  refine ⟨⟨fun hd => ?_, hfits h.fits⟩, fun j => ⟨by rw [hw], hdown, fun _ => ⟨he, hbl⟩⟩⟩
  rw [he, hbl, hw]
  refine h.sync (Bool.eq_false_iff.2 fun h => ?_)
  rw [hdown h] at hd
  cases hd

theorem mild_lockW : (spec env G).Mild .lockW := by
  intro i w _ h hf _
  refine ⟨pre_of_fin hf _, fun b w' hb => ?_⟩
  change (b, w') ∈ Op.exec env i w .lockW at hb
  obtain ⟨hfree, rfl⟩ := mem_whenFree hb
  have hsync (hd : w.down = false) : w.encoded = w.blocks := by
    refine (h.sync hd).resolve_right fun hp => ?_
    obtain ⟨i, hi⟩ := hp.2
    simp [hfree] at hi
  refine ⟨⟨fun hd => .inl (hsync hd), h.fits⟩, fun j hj => ?_, fun _ hd => hsync hd⟩
  refine ⟨?_, id, fun hw => ?_⟩
  · simp [hfree, hj.symm]
  · simp [hfree] at hw

theorem held_write {o : Op β} (hok : (owned G).opOk i w o) (ho : ∀ h : Held, h.Allows o → h.write) :
    w.wmu = some i := by
  obtain ⟨-, h, hof, hallows⟩ := hok
  exact hof.2.2.1 (ho h hallows)

theorem mild_unlockW : (spec env G).Mild .unlockW := by
  intro i w _ h hf hok
  have hw : w.wmu = some i := held_write hok fun _ h => h
  refine ⟨pre_of_fin hf _, fun b w' hb => ?_⟩
  cases List.mem_singleton.1 hb
  refine ⟨⟨fun hd => .inl (hf hw hd), h.fits⟩, fun j hj => ?_, fun hw => by simp at hw⟩
  exact rely_of_other hw (.inl rfl) id hj

theorem mild {o : Op β} (ho : o.tag ∉ [.encodeBlock, .write .headers, .write .pushPromise]) :
    (spec env G).Mild o := by
  by_cases hl : o.tag ∈ [.lockW, .unlockW]
  · cases o <;> simp only [Op.tag, List.mem_cons, List.not_mem_nil, or_false, reduceCtorEq] at hl
    case lockW => exact mild_lockW
    case unlockW => exact mild_unlockW
  · have ho : o.tag ∉ blockSteps := by
      generalize o.tag = t at ho hl
      simp_all [blockSteps]
    intro i w _ h hf _
    refine ⟨pre_of_fin hf _, fun b w' hb => ?_⟩
    obtain ⟨h', hrely⟩ := harmless (G := G) h ho hb
    exact ⟨h', fun j _ => hrely j, (spec env G).fin_rely (hrely i) hf⟩

theorem under {o : Op β} (ho : o.tag ∉ [.encodeBlock, .write .headers, .write .pushPromise]) :
    (spec env G).Under i ((spec env G).fin i) o ∧ (spec env G).Mild o := ⟨mild ho i, mild ho⟩

theorem mildOp {o : Op β} {k : β → M α}
    (ho : o.tag ∉ [.encodeBlock, .write .headers, .write .pushPromise])
    (hk : ∀ b, (spec env G).Proper (k b)) : (spec env G).Proper (.op o k) := .op (mild ho) hk

theorem encode_write {f : Outbound} {fields : List HeaderField} {k : Bool → M α}
    (hf : f.block = some fields) (hfit : f.Fits env.cfg.advertisedSettings.maxFrameSize)
    (hk : ∀ ok, (spec env G).Proper (k ok)) :
    (spec env G).Proper (.op (.encodeBlock fields) fun _ => .op (.write f) k) := by
  intro i w hfin w₁ hw₁ _ hok
  have hfin := (spec env G).fin_rely hw₁ hfin
  have hl₁ : w₁.wmu = some i := held_write hok fun _ h => h
  refine ⟨pre_of_fin hfin _, fun b w₂ hb => ?_⟩
  cases List.mem_singleton.1 hb
  refine ⟨0, fun _ (h : Inv env w₁) => ⟨fun hd => ?_, h.fits⟩,
    fun j hj => rely_of_other hl₁ (.inr hl₁) id hj, ?_⟩
  · exact .inr ⟨⟨fields, congrArg (· ++ [fields]) (hfin hl₁ hd)⟩, i, hl₁⟩
  intro w₃ hw₃ _ _
  have hl₃ : w₃.wmu = some i := hw₃.1.2 hl₁
  have hpending (hd : w₃.down = false) : w₃.encoded = w₃.blocks ++ [fields] := by
    have hd₁ : w₁.down = false := Bool.eq_false_iff.2 fun h => by
      rw [hw₃.2.1 h] at hd
      cases hd
    rw [(hw₃.2.2 hl₁).1, (hw₃.2.2 hl₁).2]
    exact congrArg (· ++ [fields]) (hfin hl₁ hd₁)
  refine ⟨fun _ hd fields' he => ?_, fun ok w₄ hb => ?_⟩
  · rw [hpending hd] at he
    simp_all
  change (ok, w₄) ∈ Op.exec env i w₃ (.write f) at hb
  have hl₄ : w₄.wmu = some i := ((frame_of_exec hb).wmu (f.kind_ne (by simp))).trans hl₃
  have he₄ := (still_of_exec hb).encoded (by simp)
  have hdone (hd : w₄.down = false) : w₄.encoded = w₄.blocks := by
    obtain ⟨-, hdown, rfl⟩ | ⟨-, hup, hw⟩ := write_exec hb
    · simp [hdown] at hd
    · rw [he₄, hpending hup]
      simp [World.blocks, hw, hf]
  refine ⟨0, fun _ (h : Inv env w₃) => ⟨fun hd => .inl (hdone hd), fun g hg => ?_⟩,
    fun j hj => rely_of_other hl₃ (.inr hl₄) (down_of_exec hb) hj, hk ok i w₄ fun _ => hdone⟩
  obtain ⟨-, -, rfl⟩ | ⟨-, -, hw⟩ := write_exec hb
  · exact h.fits g hg
  · rw [hw, List.mem_append, List.mem_singleton] at hg
    exact hg.elim (h.fits g) fun hg => hg ▸ hfit

theorem fits_of_budget {f : Outbound} {fields : List HeaderField} {budget limit : Nat}
    (hle : budget ≤ limit) (hf : f.block = some fields)
    (hfit : fieldsFitFrame fields ((budget : Int) - f.overhead) = true) : f.Fits limit := by
  intro fields' hfields n hn
  obtain rfl : fields = fields' := Option.some.inj (hf.symm.trans hfields)
  have := hn _ hfit
  omega

theorem writeServerHeaders_proper (x : Nat) (fields : List HeaderField) (endStream : Bool)
    (prio : Option Priority) :
    (spec env G).Proper (writeServerHeaders env x fields endStream prio) := by
  have hlocked (prio) : (spec env G).Proper (writeHeadersLocked env x fields endStream prio) := by
    simp only [writeHeadersLocked, maxWritableFrame, Prog.bind_eq, Prog.lift_bind, Prog.pure_eq,
      Prog.op_bind, Prog.ret_bind]
    refine mildOp (by simp) fun st => ?_
    split
    · exact Spec.proper_ret _
    refine mildOp (by simp) fun ps => ?_
    generalize hbudget : (if prio.isSome = true then _ - 5 else _ : Int) = budget
    split
    · exact Spec.proper_ret _
    · rename_i hfit
      have hbudget : budget = (min (settingValue ps .maxFrameSize 16384)
          env.cfg.advertisedSettings.maxFrameSize : Nat) -
            (Outbound.headers x fields endStream prio).overhead := by
        rw [← hbudget, Outbound.overhead]
        split <;> simp
      rw [hbudget] at hfit
      exact encode_write rfl (fits_of_budget (min_le_right ..) rfl (by simpa using hfit)) fun _ => Spec.proper_ret _
  simp only [writeServerHeaders, Prog.bind_eq, Prog.lift_bind, Prog.pure_eq]
  refine mildOp (by simp) fun closed => ?_
  split
  · exact Spec.proper_ret _
  · refine mildOp (by simp) fun stored => mildOp (by simp) fun _ => ?_
    exact (hlocked _).bind fun r => mildOp (by simp) fun _ => Spec.proper_ret _

theorem sendHeaders_proper (x : Nat) (fields : List HeaderField) (endStream : Bool)
    (prio : Option Priority) : (spec env G).Proper (sendHeaders env x fields endStream prio) := by
  have hend := (endLocal_uses x endStream).proper (S := spec env G) mild (by decide)
  refine mildOp (by simp) fun st => ?_
  dsimp only [Prog.ret_bind]
  split
  · exact Spec.proper_ret _
  refine (writeServerHeaders_proper x fields endStream prio).bind fun r => ?_
  cases r with
  | error e => exact Spec.proper_ret _
  | ok _ => exact mildOp (by simp) fun _ => hend.bind fun _ => Spec.proper_ret _

theorem pushWithPriority_proper (x : Nat) (fields : List HeaderField) (prio : Option Priority) :
    (spec env G).Proper (pushWithPriority env x fields prio) := by
  have hlocked : (spec env G).Proper (writePushPromiseLocked env x fields) := by
    simp only [writePushPromiseLocked, maxWritableFrame, Prog.bind_eq, Prog.lift_bind, Prog.pure_eq,
      Prog.op_bind, Prog.ret_bind]
    refine mildOp (by simp) fun live => ?_
    split
    · exact Spec.proper_ret _
    refine mildOp (by simp) fun ps => mildOp (by simp) fun ps' => ?_
    split
    · exact Spec.proper_ret _
    rename_i hfit
    rw [Bool.not_eq_true', Bool.not_eq_false] at hfit
    refine mildOp (by simp) fun promised => ?_
    cases promised with
    | none => exact Spec.proper_ret _
    | some promised =>
      refine encode_write rfl (fits_of_budget (min_le_right ..) rfl hfit) fun ok => ?_
      split
      · exact Spec.proper_ret _
      · exact mildOp (by simp) fun _ => mildOp (by simp) fun _ => Spec.proper_ret _
  have hwrite : (spec env G).Proper (writePushPromise env x fields) := by
    simp only [writePushPromise, Prog.bind_eq, Prog.lift_bind, Prog.pure_eq]
    refine mildOp (by simp) fun closed => ?_
    split
    · exact Spec.proper_ret _
    · exact mildOp (by simp) fun _ => hlocked.bind fun r => mildOp (by simp) fun _ =>
        Spec.proper_ret _
  have hpush : (spec env G).Proper (pushPromise env x fields) := by
    simp only [pushPromise, Prog.bind_eq, Prog.lift_bind, Prog.pure_eq]
    refine mildOp (by simp) fun ps => ?_
    split
    · exact Spec.proper_ret _
    refine mildOp (by simp) fun goAway => ?_
    split
    · exact Spec.proper_ret _
    split
    · exact Spec.proper_ret _
    split
    · exact Spec.proper_ret _
    refine mildOp (by simp) fun st => ?_
    split
    · exact Spec.proper_ret _
    · exact hwrite
  refine hpush.bind fun r => ?_
  cases r with
  | error e => exact Spec.proper_ret _
  | ok promised => exact mildOp (by simp) fun _ => Spec.proper_ret _

theorem methods : Methods env (spec env G) where
  turn ho := mild (by
    revert ho
    generalize Op.tag _ = t
    revert t
    decide)
  dispatch f _ := by
    have hblocks (i) : Blocks env (spec env G) i ((spec env G).fin i) :=
      .of_under (spec env G).fin_rely under (by decide) fun x => sendHeaders_proper x _ _ _ i
    cases f with
    | headers => exact fun i => (hblocks i).onHeaders _ _ _ _ _
    | continuation => exact fun i => (hblocks i).onContinuation _ _ _
    | _ => exact (dispatch_uses env (by simp) (by simp)).proper mild (by decide)
  settings ack params := (recorderSettings_uses ack params).proper mild (by decide)
  answer x _ code _ := (writeRSTStreamID_uses x code).proper mild (by decide)
  announce code := (sendGoAway_uses code).proper mild (by decide)
  shutdown := shutdownStreams_uses.proper mild (by decide)
  initial := sendInitialConnWindowUpdate_uses.proper mild (by decide)
  seed := (seed_uses env).proper mild (by decide)
  body q hq i s _ _ hf := by
    refine (?_ : (spec env G).Proper (q.body env)) i s hf
    cases q with
    | sendHeaders => exact (sendHeaders_proper _ _ _ _).bind fun _ => Spec.proper_ret _
    | push => exact (pushWithPriority_proper _ _ _).bind fun _ => Spec.proper_ret _
    | recv x ctx =>
      refine (Call.body_uses env hq).proper mild ?_
      rw [Call.steps, Outbound.tag_windowUpdate]
      split <;> decide
    | _ => exact (Call.body_uses env hq).proper mild (by simp only [Call.steps]; decide)

theorem serveFrame_proper {f : Inbound} (hf : f.WellFormed) :
    (spec env G).Proper (serveFrame env f) := mildOp (by simp) fun _ => methods.round hf

theorem init_inv (env : Env) : Inv env (World.init env) where
  sync _ := .inl rfl
  fits := by simp [World.init, Outbound.Fits, Outbound.block]

end HpackSend

/-- While the transport is up, what the encoder has produced is on the wire, in the same order,
or it is but for the last block, whose producer holds the write lock and writes it next. And
every block that goes out fits into its frame. -/
theorem encoded_blocks_are_written {env : Env} {c : Config Op World} (hc : Reach env anyCall c)
    (hup : c.shared.down = false) :
    (c.shared.encoded = c.shared.blocks ∨
      ∃ fields i, c.shared.encoded = c.shared.blocks ++ [fields] ∧ c.shared.wmu = some i ∧
        c.Due i fun o => o.block = some fields) ∧
    ∀ f ∈ c.shared.wire, f.Fits env.cfg.advertisedSettings.maxFrameSize := by
  have hcall (w : World) (q : Call) (h : anyCall.callOk w q) : q.available w := h
  have hpool := Spec.pool_of_reachable (HpackSend.init_inv env) (fun _ hw => by cases hw)
    ((HpackSend.methods (G := anyCall)).verifies (fun _ _ h => wellFormed_of_available (hcall _ _ h)) fun _ => HpackSend.serveFrame_proper)
    (reach_owned hcall hc)
  have hinv : HpackSend.Inv env c.shared := by
    obtain ⟨_, -, -, h⟩ := hpool
    exact h
  refine ⟨(hinv.sync hup).imp_right fun h => ?_, hinv.fits⟩
  obtain ⟨⟨fields, hf⟩, i, hi⟩ := h
  refine ⟨fields, i, hf, hi, ?_⟩
  have hunfinished : ¬(HpackSend.spec env anyCall).fin i c.shared := fun hfin => by
    simp [hfin hi hup] at hf
  have hdue := hpool.due (enabled_owned hcall hc (enabled_anyCall c i)) hunfinished
  exact hdue.mono fun o ho => ho hi hup fields hf

def responseUnderway : List (Event Call) :=
  Config.inTurn 0 (handshake ++ [(.frame (.headers 1 false true [1] none), 16),
    (.accept .background, 4), (.sendHeaders 1 status431Fields true none, 7)])

theorem encoded_blocks_are_written_next : ∃ c i, Reach getRequests anyCall c ∧
    c.shared.encoded = [status431Fields] ∧ c.shared.blocks = [] ∧ c.shared.wmu = some i ∧
      c.Due i fun o => o.block = some status431Fields := by
  obtain ⟨c, hc, h⟩ := exists_reach_of_run getRequests responseUnderway
    (p := fun c => c.shared.down = false ∧ c.shared.encoded = [status431Fields] ∧
      c.shared.blocks = []) (by decide +kernel)
  simp only [decide_eq_true_eq] at h
  obtain ⟨hup, he, hb⟩ := h
  obtain ⟨hsync, -⟩ := encoded_blocks_are_written hc hup
  rw [he, hb] at hsync
  obtain hsync | ⟨fields, i, hf, hi, hdue⟩ := hsync
  · cases hsync
  · obtain rfl : status431Fields = fields := by simpa using hf
    exact ⟨c, i, hc, he, hb, hi, hdue⟩

end PoseidonServer.Conn
