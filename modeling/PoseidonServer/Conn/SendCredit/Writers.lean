import PoseidonServer.Conn.SendCredit.Spec

/-! SendData takes credit, and writes it or gives it back. -/

namespace PoseidonServer.Conn

open Concurrent

namespace SendCredit

variable {env : Env} {G : Guard Op World Call} {i j x : Nat} {w w' : World} {r r' : Share}
  {s s' : Stream}

def credit (x n : Nat) : Share := (Pi.single x n, n)

@[simp] theorem credit_zero (x : Nat) : credit x 0 = 0 := by simp [credit]

theorem Inv.drop {g : Share} (h : Inv w (g + r)) : Inv w r := by
  refine { h with sentOn := fun x => ?_, sent := ?_ }
  · have := h.sentOn x
    simp only [Prod.fst_add, Pi.add_apply] at this
    omega
  · have := h.sent
    simp only [Prod.snd_add] at this
    omega

theorem takeSendCredits {want : Nat} {b : Option Nat} (h : Inv w r)
    (hwant : 0 < want ∧ (want : Int) ≤ maxWindow)
    (hb : (b, w') ∈ Op.exec env i w (.takeSendCredits x want)) :
    Inv w' ((b.map (credit x)).getD 0 + r) ∧ ∀ j, Rely j w w' := by
  simp only [Op.exec, World.takeSendCredits, List.mem_singleton] at hb
  split at hb
  · cases hb
    exact ⟨by simpa using h, fun j => .refl j w⟩
  · rename_i s hs
    split at hb <;> cases hb
    · exact ⟨by simpa using h, fun j => .refl j w⟩
    · rename_i havail
      have hint : int32 want = want := int32_of_window (by unfold maxWindow; omega) hwant.2
      generalize hn : min (int32 want) (min s.sendWindow w.peerConnSendWindow) = n
      have hpos : 0 < n ∧ n ≤ s.sendWindow ∧ n ≤ w.peerConnSendWindow := by omega
      have hnat : ((n.toNat : Nat) : Int) = n := by omega
      refine ⟨h.set hs rfl rfl (fun _ => rfl) (fun _ => rfl) ?_ ?_ (fun y hy => ?_) ?_ ?_,
        rely_set hs rfl rfl rfl⟩
      · obtain ⟨⟨hle, heq⟩, hu, hl, hbase⟩ := h.window x s hs
        exact ⟨⟨by dsimp only; omega, fun hsat => by have := heq hsat; dsimp only; omega⟩,
          by dsimp only; omega, by dsimp only; omega, hbase⟩
      · obtain ⟨⟨hle, heq⟩, hr⟩ := h.conn
        refine ⟨⟨?_, fun hsat => ?_⟩, ?_⟩ <;> simp only [World.debitConn, World.setStr]
        · omega
        · have := heq hsat
          omega
        · omega
      · simp [credit, hy]
      · have := h.sentOn x
        simp [credit, hs] at this ⊢
        omega
      · have := h.sent
        simp [credit, World.debitConn, World.setStr] at this ⊢
        omega

theorem addWindowSaturating_eq {v : Int} {n : Nat} (h : -maxWindow ≤ v) :
    addWindowSaturating v n = min (v + n) maxWindow := by
  unfold addWindowSaturating
  split
  · omega
  · rw [int32_of_window (by omega) (by omega)]
    omega

theorem refundConn {n : Nat} (h : Inv w (credit x n + r)) :
    Inv (w.refundConn n) ((Pi.single x n, 0) + r) := by
  have hsat := addWindowSaturating_eq (v := w.peerConnSendWindow) (n := n) (by
    have := h.conn.range
    unfold maxWindow
    omega)
  refine { h with conn := ?_, sent := ?_ }
  · obtain ⟨⟨hle, heq⟩, hr⟩ := h.conn
    refine ⟨⟨?_, fun hno => ?_⟩, ?_⟩ <;> simp only [World.refundConn, hsat] at *
    · omega
    · simp only [Bool.or_eq_false_iff, decide_eq_false_iff_not] at hno
      have := heq hno.1
      omega
    · omega
  · have := h.sent
    simp [credit, World.refundConn, World.sent] at this ⊢
    omega

theorem refundStream {n : Nat} (h : Inv w ((Pi.single x n, 0) + r)) :
    Inv (w.refundStream x n) r ∧ ∀ j, Rely j w (w.refundStream x n) := by
  unfold World.refundStream World.upd
  split
  · rename_i s hs
    have hw := h.window x s hs
    have hsat := addWindowSaturating_eq (v := s.sendWindow) (n := n) (by
      have := hw.lower
      have := hw.base
      omega)
    refine ⟨h.set hs rfl rfl (fun _ => rfl) (fun _ => rfl) ?_ (h.conn.congr rfl)
      (fun y hy => ?_) ?_ ?_,
      rely_set hs rfl rfl rfl⟩
    · obtain ⟨⟨hle, heq⟩, hu, hl, hbase⟩ := hw
      refine ⟨⟨?_, fun hno => ?_⟩, ?_, ?_, hbase⟩ <;> simp only [hsat] at *
      · omega
      · simp only [Bool.or_eq_false_iff, decide_eq_false_iff_not] at hno
        have := heq hno.1
        omega
      · omega
      · omega
    · simp [hy]
    · have := h.sentOn x
      simp [hs] at this ⊢
      omega
    · simpa [World.setStr] using h.sent
  · exact ⟨h.drop, fun j => .refl j w⟩

theorem write_data {n : Nat} {endStream ok : Bool} {p : Bytes} (h : Inv w (credit x n + r))
    (hp : p.length ≤ n) (hb : (ok, w') ∈ Op.exec env i w (.write (.data x endStream p))) :
    Inv w' r ∧ ∀ j, Rely j w w' := by
  simp only [Op.exec] at hb
  split at hb <;> cases List.mem_singleton.1 hb
  · exact ⟨h.drop, fun j => .refl j w⟩
  · refine ⟨{ h with conn := h.conn.congr rfl, sentOn := fun y => ?_, sent := ?_ }, fun j =>
      ⟨fun hr => ⟨hr, id⟩, fun ht => ⟨ht, rfl, rfl, fun _ => rfl⟩⟩⟩
    · have := h.sentOn y
      by_cases hy : y = x
      · subst hy
        simp [World.sentOn, Outbound.octetsOn, credit] at this ⊢
        omega
      · simpa [World.sentOn, Outbound.octetsOn, credit, hy, Ne.symm hy] using this
    · have := h.sent
      simp [World.sent, Outbound.octets, credit] at this ⊢
      omega

theorem idleOp {g : Share} {o : Op β} {k : β → M α} {Q : α → Share → World → Prop}
    (ho : o.tag ∉ ownSteps) (hk : ∀ b w, (spec env G).Safe i (k b) g Q w) :
    (spec env G).Safe i (.op o k) g Q w :=
  (harmless ho).safe_op fun _ b w' _ _ _ _ _ => hk b w'

theorem dropOp {g : Share} {o : Op β} {k : β → M α} {Q : α → Share → World → Prop}
    (ho : o.tag ∉ ownSteps) (hk : ∀ b w, (spec env G).Safe i (k b) 0 Q w) :
    (spec env G).Safe i (.op o k) g Q w := by
  intro w₁ _ ⟨r, hr⟩ hok
  refine ⟨(harmless ho i w₁ _ hr hok).1, fun b w₂ hb => ?_⟩
  have hstep (r) (hr : Inv w₁ r) := (harmless ho i w₁ r hr hok).2 b w₂ hb
  refine ⟨0, fun r' hr' => ?_, fun j _ => (hstep _ hr).2 j, hk b w₂⟩
  rw [zero_add]
  exact (hstep _ hr').1.drop

theorem takeOp {want : Nat} {k : Option Nat → M α} {Q : α → Share → World → Prop}
    (hk : ∀ b w, (spec env G).Safe i (k b) ((b.map (credit x)).getD 0) Q w) :
    (spec env G).Safe i (.op (.takeSendCredits x want) k) 0 Q w := by
  intro w₁ _ ⟨r, hr⟩ hok
  obtain ⟨held, -, -, hwant⟩ := tabled_held hok
  refine ⟨trivial, fun b w₂ hb => ?_⟩
  change (b, w₂) ∈ Op.exec env i w₁ (.takeSendCredits x want) at hb
  refine ⟨_, fun r' hr' => ?_, fun j _ => (takeSendCredits hr hwant hb).2 j, hk b w₂⟩
  rw [zero_add] at hr'
  exact (takeSendCredits hr' hwant hb).1

def acquired (x : Nat) : Except GoErr Nat → Share
  | .ok n => credit x n
  | .error _ => 0

theorem acquireSendCredits_safe (x want : Nat) (ctx : Ctx) :
    (spec env G).Safe i (acquireSendCredits x want ctx) 0 (fun r g _ => g = acquired x r) w := by
  have hpark (w : World) : (spec env G).Safe i (parkForSendCredits x want ctx) 0
      (fun r g _ => g = acquired x r) w := by
    have hloop (w : World) : (spec env G).Safe i (parkLoop x want ctx) 0
        (fun r g _ => g = acquired x r) w := by
      refine Spec.safe_forever (fun _ g _ => g = 0) (fun _ _ => rfl) ?_
      rintro _ _ w rfl
      simp only [Prog.bind_eq, Prog.lift_bind, Prog.pure_eq]
      refine idleOp (by decide) fun closed w => ?_
      split
      · exact fun _ _ _ _ => rfl
      refine idleOp (by simp [ownSteps]) fun done w => ?_
      split
      · exact fun _ _ _ _ => rfl
      refine takeOp fun b w => ?_
      cases b with
      | some n => exact fun _ _ _ _ => rfl
      | none =>
        exact idleOp (by decide) fun _ _ => idleOp (by decide) fun _ _ =>
          idleOp (by decide) fun _ _ => idleOp (by simp [ownSteps]) fun _ _ =>
            idleOp (by decide) fun _ _ => idleOp (by decide) fun _ _ =>
              idleOp (by decide) fun _ _ _ _ => rfl
    simp only [parkForSendCredits, Prog.bind_eq, Prog.lift_bind, Prog.pure_eq]
    refine idleOp (by simp [ownSteps]) fun _ w => idleOp (by decide) fun _ w => ?_
    refine Spec.Safe.bind ((hloop w).mono fun r g w hg => ?_)
    exact idleOp (by decide) fun _ _ => idleOp (by decide) fun _ _ _ _ => hg
  simp only [acquireSendCredits, Prog.bind_eq, Prog.lift_bind, Prog.pure_eq]
  split
  · exact fun _ _ => by simp [acquired]
  refine idleOp (by decide) fun _ w => idleOp (by decide) fun closed w => ?_
  split
  · exact idleOp (by decide) fun _ _ _ _ => rfl
  refine idleOp (by simp [ownSteps]) fun done w => ?_
  split
  · exact idleOp (by decide) fun _ _ _ _ => rfl
  refine takeOp fun b w => ?_
  cases b with
  | some n => exact idleOp (by decide) fun _ _ _ _ => rfl
  | none => exact idleOp (by decide) fun _ w => hpark w

theorem releaseSendCredits_safe (x n : Nat) :
    (spec env G).Safe i (releaseSendCredits x n) (credit x n) (fun _ g _ => g = 0) w := by
  unfold releaseSendCredits
  split
  · rename_i hn
    exact fun _ _ => by simp [hn]
  simp only [Prog.bind_eq, Prog.lift_bind]
  refine idleOp (by decide) fun _ w w₁ _ _ _ => ⟨trivial, fun _ w₂ hb => ?_⟩
  cases List.mem_singleton.1 hb
  refine ⟨(Pi.single x n, 0), fun r hr => refundConn hr, fun j _ =>
    ⟨fun hr => ⟨hr, id⟩, fun ht => ⟨ht, rfl, rfl, fun _ => rfl⟩⟩, fun w₃ _ ⟨r, hr⟩ _ => ?_⟩
  refine ⟨trivial, fun _ w₄ hb => ?_⟩
  cases List.mem_singleton.1 hb
  refine ⟨0, fun r hr => ?_, fun j _ => (refundStream hr).2 j, ?_⟩
  · rw [zero_add]
    exact (refundStream hr).1
  exact idleOp (by simp [ownSteps]) fun _ _ => idleOp (by decide) fun _ _ =>
    idleOp (by decide) fun _ _ _ _ => rfl

theorem writeOp {n : Nat} {endStream : Bool} {p : Bytes} {k : Bool → M α}
    {Q : α → Share → World → Prop} (hp : p.length ≤ n)
    (hk : ∀ ok w, (spec env G).Safe i (k ok) 0 Q w) :
    (spec env G).Safe i (.op (.write (.data x endStream p)) k) (credit x n) Q w := by
  intro w₁ _ ⟨r, hr⟩ _
  refine ⟨trivial, fun ok w₂ hb => ?_⟩
  change (ok, w₂) ∈ Op.exec env i w₁ (.write (.data x endStream p)) at hb
  refine ⟨0, fun r hr => ?_, fun j _ => (write_data hr hp hb).2 j, hk ok w₂⟩
  rw [zero_add]
  exact (write_data hr hp hb).1

theorem writeChunk_safe (x maxFrame : Nat) (endStream : Bool) (ctx : Ctx) (p : Bytes) :
    (spec env G).Safe i (writeChunk x maxFrame endStream ctx p) 0 (fun _ g _ => g = 0) w := by
  simp only [writeChunk, Prog.bind_eq, Prog.lift_bind, Prog.pure_eq]
  split
  · exact fun _ _ => rfl
  refine Spec.Safe.bind ((acquireSendCredits_safe x _ ctx).mono fun r g w hg => ?_)
  subst hg
  cases r with
  | error e => exact fun _ _ => rfl
  | ok n =>
    refine idleOp (by decide) fun _ w => idleOp (by decide) fun closed w => ?_
    split
    · exact dropOp (by decide) fun _ _ _ _ => rfl
    refine idleOp (by simp [ownSteps]) fun st w => ?_
    split
    · refine idleOp (by decide) fun _ w => ?_
      exact Spec.Safe.bind ((releaseSendCredits_safe x n).mono fun _ _ _ hg _ _ => hg)
    · refine writeOp (List.length_take_le ..) fun ok w => idleOp (by decide) fun _ w => ?_
      split <;> exact fun _ _ => rfl

theorem writeEndLocked_safe (x : Nat) :
    (spec env G).Safe i (writeEndLocked x) 0 (fun _ g _ => g = 0) w := by
  simp only [writeEndLocked, Prog.bind_eq, Prog.lift_bind, Prog.pure_eq]
  refine idleOp (by decide) fun closed w => ?_
  split
  · exact fun _ _ => rfl
  refine idleOp (by simp [ownSteps]) fun st w => ?_
  split
  · exact fun _ _ => rfl
  · rw [← credit_zero x]
    exact writeOp le_rfl fun ok w _ _ => by simp

theorem sendData_safe (x : Nat) (p : Bytes) (endStream : Bool) (ctx : Ctx) :
    (spec env G).Safe i (sendData env x p endStream ctx) 0 (fun _ g _ => g = 0) w := by
  have hwrite (w : World) : (spec env G).Safe i (writeServerData env x p endStream ctx) 0
      (fun _ g _ => g = 0) w := by
    simp only [writeServerData, maxWritableFrame, Prog.bind_eq, Prog.lift_bind, Prog.pure_eq,
      Prog.op_bind, Prog.ret_bind]
    refine idleOp (by decide) fun closed w => ?_
    split
    · exact fun _ _ => rfl
    refine idleOp (by decide) fun ps w => ?_
    split
    · split
      · exact fun _ _ => rfl
      refine idleOp (by decide) fun _ w => Spec.Safe.bind ((writeEndLocked_safe x).mono ?_)
      rintro r g w rfl
      exact idleOp (by decide) fun _ _ _ _ => rfl
    · refine Spec.safe_forever (fun _ g _ => g = 0) (fun _ _ => rfl) ?_
      rintro q _ w rfl
      refine (writeChunk_safe x _ endStream ctx q).mono ?_
      rintro (q | r) g w rfl
      · rfl
      · exact fun _ _ => rfl
  refine idleOp (by simp [ownSteps]) fun st w => ?_
  dsimp only [Prog.ret_bind]
  split
  · exact fun _ _ => rfl
  refine Spec.Safe.bind ((hwrite w).mono ?_)
  rintro r g w rfl
  cases r with
  | error e => exact fun _ _ => rfl
  | ok _ =>
    exact Spec.Safe.bind (uses_safe (endLocal_uses x endStream) (by decide) fun _ _ _ _ _ => rfl)

end SendCredit

end PoseidonServer.Conn
