import PoseidonServer.Server.Teardown.Steps

/-! The runs of the server: no connection outlives it, a graceful shutdown drains, and the transport
counters never go back. -/

namespace PoseidonServer.Server.Teardown

open Concurrent

variable {strict : Bool} {i j k : Nat} {w w' : State} {g : Multiset Nat} {opts : Listen.Options}

def Ends.Tended (e : Ends) (i : Nat) (but : Option Nat) : Prop :=
  ∀ k < e.made, e.owner k = i → but ≠ some k → e.Covered k

theorem Ends.Tended.rely {e e' : Ends} {but : Option Nat} (h : e.Tended i but) (he : e.Rely i e') :
    e'.Tended i but := by
  intro k hk ho hne
  by_cases hlt : k < e.made
  · exact he.covered k hlt (h k hlt ((he.owner k hlt).symm.trans ho) hne)
  · exact absurd ho (he.others k (not_lt.1 hlt) hk)

/-- Goroutine `i` leaves no connection behind: neither one of its own, nor one that it had to close. -/
structure Ends.Finished (e : Ends) (i : Nat) : Prop where
  tended : e.Tended i none
  left : e.closer = some i → e.left = []

theorem Ends.Rely.left_nil {e e' : Ends} (he : e.Rely i e') (h : e.closer = some i → e.left = []) :
    e'.closer = some i → e'.left = [] := by
  intro hc
  have hc := he.closer.1 hc
  refine List.eq_nil_iff_forall_not_mem.2 fun k hk => ?_
  have := he.left hc k hk
  simp [h hc] at this

theorem Ends.Finished.rely {e e' : Ends} (h : e.Finished i) (he : e.Rely i e') : e'.Finished i :=
  ⟨h.tended.rely he, he.left_nil h.left⟩

def spec (strict : Bool) : Spec machine (guardOf strict) (Multiset Nat) where
  inv := Inv
  rely := Rely
  rely_refl := Rely.refl
  rely_trans := Rely.trans
  pre i w _ o := Pre i w o
  fin i w := strict = true → w.ends.Finished i
  fin_rely := fun h hf hs => (hf hs).rely h.ends

theorem safe_op {o : Op β} {p : β → M α} {Q : α → Multiset Nat → State → Prop} (ho : o.plain = true)
    (hpre : ∀ w₁, Rely i w w₁ → (∃ r, Inv w₁ (g + r)) → Pre i w₁ o)
    (hk : ∀ w₁ b w₂, Rely i w w₁ → (∃ r, Inv w₁ (g + r)) → (guardOf strict).opOk i w₁ o →
      (b, w₂) ∈ o.exec i w₁ → (spec strict).Safe i (p b) g Q w₂) :
    (spec strict).Safe i (.op o p) g Q w := by
  intro w₁ hw hinv hok
  refine ⟨hpre w₁ hw hinv, fun b w₂ hb => ?_⟩
  obtain ⟨r, hr⟩ := hinv
  refine ⟨g, fun r hr => inv_of_exec hr (hpre w₁ hw ⟨r, hr⟩) ho hb, fun j hj => ?_, ?_⟩
  · exact rely_of_exec hr (hpre w₁ hw ⟨r, hr⟩) hb (.inr hj)
  · exact hk w₁ b w₂ hw ⟨r, hr⟩ hok hb

theorem harmless {o : Op β} (ho : o.plain = true) (hstill : o.still = true)
    (hpre : ∀ i w, Pre i w o) : (spec strict).Harmless o := by
  intro i w r (hr : Inv w r) _
  refine ⟨hpre i w, fun b w' hb => ⟨inv_of_exec hr (hpre i w) ho hb, fun j => ?_⟩⟩
  exact rely_of_exec hr (hpre i w) hb (.inl hstill)

theorem reads_harmless {o : Op β} (ho : o.reads = true) : (spec strict).Harmless o := by
  cases o <;> cases ho <;> exact harmless rfl rfl fun _ _ => trivial

theorem closeConn_harmless (k : Nat) : (spec strict).Harmless (.closeConn k) :=
  harmless rfl rfl fun _ _ => trivial

/-! The streams. -/

theorem serveStream_safe (s : Nat) (hf : (spec strict).fin i w) :
    (spec strict).Safe i (serveStream s) {s} ((spec strict).Done i) w := by
  intro w₁ hw ⟨r, hr⟩ _
  refine ⟨trivial, fun b w₂ hb => ?_⟩
  have hrely : ∀ j, Rely j w₁ w₂ := fun j =>
    rely_of_exec (i := i) (o := .finish s) hr trivial hb (.inl rfl)
  refine ⟨0, fun r hr => ?_, fun j _ => hrely j, fun w₃ hw₃ => ⟨rfl, ?_⟩⟩
  · cases List.mem_singleton.1 hb
    rw [zero_add]
    exact ⟨hr.streams.finish, hr.book, hr.ends, hr.made, hr.closer⟩
  · exact (spec strict).fin_rely (hw.trans ((hrely i).trans hw₃)) hf

theorem hand_safe {P : State → Prop} (hP : ∀ {w w'}, Rely i w w' → P w → P w') (h : P w) (s : Nat) :
    (spec strict).Safe i (.op (.hand s) fun _ => .fork (serveStream s) (.ret true)) {s}
      (fun _ g w => g = 0 ∧ P w) w := by
  have hlt : ∀ {w₁ : State}, (∃ r, Inv w₁ ({s} + r)) → s < w₁.streams.admitted := by
    rintro w₁ ⟨r, hr⟩
    exact hr.streams.lt (Multiset.mem_add.2 (.inl (Multiset.mem_singleton_self s)))
  refine safe_op rfl (fun _ _ hinv => hlt hinv) fun w₁ _ w₂ hw hinv _ hb => ?_
  obtain ⟨r, hr⟩ := hinv
  have hw₂ : Rely i w₁ w₂ := rely_of_exec (i := i) (o := .hand s) hr (hlt ⟨r, hr⟩) hb (.inl rfl)
  refine ⟨{s}, 0, (add_zero _).symm, fun j w₃ _ hf => serveStream_safe s hf, fun w₃ hw₃ => ?_⟩
  exact ⟨rfl, hP hw₃ (hP hw₂ (hP hw h))⟩

theorem spawnStream_keeps {P : State → Prop} (hP : ∀ {w w'}, Rely i w w' → P w → P w') :
    (spec strict).Keeps i P spawnStream := by
  intro w h w₁ hw ⟨r, hr⟩ _
  refine ⟨trivial, fun b w₂ hb => ?_⟩
  have hrely : ∀ j, Rely j w₁ w₂ := fun j =>
    rely_of_exec (i := i) (o := .add) hr trivial hb (.inl rfl)
  have h₂ : P w₂ := hP (hrely i) (hP hw h)
  obtain ⟨-, hb⟩ := mem_underMu.1 hb
  have hb := List.mem_singleton.1 hb
  split at hb
  · cases hb
    exact ⟨0, fun _ h => h, fun j _ => hrely j, fun w₃ hw₃ => ⟨rfl, hP hw₃ h₂⟩⟩
  · rename_i hs
    have hs : w₁.streams.shutdown = false := by
      simp only [Bool.or_eq_true, not_or, Bool.not_eq_true] at hs
      exact hs.1
    cases hb
    refine ⟨{w₁.streams.admitted}, fun r hr => ?_, fun j _ => hrely j, hand_safe hP h₂ _⟩
    rw [zero_add] at hr
    exact ⟨hr.streams.add hs, hr.book, hr.ends, hr.made, hr.closer⟩

/-! The accept loop. -/

theorem closeIfFinished_keeps {P : State → Prop} (hP : ∀ {w w'}, Rely i w w' → P w → P w') (k : Nat)
    (e : Listen.AcceptErr) : (spec strict).Keeps i P (closeIfFinished k e) := by
  have hclose : (spec strict).Keeps i P (.lift (.closeConn k)) :=
    ((closeConn_harmless k).under hP).keeps hP fun _ => Spec.keeps_ret hP ()
  cases e with
  | connClosed => exact hclose
  | deadlineExceeded =>
    refine ((reads_harmless rfl).under hP).keeps hP fun b => ?_
    cases b with
    | true => exact Spec.keeps_ret hP ()
    | false => exact hclose
  | other => exact Spec.keeps_ret hP ()

theorem acceptLoop_keeps {P : State → Prop} (hP : ∀ {w w'}, Rely i w w' → P w → P w') (k : Nat) :
    (spec strict).Keeps i P (acceptLoop opts k) := by
  have hend (e : Listen.AcceptErr) : (spec strict).Keeps i P
      ((closeIfFinished k e).bind fun _ => (.ret (.inr ()) : M (Unit ⊕ Unit))) :=
    (closeIfFinished_keeps hP k e).bind fun _ => Spec.keeps_ret hP _
  intro w h
  refine Spec.safe_forever (fun _ g w => g = 0 ∧ P w) (fun w' hw => ⟨rfl, hP hw h⟩) ?_
  rintro _ _ w ⟨rfl, hw⟩
  refine Spec.Safe.mono (Q := fun _ g w => g = 0 ∧ P w) ?_ ?_
  · refine ((reads_harmless rfl).under hP).keeps hP (fun b => ?_) w hw
    rcases b with e | ⟨⟩
    · dsimp only [Prog.ret_bind]
      split
      · refine ((reads_harmless rfl).under hP).keeps hP fun b => ?_
        cases b with
        | true => exact Spec.keeps_ret hP _
        | false => exact hend e
      · exact hend e
    · refine (spawnStream_keeps hP).bind fun b => ?_
      cases b <;> exact Spec.keeps_ret hP _
  rintro (_ | _) _ w' ⟨rfl, hw'⟩
  · exact ⟨rfl, hw'⟩
  · exact fun w'' hw'' => ⟨rfl, hP hw'' hw'⟩

/-! The sections under `s.mu`. -/

theorem safe_lock {p : Unit → M α} {Q : α → Multiset Nat → State → Prop}
    (hk : ∀ w', Rely i w w' → w'.mu = some i → (spec strict).Safe i (p ()) g Q w') :
    (spec strict).Safe i (.op .lock p) g Q w := by
  refine safe_op rfl (fun _ _ _ => trivial) fun w₁ _ w₂ hw ⟨r, hr⟩ _ hb => ?_
  refine hk w₂ (hw.trans (rely_of_exec (i := i) (o := .lock) hr trivial hb (.inl rfl))) ?_
  obtain ⟨-, hb⟩ := mem_underMu.1 hb
  cases List.mem_singleton.1 hb
  rfl

theorem safe_unlock {p : Unit → M α} {Q : α → Multiset Nat → State → Prop} (hmu : w.mu = some i)
    (hk : ∀ w', w.ends.Rely i w'.ends → (w.streams.shutdown = true → w'.streams.shutdown = true) →
      (spec strict).Safe i (p ()) g Q w') : (spec strict).Safe i (.op .unlock p) g Q w := by
  refine safe_op rfl (fun w₁ hw _ => (hw.locked hmu).1) fun w₁ _ w₂ hw _ _ hb => ?_
  cases List.mem_singleton.1 hb
  exact hk _ hw.ends fun hs => (hw.calm hs).1

theorem Rely.book_eq (hw : Rely i w w') (hmu : w.mu = some i) :
    w'.book.conns = w.book.conns ∧ w'.book.closedStats = w.book.closedStats ∧
      w'.book.floor = w.book.floor ∧ w'.book.ever = w.book.ever := by
  have hbook := (hw.locked hmu).2
  refine ⟨?_, ?_, ?_, ?_⟩ <;> rw [← hbook]

def Book.Reads (b : Book) (k : Nat) (fs : List Counter) (st : Stats) : Prop :=
  ∀ f ∈ fs, b.floor k f ≤ st f ∧ st f ≤ b.counters k f

theorem Rely.reads {fs : List Counter} {st : Stats} (hw : Rely i w w') (hmu : w.mu = some i)
    (h : w.book.Reads k fs st) : w'.book.Reads k fs st := by
  intro f hf
  rw [(hw.book_eq hmu).2.2.1]
  exact ⟨(h f hf).1, (h f hf).2.trans (hw.counters k f)⟩

theorem loadEach_safe (hmu : w.mu = some i) (fs : List Counter) :
    (spec strict).Safe i (loadEach k fs) 0
      (fun st g w' => g = 0 ∧ Rely i w w' ∧ w'.book.Reads k fs st) w := by
  induction fs generalizing w with
  | nil => exact fun w' hw => ⟨rfl, hw, nofun⟩
  | cons f fs ih =>
    refine safe_op rfl (fun _ _ _ => trivial) fun w₁ n w₂ hw ⟨r, hr⟩ _ hb => ?_
    cases List.mem_singleton.1 hb
    have hmu₁ := (hw.locked hmu).1
    have hn : w₁.book.Reads k [f] fun _ => w₁.book.counters k f := by
      intro f' hf'
      cases List.mem_singleton.1 hf'
      exact ⟨hr.book.floor k f, le_rfl⟩
    dsimp only [Prog.bind_eq, Prog.ret_bind]
    refine Spec.Safe.bind ((ih hmu₁).mono ?_)
    rintro st _ w₂ ⟨rfl, hw₂, hst⟩ w₃ hw₃
    refine ⟨rfl, hw.trans (hw₂.trans hw₃), fun f' hf' => ?_⟩
    have hn := (hw₂.trans hw₃).reads hmu₁ hn
    have hst := hw₃.reads (hw₂.locked hmu₁).1 hst
    by_cases hff : f' = f
    · subst hff
      rw [Function.update_self]
      exact hn f' List.mem_cons_self
    · rw [Function.update_of_ne hff]
      exact hst f' ((List.mem_cons.1 hf').resolve_left hff)

theorem Counter.mem_all (f : Counter) : f ∈ Counter.all := by
  cases f <;> decide

theorem stats_safe (hmu : w.mu = some i) (k : Nat) :
    (spec strict).Safe i (stats k) 0 (fun st g w' => g = 0 ∧ Rely i w w' ∧
      w'.book.floor k ≤ st ∧ st ≤ w'.book.counters k) w := by
  refine (loadEach_safe hmu Counter.all).mono ?_
  rintro st g w' ⟨hg, hw, hst⟩
  exact ⟨hg, hw, fun f => (hst f f.mem_all).1, fun f => (hst f f.mem_all).2⟩

theorem forgetConn_safe (hmu : w.mu = some i) (k : Nat) :
    (spec strict).Safe i (forgetConn k) 0 (fun _ g w' => g = 0 ∧ w'.mu = some i ∧
      w.ends.Rely i w'.ends ∧ (strict = true → k < w.ends.made → w.ends.owner k = i →
        w'.ends.Covered k)) w := by
  refine safe_op rfl (fun _ _ _ => trivial) fun w₁ b w₂ hw ⟨r, hr⟩ hok hb => ?_
  cases List.mem_singleton.1 hb
  have hmu₁ := (hw.locked hmu).1
  have hcovered : strict = true → k < w.ends.made → w.ends.owner k = i → w₁.ends.Covered k := by
    rintro rfl hk ho hopen
    refine hr.ends.snapshot k ?_ hopen
    exact hok (hk.trans_le hw.ends.made) ((hw.ends.owner k hk).trans ho) hopen
  have hmade : k < w.ends.made → k < w₁.ends.made := fun hk => hk.trans_le hw.ends.made
  by_cases hk : k ∈ w₁.book.conns
  · rw [decide_eq_true hk]
    dsimp only [Prog.bind_eq, Prog.ret_bind]
    refine Spec.Safe.bind ((stats_safe hmu₁ k).mono ?_)
    rintro st _ w₃ ⟨rfl, hw₃, hlow, hhigh⟩
    have hmu₃ := (hw₃.locked hmu₁).1
    have hk₃ : k ∈ w₃.book.conns := (hw₃.book_eq hmu₁).1 ▸ hk
    refine safe_op rfl (fun w₄ hw₄ _ => ?_) fun w₄ _ w₅ hw₄ _ _ hb w₆ hw₆ => ?_
    · obtain ⟨hconns, -, hfloor, -⟩ := hw₄.book_eq hmu₃
      exact ⟨(hw₄.locked hmu₃).1, hconns ▸ hk₃, hfloor ▸ hlow, hhigh.trans (hw₄.counters k)⟩
    · cases List.mem_singleton.1 hb
      have hends : w₁.ends.Rely i w₆.ends := (hw₃.ends.trans hw₄.ends).trans hw₆.ends
      refine ⟨rfl, (hw₆.locked (hw₄.locked hmu₃).1).1, hw.ends.trans hends, fun hs hk ho => ?_⟩
      exact hends.covered k (hmade hk) (hcovered hs hk ho)
  · rw [decide_eq_false hk]
    refine fun w₃ hw₃ => ⟨rfl, (hw₃.locked hmu₁).1, hw.ends.trans hw₃.ends, fun hs hk ho => ?_⟩
    exact hw₃.ends.covered k (hmade hk) (hcovered hs hk ho)

/-! The goroutine of a connection. -/

structure Serves (strict : Bool) (i k : Nat) (w : State) : Prop where
  made : k < w.ends.made
  owner : w.ends.owner k = i
  tended : strict = true → w.ends.Tended i (some k)
  left : strict = true → w.ends.closer = some i → w.ends.left = []

theorem Serves.ends (h : Serves strict i k w) (he : w.ends.Rely i w'.ends) : Serves strict i k w' :=
  ⟨h.made.trans_le he.made, (he.owner k h.made).trans h.owner, fun hs => (h.tended hs).rely he,
    fun hs => he.left_nil (h.left hs)⟩

theorem Serves.fin (h : Serves strict i k w) (hk : strict = true → w.ends.Covered k) :
    (spec strict).fin i w := by
  refine fun hs => ⟨fun k' hk' ho _ => ?_, h.left hs⟩
  by_cases hne : k' = k
  · exact hne ▸ hk hs
  · exact h.tended hs k' hk' ho fun heq => hne (Option.some.inj heq).symm

theorem track_safe (h : Serves strict i k w) (hk : k ∉ w.book.ever) :
    (spec strict).Safe i (trackConn k true) 0 (fun _ g w => g = 0 ∧ Serves strict i k w) w := by
  refine safe_lock fun w₁ hw hmu => ?_
  have h₁ := h.ends hw.ends
  have hk₁ : k ∉ w₁.book.ever := fun hmem => hk ((hw.fresh k h.made h.owner).1 hmem)
  refine safe_op rfl (fun w₂ hw₂ _ => ?_) fun w₂ _ w₃ hw₂ _ _ hb => ?_
  · have h₂ := h₁.ends hw₂.ends
    exact ⟨(hw₂.locked hmu).1, h₂.made, h₂.owner, (hw₂.book_eq hmu).2.2.2 ▸ hk₁⟩
  · cases List.mem_singleton.1 hb
    refine safe_unlock (hw₂.locked hmu).1 fun w₄ he _ w₅ hw₅ => ⟨rfl, ?_⟩
    exact ((h₁.ends hw₂.ends).ends he).ends hw₅.ends

theorem untrack_safe (h : Serves strict i k w) :
    (spec strict).Safe i (trackConn k false) 0 ((spec strict).Done i) w := by
  refine safe_lock fun w₁ hw hmu => ?_
  have h₁ := h.ends hw.ends
  change (spec strict).Safe i ((forgetConn k).bind fun _ => .lift .unlock) 0 _ w₁
  refine Spec.Safe.bind ((forgetConn_safe hmu k).mono ?_)
  rintro _ _ w₂ ⟨rfl, hmu₂, he, hcovered⟩
  refine safe_unlock hmu₂ fun w₃ he₃ _ w₄ hw₄ => ⟨rfl, ?_⟩
  have h₂ := h₁.ends he
  refine ((h₂.ends he₃).ends hw₄.ends).fin fun hs => ?_
  exact (he₃.trans hw₄.ends).covered k h₂.made (hcovered hs h₁.made h₁.owner)

theorem serveConn_proper : (spec strict).Proper (serveConn opts) := by
  intro i w hf
  refine safe_op rfl (fun _ _ _ => trivial) fun w₁ b w₂ hw hinv _ hb => ?_
  obtain ⟨r, hr⟩ := hinv
  have hf₁ : (spec strict).fin i w₁ := (spec strict).fin_rely hw hf
  simp only [Op.exec, List.mem_cons, List.not_mem_nil, or_false] at hb
  rcases hb with hb | hb <;> cases hb
  · have hserves : Serves strict i w₁.ends.made { w₁ with ends := { w₁.ends with
        made := w₁.ends.made + 1
        owner := Function.update w₁.ends.owner w₁.ends.made i
        isOpen := Function.update w₁.ends.isOpen w₁.ends.made true } } := by
      refine ⟨Nat.lt_succ_self _, Function.update_self .., fun hs k hk ho hne => ?_,
        fun hs => (hf₁ hs).left⟩
      have hne : k ≠ w₁.ends.made := fun heq => hne (heq ▸ rfl)
      have hlt : k < w₁.ends.made := lt_of_le_of_ne (Nat.lt_succ_iff.1 hk) hne
      dsimp only at ho
      rw [Function.update_of_ne hne] at ho
      intro hopen
      dsimp only at hopen
      rw [Function.update_of_ne hne] at hopen
      exact (hf₁ hs).tended k hlt ho (by simp) hopen
    have hnew : w₁.ends.made ∉ w₁.book.ever := fun hmem => lt_irrefl _ (hr.made _ hmem)
    refine (reads_harmless rfl).safe_op fun _ b w₃ _ _ _ _ hw₃ => ?_
    have h₃ := hserves.ends hw₃.ends
    cases b with
    | true =>
      have hnew₃ : w₁.ends.made ∉ w₃.book.ever := fun hmem =>
        hnew ((hw₃.fresh _ hserves.made hserves.owner).1 hmem)
      dsimp only [Prog.bind_eq, Prog.ret_bind]
      refine Spec.Safe.bind ((track_safe h₃ hnew₃).mono ?_)
      rintro _ _ w₄ ⟨rfl, h₄⟩
      refine Spec.Safe.bind ((acceptLoop_keeps (fun hw h => h.ends hw.ends) _ w₄ h₄).mono ?_)
      rintro _ _ w₅ ⟨rfl, h₅⟩
      exact untrack_safe h₅
    | false =>
      refine safe_op rfl (fun _ _ _ => trivial) fun w₄ _ w₅ hw₄ _ _ hb w₆ hw₆ => ⟨rfl, ?_⟩
      cases List.mem_singleton.1 hb
      have he := (Ends.rely_close (k := w₁.ends.made) (e := w₄.ends) i).trans hw₆.ends
      refine ((h₃.ends hw₄.ends).ends he).fin fun _ => ?_
      refine hw₆.ends.covered _ (h₃.ends hw₄.ends).made fun hopen => ?_
      simp at hopen
  · exact fun w₂ hw₂ => ⟨rfl, (spec strict).fin_rely hw₂ hf₁⟩

/-! `Close` and `Shutdown`. -/

theorem closeEach_safe {ks : List Nat} (hmu : w.mu = some i) (hc : w.ends.closer = some i)
    (hleft : ∀ k ∈ w.ends.left, k ∈ ks) :
    (spec strict).Safe i (closeEach ks) 0 (fun _ g w' => g = 0 ∧ w'.mu = some i ∧
      w.ends.Rely i w'.ends ∧ w'.ends.left = []) w := by
  induction ks generalizing w with
  | nil =>
    have hnil : w.ends.left = [] := List.eq_nil_iff_forall_not_mem.2 fun k hk => by cases hleft k hk
    exact fun w' hw => ⟨rfl, (hw.locked hmu).1, hw.ends, hw.ends.left_nil (fun _ => hnil)
      (hw.ends.closer.2 hc)⟩
  | cons k ks ih =>
    refine safe_op rfl (fun _ _ _ => trivial) fun w₁ _ w₂ hw _ _ hb => ?_
    cases List.mem_singleton.1 hb
    have hleft₁ : ∀ k' ∈ w₁.ends.left.filter (· ≠ k), k' ∈ ks := by
      intro k' hk'
      obtain ⟨hk', hne⟩ := List.mem_filter.1 hk'
      exact (List.mem_cons.1 (hleft k' (hw.ends.left hc k' hk'))).resolve_left (by simpa using hne)
    have hclose := hw.ends.trans (Ends.rely_close (k := k) i)
    dsimp only [Prog.bind_eq, Prog.ret_bind]
    refine Spec.Safe.bind (Spec.Safe.mono (forgetConn_safe ?_ k) ?_)
    · exact (hw.locked hmu).1
    rintro _ _ w₃ ⟨rfl, hmu₃, he, -⟩
    have hc₃ := (hclose.trans he).closer.2 hc
    refine (ih hmu₃ hc₃ fun k' hk' => ?_).mono ?_
    · exact hleft₁ k' (he.left (hclose.closer.2 hc) k' hk')
    · rintro _ g w₄ ⟨hg, hmu₄, he₄, hnil⟩
      exact ⟨hg, hmu₄, hclose.trans (he.trans he₄), hnil⟩

structure Tears (strict : Bool) (i : Nat) (ks : List Nat) (w : State) : Prop where
  closer : w.ends.closer = some i
  left : ∀ k ∈ w.ends.left, k ∈ ks
  tended : strict = true → w.ends.Tended i none

theorem Tears.ends {ks : List Nat} (h : Tears strict i ks w) (he : w.ends.Rely i w'.ends) :
    Tears strict i ks w' :=
  ⟨he.closer.2 h.closer, fun k hk => h.left k (he.left h.closer k hk),
    fun hs => (h.tended hs).rely he⟩

theorem Tears.safe {ks : List Nat} (h : Tears strict i ks w) (hmu : w.mu = some i) :
    (spec strict).Safe i (do
      closeEach ks
      .lift .unlock : M Unit) 0 ((spec strict).Done i) w := by
  refine Spec.Safe.bind ((closeEach_safe hmu h.closer h.left).mono ?_)
  rintro _ _ w₁ ⟨rfl, hmu₁, he, hnil⟩
  refine safe_unlock hmu₁ fun w₂ he₂ _ w₃ hw₃ => ⟨rfl, fun hs => ?_⟩
  have he₃ := he₂.trans hw₃.ends
  exact ⟨(h.tended hs).rely (he.trans he₃), he₃.left_nil fun _ => hnil⟩

theorem begin_safe {flag : Bool} {p : Option (List Nat) → M α} {Q : α → Multiset Nat → State → Prop}
    (hf : (spec strict).fin i w) (hmu : w.mu = some i)
    (hnone : ∀ w', (spec strict).fin i w' → w'.mu = some i → (spec strict).Safe i (p none) 0 Q w')
    (hsome : ∀ ks w', Tears strict i ks w' → w'.mu = some i →
      (flag = true → w'.streams.shutdown = true) → (spec strict).Safe i (p (some ks)) 0 Q w') :
    (spec strict).Safe i (.op (.beginClose flag) p) 0 Q w := by
  refine safe_op rfl (fun w₁ hw _ => (hw.locked hmu).1) fun w₁ b w₂ hw ⟨r, hr⟩ _ hb => ?_
  have hf₁ : (spec strict).fin i w₁ := (spec strict).fin_rely hw hf
  simp only [Op.exec] at hb
  split at hb
  · cases List.mem_singleton.1 hb
    exact hnone w₁ hf₁ (hw.locked hmu).1
  · rename_i hclosed
    obtain ⟨ks, -, hb⟩ := List.mem_map.1 hb
    cases hb
    refine hsome ks _ ⟨rfl, fun _ hk => hk, fun hs k hk ho hne hopen => ?_⟩ (hw.locked hmu).1 ?_
    · have hleft := (hf₁ hs).tended k hk ho hne hopen
      simp [hr.ends.left (hr.closer (by simpa using hclosed))] at hleft
    · rintro rfl
      rfl

theorem unlock_safe (hf : (spec strict).fin i w) (hmu : w.mu = some i) :
    (spec strict).Safe i (.lift .unlock) 0 ((spec strict).Done i) w :=
  safe_unlock hmu fun _ he _ _ hw => ⟨rfl, fun hs => (hf hs).rely (he.trans hw.ends)⟩

theorem close_proper : (spec strict).Proper close := by
  intro i w hf
  refine safe_lock fun w₁ hw hmu => ?_
  refine begin_safe ((spec strict).fin_rely hw hf) hmu (fun w₂ hf₂ hmu₂ => ?_) fun ks w₂ h₂ hmu₂ _ => ?_
  · exact unlock_safe hf₂ hmu₂
  · exact h₂.safe hmu₂

theorem awaitInFlight_safe (hf : (spec strict).fin i w) (hs : w.streams.shutdown = true) :
    (spec strict).Safe i awaitInFlight 0 ((spec strict).Done i) w := by
  refine safe_op rfl (fun _ _ _ => trivial) fun w₁ _ w₂ hw _ _ hb => ?_
  have hs₁ := (hw.calm hs).1
  obtain ⟨hzero, rfl⟩ : w₁.streams.inFlight = 0 ∧ w₂ = w₁ := by
    simp only [Op.exec] at hb
    split at hb
    · exact ⟨‹_›, congrArg Prod.snd (List.mem_singleton.1 hb)⟩
    · cases hb
  have hcalm : ∀ w₃, Rely i w₂ w₃ → w₃.streams.shutdown = true ∧ w₃.streams.inFlight = 0 :=
    fun w₃ hw₃ => ⟨(hw₃.calm hs₁).1, (hw₃.calm hs₁).2 hzero⟩
  refine safe_op rfl (fun w₃ hw₃ _ => hcalm w₃ hw₃) fun w₃ _ w₄ hw₃ hinv _ hb w₅ hw₅ => ⟨rfl, ?_⟩
  obtain ⟨r, hr⟩ := hinv
  have hw₄ : Rely i w₃ w₄ := rely_of_exec (i := i) (o := .closeDone) hr (hcalm w₃ hw₃) hb (.inl rfl)
  exact (spec strict).fin_rely (hw.trans (hw₃.trans (hw₄.trans hw₅))) hf

theorem shutdown_proper : (spec strict).Proper shutdown := by
  intro i w hf
  refine safe_lock fun w₁ hw hmu => ?_
  refine begin_safe ((spec strict).fin_rely hw hf) hmu (fun w₂ hf₂ hmu₂ => ?_) fun ks w₂ h₂ hmu₂ hs => ?_
  · exact unlock_safe hf₂ hmu₂
  · refine safe_unlock hmu₂ fun w₃ he₃ hs₃ => ?_
    have h₃ := h₂.ends he₃
    refine ⟨0, 0, (add_zero 0).symm, fun j w₄ hw₄ hf₄ => ?_, ?_⟩
    · exact awaitInFlight_safe hf₄ (hw₄.calm (hs₃ (hs rfl))).1
    · have hselect : (spec strict).Harmless Op.select := harmless rfl rfl fun _ _ => trivial
      refine hselect.safe_op fun _ _ w₅ _ _ _ _ hw₅ => ?_
      refine safe_lock fun w₆ hw₆ hmu₆ => ?_
      exact (h₃.ends (hw₅.trans hw₆).ends).safe hmu₆

/-! `TransportStats`. -/

theorem Rely.bounds {st : Stats} (hw : Rely i w w') (hmu : w.mu = some i)
    (h : w.book.floor k ≤ st ∧ st ≤ w.book.counters k) :
    w'.book.floor k ≤ st ∧ st ≤ w'.book.counters k := by
  rw [(hw.book_eq hmu).2.2.1]
  exact ⟨h.1, h.2.trans (hw.counters k)⟩

theorem addEach_safe {ks : List Nat} (hks : ks.Nodup) (hmu : w.mu = some i) (ts : Stats) :
    (spec strict).Safe i (addEach ts ks) 0 (fun ts' g w' => g = 0 ∧ Rely i w w' ∧
      ∃ st : Nat → Stats, (∀ k ∈ ks, w'.book.floor k ≤ st k ∧ st k ≤ w'.book.counters k) ∧
        ts' = ts + (ks.map st).sum) w := by
  induction ks generalizing w ts with
  | nil => exact fun w' hw => ⟨rfl, hw, 0, nofun, by simp⟩
  | cons k ks ih =>
    obtain ⟨hk, hks⟩ := List.nodup_cons.1 hks
    refine Spec.Safe.bind ((stats_safe hmu k).mono ?_)
    rintro st₁ _ w₁ ⟨rfl, hw₁, hst₁⟩
    have hmu₁ := (hw₁.locked hmu).1
    refine (ih hks hmu₁ (ts + st₁)).mono ?_
    rintro ts' g w₂ ⟨hg, hw₂, st, hst, rfl⟩
    refine ⟨hg, hw₁.trans hw₂, Function.update st k st₁, fun k' hk' => ?_, ?_⟩
    · by_cases hne : k' = k
      · subst hne
        rw [Function.update_self]
        exact hw₂.bounds hmu₁ hst₁
      · rw [Function.update_of_ne hne]
        exact hst k' ((List.mem_cons.1 hk').resolve_left hne)
    · have hmap : ks.map (Function.update st k st₁) = ks.map st := by
        refine List.map_congr_left fun k' hk' => Function.update_of_ne ?_ ..
        rintro rfl
        exact hk hk'
      rw [List.map_cons, List.sum_cons, Function.update_self, hmap, add_assoc]

theorem transportStats_proper : (spec strict).Proper transportStats := by
  intro i w hf
  refine safe_lock fun w₁ hw hmu => ?_
  refine safe_op rfl (fun _ _ _ => trivial) fun w₂ b w₃ hw₂ ⟨r, hr⟩ _ hb => ?_
  obtain ⟨ks, hks, hb⟩ := List.mem_map.1 hb
  cases hb
  have hmu₂ := (hw₂.locked hmu).1
  have hperm := List.mem_permutations.1 hks
  have hconns : w₂.book.conns.Nodup :=
    (List.nodup_append.1 (hr.book.perm.nodup_iff.2 hr.book.nodup)).1
  dsimp only [Prog.bind_eq, Prog.ret_bind]
  refine Spec.Safe.bind ((addEach_safe (hperm.nodup_iff.2 hconns) hmu₂ _).mono ?_)
  rintro _ _ w₃ ⟨rfl, hw₃, st, hst, rfl⟩
  have hmu₃ := (hw₃.locked hmu₂).1
  refine safe_op rfl (fun w₄ hw₄ _ => ?_) fun w₄ _ w₅ hw₄ _ _ hb => ?_
  · obtain ⟨hconns₃, hclosed₃, -⟩ := hw₃.book_eq hmu₂
    obtain ⟨hconns₄, hclosed₄, -⟩ := hw₄.book_eq hmu₃
    have hperm₄ : ks.Perm w₄.book.conns := by
      rw [hconns₄, hconns₃]
      exact hperm
    refine ⟨(hw₄.locked hmu₃).1, ⟨st, fun k hk => ?_, ?_⟩, hperm₄.length_eq⟩
    · exact hw₄.bounds hmu₃ (hst k (hperm₄.mem_iff.2 hk))
    · rw [hclosed₄, hclosed₃, (hperm₄.map st).sum_eq]
  · cases List.mem_singleton.1 hb
    refine unlock_safe ?_ (hw₄.locked hmu₃).1
    exact fun hs => (hf hs).rely (hw.trans (hw₂.trans (hw₃.trans hw₄))).ends

/-! `Serve`. -/

theorem watchContext_proper : (spec strict).Proper watchContext := by
  refine .op (reads_harmless rfl).mild fun b => ?_
  cases b with
  | true => exact close_proper
  | false => exact Spec.proper_ret ()

theorem detectAndServe_proper : (spec strict).Proper (detectAndServe opts) := by
  refine .op (reads_harmless rfl).mild fun b => ?_
  cases b with
  | true => exact serveConn_proper
  | false => exact Spec.proper_ret ()

theorem examine_proper : (spec strict).Proper (examine opts) := by
  refine .op (reads_harmless rfl).mild fun n => ?_
  dsimp only [Prog.ret_bind]
  split
  · exact Spec.proper_ret ()
  · refine .fork ?_ (Spec.proper_ret ())
    split
    · exact detectAndServe_proper
    · exact serveConn_proper

theorem serve_proper (ln : Nat) : (spec strict).Proper (serve opts ln) := by
  have hlisten : (spec strict).Harmless (.listen ln) := harmless rfl rfl fun _ _ => trivial
  have hunlisten : (spec strict).Harmless (.unlisten ln) := harmless rfl rfl fun _ _ => trivial
  refine .op hlisten.mild fun b => ?_
  cases b with
  | false => exact Spec.proper_ret ()
  | true =>
    refine .fork watchContext_proper (.iter (fun _ => ?_) fun _ => ?_)
    · refine .op (reads_harmless rfl).mild fun b => ?_
      cases b with
      | true => exact examine_proper.bind fun _ => Spec.proper_ret _
      | false => exact Spec.proper_ret _
    · exact .op hunlisten.mild fun _ => Spec.proper_ret ()

theorem verifies : (spec strict).Verifies (Call.body opts) := by
  refine Spec.verifies_of_proper fun q _ _ => ?_
  cases q with
  | serve ln => exact serve_proper ln
  | close => exact close_proper
  | shutdown => exact shutdown_proper
  | transportStats => exact transportStats_proper
  | drop k => exact .op (closeConn_harmless k).mild fun _ => Spec.proper_ret ()
  | count k st =>
    have hcount : (spec strict).Harmless (.count k st) := harmless rfl rfl fun _ _ => trivial
    exact .op hcount.mild fun _ => Spec.proper_ret ()

theorem inv_init : Inv {} 0 where
  streams := ⟨rfl, rfl, nofun, nofun, nofun, nofun⟩
  book := ⟨List.nodup_nil, List.Perm.nil, rfl, nofun, fun _ => le_rfl, nofun, nofun, List.Pairwise.nil⟩
  ends := ⟨nofun, nofun, fun _ => rfl⟩
  made := nofun
  closer := fun _ => rfl

theorem fin_init (i : Nat) : (spec strict).fin i {} := fun _ =>
  ⟨fun _ hk => absurd hk (Nat.not_lt_zero _), nofun⟩

theorem inv_of_reachable {c : Config Op State}
    (hc : Reachable machine (Call.body opts) anyRun {} c) : ∃ g, Inv c.shared g :=
  Spec.inv_of_reachable (S := spec false) inv_init fin_init verifies hc

def noLimit : Listen.Options where
  maxConcurrentConnections := 0

def allRuns : Test Op State Call := ⟨fun _ _ => true, fun _ _ _ _ => true⟩

def steps (i n : Nat) : List (Event Call) := List.replicate n (.step i 0)

def started (q : Call) (i n : Nat) : List (Event Call) := .call q :: steps i n

def serveOne : List (Event Call) := started (.serve 0) 0 6

def serveEnds : List (Event Call) := [.step 0 0, .step 0 0, .step 0 0, .step 1 1]

def handingRun : Test Op State Call where
  callOk _ _ := true
  opOk i w _ o := match o with
    | .isTracked k => decide (k < w.ends.made → w.ends.owner k = i → w.ends.isOpen k = true →
        k ∈ w.ends.snapshot)
    | _ => true

/-- When `Shutdown` returns nil, every stream that was ever let in, and so every one that is ever handed
to `serveStream`, has finished; and none is let in once the flag is set. -/
theorem shutdown_drains {c : Config Op State}
    (hc : Reachable machine (Call.body opts) anyRun {} c) :
    (∀ l, c.shared.streams.drained = some l → (∀ s < c.shared.streams.admitted, s ∈ l) ∧
      ∀ p ∈ c.shared.streams.handed, p.1 ∈ l) ∧
    ∀ n, c.shared.streams.flagged = some n → c.shared.streams.admitted = n ∧
      ∀ p ∈ c.shared.streams.handed, p.1 < n := by
  obtain ⟨g, hinv⟩ := inv_of_reachable hc
  refine ⟨fun l hl => ?_, fun n hn => ?_⟩
  · have hall := (hinv.streams.drained l hl).2
    exact ⟨hall, fun p hp => hall p.1 (hinv.streams.handed p hp)⟩
  · have hadmitted := (hinv.streams.flagged n hn).2
    exact ⟨hadmitted, fun p hp => hadmitted ▸ hinv.streams.handed p hp⟩

def takeStream : List (Event Call) := steps 2 8

/-- `Shutdown` sets the flag between the section of `spawnStream` and its `go` statement. -/
theorem handed_after_flag :
    ∃ c, Reachable machine (Call.body noLimit) anyRun {} c ∧
      c.shared.streams.handed = [(0, true)] ∧ c.shared.streams.flagged = some 1 := by
  have hrun : (allRuns.run machine (Call.body noLimit) ⟨{}, []⟩ (serveOne ++ takeStream ++
      started .shutdown 3 3 ++ steps 2 1)).any (fun c =>
        decide (c.shared.streams.handed = [(0, true)] ∧ c.shared.streams.flagged = some 1)) = true := by
    decide
  obtain ⟨c, hc, h⟩ := Test.exists_reachable hrun
  exact ⟨c, hc.mono (fun _ _ _ => trivial) fun _ _ _ _ _ => trivial, of_decide_eq_true h⟩

theorem shutdown_drains_one :
    ∃ c : Config Op State, (c.shared.streams.handed = [(0, false)] ∧
      c.shared.streams.drained = some [0]) ∧ (∀ p ∈ c.shared.streams.handed, p.1 ∈ [0]) ∧
      c.shared.streams.flagged = some c.shared.streams.admitted := by
  have hrun : (allRuns.run machine (Call.body noLimit) ⟨{}, []⟩ (serveOne ++ takeStream ++
      steps 2 2 ++ started .shutdown 4 4 ++ steps 3 1 ++ steps 5 2 ++ steps 4 1)).any (fun c =>
        decide ((c.shared.streams.handed = [(0, false)] ∧ c.shared.streams.drained = some [0]) ∧
          c.shared.streams.flagged = some 1)) = true := by
    decide
  obtain ⟨c, hc, h⟩ := Test.exists_reachable hrun
  obtain ⟨hdrained, hflagged⟩ := of_decide_eq_true h
  have hall := shutdown_drains (hc.mono (fun _ _ _ => trivial) fun _ _ _ _ _ => trivial)
  exact ⟨c, hdrained, (hall.1 _ hdrained.2).2, hflagged.trans (congrArg some (hall.2 1 hflagged).1.symm)⟩

/-- Each counter of a later snapshot is at least that of an earlier one, and every connection ever
tracked is counted once in each. -/
theorem transport_stats_count_once {c : Config Op State}
    (hc : Reachable machine (Call.body opts) anyRun {} c) :
    c.shared.book.views.Pairwise (fun v v' => v.total ≤ v'.total) ∧
    ∀ v ∈ c.shared.book.views, v.CountsOnce := by
  obtain ⟨g, hinv⟩ := inv_of_reachable hc
  exact ⟨hinv.book.views, hinv.book.counts⟩

def twoViews : List (Event Call) :=
  serveOne ++ steps 2 5 ++ [.call (.count 0 fun _ => 5), .step 3 0] ++
    started .transportStats 4 11 ++ [.call (.count 0 fun _ => 7), .step 5 0] ++
    started .close 6 13 ++ started .transportStats 7 4

theorem transport_stats_of_two :
    ∃ c : Config Op State, (c.shared.book.views.map View.ever = [[0], [0]] ∧
      c.shared.book.views.map View.live = [[0], []] ∧
      c.shared.book.views.map (fun v => v.total .bytesSent) = [5, 7]) ∧
      c.shared.book.views.Pairwise (fun v v' => v.total ≤ v'.total) ∧
      ∀ v ∈ c.shared.book.views, v.CountsOnce := by
  have hrun : (allRuns.run machine (Call.body noLimit) ⟨{}, []⟩ twoViews).any (fun c =>
        decide (c.shared.book.views.map View.ever = [[0], [0]] ∧
          c.shared.book.views.map View.live = [[0], []] ∧
          c.shared.book.views.map (fun v => v.total .bytesSent) = [5, 7])) = true := by
    decide
  obtain ⟨c, hc, h⟩ := Test.exists_reachable hrun
  exact ⟨c, of_decide_eq_true h,
    transport_stats_count_once (hc.mono (fun _ _ _ => trivial) fun _ _ _ _ _ => trivial)⟩

end PoseidonServer.Server.Teardown
