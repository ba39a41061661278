import Mathlib.Logic.Basic

/-! Programs of concurrent goroutines over an arbitrary set of atomic operations.
A program is a tree of operations; a machine says what each operation does to the
shared state; a configuration is the shared state with every goroutine's remaining
program, and a schedule interleaves them one operation at a time. -/

namespace PoseidonServer.Concurrent

inductive Prog (Op : Type → Type) : Type → Type 1
  | ret : α → Prog Op α
  | op : Op β → (β → Prog Op α) → Prog Op α
  | fork : Prog Op Unit → Prog Op α → Prog Op α
  | iter : (τ → Prog Op (τ ⊕ β)) → τ → (β → Prog Op α) → Prog Op α

namespace Prog

variable {Op : Type → Type}

def bind : Prog Op α → (α → Prog Op β) → Prog Op β
  | .ret a, f => f a
  | .op o k, f => .op o fun b => (k b).bind f
  | .fork p k, f => .fork p (k.bind f)
  | .iter body t k, f => .iter body t fun b => (k b).bind f

instance : Monad (Prog Op) where
  pure := .ret
  bind := bind

def lift (o : Op α) : Prog Op α := .op o .ret

def go (p : Prog Op Unit) : Prog Op Unit := .fork p (.ret ())

/-- `for { body }`, where the body either goes round again with a new value or leaves. -/
def forever (t : τ) (body : τ → Prog Op (τ ⊕ β)) : Prog Op β := .iter body t .ret

def returned : Prog Op α → Bool
  | .ret _ => true
  | _ => false

@[simp] theorem pure_eq (a : α) : (pure a : Prog Op α) = .ret a := rfl

@[simp] theorem bind_eq (p : Prog Op α) (f : α → Prog Op β) : (p >>= f) = p.bind f := rfl

@[simp] theorem ret_bind (a : α) (f : α → Prog Op β) : (ret a).bind f = f a := rfl

@[simp] theorem op_bind (o : Op γ) (k : γ → Prog Op α) (f : α → Prog Op β) :
    (op o k).bind f = op o fun b => (k b).bind f := rfl

@[simp] theorem lift_bind (o : Op α) (f : α → Prog Op β) : (lift o).bind f = op o f := rfl

@[simp] theorem fork_bind (p : Prog Op Unit) (k : Prog Op α) (f : α → Prog Op β) :
    (fork p k).bind f = fork p (k.bind f) := rfl

@[simp] theorem go_bind (p : Prog Op Unit) (f : Unit → Prog Op β) :
    (go p).bind f = fork p (f ()) := rfl

@[simp] theorem forever_bind (t : τ) (body : τ → Prog Op (τ ⊕ α)) (f : α → Prog Op β) :
    (forever t body).bind f = iter body t f := rfl

theorem bind_ret (p : Prog Op α) : p.bind ret = p := by
  induction p with
  | ret a => rfl
  | op o k ih => exact congrArg (op o) (funext ih)
  | fork p k _ ih => exact congrArg (fork p) ih
  | iter body t k _ ih => exact congrArg (iter body t) (funext ih)

theorem bind_assoc (p : Prog Op α) (f : α → Prog Op β) (g : β → Prog Op γ) :
    (p.bind f).bind g = p.bind fun a => (f a).bind g := by
  induction p with
  | ret a => rfl
  | op o k ih => exact congrArg (op o) (funext fun b => ih b f)
  | fork p k _ ih => exact congrArg (fork p) (ih f)
  | iter body t k _ ih => exact congrArg (iter body t) (funext fun b => ih b f)

def All (P : ∀ {β : Type}, Op β → Prop) : Prog Op α → Prop
  | .ret _ => True
  | .op o k => P o ∧ ∀ b, (k b).All P
  | .fork p k => p.All P ∧ k.All P
  | .iter body _ k => (∀ t, (body t).All P) ∧ ∀ b, (k b).All P

variable {P : ∀ {β : Type}, Op β → Prop}

@[simp] theorem all_ret (a : α) : (ret a : Prog Op α).All P ↔ True := Iff.rfl

@[simp] theorem all_op (o : Op β) (k : β → Prog Op α) :
    (op o k).All P ↔ P o ∧ ∀ b, (k b).All P := Iff.rfl

@[simp] theorem all_lift (o : Op β) : (lift o).All P ↔ P o := by
  simp [lift]

@[simp] theorem all_go (p : Prog Op Unit) : (go p).All P ↔ p.All P := by
  simp [go, All]

@[simp] theorem all_forever (t : τ) (body : τ → Prog Op (τ ⊕ β)) :
    (forever t body).All P ↔ ∀ t, (body t).All P := by
  simp [forever, All]

theorem All.bind {p : Prog Op α} {f : α → Prog Op β} (hp : p.All P)
    (hf : ∀ a, (f a).All P) : (p.bind f).All P := by
  induction p with
  | ret a => exact hf a
  | op o k ih => exact ⟨hp.1, fun b => ih b (hp.2 b) hf⟩
  | fork q k _ ih => exact ⟨hp.1, ih hp.2 hf⟩
  | iter body t k _ ih => exact ⟨hp.1, fun b => ih b (hp.2 b) hf⟩

theorem All.mono {P' : ∀ {β : Type}, Op β → Prop} (h : ∀ {β} (o : Op β), P o → P' o)
    {p : Prog Op α} (hp : p.All P) : p.All P' := by
  induction p with
  | ret a => trivial
  | op o k ih => exact ⟨h o hp.1, fun b => ih b (hp.2 b)⟩
  | fork q k ihq ih => exact ⟨ihq hp.1, ih hp.2⟩
  | iter body t k ihb ih => exact ⟨fun t => ihb t (hp.1 t), fun b => ih b (hp.2 b)⟩

theorem all_of_forall (h : ∀ {β} (o : Op β), P o) (p : Prog Op α) : p.All P := by
  induction p with
  | ret a => trivial
  | op o k ih => exact ⟨h o, ih⟩
  | fork q k ihq ih => exact ⟨ihq, ih⟩
  | iter body t k ihb ih => exact ⟨ihb, ih⟩

section Returns

variable (A : ∀ {β : Type}, Op β → β → Prop)

/-- As long as every operation answers in `A`, the program returns a value in `R`. -/
def Returns : (α → Prop) → Prog Op α → Prop
  | R, .ret a => R a
  | R, .op o k => ∀ b, A o b → (k b).Returns R
  | R, .fork _ k => k.Returns R
  | R, .iter body _ k => ∃ L : _ → Prop,
      (∀ t, (body t).Returns fun r => ∀ b, r = .inr b → L b) ∧ ∀ b, L b → (k b).Returns R

variable {A}

@[simp] theorem returns_ret {R : α → Prop} (a : α) : (ret a : Prog Op α).Returns A R ↔ R a := Iff.rfl

theorem Returns.bind {R : α → Prop} {R' : β → Prop} {p : Prog Op α} {f : α → Prog Op β}
    (hp : p.Returns A R) (hf : ∀ a, R a → (f a).Returns A R') : (p.bind f).Returns A R' := by
  induction p with
  | ret a => exact hf a hp
  | op o k ih => exact fun b hb => ih b (hp b hb) hf
  | fork q k _ ih => exact ih hp hf
  | iter body t k _ ih =>
    obtain ⟨L, hbody, hk⟩ := hp
    exact ⟨L, hbody, fun b hb => ih b (hk b hb) hf⟩

theorem Returns.mono {R R' : α → Prop} {p : Prog Op α} (hp : p.Returns A R)
    (hR : ∀ a, R a → R' a) : p.Returns A R' := by
  have := hp.bind (f := ret) hR
  rwa [bind_ret] at this

theorem returns_forever {body : τ → Prog Op (τ ⊕ β)} {t : τ} {R : β → Prop}
    (h : ∀ t, (body t).Returns A fun r => ∀ b, r = .inr b → R b) :
    (forever t body).Returns A R := ⟨R, h, fun _ h => h⟩

theorem returns_true (p : Prog Op α) : p.Returns A fun _ => True := by
  induction p with
  | ret a => trivial
  | op o k ih => exact fun b _ => ih b
  | fork q k _ ih => exact ih
  | iter body t k ihb ih =>
    exact ⟨fun _ => True, fun t => (ihb t).mono fun _ _ _ _ => trivial, fun b _ => ih b⟩

/-- Only the end of a program matters for what it returns. -/
theorem returns_bind {R : β → Prop} (p : Prog Op α) {f : α → Prog Op β}
    (hf : ∀ a, (f a).Returns A R) : (p.bind f).Returns A R :=
  (returns_true p).bind fun a _ => hf a

end Returns

end Prog

/-- What each operation does when goroutine `i` runs it: the possible results with the
state after. No result means that the operation blocks. -/
structure Machine (Op : Type → Type) (σ : Type) where
  exec : Nat → {β : Type} → Op β → σ → List (β × σ)

structure Config (Op : Type → Type) (σ : Type) where
  shared : σ
  threads : List (Prog Op Unit)

/-- One choice of the scheduler: a new call, or a step of goroutine `i` with the
`pick`-th result of its next operation. -/
inductive Event (Call : Type)
  | call (c : Call)
  | step (i pick : Nat)

variable {Op : Type → Type} {σ Call : Type}

namespace Config

def next (m : Machine Op σ) (body : Call → Prog Op Unit) (c : Config Op σ) :
    Event Call → Option (Config Op σ)
  | .call q => some ⟨c.shared, c.threads ++ [body q]⟩
  | .step i pick => match c.threads[i]? with
    | some (.op o k) => match (m.exec i o c.shared)[pick]? with
      | some (b, s) => some ⟨s, c.threads.set i (k b)⟩
      | none => none
    | some (.fork p k) => some ⟨c.shared, c.threads.set i k ++ [p]⟩
    | some (.iter loop t k) => some ⟨c.shared, c.threads.set i
        ((loop t).bind fun | .inl t' => .iter loop t' k | .inr b => k b)⟩
    | _ => none

/-- One call after the other, each run for the given number of steps with its first results;
the goroutines are numbered from `i`. -/
def inTurn (i : Nat) : List (Call × Nat) → List (Event Call)
  | [] => []
  | (q, n) :: rest => .call q :: List.replicate n (.step i 0) ++ inTurn (i + 1) rest

def Quiet (c : Config Op σ) : Prop := ∀ p ∈ c.threads, p = .ret ()

def Due (c : Config Op σ) (i : Nat) (P : ∀ {β : Type}, Op β → Prop) : Prop :=
  match c.threads[i]? with
  | some (.op o _) => P o
  | some (.ret _) | none => False
  | _ => True

theorem Due.mono {c : Config Op σ} {i : Nat} {P Q : ∀ {β : Type}, Op β → Prop} (h : c.Due i P)
    (hPQ : ∀ {β} (o : Op β), P o → Q o) : c.Due i Q := by
  unfold Due at h ⊢
  split at h
  · exact hPQ _ h
  · exact h
  · exact h
  · trivial

def about (c : Config Op σ) (i : Nat) (f : ∀ {β : Type}, Op β → Option α) : Option α :=
  match c.threads[i]? with
  | some (.op o _) => f o
  | _ => none

theorem about_eq {c : Config Op σ} {i : Nat} {a : α} {f : ∀ {β : Type}, Op β → Option α}
    (h : c.about i f = some a) :
    ∃ (β : Type) (o : Op β) (k : β → Prog Op Unit), c.threads[i]? = some (.op o k) ∧ f o = some a := by
  unfold about at h
  split at h
  · exact ⟨_, _, _, by assumption, h⟩
  · cases h

theorem quiet_of_returned {c : Config Op σ} (h : c.threads.all Prog.returned = true) : c.Quiet := by
  intro p hp
  have := List.all_eq_true.1 h p hp
  cases p with
  | ret a => rfl
  | _ => cases this

end Config

/-- Which runs are considered: the calls that may start in a state, and the operations that
goroutine `i` may run in it. -/
structure Guard (Op : Type → Type) (σ Call : Type) where
  callOk : σ → Call → Prop
  opOk : Nat → σ → {β : Type} → Op β → Prop := fun _ _ _ _ => True

def Guard.Enabled (G : Guard Op σ Call) (c : Config Op σ) : Event Call → Prop
  | .call q => G.callOk c.shared q
  | .step i _ => match c.threads[i]? with
    | some (.op o _) => G.opOk i c.shared o
    | _ => True

inductive Reachable (m : Machine Op σ) (body : Call → Prog Op Unit) (G : Guard Op σ Call)
    (init : σ) : Config Op σ → Prop
  | init : Reachable m body G init ⟨init, []⟩
  | next {c e c'} : Reachable m body G init c → G.Enabled c e → c.next m body e = some c' →
      Reachable m body G init c'

inductive Runs (m : Machine Op σ) (body : Call → Prog Op Unit) (G : Guard Op σ Call)
    (c : Config Op σ) : Config Op σ → Prop
  | refl : Runs m body G c c
  | next {c₁ e c₂} : Runs m body G c c₁ → G.Enabled c₁ e → c₁.next m body e = some c₂ →
      Runs m body G c c₂

theorem Reachable.runs {m : Machine Op σ} {body : Call → Prog Op Unit} {G : Guard Op σ Call}
    {init : σ} {c c' : Config Op σ} (hc : Reachable m body G init c) (h : Runs m body G c c') :
    Reachable m body G init c' := by
  induction h with
  | refl => exact hc
  | next _ he hn ih => exact ih.next he hn

/-- A step of a run: an event that `G` allows takes one reachable configuration to the next. -/
structure Taken (m : Machine Op σ) (body : Call → Prog Op Unit) (G : Guard Op σ Call) (init : σ)
    (c : Config Op σ) (e : Event Call) (c' : Config Op σ) : Prop where
  reach : Reachable m body G init c
  enabled : G.Enabled c e
  next : c.next m body e = some c'

/-- A step of goroutine `i` leaves the shared state as it is or runs one operation. -/
theorem Guard.Enabled.step_exec {m : Machine Op σ} {body : Call → Prog Op Unit} {G : Guard Op σ Call}
    {c c' : Config Op σ} {i pick : Nat} (he : G.Enabled c (.step i pick))
    (hn : c.next m body (.step i pick) = some c') :
    c'.shared = c.shared ∨ ∃ (β : Type) (o : Op β) (b : β), G.opOk i c.shared o ∧
      (b, c'.shared) ∈ m.exec i o c.shared := by
  simp only [Config.next, Guard.Enabled] at hn he
  split at hn
  · rename_i o k hp
    simp only [hp] at he
    split at hn
    · rename_i b s hb
      cases hn
      exact .inr ⟨_, o, b, he, List.mem_of_getElem? hb⟩
    · cases hn
  · cases hn
    exact .inl rfl
  · cases hn
    exact .inl rfl
  · cases hn

theorem Guard.Enabled.exec {m : Machine Op σ} {body : Call → Prog Op Unit} {G : Guard Op σ Call}
    {c c' : Config Op σ} {e : Event Call} (he : G.Enabled c e) (hn : c.next m body e = some c') :
    c'.shared = c.shared ∨ ∃ (i : Nat) (β : Type) (o : Op β) (b : β), G.opOk i c.shared o ∧
      (b, c'.shared) ∈ m.exec i o c.shared := by
  cases e with
  | call q =>
    cases hn
    exact .inl rfl
  | step i pick => exact (he.step_exec hn).imp_right fun h => ⟨i, h⟩

theorem Taken.step_exec {m : Machine Op σ} {body : Call → Prog Op Unit} {G : Guard Op σ Call}
    {init : σ} {c c' : Config Op σ} {i pick : Nat} (h : Taken m body G init c (.step i pick) c') :
    c'.shared = c.shared ∨ ∃ (β : Type) (o : Op β) (b : β), G.opOk i c.shared o ∧
      (b, c'.shared) ∈ m.exec i o c.shared := h.enabled.step_exec h.next

theorem Taken.exec {m : Machine Op σ} {body : Call → Prog Op Unit} {G : Guard Op σ Call} {init : σ}
    {c c' : Config Op σ} {e : Event Call} (h : Taken m body G init c e c') :
    c'.shared = c.shared ∨ ∃ (i : Nat) (β : Type) (o : Op β) (b : β), G.opOk i c.shared o ∧
      (b, c'.shared) ∈ m.exec i o c.shared := h.enabled.exec h.next

theorem Taken.op_exec {m : Machine Op σ} {body : Call → Prog Op Unit} {G : Guard Op σ Call}
    {init : σ} {c c' : Config Op σ} {i pick : Nat} (h : Taken m body G init c (.step i pick) c')
    {o : Op β} {k : β → Prog Op Unit} (hi : c.threads[i]? = some (.op o k)) :
    G.opOk i c.shared o ∧ ∃ b, (b, c'.shared) ∈ m.exec i o c.shared := by
  obtain ⟨-, hok, hn⟩ := h
  simp only [Config.next, Guard.Enabled, hi] at hn hok
  refine ⟨hok, ?_⟩
  split at hn
  · rename_i b s hb
    cases hn
    exact ⟨b, List.mem_of_getElem? hb⟩
  · cases hn

theorem Guard.Enabled.mono {G G' : Guard Op σ Call} {c : Config Op σ} {e : Event Call}
    (hcall : ∀ s q, G.callOk s q → G'.callOk s q)
    (hop : ∀ i s {β} (o : Op β), G.opOk i s o → G'.opOk i s o) (h : G.Enabled c e) :
    G'.Enabled c e := by
  cases e with
  | call q => exact hcall _ _ h
  | step i pick =>
    simp only [Enabled] at h ⊢
    split at h
    · exact hop _ _ _ h
    · trivial

theorem Reachable.mono {m : Machine Op σ} {body : Call → Prog Op Unit} {G G' : Guard Op σ Call}
    {init : σ} {c : Config Op σ} (hc : Reachable m body G init c)
    (hcall : ∀ s q, G.callOk s q → G'.callOk s q)
    (hop : ∀ i s {β} (o : Op β), G.opOk i s o → G'.opOk i s o) : Reachable m body G' init c := by
  induction hc with
  | init => exact .init
  | next _ he hn ih => exact ih.next (he.mono hcall hop) hn

theorem Runs.mono {m : Machine Op σ} {body : Call → Prog Op Unit} {G G' : Guard Op σ Call}
    {c c' : Config Op σ} (h : Runs m body G c c') (hcall : ∀ s q, G.callOk s q → G'.callOk s q)
    (hop : ∀ i s {β} (o : Op β), G.opOk i s o → G'.opOk i s o) : Runs m body G' c c' := by
  induction h with
  | refl => exact .refl
  | next _ he hn ih => exact ih.next (he.mono hcall hop) hn

theorem Guard.Enabled.of_next {m : Machine Op σ} {body : Call → Prog Op Unit} {G G' : Guard Op σ Call}
    {c c' : Config Op σ} {e : Event Call} (h : G.Enabled c e) (hn : c.next m body e = some c')
    (hcall : ∀ q, G.callOk c.shared q → G'.callOk c.shared q)
    (hop : ∀ i {β} (o : Op β) b, G.opOk i c.shared o → (b, c'.shared) ∈ m.exec i o c.shared →
      G'.opOk i c.shared o) : G'.Enabled c e := by
  cases e with
  | call q => exact hcall q h
  | step i pick =>
    simp only [Guard.Enabled, Config.next] at h hn ⊢
    split
    · rename_i o k hp
      simp only [hp] at h hn
      split at hn
      · rename_i b s hb
        cases hn
        exact hop i o b h (List.mem_of_getElem? hb)
      · cases hn
    · trivial

/-- A run in which `P` holds from its first configuration on, because every step keeps it, may be
held to what the steps do where `P` holds. -/
theorem Runs.onward {m : Machine Op σ} {body : Call → Prog Op Unit} {G G' : Guard Op σ Call}
    {P : σ → Prop} {c c' : Config Op σ} (h : Runs m body G c c') (hc : P c.shared)
    (hcall : ∀ s q, G.callOk s q → G'.callOk s q)
    (hop : ∀ i s {β} (o : Op β) b s', P s → G.opOk i s o → (b, s') ∈ m.exec i o s →
      G'.opOk i s o ∧ P s') : Runs m body G' c c' ∧ P c'.shared := by
  induction h with
  | refl => exact ⟨.refl, hc⟩
  | @next c₁ e c₂ _ he hn ih =>
    refine ⟨ih.1.next (he.of_next hn (hcall _) fun i _ o b ho hb => (hop i _ o b _ ih.2 ho hb).1) hn, ?_⟩
    obtain hs | ⟨i, β, o, b, ho, hb⟩ := he.exec hn
    · rw [hs]
      exact ih.2
    · exact (hop i _ o b _ ih.2 ho hb).2

/-- A run whose last configuration satisfies `P`, which no step brings back, may be held to what the
steps do where `P` holds afterwards. -/
theorem Reachable.hitherto {m : Machine Op σ} {body : Call → Prog Op Unit} {G G' : Guard Op σ Call}
    {init : σ} {P : σ → Prop} {c : Config Op σ} (h : Reachable m body G init c) (hc : P c.shared)
    (hcall : ∀ s q, G.callOk s q → G'.callOk s q)
    (hop : ∀ i s {β} (o : Op β) b s', P s' → G.opOk i s o → (b, s') ∈ m.exec i o s →
      G'.opOk i s o ∧ P s) : Reachable m body G' init c := by
  induction h with
  | init => exact .init
  | @next c₁ e c₂ _ he hn ih =>
    refine (ih ?_).next (he.of_next hn (hcall _) fun i _ o b ho hb => (hop i _ o b _ hc ho hb).1) hn
    obtain hs | ⟨i, β, o, b, ho, hb⟩ := he.exec hn
    · rw [← hs]
      exact hc
    · exact (hop i _ o b _ hc ho hb).2

structure Test (Op : Type → Type) (σ Call : Type) where
  callOk : σ → Call → Bool
  opOk : Nat → σ → {β : Type} → Op β → Bool := fun _ _ _ _ => true

namespace Test

def guard (T : Test Op σ Call) : Guard Op σ Call where
  callOk s q := T.callOk s q = true
  opOk i s _ o := T.opOk i s o = true

def enabled (T : Test Op σ Call) (c : Config Op σ) : Event Call → Bool
  | .call q => T.callOk c.shared q
  | .step i _ => match c.threads[i]? with
    | some (.op o _) => T.opOk i c.shared o
    | _ => true

theorem guard_enabled {T : Test Op σ Call} {c : Config Op σ} {e : Event Call}
    (h : T.enabled c e = true) : T.guard.Enabled c e := by
  cases e with
  | call q => exact h
  | step i pick =>
    simp only [Guard.Enabled, enabled] at h ⊢
    split
    · rename_i hp
      rw [hp] at h
      exact h
    · trivial

def run (T : Test Op σ Call) (m : Machine Op σ) (body : Call → Prog Op Unit) :
    Config Op σ → List (Event Call) → Option (Config Op σ)
  | c, [] => some c
  | c, e :: es => if T.enabled c e then match c.next m body e with
      | some c' => run T m body c' es
      | none => none
    else none

theorem runs_of_run {T : Test Op σ Call} {m : Machine Op σ} {body : Call → Prog Op Unit}
    {es : List (Event Call)} {c₀ c c' : Config Op σ} (hc : Runs m body T.guard c₀ c)
    (h : T.run m body c es = some c') : Runs m body T.guard c₀ c' := by
  induction es generalizing c with
  | nil =>
    cases h
    exact hc
  | cons e es ih =>
    simp only [run] at h
    split at h
    · split at h
      · exact ih (hc.next (guard_enabled ‹_›) ‹_›) h
      · cases h
    · cases h

theorem reachable_of_run {T : Test Op σ Call} {m : Machine Op σ} {body : Call → Prog Op Unit}
    {init : σ} {es : List (Event Call)} {c c' : Config Op σ}
    (hc : Reachable m body T.guard init c) (h : T.run m body c es = some c') :
    Reachable m body T.guard init c' :=
  hc.runs (runs_of_run .refl h)

theorem exists_reachable {T : Test Op σ Call} {m : Machine Op σ} {body : Call → Prog Op Unit}
    {init : σ} {es : List (Event Call)} {p : Config Op σ → Bool}
    (h : (T.run m body ⟨init, []⟩ es).any p = true) :
    ∃ c, Reachable m body T.guard init c ∧ p c = true := by
  obtain ⟨c, hc, hp⟩ := (Option.any_eq_true _ _).1 h
  exact ⟨c, reachable_of_run .init hc, hp⟩

end Test

end PoseidonServer.Concurrent
