import Mathlib.Data.List.Permutation
import PoseidonServer.Assoc
import PoseidonServer.Concurrent.Logic
import PoseidonServer.HttpFields

/-! The health service: `SetServingStatus`, `Shutdown` and the watchers of `grpcserver/health.go`. -/

namespace PoseidonServer.Grpc.Health

open Concurrent

abbrev ServingStatus := Int

def notServing : ServingStatus := 2
def serviceUnknown : ServingStatus := 3

def bufferSize : Nat := 4

/-- Where a watcher stands: it has yet to read the first status, has a status in hand that it has
still to send, has sent all it had in hand, or has failed to send. -/
inductive Phase
  | starting
  | holding (s : ServingStatus)
  | waiting
  | failed
  deriving DecidableEq

/-- A watcher's channel, and a history of its watcher: the goroutine, the service, where it stands and
what it has sent. -/
structure Chan where
  buf : List ServingStatus := []
  closed : Bool := false
  -- history
  owner : Nat
  service : Bytes
  phase : Phase := .starting
  sent : List ServingStatus := []

structure State where
  mu : Option Nat := none
  status : List (Bytes × ServingStatus) := []
  watchers : List (Bytes × Nat) := []
  made : Nat := 0
  chan : Nat → Chan := fun _ => { owner := 0, service := [] }
  panicked : Bool := false
  -- history: the channels that the call in progress has still to reach
  due : List Nat := []

namespace State

variable (w : State)

def watchersOf (service : Bytes) : List Nat :=
  (w.watchers.filter (·.1 = service)).map (·.2)

def statusOf (service : Bytes) : ServingStatus := (Assoc.get w.status service).getD serviceUnknown

def setChan (ch : Nat) (c : Chan) : State := { w with chan := Function.update w.chan ch c }

end State

/-- The atomic steps. A section under `h.mu` is one step; `SetServingStatus` holds it across the
sends to the watchers. -/
inductive Op : Type → Type
  | lock : Op Unit
  | unlock : Op Unit
  /-- `h.status[service] = status`, and the channels that are ranged over. -/
  | setStatus (service : Bytes) (status : ServingStatus) : Op (List Nat)
  /-- The `select` with a default. -/
  | trySend (ch : Nat) (status : ServingStatus) : Op Unit
  | services : Op (List Bytes)
  | subscribe (service : Bytes) : Op Nat
  | unsubscribe (service : Bytes) (ch : Nat) : Op Unit
  | readStatus (service : Bytes) (ch : Nat) : Op ServingStatus
  /-- `send(encodeHealthCheckResponse(s))` of the watcher of `ch`. -/
  | send (ch : Nat) (status : ServingStatus) : Op Bool
  /-- The `select` of the watcher: nothing when the context is done or the channel is closed. -/
  | receive (ch : Nat) : Op (Option ServingStatus)

namespace Op

variable (i : Nat) (w : State)

def underMu (r : List (β × State)) : List (β × State) := if w.mu = none then r else []

def exec : Op β → List (β × State)
  | .lock => underMu w [((), { w with mu := some i })]
  | .unlock => [((), { w with mu := none })]
  | .setStatus service status =>
    [(w.watchersOf service, { w with
      status := (service, status) :: w.status.filter (·.1 ≠ service)
      due := w.watchersOf service })]
  | .trySend ch status =>
    let c := w.chan ch
    let w := { w with due := w.due.filter (· ≠ ch) }
    [((), if c.closed then { w with panicked := true }
      else if c.buf.length < bufferSize then w.setChan ch { c with buf := c.buf ++ [status] }
      else w)]
  | .services => underMu w ((w.status.map (·.1)).permutations.map fun l => (l, w))
  | .subscribe service => underMu w [(w.made, { w with
      watchers := w.watchers ++ [(service, w.made)]
      made := w.made + 1
      chan := Function.update w.chan w.made { owner := i, service } })]
  | .unsubscribe service ch => underMu w
      [((), if (service, ch) ∈ w.watchers then
          { w with watchers := w.watchers.erase (service, ch) }.setChan ch
            { w.chan ch with closed := true }
        else w)]
  | .readStatus service ch => underMu w
      [(w.statusOf service, w.setChan ch { w.chan ch with phase := .holding (w.statusOf service) })]
  | .send ch status =>
    [(true, w.setChan ch
        { w.chan ch with phase := .waiting, sent := (w.chan ch).sent ++ [status] }),
      (false, w.setChan ch { w.chan ch with phase := .failed })]
  | .receive ch => (none, w) :: match (w.chan ch).buf with
    | [] => []
    | s :: buf => [(some s, w.setChan ch { w.chan ch with buf, phase := .holding s })]

end Op

abbrev machine : Machine Op State where
  exec i _ o w := o.exec i w

abbrev M := Prog Op

def sendEach (status : ServingStatus) : List Nat → M Unit
  | [] => pure ()
  | ch :: chs => do
    .lift (.trySend ch status)
    sendEach status chs

def setServingStatus (service : Bytes) (status : ServingStatus) : M Unit := do
  .lift .lock
  let chs ← .lift (.setStatus service status)
  sendEach status chs
  .lift .unlock

def setEach : List Bytes → M Unit
  | [] => pure ()
  | service :: services => do
    setServingStatus service notServing
    setEach services

def shutdown : M Unit := do
  setEach (← .lift .services)

def watch (service : Bytes) : M Unit := do
  let ch ← .lift (.subscribe service)
  let status ← .lift (.readStatus service ch)
  if ← .lift (.send ch status) then
    .forever () fun _ => do
      match ← .lift (.receive ch) with
      | none => pure (.inr ())
      | some status => if ← .lift (.send ch status) then pure (.inl ()) else pure (.inr ())
  .lift (.unsubscribe service ch)

inductive Call
  | setServingStatus (service : Bytes) (status : ServingStatus)
  | shutdown
  | watch (service : Bytes)
  deriving DecidableEq

def Call.body : Call → M Unit
  | .setServingStatus service status => Health.setServingStatus service status
  | .shutdown => Health.shutdown
  | .watch service => Health.watch service

def anyRun : Guard Op State Call := ⟨fun _ _ => True, fun _ _ _ _ => True⟩

/-- A status is not dropped for a watcher that has another one last in its channel. -/
def keepsLatest : Guard Op State Call where
  callOk _ _ := True
  opOk _ w _ o := match o with
    | .trySend ch status => (w.chan ch).buf.length < bufferSize ∨
        (w.chan ch).buf.getLast? = some status
    | _ => True

/-- The last status that a watcher has sent, has in hand or has in its channel. -/
def Settled (c : Chan) (status : ServingStatus) : Prop :=
  match c.phase with
  | .starting => c.buf = [] ∨ c.buf.getLast? = some status
  | .holding s => (s :: c.buf).getLast? = some status
  | .waiting => (c.sent ++ c.buf).getLast? = some status
  | .failed => True

structure Inv (strict : Bool) (w : State) : Prop where
  nodup : (w.watchers.map (·.2)).Nodup
  made : ∀ p ∈ w.watchers, p.2 < w.made
  service : ∀ p ∈ w.watchers, (w.chan p.2).service = p.1
  opened : ∀ p ∈ w.watchers, (w.chan p.2).closed = false
  calm : w.panicked = false
  idle : w.mu = none → w.due = []
  settled : strict = true → ∀ p ∈ w.watchers, p.2 ∉ w.due → Settled (w.chan p.2) (w.statusOf p.1)

structure Owns (i ch : Nat) (service : Bytes) (phase : Phase) (w : State) : Prop where
  made : ch < w.made
  owner : (w.chan ch).owner = i
  service : (w.chan ch).service = service
  phase : (w.chan ch).phase = phase

structure Rely (i : Nat) (w w' : State) : Prop where
  locked : w.mu = some i → w'.mu = some i ∧ w'.status = w.status ∧ w'.watchers = w.watchers ∧
    w'.due = w.due
  owns : ∀ ch service phase, Owns i ch service phase w → Owns i ch service phase w'

def Pre (i : Nat) (w : State) : Op β → Prop
  | .unlock => w.mu = some i ∧ w.due = []
  | .setStatus _ _ => w.mu = some i ∧ w.due = []
  | .trySend ch status => w.mu = some i ∧ ∃ service, (service, ch) ∈ w.watchers ∧
      w.statusOf service = status
  | .readStatus service ch => Owns i ch service .starting w
  | .send ch status => ∃ service, Owns i ch service (.holding status) w
  | .receive ch => ∃ service, Owns i ch service .waiting w
  | _ => True

variable {i j ch : Nat} {w w' : State} {strict : Bool}

theorem mem_underMu {x : β × State} {r : List (β × State)} :
    x ∈ Op.underMu w r ↔ w.mu = none ∧ x ∈ r := by
  unfold Op.underMu
  split <;> simp_all

@[simp] theorem setChan_self (c : Chan) : (w.setChan ch c).chan ch = c := Function.update_self ..

theorem setChan_of_ne (c : Chan) {ch' : Nat} (h : ch' ≠ ch) : (w.setChan ch c).chan ch' = w.chan ch' :=
  Function.update_of_ne h ..

theorem Inv.setChan {c : Chan} (h : Inv strict w) (hservice : c.service = (w.chan ch).service)
    (hclosed : c.closed = (w.chan ch).closed)
    (hset : ∀ service, (service, ch) ∈ w.watchers → ch ∉ w.due →
      Settled (w.chan ch) (w.statusOf service) → Settled c (w.statusOf service)) :
    Inv strict (w.setChan ch c) := by
  have hcases : ∀ p ∈ w.watchers, (w.setChan ch c).chan p.2 = w.chan p.2 ∨
      p.2 = ch ∧ (w.setChan ch c).chan p.2 = c := by
    intro p _
    by_cases hp : p.2 = ch
    · exact .inr ⟨hp, by rw [hp, setChan_self]⟩
    · exact .inl (setChan_of_ne c hp)
  refine ⟨h.nodup, h.made, fun p hp => ?_, fun p hp => ?_, h.calm, h.idle, fun hs p hp hdue => ?_⟩
  · rcases hcases p hp with hc | ⟨rfl, hc⟩
    · rw [hc]
      exact h.service p hp
    · rw [hc, hservice]
      exact h.service p hp
  · rcases hcases p hp with hc | ⟨rfl, hc⟩
    · rw [hc]
      exact h.opened p hp
    · rw [hc, hclosed]
      exact h.opened p hp
  · rcases hcases p hp with hc | ⟨rfl, hc⟩
    · rw [hc]
      exact h.settled hs p hp hdue
    · rw [hc]
      exact hset p.1 hp hdue (h.settled hs p hp hdue)

theorem Rely.refl (i : Nat) (w : State) : Rely i w w :=
  ⟨fun h => ⟨h, rfl, rfl, rfl⟩, fun _ _ _ h => h⟩

theorem Rely.trans {w'' : State} (h : Rely i w w') (h' : Rely i w' w'') : Rely i w w'' := by
  refine ⟨fun hmu => ?_, fun ch service phase ho => h'.owns _ _ _ (h.owns _ _ _ ho)⟩
  obtain ⟨hmu', hstatus, hwatchers, hdue⟩ := h.locked hmu
  obtain ⟨hmu'', hstatus', hwatchers', hdue'⟩ := h'.locked hmu'
  exact ⟨hmu'', hstatus'.trans hstatus, hwatchers'.trans hwatchers, hdue'.trans hdue⟩

theorem rely_setChan {c : Chan} (h : (w.chan ch).owner ≠ j ∨ (c.owner = (w.chan ch).owner ∧
    c.service = (w.chan ch).service ∧ c.phase = (w.chan ch).phase)) : Rely j w (w.setChan ch c) := by
  refine ⟨fun hmu => ⟨hmu, rfl, rfl, rfl⟩, fun ch' service phase ho => ?_⟩
  by_cases hch : ch' = ch
  · subst hch
    obtain h | ⟨howner, hservice, hphase⟩ := h
    · exact absurd ho.owner h
    · refine ⟨ho.made, ?_, ?_, ?_⟩ <;> rw [setChan_self]
      · exact howner.trans ho.owner
      · exact hservice.trans ho.service
      · exact hphase.trans ho.phase
  · refine ⟨ho.made, ?_, ?_, ?_⟩ <;> rw [setChan_of_ne c hch]
    · exact ho.owner
    · exact ho.service
    · exact ho.phase

theorem rely_locked (hmu : w.mu ≠ some j) (hmade : w'.made = w.made) (hchan : w'.chan = w.chan) :
    Rely j w w' := by
  refine ⟨fun h => absurd h hmu, fun ch service phase ho => ?_⟩
  exact ⟨hmade ▸ ho.made, hchan ▸ ho.owner, hchan ▸ ho.service, hchan ▸ ho.phase⟩

theorem rely_of_exec {o : Op β} {b : β} (hpre : Pre i w o) (hb : (b, w') ∈ o.exec i w) (hj : j ≠ i) :
    Rely j w w' := by
  have hother : ∀ {ch service phase}, Owns i ch service phase w → (w.chan ch).owner ≠ j :=
    fun ho h => hj (h.symm.trans ho.owner)
  cases o with
  | lock =>
    obtain ⟨hmu, hb⟩ := mem_underMu.1 hb
    cases List.mem_singleton.1 hb
    exact rely_locked (by simp [hmu]) rfl rfl
  | unlock =>
    cases List.mem_singleton.1 hb
    exact rely_locked (by simp [hpre.1, hj.symm]) rfl rfl
  | setStatus service status =>
    cases List.mem_singleton.1 hb
    exact rely_locked (by simp [hpre.1, hj.symm]) rfl rfl
  | trySend ch status =>
    have hlocked : Rely j w { w with due := w.due.filter (· ≠ ch) } :=
      rely_locked (by simp [hpre.1, hj.symm]) rfl rfl
    cases List.mem_singleton.1 hb
    split
    · exact rely_locked (by simp [hpre.1, hj.symm]) rfl rfl
    split
    · exact hlocked.trans (rely_setChan (.inr ⟨rfl, rfl, rfl⟩))
    · exact hlocked
  | services =>
    obtain ⟨-, hb⟩ := mem_underMu.1 hb
    obtain ⟨l, -, hl⟩ := List.mem_map.1 hb
    cases hl
    exact .refl j w
  | subscribe service =>
    obtain ⟨hmu, hb⟩ := mem_underMu.1 hb
    cases List.mem_singleton.1 hb
    refine ⟨fun h => by simp [hmu] at h, fun ch service phase ho => ?_⟩
    have hne : ch ≠ w.made := ho.made.ne
    refine ⟨ho.made.trans (Nat.lt_succ_self _), ?_, ?_, ?_⟩ <;> simp only [Function.update_of_ne hne]
    · exact ho.owner
    · exact ho.service
    · exact ho.phase
  | unsubscribe service ch =>
    obtain ⟨hmu, hb⟩ := mem_underMu.1 hb
    cases List.mem_singleton.1 hb
    split
    · have hlocked : Rely j w { w with watchers := w.watchers.erase (service, ch) } :=
        rely_locked (by simp [hmu]) rfl rfl
      exact hlocked.trans (rely_setChan (.inr ⟨rfl, rfl, rfl⟩))
    · exact .refl j w
  | readStatus service ch =>
    obtain ⟨hmu, hb⟩ := mem_underMu.1 hb
    cases List.mem_singleton.1 hb
    exact rely_setChan (.inl (hother hpre))
  | send ch status =>
    obtain ⟨service, ho⟩ := hpre
    simp only [Op.exec, List.mem_cons, List.not_mem_nil, or_false] at hb
    rcases hb with hb | hb <;> cases hb <;> exact rely_setChan (.inl (hother ho))
  | receive ch =>
    obtain ⟨service, ho⟩ := hpre
    rw [Op.exec, List.mem_cons] at hb
    rcases hb with hb | hb
    · cases hb
      exact .refl j w
    · split at hb
      · cases hb
      · cases List.mem_singleton.1 hb
        exact rely_setChan (.inl (hother ho))

theorem mem_watchersOf {service : Bytes} : ch ∈ w.watchersOf service ↔ (service, ch) ∈ w.watchers := by
  simp [State.watchersOf]

theorem Inv.service_eq (h : Inv strict w) {service service' : Bytes} (hp : (service, ch) ∈ w.watchers)
    (hp' : (service', ch) ∈ w.watchers) : service = service' :=
  (h.service _ hp).symm.trans (h.service _ hp')

theorem Inv.setStatus (h : Inv strict w) (hmu : w.mu = some i) (hdue : w.due = []) (service : Bytes)
    (status : ServingStatus) : Inv strict { w with
      status := (service, status) :: w.status.filter (·.1 ≠ service)
      due := w.watchersOf service } := by
  refine ⟨h.nodup, h.made, h.service, h.opened, h.calm, fun hnone => ?_, fun hs p hp hreach => ?_⟩
  · rw [show w.mu = none from hnone] at hmu
    cases hmu
  · have hne : p.1 ≠ service := by
      rintro rfl
      exact hreach (mem_watchersOf.2 hp)
    have hget : Assoc.get ((service, status) :: w.status.filter (·.1 ≠ service)) p.1 =
        Assoc.get w.status p.1 := by
      rw [Assoc.get_cons, if_neg (Ne.symm hne), Assoc.get, Assoc.get, List.find?_filter]
      congr 2
      funext e
      by_cases he : e.1 = p.1 <;> simp [he, hne]
    have hsettled := h.settled hs p hp (by simp [hdue])
    rw [State.statusOf] at hsettled ⊢
    rwa [hget]

theorem settled_of_last {c : Chan} {status : ServingStatus} (h : c.buf.getLast? = some status) :
    Settled c status := by
  unfold Settled
  split
  · exact .inr h
  · rw [List.getLast?_cons, h]
    rfl
  · rw [List.getLast?_append, h]
    rfl
  · trivial

theorem Inv.reached {c : Chan} (h : Inv strict w) (hmu : w.mu = some i) {service : Bytes}
    (hp : (service, ch) ∈ w.watchers) (hservice : c.service = (w.chan ch).service)
    (hclosed : c.closed = (w.chan ch).closed) (hset : strict = true → Settled c (w.statusOf service)) :
    Inv strict ({ w with due := w.due.filter (· ≠ ch) }.setChan ch c) := by
  refine ⟨h.nodup, h.made, fun p hp => ?_, fun p hp => ?_, h.calm, fun hnone => ?_, fun hs p hp' hdue => ?_⟩
  · by_cases hch : p.2 = ch
    · rw [hch, setChan_self, hservice, ← hch]
      exact h.service p hp
    · rw [setChan_of_ne c hch]
      exact h.service p hp
  · by_cases hch : p.2 = ch
    · rw [hch, setChan_self, hclosed, ← hch]
      exact h.opened p hp
    · rw [setChan_of_ne c hch]
      exact h.opened p hp
  · rw [show w.mu = none from hnone] at hmu
    cases hmu
  · by_cases hch : p.2 = ch
    · have hp'' : (p.1, ch) ∈ w.watchers := hch ▸ hp'
      rw [hch, setChan_self, h.service_eq hp'' hp]
      exact hset hs
    · rw [setChan_of_ne c hch]
      refine h.settled hs p hp' fun hmem => hdue ?_
      exact List.mem_filter.2 ⟨hmem, by simpa using hch⟩

theorem Inv.trySend (h : Inv strict w) (hmu : w.mu = some i) {service : Bytes} {status : ServingStatus}
    (hp : (service, ch) ∈ w.watchers) (hstatus : w.statusOf service = status)
    (hroom : strict = true → (w.chan ch).buf.length < bufferSize ∨
      (w.chan ch).buf.getLast? = some status) (hb : ((), w') ∈ (Op.trySend ch status).exec i w) :
    Inv strict w' := by
  have hopen : (w.chan ch).closed = false := h.opened _ hp
  cases List.mem_singleton.1 hb
  rw [if_neg (by simp [hopen])]
  split
  · refine h.reached hmu hp rfl rfl fun _ => ?_
    rw [hstatus]
    exact settled_of_last (by simp)
  · rename_i hfull
    have hsame : ({ w with due := w.due.filter (· ≠ ch) } : State) =
        { w with due := w.due.filter (· ≠ ch) }.setChan ch (w.chan ch) := by
      simp [State.setChan]
    rw [hsame]
    refine h.reached hmu hp rfl rfl fun hs => ?_
    rw [hstatus]
    exact settled_of_last ((hroom hs).resolve_left hfull)

theorem Inv.subscribe (h : Inv strict w) (service : Bytes) :
    Inv strict { w with
      watchers := w.watchers ++ [(service, w.made)]
      made := w.made + 1
      chan := Function.update w.chan w.made { owner := i, service } } := by
  have hold : ∀ p ∈ w.watchers,
      Function.update w.chan w.made { owner := i, service } p.2 = w.chan p.2 :=
    fun p hp => Function.update_of_ne (h.made p hp).ne ..
  refine ⟨?_, ?_, ?_, ?_, h.calm, h.idle, fun hs => ?_⟩ <;> dsimp only
  · rw [List.map_append, List.nodup_append]
    refine ⟨h.nodup, by simp, fun a ha b hb => ?_⟩
    obtain ⟨p, hp, rfl⟩ := List.mem_map.1 ha
    cases List.mem_singleton.1 hb
    exact (h.made p hp).ne
  · refine List.forall_mem_append.2 ⟨fun p hp => (h.made p hp).trans (Nat.lt_succ_self _), ?_⟩
    simp
  · refine List.forall_mem_append.2 ⟨fun p hp => ?_, ?_⟩
    · rw [hold p hp]
      exact h.service p hp
    · simp
  · refine List.forall_mem_append.2 ⟨fun p hp => ?_, ?_⟩
    · rw [hold p hp]
      exact h.opened p hp
    · simp
  · refine List.forall_mem_append.2 ⟨fun p hp hdue => ?_, ?_⟩
    · rw [hold p hp]
      exact h.settled hs p hp hdue
    · simp [Settled]

theorem Inv.unsubscribe (h : Inv strict w) {service : Bytes} (hp : (service, ch) ∈ w.watchers) :
    Inv strict ({ w with watchers := w.watchers.erase (service, ch) }.setChan ch
      { w.chan ch with closed := true }) := by
  have hkept : ∀ p ∈ w.watchers.erase (service, ch), p ∈ w.watchers ∧ p.2 ≠ ch := by
    intro p hmem
    have hmem' := List.mem_of_mem_erase hmem
    refine ⟨hmem', fun hch => ?_⟩
    have hp' : (p.1, ch) ∈ w.watchers := hch ▸ hmem'
    have heq : p = (service, ch) := Prod.ext (h.service_eq hp' hp) hch
    rw [heq] at hmem
    exact ((List.Nodup.of_map _ h.nodup).mem_erase_iff.1 hmem).1 rfl
  refine ⟨h.nodup.sublist (List.erase_sublist.map _), fun p hp => h.made p (hkept p hp).1, fun p hp => ?_,
    fun p hp => ?_, h.calm, h.idle, fun hs p hp hdue => ?_⟩
  all_goals
    obtain ⟨hmem, hch⟩ := hkept p hp
    rw [setChan_of_ne _ hch]
  · exact h.service p hmem
  · exact h.opened p hmem
  · exact h.settled hs p hmem hdue

def guardOf (strict : Bool) : Guard Op State Call := if strict then keepsLatest else anyRun

theorem inv_of_exec {o : Op β} {b : β} (h : Inv strict w) (hok : (guardOf strict).opOk i w o)
    (hpre : Pre i w o) (hb : (b, w') ∈ o.exec i w) : Inv strict w' := by
  cases o with
  | lock =>
    obtain ⟨hmu, hb⟩ := mem_underMu.1 hb
    cases List.mem_singleton.1 hb
    exact ⟨h.nodup, h.made, h.service, h.opened, h.calm, nofun, h.settled⟩
  | unlock =>
    cases List.mem_singleton.1 hb
    exact ⟨h.nodup, h.made, h.service, h.opened, h.calm, fun _ => hpre.2, h.settled⟩
  | setStatus service status =>
    cases List.mem_singleton.1 hb
    exact h.setStatus hpre.1 hpre.2 service status
  | trySend ch status =>
    obtain ⟨hmu, service, hp, hstatus⟩ := hpre
    refine h.trySend hmu hp hstatus (fun hs => ?_) hb
    rw [hs] at hok
    exact hok
  | services =>
    obtain ⟨-, hb⟩ := mem_underMu.1 hb
    obtain ⟨l, -, hl⟩ := List.mem_map.1 hb
    cases hl
    exact h
  | subscribe service =>
    obtain ⟨-, hb⟩ := mem_underMu.1 hb
    cases List.mem_singleton.1 hb
    exact h.subscribe service
  | unsubscribe service ch =>
    obtain ⟨-, hb⟩ := mem_underMu.1 hb
    cases List.mem_singleton.1 hb
    split
    · exact h.unsubscribe (by assumption)
    · exact h
  | readStatus service ch =>
    obtain ⟨-, hb⟩ := mem_underMu.1 hb
    cases List.mem_singleton.1 hb
    refine h.setChan rfl rfl fun service' hp hdue hsettled => ?_
    have hservice : service' = service := (h.service _ hp).symm.trans hpre.service
    rw [hservice] at hsettled ⊢
    simp only [Settled, hpre.phase] at hsettled ⊢
    rw [List.getLast?_cons]
    rcases hsettled with hnil | hlast
    · rw [hnil]
      rfl
    · rw [hlast]
      rfl
  | send ch status =>
    obtain ⟨service, ho⟩ := hpre
    simp only [Op.exec, List.mem_cons, List.not_mem_nil, or_false] at hb
    rcases hb with hb | hb <;> cases hb
    · refine h.setChan rfl rfl fun service' hp hdue hsettled => ?_
      simp only [Settled, ho.phase] at hsettled ⊢
      rw [List.append_assoc, List.getLast?_append_of_ne_nil _ (by simp)]
      exact hsettled
    · exact h.setChan rfl rfl fun _ _ _ _ => trivial
  | receive ch =>
    obtain ⟨service, ho⟩ := hpre
    rw [Op.exec, List.mem_cons] at hb
    rcases hb with hb | hb
    · cases hb
      exact h
    · split at hb
      · cases hb
      · rename_i s buf hbuf
        cases List.mem_singleton.1 hb
        refine h.setChan rfl rfl fun service' hp hdue hsettled => ?_
        simp only [Settled, ho.phase, hbuf] at hsettled ⊢
        rwa [List.getLast?_append_of_ne_nil _ (by simp)] at hsettled

def spec (strict : Bool) : Spec machine (guardOf strict) PUnit where
  inv w _ := Inv strict w
  rely := Rely
  rely_refl := Rely.refl
  rely_trans := Rely.trans
  pre i w _ o := Pre i w o

theorem safe_op {o : Op β} {k : β → M α} {Q : α → PUnit → State → Prop}
    (hpre : ∀ w₁, Rely i w w₁ → Inv strict w₁ → Pre i w₁ o)
    (hk : ∀ w₁ b w₂, Rely i w w₁ → Inv strict w₁ → (b, w₂) ∈ o.exec i w₁ →
      (spec strict).Safe i (k b) 0 Q w₂) : (spec strict).Safe i (.op o k) 0 Q w := by
  rintro w₁ hw ⟨r, hinv : Inv strict w₁⟩ hok
  refine ⟨hpre w₁ hw hinv, fun b w₂ hb => ?_⟩
  exact ⟨0, fun _ h => inv_of_exec h hok (hpre w₁ hw hinv) hb,
    fun j hj => rely_of_exec (hpre w₁ hw hinv) hb hj, hk w₁ b w₂ hw hinv hb⟩

structure Sending (i : Nat) (service : Bytes) (status : ServingStatus) (chs : List Nat) (w : State) :
    Prop where
  mu : w.mu = some i
  status : w.statusOf service = status
  due : ∀ ch ∈ w.due, ch ∈ chs
  watchers : ∀ ch ∈ chs, (service, ch) ∈ w.watchers

theorem Sending.rely {service : Bytes} {status : ServingStatus} {chs : List Nat}
    (h : Sending i service status chs w) (hw : Rely i w w') : Sending i service status chs w' := by
  obtain ⟨hmu, hstatus, hwatchers, hdue⟩ := hw.locked h.mu
  exact ⟨hmu, by rw [State.statusOf, hstatus]; exact h.status, hdue ▸ h.due, hwatchers ▸ h.watchers⟩

theorem sendEach_safe {service : Bytes} {status : ServingStatus} {chs : List Nat}
    (h : Sending i service status chs w) :
    (spec strict).Safe i (sendEach status chs) 0
      (fun _ g w => g = 0 ∧ Sending i service status [] w) w := by
  induction chs generalizing w with
  | nil => exact fun w' hw => ⟨rfl, h.rely hw⟩
  | cons ch chs ih =>
    refine safe_op (fun w₁ hw _ => ?_) fun w₁ _ w₂ hw _ hb => ih ?_
    · have h₁ := h.rely hw
      exact ⟨h₁.mu, service, h₁.watchers ch List.mem_cons_self, h₁.status⟩
    · have h₁ := h.rely hw
      have hdue : ∀ c ∈ w₁.due.filter (· ≠ ch), c ∈ chs := by
        intro c hc
        obtain ⟨hc, hne⟩ := List.mem_filter.1 hc
        exact (List.mem_cons.1 (h₁.due c hc)).resolve_left (by simpa using hne)
      have hrest := fun c hc => h₁.watchers c (List.mem_cons_of_mem ch hc)
      cases List.mem_singleton.1 hb
      split
      · exact ⟨h₁.mu, h₁.status, hdue, hrest⟩
      split
      · exact ⟨h₁.mu, h₁.status, hdue, hrest⟩
      · exact ⟨h₁.mu, h₁.status, hdue, hrest⟩

theorem setServingStatus_proper (service : Bytes) (status : ServingStatus) :
    (spec strict).Proper (setServingStatus service status) := by
  intro i w _
  refine safe_op (fun _ _ _ => trivial) fun w₁ _ w₂ _ hinv hb => ?_
  obtain ⟨hmu, hb⟩ := mem_underMu.1 hb
  have hdue := hinv.idle hmu
  cases List.mem_singleton.1 hb
  have hlocked : ∀ w₃, Rely i { w₁ with mu := some i } w₃ → w₃.mu = some i ∧ w₃.due = [] := by
    intro w₃ hw
    obtain ⟨hmu, -, -, hdue'⟩ := hw.locked rfl
    exact ⟨hmu, hdue'.trans hdue⟩
  refine safe_op (fun w₃ hw _ => hlocked w₃ hw) fun w₃ chs w₄ hw _ hb => ?_
  cases List.mem_singleton.1 hb
  have hsending : Sending i service status (w₃.watchersOf service) { w₃ with
      status := (service, status) :: w₃.status.filter (·.1 ≠ service)
      due := w₃.watchersOf service } := by
    refine ⟨(hlocked w₃ hw).1, ?_, fun _ h => h, fun ch hch => mem_watchersOf.1 hch⟩
    simp [State.statusOf, Assoc.get_cons]
  dsimp only [Prog.bind_eq, Prog.ret_bind]
  refine Spec.Safe.bind ((sendEach_safe hsending).mono ?_)
  rintro _ g w₅ ⟨rfl, h₅⟩
  refine safe_op (fun w₆ hw _ => ?_) fun w₆ _ w₇ _ _ _ => fun _ _ => ⟨rfl, trivial⟩
  have h₆ := h₅.rely hw
  exact ⟨h₆.mu, List.eq_nil_iff_forall_not_mem.2 fun c hc => by cases h₆.due c hc⟩

theorem setEach_proper (services : List Bytes) : (spec strict).Proper (setEach services) := by
  induction services with
  | nil => exact Spec.proper_ret ()
  | cons service services ih => exact (setServingStatus_proper _ _).bind fun _ => ih

theorem shutdown_proper : (spec strict).Proper shutdown := by
  intro i w hf
  exact safe_op (fun _ _ _ => trivial) fun w₁ services w₂ _ _ _ => setEach_proper services i w₂ hf

theorem send_safe (service : Bytes) {status : ServingStatus} {k : Bool → M α}
    {Q : α → PUnit → State → Prop} (h : Owns i ch service (.holding status) w)
    (htrue : ∀ w', Owns i ch service .waiting w' → (spec strict).Safe i (k true) 0 Q w')
    (hfalse : ∀ w', (spec strict).Safe i (k false) 0 Q w') :
    (spec strict).Safe i (.op (.send ch status) k) 0 Q w := by
  refine safe_op (fun w₁ hw _ => ⟨service, hw.owns _ _ _ h⟩) fun w₁ ok w₂ hw _ hb => ?_
  have h₁ := hw.owns _ _ _ h
  simp only [Op.exec, List.mem_cons, List.not_mem_nil, or_false] at hb
  rcases hb with hb | hb <;> cases hb
  · refine htrue _ ⟨h₁.made, ?_, ?_, ?_⟩ <;> rw [setChan_self]
    · exact h₁.owner
    · exact h₁.service
  · exact hfalse _

theorem watch_proper (service : Bytes) : (spec strict).Proper (watch service) := by
  intro i w _
  refine safe_op (fun _ _ _ => trivial) fun w₁ ch w₂ _ _ hb => ?_
  obtain ⟨-, hb⟩ := mem_underMu.1 hb
  have hown : Owns i ch service .starting w₂ := by
    cases List.mem_singleton.1 hb
    refine ⟨Nat.lt_succ_self _, ?_, ?_, ?_⟩ <;> simp
  have hleave : ∀ w', (spec strict).Safe i (.op (.unsubscribe service ch) fun _ => .ret ()) 0
      ((spec strict).Done i) w' :=
    fun w' => safe_op (fun _ _ _ => trivial) fun _ _ _ _ _ _ => fun _ _ => ⟨rfl, trivial⟩
  refine safe_op (fun w₃ hw _ => hw.owns _ _ _ hown) fun w₃ status w₄ hw _ hb => ?_
  have h₃ := hw.owns _ _ _ hown
  obtain ⟨-, hb⟩ := mem_underMu.1 hb
  cases List.mem_singleton.1 hb
  refine send_safe service ⟨h₃.made, ?_, ?_, ?_⟩ (fun w₅ h₅ => ?_) fun w₅ => hleave w₅
  · rw [setChan_self]
    exact h₃.owner
  · rw [setChan_self]
    exact h₃.service
  · rw [setChan_self]
  refine ⟨fun _ g w => g = 0 ∧ Owns i ch service .waiting w, fun w' hw => ⟨rfl, hw.owns _ _ _ h₅⟩, ?_⟩
  rintro _ _ w₆ ⟨rfl, h₆⟩
  refine safe_op (fun w₇ hw _ => ⟨service, hw.owns _ _ _ h₆⟩) fun w₇ got w₈ hw _ hb => ?_
  have h₇ := hw.owns _ _ _ h₆
  rw [Op.exec, List.mem_cons] at hb
  rcases hb with hb | hb
  · cases hb
    exact fun w' _ => hleave w'
  · split at hb
    · cases hb
    · cases List.mem_singleton.1 hb
      refine send_safe service ⟨h₇.made, ?_, ?_, ?_⟩ (fun w₉ h₉ w' hw => ?_) fun w₉ w' hw => ?_
      · rw [setChan_self]
        exact h₇.owner
      · rw [setChan_self]
        exact h₇.service
      · rw [setChan_self]
      · exact ⟨rfl, hw.owns _ _ _ h₉⟩
      · exact hleave w'

theorem verifies : (spec strict).Verifies Call.body := by
  refine Spec.verifies_of_proper fun q _ _ => ?_
  cases q with
  | setServingStatus service status => exact setServingStatus_proper service status
  | shutdown => exact shutdown_proper
  | watch service => exact watch_proper service

theorem inv_of_reachable {c : Config Op State}
    (hc : Reachable machine Call.body (guardOf strict) {} c) : Inv strict c.shared := by
  have hinit : Inv strict {} :=
    ⟨List.nodup_nil, nofun, nofun, nofun, rfl, fun _ => rfl, nofun⟩
  obtain ⟨_, hinv⟩ := Spec.inv_of_reachable hinit (fun _ => trivial) verifies hc
  exact hinv

def allRuns : Test Op State Call := ⟨fun _ _ => true, fun _ _ _ _ => true⟩

def drain : List (Event Call) := [.step 0 0, .step 0 1, .step 0 0]

def latestRun : Test Op State Call where
  callOk _ _ := true
  opOk _ w _ o := match o with
    | .trySend ch status => decide ((w.chan ch).buf.length < bufferSize ∨
        (w.chan ch).buf.getLast? = some status)
    | _ => true

end PoseidonServer.Grpc.Health
