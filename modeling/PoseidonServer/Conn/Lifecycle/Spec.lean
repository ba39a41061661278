import PoseidonServer.Conn.Table

/-! The life of a stream: its state only grows, it leaves the table once, and what is written
about it respects both. Nothing is written on a stream after its RST_STREAM, because the state
that forbids it is recorded on the other side of the write lock. -/

namespace PoseidonServer.Conn

open Concurrent

structure StreamState.Grows (s t : StreamState) : Prop where
  recvFields : s.recvFields = true → t.recvFields = true
  recvEnded : s.recvEnded = true → t.recvEnded = true
  sentFields : s.sentFields = true → t.sentFields = true
  sentEnded : s.sentEnded = true → t.sentEnded = true
  reset : s.reset = true → t.reset = true

namespace StreamState

variable {s t u : StreamState}

theorem Grows.refl (s : StreamState) : s.Grows s := ⟨id, id, id, id, id⟩

theorem Grows.trans (h₁ : s.Grows t) (h₂ : t.Grows u) : s.Grows u :=
  ⟨fun h => h₂.recvFields (h₁.recvFields h), fun h => h₂.recvEnded (h₁.recvEnded h),
    fun h => h₂.sentFields (h₁.sentFields h), fun h => h₂.sentEnded (h₁.sentEnded h),
    fun h => h₂.reset (h₁.reset h)⟩

theorem grows_union (s delta : StreamState) : s.Grows (s.union delta) := by
  constructor <;> simp +contextual [union]

theorem grows_of_empty (s : StreamState) : StreamState.Grows {} s := by
  constructor <;> simp

theorem Grows.terminal (h : s.Grows t) (hs : s.terminal = true) : t.terminal = true := by
  simp only [StreamState.terminal, Bool.or_eq_true, Bool.and_eq_true] at hs ⊢
  exact hs.imp h.reset fun hs => ⟨h.recvEnded hs.1, h.sentEnded hs.2⟩

theorem writable_eq_false : s.writable = false ↔ s.reset = true ∨ s.sentEnded = true := by
  simp [writable, Decidable.or_iff_not_imp_left]

theorem Grows.writable (h : s.Grows t) (hs : s.writable = false) : t.writable = false := by
  rw [writable_eq_false] at hs ⊢
  exact hs.imp h.reset h.sentEnded

theorem writable_of_terminal (h : s.terminal = true) : s.writable = false := by
  simp only [terminal, Bool.or_eq_true, Bool.and_eq_true] at h
  exact writable_eq_false.2 (h.imp_right And.right)

end StreamState

def Outbound.uses (x : Nat) : Outbound → Bool
  | .headers y .. | .data y .. => y = x
  | .pushPromise parent .. => parent = x
  | _ => false

def Outbound.resets (x : Nat) : Outbound → Bool
  | .rstStream y _ => y = x
  | _ => false

def Outbound.plain : Outbound → Bool
  | .headers .. | .data .. | .pushPromise .. | .rstStream .. => false
  | _ => true

def World.rstSent (w : World) (x : Nat) : Prop := ∃ f ∈ w.wire, f.resets x = true

namespace Lifecycle

structure Mono (w w' : World) : Prop where
  created : ∀ x, w.created x → w'.created x
  fresh : ∀ x, w'.created x → w.created x ∨ w.idle x = true
  state : ∀ x, (w.state x).Grows (w'.state x)
  closed : w.closed = true → w'.closed = true
  down : w.down = true → w'.down = true
  idle : ∀ x, w.idle x = false → w'.idle x = false
  gone : ∀ x, w.idle x = false → x ∉ w.live → x ∉ w'.live

def Shut (strict : Bool) (s : StreamState) : Prop :=
  s.terminal = true ∨ (strict = false ∧ s.writable = false)

/-- What may be outside the table: closed streams, promises that could not be written and, unless
`strict`, anything once the connection is going down. -/
def Gone (strict : Bool) (w : World) (x : Nat) : Prop :=
  Shut strict (w.state x) ∨ (w.down = true ∧ x % 2 = 0) ∨
    (strict = false ∧ (w.closed = true ∨ w.down = true))

def Settled (strict : Bool) (w : World) : Prop :=
  ∀ x, w.created x → x ∉ w.live → Gone strict w x

def Calm (w w' : World) : Prop :=
  ∀ x, w'.created x → x ∉ w'.live →
    (w.created x ∧ x ∉ w.live) ∨ (w'.state x).terminal = true ∨ (w'.down = true ∧ x % 2 = 0)

structure Steady (strict : Bool) (w w' : World) : Prop extends Mono w w' where
  calm : Calm w w'
  live : ∀ x ∈ w'.live, x % 2 = 1 → x ∈ w.live
  reader : w'.readerView = w.readerView
  up : strict = true → w'.closed = w.closed ∧ w'.down = w.down

structure Base (strict : Bool) (i : Nat) (w w' : World) : Prop extends Mono w w' where
  reader : w.reader = some i → w'.readerView = w.readerView
  calm : w.reader = some i → Calm w w'
  live : w.reader = some i → ∀ x ∈ w'.live, x % 2 = 1 → x ∈ w.live
  up : strict = true → w.reader = some i → w'.closed = w.closed ∧ w'.down = w.down

variable {strict : Bool} {env : Env} {G : Guard Op World Call} {i j : Nat} {w w' w₁ w₂ w₃ : World}

theorem Mono.refl (w : World) : Mono w w :=
  ⟨fun _ h => h, fun _ h => .inl h, fun _ => .refl _, id, id, fun _ h => h, fun _ _ h => h⟩

theorem Mono.trans (h₁ : Mono w₁ w₂) (h₂ : Mono w₂ w₃) : Mono w₁ w₃ where
  created x h := h₂.created x (h₁.created x h)
  fresh x h := by
    obtain h | h := h₂.fresh x h
    · exact h₁.fresh x h
    · refine .inr ?_
      by_contra hidle
      simp [h₁.idle x (by simpa using hidle)] at h
  state x := (h₁.state x).trans (h₂.state x)
  closed h := h₂.closed (h₁.closed h)
  down h := h₂.down (h₁.down h)
  idle x h := h₂.idle x (h₁.idle x h)
  gone x h hx := h₂.gone x (h₁.idle x h) (h₁.gone x h hx)

theorem Shut.grows {s t : StreamState} (h : Shut strict s) (hs : s.Grows t) : Shut strict t :=
  h.imp hs.terminal (And.imp_right hs.writable)

theorem Shut.writable {s : StreamState} (h : Shut strict s) : s.writable = false :=
  h.elim StreamState.writable_of_terminal And.right

theorem Gone.mono {x : Nat} (h : Gone strict w x) (hm : Mono w w') : Gone strict w' x := by
  obtain h | h | h := h
  · exact .inl (h.grows (hm.state x))
  · exact .inr (.inl (h.imp_left hm.down))
  · exact .inr (.inr (h.imp_right (Or.imp hm.closed hm.down)))

theorem Calm.trans (h₁ : Calm w₁ w₂) (h₂ : Calm w₂ w₃) (hm : Mono w₂ w₃) : Calm w₁ w₃ := by
  intro x hc hx
  obtain ⟨hc, hx⟩ | h := h₂ x hc hx
  · exact (h₁ x hc hx).imp_right (Or.imp (hm.state x).terminal (And.imp_left hm.down))
  · exact .inr h

theorem Settled.calm (h : Settled strict w) (hm : Mono w w') (hc : Calm w w') :
    Settled strict w' := by
  intro x hx hl
  obtain ⟨hx, hl⟩ | h' | h' := hc x hx hl
  · exact (h x hx hl).mono hm
  · exact .inl (.inl h')
  · exact .inr (.inl h')

theorem Base.refl (strict : Bool) (i : Nat) (w : World) : Base strict i w w :=
  { Mono.refl w with
    reader := fun _ => rfl
    calm := fun _ _ hc hx => .inl ⟨hc, hx⟩
    live := fun _ _ hx _ => hx
    up := fun _ _ => ⟨rfl, rfl⟩ }

theorem Base.reading (h : Base strict i w w') (hr : w.reader = some i) : w'.reader = some i := by
  have := h.reader hr
  simp only [World.readerView, Prod.mk.injEq] at this
  rw [this.1, hr]

theorem Base.trans (h₁ : Base strict i w₁ w₂) (h₂ : Base strict i w₂ w₃) : Base strict i w₁ w₃ :=
  { h₁.toMono.trans h₂.toMono with
    reader := fun hr => (h₂.reader (h₁.reading hr)).trans (h₁.reader hr)
    calm := fun hr => (h₁.calm hr).trans (h₂.calm (h₁.reading hr)) h₂.toMono
    live := fun hr x hx hodd => h₁.live hr x (h₂.live (h₁.reading hr) x hx hodd) hodd
    up := fun hs hr => by
      obtain ⟨hc, hd⟩ := h₁.up hs hr
      obtain ⟨hc', hd'⟩ := h₂.up hs (h₁.reading hr)
      exact ⟨hc'.trans hc, hd'.trans hd⟩ }

theorem Steady.base (h : Steady strict w w') (i : Nat) : Base strict i w w' :=
  { h.toMono with
    reader := fun _ => h.reader
    calm := fun _ => h.calm
    live := fun _ => h.live
    up := fun hs _ => h.up hs }

def Ordered (wire : List Outbound) : Prop :=
  wire.Pairwise fun f g => ∀ x, f.resets x = true → g.uses x = false

structure Inv (strict : Bool) (w : World) : Prop where
  rst : ∀ x, w.rstSent x → w.idle x = false ∧ (w.created x → Shut strict (w.state x))
  gone : w.wmu = none → ∀ x, w.rstSent x → x ∉ w.live
  wire : Ordered w.wire
  frameSize : 16384 ≤ w.peerMaxFrameSize
  settled : w.reader = none → w.readerDone = false → Settled strict w
  pending : w.handler.pendingStreamID ≠ 0 → w.handler.pendingStreamID % 2 = 1

/-- What an operation asks for: a stream is released when it is closed, or its promise could
not be written, or by the reader once it has answered it; RST_STREAM is written when the stream
is closed, and frames that use a stream before that. -/
@[simp] def Pre (strict : Bool) (i : Nat) (w : World) : Op β → Prop
  | .release x => x ∈ w.live → (w.state x).terminal = true ∨ (w.down = true ∧ x % 2 = 0) ∨
      (strict = false ∧ w.reader = some i ∧ Gone false w x)
  | .write f => (∀ x, f.uses x = true → ¬w.rstSent x) ∧ ∀ x, f.resets x = true →
      w.idle x = false ∧ (w.created x → Shut strict (w.state x) ∨ w.down = true)
  | _ => True

def spec (env : Env) (G : Guard Op World Call) (strict : Bool) :
    Spec (machine env) (tabled env G) PUnit where
  inv w _ := Inv strict w
  rely i w w' := Base strict i w w' ∧
    (w.wmu = some i → w'.wmu = some i ∧ ∀ x, w'.rstSent x ↔ w.rstSent x)
  rely_refl i w := ⟨.refl strict i w, fun h => ⟨h, fun _ => Iff.rfl⟩⟩
  rely_trans h₁ h₂ := by
    refine ⟨h₁.1.trans h₂.1, fun h => ?_⟩
    obtain ⟨hw, hr⟩ := h₁.2 h
    exact ⟨(h₂.2 hw).1, fun x => ((h₂.2 hw).2 x).trans (hr x)⟩
  pre i w _ o := Pre strict i w o

section Ops

theorem mono_of_frame {k : Kind} (hf : Frame k w w') (hk : k ∉ [.register, .reserve, .release,
    .drain, .advance, .advanceRecv]) (hclosed : w.closed = true → w'.closed = true)
    (hdown : w.down = true → w'.down = true) : Mono w w' := by
  have ht := hf.table (avoids hk (by decide))
  have hc := hf.created (avoids hk (by decide))
  have hs := hf.state_eq (avoids hk (by decide))
  simp only [World.tableView, Prod.mk.injEq] at ht
  exact
    { created := fun x => (hc x).2
      fresh := fun x h => .inl ((hc x).1 h)
      state := fun x => by rw [hs x]; exact .refl _
      closed := hclosed
      down := hdown
      idle := fun x h => by simpa [World.idle, ht] using h
      gone := fun x _ hx => by rw [ht.1]; exact hx }

theorem steady_of_frame {k : Kind} (hf : Frame k w w') (hk : k ∉ [.reader, .handler, .register,
    .reserve, .release, .drain, .advance, .advanceRecv, .close, .down]) : Steady strict w w' := by
  have ht := hf.table (avoids hk (by decide))
  have hc := hf.created (avoids hk (by decide))
  have hclosed := hf.closed (avoids_one hk (by decide))
  have hdown := hf.down (avoids_one hk (by decide))
  simp only [World.tableView, Prod.mk.injEq] at ht
  exact
    { mono_of_frame hf (avoids hk (by decide)) (by simp [hclosed]) (by simp [hdown]) with
      calm := fun x h hx => .inl ⟨(hc x).1 h, by rw [← ht.1]; exact hx⟩
      live := fun x hx _ => by rwa [← ht.1]
      reader := hf.reader (avoids hk (by decide))
      up := fun _ => ⟨hclosed, hdown⟩ }

theorem steady_advance {x : Nat} {delta b : StreamState}
    (hb : (b, w') ∈ Op.exec env i w (.advance x delta)) : Steady strict w w' := by
  cases List.mem_singleton.1 hb
  have hc (y) : (w.upd x fun s => { s with st := s.st.union delta }).created y ↔ w.created y := by
    rw [World.upd_eq]
    by_cases hy : y = x
    · subst hy
      simp [World.created]
    · simp [World.created, hy]
  have hs (y) : (w.state y).Grows ((w.upd x fun s => { s with st := s.st.union delta }).state y) := by
    rw [state_advance]
    split
    · rename_i hy
      rw [hy.1]
      exact StreamState.grows_union _ _
    · exact .refl _
  rw [World.upd_eq] at hc hs ⊢
  exact
    { created := fun y => (hc y).2
      fresh := fun y h => .inl ((hc y).1 h)
      state := hs
      closed := id
      down := id
      idle := fun _ h => h
      gone := fun _ _ h => h
      calm := fun y h hy => .inl ⟨(hc y).1 h, hy⟩
      live := fun _ h _ => h
      reader := rfl
      up := fun _ => ⟨rfl, rfl⟩ }

theorem steady_reserve {limit : Nat} {b : Option Nat} (ht : Table w)
    (hb : (b, w') ∈ Op.exec env i w (.reservePush limit)) : Steady strict w w' := by
  have hnew : w.idle w.nextPush = true := by simp [World.idle, ht.nextPush]
  have hne {y : Nat} (hy : w.created y) : y ≠ w.nextPush := by
    rintro rfl
    simp [ht.used _ hy] at hnew
  simp only [Op.exec, Op.underTable, World.reservePush] at hb
  split at hb
  · split at hb <;> cases List.mem_singleton.1 hb
    · exact steady_of_frame (k := .quiet) (.refl _ w) (by simp)
    · have hc (y) (s : Stream) : (Function.update w.str w.nextPush (some s) y).isSome ↔
          y = w.nextPush ∨ w.created y := by
        by_cases hy : y = w.nextPush <;> simp [World.created, hy]
      exact
        { created := fun y h => (hc _ _).2 (.inr h)
          fresh := fun y h => ((hc _ _).1 h).elim (fun hy => .inr (by rw [hy, hnew])) .inl
          state := fun y => by
            by_cases hy : w.created y
            · simp only [World.state, World.setStr, ne_eq, hne hy, not_false_eq_true,
                Function.update_of_ne]
              exact .refl _
            · have : w.state y = {} := by
                simp only [World.created, Option.not_isSome_iff_eq_none] at hy
                simp [World.state, hy]
              rw [this]
              exact StreamState.grows_of_empty _
          closed := id
          down := id
          idle := fun y h => by
            unfold World.idle at h ⊢
            split <;> simp_all [World.setStr]
            omega
          gone := fun y h hy => by
            refine fun hy' => ?_
            obtain rfl | hy' := List.mem_cons.1 hy'
            · simp [hnew] at h
            · exact hy hy'
          calm := fun y h hy => by
            obtain rfl | h := (hc _ _).1 h
            · exact absurd (List.mem_cons_self ..) hy
            · exact .inl ⟨h, fun hl => hy (List.mem_cons_of_mem _ hl)⟩
          live := fun y hy hodd => by
            obtain rfl | hy := List.mem_cons.1 hy
            · simp [ht.nextPush] at hodd
            · exact hy
          reader := rfl
          up := fun _ => ⟨rfl, rfl⟩ }
  · cases hb

theorem mono_release {x : Nat} {b : Bool} (hb : (b, w') ∈ Op.exec env i w (.release x)) :
    Mono w w' := by
  have hf := frame_of_exec hb
  have hc := hf.created (by simp)
  have hs := hf.state_eq (by simp)
  simp only [Op.exec, Op.underTable, World.release] at hb
  split at hb
  · split at hb <;> cases List.mem_singleton.1 hb
    · exact
        { Mono.refl w with
          state := fun y => by rw [hs y]; exact .refl _
          gone := fun y _ hy hy' => hy (List.mem_of_mem_erase hy') }
    · exact .refl w
  · cases hb

theorem notMem_of_release {x : Nat} {b : Bool} (ht : Table w)
    (hb : (b, w') ∈ Op.exec env i w (.release x)) : x ∉ w'.live := by
  simp only [Op.exec, Op.underTable, World.release] at hb
  split at hb
  · split at hb <;> cases List.mem_singleton.1 hb
    · exact ht.nodup.not_mem_erase
    · assumption
  · cases hb

theorem steady_release {x : Nat} {b : Bool} (hb : (b, w') ∈ Op.exec env i w (.release x))
    (hx : x ∈ w.live → (w.state x).terminal = true ∨ w.down = true ∧ x % 2 = 0) :
    Steady strict w w' := by
  have hm := mono_release hb
  have hf := frame_of_exec hb
  have hs := hf.state_eq (by simp)
  have hdown := hf.down (by simp)
  refine
    { hm with
      calm := fun y h hy => ?_
      live := fun y hy _ => ?_
      reader := hf.reader (by simp)
      up := fun _ => ⟨hf.closed (by simp), hf.down (by simp)⟩ }
  · have hc := (hf.created (by simp) y).1 h
    by_cases hl : y ∈ w.live
    · simp only [Op.exec, Op.underTable, World.release] at hb
      split at hb
      · split at hb <;> cases List.mem_singleton.1 hb
        · have hyx : y = x := by
            by_contra hne
            exact hy ((List.mem_erase_of_ne hne).2 hl)
          subst hyx
          rw [hs, hdown]
          exact .inr (hx hl)
        · exact absurd hl hy
      · cases hb
    · exact .inl ⟨hc, hl⟩
  · simp only [Op.exec, Op.underTable, World.release] at hb
    split at hb
    · split at hb <;> cases List.mem_singleton.1 hb
      · exact List.mem_of_mem_erase hy
      · exact hy
    · cases hb

@[simp] def Ordinary : Op β → Prop
  | .readFrame _ | .frameDone | .stopReader | .storeHandler _ | .decodeBlock _ | .admitClient ..
  | .release _ | .drain | .unlockW | .close | .closeTransport => False
  | .write f => f.plain = true
  | _ => True

theorem ordinary_of_kind {o : Op β} (ho : o.kind ∉ [.reader, .handler, .register, .release, .drain,
    .lockW, .write, .close, .down]) : Ordinary o := by
  cases o <;> simp only [Ordinary] <;> try exact ho (by simp)
  rename_i f
  cases f <;> first
    | rfl
    | exact absurd (by simp) ho

theorem steady_of_ordinary {o : Op β} {b : β} (ht : Table w) (ho : Ordinary o)
    (hb : (b, w') ∈ o.exec env i w) : Steady strict w w' := by
  have hf := frame_of_exec hb
  cases o
  case readFrame | frameDone | stopReader | storeHandler | decodeBlock | admitClient | release
    | drain | unlockW | close | closeTransport => exact ho.elim
  case advance => exact steady_advance hb
  case reservePush => exact steady_reserve ht hb
  case write f => exact steady_of_frame hf (f.kind_notMem (by simp))
  all_goals exact steady_of_frame hf (by simp)

theorem Inv.next (h : Inv strict w) (hm : Mono w w')
    (hrst : ∀ x, w'.rstSent x → w.rstSent x ∨
      w'.idle x = false ∧ (w'.created x → Shut strict (w'.state x)))
    (hgone : w'.wmu = none → ∀ x, w'.rstSent x → x ∉ w'.live) (hwire : Ordered w'.wire)
    (hframe : 16384 ≤ w'.peerMaxFrameSize)
    (hsettled : w'.reader = none → w'.readerDone = false → Settled strict w')
    (hpending : w'.handler.pendingStreamID ≠ 0 → w'.handler.pendingStreamID % 2 = 1) :
    Inv strict w' where
  rst x hx := by
    obtain hx | hx := hrst x hx
    · obtain ⟨hidle, hshut⟩ := h.rst x hx
      refine ⟨hm.idle x hidle, fun hc => ?_⟩
      obtain hc | hc := hm.fresh x hc
      · exact (hshut hc).grows (hm.state x)
      · simp [hidle] at hc
    · exact hx
  gone := hgone
  wire := hwire
  frameSize := hframe
  settled := hsettled
  pending := hpending

theorem Inv.of_calm (h : Inv strict w) (hm : Mono w w') (hcalm : Calm w w')
    (hreader : w'.readerView = w.readerView) (hrst : ∀ x, w'.rstSent x ↔ w.rstSent x)
    (hwire : Ordered w'.wire) (hgone : w'.wmu = none → ∀ x, w.rstSent x → x ∉ w.live)
    (hframe : 16384 ≤ w'.peerMaxFrameSize) : Inv strict w' := by
  simp only [World.readerView, Prod.mk.injEq] at hreader
  obtain ⟨hr, hd, hh, -⟩ := hreader
  refine h.next hm (fun x hx => .inl ((hrst x).1 hx)) (fun hfree x hx => ?_) hwire hframe ?_ ?_
  · have hx := (hrst x).1 hx
    exact hm.gone x (h.rst x hx).1 (hgone hfree x hx)
  · rw [hr, hd]
    exact fun hr hd => (h.settled hr hd).calm hm hcalm
  · rw [hh]
    exact h.pending

theorem Inv.of_steady (h : Inv strict w) (hs : Steady strict w w')
    (hrst : ∀ x, w'.rstSent x ↔ w.rstSent x) (hwire : Ordered w'.wire)
    (hgone : w'.wmu = none → ∀ x, w.rstSent x → x ∉ w.live) (hframe : 16384 ≤ w'.peerMaxFrameSize) :
    Inv strict w' :=
  h.of_calm hs.toMono hs.calm hs.reader hrst hwire hgone hframe

theorem rstSent_write {f : Outbound} {ok : Bool} (hb : (ok, w') ∈ Op.exec env i w (.write f))
    (x : Nat) : w'.rstSent x ↔ w.rstSent x ∨ ok = true ∧ f.resets x = true := by
  obtain ⟨rfl, -, rfl⟩ | ⟨rfl, -, hwire⟩ := write_exec hb
  · simp
  · simp [World.rstSent, hwire, or_and_right, exists_or]

theorem rstSent_of_exec {o : Op β} {b : β} (ho : o.tag ≠ .write .rstStream)
    (hb : (b, w') ∈ o.exec env i w) (x : Nat) : w'.rstSent x ↔ w.rstSent x := by
  obtain hw | ⟨f, ht, hw⟩ := wire_exec hb
  · simp [World.rstSent, hw]
  · have hf : f.resets x = false := by
      cases f <;> first
        | rfl
        | exact absurd ht ho
    simp [World.rstSent, hw, hf, or_and_right, exists_or]

theorem ordered_write {f : Outbound} {ok : Bool} (hb : (ok, w') ∈ Op.exec env i w (.write f))
    (h : Ordered w.wire) (hf : ∀ x, f.uses x = true → ¬w.rstSent x) : Ordered w'.wire := by
  obtain ⟨rfl, -, rfl⟩ | ⟨rfl, -, hwire⟩ := write_exec hb
  · exact h
  · rw [hwire]
    refine List.pairwise_append.2 ⟨h, List.pairwise_singleton .., fun g hg f' hf' x hx => ?_⟩
    cases List.mem_singleton.1 hf'
    by_contra huses
    exact hf x (by simpa using huses) ⟨g, hg, hx⟩

theorem Outbound.uses_of_plain {f : Outbound} (h : f.plain = true) (x : Nat) :
    f.uses x = false ∧ f.resets x = false := by
  cases f <;> first
    | cases h
      done
    | exact ⟨rfl, rfl⟩

theorem peerMaxFrameSize_of_exec {o : Op β} {b : β} (hok : (tabled env G).opOk i w o)
    (hb : (b, w') ∈ o.exec env i w) (h : 16384 ≤ w.peerMaxFrameSize) :
    16384 ≤ w'.peerMaxFrameSize := by
  have hsame (hs : w'.peerSettings = w.peerSettings) : 16384 ≤ w'.peerMaxFrameSize := by
    rwa [World.peerMaxFrameSize, hs]
  have hf := frame_of_exec hb
  cases o
  case publishSettings s =>
    cases List.mem_singleton.1 hb
    obtain ⟨_, -, -, -, hvalid⟩ := tabled_held hok
    refine settingValue_setPeerSettings (P := (16384 ≤ ·)) h fun p hp hid => ?_
    exact (validatePeerSettings_ok hvalid p hp).1 hid
  case adjustWindow x delta =>
    refine hsame ?_
    simp only [Op.exec, World.adjustWindow, List.mem_singleton] at hb
    split at hb
    · cases hb
      rfl
    · split at hb <;> cases hb <;> rfl
  case advance x delta => exact hsame (hf.settings (delta.kind_ne (by simp)))
  case write f => exact hsame (hf.settings (f.kind_ne (by simp)))
  all_goals exact hsame (hf.settings (by simp))

theorem wire_of_ordinary {o : Op β} {b : β} (ho : Ordinary o) (hb : (b, w') ∈ o.exec env i w)
    (h : Ordered w.wire) : (∀ x, w'.rstSent x ↔ w.rstSent x) ∧ Ordered w'.wire := by
  have hf := frame_of_exec hb
  have hsame (hw : w'.wire = w.wire) : (∀ x, w'.rstSent x ↔ w.rstSent x) ∧ Ordered w'.wire := by
    rw [hw]
    exact ⟨fun x => by simp [World.rstSent, hw], h⟩
  cases o
  case write f =>
    refine ⟨fun x => ?_, ordered_write hb h fun x hx => ?_⟩
    · simp [rstSent_write hb, (Outbound.uses_of_plain ho x).2]
    · simp [(Outbound.uses_of_plain ho x).1] at hx
  case advance x delta => exact hsame (hf.wire (delta.kind_notMem (by simp)))
  all_goals first
    | exact ho.elim
    | exact hsame (hf.wire (by simp))

theorem wmu_of_ordinary {o : Op β} {b : β} (ho : Ordinary o) (hb : (b, w') ∈ o.exec env i w) :
    w'.wmu = w.wmu ∨ w.wmu = none ∧ w'.wmu = some i := by
  have hf := frame_of_exec hb
  cases o
  case lockW =>
    obtain ⟨hfree, rfl⟩ := mem_whenFree hb
    exact .inr ⟨hfree, rfl⟩
  case unlockW => exact ho.elim
  case advance x delta => exact .inl (hf.wmu (delta.kind_ne (by simp)))
  case write f => exact .inl (hf.wmu (f.kind_ne (by simp)))
  all_goals exact .inl (hf.wmu (by simp))

theorem harmless {o : Op β} (ho : Ordinary o) : (spec env G strict).Harmless o := by
  intro i w _ hinv hok
  have hinv : Inv strict w := hinv
  refine ⟨?_, fun b w' hb => ?_⟩
  · cases o
    case write f =>
      refine ⟨fun x hx => ?_, fun x hx => ?_⟩
      · simp [(Outbound.uses_of_plain ho x).1] at hx
      · simp [(Outbound.uses_of_plain ho x).2] at hx
    all_goals first
      | exact ho.elim
      | trivial
  · have hs : Steady strict w w' := steady_of_ordinary (tabled_table hok) ho hb
    obtain ⟨hrst, hwire⟩ := wire_of_ordinary ho hb hinv.wire
    have hwmu := wmu_of_ordinary ho hb
    refine ⟨hinv.of_steady hs hrst hwire (fun hfree => hinv.gone ?_)
      (peerMaxFrameSize_of_exec hok hb hinv.frameSize), fun j => ⟨hs.base j, fun hj => ⟨?_, hrst⟩⟩⟩
    · obtain hwmu | ⟨hfree, -⟩ := hwmu
      · rwa [← hwmu]
      · exact hfree
    · obtain hwmu | ⟨hfree, -⟩ := hwmu
      · rw [hwmu, hj]
      · simp [hfree] at hj

end Ops

section Rules

variable {Q : α → PUnit → World → Prop}

theorem safe_allowed {o : Op β} {k : β → M α} (ho : Ordinary o)
    (hk : ∀ w₁ b w₂, (spec env G strict).rely i w w₁ → Inv strict w₁ →
      (tabled env G).opOk i w₁ o → (b, w₂) ∈ o.exec env i w₁ → (spec env G strict).rely i w₁ w₂ →
      (spec env G strict).Safe i (k b) 0 Q w₂) :
    (spec env G strict).Safe i (.op o k) 0 Q w := by
  intro w₁ hw ⟨_, hinv⟩ hok
  obtain ⟨hpre, hstep⟩ := harmless ho i w₁ _ hinv hok
  refine ⟨hpre, fun b w₂ hb => ?_⟩
  obtain ⟨hinv', hrely⟩ := hstep b w₂ hb
  exact ⟨0, fun _ _ => hinv', fun j _ => hrely j, hk w₁ b w₂ hw hinv hok hb (hrely i)⟩

theorem safe_op {o : Op β} {k : β → M α} (ho : Ordinary o)
    (hk : ∀ w₁ b w₂, (spec env G strict).rely i w w₁ → Inv strict w₁ → Table w₁ →
      (b, w₂) ∈ o.exec env i w₁ → (spec env G strict).rely i w₁ w₂ →
      (spec env G strict).rely i w w₂ → (spec env G strict).Safe i (k b) 0 Q w₂) :
    (spec env G strict).Safe i (.op o k) 0 Q w :=
  safe_allowed ho fun w₁ b w₂ hw hinv hok hb hw' =>
    hk w₁ b w₂ hw hinv (tabled_table hok) hb hw' ((spec env G strict).rely_trans hw hw')

theorem safe_all {p : M α} (hp : p.All fun o => Ordinary o)
    (hQ : ∀ a w', (spec env G strict).rely i w w' → Q a 0 w') :
    (spec env G strict).Safe i p 0 Q w :=
  Spec.safe_of_all (hp.mono fun _ ho => harmless ho) hQ

theorem safe_within {p : M α}
    (hp : Within (· ∉ [.reader, .handler, .register, .release, .drain, .lockW, .write, .close, .down]) p)
    (hQ : ∀ a w', (spec env G strict).rely i w w' → Q a 0 w') :
    (spec env G strict).Safe i p 0 Q w :=
  safe_all (hp.mono fun _ ho => ordinary_of_kind ho) hQ

def LockedBut (P : Nat → Prop) (i : Nat) (w : World) : Prop :=
  w.wmu = some i ∧ ∀ x, w.rstSent x → w.idle x = false ∧ (x ∈ w.live → P x)

def Locked : Nat → World → Prop := LockedBut fun _ => False

theorem LockedBut.rely {P : Nat → Prop} (h : LockedBut P i w)
    (hw : (spec env G strict).rely i w w') : LockedBut P i w' := by
  obtain ⟨hwmu, hrst⟩ := hw.2 h.1
  refine ⟨hwmu, fun x hx => ?_⟩
  obtain ⟨hidle, hlive⟩ := h.2 x ((hrst x).1 hx)
  refine ⟨hw.1.idle x hidle, fun hx' => hlive ?_⟩
  by_contra hnot
  exact hw.1.gone x hidle hnot hx'

theorem Locked.rely (h : Locked i w) (hw : (spec env G strict).rely i w w') : Locked i w' :=
  LockedBut.rely h hw

theorem safe_lockW {k : Unit → M α} (hk : ∀ w', Base strict i w w' → Locked i w' →
    (spec env G strict).Safe i (k ()) 0 Q w') :
    (spec env G strict).Safe i (.op .lockW k) 0 Q w := by
  refine safe_op trivial fun w₁ _ w₂ _ hinv _ hb _ hw => hk w₂ hw.1 ?_
  obtain ⟨hfree, rfl⟩ := mem_whenFree hb
  exact ⟨rfl, fun x hx => ⟨(hinv.rst x hx).1, fun hl => hinv.gone hfree x hx hl⟩⟩

theorem safe_unlockW {k : Unit → M α} (h : Locked i w) (hk : ∀ w', Base strict i w w' →
    (spec env G strict).Safe i (k ()) 0 Q w') :
    (spec env G strict).Safe i (.op .unlockW k) 0 Q w := by
  refine fun w₁ hw ⟨_, hinv⟩ hok => ⟨trivial, fun b w₂ hb => ?_⟩
  change (b, w₂) ∈ Op.exec env i w₁ .unlockW at hb
  have hinv : Inv strict w₁ := hinv
  have h₁ := h.rely hw
  have hs : Steady strict w₁ w₂ := steady_of_frame (frame_of_exec hb) (by simp)
  have hframe := peerMaxFrameSize_of_exec hok hb hinv.frameSize
  cases List.mem_singleton.1 hb
  refine ⟨0, fun _ _ => hinv.of_steady hs (fun _ => Iff.rfl) hinv.wire ?_ hframe, fun j hj => ?_, ?_⟩
  · exact fun _ x hx hl => (h₁.2 x hx).2 hl
  · refine ⟨hs.base j, fun hjw => ?_⟩
    rw [h₁.1] at hjw
    exact absurd (Option.some.inj hjw) (Ne.symm hj)
  · exact hk _ (hw.1.trans (hs.base i))

theorem safe_release {x : Nat} {k : Bool → M α}
    (hx : ∀ w', Base strict i w w' → x ∈ w'.live →
      (w'.state x).terminal = true ∨ w'.down = true ∧ x % 2 = 0)
    (hk : ∀ b w', (spec env G strict).rely i w w' → x ∉ w'.live →
      (spec env G strict).Safe i (k b) 0 Q w') :
    (spec env G strict).Safe i (.op (.release x) k) 0 Q w := by
  intro w₁ hw ⟨_, hinv⟩ hok
  have hinv : Inv strict w₁ := hinv
  have hx := hx w₁ hw.1
  refine ⟨fun hl => (hx hl).imp_right .inl, fun b w₂ hb => ?_⟩
  change (b, w₂) ∈ Op.exec env i w₁ (.release x) at hb
  have hs : Steady strict w₁ w₂ := steady_release hb hx
  have hf := frame_of_exec hb
  have hrst (y) : w₂.rstSent y ↔ w₁.rstSent y := by simp [World.rstSent, hf.wire (by simp)]
  have hrely (j) : (spec env G strict).rely j w₁ w₂ :=
    ⟨hs.base j, fun hj => ⟨by rw [hf.wmu (by simp), hj], hrst⟩⟩
  refine ⟨0, fun _ _ => hinv.of_steady hs hrst ?_ ?_ ?_, fun j _ => hrely j, ?_⟩
  · rw [hf.wire (by simp)]
    exact hinv.wire
  · rw [hf.wmu (by simp)]
    exact hinv.gone
  · exact peerMaxFrameSize_of_exec hok hb hinv.frameSize
  · exact hk b w₂ ((spec env G strict).rely_trans hw (hrely i))
      (notMem_of_release (tabled_table hok) hb)

theorem safe_writeUse {P : Nat → Prop} {f : Outbound} {k : Bool → M α} (h : LockedBut P i w)
    (hf : ∀ x, f.uses x = true → ¬w.rstSent x) (hr : ∀ x, f.resets x = false)
    (hk : ∀ ok w', (spec env G strict).rely i w w' → (ok = false → w'.down = true) →
      (spec env G strict).Safe i (k ok) 0 Q w') :
    (spec env G strict).Safe i (.op (.write f) k) 0 Q w := by
  intro w₁ hw ⟨_, hinv⟩ hok
  have hinv : Inv strict w₁ := hinv
  have huses (x) (hx : f.uses x = true) : ¬w₁.rstSent x := by
    rw [(hw.2 h.1).2 x]
    exact hf x hx
  refine ⟨⟨huses, fun x hx => by simp [hr] at hx⟩, fun b w₂ hb => ?_⟩
  change (b, w₂) ∈ Op.exec env i w₁ (.write f) at hb
  have hframe := frame_of_exec hb
  have hs : Steady strict w₁ w₂ := steady_of_frame hframe (f.kind_notMem (by simp))
  have hrst (x) : w₂.rstSent x ↔ w₁.rstSent x := by simp [rstSent_write hb, hr]
  have hwmu : w₂.wmu = w₁.wmu := hframe.wmu (f.kind_ne (by simp))
  have hrely (j) : (spec env G strict).rely j w₁ w₂ :=
    ⟨hs.base j, fun hj => ⟨by rw [hwmu, hj], hrst⟩⟩
  refine ⟨0, fun _ _ => hinv.of_steady hs hrst (ordered_write hb hinv.wire huses) ?_ ?_,
    fun j _ => hrely j, hk b w₂ ((spec env G strict).rely_trans hw (hrely i)) fun hb' => ?_⟩
  · rw [hwmu]
    exact hinv.gone
  · exact peerMaxFrameSize_of_exec hok hb hinv.frameSize
  · obtain ⟨-, hd, rfl⟩ | ⟨hok', -⟩ := write_exec hb
    · exact hd
    · simp [hb'] at hok'

theorem safe_writeRST {x : Nat} {code : ErrCode} {k : Bool → M α} (h : Locked i w)
    (hidle : w.idle x = false) (hx : w.created x → Shut strict (w.state x) ∨ w.down = true)
    (hk : ∀ ok w', Base strict i w w' → LockedBut (· = x) i w' →
      (spec env G strict).Safe i (k ok) 0 Q w') :
    (spec env G strict).Safe i (.op (.write (.rstStream x code)) k) 0 Q w := by
  intro w₁ hw ⟨_, hinv⟩ hok
  have hinv : Inv strict w₁ := hinv
  have h₁ := h.rely hw
  have hidle₁ := hw.1.idle x hidle
  have hx₁ (hc : w₁.created x) : Shut strict (w₁.state x) ∨ w₁.down = true := by
    obtain hc | hc := hw.1.fresh x hc
    · exact (hx hc).imp (fun h => h.grows (hw.1.state x)) hw.1.down
    · simp [hidle] at hc
  have huses (y) (hy : (Outbound.rstStream x code).uses y = true) : ¬w₁.rstSent y := by
    simp [Outbound.uses] at hy
  refine ⟨⟨huses, fun y hy => ?_⟩, fun b w₂ hb => ?_⟩
  · have hy : x = y := by simpa [Outbound.resets] using hy
    subst hy
    exact ⟨hidle₁, hx₁⟩
  change (b, w₂) ∈ Op.exec env i w₁ (.write (.rstStream x code)) at hb
  have hframe := frame_of_exec hb
  have hs : Steady strict w₁ w₂ := steady_of_frame hframe (by simp)
  have hwmu : w₂.wmu = some i := by rw [hframe.wmu (by simp), h₁.1]
  have hrst (y) (hy : w₂.rstSent y) : w₁.rstSent y ∨ y = x ∧ w₁.down = false := by
    rw [rstSent_write hb] at hy
    refine hy.imp_right fun ⟨hok', hy⟩ => ⟨?_, ?_⟩
    · simp only [Outbound.resets, decide_eq_true_eq] at hy
      exact hy.symm
    · obtain ⟨hno, -⟩ | ⟨-, hd, -⟩ := write_exec hb
      · simp [hno] at hok'
      · exact hd
  have hlocked : LockedBut (· = x) i w₂ := by
    refine ⟨hwmu, fun y hy => ?_⟩
    obtain hy | ⟨rfl, -⟩ := hrst y hy
    · obtain ⟨hidle, hlive⟩ := h₁.2 y hy
      exact ⟨hs.idle y hidle, fun hl => (hs.gone y hidle hlive hl).elim⟩
    · exact ⟨hs.idle y hidle₁, fun _ => rfl⟩
  have hreader := hs.reader
  simp only [World.readerView, Prod.mk.injEq] at hreader
  refine ⟨0, fun _ _ => ?_, fun j hj => ?_, hk b w₂ (hw.1.trans (hs.base i)) hlocked⟩
  · refine hinv.next hs.toMono (fun y hy => ?_) (fun hfree => by simp [hwmu] at hfree)
      (ordered_write hb hinv.wire huses) (peerMaxFrameSize_of_exec hok hb hinv.frameSize) ?_ ?_
    · refine (hrst y hy).imp_right fun ⟨hyx, hd⟩ => ?_
      subst hyx
      refine ⟨hs.idle y hidle₁, fun hc => ?_⟩
      obtain hc | hc := hs.fresh y hc
      · obtain hsh | hdown := hx₁ hc
        · exact hsh.grows (hs.state y)
        · simp [hd] at hdown
      · simp [hidle₁] at hc
    · rw [hreader.1, hreader.2.1]
      exact fun hr hd => (hinv.settled hr hd).calm hs.toMono hs.calm
    · rw [hreader.2.2.1]
      exact hinv.pending
  · refine ⟨hs.base j, fun hjw => ?_⟩
    rw [h₁.1] at hjw
    exact absurd (Option.some.inj hjw) (Ne.symm hj)

def Since (strict : Bool) (i : Nat) (w : World) (R : β → World → Prop) (b : β) (_ : PUnit)
    (w' : World) : Prop := Base strict i w w' ∧ R b w'

theorem safe_since {p : M β} {k : β → M α} {R : β → World → Prop}
    (hp : (spec env G strict).Safe i p 0 (Since strict i w R) w)
    (hk : ∀ b w', Base strict i w w' → R b w' → (spec env G strict).Safe i (k b) 0 Q w') :
    (spec env G strict).Safe i (p.bind k) 0 Q w :=
  Spec.Safe.bind (hp.mono fun b _ w' h => hk b w' h.1 h.2)

theorem safe_earlier {p : M β} {R : β → World → Prop} (hw : Base strict i w w')
    (hp : (spec env G strict).Safe i p 0 (Since strict i w' R) w') :
    (spec env G strict).Safe i p 0 (Since strict i w R) w' :=
  hp.mono fun _ _ _ h => ⟨hw.trans h.1, h.2⟩

theorem safe_ret {a : β} {R : β → World → Prop} (hw : Base strict i w w')
    (hR : ∀ w'', Base strict i w' w'' → R a w'') :
    (spec env G strict).Safe i (.ret a) 0 (Since strict i w R) w' :=
  fun _ h => ⟨hw.trans h.1, hR _ h.1⟩

end Rules

end Lifecycle

end PoseidonServer.Conn
