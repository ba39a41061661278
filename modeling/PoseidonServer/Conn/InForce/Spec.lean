import PoseidonServer.Conn.HpackSend
import PoseidonServer.Conn.Reader
import PoseidonServer.Conn.Settings

/-! SETTINGS in force: whoever writes a field block keeps to the frame size that it finds recorded
under the write lock, and an acknowledgement goes out only when nobody else holds that lock. -/

namespace PoseidonServer.Conn

open Concurrent

def Inbound.params : Inbound → Option SettingsParams
  | .settings false params => some params
  | _ => none

def Outbound.payload : Outbound → Nat
  | .data _ _ p => p.length
  | .settings params => 6 * params.length
  | .rstStream .. | .windowUpdate .. => 4
  | .ping .. | .goAway .. => 8
  | f => f.overhead

structure Outbound.Within (limit : Nat) (f : Outbound) : Prop where
  payload : f.payload ≤ limit
  fits : f.Fits limit

namespace World

variable (w : World)

def settingsRead : List SettingsParams := w.inbound.filterMap Inbound.params

def acks : Nat := w.wire.count .settingsAck

def acknowledged : List SettingsParams := w.settingsRead.take w.acks

def ackedValue (id : SettingID) (d : Nat) : Nat := (lastValue id w.acknowledged.flatten).getD d

def Acked : Prop := w.acks = w.settingsRead.length

def Agrees : Prop := ∀ id d,
  settingValue w.peerSettings id d = if id.known then w.ackedValue id d else d

def peerMaxFrame : Nat := settingValue w.peerSettings .maxFrameSize 16384

/-- The largest payload that may go out: SETTINGS that have come in and not been acknowledged yet
may be followed or not. -/
def frameLimit : Nat := max (w.ackedValue .maxFrameSize 16384) w.peerMaxFrame

def settingsView := (w.inbound, w.peerSettings, w.recorder, w.established, w.acks, w.tmu)

end World

namespace InForce

def Recorded (read : List SettingsParams) (w : World) : Prop :=
  w.established = false → w.recorder.peer = setPeerSettings [] read.flatten

structure Inv (w : World) : Prop where
  settled : w.Acked → w.tmu = none ∧ w.Agrees
  idle : w.reader = none → w.readerDone = false → w.Acked ∧ Recorded w.settingsRead w
  canonical : Canonical w.peerSettings
  limit : 16384 ≤ w.peerMaxFrame

structure Rely (i : Nat) (w w' : World) : Prop where
  reader : w.reader = some i → w'.reader = some i ∧ w'.settingsView = w.settingsView
  lock : w.wmu = some i →
    w'.wmu = some i ∧ (w.established = true → w.frameLimit ≤ w'.frameLimit)
  established : w.established = true → w'.established = true

theorem Rely.refl (i : Nat) (w : World) : Rely i w w :=
  ⟨fun h => ⟨h, rfl⟩, fun h => ⟨h, fun _ => le_rfl⟩, id⟩

theorem Rely.trans {i : Nat} {w₁ w₂ w₃ : World} (h₁ : Rely i w₁ w₂) (h₂ : Rely i w₂ w₃) :
    Rely i w₁ w₃ where
  reader h := ⟨(h₂.reader (h₁.reader h).1).1, (h₂.reader (h₁.reader h).1).2.trans (h₁.reader h).2⟩
  lock h := ⟨(h₂.lock (h₁.lock h).1).1, fun he =>
    ((h₁.lock h).2 he).trans ((h₂.lock (h₁.lock h).1).2 (h₁.established he))⟩
  established h := h₂.established (h₁.established h)

def Records (ps : SettingsParams) (read : List SettingsParams) : Prop :=
  ∀ id d, settingValue ps id d = if id.known then (lastValue id read.flatten).getD d else d

structure Due (i : Nat) (w : World) : Prop where
  lock : w.wmu = some i ∨ w.established = false
  table : w.tmu = none
  acks : w.acks + 1 = w.settingsRead.length
  values : Records w.peerSettings w.settingsRead

/-- A frame other than DATA is within what may go out; SETTINGS are recorded once those before them
have been acknowledged, and acknowledged once they are recorded. -/
def Asks (i : Nat) (w : World) : Op β → Prop
  | .publishSettings _ => w.Agrees
  | .write f => (f.tag = .data ∨ f.Within w.frameLimit) ∧ (f = .settingsAck → Due i w)
  | _ => True

theorem Asks.within {i : Nat} {w : World} {o : Op β} {f : Outbound} (h : Asks i w o)
    (hf : o.written = some f) : f.tag = .data ∨ f.Within w.frameLimit := by
  cases o <;> simp_all [Asks]

def spec (env : Env) (G : Guard Op World Call) : Spec (machine env) (owned G) PUnit where
  inv w _ := Inv w
  rely := Rely
  rely_refl := .refl
  rely_trans := .trans
  pre i w _ o := Asks i w o

variable {env : Env} {G : Guard Op World Call} {i j : Nat} {w w' : World}

theorem view_eq (h : w'.settingsView = w.settingsView) : w'.settingsRead = w.settingsRead ∧
    w'.acks = w.acks ∧ w'.acknowledged = w.acknowledged ∧ w'.peerSettings = w.peerSettings ∧
      w'.recorder = w.recorder ∧ w'.established = w.established ∧ w'.tmu = w.tmu := by
  simp only [World.settingsView, Prod.mk.injEq] at h
  obtain ⟨h₁, h₂, h₃, h₄, h₅, h₆⟩ := h
  have hread : w'.settingsRead = w.settingsRead := by
    rw [World.settingsRead, h₁, World.settingsRead]
  exact ⟨hread, h₅, by rw [World.acknowledged, hread, h₅, World.acknowledged], h₂, h₃, h₄, h₆⟩

theorem frameLimit_eq (h : w'.settingsView = w.settingsView) : w'.frameLimit = w.frameLimit := by
  obtain ⟨-, -, hack, hps, -⟩ := view_eq h
  simp only [World.frameLimit, World.ackedValue, World.peerMaxFrame, hack, hps]

def ownSteps : List Tag :=
  [.readFrame, .frameDone, .stopReader, .publishSettings, .storeRecorder, .establish, .lockTable,
    .unlockTable, .write .settingsAck, .lockW, .unlockW]

theorem acks_append {f : Outbound} (h : w'.wire = w.wire ++ [f]) (hf : f.tag ≠ .settingsAck) :
    w'.acks = w.acks := by
  have : f ≠ .settingsAck := fun h => hf (by rw [h]; rfl)
  simp [World.acks, h, List.count_append, this]

theorem calm {o : Op β} {b : β} (ho : o.tag ∉ ownSteps) (hb : (b, w') ∈ o.exec env i w) :
    w'.reader = w.reader ∧ w'.readerDone = w.readerDone ∧ w'.wmu = w.wmu ∧
      w'.settingsView = w.settingsView := by
  have hf := frame_of_tag hb
  have hst := still_of_exec hb
  have hwire := wire_exec hb
  have hps : o.tag ≠ .publishSettings → w'.peerSettings = w.peerSettings := fun ht =>
    peerSettings_of_exec ht hb
  generalize o.tag = t at ho hf hst hwire hps
  have hturn := hf.turn fun hk => ho (by
    obtain rfl | rfl | rfl := Tag.kind_reader.1 hk <;> decide)
  simp only [World.turnView, Prod.mk.injEq] at hturn
  have hacks : w'.acks = w.acks := by
    obtain hw | ⟨f, rfl, hw⟩ := hwire
    · rw [World.acks, hw, World.acks]
    · exact acks_append hw fun hf => ho (by rw [hf]; decide)
  refine ⟨hturn.1, hturn.2.1, hf.wmu fun hk => ho (by
    obtain rfl | rfl := Tag.kind_lockW.1 hk <;> decide), ?_⟩
  simp only [World.settingsView, Prod.mk.injEq]
  refine ⟨hturn.2.2, hps fun h => ho (by rw [h]; decide), hst.recorder ?_, hst.established ?_,
    hacks, hf.tmu fun hk => ho (by obtain rfl | rfl := Tag.kind_lockTable.1 hk <;> decide)⟩
  · rintro rfl
    exact ho (by decide)
  · rintro rfl
    exact ho (by decide)

theorem Inv.congr (h : Inv w) (hreader : w'.reader = w.reader)
    (hdone : w'.readerDone = w.readerDone) (hv : w'.settingsView = w.settingsView) : Inv w' := by
  obtain ⟨hread, hacks, hack, hps, hrec, hest, htmu⟩ := view_eq hv
  constructor
  case settled =>
    intro ha
    rw [World.Acked, hread, hacks] at ha
    obtain ⟨ht, hagrees⟩ := h.settled ha
    refine ⟨htmu.trans ht, fun id d => ?_⟩
    rw [World.ackedValue, hack, hps]
    exact hagrees id d
  case idle =>
    intro hr hd
    obtain ⟨ha, hrecorded⟩ := h.idle (hreader ▸ hr) (hdone ▸ hd)
    refine ⟨by rwa [World.Acked, hread, hacks], fun he => ?_⟩
    rw [hrec, hread]
    exact hrecorded (hest ▸ he)
  case canonical => rw [hps]; exact h.canonical
  case limit => rw [World.peerMaxFrame, hps]; exact h.limit

theorem rely_of_view (hreader : w'.reader = w.reader) (hwmu : w'.wmu = w.wmu)
    (hv : w'.settingsView = w.settingsView) (j : Nat) : Rely j w w' where
  reader h := ⟨hreader.trans h, hv⟩
  lock h := ⟨hwmu.trans h, fun _ => (frameLimit_eq hv).ge⟩
  established h := (view_eq hv).2.2.2.2.2.1.trans h

theorem within_of_small {f : Outbound} {limit : Nat}
    (hf : f.tag ∉ [.data, .settings, .headers, .pushPromise]) (hlimit : 16384 ≤ limit) :
    f.Within limit := by
  cases f with
  | headers | data | pushPromise | settings => simp at hf
  | windowUpdate | rstStream | settingsAck | ping | goAway =>
    refine ⟨?_, by simp [Outbound.Fits, Outbound.block]⟩
    simp only [Outbound.payload, Outbound.overhead]
    omega

theorem limit_le (h : Inv w) : 16384 ≤ w.frameLimit := h.limit.trans (le_max_right ..)

def sizedSteps : List Tag := [.write .headers, .write .pushPromise, .write .settings]

theorem asks {o : Op β} (ho : o.tag ∉ ownSteps ++ sizedSteps) (h : Inv w) : Asks i w o := by
  cases o with
  | write f =>
    refine ⟨?_, fun hf => ?_⟩
    · by_cases hd : f.tag = .data
      · exact .inl hd
      · refine .inr (within_of_small ?_ (limit_le h))
        simp_all [sizedSteps]
    · subst hf
      exact absurd (by decide) ho
  | publishSettings => exact absurd (by simp [ownSteps]) ho
  | _ => trivial

theorem harmless {o : Op β} (ho : o.tag ∉ ownSteps ++ sizedSteps) : (spec env G).Harmless o := by
  intro i w _ h _
  refine ⟨asks ho h, fun b w' hb => ?_⟩
  obtain ⟨hreader, hdone, hwmu, hv⟩ := calm (fun h => ho (List.mem_append_left _ h)) hb
  exact ⟨Inv.congr h hreader hdone hv, rely_of_view hreader hwmu hv⟩

/-- What a goroutine may carry past the write lock: while it holds the lock, the frame size that it
has found there does not shrink. -/
structure Keeper (i : Nat) (P : World → Prop) : Prop where
  rely : ∀ {w w'}, Rely i w w' → P w → P w'
  lock : ∀ {w} u, P w → P { w with wmu := u }
  limit : ∀ {w w'}, Rely i w w' → P w → w.wmu = some i → w.frameLimit ≤ w'.frameLimit

theorem keeper_established (i : Nat) : Keeper i fun w => w.established = true where
  rely hw h := hw.established h
  lock _ h := h
  limit hw h hi := (hw.lock hi).2 h

theorem keeper_reader {P : World → Prop} (hP : ∀ {w}, P w → w.reader = some i)
    (hcongr : ∀ {w w'}, P w → w'.reader = some i → w'.settingsView = w.settingsView → P w') :
    Keeper i P where
  rely hw h := hcongr h (hw.reader (hP h)).1 (hw.reader (hP h)).2
  lock {w} _ h := hcongr h (show w.reader = some i from hP h) rfl
  limit hw h _ := (frameLimit_eq (hw.reader (hP h)).2).ge

section Writers

variable {P : World → Prop}

def hardSteps : List Tag :=
  [.readFrame, .frameDone, .stopReader, .publishSettings, .storeRecorder, .establish, .lockTable,
    .unlockTable, .write .settingsAck] ++ sizedSteps

theorem inv_lock (h : Inv w) (u : Option Nat) : Inv { w with wmu := u } := Inv.congr h rfl rfl rfl

theorem lockW_exec {u : Unit} (hb : (u, w') ∈ (machine env).exec i .lockW w) :
    w' = { w with wmu := some i } ∧ ∀ j, j ≠ i → Rely j w w' := by
  obtain ⟨hfree, rfl⟩ := mem_whenFree hb
  refine ⟨rfl, fun j _ => ⟨fun h => ⟨h, rfl⟩, fun h => ?_, id⟩⟩
  simp [hfree] at h

theorem unlockW_exec {u : Unit} (hok : (owned G).opOk i w .unlockW)
    (hb : (u, w') ∈ (machine env).exec i .unlockW w) :
    w' = { w with wmu := none } ∧ ∀ j, j ≠ i → Rely j w w' := by
  have hheld : w.wmu = some i := HpackSend.held_write hok fun _ h => h
  cases List.mem_singleton.1 hb
  refine ⟨rfl, fun j hj => ⟨fun h => ⟨h, rfl⟩, fun h => ?_, id⟩⟩
  rw [hheld] at h
  exact absurd (Option.some.inj h).symm hj

theorem under (hP : Keeper i P) {o : Op β} (ho : o.tag ∉ hardSteps) :
    (spec env G).Under i P o ∧ (spec env G).Mild o := by
  by_cases hl : o.tag ∈ [.lockW, .unlockW]
  · cases o <;> simp only [Op.tag, List.mem_cons, List.not_mem_nil, or_false, reduceCtorEq] at hl
    case lockW =>
      refine ⟨fun w _ h hp _ => ⟨trivial, fun b w' hb => ?_⟩,
        fun i w _ h _ _ => ⟨trivial, fun b w' hb => ?_⟩⟩
      · obtain ⟨rfl, hrely⟩ := lockW_exec hb
        exact ⟨inv_lock h _, hrely, hP.lock _ hp⟩
      · obtain ⟨rfl, hrely⟩ := lockW_exec hb
        exact ⟨inv_lock h _, hrely, trivial⟩
    case unlockW =>
      refine ⟨fun w _ h hp hok => ⟨trivial, fun b w' hb => ?_⟩,
        fun i w _ h _ hok => ⟨trivial, fun b w' hb => ?_⟩⟩
      · obtain ⟨rfl, hrely⟩ := unlockW_exec hok hb
        exact ⟨inv_lock h _, hrely, hP.lock _ hp⟩
      · obtain ⟨rfl, hrely⟩ := unlockW_exec hok hb
        exact ⟨inv_lock h _, hrely, trivial⟩
  · have hharmless : (spec env G).Harmless o := harmless (by
      generalize o.tag = t at ho hl
      simp_all [hardSteps, ownSteps, sizedSteps])
    exact ⟨hharmless.under fun hw h => hP.rely hw h, hharmless.mild⟩

theorem uses (hP : Keeper i P) {p : M α} {l : List Tag} (hp : Uses l p)
    (hl : ∀ t ∈ l, t ∉ hardSteps) : (spec env G).Keeps i P p :=
  Spec.keeps_of_all (fun hw h => hP.rely hw h) (Prog.All.mono (fun _ ho => under hP (hl _ ho)) hp)

theorem easyOp (hP : Keeper i P) {o : Op β} {k : β → M α} {Q : α → PUnit → World → Prop}
    (ho : o.tag ∉ hardSteps) (h : P w) (hk : ∀ b w, P w → (spec env G).Safe i (k b) 0 Q w) :
    (spec env G).Safe i (.op o k) 0 Q w :=
  (under hP ho).1.safe_op (fun hw h => hP.rely hw h) h fun _ b w _ _ _ _ h => hk b w h

theorem keepsOp (hP : Keeper i P) {o : Op β} {k : β → M α} (ho : o.tag ∉ hardSteps)
    (hk : ∀ b, (spec env G).Keeps i P (k b)) : (spec env G).Keeps i P (.op o k) :=
  (under hP ho).1.keeps (fun hw h => hP.rely hw h) hk

theorem keepsRet (hP : Keeper i P) (a : α) : (spec env G).Keeps i P (.ret a) :=
  Spec.keeps_ret (fun hw h => hP.rely hw h) a

def Holds (i : Nat) (P : World → Prop) (limit : Nat) (w : World) : Prop :=
  P w ∧ w.wmu = some i ∧ limit ≤ w.frameLimit

theorem Holds.rely (hP : Keeper i P) {limit : Nat} (hw : Rely i w w') (h : Holds i P limit w) :
    Holds i P limit w' :=
  ⟨hP.rely hw h.1, (hw.lock h.2.1).1, h.2.2.trans (hP.limit hw h.1 h.2.1)⟩

theorem holdsOp (hP : Keeper i P) {limit : Nat} {o : Op β} {k : β → M α}
    (ho : o.tag ∉ ownSteps ++ sizedSteps)
    (hk : ∀ b, (spec env G).Keeps i (Holds i P limit) (k b)) :
    (spec env G).Keeps i (Holds i P limit) (.op o k) :=
  ((harmless ho).under fun hw h => Holds.rely hP hw h).keeps (fun hw h => Holds.rely hP hw h) hk

theorem holdsRet (hP : Keeper i P) {limit : Nat} (a : α) :
    (spec env G).Keeps i (Holds i P limit) (.ret a) :=
  Spec.keeps_ret (fun hw h => Holds.rely hP hw h) a

theorem peerSettingsOp (hP : Keeper i P) {limit : Nat} {k : SettingsParams → M α}
    (hk : ∀ ps, (spec env G).Keeps i
      (Holds i P (max limit (settingValue ps .maxFrameSize 16384))) (k ps)) :
    (spec env G).Keeps i (Holds i P limit) (.op .peerSettings k) := by
  intro w h
  refine (harmless (by decide)).safe_op fun w₁ ps w₂ _ _ _ hb hw => ?_
  change (ps, w₂) ∈ Op.exec env i w₁ .peerSettings at hb
  cases List.mem_singleton.1 hb
  have h₁ := h.rely hP hw
  refine (hk w₁.peerSettings w₁ ⟨h₁.1, h₁.2.1, max_le h₁.2.2 (le_max_right ..)⟩).mono ?_
  exact fun _ _ _ ⟨hg, hp, hi, hl⟩ => ⟨hg, hp, hi, (le_max_left ..).trans hl⟩

theorem payload_of_block {f : Outbound} (hf : f.tag ∈ [.headers, .pushPromise]) :
    f.payload ≤ 16384 := by
  cases f with
  | headers =>
    simp only [Outbound.payload, Outbound.overhead]
    split <;> omega
  | pushPromise => simp [Outbound.payload, Outbound.overhead]
  | windowUpdate x =>
    rw [Outbound.tag_windowUpdate] at hf
    split at hf <;> simp at hf
  | _ => simp at hf

theorem write_small (hP : Keeper i P) {limit : Nat} {f : Outbound} {k : Bool → M α}
    (hf : f.tag ∈ [.headers, .pushPromise]) (hfits : ∀ n, limit ≤ n → f.Fits n)
    (hk : ∀ ok, (spec env G).Keeps i (Holds i P limit) (k ok)) :
    (spec env G).Keeps i (Holds i P limit) (.op (.write f) k) := by
  have hcalm : (Op.write f).tag ∉ ownSteps := by
    rw [Op.tag]
    generalize f.tag = t at hf
    revert t
    decide
  have hunder : (spec env G).Under i (Holds i P limit) (.write f) := by
    intro w _ h hw _
    refine ⟨⟨.inr ⟨(payload_of_block hf).trans (limit_le h), hfits _ hw.2.2⟩, ?_⟩, fun b w' hb => ?_⟩
    · rintro rfl
      simp at hf
    change (b, w') ∈ Op.exec env i w (.write f) at hb
    obtain ⟨hreader, hdone, hwmu, hv⟩ := calm hcalm hb
    have hrely := rely_of_view hreader hwmu hv
    exact ⟨Inv.congr h hreader hdone hv, fun j _ => hrely j, Holds.rely hP (hrely i) hw⟩
  exact hunder.keeps (fun hw h => Holds.rely hP hw h) hk

theorem locked (hP : Keeper i P) {p : M α} (hp : (spec env G).Keeps i (Holds i P 0) p)
    {k : α → M β} (hk : ∀ a, (spec env G).Keeps i P (k a)) :
    (spec env G).Keeps i P (.op .lockW fun _ => p.bind k) := by
  refine fun w h => (under hP (by decide)).1.safe_op (fun hw h => hP.rely hw h) h
    fun w₁ u w₂ _ h₁ _ hb h₂ => ?_
  obtain ⟨rfl, -⟩ := lockW_exec hb
  refine Spec.Safe.bind ((hp _ ⟨h₂, rfl, Nat.zero_le _⟩).mono ?_)
  rintro a g w₃ ⟨rfl, h₃, -⟩
  exact hk a w₃ h₃

theorem writeServerHeaders_keeps (hP : Keeper i P) (x : Nat) (fields : List HeaderField)
    (endStream : Bool) (prio : Option Priority) :
    (spec env G).Keeps i P (writeServerHeaders env x fields endStream prio) := by
  have hlocked (prio) : (spec env G).Keeps i (Holds i P 0)
      (writeHeadersLocked env x fields endStream prio) := by
    simp only [writeHeadersLocked, maxWritableFrame, Prog.bind_eq, Prog.lift_bind, Prog.pure_eq,
      Prog.op_bind, Prog.ret_bind]
    refine holdsOp hP (by simp +decide) fun st => ?_
    split
    · exact holdsRet hP _
    refine peerSettingsOp hP fun ps => ?_
    generalize hbudget : (if prio.isSome = true then _ - 5 else _ : Int) = budget
    split
    · exact holdsRet hP _
    · rename_i hfit
      have hbudget : budget = (min (settingValue ps .maxFrameSize 16384)
          env.cfg.advertisedSettings.maxFrameSize : Nat) -
            (Outbound.headers x fields endStream prio).overhead := by
        rw [← hbudget, Outbound.overhead]
        split <;> simp
      rw [hbudget] at hfit
      refine holdsOp hP (by simp +decide) fun _ => write_small hP (by simp) (fun n hn => ?_)
        fun _ => holdsRet hP _
      have hle : min (settingValue ps .maxFrameSize 16384)
          env.cfg.advertisedSettings.maxFrameSize ≤ n := by omega
      exact HpackSend.fits_of_budget hle rfl (by simpa using hfit)
  simp only [writeServerHeaders, Prog.bind_eq, Prog.lift_bind, Prog.pure_eq]
  refine keepsOp hP (by decide) fun closed => ?_
  split
  · exact keepsRet hP _
  · refine keepsOp hP (by simp +decide) fun stored => locked hP (hlocked _) fun r => ?_
    exact keepsOp hP (by decide) fun _ => keepsRet hP _

theorem sendHeaders_keeps (hP : Keeper i P) (x : Nat) (fields : List HeaderField)
    (endStream : Bool) (prio : Option Priority) :
    (spec env G).Keeps i P (sendHeaders env x fields endStream prio) := by
  refine keepsOp hP (by simp +decide) fun st => ?_
  dsimp only [Prog.ret_bind]
  split
  · exact keepsRet hP _
  refine (writeServerHeaders_keeps hP x fields endStream prio).bind fun r => ?_
  cases r with
  | error e => exact keepsRet hP _
  | ok _ =>
    refine keepsOp hP (by simp +decide) fun _ => ?_
    exact (uses hP (endLocal_uses x endStream) (by decide)).bind fun _ => keepsRet hP _

theorem pushWithPriority_keeps (hP : Keeper i P) (x : Nat) (fields : List HeaderField)
    (prio : Option Priority) : (spec env G).Keeps i P (pushWithPriority env x fields prio) := by
  have hlocked : (spec env G).Keeps i (Holds i P 0) (writePushPromiseLocked env x fields) := by
    simp only [writePushPromiseLocked, maxWritableFrame, Prog.bind_eq, Prog.lift_bind, Prog.pure_eq,
      Prog.op_bind, Prog.ret_bind]
    refine holdsOp hP (by simp +decide) fun live => ?_
    split
    · exact holdsRet hP _
    refine holdsOp hP (by decide) fun ps => peerSettingsOp hP fun ps' => ?_
    split
    · exact holdsRet hP _
    rename_i hfit
    rw [Bool.not_eq_true', Bool.not_eq_false] at hfit
    refine holdsOp hP (by simp +decide) fun promised => ?_
    cases promised with
    | none => exact holdsRet hP _
    | some promised =>
      refine holdsOp hP (by simp +decide) fun _ => write_small hP (by simp) (fun n hn => ?_)
        fun ok => ?_
      · exact HpackSend.fits_of_budget (by omega) rfl hfit
      split
      · exact holdsRet hP _
      · exact holdsOp hP (by simp +decide) fun _ => holdsOp hP (by simp +decide) fun _ =>
          holdsRet hP _
  have hwrite : (spec env G).Keeps i P (writePushPromise env x fields) := by
    simp only [writePushPromise, Prog.bind_eq, Prog.lift_bind, Prog.pure_eq]
    refine keepsOp hP (by decide) fun closed => ?_
    split
    · exact keepsRet hP _
    · exact locked hP hlocked fun r => keepsOp hP (by decide) fun _ => keepsRet hP _
  have hpush : (spec env G).Keeps i P (pushPromise env x fields) := by
    simp only [pushPromise, Prog.bind_eq, Prog.lift_bind, Prog.pure_eq]
    refine keepsOp hP (by decide) fun ps => ?_
    split
    · exact keepsRet hP _
    refine keepsOp hP (by decide) fun goAway => ?_
    split
    · exact keepsRet hP _
    split
    · exact keepsRet hP _
    split
    · exact keepsRet hP _
    refine keepsOp hP (by simp +decide) fun st => ?_
    split
    · exact keepsRet hP _
    · exact hwrite
  refine hpush.bind fun r => ?_
  cases r with
  | error e => exact keepsRet hP _
  | ok promised => exact keepsOp hP (by simp +decide) fun _ => keepsRet hP _

end Writers

end InForce

end PoseidonServer.Conn
