import PoseidonServer.Grpc.Fields

/-! Descriptor sets, and what `RegisterFileDescriptorSet` takes out of them. -/

namespace PoseidonServer.Grpc

open Outcome Protobuf

structure ServiceProto where
  name : Bytes
  before : List WireField
  after : List WireField
  name_ne_nil : name ≠ []
  unnamed : ∀ f ∈ before ++ after, octetsOf 1 f = none

def ServiceProto.fields (s : ServiceProto) : List WireField :=
  s.before ++ ⟨1, .len s.name⟩ :: s.after

inductive FileEntry
  | name (s : Bytes)
  | package (s : Bytes)
  | service (s : ServiceProto)
  | other (f : WireField) (h : octetsOf 1 f = none ∧ octetsOf 2 f = none ∧ octetsOf 6 f = none)

namespace FileEntry

def name? : FileEntry → Option Bytes
  | .name s => some s
  | _ => none

def package? : FileEntry → Option Bytes
  | .package s => some s
  | _ => none

def service? : FileEntry → Option ServiceProto
  | .service s => some s
  | _ => none

inductive Encodes : FileEntry → WireField → Prop
  | name (s : Bytes) : Encodes (.name s) ⟨1, .len s⟩
  | package (s : Bytes) : Encodes (.package s) ⟨2, .len s⟩
  | service {s : ServiceProto} {bs : Bytes} (h : Message s.fields bs) :
      Encodes (.service s) ⟨6, .len bs⟩
  | other (f : WireField) (h : octetsOf 1 f = none ∧ octetsOf 2 f = none ∧ octetsOf 6 f = none) :
      Encodes (.other f h) f

end FileEntry

/-- A `FileDescriptorProto`: its fields come in any order. -/
structure FileProto where
  entries : List FileEntry
  names : (entries.filterMap FileEntry.name?).length ≤ 1
  packages : (entries.filterMap FileEntry.package?).length ≤ 1

namespace FileProto

def package (file : FileProto) : Bytes := (file.entries.findSome? FileEntry.package?).getD []

def serviceNames (file : FileProto) : List Bytes :=
  (file.entries.filterMap FileEntry.service?).map fun s => qualify file.package s.name

def Encodes (file : FileProto) (bs : Bytes) : Prop :=
  ∃ fs, List.Forall₂ FileEntry.Encodes file.entries fs ∧ Message fs bs

end FileProto

/-- A `FileDescriptorSet` of these files, each with its encoding. -/
def SetEncodes (files : List FileProto) (encoded : List Bytes) (data : Bytes) : Prop :=
  List.Forall₂ FileProto.Encodes files encoded ∧
    ∃ fs, Message fs data ∧ fs.filterMap (octetsOf 1) = encoded

section Readers

variable {fs : List WireField} {n : Nat}

theorem holds_iff (f : WireField) (number : Nat) (start stop : Int) :
    (⟨f.number, f.payload.wireType, start, stop⟩ : Field).Holds number ↔
      ∃ s, f.payload = .len s ∧ octetsOf number f = some s := by
  obtain ⟨k, p⟩ := f
  cases p <;> simp [Field.Holds, octetsOf, Payload.wireType]

theorem octetsOf_eq_none (f : WireField) (number : Nat) (start stop : Int)
    (h : ¬(⟨f.number, f.payload.wireType, start, stop⟩ : Field).Holds number) :
    octetsOf number f = none := by
  rw [holds_iff] at h
  unfold octetsOf at h ⊢
  split
  · rename_i s hs
    split
    · rename_i hn
      exact absurd ⟨s, hs, by simp [hs, hn]⟩ h
    · rfl
  · rfl

theorem stringStep_message (number : Nat) (pre : Bytes) {rest : Bytes} (h : Message fs rest)
    (hdata : (pre ++ rest).length < 2 ^ 63) (hn : fs.length < n) :
    loop (fun pos _ => stringStep (pre ++ rest) number pos) (pre.length : Int) n =
      .ok ((fs.findSome? (octetsOf number)).getD []) := by
  induction h generalizing pre n with
  | nil =>
    obtain ⟨n, rfl⟩ : ∃ j, n = j + 1 := ⟨n - 1, by omega⟩
    simp [loop, stringStep]
  | @cons f fs tag value rest h _ ih =>
    obtain ⟨n, rfl⟩ : ∃ j, n = j + 1 := ⟨n - 1, by omega⟩
    simp only [List.length_cons, Nat.add_lt_add_iff_right] at hn
    rw [← List.append_assoc] at hdata ⊢
    obtain ⟨start, hf, hslice⟩ := fieldAt_append pre rest h hdata
    rw [loop, stringStep_some hdata hf, List.findSome?_cons]
    split
    · rename_i hholds
      obtain ⟨s, hs, hoct⟩ := (holds_iff f number _ _).1 hholds
      dsimp only
      rw [hslice s hs, hoct]
      rfl
    · rename_i hholds
      rw [octetsOf_eq_none f number _ _ hholds]
      exact ih _ hdata hn

/-- The first field of that number that holds octets. -/
theorem extractStringField_message (number : Nat) {data : Bytes} (h : Message fs data)
    (hdata : data.length < 2 ^ 63) (hn : fs.length < n) :
    extractStringField data number n = .ok ((fs.findSome? (octetsOf number)).getD []) :=
  stringStep_message number [] h hdata hn

theorem fileStep_message (pre : Bytes) (l : List Bytes) {rest : Bytes} (h : Message fs rest)
    (hdata : (pre ++ rest).length < 2 ^ 63) (hn : fs.length < n) :
    loop (fun s _ => fileStep (pre ++ rest) s) ((pre.length : Int), l) n =
      .ok (l ++ fs.filterMap (octetsOf 1)) := by
  induction h generalizing pre n l with
  | nil =>
    obtain ⟨n, rfl⟩ : ∃ j, n = j + 1 := ⟨n - 1, by omega⟩
    simp [loop, fileStep]
  | @cons f fs tag value rest h _ ih =>
    obtain ⟨n, rfl⟩ : ∃ j, n = j + 1 := ⟨n - 1, by omega⟩
    simp only [List.length_cons, Nat.add_lt_add_iff_right] at hn
    rw [← List.append_assoc] at hdata ⊢
    obtain ⟨start, hf, hslice⟩ := fieldAt_append pre rest h hdata
    have hstop : ((pre ++ (tag ++ value)).length : Int) ≤ (pre ++ (tag ++ value) ++ rest).length := by
      simp
    rw [loop, fileStep_some hdata hf]
    by_cases hholds : (⟨f.number, f.payload.wireType, start,
        (pre ++ (tag ++ value)).length⟩ : Field).Holds 1
    · obtain ⟨s, hs, hoct⟩ := (holds_iff f 1 _ _).1 hholds
      rw [if_pos hholds, if_pos hstop, hslice s hs, List.filterMap_cons_some hoct]
      exact (ih _ _ hdata hn).trans (by simp)
    · rw [if_neg hholds, if_pos fun _ => ⟨Int.natCast_nonneg _, hstop⟩,
        List.filterMap_cons_none (octetsOf_eq_none f 1 _ _ hholds)]
      exact ih _ _ hdata hn

/-- All fields of number 1 that hold octets. -/
theorem extractFileProtos_message {data : Bytes} (h : Message fs data)
    (hdata : data.length < 2 ^ 63) (hn : fs.length < n) :
    extractFileProtos data n = .ok (fs.filterMap (octetsOf 1)) :=
  fileStep_message [] [] h hdata hn

theorem extractStringField_service {s : ServiceProto} {bs : Bytes} (h : Message s.fields bs)
    (hdata : bs.length < 2 ^ 63) (hn : s.fields.length < n) :
    extractStringField bs 1 n = .ok s.name := by
  have hnone : s.before.findSome? (octetsOf 1) = none := by
    rw [List.findSome?_eq_none_iff]
    exact fun f hf => s.unnamed f (List.mem_append_left _ hf)
  have hname := extractStringField_message 1 h hdata hn
  rw [ServiceProto.fields, List.findSome?_append, hnone] at hname
  simpa [octetsOf] using hname

theorem FileEntry.Encodes.service_of_octets {entry : FileEntry} {f : WireField} {bs : Bytes}
    (h : entry.Encodes f) (hf : octetsOf 6 f = some bs) :
    ∃ s, entry = .service s ∧ Message s.fields bs := by
  cases h with
  | name | package => simp [octetsOf] at hf
  | @service s bs' h =>
    simp only [octetsOf, if_true, Option.some.injEq] at hf
    exact ⟨s, rfl, hf ▸ h⟩
  | other f h => simp [h.2.2] at hf

theorem FileEntry.Encodes.service?_eq_none {entry : FileEntry} {f : WireField}
    (h : entry.Encodes f) (hf : octetsOf 6 f = none) : entry.service? = none := by
  cases h with
  | service => simp [octetsOf] at hf
  | _ => rfl

theorem serviceStep_message (pkg pre : Bytes) (l : List Bytes) {entries : List FileEntry}
    {rest : Bytes} (hentries : List.Forall₂ FileEntry.Encodes entries fs) (h : Message fs rest)
    (hdata : (pre ++ rest).length < 2 ^ 63) (hn : rest.length < n) :
    loop (fun s n => serviceStep (pre ++ rest) pkg n s) ((pre.length : Int), l) n =
      .ok (l ++ (entries.filterMap FileEntry.service?).map fun s => qualify pkg s.name) := by
  induction h generalizing pre n l entries with
  | nil =>
    cases hentries
    obtain ⟨n, rfl⟩ : ∃ j, n = j + 1 := ⟨n - 1, by omega⟩
    simp [loop, serviceStep]
  | @cons f fs tag value rest h _ ih =>
    obtain ⟨n, rfl⟩ : ∃ j, n = j + 1 := ⟨n - 1, by omega⟩
    have htag := h.tagged.length_pos
    simp only [List.length_append] at hn
    rw [← List.append_assoc] at hdata ⊢
    obtain ⟨start, hf, hslice⟩ := fieldAt_append pre rest h hdata
    have hstop : ((pre ++ (tag ++ value)).length : Int) ≤ (pre ++ (tag ++ value) ++ rest).length := by
      simp
    rw [loop, serviceStep_some hdata hf]
    cases hentries with | cons hentry hentries =>
    by_cases hholds : (⟨f.number, f.payload.wireType, start,
        (pre ++ (tag ++ value)).length⟩ : Field).Holds 6
    · obtain ⟨bs, hs, hoct⟩ := (holds_iff f 6 _ _).1 hholds
      obtain ⟨s, rfl, hmsg⟩ := hentry.service_of_octets hoct
      have hbs : bs.length ≤ value.length := (hs ▸ h.valued).length_le
      have hname : extractStringField bs 1 n = .ok s.name := by
        simp only [List.length_append] at hdata
        exact extractStringField_service hmsg (by omega) (hmsg.length_le.trans_lt (by omega))
      rw [if_pos ⟨hholds, hstop⟩, hslice bs hs, ok_bind, hname, ok_bind, if_pos s.name_ne_nil,
        List.filterMap_cons_some (f := FileEntry.service?) rfl]
      exact (ih _ _ hentries hdata (by omega)).trans (by simp)
    · rw [if_neg fun hboth => hholds hboth.1, List.filterMap_cons_none
        (hentry.service?_eq_none (octetsOf_eq_none f 6 _ _ hholds))]
      exact ih _ _ hentries hdata (by omega)

theorem findSome?_package {entries : List FileEntry}
    (hentries : List.Forall₂ FileEntry.Encodes entries fs) :
    fs.findSome? (octetsOf 2) = entries.findSome? FileEntry.package? := by
  induction hentries with
  | nil => rfl
  | cons h _ ih =>
    rw [List.findSome?_cons, List.findSome?_cons, ih]
    cases h with
    | other f h => simp [h.2.1, FileEntry.package?]
    | _ => simp [octetsOf, FileEntry.package?]

/-- The services of a file, under the names they are listed with. -/
theorem extractServiceNames_file {file : FileProto} {bs : Bytes} (h : file.Encodes bs)
    (hdata : bs.length < 2 ^ 63) (hn : bs.length < n) :
    extractServiceNames bs n = .ok file.serviceNames := by
  obtain ⟨fs, hentries, hmsg⟩ := h
  have hpkg := extractStringField_message 2 hmsg hdata (hmsg.length_le.trans_lt hn)
  rw [findSome?_package hentries, Nat.cast_ofNat] at hpkg
  rw [extractServiceNames, hpkg, ok_bind]
  exact serviceStep_message file.package [] [] hentries hmsg hdata hn

end Readers

/-- All files of a descriptor set are found, and for each of them all its services. -/
theorem descriptor_set_extracted {files : List FileProto} {encoded : List Bytes} {data : Bytes}
    (h : SetEncodes files encoded data) (hdata : data.length < 2 ^ 63) {n : Nat}
    (hn : data.length < n) :
    extractFileProtos data n = .ok encoded ∧
      List.Forall₂ (fun file bs => extractServiceNames bs n = .ok file.serviceNames)
        files encoded := by
  obtain ⟨hfiles, fs, hmsg, hencoded⟩ := h
  refine ⟨hencoded ▸ extractFileProtos_message hmsg hdata (hmsg.length_le.trans_lt hn), ?_⟩
  have hle : ∀ bs ∈ encoded, bs.length ≤ data.length := by
    intro bs hbs
    rw [← hencoded] at hbs
    obtain ⟨f, hf, hoct⟩ := List.mem_filterMap.1 hbs
    exact hmsg.octets_length_le (eq_of_octetsOf hoct ▸ hf)
  have hboth := ((List.forall₂_and_left _ _).2 ⟨hle, hfiles.flip⟩).flip
  exact hboth.imp fun _ _ h => extractServiceNames_file h.2 (h.1.trans_lt hdata) (h.1.trans_lt hn)

def echoService : ServiceProto := ⟨ascii "Echo", [], [], by decide, by simp⟩

def echoFile : FileProto :=
  ⟨[.name (ascii "e.proto"), .package (ascii "v1"), .service echoService], by decide, by decide⟩

def echoServiceOctets : Bytes := [0x0a, 4] ++ ascii "Echo"

def echoOctets : Bytes :=
  ([0x0a, 7] ++ ascii "e.proto") ++ (([0x12, 2] ++ ascii "v1") ++ ([0x32, 6] ++ echoServiceOctets))

theorem echoFile_encodes : echoFile.Encodes echoOctets := by
  have hservice : Message echoService.fields echoServiceOctets := .short (by decide) (by decide)
  refine ⟨_, .cons (.name _) (.cons (.package _) (.cons (.service hservice) .nil)), ?_⟩
  have hname : Message [⟨1, .len (ascii "e.proto")⟩] _ := .short (by decide) (by decide)
  have hpackage : Message [⟨2, .len (ascii "v1")⟩] _ := .short (by decide) (by decide)
  exact hname.append (hpackage.append (.short (by decide) (by decide)))

theorem descriptor_set_extracted_echo :
    extractFileProtos ([0x0a, 21] ++ echoOctets) 30 = .ok [echoOctets] ∧
    extractServiceNames echoOctets 30 = .ok [ascii "v1.Echo"] := by
  have hfile : Message [⟨1, .len echoOctets⟩] ([0x0a, 21] ++ echoOctets) :=
    .short (by decide) (by decide)
  have hset : SetEncodes [echoFile] [echoOctets] ([0x0a, 21] ++ echoOctets) :=
    ⟨.cons echoFile_encodes .nil, _, hfile, rfl⟩
  obtain ⟨hfiles, hnames⟩ := descriptor_set_extracted hset (by decide) (n := 30) (by decide)
  cases hnames with
  | cons hname _ => exact ⟨hfiles, hname⟩

end PoseidonServer.Grpc
