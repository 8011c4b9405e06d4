-- SUMMARY: JSON libraries as a parameter: accessors that may throw, and what reading fields with a default takes of them.
import Mathlib.Data.Nat.Notation
import Mathlib.Logic.Basic

/-!
# JSON libraries

A program reads its documents with the accessors of a library. Here they are a parameter,
over any representation `J` of documents and any type `E` of exceptions. Reading a field
with a default takes three facts of the library, which are hypotheses: `value` throws on
what is no object, gives the default for a missing field, and converts a field that is
there. Which documents a conversion takes is up to the library.
-/

namespace Lib

/-- The accessors of a library that a program calls. -/
structure JsonLibrary (J E : Type) where
  isObject : J → Bool
  isArray : J → Bool
  /-- The member of this name, where `contains` finds one. -/
  member? : J → String → Option J
  /-- What a loop over an array visits, in order. -/
  elements : J → List J
  /-- `operator[]`, of a document that need not have the member. -/
  index : J → String → Except E J
  getU32 : J → Except E UInt32
  getU64 : J → Except E UInt64
  getString : J → Except E String
  valueU32 : J → String → UInt32 → Except E UInt32
  valueU64 : J → String → UInt64 → Except E UInt64
  valueString : J → String → String → Except E String

namespace JsonLibrary

variable {J E α β : Type} (lib : JsonLibrary J E)

/-- `value(key, default)` of one type and the conversion to that type. -/
structure ReadsFields (value : J → String → α → Except E α) (get : J → Except E α) : Prop where
  not_object : ∀ j key default, lib.isObject j = false → ∃ e, value j key default = .error e
  missing : ∀ j key default, lib.isObject j = true → lib.member? j key = none →
    value j key default = .ok default
  present : ∀ j key default field, lib.isObject j = true → lib.member? j key = some field →
    value j key default = get field

structure Lawful : Prop where
  u32 : lib.ReadsFields lib.valueU32 lib.getU32
  u64 : lib.ReadsFields lib.valueU64 lib.getU64
  string : lib.ReadsFields lib.valueString lib.getString

/-- The field is missing or can be converted. -/
def fits (get : J → Except E α) (j : J) (key : String) : Bool :=
  match lib.member? j key with
  | none => true
  | some field => (get field).isOk

/-- The field as it is converted, or the default. -/
def fieldD (get : J → Except E α) (j : J) (key : String) (default : α) : α :=
  match lib.member? j key with
  | none => default
  | some field => (get field).toOption.getD default

/-! ## When the accessors throw -/

/-- The computation throws nothing. -/
def Completes (x : Except E α) : Prop := ∃ a, x = .ok a

theorem not_completes {x : Except E α} {e : E} (h : x = .error e) : ¬ Completes x := by
  rintro ⟨a, ha⟩
  rw [h] at ha
  cases ha

theorem bind_eq_ok {x : Except E α} {f : α → Except E β} {b : β} :
    x.bind f = .ok b ↔ ∃ a, x = .ok a ∧ f a = .ok b := by
  cases x with
  | error e => simp [Except.bind]
  | ok a => simp [Except.bind]

/-- A sequence completes when the first part does and the second does with whatever the first
    has given. -/
theorem completes_bind {x : Except E α} {f : α → Except E β} {P : Prop}
    (h : ∀ a, x = .ok a → (Completes (f a) ↔ P)) : Completes (x.bind f) ↔ Completes x ∧ P := by
  constructor
  · rintro ⟨b, hb⟩
    obtain ⟨a, ha, hf⟩ := bind_eq_ok.mp hb
    exact ⟨⟨a, ha⟩, (h a ha).mp ⟨b, hf⟩⟩
  · rintro ⟨⟨a, ha⟩, hP⟩
    obtain ⟨b, hb⟩ := (h a ha).mpr hP
    exact ⟨b, bind_eq_ok.mpr ⟨a, ha, hb⟩⟩

namespace ReadsFields

variable {lib} {value : J → String → α → Except E α} {get : J → Except E α} {j : J} {key : String}

theorem value_eq_ok (h : lib.ReadsFields value get) (hobj : lib.isObject j = true)
    (hfits : lib.fits get j key = true) (default : α) :
    value j key default = .ok (lib.fieldD get j key default) := by
  cases hmember : lib.member? j key with
  | none => simp [h.missing j key default hobj hmember, fieldD, hmember]
  | some field =>
    rw [h.present j key default field hobj hmember]
    simp only [fits, hmember] at hfits
    cases hget : get field with
    | error e =>
      rw [hget] at hfits
      cases hfits
    | ok a => simp [fieldD, hmember, hget, Except.toOption]

theorem completes_value (h : lib.ReadsFields value get) (default : α) :
    Completes (value j key default) ↔ lib.isObject j = true ∧ lib.fits get j key = true := by
  cases hobj : lib.isObject j with
  | false =>
    obtain ⟨e, he⟩ := h.not_object j key default hobj
    exact iff_of_false (not_completes he) (by simp)
  | true =>
    cases hfits : lib.fits get j key with
    | true => exact iff_of_true ⟨_, h.value_eq_ok hobj hfits default⟩ ⟨rfl, rfl⟩
    | false =>
      refine iff_of_false ?_ (by simp)
      rintro ⟨a, ha⟩
      cases hmember : lib.member? j key with
      | none => simp [fits, hmember] at hfits
      | some field =>
        rw [h.present j key default field hobj hmember] at ha
        simp [fits, hmember, ha, Except.isOk, Except.toBool] at hfits

end ReadsFields

/-! ## A small library -/

/-- Documents of a library that meets the hypotheses. -/
inductive Sample where
  | null
  | number (n : UInt64)
  | text (s : String)
  | array (items : List Sample)
  | object (members : List (String × Sample))

namespace Sample

inductive Error where
  | notObject
  | wrongType
  deriving DecidableEq, Repr

def members? : Sample → Option (List (String × Sample))
  | object members => some members
  | _ => none

def toU64 : Sample → Except Error UInt64
  | number n => .ok n
  | _ => .error .wrongType

def toText : Sample → Except Error String
  | text s => .ok s
  | _ => .error .wrongType

def read (get : Sample → Except Error α) (j : Sample) (key : String) (default : α) : Except Error α :=
  match j.members? with
  | none => .error .notObject
  | some members =>
    match members.lookup key with
    | none => .ok default
    | some field => get field

def library : JsonLibrary Sample Error where
  isObject j := j.members?.isSome
  isArray j := j matches array _
  member? j key := j.members?.bind (·.lookup key)
  elements
    | array items => items
    | _ => []
  index j key :=
    match j.members? with
    | none => .error .notObject
    | some members => .ok ((members.lookup key).getD null)
  getU32 j := j.toU64.map (·.toUInt32)
  getU64 := toU64
  getString := toText
  valueU32 := read fun j => j.toU64.map (·.toUInt32)
  valueU64 := read toU64
  valueString := read toText

theorem readsFields (get : Sample → Except Error α) : library.ReadsFields (read get) get where
  not_object j key default hobj := by
    refine ⟨.notObject, ?_⟩
    rw [read, Option.not_isSome_iff_eq_none.mp (Bool.eq_false_iff.mp hobj)]
  missing j key default hobj hmember := by
    obtain ⟨members, hmembers⟩ := Option.isSome_iff_exists.mp hobj
    have hlookup : members.lookup key = none := by simpa [library, hmembers] using hmember
    simp [read, hmembers, hlookup]
  present j key default field hobj hmember := by
    obtain ⟨members, hmembers⟩ := Option.isSome_iff_exists.mp hobj
    have hlookup : members.lookup key = some field := by simpa [library, hmembers] using hmember
    simp [read, hmembers, hlookup]

theorem lawful : library.Lawful := ⟨readsFields _, readsFields _, readsFields _⟩

end Sample

end JsonLibrary

end Lib
