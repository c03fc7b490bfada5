import ConcordBackend.Library.Json
import Mathlib.Data.List.Forall2
import Mathlib.Data.List.Nodup
import Mathlib.Logic.Equiv.Defs
import Mathlib.Logic.Function.Basic

/-!
# Reading structs from JSON

What a derived deserializer makes of a JSON value. The members of an object are taken one by
one: a member with the name of a field is read into the field's slot, which must be empty, and
any other member is passed over; at the end every slot must be filled, or its field must do
without. The values of an array are the fields in the order of their declaration.

`Schema.Shows` is the grammar this comes to: each field has one member of its name that shows
its value, or none if it can do without. `Schema.decode_iff` says that what is read is what is
shown, given the same of the fields, so that grammars of nested structs are read level by level.
-/

namespace Json

/-! ### Values -/

/-- A string. -/
def readString : Json → Option String
  | .str s => some s
  | _ => none

/-- A boolean. -/
def readBool : Json → Option Bool
  | .bool b => some b
  | _ => none

/-- An unsigned integer of 32 bits. -/
def readU32 : Json → Option UInt32
  | .num n => if 0 ≤ n ∧ n.toNat < UInt32.size then some (UInt32.ofNat n.toNat) else none
  | _ => none

/-- A signed integer of 64 bits. -/
def readI64 : Json → Option Int64
  | .num n => if Int64.minValue.toInt ≤ n ∧ n ≤ Int64.maxValue.toInt then some (Int64.ofInt n) else none
  | _ => none

/-- A list. -/
def readList {α : Type} (read : Json → Option α) : Json → Option (List α)
  | .arr values => values.mapM read
  | _ => none

/-- A value that may be null. -/
def readOption {α : Type} (read : Json → Option α) : Json → Option (Option α)
  | .null => some none
  | value => (read value).map some

section Read

variable {value : Json}

theorem readString_eq_some {s : String} : readString value = some s ↔ value = .str s := by
  cases value with
  | str s' => rw [readString, Option.some.injEq, Json.str.injEq]
  | _ => exact ⟨fun h => (by cases h), fun h => (by cases h)⟩

theorem readBool_eq_some {b : Bool} : readBool value = some b ↔ value = .bool b := by
  cases value with
  | bool b' => rw [readBool, Option.some.injEq, Json.bool.injEq]
  | _ => exact ⟨fun h => (by cases h), fun h => (by cases h)⟩

theorem readU32_eq_some {n : UInt32} : readU32 value = some n ↔ value = .num n.toNat := by
  cases value with
  | num m =>
    rw [readU32, Json.num.injEq, Option.ite_none_right_eq_some, Option.some.injEq]
    constructor
    · rintro ⟨⟨hm, hlt⟩, rfl⟩
      rw [UInt32.toNat_ofNat_of_lt' hlt, Int.toNat_of_nonneg hm]
    · rintro rfl
      exact ⟨⟨Int.natCast_nonneg _, n.toNat_lt⟩, UInt32.ofNat_toNat⟩
  | _ => exact ⟨fun h => (by cases h), fun h => (by cases h)⟩

theorem readI64_eq_some {n : Int64} : readI64 value = some n ↔ value = .num n.toInt := by
  cases value with
  | num m =>
    rw [readI64, Json.num.injEq, Option.ite_none_right_eq_some, Option.some.injEq]
    constructor
    · rintro ⟨⟨hmin, hmax⟩, rfl⟩
      rw [Int64.toInt_ofInt_of_le hmin (Int.lt_of_le_of_lt hmax (by decide))]
    · rintro rfl
      exact ⟨⟨n.minValue_le_toInt, n.toInt_le⟩, Int64.ofInt_toInt n⟩
  | _ => exact ⟨fun h => (by cases h), fun h => (by cases h)⟩

variable {α : Type} {read : Json → Option α} {shown : Json → α → Prop}

/-- A list is read exactly where its values are, one by one. -/
theorem mapM_eq_some {values : List Json} {l : List α} :
    values.mapM read = some l ↔ List.Forall₂ (fun value a => read value = some a) values l := by
  constructor
  · intro h
    induction values generalizing l with
    | nil =>
      obtain rfl := Option.some.inj h
      exact .nil
    | cons value values ih =>
      rw [List.mapM_cons] at h
      obtain ⟨a, ha, h⟩ := Option.bind_eq_some_iff.mp h
      obtain ⟨l', hl, h⟩ := Option.bind_eq_some_iff.mp h
      obtain rfl := Option.some.inj h
      exact .cons ha (ih hl)
  · intro h
    induction h with
    | nil => rfl
    | cons ha _ ih =>
      rw [List.mapM_cons, ha, ih]
      rfl

theorem readList_eq_some (h : ∀ value a, read value = some a ↔ shown value a) {l : List α} :
    readList read value = some l ↔ ∃ values, value = .arr values ∧ List.Forall₂ shown values l := by
  have hshown : (fun value a => read value = some a) = shown :=
    funext fun value => funext fun a => propext (h value a)
  cases value with
  | arr values =>
    rw [readList, mapM_eq_some, hshown]
    exact ⟨fun h => ⟨values, rfl, h⟩, fun ⟨_, heq, h⟩ => Json.arr.inj heq ▸ h⟩
  | _ =>
    refine ⟨fun h => (by cases h), ?_⟩
    rintro ⟨_, h, -⟩
    cases h

/-- How a value that may be null is shown. -/
def ShowsOption (shown : Json → α → Prop) (value : Json) : Option α → Prop
  | none => value = .null
  | some a => shown value a

theorem readOption_eq_some (h : ∀ value a, read value = some a ↔ shown value a)
    (hnull : read .null = none) {o : Option α} :
    readOption read value = some o ↔ ShowsOption shown value o := by
  by_cases hvalue : value = .null
  · subst hvalue
    cases o with
    | none => exact ⟨fun _ => rfl, fun _ => rfl⟩
    | some a =>
      refine ⟨fun heq => (by cases heq), fun ha => ?_⟩
      rw [(h _ _).mpr ha] at hnull
      cases hnull
  · have hread : readOption read value = (read value).map some := by
      rw [readOption]
      exact hvalue
    rw [hread, Option.map_eq_some_iff]
    cases o with
    | none => exact ⟨fun ⟨_, _, heq⟩ => (by cases heq), fun heq => absurd heq hvalue⟩
    | some a =>
      refine ⟨fun ⟨b, hb, heq⟩ => ?_, fun ha => ⟨a, (h _ _).mpr ha, rfl⟩⟩
      obtain rfl := Option.some.inj heq
      exact (h _ _).mp hb

end Read

/-- The values of the members with a name. -/
def valuesOf (name : String) (members : List (String × Json)) : List Json :=
  members.filterMap fun m => if m.1 = name then some m.2 else none

@[simp] theorem valuesOf_nil (name : String) : valuesOf name [] = [] := rfl

theorem valuesOf_cons_self (name : String) (value : Json) (members : List (String × Json)) :
    valuesOf name ((name, value) :: members) = value :: valuesOf name members := by
  simp [valuesOf]

theorem valuesOf_cons_of_ne {name name' : String} (h : name' ≠ name) (value : Json)
    (members : List (String × Json)) :
    valuesOf name ((name', value) :: members) = valuesOf name members := by
  simp [valuesOf, h]

end Json

open Json

/-- The fields of a struct, in the order of their declaration: their names, the types of their
values, and what stands for the value of a field without a member, if it can do without. -/
structure Schema where
  Field : Type
  [decEq : DecidableEq Field]
  fields : List Field
  complete : ∀ f, f ∈ fields
  name : Field → String
  names_nodup : (fields.map name).Nodup
  Value : Field → Type
  missing : (f : Field) → Option (Value f)

namespace Schema

variable (s : Schema)

instance : DecidableEq s.Field := s.decEq

/-- A struct. -/
abbrev Record := (f : s.Field) → s.Value f

/-- How the values of the fields are read. -/
abbrev Reader := (f : s.Field) → Json → Option (s.Value f)

/-- The fields read so far. -/
abbrev Slots := (f : s.Field) → Option (s.Value f)

variable (read : s.Reader)

/-- The field with a name. -/
def fieldNamed (name : String) : Option s.Field := s.fields.find? fun f => s.name f = name

/-- Take the members of an object one by one. -/
def visitMap : List (String × Json) → s.Slots → Option s.Slots
  | [], slots => some slots
  | (name, value) :: members, slots =>
    match s.fieldNamed name with
    | none => visitMap members slots
    | some f =>
      if (slots f).isSome then none
      else (read f value).bind fun a => visitMap members (Function.update slots f (some a))

/-- Take the values of an array, for the fields that are left. -/
def visitSeq : List s.Field → List Json → s.Slots → Option s.Slots
  | [], [], slots => some slots
  | f :: fields, value :: values, slots =>
    (read f value).bind fun a => visitSeq fields values (Function.update slots f (some a))
  | _, _, _ => none

/-- The struct, once every field has a value or does without. -/
def finish (slots : s.Slots) : Option s.Record :=
  if h : ∀ f ∈ s.fields, ((slots f).or (s.missing f)).isSome = true then
    some fun f => ((slots f).or (s.missing f)).get (h f (s.complete f))
  else none

/-- Read a struct. -/
def decode : Json → Option s.Record
  | .obj members => (s.visitMap read members fun _ => none).bind s.finish
  | .arr values => (s.visitSeq read s.fields values fun _ => none).bind s.finish
  | _ => none

/-- What becomes of the slot of a field: it stays as it is if no member has its name, and an
empty slot is filled by the one that has. -/
def Fills (members : List (String × Json)) {f : s.Field} (slot slot' : Option (s.Value f)) :
    Prop :=
  (valuesOf (s.name f) members = [] ∧ slot' = slot) ∨
    (slot = none ∧ ∃ value a, valuesOf (s.name f) members = [value] ∧
      read f value = some a ∧ slot' = some a)

/-- Which JSON values show which values of the fields. -/
abbrev Shown := (f : s.Field) → Json → s.Value f → Prop

/-- Read a struct that has the fields of the schema. -/
def decodeAs {α : Type} (e : s.Record ≃ α) (value : Json) : Option α := (s.decode read value).map e

/-- What the members of an object say of a field. -/
inductive Says (shown : s.Shown) (members : List (String × Json)) (f : s.Field)
    (a : s.Value f) : Prop where
  | present {value : Json} (hvalue : valuesOf (s.name f) members = [value])
      (hshown : shown f value a)
  | absent (hnone : valuesOf (s.name f) members = []) (hmissing : s.missing f = some a)

/-- What a JSON value says of a struct. -/
def Shows (shown : s.Shown) : Json → s.Record → Prop
  | .obj members, r => ∀ f, s.Says shown members f (r f)
  | .arr values, r => List.Forall₂ (fun f value => shown f value (r f)) s.fields values
  | _, _ => False

/-- What a JSON value says of a struct that has the fields of the schema. -/
def ShowsAs {α : Type} (e : s.Record ≃ α) (shown : s.Shown) (value : Json) (a : α) : Prop :=
  s.Shows shown value (e.symm a)

variable {s read} {members : List (String × Json)}

theorem nodup : s.fields.Nodup := List.Nodup.of_map _ s.names_nodup

/-- No two fields have one name. -/
theorem name_inj {f g : s.Field} (h : s.name f = s.name g) : f = g :=
  List.inj_on_of_nodup_map s.names_nodup (s.complete f) (s.complete g) h

theorem fieldNamed_eq_some {name : String} {f : s.Field} :
    s.fieldNamed name = some f ↔ s.name f = name := by
  constructor
  · intro h
    simpa using List.find?_some h
  · intro h
    rcases hfound : s.fieldNamed name with _ | g
    · have hnone := List.find?_eq_none.mp hfound f (s.complete f)
      simp [h] at hnone
    · have hg : s.name g = name := by simpa using List.find?_some hfound
      rw [name_inj (hg.trans h.symm)]

theorem fieldNamed_eq_none {name : String} :
    s.fieldNamed name = none ↔ ∀ f, s.name f ≠ name := by
  simp only [Option.eq_none_iff_forall_ne_some, ne_eq, fieldNamed_eq_some]

theorem finish_eq_some {slots : s.Slots} {r : s.Record} :
    s.finish slots = some r ↔ ∀ f, (slots f).or (s.missing f) = some (r f) := by
  unfold finish
  split
  next h =>
    rw [Option.some.injEq, funext_iff]
    exact forall_congr' fun f => by rw [← Option.some_inj, Option.some_get]
  next h =>
    refine ⟨fun h' => (by cases h'), fun h' => absurd (fun f _ => ?_) h⟩
    rw [h' f]
    rfl

@[simp] theorem fills_nil {f : s.Field} {slot slot' : Option (s.Value f)} :
    s.Fills read [] slot slot' ↔ slot' = slot := by
  simp [Fills]

theorem fills_cons_of_ne {f : s.Field} {slot slot' : Option (s.Value f)} {name : String}
    (h : name ≠ s.name f) (value : Json) :
    s.Fills read ((name, value) :: members) slot slot' ↔ s.Fills read members slot slot' := by
  rw [Fills, Fills, valuesOf_cons_of_ne h]

/-- The member with the name of a field finds its slot empty, and is the last one to. -/
theorem fills_cons_self {f : s.Field} {slot slot' : Option (s.Value f)} (value : Json) :
    s.Fills read ((s.name f, value) :: members) slot slot' ↔
      slot = none ∧ ∃ a, read f value = some a ∧ s.Fills read members (some a) slot' := by
  constructor
  · rintro (⟨hnone, -⟩ | ⟨hslot, value', a, hvalues, hread, hslot'⟩)
    · rw [valuesOf_cons_self] at hnone
      cases hnone
    · rw [valuesOf_cons_self] at hvalues
      obtain ⟨rfl, hnone⟩ := List.cons.inj hvalues
      exact ⟨hslot, a, hread, Or.inl ⟨hnone, hslot'⟩⟩
  · rintro ⟨hslot, a, hread, ⟨hnone, hslot'⟩ | ⟨hfilled, -⟩⟩
    · exact Or.inr ⟨hslot, value, a, by rw [valuesOf_cons_self, hnone], hread, hslot'⟩
    · cases hfilled

/-- What the slots hold after the members of an object. -/
theorem visitMap_eq_some {slots slots' : s.Slots} :
    s.visitMap read members slots = some slots' ↔ ∀ f, s.Fills read members (slots f) (slots' f) := by
  induction members generalizing slots with
  | nil =>
    rw [visitMap, Option.some.injEq, funext_iff]
    exact forall_congr' fun f => by rw [fills_nil, eq_comm]
  | cons m members ih =>
    obtain ⟨name, value⟩ := m
    rcases hname : s.fieldNamed name with _ | f
    · -- a member that no field has the name of
      simp only [visitMap, hname, ih]
      have hne := fieldNamed_eq_none.mp hname
      exact forall_congr' fun f => (fills_cons_of_ne (hne f).symm value).symm
    · obtain rfl := fieldNamed_eq_some.mp hname
      have hother : ∀ g, g ≠ f → s.name f ≠ s.name g := fun g hg heq => hg (name_inj heq.symm)
      simp only [visitMap, hname]
      constructor
      · intro h g
        split at h
        · cases h
        next hslot =>
          obtain ⟨a, hread, h⟩ := Option.bind_eq_some_iff.mp h
          have hg := ih.mp h g
          by_cases hgf : g = f
          · subst hgf
            rw [Function.update_self] at hg
            exact (fills_cons_self value).mpr ⟨by simpa using hslot, a, hread, hg⟩
          · rw [Function.update_of_ne hgf] at hg
            exact (fills_cons_of_ne (hother g hgf) value).mpr hg
      · intro h
        obtain ⟨hslot, a, hread, hf⟩ := (fills_cons_self value).mp (h f)
        rw [if_neg (by rw [hslot]; exact Bool.false_ne_true), hread]
        refine ih.mpr fun g => ?_
        by_cases hgf : g = f
        · subst hgf
          rwa [Function.update_self]
        · rw [Function.update_of_ne hgf]
          exact (fills_cons_of_ne (hother g hgf) value).mp (h g)

/-- What an object says of a field is what its slot holds in the end. -/
theorem says_iff_fills {f : s.Field} {a : s.Value f} :
    s.Says (fun f value a => read f value = some a) members f a ↔
      ∃ slot, s.Fills read members none slot ∧ slot.or (s.missing f) = some a := by
  constructor
  · rintro (⟨hvalue, hread⟩ | ⟨hnone, hmissing⟩)
    · exact ⟨some a, Or.inr ⟨rfl, _, a, hvalue, hread, rfl⟩, rfl⟩
    · exact ⟨none, Or.inl ⟨hnone, rfl⟩, hmissing⟩
  · rintro ⟨slot, ⟨hnone, rfl⟩ | ⟨-, value, b, hvalue, hread, rfl⟩, h⟩
    · exact .absent hnone h
    · exact .present hvalue (hread.trans h)

/-- What the slots hold after the values of an array. -/
theorem visitSeq_eq_some {fields : List s.Field} (hnodup : fields.Nodup) {values : List Json}
    {slots slots' : s.Slots} :
    s.visitSeq read fields values slots = some slots' ↔
      List.Forall₂ (fun f value => ∃ a, read f value = some a ∧ slots' f = some a)
          fields values ∧
        ∀ f, f ∉ fields → slots' f = slots f := by
  induction fields generalizing values slots with
  | nil =>
    cases values with
    | nil =>
      rw [visitSeq, Option.some.injEq]
      exact ⟨fun h => ⟨.nil, fun f _ => congrFun h.symm f⟩,
        fun h => funext fun f => (h.2 f List.not_mem_nil).symm⟩
    | cons value values =>
      refine ⟨fun h => (by cases h), fun h => ?_⟩
      cases h.1
  | cons f fields ih =>
    obtain ⟨hf, hfields⟩ := List.nodup_cons.mp hnodup
    cases values with
    | nil =>
      refine ⟨fun h => (by cases h), fun h => ?_⟩
      cases h.1
    | cons value values =>
      rw [visitSeq, Option.bind_eq_some_iff]
      constructor
      · rintro ⟨a, hread, h⟩
        obtain ⟨hrest, hother⟩ := (ih hfields).mp h
        refine ⟨.cons ⟨a, hread, ?_⟩ hrest, fun g hg => ?_⟩
        · rw [hother f hf, Function.update_self]
        · have hgf := List.ne_of_not_mem_cons hg
          have hg := List.not_mem_of_not_mem_cons hg
          rw [hother g hg, Function.update_of_ne hgf]
      · rintro ⟨_ | ⟨⟨a, hread, hslot⟩, hrest⟩, hother⟩
        refine ⟨a, hread, (ih hfields).mpr ⟨hrest, fun g hg => ?_⟩⟩
        by_cases hgf : g = f
        · subst hgf
          rw [hslot, Function.update_self]
        · rw [hother g (List.not_mem_cons_of_ne_of_not_mem hgf hg), Function.update_of_ne hgf]

theorem decode_obj_iff {r : s.Record} : s.decode read (.obj members) = some r ↔
    s.Shows (fun f value a => read f value = some a) (.obj members) r := by
  rw [decode, Option.bind_eq_some_iff]
  simp only [visitMap_eq_some, finish_eq_some, Shows, says_iff_fills]
  rw [Classical.skolem]
  simp only [forall_and]

theorem decode_arr_iff {values : List Json} {r : s.Record} : s.decode read (.arr values) = some r ↔
    s.Shows (fun f value a => read f value = some a) (.arr values) r := by
  rw [decode, Option.bind_eq_some_iff]
  simp only [visitSeq_eq_some nodup, finish_eq_some, Shows]
  constructor
  · rintro ⟨slots, ⟨hvalues, -⟩, hslots⟩
    refine hvalues.imp fun f value ⟨a, hread, hslot⟩ => ?_
    have hf := hslots f
    rw [hslot] at hf
    exact hread.trans hf
  · intro h
    exact ⟨fun f => some (r f), ⟨h.imp fun f value hread => ⟨r f, hread, rfl⟩,
      fun f hf => absurd (s.complete f) hf⟩, fun f => rfl⟩

theorem Shows.mono {shown shown' : s.Shown} (h : ∀ f value a, shown f value a → shown' f value a)
    {value : Json} {r : s.Record} (hshows : s.Shows shown value r) : s.Shows shown' value r := by
  cases value with
  | obj members =>
    intro f
    rcases hshows f with ⟨hvalue, hshown⟩ | ⟨hnone, hmissing⟩
    · exact .present hvalue (h f _ _ hshown)
    · exact .absent hnone hmissing
  | arr values => exact List.Forall₂.imp (fun f value => h f value _) hshows
  | _ => exact hshows

/-- **What is read is what is shown**, where this is so for the fields. -/
theorem decode_iff {shown : s.Shown}
    (h : ∀ f value a, read f value = some a ↔ shown f value a) {value : Json} {r : s.Record} :
    s.decode read value = some r ↔ s.Shows shown value r := by
  have hshown : s.decode read value = some r ↔
      s.Shows (fun f value a => read f value = some a) value r := by
    cases value with
    | obj members => exact decode_obj_iff
    | arr values => exact decode_arr_iff
    | _ => exact ⟨fun hdecode => (by cases hdecode), fun hfalse => hfalse.elim⟩
  rw [hshown]
  exact ⟨Shows.mono fun f value a => (h f value a).mp, Shows.mono fun f value a => (h f value a).mpr⟩

theorem decodeAs_iff {α : Type} {e : s.Record ≃ α} {shown : s.Shown}
    (h : ∀ f value a, read f value = some a ↔ shown f value a) {value : Json} {a : α} :
    s.decodeAs read e value = some a ↔ s.ShowsAs e shown value a := by
  rw [decodeAs, Option.map_eq_some_iff, ShowsAs, ← decode_iff h]
  constructor
  · rintro ⟨r, hr, rfl⟩
    rwa [e.symm_apply_apply]
  · intro hr
    exact ⟨_, hr, e.apply_symm_apply a⟩

end Schema
