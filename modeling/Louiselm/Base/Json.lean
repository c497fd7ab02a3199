import Mathlib.Data.List.Nodup
import Mathlib.Data.List.Forall2
import Mathlib.Logic.Function.Basic
import Louiselm.Base.Hex

/-!
# JSON documents, typed encodings and text formats

A document keeps its members in text order and may repeat a key; reading it as a map
keeps the last value of a key and sorts the keys. Typed encodings follow the derived
ones: a struct is an object in declaration order, an absent optional value is `null`,
and decoding also accepts the positional array form. A text format is any printer with
a reader that inverts it on shallow documents without negative or fractional numbers.
-/

namespace Louiselm.Base
open List

/-- The three number representations of a JSON reader. -/
inductive JsonNumber where
  | nat (n : UInt64)
  | neg (n : Int64)
  | float (bits : UInt64)
deriving DecidableEq, Repr

/-- A JSON document, members in text order. -/
inductive Json where
  | null
  | bool (b : Bool)
  | num (n : JsonNumber)
  | str (s : String)
  | arr (items : List Json)
  | obj (members : List (String × Json))

namespace Json

/-- At most `depth` nested containers, and no number but an unsigned integer. -/
def Fits : Nat → Json → Prop
  | _, .null => True
  | _, .bool _ => True
  | _, .num n => ∃ u, n = .nat u
  | _, .str _ => True
  | 0, .arr _ => False
  | 0, .obj _ => False
  | depth + 1, .arr items => ∀ item ∈ items, Fits depth item
  | depth + 1, .obj members => ∀ member ∈ members, Fits depth member.2

@[simp] theorem fits_null (de : Nat) : Fits de .null := by
  cases de <;> exact True.intro

@[simp] theorem fits_bool (de : Nat) (b : Bool) : Fits de (.bool b) := by
  cases de <;> exact True.intro

@[simp] theorem fits_nat (de : Nat) (n : UInt64) : Fits de (.num (.nat n)) := by
  cases de <;> exact ⟨n, rfl⟩

@[simp] theorem fits_str (de : Nat) (s : String) : Fits de (.str s) := by
  cases de <;> exact True.intro

@[simp] theorem fits_arr (de : Nat) (xs : List Json) :
    Fits (de + 1) (.arr xs) ↔ ∀ x ∈ xs, Fits de x := Iff.rfl

@[simp] theorem fits_obj (de : Nat) (members : List (String × Json)) :
    Fits (de + 1) (.obj members) ↔ ∀ m ∈ members, Fits de m.2 := Iff.rfl

/-- A document that fits a depth fits every larger one. -/
theorem Fits.mono {d e : Nat} (h : d ≤ e) {v : Json} (hv : Fits d v) : Fits e v := by
  induction d generalizing e v with
  | zero =>
    cases v with
    | arr xs => exact False.elim hv
    | obj members => exact False.elim hv
    | num n =>
      obtain ⟨u, rfl⟩ := hv
      exact fits_nat e u
    | _ => simp
  | succ d ih =>
    obtain ⟨e, rfl⟩ : ∃ k, e = k + 1 := ⟨e - 1, by omega⟩
    cases v with
    | arr xs => exact fun x hi => ih (by omega) (hv x hi)
    | obj members => exact fun m hm => ih (by omega) (hv m hm)
    | num n =>
      obtain ⟨u, rfl⟩ := hv
      exact fits_nat _ u
    | _ => simp

/-! ### Reading a document as a map -/

/-- Put an earlier member in front of the later ones, which win over it. -/
def insertAbsent (key : String) (value : Json) : List (String × Json) → List (String × Json)
  | [] => [(key, value)]
  | (k, v) :: rest =>
    if key < k then (key, value) :: (k, v) :: rest
    else if key = k then (k, v) :: rest
    else (k, v) :: insertAbsent key value rest

mutual
/-- The map reading of a document: keys sorted, the last value of a key kept. -/
def normalize : Json → Json
  | .arr items => .arr (normalizeItems items)
  | .obj members => .obj (normalizeMembers members)
  | .null => .null
  | .bool b => .bool b
  | .num n => .num n
  | .str s => .str s

/-- Normalize every array item. -/
def normalizeItems : List Json → List Json
  | [] => []
  | item :: items => item.normalize :: normalizeItems items

/-- Normalize and sort the members of one object. -/
def normalizeMembers : List (String × Json) → List (String × Json)
  | [] => []
  | (key, value) :: members => insertAbsent key value.normalize (normalizeMembers members)
end

/-- Items that are already normal stay as they are. -/
theorem normalizeItems_of_forall {xs : List Json}
    (h : ∀ it ∈ xs, it.normalize = it) : normalizeItems xs = xs := by
  induction xs with
  | nil => rfl
  | cons it xs ih =>
    rw [normalizeItems, h it (by simp), ih (fun x hx => h x (by simp [hx]))]

variable {key : String} {val : Json} {members : List (String × Json)}

/-- A smaller key is put in front. -/
theorem insertAbsent_of_lt (h : ∀ member ∈ members, key < member.1) :
    insertAbsent key val members = (key, val) :: members := by
  cases members with
  | nil => rfl
  | cons m xs =>
    obtain ⟨k, v⟩ := m
    rw [insertAbsent, if_pos (h (k, v) (by simp))]

/-- Members with increasing keys and normal values stay as they are. -/
theorem normalizeMembers_of_sorted (hs : (members.map Prod.fst).Pairwise (· < ·))
    (hv : ∀ member ∈ members, member.2.normalize = member.2) :
    normalizeMembers members = members := by
  induction members with
  | nil => rfl
  | cons m xs ih =>
    obtain ⟨k, v⟩ := m
    rw [map_cons, pairwise_cons] at hs
    rw [normalizeMembers, ih hs.2 (fun x hx => hv x (by simp [hx])), hv (k, v) (by simp),
      insertAbsent_of_lt]
    intro member hm
    exact hs.1 member.1 (mem_map_of_mem hm)

/-- The member of an object under `key`; later members win. -/
def get (key : String) : Json → Option Json
  | .obj members => members.reverse.lookup key
  | _ => none

/-! ### Derived struct and enum shapes -/

/-- The values of the named fields, as a derived struct visitor collects them: an object may
not repeat a field, may hold unknown ones only when they are not denied, and an array must
give every field by position. -/
def struct (deny : Bool) (names : List String) : Json → Option (List (Option Json))
  | .obj members =>
    let known := (members.map Prod.fst).filter (names.contains ·)
    if known.Nodup ∧ (deny = true → known.length = members.length) then
      some (names.map fun name => members.lookup name)
    else none
  | .arr items => if items.length = names.length then some (items.map some) else none
  | _ => none

private theorem lookup_members (hn : (members.map Prod.fst).Nodup) :
    (members.map Prod.fst).map (fun n => members.lookup n) = members.map fun m => some m.2 := by
  rw [map_map]
  apply map_congr_left
  intro m hm
  induction members with
  | nil => simp at hm
  | cons x xs ih =>
    obtain ⟨key, val⟩ := x
    rw [map_cons, nodup_cons] at hn
    rw [Function.comp_apply, lookup_cons]
    rcases mem_cons.mp hm with rfl | hr
    · simp
    · have hmem : m.1 ∈ xs.map Prod.fst := mem_map_of_mem hr
      have hne : m.1 ≠ key := fun he => hn.1 (he ▸ hmem)
      rw [beq_false_of_ne hne]
      exact ih hn.2 hr

/-- The fields written in order are collected again, and those left out at the end are not. -/
theorem struct_obj_append (de : Bool) (ns s : List String) (ha : members.map Prod.fst = ns)
    (ho : (ns ++ s).Nodup) : struct de (ns ++ s) (.obj members) =
      some (members.map (fun m => some m.2) ++ s.map fun _ => none) := by
  subst ha
  obtain ⟨hn, -, hd⟩ := nodup_append.mp ho
  have hf : (members.map Prod.fst).filter ((members.map Prod.fst ++ s).contains ·) =
      members.map Prod.fst := by
    rw [filter_eq_self]
    intro n hn
    rw [contains_iff_mem, mem_append]
    exact .inl hn
  have hs : s.map (fun n => members.lookup n) = s.map fun _ => none := by
    apply map_congr_left
    intro n hnm
    rw [lookup_eq_none_iff]
    intro m hm
    rw [bne_iff_ne]
    exact (hd m.1 (mem_map_of_mem hm) n hnm).symm
  simp only [struct, hf, length_map, hn, implies_true, and_self, if_true, map_append,
    lookup_members hn, hs]

/-- The fields written in order are collected again. -/
theorem struct_obj (de : Bool) (ns : List String) (hn : members.map Prod.fst = ns) (ho : ns.Nodup) :
    struct de ns (.obj members) = some (members.map fun m => some m.2) := by
  have h := struct_obj_append de ns [] hn (by simpa using ho)
  simpa using h

theorem insertAbsent_perm (h : key ∉ members.map Prod.fst) :
    (insertAbsent key val members).Perm ((key, val) :: members) := by
  induction members with
  | nil => exact .refl _
  | cons x xs ih =>
    obtain ⟨k, v⟩ := x
    rw [map_cons, mem_cons, not_or] at h
    rw [insertAbsent]
    split
    · exact .refl _
    · rw [if_neg h.1]
      exact ((ih h.2).cons _).trans (.swap _ _ _)

/-- Reading an object as a map only reorders members of distinct keys. -/
theorem normalizeMembers_perm (h : (members.map Prod.fst).Nodup) :
    (normalizeMembers members).Perm (members.map fun m => (m.1, m.2.normalize)) := by
  induction members with
  | nil => exact .refl _
  | cons x xs ih =>
    obtain ⟨key, val⟩ := x
    rw [map_cons, nodup_cons] at h
    have hr := ih h.2
    rw [normalizeMembers]
    refine (insertAbsent_perm fun hm => h.1 ?_).trans (hr.cons _)
    have := (hr.map Prod.fst).mem_iff.mp hm
    simpa using this

/-- Under distinct keys the order of the members does not count. -/
theorem lookup_perm {os : List (String × Json)} (h : members.Perm os)
    (hn : (members.map Prod.fst).Nodup) (n : String) : members.lookup n = os.lookup n := by
  induction h with
  | nil => rfl
  | cons m _ ih =>
    rw [map_cons, nodup_cons] at hn
    rw [lookup_cons, lookup_cons, ih hn.2]
  | swap a b xs =>
    obtain ⟨k, v⟩ := a
    obtain ⟨l, w⟩ := b
    simp only [map_cons, nodup_cons, mem_cons, not_or] at hn
    simp only [lookup_cons]
    cases ha : n == l with
    | false => rfl
    | true =>
      rw [beq_iff_eq] at ha
      rw [ha, beq_false_of_ne hn.1.1]
  | trans h h' ih ih' =>
    rw [ih hn, ih' ((h.map Prod.fst).nodup_iff.mp hn)]

theorem lookup_map_normalize (members : List (String × Json)) (n : String) :
    (members.map fun m => (m.1, m.2.normalize)).lookup n = (members.lookup n).map normalize := by
  induction members with
  | nil => rfl
  | cons x xs ih =>
    rw [map_cons, lookup_cons, lookup_cons, ih]
    split <;> rfl

/-- The fields of an object read as a map are the same, with their values read so. -/
theorem struct_normalize (de : Bool) (ns : List String) (h : (members.map Prod.fst).Nodup) :
    struct de ns (Json.obj members).normalize =
      (struct de ns (.obj members)).map fun vs => vs.map (Option.map normalize) := by
  have hp := normalizeMembers_perm h
  have hk : ((normalizeMembers members).map Prod.fst).Perm (members.map Prod.fst) := by
    have := hp.map Prod.fst
    rwa [map_map] at this
  have hn := hk.nodup_iff.mpr h
  have hf := hk.filter (ns.contains ·)
  have hl : ∀ n, (normalizeMembers members).lookup n = (members.lookup n).map normalize := fun n =>
    (lookup_perm hp hn n).trans (lookup_map_normalize members n)
  have he : (normalizeMembers members).length = members.length := by
    simpa using hp.length_eq
  rw [normalize]
  simp only [struct, hf.nodup_iff, hf.length_eq, he, hl]
  split
  · simp [map_map, Function.comp_def]
  · rfl

variable {me : String × Json}

theorem mem_insertAbsent (h : me ∈ insertAbsent key val members) :
    me = (key, val) ∨ me ∈ members := by
  induction members with
  | nil => exact .inl (mem_singleton.mp h)
  | cons x xs ih =>
    obtain ⟨k, v⟩ := x
    rw [insertAbsent] at h
    split at h
    · exact mem_cons.mp h
    split at h
    · exact .inr h
    · rcases mem_cons.mp h with rfl | hr
      · exact .inr mem_cons_self
      · exact (ih hr).imp_right (mem_cons_of_mem _)

theorem mem_normalizeMembers (h : me ∈ normalizeMembers members) :
    ∃ old ∈ members, me.2 = old.2.normalize := by
  induction members with
  | nil => simp [normalizeMembers] at h
  | cons x xs ih =>
    obtain ⟨key, val⟩ := x
    rw [normalizeMembers] at h
    rcases mem_insertAbsent h with rfl | hr
    · exact ⟨(key, val), mem_cons_self, rfl⟩
    · obtain ⟨old, hold, heq⟩ := ih hr
      exact ⟨old, mem_cons_of_mem _ hold, heq⟩

theorem mem_normalizeItems {xs : List Json} {it : Json} (h : it ∈ normalizeItems xs) :
    ∃ old ∈ xs, it = old.normalize := by
  induction xs with
  | nil => simp [normalizeItems] at h
  | cons x l ih =>
    rw [normalizeItems] at h
    rcases mem_cons.mp h with rfl | hr
    · exact ⟨x, mem_cons_self, rfl⟩
    · obtain ⟨old, hold, heq⟩ := ih hr
      exact ⟨old, mem_cons_of_mem _ hold, heq⟩

/-- Reading a document as a map makes it no deeper. -/
theorem Fits.normalize {de : Nat} {v : Json} (h : v.Fits de) : v.normalize.Fits de := by
  induction de generalizing v with
  | zero =>
    cases v with
    | arr xs => exact False.elim h
    | obj members => exact False.elim h
    | _ => rw [Json.normalize]; exact h
  | succ de ih =>
    cases v with
    | arr xs =>
      rw [Json.normalize, fits_arr]
      intro x hi
      obtain ⟨old, hold, rfl⟩ := mem_normalizeItems hi
      exact ih (h old hold)
    | obj members =>
      rw [Json.normalize, fits_obj]
      intro me hm
      obtain ⟨old, hold, heq⟩ := mem_normalizeMembers hm
      rw [heq]
      exact ih (h old hold)
    | _ => rw [Json.normalize]; exact h

/-- The name of a unit enum variant, in either form a derived visitor accepts. -/
def variant : Json → Option String
  | .str s => some s
  | .obj [(s, .null)] => some s
  | _ => none

end Json

/-! ### Typed encodings -/

/-- A derived `Serialize`: the document of a value, its depth and that it names the value. -/
class Serialize (α : Type) where
  toJson : α → Json
  depth : Nat
  fits : ∀ a, Json.Fits depth (toJson a)
  toJson_inj : Function.Injective toJson

/-- A derived `Deserialize` beside it: decoding inverts encoding. `missing` is the value of
an absent struct field, when there is one. -/
class Deserialize (α : Type) extends Serialize α where
  ofJson : Json → Option α
  missing : Option α := none
  ofJson_toJson : ∀ a, ofJson (toJson a) = some a

export Serialize (toJson)
export Deserialize (ofJson)

/-- A type that never encodes as `null`, so that its optional values are unambiguous. -/
class NonNull (α : Type) [Serialize α] : Prop where
  ne_null : ∀ a : α, toJson a ≠ .null

attribute [simp] NonNull.ne_null Deserialize.ofJson_toJson

/-- Decoding that inverts an encoding makes the encoding injective. -/
theorem injective_of_ofJson {α : Type} {enc : α → Json} (dec : Json → Option α)
    (h : ∀ a, dec (enc a) = some a) : Function.Injective enc := by
  intro a b he
  have ha := h a
  rw [he, h b] at ha
  exact (Option.some.inj ha).symm

@[simp] theorem toJson_inj {α : Type} [Serialize α] {a b : α} :
    toJson a = toJson b ↔ a = b := Serialize.toJson_inj.eq_iff

variable {d : Nat}

/-- The document of a typed value fits every depth its type allows. -/
theorem fits_toJson {α : Type} [Serialize α] (h : Serialize.depth α ≤ d) (a : α) :
    Json.Fits d (toJson a) := (Serialize.fits a).mono h

variable {members : List (String × Json)}

/-- An object fits when each of its members does, one level further down. -/
theorem fits_members_cons {key : String} {v : Json} : (∀ m ∈ (key, v) :: members, Json.Fits d m.2) ↔
      Json.Fits d v ∧ ∀ m ∈ members, Json.Fits d m.2 := forall_mem_cons

theorem fits_members_nil : (∀ m ∈ ([] : List (String × Json)), Json.Fits d m.2) ↔ True := by simp

/-- The value of one collected struct field. -/
def field {α : Type} [Deserialize α] : Option Json → Option α
  | some v => ofJson v
  | none => Deserialize.missing

@[simp] theorem field_some {α : Type} [Deserialize α] (v : Json) :
    field (α := α) (some v) = ofJson v := rfl

/-- A unit enum is written as the name of its variant. -/
abbrev serializeName {α : Type} (name : α → String) (hinj : Function.Injective name) :
    Serialize α where
  toJson a := .str (name a)
  depth := 0
  fits := fun _ => Json.fits_str 0 _
  toJson_inj := fun _ _ h => hinj (Json.str.inj h)

/-- A unit enum that is also read back from the name of its variant. -/
abbrev deserializeName {α : Type} (name : α → String) (parse : String → Option α)
    (h : ∀ a, parse (name a) = some a) : Deserialize α where
  toJson a := .str (name a)
  depth := 0
  fits := fun _ => Json.fits_str 0 _
  toJson_inj := injective_of_ofJson (fun v => (Json.variant v).bind parse)
    (fun a => by simp [Json.variant, h])
  ofJson v := (Json.variant v).bind parse
  ofJson_toJson := fun a => by simp [Json.variant, h]

/-- A struct with its members in declaration order and the decoder that inverts them. -/
abbrev deserializeStruct {α : Type} (members : α → List (String × Json))
    (dec : Json → Option α) (d : Nat) (hfits : ∀ a, ∀ member ∈ members a, Json.Fits d member.2)
    (h : ∀ a, dec (.obj (members a)) = some a) : Deserialize α where
  toJson a := .obj (members a)
  depth := d + 1
  fits := hfits
  toJson_inj := injective_of_ofJson dec h
  ofJson := dec
  ofJson_toJson := h

instance : Deserialize String where
  toJson := .str
  depth := 0
  fits := fun s => Json.fits_str 0 s
  toJson_inj := fun _ _ h => Json.str.inj h
  ofJson
    | .str s => some s
    | _ => none
  ofJson_toJson := fun _ => rfl

instance : NonNull String where
  ne_null := fun _ h => nomatch h

instance : Deserialize UInt64 where
  toJson n := .num (.nat n)
  depth := 0
  fits := fun n => Json.fits_nat 0 n
  toJson_inj := fun _ _ h => JsonNumber.nat.inj (Json.num.inj h)
  ofJson
    | .num (.nat n) => some n
    | _ => none
  ofJson_toJson := fun _ => rfl

instance : NonNull UInt64 where
  ne_null := fun _ h => nomatch h

instance : Deserialize UInt32 where
  toJson n := .num (.nat n.toUInt64)
  depth := 0
  fits := fun n => Json.fits_nat 0 _
  toJson_inj := fun a b h => by
    have := congrArg UInt64.toNat (JsonNumber.nat.inj (Json.num.inj h))
    simpa [UInt32.toNat_inj] using this
  ofJson
    | .num (.nat n) => if n.toNat < UInt32.size then some n.toUInt32 else none
    | _ => none
  ofJson_toJson := fun n => by
    have hl := n.toNat_lt_size
    simp [hl]

instance : Deserialize UInt8 where
  toJson n := .num (.nat n.toUInt64)
  depth := 0
  fits := fun n => Json.fits_nat 0 _
  toJson_inj := fun a b h => by
    have := congrArg UInt64.toNat (JsonNumber.nat.inj (Json.num.inj h))
    simpa [UInt8.toNat_inj] using this
  ofJson
    | .num (.nat n) => if n.toNat < UInt8.size then some n.toUInt8 else none
    | _ => none
  ofJson_toJson := fun n => by
    have hl := n.toNat_lt_size
    simp [hl]

instance : Deserialize Bool where
  toJson := .bool
  depth := 0
  fits := fun b => Json.fits_bool 0 b
  toJson_inj := fun _ _ h => Json.bool.inj h
  ofJson
    | .bool b => some b
    | _ => none
  ofJson_toJson := fun _ => rfl

section

variable {α : Type}

/-- The document of an optional value. -/
def optionToJson [Serialize α] : Option α → Json
  | none => .null
  | some a => toJson a

theorem optionToJson_inj [Serialize α] [NonNull α] :
    Function.Injective (optionToJson (α := α)) := by
  intro a b h
  match a, b, h with
  | none, none, _ => rfl
  | none, some b, h => exact absurd h.symm (NonNull.ne_null b)
  | some a, none, h => exact absurd h (NonNull.ne_null a)
  | some a, some b, h => exact congrArg some (Serialize.toJson_inj h)

theorem optionToJson_fits [Serialize α] (a : Option α) :
    Json.Fits (Serialize.depth α) (optionToJson a) := by
  cases a with
  | none => exact Json.fits_null _
  | some a => exact Serialize.fits a

instance [Serialize α] [NonNull α] : Serialize (Option α) where
  toJson := optionToJson
  depth := Serialize.depth α
  fits := optionToJson_fits
  toJson_inj := optionToJson_inj

instance [Deserialize α] [NonNull α] : Deserialize (Option α) where
  ofJson
    | .null => some none
    | v => (ofJson v).map some
  missing := some none
  ofJson_toJson := fun a => by
    cases a with
    | none => rfl
    | some a =>
      have hn := NonNull.ne_null a
      change (match toJson a with | .null => _ | v => _) = _
      split
      · next h => exact absurd h hn
      · next v _ =>
        rw [Deserialize.ofJson_toJson]
        rfl

instance [Serialize α] : Serialize (List α) where
  toJson items := .arr (items.map toJson)
  depth := Serialize.depth α + 1
  fits := fun items v hv => by
    obtain ⟨a, _, rfl⟩ := mem_map.mp hv
    exact Serialize.fits a
  toJson_inj := fun a b h => map_injective_iff.mpr Serialize.toJson_inj (Json.arr.inj h)

instance [Deserialize α] : Deserialize (List α) where
  ofJson
    | .arr items => items.mapM ofJson
    | _ => none
  ofJson_toJson := fun items => by
    change (items.map toJson).mapM ofJson = some items
    induction items with
    | nil => rfl
    | cons a items ih => simp [ih]

end

/-! ### Typed values through the map reading -/

/-- A type whose documents are already sorted, so reading one as a map changes nothing. -/
class Normal (α : Type) [Serialize α] : Prop where
  normalize_toJson : ∀ a : α, (toJson a).normalize = toJson a

attribute [simp] Normal.normalize_toJson

instance : Normal String where
  normalize_toJson := fun a => by change (Json.str a).normalize = _; rw [Json.normalize]; rfl

instance : Normal UInt64 where
  normalize_toJson := fun n => by
    change (Json.num (.nat n)).normalize = _
    rw [Json.normalize]
    rfl

instance {α : Type} [Serialize α] [NonNull α] [Normal α] : Normal (Option α) where
  normalize_toJson := fun a => by
    cases a with
    | none =>
      change Json.null.normalize = _
      rw [Json.normalize]
      rfl
    | some a => exact Normal.normalize_toJson a

instance {α : Type} [Serialize α] [Normal α] : Normal (List α) where
  normalize_toJson := fun items => by
    change (Json.arr (items.map toJson)).normalize = _
    rw [Json.normalize, Json.normalizeItems_of_forall]
    · rfl
    · intro v hv
      obtain ⟨a, _, rfl⟩ := mem_map.mp hv
      exact Normal.normalize_toJson a

/-- An object with increasing keys and normal values is normal. -/
theorem normalize_obj (ns : List String) (hn : members.map Prod.fst = ns) (hs : ns.Pairwise (· < ·))
    (hv : ∀ m ∈ members, m.2.normalize = m.2) : (Json.obj members).normalize = .obj members := by
  subst hn
  rw [Json.normalize, Json.normalizeMembers_of_sorted hs hv]

/-! ### Text formats -/

/-- Deepest nesting a reader accepts. -/
def maxDepth : Nat := 127

/-- A compact JSON printer and the reader that inverts it. Nothing else about the text is
assumed, so every result holds of whichever printer the program is linked with. -/
structure JsonFormat where
  print : Json → String
  read : String → Option Json
  read_print : ∀ v, v.Fits maxDepth → read (print v) = some v

namespace JsonFormat

variable (fmt : JsonFormat) {α : Type}

/-- The exact bytes of a value. -/
def toVec [Serialize α] (a : α) : Bytes := utf8 (fmt.print (toJson a))

/-- The text of a value. -/
def toText [Serialize α] (a : α) : String := fmt.print (toJson a)

/-- Read bytes as a document; bytes that are not UTF-8 are refused. -/
def readBytes (bytes : Bytes) : Option Json :=
  (String.fromUTF8? ⟨bytes.toArray⟩).bind fmt.read

/-- Read bytes as a value. -/
def fromSlice [Deserialize α] (bytes : Bytes) : Option α := (fmt.readBytes bytes).bind ofJson

/-- Read a text as a value. -/
def fromStr [Deserialize α] (text : String) : Option α := (fmt.read text).bind ofJson

/-- The bytes of a text read as that text. -/
theorem readBytes_utf8 (t : String) : fmt.readBytes (utf8 t) = fmt.read t := by
  rw [readBytes, fromUTF8?_utf8]
  rfl

/-- Printed documents read back, from the bytes of the text. -/
theorem readBytes_toVec [Serialize α] (hd : Serialize.depth α ≤ maxDepth) (a : α) :
    fmt.readBytes (fmt.toVec a) = some (toJson a) := by
  rw [toVec, readBytes_utf8, fmt.read_print _ ((Serialize.fits a).mono hd)]

/-- Printed values read back. -/
theorem fromStr_toText [Deserialize α] (hd : Serialize.depth α ≤ maxDepth) (a : α) :
    fmt.fromStr (fmt.toText a) = some a := by
  rw [fromStr, toText, fmt.read_print _ ((Serialize.fits a).mono hd)]
  exact Deserialize.ofJson_toJson a

/-- Printed values read back, from the bytes of the text. -/
theorem fromSlice_toVec [Deserialize α] (hd : Serialize.depth α ≤ maxDepth) (a : α) :
    fmt.fromSlice (fmt.toVec a) = some a := by
  rw [fromSlice, readBytes_toVec fmt hd]
  exact Deserialize.ofJson_toJson a

/-- Equal bytes come from equal values. -/
theorem toVec_inj [Serialize α] (hd : Serialize.depth α ≤ maxDepth) {a b : α} :
    fmt.toVec a = fmt.toVec b ↔ a = b := by
  constructor
  · intro h
    have ha := fmt.readBytes_toVec hd a
    rw [h, fmt.readBytes_toVec hd b] at ha
    exact (Serialize.toJson_inj (Option.some.inj ha)).symm
  · exact congrArg fmt.toVec

end JsonFormat
end Louiselm.Base
