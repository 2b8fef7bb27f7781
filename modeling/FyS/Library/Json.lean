import Mathlib.Data.List.Forall2
import Mathlib.Data.List.Nodup
import FyS.Library.Fuel

/-!
# Documents

What reads a document by the names of its objects and the positions in its arrays, and what
is promised of documents that were written from strings, numbers, arrays and objects.
-/

namespace FyS.Library

/-- How documents are read.  `member` and `element` give the reference to a document that can
be changed, `constMember` the one to a document that cannot. -/
structure JsonReader where
  Json : Type
  Fault : Type
  /-- `operator[]` with a name -/
  member : String → Json → Except Fault Json
  /-- `operator[]` with a name, `const` -/
  constMember : String → Json → Except Fault Json
  /-- `operator[]` with a position -/
  element : Nat → Json → Except Fault Json
  /-- `get<std::string>` -/
  getString : Json → Except Fault String
  /-- `get<uint>` -/
  getUint : Json → Except Fault UInt32
  /-- `value` with a default that is a `uint` -/
  uintOr : String → UInt32 → Json → Except Fault UInt32
  /-- what a loop over the document goes through -/
  elements : Json → List Json

/-- Documents that are written are read back. -/
structure JsonWriter extends JsonReader where
  string : String → Json
  uint : UInt32 → Json
  array : List Json → Json
  object : List (String × Json) → Json
  getString_string : ∀ s, getString (string s) = .ok s
  getUint_uint : ∀ n, getUint (uint n) = .ok n
  element_array : ∀ {items i json}, items[i]? = some json → element i (array items) = .ok json
  elements_array : ∀ items, elements (array items) = items
  member_object : ∀ {members name json}, (members.map Prod.fst).Nodup → (name, json) ∈ members →
    member name (object members) = .ok json
  constMember_object : ∀ {members name json}, (members.map Prod.fst).Nodup →
    (name, json) ∈ members → constMember name (object members) = .ok json
  uintOr_object : ∀ {members name n} default, (members.map Prod.fst).Nodup →
    (name, uint n) ∈ members → uintOr name default (object members) = .ok n

theorem lookup_of_mem {α : Type} {members : List (String × α)} {name : String} {a : α}
    (hnodup : (members.map Prod.fst).Nodup) (hmem : (name, a) ∈ members) :
    members.lookup name = some a := by
  induction members with
  | nil => cases hmem
  | cons first rest ih =>
      obtain ⟨hfirst, hrest⟩ := List.nodup_cons.mp hnodup
      rcases List.mem_cons.mp hmem with rfl | hmem
      · exact List.lookup_cons_self
      · have hne : name ≠ first.1 := by
          rintro rfl
          exact hfirst (List.mem_map.mpr ⟨_, hmem, rfl⟩)
        rw [List.lookup_cons, beq_eq_false_iff_ne.mpr hne]
        exact ih hrest hmem

namespace JsonWriter

attribute [simp] getString_string getUint_uint elements_array

variable (W : JsonWriter) {members : List (String × W.Json)} {name : String}

theorem exists_lookup (hnodup : (members.map Prod.fst).Nodup) (hmem : name ∈ members.map Prod.fst) :
    ∃ json, (name, json) ∈ members ∧ (members.lookup name).getD (W.string "") = json := by
  obtain ⟨⟨_, json⟩, hjson, rfl⟩ := List.mem_map.mp hmem
  refine ⟨json, hjson, ?_⟩
  rw [lookup_of_mem hnodup hjson, Option.getD_some]

theorem member_lookup (hnodup : (members.map Prod.fst).Nodup) (hmem : name ∈ members.map Prod.fst) :
    W.member name (W.object members) = .ok ((members.lookup name).getD (W.string "")) := by
  obtain ⟨json, hjson, heq⟩ := W.exists_lookup hnodup hmem
  rw [heq, W.member_object hnodup hjson]

theorem constMember_lookup (hnodup : (members.map Prod.fst).Nodup)
    (hmem : name ∈ members.map Prod.fst) :
    W.constMember name (W.object members) = .ok ((members.lookup name).getD (W.string "")) := by
  obtain ⟨json, hjson, heq⟩ := W.exists_lookup hnodup hmem
  rw [heq, W.constMember_object hnodup hjson]

end JsonWriter

theorem foldlM_read_eq_ok {α β σ ε : Type} {read : α → Except ε β} {put : σ → β → σ} {l : List α}
    {s t : σ} :
    l.foldlM (fun s a => do
        let b ← read a
        .ok (put s b)) s = .ok t ↔
      ∃ bs, List.Forall₂ (fun a b => read a = .ok b) l bs ∧ t = bs.foldl put s := by
  induction l generalizing s with
  | nil =>
      constructor
      · intro h
        exact ⟨[], .nil, (Except.ok.inj h).symm⟩
      · rintro ⟨bs, hread, rfl⟩
        cases hread
        rfl
  | cons a l ih =>
      rw [List.foldlM_cons]
      constructor
      · intro h
        obtain ⟨next, hfirst, hrest⟩ := Fuel.bind_eq_ok.mp h
        obtain ⟨b, hb, hput⟩ := Fuel.bind_eq_ok.mp hfirst
        obtain rfl := Except.ok.inj hput
        obtain ⟨bs, hbs, rfl⟩ := ih.mp hrest
        exact ⟨b :: bs, .cons hb hbs, rfl⟩
      · rintro ⟨bs, hread, rfl⟩
        cases hread with
        | cons hb hbs =>
            rw [hb]
            exact ih.mpr ⟨_, hbs, rfl⟩

/-! ## Trees of strings and whole numbers -/

inductive JsonTree where
  | null
  | string (s : String)
  | uint (n : UInt32)
  | array (items : List JsonTree)
  | object (members : List (String × JsonTree))

namespace JsonTree

inductive Fault where
  | type_error
  | missing
deriving DecidableEq, Repr

def getUint : JsonTree → Except Fault UInt32
  | uint n => .ok n
  | _ => .error .type_error

def reader : JsonReader where
  Json := JsonTree
  Fault := Fault
  member name
    | null => .ok null
    | object members => .ok ((members.lookup name).getD null)
    | _ => .error .type_error
  constMember name
    | object members => (members.lookup name).elim (.error .missing) .ok
    | _ => .error .type_error
  element i
    | null => .ok null
    | array items => .ok (items[i]?.getD null)
    | _ => .error .type_error
  getString
    | string s => .ok s
    | _ => .error .type_error
  getUint := getUint
  uintOr name default
    | object members => (members.lookup name).elim (.ok default) getUint
    | _ => .error .type_error
  elements
    | array items => items
    | object members => members.map Prod.snd
    | null => []
    | json => [json]

def writer : JsonWriter where
  toJsonReader := reader
  string := .string
  uint := .uint
  array := .array
  object := .object
  getString_string _ := rfl
  getUint_uint _ := rfl
  element_array h := congrArg (fun item => Except.ok (Option.getD item null)) h
  elements_array _ := rfl
  member_object hnodup hmem :=
    congrArg (fun json => Except.ok (Option.getD json null)) (lookup_of_mem hnodup hmem)
  constMember_object hnodup hmem :=
    congrArg (fun json => Option.elim json (Except.error Fault.missing) Except.ok)
      (lookup_of_mem hnodup hmem)
  uintOr_object default hnodup hmem :=
    congrArg (fun json => Option.elim json (Except.ok default) getUint)
      (lookup_of_mem hnodup hmem)

end JsonTree

end FyS.Library
