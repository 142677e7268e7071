import Mathlib.Algebra.Order.Field.Rat
import Mathlib.Data.List.Nodup

/-! # JSON values and the codecs of models

A codec writes a value as JSON, reads JSON back and carries the proof that it reads what it wrote.
The codec of a record is made of the codecs of its members, which are found by name: their order does
not matter and a member the record does not know is ignored. So a record is told from the ones that
lack a member it requires. -/

namespace JsonFormat
set_option autoImplicit false

/-- Two texts that agree, agree up to their first separator and after it. -/
theorem append_cons_inj_of_notMem {α : Type} {a : α} {x x' y y' : List α} (hx : a ∉ x)
    (hx' : a ∉ x') (h : x ++ a :: y = x' ++ a :: y') : x = x' ∧ y = y' := by
  induction x generalizing x' with
  | nil =>
    cases x' with
    | nil => simpa using h
    | cons b x' =>
      rw [List.mem_cons, not_or] at hx'
      exact absurd (List.cons.inj h).1 hx'.1
  | cons b x ih =>
    rw [List.mem_cons, not_or] at hx
    cases x' with
    | nil => exact absurd (List.cons.inj h).1.symm hx.1
    | cons b' x' =>
      rw [List.mem_cons, not_or] at hx'
      obtain ⟨rfl, hrest⟩ := List.cons.inj h
      obtain ⟨rfl, rfl⟩ := ih hx.2 hx'.2 hrest
      exact ⟨rfl, rfl⟩

inductive Json
  | null
  | bool (b : Bool)
  | num (q : ℚ)
  | str (s : String)
  | arr (items : List Json)
  | obj (members : List (String × Json))

namespace Json

def text? : Json → Option String
  | .str s => some s
  | _ => none

/-- The member of that name, or `none`, also where the value is no object. -/
def get? (name : String) : Json → Option Json
  | .obj members => (members.find? (·.1 = name)).map Prod.snd
  | _ => none

/-- The member of that name, if it is a text. -/
def textAt? (name : String) (j : Json) : Option String := (j.get? name).bind text?

variable {name other : String} {j : Json} {members : List (String × Json)}

@[simp] theorem get?_cons_self : (Json.obj ((name, j) :: members)).get? name = some j := by
  simp [get?]

@[simp] theorem get?_cons_of_ne (h : other ≠ name) :
    (Json.obj ((other, j) :: members)).get? name = (Json.obj members).get? name := by
  simp [get?, h]

@[simp] theorem get?_nil : (Json.obj []).get? name = none := rfl

theorem get?_of_mem (hn : (members.map Prod.fst).Nodup) (hm : (name, j) ∈ members) :
    (Json.obj members).get? name = some j := by
  induction members with
  | nil => cases hm
  | cons m members ih =>
    obtain ⟨hnot, hn⟩ := List.nodup_cons.mp hn
    rcases List.mem_cons.mp hm with rfl | hm
    · exact get?_cons_self
    · have hne : m.1 ≠ name := by
        rintro rfl
        exact hnot (List.mem_map.mpr ⟨_, hm, rfl⟩)
      exact (get?_cons_of_ne hne).trans (ih hn hm)

theorem get?_eq_none (h : name ∉ members.map Prod.fst) : (Json.obj members).get? name = none := by
  simp only [get?, Option.map_eq_none_iff, List.find?_eq_none, decide_eq_true_eq]
  rintro m hm rfl
  exact h (List.mem_map_of_mem hm)

end Json

/-- How values of a type are written as JSON and read back. -/
structure Codec (α : Type) where
  encode : α → Json
  decode : Json → Option α
  decode_encode : ∀ a, decode (encode a) = some a

namespace Codec
variable {α β : Type}

attribute [simp] decode_encode

def text : Codec String := ⟨.str, Json.text?, fun _ => rfl⟩

def bool : Codec Bool where
  encode := .bool
  decode j := match j with
    | .bool b => some b
    | _ => none
  decode_encode _ := rfl

def num : Codec ℚ where
  encode := .num
  decode j := match j with
    | .num q => some q
    | _ => none
  decode_encode _ := rfl

/-- Values of `α` are written as values of `β`, some of which are read back. -/
def via (c : Codec β) (f : α → β) (g : β → Option α) (h : ∀ a, g (f a) = some a) : Codec α where
  encode a := c.encode (f a)
  decode j := (c.decode j).bind g
  decode_encode a := by simp [h]

/-- A value that a validator demands something of. -/
def refine (c : Codec α) (p : α → Prop) [DecidablePred p] : Codec {a // p a} :=
  c.via Subtype.val (fun a => if h : p a then some ⟨a, h⟩ else none) fun a => by simp [a.2]

/-- The members of an enumeration, by their names. -/
def enum (name : α → String) (all : List α)
    (h : ∀ a, all.find? (fun b => name b = name a) = some a) : Codec α :=
  text.via name (fun s => all.find? (name · = s)) h

/-- `null` or a value. -/
def nullable (c : Codec α) (h : ∀ a, c.encode a ≠ .null) : Codec (Option α) where
  encode o := o.elim .null c.encode
  decode j := match j with
    | .null => some none
    | j => (c.decode j).map some
  decode_encode o := by
    cases o with
    | none => rfl
    | some a =>
      have hne := h a
      simp

end Codec

/-- The members a record is written with, the ones it cannot be read without, and how it is read
from what `get` finds. -/
structure Fields (α : Type) where
  names : List String
  required : List String
  write : α → List (String × Json)
  read : (String → Option Json) → Option α
  write_names : ∀ a, (write a).map Prod.fst = names
  read_write : ∀ a get, (∀ m ∈ write a, get m.1 = some m.2) → read get = some a
  read_missing : ∀ get, ∀ name ∈ required, get name = none → read get = none

namespace Fields
variable {α β : Type}

/-- A member that has no default. -/
def single (name : String) (c : Codec α) : Fields α where
  names := [name]
  required := [name]
  write a := [(name, c.encode a)]
  read get := (get name).bind c.decode
  write_names _ := rfl
  read_write a get h := by
    have hget : get name = some (c.encode a) := h (name, c.encode a) (by simp)
    simp [hget]
  read_missing get n hn hnone := by
    obtain rfl := List.mem_singleton.mp hn
    simp [hnone]

/-- A member with a default. -/
def optional (name : String) (c : Codec α) (default : α) : Fields α where
  names := [name]
  required := []
  write a := [(name, c.encode a)]
  read get := match get name with
    | none => some default
    | some j => c.decode j
  write_names _ := rfl
  read_write a get h := by
    have hget : get name = some (c.encode a) := h (name, c.encode a) (by simp)
    simp [hget]
  read_missing _ n hn := (List.not_mem_nil hn).elim

/-- The members of one record and of another. -/
def and (f : Fields α) (g : Fields β) : Fields (α × β) where
  names := f.names ++ g.names
  required := f.required ++ g.required
  write x := f.write x.1 ++ g.write x.2
  read get := (f.read get).bind fun a => (g.read get).map fun b => (a, b)
  write_names x := by simp [f.write_names, g.write_names]
  read_write x get h := by
    have hf := f.read_write x.1 get fun m hm => h m (List.mem_append_left _ hm)
    have hg := g.read_write x.2 get fun m hm => h m (List.mem_append_right _ hm)
    simp [hf, hg]
  read_missing get n hn hnone := by
    rcases List.mem_append.mp hn with hn | hn
    · simp [f.read_missing get n hn hnone]
    · simp [g.read_missing get n hn hnone]

/-- The members of a record that is built from others, if a validator lets it. -/
def via (f : Fields β) (unpack : α → β) (pack : β → Option α)
    (h : ∀ a, pack (unpack a) = some a) : Fields α where
  names := f.names
  required := f.required
  write a := f.write (unpack a)
  read get := (f.read get).bind pack
  write_names a := f.write_names _
  read_write a get hget := by simp [f.read_write _ get hget, h]
  read_missing get n hn hnone := by simp [f.read_missing get n hn hnone]

end Fields

/-- A record: no two of its members have one name. -/
structure Record (α : Type) extends Fields α where
  distinct : names.Nodup

namespace Record
variable {α β : Type} (r : Record α) (r' : Record β)

/-- The object with those members. -/
def codec : Codec α where
  encode a := .obj (r.write a)
  decode j := match j with
    | .obj members => r.read fun name => (Json.obj members).get? name
    | _ => none
  decode_encode a := by
    refine r.read_write a _ fun m hm => ?_
    exact Json.get?_of_mem (by rw [r.write_names]; exact r.distinct) hm

def dump (a : α) : Json := r.codec.encode a

def validate (j : Json) : Option α := r.codec.decode j

@[simp] theorem validate_dump (a : α) : r.validate (r.dump a) = some a := r.codec.decode_encode a

/-- A member that no value of the record is written with. -/
theorem get?_dump {name : String} (h : name ∉ r.names) (a : α) : (r.dump a).get? name = none := by
  refine Json.get?_eq_none ?_
  rwa [r.write_names]

theorem validate_missing {j : Json} {name : String} (h : name ∈ r.required)
    (hnone : j.get? name = none) : r.validate j = none := by
  cases j with
  | obj members => exact r.read_missing _ name h hnone
  | _ => rfl

/-- A record is told from those that are written without a member it requires. -/
theorem validate_foreign {name : String} (h : name ∈ r.required) (hno : name ∉ r'.names) (b : β) :
    r.validate (r'.dump b) = none := r.validate_missing h (r'.get?_dump hno b)

end Record
end JsonFormat
