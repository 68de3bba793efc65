import DatagramRpc.Text.Utf8
import DatagramRpc.Yaml.Node

/-!
# Values and records in YAML

What a node stands for where a certain kind of value is wanted. Any scalar is a text, as it is
written; numbers are plain scalars, or literal ones that say so; lists and records may be left
empty. A record has only known names, each at most once.
-/

namespace DatagramRpc.Config

open Yaml

/-- Reads a node as some kind of value. -/
abbrev Reads (α : Type) := Yaml.Node → Walk α

def text : Reads String := fun n => do
  match ← n.follow with
  | .scalar _ _ s => return s
  | _ => failure

/-- The text of a number of some kind. -/
def numberText (kind : String) : Reads String := fun n => do
  match ← n.follow with
  | .scalar .plain _ s => return s
  | .scalar .literal (some tag) s =>
    if tag ≠ Text.encodeUtf8 ("tag:yaml.org,2002:" ++ kind) then failure
    return s
  | _ => failure

/-- A whole number from zero to a greatest. -/
def whole (bits : Nat) : Reads Nat := fun n => do
  (unsigned? (← numberText "int" n)).filter (· ≤ Text.greatestUnsigned bits)

def double : Reads Float := fun n => do
  return .ofBits (← double? (← numberText "float" n))

/-- The name in a tag: what follows an exclamation mark, if it is text. -/
def tagName? : Option Yaml.Tag → Option String
  | some (0x21 :: name) => (Text.decodeUtf8 name).toOption
  | _ => none

/-- One of some named values: the scalar is the name, or it is empty and the name is in its tag. -/
def oneOf {α : Type} (all : List α) (name : α → String) : Reads α := fun n => do
  let .scalar style tag s ← n.follow | failure
  match tagName? tag with
  | some t =>
    if !(style = .plain && ["", "~", "null", "Null", "NULL"].contains s) then failure
    all.find? fun a => name a == t
  | none => all.find? fun a => name a == s

def listOf {α : Type} (item : Reads α) : Reads (List α) := fun n => do
  match ← n.follow with
  | .sequence items => items.mapM item
  | .scalar .plain _ "" => return []
  | _ => failure

/-- Names with the nodes that stand after them. -/
abbrev Record := List (String × Yaml.Node)

/-- A record of some names. -/
def record (names : List String) : Reads Record := fun n => do
  let entries ← match ← n.follow with
    | .mapping entries => entries.mapM fun e => return (← text e.1, e.2)
    | .scalar .plain _ "" => pure []
    | _ => failure
  let given := entries.map (·.1)
  if !(given.all names.contains && decide given.Nodup) then failure
  return entries

namespace Record

def get? (r : Record) (name : String) : Option Yaml.Node := (r.find? fun e => e.1 == name).map (·.2)

/-- A value that has to be there. -/
def required {α : Type} (r : Record) (name : String) (read : Reads α) : Walk α := do
  read (← r.get? name)

/-- A value with another in its place where it is left out. -/
def optional {α : Type} (r : Record) (name : String) (read : Reads α) (otherwise : α) : Walk α :=
  match r.get? name with
  | some n => read n
  | none => return otherwise

end Record

end DatagramRpc.Config
