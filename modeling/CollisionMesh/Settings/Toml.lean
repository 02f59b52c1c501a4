import CollisionMesh.Settings
import CollisionMesh.Toml.Reader

namespace CollisionMesh

/-!
# Settings from TOML

A settings document names only what differs from the standard. Keys that mean
nothing here are skipped; a value of the wrong kind is an error.

* `Settings.ofEntries` — the settings that the entries of a document describe;
* `Settings.ofToml` — those of a document.
-/

namespace Toml

/-- A number, whole or not. -/
def number? : Toml → Option Float
  | .float x => some x
  | .integer (.ofNat n) => some (Number.nearest .positive n 0)
  | .integer (.negSucc n) => some (Number.nearest .negative (n + 1) 0)
  | _ => none

/-- Whether nothing is in a table or an array. -/
def isVoid : Toml → Bool
  | .table _ entries => entries.isEmpty
  | .array elements => elements.isEmpty
  | _ => false

/-- A word out of a list: a string, or a table with the word as its only key and
    nothing behind it. -/
def word? : Toml → Option String
  | .text content => some content
  | .table _ [(name, content)] => if content.isVoid then some name else none
  | _ => none

/-- The value of a key, read by `read?`; the standard where the key is missing. -/
def field {β : Type} (entries : Entries) (key : String) (read? : Toml → Option β)
    (standard : β) : Option β :=
  match entries.lookup key with
  | none => some standard
  | some v => read? v

/-- The value at a position, read by `read?`; the standard where there is none. -/
def element {β : Type} (elements : List Toml) (position : Nat) (read? : Toml → Option β)
    (standard : β) : Option β :=
  match elements[position]? with
  | none => some standard
  | some v => read? v

end Toml

open Toml

/-- The tolerances that a table describes by name, or an array by position. -/
def Tolerances.ofToml? : Toml → Option (Tolerances Float)
  | .table _ entries => do
    return {
      weldDistance := ← field entries "weld_distance" number? standard.weldDistance
      splitAngle := ← field entries "edge_split_angle" number? standard.splitAngle
      dissolveAngle := ← field entries "dissolve_angle" number? standard.dissolveAngle }
  | .array elements => do
    return {
      weldDistance := ← element elements 0 number? standard.weldDistance
      splitAngle := ← element elements 1 number? standard.splitAngle
      dissolveAngle := ← element elements 2 number? standard.dissolveAngle }
  | _ => none

/-- A word that says what becomes of keys. -/
def KeyPolicy.ofWord? : String → Option KeyPolicy
  | "legacy" => some .lenient
  | "strict" => some .strict
  | _ => none

/-- A word that says what becomes of groups that fail. -/
def FailurePolicy.ofWord? : String → Option FailurePolicy
  | "pass_through" => some .passThrough
  | "drop" => some .drop
  | _ => none

namespace Settings

/-- The settings that the entries of a document describe. -/
def ofEntries (entries : Entries) : Option Settings := do
  return {
    tolerances := ← field entries "params" Tolerances.ofToml? standard.tolerances
    keyPolicy := ← field entries "key_presence" (fun v => word? v >>= KeyPolicy.ofWord?)
      standard.keyPolicy
    outputSuffix := ← field entries "output_suffix" text? standard.outputSuffix
    failurePolicy := ← field entries "failure_policy" (fun v => word? v >>= FailurePolicy.ofWord?)
      standard.failurePolicy }
where
  text? : Toml → Option String
    | .text content => some content
    | _ => none

/-- The settings that a document describes. -/
def ofToml (text : String) (path : Option String) : Except Error Settings :=
  match Toml.parse text with
  | none => .error (.settings path "not a TOML document")
  | some entries =>
    match ofEntries entries with
    | none => .error (.settings path "not a settings document")
    | some s => .ok s

end Settings

end CollisionMesh
