import CollisionMesh.Text.Blank

namespace CollisionMesh.Text

/-!
# JSON output

Numbers, lists and objects as JSON with every element on a line of its own, two
blanks deeper than what holds it.
-/

/-- What is written as JSON here. -/
inductive Json where
  | null
  | number (n : Nat)
  | integer (n : Int)
  | list (elements : List Json)
  | object (fields : List (String × Json))

namespace Json

/-- The start of a line so deep. -/
def lineStart (depth : Nat) : String :=
  "\n" ++ String.ofList (List.replicate (2 * depth) ' ')

/-- Elements between brackets; none leave the brackets empty. -/
def bracketed (opening closing : String) (depth : Nat) (elements : List String) : String :=
  if elements.isEmpty then opening ++ closing
  else opening ++ lineStart (depth + 1)
    ++ String.intercalate ("," ++ lineStart (depth + 1)) elements ++ lineStart depth ++ closing

/-- A value as it is written so deep. -/
def text (depth : Nat) : Json → String
  | null => "null"
  | number n => toString n
  | integer n => toString n
  | list elements => bracketed "[" "]" depth (elements.map fun e => text (depth + 1) e)
  | object fields => bracketed "\x7b" "\x7d" depth
      (fields.attach.map fun ⟨(name, value), _⟩ => "\"" ++ name ++ "\": " ++ text (depth + 1) value)
termination_by json => sizeOf json
decreasing_by
  all_goals simp_wf
  · have := List.sizeOf_lt_of_mem ‹_ ∈ elements›
    omega
  · rename_i h
    have := List.sizeOf_lt_of_mem h
    simp only [Prod.mk.sizeOf_spec] at this
    omega

end Json

end CollisionMesh.Text
