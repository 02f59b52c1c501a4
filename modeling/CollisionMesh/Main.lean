import CollisionMesh.Command

/-!
# The program

The command line over the files of the system.
-/

open CollisionMesh

namespace CollisionMesh

/-- Why the system refused a file. It counts the causes upwards or downwards from
    zero. -/
def FileFault.ofSystem (e : IO.Error) : FileFault :=
  match e with
  | .noFileOrDirectory .. | .noSuchThing .. => .notFound
  | .inappropriateType _ code _ =>
    if code = 20 ∨ code = -20 then .notDirectory
    else if code = 21 ∨ code = -21 then .isDirectory
    else .other (toString e)
  | e => .other (toString e)

/-- What came of an action of the system. -/
def answerOf {α : Type} (action : IO α) : IO (Except FileFault α) := do
  return (← action.toBaseIO).mapError .ofSystem

instance : FileAccess IO where
  Writer := IO.FS.Handle
  readText path := do
    return (← answerOf (IO.FS.readBinFile path)).bind fun content =>
      match String.fromUTF8? content with
      | some text => .ok text
      | none => .error .notText
  create path := answerOf (IO.FS.Handle.mk path .write)
  append handle text := answerOf (handle.putStr text)
  flush handle := answerOf handle.flush

end CollisionMesh

/-- Answers the request that the arguments make. -/
def main (arguments : List String) : IO UInt32 := do
  let answer ← (Request.parse arguments).answer
  IO.print answer.output
  IO.eprint answer.errors
  return answer.exitCode.toUInt32
