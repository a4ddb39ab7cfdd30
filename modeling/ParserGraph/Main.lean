import ParserGraph.CommandLine.Basic

/-!
# The program — the command line and the files around it
-/

namespace ParserGraph

open CommandLine

/-- All bytes that are left on a stream. -/
partial def readRest (stream : IO.FS.Stream) (sofar : ByteArray) : IO ByteArray := do
  let bytes ← stream.read 65536
  if bytes.isEmpty then pure sofar else readRest stream (sofar ++ bytes)

/-- The text of what is read, or why there is none. -/
def readText (bytes : IO ByteArray) : IO (Except ReadError String) := do
  match ← bytes.toBaseIO with
  | .ok bytes => pure (decode bytes)
  | .error (.noFileOrDirectory _ _ _) => pure (.error .notFound)
  | .error e => pure (.error (.other (toString e)))

/-- Reads what the arguments name and does what they ask. -/
def runCommand (args : List String) : IO Exit := do
  match Arguments.read? args with
  | none => pure .usage
  | some request =>
    let grammar ← readText (IO.FS.readBinFile request.grammar)
    match grammar, request.input with
    | .error e, _ => pure (perform .plain request (fun _ => .error e) (.error e))
    | .ok _, some name =>
      let input ← readText (IO.FS.readBinFile name)
      pure (perform .plain request (fun file => if file = request.grammar then grammar else input)
        (.error .notFound))
    | .ok _, none =>
      let input ← readText (readRest (← IO.getStdin) ByteArray.empty)
      pure (perform .plain request (fun _ => grammar) input)

end ParserGraph

/-- The command. -/
def main (args : List String) : IO UInt32 := do
  let exit ← ParserGraph.runCommand args
  (← IO.getStdout).putStr exit.output
  (← IO.getStderr).putStr exit.errors
  pure exit.code.toUInt32
