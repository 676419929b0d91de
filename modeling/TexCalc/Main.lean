import TexCalc.CommandLine.Run

/-!
# The program

Reads what the request needs, lets the library do the work, and writes the results.
-/

open TexCalc.CommandLine

/-- The fault behind a failure of the file system. -/
def faultOf : IO.Error → String
  | .noFileOrDirectory .. => FileFault.notFound.message
  | error => "Error: " ++ toString error ++ "\n"

/-- The expressions of a request, read from its file or from standard input when it has
none of its own. -/
def readExpressions (request : Request) : IO (List String) := do
  if !request.expressions.isEmpty then
    return request.expressions
  match request.input? with
  | some name => return expressionsOf (← IO.FS.readFile name)
  | none => return expressionsOf (← (← IO.getStdin).readToEnd)

/-- Translate the expressions of a request and write the results. -/
def serve (request : Request) : IO UInt32 := do
  let expressions ← readExpressions request
  let batch := Batch.ofExpressions request expressions
  IO.eprint batch.notes
  match request.output? with
  | some name =>
      IO.FS.writeFile name batch.output
      IO.eprint (Request.writtenNote name)
  | none => IO.print batch.output
  return if batch.failed then 1 else 0

def main (arguments : List String) : IO UInt32 := do
  match Invocation.ofArguments arguments with
  | .version =>
      IO.print versionText
      return 0
  | .help =>
      IO.print helpText
      return 0
  | .misuse message =>
      IO.eprint (misuseText message)
      return 2
  | .run request =>
      try
        serve request
      catch error =>
        IO.eprint (faultOf error)
        return 1
