import TexCalc.CommandLine.Batch

/-!
# A run of the program

A run takes arguments, standard input and a store of files, and gives an exit code, the
two output texts and the store as it is afterwards.  Expressions among the arguments are
taken as they are; otherwise they are the lines of the input file, or of standard input.
-/

namespace TexCalc.CommandLine

/-- Files by name. -/
structure Files where
  entries : List (String × String) := []
  deriving DecidableEq, Repr

/-- Why a file cannot be read or written. -/
inductive FileFault where
  | notFound
  | isDirectory
  | notDirectory
  deriving DecidableEq, Repr

namespace FileFault

/-- The fault as it is reported. -/
def message : FileFault → String
  | notFound =>
      "Error: Os \x7b code: 2, kind: NotFound, message: \"No such file or directory\" \x7d\n"
  | isDirectory =>
      "Error: Os \x7b code: 21, kind: IsADirectory, message: \"Is a directory\" \x7d\n"
  | notDirectory =>
      "Error: Os \x7b code: 20, kind: NotADirectory, message: \"Not a directory\" \x7d\n"

end FileFault

namespace Files

/-- The steps from the current directory to a file. -/
def path (name : String) : List String :=
  (name.splitOn "/").filter fun step => step != "" && step != "."

/-- Whether a path is that of a directory: the current one, or one with a file in it. -/
def isDirectory (files : Files) (steps : List String) : Bool :=
  steps.isEmpty ||
    files.entries.any fun (name, _) =>
      steps.length < (path name).length && steps.isPrefixOf (path name)

/-- The content at a path. -/
def content? (files : Files) (steps : List String) : Option String :=
  (files.entries.find? fun (name, _) => path name == steps).map Prod.snd

def read (files : Files) (name : String) : Except FileFault String :=
  match files.content? (path name) with
  | some content => .ok content
  | none =>
      if name != "" && files.isDirectory (path name) then .error .isDirectory
      else .error .notFound

/-- The store with a file written, which needs a directory to stand in. -/
def write (files : Files) (name content : String) : Except FileFault Files :=
  let steps := path name
  if name = "" then .error .notFound
  else if files.isDirectory steps then .error .isDirectory
  else if (files.content? steps.dropLast).isSome then .error .notDirectory
  else if files.isDirectory steps.dropLast then
    .ok ⟨files.entries.filter (fun (other, _) => path other != steps) ++ [(name, content)]⟩
  else .error .notFound

end Files

/-- What a run leaves behind. -/
structure Outcome where
  exitCode : Nat := 0
  output : String := ""
  notes : String := ""
  files : Files
  deriving DecidableEq, Repr

/-- The answer to a request for the version. -/
def versionText : String :=
  "l2e 0.1.0\n"

/-- The answer to a request for help. -/
def helpText : String :=
  "Usage: l2e [OPTIONS] [EXPRESSIONS]...\n\n" ++
  "Translates formulas written in TeX into expressions for a calculator.\n" ++
  "Without expressions, the lines of the input file or of standard input are read.\n\n" ++
  "Options:\n" ++
  "  -i, --input <FILE>     file with one expression per line\n" ++
  "  -o, --output <FILE>    file for the results\n" ++
  "      --lenient          report faults as warnings and go on\n" ++
  "      --pm <SIGN>        sign of \\pm: plus or minus\n" ++
  "      --log-base <BASE>  base of \\log: common or natural\n" ++
  "      --json             print one record per expression\n" ++
  "  -v, --verbose          note the stages of every translation\n" ++
  "  -h, --help             print this help\n" ++
  "  -V, --version          print the version\n"

/-- The report of a mistake in the arguments. -/
def misuseText (message : String) : String :=
  "error: " ++ message ++ "\n\nFor more information, try '--help'.\n"

namespace Request

/-- The expressions of a request, given how files are read and what is on standard
input. -/
def allExpressions (request : Request) (files : Files) (input : String) :
    Except FileFault (List String) :=
  if request.expressions.isEmpty then
    match request.input? with
    | some name => (files.read name).map expressionsOf
    | none => .ok (expressionsOf input)
  else
    .ok request.expressions

/-- The note that the output was written to a file. -/
def writtenNote (name : String) : String :=
  "✓ Output written to: " ++ name ++ "\n"

/-- What a request leaves behind. -/
def run (request : Request) (files : Files) (input : String) : Outcome :=
  match request.allExpressions files input with
  | .error fault => { exitCode := 1, notes := fault.message, files }
  | .ok expressions =>
      let batch := Batch.ofExpressions request expressions
      let exitCode := if batch.failed then 1 else 0
      match request.output? with
      | none => { exitCode, output := batch.output, notes := batch.notes, files }
      | some name =>
          match files.write name batch.output with
          | .ok files => { exitCode, notes := batch.notes ++ writtenNote name, files }
          | .error fault =>
              { exitCode := 1, notes := batch.notes ++ fault.message, files }

end Request

/-- What a run with the given arguments leaves behind. -/
def run (arguments : List String) (files : Files) (input : String) : Outcome :=
  match Invocation.ofArguments arguments with
  | .run request => request.run files input
  | .version => { output := versionText, files }
  | .help => { output := helpText, files }
  | .misuse message => { exitCode := 2, notes := misuseText message, files }

end TexCalc.CommandLine
