import TemplateReader.Command.Arguments
import TemplateReader.Command.FileTree
import TemplateReader.Data.Literal
import TemplateReader.Data.Reader
import TemplateReader.Template.Record
import TemplateReader.Text.Quoted

/-!
# Running a command

A command turns standard input and a file tree into an exit code, a text on
standard output, notices on standard error and a new file tree. For a single
template the result goes to standard output; for a directory the result of
each template inside goes into a file beside it, and a template that cannot be
read does not keep the others from being read.
-/

namespace TemplateReader

/-- What is told on standard error. -/
inductive Notice where
  /-- A failure, already rendered. -/
  | failure (rendered : String)
  /-- A reason to stop. -/
  | fatal (reason : String)
  /-- A file that was written. -/
  | written (path : String)
  /-- The number of templates of a directory that were read. -/
  | finished (count : Nat)
deriving DecidableEq, Repr

namespace Notice

/-- The text of a notice; `elapsed` is how long the command took. -/
def text (elapsed : String) : Notice → String
  | failure rendered => rendered
  | fatal reason => "Error: " ++ reason ++ "\n"
  | written path => "  ✓ " ++ path ++ "\n"
  | finished count =>
    "\n✨ Tokenized " ++ String.ofList (digitsOf count) ++ (if count = 1 then " file" else " files") ++
      " in " ++ elapsed ++ "\n"

end Notice

/-- What running a command leads to. -/
structure Outcome where
  /-- The exit code. -/
  code : Nat
  /-- The text on standard output. -/
  output : String
  /-- What is told on standard error. -/
  notices : List Notice
  /-- The files afterwards. -/
  tree : FileTree
deriving DecidableEq, Repr

namespace Outcome

/-- Success with a line of output. -/
def success (tree : FileTree) (line : String) : Outcome := ⟨0, line ++ "\n", [], tree⟩

/-- Failure with one notice. -/
def failed (tree : FileTree) (notice : Notice) : Outcome := ⟨1, "", [notice], tree⟩

/-- The text on standard error. -/
def errorText (elapsed : String) (o : Outcome) : String :=
  String.join (o.notices.map (Notice.text elapsed))

end Outcome

namespace Located

/-- What comes of reading what was located. -/
def text (fs : FileSystem) : Located → Except FileFault String
  | file route text | stream route text => fs.content route text
  | directory _ => .error .directory
  | missing => .error .missing
  | throughFile => .error .throughFile
  | tooLong => .error .tooLong

end Located

/-- The notice that a file could not be read. -/
def unreadable (path : String) (fault : FileFault) : Notice :=
  .fatal ("failed to read " ++ path ++ ": " ++ fault.message)

/-- The notice that a file could not be written. -/
def unwritable (path : String) (fault : FileFault) : Notice :=
  .fatal ("failed to write " ++ path ++ ": " ++ fault.message)

/-- The written result of a template. -/
def templateResult (r : TokenizeRequest) (source : String) : Except Failure String :=
  match Document.read source r.limit with
  | .error e => .error (.template e)
  | .ok document =>
    .ok ((if r.summary then document.summary.toValue else document.toValue).text r.layout)

/-- Reads one template and writes its result to standard output. -/
def runTemplate (r : TokenizeRequest) (tree : FileTree) (name source : String) : Outcome :=
  match templateResult r source with
  | .ok result => .success tree result
  | .error failure => .failed tree (.failure (failure.render source name))

/-- How far the run over a directory has come. -/
structure Progress where
  /-- The files so far. -/
  tree : FileTree
  /-- What was told so far. -/
  notices : List Notice
  /-- Number of results written. -/
  written : Nat
  /-- Number of templates that could not be read. -/
  failed : Nat
deriving DecidableEq, Repr

namespace Progress

/-- The progress with one more notice. -/
def tell (p : Progress) (notice : Notice) : Progress :=
  { p with notices := p.notices ++ [notice] }

end Progress

/-- Why nothing can be written to a path, which leads along a route. -/
def writeFault? (fs : FileSystem) (tree : FileTree) (path : String) (route : Route) :
    Option FileFault :=
  if fs.isTooLong path then some .tooLong
  else if tree.isDirectory route then some .directory
  else (fs.refusal? .write route).map .refused

/-- What comes of reading a file of a directory, which a walk has come to by a path. -/
def readInside (fs : FileSystem) (tree : FileTree) (path : String) (route : Route) :
    Except FileFault String :=
  if fs.isTooLong path then .error .tooLong
  else
    match tree.get? route with
    | some (.file text) => fs.content route text
    | _ => .error .missing

/-- Reads one template of a directory and writes its result beside it. An error is a reason to stop
the whole run. -/
def runInside (fs : FileSystem) (r : TokenizeRequest) (shown : String) (directory inside : Route)
    (p : Progress) : Except Progress Progress :=
  let path := joinPath shown inside
  match readInside fs p.tree path (directory ++ inside) with
  | .error fault => .error (p.tell (unreadable path fault))
  | .ok source =>
    match templateResult r source with
    | .error failure =>
      .ok { p.tell (.failure (failure.render source path)) with failed := p.failed + 1 }
    | .ok result =>
      let target := resultPath path
      let route := directory ++ inside.dropLast ++ [resultPath (inside.getLastD "")]
      match writeFault? fs p.tree target route with
      | some fault => .error (p.tell (unwritable target fault))
      | none =>
        .ok { p.tell (.written target) with
              tree := p.tree.write route (result ++ "\n")
              written := p.written + 1 }

/-- Reads the templates among some files of a directory, one after another. -/
def runEach (fs : FileSystem) (r : TokenizeRequest) (shown : String) (directory : Route) :
    List Route → Progress → Except Progress Progress
  | [], p => .ok p
  | inside :: files, p =>
    if isTemplatePath (joinPath shown inside) then
      match runInside fs r shown directory inside p with
      | .error p => .error p
      | .ok p => runEach fs r shown directory files p
    else runEach fs r shown directory files p

/-- Reads the templates of a directory, whose files are visited in a given order. -/
def runDirectory (fs : FileSystem) (r : TokenizeRequest) (tree : FileTree) (shown : String)
    (directory : Route) (order : List Route) : Outcome :=
  match runEach fs r shown directory order ⟨tree, [], 0, 0⟩ with
  | .error p => ⟨1, "", p.notices, p.tree⟩
  | .ok p =>
    if p.written = 0 && p.failed = 0 then
      .failed tree (.fatal ("no .tml or .dtml files found in " ++ shown))
    else ⟨if p.failed = 0 then 0 else 1, "", p.notices ++ [.finished p.written], p.tree⟩

/-- Reads a template or the templates of a directory. -/
def runPath (fs : FileSystem) (r : TokenizeRequest) (tree : FileTree) (path : String) : Outcome :=
  match tree.locate fs path with
  | .file route text =>
    if isTemplatePath path then
      match fs.content route text with
      | .ok source => runTemplate r tree path source
      | .error fault => .failed tree (unreadable path fault)
    else .failed tree (.fatal (path ++ " is not a .tml or .dtml file"))
  | .directory route => runDirectory fs r tree path route (tree.walk fs path route)
  | _ => .failed tree (.fatal (path ++ " does not exist"))

/-- Runs the command that reads templates. -/
def runTokenize (fs : FileSystem) (r : TokenizeRequest) (input : Option String) (tree : FileTree) :
    Outcome :=
  if r.fromInput then
    match input with
    | some source => runTemplate r tree "<stdin>" source
    | none => .failed tree (.fatal ("failed to read stdin: " ++ FileFault.noText.message))
  else
    match r.path with
    | some path => runPath fs r tree path
    | none => .failed tree (.fatal "provide a file/directory or use --stdin")

/-- The table that a file holds. -/
def loadReferences (fs : FileSystem) (tree : FileTree) (path : String) : Except Notice Fields :=
  match (tree.locate fs path).text fs with
  | .error fault => .error (unreadable path fault)
  | .ok text =>
    match readObject showQuoted text.toList with
    | .ok fields => .ok fields
    | .error e => .error (.fatal (path ++ " is not a JSON object: " ++ e.message text.toList))

/-- Runs the command that evaluates a literal. -/
def runEvaluate (fs : FileSystem) (r : EvaluateRequest) (tree : FileTree) : Outcome :=
  let references : Except Notice (Option Fields) :=
    match r.references with
    | none => .ok none
    | some path => (loadReferences fs tree path).map some
  match references with
  | .error notice => .failed tree notice
  | .ok references =>
    match evaluateText r.literal.toList references with
    | .ok value => .success tree (value.text r.layout)
    | .error failure => .failed tree (.failure (failure.render r.literal "<literal>"))

/-- The exit code of a command line that makes no sense. -/
def misuseCode : Nat := 2

/-- Runs a command line. Help and misuse are answered by the exit code alone. -/
def runCommandLine (arguments : List String) (input : Option String) (tree : FileTree)
    (fs : FileSystem := {}) : Outcome :=
  match readCommandLine arguments with
  | .tokenize r => runTokenize fs r input tree
  | .evaluate r => runEvaluate fs r tree
  | .help => ⟨0, "", [], tree⟩
  | .misuse => ⟨misuseCode, "", [], tree⟩

end TemplateReader
