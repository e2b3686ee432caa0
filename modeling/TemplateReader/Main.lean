import TemplateReader.Command.Duration
import TemplateReader.Command.Run

/-!
# The command line

Takes stock of the files that the arguments name, runs the command on them in
memory, and then tells its result and writes the files that changed.
-/

open TemplateReader

/-- The text of some bytes, if they are one. -/
def decodeBytes (bytes : ByteArray) : Option String := String.fromUTF8? bytes

/-- Everything on standard input. -/
partial def readInput (input : IO.FS.Stream) (sofar : ByteArray) : IO ByteArray := do
  let more ← input.read 65536
  if more.isEmpty then return sofar else readInput input (sofar ++ more)

/-- The routes that an absolute path leads through, from its end back to the root. -/
def waypoints (path : String) : List Route :=
  (FileTree.steps path.toList).foldl
    (fun routes step =>
      let here := routes.headD []
      match step with
      | [] | ['.'] => routes
      | ['.', '.'] => here.dropLast :: routes
      | name => (here ++ [String.ofList name]) :: routes)
    [[]]

/-- The shortest path to what a route leads to. -/
def pathTo (route : Route) : String := "/" ++ "/".intercalate route

/-- The files and directories at a path, which has a route, and inside it. What is no file is read
only where that is asked for, as reading it may wait for more. -/
partial def takeStock (readsStreams : Bool) (here : IO.FS.DirEntry) (route : Route) :
    IO (List (Route × FileEntry)) := do
  if ← here.path.isDir then
    let mut entries := [(route, FileEntry.directory)]
    for inside in ← here.path.readDir do
      let there := route ++ [inside.fileName]
      let found ←
        match (← inside.path.symlinkMetadata).type with
        | .dir => takeStock readsStreams inside there
        | .file =>
          if isTemplatePath inside.fileName then takeStock readsStreams inside there
          else pure [(there, FileEntry.file none)]
        | _ => pure []
      entries := entries ++ found
    return entries
  else
    try
      let text := do return decodeBytes (← IO.FS.readBinFile here.path)
      match (← here.path.metadata).type with
      | .file => return [(route, .file (← text))]
      | _ => return [(route, .stream (← if readsStreams then text else pure none))]
    catch _ => return []

/-- The paths that a command reads. -/
def pathsRead : Invocation → List String
  | .tokenize r => if r.fromInput then [] else r.path.toList
  | .evaluate r => r.references.toList
  | .help | .misuse => []

/-- The files that a command may read. -/
def surroundings (invocation : Invocation) : IO FileTree := do
  let readsStreams :=
    match invocation with
    | .evaluate _ => true
    | _ => false
  let home := toString (← IO.currentDir)
  let workingDirectory := (waypoints home).headD []
  let mut entries := [(workingDirectory, FileEntry.directory)]
  for path in pathsRead invocation do
    let routes := waypoints (if path.startsWith "/" then path else home ++ "/" ++ path)
    for route in routes.tail do
      let here : IO.FS.DirEntry := ⟨"/", pathTo route⟩
      if ← here.path.isDir then entries := (route, .directory) :: entries
      else if ← here.path.pathExists then entries := (route, .file none) :: entries
    let here : IO.FS.DirEntry := ⟨"/", pathTo (routes.headD [])⟩
    entries := (← takeStock readsStreams here (routes.headD [])) ++ entries
  return ⟨workingDirectory, entries⟩

/-- Writes the files of one tree that another does not have as they are. -/
def writeChanges (before after : FileTree) : IO Unit := do
  for (route, entry) in after.entries do
    match entry with
    | .file (some text) =>
      if before.get? route != some entry then IO.FS.writeFile (pathTo route) text
    | _ => pure ()

/-- What is told of the arguments when they ask for help or make no sense. -/
def usage : String :=
  "Usage: template-reader tokenize [--stdin] [--pretty] [--summary] [--max-depth N] [PATH]\n" ++
    "       template-reader data [--refs FILE] [--pretty] LITERAL\n"

/-- Runs the command that the arguments ask for. -/
def main (arguments : List String) : IO UInt32 := do
  let start ← IO.monoNanosNow
  let invocation := readCommandLine arguments
  let input ←
    match invocation with
    | .tokenize r =>
      if r.fromInput then pure (decodeBytes (← readInput (← IO.getStdin) .empty))
      else pure (some "")
    | _ => pure (some "")
  let tree ← surroundings invocation
  let outcome := runCommandLine arguments input tree
  writeChanges tree outcome.tree
  let stop ← IO.monoNanosNow
  match invocation with
  | .help => IO.print usage
  | .misuse => IO.eprint usage
  | _ =>
    IO.print outcome.output
    IO.eprint (outcome.errorText (durationText ((stop - start) / 1000)))
  return outcome.code.toUInt32
