import TemplateReader.Text.Cursor

/-!
# File trees

The files that a command may read and write, by their names from the root
down. A directory is there when it is listed or when something is inside it.
Paths are written with slashes and may step up by two dots. What a file system
refuses is a parameter: how long a path and a name in it may be, and what is kept
from being opened.
-/

namespace TemplateReader

/-- The names that lead from the root to a file or directory. -/
abbrev Route := List String

/-- A file or a directory without regard to what is inside it. -/
inductive FileEntry where
  /-- A file with its text, or without one when its bytes are none. -/
  | file (text : Option String)
  /-- Something to read from that is no file, with what it gives. -/
  | stream (text : Option String)
  /-- A directory. -/
  | directory
deriving DecidableEq, Repr

/-- Files and directories, and the directory in which relative paths begin. -/
structure FileTree where
  /-- Where relative paths begin. -/
  workingDirectory : Route
  /-- What there is. -/
  entries : List (Route × FileEntry)
deriving DecidableEq, Repr

/-- What something is opened for. -/
inductive Access where
  /-- To be read. -/
  | read
  /-- To be written. -/
  | write
deriving DecidableEq, Repr

/-- What a file system refuses. -/
structure FileSystem where
  /-- The most bytes that a name may have. -/
  nameLimit : Nat := 255
  /-- The most bytes that a path may have. -/
  pathLimit : Nat := 4095
  /-- The reason why what is at a route, or would be, cannot be opened, if there is one. -/
  refusal? : Access → Route → Option String := fun _ _ => none

/-- Why a file could not be read or written. -/
inductive FileFault where
  /-- There is no such file. -/
  | missing
  /-- A file stands where a directory is needed. -/
  | throughFile
  /-- It is a directory. -/
  | directory
  /-- Its bytes are no text. -/
  | noText
  /-- Its path or a name in it is too long. -/
  | tooLong
  /-- The file system refuses it for another reason. -/
  | refused (reason : String)
deriving DecidableEq, Repr

namespace FileFault

/-- The wording of a fault. -/
def message : FileFault → String
  | missing => "No such file or directory (os error 2)"
  | throughFile => "Not a directory (os error 20)"
  | directory => "Is a directory (os error 21)"
  | noText => "stream did not contain valid UTF-8"
  | tooLong => "File name too long (os error 36)"
  | refused reason => reason

end FileFault

/-- What a path leads to. -/
inductive Located where
  /-- A file with its text, or without one when its bytes are none. -/
  | file (route : Route) (text : Option String)
  /-- Something to read from that is no file, with what it gives. -/
  | stream (route : Route) (text : Option String)
  /-- A directory. -/
  | directory (route : Route)
  /-- Nothing. -/
  | missing
  /-- Nothing, as a file stands where a directory is needed. -/
  | throughFile
  /-- Nothing, as the path or a name in it is too long to look for. -/
  | tooLong
deriving DecidableEq, Repr

/-- The last name of a path. -/
def fileName (path : String) : List Char :=
  (path.toList.reverse.takeWhile (· != '/')).reverse

namespace FileSystem

/-- Whether a path or its last name is over its limit. -/
def isTooLong (fs : FileSystem) (path : String) : Bool :=
  fs.pathLimit < path.utf8ByteSize || fs.nameLimit < byteSize (fileName path)

/-- What comes of reading what is at a route, whose bytes are a text or none. -/
def content (fs : FileSystem) (route : Route) (text : Option String) : Except FileFault String :=
  match fs.refusal? .read route with
  | some reason => .error (.refused reason)
  | none =>
    match text with
    | some text => .ok text
    | none => .error .noText

end FileSystem

/-- What becomes of something that a text is written to. Only a file holds the text from then on. A
stream hands it to whatever reads from there, and a directory takes none. -/
def FileEntry.overwrite (text : String) : FileEntry → FileEntry
  | file _ => file (some text)
  | stream given => stream given
  | directory => directory

namespace FileTree

/-- What is listed at a route. -/
def get? (t : FileTree) (route : Route) : Option FileEntry :=
  (t.entries.find? fun e => e.1 = route).map Prod.snd

/-- Whether a route leads to a directory. -/
def isDirectory (t : FileTree) (route : Route) : Bool :=
  route.isEmpty || t.entries.any fun e =>
    (e.1 = route && e.2 = .directory) || (route.isPrefixOf e.1 && route.length < e.1.length)

/-- Writes a text to what is listed at a route, or to a new file if nothing is. -/
def write (t : FileTree) (route : Route) (text : String) : FileTree :=
  { t with entries := put t.entries }
where
  /-- The entries with the text among them. -/
  put : List (Route × FileEntry) → List (Route × FileEntry)
    | [] => [(route, .file (some text))]
    | e :: entries =>
      if e.1 = route then (route, e.2.overwrite text) :: entries else e :: put entries

/-- Splits a path at its slashes. -/
def steps : List Char → List (List Char)
  | [] => [[]]
  | c :: path =>
    if c = '/' then [] :: steps path
    else
      match steps path with
      | [] => [[c]]
      | first :: others => (c :: first) :: others

/-- Where the steps of a path lead from a directory. Every step but a name of something needs a
directory to be taken from, also an empty one. A name is measured when its turn comes. -/
def follow (t : FileTree) (fs : FileSystem) (here : Route) : List String → Located
  | [] => .directory here
  | step :: path =>
    if step = "" || step = "." then follow t fs here path
    else if step = ".." then follow t fs here.dropLast path
    else if fs.nameLimit < step.utf8ByteSize then .tooLong
    else
      let there := here ++ [step]
      if t.isDirectory there then follow t fs there path
      else
        match t.get? there with
        | some (.file text) => if path.isEmpty then .file there text else .throughFile
        | some (.stream text) => if path.isEmpty then .stream there text else .throughFile
        | _ => .missing

/-- What a path leads to. -/
def locate (t : FileTree) (fs : FileSystem) (path : String) : Located :=
  if fs.pathLimit < path.utf8ByteSize then .tooLong
  else
    match path.toList with
    | [] => .missing
    | '/' :: path => t.follow fs [] ((steps path).map String.ofList)
    | path => t.follow fs t.workingDirectory ((steps path).map String.ofList)

/-- The routes of the files inside a directory, at any depth, from that directory on. -/
def filesInside (t : FileTree) (directory : Route) : List Route :=
  t.entries.filterMap fun e =>
    match e.2 with
    | .file _ =>
      if directory.isPrefixOf e.1 && directory.length < e.1.length then
        some (e.1.drop directory.length)
      else none
    | .stream _ | .directory => none

end FileTree

/-- The path of something inside a directory that was itself given by a path. -/
def joinPath (directory : String) : Route → String
  | [] => directory
  | inside =>
    let slash := if directory.toList.getLast? = some '/' then "" else "/"
    directory ++ slash ++ "/".intercalate inside

/-- The files that a walk through a directory comes to, when the directory was given by a path. A
directory that cannot be opened, or whose own path is too long for that, is passed over. -/
def FileTree.walk (t : FileTree) (fs : FileSystem) (path : String) (directory : Route) :
    List Route :=
  (t.filesInside directory).filter fun inside =>
    (joinPath path inside.dropLast).utf8ByteSize ≤ fs.pathLimit &&
      (List.range inside.length).all fun depth =>
        (fs.refusal? .read (directory ++ inside.take depth)).isNone

/-- The part of a file name behind its last dot, if that is not its first character. -/
def extension? (name : List Char) : Option (List Char) :=
  let reversed := name.reverse
  match reversed.dropWhile (· != '.') with
  | '.' :: _ :: _ => some (reversed.takeWhile (· != '.')).reverse
  | _ => none

/-- Whether a path names a template. -/
def isTemplatePath (path : String) : Bool :=
  match extension? (fileName path) with
  | some ['t', 'm', 'l'] => true
  | some ['d', 't', 'm', 'l'] => true
  | _ => false

/-- Where the result of a template is written. -/
def resultPath (path : String) : String := path ++ ".tokens.json"

end TemplateReader
