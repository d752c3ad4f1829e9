import Ttm.Log.Session
import Ttm.Text.Lowercase
import Ttm.Text.Quoted
import Ttm.Text.Size

/-!
Source files: what is known about one, why one cannot be read, and reading one in a session.
-/

namespace Ttm

open Files (Place Volume)

/-- Lines as an editor counts them; an unfinished last line counts. -/
def countLines (bytes : ByteArray) : Nat :=
  if bytes.isEmpty then 0
  else
    let newlines := bytes.foldl (fun n b => if b == 0x0A then n + 1 else n) 0
    if bytes.get! (bytes.size - 1) == 0x0A then newlines else newlines + 1

namespace SourceFile

inductive Error
  | fileNotFound (path : String)
  | invalidExtension (extension : Option String)
  | fileTooLarge (size max : Nat)
  | permissionDenied (path : String)
  | ioError (message : String)
  | invalidPath (path : String)
  deriving DecidableEq, Repr

namespace Error

def name : Error → String
  | fileNotFound _ => "FileNotFound"
  | invalidExtension _ => "InvalidExtension"
  | fileTooLarge .. => "FileTooLarge"
  | permissionDenied _ => "PermissionDenied"
  | ioError _ => "IoError"
  | invalidPath _ => "InvalidPath"

def message : Error → String
  | fileNotFound path => s!"File not found: {path}"
  | invalidExtension extension =>
    "Invalid file extension: expected .ttm, found " ++ Text.Quoted.encodeOption extension
  | fileTooLarge size max => s!"File too large: {size} bytes (max: {max})"
  | permissionDenied path => s!"Permission denied: {path}"
  | ioError message => s!"I/O error reading file: {message}"
  | invalidPath path => s!"Invalid file path: {path}"

/-- Only the size limit has a code of its own. -/
def code : Error → Code
  | fileTooLarge .. => .fileTooLarge
  | _ => .fileOpenFailure

end Error

/-- Facts about a source file. The extension is in lower case. -/
structure Metadata where
  place : Place
  size : Nat
  extension : Option String
  lineCount : Nat
  isTtm : Bool
  deriving DecidableEq, Repr

end SourceFile

/-- A source file that was read. -/
structure SourceFile where
  content : ByteArray
  metadata : SourceFile.Metadata

/-- Above the size from which a file counts as large. -/
def isLarge (limits : Limits) (size : Nat) : Bool := limits.largeFileThreshold < size

namespace SourceFile

open Log (Event Session)

/-- What is known about a file before it is read. -/
def inspect (place : Place) (size : Nat) : Metadata :=
  let extension := (place.getLast?.bind Files.Path.extensionOf).map Text.lowercase
  ⟨place, size, extension, 0, extension == some "ttm"⟩

/-- The file a path leads to, or why there is none, with the event that reports it. -/
def find (path : String) (v : Volume) : Except (Error × Event) (Place × ByteArray) :=
  let refuse (e : Error) (message : String) (context : List (String × String)) :=
    Except.error (e, (Event.error e.code message).withContext context)
  if path.isEmpty then refuse (.invalidPath path) "Empty file path provided" []
  else match v.locate path with
    | .error _ => refuse (.fileNotFound path) "File not found" [("path", path)]
    | .ok place =>
      match v.node? place with
      | none => refuse (.fileNotFound path) "File not found" [("path", path)]
      | some (.directory _) => refuse (.invalidPath path) "Path is not a file" [("path", path)]
      | some (.file content) => .ok (place, content)

/-- Refuses a file for its size, then for its extension. -/
def check (limits : Limits) (settings : FileSettings) (path : String) (m : Metadata) :
    Except (Error × Event) Unit :=
  let refuse (e : Error) (message : String) (context : List (String × String)) :=
    Except.error (e, (Event.error e.code message).withContext (("file", path) :: context))
  if limits.maxFileSize < m.size then
    refuse (.fileTooLarge m.size limits.maxFileSize)
      "File exceeds compile-time maximum size limit"
      [("size_bytes", Nat.repr m.size), ("limit_bytes", Nat.repr limits.maxFileSize)]
  else if settings.requireTtmExtension && !m.isTtm then
    refuse (.invalidExtension m.extension) "File does not have required .ttm extension"
      [("extension", m.extension.getD "none")]
  else .ok ()

def metadataEvent (m : Metadata) : Event :=
  (Event.debug "File metadata collected").withContext
    [ ("size_bytes", Nat.repr m.size), ("extension", m.extension.getD "none"),
      ("is_ttm", Event.yesNo m.isTtm) ]

/-- What is reported about a file that was read. A session reads its clock once, so that no time
passes. -/
def readEvents (limits : Limits) (settings : FileSettings) (path : String) (m : Metadata) :
    List Event :=
  let large := (Event.warning "Source file is above the large file threshold").withContext
    [ ("file", path), ("size", Text.Size.text m.size),
      ("threshold_bytes", Nat.repr limits.largeFileThreshold) ]
  let done :=
    if settings.performanceLogging then
      (Event.success .fileRead "File read with performance metrics").withContext
        [ ("file", path), ("size_bytes", Nat.repr m.size), ("size_human", Text.Size.text m.size),
          ("lines", Nat.repr m.lineCount), ("duration_ms", "0.00"), ("bytes_per_ms", "0.00") ]
    else
      (Event.success .fileRead "File read").withContext
        [("file", path), ("size_bytes", Nat.repr m.size), ("lines", Nat.repr m.lineCount)]
  (if isLarge limits m.size then [large] else []) ++ [done]

/-- Reads a source file. What is logged on the way may itself go to that file, so the content is
taken last. -/
def read (limits : Limits) (settings : FileSettings) (path : String) (s : Session) :
    Except Error SourceFile × Session :=
  let s := s.log ((Event.debug "Starting file processing").withContext [("file", path)])
  match find path s.outputs.volume with
  | .error (e, event) => (.error e, s.log event)
  | .ok (place, found) =>
    let m := inspect place found.size
    let s := s.log (metadataEvent m)
    match check limits settings path m with
    | .error (e, event) => (.error e, s.log event)
    | .ok () =>
      let content :=
        match s.outputs.volume.node? place with
        | some (.file content) => content
        | _ => found
      let m := { m with lineCount := countLines content }
      (.ok ⟨content, m⟩, s.logAll (readEvents limits settings path m))

end SourceFile
end Ttm
