import SkillRanker.Library.Fallible
import SkillRanker.Library.Paths
import SkillRanker.Primitives

/-! Reads of files under authorized roots: a walk of one component at a time that follows links
itself, and only into the roots.
-/

namespace SkillRanker.Files

open SkillRanker.Library

def maxSymlinkHops : Nat := 16

def maxResolutionSteps : Nat := 512

def maxLinkTargetBytes : Nat := 4096

inductive FileKind
  | regular
  | directory
  | symlink
  | fifo
  | socket
  | characterDevice
  | blockDevice
  | unknown
deriving DecidableEq

inductive ReadError
  | invalidRelativePath
  | tooManyComponents
  | notFound
  | permissionDenied
  | notADirectory
  | notRegularFile (kind : FileKind)
  | escapesAuthorizedRoots
  | symlinkLoop
  | linkTargetTooLong
  | tooLarge (limit : Nat)
  | rootUnavailable
  | io
deriving DecidableEq

/-- What a system call reports. -/
inductive Errno
  | noEntry
  | access
  | notDirectory
  | loop
  | nameTooLong
  | other
deriving DecidableEq

def mapErrno : Errno → ReadError
  | .noEntry => .notFound
  | .access => .permissionDenied
  | .notDirectory => .notADirectory
  | .loop => .symlinkLoop
  | .nameTooLong => .invalidRelativePath
  | .other => .io

/-- What is neither a directory nor a link: a regular file or another kind, with its bytes. -/
structure Contents where
  kind : FileKind
  bytes : List UInt8
deriving DecidableEq

/-- A file system that stays as it is. Opening an object or reading a link may be refused. -/
structure FileSystem extends FileTree Contents where
  refused : Location → Option Errno
  /-- What opening a link reports that may not be followed, where a directory is wanted. -/
  linkAsDirectory : Errno

-- System calls

section Calls

variable (system : FileSystem)

def kindOf : Node Contents → FileKind
  | .directory => .directory
  | .link _ => .symlink
  | .file contents => contents.kind

def openat (top : Location) (name : EntryName) (directory : Bool) : Except Errno Location :=
  let place := top ++ [name]
  match system.node place with
  | none => .error .noEntry
  | some (.link _) => .error (if directory then system.linkAsDirectory else .loop)
  | some (.file _) =>
      if directory then .error .notDirectory
      else
        match system.refused place with
        | some errno => .error errno
        | none => .ok place
  | some .directory =>
      match system.refused place with
      | some errno => .error errno
      | none => .ok place

def readlinkat (top : Location) (name : EntryName) : Except Errno (List UInt8) :=
  let place := top ++ [name]
  match system.node place with
  | some (.link target) =>
      match system.refused place with
      | some errno => .error errno
      | none => .ok target
  | _ => .error .noEntry

end Calls

-- Roots

/-- A directory that anchors reads: its path leads to it. -/
structure AuthorizedRoot (system : FileSystem) where
  directory : Location
  absolute : List UInt8
  isAbsolute : isAbsolutePath absolute = true
  isDirectory : system.node directory = some .directory
  resolves : Resolves system.toFileTree pathSteps [] (pathSteps absolute) directory

section Roots

variable {system : FileSystem} (roots : List (AuthorizedRoot system))

def stripSteps : List PathStep → List PathStep → Option (List PathStep)
  | path, [] => some path
  | [], _ :: _ => none
  | first :: path, other :: base => if first = other then stripSteps path base else none

/-- `Path::strip_prefix` of an absolute path, in components. -/
def AuthorizedRoot.strip (root : AuthorizedRoot system) (absolute : List UInt8)
    : Option (List PathStep) :=
  if isAbsolutePath absolute then stripSteps (looseSteps absolute) (looseSteps root.absolute)
  else none

/-- One more root to look at: a deeper one than the best so far replaces it. -/
def better (absolute : List UInt8) (best : Option (Nat × List PathStep)) (index : Nat)
    : Option (Nat × List PathStep) :=
  match roots[index]?.bind (fun root => (root.strip absolute).map (root, ·)) with
  | none => best
  | some (root, rest) =>
      let depth (index : Nat) : Nat :=
        (roots[index]?.map (fun root => (looseSteps root.absolute).length)).getD 0
      if best.all (fun current => depth current.1 < (looseSteps root.absolute).length) then
        some (index, rest)
      else best

/-- The deepest root that an absolute path is under, and the components behind it. -/
def locate (absolute : List UInt8) : Option (Nat × List PathStep) :=
  (List.range roots.length).foldl (better roots absolute) none

end Roots

-- The walk

inductive Want
  | file
  | directory
deriving DecidableEq

def Want.accepts : Want → FileKind → Bool
  | .file, kind => kind = .regular
  | .directory, kind => kind = .directory

structure Resolved where
  object : Location
  absolute : List UInt8
deriving DecidableEq

/-- A descriptor stack, with the names of its directories under the root of the walk. -/
structure Walk where
  root : Nat
  stack : List Location
  names : List EntryName
  hops : Nat
  requireExistingLinkTargets : Bool

inductive Turn
  | found (resolved : Resolved)
  | onward (walk : Walk) (queue : List PathStep)

namespace Walk

variable {system : FileSystem} (roots : List (AuthorizedRoot system)) (walk : Walk)

def new (root : Nat) : Except ReadError Walk := do
  let base ← require roots[root]? .rootUnavailable
  return {
    root := root
    stack := [base.directory]
    names := []
    hops := 0
    requireExistingLinkTargets := false
  }

def top : Except ReadError Location := require walk.stack.getLast? .escapesAuthorizedRoots

def absolute (last : EntryName) : List UInt8 :=
  let path := (roots[walk.root]?.map AuthorizedRoot.absolute).getD []
  joinName (walk.names.foldl joinName path) last

/-- Reads a link. An absolute target has to be under a root, where the walk goes on. -/
def follow (name : EntryName) : Except ReadError (Walk × List PathStep) := do
  ensure (walk.hops + 1 ≤ maxSymlinkHops) .symlinkLoop
  let followed := { walk with hops := walk.hops + 1 }
  let top ← walk.top
  let target ← (readlinkat system top name).mapError mapErrno
  ensure (target.length ≤ maxLinkTargetBytes) .linkTargetTooLong
  if isAbsolutePath target then
    let located ← require (locate roots target) .escapesAuthorizedRoots
    let base ← require roots[located.1]? .rootUnavailable
    return ({ followed with root := located.1, stack := [base.directory], names := [] }, located.2)
  else return (followed, looseSteps target)

/-- One component of the queue, with those behind it. -/
def turn (want : Want) (step : PathStep) (rest : List PathStep) : Except ReadError Turn := do
  match step with
  | .current => return .onward walk rest
  | .parent =>
      ensure (walk.names ≠ []) .escapesAuthorizedRoots
      return .onward { walk with stack := walk.stack.dropLast, names := walk.names.dropLast } rest
  | .into name =>
      let top ← walk.top
      match openat system top name !rest.isEmpty with
      | .ok object =>
          if rest.isEmpty then
            let kind := ((system.node object).map kindOf).getD .unknown
            ensure (want.accepts kind) (.notRegularFile kind)
            return .found { object := object, absolute := walk.absolute roots name }
          else
            return .onward
              { walk with stack := walk.stack ++ [object], names := walk.names ++ [name] } rest
      | .error errno =>
          let kind := (system.node (top ++ [name])).map kindOf
          if (errno = .loop ∨ errno = .notDirectory) ∧ kind = some .symlink then
            let (followed, target) ← walk.follow roots name
            return .onward followed (target ++ rest)
          else if errno = .noEntry ∧ 0 < walk.hops ∧ walk.requireExistingLinkTargets then
            .error .invalidRelativePath
          else .error (mapErrno errno)

/-- The turns that are left of the bound, one for each component. -/
def resolve (want : Want) : Nat → Walk → List PathStep → Except ReadError Resolved
  | _, _, [] => .error .invalidRelativePath
  | 0, _, _ :: _ => .error .tooManyComponents
  | left + 1, walk, step :: rest => do
      match ← walk.turn roots want step rest with
      | .found resolved => return resolved
      | .onward next queue => resolve want left next queue

end Walk

-- Reads

section Reads

variable {system : FileSystem} (roots : List (AuthorizedRoot system))

def splitComponents (path : List UInt8) : Except ReadError (List PathStep) :=
  if isAbsolutePath path ∨ .parent ∈ looseSteps path then .error .invalidRelativePath
  else .ok (looseSteps path)

/-- The object of a request under a root, as `read_bounded` opens it. -/
def openBounded (rootIndex : Nat) (relative : List UInt8) : Except ReadError Resolved := do
  let components ← splitComponents relative
  ensure (components ≠ []) .invalidRelativePath
  let walk ← Walk.new roots rootIndex
  walk.resolve roots .file maxResolutionSteps components

/-- The object of an absolute path under a root. Where it is opened for a reader of its end,
links have to lead to what exists.
-/
def openAbsolute (requireExisting : Bool) (absolute : List UInt8)
    : Except ReadError Resolved := do
  ensure (isAbsolutePath absolute = true) .invalidRelativePath
  let located ← require (locate roots absolute) .escapesAuthorizedRoots
  ensure (located.2 ≠ []) (.notRegularFile .directory)
  let walk ← Walk.new roots located.1
  { walk with requireExistingLinkTargets := requireExisting }.resolve roots .file
    maxResolutionSteps located.2

def openAbsoluteFile (absolute : List UInt8) : Except ReadError Resolved :=
  openAbsolute roots true absolute

variable (system) in
def readOpened (resolved : Resolved) (limit : Nat) : Except ReadError (List UInt8) := do
  ensure (limit + 1 ≤ usizeMax) .io
  let bytes :=
    match system.node resolved.object with
    | some (.file contents) => contents.bytes.take (limit + 1)
    | _ => []
  ensure (bytes.length ≤ limit) (.tooLarge limit)
  return bytes

/-- What a read returns: the bytes, and the path and the place of the object they are of. -/
structure FileRead where
  bytes : List UInt8
  resolved : Resolved
deriving DecidableEq

def readBounded (rootIndex : Nat) (relative : List UInt8) (limit : Nat)
    : Except ReadError FileRead := do
  let resolved ← openBounded roots rootIndex relative
  let bytes ← readOpened system resolved limit
  return { bytes := bytes, resolved := resolved }

def readAbsolute (absolute : List UInt8) (limit : Nat) : Except ReadError FileRead := do
  let resolved ← openAbsolute roots false absolute
  let bytes ← readOpened system resolved limit
  return { bytes := bytes, resolved := resolved }

end Reads

end SkillRanker.Files
