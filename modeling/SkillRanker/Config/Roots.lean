import SkillRanker.Identity

/-! The roots that a configuration grants: lexically normalized paths, inside the workspace or absolute.
-/

namespace SkillRanker.Config

-- Paths

/-- A name in a path, which stands for neither the directory that holds it nor the one above. -/
structure PathName where
  text : String
  named : text ≠ "" ∧ text ≠ "." ∧ text ≠ ".."
  unsplit : '/' ∉ text.toList
deriving DecidableEq

/-- `std::path::Component`, on paths without drive letters. -/
inductive PathComponent
  | rootDir
  | curDir
  | parentDir
  | normal (name : PathName)
deriving DecidableEq

theorem not_mem_of_mem_splitOnP {α : Type} {separates : α → Bool} {list part : List α}
    (mem : part ∈ list.splitOnP separates)
    : ∀ item ∈ part, separates item = false := by
  induction list generalizing part with
  | nil =>
      rw [List.splitOnP_nil, List.mem_singleton] at mem
      subst mem
      exact fun _ absent => absurd absent List.not_mem_nil
  | cons first rest ih =>
      rw [List.splitOnP_cons_eq_if_modifyHead] at mem
      split at mem
      · rcases List.mem_cons.mp mem with rfl | later
        · exact fun _ absent => absurd absent List.not_mem_nil
        · exact ih later
      · next joined =>
        cases parts : rest.splitOnP separates with
        | nil => exact absurd parts (List.splitOnP_ne_nil separates rest)
        | cons head tail =>
            rw [parts] at ih mem
            rcases List.mem_cons.mp mem with rfl | later
            · intro item listed
              rcases List.mem_cons.mp listed with rfl | inHead
              · exact Bool.eq_false_iff.mpr joined
              · exact ih List.mem_cons_self item inHead
            · exact ih (List.mem_cons_of_mem _ later)

/-- A part of a path between its separators: empty parts and dots name nothing. -/
def partComponents (part : List Char) (unsplit : '/' ∉ part) : List PathComponent :=
  if parent : String.ofList part = ".." then [.parentDir]
  else if empty : String.ofList part = "" then []
  else if dot : String.ofList part = "." then []
  else
    [.normal {
      text := String.ofList part
      named := ⟨empty, dot, parent⟩
      unsplit := by rwa [String.toList_ofList] }]

theorem unsplit_of_mem {path : String} {part : List Char} (mem : part ∈ path.toList.splitOn '/')
    : '/' ∉ part := by
  intro listed
  have separates := not_mem_of_mem_splitOnP mem _ listed
  simp at separates

/-- `Path::components`: a dot counts at the start of a relative path only. -/
def components (path : String) : List PathComponent :=
  let parts := (path.toList.splitOn '/').attach.flatMap fun part =>
    partComponents part.1 (unsplit_of_mem part.2)
  if path.toList.head? = some '/' then .rootDir :: parts
  else if (path.toList.splitOn '/').head? = some ['.'] then .curDir :: parts
  else parts

/-- `Path::is_absolute` -/
def isAbsolute (path : String) : Bool := path.toList.head? = some '/'

-- Roots

inductive RootError
  | empty
  | tooLong
  | invalidCharacter
  | absoluteNotAllowed
  | relativeNotAllowed
  | escapesWorkspace
  | parentComponent
deriving DecidableEq, Repr

def maxRootBytes : Nat := 4 * 1024

def checkRootText (text : String) : Except RootError Unit :=
  if text.isEmpty then .error .empty
  else if text.utf8ByteSize > maxRootBytes then .error .tooLong
  else if text.toList.any fun char => char ≠ ' ' && forbiddenIdentityCharacter char then
    .error .invalidCharacter
  else .ok ()

/-- A path inside the workspace, as the names on the way; no name is the workspace itself. -/
structure WorkspaceRelativeRoot where
  names : List PathName
deriving DecidableEq

/-- The normalized path and its depth after one more component. -/
def WorkspaceRelativeRoot.walk
    : List PathName → Nat → List PathComponent → Except RootError WorkspaceRelativeRoot
  | normalized, _, [] => .ok { names := normalized }
  | _, _, .rootDir :: _ => .error .absoluteNotAllowed
  | normalized, depth, .curDir :: rest => walk normalized depth rest
  | normalized, depth, .parentDir :: rest =>
      if depth = 0 then .error .escapesWorkspace
      else walk normalized.dropLast (depth - 1) rest
  | normalized, depth, .normal name :: rest => walk (normalized ++ [name]) (depth + 1) rest

def WorkspaceRelativeRoot.parse (text : String) : Except RootError WorkspaceRelativeRoot := do
  checkRootText text
  walk [] 0 (components text)

/-- An absolute path without a step to a directory above. -/
structure TrustedAbsoluteRoot where
  names : List PathName
deriving DecidableEq

def TrustedAbsoluteRoot.parse (text : String) : Except RootError TrustedAbsoluteRoot := do
  checkRootText text
  if isAbsolute text then
    if (components text).any (· = .parentDir) then .error .parentComponent
    else
      .ok {
        names := (components text).filterMap fun
          | .normal name => some name
          | _ => none }
  else .error .relativeNotAllowed

inductive SkillRoot
  | workspaceRelative (root : WorkspaceRelativeRoot)
  | trustedAbsolute (root : TrustedAbsoluteRoot)
deriving DecidableEq

/-- The components lead to a path inside the workspace, and no step on the way leaves it. -/
def StaysInside : Nat → List PathComponent → Prop
  | _, [] => True
  | _, .rootDir :: _ => False
  | depth, .curDir :: rest => StaysInside depth rest
  | 0, .parentDir :: _ => False
  | depth + 1, .parentDir :: rest => StaysInside depth rest
  | depth, .normal _ :: rest => StaysInside (depth + 1) rest

variable {root : WorkspaceRelativeRoot}

/-- A walk that succeeds never leaves the workspace, by induction on the components. -/
theorem WorkspaceRelativeRoot.staysInside_of_walk {normalized : List PathName} {depth : Nat}
    {given : List PathComponent} (walked : walk normalized depth given = .ok root)
    : StaysInside depth given := by
  induction given generalizing normalized depth with
  | nil => trivial
  | cons component rest ih =>
      cases component with
      | rootDir => cases walked
      | curDir => exact ih walked
      | parentDir =>
          rw [walk] at walked
          split at walked
          · cases walked
          · next inside =>
            obtain ⟨above, rfl⟩ := Nat.exists_eq_succ_of_ne_zero inside
            exact ih walked
      | normal name => exact ih walked

/-- A path of the workspace that is accepted never leaves it. -/
theorem WorkspaceRelativeRoot.staysInside {text : String} (parsed : parse text = .ok root)
    : StaysInside 0 (components text) := by
  unfold parse at parsed
  cases checked : checkRootText text with
  | error problem =>
      rw [checked] at parsed
      cases parsed
  | ok _ =>
      rw [checked] at parsed
      exact staysInside_of_walk parsed

end SkillRanker.Config
