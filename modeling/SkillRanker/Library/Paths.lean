import SkillRanker.Library.Texts

/-! Path names over file trees: how a path is read as steps, and which object the steps lead to
through directories and symbolic links.
-/

namespace SkillRanker.Library

-- Path names

/-- The byte between the parts of a path. -/
def separator : UInt8 := 47

def isName (part : List UInt8) : Prop :=
  part ≠ [] ∧ part ≠ [46] ∧ part ≠ [46, 46] ∧ separator ∉ part

instance (part : List UInt8) : Decidable (isName part) := inferInstanceAs (Decidable (_ ∧ _))

structure EntryName where
  bytes : List UInt8
  named : isName bytes
deriving DecidableEq

inductive PathStep
  | current
  | parent
  | into (name : EntryName)
deriving DecidableEq

def stepOf (part : List UInt8) : List PathStep :=
  if part = [46] then [.current]
  else if part = [46, 46] then [.parent]
  else if named : isName part then [.into { bytes := part, named := named }]
  else []

def partSteps (path : List UInt8) : List PathStep := (path.splitOn separator).flatMap stepOf

def isAbsolutePath (path : List UInt8) : Bool := path.head? = some separator

def pathSteps (path : List UInt8) : List PathStep :=
  partSteps path ++ if path.getLast? = some separator then [.current] else []

def looseSteps (path : List UInt8) : List PathStep := (partSteps path).filter (· ≠ .current)

variable (path : List UInt8)

theorem looseSteps_eq
    : (pathSteps path).filter (· ≠ .current) = looseSteps path := by
  unfold pathSteps looseSteps
  split <;> simp

def joinName (path : List UInt8) (name : EntryName) : List UInt8 :=
  if path.getLast? = some separator then path ++ name.bytes else path ++ separator :: name.bytes

theorem stepOf_name (name : EntryName) : stepOf name.bytes = [.into name] := by
  obtain ⟨bytes, named⟩ := name
  rw [stepOf, if_neg named.2.1, if_neg named.2.2.1, dif_pos named]

theorem partSteps_name (name : EntryName) : partSteps name.bytes = [.into name] := by
  rw [partSteps, splitOn_of_not_mem name.named.2.2.2, List.flatMap_singleton, stepOf_name]

theorem splitOn_join (before after : List UInt8)
    : (before ++ separator :: after).splitOn separator
      = before.splitOn separator ++ after.splitOn separator :=
  List.splitOnP_append_cons (p := (· == separator)) before after (beq_self_eq_true _)

/-- A separator at the end of a path adds an empty part. -/
theorem partSteps_snoc : partSteps (path ++ [separator]) = partSteps path := by
  rw [partSteps, splitOn_join, List.flatMap_append]
  simp [partSteps, stepOf, isName]

theorem partSteps_join (name : EntryName)
    : partSteps (joinName path name) = partSteps path ++ [.into name] := by
  unfold joinName
  split
  next ends =>
    obtain ⟨before, rfl⟩ := List.getLast?_eq_some_iff.mp ends
    rw [List.append_assoc, List.singleton_append, partSteps, splitOn_join, List.flatMap_append,
      ← partSteps, ← partSteps, partSteps_snoc, partSteps_name]
  next =>
    rw [partSteps, splitOn_join, List.flatMap_append, ← partSteps, ← partSteps, partSteps_name]

/-- The last byte of a path that ends in a name is none of its separators. -/
theorem getLast_joinName (name : EntryName)
    : (joinName path name).getLast? ≠ some separator := by
  have last : name.bytes.getLast? ≠ some separator :=
    fun ends => name.named.2.2.2 (List.mem_of_getLast? ends)
  unfold joinName
  split
  · rw [List.getLast?_append_of_ne_nil _ name.named.1]
    exact last
  · rw [List.getLast?_append_of_ne_nil _ (List.cons_ne_nil _ _),
      List.getLast?_cons_of_ne_nil name.named.1]
    exact last

theorem pathSteps_joinName (name : EntryName)
    : pathSteps (joinName path name) = partSteps path ++ [.into name] := by
  rw [pathSteps, if_neg (getLast_joinName path name), List.append_nil, partSteps_join]

-- File trees

/-- Where an object is, as the names on the way from the root. -/
abbrev Location := List EntryName

inductive Node (Content : Type)
  | directory
  | link (target : List UInt8)
  | file (content : Content)
deriving DecidableEq

/-- Directories, files and symbolic links. Every object is in a directory. -/
structure FileTree (Content : Type) where
  node : Location → Option (Node Content)
  root : node [] = some .directory
  held : ∀ place name, node (place ++ [name]) ≠ none → node place = some .directory

/-- A step of a resolution: steps lead from a directory to an object. How the target of a link
is read is a parameter.
-/
inductive Resolves {Content : Type} (tree : FileTree Content)
    (readTarget : List UInt8 → List PathStep)
    : Location → List PathStep → Location → Prop
  | done (place : Location) : Resolves tree readTarget place [] place
  | current {place object : Location} {rest : List PathStep}
      (onward : Resolves tree readTarget place rest object)
      : Resolves tree readTarget place (.current :: rest) object
  | parent {place object : Location} {rest : List PathStep}
      (onward : Resolves tree readTarget place.dropLast rest object)
      : Resolves tree readTarget place (.parent :: rest) object
  | file {place : Location} {name : EntryName} {content : Content}
      (here : tree.node (place ++ [name]) = some (.file content))
      : Resolves tree readTarget place [.into name] (place ++ [name])
  | directory {place object : Location} {name : EntryName} {rest : List PathStep}
      (here : tree.node (place ++ [name]) = some .directory)
      (onward : Resolves tree readTarget (place ++ [name]) rest object)
      : Resolves tree readTarget place (.into name :: rest) object
  | link {place object : Location} {name : EntryName} {rest : List PathStep}
      {target : List UInt8} (here : tree.node (place ++ [name]) = some (.link target))
      (onward
        : Resolves tree readTarget (if isAbsolutePath target then [] else place)
            (readTarget target ++ rest) object)
      : Resolves tree readTarget place (.into name :: rest) object

section Resolution

variable {Content : Type} {tree : FileTree Content} {readTarget : List UInt8 → List PathStep}
  {place object other : Location} {steps rest : List PathStep}

/-- Steps lead to one object at most. -/
theorem Resolves.unique (first : Resolves tree readTarget place steps object)
    (second : Resolves tree readTarget place steps other)
    : object = other := by
  induction first with
  | done => cases second; rfl
  | current _ ih => cases second with | current onward => exact ih onward
  | parent _ ih => cases second with | parent onward => exact ih onward
  | file here =>
      cases second with
      | file => rfl
      | directory there => rw [here] at there; cases there
      | link there => rw [here] at there; cases there
  | directory here _ ih =>
      cases second with
      | file there => rw [here] at there; cases there
      | directory _ onward => exact ih onward
      | link there => rw [here] at there; cases there
  | link here _ ih =>
      cases second with
      | file there => rw [here] at there; cases there
      | directory there => rw [here] at there; cases there
      | link there onward =>
          rw [here] at there
          cases there
          exact ih onward

/-- From the directory that steps lead to, further steps go on. -/
theorem Resolves.append (first : Resolves tree readTarget place steps object)
    (reached : tree.node object = some .directory)
    (second : Resolves tree readTarget object rest other)
    : Resolves tree readTarget place (steps ++ rest) other := by
  induction first with
  | done => exact second
  | current _ ih => exact .current (ih reached second)
  | parent _ ih => exact .parent (ih reached second)
  | file here => rw [here] at reached; cases reached
  | directory here _ ih => exact .directory here (ih reached second)
  | link here _ ih =>
      refine .link here ?_
      rw [List.append_eq, ← List.append_assoc]
      exact ih reached second

/-- A step at the end that stays changes nothing. -/
theorem Resolves.of_current (strict : Resolves tree readTarget place (steps ++ [.current]) object)
    : Resolves tree readTarget place steps object := by
  generalize is : steps ++ [.current] = all at strict
  induction strict generalizing steps with
  | done => simp at is
  | current onward ih =>
      cases steps with
      | nil => cases is; exact onward
      | cons first rest => cases is; exact .current (ih rfl)
  | parent _ ih =>
      cases steps with
      | nil => cases is
      | cons first rest => cases is; exact .parent (ih rfl)
  | file =>
      cases steps with
      | nil => cases is
      | cons first rest => cases rest <;> cases is
  | directory here _ ih =>
      cases steps with
      | nil => cases is
      | cons first rest => cases is; exact .directory here (ih rfl)
  | link here _ ih =>
      cases steps with
      | nil => cases is
      | cons first rest =>
          cases is
          exact .link here (ih (List.append_assoc _ _ _))

/-- What steps lead to, they lead to without those that stay. -/
theorem Resolves.loose (strict : Resolves tree pathSteps place steps object)
    : Resolves tree looseSteps place (steps.filter (· ≠ .current)) object := by
  induction strict with
  | done => exact .done _
  | current _ ih => simpa using ih
  | parent _ ih => exact .parent ih
  | file here => exact .file here
  | directory here _ ih => exact .directory here ih
  | @link _ _ _ _ target here _ ih =>
      refine .link here ?_
      rwa [List.filter_append, looseSteps_eq] at ih

end Resolution

end SkillRanker.Library
