import Mathlib.Data.String.Basic
import SkillRanker.Identity
import SkillRanker.Installer.Command
import SkillRanker.Library.Entries
import SkillRanker.Library.Texts
import SkillRanker.Library.Values

/-! The managed hook in the settings of a harness: how the installer looks for its entry, and how
the ranking budget is read from it.
-/

namespace SkillRanker.Installer

open Library

section

variable {expected command : String} {timeout : UInt32} {before items : List Value}
  {item hook : Value} {path : AbsolutePath}

inductive InstallerError
  | malformedSettings (message : String)
deriving DecidableEq

/-- The members of the settings, as they were read, or why they could not be. -/
abbrev Settings := Except InstallerError (List (String × Value))

def hookStartupReserveSecs : Nat := 1

-- Entries and hooks

def makeManagedEntry (command : String) (timeoutSecs : UInt32) : Value :=
  .object [
    ("hooks", .array [.object [
      ("command", .string command),
      ("timeout", .whole timeoutSecs.toNat),
      ("type", .string "command")]]),
    ("matcher", .string "")]

def entryHooks (item : Value) : Option (List Value) := (item.get "hooks").bind Value.asArray

def hookCommand (hook : Value) : Option String := (hook.get "command").bind Value.asStr

def hookTimeout (hook : Value) : Option Nat := (hook.get "timeout").bind Value.asU64

def entryMatcher (item : Value) : String := ((item.get "matcher").bind Value.asStr).getD ""

/-- A text without the white space around it. -/
def trimmed (text : String) : List Char :=
  (text.toList.dropWhile isWhitespace).rdropWhile isWhitespace

def hookMark : List Char := hookWord ++ ' ' :: claudeWord

def isSrHookCommand (command : String) : Bool :=
  hookMark.isSuffixOf (trimmed command) || (findText hookMark (trimmed command)).isSome

def hasSrHook (hooks : List Value) : Bool :=
  hooks.any fun hook => (hookCommand hook).any isSrHookCommand

-- The installer

inductive MatcherEntryClassification
  | exactMatch (index : Nat)
  | conflict (index : Nat) (description : String)
  | none
deriving DecidableEq

/-- What is wrong with an entry of a single hook. -/
def mismatch (command : String) (timeout : UInt32) (expected : String) (expectedTimeout : UInt32)
    : String :=
  "found command '" ++ command ++ "' (timeout " ++ toString timeout ++ "s), expected '"
    ++ expected ++ "' (timeout " ++ toString expectedTimeout ++ "s)"

def classifyCandidate (index : Nat) (item : Value) (hooks : List Value) (expected : String)
    (expectedTimeout : UInt32)
    : MatcherEntryClassification :=
  match hooks with
  | [hook] =>
      let command := (hookCommand hook).getD ""
      let timeout := UInt32.ofNat ((hookTimeout hook).getD 0)
      if entryMatcher item = "" ∧ command = expected ∧ timeout = expectedTimeout then
        .exactMatch index
      else .conflict index (mismatch command timeout expected expectedTimeout)
  | _ => .conflict index "matcher entry contains multiple hooks alongside sr hook"

/-- The first entry that has a hook of ours decides. -/
def classifyFrom (expected : String) (expectedTimeout : UInt32)
    : Nat → List Value → MatcherEntryClassification
  | _, [] => .none
  | index, item :: rest =>
      match entryHooks item with
      | some hooks =>
          if hasSrHook hooks then classifyCandidate index item hooks expected expectedTimeout
          else classifyFrom expected expectedTimeout (index + 1) rest
      | none => classifyFrom expected expectedTimeout (index + 1) rest

def classifyExistingEntry (userPromptSubmit : List Value) (expected : String)
    (expectedTimeout : UInt32)
    : MatcherEntryClassification :=
  classifyFrom expected expectedTimeout 0 userPromptSubmit

inductive InstallOutcome
  | preview (entry : Value)
  | applied (settings : List (String × Value))
  | alreadyInstalled
  | conflict (index : Nat) (description : String)

def submittedHooks (settings : List (String × Value))
    : Except InstallerError (List (String × Value) × List Value) :=
  match (settings.lookup "hooks").getD (.object []) with
  | .object hooks =>
      match (hooks.lookup "UserPromptSubmit").getD (.array []) with
      | .array items => .ok (hooks, items)
      | _ => .error (.malformedSettings
          "existing 'hooks.UserPromptSubmit' property in settings must be a JSON array")
  | _ => .error (.malformedSettings
      "existing 'hooks' property in settings must be a JSON object")

def installHook (document : Settings) (binaryPath : AbsolutePath) (timeoutSecs : UInt32)
    (apply : Bool)
    : Except InstallerError InstallOutcome := do
  let command := makeCommandString binaryPath
  let entry := makeManagedEntry command timeoutSecs
  let settings ← document
  let (hooks, userPromptSubmit) ← submittedHooks settings
  match classifyExistingEntry userPromptSubmit command timeoutSecs with
  | .exactMatch _ => return .alreadyInstalled
  | .conflict index description => return .conflict index description
  | .none =>
      if apply then
        let submitted := .array (userPromptSubmit ++ [entry])
        let hooked := .object (insertEntry "UserPromptSubmit" submitted hooks)
        return .applied (insertEntry "hooks" hooked settings)
      else return .preview entry

-- The budget

/-- The budget of a timeout in milliseconds, unless it overflows. -/
def budgetOf (timeoutSecs : Nat) : Option Nat :=
  let budget := (timeoutSecs - hookStartupReserveSecs) * 1000
  if budget < UInt64.size then some budget else none

/-- The budget of the first entry that has a hook of the command. It is none of a number if the
timeout is none, and nothing at all if the arithmetic overflows.
-/
def budgetFrom (command : String) : List Value → Option (Option Nat)
  | [] => some none
  | item :: rest =>
      match (entryHooks item).bind (·.find? (hookCommand · == some command)) with
      | some hook =>
          match hookTimeout hook with
          | some timeoutSecs => (budgetOf timeoutSecs).map some
          | none => some none
      | none => budgetFrom command rest

def promptEntries (settings : List (String × Value)) : Option (List Value) := do
  let hooks ← settings.lookup "hooks"
  let submitted ← hooks.get "UserPromptSubmit"
  submitted.asArray

def installedHookBudgetMs (document : Settings) (binaryPath : AbsolutePath)
    : Option (Option Nat) :=
  match document.toOption.bind promptEntries with
  | some items => budgetFrom (makeCommandString binaryPath) items
  | none => some none

end

-- When the ranking budget is that of the entry which the installer takes for its own

-- Commands of ours

/-- A text that white space neither begins nor ends is trimmed. -/
theorem trimmed_eq {text : String} {first last : Char} {rest front : List Char}
    (begins : text.toList = first :: rest) (ends : text.toList = front ++ [last])
    (firstPlain : isWhitespace first = false) (lastPlain : isWhitespace last = false)
    : trimmed text = text.toList := by
  have kept : text.toList.dropWhile isWhitespace = text.toList := by
    rw [begins, List.dropWhile_cons_of_neg (by simp [firstPlain])]
  unfold trimmed
  rw [kept, ends, List.rdropWhile_concat_neg _ _ _ (by simp [lastPlain])]

theorem isSrHookCommand_makeCommandString (path : AbsolutePath)
    : isSrHookCommand (makeCommandString path) = true := by
  have text := toList_makeCommandString path
  have ends : ∃ front, (makeCommandString path).toList = front ++ hookMark := by
    rw [text]
    unfold commandOf
    split
    · exact ⟨'"' :: (path.text ++ ['"', ' ']), by simp [hookArguments, hookMark]⟩
    · exact ⟨path.text ++ [' '], by simp [hookArguments, hookMark]⟩
  have begins : ∃ first rest, (makeCommandString path).toList = first :: rest
      ∧ isWhitespace first = false := by
    obtain ⟨rest, slash⟩ := List.head?_eq_some_iff.mp path.head_text
    rw [text]
    unfold commandOf
    split
    · exact ⟨'"', _, rfl, by decide⟩
    · exact ⟨'/', rest ++ hookArguments, by rw [slash]; rfl, by decide⟩
  obtain ⟨front, isEnd⟩ := ends
  obtain ⟨first, rest, isStart, plain⟩ := begins
  have last : (makeCommandString path).toList = (front ++ "hook claud".toList) ++ ['e'] := by
    rw [isEnd, List.append_assoc]
    rfl
  have whole := trimmed_eq isStart last plain (by decide)
  unfold isSrHookCommand
  rw [whole, isEnd, Bool.or_eq_true]
  exact .inl (List.isSuffixOf_iff_suffix.mpr (List.suffix_append front hookMark))

theorem makeCommandString_ne_empty (path : AbsolutePath) : makeCommandString path ≠ "" := by
  intro empty
  have ours := isSrHookCommand_makeCommandString path
  rw [empty] at ours
  revert ours
  decide +kernel

-- Entries of ours

def IsOurs (item : Value) : Prop := ∃ hooks, entryHooks item = some hooks ∧ hasSrHook hooks = true

def Calls (command : String) (item : Value) : Prop :=
  ∃ hooks, entryHooks item = some hooks ∧ ∃ hook ∈ hooks, hookCommand hook = some command

def Manages (command : String) (item hook : Value) : Prop :=
  entryHooks item = some [hook] ∧ hookCommand hook = some command ∧ entryMatcher item = ""

/-- Entries that are not ours are passed over, by induction on them. -/
theorem classifyFrom_skip {rest : List Value} (index : Nat) (others : ∀ item ∈ before, ¬IsOurs item)
    : classifyFrom expected timeout index (before ++ rest)
      = classifyFrom expected timeout (index + before.length) rest := by
  induction before generalizing index with
  | nil => rfl
  | cons item before ih =>
      have onward := ih (index + 1) fun other mem => others other (List.mem_cons_of_mem _ mem)
      have lengths : index + 1 + before.length = index + (item :: before).length := by
        rw [List.length_cons]
        omega
      rw [List.cons_append, classifyFrom, ← lengths, ← onward]
      cases hooks : entryHooks item with
      | none => rfl
      | some hooks' =>
          refine if_neg fun ours => others item List.mem_cons_self ⟨hooks', hooks, ours⟩

/-- The first item of a kind, if there is one, by induction on the items. -/
theorem exists_first (p : Value → Prop) (items : List Value)
    : (∀ item ∈ items, ¬p item)
      ∨ ∃ before item after, items = before ++ item :: after ∧ p item
        ∧ ∀ other ∈ before, ¬p other := by
  induction items with
  | nil => exact .inl fun _ mem => (List.not_mem_nil mem).elim
  | cons item rest ih =>
      by_cases here : p item
      · exact .inr ⟨[], item, rest, rfl, here, fun _ mem => (List.not_mem_nil mem).elim⟩
      · rcases ih with nowhere | ⟨before, other, after, rfl, found, earlier⟩
        · exact .inl (List.forall_mem_cons.mpr ⟨here, nowhere⟩)
        · exact .inr ⟨item :: before, other, after, rfl, found,
            List.forall_mem_cons.mpr ⟨here, earlier⟩⟩

/-- A candidate matches if it is the managed entry with the timeout. -/
theorem classifyCandidate_exact {index found : Nat} {hooks : List Value}
    (isHooks : entryHooks item = some hooks) (named : expected ≠ "")
    : classifyCandidate index item hooks expected timeout = .exactMatch found
      ↔ found = index ∧ ∃ hook, Manages expected item hook
          ∧ UInt32.ofNat ((hookTimeout hook).getD 0) = timeout := by
  constructor
  · intro matched
    unfold classifyCandidate at matched
    split at matched
    · next hook =>
        dsimp only at matched
        split at matched
        · next meets =>
            cases matched
            obtain ⟨noMatcher, command, secs⟩ := meets
            refine ⟨rfl, hook, ⟨isHooks, ?_, noMatcher⟩, secs⟩
            cases isCommand : hookCommand hook with
            | none =>
                rw [isCommand] at command
                exact absurd command.symm named
            | some text =>
                rw [isCommand] at command
                exact congrArg some command
        · cases matched
    · cases matched
  · rintro ⟨rfl, hook, ⟨single, command, noMatcher⟩, secs⟩
    cases isHooks.symm.trans single
    unfold classifyCandidate
    simp [noMatcher, command, secs]

/-- An entry is taken for the managed one just when it is that, with the timeout, and no entry of
ours comes before it.
-/
theorem classify_exact_iff (named : expected ≠ "") (ours : isSrHookCommand expected = true)
    : (∃ index, classifyExistingEntry items expected timeout = .exactMatch index)
      ↔ ∃ before item after hook, items = before ++ item :: after
          ∧ (∀ other ∈ before, ¬IsOurs other) ∧ Manages expected item hook
          ∧ UInt32.ofNat ((hookTimeout hook).getD 0) = timeout := by
  unfold classifyExistingEntry
  constructor
  · rintro ⟨index, matched⟩
    rcases exists_first IsOurs items with nowhere | ⟨before, item, after, rfl, found, earlier⟩
    · have skipped : classifyFrom expected timeout 0 (items ++ []) = .none :=
        classifyFrom_skip 0 nowhere
      rw [List.append_nil, matched] at skipped
      cases skipped
    · obtain ⟨hooks, isHooks, has⟩ := found
      rw [classifyFrom_skip 0 earlier, classifyFrom, isHooks] at matched
      dsimp only at matched
      rw [if_pos has] at matched
      obtain ⟨_, hook, manages, secs⟩ := (classifyCandidate_exact isHooks named).mp matched
      exact ⟨before, item, after, hook, rfl, earlier, manages, secs⟩
  · rintro ⟨before, item, after, hook, rfl, earlier, manages, secs⟩
    have has : hasSrHook [hook] = true := by
      simp [hasSrHook, manages.2.1, ours]
    refine ⟨0 + before.length, ?_⟩
    rw [classifyFrom_skip 0 earlier, classifyFrom, manages.1]
    dsimp only
    rw [if_pos has]
    exact (classifyCandidate_exact manages.1 named).mpr ⟨rfl, hook, manages, secs⟩

variable {settings : List (String × Value)}

/-- The entries that the installer looks at are those of the prompts, or none. -/
theorem submittedHooks_cases {hooks : List (String × Value)}
    (found : submittedHooks settings = .ok (hooks, items))
    : promptEntries settings = some items ∨ items = [] := by
  unfold submittedHooks at found
  unfold promptEntries
  cases hooked : settings.lookup "hooks" with
  | none =>
      rw [hooked] at found
      cases found
      exact .inr rfl
  | some value =>
      rw [hooked, Option.getD_some] at found
      cases value with
      | object members =>
          dsimp only at found
          cases submitted : members.lookup "UserPromptSubmit" with
          | none =>
              rw [submitted] at found
              cases found
              exact .inr rfl
          | some value =>
              rw [submitted, Option.getD_some] at found
              cases value with
              | array items' =>
                  cases found
                  refine .inl ?_
                  simp [Value.get, submitted, Value.asArray]
              | _ => cases found
      | _ => cases found

theorem submittedHooks_of_promptEntries (entries : promptEntries settings = some items)
    : ∃ hooks, submittedHooks settings = .ok (hooks, items) := by
  unfold promptEntries at entries
  obtain ⟨value, hooked, entries⟩ := Option.bind_eq_some_iff.mp entries
  obtain ⟨submitted, found, isArray⟩ := Option.bind_eq_some_iff.mp entries
  cases value with
  | object members =>
      cases submitted with
      | array items' =>
          cases isArray
          have present : members.lookup "UserPromptSubmit" = some (.array items) := found
          exact ⟨members, by simp [submittedHooks, hooked, present]⟩
      | _ => cases isArray
  | _ => cases found

/-- The installer answers that the hook is there just when it takes an entry for it. -/
theorem alreadyInstalled_iff {document : Settings} {apply : Bool}
    : installHook document path timeout apply = .ok .alreadyInstalled
      ↔ ∃ items, document.toOption.bind promptEntries = some items
          ∧ ∃ index, classifyExistingEntry items (makeCommandString path) timeout
              = .exactMatch index := by
  unfold installHook
  constructor
  · intro answer
    obtain ⟨settings, rfl, looked⟩ := bind_eq_ok.mp answer
    obtain ⟨⟨hooks, items⟩, found, judged⟩ := bind_eq_ok.mp looked
    dsimp only at judged
    cases classified : classifyExistingEntry items (makeCommandString path) timeout with
    | exactMatch index =>
        rcases submittedHooks_cases found with entries | empty
        · exact ⟨items, entries, index, classified⟩
        · subst empty
          cases classified
    | conflict index description =>
        rw [classified] at judged
        cases judged
    | none =>
        rw [classified] at judged
        cases apply <;> cases judged
  · rintro ⟨items, entries, index, classified⟩
    cases document with
    | error error => cases entries
    | ok settings =>
        obtain ⟨hooks, found⟩ := submittedHooks_of_promptEntries entries
        rw [ok_bind, found, ok_bind]
        dsimp only
        rw [classified]
        rfl

-- The hook of the budget

def FirstHook (command : String) (items before : List Value) (item hook : Value) : Prop :=
  (∃ after, items = before ++ item :: after)
  ∧ (∀ other ∈ before, ¬Calls command other)
  ∧ ∃ hooksBefore hooksAfter, entryHooks item = some (hooksBefore ++ hook :: hooksAfter)
      ∧ hookCommand hook = some command
      ∧ ∀ other ∈ hooksBefore, hookCommand other ≠ some command

/-- Some entry has a first hook of the command, or no entry calls it. -/
theorem exists_firstHook (command : String) (items : List Value)
    : (∀ item ∈ items, ¬Calls command item)
      ∨ ∃ before item hook, FirstHook command items before item hook := by
  rcases exists_first (Calls command) items with nowhere
    | ⟨before, item, after, parts, ⟨hooks, isHooks, hook, mem, called⟩, earlier⟩
  · exact .inl nowhere
  · rcases exists_first (hookCommand · = some command) hooks with nothing
      | ⟨hooksBefore, first, hooksAfter, hookParts, isFirst, earlierHooks⟩
    · exact absurd called (nothing hook mem)
    · exact .inr ⟨before, item, first, ⟨after, parts⟩, earlier, hooksBefore, hooksAfter,
        hookParts ▸ isHooks, isFirst, earlierHooks⟩

/-- Entries that do not call the command are passed over, by induction on them. -/
theorem budgetFrom_skip {rest : List Value} (others : ∀ item ∈ before, ¬Calls command item)
    : budgetFrom command (before ++ rest) = budgetFrom command rest := by
  induction before with
  | nil => rfl
  | cons item before ih =>
      have onward := ih fun other mem => others other (List.mem_cons_of_mem _ mem)
      rw [List.cons_append, budgetFrom, ← onward]
      cases hooks : entryHooks item with
      | none => rfl
      | some hooks' =>
          have nothing : hooks'.find? (hookCommand · == some command) = none := by
            refine List.find?_eq_none.mpr fun hook mem called => ?_
            exact others item List.mem_cons_self ⟨hooks', hooks, hook, mem, beq_iff_eq.mp called⟩
          rw [Option.bind_some, nothing]

theorem budgetFrom_firstHook (first : FirstHook command items before item hook)
    : budgetFrom command items
      = match hookTimeout hook with
        | some timeoutSecs => (budgetOf timeoutSecs).map some
        | none => some none := by
  obtain ⟨⟨after, rfl⟩, earlier, hooksBefore, hooksAfter, isHooks, called, others⟩ := first
  have found : (hooksBefore ++ hook :: hooksAfter).find? (hookCommand · == some command)
      = some hook := by
    refine List.find?_eq_some_iff_append.mpr
      ⟨beq_iff_eq.mpr called, hooksBefore, hooksAfter, rfl, fun other mem => ?_⟩
    simpa using others other mem
  rw [budgetFrom_skip earlier, budgetFrom, isHooks]
  cases seconds : hookTimeout hook with
  | none => simp [found, seconds]
  | some timeoutSecs => simp [found, seconds]

/-- Nothing is answered where no entry calls the command. -/
theorem budgetFrom_nowhere (nowhere : ∀ item ∈ items, ¬Calls command item)
    : budgetFrom command items = some none := by
  have skipped : budgetFrom command (items ++ []) = budgetFrom command [] :=
    budgetFrom_skip nowhere
  rwa [List.append_nil] at skipped

/-- A first item is where another one of its kind is, or before it. -/
theorem first_cases {α : Type} {p : α → Prop} {before after before' after' : List α}
    {item item' : α} (same : before ++ item :: after = before' ++ item' :: after')
    (first : ∀ other ∈ before, ¬p other) (found : p item')
    : before = before' ∧ item = item' ∨ item ∈ before' := by
  rcases List.append_eq_append_iff.mp same with ⟨between, parts, rest⟩ | ⟨between, parts, rest⟩
  · cases between with
    | nil =>
        rw [List.append_nil] at parts
        exact .inl ⟨parts.symm, (List.cons.inj rest).1⟩
    | cons head tail =>
        refine .inr ?_
        rw [parts, (List.cons.inj rest).1]
        exact List.mem_append_right _ List.mem_cons_self
  · cases between with
    | nil =>
        rw [List.append_nil] at parts
        exact .inl ⟨parts, (List.cons.inj rest).1.symm⟩
    | cons head tail =>
        refine absurd found (first item' ?_)
        rw [parts, (List.cons.inj rest).1]
        exact List.mem_append_right _ List.mem_cons_self

/-- The installer takes the hook for its own just when its entry is the managed one and no entry of
ours comes before it.
-/
theorem installs_iff (first : FirstHook (makeCommandString path) items before item hook)
    : (∃ index, classifyExistingEntry items (makeCommandString path) timeout = .exactMatch index)
      ↔ ((∀ other ∈ before, ¬IsOurs other) ∧ Manages (makeCommandString path) item hook)
        ∧ UInt32.ofNat ((hookTimeout hook).getD 0) = timeout := by
  have ours := isSrHookCommand_makeCommandString path
  have named := makeCommandString_ne_empty path
  obtain ⟨⟨after, parts⟩, earlier, hooksBefore, hooksAfter, isHooks, called, others⟩ := first
  rw [classify_exact_iff named ours]
  constructor
  · rintro ⟨before', item', after', hook', parts', earlier', manages, secs⟩
    have calls : Calls (makeCommandString path) item' :=
      ⟨[hook'], manages.1, hook', List.mem_singleton_self hook', manages.2.1⟩
    have isOurs : IsOurs item := by
      refine ⟨_, isHooks, List.any_eq_true.mpr ⟨hook, ?_, ?_⟩⟩
      · exact List.mem_append_right _ List.mem_cons_self
      · rw [called]
        exact ours
    rcases first_cases (parts.symm.trans parts') earlier calls with ⟨rfl, rfl⟩ | mem
    · have single : hooksBefore ++ hook :: hooksAfter = [hook'] :=
        Option.some.inj (isHooks.symm.trans manages.1)
      have equal : hook = hook' := by
        have mem : hook ∈ [hook'] := single ▸ List.mem_append_right _ List.mem_cons_self
        exact List.mem_singleton.mp mem
      subst equal
      exact ⟨⟨earlier', manages⟩, secs⟩
    · exact absurd isOurs (earlier' item mem)
  · rintro ⟨⟨notOurs, manages⟩, secs⟩
    exact ⟨before, item, after, hook, parts, notOurs, manages, secs⟩

-- The budget and the installer

/-- A budget is answered without overflow, and just for the timeout with which the installer would
find its hook installed.
-/
def BudgetAgrees (document : Settings) (path : AbsolutePath) (apply : Bool) : Prop :=
  ∃ answer, installedHookBudgetMs document path = some answer
    ∧ ∀ budget, answer = some budget
      ↔ ∃ timeout : UInt32, installHook document path timeout apply = .ok .alreadyInstalled
          ∧ budget = (timeout.toNat - hookStartupReserveSecs) * 1000

/-- The first hook of the command is that of the managed entry, which no entry of ours comes before,
and has a timeout of 32 bits. Or it is not, and has no timeout.
-/
def PlainlyManaged (command : String) (items : List Value) : Prop :=
  ∀ before item hook, FirstHook command items before item hook →
    ((∀ other ∈ before, ¬IsOurs other) ∧ Manages command item hook
        ∧ ∃ timeoutSecs, hookTimeout hook = some timeoutSecs ∧ timeoutSecs < UInt32.size)
    ∨ (¬((∀ other ∈ before, ¬IsOurs other) ∧ Manages command item hook)
        ∧ hookTimeout hook = none)

theorem FirstHook.unique {before' : List Value} {item' hook' : Value}
    (one : FirstHook command items before item hook)
    (two : FirstHook command items before' item' hook')
    : before = before' ∧ item = item' ∧ hook = hook' := by
  obtain ⟨⟨after, parts⟩, earlier, hooksBefore, hooksAfter, isHooks, called, others⟩ := one
  obtain ⟨⟨after', parts'⟩, earlier', hooksBefore', hooksAfter', isHooks', called', others'⟩ := two
  have calls : Calls command item :=
    ⟨_, isHooks, hook, List.mem_append_right _ List.mem_cons_self, called⟩
  have calls' : Calls command item' :=
    ⟨_, isHooks', hook', List.mem_append_right _ List.mem_cons_self, called'⟩
  rcases first_cases (parts.symm.trans parts') earlier calls' with ⟨rfl, rfl⟩ | mem
  · have hooks : hooksBefore ++ hook :: hooksAfter = hooksBefore' ++ hook' :: hooksAfter' :=
      Option.some.inj (isHooks.symm.trans isHooks')
    rcases first_cases hooks others called' with ⟨_, same⟩ | mem
    · exact ⟨rfl, rfl, same⟩
    · exact absurd called (others' hook mem)
  · exact absurd calls (earlier' item mem)

/-- Timeouts with the same budget are the same, or both spend nothing. -/
theorem lt_of_same_budget {secs other bound : Nat} (small : other < bound) (big : 1 < bound)
    (same : (secs - hookStartupReserveSecs) * 1000 = (other - hookStartupReserveSecs) * 1000)
    : secs < bound := by
  unfold hookStartupReserveSecs at same
  omega

/-- A hook with a timeout gives the budget of the installer's timeout just when the entry is the
managed one and the timeout has 32 bits.
-/
theorem budget_timed {managed : Prop} {timeoutSecs : Nat}
    : (∃ answer, (budgetOf timeoutSecs).map some = some answer
        ∧ ∀ budget, answer = some budget
          ↔ ∃ timeout : UInt32, (managed ∧ UInt32.ofNat timeoutSecs = timeout)
              ∧ budget = (timeout.toNat - hookStartupReserveSecs) * 1000)
      ↔ managed ∧ timeoutSecs < UInt32.size := by
  constructor
  · rintro ⟨answer, made, agrees⟩
    obtain ⟨budget, isBudget, rfl⟩ := Option.map_eq_some_iff.mp made
    obtain ⟨timeout, ⟨isManaged, _⟩, same⟩ := (agrees budget).mp rfl
    unfold budgetOf at isBudget
    dsimp only at isBudget
    split at isBudget
    · cases isBudget
      have small : timeout.toNat < UInt32.size := timeout.toNat_lt
      have big : 1 < UInt32.size := by decide
      exact ⟨isManaged, lt_of_same_budget small big same⟩
    · cases isBudget
  · rintro ⟨isManaged, small⟩
    have fits : (timeoutSecs - hookStartupReserveSecs) * 1000 < UInt64.size :=
      lt_of_le_of_lt (Nat.mul_le_mul_right 1000 ((Nat.sub_le _ _).trans small.le))
        (by decide : UInt32.size * 1000 < UInt64.size)
    have back : (UInt32.ofNat timeoutSecs).toNat = timeoutSecs := UInt32.toNat_ofNat_of_lt' small
    refine ⟨some ((timeoutSecs - hookStartupReserveSecs) * 1000), ?_, fun budget => ?_⟩
    · unfold budgetOf
      dsimp only
      rw [if_pos fits]
      rfl
    · constructor
      · rintro ⟨⟩
        exact ⟨_, ⟨isManaged, rfl⟩, by rw [back]⟩
      · rintro ⟨timeout, ⟨_, rfl⟩, rfl⟩
        rw [back]

theorem FirstHook.calls (first : FirstHook command items before item hook)
    : item ∈ items ∧ Calls command item := by
  obtain ⟨⟨after, rfl⟩, _, hooksBefore, hooksAfter, isHooks, called, _⟩ := first
  exact ⟨List.mem_append_right _ List.mem_cons_self,
    _, isHooks, hook, List.mem_append_right _ List.mem_cons_self, called⟩

/-- The installer finds nothing where no entry calls the command. -/
theorem not_installs_of_nowhere (nowhere : ∀ item ∈ items, ¬Calls (makeCommandString path) item)
    : ¬∃ index, classifyExistingEntry items (makeCommandString path) timeout
        = .exactMatch index := by
  intro found
  have ours := isSrHookCommand_makeCommandString path
  obtain ⟨before, item, after, hook, rfl, _, manages, _⟩ :=
    (classify_exact_iff (makeCommandString_ne_empty path) ours).mp found
  exact nowhere item (List.mem_append_right _ List.mem_cons_self)
    ⟨[hook], manages.1, hook, List.mem_singleton_self hook, manages.2.1⟩

theorem plainlyManaged_iff (first : FirstHook command items before item hook)
    : PlainlyManaged command items
      ↔ ((∀ other ∈ before, ¬IsOurs other) ∧ Manages command item hook
          ∧ ∃ timeoutSecs, hookTimeout hook = some timeoutSecs ∧ timeoutSecs < UInt32.size)
        ∨ (¬((∀ other ∈ before, ¬IsOurs other) ∧ Manages command item hook)
          ∧ hookTimeout hook = none) := by
  refine ⟨fun plain => plain before item hook first, ?_⟩
  intro plain before' item' hook' other
  obtain ⟨rfl, rfl, rfl⟩ := first.unique other
  exact plain

/-- The budget is that of the timeout with which the installer would find its hook installed, just
when the first hook of the command is plainly managed or there is none.
-/
theorem budget_agrees_iff (document : Settings) (path : AbsolutePath) (apply : Bool)
    : BudgetAgrees document path apply
      ↔ ∀ items, document.toOption.bind promptEntries = some items →
          PlainlyManaged (makeCommandString path) items := by
  unfold BudgetAgrees
  simp only [alreadyInstalled_iff, installedHookBudgetMs]
  cases read : document.toOption.bind promptEntries with
  | none => simp
  | some items =>
      simp only [Option.some.injEq, forall_eq', exists_eq_left']
      rcases exists_firstHook (makeCommandString path) items with nowhere
        | ⟨before, item, hook, first⟩
      · rw [budgetFrom_nowhere nowhere]
        have plain : PlainlyManaged (makeCommandString path) items :=
          fun before item hook first => absurd first.calls.2 (nowhere item first.calls.1)
        refine iff_of_true ⟨none, rfl, fun budget => ?_⟩ plain
        refine iff_of_false nofun ?_
        rintro ⟨timeout, installed, _⟩
        exact not_installs_of_nowhere nowhere installed
      · rw [budgetFrom_firstHook first, plainlyManaged_iff first]
        simp only [installs_iff first]
        cases timed : hookTimeout hook with
        | none =>
            refine ⟨?_, ?_⟩
            · rintro ⟨answer, made, agrees⟩
              cases made
              refine .inr ⟨fun managed => ?_, rfl⟩
              cases (agrees 0).mpr ⟨0, ⟨managed, rfl⟩, rfl⟩
            · rintro (⟨_, _, _, impossible, _⟩ | ⟨unmanaged, _⟩)
              · cases impossible
              · refine ⟨none, rfl, fun budget => iff_of_false nofun ?_⟩
                rintro ⟨timeout, ⟨managed, _⟩, _⟩
                exact unmanaged managed
        | some timeoutSecs =>
            refine budget_timed.trans ⟨?_, ?_⟩
            · rintro ⟨managed, small⟩
              exact .inl ⟨managed.1, managed.2, timeoutSecs, rfl, small⟩
            · rintro (⟨notOurs, manages, secs, same, small⟩ | ⟨_, impossible⟩)
              · cases same
                exact ⟨⟨notOurs, manages⟩, small⟩
              · cases impossible

-- Entries that are not the managed one

def samplePath : AbsolutePath :=
  {
    bytes := encodeChars "/usr/bin/sr".toList
    absolute := by decide +kernel
    unterminated := by decide +kernel
  }

theorem samplePath_command : makeCommandString samplePath = "/usr/bin/sr hook claude" := by
  unfold makeCommandString AbsolutePath.text samplePath
  rw [lossy_encodeChars]
  decide +kernel

def matchedSettings : List (String × Value) :=
  [("hooks", .object [("UserPromptSubmit", .array [.object [
    ("hooks", .array [.object [
      ("command", .string "/usr/bin/sr hook claude"),
      ("timeout", .whole 60),
      ("type", .string "command")]]),
    ("matcher", .string "review.*")]])])]

/-- The installer finds an entry with a matcher to be in conflict with its own, for every timeout,
and yet the budget is read from it.
-/
theorem matched_budget
    : installedHookBudgetMs (.ok matchedSettings) samplePath = some (some 59000)
      ∧ (∀ timeout apply,
          installHook (.ok matchedSettings) samplePath timeout apply ≠ .ok .alreadyInstalled)
      ∧ ¬BudgetAgrees (.ok matchedSettings) samplePath true := by
  have conflicts (timeout : UInt32) (apply : Bool)
      : installHook (.ok matchedSettings) samplePath timeout apply ≠ .ok .alreadyInstalled := by
    intro installed
    obtain ⟨items, entries, matched⟩ := alreadyInstalled_iff.mp installed
    cases entries
    obtain ⟨before, item, after, hook, parts, _, manages, _⟩ :=
      (classify_exact_iff (makeCommandString_ne_empty samplePath)
        (isSrHookCommand_makeCommandString samplePath)).mp matched
    cases before with
    | nil =>
        cases (List.cons.inj parts).1
        have noMatcher := manages.2.2
        revert noMatcher
        decide +kernel
    | cons first rest => cases rest <;> cases (List.cons.inj parts).2
  have budget : installedHookBudgetMs (.ok matchedSettings) samplePath = some (some 59000) := by
    unfold installedHookBudgetMs
    rw [samplePath_command]
    decide +kernel
  refine ⟨budget, conflicts, ?_⟩
  rintro ⟨answer, made, agrees⟩
  rw [budget] at made
  cases made
  obtain ⟨timeout, installed, _⟩ := (agrees 59000).mp rfl
  exact conflicts timeout true installed

end SkillRanker.Installer
