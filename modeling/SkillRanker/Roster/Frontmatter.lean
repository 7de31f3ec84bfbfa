import SkillRanker.Library.Lines
import SkillRanker.Library.Texts
import SkillRanker.Roster.Entries

/-! The front matter of skills: the parser of its lines, which reads a subset of YAML. -/

namespace SkillRanker.Roster.Frontmatter

open Library

abbrev Text := List Char

/-- What the parser refuses. -/
inductive FrontmatterError
  | duplicateKey
  | aliasForbidden
  | invalidYamlSyntax
  | nestingTooDeep
deriving DecidableEq, Repr

def maxFrontmatterDepth : Nat := 8

-- Texts and lines

/-- `str::trim_start` -/
def trimStart (text : Text) : Text := text.dropWhile isWhitespace

/-- `str::trim_end` -/
def trimEnd (text : Text) : Text := text.rdropWhile isWhitespace

/-- `str::trim` -/
def trim (text : Text) : Text := trimEnd (trimStart text)

/-- `str::to_ascii_lowercase` -/
def lower (text : Text) : Text := text.map Char.toLower

def byteCount (text : Text) : Nat := (text.map Char.utf8Size).sum

def startsWith (chars : List Char) (text : Text) : Bool := text.head?.any chars.contains

def withoutReturn (line : Text) : Text := (stripLast '\r' line).getD line

/-- `str::lines`: a last line that nothing ends keeps its carriage return. -/
def textLines (text : Text) : List Text :=
  let (complete, left) := lines '\n' text
  complete.map withoutReturn ++ if left = [] then [] else [left]

/-- A line of the parser that says nothing. -/
def isSkipped (trimmed : Text) : Bool := trimmed.isEmpty || startsWith ['#'] trimmed

def isIndented (line : Text) : Bool := startsWith [' ', '\t'] line

/-- The bytes of the white space that a line starts with. -/
def indentOf (line : Text) : Nat := byteCount (line.takeWhile isWhitespace)

def isSequenceItem : Text → Bool
  | '-' :: rest => rest.isEmpty || startsWith [' ', '\t'] rest
  | _ => false

-- Scalars

def beginsNode (char : Char) : Bool := isWhitespace char || ['[', '\x7b', ','].contains char

/-- What stands before the comment of a value. A quote opens a scalar where a node can begin. -/
def beforeComment (quote previous : Option Char) : Text → Text
  | [] => []
  | char :: rest =>
      match quote with
      | some opened =>
          if opened = '"' ∧ char = '\\'
              ∨ opened ≠ '"' ∧ char = '\'' ∧ rest.head? = some '\'' then
            -- The character behind is read with this one.
            match rest with
            | [] => [char]
            | next :: rest => char :: next :: beforeComment quote (some char) rest
          else if char = opened then char :: beforeComment none (some char) rest
          else char :: beforeComment quote (some char) rest
      | none =>
          if char = '#' ∧ previous.all isWhitespace = true then []
          else if (char = '"' ∨ char = '\'') ∧ previous.all beginsNode = true then
            char :: beforeComment (some char) (some char) rest
          else char :: beforeComment none (some char) rest

def stripComment (value : Text) : Text := trimEnd (beforeComment none none value)

/-- `char::from_u32` of hexadecimal digits, as many as are asked for. -/
def hexEscape (digits : Nat) (text : Text) : Except FrontmatterError (Char × Nat) :=
  let taken := text.take digits
  let value := taken.foldl (fun value char => 16 * value + hexDigit char) 0
  if taken.length = digits ∧ taken.all isHexDigit = true ∧ value.isValidChar then
    .ok (Char.ofNat value, digits + 1)
  else .error .invalidYamlSyntax
where
  isHexDigit (char : Char) : Bool :=
    char.isDigit || ('a' ≤ char.toLower && char.toLower ≤ 'f')
  hexDigit (char : Char) : Nat :=
    if char.isDigit then char.toNat - '0'.toNat else char.toLower.toNat - 'a'.toNat + 10

def escapes : List (Char × Char) :=
  [('0', '\x00'), ('a', '\x07'), ('b', '\x08'), ('t', '\t'), ('\t', '\t'), ('n', '\n'),
    ('v', '\x0b'), ('f', '\x0c'), ('r', '\r'), ('e', '\x1b'), (' ', ' '), ('"', '"'),
    ('/', '/'), ('\\', '\\'), ('N', '\u0085'), ('_', '\u00a0'), ('L', '\u2028'), ('P', '\u2029')]

/-- `double_quoted_escape`: the character behind a backslash, and how many characters spell it. -/
def doubleQuotedEscape : Text → Except FrontmatterError (Char × Nat)
  | [] => .error .invalidYamlSyntax
  | code :: rest =>
      match escapes.lookup code with
      | some char => .ok (char, 1)
      | none =>
          if code = 'x' then hexEscape 2 rest
          else if code = 'u' then hexEscape 4 rest
          else if code = 'U' then hexEscape 8 rest
          else .error .invalidYamlSyntax

def readQuoted (quote : Char) : (skip : Nat) → Text → Except FrontmatterError (Text × Text)
  | _, [] => .error .invalidYamlSyntax
  | skip + 1, _ :: rest => readQuoted quote skip rest
  | 0, char :: rest =>
      if char = quote then
        if quote = '\'' ∧ rest.head? = some '\'' then
          (readQuoted quote 1 rest).map (Prod.map (List.cons '\'') id)
        else .ok ([], rest)
      else if quote = '"' ∧ char = '\\' then do
        let (decoded, spelled) ← doubleQuotedEscape rest
        (readQuoted quote spelled rest).map (Prod.map (List.cons decoded) id)
      else (readQuoted quote 0 rest).map (Prod.map (List.cons char) id)

def splitQuoted : Text → Except FrontmatterError (Option (Text × Text))
  | [] => .ok none
  | quote :: rest =>
      if quote = '"' ∨ quote = '\'' then (readQuoted quote 0 rest).map some else .ok none

def scalar (source : Text) : Except FrontmatterError Text := do
  let source := stripComment source
  match ← splitQuoted source with
  | some (decoded, rest) =>
      if trim rest = [] then .ok decoded else .error .invalidYamlSyntax
  | none =>
      if source.count '[' ≠ source.count ']' ∨ source.count '\x7b' ≠ source.count '\x7d' then
        .error .invalidYamlSyntax
      else .ok source

/-- `fold_continuation` behind the text folded so far, and how many lines it takes. -/
def foldContinuation (folded : Text) (breaks : Nat) : List Text → Text × Nat
  | [] => (folded, 0)
  | line :: rest =>
      let text := trim line
      if text = [] then (foldContinuation folded (breaks + 1) rest).map id (· + 1)
      else if isIndented line then
        let joint :=
          if folded = [] then [] else if 0 < breaks then List.replicate breaks '\n' else [' ']
        (foldContinuation (folded ++ joint ++ text) 0 rest).map id (· + 1)
      else (folded, 0)

def blockLines : List Text → List Text × Nat
  | [] => ([], 0)
  | line :: rest =>
      if trim line = [] then (blockLines rest).map (List.cons []) (· + 1)
      else if isIndented line then (blockLines rest).map (List.cons (trimStart line)) (· + 1)
      else ([], 0)

def foldBlock (block : List Text) : Text :=
  block.foldl (fun folded line =>
    if line = [] then folded ++ ['\n']
    else if folded ≠ [] ∧ folded.getLast? ≠ some '\n' then folded ++ ' ' :: line
    else folded ++ line) []

/-- `parse_scalar_or_block`, with how many of the lines below it takes. -/
def parseScalarOrBlock (immediate : Text) (below : List Text)
    : Except FrontmatterError (Text × Nat) :=
  let trimmed := trim immediate
  if startsWith ['|', '>'] trimmed then
    let (block, taken) := blockLines below
    .ok (if startsWith ['>'] trimmed then foldBlock block else ['\n'].intercalate block, taken)
  else
    let (source, taken) := foldContinuation trimmed 0 below
    (scalar source).map (·, taken)

-- Entries of mappings

def endsKey (after : Text) : Bool := after.isEmpty || startsWith [' ', '\t'] after

/-- What comes before and after the first colon that ends a key. -/
def findSeparator : Text → Option (Text × Text)
  | [] => none
  | char :: rest =>
      if char = ':' ∧ endsKey rest = true then some ([], rest)
      else (findSeparator rest).map (Prod.map (List.cons char) id)

def mappingKey (text : Text) : Option Text :=
  if startsWith ['#', '[', '\x7b', '|', '>', '&', '*', '!'] text then none
  else
    match splitQuoted text with
    | .ok (some (key, rest)) =>
        match trimStart rest with
        | ':' :: after => if endsKey after then some key else none
        | _ => none
    | _ => (findSeparator (stripComment text)).map fun (before, _) => trimEnd before

structure NestedMappings where
  scopes : List (Nat × List Text) := []
  blockParent : Option Nat := none

def NestedMappings.insert (nested : NestedMappings) (column : Nat) (key : Text)
    : Except FrontmatterError NestedMappings :=
  match nested.scopes with
  | (scope, keys) :: outer =>
      if scope = column then
        if key ∈ keys then .error .duplicateKey
        else .ok { nested with scopes := (scope, key :: keys) :: outer }
      else opened
  | [] => opened
where
  opened : Except FrontmatterError NestedMappings :=
    if maxFrontmatterDepth ≤ nested.scopes.length then .error .nestingTooDeep
    else .ok { nested with scopes := (column, [key]) :: nested.scopes }

def NestedMappings.within (nested : NestedMappings) (column : Nat) : NestedMappings :=
  { nested with scopes := nested.scopes.filter (·.1 ≤ column) }

def itemEntry (indent : Nat) (text : Text) : Nat × Text :=
  if isSequenceItem text then
    let entry := trimStart text.tail
    (indent + (byteCount text - byteCount entry), entry)
  else (indent, text)

/-- `NestedMappings::track` -/
def NestedMappings.track (nested : NestedMappings) (indent : Nat) (text : Text)
    : Except FrontmatterError NestedMappings :=
  if nested.blockParent.any (· < indent) then .ok nested
  else
    let nested := { nested with blockParent := none }
    let nested := if isSequenceItem text then nested.within indent else nested
    let (column, entry) := itemEntry indent text
    match mappingKey entry with
    | none => .ok nested
    | some key => do
        let nested ← (nested.within column).insert column key
        let value := ((splitOnce ':' entry).map fun (_, value) => trimStart value).getD []
        return if startsWith ['|', '>'] value then { nested with blockParent := some column }
          else nested

-- Anchors and aliases

def nodeStart (text : Text) : Bool :=
  match trimStart text with
  | first :: next :: _ => (first = '&' || first = '*') && !isWhitespace next
  | _ => false

def elementValue (element : Text) : Text :=
  match findText [':', ' '] element with
  | some start => element.drop (start + 2)
  | none => element

def valueStartsNode (value : Text) : Bool :=
  match trim value with
  | first :: inner =>
      if first = '[' ∨ first = '\x7b' then
        (inner.splitOn ',').any fun element =>
          nodeStart (elementValue (element.rdropWhile [']', '\x7d'].contains))
      else nodeStart (first :: inner)
  | [] => false

/-- `uses_anchor_or_alias` of lines, inside the block scalar of a line with that indentation. -/
def usesAnchorOrAlias (blockParent : Option Nat) : List Text → Bool
  | [] => false
  | line :: rest =>
      let text := trim line
      let indent := indentOf line
      if isSkipped text then usesAnchorOrAlias blockParent rest
      else if blockParent.any (· < indent) then usesAnchorOrAlias blockParent rest
      else
        let body :=
          match text with
          | '-' :: item => if item.isEmpty || startsWith [' '] item then trimStart item else text
          | _ => text
        let value := ((splitOnce ':' body).map Prod.snd).getD body
        (valueStartsNode value || nodeStart body)
          || usesAnchorOrAlias
              (if startsWith ['|', '>'] (trimStart value) then some indent else none) rest

-- Values of fields

/-- `parse_string_field`, with how many of the lines below it takes. -/
def parseStringField (immediate : Text) (below : List Text)
    : Except FrontmatterError (Text × Nat) :=
  let immediate := stripComment immediate
  if immediate = [] then
    let following := (below.map trim).find? fun text => !isSkipped text
    if following.any (fun text => isSequenceItem text || (mappingKey text).isSome) then
      .error .invalidYamlSyntax
    else
      let (source, taken) := foldContinuation [] 0 below
      if startsWith ['[', '\x7b'] source then .error .invalidYamlSyntax
      else (scalar source).map (·, taken)
  else if startsWith ['[', '\x7b'] immediate then .error .invalidYamlSyntax
  else parseScalarOrBlock immediate below

def parseBoolean (value : Text) : Except FrontmatterError Bool :=
  let value := String.ofList (lower (trim value))
  if value ∈ ["true", "yes", "on", "1"] then .ok true
  else if value ∈ ["false", "no", "off", "0", ""] then .ok false
  else .error .invalidYamlSyntax

def cleanScalar (text : Text) : Except FrontmatterError Text := (scalar (trim text)).map trim

/-- `split_flow_items` behind what is read of the item under way. -/
def splitFlowItems (quote : Option Char) (current : Text) : Text → List Text
  | [] => [trim current]
  | char :: rest =>
      let escapes := quote = some '"' ∧ char = '\\'
        ∨ quote = some '\'' ∧ char = '\'' ∧ rest.head? = some '\''
      if escapes then
        match rest with
        | [] => [trim (current ++ [char])]
        | next :: rest => splitFlowItems quote (current ++ [char, next]) rest
      else if quote = some char then splitFlowItems none (current ++ [char]) rest
      else if quote = none ∧ (char = '"' ∨ char = '\'') ∧ trim current = [] then
        splitFlowItems (some char) (current ++ [char]) rest
      else if quote = none ∧ char = ',' then trim current :: splitFlowItems none [] rest
      else splitFlowItems quote (current ++ [char]) rest

def blockItems : List Text → Except FrontmatterError (List Text × Nat)
  | [] => .ok ([], 0)
  | line :: rest =>
      let trimmed := trim line
      if isSkipped trimmed then (blockItems rest).map (Prod.map id (· + 1))
      else if maxFrontmatterDepth * 2 < (line.takeWhile (· = ' ')).length then
        .error .nestingTooDeep
      else if startsWith [' ', '\t', '-'] line then
        match trimmed with
        | '-' :: item => do
            let clean ← cleanScalar (trim item)
            (blockItems rest).map
              (Prod.map (fun items => if clean = [] then items else clean :: items) (· + 1))
        | _ => .ok ([], 0)
      else .ok ([], 0)

/-- `parse_list_or_flow`, with how many of the lines below it takes. -/
def parseListOrFlow (immediate : Text) (below : List Text)
    : Except FrontmatterError (List Text × Nat) :=
  let trimmed := stripComment immediate
  if startsWith ['['] trimmed then do
    let (source, taken) := foldContinuation (trim trimmed) 0 below
    match stripComment source with
    | '[' :: rest =>
        match stripLast ']' rest with
        | some inner => do
            let items ← (splitFlowItems none [] inner).mapM cleanScalar
            return (items.filter (· ≠ []), taken)
        | none => .error .invalidYamlSyntax
    | _ => .error .invalidYamlSyntax
  else if trimmed ≠ [] then do
    let (source, taken) := foldContinuation (trim trimmed) 0 below
    let clean ← cleanScalar source
    return ([clean].filter (· ≠ []), taken)
  else blockItems below

-- Fields

structure FrontmatterFields where
  name : Option Text := none
  description : Text := []
  disableModelInvocation : Bool := false
  userInvocable : Bool := true
  usageKind : UsageKind := .unknown
  aliases : List Text := []
  tags : List Text := []
  phases : List Text := []
  forkedContext : Bool := false
deriving DecidableEq

def canonicalKey (key : Text) : Text :=
  if key = "disable_model_invocation".toList then "disable-model-invocation".toList
  else if key = "user_invocable".toList then "user-invocable".toList
  else if key = "usage_kind".toList then "usage".toList
  else if key = "alias".toList then "aliases".toList
  else if key = "tag".toList then "tags".toList
  else if key = "phase".toList then "phases".toList
  else key

def fieldKey (before : Text) : Text := canonicalKey (lower (trim before))

def parseUsageKind (value : Text) : UsageKind :=
  let value := lower (trim value)
  if value = "reference".toList then .reference
  else if value = "workflow".toList then .workflow
  else .unknown

/-- The fields that a text sets, and how many of the lines below it takes. -/
def readString (value : Text) (below : List Text)
    (set : Text → Except FrontmatterError FrontmatterFields)
    : Except FrontmatterError (FrontmatterFields × Nat) := do
  let (text, taken) ← parseStringField value below
  let fields ← set text
  return (fields, taken)

/-- The fields that a list sets, and how many of the lines below it takes. -/
def readList (value : Text) (below : List Text) (set : List Text → FrontmatterFields)
    : Except FrontmatterError (FrontmatterFields × Nat) := do
  let (items, taken) ← parseListOrFlow value below
  return (set items, taken)

/-- The fields with the value of one more, and how many of the lines below it takes. -/
def readField (key value : Text) (below : List Text) (fields : FrontmatterFields)
    : Except FrontmatterError (FrontmatterFields × Nat) :=
  if key = "name".toList then
    readString value below fun text => .ok { fields with name := some (trim text) }
  else if key = "description".toList then
    readString value below fun text => .ok { fields with description := trim text }
  else if key = "disable-model-invocation".toList then
    readString value below fun text =>
      (parseBoolean text).map fun disabled => { fields with disableModelInvocation := disabled }
  else if key = "user-invocable".toList then
    readString value below fun text =>
      (parseBoolean text).map fun invocable => { fields with userInvocable := invocable }
  else if key = "usage".toList then
    readString value below fun text => .ok { fields with usageKind := parseUsageKind text }
  else if key = "context".toList then
    readString value below fun text =>
      .ok { fields with forkedContext := lower (trim text) = "fork".toList }
  else if key = "aliases".toList then
    readList value below fun items => { fields with aliases := items }
  else if key = "tags".toList then readList value below fun items => { fields with tags := items }
  else if key = "phases".toList then
    readList value below fun items => { fields with phases := items }
  -- An unknown field: its value is read and dropped.
  else if stripComment value = [] then .ok (fields, 0)
  else (parseScalarOrBlock value below).map fun (_, taken) => (fields, taken)

def belongsAbove (line : Text) : Bool := isIndented line || isSequenceItem (trim line)

/-- The loop of `parse_yaml_frontmatter`, behind lines that the field above still takes. -/
def parseFrom (fields : FrontmatterFields) (seen : List Text) (nested : NestedMappings)
    : (skip : Nat) → List Text → Except FrontmatterError FrontmatterFields
  | _, [] => .ok fields
  | skip + 1, _ :: below => parseFrom fields seen nested skip below
  | 0, line :: below =>
      if isSkipped (trim line) then parseFrom fields seen nested 0 below
      else if belongsAbove line then do
        let nested ← nested.track (indentOf line) (trim line)
        parseFrom fields seen nested 0 below
      else
        match splitOnce ':' line with
        | none => .error .invalidYamlSyntax
        | some (before, after) =>
            if fieldKey before ∈ seen then .error .duplicateKey
            else do
              let (fields, taken) ← readField (fieldKey before) (trim after) below fields
              parseFrom fields (fieldKey before :: seen) {} taken below

def parseYamlFrontmatter (yaml : Text) : Except FrontmatterError FrontmatterFields :=
  if usesAnchorOrAlias none (textLines yaml) then .error .aliasForbidden
  else parseFrom {} [] {} 0 (textLines yaml)

-- Lines that the parser reads as entries

def isEntryLine (line : Text) : Bool := !isSkipped (trim line) && !belongsAbove line

/-- A line with a field that no value above takes. -/
def isFirm (line : Text) : Bool := isEntryLine line && !startsWith ['-'] line

-- Entries of YAML

structure Entry where
  /-- The key as YAML reads it. -/
  key : Text
  /-- The parser has another way to read the key or the value, or none. -/
  evades : Bool
  value : Text
  below : List Text

def isBlank (char : Char) : Bool := char = ' ' || char = '\t'

def trimBlanks (text : Text) : Text := (text.dropWhile isBlank).rdropWhile isBlank

def hasBareReturn : Text → Bool
  | [] => false
  | char :: rest => (char = '\r' && rest.head? ≠ some '\n') || hasBareReturn rest

def yamlLines (yaml : Text) : List Text :=
  if hasBareReturn yaml then yaml.splitOnP fun char => char = '\n' || char = '\r'
  else textLines yaml

/-- A node starts with a tag or an anchor. -/
def hasProperty (text : Text) : Bool := startsWith ['!', '&'] text

def dropProperty (text : Text) : Text :=
  if hasProperty text then (text.dropWhile (!isBlank ·)).dropWhile isBlank else text

/-- A node without its tag and its anchor. -/
def dropProperties (text : Text) : Text := dropProperty (dropProperty text)

/-- The node of a value: behind its properties, or on a line below, where comments may come first. -/
def valueNode (value : Text) (below : List Text) : Text × List Text :=
  let value := dropProperties (trimBlanks value)
  if stripComment value = [] then
    match below.dropWhile fun line => isSkipped (trimBlanks line) with
    | line :: below =>
        if isIndented line then (dropProperties (trimBlanks line), below) else ([], [])
    | [] => ([], [])
  else (value, below)

def isCommented (value : Text) (below : List Text) : Bool :=
  stripComment (trimBlanks value) = []
    && ((below.map trimBlanks).find? (· ≠ [])).any (startsWith ['#'])

def readEntry (text : Text) : Option (Text × Bool × Text) :=
  match splitQuoted text with
  | .ok (some (key, rest)) =>
      match rest.dropWhile isBlank with
      | ':' :: after => if endsKey after then some (key, true, after) else none
      | _ => none
  | _ =>
      if startsWith ['#', '[', '\x7b', '|', '>', '*'] text then none
      else
        (findSeparator text).map fun (before, after) =>
          (before.rdropWhile isBlank, false, after)

def lineEntry (displaced : Bool) (line : Text) (below : List Text) : Option Entry :=
  let text := trimBlanks line
  (readEntry (dropProperties text)).map fun (key, quoted, value) =>
    if displaced || quoted || hasProperty text || !isFirm line || isCommented value below then
      let (value, below) := valueNode value below
      { key, evades := true, value, below }
    else { key, evades := false, value, below }

def isMarked (mark : Char) : Text → Bool
  | [] => false
  | char :: rest => char = mark && endsKey rest

def explicitEntry (text : Text) (below : List Text) : Option Entry := do
  let (node, below) := valueNode text below
  let (source, taken) := foldContinuation (stripComment node) 0 below
  guard (readEntry source).isNone
  let key ← (scalar source).toOption
  match (below.drop taken).dropWhile fun line => isSkipped (trimBlanks line) with
  | line :: below =>
      let (value, below) :=
        if isMarked ':' line then valueNode line.tail below else ([], [])
      return { key, evades := true, value, below }
  | [] => return { key, evades := true, value := [], below := [] }

def blockEntries (displaced : Bool) : (explicit : Bool) → List Text → List Entry
  | _, [] => []
  | explicit, line :: below =>
      let text := trimBlanks line
      if isSkipped text || isIndented line || isSequenceItem text then
        blockEntries displaced explicit below
      else if isMarked '?' line then
        (explicitEntry line.tail below).toList ++ blockEntries displaced true below
      else if explicit && isMarked ':' line then blockEntries displaced false below
      else (lineEntry displaced line below).toList ++ blockEntries displaced false below

inductive FlowPlace
  /-- Where a node may begin, or a quoted one go on. -/
  | node
  | plain
  | quoted (quote : Char)
  | escaped
  | comment
  | behind
deriving DecidableEq

structure FlowReader where
  elements : List Text := []
  element : Text := []
  depth : Nat := 0
  place : FlowPlace := .node
  previous : Char := ' '

namespace FlowReader

def put (reader : FlowReader) (char : Char) (place : FlowPlace) : FlowReader :=
  { reader with element := reader.element ++ [char], place, previous := char }

def next (reader : FlowReader) (place : FlowPlace) : FlowReader :=
  { reader with
    elements := reader.elements ++ [trimBlanks reader.element]
    element := []
    place
    previous := ' ' }

/-- Reads a character outside quotations and comments. A line break is read as a blank. -/
def readBare (reader : FlowReader) (char : Char) : FlowReader :=
  if isBlank char then
    reader.put char (if reader.previous = ':' then .node else reader.place)
  else if char = '#' ∧ isBlank reader.previous then { reader with place := .comment }
  else if (char = '"' ∨ char = '\'') ∧ reader.place = .node then reader.put char (.quoted char)
  else if char = '[' ∨ char = '\x7b' then
    { reader.put char .node with depth := reader.depth + 1 }
  else if char = ']' ∨ char = '\x7d' then
    if reader.depth = 0 then reader.next .behind
    else { reader.put char .plain with depth := reader.depth - 1 }
  else if char = ',' then
    if reader.depth = 0 then reader.next .node else reader.put char .node
  else reader.put char (if char = ':' then reader.place else .plain)

def step (reader : FlowReader) (char : Char) : FlowReader :=
  match reader.place with
  | .behind => reader
  | .comment => if char = '\n' then { reader with place := .node, previous := ' ' } else reader
  | .escaped => reader.put char (.quoted '"')
  | .quoted quote =>
      if quote = '"' ∧ char = '\\' then reader.put char .escaped
      else reader.put char (if char = quote then .node else .quoted quote)
  | .node | .plain => reader.readBare (if char = '\n' then ' ' else char)

end FlowReader

def flowEntry (element : Text) : Option Entry :=
  let text := dropProperties (trimBlanks (if isMarked '?' element then element.tail else element))
  if text = [] then none
  else
    let (key, value) :=
      match splitQuoted text with
      | .ok (some (key, rest)) => (key, (rest.dropWhile isBlank).tail)
      | _ => ((findSeparator text).getD (text, [])).map trimBlanks id
    some { key, evades := true, value := (valueNode value []).1, below := [] }

def flowEntries (text : Text) : List Entry :=
  (text.foldl FlowReader.step {}).elements.filterMap flowEntry

/-- A line without the blanks before a column. -/
def dedent (column : Nat) (line : Text) : Text :=
  line.drop (min column (line.takeWhile (· = ' ')).length)

/-- The entries of the mapping that a text is: in flow style, or on the lines of the column where its
first line starts.
-/
def entries (yaml : Text) : List Entry :=
  let lines := yamlLines yaml
  match lines.dropWhile fun line => isSkipped (dropProperties (trimBlanks line)) with
  | [] => []
  | first :: below =>
      match dropProperties (trimBlanks first) with
      | '\x7b' :: inner => flowEntries (['\n'].intercalate (inner :: below))
      | _ =>
          let column := (first.takeWhile (· = ' ')).length
          blockEntries (hasBareReturn yaml || column ≠ 0) false (lines.map (dedent column))

def restrictingKey : Text := "disable-model-invocation".toList

def isTrue (value : Text) (below : List Text) : Bool :=
  match parseStringField (trim value) below with
  | .ok (text, _) => parseBoolean text = .ok true
  | .error _ => false

def Entry.Restricts (entry : Entry) : Prop :=
  entry.key = restrictingKey ∧ isTrue entry.value entry.below = true

end SkillRanker.Roster.Frontmatter
