import Mathlib.Data.Char
import SkillRanker.Library.Texts

/-! JSON values with whole numbers, their compact text, and how a value is read back from it. -/

namespace SkillRanker.Library

inductive Json
  | null
  | bool (value : Bool)
  | number (value : Int)
  | string (text : String)
  | array (items : List Json)
  | object (members : List (String × Json))
deriving Repr

-- Writing

def escapes : List (Char × Char) :=
  [('"', '"'), ('\\', '\\'), ('\n', 'n'), ('\r', 'r'), ('\t', 't'), ('\x08', 'b'), ('\x0c', 'f')]

def escaped (char : Char) : List Char :=
  match escapes.lookup char with
  | some code => ['\\', code]
  | none =>
      if char.toNat < 32 then
        ['\\', 'u', '0', '0', (char.toNat / 16).digitChar, (char.toNat % 16).digitChar]
      else [char]

def quotedText (text : List Char) : List Char := '"' :: text.flatMap escaped ++ ['"']

def writeInteger (value : Int) : List Char :=
  if value < 0 then '-' :: decimal 0 value.natAbs else decimal 0 value.natAbs

mutual

def Json.write : Json → List Char
  | .null => "null".toList
  | .bool true => "true".toList
  | .bool false => "false".toList
  | .number value => writeInteger value
  | .string text => quotedText text.toList
  | .array [] => "[]".toList
  | .array (item :: rest) => '[' :: item.write ++ writeItems rest
  | .object [] => "\x7b\x7d".toList
  | .object ((key, value) :: rest) =>
      '\x7b' :: quotedText key.toList ++ ':' :: value.write ++ writeMembers rest

def writeItems : List Json → List Char
  | [] => [']']
  | item :: rest => ',' :: item.write ++ writeItems rest

def writeMembers : List (String × Json) → List Char
  | [] => ['\x7d']
  | (key, value) :: rest =>
      ',' :: quotedText key.toList ++ ':' :: value.write ++ writeMembers rest

end

-- Reading

def hexValue (char : Char) : Option Nat :=
  if char.isDigit then some (char.toNat - 48)
  else if 'a' ≤ char ∧ char ≤ 'f' then some (char.toNat - 87)
  else none

/-- What a backslash and the code behind it stand for. -/
def unescaped (code : Char) : Option Char :=
  (escapes.find? fun entry => entry.2 = code).map Prod.fst

/-- A quoted text behind its first quote, and what follows it. -/
def readChars : List Char → Option (List Char × List Char)
  | [] => none
  | '"' :: rest => some ([], rest)
  | '\\' :: 'u' :: '0' :: '0' :: high :: low :: rest => do
      let high ← hexValue high
      let low ← hexValue low
      let (text, rest) ← readChars rest
      return (Char.ofNat (16 * high + low) :: text, rest)
  | '\\' :: code :: rest => do
      let char ← unescaped code
      let (text, rest) ← readChars rest
      return (char :: text, rest)
  | char :: rest => do
      let (text, rest) ← readChars rest
      return (char :: text, rest)

def readNatural (text : List Char) : Option (Nat × List Char) :=
  (readDigits (text.takeWhile Char.isDigit)).map fun value => (value, text.dropWhile Char.isDigit)

mutual

def readValue : Nat → List Char → Option (Json × List Char)
  | 0, _ => none
  | fuel + 1, text =>
      match text with
      | 'n' :: 'u' :: 'l' :: 'l' :: rest => some (.null, rest)
      | 't' :: 'r' :: 'u' :: 'e' :: rest => some (.bool true, rest)
      | 'f' :: 'a' :: 'l' :: 's' :: 'e' :: rest => some (.bool false, rest)
      | '"' :: rest =>
          (readChars rest).map fun (chars, rest) => (.string (String.ofList chars), rest)
      | '[' :: ']' :: rest => some (.array [], rest)
      | '[' :: rest => (readItems fuel rest).map fun (items, rest) => (.array items, rest)
      | '\x7b' :: '\x7d' :: rest => some (.object [], rest)
      | '\x7b' :: rest => (readMembers fuel rest).map fun (members, rest) => (.object members, rest)
      | '-' :: rest => (readNatural rest).map fun (value, rest) => (.number (-value), rest)
      | _ => (readNatural text).map fun (value, rest) => (.number value, rest)

def readItems : Nat → List Char → Option (List Json × List Char)
  | 0, _ => none
  | fuel + 1, text => do
      let (item, rest) ← readValue fuel text
      match rest with
      | ']' :: rest => some ([item], rest)
      | ',' :: rest => (readItems fuel rest).map fun (items, rest) => (item :: items, rest)
      | _ => none

def readMembers : Nat → List Char → Option (List (String × Json) × List Char)
  | 0, _ => none
  | fuel + 1, text =>
      match text with
      | '"' :: rest => do
          let (key, rest) ← readChars rest
          match rest with
          | ':' :: rest => do
              let (value, rest) ← readValue fuel rest
              let member := (String.ofList key, value)
              match rest with
              | '\x7d' :: rest => some ([member], rest)
              | ',' :: rest =>
                  (readMembers fuel rest).map fun (members, rest) => (member :: members, rest)
              | _ => none
          | _ => none
      | _ => none

end

def readJson (text : List Char) : Option Json :=
  match readValue (2 * text.length) text with
  | some (value, []) => some value
  | _ => none

end SkillRanker.Library
