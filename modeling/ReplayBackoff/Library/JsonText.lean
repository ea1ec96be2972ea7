import Mathlib.Data.List.Basic

/-!
# JSON text

A JSON value is read from text by recursive descent and written without whitespace. Strings are
written with the short escapes, `\u00xx` for the other control characters, and every other
character as it is. A number is kept as the text it was read from, because the receiver decides
which number type it has to fit. An object keeps its members in order and with repetitions.

A surrogate without its pair is no error of syntax, and a receiver that skips a value does not see
it. A string that has one, or an object with one in a key, is read as `undecodable`.
-/

namespace ReplayBackoff

inductive Json where
  | null
  | bool (b : Bool)
  | number (lexeme : List Char)
  | string (s : String)
  | undecodable
  | array (items : List Json)
  | object (members : List (String × Json))

namespace Json

def hexDigit (d : ℕ) : Char := Nat.digitChar d

def escapeChar (c : Char) : List Char :=
  if c = '"' then ['\\', '"']
  else if c = '\\' then ['\\', '\\']
  else if c = '\x08' then ['\\', 'b']
  else if c = '\t' then ['\\', 't']
  else if c = '\n' then ['\\', 'n']
  else if c = '\x0c' then ['\\', 'f']
  else if c = '\r' then ['\\', 'r']
  else if c.toNat < 32 then ['\\', 'u', '0', '0', hexDigit (c.toNat / 16), hexDigit (c.toNat % 16)]
  else [c]

def quote (s : String) : List Char := '"' :: (s.toList.flatMap escapeChar ++ ['"'])

mutual
def render : Json → List Char
  | .null => ['n', 'u', 'l', 'l']
  | .bool true => ['t', 'r', 'u', 'e']
  | .bool false => ['f', 'a', 'l', 's', 'e']
  | .number lexeme => lexeme
  | .string s => quote s
  | .undecodable => ['"', '\\', 'u', 'd', '8', '0', '0', '"']
  | .array [] => ['[', ']']
  | .array (item :: items) => '[' :: (render item ++ renderItems items)
  | .object [] => ['{', '}']
  | .object ((key, value) :: members) =>
      '{' :: (quote key ++ ':' :: (render value ++ renderMembers members))

/-- What follows an item of an array, with the closing bracket. -/
def renderItems : List Json → List Char
  | [] => [']']
  | item :: items => ',' :: (render item ++ renderItems items)

/-- What follows a member of an object, with the closing brace. -/
def renderMembers : List (String × Json) → List Char
  | [] => ['}']
  | (key, value) :: members =>
      ',' :: (quote key ++ ':' :: (render value ++ renderMembers members))
end

def stringify (j : Json) : String := String.ofList (render j)

def isSpace (c : Char) : Bool := c = ' ' || c = '\t' || c = '\n' || c = '\r'

def skipSpace (cs : List Char) : List Char := cs.dropWhile isSpace

def hexValue (c : Char) : Option ℕ :=
  if c.isDigit then some (c.toNat - '0'.toNat)
  else if 'a'.toNat ≤ c.toNat ∧ c.toNat ≤ 'f'.toNat then some (c.toNat - 'a'.toNat + 10)
  else if 'A'.toNat ≤ c.toNat ∧ c.toNat ≤ 'F'.toNat then some (c.toNat - 'A'.toNat + 10)
  else none

def hexUnit (a b c d : Char) : Option ℕ := do
  let a ← hexValue a
  let b ← hexValue b
  let c ← hexValue c
  let d ← hexValue d
  return ((a * 16 + b) * 16 + c) * 16 + d

def isHighSurrogate (unit : ℕ) : Bool := decide (0xD800 ≤ unit) && decide (unit < 0xDC00)

def isLowSurrogate (unit : ℕ) : Bool := decide (0xDC00 ≤ unit) && decide (unit < 0xE000)

def unescape (c : Char) : Option Char :=
  if c = '"' then some '"'
  else if c = '\\' then some '\\'
  else if c = '/' then some '/'
  else if c = 'b' then some '\x08'
  else if c = 't' then some '\t'
  else if c = 'n' then some '\n'
  else if c = 'f' then some '\x0c'
  else if c = 'r' then some '\r'
  else none

/-- A part of a string: a character, or the code unit of a numeric escape. -/
inductive Piece where
  | char (c : Char)
  | unit (n : ℕ)

def consPiece (piece : Piece) (p : List Piece × List Char) : List Piece × List Char :=
  (piece :: p.1, p.2)

/-- Reads a string after its opening quote, up to and including the closing one. -/
def readPieces : List Char → Option (List Piece × List Char)
  | [] => none
  | '"' :: rest => some ([], rest)
  | '\\' :: 'u' :: a :: b :: c :: d :: rest =>
      match hexUnit a b c d with
      | none => none
      | some n => (readPieces rest).map (consPiece (.unit n))
  | '\\' :: c :: rest =>
      match unescape c with
      | none => none
      | some c => (readPieces rest).map (consPiece (.char c))
  | c :: rest =>
      if c.toNat < 32 ∨ c = '\\' then none else (readPieces rest).map (consPiece (.char c))

/-- The text of a string, if every surrogate in it has its pair. -/
def decodePieces : List Piece → Option (List Char)
  | [] => some []
  | .char c :: pieces => (decodePieces pieces).map (c :: ·)
  | .unit n :: pieces =>
      if isHighSurrogate n then
        match pieces with
        | .unit low :: pieces =>
            if isLowSurrogate low then
              (decodePieces pieces).map
                (Char.ofNat (0x10000 + (n - 0xD800) * 0x400 + (low - 0xDC00)) :: ·)
            else none
        | _ => none
      else if isLowSurrogate n then none
      else (decodePieces pieces).map (Char.ofNat n :: ·)

def readChars (cs : List Char) : Option (Option (List Char) × List Char) :=
  (readPieces cs).map (fun p => (decodePieces p.1, p.2))

def readDigits (cs : List Char) : List Char × List Char :=
  (cs.takeWhile Char.isDigit, cs.dropWhile Char.isDigit)

/-- One or more digits, kept as text. -/
def readDigits1 (cs : List Char) : Option (List Char × List Char) :=
  if (readDigits cs).1.isEmpty then none else some (readDigits cs)

def readInteger : List Char → Option (List Char × List Char)
  | '0' :: rest => some (['0'], rest)
  | cs => readDigits1 cs

def readFraction : List Char → Option (List Char × List Char)
  | '.' :: rest => (readDigits1 rest).map (fun p => ('.' :: p.1, p.2))
  | cs => some ([], cs)

def readExponent : List Char → Option (List Char × List Char)
  | e :: sign :: rest =>
      if e = 'e' ∨ e = 'E' then
        if sign = '+' ∨ sign = '-' then (readDigits1 rest).map (fun p => (e :: sign :: p.1, p.2))
        else (readDigits1 (sign :: rest)).map (fun p => (e :: p.1, p.2))
      else some ([], e :: sign :: rest)
  | [e] => if e = 'e' ∨ e = 'E' then none else some ([], [e])
  | [] => some ([], [])

def readUnsigned (cs : List Char) : Option (List Char × List Char) := do
  let (int, cs) ← readInteger cs
  let (frac, cs) ← readFraction cs
  let (exp, cs) ← readExponent cs
  return (int ++ frac ++ exp, cs)

def readNumber : List Char → Option (List Char × List Char)
  | '-' :: rest => (readUnsigned rest).map (fun p => ('-' :: p.1, p.2))
  | cs => readUnsigned cs

def readKeyword : List Char → Option (Json × List Char)
  | 'n' :: 'u' :: 'l' :: 'l' :: rest => some (.null, rest)
  | 't' :: 'r' :: 'u' :: 'e' :: rest => some (.bool true, rest)
  | 'f' :: 'a' :: 'l' :: 's' :: 'e' :: rest => some (.bool false, rest)
  | _ => none

def ofChars : Option (List Char) → Json
  | some cs => .string (String.ofList cs)
  | none => .undecodable

def ofMembers : Option (List (String × Json)) → Json
  | some members => .object members
  | none => .undecodable

def consMember : Option (String × Json) → Option (List (String × Json)) →
    Option (List (String × Json))
  | some member, some members => some (member :: members)
  | _, _ => none

mutual
def readValue : ℕ → List Char → Option (Json × List Char)
  | 0, _ => none
  | fuel + 1, cs =>
    match skipSpace cs with
    | [] => none
    | c :: rest =>
      if c = '"' then (readChars rest).map (fun p => (ofChars p.1, p.2))
      else if c = '[' then
        if (skipSpace rest).head? = some ']' then some (.array [], (skipSpace rest).tail)
        else do
          let (item, rest) ← readValue fuel rest
          let (items, rest) ← readItems fuel rest
          return (.array (item :: items), rest)
      else if c = '{' then
        if (skipSpace rest).head? = some '}' then some (.object [], (skipSpace rest).tail)
        else do
          let (member, rest) ← readMember fuel rest
          let (members, rest) ← readMembers fuel rest
          return (ofMembers (consMember member members), rest)
      else if c = '-' ∨ c.isDigit then (readNumber (c :: rest)).map (fun p => (.number p.1, p.2))
      else readKeyword (c :: rest)

def readItems : ℕ → List Char → Option (List Json × List Char)
  | 0, _ => none
  | fuel + 1, cs =>
    match skipSpace cs with
    | ']' :: rest => some ([], rest)
    | ',' :: rest => do
        let (item, rest) ← readValue fuel rest
        let (items, rest) ← readItems fuel rest
        return (item :: items, rest)
    | _ => none

def readMember : ℕ → List Char → Option (Option (String × Json) × List Char)
  | 0, _ => none
  | fuel + 1, cs =>
    match skipSpace cs with
    | '"' :: rest => do
        let (key, rest) ← readChars rest
        match skipSpace rest with
        | ':' :: rest => do
            let (value, rest) ← readValue fuel rest
            return (key.map (fun key => (String.ofList key, value)), rest)
        | _ => none
    | _ => none

def readMembers : ℕ → List Char → Option (Option (List (String × Json)) × List Char)
  | 0, _ => none
  | fuel + 1, cs =>
    match skipSpace cs with
    | '}' :: rest => some (some [], rest)
    | ',' :: rest => do
        let (member, rest) ← readMember fuel rest
        let (members, rest) ← readMembers fuel rest
        return (consMember member members, rest)
    | _ => none
end

/-- Every call consumes a character, so the length of the text is enough fuel. -/
def parse (text : String) : Option Json :=
  match readValue (text.toList.length + 1) text.toList with
  | some (j, rest) => if (skipSpace rest).isEmpty then some j else none
  | none => none

end Json
end ReplayBackoff
