import TemplateBinding.Text.Basic

/-!
Reading documents. A document is read as it is written: numbers are only recognised, and a
string whose escapes name half of a surrogate pair is well formed but has no text. Names
may repeat within an object.
-/
namespace TemplateBinding

inductive RawJson
  | null
  | boolean (value : Bool)
  | number
  | string (text : Option Text)
  | array (items : List RawJson)
  | object (fields : List (Option Text × RawJson))

namespace RawJson

def isBlank (c : Char) : Bool := c = ' ' || c = '\t' || c = '\n' || c = '\r'

def isDigit (c : Char) : Bool := '0' ≤ c && c ≤ '9'

def skipBlanks (t : Text) : Text := t.dropWhile isBlank

def hexValue? (c : Char) : Option Nat :=
  if '0' ≤ c ∧ c ≤ '9' then some (c.toNat - 48)
  else if 'a' ≤ c ∧ c ≤ 'f' then some (c.toNat - 87)
  else if 'A' ≤ c ∧ c ≤ 'F' then some (c.toNat - 55)
  else none

def escaped? : Char → Option Nat
  | '"' => some 0x22
  | '\\' => some 0x5C
  | '/' => some 0x2F
  | 'b' => some 0x08
  | 'f' => some 0x0C
  | 'n' => some 0x0A
  | 'r' => some 0x0D
  | 't' => some 0x09
  | _ => none

/-- The code units of a string, from behind its opening quote, and what follows its closing
quote. A character that is not escaped is one unit. -/
def units? : Text → Option (List Nat × Text)
  | [] => none
  | '"' :: rest => some ([], rest)
  | '\\' :: 'u' :: a :: b :: c :: d :: rest => do
    let a ← hexValue? a
    let b ← hexValue? b
    let c ← hexValue? c
    let d ← hexValue? d
    let (units, rest) ← units? rest
    some ((((a * 16 + b) * 16 + c) * 16 + d) :: units, rest)
  | '\\' :: e :: rest => do
    let unit ← escaped? e
    let (units, rest) ← units? rest
    some (unit :: units, rest)
  | c :: rest =>
    if c = '\\' ∨ c.toNat < 0x20 then none
    else do
      let (units, rest) ← units? rest
      some (c.toNat :: units, rest)

def isHighSurrogate (unit : Nat) : Bool := 0xD800 ≤ unit && unit < 0xDC00

def isLowSurrogate (unit : Nat) : Bool := 0xDC00 ≤ unit && unit < 0xE000

def textOfUnits? : List Nat → Option Text
  | [] => some []
  | high :: low :: units =>
    if isHighSurrogate high then
      if isLowSurrogate low then
        (textOfUnits? units).map
          (Char.ofNat (0x10000 + (high - 0xD800) * 0x400 + (low - 0xDC00)) :: ·)
      else none
    else if isLowSurrogate high then none
    else (textOfUnits? (low :: units)).map (Char.ofNat high :: ·)
  | [unit] =>
    if isHighSurrogate unit || isLowSurrogate unit then none else some [Char.ofNat unit]

def string? (t : Text) : Option (Option Text × Text) :=
  (units? t).map fun (units, rest) => (textOfUnits? units, rest)

def digits? (t : Text) : Option Text :=
  if t.head?.any isDigit then some (t.dropWhile isDigit) else none

/-- What follows a number. Its first digit is a zero only if it is the last before a point,
an exponent or the end. -/
def number? (t : Text) : Option Text := do
  let t := match t with
    | '-' :: rest => rest
    | t => t
  let t ← match t with
    | '0' :: rest => some rest
    | t => digits? t
  let t ← match t with
    | '.' :: rest => digits? rest
    | t => some t
  match t with
  | mark :: rest =>
    if mark = 'e' ∨ mark = 'E' then
      match rest with
      | '+' :: rest => digits? rest
      | '-' :: rest => digits? rest
      | rest => digits? rest
    else some t
  | [] => some []

def word? (word : Text) (value : RawJson) (t : Text) : Option (RawJson × Text) :=
  if word.isPrefixOf t then some (value, t.drop word.length) else none

mutual

/-- A value and what follows it. Each step below uses up one unit of the allowance. -/
def value? : Nat → Text → Option (RawJson × Text)
  | 0, _ => none
  | n + 1, t =>
    match skipBlanks t with
    | [] => none
    | '"' :: rest => (string? rest).map fun (text, rest) => (.string text, rest)
    | '[' :: rest =>
      match skipBlanks rest with
      | ']' :: rest => some (.array [], rest)
      | rest => (items? n rest).map fun (items, rest) => (.array items, rest)
    | '{' :: rest =>
      match skipBlanks rest with
      | '}' :: rest => some (.object [], rest)
      | rest => (fields? n rest).map fun (fields, rest) => (.object fields, rest)
    | 't' :: rest => word? "rue" (.boolean true) rest
    | 'f' :: rest => word? "alse" (.boolean false) rest
    | 'n' :: rest => word? "ull" .null rest
    | rest => (number? rest).map fun rest => (.number, rest)

def items? : Nat → Text → Option (List RawJson × Text)
  | 0, _ => none
  | n + 1, t => do
    let (item, rest) ← value? n t
    match skipBlanks rest with
    | ']' :: rest => some ([item], rest)
    | ',' :: rest => do
      let (items, rest) ← items? n rest
      some (item :: items, rest)
    | _ => none

def fields? : Nat → Text → Option (List (Option Text × RawJson) × Text)
  | 0, _ => none
  | n + 1, t =>
    match skipBlanks t with
    | '"' :: rest => do
      let (name, rest) ← string? rest
      match skipBlanks rest with
      | ':' :: rest => do
        let (value, rest) ← value? n rest
        match skipBlanks rest with
        | '}' :: rest => some ([(name, value)], rest)
        | ',' :: rest => do
          let (fields, rest) ← fields? n rest
          some ((name, value) :: fields, rest)
        | _ => none
      | _ => none
    | _ => none

end

/-- The document that a text is. Two steps for each character are always enough. -/
def read? (t : Text) : Option RawJson :=
  match value? (2 * t.length + 2) t with
  | some (value, rest) => if (skipBlanks rest).isEmpty then some value else none
  | none => none

end RawJson
end TemplateBinding
