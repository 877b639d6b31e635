import RelationalMapping.Collections.Roster
import RelationalMapping.Exchange.Datum

/-!
JSON, the text form of exchanged values. Of a number only an integer that fits into 64 bits, with
or without a sign, is kept; one that is written with a fraction or an exponent, or as minus zero,
counts as a fraction. Of several fields of one name the last counts.
-/

namespace RelationalMapping.Datum

/-! ## Writing -/

/-- Four hexadecimal digits of a UTF-16 unit. -/
def unitText (n : Nat) : String :=
  let digits := Nat.toDigits 16 n
  "\\u" ++ String.ofList (List.replicate (4 - digits.length) '0' ++ digits)

/-- Everything but the visible characters of ASCII is given by its UTF-16 units. -/
def charText (c : Char) : String :=
  if c = '"' then "\\\""
  else if c = '\\' then "\\\\"
  else if 0x20 ≤ c.toNat ∧ c.toNat < 0x7f then String.singleton c
  else if c.toNat < 0x10000 then unitText c.toNat
  else
    let n := c.toNat - 0x10000
    unitText (0xD800 + n / 0x400) ++ unitText (0xDC00 + n % 0x400)

def quote (s : String) : String := "\"" ++ String.join (s.toList.map charText) ++ "\""

mutual

/-- The JSON text of a value, without blanks. -/
def toJson : Datum → String
  | .null | .fraction => "null"
  | .bool b => if b then "true" else "false"
  | .whole n => toString n
  | .text s => quote s
  | .list items => "[" ++ ",".intercalate (itemsToJson items) ++ "]"
  | .record fields => "\x7b" ++ ",".intercalate (fieldsToJson fields) ++ "\x7d"

def itemsToJson : List Datum → List String
  | [] => []
  | d :: rest => d.toJson :: itemsToJson rest

def fieldsToJson : List (String × Datum) → List String
  | [] => []
  | (name, d) :: rest => (quote name ++ ":" ++ d.toJson) :: fieldsToJson rest

end

/-! ## Reading -/

def hexDigit? (c : Char) : Option Nat :=
  if c.isDigit then some (c.toNat - '0'.toNat)
  else if 'a' ≤ c ∧ c ≤ 'f' then some (c.toNat - 'a'.toNat + 10)
  else if 'A' ≤ c ∧ c ≤ 'F' then some (c.toNat - 'A'.toNat + 10)
  else none

/-- The UTF-16 unit of four digits. -/
def unit? (a b c d : Char) : Option Nat := do
  return (((← hexDigit? a) * 16 + (← hexDigit? b)) * 16 + (← hexDigit? c)) * 16 + (← hexDigit? d)

/-- The character that a one-letter escape stands for. -/
def escape? : Char → Option Char
  | 'n' => some '\n'
  | 't' => some '\t'
  | 'r' => some '\r'
  | 'b' => some '\x08'
  | 'f' => some '\x0c'
  | '"' => some '"'
  | '\\' => some '\\'
  | '/' => some '/'
  | _ => none

/-- The text up to the closing quote, and what follows it. A character beyond the first 65536 is
escaped as two units. -/
def readText? : List Char → Option (List Char × List Char)
  | '"' :: rest => some ([], rest)
  | '\\' :: 'u' :: a :: b :: c :: d :: '\\' :: 'u' :: a' :: b' :: c' :: d' :: rest => do
      let high ← unit? a b c d
      if 0xD800 ≤ high ∧ high < 0xDC00 then
        let low ← unit? a' b' c' d'
        if 0xDC00 ≤ low ∧ low < 0xE000 then
          let (s, rest) ← readText? rest
          return (Char.ofNat (0x10000 + (high - 0xD800) * 0x400 + (low - 0xDC00)) :: s, rest)
        else none
      else
        let (s, rest) ← readText? ('\\' :: 'u' :: a' :: b' :: c' :: d' :: rest)
        return (Char.ofNat high :: s, rest)
  | '\\' :: 'u' :: a :: b :: c :: d :: rest => do
      let n ← unit? a b c d
      if 0xD800 ≤ n ∧ n < 0xE000 then none
      else
        let (s, rest) ← readText? rest
        return (Char.ofNat n :: s, rest)
  | '\\' :: c :: rest => do
      let c ← escape? c
      let (s, rest) ← readText? rest
      return (c :: s, rest)
  | c :: rest => do
      let (s, rest) ← readText? rest
      return (c :: s, rest)
  | [] => none

def isNumberChar (c : Char) : Bool := c.isDigit || "+-.eE".toList.contains c

/-- The number that the characters spell. -/
def number? (cs : List Char) : Option Datum :=
  if cs.all fun c => c.isDigit || c == '-' then
    (String.ofList cs).toInt?.map fun n =>
      if (n = 0 ∧ cs.head? = some '-') ∨ n < Int64.minValue.toInt ∨ UInt64.size ≤ n.toNat then
        .fraction
      else .whole n
  else some .fraction

def skipBlanks (cs : List Char) : List Char := cs.dropWhile Char.isWhitespace

mutual

/-- Reads one value. Values nested deeper than `depth` are not read. -/
def readValue? : (depth : Nat) → List Char → Option (Datum × List Char)
  | 0, _ => none
  | depth + 1, cs =>
    match skipBlanks cs with
    | '\x7b' :: rest => readFields? depth [] (skipBlanks rest)
    | '[' :: rest => readItems? depth [] (skipBlanks rest)
    | '"' :: rest => (readText? rest).map fun (s, rest) => (.text (String.ofList s), rest)
    | 't' :: 'r' :: 'u' :: 'e' :: rest => some (.bool true, rest)
    | 'f' :: 'a' :: 'l' :: 's' :: 'e' :: rest => some (.bool false, rest)
    | 'n' :: 'u' :: 'l' :: 'l' :: rest => some (.null, rest)
    | cs =>
        (number? (cs.takeWhile isNumberChar)).map fun n => (n, cs.dropWhile isNumberChar)

/-- The items of a list after those read already, which are kept in reverse. -/
def readItems? : (steps : Nat) → List Datum → List Char → Option (Datum × List Char)
  | 0, _, _ => none
  | _ + 1, read, ']' :: rest => some (.list read.reverse, rest)
  | steps + 1, read, ',' :: rest => readItems? steps read (skipBlanks rest)
  | steps + 1, read, cs => do
      let (d, rest) ← readValue? steps cs
      readItems? steps (d :: read) (skipBlanks rest)

/-- The fields of a record after those read already. -/
def readFields? : (steps : Nat) → List (String × Datum) → List Char → Option (Datum × List Char)
  | 0, _, _ => none
  | _ + 1, read, '\x7d' :: rest => some (.record read, rest)
  | steps + 1, read, ',' :: rest => readFields? steps read (skipBlanks rest)
  | steps + 1, read, '"' :: rest => do
      let (name, rest) ← readText? rest
      match skipBlanks rest with
      | ':' :: rest =>
          let (d, rest) ← readValue? steps rest
          readFields? steps (Roster.enterInto (String.ofList name) d read) (skipBlanks rest)
      | _ => none
  | _ + 1, _, _ => none

end

/-- The value that a JSON text spells. No text has more values and commas than characters. -/
def ofJson? (s : String) : Option Datum := do
  let (d, rest) ← readValue? (2 * s.length + 2) s.toList
  if (skipBlanks rest).isEmpty then return d else none

end RelationalMapping.Datum
