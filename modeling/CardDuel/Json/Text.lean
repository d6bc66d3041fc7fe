/-
CardDuel.Json.Text — documents as text.

`render` writes a document without blanks; `parse?` reads one, with
blanks wherever they are allowed, and reads nothing from a text that is
no document or that goes on after it. A number is an integer when it is
written as digits alone, with a minus sign or without; a number with a
fraction or an exponent is a decimal, and so is a zero with a minus sign.

Characters beyond the first 65536 may be written raw or as a pair of
escapes; half of such a pair is not read.

  §1 Writing     — `render`.
  §2 Characters  — blanks, digits, escapes.
  §3 Leaves      — texts and numbers.
  §4 Documents   — `parse?`.
-/
import CardDuel.Json.Value

namespace CardDuel.JsonValue

/-! ## §1 Writing -/

/-- The hexadecimal digit for a number below sixteen. -/
def hexDigit (n : Nat) : Char := ("0123456789abcdef".toList[n]?).getD '0'

/-- The written form of a character inside a text. -/
def escaped (c : Char) : List Char :=
  if c = '"' then ['\\', '"']
  else if c = '\\' then ['\\', '\\']
  else if c.toNat < 32 then
    ['\\', 'u', '0', '0', hexDigit (c.toNat / 16), hexDigit (c.toNat % 16)]
  else [c]

/-- A text in quotes, in front of `rest`. -/
def quoted (s : String) (rest : List Char) : List Char :=
  '"' :: (s.toList.flatMap escaped ++ '"' :: rest)

mutual

/-- The written form of a document, in front of `rest`. -/
def written : JsonValue → List Char → List Char
  | null, rest => 'n' :: 'u' :: 'l' :: 'l' :: rest
  | bool true, rest => 't' :: 'r' :: 'u' :: 'e' :: rest
  | bool false, rest => 'f' :: 'a' :: 'l' :: 's' :: 'e' :: rest
  | int n, rest => (toString n).toList ++ rest
  | decimal digits exponent, rest =>
    (toString digits).toList ++ 'e' :: ((toString exponent).toList ++ rest)
  | string s, rest => quoted s rest
  | array items, rest => '[' :: writtenItems items (']' :: rest)
  | object fields, rest => '{' :: writtenFields fields ('}' :: rest)

/-- Documents with commas between them, in front of `rest`. -/
def writtenItems : List JsonValue → List Char → List Char
  | [], rest => rest
  | [v], rest => written v rest
  | v :: items, rest => written v (',' :: writtenItems items rest)

/-- Fields with commas between them, in front of `rest`. -/
def writtenFields : List (String × JsonValue) → List Char → List Char
  | [], rest => rest
  | [(name, v)], rest => quoted name (':' :: written v rest)
  | (name, v) :: fields, rest =>
    quoted name (':' :: written v (',' :: writtenFields fields rest))

end

/-- The text of a document. -/
def render (v : JsonValue) : String := String.ofList (written v [])

/-! ## §2 Characters -/

def isBlank (c : Char) : Bool := c = ' ' || c = '\n' || c = '\t' || c = '\r'

/-- The characters after any blanks. -/
def skipBlanks (cs : List Char) : List Char := cs.dropWhile isBlank

/-- The number that decimal digits stand for. -/
def digitsValue (digits : List Char) : Nat :=
  digits.foldl (fun n c => n * 10 + (c.toNat - 48)) 0

/-- The value of a hexadecimal digit. -/
def hexValue? (c : Char) : Option Nat :=
  if c.isDigit then some (c.toNat - 48)
  else if 'a' ≤ c ∧ c ≤ 'f' then some (c.toNat - 87)
  else if 'A' ≤ c ∧ c ≤ 'F' then some (c.toNat - 55)
  else none

/-- The number that four hexadecimal digits stand for, and what follows. -/
def unit? : List Char → Option (Nat × List Char)
  | a :: b :: c :: d :: rest => do
    let a ← hexValue? a
    let b ← hexValue? b
    let c ← hexValue? c
    let d ← hexValue? d
    return (((a * 16 + b) * 16 + c) * 16 + d, rest)
  | _ => none

/-- The character that two halves of a pair stand for. -/
def paired? (high low : Nat) : Option Char :=
  if 0xD800 ≤ high ∧ high < 0xDC00 ∧ 0xDC00 ≤ low ∧ low < 0xE000 then
    some (Char.ofNat (0x10000 + (high - 0xD800) * 0x400 + (low - 0xDC00)))
  else none

/-- The character of a numbered escape, and what follows. -/
def numbered? (cs : List Char) : Option (Char × List Char) := do
  let (n, rest) ← unit? cs
  if n < 0xD800 ∨ 0xE000 ≤ n then return (Char.ofNat n, rest)
  else
    match rest with
    | '\\' :: 'u' :: rest =>
      let (low, rest) ← unit? rest
      let c ← paired? n low
      return (c, rest)
    | _ => none

/-- The character of an escape, from behind its backslash on, and what
follows. -/
def escape? : List Char → Option (Char × List Char)
  | '"' :: rest => some ('"', rest)
  | '\\' :: rest => some ('\\', rest)
  | '/' :: rest => some ('/', rest)
  | 'b' :: rest => some ('\x08', rest)
  | 'f' :: rest => some ('\x0c', rest)
  | 'n' :: rest => some ('\n', rest)
  | 'r' :: rest => some ('\r', rest)
  | 't' :: rest => some ('\t', rest)
  | 'u' :: rest => numbered? rest
  | _ => none

/-! ## §3 Leaves -/

/-- The characters of a text, from behind its opening quote on, and what
follows its closing quote. Each character of the text takes one from the
fuel. -/
def text? : Nat → List Char → Option (List Char × List Char)
  | 0, _ => none
  | _ + 1, '"' :: rest => some ([], rest)
  | fuel + 1, '\\' :: rest => do
    let (c, rest) ← escape? rest
    let (cs, rest) ← text? fuel rest
    return (c :: cs, rest)
  | fuel + 1, c :: rest =>
    if c.toNat < 32 then none
    else do
      let (cs, rest) ← text? fuel rest
      return (c :: cs, rest)
  | _ + 1, [] => none

/-- One or more digits, and what follows. -/
def digits? (cs : List Char) : Option (List Char × List Char) :=
  let digits := cs.takeWhile Char.isDigit
  if digits.isEmpty then none else some (digits, cs.dropWhile Char.isDigit)

/-- The digits of a fraction, none without a point, and what follows. -/
def fraction? : List Char → Option (List Char × List Char)
  | '.' :: rest => digits? rest
  | rest => some ([], rest)

/-- The exponent, if there is one, and what follows. -/
def exponent? (cs : List Char) : Option (Option Int × List Char) :=
  match cs with
  | [] => some (none, [])
  | e :: rest =>
    if e = 'e' || e = 'E' then
      match rest with
      | '-' :: rest => (digits? rest).map fun (ds, rest) => (some (-digitsValue ds : Int), rest)
      | '+' :: rest => (digits? rest).map fun (ds, rest) => (some (digitsValue ds : Int), rest)
      | rest => (digits? rest).map fun (ds, rest) => (some (digitsValue ds : Int), rest)
    else some (none, cs)

/-- A number without its sign, and what follows. A leading zero stands
alone. -/
def unsigned? (negative : Bool) (cs : List Char) : Option (JsonValue × List Char) := do
  let (whole, rest) ← digits? cs
  if whole.head? = some '0' ∧ whole.length ≠ 1 then none
  else
    let (fraction, rest) ← fraction? rest
    let (exponent, rest) ← exponent? rest
    let size := digitsValue (whole ++ fraction)
    let digits : Int := if negative then -size else size
    if fraction.isEmpty ∧ exponent.isNone ∧ ¬ (negative ∧ size = 0) then
      return (int digits, rest)
    else return (decimal digits (exponent.getD 0 - fraction.length), rest)

/-- A number, and what follows. -/
def number? : List Char → Option (JsonValue × List Char)
  | '-' :: rest => unsigned? true rest
  | rest => unsigned? false rest

/-! ## §4 Documents -/

/-- A text with its opening quote, and what follows. -/
def name? (fuel : Nat) (cs : List Char) : Option (String × List Char) :=
  match skipBlanks cs with
  | '"' :: rest => (text? fuel rest).map fun (s, rest) => (String.ofList s, rest)
  | _ => none

mutual

/-- A document, and what follows. -/
def value? : Nat → List Char → Option (JsonValue × List Char)
  | 0, _ => none
  | fuel + 1, cs =>
    match skipBlanks cs with
    | 'n' :: 'u' :: 'l' :: 'l' :: rest => some (null, rest)
    | 't' :: 'r' :: 'u' :: 'e' :: rest => some (bool true, rest)
    | 'f' :: 'a' :: 'l' :: 's' :: 'e' :: rest => some (bool false, rest)
    | '"' :: rest => (text? fuel rest).map fun (s, rest) => (string (String.ofList s), rest)
    | '[' :: rest =>
      match skipBlanks rest with
      | ']' :: rest => some (array [], rest)
      | rest => (elements? fuel rest).map fun (items, rest) => (array items, rest)
    | '{' :: rest =>
      match skipBlanks rest with
      | '}' :: rest => some (object [], rest)
      | rest => (members? fuel rest).map fun (fields, rest) => (object fields, rest)
    | rest => number? rest

/-- The items of an array up to its end, at least one, and what follows. -/
def elements? : Nat → List Char → Option (List JsonValue × List Char)
  | 0, _ => none
  | fuel + 1, cs => do
    let (v, rest) ← value? fuel cs
    match skipBlanks rest with
    | ']' :: rest => return ([v], rest)
    | ',' :: rest =>
      let (items, rest) ← elements? fuel rest
      return (v :: items, rest)
    | _ => none

/-- The fields of an object up to its end, at least one, and what follows. -/
def members? : Nat → List Char → Option (List (String × JsonValue) × List Char)
  | 0, _ => none
  | fuel + 1, cs => do
    let (name, rest) ← name? fuel cs
    match skipBlanks rest with
    | ':' :: rest =>
      let (v, rest) ← value? fuel rest
      match skipBlanks rest with
      | '}' :: rest => return ([(name, v)], rest)
      | ',' :: rest =>
        let (fields, rest) ← members? fuel rest
        return ((name, v) :: fields, rest)
      | _ => none
    | _ => none

end

/-- The document that a text holds. No character of it takes more than
two from the fuel, so the fuel lasts to the end. -/
def parse? (s : String) : Option JsonValue := do
  let (v, rest) ← value? (2 * s.length + 2) s.toList
  if (skipBlanks rest).isEmpty then return v else none

end CardDuel.JsonValue
