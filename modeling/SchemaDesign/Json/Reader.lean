import SchemaDesign.Decimal.Scaling
import SchemaDesign.Text.Hexadecimal
import SchemaDesign.Json.Value

/-!
# Reading values

A reader takes characters from the front of a text and either gives a value and leaves the rest, or
stops at the first fault in reading order.  The order matters because the three faults are told
apart: a text may break the grammar, end too early, or be well formed up to a value of the wrong
type.

Repetition is bounded by a number that is at least the length of the text.  Every round takes at
least one character, so when the bound is used up the text is used up too.

Inside records some members are not known.  Their values are only checked for grammar: any nesting
depth, any size of number and any pairing of surrogates is accepted there.
-/

namespace SchemaDesign.Json

abbrev Reader := StateT (List Char) (Except Fault)

namespace Reader

variable {α σ : Type}

def fail (fault : Fault) : Reader α :=
  throw fault

def isSpace (c : Char) : Bool :=
  c = ' ' || c = '\t' || c = '\n' || c = '\r'

def peek : Reader (Option Char) := fun text =>
  let rest := text.dropWhile isSpace
  .ok (rest.head?, rest)

def advance : Reader Unit :=
  modify List.tail

def exactly : List Char → Reader Unit
  | [] => pure ()
  | expected :: others => fun text =>
    match text with
    | [] => .error .truncated
    | c :: rest => if c = expected then exactly others rest else .error .malformed

/-! ### Strings -/

/-- The code unit written with four hexadecimal digits. -/
def codeUnit? (a b c d : Char) : Option Nat := do
  let a ← Text.hexValue? a
  let b ← Text.hexValue? b
  let c ← Text.hexValue? c
  let d ← Text.hexValue? d
  return ((a * 16 + b) * 16 + c) * 16 + d

def isLeading (unit : Nat) : Bool :=
  0xD800 ≤ unit && unit < 0xDC00

def isTrailing (unit : Nat) : Bool :=
  0xDC00 ≤ unit && unit < 0xE000

/-- The character that a pair of surrogates stands for. -/
def paired (leading trailing : Nat) : Char :=
  Char.ofNat (0x10000 + (leading - 0xD800) * 0x400 + (trailing - 0xDC00))

def shortEscape? (c : Char) : Option Char :=
  if c = '"' then some '"'
  else if c = '\\' then some '\\'
  else if c = '/' then some '/'
  else if c = 'b' then some '\x08'
  else if c = 'f' then some '\x0c'
  else if c = 'n' then some '\n'
  else if c = 'r' then some '\r'
  else if c = 't' then some '\t'
  else none

/-- The fault of a text that ends where four hexadecimal digits should stand: it ends too early if
fewer than four bytes are left, otherwise one of the characters is no digit. -/
def shortUnit (rest : List Char) : Fault :=
  if rest.foldr (fun c size => c.utf8Size + size) 0 < 4 then .truncated else .malformed

/-- The characters up to the closing quote.  Characters below the blank are not allowed, and
surrogates only in pairs. -/
def stringRest (taken : List Char) : List Char → Except Fault (List Char × List Char)
  | [] => .error .truncated
  | c :: rest =>
    if c = '"' then .ok (taken.reverse, rest)
    else if c.toNat < 0x20 then .error .malformed
    else if c ≠ '\\' then stringRest (c :: taken) rest
    else
      match rest with
      | [] => .error .truncated
      | letter :: rest =>
        match shortEscape? letter with
        | some plain => stringRest (plain :: taken) rest
        | none =>
          if letter ≠ 'u' then .error .malformed
          else
            match rest with
            | a :: b :: c :: d :: rest =>
              match codeUnit? a b c d with
              | none => .error .malformed
              | some unit =>
                if isTrailing unit then .error .malformed
                else if !isLeading unit then stringRest (Char.ofNat unit :: taken) rest
                else
                  match rest with
                  | [] => .error .truncated
                  | backslash :: rest =>
                    if backslash ≠ '\\' then .error .malformed
                    else
                      match rest with
                      | [] => .error .truncated
                      | letter :: rest =>
                        if letter ≠ 'u' then .error .malformed
                        else
                          match rest with
                          | a :: b :: c :: d :: rest =>
                            match codeUnit? a b c d with
                            | none => .error .malformed
                            | some second =>
                              if isTrailing second then
                                stringRest (paired unit second :: taken) rest
                              else .error .malformed
                          | short => .error (shortUnit short)
            | short => .error (shortUnit short)

def string : Reader String := fun text =>
  (stringRest [] text.tail).map fun (taken, rest) => (String.ofList taken, rest)

/-! ### Numbers -/

def digits : Reader (List Char) := fun text =>
  .ok (text.takeWhile Char.isDigit, text.dropWhile Char.isDigit)

def someDigits : Reader (List Char) := fun text =>
  match text with
  | [] => .error .truncated
  | c :: _ => if c.isDigit then digits text else .error .malformed

/-- The digits before the point; a zero stands only alone. -/
def wholePart : Reader (List Char) := do
  let found ← someDigits
  if found.head? = some '0' ∧ found.length > 1 then fail .malformed else return found

def fractionPart : Reader (List Char) := fun text =>
  match text with
  | '.' :: rest => someDigits rest
  | _ => .ok ([], text)

def exponentPart : Reader (Option Int) := fun text =>
  match text with
  | [] => .ok (none, [])
  | c :: rest =>
    if c = 'e' ∨ c = 'E' then
      let negative := rest.head? = some '-'
      let rest := if negative ∨ rest.head? = some '+' then rest.tail else rest
      (someDigits rest).map fun (found, rest) =>
        let value : Int := Numeral.digitsValue found
        (some (if negative then -value else value), rest)
    else .ok (none, text)

def numeral : Reader Numeral := fun text =>
  let negative := text.head? = some '-'
  (do
    let whole ← wholePart
    let fraction ← fractionPart
    let exponent ← exponentPart
    return ⟨negative, whole, fraction, exponent⟩ : Reader Numeral)
    (if negative then text.tail else text)

def number : Reader Numeral := do
  let found ← numeral
  if Decimal.isFinite found.scaled then return found else fail .malformed

/-! ### Values -/

/-- A value without parts.  The next character is not a blank. -/
def scalar : Reader Value := do
  match ← peek with
  | none => fail .truncated
  | some c =>
    if c = '"' then return .text (← string)
    else if c = '-' ∨ c.isDigit then return .number (← number)
    else if c = 'n' then do exactly "null".toList; return .null
    else if c = 't' then do exactly "true".toList; return .flag true
    else if c = 'f' then do exactly "false".toList; return .flag false
    else fail .malformed

/-- The fault of a value that has not the expected type.  A value without parts is read to its end
first, so that a fault inside it comes before the wrong type. -/
def unexpected : Reader α := do
  match ← peek with
  | some '[' => fail .mismatched
  | some '\x7b' => fail .mismatched
  | _ => do
    let _ ← scalar
    fail .mismatched

/-- What follows an item: a comma and another item, or the closing bracket. -/
def moreItems (element : Reader α) : Nat → Reader (List α)
  | 0 => fail .truncated
  | bound + 1 => do
    match ← peek with
    | none => fail .truncated
    | some ']' => do advance; return []
    | some ',' => do
      advance
      match ← peek with
      | none => fail .truncated
      | some ']' => fail .malformed
      | some _ => do
        let item ← element
        return item :: (← moreItems element bound)
    | some _ => fail .malformed

/-- The items of a list; its opening bracket is the next character. -/
def items (bound : Nat) (element : Reader α) : Reader (List α) := do
  advance
  match ← peek with
  | none => fail .truncated
  | some ']' => do advance; return []
  | some _ => do
    let item ← element
    return item :: (← moreItems element bound)

def colon : Reader Unit := do
  match ← peek with
  | none => fail .truncated
  | some ':' => advance
  | some _ => fail .malformed

/-- What follows a member: a comma and another member, or the closing brace. -/
def moreMembers (member : σ → String → Reader σ) : Nat → σ → Reader σ
  | 0, _ => fail .truncated
  | bound + 1, state => do
    match ← peek with
    | none => fail .truncated
    | some '\x7d' => do advance; return state
    | some ',' => do
      advance
      match ← peek with
      | none => fail .truncated
      | some '"' => do
        let key ← string
        let state ← member state key
        moreMembers member bound state
      | some _ => fail .malformed
    | some _ => fail .malformed

/-- The members of a record; its opening brace is the next character.  Each key is handed on
before its colon and value are read. -/
def members (bound : Nat) (member : σ → String → Reader σ) (state : σ) : Reader σ := do
  advance
  match ← peek with
  | none => fail .truncated
  | some '\x7d' => do advance; return state
  | some '"' => do
    let key ← string
    let state ← member state key
    moreMembers member bound state
  | some _ => fail .malformed

/-- A value whose lists and records are nested at most `depth` deep. -/
def value (bound : Nat) : Nat → Reader Value
  | 0 => do
    match ← peek with
    | some '[' => fail .malformed
    | some '\x7b' => fail .malformed
    | _ => scalar
  | depth + 1 => do
    match ← peek with
    | some '[' => return .list (← items bound (value bound depth))
    | some '\x7b' => do
      let found ← members bound (fun found key => do
        colon
        return (key, ← value bound depth) :: found) []
      return .record found.reverse
    | _ => scalar

/-! ### Values that are not looked at -/

/-- The characters up to the closing quote, with the escapes checked one by one. -/
def skipStringRest : List Char → Except Fault (List Char)
  | [] => .error .truncated
  | c :: rest =>
    if c = '"' then .ok rest
    else if c.toNat < 0x20 then .error .malformed
    else if c ≠ '\\' then skipStringRest rest
    else
      match rest with
      | [] => .error .truncated
      | letter :: rest =>
        if (shortEscape? letter).isSome then skipStringRest rest
        else if letter ≠ 'u' then .error .malformed
        else
          match rest with
          | a :: b :: c :: d :: rest =>
            if (codeUnit? a b c d).isSome then skipStringRest rest else .error .malformed
          | short => .error (shortUnit short)

def skipString : Reader Unit := fun text =>
  (skipStringRest text.tail).map fun rest => ((), rest)

/-- A number of any size; a number that stops short is malformed even at the end of the text. -/
def skipNumber : Reader Unit := fun text =>
  match numeral text with
  | .ok (_, rest) => .ok ((), rest)
  | .error _ => .error .malformed

inductive Bracket where
  | square
  | curly

/-- What may come next in a value that is not looked at. -/
inductive Position where
  | start
  /-- The first item of a list, or the end of the list. -/
  | firstItem
  | key
  /-- The first key of a record, or the end of the record. -/
  | firstKey
  /-- Whatever follows a value inside the enclosing bracket. -/
  | after

/-- Takes the next token and gives the enclosing brackets and the position after it. -/
def skipToken (c : Char) (enclosing : List Bracket) :
    Position → Reader (List Bracket × Position)
  | .start => opening enclosing
  | .firstItem => if c = ']' then closing else opening enclosing
  | .key => keyed
  | .firstKey => if c = '\x7d' then closing else keyed
  | .after =>
    match enclosing with
    | .square :: _ =>
      if c = ',' then do advance; return (enclosing, .start)
      else if c = ']' then closing
      else fail .malformed
    | .curly :: _ =>
      if c = ',' then do advance; return (enclosing, .key)
      else if c = '\x7d' then closing
      else fail .malformed
    | [] => return (enclosing, .after)
where
  opening (enclosing : List Bracket) : Reader (List Bracket × Position) :=
    if c = '[' then do advance; return (.square :: enclosing, .firstItem)
    else if c = '\x7b' then do advance; return (.curly :: enclosing, .firstKey)
    else if c = '"' then do skipString; return (enclosing, .after)
    else if c = '-' ∨ c.isDigit then do skipNumber; return (enclosing, .after)
    else do
      let _ ← scalar
      return (enclosing, .after)
  closing : Reader (List Bracket × Position) := do
    advance
    return (enclosing.tail, .after)
  keyed : Reader (List Bracket × Position) :=
    if c = '"' then do
      skipString
      colon
      return (enclosing, .start)
    else fail .malformed

def skipFrom : Nat → List Bracket → Position → Reader Unit
  | _, [], .after => pure ()
  | 0, _, _ => fail .truncated
  | bound + 1, enclosing, position => do
    match ← peek with
    | none => fail .truncated
    | some c => do
      let (enclosing, position) ← skipToken c enclosing position
      skipFrom bound enclosing position

/-- Passes over one value. -/
def skip (bound : Nat) : Reader Unit :=
  skipFrom bound [] .start

/-! ### Whole texts -/

/-- A text that holds one value and nothing else but blanks. -/
def whole (reader : Nat → Reader α) (text : String) : Except Fault α :=
  let characters := text.toList
  match reader (characters.length + 1) characters with
  | .error fault => .error fault
  | .ok (value, rest) =>
    if rest.all isSpace then .ok value else .error .malformed

end Reader

def Value.ofText (depth : Nat) (text : String) : Except Fault Value :=
  Reader.whole (fun bound => Reader.value bound depth) text

end SchemaDesign.Json
