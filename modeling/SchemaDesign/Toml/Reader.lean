import SchemaDesign.Toml.Node
import SchemaDesign.Toml.Scalar

/-!
# Reading settings files

A file is read line by line into one table.  A reader takes characters from the front of a text, or
refuses it; it is not told why a text is refused.

Repetition is bounded by a number above the length of the text, and every round takes at least one
character.
-/

namespace SchemaDesign.Toml

abbrev Reader := StateT (List Char) Option

namespace Reader

def refuse {α : Type} : Reader α := fun _ => none

def peek : Reader (Option Char) := fun text => some (text.head?, text)

def advance : Reader Unit := modify List.tail

def exactly (expected : Char) : Reader Unit := fun text =>
  match text with
  | c :: rest => if c = expected then some ((), rest) else none
  | [] => none

def isSpace (c : Char) : Bool := c = ' ' || c = '\t'

/-- The characters that may stand in comments and, as they are, in quotes. -/
def isPlain (c : Char) : Bool :=
  c = '\t' || (c.toNat ≥ 0x20 && c.toNat ≠ 0x7F)

def spaces : Reader Unit := modify (List.dropWhile isSpace)

/-- What is left after blanks, line ends and comments. -/
def afterGap (inComment : Bool) : List Char → List Char
  | [] => []
  | '\n' :: rest => afterGap false rest
  | '\r' :: '\n' :: rest => afterGap false rest
  | c :: rest =>
    if inComment then if isPlain c then afterGap true rest else c :: rest
    else if isSpace c then afterGap false rest
    else if c = '#' then afterGap true rest
    else c :: rest

def gap : Reader Unit := modify (afterGap false)

/-- The end of a line, with a comment before it if there is one. -/
def endOfLine : Reader Unit := fun text =>
  let text := text.dropWhile isSpace
  let text := if text.head? = some '#' then text.dropWhile isPlain else text
  match text with
  | [] => some ((), [])
  | '\n' :: rest => some ((), rest)
  | '\r' :: '\n' :: rest => some ((), rest)
  | _ => none

/-! ### Quoted texts -/

/-- What a reader of a quoted text is in the middle of. -/
inductive Position where
  | plain
  /-- A backslash has been taken. -/
  | escaped
  /-- Digits of a code are still to come. -/
  | code (missing value : Nat)
  /-- A backslash ends its line, and blanks are left out up to the next line that is not blank. -/
  | folded (lineEnded : Bool)

def shortEscape? (c : Char) : Option Char :=
  if c = 'b' then some '\x08'
  else if c = 't' then some '\t'
  else if c = 'n' then some '\n'
  else if c = 'f' then some '\x0c'
  else if c = 'r' then some '\r'
  else if c = 'e' then some '\x1b'
  else if c = '"' then some '"'
  else if c = '\\' then some '\\'
  else none

/-- The number of digits of the code that begins with a letter. -/
def codeLength? (c : Char) : Option Nat :=
  if c = 'x' then some 2
  else if c = 'u' then some 4
  else if c = 'U' then some 8
  else none

/-- Blanks stay left out as long as they follow each other. -/
def afterFold (rest : List Char) : Position :=
  match rest with
  | c :: _ => if isSpace c ∨ c = '\n' ∨ c = '\r' then .folded true else .plain
  | [] => .plain

/-- The characters up to the closing quote.  Only double quotes know escapes.  In a text over
several lines three quotes close, and one or two more before them belong to the text. -/
def quotedRest (quote : Char) (several : Bool) :
    Position → List Char → List Char → Option (List Char × List Char)
  | _, _, [] => none
  | .plain, taken, c :: rest =>
    if c = quote then
      if !several then some (taken.reverse, rest)
      else
        match rest with
        | d :: e :: outside =>
          if d = quote ∧ e = quote then
            let more := (outside.take 2).takeWhile (· = quote)
            some (taken.reverse ++ more, outside.drop more.length)
          else quotedRest quote several .plain (c :: taken) rest
        | _ => none
    else if c = '\\' ∧ quote = '"' then quotedRest quote several .escaped taken rest
    else if c = '\n' ∨ (c = '\r' ∧ rest.head? = some '\n') then
      if several then quotedRest quote several .plain (c :: taken) rest else none
    else if isPlain c then quotedRest quote several .plain (c :: taken) rest
    else none
  | .escaped, taken, c :: rest =>
    match shortEscape? c with
    | some found => quotedRest quote several .plain (found :: taken) rest
    | none =>
      match codeLength? c with
      | some missing => quotedRest quote several (.code missing 0) taken rest
      | none =>
        if !several then none
        else if isSpace c then quotedRest quote several (.folded false) taken rest
        else if c = '\n' then quotedRest quote several (afterFold rest) taken rest
        else if c = '\r' ∧ rest.head? = some '\n' then
          quotedRest quote several (.folded false) taken rest
        else none
  | .code missing value, taken, c :: rest =>
    match Text.hexValue? c with
    | none => none
    | some digit =>
      let value := 16 * value + digit
      if missing > 1 then quotedRest quote several (.code (missing - 1) value) taken rest
      else
        match Text.character? value with
        | some found => quotedRest quote several .plain (found :: taken) rest
        | none => none
  | .folded lineEnded, taken, c :: rest =>
    if c = '\n' then quotedRest quote several (afterFold rest) taken rest
    else if c = '\r' then
      if rest.head? = some '\n' then quotedRest quote several (.folded lineEnded) taken rest
      else none
    else if isSpace c then
      let position := if lineEnded then afterFold rest else .folded false
      quotedRest quote several position taken rest
    else none

/-- A text on one line; its opening quote is the next character. -/
def quoted (quote : Char) : Reader String := fun text =>
  (quotedRest quote false .plain [] text.tail).map fun (taken, rest) =>
    (String.ofList taken, rest)

/-- A line end right after the opening quotes does not belong to the text. -/
def withoutFirstLineEnd : List Char → List Char
  | '\n' :: rest => rest
  | '\r' :: '\n' :: rest => rest
  | text => text

/-- A text; its opening quote, or the first of three, is the next character. -/
def text (quote : Char) : Reader String := fun text =>
  if text.take 3 = [quote, quote, quote] then
    (quotedRest quote true .plain [] (withoutFirstLineEnd (text.drop 3))).map
      fun (taken, rest) => (String.ofList taken, rest)
  else quoted quote text

/-! ### Keys -/

def isKeyCharacter (c : Char) : Bool :=
  c.isAlphanum || c = '_' || c = '-'

def bareKey : Reader String := fun text =>
  match text.takeWhile isKeyCharacter with
  | [] => none
  | key => some (String.ofList key, text.dropWhile isKeyCharacter)

def key : Reader String := do
  match ← peek with
  | some '"' => quoted '"'
  | some '\x27' => quoted '\x27'
  | _ => bareKey

def keyLimit : Nat := 80

def keyPathRest : Nat → List String → String → Reader KeyPath
  | 0, _, _ => refuse
  | bound + 1, parents, last => do
    spaces
    match ← peek with
    | some '.' => do
      advance
      spaces
      keyPathRest bound (parents ++ [last]) (← key)
    | _ => return ⟨parents, last⟩

/-- Keys with dots between them, and the blanks after them. -/
def keyPath (bound : Nat) : Reader KeyPath := do
  let path ← keyPathRest bound [] (← key)
  if path.keys.length ≤ keyLimit then return path else refuse

/-- A key path, and the equals sign with what may stand around it. -/
def keyBefore (around : Reader Unit) (bound : Nat) : Reader KeyPath := do
  let path ← keyPath bound
  around
  exactly '='
  around
  return path

/-! ### Values -/

/-- The characters that a scalar goes on with: all but blanks, line ends and the marks of lists,
tables and comments. -/
def isScalarCharacter (c : Char) : Bool :=
  !isSpace c && c ∉ ['=', ',', '[', ']', '\x7b', '\x7d', '#', '\n', '\r']

/-- Whether a character is one that a scalar goes on with after blanks. -/
def resumesScalar (c : Char) : Bool :=
  isScalarCharacter c && c ∉ ['.', '"', '\x27']

/-- The text of a scalar, and what is left.  Blanks belong to it if it goes on after them, as a date
goes on with a time. -/
def splitScalar : List Char → List Char × List Char
  | [] => ([], [])
  | c :: rest =>
    if isScalarCharacter c ∨ (isSpace c ∧ (rest.dropWhile isSpace).head?.any resumesScalar) then
      let (taken, left) := splitScalar rest
      (c :: taken, left)
    else ([], c :: rest)

def scalarText : Reader (List Char) := fun text => some (splitScalar text)

def scalar : Reader Node := do
  match Scalar.ofText? (← scalarText) with
  | some value => return .scalar value
  | none => refuse

/-- The items of a list up to its closing bracket; the last one may have a comma after it. -/
def items (element : Reader Node) : Nat → Reader (List Node)
  | 0 => refuse
  | bound + 1 => do
    gap
    match ← peek with
    | some ']' => do advance; return []
    | _ => do
      let item ← element
      gap
      match ← peek with
      | some ',' => do
        advance
        return item :: (← items element bound)
      | some ']' => do advance; return [item]
      | _ => refuse

/-- The members of a table up to its closing brace; the last one may have a comma after it. -/
def members (keyBefore : Reader KeyPath) (element : Reader Node) :
    Nat → Members → Reader Members
  | 0, _ => refuse
  | bound + 1, found => do
    gap
    match ← peek with
    | some '\x7d' => do advance; return found
    | _ => do
      let path ← keyBefore
      let value ← element
      match found.assign path value with
      | none => refuse
      | some found => do
        gap
        match ← peek with
        | some ',' => do
          advance
          members keyBefore element bound found
        | some '\x7d' => do advance; return found
        | _ => refuse

/-- A value whose lists and tables are nested at most `depth` deep. -/
def value (bound : Nat) : Nat → Reader Node
  | 0 => do
    match ← peek with
    | some '"' => return .text (← text '"')
    | some '\x27' => return .text (← text '\x27')
    | _ => scalar
  | depth + 1 => do
    match ← peek with
    | some '"' => return .text (← text '"')
    | some '\x27' => return .text (← text '\x27')
    | some '[' => do
      advance
      return .list (← items (value bound depth) bound)
    | some '\x7b' => do
      advance
      return .table .inline (← members (keyBefore gap bound) (value bound depth) bound [])
    | _ => scalar

/-! ### Lines -/

/-- The table read so far, and the path of the header that the next line stands under. -/
structure Progress where
  root : Members
  header : List String

def nestingLimit : Nat := 80

/-- A header; its first bracket is the next character. -/
def header (bound : Nat) (progress : Progress) : Reader Progress := do
  advance
  let repeated := (← peek) = some '['
  if repeated then advance
  spaces
  let path ← keyPath bound
  exactly ']'
  if repeated then exactly ']'
  let root := if repeated then progress.root.openElement path else progress.root.openTable path
  match root with
  | some root => return ⟨root, path.keys⟩
  | none => refuse

def pair (bound : Nat) (progress : Progress) : Reader Progress := do
  let path ← keyBefore spaces bound
  let value ← value bound nestingLimit
  match progress.root.within false (fun _ => Members.assign path value) progress.header .header with
  | some root => return ⟨root, progress.header⟩
  | none => refuse

def lines (bound : Nat) : Nat → Progress → Reader Members
  | 0, _ => refuse
  | rounds + 1, progress => do
    gap
    match ← peek with
    | none => return progress.root
    | some '[' => do
      let progress ← header bound progress
      endOfLine
      lines bound rounds progress
    | some _ => do
      let progress ← pair bound progress
      endOfLine
      lines bound rounds progress

end Reader

/-- The table that a file holds.  A byte order mark at its beginning does not count. -/
def Members.ofText? (text : String) : Option Members :=
  let characters := match text.toList with
    | '\uFEFF' :: rest => rest
    | all => all
  let bound := characters.length + 1
  (Reader.lines bound bound ⟨[], []⟩ characters).map Prod.fst

end SchemaDesign.Toml
