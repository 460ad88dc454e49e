import SchemaDesign.Text.Blank
import SchemaDesign.Design.Basic

/-!
# Type signatures

The type of a column is free text of the form `NAME(p1, p2) REST`, in which the parameters and the
rest may be missing.  Every text can be read: when the parentheses do not match, the whole text is
the name.  The parameters stand between the first opening parenthesis and the first closing one,
so the text is a signature with parameters exactly when it has both and they come in this order.
-/

namespace SchemaDesign

structure TypeSignature where
  name : String
  params : Option (List String)
  /-- What follows the parameters, such as `WITH TIME ZONE`. -/
  suffix : Option String
deriving Repr, DecidableEq

namespace TypeSignature

def bare (name : String) : TypeSignature :=
  ⟨name, none, none⟩

/-- No parameters at all stand for an absent parameter list. -/
def someParams (params : List String) : Option (List String) :=
  if params.isEmpty then none else some params

/-- A blank suffix stands for an absent one. -/
def someSuffix (text : List Char) : Option String :=
  let trimmed := Text.trim text
  if trimmed.isEmpty then none else some (String.ofList trimmed)

def withParams (signature : TypeSignature) (params : List String) : TypeSignature :=
  { signature with params := someParams params }

def withSuffix (signature : TypeSignature) (suffix : String) : TypeSignature :=
  { signature with suffix := someSuffix suffix.toList }

def replaceParams (signature : TypeSignature) (params : List String) : TypeSignature :=
  { signature with params := someParams params }

def isParenthesis (c : Char) : Bool :=
  c = '(' || c = ')'

def trimmed (text : List Char) : String :=
  String.ofList (Text.trim text)

def ofChars (text : List Char) : TypeSignature :=
  let text := Text.trim text
  match text.dropWhile (!isParenthesis ·) with
  | '(' :: inner =>
    match inner.dropWhile (· ≠ ')') with
    | ')' :: rest =>
      { name := trimmed (text.takeWhile (!isParenthesis ·))
        params := some ((Text.pieces ',' (inner.takeWhile (· ≠ ')'))).map trimmed)
        suffix := someSuffix rest }
    | _ => bare (String.ofList text)
  | _ => bare (String.ofList text)

def parse (text : String) : TypeSignature :=
  ofChars text.toList

/-- The name with the suffix but without the parameters. -/
def fullName (signature : TypeSignature) : String :=
  match signature.suffix with
  | some suffix => signature.name ++ " " ++ suffix
  | none => signature.name

/-- Whether the signature is a template whose parameters stand for concrete ones. -/
def isParameterized (signature : TypeSignature) : Bool :=
  signature.params.isSome

def paramsText : Option (List String) → String
  | some params => "(" ++ ", ".intercalate params ++ ")"
  | none => ""

def suffixText : Option String → String
  | some suffix => " " ++ suffix
  | none => ""

def text (signature : TypeSignature) : String :=
  signature.name ++ paramsText signature.params ++ suffixText signature.suffix

end TypeSignature

def Column.signature (column : Column) : TypeSignature :=
  .parse column.typeText

end SchemaDesign
