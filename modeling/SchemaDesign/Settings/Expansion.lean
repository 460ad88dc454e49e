import SchemaDesign.Text.Alphanumeric

/-!
# Variables in texts

A text in the settings may refer to variables of the environment.  A reference is a dollar sign
followed by a name: in braces any characters up to the closing brace or, without one, up to the
end of the text; without braces a longest run of alphanumeric characters and underscores.  A
dollar sign with no name after it stands for itself.

A text is read once from left to right into segments, and the segments are put together with the
values of the variables.  A value is never read again, so a dollar sign in it stays as it is.
-/

namespace SchemaDesign.Expansion

inductive Segment where
  /-- Characters other than the dollar sign. -/
  | literal (text : List Char)
  | braced (name : List Char)
  | bare (name : List Char)
  /-- A dollar sign that stands for itself. -/
  | dollar
deriving Repr, DecidableEq

def isNameCharacter (c : Char) : Bool :=
  Text.isAlphanumeric c || c = '_'

theorem length_dropWhile_le (p : Char → Bool) (text : List Char) :
    (text.dropWhile p).length ≤ text.length :=
  (List.dropWhile_sublist p).length_le

/-- The segments of a text, from left to right. -/
def segments : List Char → List Segment
  | [] => []
  | c :: rest =>
    if c ≠ '$' then
      .literal (c :: rest.takeWhile (· ≠ '$')) :: segments (rest.dropWhile (· ≠ '$'))
    else if rest.head? = some '\x7b' then
      .braced (rest.tail.takeWhile (· ≠ '\x7d')) ::
        segments (rest.tail.dropWhile (· ≠ '\x7d')).tail
    else if rest.takeWhile isNameCharacter = [] then .dollar :: segments rest
    else .bare (rest.takeWhile isNameCharacter) :: segments (rest.dropWhile isNameCharacter)
termination_by text => text.length
decreasing_by
  · have := length_dropWhile_le (· ≠ '$') rest
    simp only [List.length_cons]
    omega
  · have := length_dropWhile_le (· ≠ '\x7d') rest.tail
    simp only [List.length_cons, List.length_tail] at *
    omega
  · simp
  · have := length_dropWhile_le isNameCharacter rest
    simp only [List.length_cons]
    omega

namespace Segment

def name? : Segment → Option String
  | .literal _ => none
  | .braced name => some (String.ofList name)
  | .bare name => some (String.ofList name)
  | .dollar => none

/-- What a segment stands for, or the name of the variable that is not set. -/
def value (environment : String → Option String) : Segment → Except String String
  | .literal text => .ok (String.ofList text)
  | .braced name => valueOf environment (String.ofList name)
  | .bare name => valueOf environment (String.ofList name)
  | .dollar => .ok "$"
where
  valueOf (environment : String → Option String) (name : String) : Except String String :=
    match environment name with
    | some value => .ok value
    | none => .error name

end Segment

def names (text : String) : List String :=
  (segments text.toList).filterMap Segment.name?

/-- The text with the values of its variables, or the name of the first one that is not set. -/
def expand (environment : String → Option String) (text : String) : Except String String :=
  ((segments text.toList).mapM (Segment.value environment)).map String.join

end SchemaDesign.Expansion
