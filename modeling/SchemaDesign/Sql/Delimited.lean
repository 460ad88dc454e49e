/-!
# Delimited identifiers

A name that may hold any character is written between quotes, and a quote inside the name is
written twice.  Reading goes from the opening quote to the first quote that is not doubled, so a
delimited name reads back whatever it holds, as long as no further quote follows it.
-/

namespace SchemaDesign.Sql

/-- The characters of a name with every quote written twice. -/
def doubled (quote : Char) : List Char → List Char
  | [] => []
  | c :: rest =>
    if c = quote then quote :: quote :: doubled quote rest else c :: doubled quote rest

def delimited (quote : Char) (name : String) : String :=
  String.ofList (quote :: (doubled quote name.toList ++ [quote]))

/-- The name up to the first quote that is not doubled, and what follows it. -/
def undelimitedRest? (quote : Char) : List Char → Option (List Char × List Char)
  | [] => none
  | c :: rest =>
    if c = quote then
      match rest with
      | [] => some ([], [])
      | d :: others =>
        if d = quote then
          (undelimitedRest? quote others).map fun (name, after) => (quote :: name, after)
        else some ([], d :: others)
    else (undelimitedRest? quote rest).map fun (name, after) => (c :: name, after)

/-- Reads a delimited name from the front of a text. -/
def undelimited? (quote : Char) : List Char → Option (List Char × List Char)
  | [] => none
  | c :: rest => if c = quote then undelimitedRest? quote rest else none

end SchemaDesign.Sql
