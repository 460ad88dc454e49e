/-!
# Environments

An environment is a list of variables, each kept as one text: its name, an equals sign and its
value.  A variable is looked up by the beginning of that text.  A name with an equals sign in it is
therefore no name of a variable, but it finds the rest of a value that goes on as the name does.
The empty name finds nothing.
-/

namespace SchemaDesign

/-- The names and values of variables. -/
abbrev Environment := List (String × String)

namespace Environment

def entry (setting : String × String) : List Char :=
  setting.1.toList ++ '=' :: setting.2.toList

def after? : List Char → List Char → Option (List Char)
  | [], text => some text
  | expected :: others, c :: text => if c = expected then after? others text else none
  | _ :: _, [] => none

def value? (environment : Environment) (name : String) : Option String :=
  if name.isEmpty then none
  else
    (environment.findSome? fun setting =>
      after? (name.toList ++ ['=']) (entry setting)).map String.ofList

end Environment

end SchemaDesign
