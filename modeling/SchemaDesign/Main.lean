import SchemaDesign.Command.Run

/-!
# The program

Runs the program on the files, the environment and the standard streams of the system.  New records
get identifiers that follow each other from a random one on.
-/

namespace SchemaDesign.Program

/-- The number of a system error, which may also be given as its negative. -/
def errorNumber (code : UInt32) : UInt32 :=
  if code < 0x80000000 then code else 0 - code

def faultOf : IO.Error → FileFault
  | .noFileOrDirectory _ _ _ => .missing
  | .alreadyExists _ _ _ => .alreadyExists
  | .inappropriateType _ code _ =>
    if errorNumber code = 21 then .isDirectory else .notDirectory
  | .invalidArgument path code details =>
    if errorNumber code = 36 then .nameTooLong
    else .other (toString (IO.Error.invalidArgument path code details))
  | error => .other (toString error)

def attempt {α : Type} (action : IO α) : IO (Except FileFault α) := do
  try
    return .ok (← action)
  catch error =>
    return .error (faultOf error)

def fieldText : FieldValue → String
  | .count value => toString value
  | .text value => value

def eventText (event : Event) : String :=
  let level := match event.level with
    | .debug => "DEBUG "
    | .warning => "WARN "
  level ++ event.message ++
    String.join (event.fields.map fun (name, value) => " " ++ name ++ "=" ++ fieldText value)

def host : Host IO where
  environment name := IO.getEnv name
  readFile path := attempt (IO.FS.readFile path)
  writeFile path text := attempt (IO.FS.writeFile path text)
  createDirectories path := attempt (if path.isEmpty then pure () else IO.FS.createDirAll path)
  log events := events.forM fun event => IO.eprintln (eventText event)

def randomIds : IO IdSupply := do
  let bytes ← IO.getRandomBytes 16
  let first := bytes.toList.foldl (fun value byte => 256 * value + byte.toNat) 0
  return fun position => Identifier.ofBits (first + position)

end SchemaDesign.Program

def main (arguments : List String) : IO UInt32 := do
  let ids ← SchemaDesign.Program.randomIds
  let outcome ← SchemaDesign.run SchemaDesign.Program.host ids arguments
  IO.print outcome.output
  IO.eprint outcome.errors
  return outcome.exitCode
