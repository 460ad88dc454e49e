import SchemaDesign.Files.Fault
import SchemaDesign.Log.Event

/-!
# Hosts

Whatever reads variables of the environment, works with files or logs events is handed a host that
does it.  A command is thus a function of its host: the program runs it on the real one, and a
machine in memory is another.
-/

namespace SchemaDesign

structure Host (m : Type → Type) where
  /-- The value of a variable of the environment, if it is set. -/
  environment : String → m (Option String)
  readFile : String → m (Except FileFault String)
  /-- Puts a text into a file, in place of what was there. -/
  writeFile : String → String → m (Except FileFault Unit)
  /-- Makes a directory and those above it, where they are missing. -/
  createDirectories : String → m (Except FileFault Unit)
  log : List Event → m Unit

namespace Host

variable {m : Type → Type}

def withWarningsOnly (host : Host m) : Host m :=
  { host with log := fun events => host.log (events.filter fun event => event.level = .warning) }

end Host

end SchemaDesign
