import SchemaDesign.Environment
import SchemaDesign.Files.Tree
import SchemaDesign.Host

/-!
# A machine in memory

A machine is a host without a system under it: its files are those of a tree, its environment is a
list of variables, and it keeps the events that are logged.
-/

namespace SchemaDesign

structure Machine where
  files : FileTree
  events : List Event

namespace Machine

def changeFiles (change : FileTree → Except FileFault FileTree) :
    StateM Machine (Except FileFault Unit) := fun machine =>
  match change machine.files with
  | .ok files => (.ok (), { machine with files := files })
  | .error fault => (.error fault, machine)

def host (environment : Environment) : Host (StateM Machine) where
  environment name := pure (environment.value? name)
  readFile path := do return (← get).files.read path
  writeFile path text := changeFiles fun files => files.write path text
  createDirectories path := changeFiles fun files => files.createDirectories path
  log events := modify fun machine => { machine with events := machine.events ++ events }

end Machine

end SchemaDesign
