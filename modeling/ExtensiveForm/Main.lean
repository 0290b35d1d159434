import ExtensiveForm.CommandLine.Run

set_option autoImplicit false

namespace ExtensiveForm.CommandLine

def fileFault : IO.Error → FileFault
  | .noFileOrDirectory .. => .notFound
  | .inappropriateType _ 20 _ => .notDirectory
  | .inappropriateType _ 21 _ => .isDirectory
  | e => .other (toString e)

def caught {α : Type} (act : IO α) : IO (Except FileFault α) := do
  match ← act.toBaseIO with
  | .ok a => return .ok a
  | .error e => return .error (fileFault e)

def systemFiles : FileAccess IO where
  read path := return (← caught (IO.FS.readBinFile path)).bind decode
  write path text := caught (IO.FS.writeFile path text)

/-- More states than any game that ends in time. -/
def patience : Nat := Nat.pow 2 62

end ExtensiveForm.CommandLine

def main (arguments : List String) : IO UInt32 := do
  match ← ExtensiveForm.CommandLine.run ExtensiveForm.CommandLine.systemFiles
      ExtensiveForm.CommandLine.patience arguments with
  | none =>
    IO.eprintln "Error: the game does not end"
    return 1
  | some report =>
    IO.print report.output
    IO.eprint report.diagnostics
    return report.exitCode
