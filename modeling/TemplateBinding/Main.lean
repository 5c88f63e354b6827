import TemplateBinding.CommandLine.Session

/-!
The command line program: reads its arguments and perhaps one file, and prints.
-/
namespace TemplateBinding.CommandLine

def usageText : String :=
  "usage: bindc [-c PATH] [-v] attr [-t TAG] [-f NAME]... NAME=VALUE...\n" ++
  "       bindc [-c PATH] [-v] interpret [-t TAG] [-f NAME]... COMMAND NAME VALUE\n" ++
  "       bindc [-c PATH] [-v] expr SOURCE"

/-- A directory can be opened, and fails without a path when it is read. -/
def readFault : IO.Error → ReadFault
  | .noFileOrDirectory .. => .notFound
  | .permissionDenied .. => .notPermitted
  | .inappropriateType none .. => .isDirectory
  | .inappropriateType (some _) .. => .notDirectory
  | error => .other error.toString

def readFile (path : String) : IO (Except ReadFault Text) := do
  try
    let bytes ← IO.FS.readBinFile path
    match String.fromUTF8? bytes with
    | some text => pure (.ok text.toList)
    | none => pure (.error .notText)
  catch error => pure (.error (readFault error))

end TemplateBinding.CommandLine

open TemplateBinding TemplateBinding.CommandLine in
def main (args : List String) : IO UInt32 := do
  match CommandLine.read (args.map String.toList) with
  | .error .help => IO.println usageText; pure 0
  | .error .version => IO.println ("bindc " ++ String.ofList version); pure 0
  | .error .usage => IO.eprintln usageText; pure 2
  | .ok invocation =>
    let content ← match invocation.configPath with
      | some path => readFile (String.ofList path)
      | none => pure (.error .notFound)
    let run := invocation.run fun _ => content
    IO.eprint (String.ofList (logText run.log))
    match run.result with
    | .ok document => IO.println (String.ofList document.pretty); pure 0
    | .error failure =>
      IO.eprintln ("Error: " ++ String.ofList failure.message)
      pure 1
