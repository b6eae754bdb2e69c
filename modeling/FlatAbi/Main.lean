import FlatAbi.CommandLine.Session

/-!
The command line program. It looks at the files that a run consults, lets the run happen on this picture of them, and
writes what has changed.
-/

namespace FlatAbi.Program

def look (tree : FileTree) (path : Path) : IO FileTree := do
  let place := (← IO.currentDir) / path.text
  if ← place.isDir then return tree.put path .directory
  if ← place.pathExists then return tree.put path (.file (← IO.FS.readFile place))
  return tree

def upTo (path : Path) : List Path :=
  (List.range (path.components.length + 1)).map fun count => Path.normal ⟨path.components.take count⟩

def lookAll (tree : FileTree) (paths : List Path) : IO FileTree :=
  (paths.flatMap upTo).foldlM look tree

def store (before : FileTree) (path : Path) (entry : Entry) : IO Unit := do
  if before.find? path == some entry then return
  let place := (← IO.currentDir) / path.text
  match entry with
  | .directory => IO.FS.createDirAll place
  | .file text =>
    let draft := (← IO.currentDir) / (path.text ++ ".part")
    IO.FS.writeFile draft text
    IO.FS.rename draft place

def exitCode : CommandLine.Ending → UInt32
  | .exit code => UInt32.ofNat code
  | .usage => 2
  | .help => 0
  | .breakdown _ => 1

def usage : String :=
  let spelled := CommandLine.Switch.all.map fun s =>
    Text.join ", " s.spellings ++ (if s.takesValue then " VALUE" else "")
  "usage: " ++ Manifest.generatorName ++ " --input FILE [options]\n" ++
    Text.concat (spelled.map fun line => Text.indentation ++ line ++ "\n")

def run (words : List String) : IO UInt32 := do
  let directory := Path.root.resolve (← IO.currentDir).toString
  let setting : CommandLine.Setting := ⟨⟨"unknown", "unknown"⟩, directory, words, some .simple, 0⟩
  match CommandLine.request words with
  | .run options =>
    let known ← lookAll {} (CommandLine.consulted setting options {})
    let files ← lookAll known (CommandLine.consulted setting options known)
    let outcome := CommandLine.run setting files
    (← IO.getStderr).putStr outcome.log
    outcome.files.entries.forM fun (path, entry) => store files path entry
    return exitCode outcome.ending
  | .help =>
    IO.print usage
    return exitCode .help
  | .misuse =>
    (← IO.getStderr).putStr usage
    return exitCode .usage

end FlatAbi.Program

def main (words : List String) : IO UInt32 :=
  FlatAbi.Program.run words
