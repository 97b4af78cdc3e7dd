import TokenSheets.CommandLine
import TokenSheets.Name.TransliterationTable
import TokenSheets.ShellScript.Run

/-!
# The executable

The working directory is read into a store, the program runs on the store, and what it changed is
carried out. Links and special files are passed over. Namespaces are built one after another, and
the names of tokens come from an excerpt of the transliteration table.
-/

namespace TokenSheets.Main

/-- What is below a directory of the working directory. -/
partial def entriesBelow (location : Location) : IO (Entries Location Entry) := do
  let mut found : Entries Location Entry := []
  for entry in ← ((← IO.currentDir) / "/".intercalate location).readDir do
    let inner := location ++ [entry.fileName]
    match (← entry.path.symlinkMetadata).type with
    | .file => found := found ++ [(inner, .file (← IO.FS.readBinFile entry.path))]
    | .dir => found := found ++ (inner, .directory) :: (← entriesBelow inner)
    | _ => pure ()
  return found

/-- Removes what is gone, what is deepest first. -/
def carryOutRemovals (before after : Store) : IO Unit := do
  for (location, entry) in before.entries.reverse do
    let path := (← IO.currentDir) / "/".intercalate location
    match entry, after.get? location with
    | .file _, some (.file _) => pure ()
    | .file _, _ => IO.FS.removeFile path
    | .directory, some .directory => pure ()
    | .directory, _ => IO.FS.removeDir path

/-- Makes and writes what is new or has changed, in the order in which it came. -/
def carryOutChanges (before after : Store) : IO Unit := do
  for (location, entry) in after.entries do
    let path := (← IO.currentDir) / "/".intercalate location
    if before.get? location ≠ some entry then
      match entry with
      | .file content => IO.FS.writeBinFile path content
      | .directory => IO.FS.createDirAll path

end TokenSheets.Main

open TokenSheets in
attribute [local instance] Name.Transliteration.excerpt in
/-- **The executable.** -/
def main (arguments : List String) : IO UInt32 := do
  let before : Store := ⟨← Main.entriesBelow []⟩
  let (after, verdict) := CommandLine.run .standard [] arguments before
  Main.carryOutRemovals before after
  Main.carryOutChanges before after
  (verdict.lines fun _ => "not a configuration").forM IO.eprintln
  return verdict.status.code.toUInt32
