import ShaderReducer.CommandLine.Session

/-!
# The program

Reads the files that a call may need into a disk, makes the call, brings its changes to the files in
order, and prints what the call printed.
-/

namespace ShaderReducer

namespace Files

def locationOf (path : String) : Location :=
  Path.segments ⟨path⟩ |>.filter fun segment => !Path.staysPut segment

def pathOf (location : Location) : String :=
  "/" ++ "/".intercalate location

def withParents (d : Disk) (location : Location) : Disk :=
  (List.range (location.length - 1)).foldl (fun d n =>
    let parent := location.take (n + 1)
    if (d.tree.get? parent).isSome then d
    else { d with tree := d.tree.set parent .directory }) d

def withEntry (d : Disk) (location : Location) (entry : Entry) : Disk :=
  let d := withParents d location
  { d with tree := d.tree.set location entry }

def readFile (d : Disk) (path : String) : IO Disk := do
  try
    let bytes ← IO.FS.readBinFile path
    return withEntry d (locationOf path) (.file bytes.toList false)
  catch _ => return d

/-- A disk with the file at a path, or with the directory and all that is below. What cannot be read
is left out. -/
def readAll (d : Disk) (path : String) : IO Disk := do
  try
    let real ← IO.FS.realPath path
    if ← real.isDir then
      let mut d := withEntry d (locationOf real.toString) .directory
      for below in ← real.walkDir do
        if ← below.isDir then
          d := withEntry d (locationOf below.toString) .directory
        else
          d ← readFile d below.toString
      return d
    else readFile d real.toString
  catch _ => return d

def perform : FileChange → IO Unit
  | .write location bytes => IO.FS.writeBinFile (pathOf location) ⟨bytes.toArray⟩
  | .makeDirectory location => IO.FS.createDir (pathOf location)
  | .rename source target => IO.FS.rename (pathOf source) (pathOf target)
  | .remove location => do
    try IO.FS.removeFile (pathOf location)
    catch _ => IO.FS.removeDir (pathOf location)
  | .allow location runs => do
    let everybody : IO.AccessRight := ⟨true, false, runs⟩
    IO.setAccessRights (pathOf location) ⟨⟨true, true, runs⟩, everybody, everybody⟩

def named (o : Options) : List String :=
  [o.input.text, (o.input.withExtension "json").text, o.output.text] ++
    (o.referenceImage.toList.map Path.text)

def readFor (arguments : List String) : IO Disk := do
  match Options.ofArguments arguments with
  | .error _ => return {}
  | .ok o =>
    let here := (← IO.currentDir).toString
    let d ← readAll { workingDirectory := locationOf here } here
    (named o).foldlM readAll d

end Files

end ShaderReducer

def main (arguments : List String) : IO UInt32 := do
  let disk ← ShaderReducer.Files.readFor arguments
  let (report, after) := ShaderReducer.CommandLine.call arguments disk
  for change in after.changes.reverse do
    ShaderReducer.Files.perform change
  IO.print report.output
  IO.eprint report.errors
  return report.status.toUInt32
