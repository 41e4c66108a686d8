import LocalCloud.Command.Run

/-!
# The program

Reads the files that a command may look at into a disk, runs the command on that disk, writes the
project file that the command has made, and shows its texts.
-/

namespace LocalCloud.Program

/-! ## Reading files into a disk -/

/-- Reads what stands at a place, together with the places that links in it lead to.  A link is
read as a link to where it leads in the end.  What cannot be read is a link to itself, which leads
nowhere. -/
partial def readTree (entry : IO.FS.DirEntry) : IO (FileNode × List String) := do
  let path := entry.path
  try
    match (← path.symlinkMetadata).type with
    | .file => return (.file (← IO.FS.readBinFile path), [])
    | .dir =>
      let mut entries : FileNode.Entries := []
      let mut targets : List String := []
      for below in ← path.readDir do
        let (node, more) ← readTree below
        entries := (below.fileName, node) :: entries
        targets := more ++ targets
      return (.directory entries.reverse, targets)
    | _ =>
      let target := (← IO.FS.realPath path).toString
      return (.link target, [target])
  catch _ => return (.link entry.fileName, [])

/-- The disk with a node at an absolute path. -/
def putAt (disk : Disk) (place : String) (node : FileNode) : Disk :=
  let names := (Disk.names place).filter (· != "")
  let above : Path := ⟨"/" ++ String.intercalate "/" names.dropLast⟩
  match disk.createDirectories above with
  | (d, none) => { d with root := d.root.put node names }
  | (_, some _) => disk

/-- The disk with what a path leads through, from its highest name down: links, and files, which
lead nowhere. -/
partial def readWay (disk : Disk) (path : Path) : IO Disk := do
  let disk ← match path.parent? with
    | some above => readWay disk above
    | none => pure disk
  let entry : IO.FS.DirEntry := { root := ".", fileName := path.text }
  match ← entry.path.symlinkMetadata.toBaseIO with
  | .error _ => return disk
  | .ok found =>
    let node : FileNode ← match found.type with
      | .symlink => do
        match ← (IO.FS.realPath entry.path).toBaseIO with
        | .ok real => pure (.link real.toString)
        | .error _ => pure (.link path.text)
      | .dir => pure (.directory [])
      | _ => pure (.file ByteArray.empty)
    match disk.place path node with
    | .ok d => return d
    | .error _ => return disk

/-- Reads the trees at some places, and at all places that links in them lead to.  `done` holds the
places that were read before. -/
partial def readPlaces (disk : Disk) (done : List String) : List Path → IO Disk
  | [] => return disk
  | place :: rest => do
    let disk ← readWay disk place
    match ← (IO.FS.realPath place.text).toBaseIO with
    | .error _ => readPlaces disk done rest
    | .ok real =>
      let path := real.toString
      if done.any fun d => path = d || Text.startsWith (d ++ "/") path then
        readPlaces disk done rest
      else
        let (node, targets) ← readTree { root := "/", fileName := path }
        readPlaces (putAt disk path node) (path :: done) (targets.map Path.mk ++ rest)

/-- A disk on which only the current directory is, without what is in it. -/
def bareDisk : IO Disk := do
  let here := (← IO.currentDir).toString
  let disk := putAt {} here (.directory [])
  return { disk with current := (Disk.names here).filter (· != "") }

/-- A disk with what a command looks at.  The second look follows what the project file says. -/
def readDisk (command : Command) : IO Disk := do
  let look := fun disk => readPlaces disk [] (Command.places disk command)
  look (← look (← bareDisk))

/-! ## Running -/

def usage : String :=
  "usage: ldk [-v] init [DIRECTORY]\n" ++
  "       ldk [-v] validate [-f FILE] [-a DIRECTORY]\n" ++
  "       ldk [-v] inspect [-f FILE] [-a DIRECTORY] [--json]\n" ++
  "       ldk [-v] plan [-f FILE] [-a DIRECTORY] [--sequential]\n"

/-- Makes the directories that a command has made. -/
def makeFolders (disk : Disk) : List Path → IO Unit
  | [] => return
  | path :: rest => do
    if disk.isDirectory path then IO.FS.createDirAll path.text
    makeFolders disk rest

/-- Writes the files that a command has made. -/
def writeFiles (disk : Disk) : List Path → IO Unit
  | [] => return
  | path :: rest => do
    if let .ok content := disk.readBytes path then IO.FS.writeBinFile path.text content
    writeFiles disk rest

/-- Shows why the program fails. -/
def fail (reason : String) : IO UInt32 := do
  IO.eprintln ("error: " ++ reason)
  return 1

/-- Runs the program; the result is its exit code. -/
def run (args : List String) : IO UInt32 := do
  match Command.ofArguments? args with
  | none =>
    IO.eprint usage
    return 2
  | some command =>
    let done := Command.run (← readDisk command) command
    for warning in done.warnings do IO.eprintln ("WARN " ++ warning.message)
    IO.eprint done.value.complaints
    try
      makeFolders done.value.disk command.folders
      match done.value.result with
      | .error failure => fail failure.message
      | .ok _ =>
        writeFiles done.value.disk command.products
        IO.print done.value.output
        return 0
    catch fault => fail fault.toString

end LocalCloud.Program

/-- Runs the command of the command line. -/
def main (args : List String) : IO UInt32 := LocalCloud.Program.run args
