import KeyAudit.Command.Program
import KeyAudit.Disk.Edit

namespace KeyAudit.Main

open Command

def place? (loc : Location) : Option String :=
  if loc.contains [] then none else Text.ofUtf8? (Disk.absolutePath loc).bytes

/-- Only where a link leads to matters. The target of a link is recorded as the place that it leads to,
and the target of a stray link as a path that fails in the same way. -/
def linkTarget (program : String) (here : String) : IO Path := do
  try
    let _ ← ((← IO.appPath) / here).metadata
    return Path.ofString (← IO.FS.realPath here).toString
  catch
    | .noFileOrDirectory .. => return ⟨[]⟩
    | .inappropriateType .. => return Path.ofString (program ++ "/")
    | _ => return Path.ofString here

def entryAt? (program : String) (content : Bool) (loc : Location) : IO (Option Entry) := do
  let some here := place? loc | return none
  try
    match (← ((← IO.appPath) / here).symlinkMetadata).type with
    | .dir => return some .directory
    | .symlink => return some (.link (← linkTarget program here))
    | .file =>
      if content then return some (.file (← IO.FS.readBinFile here).data.toList)
      else return some (.file [])
    | .other => return some .device
  catch _ => return none

def record (program : String) (content : Bool) (loc : Location) (d : Disk) : IO Disk := do
  match d.at? loc with
  | none | some (.file []) =>
    match ← entryAt? program content loc with
    | some e => return d.put loc e
    | none => return d
  | some _ => return d

partial def recordAlong (program : String) (content : Bool) (links : Nat) (loc : Location) :
    List Bytes → Disk → IO Disk
  | [], d => return d
  | part :: rest, d => do
    if Path.isVoid part then recordAlong program content links loc rest d
    else if part = [Path.dot, Path.dot] then recordAlong program content links loc.tail rest d
    else
      let d ← record program content (part :: loc) d
      match d.at? (part :: loc), links with
      | some .directory, _ => recordAlong program content links (part :: loc) rest d
      | some (.link target), links + 1 =>
        recordAlong program content links (if target.isAbsolute then [] else loc)
          (Disk.pathParts target ++ rest) d
      | _, _ => return d

def recordPath (program : String) (content : Bool) (p : Path) (d : Disk) : IO Disk :=
  recordAlong program content (Disk.linkLimit + 1) (if p.isAbsolute then [] else d.here)
    (Disk.pathParts p) d

partial def recordTree (program : String) (settings : Settings) (loc : Location)
    (state : Disk × List Location) : IO (Disk × List Location) := do
  let (d, visited) := state
  if visited.contains loc then return state
  let some here := place? loc | return state
  let names ← try
      pure ((← ((← IO.appPath) / here).readDir).toList.map fun e ↦ Text.utf8 e.fileName)
    catch _ => pure []
  names.foldlM (fun (state : Disk × List Location) n ↦ do
    let path := Disk.absolutePath (n :: loc)
    let d ← recordPath program (settings.selects path) path state.1
    match d.locate true path with
    | .ok target =>
      if d.at? target = some .directory then recordTree program settings target (d, state.2)
      else return (d, state.2)
    | .error _ => return (d, state.2)) (d, loc :: visited)

/-- A disk of which only the current directory is known. One that has been removed has no path, and
counts as one that was below the root. -/
def emptyImage : IO Disk := do
  try
    let here := Disk.pathParts (Path.ofString (← IO.currentDir).toString)
    return ⟨[], (here.filter (!Path.isVoid ·)).reverse⟩
  catch _ => return ⟨[([[]], .directory)], [[]]⟩

def image (program : String) (q : Request) : IO Disk := do
  let d ← emptyImage
  let d ← recordPath program false (Disk.absolutePath d.here) d
  let d ← recordPath program true (Path.ofString program) d
  let d ← recordPath program false q.path d
  let w : Surroundings := { disk := d, program := Path.ofString program }
  let d ← (w.searchStart q).ancestors.foldlM (fun d dir ↦ do
    let d ← recordPath program true (dir.join Settings.fileName) d
    recordPath program false (dir.join Settings.projectMark) d) d
  let settings := match Settings.load d (w.searchStart q) with
    | .ok loaded => loaded.settings
    | .error _ => {}
  let d ← recordPath program true ({ w with disk := d }.template q) d
  let d ← recordPath program true (q.path.join settings.entryFile) d
  match d.locate true q.path with
  | .ok loc => return (← recordTree program settings loc (d, [])).1
  | .error _ => return d

def print (exit : Sink → Exit) : IO UInt32 := do
  let last ← try
      let stdout ← IO.getStdout
      stdout.write ⟨(exit {}).stdout.toArray⟩
      stdout.flush
      pure (exit {})
    catch
      | .resourceVanished .. => pure (exit { room := some 0, failure := .closed })
      | _ => pure (exit { room := some 0 })
  (← IO.getStderr).putStr last.stderr
  return last.code.toUInt32

end KeyAudit.Main

open KeyAudit Command in
def main (as : List String) : IO UInt32 := do
  let program ← IO.appPath
  let disk ← match Request.ofArguments as with
    | .ok q => KeyAudit.Main.image program.toString q
    | .error _ => pure ⟨[], []⟩
  let wish : ColorWish :=
    { force := ← IO.getEnv "CLICOLOR_FORCE"
      ban := ← IO.getEnv "NO_COLOR"
      choice := ← IO.getEnv "CLICOLOR"
      terminal := ← (← IO.getStdout).isTty }
  KeyAudit.Main.print fun stdout ↦
    execute { disk, program := Path.ofString program.toString, stdout, color := wish.notes }
      { name := program.fileName.getD "", arguments := as, styledHelp := wish.help }
