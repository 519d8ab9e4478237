import WideDeep.Decimal.Places
import WideDeep.Frame.Reader
import WideDeep.Session

/-!
# The command

Reads the files that the command line names, carries out the session, and writes what it leaves.
Column statistics and records are JSON files.
-/

namespace WideDeep.Command

def found? {β : Type} (read : IO β) : IO (Option β) := do
  try
    return some (← read)
  catch _ =>
    return none

def frame? (path : String) : IO (Except Error (Option Frame)) := do
  match ← found? (IO.FS.readFile path) with
  | none => return .ok none
  | some content => return some <$> Frame.ofText .scanned content

def bytes? (path : String) : IO (Option Bytes) := do
  return (← found? (IO.FS.readBinFile path)).map (·.data.toList)

def sources (o : Options) : IO (Except Error Sources) := do
  let columns ← found? (IO.FS.readFile o.columns)
  let train ← frame? o.trainData
  let valid ←
    match o.validData with
    | some path => frame? path
    | none => pure (.ok none)
  let checkpoint ←
    match o.checkpoint with
    | some path => bytes? path
    | none => pure none
  return do
    pure ⟨columns, ← train, ← valid, checkpoint⟩

def parent (path : String) : String :=
  String.ofList ((path.toList.reverse.dropWhile (· != '/')).drop 1).reverse

def writeFile (path : String) (content : Bytes) : IO Unit := do
  if !(parent path).isEmpty then IO.FS.createDirAll (parent path)
  IO.FS.writeBinFile path ⟨content.toArray⟩

/-- Write the files of a session: its artifacts, and the model if it has a place of its own. -/
def writeSession (directory : String) (s : Session) : IO Unit := do
  for file in Artifact.ofRun s.setup s.result do
    writeFile s!"{directory}/{file.path}" file.content
  match s.setup.training.modelPath?, s.result.saved with
  | some path, some bytes => writeFile path bytes
  | _, _ => pure ()

def run (o : Options) (directory : String) : IO UInt32 := do
  match ← sources o with
  | .error e =>
    IO.eprintln e.words
    return 1
  | .ok files =>
    let (notices, outcome) := o.run files
    let log := String.join (notices.map fun n => n.line ++ "\n")
    IO.eprint log
    writeFile s!"{directory}/{Session.logPath}" log.toUTF8.data.toList
    match outcome with
    | .error e =>
      IO.eprintln e.words
      return 1
    | .ok session =>
      writeSession directory session
      let h := session.result.history
      IO.eprintln s!"best error {Decimal.fixed 6 h.bestError} at iteration {h.bestIteration}"
      IO.print (Session.closing directory)
      return 0

end WideDeep.Command

open WideDeep

def main (arguments : List String) : IO UInt32 := do
  match CommandLine.parse arguments with
  | .error .helpWanted =>
    IO.println CommandLine.usage
    return 0
  | .error (.usage e) =>
    IO.eprintln CommandLine.usage
    IO.eprintln s!"error: {e.message}"
    return 2
  | .ok o =>
    let base := (TrainingConfig.initial.value .saveDir).plain
    let stamp ← IO.monoMsNow
    Command.run o s!"{base}/exp_{stamp}"
