/-
  LineShell.Machine.Call

  The calls on the system that involve no process of the shell's own: pipes,
  files, the working directory, signals, handlers and output.

  A call that the system answers causes one event, also where the answer is a
  failure.  A call that is refused before it reaches the system causes none.
-/

import LineShell.Action.Basic

namespace LineShell.Machine

/-- Whether a path or an argument holds a null character. -/
def hasNull (s : String) : Bool :=
  s.toList.contains '\x00'

/-! ## Pipes -/

/-- Asks for a pipe; gives its read end and its write end. -/
def pipe : Action Machine (Descriptor × Descriptor) := do
  let m ← .get
  .modify fun m => { m with pipeCalls := m.pipeCalls + 1 }
  match (← .host).pipeFailures m.pipeCalls with
  | some f =>
    .emit .pipeFailed
    .fail f
  | none =>
    let readEnd := m.nextDescriptor
    .modify fun m => { m with nextDescriptor := readEnd + 2 }
    .emit (.pipe readEnd (readEnd + 1))
    pure (readEnd, readEnd + 1)

/-- Closes the end of a pipe. -/
def close {σ : Type} (fd : Descriptor) : Action σ Unit :=
  .emit (.close fd)

/-! ## Files -/

/-- How opening the path fails: as the host says, or because a file that is to be
    read does not exist. -/
def openFailure? (host : Host) (m : Machine) (path : String) (mode : OpenMode) :
    Option Failure :=
  match host.openFailures path with
  | some f => some f
  | none => if mode = .read ∧ path ∉ m.files then some .noSuchFile else none

/-- Opens a file; from then on it exists. -/
def openFile (path : String) (mode : OpenMode) : Action Machine Unit := do
  if hasNull path then .fail .embeddedNull
  -- A file that cannot be opened does not come to exist either.
  match openFailure? (← .host) (← .get) path mode with
  | some f =>
    .emit (.openFile path mode false)
    .fail f
  | none =>
    .modify fun m => { m with files := path :: m.files }
    .emit (.openFile path mode true)

/-- Closes a file. -/
def closeFile {σ : Type} (path : String) : Action σ Unit :=
  .emit (.closeFile path)

/-! ## The working directory -/

/-- Changes the working directory. -/
def changeDirectory (path : String) : Action Machine Unit := do
  if hasNull path then .fail .embeddedNull
  match ((← .host).directories path).getD (.error .noSuchFile) with
  | .error f =>
    .emit (.chdir path false)
    .fail f
  | .ok cwd =>
    .modify fun m => { m with cwd := cwd }
    .emit (.chdir path true)

/-- The working directory. -/
def workingDirectory : Action Machine String := do
  match (← .host).cwdFailure with
  | some f => .fail f
  | none => pure (← .get).cwd

/-! ## Signals -/

/-- The largest number that a process can have. -/
def maxPid : Int := 2147483647

/-- Why a number is too large for any process: it does not fit the type of
    process numbers, or no integer type of the system at all. -/
def pidOverflow? (pid : Int) : Option Failure :=
  if pid ≤ maxPid then none
  else if pid ≤ 9223372036854775807 then
    some (.fault .overflow "signed integer is greater than maximum")
  else some (.fault .overflow "Python int too large to convert to C long")

/-- Sends a signal to a process. -/
def kill (pid signum : Int) : Action Machine Unit := do
  match pidOverflow? pid with
  | some f => .fail f
  | none =>
    match ((← .host).targets pid).getD (some .noSuchProcess) with
    | some f =>
      .emit (.kill pid signum false)
      .fail f
    | none => .emit (.kill pid signum true)

/-- Puts a handler in place for a signal; gives the one that was there. -/
def install (signum : Int) (handler : Signal.Handler) : Action Machine Signal.Handler := do
  let m ← .get
  .modify fun m => { m with installCalls := m.installCalls + 1 }
  match (← .host).installFailures m.installCalls with
  | some f =>
    .emit (.signal signum handler false)
    .fail f
  | none =>
    .modify fun m => { m with handler := handler }
    .emit (.signal signum handler true)
    pure m.handler

/-! ## Output -/

/-- Writes a text, which stays in the buffer of the stream. -/
def write (stream : OutputStream) (text : String) : Action Machine Unit := do
  .modify fun m => m.setBuffer stream (m.buffer stream ++ text)
  .emit (.write stream text)

/-- Hands the buffer of the stream on; an empty one causes no event. -/
def flush (stream : OutputStream) : Action Machine Unit := do
  let text := (← .get).buffer stream
  if text.isEmpty then pure ()
  else
    .modify fun m => m.setBuffer stream ""
    .emit (.out stream text)

end LineShell.Machine
