import EventCamera.Replay

/-! # The program -/

namespace EventCamera

def StorageError.ofDisk : IO.Error → StorageError
  | .noFileOrDirectory .. => .missing
  | .inappropriateType _ 20 _ => .notDirectory
  | .inappropriateType _ 21 _ => .isDirectory
  | .resourceExhausted _ 28 _ => .noSpace
  | .invalidArgument _ 36 _ => .nameTooLong
  | e => .other (toString e)

/-- Does something with a file and keeps the failure, if there is one. -/
def onDisk {α : Type} (act : IO α) : IO (Except StorageError α) := do
  try
    return .ok (← act)
  catch e =>
    return .error (.ofDisk e)

def filesOnDisk : Files IO where
  Handle := IO.FS.Handle
  check path := onDisk do discard <| IO.FS.Handle.mk path .read
  create path := onDisk <| IO.FS.Handle.mk path .write
  source path size := do
    match ← onDisk (IO.FS.readBinFile path) with
    | .ok bytes => return .ofBytes size bytes.toList
    | .error _ => return { pieces := [.lost] }
  write handle text := onDisk do
    handle.putStr text
    handle.flush
    return handle

end EventCamera

def main (arguments : List String) : IO UInt32 := do
  let report ← EventCamera.CommandLine.execute EventCamera.filesOnDisk arguments
  report.output.forM fun line => IO.println line
  report.messages.forM fun line => IO.eprintln line
  return .ofNat report.status
