import LuaDump.Command

/-! # The executable -/

namespace LuaDump.Command

/-- A duration in nanoseconds as seconds with six places. -/
def secondsText (nanoseconds : Nat) : String :=
  let micros := (nanoseconds + 500) / 1000
  let places := toString (micros % 1000000)
  toString (micros / 1000000) ++ "." ++
    String.ofList (List.replicate (6 - places.length) '0') ++ places

/-- Print a report and write its file. -/
def Report.deliver (report : Report) : IO UInt32 := do
  IO.eprint report.stderr
  IO.print report.stdout
  match report.output with
  | some (path, .ok bytes) => IO.FS.writeBinFile path (ByteArray.mk bytes.toArray)
  | some (_, .error e) => throw (IO.userError (e.message.getD "integer out of range"))
  | none => pure ()
  IO.print report.closing
  return UInt32.ofNat report.exitCode

/-- Decode the file of an invocation and report on it. -/
def Invocation.perform (invocation : Invocation) : IO UInt32 := do
  let content ← IO.FS.readBinFile invocation.file
  let start ← IO.monoNanosNow
  let outcome := decode invocation.options content.data
  let finish ← IO.monoNanosNow
  (invocation.report (secondsText (finish - start)) outcome).deliver

end LuaDump.Command

open LuaDump.Command in
/-- Run the command with the given arguments. -/
def main (arguments : List String) : IO UInt32 :=
  match request arguments with
  | .run invocation => invocation.perform
  | .help => Report.deliver { exitCode := 0, stdout := helpText }
  | .misuse => Report.deliver { exitCode := 2, stderr := usageText }
