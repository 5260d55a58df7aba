/-
The program: arguments and input in, output and status out.
-/
import Calculator.CommandLine

namespace Calculator

/-- The bytes read so far and all that are left of an input. -/
partial def readInput (input : IO.FS.Stream) (read : ByteArray) : IO ByteArray := do
  let chunk ← input.read 65536
  if chunk.isEmpty then return read
  readInput input (read ++ chunk)

end Calculator

open Calculator

def main (arguments : List String) : IO UInt32 := do
  match Arguments.parse? arguments with
  | none =>
    (← IO.getStderr).putStrLn "usage: [--ext NAME]... [--show-rpn] [--json] [--list] [--] [EXPRESSION]..."
    return CommandLine.usageStatus.toUInt32
  | some a =>
    let input ← if a.list || a.expressions ≠ [] then pure ByteArray.empty
      else readInput (← IO.getStdin) ByteArray.empty
    let outcome := CommandLine.execute a input
    (← IO.getStdout).putStr outcome.output
    (← IO.getStderr).putStr outcome.errorOutput
    return outcome.status.toUInt32
