import InfluenceProgram.CommandLine.Execution

/-!
The program: reads the command line, writes the two output streams, and ends with the exit code.
-/

open InfluenceProgram

def secondsText (milliseconds : Nat) : String :=
  Decimal.fixed 2 (Binary64.ofRatio false milliseconds 1000) ++ "s"

def main (args : List String) : IO UInt32 := do
  let start ← IO.monoMsNow
  let execution ← IO.lazyPure fun _ => CommandLine.execute args
  let stop ← IO.monoMsNow
  match execution >>= CommandLine.Execution.result (secondsText (stop - start)) with
  | .ok result =>
    IO.print result.stdout
    IO.eprint result.stderr
    return UInt32.ofNat result.exit
  | .error fault =>
    IO.eprintln fault.message
    return 1
