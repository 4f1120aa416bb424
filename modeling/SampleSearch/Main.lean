import SampleSearch.CommandLine.Run
import SampleSearch.Store.Script
import Std.Time

/-! # The command

Reads the repository in the file that the arguments name, runs them on it, writes what they leave
and ends with their exit code.
-/

namespace SampleSearch

open Std.Time

/-- Characters of the repository in a file; nothing if there is no such file. -/
def readStore (path : Text) : IO (Option Store) := do
  let file := String.ofList path
  let found ← try pure (some (← IO.FS.lines file)) catch _ => pure none
  match found with
  | none => pure none
  | some lines => pure (some ((Store.ofFileText? (lines.toList.map String.toList)).getD .bare))

def twoDigits (n : Int) : Text := Text.padded 2 n.toNat

/-- A moment in coordinated universal time, with its fraction of a second. -/
def timestampText (t : Timestamp) : Text :=
  let m := PlainDateTime.ofWallTime (WallTime.ofNanoseconds t.toNanosecondsSinceUnixEpoch)
  let day := Text.ofInt m.year.toInt ++ '-' :: twoDigits m.month.toInt ++ '-' ::
    twoDigits m.day.toInt
  let clock := twoDigits m.hour.val ++ ':' :: twoDigits m.minute.val ++ ':' ::
    twoDigits m.second.val
  day ++ 'T' :: clock ++ '.' :: Text.padded 9 m.nanosecond.val.toNat ++ "+00:00".toList

def hexText (n : Nat) : Text := Nat.toDigits 16 n

def newStamp : IO Stamp := do
  let now ← Timestamp.now
  let run ← IO.rand 1 65535
  pure ⟨hexText now.toSecondsSinceUnixEpoch.val.toNat ++ '-' :: hexText run, timestampText now⟩

end SampleSearch

open SampleSearch in
def main (arguments : List String) : IO UInt32 := do
  let request := Request.ofArguments (arguments.map String.toList)
  let file ← match request.path? with
    | none => pure none
    | some path => readStore path
  let result := request.result (← newStamp) file
  match request.path?, file, result.store with
  | _, some (.ready _), _ => pure ()
  | some path, _, some store =>
    IO.FS.writeFile (String.ofList path) (String.ofList store.fileText)
  | _, _, _ => pure ()
  IO.print (String.ofList result.output)
  IO.eprint (String.ofList result.errors)
  pure (UInt32.ofNat result.exitCode)
