import TextGrammar.Command.Generate

/-!
# The program

The command on a real console.
-/
namespace TextGrammar.Command

def reason : IO.Error → String
  | .noFileOrDirectory .. => "No such file or directory"
  | .inappropriateType _ _ details | .permissionDenied _ _ details | .otherError _ details =>
    details.capitalize
  | error => toString error

def readBytes (file : String) : IO (Except String ByteArray) := do
  try
    return .ok (← IO.FS.readBinFile file)
  catch error =>
    return .error (reason error)

/-- Milliseconds with three places. -/
def milliseconds (nanoseconds : Nat) : String :=
  let microseconds := nanoseconds / 1000
  let places := toString (1000 + microseconds % 1000)
  toString (microseconds / 1000) ++ "." ++ (places.drop 1).toString ++ "ms"

def randomSeed : IO Int := do
  let bytes ← IO.getRandomBytes 16
  return (bytes.foldl (fun total byte => 256 * total + byte.toNat) 0 : Nat)

def systemConsole : IO (Console IO) := do
  let output ← IO.getStdout
  let errors ← IO.getStderr
  let last ← IO.mkRef (← IO.monoNanosNow)
  return {
    out := output.putStr
    err := errors.putStr
    lap := do
      let now ← IO.monoNanosNow
      let before ← last.modifyGet fun before => (before, now)
      return milliseconds (now - before)
    isTerminal := ← errors.isTty
    load := readBytes
    entropy := randomSeed }

/-- A run is given up only after more steps than there is time for. -/
def patience : Nat := 0x4000000000000000

end TextGrammar.Command

open TextGrammar.Command in
def main (arguments : List String) : IO UInt32 := do
  let console ← systemConsole
  match ← run console arguments patience with
  | .code number => return number.toUInt32
  | .undecodable =>
    console.err "The grammar file is not valid UTF-8.\n"
    return 1
  | .blank flag =>
    console.errLine ("The option " ++ flag.label ++ " has no value.")
    return 1
  | .unfinished => return 1
