import Sangria.CommandLine.Command

/-!
# The program

Reads the bytes that the command asks for, and does what its reply says.
-/

open Sangria

/-- The bytes of an array. -/
def bytesOf (b : ByteArray) : List Nat :=
  b.toList.map (·.toNat)

/-- Everything on a stream, behind what was read before. -/
partial def readAll (s : IO.FS.Stream) (before : ByteArray) : IO ByteArray := do
  let chunk ← s.read 65536
  if chunk.isEmpty then return before else readAll s (before ++ chunk)

/-- A failure to open or read a file, as far as the command tells them apart. -/
def accessFault : IO.Error → AccessFault
  | .noFileOrDirectory .. => .missing
  | .inappropriateType .. => .behindFile
  | .resourceExhausted .. => .longName
  | _ => .folder

/-- The bytes at a path, or those of the standard input. -/
def readBytes : Option String → IO (Except InputFault (List Nat))
  | none => do
    let bytes ← readAll (← IO.getStdin) .empty
    return .ok (bytesOf bytes)
  | some path => do
    if path.toList.contains '\x00' then return .error .null
    try
      let bytes ← IO.FS.readBinFile path
      return .ok (bytesOf bytes)
    catch e => return .error ((accessFault e).toInputFault path)

/-- The command with what it read. -/
def main (args : List String) : IO UInt32 := do
  let path := (Options.ofArgs? args).bind (·.path)
  let bytes ← if (Options.ofArgs? args).isSome then readBytes path else pure (.error .missing)
  -- the output is encoded, so what is written on it holds characters only
  let reply := command (fun _ ↦ bytes) args ⟨0, .utf8⟩
  IO.print (String.ofList reply.stdout.chars)
  IO.eprint reply.stderr
  match reply.exit with
  | .code n => return n.toUInt32
  | .escaped e =>
    IO.eprintln e.message
    return 1
