import Lox.Command.Basic

namespace Lox.Main

def readScript (name : String) : IO (Except Failure (List UInt8)) := do
  try
    return .ok (← IO.FS.readBinFile name).toList
  catch
    | .noFileOrDirectory .. => return .error .notFound
    | .inappropriateType .. => return .error .isDirectory
    | e                     => throw e

def put (report : Command.Report) : IO UInt32 := do
  (← IO.getStdout).write ⟨report.output.toArray⟩
  (← IO.getStdout).flush
  (← IO.getStderr).write ⟨report.errors.toArray⟩
  return report.code.toUInt32

def flush (c : Console) : IO Console := do
  (← IO.getStdout).write ⟨c.session.machine.output.taken⟩
  (← IO.getStdout).flush
  (← IO.getStderr).write ⟨c.session.errors.taken⟩
  return { session := { machine := { env := c.session.machine.env } } }

def fail (c : Console) (failure : Failure) : IO UInt32 := do
  put <| Command.conclude (.error failure) (← flush c).session

-- Lines are read byte by byte. A reader that took more than the line would keep what is behind it
-- from the prompts that come later, and a line must be answered before the next one is typed.
partial def readLine (input : IO.FS.Stream) (line : ByteArray) : IO ByteArray := do
  let byte ← input.read 1
  if byte.isEmpty then return line
  if byte.toList = ['\n'.toUInt8] then return line ++ byte
  readLine input (line ++ byte)

partial def converse (c : Console) : IO UInt32 := do
  match c.ask with
  | (false, c) => fail c .sinkFull
  | (true, c)  =>
    let c ← flush c
    let bytes ← readLine (← IO.getStdin) .empty
    match Lines.ofBytes bytes.toList with
    | []        => put { code := 0, output := Utf8.encode ['\n'] }
    | line :: _ =>
      match c.answer Command.fuel line with
      | (.error failure, c) => fail c failure
      | (.ok _, c)          => converse (← flush c)

end Lox.Main

def main (args : List String) : IO UInt32 := do
  match Lox.Command.Request.ofArguments {} args with
  | .perform { script := some name, dump, print } =>
    let bytes ← Lox.Main.readScript name
    Lox.Main.put <| Lox.Command.perform ⟨some name, dump, print⟩ (fun _ => bytes) []
  | .perform _ => Lox.Main.converse {}
  | request    => Lox.Main.put <| Lox.Command.respond request (fun _ => .error .notFound) []
