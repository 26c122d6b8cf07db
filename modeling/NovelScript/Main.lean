import NovelScript.Program

/-!
The program on a real console.
-/

namespace NovelScript

/-- What the system says about a file that cannot be read. -/
def readErrorOf : IO.Error → ReadError
  | .noFileOrDirectory .. => .notFound
  | .permissionDenied .. => .permission
  | .inappropriateType _ code _ => if code = 21 then .isDirectory else .notDirectory
  | e => .other (toString e)

/-- Whether there is a file with a path. -/
def fileExists (path : String) : IO Bool := do
  try
    let _ ← IO.FS.Handle.mk path .read
    return true
  catch
    | .noFileOrDirectory .. => return false
    | _ => return true

/-- The text that bytes are. -/
def textOf (bytes : ByteArray) : Except ReadError String :=
  match String.fromUTF8? bytes with
  | some text => .ok text
  | none => .error .notText

/-- The text that an action reads. -/
def readText (action : IO ByteArray) : IO (Except ReadError String) := do
  try return textOf (← action)
  catch e => return .error (readErrorOf e)

/-- All bytes that are left to read. -/
partial def readBytes (input : IO.FS.Stream) (bytes : ByteArray) : IO ByteArray := do
  let more ← input.read 65536
  if more.isEmpty then return bytes else readBytes input (bytes ++ more)

/-- The configuration file of the user, if the environment tells where it is. -/
def userConfigPath : IO (Option String) := do
  match ← IO.getEnv "XDG_CONFIG_HOME" with
  | some folder =>
    if folder.startsWith "/" then return some (folder ++ "/vns/vnsrc") else inHome
  | none => inHome
where
  /-- The place in the home folder. -/
  inHome : IO (Option String) := do
    return (← IO.getEnv "HOME").map (· ++ "/.config/vns/vnsrc")

/-- The world of a running program. A line stands for a key. -/
def systemWorld : IO (World IO) := do
  let input ← IO.getStdin
  let output ← IO.getStdout
  let messages ← IO.getStderr
  return {
    namedConfig := ← IO.getEnv "VNSRC"
    userConfig := ← userConfigPath
    inputIsTerminal := ← input.isTty
    outputIsTerminal := ← output.isTty
    exists? := fileExists
    fileText := fun path => readText (IO.FS.readBinFile path)
    inputText := readText (readBytes input .empty)
    write := output.putStr
    complain := messages.putStrLn
    waitKey := do
      output.flush
      let line ← input.getLine
      return if line.startsWith "\x1b" then some "aborted by user" else none
    sleep := fun milliseconds => do
      output.flush
      IO.sleep milliseconds.toUInt32 }

end NovelScript

open NovelScript in
/-- Runs the program. No script executes as many commands as it may. -/
def main (argv : List String) : IO UInt32 := do
  let world ← systemWorld
  Program.run world 0x4000000000000000 argv
