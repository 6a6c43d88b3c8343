import Imperativo.CommandLine.Session
import Imperativo.Viewer.App

/-!
# The program

The command line around the library: it reads the file, prints the session and sets the exit code.
With `--tui` the screen is drawn again after every key, and the keys come from standard input, one
name a line.
-/

namespace Imperativo

/-- The contents of a file, if it can be read. -/
def readContents (path : Text) : IO (Option ByteArray) := do
  try
    return some (← IO.FS.readBinFile (String.ofList path))
  catch _ =>
    return none

/-- Draws the viewer, takes keys and draws again, until the viewer is finished or there are no more
keys. -/
partial def interact (keys : IO.FS.Stream) (app : App) : IO Unit := do
  let (drawing, app) := app.draw 100 30
  for row in drawing do
    IO.println (String.ofList row.text)
  let name ← keys.getLine
  if name.isEmpty then return ()
  match Key.ofName? (name.toList.takeWhile (· != '\n')) with
  | none => interact keys app
  | some key =>
    let app := app.press key
    if app.finished then return () else interact keys app

/-- Runs the program with accepted options and gives the exit code. -/
def execute (o : Options) : IO UInt32 := do
  let contents ← readContents o.file
  let session := Session.ofContents o contents
  IO.print (String.ofList session.output)
  if let (some path, some dot) := (o.dot, session.dotFile) then
    IO.FS.writeFile (String.ofList path) (String.ofList dot)
  match contents.bind String.fromUTF8? with
  | none => IO.eprintln s!"could not read {String.ofList o.file}"
  | some source =>
    if o.has .tui then
      interact (← IO.getStdin) (App.ofSource o.settings source.toList o.file)
  return session.exitCode.toUInt32

end Imperativo

open Imperativo in
/-- Runs the program with the arguments of the command line. -/
def main (arguments : List String) : IO UInt32 := do
  match Options.parse (arguments.map String.toList) with
  | .error problem =>
    IO.eprintln problem.text
    return (Session.refusalCode problem).toUInt32
  | .ok o => execute o
