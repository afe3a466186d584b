import ScriptLang.CommandLine

set_option autoImplicit false

/-! # The program

Reads what the command needs to know, calls `CommandLine.execute` and writes what it says. There is
no table of the names of characters here, so escape sequences with names are refused. -/

namespace ScriptLang.CommandLine

/-- Looks where a path leads. Nothing lies below a file; what else exists and cannot be read as a
file counts as a directory. -/
def look (files : Directory) (path : Path) : IO Directory := do
  if files.files.any fun (name, _) => path.passes (Path.ofText name) then return files
  try
    let content ← IO.FS.readFile path.text
    return files.write path.text content
  catch
    | .noFileOrDirectory .. => return files
    | _ => return { files with directories := path :: files.directories }

/-- The rest of the standard input. -/
partial def readAll (stream : IO.FS.Stream) (text : String) : IO String := do
  let line ← stream.getLine
  if line.isEmpty then return text else readAll stream (text ++ line)

end ScriptLang.CommandLine

open ScriptLang ScriptLang.CommandLine in
/-- Executes the command. Input is read only if the program asks for some. -/
def main (arguments : List String) : IO UInt32 := do
  let mut table : Bindings String := []
  for key in ["PTBR_RECURSION_LIMIT", "PTBR_STRICT_DEFINITIONS", "PTBR_DEBUG"] do
    if let some text ← IO.getEnv key then
      table := table.insert key text
  let environment (key : String) : Option String := table.find? key
  let mut files : Directory := {}
  if let .ok options := parseArguments arguments then
    for text in options.program.toList ++ options.debugFile.toList do
      let path := Path.ofText text
      files ← look (← look files path.parent) path
  let mut report := execute Text.unnamed environment files none arguments
  if report.lacksInput then
    report := execute Text.unnamed environment files (some (← readAll (← IO.getStdin) "")) arguments
  IO.print report.output
  IO.eprint report.errors
  for (name, content) in report.files.files do
    if files.files.find? name ≠ some content then
      IO.FS.writeFile name content
  match report.outcome with
  | .ok status => return status.toUInt32
  | .error failure =>
    if let .fault fault := failure then
      IO.eprintln ((fault.message?).getD "the program cannot be run")
    return 1
