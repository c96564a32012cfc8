import CodeAudit.Data.Value

/-! Files that live for a moment in a directory of their own, which only their owner may read. -/

namespace CodeAudit.Scratch

structure File where
  text : String
  suffix : String
  mode : String := "0o600"

def stem : String := "temp_0000000000000000"

def anyName : String := "tmp00000000"

def maxName : Nat := 255

def tooLong : Fault := .badPath "File name too long"

/-- The ending of the name of a file that is made outside the directory. It may not lead into
another directory. -/
def suffixOf (suffix : Value) : Outcome String := do
  match suffix with
  | .null => return ""
  | .text s =>
    if s.toList.contains '\x00' then throw (.badValue "embedded null byte")
    let (start, others) := match Text.splitOn '/' (anyName ++ s) with
      | start :: others => (start, others)
      | [] => ("", [])
    if maxName < start.utf8ByteSize then throw tooLong
    match others with
    | [] => return s
    | _ =>
      if others.all (· = "") then throw (.isDirectory "Is a directory")
      else throw .noFile
  | v => throw (.wrongType ("can only concatenate str (not \"" ++ v.kind ++ "\") to str"))

/-- Whether a file can be written at a path, among the directories there are at the root. -/
def checkPlace (directories : List String) (path : String) : Outcome Unit := do
  if path.toList.contains '\x00' then throw (.badValue "embedded null byte")
  if path = "" then throw .noFile
  let way := if Path.isAbsolute path then Path.settle [] (Path.parts path)
    else (Path.parts path).dropWhile (· = "..")
  let (outer, inner) := if Path.isAbsolute path then (way.takeWhile directories.contains,
    way.dropWhile directories.contains) else ([], way)
  if inner.isEmpty then throw (.isDirectory "Is a directory")
  if maxName < (inner.headD "").utf8ByteSize then throw tooLong
  if 1 < inner.length || 1 < outer.length then throw .noFile

def make (suffix content : Value) : Outcome File := do
  let path := stem ++ suffix.display
  let text ← match content with
    | .text s => pure s
    | v => throw (.wrongType ("data must be str, not " ++ v.kind))
  if path.toList.contains '\x00' then throw (.badValue "embedded null byte")
  if maxName < ((Path.parts path).headD "").utf8ByteSize then throw tooLong
  if 1 < (Path.parts path).length then throw .noFile
  return { text := Text.unifyNewlines text, suffix := Path.suffix path }

end CodeAudit.Scratch
