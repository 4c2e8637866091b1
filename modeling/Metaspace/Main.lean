import Metaspace.CommandLine.Scenario

set_option autoImplicit false

namespace Metaspace

def directoryCode : UInt32 := 21

def readNode? (path : String) : IO (Option FileNode) := do
  try
    return some (.file (← IO.FS.readBinFile path))
  catch
    | .inappropriateType _ code _ => return if code = directoryCode then some .directory else none
    | _ => return none

def readTree (path : String) : IO FileTree := do
  let parts := path.toList.splitOn '/'
  let mut tree := FileTree.empty
  for n in List.range parts.length do
    let known := String.ofList (List.intercalate ['/'] (parts.take (n + 1)))
    if let some node ← readNode? known then tree := tree.insert known node
  return tree

def Invocation.readFiles : Invocation → IO FileTree
  | .run options => options.file?.elim (pure .empty) readTree
  | _ => return .empty

def Invocation.explain : Invocation → IO Unit
  | .run _ => return
  | .help => IO.println usage
  | .version => IO.println "metaspace 0.1.0"
  | .misuse => IO.eprintln usage

end Metaspace

open Metaspace

def main (args : List String) : IO UInt32 := do
  let invocation := Invocation.ofArguments args
  invocation.explain
  let completion := invocation.complete (← invocation.readFiles)
  for line in completion.log do
    IO.println (line.level.name ++ " " ++ line.text)
  for line in completion.report do
    IO.eprintln line
  return UInt32.ofNat completion.exitCode
