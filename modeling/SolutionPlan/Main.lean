import SolutionPlan.CommandLine
import SolutionPlan.FileSystem.Disk

/-!
# The program

The arguments are those of the command line. Standard input names the files and directories that a
build can see, one path a line, with a slash behind the path of a directory. Reports go to standard
output and a complaint to standard error.
-/

namespace SolutionPlan.Listing

partial def readLines (stream : IO.FS.Stream) (found : Array String) : IO (Array String) := do
  let line ← stream.getLine
  if line.isEmpty then return found
  else
    let kept := line.toList.filter fun c => c != '\n' && c != '\r'
    readLines stream (found.push (String.ofList kept))

/-- Puts what stands at the path on the disk, if it is still there. -/
def addListed (workingDirectory : Path) (disk : Disk) (line : String) : IO Disk := do
  let path := workingDirectory.join ⟨line⟩
  if line.isEmpty then return disk
  else if line.toList.getLast? = some '/' then return disk.addAt path .directory
  else
    try
      let bytes ← IO.FS.readBinFile line
      match String.fromUTF8? bytes with
      | some text => return disk.addAt path (.file text)
      | none => return disk.addAt path (.unreadable .notText)
    catch
      | .permissionDenied .. => return disk.addAt path (.unreadable .permissionDenied)
      | _ => return disk

end SolutionPlan.Listing

open SolutionPlan

def main (arguments : List String) : IO UInt32 := do
  let workingDirectory : Path := ⟨toString (← IO.currentDir)⟩
  let lines ← Listing.readLines (← IO.getStdin) #[]
  let disk ← lines.foldlM (Listing.addListed workingDirectory) Disk.empty
  let seed ← IO.rand 0 (BitVec.allOnes 128).toNat
  let fresh (solution project : Nat) := Guid.ofRandom (seed + solution <<< 32 + project)
  let outcome := CommandLine.run disk.fileSystem workingDirectory fresh arguments
  for line in outcome.output do
    IO.println line
  unless outcome.complaint.isEmpty do
    IO.eprintln outcome.complaint
  return outcome.code.toUInt32
