import TemplateActions.CommandLine.Run

/-!
The program `tplc`. It takes the files that a run needs from the file system and hands them over.
-/
namespace TemplateActions.CommandLine

def installedVersion : Option String := some "0.1.0"

def debugVariable : String := "TPLC_DEBUG"

def readFiles (d : Directory) : List FileName → IO Directory
  | [] => pure d
  | name :: rest => do
    let bytes? ← (IO.FS.readBinFile name.text).toBaseIO
    match bytes? with
    | .ok bytes => readFiles (d.addFile name bytes.toList) rest
    | .error _ => readFiles d rest

def filesOf (args : List String) : List FileName :=
  match parse args with
  | .ok (.run invocation) => invocation.files
  | _ => []

def execute (args : List String) : IO UInt32 := do
  let location ← IO.currentDir
  let debug ← IO.getEnv debugVariable
  let directory ← readFiles ⟨.ofText location.toString, []⟩ (filesOf args)
  match run installedVersion directory debug args with
  | .ok output =>
    (← IO.getStderr).putStr output.stderr
    (← IO.getStdout).putStr output.stdout
    return output.code.toUInt32
  | .error _ =>
    (← IO.getStderr).putStr "tplc: the run cannot be finished\n"
    return 1

end TemplateActions.CommandLine

def main (args : List String) : IO UInt32 := TemplateActions.CommandLine.execute args
