import StackAsm.Host.Request
import StackAsm.Host.Path

/-!
Writing an image file in such a way that nobody ever sees a part of it: the bytes go to a
temporary file beside it, which takes its place when it is complete.
-/

namespace StackAsm.ImageFile

def extension : String := "slim"

/-- Where the image of an input goes: to the path that was asked for, or else beside the input. -/
def pathFor (input : String) (output? : Option String) : String :=
  output?.getD (Path.withExtension input extension)

/-- The file that holds an image until it is complete. -/
def temporary (path : String) : String :=
  path ++ ".tmp"

/-- Offers bytes until all have been taken. The system may take fewer than it is offered, but not
none. -/
def writeAll (path : String) (bytes : List UInt8) : FileDialogue (Except SystemError Unit) :=
  if _ : bytes = [] then .done (.ok ())
  else
    .ask (.write path bytes) fun reply =>
      match reply with
      | .error error => .done (.error error)
      | .ok taken =>
          if taken = 0 then .done (.error .nothingWritten) else writeAll path (bytes.drop taken)
termination_by bytes.length
decreasing_by
  have := List.length_pos_iff.mpr ‹bytes ≠ []›
  simp only [List.length_drop]
  omega

/-- Makes a file with the given bytes, and waits until they are stored. -/
def writeNew (path : String) (bytes : List UInt8) : FileDialogue (Except SystemError Unit) := do
  match ← Dialogue.perform (FileRequest.create path) with
  | .error error => return .error error
  | .ok () =>
      match ← writeAll path bytes with
      | .error error => return .error error
      | .ok () => Dialogue.perform (FileRequest.synchronize path)

/-- Writes the temporary file and puts it in its place. -/
def replace (path : String) (bytes : List UInt8) : FileDialogue (Except SystemError Unit) := do
  match ← writeNew (temporary path) bytes with
  | .error error => return .error error
  | .ok () => Dialogue.perform (FileRequest.rename (temporary path) path)

/-- Writes an image. After a failure the temporary file is removed, as far as that is possible. -/
def write (path : String) (bytes : List UInt8) : FileDialogue (Except SystemError Unit) := do
  match ← replace path bytes with
  | .ok () => return .ok ()
  | .error error =>
      let _ ← Dialogue.perform (FileRequest.remove (temporary path))
      return .error error

end StackAsm.ImageFile
