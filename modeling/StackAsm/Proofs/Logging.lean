import Mathlib
import StackAsm.Command.Assembler
import StackAsm.Proofs.Mishaps

namespace StackAsm.Assembler

open FileTree

/-- A request makes, changes or removes no file but the log. -/
def ChangesLog (logger : Logger) (request : FileRequest) : Prop :=
  ∀ path ∈ request.changes, logger.file? = some path

theorem log_asks (logger : Logger) (record : LogRecord) :
    (log logger record).Asks (ChangesLog logger) := by
  rw [log]
  split
  case isTrue =>
    refine .bind (.of_perform (by simp [ChangesLog, FileRequest.changes])) fun stamp => ?_
    refine .bind (.of_perform (by simp [ChangesLog, FileRequest.changes])) fun _ => ?_
    split
    case h_1 => exact .of_pure
    case h_2 path hlog => exact .of_perform (by simp [ChangesLog, FileRequest.changes, hlog])
  case isFalse => exact .of_pure

theorem logAll_asks (logger : Logger) (records : List LogRecord) :
    (logAll logger records).Asks (ChangesLog logger) := by
  induction records with
  | nil => exact .of_pure
  | cons record records ih => exact .bind (log_asks logger record) fun _ => ih

theorem openLog_asks (logger : Logger) :
    (openLog logger).Asks (ChangesLog logger) := by
  rw [openLog]
  split
  case h_1 => exact .of_pure
  case h_2 path hlog => exact .of_perform (by simp [ChangesLog, FileRequest.changes, hlog])

/-- Where the log is. -/
def logPlaces (tree : FileTree) (working : List String) (logger : Logger) :
    Set (List String) :=
  {location | ∃ path, logger.file? = some path ∧ tree.fileAt? working path = some location}

section Places

variable {tree : FileTree} {working : List String} {logger : Logger}

theorem within_logPlaces {α : Type} {dialogue : FileDialogue α}
    (h : dialogue.Asks (ChangesLog logger)) :
    dialogue.Asks (tree.ChangesWithin working (logPlaces tree working logger)) :=
  h.mono fun _ hchanges path hpath _ hlocation => ⟨path, hchanges path hpath, hlocation⟩

theorem avoids_logPlaces {log path : String} (hlog : logger.file? = some log)
    (hne : tree.fileAt? working path ≠ tree.fileAt? working log) :
    tree.Avoids working path (logPlaces tree working logger) := by
  rintro location hlocation ⟨other, hother, hplace⟩
  cases hlog.symm.trans hother
  exact hne (hlocation.trans hplace.symm)

end Places

end StackAsm.Assembler
