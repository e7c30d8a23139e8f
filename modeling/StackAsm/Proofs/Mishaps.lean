import Mathlib
import StackAsm.Host.Machine
import StackAsm.Proofs.AlikeTrees
import StackAsm.Proofs.Runs

/-!
Systems in which any request may fail. Only what a reply says for certain can be relied on: an error
may come after a part of a write has been stored or a file has been opened, and it may come for no
reason that can be seen in the tree. A write that is merely interrupted is repeated below the level
of requests and is no error here. It is assumed that renaming is done as a whole or not at all.
-/

namespace StackAsm

/-- The paths of the files that a request may make, change or remove. -/
def FileRequest.changes : FileRequest → List String
  | openLog path | appendLog path _ | create path | write path _ | remove path => [path]
  | rename path newPath => [path, newPath]
  | timeStamp | print _ | openInput _ | readInput _ | synchronize _ => []

/-- No error is reported. A write of which nothing is taken counts as one. -/
def FileRequest.Succeeds : (request : FileRequest) → request.Reply → Prop
  | timeStamp, _ | appendLog _ _, _ => True
  | print _, reply | openLog _, reply | openInput _, reply | create _, reply
  | synchronize _, reply | rename _ _, reply | remove _, reply => reply = .ok ()
  | readInput _, reply => ∃ content, reply = .ok content
  | write _ _, reply => ∃ taken, taken ≠ 0 ∧ reply = .ok taken

namespace FileTree

/-- A change to a tree that has taken place if the reply says so, and perhaps even otherwise. -/
def Attempts (tree : FileTree) (outcome : Except SystemError FileTree) :
    Except SystemError Unit → FileTree → Prop
  | .ok (), after => outcome = .ok after
  | .error _, after => after = tree ∨ outcome = .ok after

/-- What a system may reply to a request and make of the tree meanwhile. -/
def Permits (working : List String) (tree : FileTree) :
    (request : FileRequest) → request.Reply → FileTree → Prop
  | .timeStamp, _, after => after = tree
  | .print _, _, after => after = tree
  | .openLog path, reply, after => tree.Attempts (tree.openForWriting working path id) reply after
  | .appendLog path text, _, after =>
      ∃ count, after = tree.append working path ((Text.encode text).take count)
  | .openInput path, reply, after =>
      after = tree ∧ (reply = .ok () → ∃ found, tree.find working path = .ok found)
  | .readInput path, reply, after =>
      after = tree ∧ ∀ content, reply = .ok content → tree.read working path = .ok content
  | .create path, reply, after =>
      tree.Attempts (tree.openForWriting working path fun _ => []) reply after
  | .write path bytes, reply, after =>
      ∃ count, count ≤ bytes.length ∧ (∀ taken, reply = .ok taken → taken = count) ∧
        after = tree.append working path (bytes.take count)
  | .synchronize _, _, after => after = tree
  | .rename path newPath, .ok (), after => tree.rename working path newPath = .ok after
  | .rename _ _, .error _, after => after = tree
  | .remove path, reply, after => tree.Attempts (tree.remove working path) reply after

/-- A request makes, changes or removes no files but those at the places. -/
def ChangesWithin (tree : FileTree) (working : List String) (places : Set (List String))
    (request : FileRequest) : Prop :=
  ∀ path ∈ request.changes, ∀ location,
    tree.fileAt? working path = some location → location ∈ places

theorem AlikeOutside.changesWithin_eq {places : Set (List String)} {tree other : FileTree}
    (h : AlikeOutside places tree other) (working : List String) (more : Set (List String)) :
    other.ChangesWithin working more = tree.ChangesWithin working more := by
  funext request
  simp only [ChangesWithin, h.fileAt?_eq]

section Frame

variable {places : Set (List String)} {working : List String} {tree after : FileTree}

theorem Attempts.alikeOutside {outcome : Except SystemError FileTree}
    {reply : Except SystemError Unit} (h : tree.Attempts outcome reply after)
    (houtcome : ∀ changed, outcome = .ok changed → AlikeOutside places tree changed) :
    AlikeOutside places tree after := by
  cases reply with
  | ok => exact houtcome after h
  | error =>
      rcases h with rfl | h
      · exact .refl _ _
      · exact houtcome after h

section Path

variable {path : String}
  (hpath : ∀ location, tree.fileAt? working path = some location → location ∈ places)
include hpath

theorem alikeOutside_of_openForWriting {change : List UInt8 → List UInt8}
    (h : tree.openForWriting working path change = .ok after) : AlikeOutside places tree after := by
  obtain ⟨location, hlocation, hnode, rfl⟩ := openForWriting_eq_ok_iff.mp h
  obtain ⟨content, executable, hopened⟩ := exists_opened_eq change (tree.get? location)
  rw [hopened]
  refine (AlikeOutside.put (ne_nil_of_fileAt? hlocation) hnode content executable).mono ?_
  exact Set.singleton_subset_iff.mpr (hpath location hlocation)

theorem alikeOutside_append (bytes : List UInt8) :
    AlikeOutside places tree (tree.append working path bytes) := by
  rcases append_cases tree working path bytes with
    ⟨location, content, executable, hfind, happend⟩ | happend
  · obtain ⟨hlocation, hget⟩ := find_eq_file_iff.mp hfind
    rw [happend]
    refine (AlikeOutside.put (ne_nil_of_fileAt? hlocation) (by simp [hget]) _ _).mono ?_
    exact Set.singleton_subset_iff.mpr (hpath location hlocation)
  · rw [happend]

theorem alikeOutside_of_remove (h : tree.remove working path = .ok after) :
    AlikeOutside places tree after := by
  obtain ⟨location, content, executable, hfind, rfl⟩ := remove_eq_ok_iff.mp h
  obtain ⟨hlocation, hget⟩ := find_eq_file_iff.mp hfind
  refine (AlikeOutside.erase (ne_nil_of_fileAt? hlocation) (by simp [hget])).mono ?_
  exact Set.singleton_subset_iff.mpr (hpath location hlocation)

theorem alikeOutside_of_rename {newPath : String}
    (hnewPath : ∀ location, tree.fileAt? working newPath = some location → location ∈ places)
    (h : tree.rename working path newPath = .ok after) : AlikeOutside places tree after := by
  obtain ⟨source, content, executable, target, hfind, htarget, hnode, rfl⟩ := rename_eq_ok_iff.mp h
  obtain ⟨hsource, hget⟩ := find_eq_file_iff.mp hfind
  have hfile : tree.get? source ≠ some .directory := by simp [hget]
  have herased := AlikeOutside.erase (ne_nil_of_fileAt? hsource) hfile
  have hput := AlikeOutside.put (ne_nil_of_fileAt? htarget)
    (mt (herased.directories target).mp hnode) content executable
  exact (herased.mono (Set.singleton_subset_iff.mpr (hpath source hsource))).trans
    (hput.mono (Set.singleton_subset_iff.mpr (hnewPath target htarget)))

end Path

/-- A request, successful or not, only changes the files whose paths it names. -/
theorem Permits.alikeOutside {request : FileRequest} {reply : request.Reply}
    (h : Permits working tree request reply after)
    (hchanges : tree.ChangesWithin working places request) :
    AlikeOutside places tree after := by
  cases request with
  | timeStamp | print | synchronize =>
      cases h
      exact .refl _ _
  | openInput | readInput =>
      obtain ⟨rfl, -⟩ := h
      exact .refl _ _
  | openLog path | create path =>
      exact Attempts.alikeOutside h fun changed hchanged =>
        alikeOutside_of_openForWriting (hchanges path (by simp [FileRequest.changes])) hchanged
  | appendLog path text =>
      obtain ⟨count, rfl⟩ := h
      exact alikeOutside_append (hchanges path (by simp [FileRequest.changes])) _
  | write path bytes =>
      obtain ⟨count, -, -, rfl⟩ := h
      exact alikeOutside_append (hchanges path (by simp [FileRequest.changes])) _
  | rename path newPath =>
      cases reply with
      | ok =>
          exact alikeOutside_of_rename (hchanges path (by simp [FileRequest.changes]))
            (hchanges newPath (by simp [FileRequest.changes])) h
      | error =>
          cases h
          exact .refl _ _
  | remove path =>
      exact Attempts.alikeOutside h fun changed hchanged =>
        alikeOutside_of_remove (hchanges path (by simp [FileRequest.changes])) hchanged

theorem ensures_alikeOutside {α : Type} {dialogue : FileDialogue α} {reached : FileTree}
    (h : dialogue.Asks (tree.ChangesWithin working places))
    (hreached : AlikeOutside places tree reached) :
    dialogue.Ensures (Permits working) reached (AlikeOutside places tree) fun _ _ => True := by
  refine h.ensures ?_ hreached
  intro state request reply after hkind hstate hreply
  refine hstate.trans (hreply.alikeOutside ?_)
  rwa [hstate.changesWithin_eq]

end Frame

end FileTree

namespace Machine

open FileTree

@[simp]
theorem commit_working (machine : Machine) (outcome : Except SystemError FileTree) :
    (machine.commit outcome).2.working = machine.working := by
  cases outcome <;> rfl

theorem commit_attempts (machine : Machine) (outcome : Except SystemError FileTree) :
    machine.tree.Attempts outcome (machine.commit outcome).1 (machine.commit outcome).2.tree := by
  cases outcome with
  | ok tree => rfl
  | error error => exact .inl rfl

theorem print_tree (machine : Machine) (bytes : List UInt8) :
    (machine.print bytes).2.tree = machine.tree := by
  rw [print]
  split <;> rfl

theorem answerFile_working (machine : Machine) (request : FileRequest) :
    (machine.answerFile request).2.working = machine.working := by
  cases request with
  | openLog | create | rename | remove => exact commit_working _ _
  | print =>
      rw [answerFile, print]
      split <;> rfl
  | timeStamp | appendLog | openInput | readInput | write | synchronize => rfl

theorem answerFile_refusal? (machine : Machine) (request : FileRequest) :
    (machine.answerFile request).2.refusal? = machine.refusal? := by
  cases request with
  | openLog | create | rename | remove =>
      simp only [answerFile, openForWriting, commit]
      split <;> rfl
  | print =>
      rw [answerFile, print]
      split <;> rfl
  | timeStamp | appendLog | openInput | readInput | write | synchronize => rfl

theorem answerFile_permits (machine : Machine) (request : FileRequest) :
    Permits machine.working machine.tree request (machine.answerFile request).1
      (machine.answerFile request).2.tree := by
  cases request with
  | timeStamp | synchronize => rfl
  | print text => exact print_tree machine _
  | openLog | create | remove => exact commit_attempts _ _
  | appendLog path text => exact ⟨(Text.encode text).length, by simp [answerFile, append]⟩
  | openInput path =>
      refine ⟨rfl, fun hreply => ?_⟩
      obtain ⟨found, hfind, -⟩ := Outcome.map_eq_ok_iff.mp hreply
      exact ⟨found, hfind⟩
  | readInput path => exact ⟨rfl, fun content hreply => hreply⟩
  | write path bytes =>
      exact ⟨bytes.length, le_rfl, by simp [answerFile], by simp [answerFile, append]⟩
  | rename path newPath =>
      simp only [answerFile, commit]
      cases hrename : machine.tree.rename machine.working path newPath with
      | ok tree => exact hrename
      | error error => rfl

variable {α : Type} {machine : Machine} {dialogue : FileDialogue α}

theorem exists_run (machine : Machine) (dialogue : FileDialogue α) :
    ∃ exchanges, dialogue.Run (Permits machine.working) machine.tree exchanges
      (machine.runFiles dialogue).2.tree (pure (machine.runFiles dialogue).1) := by
  have hanswer : ∀ (inner : Machine) (tree : FileTree) (request : FileRequest),
      inner.working = machine.working ∧ tree = inner.tree →
        ∃ after, Permits machine.working tree request (inner.answerFile request).1 after ∧
          (inner.answerFile request).2.working = machine.working ∧
            after = (inner.answerFile request).2.tree := by
    rintro inner _ request ⟨hworking, rfl⟩
    refine ⟨_, ?_, ?_, rfl⟩
    · rw [← hworking]
      exact answerFile_permits inner request
    · rw [answerFile_working, hworking]
  obtain ⟨exchanges, -, hrun, -, rfl⟩ :=
    Dialogue.exists_run_of_simulate _ hanswer dialogue ⟨rfl, rfl⟩
  exact ⟨exchanges, hrun⟩

/-- What is ensured in all systems is the case when an undisturbed one has run a program. -/
theorem runFiles_of_ensures {always : FileTree → Prop} {right : α → FileTree → Prop}
    (h : dialogue.Ensures (Permits machine.working) machine.tree always right) :
    always (machine.runFiles dialogue).2.tree ∧
      right (machine.runFiles dialogue).1 (machine.runFiles dialogue).2.tree := by
  obtain ⟨exchanges, hrun⟩ := exists_run machine dialogue
  obtain ⟨halways, hright⟩ := h _ _ _ hrun
  exact ⟨halways, hright _ rfl⟩

end Machine

end StackAsm
