import Mathlib
import StackAsm.Proofs.Mishaps

/-!
Two undisturbed systems side by side. Their trees differ in files that are hidden from a program, as
its log is. As long as the program leaves these alone, whatever succeeds in one of the systems
succeeds in the other, and their trees remain alike. Only which error is met may be different, since
a path that goes through a hidden file is broken in two ways.
-/

namespace StackAsm

namespace FileRequest

/-- The paths that a request names. -/
def paths : FileRequest → List String
  | timeStamp | print _ => []
  | openLog path | appendLog path _ | openInput path | readInput path | create path | write path _
  | synchronize path | remove path => [path]
  | rename path newPath => [path, newPath]

/-- Two replies say the same, but for the error if there is one. Nothing is said of what is
printed. -/
def SaysSame : (request : FileRequest) → request.Reply → request.Reply → Prop
  | timeStamp, _, _ => True
  | print _, _, _ => True
  | appendLog _ _, _, _ => True
  | readInput _, reply, other => ∀ content, reply = .ok content ↔ other = .ok content
  | write _ _, reply, other => ∀ taken, reply = .ok taken ↔ other = .ok taken
  | openLog _, reply, other => reply = .ok () ↔ other = .ok ()
  | openInput _, reply, other => reply = .ok () ↔ other = .ok ()
  | create _, reply, other => reply = .ok () ↔ other = .ok ()
  | synchronize _, reply, other => reply = .ok () ↔ other = .ok ()
  | rename _ _, reply, other => reply = .ok () ↔ other = .ok ()
  | remove _, reply, other => reply = .ok () ↔ other = .ok ()

end FileRequest

namespace Machine

open FileTree

/-- Machines with the directories of a tree and, but for hidden files, with the same files. It is
known whether the first of them refuses to print. -/
structure Alike (base : FileTree) (working : List String) (refusal? : Option SystemError)
    (hidden : Set (List String)) (machine other : Machine) : Prop where
  here : machine.working = working
  there : other.working = working
  refusal?_eq : machine.refusal? = refusal?
  directories : AlikeOutside Set.univ base machine.tree
  files : AlikeOutside hidden machine.tree other.tree

variable {base : FileTree} {working : List String} {refusal? : Option SystemError}
  {hidden : Set (List String)} {machine other : Machine}

theorem commit_agree {outcome otherOutcome : Except SystemError FileTree}
    (hfiles : AlikeOutside hidden machine.tree other.tree)
    (hto : ∀ after, outcome = .ok after →
      ∃ changed, otherOutcome = .ok changed ∧ AlikeOutside hidden after changed)
    (hfrom : ∀ changed, otherOutcome = .ok changed →
      ∃ after, outcome = .ok after ∧ AlikeOutside hidden changed after) :
    ((machine.commit outcome).1 = .ok () ↔ (other.commit otherOutcome).1 = .ok ()) ∧
      AlikeOutside hidden (machine.commit outcome).2.tree (other.commit otherOutcome).2.tree := by
  cases outcome with
  | ok after =>
      obtain ⟨changed, rfl, halike⟩ := hto after rfl
      exact ⟨Iff.rfl, halike⟩
  | error error =>
      cases otherOutcome with
      | ok changed =>
          obtain ⟨after, hafter, -⟩ := hfrom changed rfl
          cases hafter
      | error otherError => exact ⟨by simp [commit], hfiles⟩

/-- Machines that are alike answer a request about files that are not hidden in the same way, and
the change that it makes is the same. -/
theorem answerFile_agree (h : Alike base working refusal? hidden machine other)
    {request : FileRequest} (hpaths : ∀ path ∈ request.paths, base.Avoids working path hidden) :
    request.SaysSame (machine.answerFile request).1 (other.answerFile request).1 ∧
      AlikeOutside hidden (machine.answerFile request).2.tree
        (other.answerFile request).2.tree := by
  obtain ⟨rfl, hthere, hrefusal, hdirectories, hfiles⟩ := h
  have havoids (path : String) (hpath : path ∈ request.paths) :
      machine.tree.Avoids machine.working path hidden :=
    hdirectories.avoids_iff.mpr (hpaths path hpath)
  have hotherAvoids (path : String) (hpath : path ∈ request.paths) :
      other.tree.Avoids machine.working path hidden :=
    hfiles.avoids_iff.mpr (havoids path hpath)
  cases request with
  | timeStamp => exact ⟨trivial, hfiles⟩
  | print text =>
      rw [answerFile, answerFile, print_tree, print_tree]
      exact ⟨trivial, hfiles⟩
  | synchronize => exact ⟨Iff.rfl, hfiles⟩
  | appendLog path text =>
      have hpath := havoids path (by simp [FileRequest.paths])
      simp only [answerFile, append, hthere]
      exact ⟨trivial, hfiles.append_both hpath _⟩
  | write path bytes =>
      have hpath := havoids path (by simp [FileRequest.paths])
      simp only [answerFile, append, hthere]
      exact ⟨fun _ => Iff.rfl, hfiles.append_both hpath _⟩
  | openInput path =>
      have hpath := havoids path (by simp [FileRequest.paths])
      refine ⟨?_, hfiles⟩
      simp only [answerFile, FileRequest.SaysSame, hthere, Outcome.map_eq_ok_iff,
        hfiles.find_eq_ok_iff hpath]
  | readInput path =>
      have hpath := havoids path (by simp [FileRequest.paths])
      refine ⟨?_, hfiles⟩
      simp only [answerFile, FileRequest.SaysSame, hthere, read_eq_ok_iff,
        hfiles.find_eq_ok_iff hpath, implies_true]
  | openLog path | create path =>
      have hpath := havoids path (by simp [FileRequest.paths])
      have hotherPath := hotherAvoids path (by simp [FileRequest.paths])
      simp only [answerFile, openForWriting, hthere]
      exact commit_agree hfiles (fun _ => hfiles.openForWriting_of_openForWriting hpath)
        fun _ => hfiles.symm.openForWriting_of_openForWriting hotherPath
  | rename path newPath =>
      have hpath := havoids path (by simp [FileRequest.paths])
      have hotherPath := hotherAvoids path (by simp [FileRequest.paths])
      simp only [answerFile, hthere]
      exact commit_agree hfiles (fun _ => hfiles.rename_of_rename hpath)
        fun _ => hfiles.symm.rename_of_rename hotherPath
  | remove path =>
      have hpath := havoids path (by simp [FileRequest.paths])
      have hotherPath := hotherAvoids path (by simp [FileRequest.paths])
      simp only [answerFile, hthere]
      exact commit_agree hfiles (fun _ => hfiles.remove_of_remove hpath)
        fun _ => hfiles.symm.remove_of_remove hotherPath

variable {α β γ δ : Type}

theorem runFiles_bind (machine : Machine) (dialogue : FileDialogue α) (next : α → FileDialogue β) :
    machine.runFiles (dialogue >>= next) =
      (machine.runFiles dialogue).2.runFiles (next (machine.runFiles dialogue).1) :=
  Dialogue.simulate_andThen answerFile machine dialogue next

theorem runFiles_perform (machine : Machine) (request : FileRequest) :
    machine.runFiles (Dialogue.perform request) = machine.answerFile request :=
  rfl

theorem runFiles_working (machine : Machine) (dialogue : FileDialogue α) :
    (machine.runFiles dialogue).2.working = machine.working := by
  induction dialogue generalizing machine with
  | done result => rfl
  | ask request next ih => exact (ih _ _).trans (answerFile_working machine request)

theorem runFiles_refusal? (machine : Machine) (dialogue : FileDialogue α) :
    (machine.runFiles dialogue).2.refusal? = machine.refusal? := by
  induction dialogue generalizing machine with
  | done result => rfl
  | ask request next ih => exact (ih _ _).trans (answerFile_refusal? machine request)

theorem answerFile_directories (machine : Machine) (request : FileRequest) :
    AlikeOutside Set.univ machine.tree (machine.answerFile request).2.tree :=
  (answerFile_permits machine request).alikeOutside fun _ _ _ _ => trivial

theorem Alike.silently (h : Alike base working refusal? hidden machine other)
    {dialogue : FileDialogue α} (hdialogue : dialogue.Asks (base.ChangesWithin working hidden)) :
    Alike base working refusal? hidden (machine.runFiles dialogue).2 other := by
  obtain ⟨rfl, hthere, hrefusal, hdirectories, hfiles⟩ := h
  rw [← hdirectories.changesWithin_eq] at hdialogue
  obtain ⟨hhidden, -⟩ := runFiles_of_ensures (ensures_alikeOutside hdialogue (.refl _ _))
  refine ⟨runFiles_working machine dialogue, hthere, ?_, ?_, hhidden.symm.trans hfiles⟩
  · exact (runFiles_refusal? machine dialogue).trans hrefusal
  · exact hdirectories.trans (hhidden.mono (Set.subset_univ hidden))

theorem runFiles_directories (machine : Machine) (dialogue : FileDialogue α) :
    AlikeOutside Set.univ machine.tree (machine.runFiles dialogue).2.tree := by
  induction dialogue generalizing machine with
  | done result => exact .refl _ _
  | ask request next ih => exact (answerFile_directories machine request).trans (ih _ _)

/-- Two programs, run in machines that are alike, end with results that belong together, and the
machines are alike again. -/
def Agree (base : FileTree) (working : List String) (refusal? : Option SystemError)
    (hidden : Set (List String)) (dialogue : FileDialogue α) (twin : FileDialogue β)
    (right : α → β → Prop) : Prop :=
  ∀ machine other, Alike base working refusal? hidden machine other →
    right (machine.runFiles dialogue).1 (other.runFiles twin).1 ∧
      Alike base working refusal? hidden (machine.runFiles dialogue).2 (other.runFiles twin).2

namespace Agree

variable {right : α → β → Prop}

theorem of_pure {result : α} {twinResult : β} (h : right result twinResult) :
    Agree base working refusal? hidden (pure result) (pure twinResult) right :=
  fun _ _ halike => ⟨h, halike⟩

theorem of_perform {request : FileRequest}
    (hpaths : ∀ path ∈ request.paths, base.Avoids working path hidden) :
    Agree base working refusal? hidden (Dialogue.perform request) (Dialogue.perform request)
      request.SaysSame := by
  intro machine other halike
  obtain ⟨hreplies, hfiles⟩ := answerFile_agree halike hpaths
  refine ⟨hreplies, ⟨?_, ?_, ?_, ?_, hfiles⟩⟩
  · exact (answerFile_working machine request).trans halike.here
  · exact (answerFile_working other request).trans halike.there
  · exact (answerFile_refusal? machine request).trans halike.refusal?_eq
  · exact halike.directories.trans (answerFile_directories machine request)

theorem bind {dialogue : FileDialogue α} {twin : FileDialogue β} {next : α → FileDialogue γ}
    {twinNext : β → FileDialogue δ} {rightNext : γ → δ → Prop}
    (hdialogue : Agree base working refusal? hidden dialogue twin right)
    (hnext : ∀ result twinResult, right result twinResult →
      Agree base working refusal? hidden (next result) (twinNext twinResult) rightNext) :
    Agree base working refusal? hidden (dialogue >>= next) (twin >>= twinNext) rightNext := by
  intro machine other halike
  obtain ⟨hresults, hlater⟩ := hdialogue machine other halike
  rw [runFiles_bind, runFiles_bind]
  exact hnext _ _ hresults _ _ hlater

theorem of_ask {request : FileRequest} {next : request.Reply → FileDialogue α}
    {twinNext : request.Reply → FileDialogue β}
    (hpaths : ∀ path ∈ request.paths, base.Avoids working path hidden)
    (hnext : ∀ reply twinReply, request.SaysSame reply twinReply →
      Agree base working refusal? hidden (next reply) (twinNext twinReply) right) :
    Agree base working refusal? hidden (.ask request next) (.ask request twinNext) right :=
  bind (of_perform hpaths) hnext

theorem silently {dialogue : FileDialogue γ} {next : γ → FileDialogue α} {twin : FileDialogue β}
    (hdialogue : dialogue.Asks (base.ChangesWithin working hidden))
    (hnext : ∀ result, Agree base working refusal? hidden (next result) twin right) :
    Agree base working refusal? hidden (dialogue >>= next) twin right := by
  intro machine other halike
  rw [runFiles_bind]
  exact hnext _ _ _ (halike.silently hdialogue)

theorem print {text : String} {next : Except SystemError Unit → FileDialogue α}
    {twin : FileDialogue β} (haccepts : refusal? = none)
    (hnext : Agree base working refusal? hidden (next (.ok ())) twin right) :
    Agree base working refusal? hidden (Dialogue.perform (.print text) >>= next) twin right := by
  intro machine other halike
  have hreply : (machine.runFiles (Dialogue.perform (.print text))).1 = .ok () := by
    rw [runFiles_perform, answerFile, Machine.print, halike.refusal?_eq, haccepts]
  have hprinted := halike.silently
    (.of_perform (by simp [ChangesWithin, FileRequest.changes]) :
      (Dialogue.perform (FileRequest.print text)).Asks _)
  rw [runFiles_bind, hreply]
  exact hnext _ _ hprinted

end Agree

end Machine

end StackAsm
