import Mathlib
import StackAsm.Proofs.Mishaps
import StackAsm.Proofs.TemporaryPath

namespace StackAsm

namespace ImageFile

open FileTree

variable {working : List String} {path : String} {bytes : List UInt8} {tree later : FileTree}

section New

theorem writeAll_asks (path : String) (bytes : List UInt8) :
    (writeAll path bytes).Asks fun request => ∀ changed ∈ request.changes, changed = path := by
  induction bytes using writeAll.induct with
  | case1 =>
      rw [writeAll]
      exact trivial
  | case2 bytes hbytes ih =>
      rw [writeAll, dif_neg hbytes]
      refine ⟨by simp [FileRequest.changes], fun reply => ?_⟩
      cases reply with
      | error error => exact trivial
      | ok taken =>
          by_cases htaken : taken = 0
          · simp only [htaken, if_true]
            exact trivial
          · simp only [htaken, if_false]
            exact ih taken htaken

theorem writeNew_asks (path : String) (bytes : List UInt8) :
    (writeNew path bytes).Asks fun request => ∀ changed ∈ request.changes, changed = path := by
  refine .bind (.of_perform (by simp [FileRequest.changes])) fun created => ?_
  cases created with
  | error error => exact .of_pure
  | ok =>
      refine .bind (writeAll_asks path bytes) fun written => ?_
      cases written with
      | error error => exact .of_pure
      | ok => exact .of_perform (by simp [FileRequest.changes])

theorem writeAll_ensures {location : List String} {content : List UInt8} {executable : Bool}
    (h : tree.find working path = .ok (location, .file content executable)) :
    (writeAll path bytes).Ensures (Permits working) tree (fun _ => True) fun result later =>
      result = .ok () →
        later.find working path = .ok (location, .file (content ++ bytes) executable) := by
  induction bytes using writeAll.induct generalizing tree content with
  | case1 =>
      rw [writeAll]
      exact .of_pure trivial fun _ => by rw [List.append_nil, h]
  | case2 bytes hbytes ih =>
      rw [writeAll, dif_neg hbytes]
      refine .of_ask trivial fun reply after hreply => ?_
      cases reply with
      | error error => exact .of_pure trivial nofun
      | ok taken =>
          -- Here the reply is true: so many bytes have been added, and the rest is still to come.
          obtain ⟨count, -, htaken, rfl⟩ := hreply
          obtain rfl : taken = count := htaken taken rfl
          by_cases hnone : taken = 0
          · simp only [hnone, if_true]
            exact .of_pure trivial nofun
          · simp only [hnone, if_false]
            have hrest := ih taken hnone (find_append h (bytes.take taken))
            rwa [List.append_assoc, List.take_append_drop] at hrest

theorem writeNew_ensures (path : String) (bytes : List UInt8) :
    (writeNew path bytes).Ensures (Permits working) tree (fun _ => True) fun result later =>
      result = .ok () → ∃ location executable,
        later.find working path = .ok (location, .file bytes executable) := by
  refine .bind
    (fun reply after => reply = .ok () →
      ∃ location executable, after.find working path = .ok (location, .file [] executable))
    (.of_perform trivial fun reply after hreply => ⟨trivial, ?_⟩) fun created after _ hcreated => ?_
  · rintro rfl
    obtain ⟨location, hfind⟩ := find_of_openForWriting hreply
    obtain ⟨executable, hopened⟩ := exists_opened_empty (tree.get? location)
    exact ⟨location, executable, by rw [hfind, hopened]⟩
  cases created with
  | error error => exact .of_pure trivial nofun
  | ok =>
      obtain ⟨location, executable, hempty⟩ := hcreated rfl
      refine .bind _ (writeAll_ensures hempty) fun written after _ hwritten => ?_
      cases written with
      | error error => exact .of_pure trivial nofun
      | ok =>
          refine .of_perform trivial fun reply later hsynchronized => ⟨trivial, fun _ => ?_⟩
          cases hsynchronized
          exact ⟨location, executable, hwritten rfl⟩

theorem writeNew_setAside (path : String) (bytes : List UInt8) :
    (writeNew (temporary path) bytes).Ensures (Permits working) tree (SetAside working path tree)
      fun _ _ => True := by
  refine ensures_alikeOutside ((writeNew_asks (temporary path) bytes).mono ?_) (.refl _ _)
  intro request hchanges changed hchanged location hlocation
  rw [hchanges changed hchanged] at hlocation
  exact hlocation

end New

/-- The image is at its path, and the temporary file is gone. -/
structure InPlace (working : List String) (path : String) (bytes : List UInt8) (later : FileTree) :
    Prop where
  found : ∃ location executable,
    later.find working path = .ok (location, .file bytes executable)
  renamed : later.find working (temporary path) = .error .noEntry

theorem inPlace_of_rename {location : List String} {executable : Bool}
    (h : tree.find working (temporary path) = .ok (location, .file bytes executable))
    (hrename : tree.rename working (temporary path) path = .ok later) :
    InPlace working path bytes later := by
  obtain ⟨source, content, mode, target, hfind, htarget, hnode, rfl⟩ := rename_eq_ok_iff.mp hrename
  cases h.symm.trans hfind
  obtain ⟨hlocation, hget⟩ := find_eq_file_iff.mp hfind
  have hfile : tree.get? location ≠ some .directory := by simp [hget]
  have herased := AlikeOutside.erase (ne_nil_of_fileAt? hlocation) hfile
  have htargetErased := (herased.fileAt?_eq working path).trans htarget
  have hnodeErased := mt (herased.directories target).mp hnode
  have hput := AlikeOutside.put (ne_nil_of_fileAt? htarget) hnodeErased bytes executable
  have hother : location ≠ target := (fileAt?_ne_of_temporary hlocation htarget).symm
  constructor
  · exact ⟨target, executable, find_put htargetErased hnodeErased bytes executable⟩
  · have htemporary := (herased.fileAt?_eq working (temporary path)).trans hlocation
    rw [find_eq_noEntry_iff_of_fileAt? ((hput.fileAt?_eq working _).trans htemporary),
      hput.elsewhere location hother, get?_erase _ _ (ne_nil_of_fileAt? hlocation), if_pos rfl]

theorem replace_ensures (path : String) (bytes : List UInt8) :
    (replace path bytes).Ensures (Permits working) tree
      (fun later => SetAside working path tree later ∨ InPlace working path bytes later)
      fun result later =>
        (result = .ok () → InPlace working path bytes later) ∧
          ∀ error, result = .error error → SetAside working path tree later := by
  refine .bind
    (fun result later => SetAside working path tree later ∧ (result = .ok () →
      ∃ location executable,
        later.find working (temporary path) = .ok (location, .file bytes executable)))
    (((writeNew_setAside path bytes).and (writeNew_ensures (temporary path) bytes)).mono
      (fun later hlater => .inl hlater.1) fun result later hlater hresult =>
        ⟨hlater.1, hresult.2⟩) ?_
  rintro written after - ⟨hsetAside, hholds⟩
  cases written with
  | error error => exact .of_pure (.inl hsetAside) ⟨nofun, fun _ _ => hsetAside⟩
  | ok =>
      obtain ⟨location, executable, hfind⟩ := hholds rfl
      refine .of_perform (.inl hsetAside) fun reply later hrename => ?_
      cases reply with
      | ok =>
          have hinPlace := inPlace_of_rename hfind hrename
          exact ⟨.inr hinPlace, fun _ => hinPlace, nofun⟩
      | error error =>
          cases hrename
          exact ⟨.inl hsetAside, nofun, fun _ _ => hsetAside⟩

theorem setAside_of_remove {after : FileTree} {reply : Except SystemError Unit}
    (h : SetAside working path tree later)
    (hremove : Permits working later (.remove (temporary path)) reply after) :
    SetAside working path tree after := by
  refine h.trans (hremove.alikeOutside ?_)
  intro changed hchanged location hlocation
  rw [FileRequest.changes, List.mem_singleton] at hchanged
  rw [hchanged, h.fileAt?_eq] at hlocation
  exact hlocation

theorem write_ensures (path : String) (bytes : List UInt8) :
    (write path bytes).Ensures (Permits working) tree (fun _ => True) fun result later =>
      result = .ok () → InPlace working path bytes later := by
  refine .bind (fun result later => result = .ok () → InPlace working path bytes later)
    ((replace_ensures path bytes).mono (fun _ _ => trivial) fun _ _ _ hresult => hresult.1) ?_
  intro result after _ hresult
  cases result with
  | ok => exact .of_pure trivial fun _ => hresult rfl
  | error error =>
      refine .bind (fun _ _ => True) (.of_perform trivial fun _ _ _ => ⟨trivial, trivial⟩) ?_
      exact fun _ _ _ _ => .of_pure trivial nofun

/-- Whatever fails, and at every moment at which the writing may be cut off, there is at the path
what was there before, or the whole image. Once the writing has ended it is the image exactly if no
error is reported, and the temporary file has been taken away as far as the system allows. -/
theorem write_atomic {exchanges : List (Σ request : FileRequest, request.Reply)}
    {rest : FileDialogue (Except SystemError Unit)}
    (hrun : (write path bytes).Run (Permits working) tree exchanges later rest) :
    (later.find working path = tree.find working path ∨
      ∃ location executable, later.find working path = .ok (location, .file bytes executable)) ∧
    (rest = pure (.ok ()) →
      (∃ location executable, later.find working path = .ok (location, .file bytes executable)) ∧
        later.find working (temporary path) = .error .noEntry) ∧
    ∀ error, rest = pure (.error error) →
      later.find working path = tree.find working path ∧
        ∃ before reply, exchanges = before ++ [⟨.remove (temporary path), reply⟩] ∧
          (reply = .ok () → later.find working (temporary path) = .error .noEntry) := by
  -- Until the replacement has ended no error is known, and after it all that may follow is the
  -- removal of the temporary file.
  rcases Dialogue.run_bind_iff.mp hrun with ⟨remaining, hreplace, rfl⟩ |
    ⟨result, before, between, behind, rfl, hreplace, hbehind⟩
  · obtain ⟨hlater, hresult⟩ := replace_ensures path bytes _ _ _ hreplace
    refine ⟨hlater.imp SetAside.find_eq InPlace.found, fun hrest => ?_, fun error hrest => ?_⟩
    · obtain ⟨result, rfl, hnext⟩ := Dialogue.bind_eq_pure_iff.mp hrest
      cases result with
      | ok =>
          have hinPlace := (hresult _ rfl).1 rfl
          exact ⟨hinPlace.found, hinPlace.renamed⟩
      | error => cases hnext
    · obtain ⟨result, rfl, hnext⟩ := Dialogue.bind_eq_pure_iff.mp hrest
      cases result with
      | ok => cases hnext
      | error => cases hnext
  · obtain ⟨-, hresult⟩ := replace_ensures path bytes _ _ _ hreplace
    cases result with
    | ok =>
        have hinPlace := (hresult _ rfl).1 rfl
        obtain ⟨rfl, rfl, rfl⟩ := Dialogue.run_pure_iff.mp hbehind
        exact ⟨.inr hinPlace.found, fun _ => ⟨hinPlace.found, hinPlace.renamed⟩, nofun⟩
    | error fault =>
        have hsetAside := (hresult _ rfl).2 fault rfl
        cases hbehind with
        | here => exact ⟨.inl hsetAside.find_eq, nofun, nofun⟩
        | further hremove hend =>
            obtain ⟨rfl, rfl, rfl⟩ := Dialogue.run_pure_iff.mp hend
            have hafter := (setAside_of_remove hsetAside hremove).find_eq
            refine ⟨.inl hafter, nofun, fun error _ => ⟨hafter, before, _, rfl, ?_⟩⟩
            rintro rfl
            exact find_eq_noEntry_of_remove hremove

section Success

theorem writeAll_succeeds (path : String) (bytes : List UInt8) :
    (writeAll path bytes).Ensures (fun _ request reply _ => request.Succeeds reply) tree
      (fun _ => True) fun result _ => result = .ok () := by
  induction bytes using writeAll.induct generalizing tree with
  | case1 =>
      rw [writeAll]
      exact .of_pure trivial rfl
  | case2 bytes hbytes ih =>
      rw [writeAll, dif_neg hbytes]
      refine .of_ask trivial fun reply after hreply => ?_
      obtain ⟨taken, htaken, rfl⟩ := hreply
      simp only [htaken, if_false]
      exact ih taken htaken

theorem replace_succeeds (path : String) (bytes : List UInt8) :
    (replace path bytes).Ensures (fun _ request reply _ => request.Succeeds reply) tree
      (fun _ => True) fun result _ => result = .ok () := by
  refine .bind (fun result _ => result = .ok ()) ?_ ?_
  · refine .bind (fun reply _ => reply = .ok ())
      (.of_perform trivial fun _ _ hreply => ⟨trivial, hreply⟩) ?_
    rintro _ after - rfl
    refine .bind _ (writeAll_succeeds (temporary path) bytes) ?_
    rintro _ stored - rfl
    exact .of_perform trivial fun _ _ hreply => ⟨trivial, hreply⟩
  · rintro _ after - rfl
    exact .of_perform trivial fun _ _ hreply => ⟨trivial, hreply⟩

/-- If no request fails, the writing ends with success. -/
theorem write_succeeds {exchanges : List (Σ request : FileRequest, request.Reply)}
    {result : Except SystemError Unit}
    (hrun : (write path bytes).Run (Permits working) tree exchanges later (pure result))
    (hsucceeds : ∀ exchange ∈ exchanges, exchange.1.Succeeds exchange.2) : result = .ok () := by
  have hwrite : (write path bytes).Ensures (fun _ request reply _ => request.Succeeds reply) tree
      (fun _ => True) fun result _ => result = .ok () := by
    refine .bind _ (replace_succeeds path bytes) ?_
    rintro _ after - rfl
    exact .of_pure trivial rfl
  exact (hwrite _ _ _ (hrun.of_forall hsucceeds)).2 result rfl

end Success

/-- A tree with an image of earlier days. -/
def earlier : FileTree :=
  { entries := [(["a"], .file [9] false)] }

/-- The tree in which another image has been made. -/
def renewed : FileTree :=
  { entries := [(["a"], .file [1, 2] false)] }

theorem write_runs_full :
    (write "a" [1, 2]).Run (Permits []) earlier
      [⟨.create "a.tmp", .ok ()⟩, ⟨.write "a.tmp" [1, 2], .error (.other "No space left")⟩,
        ⟨.remove "a.tmp", .ok ()⟩]
      earlier (pure (.error (.other "No space left"))) := by
  have hcreate : Permits [] earlier (.create "a.tmp") (.ok ())
      (earlier.put ["a.tmp"] (.file [] false)) := by
    change earlier.openForWriting _ _ _ = _
    decide +kernel
  have hwrite : Permits [] (earlier.put ["a.tmp"] (.file [] false)) (.write "a.tmp" [1, 2])
      (.error (.other "No space left")) (earlier.put ["a.tmp"] (.file [1] false)) :=
    ⟨1, by decide, nofun, by decide +kernel⟩
  have hremove : Permits [] (earlier.put ["a.tmp"] (.file [1] false)) (.remove "a.tmp") (.ok ())
      earlier := by
    change FileTree.remove _ _ _ = _
    decide +kernel
  rw [write, replace, writeNew, writeAll]
  exact .further hcreate (.further hwrite (.further hremove (.here _ _)))

theorem write_runs_slow :
    (write "a" [1, 2]).Run (Permits []) earlier
      [⟨.create "a.tmp", .ok ()⟩, ⟨.write "a.tmp" [1, 2], .ok 1⟩, ⟨.write "a.tmp" [2], .ok 1⟩,
        ⟨.synchronize "a.tmp", .ok ()⟩, ⟨.rename "a.tmp" "a", .ok ()⟩]
      renewed (pure (.ok ())) := by
  have hcreate : Permits [] earlier (.create "a.tmp") (.ok ())
      (earlier.put ["a.tmp"] (.file [] false)) := by
    change earlier.openForWriting _ _ _ = _
    decide +kernel
  have hfirst : Permits [] (earlier.put ["a.tmp"] (.file [] false)) (.write "a.tmp" [1, 2])
      (.ok 1) (earlier.put ["a.tmp"] (.file [1] false)) :=
    ⟨1, by decide, fun _ h => (Except.ok.inj h).symm, by decide +kernel⟩
  have hsecond : Permits [] (earlier.put ["a.tmp"] (.file [1] false)) (.write "a.tmp" [2])
      (.ok 1) (earlier.put ["a.tmp"] (.file [1, 2] false)) :=
    ⟨1, by decide, fun _ h => (Except.ok.inj h).symm, by decide +kernel⟩
  have hrename : Permits [] (earlier.put ["a.tmp"] (.file [1, 2] false)) (.rename "a.tmp" "a")
      (.ok ()) renewed := by
    change FileTree.rename _ _ _ _ = _
    decide +kernel
  rw [write, replace, writeNew, writeAll]
  refine .further hcreate (.further hfirst ?_)
  change Dialogue.Run _ _ ((writeAll "a.tmp" [2]).andThen _ |>.andThen _ |>.andThen _) _ _ _
  rw [writeAll]
  refine .further hsecond ?_
  change Dialogue.Run _ _ ((writeAll "a.tmp" []).andThen _ |>.andThen _ |>.andThen _) _ _ _
  rw [writeAll]
  exact .further rfl (.further hrename (.here _ _))

theorem write_atomic_full :
    ((∃ exchanges error, (write "a" [1, 2]).Run (Permits []) earlier exchanges earlier
        (pure (.error error))) ∧
      earlier.find [] "a.tmp" = .error .noEntry) ∧
    (∃ exchanges, (write "a" [1, 2]).Run (Permits []) earlier exchanges renewed
        (pure (.ok ()))) ∧
      (∃ location executable, renewed.find [] "a" = .ok (location, .file [1, 2] executable)) ∧
        renewed.find [] "a.tmp" = .error .noEntry := by
  obtain ⟨-, before, reply, hexchanges, hgone⟩ := (write_atomic write_runs_full).2.2 _ rfl
  have hlast := congrArg List.getLast? hexchanges
  rw [List.getLast?_concat] at hlast
  cases hlast
  exact ⟨⟨⟨_, _, write_runs_full⟩, hgone rfl⟩, ⟨_, write_runs_slow⟩,
    (write_atomic write_runs_slow).2.1 rfl⟩

end ImageFile

end StackAsm
