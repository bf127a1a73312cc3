import SimTerm.Commands.General
import SimTerm.Proofs.Commands.Write
import SimTerm.Proofs.FileSystem.Opening
import SimTerm.Proofs.Path.Relative

/-!
# Going to directories

`cd` goes where its argument means, if there is a directory, and changes nothing else. So going to a
place in two steps is going there in one, as far as inputs that are walked are concerned:
`changeDir_composes`.

Without an argument it goes home. In new files the home of a user is found, and the prompt shows the
sign for it, exactly if the user's name can be a segment of a path; `changeDir_home` says what comes
of all other names.
-/

namespace SimTerm

/-- The prompt with a text in the place of the directory. -/
def Session.promptShowing (s : Session) (dir : String) : String :=
  s.user ++ "@" ++ s.host ++ ":" ++ dir ++ s.promptTail

/-- In the home of the user the prompt shows a tilde. -/
theorem Session.prompt_changeDir_home {s : Session} {path : String} (h : path = Path.home s.user) :
    (s.changeDir path).prompt = s.promptShowing "~" := by
  have hcwd : (s.changeDir path).cwd = Path.home (s.changeDir path).user := h
  rw [prompt, if_pos hcwd]
  rfl

/-- In every other directory the prompt shows its path. -/
theorem Session.prompt_changeDir_other {s : Session} {path : String}
    (h : path ≠ Path.home s.user) : (s.changeDir path).prompt = s.promptShowing path := by
  have hcwd : (s.changeDir path).cwd ≠ Path.home (s.changeDir path).user := h
  rw [prompt, if_neg hcwd]
  rfl

namespace Commands

/-- There is a directory where the input leads. -/
def leadsToDir (e : Environment) (input : String) : Bool :=
  e.files.root.flat.isDirAt (Path.segments (pathOf e input))

/-- The environment after its session has gone where the input leads. -/
def gone (e : Environment) (input : String) : Environment :=
  { e with session := e.session.changeDir (pathOf e input) }

/-- A path that is to be entered has to lead to a directory, and naming it changes nothing. -/
theorem run_directory (input : String) (e : Environment) :
    (directory input).run.run e =
      if leadsToDir e input then (.ok (pathOf e input), e)
      else (.error (.command ("no such directory: " ++ input)), e) := by
  rw [directory, Job.run_resolve_bind, Job.run_get_bind, leadsToDir, PathMap.isDirAt, Node.flat,
    FileSystem.node?, pathOf]
  cases e.files.root.find? (Path.segments (e.files.resolve e.session.user e.session.cwd input)) with
  | none => rfl
  | some n => cases n <;> rfl

/-- All that going to a directory can come to. -/
theorem run_changeDir (d : Dispatcher) (args : List String) (e : Environment) :
    (changeDir.job d args).run.run e =
      if leadsToDir e (args.head?.getD "~") then (.ok (), gone e (args.head?.getD "~"))
      else (.error (.command ("no such directory: " ++ args.head?.getD "~")), e) := by
  have hdirectory := run_directory (args.head?.getD "~") e
  have hjob : changeDir.job d args = directory (args.head?.getD "~") >>= fun path =>
      liftM (Shell.onSession (·.changeDir path)) := rfl
  split
  · next hdir =>
    rw [if_pos hdir] at hdirectory
    rw [hjob, Job.run_bind_of_ok hdirectory]
    rfl
  · next hdir =>
    rw [if_neg hdir] at hdirectory
    rw [hjob, Job.run_bind_of_error hdirectory]

/-- If the command succeeds, it has gone where its argument leads, or home without one. -/
theorem run_changeDir_eq_ok {d : Dispatcher} {args : List String} {e f : Environment}
    (h : (changeDir.job d args).run.run e = (.ok (), f)) :
    leadsToDir e (args.head?.getD "~") = true ∧ f = gone e (args.head?.getD "~") := by
  rw [run_changeDir] at h
  split at h
  · next hdir => exact ⟨hdir, (Prod.mk.inj h).2.symm⟩
  · cases (Prod.mk.inj h).1

/-! ## In two steps or in one -/

/-- For inputs that are walked it makes no difference whether they are typed one after the other or
joined by a slash: the second means, where the first leads, what both mean together. So if the first
leads to a directory, going on from there succeeds exactly if going all the way does, and ends in the
same directory. -/
theorem changeDir_composes {bookmarks : Bookmarks} {a b : String}
    (ha : Path.IsWalked bookmarks a) (hb : Path.IsWalked bookmarks b)
    (hab : Path.IsWalked bookmarks (a ++ "/" ++ b)) :
    (∀ user cwd, Path.resolve bookmarks user cwd (a ++ "/" ++ b) =
      Path.resolve bookmarks user (Path.resolve bookmarks user cwd a) b) ∧
    ∀ (d : Dispatcher) (e f : Environment), e.files.bookmarks = bookmarks →
      (changeDir.job d [a]).run.run e = (.ok (), f) →
      let apart := (changeDir.job d [b]).run.run f
      let joined := (changeDir.job d [a ++ "/" ++ b]).run.run e
      (apart.1 = .ok () ↔ joined.1 = .ok ()) ∧
        (joined.1 = .ok () → apart.2.session.cwd = joined.2.session.cwd) := by
  refine ⟨Path.resolve_append ha hb hab, fun d e f hmarks hfirst => ?_⟩
  obtain ⟨-, rfl⟩ : _ ∧ f = gone e a := run_changeDir_eq_ok hfirst
  -- where the second step leads depends on the first only through the directory it ended in
  have hpath : pathOf (gone e a) b = pathOf e (a ++ "/" ++ b) := by
    subst hmarks
    exact (Path.resolve_append ha hb hab e.session.user e.session.cwd).symm
  have hdir : leadsToDir (gone e a) b = leadsToDir e (a ++ "/" ++ b) := by
    rw [leadsToDir, hpath]
    rfl
  have hapart := run_changeDir d [b] (gone e a)
  have hjoined := run_changeDir d [a ++ "/" ++ b] e
  rw [List.head?_cons, Option.getD_some] at hapart hjoined
  rw [hdir] at hapart
  rw [hapart, hjoined]
  split
  · exact ⟨Iff.rfl, fun _ => hpath⟩
  · exact ⟨⟨fun h => (nomatch h), fun h => (nomatch h)⟩, fun h => (nomatch h)⟩

/-- Going up past an unknown bookmark and down again, with a dot and slashes to spare. -/
theorem changeDir_composes_up_and_down :
    let marks : Bookmarks := [("up", "/x")]
    let e : Environment := { drafting with files := { drafting.files with bookmarks := marks } }
    let d : Dispatcher := { helpLines := [], run := fun _ => pure [] }
    Path.IsWalked marks "@ups/../.." ∧ Path.IsWalked marks ".//notes/" ∧
      Path.IsWalked marks "@ups/../.././/notes/" ∧
      Path.resolve marks "u" "x/../y//" "@ups/../.././/notes/" = "/x/../notes" ∧
      (changeDir.job d ["@ups/../.."]).run.run e = (.ok (), gone e "@ups/../..") ∧
      ((changeDir.job d [".//notes/"]).run.run (gone e "@ups/../..")).1 = .ok () ∧
      ((changeDir.job d [".//notes/"]).run.run (gone e "@ups/../..")).2.session.cwd = "/notes" := by
  intro marks e d
  have ha : Path.IsWalked marks "@ups/../.." :=
    ⟨⟨by decide, by decide, by decide, by decide⟩, by decide⟩
  have hb : Path.IsWalked marks ".//notes/" :=
    ⟨⟨by decide, by decide, by decide, by decide⟩, by decide⟩
  have hab : Path.IsWalked marks ("@ups/../.." ++ "/" ++ ".//notes/") :=
    ⟨⟨by decide, by decide, by decide, by decide⟩, by decide⟩
  have hfirst : (changeDir.job d ["@ups/../.."]).run.run e = (.ok (), gone e "@ups/../..") :=
    (run_changeDir d _ e).trans (if_pos (by decide))
  have hall : (changeDir.job d ["@ups/../.." ++ "/" ++ ".//notes/"]).run.run e =
      (.ok (), gone e ("@ups/../.." ++ "/" ++ ".//notes/")) :=
    (run_changeDir d _ e).trans (if_pos (by decide))
  obtain ⟨hresolve, hsteps⟩ := changeDir_composes ha hb hab
  obtain ⟨hok, hcwd⟩ := hsteps d e _ rfl hfirst
  refine ⟨ha, hb, hab, (hresolve "u" "x/../y//").trans (by decide), hfirst, hok.2 ?_, ?_⟩
  · rw [hall]
  · rw [hcwd (by rw [hall]), hall]
    decide

/-! ## Going home -/

theorem find?_defaultTree_home (user : String) (now : Millis) (names : List String) :
    (TreeOptions.defaultTree { user } now).find? ("home" :: names) =
      (Node.dir [(user, Node.newDir now)] (Node.stampedAt now)).find? names :=
  rfl

/-- A user whose name can be a segment has a home in the default tree. -/
theorem find?_defaultTree_of_isName {user : String} (h : Path.IsName user) (now : Millis) :
    (TreeOptions.defaultTree { user } now).find? ("home" :: Path.segments user) =
      some (Node.newDir now) := by
  rw [Path.segments_of_isName h, find?_defaultTree_home, Node.find?, Entries.get?, if_pos rfl]
  rfl

/-- A user whose name has segments but is none of them has no home there. -/
theorem find?_defaultTree_of_not_isName {user : String} (h : ¬ Path.IsName user)
    (hne : Path.segments user ≠ []) (now : Millis) :
    (TreeOptions.defaultTree { user } now).find? ("home" :: Path.segments user) = none := by
  obtain ⟨name, names, hsegs⟩ := List.exists_cons_of_ne_nil hne
  have hname : Path.IsName name :=
    Path.isName_of_mem_segmentsOf (hsegs ▸ List.mem_cons_self : name ∈ Path.segments user)
  -- the segments of a text are names, and the user is none
  have hother : name ≠ user := fun heq => h (heq ▸ hname)
  rw [hsegs, find?_defaultTree_home, Node.find?, Entries.get?, if_neg hother]
  rfl

/-- In new files with default directories there is one home directory for every user whose name can
be a segment of a path, from wherever it is asked for: it is the path with the name in it, there is an
empty directory, `cd` goes there, and the prompt shows the sign. A user without any segment in the
name is sent to the directory of all homes, under its own name. For all others there is no home and
`cd` is refused. -/
theorem changeDir_home {storage : Storage} (hnone : storage.text? treeKey = none) {user : String}
    (now : Millis) (d : Dispatcher) {e : Environment}
    (hfiles : e.files = FileSystem.open storage now { user }) (huser : e.session.user = user) :
    let home := pathOf e "~"
    let went := (changeDir.job d []).run.run e
    (Path.IsName user →
      home = Path.home user ∧ e.files.node? home = some (Node.newDir now) ∧
        went = (.ok (), gone e "~") ∧
        (gone e "~").session.prompt = e.session.promptShowing "~") ∧
      (Path.segments user = [] →
        home = "/home" ∧ leadsToDir e "~" = true ∧ went = (.ok (), gone e "~") ∧
        (gone e "~").session.prompt = e.session.promptShowing "/home") ∧
      (¬ Path.IsName user → Path.segments user ≠ [] →
        e.files.node? home = none ∧ went = (.error (.command "no such directory: ~"), e)) := by
  intro home went
  have hroot : e.files.root = TreeOptions.defaultTree { user } now := by
    rw [hfiles, FileSystem.root_open_of_text?_eq_none hnone]
  have hpath : home = Path.ofSegments ("home" :: Path.segments user) := by
    subst huser
    exact Path.resolve_home e.files.bookmarks e.session.user e.session.cwd
  -- the name is resolved as a part of a path, but was one name when the default tree was made
  have hsegs : Path.segments home = "home" :: Path.segments user := by
    subst huser
    exact Path.segments_resolve_home e.files.bookmarks e.session.user e.session.cwd
  have hnode : e.files.node? home =
      (TreeOptions.defaultTree { user } now).find? ("home" :: Path.segments user) := by
    rw [FileSystem.node?, hsegs, hroot]
  have hgone : leadsToDir e "~" = true → went = (.ok (), gone e "~") := fun hdir =>
    (run_changeDir d [] e).trans (if_pos hdir)
  refine ⟨fun hname => ?_, fun hnil => ?_, fun hname hne => ?_⟩
  · have hhome : home = Path.home user := hpath.trans (Path.ofSegments_home hname)
    have hthere : e.files.node? home = some (Node.newDir now) :=
      hnode.trans (find?_defaultTree_of_isName hname now)
    have hdir : leadsToDir e "~" = true := Node.isDirAt_flat_iff.2 ⟨_, _, hthere⟩
    exact ⟨hhome, hthere, hgone hdir, Session.prompt_changeDir_home (huser ▸ hhome)⟩
  · rw [hnil] at hpath hnode
    have hhomes : home = "/home" := hpath
    have hdir : leadsToDir e "~" = true := Node.isDirAt_flat_iff.2 ⟨_, _, hnode⟩
    have hother : home ≠ Path.home e.session.user := hhomes ▸ Path.homes_ne_home e.session.user
    have hprompt : (gone e "~").session.prompt = e.session.promptShowing "/home" :=
      hhomes ▸ Session.prompt_changeDir_other hother
    exact ⟨hhomes, hdir, hgone hdir, hprompt⟩
  · have hmissing : e.files.node? home = none :=
      hnode.trans (find?_defaultTree_of_not_isName hname hne now)
    have hdir : ¬ leadsToDir e "~" = true := by
      intro h
      obtain ⟨es, s, hthere⟩ := Node.isDirAt_flat_iff.1 h
      cases hmissing.symm.trans hthere
    exact ⟨hmissing, (run_changeDir d [] e).trans (if_neg hdir)⟩

/-- The environment of a user with new files, who stands in a directory that is not there. -/
def newcomer (user : String) : Environment where
  session := { Session.ofSettings { user } [] with cwd := "/nowhere/" }
  files := FileSystem.open {} 1000 { user }

/-- A user with a dot, a space and a sign in the name. -/
theorem changeDir_home_dotted :
    let e := newcomer ".~ a"
    let d : Dispatcher := { helpLines := [], run := fun _ => pure [] }
    Storage.text? {} treeKey = none ∧ Path.IsName ".~ a" ∧ pathOf e "~" = "/home/.~ a" ∧
      e.files.node? "/home/.~ a" = some (Node.newDir 1000) ∧
      (changeDir.job d []).run.run e = (.ok (), gone e "~") ∧
      (gone e "~").session.prompt = ".~ a@cedar:~$ " := by
  intro e d
  have hname : Path.IsName ".~ a" := ⟨by decide, by decide⟩
  have hnone : Storage.text? {} treeKey = none := rfl
  obtain ⟨hpath, hthere, hwent, hprompt⟩ :=
    (changeDir_home hnone 1000 d (e := e) rfl rfl).1 hname
  rw [hpath] at hthere
  exact ⟨hnone, hname, hpath, hthere, hwent, hprompt⟩

/-- A user with a slash in the name has no home to go to, and one without a name is not shown the
sign there. -/
theorem changeDir_home_missing :
    let d : Dispatcher := { helpLines := [], run := fun _ => pure [] }
    (newcomer "a/b").files.node? (pathOf (newcomer "a/b") "~") = none ∧
      (changeDir.job d []).run.run (newcomer "a/b") =
        (.error (.command "no such directory: ~"), newcomer "a/b") ∧
      (changeDir.job d []).run.run (newcomer "") = (.ok (), gone (newcomer "") "~") ∧
      (gone (newcomer "") "~").session.prompt = "@cedar:/home$ " ∧
      (gone (newcomer "") "~").session.prompt ≠ (newcomer "").session.promptShowing "~" := by
  intro d
  have hpath : pathOf (newcomer "a/b") "~" = "/home/a/b" := by decide
  have hsegs : Path.segments "/home/a/b" = ["home", "a", "b"] := by decide
  have hmissing : (newcomer "a/b").files.node? (pathOf (newcomer "a/b") "~") = none := by
    rw [hpath, FileSystem.node?, hsegs]
    rfl
  have hprompt : (gone (newcomer "") "~").session.prompt = "@cedar:/home$ " := by decide
  refine ⟨hmissing, (run_changeDir d [] _).trans (if_neg (by decide)),
    (run_changeDir d [] _).trans (if_pos (by decide)), hprompt, ?_⟩
  rw [hprompt]
  decide

end Commands

end SimTerm
