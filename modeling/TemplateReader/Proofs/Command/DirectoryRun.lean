import TemplateReader.Proofs.Command.Directory

/-!
# Runs over a directory

A run over a directory puts the result of each template that can be read beside the
template, and changes nothing else. What holds after some files were visited is
`Progress.Reflects`: the results of the templates among them are there, all other
files are as they were, and so are the directories. So a template is still what it
was when its turn comes, and neither the other templates nor the order of visiting
matters to its result.
-/

namespace TemplateReader

/-- The request to read a single template and to write its result to standard output. -/
def TokenizeRequest.forFile (r : TokenizeRequest) (path : String) : TokenizeRequest :=
  { r with path := some path, fromInput := false }

/-- What comes of a run over a directory: the results of the templates that can be read, and nothing
else. -/
structure Outcome.WritesResults (o : Outcome) (fs : FileSystem) (r : TokenizeRequest)
    (t : FileTree) (path : String) (route : Route) : Prop where
  /-- Beside a template that can be read is what would be told of it alone on standard output, which
  ends with a line feed. -/
  written : ∀ inside source, t.HoldsTemplate path route inside (some source) → r.Reads source →
    ∃ result, (∀ input, runTokenize fs (r.forFile (joinPath path inside)) input t =
        ⟨0, result ++ "\n", [], t⟩) ∧
      o.tree.get? (route ++ resultRoute inside) = some (.file (some (result ++ "\n")))
  /-- Anywhere else everything is as it was. -/
  unchanged : ∀ there, (∀ inside source, t.HoldsTemplate path route inside (some source) →
    r.Reads source → there ≠ route ++ resultRoute inside) → o.tree.get? there = t.get? there
  /-- The directories are the same. -/
  directories : ∀ there, o.tree.isDirectory there = t.isDirectory there
  /-- So is the one in which relative paths begin. -/
  workingDirectory : o.tree.workingDirectory = t.workingDirectory
  /-- The run succeeds when there are templates and all of them can be read. -/
  code_eq_zero_iff : o.code = 0 ↔
    (∃ inside source, t.HoldsTemplate path route inside (some source)) ∧
      ∀ inside source, t.HoldsTemplate path route inside (some source) → r.Reads source
  /-- Else it fails with one code. -/
  code_le : o.code ≤ 1

/-- The results of the templates among some files are there, and everything else is as it was. -/
structure Progress.Reflects (p : Progress) (r : TokenizeRequest) (t : FileTree) (path : String)
    (route : Route) (visited : List Route) : Prop where
  /-- The results are there. -/
  written : ∀ inside ∈ visited, ∀ source result,
    t.HoldsTemplate path route inside (some source) → templateResult r source = .ok result →
      p.tree.get? (route ++ resultRoute inside) = some (.file (some (result ++ "\n")))
  /-- Everything else is as it was. -/
  unchanged : ∀ there, (∀ inside ∈ visited, ∀ source,
    t.HoldsTemplate path route inside (some source) → r.Reads source →
      there ≠ route ++ resultRoute inside) → p.tree.get? there = t.get? there
  /-- The directories are the same. -/
  directories : ∀ there, p.tree.isDirectory there = t.isDirectory there
  /-- So is the one in which relative paths begin. -/
  workingDirectory : p.tree.workingDirectory = t.workingDirectory
  /-- The results are counted. -/
  written_eq_zero_iff : p.written = 0 ↔ ∀ inside ∈ visited, ∀ source,
    t.HoldsTemplate path route inside (some source) → ¬r.Reads source
  /-- The templates that could not be read are counted. -/
  failed_eq_zero_iff : p.failed = 0 ↔ ∀ inside ∈ visited, ∀ source,
    t.HoldsTemplate path route inside (some source) → r.Reads source

section

variable {fs : FileSystem} {r : TokenizeRequest} {t : FileTree} {path source result : String}
  {route inside : Route} {visited order : List Route} {p : Progress}

/-- A file that is a text is read if its path is not too long and it can be opened. -/
theorem readInside_eq {place : Route} (hget : t.get? place = some (.file (some source)))
    (hshort : fs.isTooLong path = false) (hopen : fs.refusal? .read place = none) :
    readInside fs t path place = .ok source := by
  rw [readInside, if_neg (ne_true_of_eq_false hshort), hget]
  exact FileSystem.content_of_open hopen source

/-- A template that is named by its path is read and its result told. -/
theorem runTokenize_forFile (ht : t.IsSound fs) (hlocated : t.locate fs path = .directory route)
    (h : t.HoldsTemplate path route inside (some source))
    (hshort : fs.isTooLong (joinPath path inside) = false)
    (hopen : fs.refusal? .read (route ++ inside) = none)
    (hresult : templateResult r source = .ok result) (input : Option String) :
    runTokenize fs (r.forFile (joinPath path inside)) input t = ⟨0, result ++ "\n", [], t⟩ := by
  have hfile := ht.locate_file hlocated h.1.1 h.1.2
    (FileSystem.utf8ByteSize_le_of_isTooLong hshort)
  have hsame : templateResult (r.forFile (joinPath path inside)) source = .ok result := hresult
  have hrun : runTokenize fs (r.forFile (joinPath path inside)) input t =
      runPath fs (r.forFile (joinPath path inside)) t (joinPath path inside) := rfl
  rw [hrun, runPath, hfile]
  dsimp only
  rw [if_pos h.2, FileSystem.content_of_open hopen]
  dsimp only
  rw [runTemplate, hsame]
  rfl

/-- The result of a template can be written. -/
theorem Progress.Reflects.writeFault?_eq_none (hp : p.Reflects r t path route visited)
    (hready : t.IsReadyFor fs path route) (hopen : t.IsOpenTo fs r path route)
    (h : t.HoldsTemplate path route inside (some source)) (hreads : r.Reads source) :
    writeFault? fs p.tree (resultPath (joinPath path inside)) (route ++ resultRoute inside) =
      none := by
  rw [writeFault?, hopen.resultShort _ _ h hreads, hp.directories, hready.free _ _ h,
    hopen.resultOpen _ _ h hreads]
  rfl

/-- At the place of a result is a file or nothing, also when the template was visited before. -/
theorem Progress.Reflects.all_isFile (hp : p.Reflects r t path route visited)
    (hopen : t.IsOpenTo fs r path route) (h : t.HoldsTemplate path route inside (some source))
    (hresult : templateResult r source = .ok result) :
    (p.tree.get? (route ++ resultRoute inside)).all FileEntry.isFile = true := by
  by_cases hmem : inside ∈ visited
  · rw [hp.written inside hmem source result h hresult]
    rfl
  · rw [hp.unchanged]
    · exact hopen.resultRegular _ _ h (reads_of_templateResult hresult)
    · intro other hother source' h' _ heq
      obtain rfl := resultRoute_inj h.1.1 h'.1.1 (List.append_cancel_left heq)
      exact hmem hother

/-- After a template that could not be read, one more failure is counted. -/
theorem Progress.Reflects.fail (hp : p.Reflects r t path route visited)
    (h : t.HoldsTemplate path route inside (some source)) (hfails : ¬r.Reads source)
    (notice : Notice) :
    Progress.Reflects { p.tell notice with failed := p.failed + 1 } r t path route
      (inside :: visited) where
  written := by
    rw [List.forall_mem_cons]
    refine ⟨fun other result hother hok => ?_, hp.written⟩
    rw [h.source_eq hother] at hok
    exact absurd (reads_of_templateResult hok) hfails
  unchanged there hthere := hp.unchanged there (List.forall_mem_cons.mp hthere).2
  directories := hp.directories
  workingDirectory := hp.workingDirectory
  written_eq_zero_iff := by
    rw [List.forall_mem_cons]
    refine hp.written_eq_zero_iff.trans (and_iff_right fun other hother => ?_).symm
    rwa [h.source_eq hother]
  failed_eq_zero_iff := by
    rw [List.forall_mem_cons]
    exact iff_of_false (Nat.succ_ne_zero _) fun hall => hfails (hall.1 source h)

/-- After a template that was read, its result is there and counted. -/
theorem Progress.Reflects.succeed (hp : p.Reflects r t path route visited)
    (hopen : t.IsOpenTo fs r path route) (h : t.HoldsTemplate path route inside (some source))
    (hresult : templateResult r source = .ok result) (notice : Notice) :
    Progress.Reflects { p.tell notice with
      tree := p.tree.write (route ++ resultRoute inside) (result ++ "\n")
      written := p.written + 1 } r t path route (inside :: visited) where
  written := by
    rw [List.forall_mem_cons]
    refine ⟨fun other result' hother hok => ?_, fun earlier hmem other result' hother hok => ?_⟩
    · rw [h.source_eq hother, hresult] at hok
      obtain rfl := Except.ok.inj hok
      exact FileTree.get?_write_self (hp.all_isFile hopen h hresult) _
    · by_cases heq : route ++ resultRoute earlier = route ++ resultRoute inside
      · obtain rfl := resultRoute_inj hother.1.1 h.1.1 (List.append_cancel_left heq)
        rw [h.source_eq hother, hresult] at hok
        obtain rfl := Except.ok.inj hok
        exact FileTree.get?_write_self (hp.all_isFile hopen h hresult) _
      · rw [FileTree.get?_write, if_neg heq]
        exact hp.written earlier hmem other result' hother hok
  unchanged there hthere := by
    rw [List.forall_mem_cons] at hthere
    rw [FileTree.get?_write, if_neg (hthere.1 source h (reads_of_templateResult hresult))]
    exact hp.unchanged there hthere.2
  directories there := by
    rw [FileTree.isDirectory_write, hp.directories]
    intro around haround hlength
    rw [hp.directories]
    exact h.1.isDirectory_around haround hlength
  workingDirectory := hp.workingDirectory
  written_eq_zero_iff := by
    rw [List.forall_mem_cons]
    exact iff_of_false (Nat.succ_ne_zero _) fun hall =>
      hall.1 source h (reads_of_templateResult hresult)
  failed_eq_zero_iff := by
    rw [List.forall_mem_cons]
    refine hp.failed_eq_zero_iff.trans (and_iff_right fun other hother => ?_).symm
    rw [h.source_eq hother]
    exact reads_of_templateResult hresult

/-- Reading a template reads the text that it had before the run, and ends well. -/
theorem Progress.Reflects.exists_runInside (hp : p.Reflects r t path route visited)
    (hready : t.IsReadyFor fs path route) (hopen : t.IsOpenTo fs r path route)
    (h : t.HoldsTemplate path route inside (some source)) :
    ∃ q, runInside fs r path route inside p = .ok q ∧
      q.Reflects r t path route (inside :: visited) := by
  have hget : p.tree.get? (route ++ inside) = some (.file (some source)) := by
    rw [hp.unchanged, h.1.2]
    exact fun other _ _ hother _ => h.ne_result hready.sound hother
  have hread := readInside_eq hget (hopen.templateShort _ _ h) (hopen.templateOpen _ _ h)
  rw [runInside, hread]
  dsimp only
  cases hresult : templateResult r source with
  | error failure => exact ⟨_, rfl, hp.fail h (not_reads_of_templateResult hresult) _⟩
  | ok result =>
    have hfault := hp.writeFault?_eq_none hready hopen h (reads_of_templateResult hresult)
    dsimp only
    rw [append_resultRoute, hfault]
    exact ⟨_, rfl, hp.succeed hopen h hresult _⟩

/-- What is no template of the tree does not change what has come of the run. -/
theorem Progress.Reflects.skip (hp : p.Reflects r t path route visited)
    (h : isTemplatePath (joinPath path inside) = false) :
    p.Reflects r t path route (inside :: visited) := by
  have hnone {source : String} : ¬t.HoldsTemplate path route inside (some source) :=
    fun hholds => ne_true_of_eq_false h hholds.2
  exact {
    written := List.forall_mem_cons.mpr ⟨fun _ _ hholds => absurd hholds hnone, hp.written⟩
    unchanged := fun there hthere => hp.unchanged there (List.forall_mem_cons.mp hthere).2
    directories := hp.directories
    workingDirectory := hp.workingDirectory
    written_eq_zero_iff := by
      rw [List.forall_mem_cons]
      exact hp.written_eq_zero_iff.trans
        (and_iff_right fun _ hholds => absurd hholds hnone).symm
    failed_eq_zero_iff := by
      rw [List.forall_mem_cons]
      exact hp.failed_eq_zero_iff.trans
        (and_iff_right fun _ hholds => absurd hholds hnone).symm }

/-- Before any file is visited, everything is as it was. -/
theorem Progress.reflects_start (r : TokenizeRequest) (t : FileTree) (path : String)
    (route : Route) : Progress.Reflects ⟨t, [], 0, 0⟩ r t path route [] where
  written := by simp
  unchanged _ _ := rfl
  directories _ := rfl
  workingDirectory := rfl
  written_eq_zero_iff := by simp
  failed_eq_zero_iff := by simp

/-- A run over the rest of the files goes on to the end. -/
theorem Progress.Reflects.exists_runEach {files : List Route}
    (hp : p.Reflects r t path route visited) (hready : t.IsReadyFor fs path route)
    (hopen : t.IsOpenTo fs r path route)
    (hfiles : ∀ inside ∈ files, isTemplatePath (joinPath path inside) = true →
      ∃ source, t.HoldsTemplate path route inside (some source)) :
    ∃ q, runEach fs r path route files p = .ok q ∧
      q.Reflects r t path route (files.reverse ++ visited) := by
  induction files generalizing p visited with
  | nil => exact ⟨p, rfl, hp⟩
  | cons inside files ih =>
    rw [List.forall_mem_cons] at hfiles
    rw [runEach, List.reverse_cons, List.append_assoc, List.singleton_append]
    by_cases hnamed : isTemplatePath (joinPath path inside) = true
    · obtain ⟨source, h⟩ := hfiles.1 hnamed
      obtain ⟨q, hrun, hq⟩ := hp.exists_runInside hready hopen h
      rw [if_pos hnamed, hrun]
      exact ih hq hfiles.2
    · rw [if_neg hnamed]
      exact ih (hp.skip (Bool.not_eq_true _ ▸ hnamed)) hfiles.2

/-- A run that has come to all templates without being stopped has written the results of those that
can be read. -/
theorem Progress.Reflects.writesResults (hp : p.Reflects r t path route visited)
    (hready : t.IsReadyFor fs path route) (hopen : t.IsOpenTo fs r path route)
    (hall : ∀ inside source, t.HoldsTemplate path route inside (some source) → inside ∈ visited)
    (hrun : runEach fs r path route order ⟨t, [], 0, 0⟩ = .ok p) :
    (runDirectory fs r t path route order).WritesResults fs r t path route := by
  have hvisited (P : String → Prop) : (∀ inside ∈ visited, ∀ source,
      t.HoldsTemplate path route inside (some source) → P source) ↔
        ∀ inside source, t.HoldsTemplate path route inside (some source) → P source :=
    ⟨fun h inside source hholds => h inside (hall _ _ hholds) source hholds,
      fun h inside _ source => h inside source⟩
  have hwritten := hp.written_eq_zero_iff.trans (hvisited fun source => ¬r.Reads source)
  have hfailed := hp.failed_eq_zero_iff.trans (hvisited r.Reads)
  rw [runDirectory, hrun]
  dsimp only
  split
  · next hempty =>
    simp only [Bool.and_eq_true, decide_eq_true_eq] at hempty
    have hnone (inside : Route) (source : String) :
        ¬t.HoldsTemplate path route inside (some source) := fun h =>
      hwritten.mp hempty.1 _ _ h (hfailed.mp hempty.2 _ _ h)
    exact {
      written := fun inside source h => absurd h (hnone _ _)
      unchanged := fun _ _ => rfl
      directories := fun _ => rfl
      workingDirectory := rfl
      code_eq_zero_iff := iff_of_false Nat.one_ne_zero fun h => h.1.elim fun inside h =>
        h.elim fun source h => hnone inside source h
      code_le := Nat.le_refl _ }
  · next hsome =>
    simp only [Bool.and_eq_true, decide_eq_true_eq, not_and'] at hsome
    refine {
      written := fun inside source h hreads => ?_
      unchanged := fun there hthere => hp.unchanged there fun inside _ => hthere inside
      directories := hp.directories
      workingDirectory := hp.workingDirectory
      code_eq_zero_iff := ?_
      code_le := ?_ }
    · obtain ⟨result, hresult⟩ := templateResult_of_reads hreads
      have htold := runTokenize_forFile hready.sound hready.located h
        (hopen.templateShort _ _ h)
        (hopen.templateOpen _ _ h) hresult
      exact ⟨result, htold, hp.written inside (hall _ _ h) source result h hresult⟩
    · by_cases hzero : p.failed = 0
      · have hexists : ∃ inside source, t.HoldsTemplate path route inside (some source) := by
          by_contra hnone
          exact hsome hzero (hwritten.mpr fun inside source h => absurd ⟨inside, source, h⟩ hnone)
        simp only [if_pos hzero, true_iff]
        exact ⟨hexists, hfailed.mp hzero⟩
      · simp only [if_neg hzero]
        exact iff_of_false Nat.one_ne_zero fun h => hzero (hfailed.mpr h.2)
    · dsimp only
      split
      · exact Nat.zero_le _
      · exact Nat.le_refl _

/-- Whatever the order of visiting, a run writes the results of the templates that can be read. -/
theorem FileTree.IsVisitedIn.writesResults (horder : t.IsVisitedIn path route order)
    (hready : t.IsReadyFor fs path route) (hopen : t.IsOpenTo fs r path route) :
    (runDirectory fs r t path route order).WritesResults fs r t path route := by
  have hfiles : ∀ inside ∈ order, isTemplatePath (joinPath path inside) = true →
      ∃ source, t.HoldsTemplate path route inside (some source) :=
    fun inside hmem hnamed => horder.exists_holdsTemplate hready hmem hnamed
  obtain ⟨p, hrun, hp⟩ :=
    (Progress.reflects_start r t path route).exists_runEach hready hopen hfiles
  refine hp.writesResults hready hopen (fun inside source h => ?_) hrun
  rw [List.append_nil, List.mem_reverse]
  exact horder.complete inside _ h

/-- Two runs that write the same results leave the same files and end with the same code. -/
theorem Outcome.WritesResults.same {o o' : Outcome} (h : o.WritesResults fs r t path route)
    (h' : o'.WritesResults fs r t path route) :
    o.code = o'.code ∧ ∀ there, o.tree.get? there = o'.tree.get? there := by
  constructor
  · have hle := h.code_le
    have hle' := h'.code_le
    have hzero := h.code_eq_zero_iff.trans h'.code_eq_zero_iff.symm
    omega
  · intro there
    by_cases hresult : ∃ inside source, t.HoldsTemplate path route inside (some source) ∧
        r.Reads source ∧ there = route ++ resultRoute inside
    · obtain ⟨inside, source, hholds, hreads, rfl⟩ := hresult
      obtain ⟨result, hprints, hget⟩ := h.written _ _ hholds hreads
      obtain ⟨result', hprints', hget'⟩ := h'.written _ _ hholds hreads
      have hsame : result ++ "\n" = result' ++ "\n" :=
        congrArg Outcome.output ((hprints none).symm.trans (hprints' none))
      rw [hget, hget', hsame]
    · have hother : ∀ inside source, t.HoldsTemplate path route inside (some source) →
          r.Reads source → there ≠ route ++ resultRoute inside :=
        fun inside source hholds hreads heq => hresult ⟨inside, source, hholds, hreads, heq⟩
      rw [h.unchanged there hother, h'.unchanged there hother]

/-- The command for a directory runs over the files to which the walk comes. -/
theorem runTokenize_directory (hlocated : t.locate fs path = .directory route)
    (hpath : r.path = some path) (hinput : r.fromInput = false) {input : Option String} :
    runTokenize fs r input t = runDirectory fs r t path route (t.walk fs path route) := by
  simp only [runTokenize, hinput, hpath, Bool.false_eq_true, if_false, runPath, hlocated]

/-- A run over a directory writes exactly the results of the templates that can be read, and its
files and its code do not depend on the order in which the walk comes to the files. -/
theorem runTokenize_writesResults (hready : t.IsReadyFor fs path route)
    (hopen : t.IsOpenTo fs r path route) (hpath : r.path = some path)
    (hinput : r.fromInput = false) (input : Option String) :
    (runTokenize fs r input t).WritesResults fs r t path route ∧
      ∀ order, t.IsVisitedIn path route order →
        (runDirectory fs r t path route order).WritesResults fs r t path route ∧
          (runDirectory fs r t path route order).code = (runTokenize fs r input t).code ∧
          ∀ there, (runDirectory fs r t path route order).tree.get? there =
            (runTokenize fs r input t).tree.get? there := by
  have hwalk := (hready.isVisitedIn_walk hopen).writesResults hready hopen
  rw [runTokenize_directory hready.located hpath hinput]
  refine ⟨hwalk, fun order horder => ?_⟩
  have hother := horder.writesResults hready hopen
  exact ⟨hother, hother.same hwalk⟩

private def mixedTree : FileTree where
  workingDirectory := ["w"]
  entries :=
    [(["w", "d", "a.tml"], .file (some "x")), (["w", "d", "a.tml.tokens.json"], .file (some "old")),
      (["w", "d", "sub", "b.dtml"], .file (some "<p>")), (["w", "d", "notes"], .file none),
      (["w", "d", "pipe.tml"], .stream (some "z")), (["w", "c.tml"], .file (some "y"))]

/-- It lets nobody read the notes, nor write to the templates. -/
private def guardedSystem : FileSystem where
  refusal?
    | .read, route => if route = ["w", "d", "notes"] then some "Permission denied" else none
    | .write, route => if route = ["w", "d", "a.tml"] then some "Permission denied" else none

private def directoryRequest : TokenizeRequest := ⟨some "d", false, .compact, false, 8⟩

private def mixedOrder : List Route :=
  [["sub", "b.dtml"], ["notes"], ["a.tml"], ["a.tml.tokens.json"]]

/-- One template can be read and one cannot, the walk comes to the one that cannot first, and to the
result of the other one. A stream with the name of a template is passed over, and the file system
refuses what the run does not need. -/
theorem runTokenize_writesResults_mixed :
    mixedTree.IsReadyFor guardedSystem "d" ["w", "d"] ∧
      mixedTree.IsOpenTo guardedSystem directoryRequest "d" ["w", "d"] ∧
      mixedTree.IsVisitedIn "d" ["w", "d"] mixedOrder ∧
      (runTokenize guardedSystem directoryRequest none mixedTree).WritesResults guardedSystem
        directoryRequest mixedTree "d" ["w", "d"] ∧
      (runDirectory guardedSystem directoryRequest mixedTree "d" ["w", "d"] mixedOrder).code =
        1 := by
  have hready : mixedTree.IsReadyFor guardedSystem "d" ["w", "d"] :=
    .of_filesInside ⟨by decide +kernel, by decide +kernel, by decide +kernel, by decide +kernel⟩
      (by decide +kernel) (by decide +kernel)
  have hopen : mixedTree.IsOpenTo guardedSystem directoryRequest "d" ["w", "d"] :=
    .of_filesInside hready.sound (by decide +kernel)
  have horder : mixedTree.IsVisitedIn "d" ["w", "d"] mixedOrder :=
    .of_filesInside hready.sound (by decide +kernel) (by decide +kernel)
  obtain ⟨hwrites, hall⟩ := runTokenize_writesResults hready hopen rfl rfl none
  refine ⟨hready, hopen, horder, hwrites, ?_⟩
  rw [(hall mixedOrder horder).2.1]
  decide +kernel

/-- A run is stopped by a template that can be read when its result cannot be written. -/
theorem runDirectory_stopped {fault : FileFault}
    (h : t.HoldsTemplate path route inside (some source)) (hreads : r.Reads source)
    (hshort : fs.isTooLong (joinPath path inside) = false)
    (hopen : fs.refusal? .read (route ++ inside) = none)
    (hfault : writeFault? fs t (resultPath (joinPath path inside)) (route ++ resultRoute inside) =
      some fault) (rest : List Route) :
    runDirectory fs r t path route (inside :: rest) =
      .failed t (unwritable (resultPath (joinPath path inside)) fault) := by
  obtain ⟨result, hresult⟩ := templateResult_of_reads hreads
  have hread := readInside_eq h.1.2 hshort hopen
  have hinside : runInside fs r path route inside ⟨t, [], 0, 0⟩ =
      .error ⟨t, [unwritable (resultPath (joinPath path inside)) fault], 0, 0⟩ := by
    rw [runInside, hread]
    simp only [hresult, append_resultRoute, hfault]
    rfl
  rw [runDirectory, runEach, if_pos h.2, hinside]
  rfl

/-- How far a run has come, whether it was stopped or not. -/
def Progress.reached : Except Progress Progress → Progress
  | .ok p | .error p => p

/-- Reading one template leaves the files as they are, or writes one text. -/
theorem runInside_tree (fs : FileSystem) (r : TokenizeRequest) (path : String)
    (route inside : Route) (p : Progress) :
    (Progress.reached (runInside fs r path route inside p)).tree = p.tree ∨
      ∃ place text, (Progress.reached (runInside fs r path route inside p)).tree =
        p.tree.write place text := by
  dsimp only [runInside]
  split
  · exact Or.inl rfl
  · split
    · exact Or.inl rfl
    · split
      · exact Or.inl rfl
      · exact Or.inr ⟨_, _, rfl⟩

/-- A run over files leaves a stream where one is. -/
theorem runEach_stream {files : List Route} {there : Route} {given : Option String}
    (h : p.tree.get? there = some (.stream given)) :
    (Progress.reached (runEach fs r path route files p)).tree.get? there =
      some (.stream given) := by
  induction files generalizing p with
  | nil => exact h
  | cons inside files ih =>
    have hstep : (Progress.reached (runInside fs r path route inside p)).tree.get? there =
        some (.stream given) := by
      rcases runInside_tree fs r path route inside p with htree | ⟨place, text, htree⟩
      · rwa [htree]
      · rw [htree, FileTree.get?_write_stream h]
    rw [runEach]
    split
    · cases hrun : runInside fs r path route inside p with
      | error stopped => rwa [hrun] at hstep
      | ok after =>
        rw [hrun] at hstep
        exact ih hstep
    · exact ih h

/-- A stream in the place of a result takes the text and stays a stream, so that the result is not
there afterwards. -/
theorem Outcome.not_writesResults_of_stream {given : Option String}
    (h : t.HoldsTemplate path route inside (some source)) (hreads : r.Reads source)
    (hstream : t.get? (route ++ resultRoute inside) = some (.stream given)) (order : List Route) :
    ¬(runDirectory fs r t path route order).WritesResults fs r t path route := by
  intro hwrites
  obtain ⟨result, -, hget⟩ := hwrites.written _ _ h hreads
  have hreached : (Progress.reached (runEach fs r path route order ⟨t, [], 0, 0⟩)).tree.get?
      (route ++ resultRoute inside) = some (.stream given) := runEach_stream hstream
  have hstays : (runDirectory fs r t path route order).tree.get? (route ++ resultRoute inside) =
      some (.stream given) := by
    rw [runDirectory]
    cases hrun : runEach fs r path route order ⟨t, [], 0, 0⟩ with
    | error p => rwa [hrun] at hreached
    | ok p =>
      rw [hrun] at hreached
      dsimp only
      split
      · exact hstream
      · exact hreached
  rw [hstays] at hget
  cases hget

private def longChars : List Char := List.replicate 120 'é' ++ ".tml".toList

private def longName : String := String.ofList longChars

private def longNamedTree : FileTree := ⟨[], [(["d", longName], .file (some "x"))]⟩

private theorem isName_longName : IsName longName where
  ne_empty := by decide +kernel
  ne_here := by decide +kernel
  ne_parent := by decide +kernel
  not_mem := by
    rw [longName, String.toList_ofList]
    decide +kernel

/-- The name of a template may be so long that there cannot be a file with the name of its result.
The run is stopped there, although the template can be read. -/
theorem runTokenize_stopped_longName :
    longNamedTree.IsReadyFor {} "d" ["d"] ∧ longNamedTree.IsVisitedIn "d" ["d"] [[longName]] ∧
      directoryRequest.Reads "x" ∧
      runTokenize {} directoryRequest none longNamedTree =
        .failed longNamedTree (unwritable (resultPath (joinPath "d" [longName])) .tooLong) ∧
      ¬(runTokenize {} directoryRequest none longNamedTree).WritesResults {} directoryRequest
        longNamedTree "d" ["d"] := by
  have hsound : longNamedTree.IsSound {} := by
    refine ⟨by decide +kernel, ?_, ?_, by decide +kernel⟩
    · have hnames : ∀ name ∈ ["d", longName], IsName name :=
        List.forall_mem_cons.mpr ⟨by decide +kernel, List.forall_mem_singleton.mpr isName_longName⟩
      exact List.forall_mem_singleton.mpr hnames
    · exact List.forall_mem_singleton.mpr (by decide +kernel)
  have honly : longNamedTree.filesInside ["d"] = [[longName]] := by decide +kernel
  have hchars : longName.toList = longChars := String.toList_ofList
  have hname : fileName (joinPath "d" [longName]) = longChars :=
    (fileName_joinPath "d" [] isName_longName.not_mem).trans hchars
  have hresult : fileName (resultPath (joinPath "d" [longName])) =
      longChars ++ ".tokens.json".toList := by
    rw [← joinPath_resultRoute (List.cons_ne_nil _ _), ← hchars]
    exact fileName_resultPath "d" [] isName_longName.not_mem
  have hready : longNamedTree.IsReadyFor {} "d" ["d"] := by
    refine .of_filesInside hsound (by decide +kernel) ?_
    rw [honly]
    exact List.forall_mem_singleton.mpr fun _ => by decide +kernel
  have hholds : longNamedTree.HoldsTemplate "d" ["d"] [longName] (some "x") := by
    refine ⟨⟨List.cons_ne_nil _ _, by decide +kernel⟩, ?_⟩
    rw [isTemplatePath, hname]
    decide +kernel
  have horder : longNamedTree.IsVisitedIn "d" ["d"] [[longName]] := by
    refine .of_filesInside hsound ?_ ?_
    · rw [honly]
      exact fun inside h _ => h
    · rw [honly]
      exact fun inside h => Or.inl h
  have hreads : directoryRequest.Reads "x" := by decide +kernel
  have hrun : runTokenize {} directoryRequest none longNamedTree =
      .failed longNamedTree (unwritable (resultPath (joinPath "d" [longName])) .tooLong) := by
    have hwalk : longNamedTree.walk {} "d" ["d"] = [[longName]] := by decide +kernel
    rw [runTokenize_directory hready.located rfl rfl, hwalk]
    refine runDirectory_stopped hholds hreads ?_ rfl ?_ []
    · rw [FileSystem.isTooLong, hname]
      decide +kernel
    · rw [writeFault?, if_pos]
      rw [FileSystem.isTooLong, hresult]
      decide +kernel
  refine ⟨hready, horder, hreads, hrun, fun hwrites => ?_⟩
  have hall : ∀ inside source,
      longNamedTree.HoldsTemplate "d" ["d"] inside (some source) →
        directoryRequest.Reads source := by
    intro inside source h
    have hmem := h.mem_filesInside hsound
    rw [honly, List.mem_singleton] at hmem
    subst hmem
    rwa [hholds.source_eq h]
  have hcode := hwrites.code_eq_zero_iff.mpr ⟨⟨_, _, hholds⟩, hall⟩
  rw [hrun] at hcode
  cases hcode

end

end TemplateReader
