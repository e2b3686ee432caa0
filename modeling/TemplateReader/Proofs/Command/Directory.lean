import TemplateReader.Proofs.Command.FileTree

/-!
# Templates of a directory

A directory holds templates, and the result of each one has its place beside it. No
such place is that of a template, so that a template stays what it is while results
are written. A directory is ready for a run when nothing but the templates
themselves can keep the run from writing their results. All this is found
out from the list of the files inside the directory.
-/

namespace TemplateReader

/-- A template can be read. -/
def TokenizeRequest.Reads (r : TokenizeRequest) (source : String) : Prop :=
  ∃ document, Document.read source r.limit = .ok document

instance (r : TokenizeRequest) (source : String) : Decidable (r.Reads source) :=
  match h : Document.read source r.limit with
  | .ok document => isTrue ⟨document, h⟩
  | .error _ => isFalse fun ⟨_, hread⟩ => by
    rw [h] at hread
    cases hread

namespace FileTree

/-- A file is inside a directory. -/
def HoldsFile (t : FileTree) (route inside : Route) (content : Option String) : Prop :=
  inside ≠ [] ∧ t.get? (route ++ inside) = some (.file content)

/-- A template is inside a directory that was given by a path. -/
def HoldsTemplate (t : FileTree) (path : String) (route inside : Route)
    (content : Option String) : Prop :=
  t.HoldsFile route inside content ∧ isTemplatePath (joinPath path inside) = true

/-- A directory whose templates are texts, and where no directory stands in the place of the result
of one. -/
structure IsReadyFor (t : FileTree) (fs : FileSystem) (path : String) (route : Route) : Prop where
  /-- The tree is one as the file system has it. -/
  sound : t.IsSound fs
  /-- The path leads to the directory. -/
  located : t.locate fs path = .directory route
  /-- The templates are texts. -/
  readable : ∀ inside content, t.HoldsTemplate path route inside content → content ≠ none
  /-- The place of a result is not taken by a directory. -/
  free : ∀ inside content, t.HoldsTemplate path route inside content →
    t.isDirectory (route ++ resultRoute inside) = false

/-- The file system keeps a run from nothing that it needs to read the templates and to write the
results of those that can be read. -/
structure IsOpenTo (t : FileTree) (fs : FileSystem) (r : TokenizeRequest) (path : String)
    (route : Route) : Prop where
  /-- The directories around a template can be looked into. -/
  listed : ∀ inside source, t.HoldsTemplate path route inside (some source) →
    ∀ depth < inside.length, fs.refusal? .read (route ++ inside.take depth) = none
  /-- The path of a template is not over a limit. -/
  templateShort : ∀ inside source, t.HoldsTemplate path route inside (some source) →
    fs.isTooLong (joinPath path inside) = false
  /-- A template can be opened. -/
  templateOpen : ∀ inside source, t.HoldsTemplate path route inside (some source) →
    fs.refusal? .read (route ++ inside) = none
  /-- The path of a result is not over a limit. -/
  resultShort : ∀ inside source, t.HoldsTemplate path route inside (some source) →
    r.Reads source → fs.isTooLong (resultPath (joinPath path inside)) = false
  /-- The place of a result can be opened for writing. -/
  resultOpen : ∀ inside source, t.HoldsTemplate path route inside (some source) →
    r.Reads source → fs.refusal? .write (route ++ resultRoute inside) = none
  /-- What stands in the place of a result, if anything, is a file. -/
  resultRegular : ∀ inside source, t.HoldsTemplate path route inside (some source) →
    r.Reads source → (t.get? (route ++ resultRoute inside)).all FileEntry.isFile = true

/-- An order in which a walk may come to the files inside a directory while a run goes on: to each
template once or more often, to any other files, and to results that the run has put there. -/
structure IsVisitedIn (t : FileTree) (path : String) (route : Route) (order : List Route) :
    Prop where
  /-- The walk comes to each template. -/
  complete : ∀ inside content, t.HoldsTemplate path route inside content → inside ∈ order
  /-- It comes to files, and to results of templates. -/
  sound : ∀ inside ∈ order, (∃ content, t.HoldsFile route inside content) ∨
    ∃ template content, t.HoldsTemplate path route template content ∧ inside = resultRoute template

end FileTree

section

variable {r : TokenizeRequest} {t : FileTree} {fs : FileSystem} {path source other result : String}
  {route inside there : Route} {order : List Route} {failure : Failure}
  {content : Option String}

/-- A template that can be read has a result. -/
theorem templateResult_of_reads (h : r.Reads source) :
    ∃ result, templateResult r source = .ok result := by
  obtain ⟨document, hread⟩ := h
  rw [templateResult, hread]
  exact ⟨_, rfl⟩

/-- A template with a result can be read. -/
theorem reads_of_templateResult (h : templateResult r source = .ok result) : r.Reads source := by
  unfold templateResult at h
  split at h
  · cases h
  · next document hread => exact ⟨document, hread⟩

/-- A template whose result is a failure cannot be read. -/
theorem not_reads_of_templateResult (h : templateResult r source = .error failure) :
    ¬r.Reads source := by
  intro hreads
  obtain ⟨result, hresult⟩ := templateResult_of_reads hreads
  rw [h] at hresult
  cases hresult

namespace FileTree

/-- One template has one text. -/
theorem HoldsTemplate.source_eq (h : t.HoldsTemplate path route inside (some source))
    (h' : t.HoldsTemplate path route inside (some other)) : other = source := by
  have hsame := h'.1.2.symm.trans h.1.2
  simpa using hsame

/-- No name on the way to a template has a slash in it. -/
theorem HoldsTemplate.not_mem (h : t.HoldsTemplate path route inside content) (ht : t.IsSound fs) :
    ∀ name ∈ inside, '/' ∉ name.toList := fun name hname =>
  (ht.names _ (mem_of_get? h.1.2) name (List.mem_append_right _ hname)).not_mem

/-- A template is among the files inside the directory. -/
theorem HoldsTemplate.mem_filesInside (h : t.HoldsTemplate path route inside content)
    (ht : t.IsSound fs) : inside ∈ t.filesInside route :=
  ht.mem_filesInside_iff.mpr ⟨h.1.1, _, h.1.2⟩

/-- The place of a result is not that of a template. -/
theorem HoldsTemplate.ne_result {other : Route} {content' : Option String} (ht : t.IsSound fs)
    (h : t.HoldsTemplate path route inside content)
    (h' : t.HoldsTemplate path route other content') :
    route ++ inside ≠ route ++ resultRoute other := by
  intro heq
  have hnamed := h.2
  rw [List.append_cancel_left heq, isTemplatePath_resultRoute h'.1.1 (h'.not_mem ht)] at hnamed
  cases hnamed

/-- Directories around the place of a result are directories around its template. -/
theorem HoldsFile.isDirectory_around (h : t.HoldsFile route inside content)
    (haround : there <+: route ++ resultRoute inside)
    (hlength : there.length < (route ++ resultRoute inside).length) :
    t.isDirectory there = true := by
  obtain ⟨hne, hget⟩ := h
  obtain ⟨init, name, rfl⟩ := exists_eq_concat hne
  rw [resultRoute_concat, ← List.append_assoc] at haround hlength
  rw [← List.append_assoc] at hget
  refine FileTree.isDirectory_around hget ?_ (by simpa using hlength)
  rcases List.prefix_concat_iff.mp haround with rfl | haround
  · exact absurd hlength (Nat.lt_irrefl _)
  · exact haround.trans (List.prefix_append _ _)

/-- Whether a directory is ready is found out from the files inside it. -/
theorem IsReadyFor.of_filesInside (ht : t.IsSound fs)
    (hlocated : t.locate fs path = .directory route)
    (h : ∀ inside ∈ t.filesInside route, isTemplatePath (joinPath path inside) = true →
      t.get? (route ++ inside) ≠ some (.file none) ∧
        t.isDirectory (route ++ resultRoute inside) = false) : t.IsReadyFor fs path route where
  sound := ht
  located := hlocated
  readable inside _ hholds hnone :=
    (h inside (hholds.mem_filesInside ht) hholds.2).1 (hnone ▸ hholds.1.2)
  free inside _ hholds := (h inside (hholds.mem_filesInside ht) hholds.2).2

/-- So is whether the file system keeps a run from anything. -/
theorem IsOpenTo.of_filesInside (ht : t.IsSound fs)
    (h : ∀ inside ∈ t.filesInside route, isTemplatePath (joinPath path inside) = true →
      (∀ depth < inside.length, fs.refusal? .read (route ++ inside.take depth) = none) ∧
        fs.isTooLong (joinPath path inside) = false ∧
        fs.refusal? .read (route ++ inside) = none ∧
        fs.isTooLong (resultPath (joinPath path inside)) = false ∧
        fs.refusal? .write (route ++ resultRoute inside) = none ∧
        (t.get? (route ++ resultRoute inside)).all FileEntry.isFile = true) :
    t.IsOpenTo fs r path route where
  listed inside _ hholds := (h inside (hholds.mem_filesInside ht) hholds.2).1
  templateShort inside _ hholds := (h inside (hholds.mem_filesInside ht) hholds.2).2.1
  templateOpen inside _ hholds := (h inside (hholds.mem_filesInside ht) hholds.2).2.2.1
  resultShort inside _ hholds _ := (h inside (hholds.mem_filesInside ht) hholds.2).2.2.2.1
  resultOpen inside _ hholds _ := (h inside (hholds.mem_filesInside ht) hholds.2).2.2.2.2.1
  resultRegular inside _ hholds _ := (h inside (hholds.mem_filesInside ht) hholds.2).2.2.2.2.2

/-- So is whether a walk may come to the files in an order. -/
theorem IsVisitedIn.of_filesInside (ht : t.IsSound fs)
    (hcomplete : ∀ inside ∈ t.filesInside route, isTemplatePath (joinPath path inside) = true →
      inside ∈ order)
    (hsound : ∀ inside ∈ order, inside ∈ t.filesInside route ∨
      ∃ template ∈ t.filesInside route, isTemplatePath (joinPath path template) = true ∧
        inside = resultRoute template) : t.IsVisitedIn path route order where
  complete inside _ hholds := hcomplete inside (hholds.mem_filesInside ht) hholds.2
  sound inside hmem := by
    rcases hsound inside hmem with hfile | ⟨template, hfile, hnamed, hresult⟩
    · obtain ⟨hne, content, hget⟩ := ht.mem_filesInside_iff.mp hfile
      exact Or.inl ⟨content, hne, hget⟩
    · obtain ⟨hne, content, hget⟩ := ht.mem_filesInside_iff.mp hfile
      exact Or.inr ⟨template, content, ⟨⟨hne, hget⟩, hnamed⟩, hresult⟩

/-- The walk of the command comes to the templates, and to files only. -/
theorem IsReadyFor.isVisitedIn_walk (hready : t.IsReadyFor fs path route)
    (hopen : t.IsOpenTo fs r path route) :
    t.IsVisitedIn path route (t.walk fs path route) where
  complete inside _ h := by
    obtain ⟨source, rfl⟩ := Option.ne_none_iff_exists'.mp (hready.readable _ _ h)
    have hlong := FileSystem.utf8ByteSize_le_of_isTooLong (hopen.templateShort _ _ h)
    have hlisted := hopen.listed _ _ h
    refine List.mem_filter.mpr ⟨h.mem_filesInside hready.sound, ?_⟩
    simp only [Bool.and_eq_true, decide_eq_true_eq, List.all_eq_true, List.mem_range,
      Option.isNone_iff_eq_none]
    obtain ⟨init, name, rfl⟩ := exists_eq_concat h.1.1
    rw [List.dropLast_concat]
    exact ⟨Nat.le_trans (utf8ByteSize_joinPath_le path init name) hlong, hlisted⟩
  sound inside h := by
    obtain ⟨hne, content, hget⟩ :=
      hready.sound.mem_filesInside_iff.mp (List.mem_of_mem_filter h)
    exact Or.inl ⟨content, hne, hget⟩

/-- A walk comes to no file that is named as a template but the templates of the tree. -/
theorem IsVisitedIn.exists_holdsTemplate (horder : t.IsVisitedIn path route order)
    (hready : t.IsReadyFor fs path route) (hmem : inside ∈ order)
    (hnamed : isTemplatePath (joinPath path inside) = true) :
    ∃ source, t.HoldsTemplate path route inside (some source) := by
  rcases horder.sound inside hmem with ⟨content, hfile⟩ | ⟨template, content, htemplate, rfl⟩
  · cases content with
    | none => exact absurd rfl (hready.readable _ _ ⟨hfile, hnamed⟩)
    | some source => exact ⟨source, hfile, hnamed⟩
  · rw [isTemplatePath_resultRoute htemplate.1.1 (htemplate.not_mem hready.sound)] at hnamed
    cases hnamed

end FileTree

end

end TemplateReader
