import Mathlib.Data.List.Basic
import TemplateReader.Command.Run

/-!
# Paths inside a directory

The path of a file inside a directory is that of the directory, a slash, and the
names on the way with slashes between them. It leads from where the path of
the directory leads. The last name alone tells whether a file is a template, and the
path of a result is that of its template with a longer last name. No result is
a template, and no two templates share a result.
-/

namespace TemplateReader

/-- A name that a file or directory can have inside another one. -/
structure IsName (name : String) : Prop where
  /-- It has characters. -/
  ne_empty : name ≠ ""
  /-- It does not stand for the directory itself. -/
  ne_here : name ≠ "."
  /-- It does not stand for the directory around. -/
  ne_parent : name ≠ ".."
  /-- It is one step of a path. -/
  not_mem : '/' ∉ name.toList

instance (name : String) : Decidable (IsName name) :=
  decidable_of_iff (name ≠ "" ∧ name ≠ "." ∧ name ≠ ".." ∧ '/' ∉ name.toList)
    ⟨fun ⟨hempty, hhere, hparent, hslash⟩ => ⟨hempty, hhere, hparent, hslash⟩,
      fun h => ⟨h.ne_empty, h.ne_here, h.ne_parent, h.not_mem⟩⟩

/-- Where the result of a file inside a directory is, from that directory on. -/
def resultRoute (inside : Route) : Route :=
  inside.dropLast ++ [resultPath (inside.getLastD "")]

section

variable {x y : List Char} {name path directory : String} {inside init : Route}

/-- A path has at least one step. -/
theorem FileTree.steps_ne_nil (x : List Char) : steps x ≠ [] := by
  induction x with
  | nil => exact List.cons_ne_nil _ _
  | cons c x ih =>
    rw [steps]
    split
    · exact List.cons_ne_nil _ _
    · split <;> exact List.cons_ne_nil _ _

/-- A path without slashes is one step. -/
theorem FileTree.steps_of_not_mem (h : '/' ∉ x) : steps x = [x] := by
  induction x with
  | nil => rfl
  | cons c x ih =>
    rw [List.mem_cons, not_or] at h
    rw [steps, if_neg (Ne.symm h.1), ih h.2]

/-- A slash ends a step. -/
theorem FileTree.steps_append_slash (x y : List Char) :
    steps (x ++ '/' :: y) = steps x ++ steps y := by
  induction x with
  | nil => rfl
  | cons c x ih =>
    rw [List.cons_append, steps, steps, ih]
    split
    · rfl
    · cases hx : steps x with
      | nil => exact absurd hx (steps_ne_nil x)
      | cons first others => rfl

/-- Names with slashes between them are the steps of what they make up. -/
theorem FileTree.steps_intercalate (hne : inside ≠ []) (h : ∀ name ∈ inside, '/' ∉ name.toList) :
    (steps ("/".intercalate inside).toList).map String.ofList = inside := by
  induction inside with
  | nil => exact absurd rfl hne
  | cons name inside ih =>
    rw [List.forall_mem_cons] at h
    cases inside with
    | nil =>
      rw [String.intercalate_singleton, steps_of_not_mem h.1]
      simp
    | cons next inside =>
      have hslash : "/".toList = ['/'] := rfl
      rw [String.intercalate_cons_cons, String.toList_append, String.toList_append, hslash,
        List.append_assoc, List.singleton_append, steps_append_slash, steps_of_not_mem h.1,
        List.map_append, ih (List.cons_ne_nil _ _) h.2]
      simp

/-- The path of something inside a directory is that of the directory, one slash, and the names. -/
theorem joinPath_of_ne_nil (directory : String) (hne : inside ≠ []) : joinPath directory inside =
    directory ++ (if directory.toList.getLast? = some '/' then "" else "/") ++
      "/".intercalate inside := by
  rw [joinPath]
  exact hne

/-- Files of one directory have paths that differ in the last name only, behind a slash. -/
theorem exists_joinPath_concat (directory : String) (init : Route) :
    ∃ front : String, front.toList.getLast? = some '/' ∧
      ∀ name, joinPath directory (init ++ [name]) = front ++ name := by
  have hslash : (directory ++
      if directory.toList.getLast? = some '/' then "" else "/").toList.getLast? = some '/' := by
    split
    · next h => rwa [String.append_empty]
    · rw [String.toList_append]
      exact List.getLast?_concat
  have hne (name : String) : init ++ [name] ≠ [] :=
    List.append_ne_nil_of_right_ne_nil _ (List.cons_ne_nil _ _)
  have hjoin (name : String) := joinPath_of_ne_nil directory (hne name)
  by_cases hinit : init = []
  · refine ⟨_, hslash, fun name => ?_⟩
    rw [hjoin, hinit, List.nil_append, String.intercalate_singleton]
  · refine ⟨directory ++ (if directory.toList.getLast? = some '/' then "" else "/") ++
      "/".intercalate init ++ "/", ?_, fun name => ?_⟩
    · rw [String.toList_append]
      exact List.getLast?_concat
    · rw [hjoin, String.intercalate_append_of_ne_nil hinit (List.cons_ne_nil _ _),
        String.intercalate_singleton]
      simp only [String.append_assoc]

/-- The last name of a path is what stands behind its last slash. -/
theorem fileName_append {front : String} (hfront : front.toList.getLast? = some '/')
    (hname : '/' ∉ name.toList) : fileName (front ++ name) = name.toList := by
  obtain ⟨text, htext⟩ := List.getLast?_eq_some_iff.mp hfront
  have hall : ∀ c ∈ name.toList.reverse, (c != '/') = true := by
    intro c hc
    rw [List.mem_reverse] at hc
    exact bne_iff_ne.mpr fun h => hname (h ▸ hc)
  rw [fileName, String.toList_append, htext, List.reverse_append, List.reverse_append,
    List.takeWhile_append_of_pos hall]
  simp

/-- The path of a directory is no longer than that of what is inside it. -/
theorem utf8ByteSize_joinPath_le (directory : String) (init : Route) (name : String) :
    (joinPath directory init).utf8ByteSize ≤
      (joinPath directory (init ++ [name])).utf8ByteSize := by
  rw [joinPath_of_ne_nil _ (List.append_ne_nil_of_right_ne_nil _ (List.cons_ne_nil name []))]
  by_cases hinit : init = []
  · rw [hinit, joinPath, String.utf8ByteSize_append, String.utf8ByteSize_append]
    omega
  · rw [joinPath_of_ne_nil _ hinit,
      String.intercalate_append_of_ne_nil hinit (List.cons_ne_nil _ _)]
    simp only [String.utf8ByteSize_append]
    omega

/-- The last name on the way to a file is the last name of its path. -/
theorem fileName_joinPath (directory : String) (init : Route) (hname : '/' ∉ name.toList) :
    fileName (joinPath directory (init ++ [name])) = name.toList := by
  obtain ⟨front, hfront, hjoin⟩ := exists_joinPath_concat directory init
  rw [hjoin, fileName_append hfront hname]

/-- A path that is not too long is within the limit of paths. -/
theorem FileSystem.utf8ByteSize_le_of_isTooLong {fs : FileSystem} (h : fs.isTooLong path = false) :
    path.utf8ByteSize ≤ fs.pathLimit := by
  simp only [isTooLong, Bool.or_eq_false_iff, decide_eq_false_iff_not] at h
  exact Nat.not_lt.mp h.1

/-- A way that is not empty has a last name. -/
theorem exists_eq_concat (hne : inside ≠ []) : ∃ init name, inside = init ++ [name] :=
  ⟨_, _, (List.dropLast_append_getLast hne).symm⟩

/-- The result of a file is in the directory of the file. -/
theorem resultRoute_concat (init : Route) (name : String) :
    resultRoute (init ++ [name]) = init ++ [resultPath name] := by
  rw [resultRoute, List.dropLast_concat, List.getLastD_concat]

/-- From the root on, the result of a file is where it is from the directory on. -/
theorem append_resultRoute (route inside : Route) :
    route ++ inside.dropLast ++ [resultPath (inside.getLastD "")] = route ++ resultRoute inside :=
  List.append_assoc _ _ _

/-- The result of a file is written at the path of its route. -/
theorem joinPath_resultRoute (hne : inside ≠ []) :
    joinPath directory (resultRoute inside) = resultPath (joinPath directory inside) := by
  obtain ⟨init, name, rfl⟩ := exists_eq_concat hne
  obtain ⟨front, -, hjoin⟩ := exists_joinPath_concat directory init
  rw [resultRoute_concat, hjoin, hjoin, resultPath, resultPath,
    String.append_assoc]

/-- No slash is in the name of a result if there is none in the name of the template. -/
theorem not_mem_resultPath (hname : '/' ∉ name.toList) : '/' ∉ (resultPath name).toList := by
  rw [resultPath, String.toList_append, List.mem_append, not_or]
  exact ⟨hname, by decide⟩

/-- A name that ends as those of results do has the extension of results. -/
theorem extension?_append_tokens (x : List Char) :
    extension? (x ++ ".tokens.json".toList) = some "json".toList := by
  rw [extension?, List.reverse_append]
  rfl

/-- The last name of the path of a result is that of the template with the ending of results. -/
theorem fileName_resultPath (directory : String) (init : Route) (hname : '/' ∉ name.toList) :
    fileName (joinPath directory (init ++ [resultPath name])) =
      name.toList ++ ".tokens.json".toList := by
  rw [fileName_joinPath _ _ (not_mem_resultPath hname), resultPath, String.toList_append]

/-- No result is taken for a template. -/
theorem isTemplatePath_resultRoute (hne : inside ≠ []) (h : ∀ name ∈ inside, '/' ∉ name.toList) :
    isTemplatePath (joinPath directory (resultRoute inside)) = false := by
  obtain ⟨init, name, rfl⟩ := exists_eq_concat hne
  have hname : '/' ∉ name.toList := h name (List.mem_append_right _ List.mem_cons_self)
  rw [resultRoute_concat, isTemplatePath, fileName_resultPath _ _ hname, extension?_append_tokens]
  rfl

/-- No two files share a result. -/
theorem resultRoute_inj {other : Route} (hne : inside ≠ []) (hother : other ≠ [])
    (h : resultRoute inside = resultRoute other) : inside = other := by
  obtain ⟨init, name, rfl⟩ := exists_eq_concat hne
  obtain ⟨init', name', rfl⟩ := exists_eq_concat hother
  rw [resultRoute_concat, resultRoute_concat] at h
  obtain ⟨rfl, hname⟩ := List.append_inj' h rfl
  have hsame : name.toList = name'.toList := by
    have htext := congrArg String.toList (List.cons.inj hname).1
    rw [resultPath, resultPath, String.toList_append, String.toList_append] at htext
    exact List.append_cancel_right htext
  rw [String.toList_inj.mp hsame]

end

end TemplateReader
