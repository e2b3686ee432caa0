import Mathlib.Data.List.Nodup
import TemplateReader.Proofs.Command.Path

/-!
# Files by their paths

In a tree as a file system has it, names are names and nothing is inside a file.
The path of a file inside a directory leads to that file. A file that is written
beside another one is there afterwards, everything else is as it was, and the
directories are the same.
-/

namespace TemplateReader

/-- Whether an entry is a file. -/
def FileEntry.isFile : FileEntry → Bool
  | file _ => true
  | stream _ | directory => false

/-- What can be opened is read. -/
theorem FileSystem.content_of_open {fs : FileSystem} {route : Route}
    (h : fs.refusal? .read route = none) (text : String) :
    fs.content route (some text) = .ok text := by
  rw [content, h]

/-- Only a directory is a directory after a text was written to it. -/
theorem FileEntry.overwrite_eq_directory_iff (text : String) (entry : FileEntry) :
    entry.overwrite text = .directory ↔ entry = .directory := by
  cases entry <;> simp [FileEntry.overwrite]

namespace FileTree

/-- A tree as a file system has it. -/
structure IsSound (t : FileTree) (fs : FileSystem) : Prop where
  /-- Everything is listed once. -/
  once : (t.entries.map Prod.fst).Nodup
  /-- What leads to a file or directory are names. -/
  names : ∀ e ∈ t.entries, ∀ name ∈ e.1, IsName name
  /-- They are not over the limit of names. -/
  short : ∀ e ∈ t.entries, ∀ name ∈ e.1, name.utf8ByteSize ≤ fs.nameLimit
  /-- Nothing is inside what is no directory. -/
  leaf : ∀ e ∈ t.entries, e.2 ≠ .directory → t.isDirectory e.1 = false

variable {t : FileTree} {fs : FileSystem} {route inside there : Route} {entry : FileEntry}
  {path text : String} {content : Option String} {steps more : List String} {result : Located}

/-- A route leads to a directory when it is that of the root, when a directory is listed there, or
when something is inside it. -/
theorem isDirectory_iff : t.isDirectory route = true ↔ route = [] ∨
    ∃ e ∈ t.entries, e.1 = route ∧ e.2 = .directory ∨
      route <+: e.1 ∧ route.length < e.1.length := by
  simp [isDirectory]

/-- What is found at a route is listed there. -/
theorem mem_of_get? (h : t.get? route = some entry) : (route, entry) ∈ t.entries := by
  rw [get?, Option.map_eq_some_iff] at h
  obtain ⟨⟨other, _⟩, hfind, rfl⟩ := h
  obtain rfl : other = route := by simpa using List.find?_some hfind
  exact List.mem_of_find?_eq_some hfind

/-- In a tree as a file system has it, what is listed at a route is found there. -/
theorem IsSound.get?_of_mem (ht : t.IsSound fs) (h : (route, entry) ∈ t.entries) :
    t.get? route = some entry := by
  have hsome : (t.entries.find? fun e => e.1 = route).isSome := by
    rw [List.find?_isSome]
    exact ⟨_, h, by simp⟩
  obtain ⟨⟨other, entry'⟩, hfind⟩ := Option.isSome_iff_exists.mp hsome
  obtain rfl : other = route := by simpa using List.find?_some hfind
  have hsame := List.inj_on_of_nodup_map ht.once (List.mem_of_find?_eq_some hfind) h rfl
  rw [get?, hfind, Option.map_some, hsame]

/-- The files inside a directory are those listed at routes through it. -/
theorem IsSound.mem_filesInside_iff (ht : t.IsSound fs) : inside ∈ t.filesInside route ↔
    inside ≠ [] ∧ ∃ content, t.get? (route ++ inside) = some (.file content) := by
  rw [filesInside, List.mem_filterMap]
  constructor
  · rintro ⟨⟨listed, entry⟩, he, hsome⟩
    dsimp only at hsome
    split at hsome
    · next content =>
      split at hsome
      · next hinside =>
        obtain rfl := Option.some.inj hsome
        simp only [Bool.and_eq_true, List.isPrefixOf_iff_prefix, decide_eq_true_eq] at hinside
        obtain ⟨⟨rest, rfl⟩, hlength⟩ := hinside
        rw [List.drop_left]
        refine ⟨?_, content, ht.get?_of_mem he⟩
        rintro rfl
        simp at hlength
      · cases hsome
    · cases hsome
    · cases hsome
  · rintro ⟨hne, content, hget⟩
    refine ⟨_, mem_of_get? hget, ?_⟩
    have hlength := List.length_pos_iff.mpr hne
    simp only [List.isPrefixOf_iff_prefix.mpr (List.prefix_append _ _), List.length_append,
      List.drop_left]
    rw [if_pos (by simpa using hlength)]

/-- What something is inside of is a directory. -/
theorem isDirectory_around (h : t.get? route = some entry) (haround : there <+: route)
    (hlength : there.length < route.length) : t.isDirectory there = true :=
  isDirectory_iff.mpr (Or.inr ⟨_, mem_of_get? h, Or.inr ⟨haround, hlength⟩⟩)

section

variable {entries : List (Route × FileEntry)} {e : Route × FileEntry}

/-- What a list finds at a route after a write is what was written over, and elsewhere what it found
before. -/
theorem find?_put (route : Route) (text : String) (entries : List (Route × FileEntry))
    (there : Route) :
    (write.put route text entries).find? (fun e => e.1 = there) =
      if there = route then
        some (route, ((entries.find? fun e => e.1 = route).map Prod.snd).elim (.file (some text))
          (FileEntry.overwrite text))
      else entries.find? fun e => e.1 = there := by
  induction entries with
  | nil =>
    rw [write.put, List.find?_cons]
    by_cases h : there = route
    · simp [h]
    · simp [h, Ne.symm h]
  | cons e entries ih =>
    rw [write.put]
    by_cases he : e.1 = route
    · rw [if_pos he, List.find?_cons, List.find?_cons, List.find?_cons, he]
      by_cases h : there = route
      · simp [h]
      · simp [h, Ne.symm h]
    · rw [if_neg he, List.find?_cons, List.find?_cons, List.find?_cons, ih]
      by_cases h : there = route
      · simp [h, he]
      · simp [h]

/-- What is listed after a write is the new file, or was listed before, as a directory or not. -/
theorem eq_or_exists_of_mem_put (h : e ∈ write.put route text entries) :
    e = (route, .file (some text)) ∨
      ∃ d ∈ entries, e.1 = d.1 ∧ (e.2 = .directory ↔ d.2 = .directory) := by
  induction entries with
  | nil => exact Or.inl (List.mem_singleton.mp h)
  | cons d entries ih =>
    rw [write.put] at h
    split at h
    · next hd =>
      rcases List.mem_cons.mp h with rfl | h
      · exact Or.inr ⟨d, List.mem_cons_self, hd.symm,
          FileEntry.overwrite_eq_directory_iff text d.2⟩
      · exact Or.inr ⟨e, List.mem_cons_of_mem _ h, rfl, Iff.rfl⟩
    · rcases List.mem_cons.mp h with rfl | h
      · exact Or.inr ⟨e, List.mem_cons_self, rfl, Iff.rfl⟩
      · exact (ih h).imp_right fun ⟨d, hd, hsame⟩ => ⟨d, List.mem_cons_of_mem _ hd, hsame⟩

/-- What is listed before a write is listed afterwards, as a directory or not. -/
theorem exists_mem_put (route : Route) (text : String) (h : e ∈ entries) :
    ∃ d ∈ write.put route text entries, e.1 = d.1 ∧ (e.2 = .directory ↔ d.2 = .directory) := by
  induction entries with
  | nil => cases h
  | cons c entries ih =>
    rw [write.put]
    split
    · next hc =>
      rcases List.mem_cons.mp h with rfl | h
      · exact ⟨_, List.mem_cons_self, hc, (FileEntry.overwrite_eq_directory_iff text e.2).symm⟩
      · exact ⟨e, List.mem_cons_of_mem _ h, rfl, Iff.rfl⟩
    · rcases List.mem_cons.mp h with rfl | h
      · exact ⟨e, List.mem_cons_self, rfl, Iff.rfl⟩
      · obtain ⟨d, hd, hsame⟩ := ih h
        exact ⟨d, List.mem_cons_of_mem _ hd, hsame⟩

end

/-- A write concerns what is listed at its route, or makes a file there, and nothing else. -/
theorem get?_write (t : FileTree) (route : Route) (text : String) (there : Route) :
    (t.write route text).get? there =
      if there = route then
        some ((t.get? route).elim (.file (some text)) (FileEntry.overwrite text))
      else t.get? there := by
  rw [get?, write, find?_put]
  split
  · rfl
  · rfl

/-- Where a file is, or nothing, there is a file with the text after it was written. -/
theorem get?_write_self (h : (t.get? route).all FileEntry.isFile = true) (text : String) :
    (t.write route text).get? route = some (.file (some text)) := by
  rw [get?_write, if_pos rfl]
  cases hget : t.get? route with
  | none => rfl
  | some entry =>
    rw [hget, Option.all_some] at h
    cases entry with
    | file content => rfl
    | stream given => cases h
    | directory => cases h

/-- A stream stays one, whatever is written and wherever. -/
theorem get?_write_stream {given : Option String} (h : t.get? there = some (.stream given)) :
    (t.write route text).get? there = some (.stream given) := by
  rw [get?_write]
  split
  · next hroute => rw [← hroute, h, Option.elim_some, FileEntry.overwrite]
  · exact h

/-- A text written to something in a directory makes no directory and takes none away. -/
theorem isDirectory_write (hparents : ∀ there, there <+: route → there.length < route.length →
      t.isDirectory there = true) (text : String) (there : Route) :
    (t.write route text).isDirectory there = t.isDirectory there := by
  rw [Bool.eq_iff_iff, isDirectory_iff]
  constructor
  · rintro (rfl | ⟨e, he, hthere⟩)
    · exact isDirectory_iff.mpr (Or.inl rfl)
    · rcases eq_or_exists_of_mem_put he with rfl | ⟨d, hd, hroute, hsame⟩
      · rcases hthere with ⟨-, hentry⟩ | ⟨haround, hlength⟩
        · cases hentry
        · exact hparents there haround hlength
      · rw [hroute, hsame] at hthere
        exact isDirectory_iff.mpr (Or.inr ⟨d, hd, hthere⟩)
  · intro h
    rcases isDirectory_iff.mp h with rfl | ⟨e, he, hthere⟩
    · exact Or.inl rfl
    · obtain ⟨d, hd, hroute, hsame⟩ := exists_mem_put route text he
      rw [hroute, hsame] at hthere
      exact Or.inr ⟨d, hd, hthere⟩

/-- Steps that lead to a directory lead on from there. -/
theorem follow_append (h : t.follow fs route steps = .directory there) :
    t.follow fs route (steps ++ more) = t.follow fs there more := by
  fun_induction follow t fs route steps with
  | case1 route =>
    cases h
    rfl
  | case2 route step steps hskip ih => rw [List.cons_append, follow, if_pos hskip, ih h]
  | case3 route steps hskip ih =>
    rw [List.cons_append, follow, if_neg hskip, if_pos rfl, ih h]
  | case5 route step steps hskip hup hlong next hdir ih =>
    rw [List.cons_append, follow, if_neg hskip, if_neg hup, if_neg hlong]
    exact (if_pos hdir).trans (ih h)
  | _ => cases h

/-- Steps to a directory pass through directories only. -/
theorem exists_of_follow_append (h : t.follow fs route (steps ++ more) = .directory there) :
    ∃ middle, t.follow fs route steps = .directory middle ∧
      t.follow fs middle more = .directory there := by
  fun_induction follow t fs route steps with
  | case1 route => exact ⟨route, rfl, h⟩
  | case2 route step steps hskip ih =>
    rw [List.cons_append, follow, if_pos hskip] at h
    exact ih h
  | case3 route steps hskip ih =>
    rw [List.cons_append, follow, if_neg hskip, if_pos rfl] at h
    exact ih h
  | case4 route step steps hskip hup hlong =>
    rw [List.cons_append, follow, if_neg hskip, if_neg hup, if_pos hlong] at h
    cases h
  | case5 route step steps hskip hup hlong next hdir ih =>
    rw [List.cons_append, follow, if_neg hskip, if_neg hup, if_neg hlong] at h
    exact ih ((if_pos hdir).symm.trans h)
  | case6 route step steps hskip hup hlong next hdir
  | case7 route step steps hskip hup hlong next hdir
  | case8 route step steps hskip hup hlong next hdir
  | case9 route step steps hskip hup hlong next hdir
  | case10 route step steps hskip hup hlong next hdir =>
    rw [List.cons_append, follow, if_neg hskip, if_neg hup, if_neg hlong] at h
    replace h := (if_neg hdir).symm.trans h
    split at h
    · split at h <;> cases h
    · split at h <;> cases h
    · cases h

/-- Names lead to the file that is listed at them. -/
theorem IsSound.follow_file (ht : t.IsSound fs) (hne : inside ≠ [])
    (hfile : t.get? (route ++ inside) = some (.file content)) :
    t.follow fs route inside = .file (route ++ inside) content := by
  induction inside generalizing route with
  | nil => exact absurd rfl hne
  | cons name inside ih =>
    have hname : IsName name :=
      ht.names _ (mem_of_get? hfile) name (List.mem_append_right _ List.mem_cons_self)
    have hshort : name.utf8ByteSize ≤ fs.nameLimit :=
      ht.short _ (mem_of_get? hfile) name (List.mem_append_right _ List.mem_cons_self)
    have hskip : ¬(decide (name = "") || decide (name = ".")) = true := by
      simp [hname.ne_empty, hname.ne_here]
    rw [follow, if_neg hskip, if_neg hname.ne_parent, if_neg (Nat.not_lt.mpr hshort)]
    rw [List.append_cons] at hfile
    dsimp only
    cases inside with
    | nil =>
      rw [List.append_nil] at hfile
      have hleaf := ht.leaf _ (mem_of_get? hfile) FileEntry.noConfusion
      rw [hleaf, hfile]
      rfl
    | cons next inside =>
      have hdir : t.isDirectory (route ++ [name]) = true :=
        isDirectory_around hfile (List.prefix_append _ _) (by simp)
      rw [if_pos hdir, ih (List.cons_ne_nil _ _) hfile, ← List.append_cons]

/-- A path is followed from the root when it begins with a slash, and else from the working
directory. -/
def origin (t : FileTree) (path : List Char) : Route :=
  if path.head? = some '/' then [] else t.workingDirectory

/-- The first slash of a path is one step, which leads nowhere. -/
theorem locate_eq_follow (hne : path.toList ≠ []) (hshort : path.utf8ByteSize ≤ fs.pathLimit) :
    t.locate fs path = t.follow fs (t.origin path.toList)
      ((FileTree.steps path.toList).map String.ofList) := by
  rw [locate, if_neg (Nat.not_lt.mpr hshort)]
  split
  · next h => exact absurd h hne
  · next rest h =>
    rw [h, origin, List.head?_cons, if_pos rfl, FileTree.steps, if_pos rfl, List.map_cons, follow]
    rfl
  · next hroot =>
    have hhead : path.toList.head? ≠ some '/' := by
      intro h
      obtain ⟨rest, hrest⟩ := List.head?_eq_some_iff.mp h
      exact hroot rest hrest
    rw [origin, if_neg hhead]

/-- The path of a directory, with or without a slash at its end, is that up to the slash in front of
what is inside the directory. -/
theorem exists_joinPath_toList (path : String) (hne : inside ≠ []) :
    ∃ front, (joinPath path inside).toList = front ++ '/' :: ("/".intercalate inside).toList ∧
      (path.toList = front ∨ path.toList = front ++ ['/']) := by
  have hslash : "/".toList = ['/'] := rfl
  rw [joinPath_of_ne_nil _ hne, String.toList_append, String.toList_append]
  split
  · next h =>
    obtain ⟨front, hfront⟩ := List.getLast?_eq_some_iff.mp h
    exact ⟨front, by rw [hfront]; simp, Or.inr hfront⟩
  · exact ⟨path.toList, by rw [hslash]; simp, Or.inl rfl⟩

/-- The path of something inside a directory leads there from the directory. -/
theorem locate_joinPath (h : t.locate fs path = .directory route) (hne : inside ≠ [])
    (hnames : ∀ name ∈ inside, '/' ∉ name.toList)
    (hshort : (joinPath path inside).utf8ByteSize ≤ fs.pathLimit) :
    t.locate fs (joinPath path inside) = t.follow fs route inside := by
  have hpath : path.toList ≠ [] := by
    intro hempty
    rw [locate] at h
    split at h
    · cases h
    · rw [hempty] at h
      cases h
  have hlength : path.utf8ByteSize ≤ fs.pathLimit := by
    by_contra hlong
    rw [locate, if_pos (Nat.not_le.mp hlong)] at h
    cases h
  obtain ⟨front, hjoin, hfront⟩ := exists_joinPath_toList path hne
  have hhead : (joinPath path inside).toList.head? = path.toList.head? := by
    rw [hjoin]
    rcases hfront with hfront | hfront
    · rw [← hfront, List.head?_append_of_ne_nil _ hpath]
    · rw [hfront]
      cases front <;> rfl
  have hjoined : (joinPath path inside).toList ≠ [] := by
    rw [hjoin]
    exact List.append_ne_nil_of_right_ne_nil _ (List.cons_ne_nil _ _)
  rw [locate_eq_follow hpath hlength] at h
  have hdirectory : t.follow fs (t.origin path.toList)
      ((FileTree.steps front).map String.ofList) = .directory route := by
    rcases hfront with hfront | hfront
    · rwa [hfront] at h ⊢
    · rw [hfront, FileTree.steps_append_slash, List.map_append] at h
      obtain ⟨middle, hmiddle, hlast⟩ := exists_of_follow_append h
      obtain rfl : middle = route := by
        simpa [FileTree.steps, follow] using hlast
      rwa [hfront]
  rw [locate_eq_follow hjoined hshort, origin, hhead, ← origin, hjoin,
    FileTree.steps_append_slash, List.map_append, FileTree.steps_intercalate hne hnames,
    follow_append hdirectory]

/-- The path of a file inside a directory leads to the file. -/
theorem IsSound.locate_file (ht : t.IsSound fs) (h : t.locate fs path = .directory route)
    (hne : inside ≠ []) (hfile : t.get? (route ++ inside) = some (.file content))
    (hshort : (joinPath path inside).utf8ByteSize ≤ fs.pathLimit) :
    t.locate fs (joinPath path inside) = .file (route ++ inside) content := by
  have hnames : ∀ name ∈ inside, '/' ∉ name.toList := fun name hname =>
    (ht.names _ (mem_of_get? hfile) name (List.mem_append_right _ hname)).not_mem
  rw [locate_joinPath h hne hnames hshort, ht.follow_file hne hfile]

end FileTree

end TemplateReader
