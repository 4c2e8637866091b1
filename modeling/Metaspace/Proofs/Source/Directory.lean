import Mathlib.Data.List.Basic
import Metaspace.Proofs.FieldType.Components
import Metaspace.Proofs.Source.Path
import Metaspace.Source.Basic

/-!
Where a directory source finds classes. The pieces between the dots of a class name lead from the
directory down to the file, but a dot in front leads down from the root instead, and how many dots
stand between the pieces or at the end makes no difference: other classes have the same file.
-/

set_option autoImplicit false

namespace Metaspace

namespace FileTree

theorem node?_of_walk {tree : FileTree} {location : Location} {parts : List (List Char)}
    {node : FileNode} (h : tree.walk location parts = .ok node) :
    tree.node? (parts.foldl Location.step location) = some node := by
  induction parts generalizing location with
  | nil =>
    rw [walk] at h
    cases hnode : tree.node? location with
    | none =>
      rw [hnode] at h
      cases h
    | some other =>
      rw [hnode] at h
      exact hnode.trans (congrArg some (Except.ok.inj h))
  | cons part parts ih =>
    rw [walk] at h
    split at h
    · split at h
      · cases h
      · exact ih h
    · cases h
    · cases h

theorem node?_of_lookup {tree : FileTree} {path : List Char} {node : FileNode}
    (h : tree.lookup path = .ok node) : tree.node? (.ofPath path) = some node := by
  unfold lookup at h
  split at h
  · cases h
  · split at h
    · cases h
    · exact node?_of_walk h

end FileTree

namespace Location

def Beneath (inner outer : Location) : Prop :=
  ∃ rest, rest ≠ [] ∧ inner = outer ++ rest ∧ ∀ part ∈ rest, part ≠ upName ∧ '/' ∉ part

end Location

namespace Source

open Archive FieldType Location

def place (directory name : String) : Location :=
  .ofPath (Path.ofClass directory name).toList

def segments (name : String) : List (List Char) := pieces '.' name.toList

/-- The names on the way to the file of a class, and that of the file. -/
def fileNames (name : String) : List (List Char) :=
  (segments name).modifyLast (· ++ classSuffix)

def base (directory name : String) : Location :=
  if name.toList.head? = some '.' then root else ofPath directory.toList

/-- No dot stands in front of the name, at its end or next to another one. -/
def Tidy (name : String) : Prop := [] ∉ name.toList.splitOn '.'

variable {directory name other : String}

theorem slash_not_mem (h : (object name).Legible) : '/' ∉ name.toList :=
  fun hmem => (h.2 '/' hmem).2 rfl

theorem splitOn_slashed {cs : List Char} (h : '/' ∉ cs) :
    (cs.map fun c => if c = '.' then '/' else c).splitOn '/' = cs.splitOn '.' := by
  induction cs with
  | nil => rfl
  | cons c cs ih =>
    obtain ⟨hc, hcs⟩ := not_or.mp (mt List.mem_cons.mpr h)
    rw [List.map_cons, List.splitOn_cons_eq_if_modifyHead, List.splitOn_cons_eq_if_modifyHead,
      ih hcs]
    by_cases hdot : c = '.'
    · simp [hdot]
    · simp [hdot, Ne.symm hc]

theorem pieces_internalName (h : (object name).Legible) :
    pieces '/' (internalName name).toList = segments name := by
  rw [internalName, String.toList_map, pieces, splitOn_slashed (slash_not_mem h)]
  rfl

theorem anchor_internalName (h : (object name).Legible) :
    anchor directory.toList (internalName name).toList = base directory name := by
  obtain ⟨c, cs, htext⟩ := List.exists_cons_of_ne_nil h.1
  have hc : c ≠ '/' := (h.2 c (htext ▸ List.mem_cons_self)).2
  rw [anchor, base, internalName, String.toList_map, htext, List.map_cons, List.head?_cons,
    List.head?_cons]
  by_cases hdot : c = '.'
  · simp [hdot]
  · simp [hdot, hc]

theorem base_of_dot (h : name.toList.head? = some '.') (directory : String) :
    base directory name = root :=
  if_pos h

theorem place_eq (h : (object name).Legible) :
    place directory name = base directory name ++ fileNames name := by
  have hne : (internalName name).toList ≠ [] := by
    rw [internalName, String.toList_map]
    exact mt List.map_eq_nil_iff.mp h.1
  rw [place, Path.ofClass, String.toList_ofList,
    ofPath_withExtension_join _ hne (Path.dot_not_mem_internalName name) (by decide),
    anchor_internalName h, pieces_internalName h]
  rfl

theorem mem_segments {part : List Char} (h : (object name).Legible) (hpart : part ∈ segments name) :
    part ≠ upName ∧ '/' ∉ part := by
  have hclear := (mem_pieces hpart).2
  constructor
  · rintro rfl
    exact (hclear '.' (by decide)).2 rfl
  · intro hslash
    exact slash_not_mem h (hclear '/' hslash).1

theorem last_clear {front : List (List Char)} {last : List Char} (h : (object name).Legible)
    (hsegments : segments name = front ++ [last]) : '/' ∉ last :=
  (mem_segments h (hsegments ▸ List.mem_append_right front List.mem_cons_self)).2

theorem fileNames_cases (h : (object name).Legible) :
    (segments name = [] ∧ fileNames name = [] ∧ name.toList.head? = some '.') ∨
      ∃ front last, segments name = front ++ [last] ∧
        fileNames name = front ++ [last ++ classSuffix] := by
  rcases last_piece_cases '.' name.toList with
    ⟨n, htext⟩ | ⟨front, last, n, hfront, hne, hlast, htext⟩
  · have hsegments : segments name = [] := by
      rw [segments, htext, pieces_replicate]
    refine Or.inl ⟨hsegments, by rw [fileNames, hsegments]; rfl, ?_⟩
    cases n with
    | zero => exact absurd htext h.1
    | succ n =>
      rw [htext]
      rfl
  · have hsegments : segments name = pieces '.' front ++ [last] := by
      rw [segments, htext, hfront.pieces_last hne hlast]
    exact Or.inr ⟨_, last, hsegments, by rw [fileNames, hsegments, List.modifyLast_concat]⟩

theorem file_clear {last : List Char} (h : '/' ∉ last) :
    last ++ classSuffix ≠ upName ∧ '/' ∉ last ++ classSuffix := by
  constructor
  · intro heq
    have hlength := congrArg List.length heq
    rw [List.length_append] at hlength
    have hsuffix : classSuffix.length = 6 := by decide
    have hup : upName.length = 2 := rfl
    omega
  · have hsuffix : '/' ∉ classSuffix := by decide
    exact fun hmem => (List.mem_append.mp hmem).elim h hsuffix

theorem root_ne_append {location : Location} {part : List Char} (h : '/' ∉ part) :
    root ≠ location ++ [part] := by
  intro heq
  rw [root, ← List.nil_append [['/']], List.append_singleton_inj] at heq
  rw [← heq.2] at h
  simp at h

theorem mem_fileNames {part : List Char} (h : (object name).Legible)
    (hpart : part ∈ fileNames name) : part ≠ upName ∧ '/' ∉ part := by
  rcases fileNames_cases h with ⟨-, hfiles, -⟩ | ⟨front, last, hsegments, hfiles⟩
  · rw [hfiles] at hpart
    contradiction
  · rw [hfiles] at hpart
    rcases List.mem_append.mp hpart with hpart | hpart
    · exact mem_segments h (hsegments ▸ List.mem_append_left _ hpart)
    · obtain rfl := List.mem_singleton.mp hpart
      exact file_clear (last_clear h hsegments)

/-- The name spells out the way from the root to the directory and leads on from there. -/
def SpellsOut (directory name : String) : Prop :=
  ∃ way rest, ofPath directory.toList = root ++ way ∧ segments name = way ++ rest ∧ rest ≠ []

theorem beneath_of_relative (h : (object name).Legible) (hrelative : name.toList.head? ≠ some '.') :
    (place directory name).Beneath (ofPath directory.toList) := by
  rcases fileNames_cases h with ⟨-, -, hdot⟩ | ⟨front, last, -, hfiles⟩
  · exact absurd hdot hrelative
  · refine ⟨fileNames name, by simp [hfiles], ?_, fun part => mem_fileNames h⟩
    rw [place_eq h, base, if_neg hrelative]

theorem beneath_of_spellsOut (h : (object name).Legible) (habsolute : name.toList.head? = some '.')
    (hspells : SpellsOut directory name) :
    (place directory name).Beneath (ofPath directory.toList) := by
  obtain ⟨way, rest, hway, hsegments, hne⟩ := hspells
  have hfiles : fileNames name = way ++ rest.modifyLast (· ++ classSuffix) := by
    rw [fileNames, hsegments, List.modifyLast_append_of_right_ne_nil _ _ _ hne]
  refine ⟨rest.modifyLast (· ++ classSuffix), ?_, ?_, fun part hpart => ?_⟩
  · intro hnil
    obtain ⟨front, last, rfl⟩ := (List.eq_nil_or_concat' rest).resolve_left hne
    rw [List.modifyLast_concat] at hnil
    exact List.append_ne_nil_of_right_ne_nil front (List.cons_ne_nil _ _) hnil
  · rw [place_eq h, base_of_dot habsolute, hway, hfiles, List.append_assoc]
  · exact mem_fileNames h (hfiles ▸ List.mem_append_right way hpart)

theorem spellsOut_of_beneath (h : (object name).Legible) (habsolute : name.toList.head? = some '.')
    (hbeneath : (place directory name).Beneath (ofPath directory.toList)) :
    SpellsOut directory name := by
  obtain ⟨rest, hne, heq, hclear⟩ := hbeneath
  rw [place_eq h, base_of_dot habsolute] at heq
  have hcurrent : ofPath directory.toList ≠ [] := by
    -- the root is not inside the current directory
    intro hcurrent
    rw [hcurrent, List.nil_append] at heq
    have hroot : ['/'] ∈ rest := heq ▸ List.mem_cons_self
    exact (hclear ['/'] hroot).2 List.mem_cons_self
  obtain ⟨top, way, houter⟩ := List.exists_cons_of_ne_nil hcurrent
  rw [houter] at heq
  obtain ⟨rfl, hfiles : fileNames name = way ++ rest⟩ := List.cons.inj heq
  rcases fileNames_cases h with ⟨-, hnil, -⟩ | ⟨front, last, hsegments, hconcat⟩
  · rw [hnil] at hfiles
    exact absurd (List.append_eq_nil_iff.mp hfiles.symm).2 hne
  · obtain ⟨inner, part, rfl⟩ := (List.eq_nil_or_concat' rest).resolve_left hne
    rw [hconcat, ← List.append_assoc] at hfiles
    obtain ⟨rfl, -⟩ := List.append_singleton_inj.mp hfiles
    exact ⟨way, inner ++ [last], houter, by rw [hsegments, List.append_assoc], by simp⟩

theorem place_eq_iff (h : (object name).Legible) (hother : (object other).Legible) :
    place directory other = place directory name ↔
      base directory other ++ segments other = base directory name ++ segments name := by
  rw [place_eq h, place_eq hother]
  rcases fileNames_cases h with ⟨hsegments, hfiles, hdot⟩ | ⟨front, last, hsegments, hfiles⟩
  · rcases fileNames_cases hother with
      ⟨hsegments', hfiles', -⟩ | ⟨front', last', hsegments', hfiles'⟩
    · rw [hsegments, hsegments', hfiles, hfiles']
    · have hlast := last_clear hother hsegments'
      rw [base_of_dot hdot, hsegments, hsegments', hfiles, hfiles', ← List.append_assoc,
        ← List.append_assoc, List.append_nil]
      exact iff_of_false (root_ne_append (file_clear hlast).2).symm (root_ne_append hlast).symm
  · rcases fileNames_cases hother with
      ⟨hsegments', hfiles', hdot'⟩ | ⟨front', last', hsegments', hfiles'⟩
    · have hlast := last_clear h hsegments
      rw [base_of_dot hdot', hsegments, hsegments', hfiles, hfiles', ← List.append_assoc,
        ← List.append_assoc, List.append_nil]
      exact iff_of_false (root_ne_append (file_clear hlast).2) (root_ne_append hlast)
    · rw [hsegments, hsegments', hfiles, hfiles', ← List.append_assoc, ← List.append_assoc,
        ← List.append_assoc, ← List.append_assoc, List.append_singleton_inj,
        List.append_singleton_inj, List.append_left_inj]

theorem Tidy.relative (h : Tidy name) : name.toList.head? ≠ some '.' := by
  intro hhead
  obtain ⟨cs, htext⟩ := List.head?_eq_some_iff.mp hhead
  refine h ?_
  rw [htext, List.splitOn_cons_eq_if_modifyHead]
  simp

theorem Tidy.segments_eq (h : Tidy name) : segments name = name.toList.splitOn '.' := by
  rw [segments, pieces, List.filter_eq_self]
  intro part hpart
  exact decide_eq_true (ne_of_mem_of_not_mem hpart h)

theorem Tidy.eq_of_segments (h : Tidy name) (hother : Tidy other)
    (heq : segments other = segments name) : other = name := by
  rw [h.segments_eq, hother.segments_eq] at heq
  have htext := congrArg (List.intercalate ['.']) heq
  rw [List.intercalate_splitOn, List.intercalate_splitOn] at htext
  exact String.toList_inj.mp htext

theorem legible_dotted (h : (object name).Legible) : (object (name ++ ".")).Legible := by
  constructor
  · rw [String.toList_append]
    exact List.append_ne_nil_of_left_ne_nil h.1 _
  · intro c hc
    rw [String.toList_append, List.mem_append] at hc
    rcases hc with hc | hc
    · exact h.2 c hc
    · obtain rfl : c = '.' := by simpa using hc
      decide

theorem ofName?_dotted (h : ofName? name = some (.object name)) :
    ofName? (name ++ ".") = some (.object (name ++ ".")) := by
  have hlegible := (legible_of_ofName? h).2
  obtain ⟨-, hbracket⟩ := hlegible.ofName?_iff.mp h
  refine (legible_dotted hlegible).ofName?_iff.mpr ⟨?_, by simpa using hbracket⟩
  cases hkeyword : Primitive.ofKeyword? (name ++ ".") with
  | none => rfl
  | some p =>
    -- no keyword has a dot in it
    have hdot : '.' ∈ p.keyword.toList := by
      rw [keyword_eq_of_ofKeyword? hkeyword, String.toList_append]
      exact List.mem_append_right _ List.mem_cons_self
    exact absurd hdot (by cases p <;> decide)

theorem ofClass_dotted (h : (object name).Legible) (hne : segments name ≠ []) :
    Path.ofClass directory (name ++ ".") = Path.ofClass directory name := by
  have htext : (internalName (name ++ ".")).toList = (internalName name).toList ++ ['/'] := by
    rw [internalName, internalName, String.toList_map, String.toList_map, String.toList_append,
      List.map_append]
    rfl
  have hdot := Path.dot_not_mem_internalName name
  have hpieces := pieces_internalName h
  rw [Path.ofClass, Path.ofClass, htext]
  rcases last_piece_cases '/' (internalName name).toList with
    ⟨n, hroot⟩ | ⟨front, last, n, hfront, hlast, hslash, hname⟩
  · rw [hroot, pieces_replicate] at hpieces
    exact absurd hpieces.symm hne
  · have hclear : '.' ∉ last := fun hmem => hdot (by rw [hname]; simp [hmem])
    rw [hname, List.append_assoc, ← List.replicate_succ',
      Path.withExtension_join _ hfront hlast hslash hclear,
      Path.withExtension_join _ hfront hlast hslash hclear]

theorem place_dotted (h : (object name).Legible) :
    place directory (name ++ ".") = place directory name := by
  have htext : (name ++ ".").toList = name.toList ++ List.replicate 1 '.' := String.toList_append
  have hhead : (name ++ ".").toList.head? = name.toList.head? := by
    obtain ⟨c, cs, hname⟩ := List.exists_cons_of_ne_nil h.1
    rw [htext, hname]
    rfl
  refine (place_eq_iff h (legible_dotted h)).mpr ?_
  rw [base, base, hhead, segments, htext, pieces_append_replicate]
  rfl

/-- What is read for the class, or refused, is what stands in the location. -/
inductive ReadsFrom (tree : FileTree) (directory name : String) (location : Location) : Prop where
  | found (bytes : ByteArray) :
      (Source.directory tree directory).load name = .ok (some bytes) →
      tree.node? location = some (.file bytes) → ReadsFrom tree directory name location
  | refused :
      (Source.directory tree directory).load name =
        .error ((Failure.of (.file .isDirectory)).within
          (.reading (Path.ofClass directory name))) →
      tree.node? location = some .directory → ReadsFrom tree directory name location
  | missed (e : FileError) :
      (Source.directory tree directory).load name = .ok none →
      tree.lookup (Path.ofClass directory name).toList = .error e →
      ReadsFrom tree directory name location

theorem reads_from_place (tree : FileTree) (directory name : String) :
    ReadsFrom tree directory name (place directory name) := by
  cases hlookup : tree.lookup (Path.ofClass directory name).toList with
  | error e =>
    refine .missed e ?_ hlookup
    simp [load, FileTree.contains, hlookup, Except.isOk, Except.toBool]
  | ok node =>
    have hfound := FileTree.node?_of_lookup hlookup
    cases node with
    | file bytes =>
      refine .found bytes ?_ hfound
      simp [load, FileTree.contains, FileTree.read, hlookup, Except.isOk, Except.toBool]
    | directory =>
      refine .refused ?_ hfound
      simp [load, FileTree.contains, FileTree.read, hlookup, Except.isOk, Except.toBool]

structure Locates (directory name : String) : Prop where
  reads : ∀ tree, ReadsFrom tree directory name (place directory name)
  way : place directory name = base directory name ++ fileNames name
  beneath_iff : (place directory name).Beneath (ofPath directory.toList) ↔
    name.toList.head? ≠ some '.' ∨ SpellsOut directory name
  shared_iff : ∀ other, ofName? other = some (.object other) →
    (place directory other = place directory name ↔
      base directory other ++ segments other = base directory name ++ segments name)
  /-- Names in which all dots separate two pieces have files of their own. -/
  apart : Tidy name → ∀ other, ofName? other = some (.object other) → Tidy other →
    place directory other = place directory name → other = name
  /-- The class with a dot more at the end of its name is another one in the same place. -/
  dotted : ofName? (name ++ ".") = some (.object (name ++ ".")) ∧
    place directory (name ++ ".") = place directory name
  dotted_loads : segments name ≠ [] → ∀ tree,
    (Source.directory tree directory).load (name ++ ".") =
      (Source.directory tree directory).load name

/-- Classes with accepted names have their files inside the directory, and each its own. -/
def KeepsApart (directory : String) : Prop :=
  ∀ name, ofName? name = some (.object name) →
    (place directory name).Beneath (ofPath directory.toList) ∧
      ∀ other, ofName? other = some (.object other) → other ≠ name →
        place directory other ≠ place directory name

/-- The file of a class is where the pieces of its name lead. It is inside the directory unless a
dot in front leads elsewhere; other classes have it too if the same pieces lead there, and the class
with one more dot at the end always does. -/
theorem directory_locates (directory : String) (h : ofName? name = some (.object name)) :
    Locates directory name := by
  have hlegible := (legible_of_ofName? h).2
  refine ⟨fun tree => reads_from_place tree directory name, place_eq hlegible, ?_, ?_, ?_,
    ⟨ofName?_dotted h, place_dotted hlegible⟩, ?_⟩
  · constructor
    · intro hbeneath
      by_cases habsolute : name.toList.head? = some '.'
      · exact Or.inr (spellsOut_of_beneath hlegible habsolute hbeneath)
      · exact Or.inl habsolute
    · rintro hleads
      by_cases habsolute : name.toList.head? = some '.'
      · exact beneath_of_spellsOut hlegible habsolute
          (hleads.resolve_left fun hrelative => hrelative habsolute)
      · exact beneath_of_relative hlegible habsolute
  · intro other hother
    exact place_eq_iff hlegible (legible_of_ofName? hother).2
  · intro htidy other hother htidy' hplace
    have hpieces := (place_eq_iff hlegible (legible_of_ofName? hother).2).mp hplace
    rw [base, base, if_neg htidy.relative, if_neg htidy'.relative] at hpieces
    exact htidy.eq_of_segments htidy' (List.append_cancel_left hpieces)
  · intro hne tree
    simp only [load, ofClass_dotted hlegible hne]

theorem nested_class_located :
    ofName? "a.B" = some (.object "a.B") ∧ Locates "classes" "a.B" ∧
    place "classes" "a.B" = ["classes".toList, ['a'], "B.class".toList] ∧
    (place "classes" "a.B").Beneath (ofPath "classes".toList) := by
  have hname : ofName? "a.B" = some (.object "a.B") := by decide
  have hlocates := directory_locates "classes" hname
  refine ⟨hname, hlocates, ?_, hlocates.beneath_iff.mpr (Or.inl (by decide))⟩
  rw [hlocates.way]
  decide

/-- That `a..B` doubles the dot makes no difference to its file, and a single dot leads to the
root. -/
theorem dotted_names_collide :
    let tree := FileTree.empty.insert "/classes/a/B.class" (.file ⟨#[0, 1, 2, 3]⟩)
    ofName? "a.B" = some (.object "a.B") ∧ ofName? "a..B" = some (.object "a..B") ∧
    (Source.directory tree "/classes").load "a.B" = .ok (some ⟨#[0, 1, 2, 3]⟩) ∧
    (Source.directory tree "/classes").load "a..B" = .ok (some ⟨#[0, 1, 2, 3]⟩) ∧
    ofName? "." = some (.object ".") ∧ place "/classes" "." = root ∧
    ¬ KeepsApart "/classes" := by
  intro tree
  have hplain : ofName? "a.B" = some (.object "a.B") := by decide
  have hdoubled : ofName? "a..B" = some (.object "a..B") := by decide
  have hdot : ofName? "." = some (.object ".") := by decide
  have hinternal : internalName "a.B" = "a/B" ∧ internalName "a..B" = "a//B" :=
    ⟨String.toList_inj.mp (by simp [internalName]), String.toList_inj.mp (by simp [internalName])⟩
  have hfile : Path.ofClass "/classes" "a.B" = "/classes/a/B.class" := by
    rw [Path.ofClass, hinternal.1]
    decide
  have hfile' : Path.ofClass "/classes" "a..B" = "/classes/a//B.class" := by
    rw [Path.ofClass, hinternal.2]
    decide
  refine ⟨hplain, hdoubled, ?_, ?_, hdot, ?_, ?_⟩
  · rw [load, hfile]
    rfl
  · rw [load, hfile']
    rfl
  · rw [place_eq (legible_of_ofName? hdot).2]
    decide
  · intro hkeeps
    refine (hkeeps "a.B" hplain).2 "a..B" hdoubled (by decide) ?_
    refine (place_eq_iff (legible_of_ofName? hplain).2 (legible_of_ofName? hdoubled).2).mpr ?_
    decide

end Source
end Metaspace
