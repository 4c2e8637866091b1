import Mathlib.Data.List.Nodup
import Metaspace.Proofs.Source.Path
import Metaspace.Source.Basic

/-!
What a jar answers. Entries are found under their names without any number of `.class` at the end,
so a class is answered by the last file that is named for it with `.class` repeated once or more. As
long as no file repeats it, these are the bytes of the file that is named for the class.
-/

set_option autoImplicit false

namespace Metaspace

namespace Archive

def suffixed (cs : List Char) : Nat → List Char
  | 0 => cs
  | n + 1 => suffixed cs n ++ classSuffix

theorem trimClass_suffixed {cs : List Char} (h : '.' ∉ cs) (n : Nat) :
    trimClass (suffixed cs n) = cs := by
  induction n with
  | zero =>
    refine trimClass_eq_self ?_
    rintro ⟨front, rfl⟩
    exact h (List.mem_append_right front (by decide))
  | succ n ih => rw [suffixed, trimClass_append, ih]

theorem length_suffixed (cs : List Char) (n : Nat) :
    (suffixed cs n).length = cs.length + 6 * n := by
  induction n with
  | zero => rfl
  | succ n ih =>
    rw [suffixed, List.length_append, ih]
    exact Nat.add_assoc ..

theorem exists_suffixed (cs : List Char) : ∃ n, cs = suffixed (trimClass cs) n := by
  induction hlength : cs.length using Nat.strongRecOn generalizing cs with
  | ind length ih =>
    by_cases hsuffix : classSuffix <:+ cs
    · obtain ⟨front, rfl⟩ := hsuffix
      have hshort : front.length < length := by
        rw [← hlength, List.length_append]
        exact Nat.lt_add_of_pos_right (by decide)
      obtain ⟨n, hfront⟩ := ih front.length hshort front rfl
      exact ⟨n + 1, by rw [trimClass_append, suffixed, ← hfront]⟩
    · exact ⟨0, (trimClass_eq_self hsuffix).symm⟩

/-- The entry is a file that is named for the class, with `.class` so many times at the end. -/
structure Bears (name : String) (n : Nat) (entry : ArchiveEntry) : Prop where
  file : entry.isLink = false
  named : entry.name.toList = suffixed (internalName name).toList n

def IsClassFile (name : String) (entry : ArchiveEntry) : Prop :=
  entry.isLink = false ∧ entry.name = internalName name ++ ".class"

theorem bears_one_iff {name : String} {entry : ArchiveEntry} :
    Bears name 1 entry ↔ IsClassFile name entry := by
  have hname : entry.name = internalName name ++ ".class" ↔
      entry.name.toList = suffixed (internalName name).toList 1 := by
    rw [← String.toList_inj, String.toList_append]
    rfl
  exact ⟨fun h => ⟨h.file, hname.mpr h.named⟩, fun h => ⟨h.1, hname.mp h.2⟩⟩

/-- What is looked up under the name of a class are the files named for it with `.class` repeated
once or more. -/
theorem found_iff {name : String} {entry : ArchiveEntry} :
    (isClassEntry entry = true ∧ key entry = (internalName name).toList) ↔
      ∃ n, Bears name (n + 1) entry := by
  rw [isClassEntry, Bool.and_eq_true, List.isSuffixOf_iff_suffix, Bool.not_eq_true', key]
  constructor
  · rintro ⟨⟨⟨front, hfront⟩, hfile⟩, hkey⟩
    obtain ⟨n, hn⟩ := exists_suffixed front
    rw [← hfront, trimClass_append] at hkey
    exact ⟨n, hfile, by rw [← hfront, suffixed, ← hkey, ← hn]⟩
  · rintro ⟨n, hfile, hnamed⟩
    rw [hnamed]
    exact ⟨⟨List.suffix_append .., hfile⟩,
      trimClass_suffixed (Path.dot_not_mem_internalName name) _⟩

/-- The entry is the last one that is named for the class with `.class` repeated once or more. -/
def Answers (entries : List ArchiveEntry) (name : String) (entry : ArchiveEntry) : Prop :=
  (∃ n, Bears name (n + 1) entry) ∧ ∃ before after, entries = before ++ entry :: after ∧
    ∀ later ∈ after, ∀ n, ¬ Bears name (n + 1) later

variable {entries : List ArchiveEntry} {name : String}

theorem find?_eq_last (entries : List ArchiveEntry) (name : String) :
    find? entries (internalName name) = entries.reverse.find? fun entry =>
      decide (isClassEntry entry = true ∧ key entry = (internalName name).toList) := by
  simp only [find?, ← List.filter_reverse, List.find?_filter, decide_eq_true_eq]

theorem find?_eq_some {entry : ArchiveEntry} :
    find? entries (internalName name) = some entry ↔ Answers entries name entry := by
  rw [find?_eq_last, List.find?_eq_some_iff_append, decide_eq_true_eq, found_iff]
  refine and_congr_right fun _ => ?_
  constructor
  · rintro ⟨after, before, hsplit, hafter⟩
    refine ⟨before.reverse, after.reverse, ?_, fun later hlater n hbears => ?_⟩
    · rw [← List.reverse_reverse entries, hsplit]
      simp
    · have hnot := hafter later (List.mem_reverse.mp hlater)
      rw [Bool.not_eq_true', decide_eq_false_iff_not, found_iff] at hnot
      exact hnot ⟨n, hbears⟩
  · rintro ⟨before, after, rfl, hafter⟩
    refine ⟨after.reverse, before.reverse, by simp, fun later hlater => ?_⟩
    rw [Bool.not_eq_true', decide_eq_false_iff_not, found_iff]
    rintro ⟨n, hbears⟩
    exact hafter later (List.mem_reverse.mp hlater) n hbears

theorem find?_eq_none :
    find? entries (internalName name) = none ↔
      ∀ entry ∈ entries, ∀ n, ¬ Bears name (n + 1) entry := by
  simp only [find?_eq_last, List.find?_eq_none, List.mem_reverse, decide_eq_true_eq, found_iff,
    not_exists]

theorem Answers.mem {entry : ArchiveEntry} (h : Answers entries name entry) : entry ∈ entries := by
  obtain ⟨-, before, after, rfl, -⟩ := h
  simp

theorem exists_answers {entry : ArchiveEntry} {n : Nat} (hentry : entry ∈ entries)
    (h : Bears name (n + 1) entry) : ∃ last, Answers entries name last := by
  cases hfind : find? entries (internalName name) with
  | some last => exact ⟨last, find?_eq_some.mp hfind⟩
  | none => exact absurd h (find?_eq_none.mp hfind entry hentry n)

end Archive

namespace Source

open Archive

variable {entries : List ArchiveEntry} {name : String}

theorem load_jar_of_answers {entry : ArchiveEntry} {bytes : ByteArray}
    (h : Answers entries name entry) (hcontent : entry.content = .ok bytes) :
    (Source.jar entries).load name = .ok (some bytes) := by
  simp only [load, find?_eq_some.mpr h, hcontent]

theorem answers_of_load_jar {bytes : ByteArray}
    (h : (Source.jar entries).load name = .ok (some bytes)) :
    ∃ entry, Answers entries name entry ∧ entry.content = .ok bytes := by
  simp only [load] at h
  split at h
  · cases h
  · rename_i entry hfind
    split at h
    · rename_i content hcontent
      cases h
      exact ⟨entry, find?_eq_some.mp hfind, hcontent⟩
    · cases h

/-- The jar gives the bytes of the class's own file, and bytes only if there is such a file. -/
def AnswersExactly (entries : List ArchiveEntry) (name : String) : Prop :=
  ∀ bytes, (Source.jar entries).load name = .ok (some bytes) ↔
    ∃ entry ∈ entries, IsClassFile name entry ∧ entry.content = .ok bytes

/-- What a jar whose entries can all be read makes of the name of a class. -/
structure JarAnswers (entries : List ArchiveEntry) (name : String) : Prop where
  opens : ∀ bytes, Zip.read bytes = .ok entries → ofJarBytes bytes = .ok (.jar entries)
  total : ∃ answer, (Source.jar entries).load name = .ok answer
  /-- The last file that bears the class's name answers, whatever follows the name. -/
  last : ∀ bytes, (Source.jar entries).load name = .ok (some bytes) ↔
    ∃ entry, Answers entries name entry ∧ entry.content = .ok bytes
  /-- No file repeats `.class` after the class's name: the class's own file answers. -/
  exact : (∀ entry ∈ entries, ∀ n, ¬ Bears name (n + 2) entry) → AnswersExactly entries name
  /-- The class's own file answers, or none if there is none, exactly if what answers has the bytes
  of the class's own file. -/
  exact_iff : AnswersExactly entries name ↔
    ∀ entry, Answers entries name entry →
      ∃ own ∈ entries, IsClassFile name own ∧ own.content = entry.content

theorem classFile_unique (hdistinct : (entries.map (·.name)).Nodup) {entry other : ArchiveEntry}
    (hentry : entry ∈ entries) (hother : other ∈ entries) (h : IsClassFile name entry)
    (h' : IsClassFile name other) : entry = other :=
  List.inj_on_of_nodup_map hdistinct hentry hother (h.2.trans h'.2.symm)

theorem answersExactly_iff (hdistinct : (entries.map (·.name)).Nodup)
    (hreadable : ∀ entry ∈ entries, ∃ bytes, entry.content = .ok bytes) :
    AnswersExactly entries name ↔
      ∀ entry, Answers entries name entry →
        ∃ own ∈ entries, IsClassFile name own ∧ own.content = entry.content := by
  constructor
  · intro hexact entry hanswers
    obtain ⟨bytes, hbytes⟩ := hreadable entry hanswers.mem
    obtain ⟨own, hown, hclass, hcontent⟩ := (hexact bytes).mp (load_jar_of_answers hanswers hbytes)
    exact ⟨own, hown, hclass, hcontent.trans hbytes.symm⟩
  · intro hshared bytes
    constructor
    · intro hload
      obtain ⟨entry, hanswers, hcontent⟩ := answers_of_load_jar hload
      obtain ⟨own, hown, hclass, hsame⟩ := hshared entry hanswers
      exact ⟨own, hown, hclass, hsame.trans hcontent⟩
    · rintro ⟨own, hown, hclass, hcontent⟩
      obtain ⟨entry, hanswers⟩ := exists_answers hown (bears_one_iff.mpr hclass)
      obtain ⟨other, hother, hclass', hsame⟩ := hshared entry hanswers
      obtain rfl := classFile_unique hdistinct hown hother hclass hclass'
      exact load_jar_of_answers hanswers (hsame.symm.trans hcontent)

/-- A jar answers for a class with the last file that bears the class's name, and with the class's
own file unless another one repeats the ending. -/
theorem jar_answers (entries : List ArchiveEntry) (name : String)
    (hdistinct : (entries.map (·.name)).Nodup)
    (hreadable : ∀ entry ∈ entries, ∃ bytes, entry.content = .ok bytes) :
    JarAnswers entries name where
  opens bytes hread := by
    have hopen : entries.findSome? ArchiveEntry.obstacle? = none :=
      List.findSome?_eq_none_iff.mpr fun entry hentry =>
        (hreadable entry hentry).elim fun _ => ArchiveEntry.obstacle?_of_content
    simp only [ofJarBytes, hread, hopen]
  total := by
    cases hfind : find? entries (internalName name) with
    | none => exact ⟨none, by simp only [load, hfind]⟩
    | some entry =>
      have hanswers := find?_eq_some.mp hfind
      obtain ⟨bytes, hbytes⟩ := hreadable entry hanswers.mem
      exact ⟨some bytes, load_jar_of_answers hanswers hbytes⟩
  last bytes := ⟨answers_of_load_jar, fun ⟨_, hanswers, hcontent⟩ =>
    load_jar_of_answers hanswers hcontent⟩
  exact hplain := by
    refine (answersExactly_iff hdistinct hreadable).mpr fun entry hanswers => ?_
    obtain ⟨n, hbears⟩ := hanswers.1
    cases n with
    | zero => exact ⟨entry, hanswers.mem, bears_one_iff.mp hbears, rfl⟩
    | succ n => exact absurd hbears (hplain entry hanswers.mem n)
  exact_iff := answersExactly_iff hdistinct hreadable

/-- A jar with two classes and a directory, in which the file of one class repeats the ending. -/
def packaged : List ArchiveEntry :=
  [.ofFile "a/" ⟨#[]⟩, .ofFile "a/B.class" ⟨#[1, 2]⟩, .ofFile "a/C.class.class" ⟨#[3]⟩]

/-- Other entries do not matter to the class that has its own file. -/
theorem packaged_answers : (Source.jar packaged).load "a.B" = .ok (some ⟨#[1, 2]⟩) := by
  have hreadable : ∀ entry ∈ packaged, ∃ bytes, entry.content = .ok bytes := by
    simp only [packaged, List.forall_mem_cons]
    exact ⟨⟨_, ArchiveEntry.content_ofFile (by decide)⟩,
      ⟨_, ArchiveEntry.content_ofFile (by decide)⟩, ⟨_, ArchiveEntry.content_ofFile (by decide)⟩,
      by simp⟩
  have hname : internalName "a.B" = "a/B" := String.toList_inj.mp (by simp [internalName])
  have hplain : ∀ entry ∈ packaged, ∀ n, ¬ Bears "a.B" (n + 2) entry := by
    intro entry hentry n hbears
    have hnamed := hbears.named
    have hlength := congrArg List.length hnamed
    rw [length_suffixed, hname] at hlength
    simp only [packaged, List.mem_cons, List.not_mem_nil, or_false] at hentry
    obtain rfl | rfl | rfl := hentry
    · have hdirectory : 2 = 3 + 6 * (n + 2) := hlength
      omega
    · have hown : 9 = 3 + 6 * (n + 2) := hlength
      omega
    · have hother : 15 = 3 + 6 * (n + 2) := hlength
      obtain rfl : n = 0 := by omega
      rw [hname] at hnamed
      exact absurd hnamed (by decide)
  exact ((jar_answers packaged "a.B" (by decide) hreadable).exact hplain _).mpr
    ⟨.ofFile "a/B.class" ⟨#[1, 2]⟩, by simp [packaged], ⟨rfl, by rw [hname]; rfl⟩,
      ArchiveEntry.content_ofFile (by decide)⟩

/-- A file that repeats the ending answers for a class that has no file. -/
theorem repeated_ending_answers :
    let entries := [ArchiveEntry.ofFile "A.class.class" ⟨#[0, 1, 2, 3]⟩]
    (entries.map (·.name)).Nodup ∧ (∀ entry ∈ entries, ∃ bytes, entry.content = .ok bytes) ∧
    (Source.jar entries).load "A" = .ok (some ⟨#[0, 1, 2, 3]⟩) ∧ ¬ AnswersExactly entries "A" := by
  intro entries
  have hname : internalName "A" = "A" := String.toList_inj.mp (by simp [internalName])
  have hcontent : (ArchiveEntry.ofFile "A.class.class" ⟨#[0, 1, 2, 3]⟩).content =
      .ok ⟨#[0, 1, 2, 3]⟩ := ArchiveEntry.content_ofFile (by decide)
  have hanswers : Answers entries "A" (.ofFile "A.class.class" ⟨#[0, 1, 2, 3]⟩) :=
    ⟨⟨1, rfl, by rw [hname]; decide⟩, [], [], rfl, by simp⟩
  have hload := load_jar_of_answers hanswers hcontent
  refine ⟨by simp [entries], fun entry hentry => ?_, hload, fun hexact => ?_⟩
  · rw [List.mem_singleton.mp hentry]
    exact ⟨_, hcontent⟩
  · obtain ⟨entry, hentry, hclass, -⟩ := (hexact _).mp hload
    rw [List.mem_singleton.mp hentry] at hclass
    have hrepeated := hclass.2
    rw [hname] at hrepeated
    exact absurd hrepeated (by decide)

end Source
end Metaspace
