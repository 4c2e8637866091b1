import Mathlib.Data.List.Induction
import Mathlib.Data.List.ModifyLast
import Mathlib.Data.List.TakeWhile
import Metaspace.Source.FileTree

set_option autoImplicit false

namespace Metaspace

/-- What stands between the separators of a text, where there is anything. -/
def pieces (separator : Char) (cs : List Char) : List (List Char) :=
  (cs.splitOn separator).filter (· ≠ [])

def Closed (separator : Char) (front : List Char) : Prop :=
  front = [] ∨ ∃ cs, front = cs ++ [separator]

section

variable {separator : Char}

theorem pieces_append_cons (front back : List Char) :
    pieces separator (front ++ separator :: back) =
      pieces separator front ++ pieces separator back := by
  rw [pieces, List.splitOn_append_cons_self, List.filter_append]
  rfl

theorem pieces_of_not_mem {cs : List Char} (hne : cs ≠ []) (h : separator ∉ cs) :
    pieces separator cs = [cs] := by
  rw [pieces, List.splitOn_eq_singleton h]
  simp [hne]

theorem pieces_replicate (n : Nat) : pieces separator (List.replicate n separator) = [] := by
  induction n with
  | zero => rfl
  | succ n ih =>
    rw [List.replicate_succ, ← List.nil_append (separator :: _), pieces_append_cons, ih]
    rfl

theorem pieces_append_replicate (cs : List Char) (n : Nat) :
    pieces separator (cs ++ List.replicate n separator) = pieces separator cs := by
  cases n with
  | zero => rw [List.replicate_zero, List.append_nil]
  | succ n =>
    rw [List.replicate_succ, pieces_append_cons, pieces_replicate, List.append_nil]

theorem Closed.pieces_append {front : List Char} (h : Closed separator front) (cs : List Char) :
    pieces separator (front ++ cs) = pieces separator front ++ pieces separator cs := by
  rcases h with rfl | ⟨before, rfl⟩
  · rfl
  · rw [List.append_assoc, List.singleton_append, pieces_append_cons, pieces_append_cons]
    simp [pieces]

theorem Closed.append {front back : List Char} (hfront : Closed separator front)
    (hback : Closed separator back) : Closed separator (front ++ back) := by
  rcases hback with rfl | ⟨cs, rfl⟩
  · rw [List.append_nil]
    exact hfront
  · exact Or.inr ⟨front ++ cs, (List.append_assoc ..).symm⟩

theorem Closed.pieces_last {front last : List Char} (hfront : Closed separator front)
    (hne : last ≠ []) (hlast : separator ∉ last) (n : Nat) :
    pieces separator (front ++ last ++ List.replicate n separator) =
      pieces separator front ++ [last] := by
  rw [pieces_append_replicate, hfront.pieces_append, pieces_of_not_mem hne hlast]

theorem of_mem_splitOn {cs part : List Char} (h : part ∈ cs.splitOn separator) :
    ∀ c ∈ part, c ∈ cs ∧ c ≠ separator := by
  induction cs generalizing part with
  | nil =>
    obtain rfl : part = [] := by simpa using h
    simp
  | cons d cs ih =>
    obtain ⟨first, rest, hsplit⟩ := List.exists_cons_of_ne_nil (List.splitOn_ne_nil separator cs)
    rw [hsplit] at ih
    have hlater : ∀ {part}, part ∈ first :: rest → ∀ c ∈ part, c ∈ d :: cs ∧ c ≠ separator :=
      fun hpart c hc => (ih hpart c hc).imp_left (List.mem_cons_of_mem d)
    rw [List.splitOn_cons_eq_if_modifyHead, hsplit] at h
    split at h
    · rcases List.mem_cons.mp h with rfl | h
      · simp
      · exact hlater h
    · rename_i hd
      rcases List.mem_cons.mp h with rfl | h
      · intro c hc
        rcases List.mem_cons.mp hc with rfl | hc
        · exact ⟨List.mem_cons_self, by simpa using hd⟩
        · exact hlater List.mem_cons_self c hc
      · exact hlater (List.mem_cons_of_mem first h)

theorem mem_pieces {cs part : List Char} (h : part ∈ pieces separator cs) :
    part ≠ [] ∧ ∀ c ∈ part, c ∈ cs ∧ c ≠ separator := by
  obtain ⟨hsplit, hne⟩ := List.mem_filter.mp h
  exact ⟨of_decide_eq_true hne, of_mem_splitOn hsplit⟩

theorem exists_closed (separator : Char) (cs : List Char) :
    ∃ front last, Closed separator front ∧ separator ∉ last ∧ cs = front ++ last := by
  induction cs using List.reverseRecOn with
  | nil => exact ⟨[], [], Or.inl rfl, by simp, rfl⟩
  | append_singleton cs c ih =>
    by_cases hc : c = separator
    · subst hc
      exact ⟨cs ++ [c], [], Or.inr ⟨cs, rfl⟩, by simp, by simp⟩
    · obtain ⟨front, last, hfront, hlast, rfl⟩ := ih
      exact ⟨front, last ++ [c], hfront, by simp [hlast, Ne.symm hc], by simp⟩

theorem last_piece_cases (separator : Char) (cs : List Char) :
    (∃ n, cs = List.replicate n separator) ∨
      ∃ front last n, Closed separator front ∧ last ≠ [] ∧ separator ∉ last ∧
        cs = front ++ last ++ List.replicate n separator := by
  induction cs using List.reverseRecOn with
  | nil => exact Or.inl ⟨0, rfl⟩
  | append_singleton cs c ih =>
    by_cases hc : c = separator
    · subst hc
      rcases ih with ⟨n, rfl⟩ | ⟨front, last, n, hfront, hne, hlast, rfl⟩
      · exact Or.inl ⟨n + 1, List.replicate_succ'.symm⟩
      · exact Or.inr ⟨front, last, n + 1, hfront, hne, hlast,
          by rw [List.replicate_succ', List.append_assoc]⟩
    · -- the text ends in a piece, which no separator follows
      obtain ⟨front, last, hfront, hlast, rfl⟩ := exists_closed separator cs
      exact Or.inr ⟨front, last ++ [c], 0, hfront, by simp, by simp [hlast, Ne.symm hc],
        by simp⟩

end

namespace Path

theorem dot_not_mem_internalName (name : String) : '.' ∉ (internalName name).toList := by
  rw [internalName, String.toList_map, List.mem_map]
  rintro ⟨c, -, hdot⟩
  split at hdot
  · contradiction
  · contradiction

theorem trimReversed_replicate (n : Nat) (cs : List Char) :
    trimReversed (List.replicate n '/' ++ cs) = trimReversed cs := by
  induction n with
  | zero => rfl
  | succ n ih => exact ih

theorem trimReversed_cons {c : Char} (hslash : c ≠ '/') (hdot : c ≠ '.') (cs : List Char) :
    trimReversed (c :: cs) = c :: cs := by
  unfold trimReversed
  split
  · rename_i heq
    exact absurd (List.cons.inj heq).1 hslash
  · rename_i heq
    exact absurd (List.cons.inj heq).1 hdot
  · rfl

theorem stem_eq_self {name : List Char} (h : '.' ∉ name) : stem name = name := by
  have hnone : name.reverse.dropWhile (· ≠ '.') = [] := by
    rw [List.dropWhile_eq_nil_iff]
    intro c hc
    have hne := ne_of_mem_of_not_mem (List.mem_reverse.mp hc) h
    simpa using hne
  rw [stem, hnone]
  rfl

theorem splitLast?_replicate (n : Nat) : splitLast? (List.replicate n '/') = none := by
  have htrim := trimReversed_replicate n []
  rw [List.append_nil] at htrim
  rw [splitLast?, List.reverse_replicate, htrim]
  rfl

theorem splitLast?_eq {before last : List Char} (hbefore : Closed '/' before) (hne : last ≠ [])
    (hslash : '/' ∉ last) (hdot : '.' ∉ last) (n : Nat) :
    splitLast? (before ++ last ++ List.replicate n '/') = some (before, last) := by
  have htrim : trimReversed (before ++ last ++ List.replicate n '/').reverse =
      last.reverse ++ before.reverse := by
    obtain ⟨c, cs, hreverse⟩ := List.exists_cons_of_ne_nil (List.reverse_ne_nil_iff.mpr hne)
    have hc : c ∈ last := List.mem_reverse.mp (hreverse ▸ List.mem_cons_self)
    rw [List.reverse_append, List.reverse_replicate, trimReversed_replicate, List.reverse_append,
      hreverse]
    exact trimReversed_cons (ne_of_mem_of_not_mem hc hslash) (ne_of_mem_of_not_mem hc hdot) _
  have hlast : (last.reverse ++ before.reverse).takeWhile (· ≠ '/') = last.reverse := by
    have hall : ∀ c ∈ last.reverse, decide (c ≠ '/') = true := fun c hc =>
      decide_eq_true (ne_of_mem_of_not_mem (List.mem_reverse.mp hc) hslash)
    rw [List.takeWhile_append_of_pos hall]
    rcases hbefore with rfl | ⟨cs, rfl⟩
    · simp
    · simp
  have hplain : ¬ (last = [] ∨ last = ['.'] ∨ last = ['.', '.']) := by
    rintro (rfl | rfl | rfl)
    · exact hne rfl
    · simp at hdot
    · simp at hdot
  rw [splitLast?, htrim, hlast, List.reverse_reverse, if_neg hplain,
    List.drop_append_of_le_length (by simp)]
  simp

theorem withExtension_eq {before last : List Char} (hbefore : Closed '/' before) (hne : last ≠ [])
    (hslash : '/' ∉ last) (hdot : '.' ∉ last) (n : Nat) (extension : List Char) :
    withExtension (before ++ last ++ List.replicate n '/') extension =
      before ++ (last ++ '.' :: extension) := by
  rw [withExtension, splitLast?_eq hbefore hne hslash hdot]
  simp only [stem_eq_self hdot, List.append_assoc]

def lead (base name : List Char) : List Char :=
  if name.head? = some '/' then []
  else if base = [] ∨ base.getLast? = some '/' then base
  else base ++ ['/']

theorem join_eq (base name : List Char) : join base name = lead base name ++ name := by
  unfold join lead
  split
  · rfl
  · split
    · rfl
    · rw [List.append_assoc, List.singleton_append]

theorem closed_lead (base name : List Char) : Closed '/' (lead base name) := by
  unfold lead
  split
  · exact Or.inl rfl
  · split
    · rename_i hbase
      exact hbase.imp_right List.getLast?_eq_some_iff.mp
    · exact Or.inr ⟨base, rfl⟩

theorem lead_eq_of_head? {name other : List Char} (h : name.head? = other.head?)
    (base : List Char) : lead base name = lead base other := by
  unfold lead
  rw [h]

theorem head?_append_append {last : List Char} (hne : last ≠ []) (front back back' : List Char) :
    (front ++ last ++ back).head? = (front ++ (last ++ back')).head? := by
  obtain ⟨c, cs, rfl⟩ := List.exists_cons_of_ne_nil hne
  cases front with
  | nil => rfl
  | cons d ds => rfl

theorem withExtension_join (base : List Char) {front last : List Char} (hfront : Closed '/' front)
    (hne : last ≠ []) (hslash : '/' ∉ last) (hdot : '.' ∉ last) (n : Nat)
    (extension : List Char) :
    withExtension (join base (front ++ last ++ List.replicate n '/')) extension =
      join base (front ++ (last ++ '.' :: extension)) := by
  have hhead := head?_append_append hne front (List.replicate n '/') ('.' :: extension)
  rw [join_eq, join_eq, lead_eq_of_head? hhead, ← List.append_assoc, ← List.append_assoc,
    withExtension_eq ((closed_lead ..).append hfront) hne hslash hdot, List.append_assoc]

end Path

namespace Location

def ofPath (path : List Char) : Location :=
  (path.splitOn '/').foldl step (start path)

theorem foldl_step {parts : List (List Char)} (h : ∀ part ∈ parts, part.head? ≠ some '.')
    (location : Location) : parts.foldl step location = location ++ parts.filter (· ≠ []) := by
  induction parts generalizing location with
  | nil => simp
  | cons part parts ih =>
    have hpart := h part List.mem_cons_self
    rw [List.foldl_cons, ih fun p hp => h p (List.mem_cons_of_mem part hp)]
    by_cases hempty : part = []
    · simp [step, isIdle, hempty]
    · have hidle : part ≠ ['.'] := by
        rintro rfl
        exact hpart rfl
      have hup : part ≠ upName := by
        rintro rfl
        exact hpart rfl
      simp [step, isIdle, hempty, hidle, hup]

theorem foldl_splitOn {path : List Char} (h : ∀ part ∈ pieces '/' path, part.head? ≠ some '.')
    (location : Location) :
    (path.splitOn '/').foldl step location = location ++ pieces '/' path := by
  refine foldl_step (fun part hpart => ?_) location
  by_cases hempty : part = []
  · simp [hempty]
  · exact h part (List.mem_filter.mpr ⟨hpart, decide_eq_true hempty⟩)

theorem start_append {front : List Char} (hne : front ≠ []) (rest : List Char) :
    start (front ++ rest) = start front := by
  obtain ⟨c, cs, rfl⟩ := List.exists_cons_of_ne_nil hne
  rfl

theorem ofPath_append_separator {path : List Char} (hne : path ≠ []) :
    ofPath (path ++ ['/']) = ofPath path := by
  rw [ofPath, ofPath, start_append hne, List.splitOn_append_cons_self, List.foldl_append]
  rfl

theorem ofPath_append {front : List Char} (hne : front ≠ []) (hfront : Closed '/' front)
    (rest : List Char) :
    ofPath (front ++ rest) = (rest.splitOn '/').foldl step (ofPath front) := by
  obtain ⟨cs, rfl⟩ := hfront.resolve_left hne
  rw [ofPath, ofPath, start_append hne, List.append_assoc, List.singleton_append,
    List.splitOn_append_cons_self, List.splitOn_append_cons_self, List.foldl_append,
    List.foldl_append]
  rfl

def anchor (base name : List Char) : Location :=
  if name.head? = some '/' then root else ofPath base

theorem ofPath_join (base name : List Char) :
    ofPath (Path.join base name) = (name.splitOn '/').foldl step (anchor base name) := by
  rw [Path.join_eq]
  unfold Path.lead anchor
  split
  · rename_i habsolute
    rw [List.nil_append, ofPath, start, if_pos habsolute]
  · rename_i hrelative
    split
    · rename_i hbase
      by_cases hempty : base = []
      · rw [hempty, List.nil_append, ofPath, start, if_neg hrelative]
        rfl
      · exact ofPath_append hempty (hbase.imp_right List.getLast?_eq_some_iff.mp) name
    · rename_i hbase
      rw [ofPath_append (by simp) (Or.inr ⟨base, rfl⟩),
        ofPath_append_separator (not_or.mp hbase).1]

theorem head?_ne_dot {cs part : List Char} (hdot : '.' ∉ cs) (h : part ∈ pieces '/' cs) :
    part.head? ≠ some '.' := by
  intro hhead
  exact hdot ((mem_pieces h).2 '.' (List.mem_of_head? hhead)).1

theorem ofPath_join_file (base : List Char) {front last extension : List Char}
    (hfront : Closed '/' front) (hne : last ≠ []) (hlast : '/' ∉ last)
    (hdot : '.' ∉ front ++ last) (hslash : '/' ∉ extension) :
    ofPath (Path.join base (front ++ (last ++ '.' :: extension))) =
      anchor base (front ++ (last ++ '.' :: extension)) ++
        (pieces '/' front ++ [last ++ '.' :: extension]) := by
  obtain ⟨hfrontdot, hlastdot⟩ := not_or.mp (mt List.mem_append.mpr hdot)
  have hfile : pieces '/' (front ++ (last ++ '.' :: extension)) =
      pieces '/' front ++ [last ++ '.' :: extension] := by
    have hclear : '/' ∉ last ++ '.' :: extension := by simp [hlast, hslash]
    rw [hfront.pieces_append, pieces_of_not_mem (List.append_ne_nil_of_left_ne_nil hne _) hclear]
  rw [ofPath_join, foldl_splitOn, hfile]
  rw [hfile]
  intro part hpart
  rcases List.mem_append.mp hpart with hpart | hpart
  · exact head?_ne_dot hfrontdot hpart
  · obtain rfl := List.mem_singleton.mp hpart
    obtain ⟨c, cs, rfl⟩ := List.exists_cons_of_ne_nil hne
    intro hhead
    exact hlastdot (by simpa using Or.inl (Option.some.inj hhead).symm)

/-- The pieces of a name that has no dots, with an extension to the last of them, are what leads on
from the base. -/
theorem ofPath_withExtension_join (base : List Char) {name extension : List Char}
    (hname : name ≠ []) (hdot : '.' ∉ name) (hslash : '/' ∉ extension) :
    ofPath (Path.withExtension (Path.join base name) extension) =
      anchor base name ++ (pieces '/' name).modifyLast (· ++ '.' :: extension) := by
  rcases last_piece_cases '/' name with ⟨n, rfl⟩ | ⟨front, last, n, hfront, hne, hlast, rfl⟩
  · -- a root has no last piece whose extension could be replaced
    have hroot : Path.join base (List.replicate n '/') = List.replicate n '/' := by
      obtain ⟨m, rfl⟩ := Nat.exists_eq_succ_of_ne_zero (show n ≠ 0 by simpa using hname)
      rfl
    have hkept : Path.withExtension (List.replicate n '/') extension = List.replicate n '/' := by
      rw [Path.withExtension, Path.splitLast?_replicate]
    rw [hroot, hkept, ← hroot, ofPath_join, foldl_splitOn fun _ => head?_ne_dot hdot, hroot,
      pieces_replicate]
    rfl
  · obtain ⟨hclear, -⟩ := not_or.mp (mt List.mem_append.mpr hdot)
    have hlastdot : '.' ∉ last := fun h => hclear (List.mem_append_right front h)
    have hhead := Path.head?_append_append hne front (List.replicate n '/') ('.' :: extension)
    rw [Path.withExtension_join base hfront hne hlast hlastdot,
      ofPath_join_file base hfront hne hlast hclear hslash, hfront.pieces_last hne hlast,
      List.modifyLast_concat, anchor, anchor, hhead]

end Location
end Metaspace
