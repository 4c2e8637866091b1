import Metaspace.Proofs.Id.Table
import Metaspace.Proofs.Places

/-!
The id table over a run of calls. A history records which insertions and removals of a run went
through. The main statement is that after any run the table is the ordered map that its history
describes: the n-th insertion has id n, a key stands for the id it was inserted with until that id
is removed, and the values that are left are listed in the order of their ids.
-/

set_option autoImplicit false

namespace Metaspace
namespace IdTable

variable {space : IdSpace} {κ α : Type} [Ord κ]

/-- What a change of the value with a registered id makes of a table. -/
def altered (table : IdTable space κ α) (key : κ) (id : Id space) (value : α) :
    IdTable space κ α :=
  { table with entries := table.entries.setIfInBounds (id.number - 1) (some (key, value)) }

theorem modify_cases (table : IdTable space κ α) (id : Id space) (f : α → α) :
    (table.entry? id = none ∧ table.modify id f = table) ∨
    (∃ key value, table.entry? id = some (key, value) ∧
      table.modify id f = table.altered key id (f value)) := by
  unfold modify
  cases hentry : table.entry? id with
  | none => exact Or.inl ⟨rfl, rfl⟩
  | some e => exact Or.inr ⟨e.1, e.2, rfl, rfl⟩

theorem entry?_altered {table : IdTable space κ α} {id : Id space} (hid : table.Issued id)
    (key : κ) (value : α) (j : Id space) :
    IdTable.entry? (table.altered key id value) j =
      if j = id then some (key, value) else table.entry? j := by
  obtain ⟨hpos, hle⟩ := hid
  by_cases hj : j = id
  · subst hj
    rw [if_pos rfl, entry?_eq_some]
    refine ⟨hpos, ?_⟩
    simp only [altered, Array.getElem?_setIfInBounds, if_true]
    rw [if_pos (by omega)]
  · rw [if_neg hj]
    cases hn : j.number with
    | zero => simp [IdTable.entry?, hn]
    | succ n =>
      have hne : id.number - 1 ≠ n := by
        intro h
        exact hj (Id.ext (by omega))
      simp [IdTable.entry?, hn, altered, hne]

theorem get?_altered {table : IdTable space κ α} {id : Id space} (hid : table.Issued id)
    (key : κ) (value : α) (j : Id space) :
    (table.altered key id value).get? j = if j = id then some value else table.get? j := by
  unfold get?
  rw [entry?_altered hid]
  split <;> rfl

theorem WellFormed.altered {table : IdTable space κ α} (h : table.WellFormed) {key : κ}
    {id : Id space} {value : α} (hentry : table.entry? id = some (key, value)) (new : α) :
    (table.altered key id new).WellFormed where
  size_le := by
    simpa [IdTable.altered] using h.size_le
  idOf?_iff k j := by
    have hindex : (table.altered key id new).idOf? k = table.idOf? k := rfl
    rw [hindex, entry?_altered (entry?_issued hentry), h.idOf?_iff]
    by_cases hj : j = id
    · subst hj
      simp [hentry]
    · simp [hj]

theorem mem_toList {table : IdTable space κ α} {id : Id space} {value : α} :
    (id, value) ∈ table.toList ↔ table.get? id = some value := by
  unfold toList
  rw [get?_eq_some, mem_filterMap_zipIdx]
  simp only [entry?_eq_some]
  constructor
  · rintro ⟨position, entry, hentry, hsome⟩
    split at hsome
    · rename_i key v j hj
      cases hsome
      have hnumber : id.number = position + 1 := Id.ofNumber?_eq_some.mp hj
      refine ⟨key, by omega, ?_⟩
      rw [hnumber, Nat.add_sub_cancel, hentry]
    · contradiction
  · rintro ⟨key, hpos, hget⟩
    have hid : (Id.ofNumber? (id.number - 1 + 1) : Option (Id space)) = some id :=
      Id.ofNumber?_eq_some.mpr (by omega)
    refine ⟨id.number - 1, some (key, value), hget, ?_⟩
    simp only [hid]

theorem toList_ascending (table : IdTable space κ α) :
    table.toList.Pairwise fun a b => a.1 < b.1 := by
  refine (filterMap_zipIdx_ascending (fun a : Id space × α => a.1.number - 1) ?_
    table.entries.toList).imp ?_
  · intro entry position a h
    dsimp only at h
    split at h
    · rename_i hid
      obtain rfl := Option.some.inj h
      have hnumber := Id.ofNumber?_eq_some.mp hid
      dsimp only
      omega
    · contradiction
  · intro a b hlt
    rw [Id.lt_def]
    omega

def ids (table : IdTable space κ α) : List (Id space) :=
  table.toList.map (·.1)

theorem mem_ids {table : IdTable space κ α} {id : Id space} :
    id ∈ table.ids ↔ table.contains id = true := by
  simp only [ids, List.mem_map, Prod.exists, mem_toList, contains, Option.isSome_iff_exists]
  constructor
  · rintro ⟨j, value, hget, rfl⟩
    exact ⟨value, hget⟩
  · rintro ⟨value, hget⟩
    exact ⟨id, value, hget, rfl⟩

theorem ids_ascending (table : IdTable space κ α) : table.ids.Pairwise fun a b => a < b :=
  List.pairwise_map.mpr table.toList_ascending

theorem ids_nodup (table : IdTable space κ α) : table.ids.Nodup := by
  refine table.ids_ascending.imp ?_
  rintro a b hlt rfl
  exact Nat.lt_irrefl _ hlt

theorem length_ids_eq {table : IdTable space κ α} {l : List (Id space)} (hnodup : l.Nodup)
    (h : ∀ id, table.contains id = true ↔ id ∈ l) : table.ids.length = l.length := by
  apply List.Perm.length_eq
  rw [List.perm_ext_iff_of_nodup table.ids_nodup hnodup]
  intro id
  rw [mem_ids, h]

theorem length_ids_push {table : IdTable space κ α} {id : Id space}
    (hid : id.number = table.entries.size + 1) (key : κ) (value : α) :
    (table.push key id value).ids.length = table.ids.length + 1 := by
  have hnew : id ∉ table.ids := by
    rw [mem_ids, contains, Option.isSome_iff_exists]
    rintro ⟨v, hv⟩
    have hle := (issued_of_get? hv).2
    omega
  apply length_ids_eq (l := id :: table.ids) (List.nodup_cons.mpr ⟨hnew, table.ids_nodup⟩)
  intro j
  rw [List.mem_cons, mem_ids, contains, get?_push hid, contains]
  by_cases hj : j = id <;> simp [hj]

theorem length_ids_without {table : IdTable space κ α} {id : Id space} {key : κ} {value : α}
    (hentry : table.entry? id = some (key, value)) :
    (table.without key id).ids.length = table.ids.length - 1 := by
  have hheld : id ∈ table.ids := by
    rw [mem_ids, contains, Option.isSome_iff_exists]
    exact ⟨value, get?_eq_some.mpr ⟨key, hentry⟩⟩
  rw [← List.length_erase_of_mem hheld]
  apply length_ids_eq (table.ids_nodup.erase id)
  intro j
  rw [table.ids_nodup.mem_erase_iff, mem_ids, contains,
    get?_without (entry?_issued hentry).1, contains]
  by_cases hj : j = id <;> simp [hj]

theorem length_ids_altered {table : IdTable space κ α} {id : Id space} {key : κ} {value : α}
    (hentry : table.entry? id = some (key, value)) (new : α) :
    (table.altered key id new).ids.length = table.ids.length := by
  apply length_ids_eq table.ids_nodup
  intro j
  rw [mem_ids, contains, get?_altered (entry?_issued hentry), contains]
  by_cases hj : j = id
  · have hget : table.get? id = some value := get?_eq_some.mpr ⟨key, hentry⟩
    simp [hj, hget]
  · simp [hj]

structure Leaves (table : IdTable space κ α) (id : Id space)
    (result : Option α × IdTable space κ α) : Prop where
  answer : result.1 = table.get? id
  get? : ∀ j, result.2.get? j = if j = id then none else table.get? j
  idOf? : ∀ k, result.2.idOf? k = if table.idOf? k = some id then none else table.idOf? k
  missing : table.get? id = none → result.2 = table

structure Changes (table : IdTable space κ α) (id : Id space) (f : α → α)
    (result : IdTable space κ α) : Prop where
  get? : ∀ j, result.get? j = if j = id then (table.get? j).map f else table.get? j
  idOf? : ∀ k, result.idOf? k = table.idOf? k
  missing : table.get? id = none → result = table

theorem WellFormed.get?_of_idOf? {table : IdTable space κ α} (h : table.WellFormed) {key : κ}
    {id : Id space} (hkey : table.idOf? key = some id) : ∃ value, table.get? id = some value := by
  obtain ⟨value, hentry⟩ := (h.idOf?_iff key id).mp hkey
  exact ⟨value, get?_eq_some.mpr ⟨key, hentry⟩⟩

theorem changes_modify (table : IdTable space κ α) (id : Id space) (f : α → α) :
    table.Changes id f (table.modify id f) := by
  rcases table.modify_cases id f with ⟨hnone, heq⟩ | ⟨key, value, hentry, heq⟩
  · have hget : table.get? id = none := by rw [get?, hnone]; rfl
    rw [heq]
    refine ⟨?_, fun _ => rfl, fun _ => rfl⟩
    intro j
    by_cases hj : j = id
    · rw [if_pos hj, hj, hget]
      rfl
    · rw [if_neg hj]
  · have hget : table.get? id = some value := get?_eq_some.mpr ⟨key, hentry⟩
    rw [heq]
    refine ⟨?_, fun _ => rfl, ?_⟩
    · intro j
      rw [get?_altered (entry?_issued hentry)]
      by_cases hj : j = id
      · rw [if_pos hj, if_pos hj, hj, hget]
        rfl
      · rw [if_neg hj, if_neg hj]
    · intro hnone
      rw [hget] at hnone
      contradiction

variable [Std.TransOrd κ] [Std.LawfulEqOrd κ] [DecidableEq κ]

theorem WellFormed.leaves {table : IdTable space κ α} (h : table.WellFormed) (id : Id space) :
    table.Leaves id (table.erase id) := by
  rcases table.erase_cases id with ⟨hnone, heq⟩ | ⟨key, value, hentry, heq⟩
  · have hget : table.get? id = none := by rw [get?, hnone]; rfl
    rw [heq]
    refine ⟨hget.symm, ?_, ?_, fun _ => rfl⟩
    · intro j
      by_cases hj : j = id
      · rw [if_pos hj, hj, hget]
      · rw [if_neg hj]
    · intro k
      by_cases hkey : table.idOf? k = some id
      · obtain ⟨value, hvalue⟩ := h.get?_of_idOf? hkey
        rw [hget] at hvalue
        contradiction
      · rw [if_neg hkey]
  · have hget : table.get? id = some value := get?_eq_some.mpr ⟨key, hentry⟩
    rw [heq]
    refine ⟨hget.symm, get?_without (entry?_issued hentry).1 key, ?_, ?_⟩
    · intro k
      rw [idOf?_without]
      by_cases hkey : key = k
      · rw [if_pos hkey, if_pos]
        rw [← hkey]
        exact (h.idOf?_iff key id).mpr ⟨value, hentry⟩
      · rw [if_neg hkey, if_neg]
        intro hid
        obtain ⟨v, hv⟩ := (h.idOf?_iff k id).mp hid
        rw [hentry] at hv
        cases hv
        exact hkey rfl
    · intro hnone
      rw [hget] at hnone
      contradiction

end IdTable

inductive Edit (space : IdSpace) (κ α : Type) where
  | insert (key : κ) (value : α)
  | insertWith (key : κ) (make : Id space → α)
  | erase (id : Id space)
  | modify (id : Id space) (f : α → α)

structure History (space : IdSpace) (κ α : Type) [Ord κ] where
  table : IdTable space κ α
  /-- The keys of the insertions that went through and the ids they received, the first one
  first. -/
  granted : List (κ × Id space)
  erased : List (Id space)

namespace History

variable {space : IdSpace} {κ α : Type} [Ord κ]

def start : History space κ α := ⟨.empty, [], []⟩

def inserting (h : History space κ α) (key : κ) :
    Insertion space × IdTable space κ α → History space κ α
  | (.inserted id, table) => ⟨table, h.granted ++ [(key, id)], h.erased⟩
  | (_, table) => { h with table }

def erasing (h : History space κ α) (id : Id space) :
    Option α × IdTable space κ α → History space κ α
  | (some _, table) => ⟨table, h.granted, h.erased ++ [id]⟩
  | (none, table) => { h with table }

def edit (h : History space κ α) : Edit space κ α → History space κ α
  | .insert key value => h.inserting key (h.table.insert key value)
  | .insertWith key make => h.inserting key (h.table.insertWith key make)
  | .erase id => h.erasing id (h.table.erase id)
  | .modify id f => { h with table := h.table.modify id f }

def after (edits : List (Edit space κ α)) : History space κ α :=
  edits.foldl edit start

structure Kept (h : History space κ α) : Prop where
  wellFormed : h.table.WellFormed
  length_granted : h.granted.length = h.table.entries.size
  numbered : ∀ n key id, h.granted[n]? = some (key, id) → id.number = n + 1
  held_iff : ∀ key id, (∃ value, h.table.entry? id = some (key, value)) ↔
    (key, id) ∈ h.granted ∧ id ∉ h.erased
  erased_issued : ∀ id ∈ h.erased, h.table.Issued id
  erased_nodup : h.erased.Nodup
  size_eq : h.table.size = h.table.ids.length

theorem kept_start [Std.TransOrd κ] : (start : History space κ α).Kept where
  wellFormed := IdTable.empty_wellFormed
  length_granted := rfl
  numbered := by simp [start]
  held_iff key id := by
    have hnone : IdTable.entry? (start : History space κ α).table id = none := by
      unfold IdTable.entry?
      cases id.number <;> rfl
    rw [hnone]
    simp [start]
  erased_issued := by simp [start]
  erased_nodup := List.nodup_nil
  size_eq := rfl

variable {h : History space κ α}

theorem Kept.altered (hk : h.Kept) {key : κ} {id : Id space} {value : α}
    (hentry : h.table.entry? id = some (key, value)) (new : α) :
    Kept { h with table := h.table.altered key id new } where
  wellFormed := hk.wellFormed.altered hentry new
  length_granted := by
    simp [IdTable.altered, hk.length_granted]
  numbered := hk.numbered
  held_iff k j := by
    rw [IdTable.entry?_altered (IdTable.entry?_issued hentry), ← hk.held_iff k j]
    by_cases hj : j = id
    · simp [hj, hentry]
    · simp [hj]
  erased_issued j hj := by
    simpa [IdTable.Issued, IdTable.altered] using hk.erased_issued j hj
  erased_nodup := hk.erased_nodup
  size_eq := by
    rw [IdTable.length_ids_altered hentry, ← hk.size_eq]
    rfl

theorem Kept.idOf?_iff (hk : h.Kept) (key : κ) (id : Id space) :
    h.table.idOf? key = some id ↔ (key, id) ∈ h.granted ∧ id ∉ h.erased := by
  rw [hk.wellFormed.idOf?_iff, hk.held_iff]

theorem Kept.contains_iff (hk : h.Kept) (id : Id space) :
    h.table.contains id = true ↔ (∃ key, (key, id) ∈ h.granted) ∧ id ∉ h.erased := by
  rw [IdTable.contains, Option.isSome_iff_exists, ← exists_and_right]
  simp only [IdTable.get?_eq_some, ← hk.held_iff]
  exact exists_comm

variable [Std.TransOrd κ] [Std.LawfulEqOrd κ] [DecidableEq κ]

theorem Kept.pushed (hk : h.Kept) {key : κ} {id : Id space} (hkey : h.table.idOf? key = none)
    (hid : id.number = h.table.entries.size + 1) (value : α) :
    Kept ⟨h.table.push key id value, h.granted ++ [(key, id)], h.erased⟩ where
  wellFormed := hk.wellFormed.push hkey hid value
  length_granted := by
    simp [IdTable.push, hk.length_granted]
  numbered n k j hget := by
    rw [List.getElem?_append] at hget
    split at hget
    · exact hk.numbered n k j hget
    · rename_i hlt
      rw [List.getElem?_singleton] at hget
      split at hget
      · have hlength := hk.length_granted
        cases hget
        omega
      · contradiction
  held_iff k j := by
    have hunused : id ∉ h.erased := by
      intro hmem
      have hle := (hk.erased_issued id hmem).2
      omega
    rw [IdTable.entry?_push hid, List.mem_append, List.mem_singleton]
    by_cases hj : j = id
    · subst hj
      have hnew : ∀ k, (k, j) ∉ h.granted := by
        intro k hmem
        obtain ⟨n, hn⟩ := List.mem_iff_getElem?.mp hmem
        have hnumber := hk.numbered n k j hn
        have hlt := (List.getElem?_eq_some_iff.mp hn).1
        have hlength := hk.length_granted
        omega
      simp [hnew, hunused, eq_comm]
    · simpa [hj] using hk.held_iff k j
  erased_issued j hj := by
    obtain ⟨hpos, hle⟩ := hk.erased_issued j hj
    refine ⟨hpos, ?_⟩
    simp only [IdTable.push, Array.size_push]
    omega
  erased_nodup := hk.erased_nodup
  size_eq := by
    rw [IdTable.length_ids_push hid, ← hk.size_eq]
    rfl

theorem Kept.taken_out (hk : h.Kept) {key : κ} {id : Id space} {value : α}
    (hentry : h.table.entry? id = some (key, value)) :
    Kept ⟨h.table.without key id, h.granted, h.erased ++ [id]⟩ where
  wellFormed := hk.wellFormed.without hentry
  length_granted := by
    simp [IdTable.without, hk.length_granted]
  numbered := hk.numbered
  held_iff k j := by
    rw [IdTable.entry?_without (IdTable.entry?_issued hentry).1, List.mem_append,
      List.mem_singleton]
    by_cases hj : j = id
    · simp [hj]
    · simpa [hj] using hk.held_iff k j
  erased_issued j hj := by
    have hissued : h.table.Issued j := by
      rcases List.mem_append.mp hj with hj | hj
      · exact hk.erased_issued j hj
      · rw [List.mem_singleton.mp hj]
        exact IdTable.entry?_issued hentry
    simpa [IdTable.Issued, IdTable.without] using hissued
  erased_nodup := by
    have hheld := (hk.held_iff key id).mp ⟨value, hentry⟩
    rw [List.nodup_append]
    refine ⟨hk.erased_nodup, List.pairwise_singleton _ _, ?_⟩
    rintro a ha b hb rfl
    rw [List.mem_singleton] at hb
    exact hheld.2 (hb ▸ ha)
  size_eq := by
    rw [IdTable.length_ids_without hentry, ← hk.size_eq]
    rfl

theorem Kept.inserting (hk : h.Kept) (key : κ) (make : Id space → α) :
    (h.inserting key (h.table.insertWith key make)).Kept := by
  rcases h.table.insertWith_cases key make with ⟨id, -, heq⟩ | ⟨-, -, heq⟩ | ⟨id, hkey, hid, heq⟩
  · rw [heq]
    exact hk
  · rw [heq]
    exact hk
  · rw [heq]
    exact hk.pushed hkey hid (make id)

theorem Kept.edit (hk : h.Kept) (e : Edit space κ α) : (h.edit e).Kept := by
  cases e with
  | insert key value => exact hk.inserting key fun _ => value
  | insertWith key make => exact hk.inserting key make
  | erase id =>
    show (h.erasing id (h.table.erase id)).Kept
    rcases h.table.erase_cases id with ⟨-, heq⟩ | ⟨key, value, hentry, heq⟩
    · rw [heq]
      exact hk
    · rw [heq]
      exact hk.taken_out hentry
  | modify id f =>
    show Kept { h with table := h.table.modify id f }
    rcases h.table.modify_cases id f with ⟨-, heq⟩ | ⟨key, value, hentry, heq⟩
    · rw [heq]
      exact hk
    · rw [heq]
      exact hk.altered hentry (f value)

theorem Kept.edits (hk : h.Kept) (edits : List (Edit space κ α)) :
    (edits.foldl History.edit h).Kept := by
  induction edits generalizing h with
  | nil => exact hk
  | cons e edits ih => exact ih (hk.edit e)

/-- What an insertion comes to and what it leaves, for a history. -/
structure Enters (h : History space κ α) (key : κ) (make : Id space → α)
    (result : Insertion space × IdTable space κ α) : Prop where
  taken : ∀ id, h.table.idOf? key = some id → result = (.taken id, h.table)
  exhausted : h.table.idOf? key = none → space.bound ≤ h.granted.length →
    result = (.exhausted, h.table)
  inserted : h.table.idOf? key = none → h.granted.length < space.bound →
    ∃ id, id.number = h.granted.length + 1 ∧ result.1 = .inserted id ∧
      (∀ j, result.2.get? j = if j = id then some (make id) else h.table.get? j) ∧
      ∀ k, result.2.idOf? k = if key = k then some id else h.table.idOf? k

/-- The table is the ordered map that its history describes, and every further call keeps to it. -/
structure OrderedMap (h : History space κ α) : Prop where
  numbered : ∀ n key id, h.granted[n]? = some (key, id) → id.number = n + 1
  erased_nodup : h.erased.Nodup
  /-- A key stands for the id that was inserted under it and is still there. -/
  idOf?_iff : ∀ key id,
    h.table.idOf? key = some id ↔ (key, id) ∈ h.granted ∧ id ∉ h.erased
  contains_iff : ∀ id,
    h.table.contains id = true ↔ (∃ key, (key, id) ∈ h.granted) ∧ id ∉ h.erased
  getKeyed? : ∀ key value,
    h.table.getKeyed? key = some value ↔
      ∃ id, h.table.idOf? key = some id ∧ h.table.get? id = some value
  containsKey_iff : ∀ key,
    h.table.containsKey key = true ↔ ∃ value, h.table.getKeyed? key = some value
  insertWith : ∀ key make, h.Enters key make (h.table.insertWith key make)
  insert : ∀ key value, h.Enters key (fun _ => value) (h.table.insert key value)
  erase : ∀ id, h.table.Leaves id (h.table.erase id)
  modify : ∀ id f, h.table.Changes id f (h.table.modify id f)
  mem_toList : ∀ id value, (id, value) ∈ h.table.toList ↔ h.table.get? id = some value
  toList_ascending : h.table.toList.Pairwise fun a b => a.1 < b.1
  length_toList : h.table.toList.length = h.table.size

theorem Kept.enters (hk : h.Kept) (key : κ) (make : Id space → α) :
    h.Enters key make (h.table.insertWith key make) := by
  have hlength := hk.length_granted
  rcases h.table.insertWith_cases key make with
    ⟨id, hkey, heq⟩ | ⟨hkey, hfull, heq⟩ | ⟨id, hkey, hid, heq⟩
  · rw [heq]
    refine ⟨?_, ?_, ?_⟩
    · intro j hj
      rw [Option.some.inj (hkey.symm.trans hj)]
    · intro hnone
      rw [hkey] at hnone
      contradiction
    · intro hnone
      rw [hkey] at hnone
      contradiction
  · rw [heq]
    refine ⟨?_, fun _ _ => rfl, ?_⟩
    · intro id hid
      rw [hkey] at hid
      contradiction
    · intro _ hlt
      omega
  · have hwell := hk.wellFormed.push hkey hid (make id)
    rw [heq]
    refine ⟨?_, ?_, fun _ _ => ⟨id, by omega, rfl, IdTable.get?_push hid key (make id), ?_⟩⟩
    · intro j hj
      rw [hkey] at hj
      contradiction
    · intro _ hfull
      have hle := id.number_le
      omega
    · exact fun k => IdTable.idOf?_push h.table key id (make id) k

theorem Kept.orderedMap (hk : h.Kept) : h.OrderedMap where
  numbered := hk.numbered
  erased_nodup := hk.erased_nodup
  idOf?_iff := hk.idOf?_iff
  contains_iff := hk.contains_iff
  getKeyed? key value := Option.bind_eq_some_iff
  containsKey_iff key := by
    rw [IdTable.containsKey, Option.isSome_iff_exists]
    constructor
    · rintro ⟨id, hkey⟩
      obtain ⟨value, hvalue⟩ := hk.wellFormed.get?_of_idOf? hkey
      exact ⟨value, Option.bind_eq_some_iff.mpr ⟨id, hkey, hvalue⟩⟩
    · rintro ⟨value, hvalue⟩
      obtain ⟨id, hkey, -⟩ := Option.bind_eq_some_iff.mp hvalue
      exact ⟨id, hkey⟩
  insertWith := hk.enters
  insert key value := hk.enters key fun _ => value
  erase := hk.wellFormed.leaves
  modify := h.table.changes_modify
  mem_toList _ _ := IdTable.mem_toList
  toList_ascending := h.table.toList_ascending
  length_toList := by
    rw [hk.size_eq, IdTable.ids, List.length_map]

/-- After every run of calls the table is an ordered map with fresh ids. -/
theorem after_orderedMap (edits : List (Edit space κ α)) : (after edits).OrderedMap :=
  (kept_start.edits edits).orderedMap

/-- A key that is removed and inserted again, in a space of two ids, and a third insertion. -/
def spent : List (Edit ⟨"Tiny", 2⟩ Nat Nat) :=
  [.insert 7 70, .insert 7 71, .erase ⟨0, by decide⟩, .erase ⟨1, by decide⟩, .insertWith 7 Id.number,
    .modify ⟨2, by decide⟩ (· + 10), .modify ⟨1, by decide⟩ (· + 20), .insert 8 80]

theorem spent_orderedMap :
    (after spent).granted = [(7, ⟨1, by decide⟩), (7, ⟨2, by decide⟩)] ∧
      (after spent).erased = [⟨1, by decide⟩] ∧
      (after spent).table.toList = [(⟨2, by decide⟩, 12)] ∧
      ((after spent).table.insert 8 80).1 = .exhausted ∧
      (after spent).OrderedMap :=
  ⟨by decide +kernel, by decide +kernel, by decide +kernel, by decide +kernel,
    after_orderedMap spent⟩

end History
end Metaspace
