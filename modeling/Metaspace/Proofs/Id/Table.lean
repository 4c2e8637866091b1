import Mathlib.Data.List.Sort
import Metaspace.Id.Table

set_option autoImplicit false

namespace Metaspace

namespace Id

variable {space : IdSpace}

instance : LT (Id space) := ⟨fun a b => a.number < b.number⟩

theorem lt_def (a b : Id space) : a < b ↔ a.number < b.number := Iff.rfl

theorem ofNumber?_eq_some {n : Nat} {id : Id space} : ofNumber? n = some id ↔ id.number = n := by
  unfold ofNumber?
  split
  · rw [Option.some.injEq, Id.ext_iff]
    exact eq_comm
  · rename_i h
    have hid := id.number_le
    simp only [reduceCtorEq, false_iff]
    omega

theorem ofNumber?_eq_none {n : Nat} : (ofNumber? n : Option (Id space)) = none ↔ space.bound < n := by
  unfold ofNumber?
  split <;> simp <;> omega

end Id

namespace IdTable

private theorem ascending_of_places {space : IdSpace} {κ α : Type} {stamp : α → Id space}
    (l : List (Option (κ × α))) (n : Nat)
    (h : ∀ i e, l[i]? = some (some e) → (stamp e.2).number = n + i) :
    (l.filterMap fun entry => entry.map (·.2)).Pairwise (fun a b => stamp a < stamp b) ∧
      ∀ v ∈ l.filterMap fun entry => entry.map (·.2), n ≤ (stamp v).number := by
  induction l generalizing n with
  | nil => simp
  | cons x l ih =>
    have htail : ∀ i e, l[i]? = some (some e) → (stamp e.2).number = n + 1 + i := by
      intro i e hi
      have := h (i + 1) e (by simpa using hi)
      omega
    obtain ⟨hpair, hge⟩ := ih (n + 1) htail
    cases x with
    | none =>
      refine ⟨by simpa using hpair, ?_⟩
      intro v hv
      have := hge v (by simpa using hv)
      omega
    | some e =>
      have hhead : (stamp e.2).number = n := by simpa using h 0 e rfl
      simp only [List.filterMap_cons, Option.map_some, List.pairwise_cons, List.mem_cons]
      refine ⟨⟨?_, hpair⟩, ?_⟩
      · intro v hv
        have := hge v hv
        rw [Id.lt_def]
        omega
      · rintro v (rfl | hv)
        · omega
        · have := hge v hv
          omega

variable {space : IdSpace} {κ α : Type} [Ord κ]

theorem entry?_eq_some {table : IdTable space κ α} {id : Id space} {e : κ × α} :
    table.entry? id = some e ↔ 0 < id.number ∧ table.entries[id.number - 1]? = some (some e) := by
  unfold entry?
  cases hn : id.number with
  | zero => simp
  | succ n => simp [Option.join_eq_some_iff]

theorem get?_eq_some {table : IdTable space κ α} {id : Id space} {value : α} :
    table.get? id = some value ↔ ∃ key, table.entry? id = some (key, value) := by
  simp [get?, Option.map_eq_some_iff]

/-- The id has been handed out, whether or not it still has a value. -/
def Issued (table : IdTable space κ α) (id : Id space) : Prop :=
  0 < id.number ∧ id.number ≤ table.entries.size

theorem entry?_issued {table : IdTable space κ α} {id : Id space} {e : κ × α}
    (h : table.entry? id = some e) : table.Issued id := by
  obtain ⟨hpos, hget⟩ := entry?_eq_some.mp h
  obtain ⟨hlt, _⟩ := Array.getElem?_eq_some_iff.mp hget
  exact ⟨hpos, by omega⟩

theorem issued_of_get? {table : IdTable space κ α} {id : Id space} {value : α}
    (h : table.get? id = some value) : table.Issued id := by
  obtain ⟨key, hkey⟩ := get?_eq_some.mp h
  exact entry?_issued hkey

theorem empty_not_issued {id : Id space} : ¬ (empty : IdTable space κ α).Issued id := by
  rintro ⟨hpos, hle⟩
  have : id.number ≤ 0 := hle
  omega

/-- The index and the entries say the same, and all ids fit the space. -/
structure WellFormed (table : IdTable space κ α) : Prop where
  size_le : table.entries.size ≤ space.bound
  idOf?_iff : ∀ key id, table.idOf? key = some id ↔ ∃ value, table.entry? id = some (key, value)

def push (table : IdTable space κ α) (key : κ) (id : Id space) (value : α) : IdTable space κ α where
  index := table.index.insert key id
  entries := table.entries.push (some (key, value))
  size := table.size + 1

theorem insertWith_cases (table : IdTable space κ α) (key : κ) (make : Id space → α) :
    (∃ id, table.idOf? key = some id ∧ table.insertWith key make = (.taken id, table)) ∨
    (table.idOf? key = none ∧ space.bound ≤ table.entries.size ∧
      table.insertWith key make = (.exhausted, table)) ∨
    (∃ id, table.idOf? key = none ∧ id.number = table.entries.size + 1 ∧
      table.insertWith key make = (.inserted id, table.push key id (make id))) := by
  unfold insertWith
  cases hkey : table.idOf? key with
  | some id => exact Or.inl ⟨id, rfl, rfl⟩
  | none =>
    right
    cases hid : (Id.ofNumber? (table.entries.size + 1) : Option (Id space)) with
    | none =>
      have hfull := Id.ofNumber?_eq_none.mp hid
      exact Or.inl ⟨rfl, by omega, rfl⟩
    | some id => exact Or.inr ⟨id, rfl, Id.ofNumber?_eq_some.mp hid, rfl⟩

theorem entry?_push {table : IdTable space κ α} {id : Id space}
    (hid : id.number = table.entries.size + 1) (key : κ) (value : α) (j : Id space) :
    IdTable.entry? (table.push key id value) j =
      if j = id then some (key, value) else table.entry? j := by
  by_cases hj : j = id
  · subst hj
    rw [if_pos rfl, entry?_eq_some]
    refine ⟨by omega, ?_⟩
    simp [push, hid]
  · rw [if_neg hj]
    have hne : j.number ≠ table.entries.size + 1 := by
      intro h
      exact hj (Id.ext (h.trans hid.symm))
    cases hn : j.number with
    | zero => simp [IdTable.entry?, hn]
    | succ n =>
      have hlast : n ≠ table.entries.size := by omega
      simp [IdTable.entry?, hn, push, Array.getElem?_push, hlast]

theorem get?_push {table : IdTable space κ α} {id : Id space}
    (hid : id.number = table.entries.size + 1) (key : κ) (value : α) (j : Id space) :
    (table.push key id value).get? j = if j = id then some value else table.get? j := by
  unfold get?
  rw [entry?_push hid]
  split <;> rfl

def without (table : IdTable space κ α) (key : κ) (id : Id space) : IdTable space κ α where
  index := table.index.erase key
  entries := table.entries.setIfInBounds (id.number - 1) none
  size := table.size - 1

theorem erase_cases (table : IdTable space κ α) (id : Id space) :
    (table.entry? id = none ∧ table.erase id = (none, table)) ∨
    (∃ key value, table.entry? id = some (key, value) ∧
      table.erase id = (some value, table.without key id)) := by
  unfold erase
  cases hentry : table.entry? id with
  | none => exact Or.inl ⟨rfl, rfl⟩
  | some e => exact Or.inr ⟨e.1, e.2, rfl, rfl⟩

theorem entry?_without {table : IdTable space κ α} {id : Id space} (hid : 0 < id.number) (key : κ)
    (j : Id space) :
    IdTable.entry? (table.without key id) j = if j = id then none else table.entry? j := by
  cases hn : j.number with
  | zero => simp [IdTable.entry?, hn]
  | succ n =>
    by_cases hj : j = id
    · subst hj
      rw [if_pos rfl]
      simp only [IdTable.entry?, hn, without, Nat.add_sub_cancel, Array.getElem?_setIfInBounds]
      split
      · split <;> rfl
      · contradiction
    · have hne : id.number - 1 ≠ n := by
        intro h
        exact hj (Id.ext (by omega))
      simp [IdTable.entry?, hn, hj, without, hne]

theorem get?_without {table : IdTable space κ α} {id : Id space} (hid : 0 < id.number) (key : κ)
    (j : Id space) :
    (table.without key id).get? j = if j = id then none else table.get? j := by
  unfold get?
  rw [entry?_without hid]
  split <;> rfl

section WellFormed

theorem empty_wellFormed [Std.TransOrd κ] : (empty : IdTable space κ α).WellFormed where
  size_le := Nat.zero_le _
  idOf?_iff key id := by
    have hentry : IdTable.entry? (empty : IdTable space κ α) id = none := by
      unfold entry?
      cases id.number <;> rfl
    rw [hentry]
    simp [idOf?, empty]

variable [Std.TransOrd κ] [Std.LawfulEqOrd κ] [DecidableEq κ]

theorem idOf?_push (table : IdTable space κ α) (key : κ) (id : Id space) (value : α) (k : κ) :
    IdTable.idOf? (table.push key id value) k = if key = k then some id else table.idOf? k := by
  simp [idOf?, IdTable.push, Std.TreeMap.getElem?_insert]

theorem idOf?_without (table : IdTable space κ α) (key : κ) (id : Id space) (k : κ) :
    IdTable.idOf? (table.without key id) k = if key = k then none else table.idOf? k := by
  simp [idOf?, IdTable.without, Std.TreeMap.getElem?_erase]

theorem WellFormed.push {table : IdTable space κ α} (h : table.WellFormed) {key : κ}
    {id : Id space} (hkey : table.idOf? key = none) (hid : id.number = table.entries.size + 1)
    (value : α) : (table.push key id value).WellFormed where
  size_le := by
    have hle := id.number_le
    simp only [IdTable.push, Array.size_push]
    omega
  idOf?_iff k j := by
    have hnew : table.entry? id = none := by
      cases hentry : table.entry? id with
      | none => rfl
      | some e =>
        have hle := (entry?_issued hentry).2
        omega
    rw [idOf?_push, entry?_push hid]
    by_cases hk : key = k
    · subst hk
      by_cases hj : j = id
      · simp [hj]
      · have hold := h.idOf?_iff key j
        rw [hkey] at hold
        simpa [hj, Ne.symm hj] using hold
    · by_cases hj : j = id
      · subst hj
        have hold := h.idOf?_iff k j
        rw [hnew] at hold
        simpa [hk] using hold
      · simpa [hk, hj] using h.idOf?_iff k j

theorem WellFormed.without {table : IdTable space κ α} (h : table.WellFormed) {key : κ}
    {id : Id space} {value : α} (hentry : table.entry? id = some (key, value)) :
    (table.without key id).WellFormed where
  size_le := by
    simpa [IdTable.without] using h.size_le
  idOf?_iff k j := by
    rw [idOf?_without, entry?_without (entry?_issued hentry).1]
    have hkey : table.idOf? key = some id := (h.idOf?_iff key id).mpr ⟨value, hentry⟩
    by_cases hj : j = id
    · subst hj
      by_cases hk : key = k
      · simp [hk]
      · have hold := h.idOf?_iff k j
        rw [hentry] at hold
        simpa [hk] using hold
    · by_cases hk : key = k
      · subst hk
        have hold := h.idOf?_iff key j
        rw [hkey] at hold
        simpa [hj, Ne.symm hj] using hold
      · simpa [hk, hj] using h.idOf?_iff k j

end WellFormed

def Stamped (stamp : α → Id space) (table : IdTable space κ α) : Prop :=
  ∀ id e, table.entry? id = some e → stamp e.2 = id

variable {stamp : α → Id space}

theorem Stamped.get? {table : IdTable space κ α} (h : table.Stamped stamp) {id : Id space}
    {value : α} (hget : table.get? id = some value) : stamp value = id := by
  obtain ⟨key, hkey⟩ := get?_eq_some.mp hget
  exact h id (key, value) hkey

theorem Stamped.ascending {table : IdTable space κ α} (hbound : table.entries.size ≤ space.bound)
    (h : table.Stamped stamp) : table.values.Pairwise (fun a b => stamp a < stamp b) := by
  refine (ascending_of_places table.entries.toList 1 ?_).1
  intro i e hi
  rw [Array.getElem?_toList] at hi
  obtain ⟨hlt, _⟩ := Array.getElem?_eq_some_iff.mp hi
  have hentry : table.entry? ⟨i + 1, by omega⟩ = some e :=
      entry?_eq_some.mpr ⟨by simp, by simpa using hi⟩
  rw [h _ e hentry]
  exact Nat.add_comm i 1

theorem Stamped.mem_values {table : IdTable space κ α} (hbound : table.entries.size ≤ space.bound)
    (h : table.Stamped stamp) {value : α} :
    value ∈ table.values ↔ table.get? (stamp value) = some value := by
  rw [get?_eq_some]
  simp only [values, List.mem_filterMap, Option.map_eq_some_iff]
  constructor
  · rintro ⟨entry, hmem, e, rfl, rfl⟩
    obtain ⟨i, hi⟩ := List.mem_iff_getElem?.mp hmem
    rw [Array.getElem?_toList] at hi
    obtain ⟨hlt, _⟩ := Array.getElem?_eq_some_iff.mp hi
    have hentry : table.entry? ⟨i + 1, by omega⟩ = some e :=
      entry?_eq_some.mpr ⟨by simp, by simpa using hi⟩
    rw [h _ e hentry]
    exact ⟨e.1, hentry⟩
  · rintro ⟨key, hentry⟩
    obtain ⟨_, hget⟩ := entry?_eq_some.mp hentry
    refine ⟨some (key, value), ?_, (key, value), rfl, rfl⟩
    rw [← Array.getElem?_toList] at hget
    exact List.mem_of_getElem? hget

theorem values_push (table : IdTable space κ α) (key : κ) (id : Id space) (value : α) :
    (table.push key id value).values = table.values ++ [value] := by
  simp [values, push]

theorem eq_of_ascending {l₁ l₂ : List α} (h₁ : l₁.Pairwise fun a b => stamp a < stamp b)
    (h₂ : l₂.Pairwise fun a b => stamp a < stamp b) (h : ∀ a, a ∈ l₁ ↔ a ∈ l₂) : l₁ = l₂ := by
  have : Std.Irrefl fun a b : α => stamp a < stamp b := ⟨fun a => Nat.lt_irrefl (stamp a).number⟩
  have : Std.Antisymm fun a b : α => stamp a < stamp b :=
    ⟨fun _ _ hab hba => absurd hab (Nat.lt_asymm hba)⟩
  exact h₁.eq_of_mem_iff h₂ h

theorem Stamped.without {table : IdTable space κ α} (h : table.Stamped stamp) {id : Id space}
    (hid : 0 < id.number) (key : κ) : (table.without key id).Stamped stamp := by
  intro j e hj
  rw [entry?_without hid] at hj
  split at hj
  · contradiction
  · exact h j e hj

theorem Stamped.push {table : IdTable space κ α} (h : table.Stamped stamp) {id : Id space}
    (hid : id.number = table.entries.size + 1) (key : κ) {value : α} (hvalue : stamp value = id) :
    (table.push key id value).Stamped stamp := by
  intro j e hj
  rw [entry?_push hid] at hj
  split at hj
  · rename_i hji
    obtain rfl := Option.some.inj hj
    rw [hji, hvalue]
  · exact h j e hj

theorem Stamped.values_without {table : IdTable space κ α}
    (hbound : table.entries.size ≤ space.bound) (h : table.Stamped stamp) {id : Id space}
    (hid : 0 < id.number) (key : κ) :
    (table.without key id).values = table.values.filter (stamp · ≠ id) := by
  have hbound' : (table.without key id).entries.size ≤ space.bound := by
    simpa [IdTable.without] using hbound
  have hstamped := h.without hid key
  apply eq_of_ascending (hstamped.ascending hbound') ((h.ascending hbound).filter _)
  intro v
  rw [hstamped.mem_values hbound', List.mem_filter, h.mem_values hbound, get?_without hid]
  by_cases hv : stamp v = id <;> simp [hv]

end IdTable
end Metaspace
