import Mathlib.Data.List.Sort

set_option autoImplicit false

namespace Metaspace

variable {β γ : Type}

theorem mem_filterMap_zipIdx {slots : Array γ} {f : γ × Nat → Option β} {b : β} :
    b ∈ slots.toList.zipIdx.filterMap f ↔
      ∃ i slot, slots[i]? = some slot ∧ f (slot, i) = some b := by
  rw [List.mem_filterMap]
  constructor
  · rintro ⟨⟨slot, i⟩, hmem, hsome⟩
    rw [List.mem_zipIdx_iff_getElem?, Array.getElem?_toList] at hmem
    exact ⟨i, slot, hmem, hsome⟩
  · rintro ⟨i, slot, hslot, hsome⟩
    refine ⟨(slot, i), ?_, hsome⟩
    rw [List.mem_zipIdx_iff_getElem?, Array.getElem?_toList]
    exact hslot

theorem filterMap_zipIdx_ascending {f : γ × Nat → Option β} (index : β → Nat)
    (h : ∀ slot i b, f (slot, i) = some b → index b = i) (slots : List γ) :
    (slots.zipIdx.filterMap f).Pairwise fun a b => index a < index b := by
  have hordered : slots.zipIdx.Pairwise fun a b => a.2 < b.2 := by
    rw [← List.pairwise_map, List.zipIdx_map_snd]
    exact List.pairwise_lt_range'
  rw [List.pairwise_filterMap]
  refine hordered.imp ?_
  rintro ⟨slot, i⟩ ⟨slot', j⟩ hlt a ha b hb
  rw [h slot i a ha, h slot' j b hb]
  exact hlt

end Metaspace
