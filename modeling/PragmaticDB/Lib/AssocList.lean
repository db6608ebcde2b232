import Mathlib.Data.List.AList

/-!
Association lists whose values change in place: the keys and their order stay.
-/
namespace AssocList
variable {α β : Type*} [DecidableEq α]

def mapVal (f : α → β → β) (s : AList fun _ : α => β) : AList fun _ : α => β :=
  ⟨s.entries.map (Sigma.map id f), s.nodupKeys.map₂ f⟩

@[simp] theorem lookup_mapVal (f : α → β → β) (s : AList fun _ : α => β) (a : α) :
    (mapVal f s).lookup a = (s.lookup a).map (f a) := List.dlookup_map₂ a

theorem mapVal_eq_self {f : α → β → β} {s : AList fun _ : α => β}
    (h : ∀ a b, s.lookup a = some b → f a b = b) : mapVal f s = s := by
  apply AList.ext
  change s.entries.map (Sigma.map id f) = s.entries
  have hid : ∀ e ∈ s.entries, Sigma.map id f e = id e := fun ⟨a, b⟩ he =>
    congrArg (Sigma.mk a) (h a b (AList.mem_lookup_iff.mpr he))
  rw [List.map_congr_left hid, List.map_id]

omit [DecidableEq α] in
@[simp] theorem length_mapVal (f : α → β → β) (s : AList fun _ : α => β) :
    (mapVal f s).entries.length = s.entries.length := List.length_map _

theorem length_insert (a : α) (b : β) (s : AList fun _ : α => β) :
    (s.insert a b).entries.length =
      if (s.lookup a).isSome then s.entries.length else s.entries.length + 1 := by
  have hkeys : ∀ t : AList fun _ : α => β, t.entries.length = t.keys.length :=
    fun t => (List.length_map _).symm
  rw [hkeys, hkeys, AList.keys_insert, List.length_cons]
  by_cases ha : a ∈ s.keys
  · rw [if_pos (AList.lookup_isSome.mpr (AList.mem_keys.mpr ha)), List.length_erase_of_mem ha]
    exact Nat.succ_pred_eq_of_pos (List.length_pos_of_mem ha)
  · rw [if_neg fun hs => ha (AList.mem_keys.mp (AList.lookup_isSome.mp hs)),
      List.erase_of_not_mem ha]

end AssocList
