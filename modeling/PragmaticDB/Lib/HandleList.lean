import Mathlib

/-!
A list of distinct elements together with an index from each element to its node, so that
an element is removed without a search. Nodes carry identities that are never reused.
-/

/-! Lookups in an association list whose entries share one type. -/

theorem AList.lookup_insert_ite {α β : Type*} [DecidableEq α] (s : AList fun _ : α => β)
    (a a' : α) (b : β) : (s.insert a b).lookup a' = if a' = a then some b else s.lookup a' := by
  by_cases h : a' = a
  · subst h
    rw [AList.lookup_insert, if_pos rfl]
  · rw [AList.lookup_insert_ne h, if_neg h]

theorem AList.lookup_erase_ite {α β : Type*} [DecidableEq α] (s : AList fun _ : α => β)
    (a a' : α) : (s.erase a).lookup a' = if a' = a then none else s.lookup a' := by
  by_cases h : a' = a
  · subst h
    rw [AList.lookup_erase, if_pos rfl]
  · rw [AList.lookup_erase_ne h, if_neg h]

/-- The nodes in order, and for each element the node that holds it. -/
structure HandleList (α : Type*) [DecidableEq α] where
  nodes : List (ℕ × α)
  pos : AList (fun _ : α => ℕ)
  next : ℕ
  pos_iff : ∀ a k, pos.lookup a = some k ↔ (k, a) ∈ nodes
  node_lt : ∀ x ∈ nodes, x.1 < next
  ids_nodup : (nodes.map Prod.fst).Nodup

namespace HandleList
variable {α : Type*} [DecidableEq α]

def empty : HandleList α where
  nodes := []
  pos := ∅
  next := 0
  pos_iff a k := by simp
  node_lt := by simp
  ids_nodup := by simp

def toList (l : HandleList α) : List α := l.nodes.map Prod.snd

def mem (l : HandleList α) (a : α) : Bool := (l.pos.lookup a).isSome

theorem id_unique (l : HandleList α) {k : ℕ} {a b : α} (ha : (k, a) ∈ l.nodes)
    (hb : (k, b) ∈ l.nodes) : a = b := by
  have h := List.inj_on_of_nodup_map l.ids_nodup ha hb rfl
  exact (Prod.mk.inj h).2

theorem node_unique (l : HandleList α) {j k : ℕ} {a : α} (hj : (j, a) ∈ l.nodes)
    (hk : (k, a) ∈ l.nodes) : j = k := by
  rw [← l.pos_iff] at hj hk
  exact Option.some.inj (hj.symm.trans hk)

theorem mem_iff (l : HandleList α) (a : α) : l.mem a = true ↔ a ∈ l.toList := by
  simp [mem, toList, Option.isSome_iff_exists, l.pos_iff]

theorem toList_nodup (l : HandleList α) : l.toList.Nodup := by
  refine List.Nodup.map_on ?_ (List.Nodup.of_map _ l.ids_nodup)
  rintro ⟨j, a⟩ hj ⟨k, b⟩ hk rfl
  exact Prod.ext (l.node_unique hj hk) rfl

/-- Remove the node the index gives for `a`, if there is one. -/
def erase (l : HandleList α) (a : α) : HandleList α :=
  match h : l.pos.lookup a with
  | none => l
  | some k =>
    { nodes := l.nodes.filter fun x => x.1 ≠ k
      pos := l.pos.erase a
      next := l.next
      pos_iff := by
        intro b j
        have hk : (k, a) ∈ l.nodes := (l.pos_iff a k).mp h
        by_cases hb : b = a
        · subst hb
          simp only [AList.lookup_erase, List.mem_filter, decide_eq_true_eq]
          refine ⟨nofun, fun hj => ?_⟩
          exact absurd (l.node_unique hj.1 hk) hj.2
        · rw [AList.lookup_erase_ne hb, l.pos_iff]
          simp only [List.mem_filter, decide_eq_true_eq, iff_self_and]
          rintro hj rfl
          exact hb (l.id_unique hj hk)
      node_lt := fun x hx => l.node_lt x (List.mem_filter.mp hx).1
      ids_nodup := l.ids_nodup.sublist (List.filter_sublist.map _) }

/-- Append `a` on a new node, unless it is in the list. -/
def pushBack (l : HandleList α) (a : α) : HandleList α :=
  if h : l.mem a then l
  else
    { nodes := l.nodes ++ [(l.next, a)]
      pos := l.pos.insert a l.next
      next := l.next + 1
      pos_iff := by
        have ha : ∀ k, (k, a) ∉ l.nodes := by
          intro k hk
          exact h ((l.mem_iff a).mpr (List.mem_map.mpr ⟨_, hk, rfl⟩))
        intro b j
        by_cases hb : b = a
        · subst hb
          simp [ha, eq_comm]
        · simp [AList.lookup_insert_ne hb, l.pos_iff, hb]
      node_lt := by
        intro x hx
        rcases List.mem_append.mp hx with hx | hx
        · exact Nat.lt_succ_of_lt (l.node_lt x hx)
        · rw [List.mem_singleton.mp hx]
          exact Nat.lt_succ_self _
      ids_nodup := by
        rw [List.map_append, List.nodup_append]
        refine ⟨l.ids_nodup, by simp, ?_⟩
        rintro j hj k hk rfl
        obtain ⟨x, hx, rfl⟩ := List.mem_map.mp hj
        have hlt := l.node_lt x hx
        simp only [List.map_cons, List.map_nil, List.mem_singleton] at hk
        omega }

/-- Take the first element off the list and out of the index. -/
def popFront (l : HandleList α) : Option (α × HandleList α) :=
  match h : l.nodes with
  | [] => none
  | (k, a) :: rest => some (a,
    { nodes := rest
      pos := l.pos.erase a
      next := l.next
      pos_iff := by
        have hk : (k, a) ∈ l.nodes := by simp [h]
        have hids := l.ids_nodup
        rw [h, List.map_cons, List.nodup_cons] at hids
        intro b j
        by_cases hb : b = a
        · subst hb
          simp only [AList.lookup_erase]
          refine ⟨nofun, fun hj => ?_⟩
          have hjk : j = k := l.node_unique (by simp [h, hj]) hk
          subst hjk
          exact absurd (List.mem_map.mpr ⟨_, hj, rfl⟩) hids.1
        · rw [AList.lookup_erase_ne hb, l.pos_iff, h]
          simp [hb]
      node_lt := fun x hx => l.node_lt x (by simp [h, hx])
      ids_nodup := by
        have hids := l.ids_nodup
        rw [h, List.map_cons, List.nodup_cons] at hids
        exact hids.2 })

@[simp] theorem toList_empty : (empty : HandleList α).toList = [] := rfl

theorem mem_toList_erase (l : HandleList α) (a b : α) :
    b ∈ (l.erase a).toList ↔ b ∈ l.toList ∧ b ≠ a := by
  rw [← mem_iff, ← mem_iff]
  unfold erase
  split
  next h =>
    refine ⟨fun hb => ⟨hb, ?_⟩, fun hb => hb.1⟩
    rintro rfl
    simp [mem, h] at hb
  next k h =>
    by_cases hb : b = a
    · subst hb
      simp [mem]
    · simp [mem, AList.lookup_erase_ne hb, hb]

theorem toList_erase (l : HandleList α) (a : α) : (l.erase a).toList = l.toList.erase a := by
  rw [l.toList_nodup.erase_eq_filter]
  unfold erase
  split
  next h =>
    symm
    apply List.filter_eq_self.mpr
    rintro b hb
    have hmem := (l.mem_iff b).mpr hb
    simp only [bne_iff_ne, ne_eq]
    rintro rfl
    simp [mem, h] at hmem
  next k h =>
    have hk : (k, a) ∈ l.nodes := (l.pos_iff a k).mp h
    unfold toList
    rw [List.filter_map]
    congr 1
    apply List.filter_congr
    rintro ⟨j, b⟩ hj
    rw [decide_not, Bool.eq_iff_iff]
    simp only [Bool.not_eq_true', decide_eq_false_iff_not, Function.comp_apply, bne_iff_ne, ne_eq,
      not_iff_not]
    constructor
    · rintro rfl
      exact l.id_unique hj hk
    · rintro rfl
      exact l.node_unique hj hk

theorem toList_pushBack (l : HandleList α) (a : α) :
    (l.pushBack a).toList = if a ∈ l.toList then l.toList else l.toList ++ [a] := by
  unfold pushBack
  split
  next h => rw [if_pos ((l.mem_iff a).mp h)]
  next h => rw [if_neg (mt (l.mem_iff a).mpr h)]; simp [toList]

theorem mem_toList_pushBack (l : HandleList α) (a b : α) :
    b ∈ (l.pushBack a).toList ↔ b ∈ l.toList ∨ b = a := by
  rw [toList_pushBack]
  split
  next h => exact ⟨.inl, fun hb => hb.elim id fun he => he ▸ h⟩
  next => simp

theorem popFront_none {l : HandleList α} : l.popFront = none ↔ l.toList = [] := by
  unfold popFront toList
  split
  next h => simp [h]
  next h => simp [h]

theorem popFront_some {l l' : HandleList α} {a : α} (h : l.popFront = some (a, l')) :
    l.toList = a :: l'.toList := by
  unfold popFront at h
  split at h
  next => cases h
  next hn =>
    obtain ⟨rfl, rfl⟩ := Prod.mk.inj (Option.some.inj h)
    simp [toList, hn]

end HandleList
