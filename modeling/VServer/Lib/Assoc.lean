import Mathlib

/-!
# Maps that keep the first value of a key

`insert` of `std::unordered_map`: a key that is already there keeps its value. The map is the list
of its pairs in the order of insertion, and lookup is `List.lookup`.
-/

namespace Assoc

variable {κ β : Type*} [BEq κ]

def insert (m : List (κ × β)) (k : κ) (v : β) : List (κ × β) :=
  match m.lookup k with
  | some _ => m
  | none => m ++ [(k, v)]

def insertAll (m : List (κ × β)) (l : List (κ × β)) : List (κ × β) :=
  l.foldl (fun m p => insert m p.1 p.2) m

@[simp] theorem insertAll_nil (m : List (κ × β)) : insertAll m [] = m := rfl

@[simp] theorem insertAll_cons (m : List (κ × β)) (p : κ × β) (l : List (κ × β)) :
    insertAll m (p :: l) = insertAll (insert m p.1 p.2) l := rfl

variable [LawfulBEq κ]

theorem lookup_insert (m : List (κ × β)) (k : κ) (v : β) (k' : κ) :
    (insert m k v).lookup k' = (m.lookup k').or (if k' == k then some v else none) := by
  have happend : ∀ l : List (κ × β), (l ++ [(k, v)]).lookup k' =
      (l.lookup k').or (if k' == k then some v else none) := by
    intro l
    induction l with
    | nil => cases h : k' == k <;> simp [List.lookup, h]
    | cons p l ih => cases h : k' == p.1 <;> simp [List.lookup, h, ih]
  unfold insert
  cases hlookup : m.lookup k with
  | none => exact happend m
  | some u =>
    by_cases hk : k' = k
    · rw [hk, hlookup]
      rfl
    · simp [hk]

theorem lookup_insertAll (l : List (κ × β)) (k : κ) : (insertAll [] l).lookup k = l.lookup k := by
  have hgeneral : ∀ m : List (κ × β), (insertAll m l).lookup k = (m.lookup k).or (l.lookup k) := by
    induction l with
    | nil => simp
    | cons p l ih =>
      intro m
      rw [insertAll_cons, ih, lookup_insert, Option.or_assoc]
      cases h : k == p.1 <;> simp [List.lookup, h]
  exact hgeneral []

theorem nodup_insert {m : List (κ × β)} (hm : (m.map Prod.fst).Nodup) (k : κ) (v : β) :
    ((insert m k v).map Prod.fst).Nodup := by
  unfold insert
  split
  · exact hm
  · rename_i hnone
    have hnew := List.lookup_eq_none_iff.mp hnone
    rw [List.map_append, List.map_singleton, List.nodup_append]
    refine ⟨hm, List.nodup_singleton _, fun k₁ h₁ k₂ h₂ heq => ?_⟩
    obtain ⟨p, hp, rfl⟩ := List.mem_map.mp h₁
    rw [List.mem_singleton.mp h₂] at heq
    have hne := hnew p hp
    rw [heq] at hne
    simp at hne

theorem nodup_insertAll {m : List (κ × β)} (hm : (m.map Prod.fst).Nodup) (l : List (κ × β)) :
    ((insertAll m l).map Prod.fst).Nodup := by
  induction l generalizing m with
  | nil => exact hm
  | cons p l ih => exact ih (nodup_insert hm p.1 p.2)

theorem mem_iff_lookup {m : List (κ × β)} (hm : (m.map Prod.fst).Nodup) {k : κ} {v : β} :
    (k, v) ∈ m ↔ m.lookup k = some v := by
  induction m with
  | nil => simp
  | cons p m ih =>
    obtain ⟨hp, hrest⟩ := List.nodup_cons.mp hm
    rw [List.mem_cons, List.lookup_cons]
    by_cases hk : k = p.1
    · have hnot : (k, v) ∉ m := fun hmem => hp (hk ▸ List.mem_map_of_mem (f := Prod.fst) hmem)
      simp [hk ▸ hnot, hk, Prod.ext_iff, eq_comm]
    · have hbeq : (k == p.1) = false := beq_false_of_ne hk
      rw [hbeq, ← ih hrest]
      exact or_iff_right fun heq => hk (congrArg Prod.fst heq)

theorem mem_insertAll {l : List (κ × β)} {k : κ} {v : β} :
    (k, v) ∈ insertAll [] l ↔ l.lookup k = some v := by
  rw [mem_iff_lookup (nodup_insertAll (m := []) List.nodup_nil l), lookup_insertAll]

theorem mem_of_mem_insertAll {l : List (κ × β)} {p : κ × β} (hp : p ∈ insertAll [] l) : p ∈ l := by
  obtain ⟨before, after, rfl, -⟩ := List.lookup_eq_some_iff.mp (mem_insertAll.mp hp)
  exact List.mem_append_right _ List.mem_cons_self

theorem mem_keys_insertAll {l : List (κ × β)} {k : κ} :
    k ∈ (insertAll [] l).map Prod.fst ↔ k ∈ l.map Prod.fst := by
  constructor
  · intro hk
    obtain ⟨p, hp, rfl⟩ := List.mem_map.mp hk
    exact List.mem_map_of_mem (mem_of_mem_insertAll hp)
  · intro hk
    obtain ⟨p, hp, rfl⟩ := List.mem_map.mp hk
    have hsome : (l.lookup p.1).isSome := List.lookup_isSome_iff.mpr ⟨p, hp, beq_self_eq_true p.1⟩
    obtain ⟨v, hv⟩ := Option.isSome_iff_exists.mp hsome
    exact List.mem_map.mpr ⟨(p.1, v), mem_insertAll.mpr hv, rfl⟩

end Assoc
