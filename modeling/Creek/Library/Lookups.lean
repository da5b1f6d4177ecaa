import Mathlib

/-! Lookups after a change in one place: the other places keep what they hold. -/

namespace Creek.Library

section

variable {κ ν : Type*} [Ord κ] [Std.TransOrd κ] [Std.LawfulEqOrd κ] {key other : κ}

theorem getElem?_insert_ne (map : Std.TreeMap κ ν) (value : ν) (ne : key ≠ other)
    : (map.insert key value)[other]? = map[other]? := by
  rw [Std.TreeMap.getElem?_insert, if_neg]
  exact fun same => ne (Std.LawfulEqCmp.eq_of_compare same)

theorem mem_of_mem_toList {map : Std.TreeMap κ ν} {entry : κ × ν} (member : entry ∈ map.toList)
    : entry.1 ∈ map := by
  rw [Std.TreeMap.mem_iff_isSome_getElem?,
    Std.TreeMap.mem_toList_iff_getElem?_eq_some.mp (member : (entry.1, entry.2) ∈ map.toList)]
  rfl

theorem getElem?_erase_ne (map : Std.TreeMap κ ν) (ne : key ≠ other)
    : (map.erase key)[other]? = map[other]? := by
  rw [Std.TreeMap.getElem?_erase, if_neg]
  exact fun same => ne (Std.LawfulEqCmp.eq_of_compare same)

end

theorem getElem?_modify_of_some {α : Type*} {list : List α} {index other : Nat} {held : α}
    (change : α → α) (found : list[index]? = some held)
    : (list.modify index change)[other]? =
      if other = index then some (change held) else list[other]? := by
  rw [List.getElem?_modify]
  by_cases own : index = other
  · subst own
    simp [found]
  · rw [if_neg (Ne.symm own)]
    cases list[other]? <;> simp [own]

/-- What a list shows after a change in one place: no longer what the old element shows, but what the new
one does.
-/
theorem filterMap_set_perm {α β : Type*} (shows : α → Option β) {list : List α} {index : Nat} {old : α}
    (found : list[index]? = some old) (new : α)
    : ((shows old).toList ++ (list.set index new).filterMap shows).Perm
        ((shows new).toList ++ list.filterMap shows) := by
  have cons (element : α) (rest : List α)
      : (element :: rest).filterMap shows = (shows element).toList ++ rest.filterMap shows := by
    rw [List.filterMap_cons]
    cases shows element <;> rfl
  induction list generalizing index with
  | nil => cases found
  | cons head tail ih =>
      cases index with
      | zero =>
          cases found
          rw [List.set_cons_zero, cons, cons, ← List.append_assoc, ← List.append_assoc]
          exact List.perm_append_comm.append_right _
      | succ index =>
          rw [List.set_cons_succ, cons, cons]
          refine (List.perm_append_comm_assoc ..).trans ?_
          refine .trans (.append_left _ (ih found)) ?_
          exact List.perm_append_comm_assoc ..

/-- Counting what is selected in one of two ways that exclude each other. -/
theorem countP_of_apart {α : Type*} {list : List α} {all left right : α → Bool}
    (either : ∀ element ∈ list, all element = (left element || right element))
    (apart : ∀ element ∈ list, right element → left element = false)
    : list.countP all = list.countP left + list.countP right := by
  induction list with
  | nil => rfl
  | cons head tail ih =>
      have counts := ih (fun element member => either element (List.mem_cons_of_mem _ member))
        fun element member => apart element (List.mem_cons_of_mem _ member)
      rw [List.countP_cons, List.countP_cons, List.countP_cons, counts, either head List.mem_cons_self]
      rcases chosen : right head with _ | _
      · simp only [Bool.or_false, Bool.false_eq_true, if_false]
        omega
      · simp only [apart head List.mem_cons_self chosen, Bool.or_true, Bool.false_eq_true, if_true, if_false]
        omega

/-- Entries that are numbered by their places in a list, in increasing order, are a part of it in its order.
-/
theorem sublist_of_numbered {α : Type*} {base : Nat} {entries : List (Nat × α)} {list : List α}
    (increasing : (entries.map Prod.fst).Pairwise (· < ·))
    (placed : ∀ entry ∈ entries, ∃ n, list[n]? = some entry.2 ∧ entry.1 = base + n)
    : (entries.map Prod.snd).Sublist list := by
  induction entries generalizing base list with
  | nil => exact List.nil_sublist _
  | cons first rest ih =>
      obtain ⟨n, stored, number⟩ := placed first List.mem_cons_self
      obtain ⟨bound, here⟩ := List.getElem?_eq_some_iff.mp stored
      rw [List.map_cons, List.pairwise_cons] at increasing
      have behind : ∀ entry ∈ rest, ∃ m, (list.drop (n + 1))[m]? = some entry.2
          ∧ entry.1 = base + (n + 1) + m := by
        intro entry member
        obtain ⟨m, found, place⟩ := placed entry (List.mem_cons_of_mem _ member)
        have above := increasing.1 entry.1 (List.mem_map_of_mem member)
        refine ⟨m - (n + 1), ?_, by omega⟩
        rw [List.getElem?_drop, ← found]
        congr 1
        omega
      have split : list.drop n = first.2 :: list.drop (n + 1) := by
        rw [List.drop_eq_getElem_cons bound, here]
      rw [List.map_cons]
      exact ((ih increasing.2 behind).cons_cons first.2).trans (split ▸ List.drop_sublist n list)

end Creek.Library
