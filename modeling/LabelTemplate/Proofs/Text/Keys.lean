import LabelTemplate.Text.Order
import LabelTemplate.Text.Pieces
import Mathlib.Data.List.Induction
import Mathlib.Data.List.TakeWhile
import Mathlib.Data.String.Basic

/-!
# Keys

A text around its first separator (`splitOnceChars_eq_some_iff`), and lists of
pairs that are sorted by their keys.  `SortedKeys` is what such a list keeps
when a pair is put into it, which changes what is found under one key and under no
other (`lookup_insertByKey`).
-/

namespace LabelTemplate.Text

/-! ## Around a separator -/

section Separator

variable {sep : Char} {cs before after : List Char}

theorem splitOnceChars_append (h : sep ∉ before) (after : List Char) :
    splitOnceChars sep (before ++ sep :: after) = some (before, after) := by
  induction before with
  | nil => rw [List.nil_append, splitOnceChars, if_pos rfl]
  | cons c before ih =>
    obtain ⟨hc, hbefore⟩ := not_or.1 (mt List.mem_cons.2 h)
    rw [List.cons_append, splitOnceChars, if_neg (Ne.symm hc), ih hbefore]
    rfl

theorem splitOnceChars_eq_none_iff : splitOnceChars sep cs = none ↔ sep ∉ cs := by
  induction cs with
  | nil => simp [splitOnceChars]
  | cons c cs ih =>
    rw [splitOnceChars, List.mem_cons, not_or]
    by_cases hc : c = sep
    · simp [hc]
    · rw [if_neg hc, Option.map_eq_none_iff, ih]
      exact ⟨fun h => ⟨Ne.symm hc, h⟩, fun h => h.2⟩

theorem splitOnceChars_eq_some_iff :
    splitOnceChars sep cs = some (before, after) ↔ cs = before ++ sep :: after ∧ sep ∉ before := by
  constructor
  · intro h
    have hmem : sep ∈ cs := by
      by_contra hsep
      rw [splitOnceChars_eq_none_iff.2 hsep] at h
      cases h
    obtain ⟨front, back, rfl, hfront⟩ := List.eq_append_cons_of_mem hmem
    rw [splitOnceChars_append hfront] at h
    cases h
    exact ⟨rfl, hfront⟩
  · rintro ⟨rfl, h⟩
    exact splitOnceChars_append h after

/-- Nothing is left of a text without its blanks exactly if it is blank. -/
theorem trimChars_eq_nil_iff : trimChars cs = [] ↔ ∀ c ∈ cs, isBlank c = true := by
  unfold trimChars
  rw [List.reverse_eq_nil_iff, List.dropWhile_eq_nil_iff, ← List.dropWhile_eq_nil_iff (l := cs)]
  constructor
  · intro h
    by_contra hne
    have hhead := List.head_dropWhile_not isBlank hne
    rw [h _ (List.mem_reverse.2 (List.head_mem hne))] at hhead
    cases hhead
  · intro h
    simp [h]

theorem trim_eq_empty_iff {s : String} : trim s = "" ↔ isBlankText s = true := by
  rw [trim, isBlankText, List.all_eq_true, ← trimChars_eq_nil_iff, ← String.toList_eq_nil_iff,
    String.toList_ofList]

end Separator

/-! ## Sorted keys -/

section Keys

variable {α β : Type}

/-- The keys of the pairs ascend, so that there is one pair for each. -/
def SortedKeys (m : List (String × α)) : Prop := m.Pairwise fun a b => a.1 < b.1

instance (m : List (String × α)) : Decidable (SortedKeys m) :=
  inferInstanceAs (Decidable (m.Pairwise _))

theorem SortedKeys.nodup {m : List (String × α)} (h : SortedKeys m) : (m.map Prod.fst).Nodup :=
  List.pairwise_map.2 (h.imp fun hlt => ne_of_lt hlt)

/-- Other values under the same keys. -/
theorem SortedKeys.map {m : List (String × α)} (h : SortedKeys m) (f : α → β) :
    SortedKeys (m.map fun p => (p.1, f p.2)) :=
  List.pairwise_map.2 h

theorem mem_keys_insertByKey {key : String} {v : α} {m : List (String × α)} {p : String × α}
    (h : p ∈ insertByKey key v m) : p.1 = key ∨ p ∈ m := by
  induction m with
  | nil =>
    obtain rfl := List.mem_singleton.1 h
    exact .inl rfl
  | cons q m ih =>
    obtain ⟨k, w⟩ := q
    rw [insertByKey] at h
    split at h
    · obtain rfl | h := List.mem_cons.1 h
      · exact .inl rfl
      · exact .inr (List.mem_cons_of_mem _ h)
    · split at h
      · obtain rfl | h := List.mem_cons.1 h
        · exact .inl rfl
        · exact .inr h
      · obtain rfl | h := List.mem_cons.1 h
        · exact .inr List.mem_cons_self
        · exact (ih h).imp_right (List.mem_cons_of_mem _)

theorem SortedKeys.insertByKey {m : List (String × α)} (h : SortedKeys m) (key : String) (v : α) :
    SortedKeys (insertByKey key v m) := by
  induction m with
  | nil => exact List.pairwise_singleton _ _
  | cons q m ih =>
    obtain ⟨k, w⟩ := q
    obtain ⟨hfirst, hrest⟩ := List.pairwise_cons.1 h
    rw [Text.insertByKey]
    split
    · rename_i heq
      exact List.pairwise_cons.2 ⟨heq ▸ hfirst, hrest⟩
    · rename_i hne
      split
      · rename_i hlt
        exact List.pairwise_cons.2 ⟨List.forall_mem_cons.2
          ⟨hlt, fun p hp => lt_trans hlt (hfirst p hp)⟩, h⟩
      · rename_i hle
        refine List.pairwise_cons.2 ⟨fun p hp => ?_, ih hrest⟩
        obtain hp | hp := mem_keys_insertByKey hp
        · exact hp ▸ lt_of_le_of_ne (not_lt.1 hle) (Ne.symm hne)
        · exact hfirst p hp

theorem lookup_cons_eq_ite (key k : String) (v : α) (m : List (String × α)) :
    ((k, v) :: m).lookup key = if key = k then some v else m.lookup key := by
  rw [List.lookup_cons]
  by_cases h : key = k
  · rw [if_pos h, beq_iff_eq.2 h]
  · rw [if_neg h, beq_eq_false_iff_ne.2 h]

/-- Under the key of a pair that is put in its value is found, under any other
what was found before. -/
theorem lookup_insertByKey (key key' : String) (v : α) (m : List (String × α)) :
    (insertByKey key v m).lookup key' = if key' = key then some v else m.lookup key' := by
  induction m with
  | nil => exact lookup_cons_eq_ite key' key v []
  | cons q m ih =>
    obtain ⟨k, w⟩ := q
    rw [insertByKey]
    split
    · rename_i heq
      subst heq
      rw [lookup_cons_eq_ite, lookup_cons_eq_ite]
      split <;> rfl
    · rename_i hne
      split
      · exact lookup_cons_eq_ite key' key v ((k, w) :: m)
      · rw [lookup_cons_eq_ite, lookup_cons_eq_ite, ih]
        split
        · rename_i heq
          rw [if_neg (heq ▸ Ne.symm hne)]
        · rfl

/-- Of several pairs that are put in with one key the last one counts. -/
theorem lookup_foldl_insertByKey {f : β → α} (given : List (String × β)) (m : List (String × α))
    (key : String) :
    (given.foldl (fun m p => insertByKey p.1 (f p.2) m) m).lookup key =
      ((given.reverse.lookup key).map f).or (m.lookup key) := by
  induction given using List.reverseRecOn with
  | nil => rfl
  | append_singleton given p ih =>
    rw [List.foldl_append, List.foldl_cons, List.foldl_nil, lookup_insertByKey, ih,
      List.reverse_append, List.reverse_singleton, List.singleton_append, lookup_cons_eq_ite]
    split <;> rfl

theorem SortedKeys.foldl_insertByKey {f : β → α} {m : List (String × α)} (h : SortedKeys m)
    (given : List (String × β)) :
    SortedKeys (given.foldl (fun m p => Text.insertByKey p.1 (f p.2) m) m) := by
  induction given generalizing m with
  | nil => exact h
  | cons p given ih => exact ih (h.insertByKey p.1 (f p.2))

end Keys

end LabelTemplate.Text
