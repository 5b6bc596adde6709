import Mathlib.Data.List.Forall2
import Mathlib.Data.List.Nodup
import Mathlib.Tactic.SplitIfs
/-!
# Entries by key

Lists of entries that are read by key, the first entry of a key counting. An entry that is put
under a key takes the place of the one that is there, or goes to the end.
-/

namespace Blockwright.Entries

variable {κ α : Type} [DecidableEq κ]

section Set

variable (key : α → κ)

/-- The elements with `x` in place of the one that has its key, or else at the end. -/
def set (l : List α) (x : α) : List α :=
  if l.any (key · = key x) then l.map fun y => if key y = key x then x else y else l ++ [x]

theorem any_key_iff (l : List α) (k : κ) : l.any (key · = k) = true ↔ k ∈ l.map key := by
  simp only [List.any_eq_true, decide_eq_true_eq, List.mem_map]

theorem keys_set (l : List α) (x : α) :
    (set key l x).map key = if key x ∈ l.map key then l.map key else l.map key ++ [key x] := by
  unfold set
  simp only [any_key_iff]
  split_ifs with hkey
  · rw [List.map_map]
    refine List.map_congr_left fun y _ => ?_
    dsimp only [Function.comp_apply]
    split_ifs with hy
    · exact hy.symm
    · rfl
  · simp

theorem nodup_keys_set {l : List α} (h : (l.map key).Nodup) (x : α) : ((set key l x).map key).Nodup := by
  rw [keys_set]
  split_ifs with hkey
  · exact h
  · exact List.nodup_append_comm.1 (List.nodup_cons.2 ⟨hkey, h⟩)

theorem getElem?_set {l : List α} {x y : α} {k : Nat} (h : (set key l x)[k]? = some y) : l[k]? = some y ∨ y = x := by
  unfold set at h
  split_ifs at h
  · obtain ⟨z, hz, rfl⟩ := Option.map_eq_some_iff.1 (List.getElem?_map ▸ h)
    split_ifs
    · exact .inr rfl
    · exact .inl hz
  · rw [List.getElem?_append] at h
    split_ifs at h
    · exact .inl h
    · exact .inr (List.mem_singleton.1 (List.mem_of_getElem? h))

theorem mem_set {l : List α} {x y : α} (h : y ∈ set key l x) : y ∈ l ∨ y = x := by
  obtain ⟨k, hk⟩ := List.mem_iff_getElem?.1 h
  exact (getElem?_set key hk).imp_left List.mem_of_getElem?

/-- What is in the list behind is the new element or has another key. -/
theorem eq_or_ne_of_mem_set {l : List α} {x y : α} (h : y ∈ set key l x) : y = x ∨ (y ∈ l ∧ key y ≠ key x) := by
  unfold set at h
  split_ifs at h with hany
  · obtain ⟨z, hz, rfl⟩ := List.mem_map.1 h
    split_ifs with hkey
    · exact .inl rfl
    · exact .inr ⟨hz, hkey⟩
  · rcases List.mem_append.1 h with hy | hy
    · exact .inr ⟨hy, fun hkey => hany ((any_key_iff key l _).2 (hkey ▸ List.mem_map_of_mem hy))⟩
    · exact .inl (List.mem_singleton.1 hy)

/-- Two lists with the same keys keep them when elements of one key are set. -/
theorem forall₂_set {β : Type} {key' : β → κ} {r : α → β → Prop} {l : List α} {l' : List β}
    (hkeys : ∀ a b, r a b → key' b = key a) (h : List.Forall₂ r l l') {x : α} {y : β} (hxy : r x y) :
    List.Forall₂ r (set key l x) (set key' l' y) := by
  have hsame : l'.map key' = l.map key := by
    induction h with
    | nil => rfl
    | cons hr _ ih => rw [List.map_cons, List.map_cons, hkeys _ _ hr, ih]
  unfold set
  simp only [any_key_iff, hsame, hkeys _ _ hxy]
  split_ifs with hmem
  · clear hsame hmem
    induction h with
    | nil => exact .nil
    | cons hr _ ih =>
      refine .cons ?_ ih
      dsimp only
      rw [hkeys _ _ hr]
      split_ifs
      · exact hxy
      · exact hr
  · exact List.rel_append h (.cons hxy .nil)

end Set

/-- The entries with `a` under `key`; a key that is there keeps its place. -/
def put (l : List (κ × α)) (key : κ) (a : α) : List (κ × α) :=
  if l.any (·.1 = key) then l.map fun e => if e.1 = key then (key, a) else e else l ++ [(key, a)]

theorem keys_put (l : List (κ × α)) (key : κ) (a : α) :
    (put l key a).map (·.1) = if key ∈ l.map (·.1) then l.map (·.1) else l.map (·.1) ++ [key] :=
  keys_set Prod.fst l (key, a)

theorem lookup_cons_eq (e : κ × α) (l : List (κ × α)) (key : κ) :
    (e :: l).lookup key = if key = e.1 then some e.2 else l.lookup key := by
  rw [List.lookup_cons]
  split_ifs with h
  · simp [h]
  · rw [beq_false_of_ne h]

theorem lookup_overwritten (l : List (κ × α)) (key key' : κ) (a : α) :
    (l.map fun e => if e.1 = key then (key, a) else e).lookup key' =
      if key' = key then (l.lookup key).map fun _ => a else l.lookup key' := by
  induction l with
  | nil => simp
  | cons e l ih =>
    rw [List.map_cons, lookup_cons_eq, lookup_cons_eq, lookup_cons_eq, ih]
    by_cases he : e.1 = key <;> by_cases hk : key' = key <;> grind

theorem lookup_eq_none_iff (l : List (κ × α)) (key : κ) : l.lookup key = none ↔ key ∉ l.map (·.1) := by
  rw [List.lookup_eq_none_iff]
  constructor
  · rintro h hkey
    obtain ⟨e, he, rfl⟩ := List.mem_map.1 hkey
    simpa using h e he
  · intro h e he
    simpa using fun hk : key = e.1 => h (hk ▸ List.mem_map_of_mem he)

theorem lookup_filter_ne (l : List (κ × α)) {key key' : κ} (h : key' ≠ key) :
    (l.filter (·.1 ≠ key)).lookup key' = l.lookup key' := by
  induction l with
  | nil => rfl
  | cons e l ih =>
    rw [List.filter_cons, lookup_cons_eq]
    split_ifs with hkeep hkey hkey
    · rw [lookup_cons_eq, if_pos hkey]
    · rw [lookup_cons_eq, if_neg hkey, ih]
    · have hgone : e.1 = key := by simpa using hkeep
      exact absurd (hkey.trans hgone) h
    · exact ih

theorem exists_lookup {l : List (κ × α)} {key : κ} (h : key ∈ l.map (·.1)) : ∃ a, l.lookup key = some a := by
  cases hl : l.lookup key with
  | none => exact absurd h ((lookup_eq_none_iff l key).1 hl)
  | some a => exact ⟨a, rfl⟩

theorem lookup_put (l : List (κ × α)) (key key' : κ) (a : α) :
    (put l key a).lookup key' = if key' = key then some a else l.lookup key' := by
  unfold put
  simp only [any_key_iff]
  split_ifs with hkey hkey' hkey'
  · obtain ⟨old, hold⟩ := exists_lookup hkey
    rw [lookup_overwritten, if_pos hkey', hold, Option.map_some]
  · rw [lookup_overwritten, if_neg hkey']
  · rw [hkey', List.lookup_append, (lookup_eq_none_iff _ _).2 hkey, lookup_cons_eq, if_pos rfl, Option.none_or]
  · rw [List.lookup_append, lookup_cons_eq, if_neg hkey', List.lookup_nil, Option.or_none]

end Blockwright.Entries
