import TermWindow.Table

/-!
# Tables made entry by entry

Entries under new names are appended, so that a table of pairs with different names holds just
these pairs, in their order.
-/

namespace TermWindow.Table

variable {α β : Type}

theorem lookup_of_new (before rest : List (String × α)) (name : String) (value : α)
    (h : name ∉ before.map Prod.fst) :
    (before ++ (name, value) :: rest).lookup name = some value := by
  have hnone : before.lookup name = none := by
    rw [List.lookup_eq_none_iff]
    intro entry he
    have hne : name ≠ entry.1 := fun heq => h (heq ▸ List.mem_map_of_mem he)
    simpa using hne
  rw [List.lookup_append, hnone]
  simp

theorem put_of_not_mem (name : String) (value : α) (entries : List (String × α))
    (h : name ∉ entries.map Prod.fst) : put name value entries = entries ++ [(name, value)] := by
  induction entries with
  | nil => rfl
  | cons entry rest ih =>
    rw [List.map_cons, List.mem_cons, not_or] at h
    have hne : ¬entry.1 = name := fun heq => h.1 heq.symm
    rw [put, if_neg hne, ih h.2, List.cons_append]

theorem entries_foldl_insert (pairs : List (String × α)) (t : Table α)
    (h : ((t.entries ++ pairs).map Prod.fst).Nodup) :
    (pairs.foldl (fun t pair => t.insert pair.1 pair.2) t).entries = t.entries ++ pairs := by
  induction pairs generalizing t with
  | nil => exact (List.append_nil _).symm
  | cons pair rest ih =>
    have hnew : pair.1 ∉ t.entries.map Prod.fst := by
      intro hm
      rw [List.map_append] at h
      exact (List.nodup_append.1 h).2.2 _ hm _ (List.mem_cons_self ..) rfl
    have hinsert : (t.insert pair.1 pair.2).entries = t.entries ++ [pair] :=
      put_of_not_mem pair.1 pair.2 t.entries hnew
    have happ : t.entries ++ [pair] ++ rest = t.entries ++ pair :: rest := by simp
    rw [List.foldl_cons, ih _ (by rw [hinsert, happ]; exact h), hinsert, happ]

theorem entries_ofList (pairs : List (String × α)) (h : (pairs.map Prod.fst).Nodup) :
    (ofList pairs).entries = pairs :=
  entries_foldl_insert pairs empty h

def map (f : α → β) (t : Table α) : Table β where
  entries := t.entries.map fun entry => (entry.1, f entry.2)
  nodup := by
    have hfst : (t.entries.map fun entry => (entry.1, f entry.2)).map Prod.fst =
        t.entries.map Prod.fst := by
      rw [List.map_map]
      rfl
    rw [hfst]
    exact t.nodup

end TermWindow.Table
