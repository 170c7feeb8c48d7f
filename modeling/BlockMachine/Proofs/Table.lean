import BlockMachine.Table
import Mathlib.Data.List.Induction
import Mathlib.Data.List.Nodup

namespace BlockMachine

theorem eraseDups_append_singleton (ks : List String) (k : String) :
    (ks ++ [k]).eraseDups = if k ∈ ks then ks.eraseDups else ks.eraseDups ++ [k] := by
  rw [List.eraseDups_append]
  split
  · rename_i h
    rw [List.removeAll, List.filter_cons_of_neg (by simpa using h)]
    exact List.append_nil _
  · rename_i h
    rw [List.removeAll, List.filter_cons_of_pos (by simpa using h)]
    rfl

theorem nodup_eraseDups (ks : List String) : ks.eraseDups.Nodup := by
  induction ks using List.reverseRecOn with
  | nil => exact List.nodup_nil
  | append_singleton ks k ih =>
    rw [eraseDups_append_singleton]
    split
    · exact ih
    · rename_i h
      rw [← List.concat_eq_append]
      exact ih.concat (mt List.mem_eraseDups.1 h)

theorem eraseDups_filter (p : String → Bool) (ks : List String) :
    (ks.filter p).eraseDups = ks.eraseDups.filter p := by
  induction ks using List.reverseRecOn with
  | nil => rfl
  | append_singleton ks k ih =>
    rw [List.filter_append, eraseDups_append_singleton]
    cases hp : p k with
    | false =>
      rw [List.filter_cons_of_neg (by simpa using hp), List.filter_nil, List.append_nil, ih]
      split
      · rfl
      · rw [List.filter_append, List.filter_cons_of_neg (by simpa using hp), List.filter_nil,
          List.append_nil]
    | true =>
      have hm : k ∈ ks.filter p ↔ k ∈ ks := by
        rw [List.mem_filter]
        exact and_iff_left hp
      rw [List.filter_cons_of_pos hp, List.filter_nil, eraseDups_append_singleton, ih]
      simp only [hm]
      split
      · rfl
      · rw [List.filter_append, List.filter_cons_of_pos hp, List.filter_nil]

theorem eraseDups_eraseDups (ks : List String) : ks.eraseDups.eraseDups = ks.eraseDups := by
  induction ks using List.reverseRecOn with
  | nil => rfl
  | append_singleton ks k ih =>
    rw [eraseDups_append_singleton]
    split
    · exact ih
    · rename_i hk
      rw [eraseDups_append_singleton, if_neg (mt List.mem_eraseDups.1 hk), ih]

theorem eraseDups_append_eq (ks ls : List String) :
    (ks ++ ls).eraseDups = ks.eraseDups ++ ls.eraseDups.filter (· ∉ ks) := by
  rw [List.eraseDups_append, List.removeAll, eraseDups_filter]
  congr 2
  funext k
  simp

theorem eraseDups_flatMap {α : Type} (as : List α) (f : α → List String) :
    (as.flatMap fun a => (f a).eraseDups).eraseDups = (as.flatMap f).eraseDups := by
  induction as with
  | nil => rfl
  | cons a as ih =>
    rw [List.flatMap_cons, List.flatMap_cons, eraseDups_append_eq, eraseDups_append_eq,
      eraseDups_eraseDups, ih]
    simp only [List.mem_eraseDups]

namespace Table

variable {α : Type} {t u : Table α} {key : String} {a : α}

theorem get?_cons (k : String) (a : α) (t : Table α) :
    get? ((k, a) :: t) key = if key = k then some a else get? t key := by
  rw [get?, List.lookup_cons]
  by_cases h : key = k
  · rw [if_pos h, beq_iff_eq.2 h]
  · rw [if_neg h, beq_false_of_ne h]
    rfl

theorem mem_of_get? (h : get? t key = some a) : (key, a) ∈ t := by
  obtain ⟨l₁, l₂, rfl, _⟩ := List.lookup_eq_some_iff.1 h
  exact List.mem_append_right l₁ List.mem_cons_self

theorem get?_of_mem (h : (keys t).Nodup) (hm : (key, a) ∈ t) : get? t key = some a := by
  induction t with
  | nil => cases hm
  | cons e t ih =>
    obtain ⟨k, b⟩ := e
    obtain ⟨hk, h⟩ := List.nodup_cons.1 h
    rw [get?_cons]
    rcases List.mem_cons.1 hm with he | ht
    · cases he
      exact if_pos rfl
    · rw [if_neg, ih h ht]
      rintro rfl
      exact hk (List.mem_map.2 ⟨(key, a), ht, rfl⟩)

theorem mem_of_join_get? {t : Table (Option α)} (h : (get? t key).join = some a) :
    (key, some a) ∈ t :=
  mem_of_get? (Option.join_eq_some_iff.1 h)

theorem mem_keys_of_join_get? {t : Table (Option α)} (h : (get? t key).join = some a) :
    key ∈ keys t :=
  List.mem_map_of_mem (mem_of_join_get? h)

theorem get?_eq_none_iff : get? t key = none ↔ key ∉ keys t := by
  induction t with
  | nil => simp [get?, keys]
  | cons e t ih =>
    obtain ⟨k, a⟩ := e
    rw [get?_cons]
    by_cases h : key = k
    · simp [keys, h]
    · simp [keys, h, ih]

theorem get?_append (t u : Table α) (key : String) :
    get? (t ++ u) key = (get? t key).or (get? u key) :=
  List.lookup_append

theorem get?_append_of_mem (h : key ∈ keys t) : get? (t ++ u) key = get? t key := by
  rw [get?_append]
  cases hk : get? t key with
  | some a => rfl
  | none => exact absurd h (get?_eq_none_iff.1 hk)

theorem put_of_not_mem (h : key ∉ keys t) (a : α) : put t key a = t ++ [(key, a)] := by
  induction t with
  | nil => rfl
  | cons e t ih =>
    obtain ⟨k, b⟩ := e
    simp only [keys, List.map_cons, List.mem_cons, not_or] at h
    rw [put, if_neg (Ne.symm h.1), ih h.2]
    rfl

theorem putAll_of_disjoint (hu : (keys u).Nodup) (hd : ∀ k ∈ keys u, k ∉ keys t) :
    putAll t u = t ++ u := by
  induction u generalizing t with
  | nil => exact (List.append_nil t).symm
  | cons e u ih =>
    obtain ⟨k, a⟩ := e
    obtain ⟨hk, hu⟩ := List.nodup_cons.1 hu
    have hput : put t k a = t ++ [(k, a)] := put_of_not_mem (hd k List.mem_cons_self) a
    change putAll (put t k a) u = _
    rw [hput, ih hu, List.append_assoc]
    · rfl
    · intro l hl
      simp only [keys, List.map_append, List.map_cons, List.map_nil, List.mem_append,
        List.mem_singleton, not_or]
      exact ⟨hd l (List.mem_cons_of_mem k hl), fun he => hk (he ▸ hl)⟩

theorem keys_put_of_mem (h : key ∈ keys t) (a : α) : keys (put t key a) = keys t := by
  induction t with
  | nil => cases h
  | cons e t ih =>
    obtain ⟨k, b⟩ := e
    rw [put]
    by_cases hk : k = key
    · rw [if_pos hk, hk]
      rfl
    · rw [if_neg hk]
      rcases List.mem_cons.1 h with he | ht
      · exact absurd he.symm hk
      · exact congrArg (List.cons k) (ih ht)

theorem keys_append_singleton (t : Table α) (key : String) (a : α) :
    keys (t ++ [(key, a)]) = keys t ++ [key] :=
  List.map_append

theorem keys_put (t : Table α) (key : String) (a : α) :
    keys (put t key a) = if key ∈ keys t then keys t else keys t ++ [key] := by
  split
  · rename_i h
    exact keys_put_of_mem h a
  · rename_i h
    rw [put_of_not_mem h, keys_append_singleton]

theorem length_put (t : Table α) (key : String) (a : α) :
    (put t key a).length = if key ∈ keys t then t.length else t.length + 1 := by
  have hl (u : Table α) : u.length = (keys u).length := (List.length_map _).symm
  rw [hl, keys_put]
  split
  · exact (hl t).symm
  · rw [List.length_append, ← hl]
    rfl

theorem keys_reserve (t : Table α) (key : String) (a : α) :
    keys (reserve t key a) = if key ∈ keys t then keys t else keys t ++ [key] := by
  simp only [reserve, contains, List.contains_iff_mem]
  split
  · rfl
  · exact keys_append_singleton t key a

theorem get?_put (t : Table α) (k : String) (a : α) :
    get? (put t k a) key = if key = k then some a else get? t key := by
  induction t with
  | nil => exact get?_cons k a []
  | cons e t ih =>
    obtain ⟨l, b⟩ := e
    rw [put]
    by_cases hl : l = k
    · rw [if_pos hl, get?_cons, get?_cons, hl]
      by_cases hk : key = k
      · rw [if_pos hk, if_pos hk]
      · rw [if_neg hk, if_neg hk, if_neg hk]
    · rw [if_neg hl, get?_cons, get?_cons, ih]
      by_cases hk : key = k
      · have hn : key ≠ l := fun he => hl (he.symm.trans hk)
        rw [if_pos hk, if_neg hn, if_pos hk]
      · rw [if_neg hk, if_neg hk]

theorem get?_reserve (t : Table α) (k : String) (a : α) :
    get? (reserve t k a) key = (get? t key).or (if key = k then some a else none) := by
  simp only [reserve, contains, List.contains_iff_mem]
  split
  · rename_i h
    cases ht : get? t key with
    | some b => rfl
    | none =>
      have hk : key ≠ k := fun he => get?_eq_none_iff.1 ht (he ▸ h)
      rw [if_neg hk]
      rfl
  · rw [get?_append, get?_cons]
    rfl

theorem nodup_put (h : (keys t).Nodup) (key : String) (a : α) : (keys (put t key a)).Nodup := by
  by_cases hk : key ∈ keys t
  · rw [keys_put_of_mem hk]
    exact h
  · rw [put_of_not_mem hk, keys, List.map_append]
    apply List.nodup_append.2
    refine ⟨h, by simp, ?_⟩
    intro k hm l hl he
    have hlk : l = key := by simpa using hl
    rw [he, hlk] at hm
    exact hk hm

theorem mem_put {e : String × α} (h : e ∈ put t key a) : e = (key, a) ∨ e ∈ t := by
  induction t with
  | nil => exact .inl (List.mem_singleton.1 h)
  | cons f t ih =>
    obtain ⟨k, b⟩ := f
    rw [put] at h
    split at h
    · rcases List.mem_cons.1 h with he | ht
      · exact .inl he
      · exact .inr (List.mem_cons_of_mem _ ht)
    · rcases List.mem_cons.1 h with he | ht
      · exact .inr (he ▸ List.mem_cons_self)
      · exact (ih ht).imp_right (List.mem_cons_of_mem _)

theorem mem_reserve {e : String × α} (h : e ∈ reserve t key a) : e = (key, a) ∨ e ∈ t := by
  rw [reserve] at h
  split at h
  · exact .inr h
  · exact (List.mem_append.1 h).symm.imp_left List.mem_singleton.1

theorem nodup_putAll (h : (keys t).Nodup) (u : Table α) : (keys (putAll t u)).Nodup := by
  induction u generalizing t with
  | nil => exact h
  | cons e u ih => exact ih (nodup_put h e.1 e.2)

theorem mem_putAll {e : String × α} (h : e ∈ putAll t u) : e ∈ t ∨ e ∈ u := by
  induction u generalizing t with
  | nil => exact .inl h
  | cons f u ih =>
    rcases ih h with hp | hu
    · rcases mem_put hp with rfl | ht
      · exact .inr List.mem_cons_self
      · exact .inl ht
    · exact .inr (List.mem_cons_of_mem f hu)

theorem ofEntries_append_singleton (es : List (String × α)) (e : String × α) :
    ofEntries (es ++ [e]) = put (ofEntries es) e.1 e.2 :=
  List.foldl_append

theorem keys_ofEntries (es : List (String × α)) :
    keys (ofEntries es) = (es.map Prod.fst).eraseDups := by
  induction es using List.reverseRecOn with
  | nil => rfl
  | append_singleton es e ih =>
    rw [ofEntries_append_singleton, keys_put, ih, List.map_append, List.map_singleton,
      eraseDups_append_singleton]
    simp only [List.mem_eraseDups]

theorem get?_ofEntries (es : List (String × α)) (key : String) :
    get? (ofEntries es) key = ((es.filter (·.1 = key)).getLast?).map Prod.snd := by
  induction es using List.reverseRecOn with
  | nil => rfl
  | append_singleton es e ih =>
    rw [ofEntries_append_singleton, get?_put, ih, List.filter_append]
    split
    · rename_i h
      rw [List.filter_cons_of_pos (by simpa using h.symm), List.filter_nil, List.getLast?_concat]
      rfl
    · rename_i h
      rw [List.filter_cons_of_neg (by simpa using Ne.symm h), List.filter_nil, List.append_nil]

end Table
end BlockMachine
