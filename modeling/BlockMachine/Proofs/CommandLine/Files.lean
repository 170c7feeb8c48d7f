import BlockMachine.CommandLine.Files

namespace BlockMachine.CommandLine

section Paths

variable {cs part : List Char} {parts : List (List Char)}

theorem not_mem_of_mem_splitOn (h : part ∈ cs.splitOn '/') : '/' ∉ part := by
  induction cs generalizing part with
  | nil =>
    rw [List.splitOn_nil, List.mem_singleton] at h
    rw [h]
    exact List.not_mem_nil
  | cons c cs ih =>
    rw [List.splitOn_cons_eq_if_modifyHead] at h
    split at h
    · rcases List.mem_cons.1 h with rfl | h
      · exact List.not_mem_nil
      · exact ih h
    · rename_i hc
      cases hs : cs.splitOn '/' with
      | nil => exact absurd hs (List.splitOn_ne_nil '/' cs)
      | cons first rest =>
        rw [hs, List.modifyHead_cons] at h
        rw [hs] at ih
        rcases List.mem_cons.1 h with rfl | h
        · have hf : '/' ∉ first := ih List.mem_cons_self
          simpa [hf] using fun he => hc (beq_iff_eq.2 he.symm)
        · exact ih (List.mem_cons_of_mem _ h)

/-- A name between two slashes. -/
structure IsPart (part : List Char) : Prop where
  slashless : '/' ∉ part
  ne_nil : part ≠ []
  ne_dot : part ≠ ['.']

theorem isPart_of_mem_pathParts (h : part ∈ pathParts cs) : IsPart part := by
  obtain ⟨hm, hp⟩ := List.mem_filter.1 h
  obtain ⟨hn, hd⟩ := Bool.and_eq_true_iff.1 hp
  exact ⟨not_mem_of_mem_splitOn hm, bne_iff_ne.1 hn, bne_iff_ne.1 hd⟩

theorem pathParts_slash (cs : List Char) : pathParts ('/' :: cs) = pathParts cs := by
  rw [pathParts, List.splitOn_cons_eq_if_modifyHead]
  rfl

theorem pathParts_intercalate (h : ∀ part ∈ parts, IsPart part) :
    pathParts (['/'].intercalate parts) = parts := by
  cases parts with
  | nil => rfl
  | cons part parts =>
    rw [pathParts, List.splitOn_intercalate '/' (fun p hp => (h p hp).slashless) (by nofun)]
    apply List.filter_eq_self.2
    intro p hp
    exact Bool.and_eq_true_iff.2 ⟨bne_iff_ne.2 (h p hp).ne_nil, bne_iff_ne.2 (h p hp).ne_dot⟩

/-- The slashes at the front of a normal path with that many at its own front. -/
def rootOf (slashes : Nat) : String :=
  if slashes = 0 then "" else if slashes = 2 then "//" else "/"

def slashes (cs : List Char) : Nat := (cs.takeWhile (· == '/')).length

/-- What stands behind the slashes of a normal path. -/
def bodyOf (root : String) (parts : List (List Char)) : List Char :=
  if root = "" ∧ parts.isEmpty then ['.'] else ['/'].intercalate parts

theorem toList_normalPath (path : String) :
    (normalPath path).toList =
      (rootOf (slashes path.toList)).toList ++
        bodyOf (rootOf (slashes path.toList)) (pathParts path.toList) := by
  have hn : normalPath path =
      if rootOf (slashes path.toList) = "" ∧ ((pathParts path.toList).map String.ofList).isEmpty
      then "."
      else rootOf (slashes path.toList) ++
        "/".intercalate ((pathParts path.toList).map String.ofList) := rfl
  rw [hn, List.isEmpty_map, bodyOf]
  split
  · rename_i h
    rw [h.1]
    rfl
  · rw [String.toList_append, String.toList_intercalate, List.map_map]
    congr 2
    exact List.map_id'' (fun cs => String.toList_ofList) _

theorem pathParts_bodyOf (h : ∀ part ∈ parts, IsPart part) (root : String) :
    pathParts (bodyOf root parts) = parts := by
  rw [bodyOf]
  split
  · rename_i hp
    rw [List.isEmpty_iff.1 hp.2]
    rfl
  · exact pathParts_intercalate h

theorem head?_bodyOf (h : ∀ part ∈ parts, IsPart part) (root : String) :
    (bodyOf root parts).head? ≠ some '/' := by
  rw [bodyOf]
  split
  · decide
  · cases parts with
    | nil => nofun
    | cons part parts =>
      obtain ⟨hs, hn, -⟩ := h part List.mem_cons_self
      obtain ⟨c, cs, rfl⟩ := List.exists_cons_of_ne_nil hn
      have hc : c ≠ '/' := fun he => hs (he ▸ List.mem_cons_self)
      cases parts with
      | nil => simpa using hc
      | cons _ _ => simpa using hc

theorem rootOf_cases (n : Nat) :
    n = 0 ∧ rootOf n = "" ∨ n ≠ 0 ∧ (rootOf n = "//" ∨ rootOf n = "/") := by
  rw [rootOf]
  split
  · rename_i h
    exact .inl ⟨h, rfl⟩
  · rename_i h
    split
    · exact .inr ⟨h, .inl rfl⟩
    · exact .inr ⟨h, .inr rfl⟩

theorem slashes_of_head? (h : cs.head? ≠ some '/') : slashes cs = 0 := by
  cases cs with
  | nil => rfl
  | cons c cs => rw [slashes, List.takeWhile_cons_of_neg (by simpa using h)]; rfl

theorem rootOf_slashes {n : Nat} (h : cs.head? ≠ some '/') :
    rootOf (slashes ((rootOf n).toList ++ cs)) = rootOf n := by
  have hs (m : Nat) : slashes (List.replicate m '/' ++ cs) = m := by
    induction m with
    | zero => exact slashes_of_head? h
    | succ m ih =>
      rw [slashes, List.replicate_succ, List.cons_append, List.takeWhile_cons_of_pos rfl]
      exact congrArg (· + 1) ih
  rcases rootOf_cases n with ⟨-, hr⟩ | ⟨-, hr | hr⟩
  · rw [hr]
    exact congrArg rootOf (hs 0)
  · rw [hr]
    exact congrArg rootOf (hs 2)
  · rw [hr]
    exact congrArg rootOf (hs 1)

theorem pathParts_root (n : Nat) (cs : List Char) :
    pathParts ((rootOf n).toList ++ cs) = pathParts cs := by
  rcases rootOf_cases n with ⟨-, hr⟩ | ⟨-, hr | hr⟩
  · rw [hr]
    rfl
  · rw [hr]
    exact (pathParts_slash _).trans (pathParts_slash cs)
  · rw [hr]
    exact pathParts_slash cs

theorem pathParts_normalPath (path : String) :
    pathParts (normalPath path).toList = pathParts path.toList := by
  rw [toList_normalPath, pathParts_root, pathParts_bodyOf fun _ => isPart_of_mem_pathParts]

theorem normalPath_normalPath (path : String) : normalPath (normalPath path) = normalPath path := by
  have hb := head?_bodyOf (fun _ => @isPart_of_mem_pathParts path.toList _)
    (rootOf (slashes path.toList))
  have hr : rootOf (slashes (normalPath path).toList) = rootOf (slashes path.toList) := by
    rw [toList_normalPath, rootOf_slashes hb]
  rw [← String.toList_inj, toList_normalPath (normalPath path), hr, pathParts_normalPath,
    ← toList_normalPath]

theorem isAbsolute_eq (path : String) : isAbsolute path = (slashes path.toList != 0) := by
  rw [isAbsolute]
  cases path.toList with
  | nil => rfl
  | cons c cs =>
    by_cases hc : c = '/'
    · rw [slashes, hc, List.takeWhile_cons_of_pos rfl]
      rfl
    · rw [slashes_of_head? (by simpa using hc)]
      simpa using hc

theorem isAbsolute_normalPath (path : String) :
    isAbsolute (normalPath path) = isAbsolute path := by
  have hb := head?_bodyOf (fun _ => @isPart_of_mem_pathParts path.toList _)
    (rootOf (slashes path.toList))
  rw [isAbsolute_eq path, isAbsolute, toList_normalPath]
  rcases rootOf_cases (slashes path.toList) with ⟨hn, hr⟩ | ⟨hn, hr | hr⟩
  · rw [hr] at hb
    rw [hr, hn]
    simpa using hb
  · rw [hr, bne_iff_ne.2 hn]
    rfl
  · rw [hr, bne_iff_ne.2 hn]
    rfl

end Paths

namespace Files

variable {files : Files} {path text : String}

theorem look_normalPath (files : Files) (path : String) :
    files.look (normalPath path) = files.look path := by
  rw [look, look, normalPath_normalPath]

section Writing

variable (files : Files) (place : List String) (text : String)

def replaced : Files := files.filter (·.1 != place) ++ [(place, text)]

theorem lookup_replaced (q : List String) :
    List.lookup q (files.replaced place text) =
      if q = place then some text else List.lookup q files := by
  rw [replaced]
  induction files with
  | nil =>
    by_cases hq : q = place
    · simp [hq]
    · simp [hq]
  | cons f files ih =>
    obtain ⟨p, content⟩ := f
    by_cases hp : p = place
    · rw [List.filter_cons_of_neg (by simp [hp]), ih, hp]
      by_cases hq : q = place
      · rw [if_pos hq, if_pos hq]
      · rw [if_neg hq, if_neg hq, List.lookup_cons, beq_false_of_ne hq]
    · rw [List.filter_cons_of_pos (by simp [hp]), List.cons_append, List.lookup_cons,
        List.lookup_cons, ih]
      by_cases hq : q = p
      · rw [hq, if_neg hp]
        simp [hp]
      · rw [beq_false_of_ne hq]

theorem isFolder_replaced {q : List String} (h : isFolder files q = true) :
    isFolder (files.replaced place text) q = true := by
  rw [isFolder, Bool.or_eq_true] at h ⊢
  refine h.imp_right fun h => ?_
  obtain ⟨f, hf, hq⟩ := List.any_eq_true.1 h
  by_cases hp : f.1 = place
  · have hm : (place, text) ∈ [(place, text)] := List.mem_singleton_self _
    exact List.any_eq_true.2 ⟨_, List.mem_append_right _ hm, hp ▸ hq⟩
  · have hm : f ∈ files.filter (·.1 != place) := List.mem_filter.2 ⟨hf, by simpa using hp⟩
    exact List.any_eq_true.2 ⟨f, List.mem_append_left _ hm, hq⟩

end Writing

section Walking

variable {here place parts rest : List String} {part : String}

theorem walk_name (hp : part ≠ "..") (hl : ¬ maxPartBytes < part.utf8ByteSize) :
    walk files (some here) (part :: rest) =
      match List.lookup (here ++ [part]) files with
      | some content => if rest.isEmpty then .file content else .insideFile
      | none =>
        if isFolder files (here ++ [part]) then walk files (some (here ++ [part])) rest
        else if rest.isEmpty then .vacant
        else .noFolder := by
  rw [walk, if_neg hp, if_neg hl]
  rfl

theorem walk_up (hb : below? here (".." :: rest) = some place) :
    walk files (some here) (".." :: rest) = walk files (some here.dropLast) rest ∧
      below? here.dropLast rest = some place := by
  rw [below?, if_pos rfl] at hb
  split at hb
  · cases hb
  · rename_i he
    refine ⟨?_, hb⟩
    rw [walk, if_pos rfl, up, if_neg he]

/-- Where a name leads on a path that can be written to: the path ends there, at a file or at
nothing, or it goes on through a folder. -/
theorem walk_name_cases (hp : part ≠ "..")
    (hw : (walk files (some here) (part :: rest)).writable = .ok ()) :
    ¬ maxPartBytes < part.utf8ByteSize ∧
      (rest = [] ∧ ((List.lookup (here ++ [part]) files).isSome ∨
          isFolder files (here ++ [part]) = false) ∨
        List.lookup (here ++ [part]) files = none ∧ isFolder files (here ++ [part]) = true ∧
          (walk files (some (here ++ [part])) rest).writable = .ok ()) := by
  by_cases hl : maxPartBytes < part.utf8ByteSize
  · rw [walk, if_neg hp, if_pos hl] at hw
    cases hw
  · refine ⟨hl, ?_⟩
    rw [walk_name hp hl] at hw
    cases hf : List.lookup (here ++ [part]) files with
    | some content =>
      rw [hf] at hw
      cases rest with
      | nil => exact .inl ⟨rfl, .inl rfl⟩
      | cons _ _ => cases hw
    | none =>
      rw [hf] at hw
      cases hd : isFolder files (here ++ [part]) with
      | true =>
        rw [hd] at hw
        exact .inr ⟨rfl, rfl, hw⟩
      | false =>
        rw [hd] at hw
        cases rest with
        | nil => exact .inl ⟨rfl, .inr rfl⟩
        | cons _ _ => cases hw

theorem walk_end (hb : below? here parts = some place)
    (hw : (walk files (some here) parts).writable = .ok ()) :
    (List.lookup place files).isSome ∨ isFolder files place = false := by
  induction parts generalizing here with
  | nil => cases hw
  | cons part rest ih =>
    by_cases hp : part = ".."
    · subst hp
      obtain ⟨hu, hb⟩ := walk_up hb
      exact ih hb (hu ▸ hw)
    · rw [below?, if_neg hp] at hb
      obtain ⟨-, ⟨rfl, he⟩ | ⟨-, -, hw⟩⟩ := walk_name_cases hp hw
      · cases hb
        exact he
      · exact ih hb hw

theorem walk_replaced (hb : below? here parts = some place)
    (hw : (walk files (some here) parts).writable = .ok ()) :
    walk (files.replaced place text) (some here) parts = .file text := by
  have hend := walk_end hb hw
  induction parts generalizing here with
  | nil => cases hw
  | cons part rest ih =>
    by_cases hp : part = ".."
    · subst hp
      obtain ⟨hu, hd⟩ := @walk_up files here place rest hb
      rw [(walk_up hb).1]
      exact ih hd (hu ▸ hw)
    · rw [below?, if_neg hp] at hb
      obtain ⟨hl, ⟨rfl, -⟩ | ⟨hn, hf, hw⟩⟩ := walk_name_cases hp hw
      · cases hb
        rw [walk_name hp hl, lookup_replaced, if_pos rfl]
        rfl
      · have hq : here ++ [part] ≠ place := by
          rintro rfl
          rw [hn, hf] at hend
          rcases hend with h | h
          · cases h
          · cases h
        rw [walk_name hp hl, lookup_replaced, if_neg hq, hn]
        dsimp only
        rw [if_pos (isFolder_replaced files place text hf)]
        exact ih hb hw

end Walking

/-- Where a path ends, unless that is outside the working folder. -/
def placeOf? (path : String) : Option (List String) :=
  if isAbsolute path then none else below? [] ((pathParts path.toList).map String.ofList)

theorem write_of_placeOf? {place : List String} (h : placeOf? path = some place) (text : String) :
    files.write path text = files.replaced place text := by
  rw [placeOf?] at h
  split at h
  · cases h
  · rw [write, if_neg ‹_›, h]
    rfl

theorem look_write {place : List String} (h : placeOf? path = some place)
    (hw : (files.look path).writable = .ok ()) (text : String) :
    (files.write path text).look path = .file text := by
  rw [write_of_placeOf? h]
  rw [placeOf?] at h
  split at h
  · cases h
  · rename_i ha
    rw [look] at hw ⊢
    rw [pathParts_normalPath, isAbsolute_normalPath, if_neg ha] at hw ⊢
    split at hw
    · cases hw
    · rw [if_neg ‹_›]
      split at hw
      · cases hw
      · rw [if_neg ‹_›]
        exact walk_replaced h hw

end Files

end BlockMachine.CommandLine
