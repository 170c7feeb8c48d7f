import BlockMachine.Proofs.Json.Scalar
import BlockMachine.Proofs.Json.Strings
import BlockMachine.Proofs.Table

namespace BlockMachine.Json

open Text (IsPlain)

/-- What may stand behind a value: nothing, a comma or a new line. -/
def Ends (rest : List Char) : Prop := ∀ c ∈ rest.head?, c = ',' ∨ c = '\n'

theorem ends_comma (cs : List Char) : Ends (',' :: cs) := by
  rintro c ⟨⟩
  exact .inl rfl

theorem ends_newLine (depth : Nat) (cs : List Char) : Ends (newLine depth ++ cs) := by
  rintro c ⟨⟩
  exact .inr rfl

/-- A text that does not start with a blank or a closing bracket. -/
def Starts (cs : List Char) : Prop :=
  ∃ c rest, cs = c :: rest ∧ isSpace c = false ∧ c ≠ ']' ∧ c ≠ '\x7d'

theorem Starts.append {cs : List Char} (h : Starts cs) (ds : List Char) : Starts (cs ++ ds) := by
  obtain ⟨c, rest, rfl, hc⟩ := h
  exact ⟨c, rest ++ ds, rfl, hc⟩

theorem Starts.skipSpace {cs : List Char} (h : Starts cs) : skipSpace cs = cs := by
  obtain ⟨c, rest, rfl, hc, -⟩ := h
  exact List.dropWhile_cons_of_neg (by simp [hc])

theorem Starts.skipSpace_cons {cs : List Char} (h : Starts cs) :
    Json.skipSpace (' ' :: cs) = cs := h.skipSpace

theorem skipSpace_colon (cs : List Char) : skipSpace (':' :: cs) = ':' :: cs := rfl

theorem Starts.length_pos {cs : List Char} (h : Starts cs) : 0 < cs.length := by
  obtain ⟨c, rest, rfl, -⟩ := h
  exact Nat.succ_pos _

theorem skipSpace_newLine (depth : Nat) (cs : List Char) :
    skipSpace (newLine depth ++ cs) = skipSpace cs := by
  have h : ∀ c ∈ newLine depth, isSpace c = true := by
    refine List.forall_mem_cons.2 ⟨rfl, fun c hc => ?_⟩
    cases List.eq_of_mem_replicate hc
    rfl
  rw [skipSpace, List.dropWhile_append_of_pos h]
  rfl

section Numbers

variable {ds : List Nat}

/-- A number that is written as digits with a point between them, and is the nearest to what they
say. -/
structure Pointed (x : Binary64) (whole fraction : List Nat) : Prop where
  text : floatText x = whole.map Nat.digitChar ++ '.' :: fraction.map Nat.digitChar
  whole_digits : ∀ d ∈ whole, d < 10
  fraction_digits : ∀ d ∈ fraction, d < 10
  whole_ne : whole ≠ []
  fraction_ne : fraction ≠ []
  leading : whole.head? = some 0 → whole.length = 1
  value : Numeral.nearest false (Text.ofDigits (whole ++ fraction)) (0 - fraction.length) = x

instance (x : Binary64) (whole fraction : List Nat) : Decidable (Pointed x whole fraction) :=
  decidable_of_iff (_ ∧ _ ∧ _ ∧ _ ∧ _ ∧ _ ∧ _)
    ⟨fun ⟨ht, hw, hf, hn, hm, hl, hv⟩ => ⟨ht, hw, hf, hn, hm, hl, hv⟩,
      fun ⟨ht, hw, hf, hn, hm, hl, hv⟩ => ⟨ht, hw, hf, hn, hm, hl, hv⟩⟩

theorem asciiDigit?_digitChar {d : Nat} (h : d < 10) :
    Numeral.asciiDigit? d.digitChar = some d := by
  have hall : ∀ k : Fin 10, Numeral.asciiDigit? (k : Nat).digitChar = some (k : Nat) := by decide
  exact hall ⟨d, h⟩

theorem starts_digit {d : Nat} (h : d < 10) (cs : List Char) : Starts (d.digitChar :: cs) := by
  have hall : ∀ k : Fin 10, isSpace (k : Nat).digitChar = false ∧ (k : Nat).digitChar ≠ ']' ∧
      (k : Nat).digitChar ≠ '\x7d' := by decide
  exact ⟨_, cs, rfl, hall ⟨d, h⟩⟩

theorem takeDigits_append (hd : ∀ d ∈ ds, d < 10) {rest : List Char}
    (hr : ∀ c ∈ rest.head?, Numeral.asciiDigit? c = none) :
    Numeral.takeDigits Numeral.asciiDigit? (ds.map Nat.digitChar ++ rest) = (ds, rest) := by
  induction ds with
  | nil =>
    cases rest with
    | nil => rfl
    | cons c rest =>
      rw [List.map_nil, List.nil_append, Numeral.takeDigits, hr c rfl]
  | cons d ds ih =>
    obtain ⟨hd, hds⟩ := List.forall_mem_cons.1 hd
    rw [List.map_cons, List.cons_append, Numeral.takeDigits, asciiDigit?_digitChar hd, ih hds]

theorem readFraction_append (hd : ∀ d ∈ ds, d < 10) (hn : ds ≠ []) {rest : List Char}
    (hr : Ends rest) :
    readFraction ('.' :: (ds.map Nat.digitChar ++ rest)) = (some ds, rest) := by
  have hc : ∀ c ∈ rest.head?, Numeral.asciiDigit? c = none := by
    intro c hc
    rcases hr c hc with rfl | rfl
    · rfl
    · rfl
  rw [readFraction, takeDigits_append hd hc]
  cases ds with
  | nil => exact absurd rfl hn
  | cons d ds => rfl

theorem readExponent_ends {rest : List Char} (hr : Ends rest) :
    readExponent rest = (none, rest) := by
  cases rest with
  | nil => rfl
  | cons c rest =>
    rcases hr c rfl with rfl | rfl
    · rfl
    · rfl

theorem readValue_digit {d : Nat} (h : d < 10) (n : Nat) (cs : List Char) :
    readValue (n + 1) (d.digitChar :: cs) = readUnsigned false (d.digitChar :: cs) := by
  match d with
  | 0 | 1 | 2 | 3 | 4 | 5 | 6 | 7 | 8 | 9 => rfl

theorem Pointed.readUnsigned {x : Binary64} {whole fraction : List Nat}
    (h : Pointed x whole fraction) {rest : List Char} (hr : Ends rest) :
    readUnsigned false (floatText x ++ rest) = .ok (.float x, rest) := by
  have hp : ∀ c ∈ ('.' :: (fraction.map Nat.digitChar ++ rest)).head?,
      Numeral.asciiDigit? c = none := by
    rintro c ⟨⟩
    rfl
  have hl : (whole.isEmpty || (whole.head? == some 0 && whole.length != 1)) = false := by
    simpa [h.whole_ne] using h.leading
  rw [h.text, List.append_assoc, List.cons_append, Json.readUnsigned]
  simp only [takeDigits_append h.whole_digits hp,
    readFraction_append h.fraction_digits h.fraction_ne hr, readExponent_ends hr, hl,
    Bool.false_eq_true, if_false, Option.getD_some, Option.getD_none, h.value]

theorem Pointed.exists_digit {x : Binary64} {whole fraction : List Nat}
    (h : Pointed x whole fraction) : ∃ d cs, d < 10 ∧ floatText x = d.digitChar :: cs := by
  obtain ⟨d, ds, rfl⟩ := List.exists_cons_of_ne_nil h.whole_ne
  exact ⟨d, _, h.whole_digits d List.mem_cons_self, h.text⟩

end Numbers

/-- The documents that are read back: in no object is a key twice, and numbers have a point. -/
inductive Legible : Json → Prop
  | null : Legible .null
  | bool (b : Bool) : Legible (.bool b)
  | str (s : String) : Legible (.str s)
  | float {x : Binary64} {whole fraction : List Nat} : Pointed x whole fraction → Legible (.float x)
  | arr {items : List Json} : (∀ j ∈ items, Legible j) → Legible (.arr items)
  | obj {members : Table Json} : (Table.keys members).Nodup →
    (∀ e ∈ members, Legible e.2) → Legible (.obj members)

theorem Legible.starts {j : Json} (h : j.Legible) (depth : Nat) :
    Starts (indentedText depth j) := by
  cases h with
  | null => exact ⟨'n', _, rfl, by decide⟩
  | bool b =>
    cases b with
    | false => exact ⟨'f', _, rfl, by decide⟩
    | true => exact ⟨'t', _, rfl, by decide⟩
  | str s => exact ⟨'"', _, rfl, by decide⟩
  | float hx =>
    obtain ⟨d, cs, hd, ht⟩ := hx.exists_digit
    rw [indentedText, ht]
    exact starts_digit hd cs
  | @arr items _ =>
    cases items with
    | nil => exact ⟨'[', _, rfl, by decide⟩
    | cons j js => exact ⟨'[', _, rfl, by decide⟩
  | @obj members _ _ =>
    cases members with
    | nil => exact ⟨'\x7b', _, rfl, by decide⟩
    | cons m ms => exact ⟨'\x7b', _, rfl, by decide⟩

theorem Legible.exists_succ {j : Json} (h : j.Legible) {depth n : Nat}
    (hl : (indentedText depth j).length ≤ n) : ∃ m, n = m + 1 := by
  have hp := (h.starts depth).length_pos
  exact Nat.exists_eq_add_one_of_ne_zero (by omega)

/-- The document is read off the front of a text, in as many steps as it has characters. -/
def Reads (j : Json) : Prop :=
  ∀ depth n rest, (indentedText depth j).length ≤ n → Ends rest →
    readValue n (indentedText depth j ++ rest) = .ok (j, rest)

section Steps

variable {n : Nat} {cs rest after last : List Char} {key : String} {j : Json} {js : List Json}
  {ms : Table Json}

theorem readItems_last (hv : readValue n cs = .ok (j, rest)) (hs : skipSpace rest = ']' :: after) :
    readItems (n + 1) cs = .ok ([j], after) := by
  rw [readItems, hv]
  simp only [bind, Except.bind, hs]
  rfl

theorem readItems_more (hv : readValue n cs = .ok (j, rest)) (hs : skipSpace rest = ',' :: after)
    (hi : readItems n (skipSpace after) = .ok (js, last)) :
    readItems (n + 1) cs = .ok (j :: js, last) := by
  rw [readItems, hv]
  simp only [bind, Except.bind, hs, hi]
  rfl

theorem readMembers_last (hk : Text.Scalar key.toList) (hc : Starts cs)
    (hv : readValue n cs = .ok (j, rest)) (hs : skipSpace rest = '\x7d' :: after) :
    readMembers (n + 1) (Text.quotePlain key.toList ++ ':' :: ' ' :: cs) =
      .ok ([(key, j)], after) := by
  rw [Text.quotePlain, Text.quoteWith, List.cons_append, List.append_assoc, readMembers]
  simp only [List.cons_append, List.nil_append, readText_points hk, bind, Except.bind,
    skipSpace_colon, hc.skipSpace_cons, hv, hs]
  rfl

theorem readMembers_more (hk : Text.Scalar key.toList) (hc : Starts cs)
    (hv : readValue n cs = .ok (j, rest)) (hs : skipSpace rest = ',' :: after)
    (hm : readMembers n (skipSpace after) = .ok (ms, last)) :
    readMembers (n + 1) (Text.quotePlain key.toList ++ ':' :: ' ' :: cs) =
      .ok ((key, j) :: ms, last) := by
  rw [Text.quotePlain, Text.quoteWith, List.cons_append, List.append_assoc, readMembers]
  simp only [List.cons_append, List.nil_append, readText_points hk, bind, Except.bind,
    skipSpace_colon, hc.skipSpace_cons, hv, hs, hm]
  rfl

theorem readValue_items (hc : Starts cs) (hi : readItems n cs = .ok (js, last)) (depth : Nat) :
    readValue (n + 1) ('[' :: (newLine depth ++ cs)) = .ok (.arr js, last) := by
  simp only [readValue, skipSpace_newLine, hc.skipSpace]
  obtain ⟨c, tail, rfl, -, hb, -⟩ := hc
  split
  · rename_i he
    exact absurd (List.cons.inj he).1 hb
  · rw [hi]
    rfl

theorem readValue_members (hc : Starts cs) (hm : readMembers n cs = .ok (ms, last))
    (hn : (Table.keys ms).Nodup) (depth : Nat) :
    readValue (n + 1) ('\x7b' :: (newLine depth ++ cs)) = .ok (.obj ms, last) := by
  have ho : Table.ofEntries ms = ms := Table.putAll_of_disjoint hn nofun
  simp only [readValue, skipSpace_newLine, hc.skipSpace]
  obtain ⟨c, tail, rfl, -, -, hb⟩ := hc
  split
  · rename_i he
    exact absurd (List.cons.inj he).1 hb
  · rw [hm]
    simp only [Except.map, ho]

end Steps

theorem indentedItems_cons (depth : Nat) (j k : Json) (ks : List Json) :
    indentedItems depth (j :: k :: ks) =
      indentedText depth j ++ ',' :: (newLine depth ++ indentedItems depth (k :: ks)) := rfl

theorem indentedMembers_cons (depth : Nat) (key : String) (j : Json) (m : String × Json)
    (ms : Table Json) :
    indentedMembers depth ((key, j) :: m :: ms) =
      Text.quotePlain key.toList ++ ':' :: ' ' ::
        (indentedText depth j ++ ',' :: (newLine depth ++ indentedMembers depth (m :: ms))) := rfl

theorem Legible.starts_items {j : Json} (h : j.Legible) (depth : Nat) (js : List Json) :
    Starts (indentedItems depth (j :: js)) := by
  cases js with
  | nil => exact h.starts depth
  | cons k ks =>
    rw [indentedItems_cons]
    exact (h.starts depth).append _

theorem starts_members (depth : Nat) (m : String × Json) (ms : Table Json) :
    Starts (indentedMembers depth (m :: ms)) := by
  cases ms with
  | nil => exact ⟨'"', _, rfl, by decide⟩
  | cons k ks => exact ⟨'"', _, rfl, by decide⟩

theorem readItems_indented {items : List Json} (hs : ∀ j ∈ items, j.Legible)
    (hr : ∀ j ∈ items, j.Reads) (hn : items ≠ []) {depth outer n : Nat} {rest : List Char}
    (hl : (indentedItems depth items).length < n) :
    readItems n (indentedItems depth items ++ (newLine outer ++ ']' :: rest)) =
      .ok (items, rest) := by
  induction items generalizing n with
  | nil => exact absurd rfl hn
  | cons j js ih =>
    obtain ⟨m, rfl⟩ := Nat.exists_eq_add_one_of_ne_zero (Nat.ne_of_gt (Nat.zero_lt_of_lt hl))
    obtain ⟨hj, hjs⟩ := List.forall_mem_cons.1 hr
    obtain ⟨hsj, hsjs⟩ := List.forall_mem_cons.1 hs
    cases js with
    | nil =>
      have hv := hj depth m (newLine outer ++ ']' :: rest) (Nat.le_of_lt_succ hl) (ends_newLine _ _)
      exact readItems_last hv (skipSpace_newLine outer _)
    | cons k ks =>
      have hp := (hsj.starts depth).length_pos
      rw [indentedItems_cons] at hl ⊢
      simp only [List.length_append, List.length_cons] at hl
      simp only [List.append_assoc, List.cons_append]
      refine readItems_more (hj depth m _ (by omega) (ends_comma _)) rfl ?_
      have hk := hsjs k List.mem_cons_self
      rw [skipSpace_newLine, ((hk.starts_items depth ks).append _).skipSpace]
      exact ih hsjs hjs (List.cons_ne_nil _ _) (by omega)

theorem readMembers_indented {members : Table Json} (hk : ∀ e ∈ members, Text.Scalar e.1.toList)
    (hs : ∀ e ∈ members, e.2.Legible)
    (hr : ∀ e ∈ members, e.2.Reads) (hn : members ≠ []) {depth outer n : Nat} {rest : List Char}
    (hl : (indentedMembers depth members).length < n) :
    readMembers n (indentedMembers depth members ++ (newLine outer ++ '\x7d' :: rest)) =
      .ok (members, rest) := by
  induction members generalizing n with
  | nil => exact absurd rfl hn
  | cons e es ih =>
    obtain ⟨key, j⟩ := e
    obtain ⟨m, rfl⟩ := Nat.exists_eq_add_one_of_ne_zero (Nat.ne_of_gt (Nat.zero_lt_of_lt hl))
    obtain ⟨hj, hjs⟩ := List.forall_mem_cons.1 hr
    obtain ⟨hsj, hsjs⟩ := List.forall_mem_cons.1 hs
    obtain ⟨hkj, hks⟩ := List.forall_mem_cons.1 hk
    dsimp only at hj hsj hkj
    have hst := (hsj.starts depth).append
    cases es with
    | nil =>
      rw [indentedMembers] at hl ⊢
      simp only [List.length_append, List.length_cons] at hl
      simp only [List.append_assoc, List.cons_append]
      have hv := hj depth m (newLine outer ++ '\x7d' :: rest) (by omega) (ends_newLine _ _)
      exact readMembers_last hkj (hst _) hv (skipSpace_newLine outer _)
    | cons k ks =>
      rw [indentedMembers_cons] at hl ⊢
      simp only [List.length_append, List.length_cons] at hl
      simp only [List.append_assoc, List.cons_append]
      refine readMembers_more hkj (hst _) (hj depth m _ (by omega) (ends_comma _)) rfl ?_
      rw [skipSpace_newLine, ((starts_members depth k ks).append _).skipSpace]
      exact ih hks hsjs hjs (List.cons_ne_nil _ _) (by omega)

theorem Legible.reads {j : Json} (h : j.Legible) (hs : j.Scalar) : j.Reads := by
  induction h with
  | null =>
    intro depth n rest hl hr
    obtain ⟨m, rfl⟩ := Legible.null.exists_succ hl
    rfl
  | bool b =>
    intro depth n rest hl hr
    obtain ⟨m, rfl⟩ := (Legible.bool b).exists_succ hl
    cases b with
    | false => rfl
    | true => rfl
  | str s =>
    intro depth n rest hl hr
    obtain ⟨m, rfl⟩ := (Legible.str s).exists_succ hl
    cases hs with
    | str hs =>
      rw [indentedText, Text.quotePlain, Text.quoteWith, List.cons_append, List.append_assoc,
        List.cons_append, List.nil_append, readValue, readText_points hs]
      rfl
  | float hx =>
    intro depth n rest hl hr
    obtain ⟨m, rfl⟩ := (Legible.float hx).exists_succ hl
    have hu := hx.readUnsigned hr
    obtain ⟨d, cs, hd, ht⟩ := hx.exists_digit
    rw [ht] at hu
    rw [indentedText, ht, List.cons_append, readValue_digit hd, ← List.cons_append, hu]
  | @arr items h ih =>
    intro depth n rest hl hr
    obtain ⟨m, rfl⟩ := (Legible.arr h).exists_succ hl
    have hr : ∀ j ∈ items, j.Reads := by
      cases hs with
      | arr hs => exact fun j hj => ih j hj (hs j hj)
    cases items with
    | nil => rfl
    | cons j js =>
      rw [indentedText] at hl ⊢
      simp only [List.length_cons, List.length_append, List.length_nil] at hl
      simp only [List.cons_append, List.append_assoc, List.nil_append]
      have hs := (h j List.mem_cons_self).starts_items (depth + 1) js
      exact readValue_items (hs.append _)
        (readItems_indented h hr (List.cons_ne_nil _ _) (by omega)) _
  | @obj members hn h ih =>
    intro depth n rest hl hr
    obtain ⟨m, rfl⟩ := (Legible.obj hn h).exists_succ hl
    obtain ⟨hk, hr⟩ : (∀ e ∈ members, Text.Scalar e.1.toList) ∧ ∀ e ∈ members, e.2.Reads := by
      cases hs with
      | obj hk hs => exact ⟨hk, fun e he => ih e he (hs e he)⟩
    cases members with
    | nil => rfl
    | cons e es =>
      rw [indentedText] at hl ⊢
      simp only [List.length_cons, List.length_append, List.length_nil] at hl
      simp only [List.cons_append, List.append_assoc, List.nil_append]
      have hs := starts_members (depth + 1) e es
      refine readValue_members (hs.append _) ?_ hn _
      exact readMembers_indented hk h hr (List.cons_ne_nil _ _) (by omega)

theorem Legible.read_indented {j : Json} (h : j.Legible) (hs : j.Scalar) :
    read (j.indented ++ "\n") = .ok j := by
  have hl : "\n".toList = ['\n'] := rfl
  have hr : Ends ['\n'] := ends_newLine 0 []
  have hv := h.reads hs 0 ((indentedText 0 j ++ ['\n']).length + 1) ['\n'] (by simp; omega) hr
  rw [read, readDocument, indented, String.toList_append, String.toList_ofList, hl,
    ((h.starts 0).append _).skipSpace, hv]
  rfl

/-- Printable ASCII and line feeds. -/
def Printed (cs : List Char) : Prop := ∀ c ∈ cs, c = '\n' ∨ IsPlain c

instance (cs : List Char) : Decidable (Printed cs) :=
  decidable_of_iff (cs.all (fun c => decide (c = '\n' ∨ IsPlain c)) = true) (by simp [Printed])

namespace Printed

variable {cs ds : List Char}

theorem of_isPlain (h : ∀ c ∈ cs, IsPlain c) : Printed cs := fun c hc => .inr (h c hc)

theorem cons {c : Char} (hc : IsPlain c) (h : Printed cs) : Printed (c :: cs) :=
  List.forall_mem_cons.2 ⟨.inr hc, h⟩

theorem append (hc : Printed cs) (hd : Printed ds) : Printed (cs ++ ds) :=
  List.forall_mem_append.2 ⟨hc, hd⟩

theorem newLine (depth : Nat) : Printed (newLine depth) := by
  refine List.forall_mem_cons.2 ⟨.inl rfl, fun c hc => ?_⟩
  cases List.eq_of_mem_replicate hc
  exact .inr (by decide)

theorem digits {ds : List Nat} (h : ∀ d ∈ ds, d < 10) : Printed (ds.map Nat.digitChar) := by
  intro c hc
  obtain ⟨d, hd, rfl⟩ := List.mem_map.1 hc
  have hall : ∀ k : Fin 10, IsPlain (k : Nat).digitChar := by decide
  exact .inr (hall ⟨d, h d hd⟩)

theorem items {js : List Json} (h : ∀ j ∈ js, ∀ depth, Printed (indentedText depth j))
    (depth : Nat) : Printed (indentedItems depth js) := by
  induction js with
  | nil => nofun
  | cons j js ih =>
    obtain ⟨hj, hjs⟩ := List.forall_mem_cons.1 h
    cases js with
    | nil => exact hj depth
    | cons k ks =>
      rw [indentedItems_cons]
      exact (hj depth).append (.cons (by decide) ((newLine depth).append (ih hjs)))

theorem members {ms : Table Json} (h : ∀ e ∈ ms, ∀ depth, Printed (indentedText depth e.2))
    (depth : Nat) : Printed (indentedMembers depth ms) := by
  induction ms with
  | nil => nofun
  | cons e es ih =>
    obtain ⟨key, j⟩ := e
    obtain ⟨hj, hjs⟩ := List.forall_mem_cons.1 h
    have hk := of_isPlain (Text.isPlain_quotePlain key.toList)
    cases es with
    | nil => exact hk.append (.cons (by decide) (.cons (by decide) (hj depth)))
    | cons k ks =>
      rw [indentedMembers_cons]
      have hc : IsPlain ',' := by decide
      have hr := (hj depth).append (.cons hc ((newLine depth).append (ih hjs)))
      exact hk.append (.cons (by decide) (.cons (by decide) hr))

end Printed

theorem Legible.printed {j : Json} (h : j.Legible) (depth : Nat) :
    Printed (indentedText depth j) := by
  induction h generalizing depth with
  | null =>
    rw [indentedText]
    decide
  | bool b =>
    rw [indentedText]
    revert b
    decide
  | str s => exact .of_isPlain (Text.isPlain_quotePlain s.toList)
  | float hx =>
    rw [indentedText, hx.text]
    exact (Printed.digits hx.whole_digits).append
      (.cons (by decide) (.digits hx.fraction_digits))
  | @arr items _ ih =>
    cases items with
    | nil =>
      rw [indentedText]
      decide
    | cons j js =>
      rw [indentedText]
      have hi := (Printed.newLine (depth + 1)).append (.items ih (depth + 1))
      exact .cons (by decide) ((hi.append (.newLine depth)).append (by decide))
  | @obj members _ _ ih =>
    cases members with
    | nil =>
      rw [indentedText]
      decide
    | cons e es =>
      rw [indentedText]
      have hm := (Printed.newLine (depth + 1)).append (.members ih (depth + 1))
      exact .cons (by decide) ((hm.append (.newLine depth)).append (by decide))

theorem Legible.printed_indented {j : Json} (h : j.Legible) :
    Printed (j.indented ++ "\n").toList := by
  rw [indented, String.toList_append, String.toList_ofList]
  exact (h.printed 0).append (by decide)

end BlockMachine.Json
