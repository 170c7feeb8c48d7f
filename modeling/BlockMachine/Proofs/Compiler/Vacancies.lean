import BlockMachine.Proofs.Compiler.Counts
import BlockMachine.Proofs.Compiler.Settled
import BlockMachine.Proofs.Compiler.Simulation
import Mathlib.Algebra.Ring.Nat
import Mathlib.Data.List.Sort

namespace BlockMachine

variable {ρ σ α β γ δ : Type} {m : Matching ρ σ} {R : α → β → Prop} {Q : γ → δ → Prop}

/-- The first text is longer than the second one, by so many characters at least. -/
def Exceeds (j : Nat) (s s' : String) : Prop := s'.length + j ≤ s.length

theorem Exceeds.append {j : Nat} {s s' : String} (h : Exceeds j s s') (u : String) :
    Exceeds j (s ++ u) (s' ++ u) := by
  rw [Exceeds, String.length_append, String.length_append]
  rw [Exceeds] at h
  omega

theorem Exceeds.prepend {j : Nat} {s s' : String} (h : Exceeds j s s') (u : String) :
    Exceeds j (u ++ s) (u ++ s') := by
  rw [Exceeds, String.length_append, String.length_append]
  rw [Exceeds] at h
  omega

theorem Exceeds.ne {j : Nat} {s s' : String} (h : Exceeds j s s') (hj : 0 < j) : s ≠ s' := by
  rintro rfl
  rw [Exceeds] at h
  omega

namespace Matching

theorem Runs.map {x : Compile ρ α} {y : Compile σ β} {f : α → γ} {f' : β → δ}
    (h : m.Runs R x y) (hf : ∀ a b, R a b → Q (f a) (f' b)) : m.Runs Q (f <$> x) (f' <$> y) := by
  rw [map_eq_pure_bind, map_eq_pure_bind]
  exact h.bind fun a b hr => .pure (hf a b hr)

theorem Runs.map_left {x : Compile ρ α} {y : Compile σ β} {S : γ → β → Prop} {f : α → γ}
    (h : m.Runs R x y) (hf : ∀ a b, R a b → S (f a) b) : m.Runs S (f <$> x) y := by
  intro c c' hc
  have he := h c c' hc
  change m.Ends S (EStateM.map f x c) (y c')
  rw [EStateM.map]
  generalize x c = u at he ⊢
  generalize y c' = v at he ⊢
  cases he with
  | ok hr hc => exact .ok (hf _ _ hr) hc
  | error hf hc => exact .error hf hc

theorem Runs.mono {x : Compile ρ α} {y : Compile σ β} {S : α → β → Prop} (h : m.Runs R x y)
    (hf : ∀ a b, R a b → S a b) : m.Runs S x y := by
  rw [← id_map x]
  exact h.map_left hf

theorem Runs.settles_bind {x : Compile ρ α} {f : α → Compile ρ γ} {y : Compile σ δ} {a : α}
    (hx : x.Settles a) (h : m.Runs Q (f a) y) : m.Runs Q (x >>= f) y := by
  intro c c' hc
  change m.Ends Q (EStateM.bind x f c) (y c')
  rw [EStateM.bind, hx c]
  exact h c c' hc

end Matching

namespace Generator

variable {g : Generator ρ} {b : Block ρ}

theorem expand_append {qs : List Part} {u : String} (h : (g.expand b qs).Settles u)
    (ps : List Part) : g.expand b (ps ++ qs) = (· ++ u) <$> g.expand b ps := by
  induction ps with
  | nil =>
    funext c
    change g.expand b qs c = .ok ("" ++ u) c
    rw [h, String.empty_append]
  | cons p ps ih =>
    cases p with
    | text s => simp [expand, ih, String.append_assoc]
    | slot socket context default => simp [expand, ih, String.append_assoc]
    | fail f => rfl

end Generator

namespace ValueRule

/-- The slots of a list with what stands between them. -/
def listParts (count : Nat) : List Part :=
  ((List.range count).map listSlot).intersperse (.text ", ")

theorem intersperse_concat {sep x : α} {xs : List α} (h : xs ≠ []) :
    (xs ++ [x]).intersperse sep = xs.intersperse sep ++ [sep, x] := by
  induction xs with
  | nil => exact absurd rfl h
  | cons y xs ih =>
    cases xs with
    | nil => rfl
    | cons z xs => exact congrArg (fun l => y :: sep :: l) (ih (List.cons_ne_nil z xs))

def lastSlot (i : Nat) : List Part := if i = 0 then [listSlot i] else [.text ", ", listSlot i]

theorem listParts_succ (n : Nat) : listParts (n + 1) = listParts n ++ lastSlot n := by
  rw [listParts, List.range_succ, List.map_append, lastSlot]
  split
  · rename_i h
    rw [h]
    rfl
  · rename_i h
    refine intersperse_concat fun hn => h ?_
    simpa using congrArg List.length hn

end ValueRule

namespace Matching

open ValueRule

variable {g : Generator ρ} {g' : Generator σ} {b : Block ρ} {b' : Block σ}

theorem settles_lastSlot (g : Generator ρ) {i : Nat}
    (h : b.value? ("ADD" ++ decimalText i) = none) :
    ∃ u, (g.expand b (lastSlot i)).Settles u ∧ 0 < u.length := by
  have hn : (g.value (b.value? ("ADD" ++ decimalText i)) .comma "null").Settles
      ⟨"null", .atomic⟩ := by
    rw [h]
    exact Generator.settles_value_none _ _
  have hs : (g.expand b [listSlot i]).Settles ("null" ++ "") :=
    Generator.settles_expand_slot hn Generator.settles_expand_nil
  rw [lastSlot]
  split
  · exact ⟨_, hs, by decide⟩
  · exact ⟨_, Generator.settles_expand_text ", " hs, by decide⟩

theorem Generators.listParts (h : m.Generators g g') (hb : m.Blocks b b') {k : Nat}
    (hv : ∀ i, k ≤ i → b.value? ("ADD" ++ decimalText i) = none) (j : Nat) :
    m.Runs (Exceeds j) (g.expand b (ValueRule.listParts (k + j)))
      (g'.expand b' (ValueRule.listParts k)) := by
  induction j with
  | zero =>
    have he := h.expand hb (parts_same (isFaultless_listSlots (List.range k)))
    exact he.mono fun s s' he => Nat.le_of_eq (congrArg String.length he.symm)
  | succ j ih =>
    -- The last slot has no partner, but it is empty and cannot fail.
    obtain ⟨u, hu, hl⟩ := settles_lastSlot g (hv (k + j) (Nat.le_add_right k j))
    rw [← Nat.add_assoc, listParts_succ, Generator.expand_append hu]
    refine ih.map_left fun s s' hs => ?_
    rw [Exceeds] at hs
    rw [Exceeds, String.length_append]
    omega

theorem Generators.list (h : m.Generators g g') (hb : m.Blocks b b') {k : Nat}
    (hv : ∀ i, k ≤ i → b.value? ("ADD" ++ decimalText i) = none) (j : Nat) :
    m.Runs (fun e e' => Exceeds j e.text e'.text) (g.fill b (listTemplate (k + j)))
      (g'.fill b' (listTemplate k)) := by
  have hq : (g.expand b [.text "]"]).Settles ("]" ++ "") :=
    Generator.settles_expand_text "]" Generator.settles_expand_nil
  have hq' : (g'.expand b' [.text "]"]).Settles ("]" ++ "") :=
    Generator.settles_expand_text "]" Generator.settles_expand_nil
  have ho : m.Runs (Exceeds j) (g.expand b (.text "[" :: ValueRule.listParts (k + j)))
      (g'.expand b' (.text "[" :: ValueRule.listParts k)) :=
    (h.listParts hb hv j).bind fun _ _ hs => .pure (hs.prepend "[")
  have hp : m.Runs (Exceeds j) (g.expand b (listTemplate (k + j)).parts)
      (g'.expand b' (listTemplate k).parts) := by
    change m.Runs (Exceeds j) (g.expand b (.text "[" :: ValueRule.listParts (k + j) ++ [.text "]"]))
      (g'.expand b' (.text "[" :: ValueRule.listParts k ++ [.text "]"]))
    rw [Generator.expand_append hq, Generator.expand_append hq']
    exact ho.map fun _ _ hs => hs.append _
  exact hp.bind fun _ _ hs => .pure hs

theorem Runs.mapM_filter {p : α → Bool} {f : α → Compile ρ γ} {f' : α → Compile σ γ} {xs : List α}
    (hf : ∀ x ∈ xs, p x = true → m.Runs Eq (f x) (f' x))
    (hs : ∀ x ∈ xs, p x = false → ∃ u, (f x).Settles u) :
    m.Runs (fun us vs => vs.Sublist us ∧ us.length = xs.length ∧ vs.length = (xs.filter p).length)
      (xs.mapM f) ((xs.filter p).mapM f') := by
  induction xs with
  | nil => exact .pure ⟨.slnil, rfl, rfl⟩
  | cons x xs ih =>
    obtain ⟨hx, hf⟩ := List.forall_mem_cons.1 hf
    obtain ⟨hy, hs⟩ := List.forall_mem_cons.1 hs
    have ih := ih hf hs
    rw [List.mapM_cons]
    cases hp : p x with
    | true =>
      rw [List.filter_cons_of_pos hp, List.mapM_cons]
      refine (hx hp).bind_eq fun u => ih.bind fun us vs hv => .pure ?_
      exact ⟨hv.1.cons_cons u, congrArg (· + 1) hv.2.1, congrArg (· + 1) hv.2.2⟩
    | false =>
      obtain ⟨u, hu⟩ := hy hp
      rw [List.filter_cons_of_neg (by simp [hp])]
      refine .settles_bind hu ?_
      rw [bind_pure_comp]
      exact ih.map_left fun us vs hv => ⟨hv.1.cons u, congrArg (· + 1) hv.2.1, hv.2.2⟩

end Matching

theorem length_intercalate (sep s : String) (ss : List String) :
    (sep.intercalate (s :: ss)).length + sep.length =
      ((s :: ss).map fun s => s.length + sep.length).sum := by
  induction ss generalizing s with
  | nil => simp
  | cons u ss ih =>
    rw [String.intercalate_cons_cons, String.length_append, String.length_append, Nat.add_assoc,
      ih u]
    rfl

theorem sum_add_le_of_sublist (l : Nat) {ss us : List String} (h : us.Sublist ss) :
    (us.map fun s => s.length + l).sum + ss.length * l ≤
      (ss.map fun s => s.length + l).sum + us.length * l := by
  induction h with
  | slnil => exact Nat.le_refl _
  | cons s _ ih =>
    simp only [List.map_cons, List.sum_cons, List.length_cons, Nat.succ_mul]
    omega
  | cons_cons s _ ih =>
    simp only [List.map_cons, List.sum_cons, List.length_cons, Nat.succ_mul]
    omega

theorem exceeds_intercalate (sep : String) {ss us : List String} (h : us.Sublist ss)
    (hn : us ≠ []) {j : Nat} (hj : ss.length = us.length + j) :
    Exceeds (j * sep.length) (sep.intercalate ss) (sep.intercalate us) := by
  have hs := sum_add_le_of_sublist sep.length h
  rw [hj, Nat.add_mul] at hs
  cases us with
  | nil => exact absurd rfl hn
  | cons u us =>
    cases ss with
    | nil => cases h
    | cons s ss =>
      rw [← length_intercalate, ← length_intercalate] at hs
      rw [Exceeds]
      omega

namespace Matching

open StatementRule

variable {g : Generator ρ} {g' : Generator σ} {b : Block ρ} {b' : Block σ} {is js : List Nat}

theorem filter_branchIndices (hi : branchIndices b = .ok is) (hj : branchIndices b' = .ok js)
    (hs : js ⊆ is) : is.filter (js.contains ·) = js :=
  ((pairwise_branchIndices hi).filter _).eq_of_mem_iff (pairwise_branchIndices hj) fun i => by
    simpa using @hs i

theorem length_lt_of_ne (hi : branchIndices b = .ok is) (hj : branchIndices b' = .ok js)
    (hs : js ⊆ is) (hne : is ≠ js) : js.length < is.length := by
  have hsub : js.Sublist is := filter_branchIndices hi hj hs ▸ List.filter_sublist
  refine Nat.lt_of_le_of_ne hsub.length_le fun hl => hne ?_
  exact (hsub.eq_of_length hl).symm

theorem settles_sequence_none (g : Generator ρ) : (g.sequence none).Settles "" := fun _ => rfl

theorem settles_branch (g : Generator ρ) {i : Nat} (hv : b.value? ("IF" ++ decimalText i) = none)
    (hh : b.head? ("DO" ++ decimalText i) = none) : ∃ u, (branch g b i).Settles u := by
  rw [branch, hv, hh]
  exact ⟨_, (Generator.settles_value_none _ _).bind ((settles_sequence_none g).bind (.pure _))⟩

theorem Generators.moreBranches (h : m.Generators g g') (hb : m.Blocks b b')
    (hi : branchIndices b = .ok is) (hj : branchIndices b' = .ok js) (hs : js ⊆ is)
    (hv : ∀ i, i ∉ js → b.value? ("IF" ++ decimalText i) = none)
    (hh : ∀ i, i ∉ js → b.head? ("DO" ++ decimalText i) = none) :
    m.Runs (Exceeds (is.length - js.length)) (StatementRule.branchesOf g b is)
      (StatementRule.branchesOf g' b' js) := by
  have hf := filter_branchIndices hi hj hs
  have hm : m.Runs _ (is.mapM (StatementRule.branch g b))
      ((is.filter (js.contains ·)).mapM (StatementRule.branch g' b')) :=
    .mapM_filter (fun i _ _ => h.branch hb i) fun i _ hn => by
      have hn : i ∉ js := by simpa using hn
      exact settles_branch g (hv i hn) (hh i hn)
  rw [hf] at hm
  refine hm.bind ?_
  rintro us vs ⟨hsub, hus, hvs⟩
  have hle : js.length ≤ is.length := by
    have := hsub.length_le
    omega
  have hne : vs ≠ [] := by
    rintro rfl
    cases List.length_eq_zero_iff.1 hvs.symm
    cases zero_mem_branchIndices hj
  have hcode : Exceeds (is.length - js.length) (" else ".intercalate us)
      (" else ".intercalate vs) := by
    have he := exceeds_intercalate " else " hsub hne (j := us.length - vs.length) (by omega)
    rw [hus, hvs] at he
    have hlen : " else ".length = 6 := rfl
    rw [Exceeds, hlen] at he
    rw [Exceeds]
    omega
  rw [hb.hasElse]
  split
  · exact (h.sequence (hb.head? "ELSE")).bind_eq fun body =>
      .pure (((hcode.append _).append _).append _)
  · exact .pure (hcode.append _)

end Matching
end BlockMachine
