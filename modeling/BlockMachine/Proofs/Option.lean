import BlockMachine.Proofs.Table
import Mathlib.Logic.Basic

namespace BlockMachine

variable {α β γ δ : Type} {R : α → β → Prop} {Q : γ → δ → Prop} {x : Option α} {y : Option β}

theorem rel_same {R : α → α → Prop} (h : ∀ a, R a a) (x : Option α) : Option.Rel R x x := by
  cases x with
  | none => exact .none
  | some a => exact .some (h a)

theorem exists_of_rel_left {b : β} (h : Option.Rel R x y) (hy : y = some b) : ∃ a, x = some a := by
  cases h with
  | none => cases hy
  | some _ => exact ⟨_, rfl⟩

theorem exists_of_rel_right {a : α} (h : Option.Rel R x y) (hx : x = some a) : ∃ b, y = some b := by
  cases h with
  | none => cases hx
  | some _ => exact ⟨_, rfl⟩

theorem rel_bind {f : α → Option γ} {g : β → Option δ} (h : Option.Rel R x y)
    (hf : ∀ a b, R a b → Option.Rel Q (f a) (g b)) :
    Option.Rel Q (x >>= f) (y >>= g) := by
  cases h with
  | none => exact .none
  | some hr => exact hf _ _ hr

theorem rel_join {x : Option (Option α)} {y : Option (Option β)}
    (h : Option.Rel (Option.Rel R) x y) : Option.Rel R x.join y.join := by
  cases h with
  | none => exact .none
  | some h => exact h

theorem rel_of_map {f : α → γ} {g : β → δ} (h : Option.Rel Q (x.map f) (y.map g)) :
    Option.Rel (fun a b => Q (f a) (g b)) x y := by
  cases x with
  | none =>
    cases y with
    | none => exact .none
    | some b => cases h
  | some a =>
    cases y with
    | none => cases h
    | some b =>
      cases h with
      | some h => exact .some h

theorem rel_across {A : α → γ → Prop} {B : β → δ → Prop} {u : Option γ}
    {v : Option δ}
    (h : Option.Rel R x y) (hu : Option.Rel A x u) (hv : Option.Rel B y v)
    (hq : ∀ a b c d, x = some a → y = some b → A a c → B b d → Q c d) : Option.Rel Q u v := by
  cases h with
  | none =>
    cases hu
    cases hv
    exact .none
  | some _ =>
    cases hu with
    | some hu =>
      cases hv with
      | some hv => exact .some (hq _ _ _ _ rfl rfl hu hv)

theorem exists_of_mapM_eq_some {f : α → Option β} {as : List α} {bs : List β}
    (h : as.mapM f = some bs) : ∀ b ∈ bs, ∃ a ∈ as, f a = some b := by
  induction as generalizing bs with
  | nil =>
    cases h
    exact List.forall_mem_nil _
  | cons a as ih =>
    rw [List.mapM_cons] at h
    obtain ⟨b, hb, h⟩ := Option.bind_eq_some_iff.1 h
    obtain ⟨bs, hbs, h⟩ := Option.bind_eq_some_iff.1 h
    cases h
    refine List.forall_mem_cons.2 ⟨⟨a, List.mem_cons_self, hb⟩, fun c hc => ?_⟩
    obtain ⟨a', ha, hf⟩ := ih hbs c hc
    exact ⟨a', List.mem_cons_of_mem _ ha, hf⟩

namespace Table

variable {t : Table α} {u : Table β}

theorem mem_keys_iff_of_rel (h : ∀ key, Option.Rel R (get? t key) (get? u key)) (key : String) :
    key ∈ keys t ↔ key ∈ keys u := by
  have hn : get? t key = none ↔ get? u key = none := by
    have hk := h key
    generalize get? t key = x at hk ⊢
    generalize get? u key = y at hk ⊢
    cases hk <;> simp
  rw [get?_eq_none_iff, get?_eq_none_iff] at hn
  exact not_iff_not.1 hn

theorem perm_keys_of_rel (h : ∀ key, Option.Rel R (get? t key) (get? u key))
    (ht : (keys t).Nodup) (hu : (keys u).Nodup) : (keys t).Perm (keys u) :=
  (List.perm_ext_iff_of_nodup ht hu).2 (mem_keys_iff_of_rel h)

theorem rel_get?_cons {a : α} {b : β} (h : R a b)
    (ht : ∀ key, Option.Rel R (get? t key) (get? u key)) (k key : String) :
    Option.Rel R (get? ((k, a) :: t) key) (get? ((k, b) :: u) key) := by
  rw [get?_cons, get?_cons]
  split
  · exact .some h
  · exact ht key

end Table
end BlockMachine
