import Mathlib.Logic.Relation

namespace OopsOS
set_option autoImplicit true

open Relation

variable {α : Type} {r r' : α → α → Prop} {a b c : α}

def Acyclic (r : α → α → Prop) : Prop := ∀ a, ¬ TransGen r a a

theorem exists_next (h : TransGen r a a) : ∃ b, r a b ∧ TransGen r b b := by
  obtain ⟨b, hab, hba⟩ := TransGen.head'_iff.1 h
  exact ⟨b, hab, TransGen.tail' hba hab⟩

theorem Acyclic.of_ends (h : Acyclic r) (hnew : ∀ a b, r' a b → r a b ∨ ∀ c, ¬ r' b c) :
    Acyclic r' := by
  have hold {a b c} (hab : r' a b) (hbc : r' b c) : r a b :=
    (hnew a b hab).resolve_right fun hend => hend c hbc
  intro a ha
  have hpath {b} (hb : TransGen r' a b) : (∃ c, r' b c) → TransGen r a b := by
    induction hb with
    | single hab =>
      intro ⟨c, hc⟩
      exact .single (hold hab hc)
    | tail _ hbc ih =>
      intro ⟨c, hc⟩
      exact (ih ⟨_, hbc⟩).tail (hold hbc hc)
  obtain ⟨b, hab, -⟩ := exists_next ha
  exact h a (hpath ha ⟨b, hab⟩)

theorem Acyclic.mono (h : Acyclic r) (hsub : ∀ a b, r' a b → r a b) : Acyclic r' :=
  h.of_ends fun a b hab => .inl (hsub a b hab)

theorem acyclic_of_rank {f : α → Nat} (h : ∀ a b, r a b → f a < f b) : Acyclic r := by
  have hpath {a b} (hab : TransGen r a b) : f a < f b := by
    induction hab with
    | single hab => exact h _ _ hab
    | tail _ hbc ih => exact Nat.lt_trans ih (h _ _ hbc)
  exact fun a ha => Nat.lt_irrefl _ (hpath ha)

/-- A cycle of waiters and the things they wait for can be read from either. -/
theorem Acyclic.comp_swap {β : Type} {p : α → β → Prop} {q : β → α → Prop}
    (h : Acyclic (Relation.Comp p q)) : Acyclic (Relation.Comp q p) := by
  have hpath {x c a} (hx : p x c) (hca : ReflTransGen (Relation.Comp q p) c a) :
      ∀ b, q a b → TransGen (Relation.Comp p q) x b := by
    induction hca with
    | refl => exact fun b hb => .single ⟨c, hx, hb⟩
    | tail _ hlast ih =>
      obtain ⟨y, hy, hyz⟩ := hlast
      exact fun b hb => (ih y hy).tail ⟨_, hyz, hb⟩
  intro a ha
  obtain ⟨c, ⟨x, hax, hxc⟩, hca⟩ := TransGen.head'_iff.1 ha
  exact h x (hpath hxc hca x hax)

theorem Acyclic.edge_iff (h : Acyclic r)
    (hnew : ∀ x y, r' x y ↔ r x y ∨ x = a ∧ o = some y) :
    Acyclic r' ↔ ∀ b, o = some b → ¬ ReflTransGen r b a := by
  constructor
  · intro h' b hb hba
    have hpath : ReflTransGen r' b a :=
      ReflTransGen.mono (fun x y hxy => (hnew x y).2 (.inl hxy)) b a hba
    exact h' a (.head' ((hnew a b).2 (.inr ⟨rfl, hb⟩)) hpath)
  · intro hno x hx
    have hpath {y} (hy : TransGen r' x y) :
        TransGen r x y ∨ ReflTransGen r x a ∧ ∃ b, o = some b ∧ ReflTransGen r b y := by
      induction hy with
      | single hxy =>
        obtain hxy | ⟨rfl, hb⟩ := (hnew _ _).1 hxy
        · exact .inl (.single hxy)
        · exact .inr ⟨.refl, _, hb, .refl⟩
      | tail _ hyz ih =>
        obtain hyz | ⟨rfl, hz⟩ := (hnew _ _).1 hyz
        · exact ih.imp (·.tail hyz) fun ⟨hxa, b, hb, hby⟩ => ⟨hxa, b, hb, hby.tail hyz⟩
        · obtain hxa | ⟨-, b, hb, hba⟩ := ih
          · exact .inr ⟨hxa.to_reflTransGen, _, hz, .refl⟩
          · exact absurd hba (hno b hb)
    obtain hx' | ⟨hxa, b, hb, hbx⟩ := hpath hx
    · exact h x hx'
    · exact hno b hb (hbx.trans hxa)

end OopsOS
