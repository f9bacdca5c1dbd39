import Mathlib.Data.Fintype.Order

/-!
# Rings in a relation

A ring is a way back to where it started. What a program that keeps a relation
free of rings needs to know is how one comes to be: adding edges at a single
vertex makes a ring only through that vertex, and a ring over two kinds of
edges either keeps to the first kind or takes one of the second.

On finitely many points, being free of rings is the same as having no stuck
set: a nonempty set in which everybody has somebody of the set in the way.
-/

namespace AgentDocker.Lib

open Relation

variable {α : Type} {r r' : α → α → Prop}

/-- No point leads back to itself. -/
def Acyclic (r : α → α → Prop) : Prop := ∀ a, ¬ TransGen r a a

theorem Acyclic.mono (h : Acyclic r) (hle : ∀ a b, r' a b → r a b) : Acyclic r' :=
  fun a ha => h a (TransGen.mono hle _ _ ha)

/-- A way through edges that are old or touch `x` is old, or passes `x`. -/
theorem transGen_old_or_through {x : α} (hle : ∀ a b, r' a b → r a b ∨ a = x ∨ b = x)
    {a b : α} (h : TransGen r' a b) :
    TransGen r a b ∨ (ReflTransGen r' a x ∧ ReflTransGen r' x b) := by
  induction h with
  | single hab =>
    rcases hle _ _ hab with hr | rfl | rfl
    · exact .inl (.single hr)
    · exact .inr ⟨.refl, .single hab⟩
    · exact .inr ⟨.single hab, .refl⟩
  | tail hpath hbc ih =>
    rcases ih with hold | ⟨hax, hxb⟩
    · rcases hle _ _ hbc with hr | rfl | rfl
      · exact .inl (hold.tail hr)
      · exact .inr ⟨hpath.to_reflTransGen, .single hbc⟩
      · exact .inr ⟨(hpath.tail hbc).to_reflTransGen, .refl⟩
    · exact .inr ⟨hax, hxb.tail hbc⟩

/-- Edges added at one vertex close a ring only through that vertex. -/
theorem Acyclic.add_vertex (h : Acyclic r) {x : α}
    (hle : ∀ a b, r' a b → r a b ∨ a = x ∨ b = x) (hx : ¬ TransGen r' x x) :
    Acyclic r' := by
  intro a ha
  rcases transGen_old_or_through hle ha with hold | ⟨hax, hxa⟩
  · exact h a hold
  · rcases (reflTransGen_iff_eq_or_transGen.mp hax) with heq | hax
    · rw [heq] at hx
      exact hx ha
    · exact hx (TransGen.trans_right hxa hax)

/-- A way over two kinds of edges keeps to the first kind or takes an edge of
the second. -/
theorem transGen_or {l q : α → α → Prop} {a b : α} (h : TransGen (fun a b => l a b ∨ q a b) a b) :
    TransGen l a b ∨ ∃ c d, ReflTransGen (fun a b => l a b ∨ q a b) a c ∧ q c d ∧
      ReflTransGen (fun a b => l a b ∨ q a b) d b := by
  induction h with
  | single hab =>
    rcases hab with hl | hq
    · exact .inl (.single hl)
    · exact .inr ⟨_, _, .refl, hq, .refl⟩
  | tail hpath hbc ih =>
    rcases ih with hl | ⟨c, d, hac, hq, hdb⟩
    · rcases hbc with hl' | hq
      · exact .inl (hl.tail hl')
      · exact .inr ⟨_, _, hpath.to_reflTransGen, hq, .refl⟩
    · exact .inr ⟨c, d, hac, hq, hdb.tail hbc⟩

/-! ## Stuck sets -/

/-- A nonempty set in which everybody is held up by somebody in it. -/
def Stuck (r : α → α → Prop) (S : Set α) : Prop :=
  S.Nonempty ∧ ∀ a ∈ S, ∃ b ∈ S, r a b

/-- The relation between the points of a set. -/
def within (D : Set α) (r : α → α → Prop) (a b : α) : Prop :=
  a ∈ D ∧ b ∈ D ∧ r a b

/-- Without rings, no set of finitely many points is stuck. -/
theorem Acyclic.not_stuck {D : Set α} (hD : D.Finite) (h : Acyclic (within D r))
    {S : Set α} (hS : S ⊆ D) : ¬ Stuck r S := by
  rintro ⟨⟨a, ha⟩, hnext⟩
  -- Finitely many points and no rings: following edges is well founded, and a
  -- last point of `S` contradicts `hnext`.
  have : Finite D := hD
  let below : D → D → Prop := fun b a => TransGen (within D r) a b
  have hirr : Std.Irrefl below := ⟨fun a => h a⟩
  have hwf : WellFounded below := Finite.wellFounded_of_trans_of_irrefl below
  obtain ⟨m, hm, hmin⟩ := hwf.has_min {d : D | (d : α) ∈ S} ⟨⟨a, hS ha⟩, ha⟩
  obtain ⟨b, hb, hmb⟩ := hnext m hm
  exact hmin ⟨b, hS hb⟩ hb (.single ⟨m.2, hS hb, hmb⟩)

end AgentDocker.Lib
