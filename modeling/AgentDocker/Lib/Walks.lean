import AgentDocker.Lib.Rings

/-!
# Walks over a graph

`walkTo` looks for a node from a stack of others, as loops over a mutable stack
do: it enters a node once, and once it has entered more than `bound` it enters
none further, whatever is still to see. Finding the goal is always right; not
finding it is right when the graph has no more nodes than the walk may enter.

A walk that looks for a node from where its new edges lead tells whether they close
a ring.
-/

namespace AgentDocker.Lib

variable {α : Type}

/-- The nodes one edge away. -/
def Edge (succ : α → List α) (a b : α) : Prop := b ∈ succ a

/-! ## The walk -/

section

variable [DecidableEq α]

def walkTo (succ : α → List α) (goal : α) (bound : Nat) (stack seen : List α) : Bool :=
  match stack with
  | [] => false
  | a :: rest =>
    if a = goal then true
    else if bound < seen.length ∨ a ∈ seen then walkTo succ goal bound rest seen
    else walkTo succ goal bound ((succ a).reverse ++ rest) (a :: seen)
termination_by (bound + 1 - seen.length, stack.length)

variable {succ : α → List α} {goal : α} {bound : Nat}

/-- A goal found is a goal some node of the stack leads to. -/
theorem reaches_of_walkTo {stack seen : List α} (h : walkTo succ goal bound stack seen = true) :
    ∃ a ∈ stack, Relation.ReflTransGen (Edge succ) a goal := by
  induction stack, seen using walkTo.induct succ goal bound with
  | case1 => simp [walkTo] at h
  | case2 => exact ⟨goal, List.mem_cons_self, .refl⟩
  | case3 _ _ _ ha hskip ih =>
    rw [walkTo, if_neg ha, if_pos hskip] at h
    obtain ⟨b, hb, hpath⟩ := ih h
    exact ⟨b, List.mem_cons_of_mem _ hb, hpath⟩
  | case4 _ a _ ha hskip ih =>
    rw [walkTo, if_neg ha, if_neg hskip] at h
    obtain ⟨b, hb, hpath⟩ := ih h
    rcases List.mem_append.mp hb with hb | hb
    · exact ⟨a, List.mem_cons_self, .head (List.mem_reverse.mp hb) hpath⟩
    · exact ⟨b, List.mem_cons_of_mem _ hb, hpath⟩

/-- What the walk has entered: nodes of the graph, each once, none the goal, and
whatever they lead to is entered or still on the stack. -/
structure Entering (succ : α → List α) (goal : α) (nodes stack seen : List α) : Prop where
  nodup : seen.Nodup
  notGoal : goal ∉ seen
  known : ∀ a ∈ seen, a ∈ nodes
  stacked : ∀ a ∈ stack, a ∈ nodes
  closed : ∀ a ∈ seen, ∀ b ∈ succ a, b ∈ seen ∨ b ∈ stack

/-- A full walk has entered every node but the goal. -/
theorem Entering.mem_of_full {nodes stack seen : List α} (h : Entering succ goal nodes stack seen)
    (hgoal : goal ∈ nodes) (hbound : nodes.toFinset.card ≤ bound + 2) (hfull : bound < seen.length)
    {a : α} (ha : a ∈ nodes) (hne : a ≠ goal) : a ∈ seen := by
  have hsub : (goal :: seen).toFinset ⊆ nodes.toFinset := by
    intro b hb
    rcases List.mem_cons.mp (List.mem_toFinset.mp hb) with rfl | hb
    · exact List.mem_toFinset.mpr hgoal
    · exact List.mem_toFinset.mpr (h.known b hb)
  have hcard : (goal :: seen).toFinset.card = seen.length + 1 :=
    List.toFinset_card_of_nodup (List.nodup_cons.mpr ⟨h.notGoal, h.nodup⟩)
  have heq := Finset.eq_of_subset_of_card_le hsub (by omega)
  have hmem : a ∈ (goal :: seen).toFinset := heq ▸ List.mem_toFinset.mpr ha
  exact (List.mem_cons.mp (List.mem_toFinset.mp hmem)).resolve_left hne

/-- A goal not found is one nothing entered or on the stack leads to, in a graph the
walk can enter whole. -/
theorem not_reaches_of_walkTo {nodes stack seen : List α}
    (hsucc : ∀ a ∈ nodes, ∀ b ∈ succ a, b ∈ nodes) (hgoal : goal ∈ nodes)
    (hbound : nodes.toFinset.card ≤ bound + 2) (hentering : Entering succ goal nodes stack seen)
    (h : walkTo succ goal bound stack seen = false) {a : α} (ha : a ∈ seen ∨ a ∈ stack) :
    ¬ Relation.ReflTransGen (Edge succ) a goal := by
  induction stack, seen using walkTo.induct succ goal bound generalizing a with
  | case1 seen =>
    have hclosed : ∀ b, Relation.ReflTransGen (Edge succ) a b → b ∈ seen := by
      intro b hpath
      induction hpath with
      | refl => simpa using ha
      | tail _ hedge ih => simpa using hentering.closed _ ih _ hedge
    exact fun hpath => hentering.notGoal (hclosed goal hpath)
  | case2 => simp [walkTo] at h
  | case3 seen b rest hb hskip ih =>
    rw [walkTo, if_neg hb, if_pos hskip] at h
    have hmem : b ∈ seen := hskip.elim (fun hfull => hentering.mem_of_full hgoal hbound hfull
      (hentering.stacked b List.mem_cons_self) hb) id
    have hdrop : ∀ c, c ∈ seen ∨ c ∈ b :: rest → c ∈ seen ∨ c ∈ rest := by
      rintro _ (hc | hc)
      · exact .inl hc
      · rcases List.mem_cons.mp hc with rfl | hc
        · exact .inl hmem
        · exact .inr hc
    exact ih { hentering with
      stacked := fun c hc => hentering.stacked c (List.mem_cons_of_mem _ hc)
      closed := fun c hc d hd => hdrop d (hentering.closed c hc d hd) } h (hdrop a ha)
  | case4 seen b rest hb hskip ih =>
    rw [walkTo, if_neg hb, if_neg hskip] at h
    rw [not_or] at hskip
    have hnode := hentering.stacked b List.mem_cons_self
    have hkeep : ∀ c, c ∈ seen ∨ c ∈ b :: rest → c ∈ b :: seen ∨ c ∈ (succ b).reverse ++ rest := by
      rintro _ (hc | hc)
      · exact .inl (List.mem_cons_of_mem _ hc)
      · rcases List.mem_cons.mp hc with rfl | hc
        · exact .inl List.mem_cons_self
        · exact .inr (List.mem_append_right _ hc)
    refine ih ⟨List.nodup_cons.mpr ⟨hskip.2, hentering.nodup⟩, ?_, ?_, ?_, ?_⟩ h (hkeep a ha)
    · exact fun hmem => (List.mem_cons.mp hmem).elim (fun heq => hb heq.symm) hentering.notGoal
    · intro c hc
      rcases List.mem_cons.mp hc with rfl | hc
      · exact hnode
      · exact hentering.known c hc
    · intro c hc
      rcases List.mem_append.mp hc with hc | hc
      · exact hsucc b hnode c (List.mem_reverse.mp hc)
      · exact hentering.stacked c (List.mem_cons_of_mem _ hc)
    · intro c hc d hd
      rcases List.mem_cons.mp hc with rfl | hc
      · exact .inr (List.mem_append_left _ (List.mem_reverse.mpr hd))
      · exact hkeep d (hentering.closed c hc d hd)

end

/-! ## New edges -/

/-- New edges of one node close no ring when none of them leads to it. -/
theorem Acyclic.extend {r r' : α → α → Prop} (h : Acyclic r) {x : α} {edges : List α}
    (hr' : ∀ a b, r' a b → r a b ∨ (a = x ∧ b ∈ edges))
    (hedges : ∀ b ∈ edges, ¬ Relation.ReflTransGen r b x) : Acyclic r' := by
  -- a way over new edges uses the last of them once: what follows cannot reach `x`
  have hways : ∀ a b, Relation.TransGen r' a b → Relation.TransGen r a b ∨
      (Relation.ReflTransGen r a x ∧ ∃ e ∈ edges, Relation.ReflTransGen r e b) := by
    intro a b hab
    induction hab with
    | single hstep =>
      rcases hr' _ _ hstep with hstep | ⟨rfl, hmem⟩
      · exact .inl (.single hstep)
      · exact .inr ⟨.refl, _, hmem, .refl⟩
    | tail _ hstep ih =>
      rcases hr' _ _ hstep with hstep | ⟨rfl, hmem⟩
      · rcases ih with hway | ⟨hto, e, he, hway⟩
        · exact .inl (hway.tail hstep)
        · exact .inr ⟨hto, e, he, hway.tail hstep⟩
      · rcases ih with hway | ⟨-, e, he, hway⟩
        · exact .inr ⟨hway.to_reflTransGen, _, hmem, .refl⟩
        · exact absurd hway (hedges e he)
  intro a hcycle
  rcases hways a a hcycle with hway | ⟨hto, e, he, hway⟩
  · exact h a hway
  · exact hedges e he (hway.trans hto)

end AgentDocker.Lib
