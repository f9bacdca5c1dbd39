/-!
# Computations that may fail

A sequence of fallible steps succeeds when each step does in turn.
-/

namespace AgentDocker.Lib

variable {ε α β : Type}

theorem bind_eq_ok {x : Except ε α} {f : α → Except ε β} {b : β} :
    (x >>= f) = .ok b ↔ ∃ a, x = .ok a ∧ f a = .ok b := by
  cases x <;> simp [bind, Except.bind]

theorem pure_eq_ok {a b : α} : (pure a : Except ε α) = .ok b ↔ a = b := by
  simp [pure, Except.pure]

/-- Refused with `e` unless the test is passed. -/
def require (passed : Bool) (e : ε) : Except ε Unit := if passed then .ok () else .error e

@[simp] theorem require_ok {passed : Bool} {e : ε} {u : Unit} :
    require passed e = .ok u ↔ passed = true := by
  cases passed <;> simp [require]

theorem require_bind_ok {passed : Bool} {e : ε} {f : Unit → Except ε β} {b : β} :
    (require passed e >>= f) = .ok b ↔ passed = true ∧ f () = .ok b := by
  cases passed <;> simp [require, bind, Except.bind]

/-- What is there, refused with `e` when nothing is. -/
def okOr (found : Option α) (e : ε) : Except ε α := found.elim (.error e) .ok

@[simp] theorem okOr_ok {found : Option α} {e : ε} {a : α} :
    okOr found e = .ok a ↔ found = some a := by
  cases found <;> simp [okOr]

/-- The computation gives `v` when `p` holds, and is refused with `e` when not. -/
def Checked (e : ε) (p : Prop) (v : α) (x : Except ε α) : Prop :=
  (p → x = .ok v) ∧ (¬ p → x = .error e)

section Checked

variable {e : ε} {p q : Prop} {v : α} {w : β} {x : Except ε α}

theorem Checked.bind {f : α → Except ε β} (hx : Checked e p v x)
    (hf : p → Checked e q w (f v)) : Checked e (p ∧ q) w (x >>= f) := by
  constructor
  · rintro ⟨hp, hq⟩
    rw [hx.1 hp]
    exact (hf hp).1 hq
  · intro h
    by_cases hp : p
    · rw [hx.1 hp]
      exact (hf hp).2 fun hq => h ⟨hp, hq⟩
    · rw [hx.2 hp]
      rfl

theorem Checked.map {f : α → β} (hx : Checked e p v x) :
    Checked e p (f v) (x >>= fun a => pure (f a)) := by
  constructor
  · intro hp
    rw [hx.1 hp]
    rfl
  · intro hp
    rw [hx.2 hp]
    rfl

/-- What is not refused at all. -/
theorem Checked.of_ok (e : ε) (hp : p) : Checked e p v (.ok v) :=
  ⟨fun _ => rfl, fun h => (h hp).elim⟩

theorem Checked.congr (h : Checked e p v x) (hiff : q ↔ p) : Checked e q v x :=
  ⟨fun hq => h.1 (hiff.mp hq), fun hq => h.2 fun hp => hq (hiff.mpr hp)⟩

theorem Checked.unique {y : Except ε α} (hx : Checked e p v x) (hy : Checked e p v y) : x = y := by
  by_cases hp : p
  · rw [hx.1 hp, hy.1 hp]
  · rw [hx.2 hp, hy.2 hp]

theorem Checked.ok_iff {r : α} (h : Checked e p v x) : x = .ok r ↔ p ∧ v = r := by
  by_cases hp : p
  · simp [h.1 hp, hp]
  · simp [h.2 hp, hp]

end Checked

end AgentDocker.Lib
