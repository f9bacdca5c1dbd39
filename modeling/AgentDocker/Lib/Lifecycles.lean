import Mathlib.Data.List.Induction

/-!
# Logs in which things begin and end

A program that announces what it does leaves a log. Among the things its events
are about, some begin with one event and end with another: a thing is *open*
after a log that began it and did not end it. A log is *legal* when nothing in
it begins twice and nothing ends that is not open, so that of every thing there
is at most one beginning and at most one end, in that order.

`Tracks live` says that a program's own idea of what is open agrees with its
log. The rules say how both move together: an event about neither, a beginning,
an end, and a list of ends.
-/

namespace AgentDocker.Lib

/-- What the events of a log say of the things they are about. -/
structure Vocabulary (ε κ : Type) where
  opens : ε → κ → Bool
  ends : ε → κ → Bool

namespace Vocabulary

variable {ε κ : Type} (v : Vocabulary ε κ)

/-- Begun in the log, and not ended. -/
def Open (log : List ε) (k : κ) : Prop :=
  (∃ e ∈ log, v.opens e k = true) ∧ ∀ e ∈ log, v.ends e k = false

/-- An event that may come after a log. -/
structure Fits (log : List ε) (e : ε) : Prop where
  opens : ∀ k, v.opens e k = true → ∀ d ∈ log, v.opens d k = false
  ends : ∀ k, v.ends e k = true → v.Open log k

/-- Every event fits what came before it. -/
def Legal (log : List ε) : Prop :=
  ∀ before e after, log = before ++ e :: after → v.Fits before e

/-- A legal log, and what is open after it. -/
structure Tracks (live : κ → Prop) (log : List ε) : Prop where
  legal : v.Legal log
  live_iff : ∀ k, live k ↔ v.Open log k

variable {v} {log : List ε} {e : ε} {k : κ} {live : κ → Prop}

theorem legal_nil : v.Legal [] := by
  intro before e after h
  simp at h

theorem legal_append_singleton : v.Legal (log ++ [e]) ↔ v.Legal log ∧ v.Fits log e := by
  constructor
  · intro h
    refine ⟨fun before d after heq => ?_, h log e [] rfl⟩
    exact h before d (after ++ [e]) (by simp [heq])
  · rintro ⟨hlegal, hfits⟩ before d after heq
    -- the event is the new one, or one of the old ones
    rcases List.eq_nil_or_concat after with rfl | ⟨rest, last, rfl⟩
    · obtain ⟨rfl, hde⟩ := List.append_inj' heq rfl
      cases hde
      exact hfits
    · have hsplit : log ++ [e] = (before ++ d :: rest) ++ [last] := by simpa using heq
      exact hlegal before d rest (List.append_inj' hsplit rfl).1

theorem open_append_singleton : v.Open (log ++ [e]) k ↔
      ((∃ d ∈ log, v.opens d k = true) ∨ v.opens e k = true) ∧
        (∀ d ∈ log, v.ends d k = false) ∧ v.ends e k = false := by
  simp [Open, or_imp, forall_and, or_and_right, exists_or]

/-- What ends was open. -/
theorem Legal.open_of_ends (h : v.Legal (log ++ [e])) (he : v.ends e k = true) : v.Open log k :=
  (legal_append_singleton.mp h).2.ends k he

/-- Nothing ends twice. -/
theorem Legal.countP_ends_le_one (h : v.Legal log) : log.countP (v.ends · k) ≤ 1 := by
  induction log using List.reverseRecOn with
  | nil => simp
  | append_singleton rest _ ih =>
    obtain ⟨hrest, hfits⟩ := legal_append_singleton.mp h
    rw [List.countP_append, List.countP_singleton]
    split
    · next he =>
      have hnone : rest.countP (v.ends · k) = 0 :=
        List.countP_eq_zero.mpr fun d hd => by simp [(hfits.ends k he).2 d hd]
      omega
    · exact ih hrest

namespace Tracks

section

variable (h : v.Tracks live log)
include h

theorem congr {live' : κ → Prop} (hl : ∀ k, live k ↔ live' k) : v.Tracks live' log :=
  ⟨h.legal, fun k => (hl k).symm.trans (h.live_iff k)⟩

/-- An event that begins and ends nothing. -/
theorem say (ho : ∀ k, v.opens e k = false)
    (he : ∀ k, v.ends e k = false) : v.Tracks live (log ++ [e]) where
  legal := legal_append_singleton.mpr
    ⟨h.legal, fun k hk => by simp [ho] at hk, fun k hk => by simp [he] at hk⟩
  live_iff k := by
    rw [h.live_iff, open_append_singleton]
    simp [ho, he, Open]

theorem sayAll {said : List ε} (hq : ∀ e ∈ said, ∀ k, v.opens e k = false ∧ v.ends e k = false) :
    v.Tracks live (log ++ said) := by
  induction said generalizing log with
  | nil => simpa using h
  | cons e _ ih =>
    have he := hq e List.mem_cons_self
    have hfirst := h.say (fun k => (he k).1) (fun k => (he k).2)
    simpa using ih hfirst fun d hd => hq d (List.mem_cons_of_mem _ hd)

/-- A beginning of something that never began. -/
theorem begins (hnew : ∀ d ∈ log, v.opens d k = false)
    (ho : ∀ k', v.opens e k' = true ↔ k' = k) (he : ∀ k', v.ends e k' = false) :
    v.Tracks (fun k' => live k' ∨ k' = k) (log ++ [e]) where
  legal := by
    refine legal_append_singleton.mpr ⟨h.legal, fun k' hk' => ?_, fun k' hk' => ?_⟩
    · rw [(ho k').mp hk']
      exact hnew
    · simp [he] at hk'
  live_iff k' := by
    -- nothing ended it either, since what ends was open
    have hfresh : k' = k → ∀ d ∈ log, v.ends d k' = false := by
      rintro rfl d hd
      by_contra hends
      obtain ⟨before, after, rfl⟩ := List.append_of_mem hd
      obtain ⟨⟨o, ho', hopens⟩, -⟩ := (h.legal before d after rfl).ends k' (by simpa using hends)
      simp [hnew o (List.mem_append_left _ ho')] at hopens
    rw [open_append_singleton, h.live_iff, ho k', he k']
    constructor
    · rintro (hopen | rfl)
      · exact ⟨.inl hopen.1, hopen.2, rfl⟩
      · exact ⟨.inr rfl, hfresh rfl, rfl⟩
    · rintro ⟨hopens | rfl, hends, -⟩
      · exact .inl ⟨hopens, hends⟩
      · exact .inr rfl

/-- An end of something open. -/
theorem finishes (hlive : live k) (ho : ∀ k', v.opens e k' = false)
    (he : ∀ k', v.ends e k' = true ↔ k' = k) :
    v.Tracks (fun k' => live k' ∧ k' ≠ k) (log ++ [e]) where
  legal := by
    refine legal_append_singleton.mpr ⟨h.legal, fun k' hk' => ?_, fun k' hk' => ?_⟩
    · simp [ho] at hk'
    · rw [(he k').mp hk']
      exact (h.live_iff k).mp hlive
  live_iff k' := by
    have hne : v.ends e k' = false ↔ k' ≠ k := by rw [ne_eq, ← he k', Bool.not_eq_true]
    rw [open_append_singleton, h.live_iff, ho k', hne]
    simp [Open, and_assoc]

end

/-- The ends of a list of things, all open and none named twice. -/
theorem finishesAll {f : κ → ε} (ho : ∀ k k', v.opens (f k) k' = false)
    (he : ∀ k k', v.ends (f k) k' = true ↔ k' = k) {l : List κ} (hnodup : l.Nodup)
    (h : v.Tracks live log) (hlive : ∀ k ∈ l, live k) :
    v.Tracks (fun k => live k ∧ k ∉ l) (log ++ l.map f) := by
  induction l generalizing log live with
  | nil => simpa using h
  | cons k _ ih =>
    rw [List.nodup_cons] at hnodup
    have hfirst := h.finishes (hlive k List.mem_cons_self) (ho k) (he k)
    have hrest := ih hnodup.2 hfirst fun k' hk' =>
      ⟨hlive k' (List.mem_cons_of_mem _ hk'), fun heq => hnodup.1 (heq ▸ hk')⟩
    rw [List.append_assoc, List.singleton_append] at hrest
    exact hrest.congr fun k' => by simp [and_assoc]

end Tracks

end Vocabulary

end AgentDocker.Lib
