import Mathlib.Data.List.Sort

/-!
# The latest of each key

A log holds many entries under one key and only the latest of each still
counts. `latest` walks a log once and keeps, in an ordered map, the greatest
entry of every key; `maxByKey` picks the greatest entry of a list. An entry is
later than another when its rank is greater.

A map is walked in the order of its keys, and of two entries that tie the walk
would pick the last. Where no two entries share a rank neither shows: the
answers are then functions of what the log holds, whatever its order.
-/

namespace AgentDocker.Lib

variable {α κ ρ : Type} [LinearOrder ρ]

section

variable (key : α → κ) (before : κ → κ → Bool) (rank : α → ρ)

/-- One entry put into the map: it takes the place of an earlier one under its
key; a new key goes where `before` says. -/
def putLatest [DecidableEq κ] (kept : List α) (a : α) : List α :=
  if kept.any fun b => decide (key b = key a) then
    kept.map fun b => if key b = key a ∧ rank b < rank a then a else b
  else
    kept.orderedInsert (fun a b => before (key a) (key b) = true) a

/-- The greatest entry of every key. -/
def latest [DecidableEq κ] (log : List α) : List α :=
  log.foldl (putLatest key before rank) []

end

/-- The greatest entry of a list, the last of those that tie. -/
def maxByKey (rank : α → ρ) : List α → Option α
  | [] => none
  | a :: rest =>
    match maxByKey rank rest with
    | none => some a
    | some b => if rank b < rank a then some a else some b

/-- An entry of the log that none under its key is later than. -/
structure IsLatest (key : α → κ) (rank : α → ρ) (log : List α) (a : α) : Prop where
  mem : a ∈ log
  le : ∀ b ∈ log, key b = key a → rank b ≤ rank a

/-- No two entries of the log share a rank. -/
def Ranked (rank : α → ρ) (log : List α) : Prop :=
  ∀ a ∈ log, ∀ b ∈ log, rank a = rank b → a = b

variable {key : α → κ} {before : κ → κ → Bool} {rank : α → ρ}

variable {entries kept log : List α} {a : α}

omit [LinearOrder ρ] in
theorem Ranked.subset {some : List α} (h : Ranked rank log) (hsub : some ⊆ log) :
    Ranked rank some :=
  fun a ha b hb => h a (hsub ha) b (hsub hb)

/-! ## The greatest of a list -/

theorem maxByKey_eq_none : maxByKey rank entries = none ↔ entries = [] := by
  cases entries with
  | nil => simp [maxByKey]
  | cons =>
    simp only [maxByKey, reduceCtorEq, iff_false]
    split
    · simp
    · split <;> simp

theorem maxByKey_spec (h : maxByKey rank entries = some a) :
    a ∈ entries ∧ ∀ b ∈ entries, rank b ≤ rank a := by
  induction entries generalizing a with
  | nil => simp [maxByKey] at h
  | cons c _ ih =>
    simp only [maxByKey] at h
    split at h
    · next hnone =>
      rw [maxByKey_eq_none.mp hnone]
      simp_all
    next b hb =>
    obtain ⟨hmem, hle⟩ := ih hb
    split at h
    · next hlt =>
      obtain rfl : c = a := by simpa using h
      refine ⟨by simp, fun d hd => ?_⟩
      rcases List.mem_cons.mp hd with rfl | hd
      · exact le_rfl
      · exact (hle d hd).trans hlt.le
    next hge =>
    obtain rfl : b = a := by simpa using h
    refine ⟨by simp [hmem], fun d hd => ?_⟩
    rcases List.mem_cons.mp hd with rfl | hd
    · exact not_lt.mp hge
    · exact hle d hd

theorem maxByKey_eq_some (hrank : Ranked rank entries) :
    maxByKey rank entries = some a ↔ a ∈ entries ∧ ∀ b ∈ entries, rank b ≤ rank a := by
  constructor
  · exact maxByKey_spec
  · rintro ⟨ha, hle⟩
    cases hmax : maxByKey rank entries with
    | none => simp [maxByKey_eq_none.mp hmax] at ha
    | some b =>
      obtain ⟨hb, hbest⟩ := maxByKey_spec hmax
      rw [hrank a ha b hb (le_antisymm (hbest a ha) (hle b hb))]

/-- Where no two entries tie, the greatest depends only on what is there. -/
theorem maxByKey_congr {others : List α} (hrank : Ranked rank entries)
    (h : ∀ a, a ∈ entries ↔ a ∈ others) : maxByKey rank entries = maxByKey rank others := by
  have hothers : Ranked rank others := hrank.subset fun a ha => (h a).mpr ha
  refine Option.ext fun a => ?_
  rw [maxByKey_eq_some hrank, maxByKey_eq_some hothers, h a]
  simp only [h]

/-! ## The map -/

/-- What the map holds of a log: of each key an entry, and only latest ones. -/
structure Held (key : α → κ) (rank : α → ρ) (log kept : List α) : Prop where
  sound : ∀ a ∈ kept, IsLatest key rank log a
  complete : ∀ a ∈ log, ∃ b ∈ kept, key b = key a

theorem IsLatest.append {x : α} (h : IsLatest key rank log x)
    (ha : key a = key x → rank a ≤ rank x) : IsLatest key rank (log ++ [a]) x := by
  refine ⟨List.mem_append_left _ h.mem, fun b hb hkey => ?_⟩
  rcases List.mem_append.mp hb with hb | hb
  · exact h.le b hb hkey
  · rw [List.mem_singleton.mp hb] at hkey ⊢
    exact ha hkey

theorem isLatest_last (h : ∀ b ∈ log, key b = key a → rank b ≤ rank a) :
    IsLatest key rank (log ++ [a]) a := by
  refine ⟨by simp, fun b hb hkey => ?_⟩
  rcases List.mem_append.mp hb with hb | hb
  · exact h b hb hkey
  · rw [List.mem_singleton.mp hb]

/-- An entry under a new key. -/
theorem Held.insert {r : α → α → Prop} [DecidableRel r] (h : Held key rank log kept)
    (hnew : ∀ b ∈ kept, key b ≠ key a) :
    Held key rank (log ++ [a]) (kept.orderedInsert r a) := by
  refine ⟨fun x hx => ?_, fun x hx => ?_⟩
  · rcases (List.mem_orderedInsert r).mp hx with rfl | hx
    · refine isLatest_last fun c hc hkey => ?_
      obtain ⟨b, hb, hbc⟩ := h.complete c hc
      exact absurd (hbc.trans hkey) (hnew b hb)
    · exact (h.sound x hx).append fun hkey => absurd hkey.symm (hnew x hx)
  · rcases List.mem_append.mp hx with hx | hx
    · obtain ⟨b, hb, hbx⟩ := h.complete x hx
      exact ⟨b, (List.mem_orderedInsert r).mpr (.inr hb), hbx⟩
    · exact ⟨a, (List.mem_orderedInsert r).mpr (.inl rfl), by rw [List.mem_singleton.mp hx]⟩

variable [DecidableEq κ]

/-- An entry whose key is in the map. -/
theorem Held.replace {b : α} (h : Held key rank log kept) (hb : b ∈ kept) (hkey : key b = key a) :
    Held key rank (log ++ [a])
      (kept.map fun b => if key b = key a ∧ rank b < rank a then a else b) := by
  refine ⟨fun x hx => ?_, fun x hx => ?_⟩
  · obtain ⟨c, hc, rfl⟩ := List.mem_map.mp hx
    have hlatest := h.sound c hc
    split
    · next hlt =>
      exact isLatest_last fun d hd hda =>
        (hlatest.le d hd (hda.trans hlt.1.symm)).trans hlt.2.le
    next hge =>
    exact hlatest.append fun hac => not_lt.mp fun hlt => hge ⟨hac.symm, hlt⟩
  · have hfound : ∃ c ∈ kept, key c = key x := by
      rcases List.mem_append.mp hx with hx | hx
      · exact h.complete x hx
      · exact ⟨b, hb, by rw [hkey, List.mem_singleton.mp hx]⟩
    obtain ⟨_, hc, hcx⟩ := hfound
    refine ⟨_, List.mem_map_of_mem hc, ?_⟩
    split
    · next hlt => rw [← hlt.1, hcx]
    · exact hcx

theorem Held.put (h : Held key rank log kept) :
    Held key rank (log ++ [a]) (putLatest key before rank kept a) := by
  by_cases hany : kept.any (fun b => decide (key b = key a)) = true
  · rw [putLatest, if_pos hany]
    obtain ⟨b, hb, hkey⟩ : ∃ b ∈ kept, key b = key a := by simpa using hany
    exact h.replace hb hkey
  · rw [putLatest, if_neg hany]
    exact h.insert fun b hb hkey => hany (by simpa using ⟨b, hb, hkey⟩)

theorem held_latest : Held key rank log (latest key before rank log) := by
  -- The fold's state after a part of the log holds that part.
  suffices h : ∀ rest done kept, Held key rank done kept →
      Held key rank (done ++ rest) (rest.foldl (putLatest key before rank) kept) from
    h log [] [] ⟨by simp, by simp⟩
  intro rest
  induction rest with
  | nil => intro done kept h; simpa using h
  | cons a _ ih =>
    intro done kept h
    simpa using ih (done ++ [a]) _ h.put

/-- The map's entries are the latest ones. -/
theorem mem_latest (hrank : Ranked rank log) :
    a ∈ latest key before rank log ↔ IsLatest key rank log a := by
  have hheld : Held key rank log (latest key before rank log) := held_latest
  constructor
  · exact hheld.sound a
  · intro ha
    obtain ⟨b, hb, hkey⟩ := hheld.complete a ha.mem
    have hlatest := hheld.sound b hb
    have heq : rank a = rank b :=
      le_antisymm (hlatest.le a ha.mem hkey.symm) (ha.le b hlatest.mem hkey)
    rwa [hrank a ha.mem b hlatest.mem heq]

/-- Every entry is at most the latest one of its key. -/
theorem exists_isLatest (key : α → κ) (rank : α → ρ) (ha : a ∈ log) :
    ∃ b, IsLatest key rank log b ∧ key b = key a ∧ rank a ≤ rank b := by
  have hheld : Held key rank log (latest key (fun _ _ => true) rank log) := held_latest
  obtain ⟨b, hb, hkey⟩ := hheld.complete a ha
  exact ⟨b, hheld.sound b hb, hkey, (hheld.sound b hb).le a ha hkey.symm⟩

end AgentDocker.Lib
