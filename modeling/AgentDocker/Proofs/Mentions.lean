import AgentDocker.Core.Mentions

/-!
# What a text mentions, and what the scanner finds

Going on after a name, the scanner has the character before the next `@` in view unless the
`@` is the next character. It finds what is mentioned exactly in the texts in which no `@`
that matters stands there, and nothing less in any.
-/

namespace AgentDocker.Core

variable (u : Alphanumerics)

/-- The name a character mentions, between what is before and what is after it: an `@`
does, where the text starts or behind a character that is of no word, when a name
follows. -/
def mention (before : Option Char) (c : Char) (after : List Char) : List String :=
  if c = '@' ∧ before.all (fun c => !isWord u c) ∧ nameOf u after ≠ [] then
    [String.ofList (nameOf u after)]
  else []

/-- The mentions of a text behind a character, one place after the other. -/
def mentionsBehind (before : Option Char) : List Char → List String
  | [] => []
  | c :: after => mention u before c after ++ mentionsBehind (some c) after

def mentions (text : String) : List String := mentionsBehind u none text.toList

/-- What is before ends in a run of name characters behind an `@`, the last of them a
word's, and what is after begins with a name. -/
def Crowded (before after : List Char) : Prop :=
  (before.rdropWhile (isName u)).getLast? = some '@' ∧ before.getLast?.any (isWord u) ∧
    nameOf u after ≠ []

/-- No name is right behind a name and an `@`, unless that name ends in a dot or a dash. -/
def Spaced (text : List Char) : Prop :=
  ∀ before after, text = before ++ '@' :: after → ¬ Crowded u before after

/-- A text as the scanner takes it apart, from one `@` to the next. -/
inductive Turns : List Char → Prop
  | last {rest} : '@' ∉ rest → Turns rest
  | turn {skip run left} : '@' ∉ skip → (∀ c ∈ run, isName u c) →
      left.head?.all (fun c => !isName u c) → Turns left → Turns (skip ++ '@' :: (run ++ left))

variable {u}

theorem isName_at : isName u '@' = false := by
  rw [isName, u.ascii '@' (by decide)]
  decide

theorem turns (rest : List Char) : Turns u rest := by
  induction hn : rest.length using Nat.strong_induction_on generalizing rest with
  | _ _ ih =>
    by_cases hat : '@' ∈ rest
    · obtain ⟨_, after, rfl, hskip⟩ := List.eq_append_cons_of_mem hat
      have hshort := (List.dropWhile_sublist (isName u) (l := after)).length_le
      have hhead := List.head?_dropWhile_not (isName u) after
      rw [List.length_append, List.length_cons] at hn
      rw [← List.takeWhile_append_dropWhile (p := isName u) (l := after)]
      refine .turn hskip (fun c hc => List.mem_takeWhile_imp hc) ?_ (ih _ (by omega) _ rfl)
      cases hleft : (after.dropWhile (isName u)).head? <;> simp_all
    · exact .last hat

/-- A part without an `@` mentions nobody. -/
theorem mentionsBehind_append {part : List Char} (done rest : List Char) (h : '@' ∉ part) :
    mentionsBehind u done.getLast? (part ++ rest) =
      mentionsBehind u (done ++ part).getLast? rest := by
  induction part generalizing done with
  | nil => rw [List.nil_append, List.append_nil]
  | cons c _ ih =>
    rw [List.mem_cons, not_or] at h
    have hnext := ih (done ++ [c]) h.2
    rw [List.getLast?_concat, List.append_assoc, List.singleton_append] at hnext
    rw [List.cons_append, mentionsBehind, mention, if_neg fun hat => h.1 hat.1.symm,
      List.nil_append, hnext]

section

variable {done skip run left after : List Char}

/-- Where the scanner goes on: from the start, or from behind a name. -/
def Resumes (u : Alphanumerics) (done rest : List Char) : Prop :=
  done = [] ∨ (done.rdropWhile (isName u)).getLast? = some '@' ∧
    rest.head?.all (fun c => !isName u c)

theorem rdropWhile_behind (before : List Char) (hrun : ∀ c ∈ run, isName u c) :
    (before ++ '@' :: run).rdropWhile (isName u) = before ++ ['@'] := by
  rw [List.rdropWhile, List.reverse_append, List.reverse_cons, List.append_assoc,
    List.dropWhile_append_of_pos (by simpa using hrun)]
  simp [isName_at]

variable (hskip : '@' ∉ skip)
include hskip

/-- What is skipped keeps the characters before it out of view of the next `@`. -/
theorem not_crowded_append (hne : skip ≠ [])
    (hdone : Resumes u done (skip ++ '@' :: after)) : ¬ Crowded u (done ++ skip) after := by
  rintro ⟨hlast, -, -⟩
  rw [List.rdropWhile, List.reverse_append, List.dropWhile_append] at hlast
  split at hlast
  · next hall =>
    have hall : ∀ c ∈ skip, isName u c = true := by simpa using hall
    rcases hdone with rfl | ⟨-, hhead⟩
    · simp at hlast
    · obtain ⟨c, _, rfl⟩ := List.exists_cons_of_ne_nil hne
      simp [hall c] at hhead
  · next hsome =>
    rw [List.isEmpty_iff] at hsome
    rw [List.getLast?_reverse, List.head?_append_of_ne_nil _ hsome] at hlast
    refine hskip (List.mem_reverse.mp ((List.dropWhile_sublist (isName u)).subset ?_))
    exact List.mem_of_mem_head? hlast

theorem mention_eq_iff (hdone : Resumes u done (skip ++ '@' :: after)) :
    mention u skip.getLast? '@' after = mention u (done ++ skip).getLast? '@' after ↔
      ¬ Crowded u (done ++ skip) after := by
  by_cases hne : skip = []
  · subst hne
    rcases hdone with rfl | ⟨hlast, -⟩
    · simp [Crowded]
    · rw [List.append_nil, Crowded, and_iff_right hlast]
      cases hbefore : done.getLast? with
      | none => simp
      | some c => cases hword : isWord u c <;> simp [mention, hword]
  · rw [List.getLast?_append_of_ne_nil done hne]
    exact iff_of_true rfl (not_crowded_append hskip hne hdone)

omit hskip in
/-- The scanner finds an `@` where there is a mention, and perhaps where there is none. -/
theorem mention_sublist (u : Alphanumerics) (done skip after : List Char) :
    (mention u (done ++ skip).getLast? '@' after).Sublist (mention u skip.getLast? '@' after) := by
  by_cases hne : skip = []
  · subst hne
    cases hbefore : (done ++ []).getLast? with
    | none => exact List.Sublist.refl _
    | some c => cases hword : isWord u c <;> simp [mention, hword]
  · rw [List.getLast?_append_of_ne_nil done hne]

theorem mentionsFrom_turn {n : Nat} (hrun : ∀ c ∈ run, isName u c)
    (hleft : left.head?.all (fun c => !isName u c)) :
    mentionsFrom u (n + 1) (skip ++ '@' :: (run ++ left)) =
      mention u skip.getLast? '@' (run ++ left) ++ mentionsFrom u n left := by
  have hpass : ∀ c ∈ skip, (c != '@') = true := fun c hc => by
    rw [bne_iff_ne]
    rintro rfl
    exact hskip hc
  have hstop : left.dropWhile (isName u) = left := by
    cases left <;> simp_all
  rw [mentionsFrom, List.dropWhile_append_of_pos hpass, List.takeWhile_append_of_pos hpass]
  simp [List.dropWhile_append_of_pos hrun, hstop, mention]

theorem mentionsBehind_turn (hrun : '@' ∉ run) :
    mentionsBehind u done.getLast? (skip ++ '@' :: (run ++ left)) =
      mention u (done ++ skip).getLast? '@' (run ++ left) ++
        mentionsBehind u (done ++ skip ++ '@' :: run).getLast? left := by
  have hbehind := mentionsBehind_append (u := u) (done ++ skip ++ ['@']) left hrun
  rw [List.getLast?_concat, List.append_assoc, List.singleton_append] at hbehind
  rw [mentionsBehind_append done _ hskip, mentionsBehind, hbehind]

omit hskip in
theorem exists_split_append {part rest before : List Char} (hpart : '@' ∉ part)
    (h : part ++ rest = before ++ '@' :: after) :
    ∃ more, before = part ++ more ∧ rest = more ++ '@' :: after := by
  rcases List.append_eq_append_iff.mp h with ⟨more, rfl, hrest⟩ | ⟨_ | ⟨_, more⟩, rfl, hrest⟩
  · exact ⟨more, rfl, hrest⟩
  · exact ⟨[], by simp, hrest.symm⟩
  · rw [List.cons_append, List.cons.injEq] at hrest
    simp [← hrest.1] at hpart

/-- The `@`s of a text are the first and those behind the name it has. -/
theorem forall_split_turn {P : List Char → List Char → Prop} (hrun : '@' ∉ run) :
    (∀ before after, skip ++ '@' :: (run ++ left) = before ++ '@' :: after → P before after) ↔
      P skip (run ++ left) ∧ ∀ before after, left = before ++ '@' :: after →
          P (skip ++ '@' :: (run ++ before)) after := by
  refine ⟨fun h => ⟨h _ _ rfl, fun before after hleft => h _ _ (by simp [hleft])⟩, ?_⟩
  rintro ⟨_, hbehind⟩ _ after h
  obtain ⟨_ | ⟨_, more⟩, rfl, hmore⟩ := exists_split_append hskip h
  · cases hmore
    rwa [List.append_nil]
  · rw [List.cons_append, List.cons.injEq] at hmore
    obtain ⟨more, rfl, hleft⟩ := exists_split_append hrun hmore.2
    exact hmore.1 ▸ hbehind more after hleft

end

/-- From where the scanner goes on it finds whatever is mentioned, and nothing else where
nothing is crowded. -/
theorem Turns.scan {rest : List Char} (h : Turns u rest) (done : List Char) {n : Nat}
    (hn : rest.length ≤ n) (hdone : Resumes u done rest) :
    (mentionsBehind u done.getLast? rest).Sublist (mentionsFrom u n rest) ∧
      (mentionsFrom u n rest = mentionsBehind u done.getLast? rest ↔
        ∀ before after, rest = before ++ '@' :: after → ¬ Crowded u (done ++ before) after) := by
  induction h generalizing done n with
  | @last rest hnot =>
    have hnone : ∀ before after, rest ≠ before ++ '@' :: after := by
      rintro _ _ rfl
      simp at hnot
    have hbehind := mentionsBehind_append (u := u) done [] hnot
    rw [List.append_nil, mentionsBehind] at hbehind
    have hscan : mentionsFrom u n rest = [] := by
      cases n with
      | zero => rfl
      | succ =>
        have hdrop : rest.dropWhile (· != '@') = [] := by
          simpa using fun c hc => ne_of_mem_of_not_mem hc hnot
        rw [mentionsFrom, hdrop]
    rw [hbehind, hscan]
    exact ⟨List.Sublist.refl _, iff_of_true rfl fun before after h => absurd h (hnone _ _)⟩
  | @turn skip run left hskip hrun hleft _ ih =>
    rw [List.length_append, List.length_cons, List.length_append] at hn
    obtain ⟨n, rfl⟩ : ∃ m, n = m + 1 := ⟨n - 1, by omega⟩
    have hnot : '@' ∉ run := fun hmem => by simpa [isName_at] using hrun _ hmem
    have hbehind := rdropWhile_behind (done ++ skip) hrun
    obtain ⟨hsub, hiff⟩ := ih (done ++ skip ++ '@' :: run) (n := n) (by omega)
      (.inr ⟨by rw [hbehind, List.getLast?_concat], hleft⟩)
    have hfound := mention_sublist u done skip (run ++ left)
    rw [mentionsFrom_turn hskip hrun hleft, mentionsBehind_turn hskip hnot,
      forall_split_turn hskip hnot, ← mention_eq_iff hskip hdone]
    refine ⟨hfound.append hsub, ?_⟩
    simp only [List.append_assoc, List.cons_append] at hsub hiff ⊢
    rw [← hiff]
    -- neither part finds less than there is, so that both find as much
    refine ⟨fun heq => List.append_inj heq ?_, fun h => by rw [h.1, h.2]⟩
    have hlength := congrArg List.length heq
    have := hfound.length_le
    have := hsub.length_le
    simp only [List.length_append] at hlength
    omega

/-- Letters and digits, and nothing beyond ASCII. -/
def asciiOnly : Alphanumerics := ⟨Char.isAlphanum, fun _ _ => rfl⟩

/-- The scanner finds what is mentioned exactly in the texts whose names are apart. -/
theorem mentionsIn_eq_iff (text : String) :
    mentionsIn u text = mentions u text ↔ Spaced u text.toList :=
  ((turns text.toList).scan [] (Nat.le_refl _) (.inl rfl)).2

theorem mentionsIn_eq_iff_dash :
    mentionsIn asciiOnly "@a-@b @c" = ["a-", "b", "c"] ∧ Spaced asciiOnly "@a-@b @c".toList :=
  ⟨by decide, (mentionsIn_eq_iff "@a-@b @c").mp (by decide)⟩

/-- A sign inside a word, behind a name, gives a mention. -/
theorem mention_inside_a_word :
    ¬ ∀ (u : Alphanumerics) (text : String), mentionsIn u text = mentions u text := by
  intro hall
  exact absurd (hall asciiOnly "@a@b") (by decide)

end AgentDocker.Core
