import AgentDocker.Core.Registrations

/-!
# A registration's window is when it is current

Both answers come down to which instant is current. `currentAt_eq_some` says
what that is by membership alone, so it is the same for the registrations as
they are listed and for their sorted instants; among sorted instants, the
current one is the one whose neighbours enclose the time asked about.
-/

namespace AgentDocker.Core

variable {K : Type}

variable {c : Int} {key : K} {registrations : List (K × Time)} {windows : List (Window K)}
  {times : List Int} {i : Nat} {now : Time} {w : Window K}

theorem currentAt_eq_some {now : Int} :
    currentAt times now = some c ↔
      c ∈ times ∧ ((c ≤ now ∧ ∀ d ∈ times, d ≤ now → d ≤ c) ∨ (now < c ∧ ∀ d ∈ times, c ≤ d)) := by
  unfold currentAt
  cases hmax : (times.filter fun time => decide (time ≤ now)).max? with
  | some m =>
    have hm := List.max?_eq_some_iff.mp hmax
    simp only [List.mem_filter, decide_eq_true_eq, and_imp] at hm
    obtain ⟨⟨hmem, hle⟩, hall⟩ := hm
    rw [Option.some_or, Option.some.injEq]
    constructor
    · intro heq
      subst heq
      exact ⟨hmem, .inl ⟨hle, hall⟩⟩
    · intro ⟨hc, h⟩
      rcases h with ⟨hcle, hcall⟩ | ⟨_, hcall⟩
      · exact Int.le_antisymm (hcall m hmem hle) (hall c hc hcle)
      · have := hcall m hmem
        omega
  | none =>
    have hnone := List.max?_eq_none_iff.mp hmax
    rw [List.filter_eq_nil_iff] at hnone
    have hafter : ∀ d ∈ times, now < d := by
      intro d hd
      have := hnone d hd
      simp only [decide_eq_true_eq] at this
      omega
    rw [Option.none_or, List.min?_eq_some_iff]
    constructor
    · intro ⟨hc, hall⟩
      exact ⟨hc, .inr ⟨hafter c hc, hall⟩⟩
    · intro ⟨hc, h⟩
      rcases h with ⟨_, -⟩ | ⟨-, hall⟩
      · have := hafter c hc
        omega
      · exact ⟨hc, hall⟩

/-- Which instant is current is a matter of which instants there are. -/
theorem currentAt_congr {times times' : List Time} (h : ∀ t, t ∈ times ↔ t ∈ times') :
    currentAt times now = currentAt times' now := by
  refine Option.ext fun c => ?_
  rw [currentAt_eq_some, currentAt_eq_some]
  simp only [h]

/-! ## The instants in order -/

theorem mem_windowTimes {t : Time} :
    t ∈ windowTimes registrations ↔ t ∈ registrations.map Prod.snd := by
  rw [windowTimes, List.mem_dedup, List.mem_insertionSort]

theorem windowTimes_pairwise : (windowTimes registrations).Pairwise (· < ·) := by
  have hle : (windowTimes registrations).Pairwise (· ≤ ·) :=
    (List.pairwise_insertionSort (· ≤ ·) _).sublist (List.dedup_sublist _)
  have hne : (windowTimes registrations).Pairwise (· ≠ ·) := List.nodup_dedup _
  exact (hle.and hne).imp fun h => Int.lt_iff_le_and_ne.mpr h

/-- Among instants in order, the current one is enclosed by its neighbours: it
is the first or not after `now`, and the next is. -/
theorem enclosed_iff_current (hsorted : times.Pairwise (· < ·)) (hi : times[i]? = some c)
    {now : Int} :
    ((0 < i → c ≤ now) ∧ ∀ next, times[i + 1]? = some next → now < next) ↔
      currentAt times now = some c := by
  have hlt := List.pairwise_iff_getElem.mp hsorted
  obtain ⟨hlen, _⟩ := List.getElem?_eq_some_iff.mp hi
  rw [currentAt_eq_some]
  constructor
  · intro ⟨hfirst, hnext⟩
    refine ⟨List.mem_of_getElem? hi, ?_⟩
    by_cases hle : c ≤ now
    · refine .inl ⟨hle, fun d hd hdle => ?_⟩
      obtain ⟨j, hj, _⟩ := List.mem_iff_getElem.mp hd
      by_cases hji : j ≤ i
      · rcases Nat.lt_or_eq_of_le hji with hji | hji
        · have := hlt j i hj hlen hji
          omega
        · subst hji
          omega
      · -- an instant after the next one is after `now`
        have hsucc : i + 1 < times.length := by omega
        have hafter := hnext _ (List.getElem?_eq_getElem hsucc)
        rcases Nat.lt_or_eq_of_le (show i + 1 ≤ j by omega) with hlt' | heq
        · have := hlt (i + 1) j hsucc hj hlt'
          omega
        · subst heq
          omega
    · have hzero : i = 0 := by omega
      subst hzero
      refine .inr ⟨by omega, fun d hd => ?_⟩
      obtain ⟨j, hj, _⟩ := List.mem_iff_getElem.mp hd
      rcases Nat.eq_zero_or_pos j with hj0 | hpos
      · subst hj0
        omega
      · have := hlt 0 j hlen hj hpos
        omega
  · intro ⟨hmem, h⟩
    have hbefore : ∀ next, times[i + 1]? = some next → c < next := by
      intro next hnext
      obtain ⟨hsucc, _⟩ := List.getElem?_eq_some_iff.mp hnext
      have := hlt i (i + 1) hlen hsucc (Nat.lt_succ_self i)
      omega
    rcases h with ⟨hle, hall⟩ | ⟨_, hall⟩
    · refine ⟨fun _ => hle, fun next hnext => ?_⟩
      have hc' := hbefore next hnext
      by_contra hnot
      have := hall next (List.mem_of_getElem? hnext) (by omega)
      omega
    · refine ⟨fun hpos => ?_, fun next hnext => ?_⟩
      · have hzero : 0 < times.length := by omega
        have h0 := hlt 0 i hzero hlen hpos
        have := hall _ (List.getElem_mem hzero)
        omega
      · have := hbefore next hnext
        omega

/-! ## The windows -/

/-- A window contains the times at which its instant is current. -/
theorem contains_windowOf {time : Time} (hi : (windowTimes registrations)[i]? = some time)
    (hw : windowOf registrations time i = some w) :
    w.contains now = true ↔ currentAt (registrations.map Prod.snd) now = some time := by
  obtain ⟨_, _, rfl⟩ := Option.map_eq_some_iff.mp hw
  rw [currentAt_congr (fun t => mem_windowTimes.symm),
    ← enclosed_iff_current windowTimes_pairwise hi]
  have hsince : (if 0 < i then some time else none).all (fun since => decide (since ≤ now)) = true ↔
      (0 < i → time ≤ now) := by
    by_cases hpos : 0 < i <;> simp [hpos]
  simp only [Window.contains, Bool.and_eq_true, hsince, Option.all_eq_true, decide_eq_true_eq]

theorem mem_registrationWindows : w ∈ registrationWindows registrations ↔
      ∃ i time, (windowTimes registrations)[i]? = some time ∧
        windowOf registrations time i = some w := by
  rw [registrationWindows, List.mem_filterMap]
  constructor
  · intro ⟨p, hmem, hw⟩
    exact ⟨p.2, p.1, List.mem_zipIdx_iff_getElem?.mp hmem, hw⟩
  · intro ⟨i, time, hi, hw⟩
    exact ⟨(time, i), List.mem_zipIdx_iff_getElem?.mpr hi, hw⟩

theorem registrationAt_eq_some : registrationAt registrations now = some key ↔
      ∃ w ∈ registrationWindows registrations, w.contains now = true ∧ w.key = key := by
  rw [registrationAt, Option.bind_eq_some_iff]
  constructor
  · intro ⟨time, hcurrent, hsole⟩
    have hmem : time ∈ windowTimes registrations :=
      mem_windowTimes.mpr (currentAt_eq_some.mp hcurrent).1
    obtain ⟨i, hi⟩ := List.mem_iff_getElem?.mp hmem
    have hw : windowOf registrations time i =
        some ⟨key, if 0 < i then some time else none, (windowTimes registrations)[i + 1]?⟩ := by
      rw [windowOf, hsole, Option.map_some]
    exact ⟨_, mem_registrationWindows.mpr ⟨i, time, hi, hw⟩,
      (contains_windowOf hi hw).mpr hcurrent, rfl⟩
  · intro ⟨w, hw, hcontains, hkey⟩
    obtain ⟨_, time, hi, hwin⟩ := mem_registrationWindows.mp hw
    obtain ⟨_, hsole, rfl⟩ := Option.map_eq_some_iff.mp hwin
    exact ⟨time, (contains_windowOf hi hwin).mp hcontains, hkey ▸ hsole⟩

/-- Windows are of different instants, and one instant is current at a time. -/
theorem registrationWindows_disjoint (registrations : List (K × Time)) :
    (registrationWindows registrations).Pairwise fun v w =>
      ∀ now, ¬ (v.contains now = true ∧ w.contains now = true) := by
  rw [registrationWindows, List.pairwise_filterMap]
  have hne : (windowTimes registrations).zipIdx.Pairwise fun p q => p.1 ≠ q.1 := by
    have hnodup : ((windowTimes registrations).zipIdx.map Prod.fst).Nodup := by
      rw [List.zipIdx_map_fst]
      exact List.nodup_dedup _
    exact List.pairwise_map.mp hnodup
  refine hne.imp_of_mem fun {p q} hp hq hpq v hv w hw now hboth => hpq ?_
  have hv' := (contains_windowOf (List.mem_zipIdx_iff_getElem?.mp hp) hv).mp hboth.1
  have hw' := (contains_windowOf (List.mem_zipIdx_iff_getElem?.mp hq) hw).mp hboth.2
  exact Option.some.inj (hv'.symm.trans hw')

/-! ## The pass over the windows -/

theorem foldl_held :
    windows.foldl (fun held w => held.or (if w.contains now then some w.key else none))
      (some key) = some key := by
  induction windows with
  | nil => rfl
  | cons _ _ ih => rw [List.foldl_cons, Option.some_or, ih]

theorem reconciled_cons {rest : List (Window K)} :
    reconciled (w :: rest) now = if w.contains now then some w.key else reconciled rest now := by
  rw [reconciled, List.foldl_cons, Option.none_or]
  split
  · exact foldl_held
  · rfl

/-- Of disjoint windows at most one takes a sample. -/
theorem reconciled_eq_some
    (hdisjoint : windows.Pairwise fun v w => ∀ now, ¬ (v.contains now = true ∧
      w.contains now = true)) :
    reconciled windows now = some key ↔ ∃ w ∈ windows, w.contains now = true ∧ w.key = key := by
  induction windows with
  | nil => simp [reconciled]
  | cons _ rest ih =>
    obtain ⟨hhead, htail⟩ := List.pairwise_cons.mp hdisjoint
    rw [reconciled_cons]
    split
    · next hcontains =>
      have hrest : ¬ ∃ v ∈ rest, v.contains now = true ∧ v.key = key := by
        rintro ⟨v, hv, hvcontains, -⟩
        exact hhead v hv now ⟨hcontains, hvcontains⟩
      simp [hcontains, hrest]
    next hcontains =>
    rw [ih htail]
    simp [hcontains]

/-- The windows of a session's registrations are pairwise disjoint, a time has
the registration whose window contains it, and so a sample attributed when it is
counted and one left for the pass over the windows end up with the same. -/
theorem registrationAt_agrees_with_windows (registrations : List (K × Time)) :
    (registrationWindows registrations).Pairwise (fun v w =>
        ∀ now, ¬ (v.contains now = true ∧ w.contains now = true)) ∧
      (∀ now key, registrationAt registrations now = some key ↔
        ∃ w ∈ registrationWindows registrations, w.contains now = true ∧ w.key = key) ∧
      ∀ now, reconciled (registrationWindows registrations) now =
        registrationAt registrations now := by
  have hdisjoint := registrationWindows_disjoint registrations
  refine ⟨hdisjoint, fun now key => registrationAt_eq_some, fun now => ?_⟩
  refine Option.ext fun key => ?_
  rw [reconciled_eq_some hdisjoint, registrationAt_eq_some]

end AgentDocker.Core
