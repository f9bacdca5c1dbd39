import AgentDocker.Connector.Serving
import AgentDocker.Proofs.StoreEffects

/-!
# Whether a revocation lasts

The revoke command writes the end of a grant to the state file. A serving
connector that loaded the file before does not read it again: its own copy still
has the grant, its token endpoint still refreshes it, and the next save of its
store writes the grant back as it was. `revocation_lost` is that run.

So a revocation lasts as far as the serving connector's copy has caught up: by a
restart, or because it found the agent gone and ended the grant itself; and as far
as no command saves a copy it loaded before. Under that condition on each step the
file shows every revoked grant ended from then on, and no tokens are given out for
one.
-/

namespace AgentDocker.Connector

open AgentDocker.Core Lib
open Store

/-- Every grant a command has revoked is ended in the file, and the token
endpoint has given out no tokens for one since. -/
structure Lasting (w : Disk) : Prop where
  file : ∀ g ∈ w.ended, w.file.hasEnded g = true
  tokens : w.breached = []

instance (w : Disk) : Decidable (Lasting w) :=
  decidable_of_iff ((∀ g ∈ w.ended, w.file.hasEnded g = true) ∧ w.breached = [])
    ⟨fun h => ⟨h.1, h.2⟩, fun h => ⟨h.file, h.tokens⟩⟩

/-- Whether a store's own copy of a grant does not stand in the way of an
operation: a refresh with the grant's token finds it ended, and no new grant is
drawn under its id. -/
def heeds (d : Digests) (s : Store) (g : String) : Op → Bool
  | .refresh form _ =>
    match field form "refresh_token", s.grants.get g with
    | some token, some grant => !(grant.refreshHash == some (d.hash token)) || !grant.active
    | _, _ => true
  | .issue _ _ grantId _ => grantId != g
  | _ => true

/-- The condition on a step: where the serving connector or a command saves its store,
or the connector answers for tokens, its own copy has caught up with the revocations
saved. -/
def caughtUp (d : Digests) (w : Disk) : Move → Bool
  | .persist fails => fails || w.memory.all fun s => w.ended.all fun g => s.hasEnded g
  | .serve _ op => w.memory.all fun s => w.ended.all fun g => heeds d s g op
  | .save command now fails => fails || w.commands[command]?.all fun c =>
    w.ended.all fun g => (c.copy.revoke c.grant now).2.hasEnded g
  | _ => true

/-! ## What ends a grant keeps it ended -/

variable {fails : Bool} {d : Digests} {w : Disk} {issued : Issued} {move : Move} {op : Op}
  {used : Option String} {s s' : Store} {g g' : String} {now time : Time}

theorem hasEnded_iff :
    s.hasEnded g = true ↔ ∃ grant, s.grants.get g = some grant ∧ grant.active = false := by
  simp only [hasEnded]
  cases s.grants.get g <;> simp

theorem hasEnded_revoke_self {grant : Grant} (h : s.grants.get g = some grant) :
    (s.revoke g now).2.hasEnded g = true := by
  rw [hasEnded_iff]
  refine ⟨Store.ended now grant, ?_, rfl⟩
  simp only [revoke, h]
  rw [Map.get_modify, if_pos rfl, h, Option.map_some]

/-! ## Who is given tokens -/

/-- The grant an answer's tokens are for. -/
theorem given_gave {used' : Option String} {s'' : Store} {issued' : Issued} {drawn : Drawn}
    (hmade : tokensFor d s g now drawn = (.ok issued, s'))
    (h : given d used now (.ok issued, s') = (s'', some (.gave g' issued' used' time))) :
    g' = g := by
  obtain ⟨-, -, hset, -⟩ := tokensFor_ok hmade
  simp only [given, hset, Map.get_set, if_pos, Option.map_some] at h
  cases h
  rfl

/-- Tokens go only to a grant the store's own copy does not have ended. -/
theorem not_heeds_of_gave (h : op.act d s now = (s', some (.gave g issued used time))) :
    heeds d s g op = false := by
  cases op with
  | issue consent agent grantId drawn =>
    simp only [Op.act, issue] at h
    cases hmade : tokensFor d { s with grants := s.grants.set grantId (grantFor consent agent now) }
        grantId now drawn with
    | mk answer s'' =>
      cases answer with
      | error =>
        rw [hmade] at h
        simp [given] at h
      | ok =>
        rw [hmade] at h
        simp [heeds, given_gave hmade h]
  | refresh form drawn =>
    simp only [Op.act] at h
    cases hanswer : s.refresh d form now drawn with
    | mk answer =>
      rw [hanswer] at h
      cases answer with
      | error => simp [given] at h
      | ok =>
        obtain ⟨_, _, _, htoken, hgrant, hhash, hactive, hmade⟩ := refresh_ok hanswer
        obtain rfl := given_gave hmade h
        simp [heeds, htoken, hgrant, hhash, hactive]
  | redeemCode | revoke =>
    simp only [Op.act] at h
    split at h <;> simp at h
  | _ => simp [Op.act] at h

/-- No tokens go to a grant ended where the store's own copy heeds them all. -/
theorem breaches_eq_nil (h : ∀ g ∈ w.ended, heeds d s g op = true) :
    w.breaches (op.act d s now).2 = [] := by
  rcases hact : op.act d s now with ⟨_, _ | event⟩
  · rfl
  · cases event with
    | gave g =>
      refine if_neg fun hended => ?_
      have hheeds := h g (by simpa using hended)
      rw [not_heeds_of_gave hact] at hheeds
      cases hheeds
    | _ => rfl

/-! ## Every run -/

/-- What every state keeps: the revocations last, and a command in progress has
a copy with the grant it is to end. -/
structure Heeded (w : Disk) : Prop where
  lasting : Lasting w
  copy : ∀ c ∈ w.commands, ∃ grant, c.copy.grants.get c.grant = some grant

theorem Heeded.serve (h : Heeded w) (hc : caughtUp d w (.serve now op) = true) :
    Heeded (w.step d (.serve now op)) := by
  simp only [Disk.step]
  split
  · exact h
  next s hmemory =>
  simp only [caughtUp, hmemory, Option.all_some, List.all_eq_true] at hc
  refine ⟨⟨h.lasting.file, ?_⟩, h.copy⟩
  rw [h.lasting.tokens, List.append_nil]
  exact breaches_eq_nil hc

theorem Heeded.persist (h : Heeded w) (hc : caughtUp d w (.persist fails) = true) :
    Heeded (w.step d (.persist fails)) := by
  simp only [Disk.step]
  split
  · exact h
  next s hmemory =>
  split
  · exact h
  next hsaves =>
  refine ⟨⟨fun g hg => ?_, h.lasting.tokens⟩, h.copy⟩
  simp only [caughtUp, hsaves, Bool.false_or, hmemory, Option.all_some, List.all_eq_true] at hc
  exact hc g hg

theorem Heeded.load {reference : String} (h : Heeded w) :
    Heeded (w.step d (.load reference)) := by
  simp only [Disk.step]
  split
  · exact h
  next g grant hfound =>
  refine ⟨⟨h.lasting.file, h.lasting.tokens⟩, fun c hcommand => ?_⟩
  rcases List.mem_append.mp hcommand with hcommand | hcommand
  · exact h.copy c hcommand
  · rw [List.mem_singleton.mp hcommand]
    exact ⟨grant, (Map.find?_sorted hfound).1⟩

theorem Heeded.save {command : Nat} (h : Heeded w)
    (hc : caughtUp d w (.save command now fails) = true) :
    Heeded (w.step d (.save command now fails)) := by
  have hcopy : ∀ c ∈ w.commands.eraseIdx command, ∃ grant, c.copy.grants.get c.grant = some grant :=
    fun c hmem => h.copy c (List.mem_of_mem_eraseIdx hmem)
  simp only [Disk.step]
  split
  · exact h
  next c hcommand =>
  split
  · exact ⟨⟨h.lasting.file, h.lasting.tokens⟩, hcopy⟩
  next hsaves =>
  obtain ⟨_, hgrant⟩ := h.copy c (List.mem_of_getElem? hcommand)
  simp only [caughtUp, hsaves, Bool.false_or, hcommand, Option.all_some, List.all_eq_true] at hc
  refine ⟨⟨fun g hg => ?_, h.lasting.tokens⟩, hcopy⟩
  rcases List.mem_cons.mp hg with rfl | hg
  · exact hasEnded_revoke_self hgrant
  · exact hc g hg

theorem Heeded.step (h : Heeded w) (hc : caughtUp d w move = true) : Heeded (w.step d move) := by
  cases move with
  | start | stop => exact ⟨⟨h.lasting.file, h.lasting.tokens⟩, h.copy⟩
  | serve => exact h.serve hc
  | persist => exact h.persist hc
  | load => exact h.load
  | save => exact h.save hc

theorem hasEnded_of_standing
    (h : (s'.grants.get g).map Grant.standing = (s.grants.get g).map Grant.standing)
    (hended : s.hasEnded g = true) : s'.hasEnded g = true := by
  obtain ⟨_, hgrant, hinactive⟩ := hasEnded_iff.mp hended
  rw [hgrant, Option.map_some] at h
  obtain ⟨grant', hgrant', hstanding⟩ := Option.map_eq_some_iff.mp h
  exact hasEnded_iff.mpr ⟨grant', hgrant', (Grant.active_of_standing hstanding).trans hinactive⟩

/-- A store that has the grant ended heeds it, unless its id is drawn again. -/
theorem heeds_of_hasEnded (h : s.hasEnded g = true) (hop : g ∉ op.draws) :
    heeds d s g op = true := by
  obtain ⟨_, hgrant, hinactive⟩ := hasEnded_iff.mp h
  cases op with
  | refresh form =>
    simp only [heeds, hgrant]
    cases field form "refresh_token" <;> simp [hinactive]
  | issue =>
    simp only [Op.draws, List.mem_cons, not_or] at hop
    simpa [heeds] using Ne.symm hop.1
  | _ => rfl

/-- No operation brings an ended grant back, unless its id is drawn again. -/
theorem hasEnded_act (h : s.hasEnded g = true) (hop : g ∉ op.draws) :
    (op.act d s now).1.hasEnded g = true := by
  have hheeds : heeds d s g op = true := heeds_of_hasEnded h hop
  have heffect := Op.effect d s now op
  cases hact : op.act d s now with
  | mk =>
    rw [hact] at heffect
    cases heffect with
    | quiet hquiet | consented _ _ _ _ _ _ _ _ _ hquiet =>
      exact hasEnded_of_standing (hquiet.grants g) h
    | coded _ _ _ _ _ _ _ _ _ _ hgrants | restarted _ _ hgrants =>
      exact hasEnded_of_standing (congrArg (fun m => (m.get g).map Grant.standing) hgrants) h
    | gave _ _ _ _ _ _ _ _ _ _ _ _ _ hothers =>
      refine hasEnded_of_standing (hothers g ?_) h
      rintro rfl
      rw [not_heeds_of_gave hact] at hheeds
      cases hheeds
    | revoked g' grant _ _ hgrant _ hended hothers =>
      by_cases heq : g = g'
      · exact hasEnded_iff.mpr ⟨grant, heq ▸ hgrant, hended⟩
      · exact hasEnded_of_standing (by rw [hothers g heq]) h

/-- The serving connector's copy has every revoked grant ended. -/
def Restarted (w : Disk) : Prop :=
  ∀ s ∈ w.memory, ∀ g ∈ w.ended, s.hasEnded g = true

instance (w : Disk) : Decidable (Restarted w) :=
  inferInstanceAs (Decidable (∀ s ∈ w.memory, ∀ g ∈ w.ended, s.hasEnded g = true))

/-- A move that saves no command's copy and draws none of the ids ended. -/
def Aside (ended : List String) : Move → Prop
  | .serve _ op => ∀ g ∈ ended, g ∉ op.draws
  | .save _ _ fails => fails = true
  | _ => True

/-- What the file and the serving connector's copy have ended stays ended in both, and
no more tokens are given out. -/
theorem Restarted.step (h : Restarted w) (hfile : ∀ g ∈ w.ended, w.file.hasEnded g = true)
    (haside : Aside w.ended move) :
    Restarted (w.step d move) ∧ (∀ g ∈ w.ended, (w.step d move).file.hasEnded g = true) ∧
      (w.step d move).ended = w.ended ∧ (w.step d move).breached = w.breached := by
  cases move with
  | start =>
    refine ⟨fun s hs g hg => ?_, hfile, rfl, rfl⟩
    obtain rfl := Option.some.inj hs
    exact hfile g hg
  | stop => exact ⟨fun s hs => absurd hs.symm (Option.some_ne_none s), hfile, rfl, rfl⟩
  | serve _ op =>
    simp only [Disk.step]
    split
    · exact ⟨h, hfile, rfl, rfl⟩
    next s hmemory =>
    have hheeds : ∀ g ∈ w.ended, heeds d s g op = true :=
      fun g hg => heeds_of_hasEnded (h s hmemory g hg) (haside g hg)
    refine ⟨fun s' hs g hg => ?_, hfile, rfl, ?_⟩
    · obtain rfl := Option.some.inj hs
      exact hasEnded_act (h s hmemory g hg) (haside g hg)
    · rw [breaches_eq_nil hheeds, List.nil_append]
  | persist =>
    simp only [Disk.step]
    split
    · exact ⟨h, hfile, rfl, rfl⟩
    next s hmemory =>
    split
    · exact ⟨h, hfile, rfl, rfl⟩
    · exact ⟨h, h s hmemory, rfl, rfl⟩
  | load =>
    simp only [Disk.step]
    split
    · exact ⟨h, hfile, rfl, rfl⟩
    · exact ⟨h, hfile, rfl, rfl⟩
  | save _ _ fails =>
    obtain rfl : fails = true := haside
    simp only [Disk.step]
    split
    · exact ⟨h, hfile, rfl, rfl⟩
    · exact ⟨h, hfile, rfl, rfl⟩

/-- Once the file and the serving connector's copy have the revocations, the file keeps
them and no more tokens are given out for the grants, whatever is served, until a command
saves the next. -/
theorem lasting_of_restarted (hfile : ∀ g ∈ w.ended, w.file.hasEnded g = true)
    (hrestarted : Restarted w) (moves : List Move) (haside : ∀ move ∈ moves, Aside w.ended move) :
    Always (Disk.step d)
      (fun v => (∀ g ∈ w.ended, v.file.hasEnded g = true) ∧ v.breached = w.breached) w moves := by
  have hrun : Always (Disk.step d) (fun v => Restarted v ∧
      (∀ g ∈ w.ended, v.file.hasEnded g = true) ∧ v.ended = w.ended ∧ v.breached = w.breached)
      w moves := by
    refine always_of_each (C := fun _ move => Aside w.ended move) ⟨hrestarted, hfile, rfl, rfl⟩ ?_
      (Each.of_mem haside)
    rintro _ _ ⟨hcopy, hkept, hended, hbreached⟩ hmove
    rw [← hended] at hkept hmove ⊢
    rw [← hbreached]
    exact hcopy.step hkept hmove
  exact hrun.imp fun _ hv => ⟨hv.2.1, hv.2.2.2⟩

/-- A connector issues a grant and saves it. -/
def connected : List Move :=
  [.start "https://example", .serve 0 (.issue ⟨.claude, "c", "reviewer", false, "/repo"⟩
      ⟨"a", "reviewer", "claude-browser", "/repo"⟩ "grant" ⟨"access1", "refresh1"⟩),
   .persist false]

/-- Tokens were given out before the restart, and a second command is still under way. -/
theorem lasting_of_restarted_late :
    let refresh (time : Time) : Move :=
      .serve time (.refresh [("refresh_token", "refresh1")] ⟨"access2", "refresh2"⟩)
    let w := run (Disk.step plainDigests) {} (connected ++
      [.load "reviewer", .load "reviewer", .save 0 10 false, refresh 20, .start "https://example"])
    w.breached = ["grant"] ∧ w.commands.length = 1 ∧
      Always (Disk.step plainDigests) (fun v => (∀ g ∈ ["grant"], v.file.hasEnded g = true) ∧
        v.breached = ["grant"]) w [refresh 30, .persist false, .save 0 40 true] := by
  intro refresh w
  have hended : w.ended = ["grant"] := by decide +kernel
  have hbreached : w.breached = ["grant"] := by decide +kernel
  have hlasts := lasting_of_restarted (d := plainDigests) (w := w)
    (by decide +kernel) (by decide +kernel) [refresh 30, .persist false, .save 0 40 true]
    (by simp [Aside, Op.draws, refresh, hended])
  rw [hended, hbreached] at hlasts
  exact ⟨hbreached, by decide +kernel, hlasts⟩

end AgentDocker.Connector
