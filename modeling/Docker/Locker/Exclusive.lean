import Docker.Lib.Count
import Docker.Locker.Basic

/-!
# Mutual exclusion

What is true of one goroutine, at the place where it is, is its `Local` invariant; a step of a
goroutine keeps its own and does not interfere with those of the others. The counters do not
overflow, as there are fewer than `2^31` goroutines.
-/

namespace Docker.Locker

open Goroutine Pc List Option Bool

def Pc.inSection : Pc → Bool
  | .idle | .lockMu _ | .lock _ _ | .dec _ _ | .lockMu' _ => false
  | _ => true

/-- `Lock(name)` has found or made the lock and has not locked it yet. -/
def Pc.waits (name : Name) (c : Nat) : Pc → Bool
  | .inc name' c' | .unlockMu name' c' | .lock name' c' => name' == name && c' == c
  | _ => false

def Pc.registered (c : Nat) : Pc → Bool
  | .unlockMu _ c' | .lock _ c' | .dec _ c' => c' == c
  | _ => false

namespace Goroutine

variable (g : Goroutine) (name : Name) (c : Nat)

/-- It has locked the mutex of the lock and has not unlocked it. -/
def Owns : Prop := g.pc = .dec name c ∨ (name, c) ∈ g.held

/-- It waits for the lock, or owns it and has not deleted the entry. -/
def Uses : Prop := g.pc.waits name c = true ∨ g.Owns name c ∧ g.pc ≠ .unlock name c true

end Goroutine

/-- What is true of goroutine `i` at the place where it is. -/
def At (s : State) (i : Nat) (held : List (Name × Nat)) : Pc → Prop
  | .inc name c | .unlockMu name c | .lock name c => s.locks name = some c
  | .dec name c => s.locks name = some c ∧ (s.ctrs c).mu = some i ∧ (name, c) ∉ held
  | .lockMu' name | .unlockLookup name => ∃ c, (name, c) ∈ held
  | .count name c => (name, c) ∈ held
  | .delete name c => (name, c) ∈ held ∧ (s.ctrs c).waiters = 0
  | .unlock name c deleted =>
    (name, c) ∈ held ∧ if deleted then s.locks name = none else (s.ctrs c).waiters ≠ 0
  | .unlockMu' noSuchLock => noSuchLock = false
  | .fatal => False
  | _ => True

structure Local (s : State) (i : Nat) (g : Goroutine) : Prop where
  mu : g.pc.inSection = true ↔ s.mu = some i
  at_pc : At s i g.held g.pc
  held (name : Name) (c : Nat) : (name, c) ∈ g.held → c < s.made ∧ (s.ctrs c).name = name ∧
    (s.ctrs c).mu = some i ∧ (s.locks name = some c ∨ g.pc = .unlock name c true)
  nodup : g.held.Nodup
  noSuchLock : g.noSuchLock = false

def Mapped (s : State) : Prop :=
  ∀ {name c}, s.locks name = some c → c < s.made ∧ (s.ctrs c).name = name

variable {n i j c : Nat} {name : Name} {s s' : State} {g : Goroutine}

theorem Local.locks_of_uses (h : Local s i g) (hu : g.Uses name c) : s.locks name = some c := by
  have hat := h.at_pc
  rcases hu with hw | ⟨hdec | hheld, hne⟩
  · unfold waits at hw
    split at hw <;> simp only [and_eq_true, beq_iff_eq, false_eq_true] at hw
    all_goals
      next hpc =>
      obtain ⟨rfl, rfl⟩ := hw
      rwa [hpc] at hat
  · rw [hdec] at hat
    exact hat.1
  · exact (h.held _ _ hheld).2.2.2.resolve_right hne

theorem Local.mu_of_owns (h : Local s i g) (ho : g.Owns name c) : (s.ctrs c).mu = some i := by
  rcases ho with hdec | hheld
  · have hat := h.at_pc
    rw [hdec] at hat
    exact hat.2.1
  · exact (h.held _ _ hheld).2.2.1

theorem Local.made_of_owns (h : Local s i g) (hm : Mapped s) (ho : g.Owns name c) :
    c < s.made ∧ (s.ctrs c).name = name := by
  rcases ho with hdec | hheld
  · have hat := h.at_pc
    rw [hdec] at hat
    exact hm hat.1
  · exact ⟨(h.held _ _ hheld).1, (h.held _ _ hheld).2.1⟩

/-! ## The goroutine that makes the step -/

attribute [local grind =] Function.update_apply

section
variable (h : Local s i (s.gs i))
include h

theorem Local.mu_advance (ha : Advances i s s') :
    (s'.gs i).pc.inSection = true ↔ s'.mu = some i := by
  have hmu := h.mu
  cases ha <;> simp_all [inSection]

theorem Local.nodup_advance (ha : Advances i s s') : (s'.gs i).held.Nodup := by
  have hnodup := h.nodup
  have hat := h.at_pc
  cases ha with
  | dec name c hpc => simp_all [At]
  | unlock name c deleted hpc hlocked => simpa using hnodup.erase _
  | _ => simpa using hnodup

theorem Local.noSuchLock_advance (ha : Advances i s s') : (s'.gs i).noSuchLock = false := by
  have hno := h.noSuchLock
  have hat := h.at_pc
  cases ha with
  | unlockMu' err hpc => simp_all [At]
  | _ => simpa using hno

theorem Local.held_advance (hm : Mapped s) (ha : Advances i s s')
    (hin : (name, c) ∈ (s'.gs i).held) : c < s'.made ∧ (s'.ctrs c).name = name ∧
      (s'.ctrs c).mu = some i ∧ (s'.locks name = some c ∨ (s'.gs i).pc = .unlock name c true) := by
  have hheld := h.held name c
  have hat := h.at_pc
  cases ha with
  | make name' hpc hlocks => grind
  | inc name' c' hpc => grind
  | lock name' c' hpc hfree => grind
  | dec name' c' hpc => grind [At, Mapped]
  | delete name' c' hpc =>
    rw [hpc] at hat
    have hlock := (h.held name' c' hat.1).2.2.2
    grind
  | unlock name' c' deleted hpc hlocked =>
    rw [hpc] at hat
    have hname := (h.held name' c' hat.1).2.1
    have hnodup := h.nodup
    grind
  | fatal name' c' deleted hpc hfree =>
    rw [hpc] at hat
    grind
  | _ => simp_all

theorem Local.at_advance (ha : Advances i s s') : At s' i (s'.gs i).held (s'.gs i).pc := by
  have hat := h.at_pc
  have hheld := h.held
  cases ha with
  | callUnlock name c hpc hin => simpa [At] using ⟨c, hin⟩
  | make name hpc hlocks => simp [At]
  | lock name c hpc hfree =>
    rw [hpc] at hat
    have hnot : (name, c) ∉ (s.gs i).held := fun hin => by
      simpa [hfree] using (hheld name c hin).2.2.1
    simpa [At] using ⟨hat, hnot⟩
  | foundAgain name c hpc hlocks =>
    rw [hpc] at hat
    obtain ⟨c', hin⟩ := hat
    have := (hheld name c' hin).2.2.2
    simp_all [At]
  | notFound name hpc hlocks =>
    rw [hpc] at hat
    obtain ⟨c', hin⟩ := hat
    have := (hheld name c' hin).2.2.2
    simp_all
  | fatal name c deleted hpc hfree =>
    rw [hpc] at hat
    simpa [hfree] using (hheld name c hat.1).2.2.1
  | _ => simp_all [At]

theorem Local.advance (hm : Mapped s) (ha : Advances i s s') : Local s' i (s'.gs i) :=
  ⟨h.mu_advance ha, h.at_advance ha, fun _ _ => h.held_advance hm ha, h.nodup_advance ha,
    h.noSuchLock_advance ha⟩

end

/-! ## The other goroutines -/

/-- What is true of a goroutine is about the locks it uses and owns. -/
theorem Local.frame (h : Local s j g) (hmu : s'.mu = some j ↔ s.mu = some j)
    (hmade : s.made ≤ s'.made)
    (hlocks : ∀ name c, g.Uses name c → s'.locks name = some c)
    (hnone : s.mu = some j → ∀ name, s.locks name = none → s'.locks name = none)
    (hctrs : ∀ name c, g.Owns name c → (s'.ctrs c).name = (s.ctrs c).name ∧
      (s'.ctrs c).mu = (s.ctrs c).mu ∧
      (s.mu = some j → (s'.ctrs c).waiters = (s.ctrs c).waiters)) : Local s' j g := by
  refine ⟨h.mu.trans hmu.symm, ?_, fun name c hin => ?_, h.nodup, h.noSuchLock⟩
  · have hat := h.at_pc
    have hmu := h.mu
    cases hpc : g.pc with
    | inc name c | unlockMu name c | lock name c =>
      exact hlocks name c (.inl (by simp [hpc, waits]))
    | dec name c =>
      rw [hpc] at hat
      exact ⟨hlocks name c (.inr ⟨.inl hpc, by simp [hpc]⟩),
        (hctrs name c (.inl hpc)).2.1.trans hat.2.1, hat.2.2⟩
    | delete name c =>
      rw [hpc] at hat hmu
      exact ⟨hat.1, ((hctrs name c (.inr hat.1)).2.2 (hmu.1 rfl)).trans hat.2⟩
    | unlock name c deleted =>
      rw [hpc] at hat hmu
      refine ⟨hat.1, ?_⟩
      cases deleted with
      | true => exact hnone (hmu.1 rfl) name hat.2
      | false =>
        have hw : (s.ctrs c).waiters ≠ 0 := hat.2
        rwa [← (hctrs name c (.inr hat.1)).2.2 (hmu.1 rfl)] at hw
    | _ => rwa [hpc] at hat
  · obtain ⟨hlt, hname, hown, hlock⟩ := h.held name c hin
    obtain ⟨hname', hmu', -⟩ := hctrs name c (.inr hin)
    refine ⟨by omega, hname'.trans hname, hmu'.trans hown, ?_⟩
    by_cases hdel : g.pc = .unlock name c true
    · exact .inr hdel
    · exact .inl (hlocks name c (.inr ⟨.inr hin, hdel⟩))

/-- What is true of all goroutines together. -/
structure Inv (n : Nat) (s : State) : Prop where
  of (i : Nat) : Local s i (s.gs i)
  idle (i : Nat) : n ≤ i → (s.gs i).pc = .idle
  mapped : Mapped s
  waiters (c : Nat) : (s.ctrs c).waiters =
    BitVec.ofNat 32 (Nat.count (fun i => (s.gs i).pc.registered c = true) n)
  entry (name : Name) (c : Nat) : s.locks name = some c → ∃ i, (s.gs i).Uses name c

theorem Goroutine.uses_of_registered (h : g.pc.registered c = true) :
    ∃ name, g.pc = .dec name c ∨ g.pc.waits name c = true := by
  unfold registered at h
  split at h <;> simp only [beq_iff_eq, false_eq_true] at h
  all_goals
    next name _ hpc =>
    subst h
    exact ⟨name, by simp [hpc, waits]⟩

namespace Inv

theorem eq_of_mu (h : Inv n s) (hi : (s.gs i).pc.inSection = true)
    (hj : (s.gs j).pc.inSection = true) : i = j :=
  some_inj.1 (((h.of i).mu.1 hi).symm.trans ((h.of j).mu.1 hj))

theorem eq_of_owns (h : Inv n s) (hi : (s.gs i).Owns name c) (hj : (s.gs j).Owns name' c) : i = j :=
  some_inj.1 (((h.of i).mu_of_owns hi).symm.trans ((h.of j).mu_of_owns hj))

theorem registered_lt (h : Inv n s) (hr : (s.gs j).pc.registered c = true) : j < n := by
  by_contra hj
  rw [h.idle j (by omega)] at hr
  cases hr

theorem not_registered (h : Inv n s) (hn : n < 2 ^ 31) (hw : (s.ctrs c).waiters = 0) (j : Nat) :
    (s.gs j).pc.registered c = false := by
  rw [h.waiters c] at hw
  have hle : Nat.count (fun i => (s.gs i).pc.registered c = true) n ≤ n := Nat.count_le _
  have hzero : Nat.count (fun i => (s.gs i).pc.registered c = true) n = 0 := by
    have := congrArg BitVec.toNat hw
    simp only [BitVec.toNat_ofNat, BitVec.ofNat_eq_ofNat] at this
    omega
  by_contra hr
  rw [not_eq_false] at hr
  exact Nat.count_iff_forall_not.1 hzero j (h.registered_lt hr) hr

theorem exists_registered (h : Inv n s) (hw : (s.ctrs c).waiters ≠ 0) :
    ∃ j, (s.gs j).pc.registered c = true := by
  by_contra hno
  rw [not_exists] at hno
  refine hw ?_
  rw [h.waiters c, Nat.count_iff_forall_not.2 fun j _ => hno j]
  rfl

theorem not_uses_of_delete (h : Inv n s) (hn : n < 2 ^ 31) (hpc : (s.gs i).pc = .delete name c)
    (hj : j ≠ i) :
    ¬ (s.gs j).Uses name c' := by
  intro hu
  have hat := (h.of i).at_pc
  rw [hpc] at hat
  have hlock : s.locks name = some c := (h.of i).locks_of_uses (.inr ⟨.inr hat.1, by simp [hpc]⟩)
  have hlock' := (h.of j).locks_of_uses hu
  rw [hlock, some_inj] at hlock'
  subst hlock'
  rcases hu with hwait | ⟨hown, -⟩
  · have hreg := h.not_registered hn hat.2 j
    have hsec : (s.gs j).pc.inSection ≠ true :=
      fun hsec => hj (h.eq_of_mu hsec (by simp [hpc, inSection]))
    unfold waits at hwait
    split at hwait <;> simp_all [registered, inSection]
  · exact hj (h.eq_of_owns hown (.inr hat.1))

theorem of_other (h : Inv n s) (hn : n < 2 ^ 31) (ha : Advances i s s') (hj : j ≠ i) :
    Local s' j (s'.gs j) := by
  rw [ha.gs_other hj]
  have hl := h.of j
  have hi := h.of i
  have hmu := hi.mu
  have hat := hi.at_pc
  have huses : ∀ name c, (s.gs j).Uses name c → s.locks name = some c := fun _ _ => hl.locks_of_uses
  have howns : ∀ name c, (s.gs j).Owns name c → c < s.made ∧ (s.ctrs c).mu = some j := fun _ _ ho =>
    ⟨(hl.made_of_owns h.mapped ho).1, hl.mu_of_owns ho⟩
  cases ha with
  | lockMu name hpc hfree | lockMu' name hpc hfree =>
    exact hl.frame (by simp [hfree, hj.symm]) le_rfl huses (fun _ _ h => h) (by simp)
  | unlockMu name c hpc | unlockMu' err hpc =>
    rw [hpc] at hmu
    exact hl.frame (by simp [hmu.1 rfl, hj.symm]) le_rfl huses (fun _ _ h => h) (by simp)
  | make name hpc hlocks =>
    rw [hpc] at hmu
    refine hl.frame Iff.rfl (Nat.le_succ _) (fun name' c' hu => ?_) (fun hmu' => ?_)
      fun name' c' ho => ?_
    · have hne : name' ≠ name := fun he => by simp [← he, huses name' c' hu] at hlocks
      simpa [hne] using huses name' c' hu
    · rw [hmu.1 rfl, some_inj] at hmu'
      exact absurd hmu'.symm hj
    · have hne : c' ≠ s.made := Nat.ne_of_lt (howns name' c' ho).1
      simp [hne]
  | inc name c hpc =>
    rw [hpc] at hmu
    refine hl.frame Iff.rfl le_rfl huses (fun _ _ h => h) fun name' c' ho => ?_
    have hmu' : s.mu ≠ some j := fun h => hj (some_inj.1 (h.symm.trans (hmu.1 rfl)))
    by_cases hc : c' = c <;> simp [hc, hmu']
  | dec name c hpc =>
    refine hl.frame Iff.rfl le_rfl huses (fun _ _ h => h) fun name' c' ho => ?_
    have hc : c' ≠ c := fun he => hj (h.eq_of_owns (he ▸ ho) (.inl hpc))
    simp [hc]
  | lock name c hpc hfree =>
    refine hl.frame Iff.rfl le_rfl huses (fun _ _ h => h) fun name' c' ho => ?_
    have hc : c' ≠ c := fun he => by simpa [he, hfree] using (howns name' c' ho).2
    simp [hc]
  | unlock name c deleted hpc hlocked =>
    rw [hpc] at hat
    refine hl.frame Iff.rfl le_rfl huses (fun _ _ h => h) fun name' c' ho => ?_
    have hc : c' ≠ c := fun he => hj (h.eq_of_owns (he ▸ ho) (.inr hat.1))
    simp [hc]
  | delete name c hpc =>
    refine hl.frame Iff.rfl le_rfl (fun name' c' hu => ?_) (fun _ name' hnone => ?_) (by simp)
    · have hne : name' ≠ name := fun he => h.not_uses_of_delete hn hpc hj (he ▸ hu)
      simpa [hne] using huses name' c' hu
    · by_cases hne : name' = name <;> simp [hne, hnone]
  | _ => exact hl.frame Iff.rfl le_rfl huses (fun _ _ h => h) (by simp)

theorem mapped_advance (h : Mapped s) (ha : Advances i s s') : Mapped s' := by
  intro name c hlocks
  have hold : s.locks name = some c → c < s.made ∧ (s.ctrs c).name = name := h
  cases ha <;> grind

theorem waiters_made (h : Inv n s) (hc : s.made ≤ c) : (s.ctrs c).waiters = 0 := by
  by_contra hw
  obtain ⟨j, hreg⟩ := h.exists_registered hw
  obtain ⟨name, hpc | hwait⟩ := uses_of_registered hreg
  · have := (h.mapped ((h.of j).locks_of_uses (.inr ⟨.inl hpc, by simp [hpc]⟩))).1
    omega
  · have := (h.mapped ((h.of j).locks_of_uses (.inl hwait))).1
    omega

theorem waiters_self (h : Inv n s) (ha : Advances i s s') (c : Nat) :
    (s'.ctrs c).waiters + BitVec.ofNat 32 ((s.gs i).pc.registered c).toNat =
      (s.ctrs c).waiters + BitVec.ofNat 32 ((s'.gs i).pc.registered c).toNat := by
  cases ha with
  | make name hpc hlocks =>
    by_cases hc : c = s.made
    · simpa [hc, hpc, registered] using (h.waiters_made (Nat.le_refl s.made)).symm
    · simp [hc, hpc, registered]
  | inc name c' hpc =>
    by_cases hc : c = c'
    · simp [hc, hpc, registered]
    · simp [hc, hpc, registered, beq_false_of_ne (Ne.symm hc)]
  | dec name c' hpc =>
    by_cases hc : c = c'
    · simp [hc, hpc, registered]
    · simp [hc, hpc, registered, beq_false_of_ne (Ne.symm hc)]
  | lock name c' hpc hfree | unlock name c' deleted hpc hlocked =>
    by_cases hc : c = c' <;> simp [hc, hpc, registered]
  | _ => simp [*, registered]

theorem waiters_advance (h : Inv n s) (hi : i < n) (ha : Advances i s s') (c : Nat) :
    (s'.ctrs c).waiters = BitVec.ofNat 32
    (Nat.count (fun i => (s'.gs i).pc.registered c = true) n) := by
  have hself := h.waiters_self ha c
  have hcount := Count.count_update
    (q := fun j => (s'.gs j).pc.registered c = true) hi fun k _ hk => by rw [ha.gs_other hk]
  have hite : ∀ b : Bool, (if b = true then 1 else 0) = b.toNat := by decide
  rw [hite, hite] at hcount
  refine (BitVec.add_left_inj (BitVec.ofNat 32 ((s.gs i).pc.registered c).toNat)).1 ?_
  rw [hself, h.waiters c, ← BitVec.ofNat_add, ← BitVec.ofNat_add, hcount]

/-- The goroutine goes on using a lock until it deletes the entry or unlocks it. -/
theorem uses_self (ha : Advances i s s') (hu : (s.gs i).Uses name c) :
    (s'.gs i).Uses name c ∨ (s.gs i).pc = .delete name c ∨ ∃ deleted,
    (s.gs i).pc = .unlock name c deleted := by
  cases ha with
  | unlock name' c' deleted hpc hlocked =>
    by_cases he : (name, c) = (name', c')
    · cases he
      exact .inr (.inr ⟨deleted, hpc⟩)
    · simp_all [Uses, Owns, waits, mem_erase_of_ne he]
  | delete name' c' hpc =>
    by_cases he : name' = name ∧ c' = c
    · exact .inr (.inl (by rw [hpc, he.1, he.2]))
    · simp_all [Uses, Owns, waits]
  | dec name' c' hpc =>
    left
    simp_all only [Uses, Owns, waits]
    grind
  | _ =>
    left
    simp_all [Uses, Owns, waits]

/-- An entry was there before the step, or its goroutine has just made it. -/
theorem locks_advance (ha : Advances i s s') (hlocks : s'.locks name = some c) :
    s.locks name = some c ∧ (s.gs i).pc ≠ .delete name c ∨ (s'.gs i).Uses name c := by
  cases ha with
  | make name' hpc hnone =>
    by_cases hname : name = name'
    · right
      simp_all [Uses, waits]
    · left
      simp_all
  | delete name' c' hpc =>
    have hname : name ≠ name' := fun he => by simp [he] at hlocks
    left
    simp_all [hname.symm]
  | _ =>
    left
    simp_all

/-- A lock that is unlocked with its entry left has another goroutine that waits for it. -/
theorem exists_waits (h : Inv n s) (hpc : (s.gs i).pc = .unlock name c false) :
    ∃ j, j ≠ i ∧ (s.gs j).pc.waits name c = true := by
  have hat := (h.of i).at_pc
  rw [hpc] at hat
  obtain ⟨j, hreg⟩ := h.exists_registered hat.2
  have hj : j ≠ i := by
    rintro rfl
    simp [hpc, registered] at hreg
  refine ⟨j, hj, ?_⟩
  obtain ⟨name', hdec | hwait⟩ := uses_of_registered hreg
  · exact absurd (h.eq_of_owns (.inl hdec) (.inr hat.1)) hj
  · have hname := (h.mapped ((h.of j).locks_of_uses (.inl hwait))).2
    have hname' := ((h.of i).made_of_owns h.mapped (.inr hat.1)).2
    rwa [← hname', hname]

theorem entry_advance (h : Inv n s) (ha : Advances i s s') (hlocks : s'.locks name = some c) :
    ∃ j, (s'.gs j).Uses name c := by
  rcases locks_advance ha hlocks with ⟨hold, hdel⟩ | hnew
  · obtain ⟨j, hu⟩ := h.entry name c hold
    by_cases hj : j = i
    · subst hj
      rcases uses_self ha hu with hu' | hdel' | ⟨deleted, hpc⟩
      · exact ⟨j, hu'⟩
      · exact absurd hdel' hdel
      · cases deleted with
        | true => simp [Uses, hpc, waits] at hu
        | false =>
          obtain ⟨k, hk, hwait⟩ := h.exists_waits hpc
          exact ⟨k, .inl (by rwa [ha.gs_other hk])⟩
    · exact ⟨j, by rwa [ha.gs_other hj]⟩
  · exact ⟨i, hnew⟩

theorem advance (h : Inv n s) (hn : n < 2 ^ 31) (hi : i < n) (ha : Advances i s s') : Inv n s' where
  of j := by
    by_cases hj : j = i
    · exact hj ▸ (h.of i).advance h.mapped ha
    · exact h.of_other hn ha hj
  idle j hj := by
    rw [ha.gs_other (by omega)]
    exact h.idle j hj
  mapped := mapped_advance h.mapped ha
  waiters := h.waiters_advance hi ha
  entry _ _ := h.entry_advance ha

theorem init : Inv n {} where
  of i := ⟨by simp [inSection], trivial, by simp, nodup_nil, rfl⟩
  idle _ _ := rfl
  mapped := by
    intro name c h
    cases h
  waiters c := by simp [registered, Nat.count_false]
  entry _ _ h := by cases h

theorem reachable (hn : n < 2 ^ 31) (h : Transition.Reachable (step n) {} s) : Inv n s :=
  h.inv (fun hs hstep => by
    obtain ⟨i, hi, ha⟩ := advances_of_step hstep
    exact hs.advance hn hi ha) init

theorem eq_of_owns_name (h : Inv n s) (hi : (s.gs i).Owns name c) (hj : (s.gs j).Owns name c') :
    i = j := by
  -- a goroutine that has deleted the entry has locked `l.mu`, and nobody else has an entry of this
  -- name
  have hwindow : ∀ i c, (s.gs i).pc = .unlock name c true → s.mu = some i ∧
      s.locks name = none := by
    intro i c hpc
    have hmu := (h.of i).mu
    have hat := (h.of i).at_pc
    rw [hpc] at hmu hat
    exact ⟨hmu.1 rfl, hat.2⟩
  by_cases hi' : (s.gs i).pc = .unlock name c true <;> by_cases hj' :
    (s.gs j).pc = .unlock name c' true
  · exact some_inj.1 ((hwindow i c hi').1.symm.trans (hwindow j c' hj').1)
  · have := (h.of j).locks_of_uses (.inr ⟨hj, hj'⟩)
    simp [(hwindow i c hi').2] at this
  · have := (h.of i).locks_of_uses (.inr ⟨hi, hi'⟩)
    simp [(hwindow j c' hj').2] at this
  · have hc := ((h.of i).locks_of_uses (.inr ⟨hi, hi'⟩)).symm.trans
      ((h.of j).locks_of_uses (.inr ⟨hj, hj'⟩))
    rw [some_inj] at hc
    exact h.eq_of_owns hi (hc ▸ hj)

end Inv

/-- A name is locked by one goroutine at most, `Unlock` finds a lock that is locked, and the map has
an entry exactly as long as somebody waits for it or has locked it. -/
theorem exclusive_of_reachable (hn : n < 2 ^ 31) (h : Transition.Reachable (step n) {} s) :
    (∀ i j name c c', (s.gs i).Owns name c → (s.gs j).Owns name c' → i = j) ∧
    (∀ i, (s.gs i).noSuchLock = false ∧ (s.gs i).pc ≠ .unlockMu' true ∧ (s.gs i).pc ≠ .fatal) ∧
    ∀ name, (s.locks name).isSome ↔ ∃ i c, (s.gs i).Uses name c := by
  have hinv := Inv.reachable hn h
  refine ⟨fun i j name c c' => hinv.eq_of_owns_name, fun i => ⟨(hinv.of i).noSuchLock, ?_, ?_⟩,
    fun name => ?_⟩
  · intro hpc
    simpa [hpc, At] using (hinv.of i).at_pc
  · intro hpc
    simpa [hpc, At] using (hinv.of i).at_pc
  · rw [isSome_iff_exists]
    constructor
    · rintro ⟨c, hc⟩
      obtain ⟨i, hu⟩ := hinv.entry name c hc
      exact ⟨i, c, hu⟩
    · rintro ⟨i, c, hu⟩
      exact ⟨c, (hinv.of i).locks_of_uses hu⟩

/-- Goroutine 0 has locked a name, and goroutine 1 waits for it. -/
def contended : List Label :=
  .lock 0 "a" :: replicate 6 (.advance 0) ++ .lock 1 "a" :: replicate 4 (.advance 1)

theorem exclusive_of_reachable_two :
    2 < 2 ^ 31 ∧ ∃ s, Transition.run (step 2) contended {} = some s ∧ (s.gs 0).Owns "a" 0 ∧
      (s.gs 1).pc = .lock "a" 0 ∧ (s.locks "a").isSome ∧ ((s.gs 1).Owns "a" 0 → 1 = 0) := by
  have hrun : ∃ s, Transition.run (step 2) contended {} = some s ∧ ("a", 0) ∈ (s.gs 0).held ∧
      (s.gs 1).pc = .lock "a" 0 := ⟨_, rfl, by decide, rfl⟩
  obtain ⟨s, hs, hheld, hpc⟩ := hrun
  obtain ⟨hone, -, hentry⟩ := exclusive_of_reachable (by decide) ⟨contended, hs⟩
  refine ⟨by decide, s, hs, .inr hheld, hpc, (hentry "a").2 ⟨1, 0, .inl ?_⟩,
    fun hown => hone _ _ _ _ _ hown (.inr hheld)⟩
  rw [hpc]
  rfl

/-- Who has locked a mutex has not given it back. -/
def Owned (s : State) : Prop := ∀ c j, (s.ctrs c).mu = some j → (s.gs j).Owns (s.ctrs c).name c

theorem Inv.owned_advance (h : Inv n s) (ho : Owned s) (ha : Advances i s s') : Owned s' := by
  intro c j hmu
  have hc := ho c j
  have hat := (h.of i).at_pc
  cases ha with
  | lock name c' hpc hfree =>
    rw [hpc] at hat
    have hname := (h.mapped hat).2
    grind [Owns]
  | _ => grind [Owns]

/-- A call that cannot go on waits for `l.mu`, and who has locked it can go on, or for a name that
somebody has locked. -/
theorem waits_of_reachable (hn : n < 2 ^ 31) (h : Transition.Reachable (step n) {} s)
    (hi : (s.gs i).pc ≠ .idle)
    (hwait : advance i s = none) : (∃ j, s.mu = some j ∧ advance j s ≠ none) ∨
      ∃ name c j, (s.gs i).pc = .lock name c ∧ (s.gs j).Owns name c := by
  obtain ⟨hinv, howned⟩ := h.inv (I := fun s => Inv n s ∧ Owned s) (fun hs hstep => by
    obtain ⟨i, hi, ha⟩ := advances_of_step hstep
    exact ⟨hs.1.advance hn hi ha, hs.1.owned_advance hs.2 ha⟩) ⟨.init, by simp [Owned]⟩
  have hmu : s.mu ≠ none → ∃ j, s.mu = some j ∧ advance j s ≠ none := by
    intro hmu
    obtain ⟨j, hj⟩ := ne_none_iff_exists'.1 hmu
    have hat := (hinv.of j).at_pc
    have hsection := (hinv.of j).mu.2 hj
    refine ⟨j, hj, ?_⟩
    unfold advance
    cases hpc : (s.gs j).pc <;> grind [inSection, At]
  have hat := (hinv.of i).at_pc
  unfold advance at hwait
  cases hpc : (s.gs i).pc with
  | idle => exact absurd hpc hi
  | fatal => simp [hpc, At] at hat
  | lock name c =>
    rw [hpc] at hwait hat
    have hlocked : (s.ctrs c).mu ≠ none := by simpa using hwait
    obtain ⟨j, hj⟩ := ne_none_iff_exists'.1 hlocked
    exact .inr ⟨name, c, j, rfl, (hinv.mapped hat).2 ▸ howned c j hj⟩
  | _ => exact .inl (hmu (by grind))

theorem waits_of_reachable_two : ∃ s, Transition.run (step 2) contended {} = some s ∧
    ∃ name c j, (s.gs 1).pc = .lock name c ∧ (s.gs j).Owns name c := by
  have hrun : ∃ s, Transition.run (step 2) contended {} = some s ∧ (s.gs 1).pc ≠ .idle ∧
      advance 1 s = none ∧
      s.mu = none := ⟨_, rfl, by decide, rfl, rfl⟩
  obtain ⟨s, hs, hidle, hwait, hmu⟩ := hrun
  refine ⟨s, hs, (waits_of_reachable (by decide) ⟨_, hs⟩ hidle hwait).resolve_left ?_⟩
  simp [hmu]

end Docker.Locker
