import Docker.Xfer.Basic

/-!
# One transfer for each key

The map `tm.transfers` has exactly the transfers whose end the manager has not dealt with yet
(`Tracked`).
-/

namespace Docker.Xfer
open Transition Transfer Function State

/-! ## What `inactivate` leaves alone -/

namespace State

variable (s : State) (t : Nat)

theorem inactivate_cases : (s.xfer t).startCloses = 0 ∧ s.inactivate t = s ∨
    (s.xfer t).startCloses ≠ 0 ∧ s.waitingTransfers = [] ∧
      s.inactivate t = { s with activeTransfers := s.activeTransfers - 1 } ∨
    (s.xfer t).startCloses ≠ 0 ∧ ∃ w ws, s.waitingTransfers = w :: ws ∧
      s.inactivate t = { s.modify w fun x => { x with startCloses := x.startCloses + 1 } with
        waitingTransfers := ws
        startLog := s.startLog ++ [w] } := by
  unfold inactivate
  split
  next h => exact .inl ⟨h, rfl⟩
  next h =>
    split
    next hw => exact .inr (.inl ⟨h, hw, rfl⟩)
    next w ws hw => exact .inr (.inr ⟨h, w, ws, hw, rfl⟩)

@[simp] theorem inactivate_transfers : (s.inactivate t).transfers = s.transfers := by
  unfold inactivate
  split
  · rfl
  · split <;> rfl

@[simp] theorem inactivate_next : (s.inactivate t).next = s.next := by
  unfold inactivate
  split
  · rfl
  · split <;> rfl

@[simp] theorem inactivate_pc : (s.inactivate t).pc = s.pc := by
  unfold inactivate
  split
  · rfl
  · split <;> rfl

@[simp] theorem inactivate_mu : (s.inactivate t).mu = s.mu := by
  unfold inactivate
  split
  · rfl
  · split <;> rfl

@[simp] theorem inactivate_nextWatcher : (s.inactivate t).nextWatcher = s.nextWatcher := by
  unfold inactivate
  split
  · rfl
  · split <;> rfl

@[simp] theorem inactivate_releasedWatchers :
    (s.inactivate t).releasedWatchers = s.releasedWatchers := by
  unfold inactivate
  split
  · rfl
  · split <;> rfl

theorem inactivate_xfer (u : Nat) :
    ∃ n, (s.inactivate t).xfer u = { s.xfer u with startCloses := n } := by
  obtain ⟨-, h⟩ | ⟨-, -, h⟩ | ⟨-, w, ws, -, h⟩ := s.inactivate_cases t <;> rw [h]
  · exact ⟨_, rfl⟩
  · exact ⟨_, rfl⟩
  · by_cases hu : u = w
    · subst hu
      exact ⟨(s.xfer u).startCloses + 1, by simp⟩
    · exact ⟨(s.xfer u).startCloses, by simp [hu]⟩

end State

/-! ## The invariant of the map -/

/-- The map holds the transfers the manager still tracks, each under its key. -/
structure Tracked (s : State) : Prop where
  entry : ∀ {key t}, s.transfers key = some t → t < s.next ∧ (s.xfer t).key = key ∧
    (s.xfer t).finished = false
  tracked : ∀ {t}, t < s.next → (s.xfer t).finished = false → s.transfers (s.xfer t).key = some t
  /-- The clean-up goroutine goes on from `xfer.Done()` only after the end of the transfer. -/
  done : ∀ {t}, (∃ b, (s.xfer t).cleanup = .gotDone b) ∨ (s.xfer t).finished = true →
    (s.xfer t).running = false

namespace Tracked

variable {s s' : State} {t : Nat}

theorem init (limit : Int) : Tracked (newTransferManager limit) where
  entry h := nomatch h
  tracked h := nomatch h
  done h := by simp [newTransferManager, finished] at h

section
variable (H : Tracked s)
include H

/-- Two states that agree on the map and on what the invariant reads of each transfer. -/
theorem congr (hmap : s'.transfers = s.transfers) (hnext : s'.next = s.next)
    (hx : ∀ t, (s'.xfer t).key = (s.xfer t).key ∧ (s'.xfer t).cleanup = (s.xfer t).cleanup ∧
      ((s.xfer t).running = false → (s'.xfer t).running = false)) :
    Tracked s' where
  entry h := by
    have := H.entry (hmap ▸ h)
    simpa [finished, (hx _).1, (hx _).2.1, hnext] using this
  tracked h hf := by
    rw [hmap, (hx _).1]
    exact H.tracked (hnext ▸ h) (by simpa [finished, (hx _).2.1] using hf)
  done h := (hx _).2.2 (H.done (by simpa [finished, (hx _).2.1] using h))

theorem modify (hkey : (f (s.xfer t)).key = (s.xfer t).key)
    (hcl : (f (s.xfer t)).cleanup = (s.xfer t).cleanup)
    (hrun : (s.xfer t).running = false → (f (s.xfer t)).running = false) :
    Tracked (s.modify t f) := by
  refine H.congr rfl rfl fun u => ?_
  by_cases hu : u = t
  · subst hu
    simpa using ⟨hkey, hcl, hrun⟩
  · simp [hu]

theorem release (t w : Nat) : Tracked (s.modify t (·.release w)) := by
  obtain ⟨c, r, h⟩ := (s.xfer t).release_eq w
  exact H.modify (by rw [h]) (by rw [h]) (by rw [h]; exact id)

theorem advance (hkey : (f (s.xfer t)).key = (s.xfer t).key)
    (hf : (f (s.xfer t)).finished = (s.xfer t).finished)
    (hrun : (∃ b, (f (s.xfer t)).cleanup = .gotDone b) ∨ (f (s.xfer t)).finished = true →
      (f (s.xfer t)).running = false) :
    Tracked (s.modify t f) where
  entry {k u} h := by
    have := H.entry h
    by_cases hu : u = t
    · subst hu
      simpa [hkey, hf] using this
    · simpa [hu] using this
  tracked {u} h hfu := by
    by_cases hu : u = t
    · subst hu
      simp only [modify_xfer, update_self, modify_transfers, hkey] at hfu ⊢
      exact H.tracked h (hf ▸ hfu)
    · simp only [modify_xfer, update_of_ne hu, modify_transfers] at hfu ⊢
      exact H.tracked h hfu
  done {u} h := by
    by_cases hu : u = t
    · subst hu
      simp only [modify_xfer, update_self] at h ⊢
      exact hrun h
    · simp only [modify_xfer, update_of_ne hu] at h ⊢
      exact H.done h

theorem deleteEntry (ht : t < s.next) (hf : (s.xfer t).finished = false)
    (hrun : (s.xfer t).running = false) : Tracked (s.deleteEntry t) where
  entry {k u} h := by
    have hk : k ≠ (s.xfer t).key := by
      rintro rfl
      simp at h
    rw [deleteEntry_transfers, update_of_ne hk] at h
    obtain ⟨hu, hkey, hfin⟩ := H.entry h
    have hut : u ≠ t := by
      rintro rfl
      exact hk hkey.symm
    simpa [hut] using ⟨hu, hkey, hfin⟩
  tracked {u} h hfu := by
    by_cases hu : u = t
    · subst hu
      simp [finished] at hfu
    · simp only [deleteEntry_xfer, update_of_ne hu] at hfu ⊢
      have hmap := H.tracked h hfu
      have hk : (s.xfer u).key ≠ (s.xfer t).key := by
        intro hk
        rw [hk, H.tracked ht hf] at hmap
        exact hu (Option.some.inj hmap).symm
      rw [deleteEntry_transfers, update_of_ne hk, hmap]
  done {u} h := by
    by_cases hu : u = t
    · subst hu
      simpa using hrun
    · simp only [deleteEntry_xfer, update_of_ne hu] at h ⊢
      exact H.done h

theorem inactivate (t : Nat) : Tracked (s.inactivate t) := by
  refine H.congr (by simp) (by simp) fun u => ?_
  obtain ⟨n, h⟩ := s.inactivate_xfer t u
  rw [h]
  exact ⟨rfl, rfl, id⟩

theorem create {c : Nat} {key : String} (hkey : s.transfers key = none) :
    Tracked (s.create c key) where
  entry {k t} h := by
    rw [create_transfers] at h
    by_cases hk : k = key
    · subst hk
      obtain rfl : s.next = t := by simpa using h
      simp [finished]
    · rw [update_of_ne hk] at h
      obtain ⟨ht, hxk, hf⟩ := H.entry h
      have hne : t ≠ s.next := Nat.ne_of_lt ht
      simpa [hne, Nat.lt_succ_of_lt ht] using ⟨hxk, hf⟩
  tracked {t} h hf := by
    rw [create_next, Nat.lt_succ_iff_lt_or_eq] at h
    rcases h with h | rfl
    · have hne : t ≠ s.next := Nat.ne_of_lt h
      simp only [create_xfer, update_of_ne hne] at hf ⊢
      have ht := H.tracked h hf
      have hk : (s.xfer t).key ≠ key := by
        rintro rfl
        rw [hkey] at ht
        cases ht
      rw [create_transfers, update_of_ne hk, ht]
    · simp
  done {t} h := by
    by_cases ht : t = s.next
    · subst ht
      simp [finished] at h
    · simp only [create_xfer, update_of_ne ht] at h ⊢
      exact H.done h

theorem step (h : step l s = some s') : Tracked s' := by
  cases step_cases h with
  | transfer | cancelled | returned | unlock | wake | setConcurrency =>
    exact H.congr rfl rfl fun _ => ⟨rfl, rfl, id⟩
  | create _ _ hkey => exact H.create hkey
  | watch => exact (H.modify rfl rfl id).congr rfl rfl fun _ => ⟨rfl, rfl, id⟩
  | releaseCancelled | release => exact (H.release ..).congr rfl rfl fun _ => ⟨rfl, rfl, id⟩
  | closeInactive | finish => exact H.modify rfl rfl id
  | broadcast => exact H.modify rfl rfl fun _ => rfl
  | receiveInactive ht hc _ =>
    exact H.advance rfl (by simp [finished, hc]) (by simp [finished])
  | receiveDone ht hc hr => exact H.advance rfl (by simp [finished, hc]) fun _ => hr
  | @cleanupInactive t s ht _ hc =>
    obtain ⟨n, hx⟩ := s.inactivate_xfer t t
    exact (H.inactivate t).advance rfl (by rw [hx]; simp [finished, hc]) (by simp [finished])
  | @cleanupDone t s ht _ hc =>
    obtain ⟨n, hx⟩ := s.inactivate_xfer t t
    exact (H.inactivate t).deleteEntry (by simpa using ht)
      (by rw [hx]; simp [finished, hc]) (by rw [hx]; exact H.done (.inl ⟨_, hc⟩))
  | cleanupDoneNil ht _ hc =>
    exact H.deleteEntry ht (by simp [finished, hc]) (H.done (.inl ⟨_, hc⟩))
  | @close t s ht hc =>
    obtain ⟨r, hx⟩ := (s.xfer t).close_eq
    refine H.advance (by simp [hx]) (by simp [finished, hc]) fun _ => ?_
    simpa [hx] using H.done (.inr (by simp [finished, hc]))

end

theorem of_reachable (h : Reachable Xfer.step (newTransferManager limit) s) : Tracked s :=
  h.inv (fun H h => H.step h) (init limit)

end Tracked

/-! ## De-duplication -/

variable {s s' : State} {l : Label} {limit : Int}

/-- An entry is never overwritten, and only the clean-up goroutine of its transfer removes it. -/
theorem step_entry (H : Tracked s) (h : step l s = some s') {key : String}
    (ht : s.transfers key = some t) :
    s'.transfers key = some t ∨ l = .cleanup t ∧ s'.transfers key = none := by
  cases step_cases h with
  | create _ _ hkey =>
    refine .inl ?_
    rw [create_transfers, update_of_ne, ht]
    rintro rfl
    rw [hkey] at ht
    cases ht
  | cleanupInactive => exact .inl (by simpa using ht)
  | @cleanupDone u s hu _ hc =>
    obtain ⟨n, hx⟩ := s.inactivate_xfer u u
    by_cases hk : key = (s.xfer u).key
    · have hmap := H.tracked hu (by simp [finished, hc])
      rw [← hk, ht] at hmap
      cases hmap
      exact .inr ⟨rfl, by simp [hx, hk]⟩
    · exact .inl (by simp [hx, hk, ht])
  | @cleanupDoneNil u s hu _ hc =>
    by_cases hk : key = (s.xfer u).key
    · have hmap := H.tracked hu (by simp [finished, hc])
      rw [← hk, ht] at hmap
      cases hmap
      exact .inr ⟨rfl, by simp [hk]⟩
    · exact .inl (by simp [hk, ht])
  | _ => exact .inl ht

/-- The step of a clean-up goroutine that marks its transfer as dealt with removes the entry of this
transfer. -/
theorem step_finished (H : Tracked s) (h : step l s = some s') {t : Nat} (ht : t < s.next)
    (hf : (s.xfer t).finished = false) (hf' : (s'.xfer t).finished = true) :
    l = .cleanup t ∧ s.transfers (s.xfer t).key = some t ∧ s'.transfers (s.xfer t).key = none := by
  have hmap := H.tracked ht hf
  have H' := H.step h
  rcases step_entry H h hmap with h' | ⟨rfl, h'⟩
  · have := (H'.entry h').2.2
    rw [hf'] at this
    cases this
  · exact ⟨rfl, hmap, h'⟩

/-- `xferFunc` is called exactly where a transfer is created; then no earlier one of the key is
tracked. -/
theorem step_create (H : Tracked s) (h : step l s = some s') (hnext : s'.next ≠ s.next) :
    ∃ c key, l = .lookup c ∧ s.pc c = some (.call key) ∧
      ∀ t < s.next, (s.xfer t).key = key → (s.xfer t).finished = true := by
  cases step_cases h with
  | @create c s key hpc _ hkey =>
    refine ⟨c, key, rfl, hpc, fun t ht hk => ?_⟩
    by_contra hf
    have hmap := H.tracked ht (by simpa using hf)
    rw [hk, hkey] at hmap
    cases hmap
  | cleanupInactive | cleanupDone => simp at hnext
  | _ => exact (hnext rfl).elim

/-- **De-duplication by key.** At most one transfer of a key is running; an entry of the map is
never overwritten, and is removed by the goroutine of its own transfer; `xferFunc` is invoked only
when every earlier transfer of its key has been removed. -/
theorem transfer_dedup (h : Reachable step (newTransferManager limit) s) :
    (∀ t < s.next, ∀ t' < s.next, (s.xfer t).key = (s.xfer t').key →
      (s.xfer t).running = true ∧ (s.xfer t).cancelled = false →
      (s.xfer t').running = true ∧ (s.xfer t').cancelled = false → t = t') ∧
    (∀ l s', step l s = some s' → (∀ key t, s.transfers key = some t →
        s'.transfers key = some t ∨ l = .cleanup t ∧ s'.transfers key = none) ∧
      (∀ t < s.next, (s.xfer t).finished = false → (s'.xfer t).finished = true →
        l = .cleanup t ∧ s.transfers (s.xfer t).key = some t ∧ s'.transfers (s.xfer t).key = none) ∧
      (s'.next ≠ s.next → ∃ c key, l = .lookup c ∧ s.pc c = some (.call key) ∧
        ∀ t < s.next, (s.xfer t).key = key → (s.xfer t).finished = true)) := by
  have H := Tracked.of_reachable h
  refine ⟨fun t ht t' ht' hk hr hr' => ?_, fun l s' hl => ⟨fun key t => step_entry H hl,
    fun t ht => step_finished H hl ht, step_create H hl⟩⟩
  have running_tracked : ∀ {u}, u < s.next → (s.xfer u).running = true →
      s.transfers (s.xfer u).key = some u := by
    intro u hu hrun
    refine H.tracked hu (Bool.eq_false_iff.2 fun hf => ?_)
    rw [H.done (.inr hf)] at hrun
    cases hrun
  have h1 := running_tracked ht hr.1
  have h2 := running_tracked ht' hr'.1
  rw [hk, h2] at h1
  exact (Option.some.inj h1).symm

/-- Two calls for one key, the second while the transfer of the first is running. -/
def sharedCalls : List Label :=
  [.transfer 0 "sha256:a", .lookup 0, .transfer 1 "sha256:a", .lookup 1, .checkDone 1]

theorem transfer_dedup_shared : ∃ s, run step sharedCalls (newTransferManager 3) = some s ∧
    s.pc 0 = some (.returned 0 0) ∧ s.pc 1 = some (.returned 0 1) ∧
    ∀ l s', step l s = some s' → s'.next ≠ s.next → ∃ c key, l = .lookup c ∧
      s.pc c = some (.call key) ∧ ∀ t < s.next, (s.xfer t).key = key → (s.xfer t).finished = true :=
  ⟨_, rfl, rfl, rfl, fun l s' h => ((@transfer_dedup _ 3 ⟨sharedCalls, rfl⟩).2 l s' h).2.2⟩

end Docker.Xfer
