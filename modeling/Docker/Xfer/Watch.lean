import Docker.Xfer.Dedup

/-!
# A watched transfer stays alive

The watcher is in `t.watchers` from the section of `Watch` on, and cancelling and closing
`t.released` both need this map to be empty. That the transfer was alive when the watcher came
follows from the order of the tests in `Transfer`: a transfer that is still in the map has not been
closed, and the call looks at the context after it has added its watcher.
-/

namespace Docker.Xfer
open Transition Function State Transfer List

/-! ## Sections of one transfer -/

namespace Transfer

variable {x : Transfer} {w w' : Nat}

theorem release_of_mem (hw : w ∈ x.watchers) (hne : w ≠ w') :
    x.release w' = { x with watchers := x.watchers.erase w' } := by
  have hmem : w ∈ x.watchers.erase w' := (mem_erase_of_ne hne).2 hw
  exact if_neg (ne_nil_of_mem hmem)

theorem close_of_mem (hw : w ∈ x.watchers) : x.close = { x with closed := true } := by
  exact if_neg (ne_nil_of_mem hw)

theorem release_of_open (h : x.closed = false) : (x.release w).releasedCloses = x.releasedCloses ∧
    (x.release w).closed = false := by
  simp only [release]
  split
  · simp [h]
  · exact ⟨rfl, h⟩

theorem release_closes_le (h : x.releasedCloses ≤ 1) : (x.release w).releasedCloses ≤ 1 := by
  simp only [release]
  split
  · split
    · split
      next h0 => simp [h0]
      next => exact h
    · exact h
  · exact h

theorem close_closes_le (h : x.releasedCloses = 0) : x.close.releasedCloses ≤ 1 := by
  simp only [close]
  split <;> simp [h]

end Transfer

/-! ## The invariant -/

def Pc.locks : Pc → Bool
  | .watching .. | .releasing .. | .unlocking .. => true
  | _ => false

def Pc.watch? : Pc → Option (Nat × Nat)
  | .watching _ t w | .releasing _ t w | .returned t w => some (t, w)
  | _ => none

/-- The watchers that calls have are in the maps of their transfers until they are released. -/
structure Watchers (s : State) : Prop where
  watching : ∀ {c p t w}, s.pc c = some p → p.watch? = some (t, w) → w ∉ s.releasedWatchers →
    w ∈ (s.xfer t).watchers
  fresh : ∀ {c p t w}, s.pc c = some p → p.watch? = some (t, w) → t < s.next ∧ w < s.nextWatcher
  /-- No two calls have the same watcher. -/
  unique : ∀ {c c' p p' t t' w}, s.pc c = some p → s.pc c' = some p' →
    p.watch? = some (t, w) → p'.watch? = some (t', w) → c = c'
  /-- Clients release only what was returned. -/
  released : ∀ {w}, w ∈ s.releasedWatchers → ∃ c t, s.pc c = some (.returned t w)

structure Watched (s : State) : Prop extends Watchers s where
  locked : ∀ {c p}, s.pc c = some p → p.locks = true → s.mu = some c
  /-- A call in the middle of `Transfer` watches the transfer in the map. -/
  current : ∀ {c key t w}, s.pc c = some (.watching key t w) ∨ s.pc c = some (.releasing key t w) →
      s.transfers key = some t
  alive : ∀ {c t w}, s.pc c = some (.returned t w) → w ∉ s.releasedWatchers →
    (s.xfer t).cancelled = false ∧ (s.xfer t).releasedCloses = 0
  /-- Before `Close` the channel `released` is open. -/
  notClosed : ∀ {t}, (s.xfer t).cleanup ≠ .exited → (s.xfer t).closed = false ∧
    (s.xfer t).releasedCloses = 0
  once : ∀ t, (s.xfer t).releasedCloses ≤ 1

namespace Watched

variable {s s' : State} {t : Nat}

theorem init (limit : Int) : Watched (newTransferManager limit) where
  locked h := nomatch h
  current h := by simp [newTransferManager] at h
  watching h := nomatch h
  fresh h := nomatch h
  unique h := nomatch h
  released h := nomatch h
  alive h := nomatch h
  notClosed _ := ⟨rfl, rfl⟩
  once _ := Nat.zero_le _

section
variable (H : Watched s) {c : Nat} {key : String}
include H

/-- Steps that change neither a call nor what the invariant reads of a transfer; entries may go
while nobody holds the lock. -/
theorem congr (hpc : s'.pc = s.pc) (hmu : s'.mu = s.mu) (hn : s'.next = s.next)
    (hw : s'.nextWatcher = s.nextWatcher) (hr : s'.releasedWatchers = s.releasedWatchers)
    (hx : ∀ t, (s'.xfer t).watchers = (s.xfer t).watchers ∧
      (s'.xfer t).cancelled = (s.xfer t).cancelled ∧ (s'.xfer t).closed = (s.xfer t).closed ∧
      (s'.xfer t).releasedCloses = (s.xfer t).releasedCloses ∧
      ((s'.xfer t).cleanup ≠ .exited → (s.xfer t).cleanup ≠ .exited))
    (hmap : s.mu ≠ none → s'.transfers = s.transfers) : Watched s' where
  locked h hl := hmu ▸ H.locked (hpc ▸ h) hl
  current {c key t w} h := by
    rw [hpc] at h
    have hlock : s.mu ≠ none := by
      rcases h with h | h <;> rw [H.locked h rfl] <;> exact Option.some_ne_none c
    rw [hmap hlock]
    exact H.current h
  watching h hp hrel := by
    rw [(hx _).1]
    exact H.watching (hpc ▸ h) hp (hr ▸ hrel)
  fresh h hp := by
    rw [hn, hw]
    exact H.fresh (hpc ▸ h) hp
  unique h h' := H.unique (hpc ▸ h) (hpc ▸ h')
  released h := by
    obtain ⟨c, t, hc⟩ := H.released (hr ▸ h)
    exact ⟨c, t, hpc ▸ hc⟩
  alive h hrel := by
    rw [(hx _).2.1, (hx _).2.2.2.1]
    exact H.alive (hpc ▸ h) (hr ▸ hrel)
  notClosed h := by
    rw [(hx _).2.2.1, (hx _).2.2.2.1]
    exact H.notClosed ((hx _).2.2.2.2 h)
  once t := by
    rw [(hx t).2.2.2.1]
    exact H.once t

theorem modify
    (hf : (f (s.xfer t)).watchers = (s.xfer t).watchers ∧
      (f (s.xfer t)).cancelled = (s.xfer t).cancelled ∧ (f (s.xfer t)).closed = (s.xfer t).closed ∧
      (f (s.xfer t)).releasedCloses = (s.xfer t).releasedCloses ∧
      ((f (s.xfer t)).cleanup ≠ .exited → (s.xfer t).cleanup ≠ .exited)) :
    Watched (s.modify t f) := by
  refine H.congr rfl rfl rfl rfl rfl (fun u => ?_) fun _ => rfl
  by_cases hu : u = t
  · subst hu
    simpa using hf
  · simp [hu]

/-- A call moves on with the watcher it has, or without one, and may give up the lock. -/
theorem move {mu : Option Nat} (hold : ∀ t w, s.pc c ≠ some (.returned t w))
    (hwatch : p.watch? = none ∨ ∃ p₀, s.pc c = some p₀ ∧ p.watch? = p₀.watch?)
    (hmu : mu = s.mu ∧ (p.locks = true → s.mu = some c) ∨ mu = none ∧ s.mu = some c ∧
      p.locks = false)
    (hcur : ∀ key t w, p = .watching key t w ∨ p = .releasing key t w → s.transfers key = some t)
    (halive : ∀ t w, p = .returned t w → (s.xfer t).cancelled = false ∧
      (s.xfer t).releasedCloses = 0) :
    Watched { s.setPc c p with mu } := by
  -- What a call watches after the step it watched before.
  have before : ∀ {c' p' t w}, (s.setPc c p).pc c' = some p' → p'.watch? = some (t, w) →
      ∃ p₀, s.pc c' = some p₀ ∧ p₀.watch? = some (t, w) := by
    intro c' p' t w h hp
    by_cases hc : c' = c
    · subst hc
      obtain rfl : p = p' := by simpa using h
      rcases hwatch with hn | ⟨p₀, hp₀, he⟩
      · rw [hn] at hp
        cases hp
      · exact ⟨p₀, hp₀, he ▸ hp⟩
    · rw [setPc_pc, update_of_ne hc] at h
      exact ⟨p', h, hp⟩
  refine @mk _ ⟨?watching, ?fresh, ?unique, ?released⟩ ?locked ?current ?alive ?notClosed ?once
  case locked =>
    intro c' p' h hl
    by_cases hc : c' = c
    · subst hc
      obtain rfl : p = p' := by simpa using h
      rcases hmu with ⟨rfl, hm⟩ | ⟨rfl, -, hm⟩
      · exact hm hl
      · rw [hm] at hl
        cases hl
    · have h' := H.locked (by simpa [hc] using h) hl
      rcases hmu with ⟨rfl, -⟩ | ⟨rfl, hm, -⟩
      · exact h'
      · rw [hm] at h'
        exact (hc (Option.some.inj h').symm).elim
  case current =>
    intro c' key t w h
    by_cases hc : c' = c
    · subst hc
      exact hcur key t w (by simpa using h)
    · exact H.current (by simpa [hc] using h)
  case watching =>
    intro c' p' t w h hp hr
    obtain ⟨p₀, h₀, hp₀⟩ := before h hp
    exact H.watching h₀ hp₀ hr
  case fresh =>
    intro c' p' t w h hp
    obtain ⟨p₀, h₀, hp₀⟩ := before h hp
    exact H.fresh h₀ hp₀
  case unique =>
    intro c₁ c₂ p₁ p₂ t₁ t₂ w h₁ h₂ hp₁ hp₂
    obtain ⟨_, h₁, hp₁⟩ := before h₁ hp₁
    obtain ⟨_, h₂, hp₂⟩ := before h₂ hp₂
    exact H.unique h₁ h₂ hp₁ hp₂
  case released =>
    intro w h
    obtain ⟨c', t, hc'⟩ := H.released h
    have hne : c' ≠ c := by
      rintro rfl
      exact hold t w hc'
    exact ⟨c', t, by simpa [hne] using hc'⟩
  case alive =>
    intro c' t w h hr
    by_cases hc : c' = c
    · subst hc
      exact halive t w (by simpa using h)
    · exact H.alive (by simpa [hc] using h) hr
  case notClosed => exact H.notClosed
  case once => exact H.once

theorem releaseSection (hpc : s.pc c = some p) (hw : p.watch? = some (t, w)) :
    (∀ {c' p' t' w'}, s.pc c' = some p' → p'.watch? = some (t', w') → c' ≠ c →
      w' ∉ s.releasedWatchers →
      w' ∈ ((s.modify t (·.release w)).xfer t').watchers ∧
      ((s.modify t (·.release w)).xfer t').cancelled = (s.xfer t').cancelled ∧
      ((s.modify t (·.release w)).xfer t').releasedCloses = (s.xfer t').releasedCloses) ∧
    (∀ {u}, ((s.modify t (·.release w)).xfer u).cleanup ≠ .exited →
      ((s.modify t (·.release w)).xfer u).closed = false ∧
      ((s.modify t (·.release w)).xfer u).releasedCloses = 0) ∧
    ∀ u, ((s.modify t (·.release w)).xfer u).releasedCloses ≤ 1 := by
  refine ⟨fun {c' p' t' w'} h hp hne hr => ?_, fun {u} hu => ?_, fun u => ?_⟩
  · have hww : w' ≠ w := by
      rintro rfl
      exact hne (H.unique h hpc hp hw)
    have hmem := H.watching h hp hr
    by_cases ht : t' = t
    · subst ht
      simp only [modify_xfer, update_self, release_of_mem hmem hww]
      exact ⟨(mem_erase_of_ne hww).2 hmem, trivial, trivial⟩
    · simp only [modify_xfer, update_of_ne ht]
      exact ⟨hmem, trivial, trivial⟩
  · by_cases ht : u = t
    · subst ht
      simp only [modify_xfer, update_self] at hu ⊢
      obtain ⟨_, _, he⟩ := (s.xfer u).release_eq w
      rw [he] at hu
      obtain ⟨hcl, hrc⟩ := H.notClosed hu
      obtain ⟨h1, h2⟩ := release_of_open hcl
      exact ⟨h2, h1.trans hrc⟩
    · simp only [modify_xfer, update_of_ne ht] at hu ⊢
      exact H.notClosed hu
  · by_cases ht : u = t
    · subst ht
      simp only [modify_xfer, update_self]
      exact release_closes_le (H.once u)
    · simp only [modify_xfer, update_of_ne ht]
      exact H.once u

theorem releaseCancelled (hpc : s.pc c = some (.releasing key t w)) :
    Watched ((s.modify t (·.release w)).setPc c (.unlocking key t)) := by
  obtain ⟨others, open_, le⟩ := H.releaseSection hpc rfl
  -- The call itself watches nothing any more.
  have other : ∀ {c' p' q}, ((s.modify t (·.release w)).setPc c (.unlocking key t)).pc
      c' = some p' →
      p'.watch? = some q → c' ≠ c ∧ s.pc c' = some p' := by
    intro c' p' q h hp
    by_cases hc : c' = c
    · subst hc
      obtain rfl : Pc.unlocking key t = p' := by simpa using h
      cases hp
    · exact ⟨hc, by simpa [hc] using h⟩
  refine @mk _ ⟨?watching, ?fresh, ?unique, ?released⟩ ?locked ?current ?alive ?notClosed ?once
  case locked =>
    intro c' p' h hl
    by_cases hc : c' = c
    · subst hc
      exact H.locked hpc rfl
    · exact H.locked (by simpa [hc] using h) hl
  case current =>
    intro c' k u w' h
    exact H.current (h.imp (fun h => (other h rfl).2) fun h => (other h rfl).2)
  case watching =>
    intro c' p' u w' h hp hr
    obtain ⟨hc, h⟩ := other h hp
    exact (others h hp hc hr).1
  case fresh =>
    intro c' p' u w' h hp
    exact H.fresh (other h hp).2 hp
  case unique =>
    intro c₁ c₂ p₁ p₂ t₁ t₂ w' h₁ h₂ hp₁ hp₂
    exact H.unique (other h₁ hp₁).2 (other h₂ hp₂).2 hp₁ hp₂
  case released =>
    intro w' h
    obtain ⟨c', u, hc'⟩ := H.released h
    have hne : c' ≠ c := by
      rintro rfl
      rw [hpc] at hc'
      cases hc'
    exact ⟨c', u, by simpa [hne] using hc'⟩
  case alive =>
    intro c' u w' h hr
    obtain ⟨hc, h⟩ := other h rfl
    obtain ⟨-, h1, h2⟩ := others h rfl hc hr
    exact ⟨h1.trans (H.alive h hr).1, h2.trans (H.alive h hr).2⟩
  case notClosed => exact open_
  case once => exact le

theorem release (hpc : s.pc c = some (.returned t w)) :
    Watched { s.modify t (·.release w) with releasedWatchers := w :: s.releasedWatchers } := by
  obtain ⟨others, open_, le⟩ := H.releaseSection hpc rfl
  have other : ∀ {c' p' u w'}, s.pc c' = some p' → p'.watch? = some (u, w') →
      w' ∉ w :: s.releasedWatchers → c' ≠ c ∧ w' ∉ s.releasedWatchers := by
    intro c' p' u w' h hp hr
    refine ⟨?_, fun h => hr (mem_cons_of_mem _ h)⟩
    rintro rfl
    obtain rfl : Pc.returned t w = p' := by simpa [hpc] using h
    cases hp
    exact hr mem_cons_self
  refine @mk _ ⟨?watching, ?fresh, ?unique, ?released⟩ ?locked ?current ?alive ?notClosed ?once
  case locked => exact H.locked
  case current => exact H.current
  case watching =>
    intro c' p' u w' h hp hr
    obtain ⟨hc, hr⟩ := other h hp hr
    exact (others h hp hc hr).1
  case fresh => exact H.fresh
  case unique => exact H.unique
  case released =>
    intro w' h
    rcases mem_cons.1 h with rfl | h
    · exact ⟨c, t, hpc⟩
    · exact H.released h
  case alive =>
    intro c' u w' h hr
    obtain ⟨hc, hr⟩ := other h rfl hr
    obtain ⟨-, h1, h2⟩ := others h rfl hc hr
    exact ⟨h1.trans (H.alive h hr).1, h2.trans (H.alive h hr).2⟩
  case notClosed => exact open_
  case once => exact le

theorem addWatcher (p : Pc) (t : Nat) (hpc : s.pc c = some p₀) (hret : ∀ t w, p₀ ≠ .returned t w)
    (hp : p.watch? = some (t, s.nextWatcher)) (hs' : s'.pc = update s.pc c (some p))
    (hn : s.next ≤ s'.next)
    (ht : t < s'.next) (hw : s'.nextWatcher = s.nextWatcher + 1)
    (hr : s'.releasedWatchers = s.releasedWatchers)
    (hmem : s.nextWatcher ∈ (s'.xfer t).watchers)
    (hx : ∀ {c' p' u w}, s.pc c' = some p' → p'.watch? = some (u, w) → w ∈ (s.xfer u).watchers →
      w ∈ (s'.xfer u).watchers) :
    Watchers s' := by
  have split_pc : ∀ {c' p' u w}, s'.pc c' = some p' → p'.watch? = some (u, w) → c' = c ∧ u = t ∧
      w = s.nextWatcher ∨
      c' ≠ c ∧ s.pc c' = some p' ∧ u < s.next ∧ w < s.nextWatcher := by
    intro c' p' u w h hp'
    rw [hs'] at h
    by_cases hc : c' = c
    · subst hc
      obtain rfl : p = p' := by simpa using h
      rw [hp] at hp'
      cases hp'
      exact .inl ⟨rfl, rfl, rfl⟩
    · rw [update_of_ne hc] at h
      exact .inr ⟨hc, h, H.fresh h hp'⟩
  constructor
  case watching =>
    intro c' p' u w h hp' hrel
    rcases split_pc h hp' with ⟨-, rfl, rfl⟩ | ⟨-, h, -⟩
    · exact hmem
    · exact hx h hp' (H.watching h hp' (hr ▸ hrel))
  case fresh =>
    intro c' p' u w h hp'
    rw [hw]
    rcases split_pc h hp' with ⟨-, rfl, rfl⟩ | ⟨-, -, hu, hlt⟩
    · exact ⟨ht, Nat.lt_succ_self _⟩
    · exact ⟨Nat.lt_of_lt_of_le hu hn, Nat.lt_succ_of_lt hlt⟩
  case unique =>
    intro c' c'' p' p'' u u' w h h' hp' hp''
    rcases split_pc h hp' with ⟨rfl, -, rfl⟩ | ⟨-, h, -, hlt⟩ <;>
      rcases split_pc h' hp'' with ⟨rfl, -, hw⟩ | ⟨-, h', -, hlt'⟩
    · rfl
    · exact (Nat.lt_irrefl _ hlt').elim
    · exact (Nat.lt_irrefl _ (hw ▸ hlt)).elim
    · exact H.unique h h' hp' hp''
  case released =>
    intro w h
    obtain ⟨c', u, hc'⟩ := H.released (hr ▸ h)
    have hne : c' ≠ c := by
      rintro rfl
      rw [hpc] at hc'
      exact hret u w (Option.some.inj hc')
    exact ⟨c', u, by rw [hs', update_of_ne hne, hc']⟩

/-- While the lock is free no call is in the middle of `Transfer`. -/
theorem unlocked (hmu : s.mu = none) (h : s.pc c = some p) : p.locks = false := by
  refine Bool.eq_false_iff.2 fun hl => ?_
  rw [H.locked h hl] at hmu
  cases hmu

theorem watch (hpc : s.pc c = some (.call key)) (hmu : s.mu = none)
    (hmap : s.transfers key = some t) (ht : t < s.next) :
    Watched { (s.modify t (·.watch s.nextWatcher)).setPc c (.watching key t s.nextWatcher) with
      nextWatcher := s.nextWatcher + 1
      mu := some c } := by
  have hx : ∀ u, ∃ ws, (s.modify t (·.watch s.nextWatcher)).xfer u =
    { s.xfer u with watchers := ws } ∧
      ∀ w ∈ (s.xfer u).watchers, w ∈ ws := by
    intro u
    by_cases hu : u = t
    · subst hu
      exact ⟨s.nextWatcher :: (s.xfer u).watchers, by simp [Transfer.watch], fun w =>
        mem_cons_of_mem _⟩
    · exact ⟨(s.xfer u).watchers, by simp [hu], fun w => id⟩
  -- The only call in the middle of `Transfer` is `c`.
  have other : ∀ {c' p}, c' ≠ c → update s.pc c (some (.watching key t s.nextWatcher)) c' =
      some p → s.pc c' = some p ∧ p.locks = false := by
    intro c' p hc h
    rw [update_of_ne hc] at h
    exact ⟨h, H.unlocked hmu h⟩
  refine
    { toWatchers := H.addWatcher (.watching key t s.nextWatcher) t hpc (fun _ _ => nofun) rfl rfl
        (Nat.le_refl _) ht rfl rfl (by simp [Transfer.watch]) fun {c' p' u w} _ _ hw => ?_
      locked := ?locked, current := ?current, alive := ?alive, notClosed := ?notClosed,
      once := ?once }
  · obtain ⟨ws, he, hsub⟩ := hx u
    change w ∈ ((s.modify t (·.watch s.nextWatcher)).xfer u).watchers
    rw [he]
    exact hsub w hw
  case locked =>
    intro c' p h hl
    by_cases hc : c' = c
    · rw [hc]
    · rw [(other hc h).2] at hl
      cases hl
  case current =>
    intro c' key' u w h
    by_cases hc : c' = c
    · subst hc
      obtain ⟨rfl, rfl, -⟩ : key = key' ∧ t = u ∧ s.nextWatcher = w := by simpa using h
      exact hmap
    · rcases h with h | h <;> exact nomatch (other hc h).2
  case alive =>
    intro c' u w h hr
    by_cases hc : c' = c
    · subst hc
      simp at h
    · obtain ⟨ws, he, -⟩ := hx u
      change ((s.modify t (·.watch s.nextWatcher)).xfer u).cancelled = _ ∧
        ((s.modify t (·.watch s.nextWatcher)).xfer u).releasedCloses = _
      rw [he]
      exact H.alive (other hc h).1 hr
  case notClosed =>
    intro u h
    obtain ⟨ws, he, -⟩ := hx u
    change ((s.modify t (·.watch s.nextWatcher)).xfer u).cleanup ≠ _ at h
    change ((s.modify t (·.watch s.nextWatcher)).xfer u).closed = _ ∧
      ((s.modify t (·.watch s.nextWatcher)).xfer u).releasedCloses = _
    rw [he] at h ⊢
    exact H.notClosed h
  case once =>
    intro u
    obtain ⟨ws, he, -⟩ := hx u
    change ((s.modify t (·.watch s.nextWatcher)).xfer u).releasedCloses ≤ 1
    rw [he]
    exact H.once u

theorem create (hpc : s.pc c = some (.call key)) (hmu : s.mu = none) :
    Watched (s.create c key) := by
  have hx : ∀ {u}, u < s.next → (s.create c key).xfer u = s.xfer u := by
    intro u hu
    rw [create_xfer, update_of_ne (Nat.ne_of_lt hu)]
  have other : ∀ {c' p}, c' ≠ c → (s.create c key).pc c' = some p → s.pc c' = some p ∧
      p.locks = false := by
    intro c' p hc h
    rw [create_pc, update_of_ne hc] at h
    exact ⟨h, H.unlocked hmu h⟩
  have self : ∀ {p}, (s.create c key).pc c = some p → .returned s.next s.nextWatcher = p := by
    intro p h
    simpa using h
  refine
    { toWatchers := H.addWatcher (.returned s.next s.nextWatcher) s.next hpc (fun _ _ => nofun) rfl
        (by simp) (by simp) (by simp) (by simp) (by simp) (by simp)
        fun {c' p' u w} h hp hw => by rwa [hx (H.fresh h hp).1]
      locked := ?locked, current := ?current, alive := ?alive, notClosed := ?notClosed,
      once := ?once }
  case locked =>
    intro c' p h hl
    by_cases hc : c' = c
    · subst hc
      cases self h
      cases hl
    · rw [(other hc h).2] at hl
      cases hl
  case current =>
    intro c' key' u w h
    by_cases hc : c' = c
    · subst hc
      rcases h with h | h <;> cases self h
    · rcases h with h | h <;> exact nomatch (other hc h).2
  case alive =>
    intro c' u w h hr
    by_cases hc : c' = c
    · subst hc
      cases self h
      simp
    · have h := (other hc h).1
      rw [hx (H.fresh h rfl).1]
      exact H.alive h (by simpa using hr)
  case notClosed =>
    intro u h
    rw [create_xfer] at h ⊢
    by_cases hu : u = s.next
    · subst hu
      simp
    · rw [update_of_ne hu] at h ⊢
      exact H.notClosed h
  case once =>
    intro u
    rw [create_xfer]
    by_cases hu : u = s.next
    · subst hu
      simp
    · rw [update_of_ne hu]
      exact H.once u

theorem inactivate (t : Nat) : Watched (s.inactivate t) := by
  refine H.congr (by simp) (by simp) (by simp) (by simp) (by simp) (fun u => ?_) (by simp)
  obtain ⟨n, h⟩ := s.inactivate_xfer t u
  rw [h]
  exact ⟨rfl, rfl, rfl, rfl, id⟩

/-- The clean-up goroutine removes an entry: no call is in the middle of `Transfer`. -/
theorem deleteEntry (hmu : s.mu = none) (h : (s.xfer t).cleanup ≠ .exited) :
    Watched (s.deleteEntry t) := by
  refine H.congr rfl rfl rfl rfl rfl (fun u => ?_) fun hne => (hne hmu).elim
  by_cases hu : u = t
  · subst hu
    simpa using h
  · simp [hu]

theorem close (hc : (s.xfer t).cleanup = .closing) :
    Watched (s.modify t fun x => { x.close with cleanup := .exited }) := by
  obtain ⟨r, he⟩ := (s.xfer t).close_eq
  have hrc : (s.xfer t).releasedCloses = 0 := (H.notClosed (by rw [hc]; nofun)).2
  have hx : ∀ {u}, u ≠ t → (s.modify t fun x => { x.close with cleanup := .exited }).xfer u =
      s.xfer u := by
    intro u hu
    rw [modify_xfer, update_of_ne hu]
  constructor
  case toWatchers =>
    refine ⟨fun {c p u w} h hp hr => ?_, H.fresh, H.unique, H.released⟩
    have hw := H.watching h hp hr
    by_cases hu : u = t
    · subst hu
      simpa [he] using hw
    · rwa [hx hu]
  case locked => exact H.locked
  case current => exact H.current
  case alive =>
    intro c u w h hr
    by_cases hu : u = t
    · subst hu
      have hw := H.watching h rfl hr
      simpa [close_of_mem hw] using H.alive h hr
    · rw [hx hu]
      exact H.alive h hr
  case notClosed =>
    intro u h
    by_cases hu : u = t
    · subst hu
      simp at h
    · rw [hx hu] at h ⊢
      exact H.notClosed h
  case once =>
    intro u
    by_cases hu : u = t
    · subst hu
      simpa using close_closes_le hrc
    · rw [hx hu]
      exact H.once u

theorem step (T : Tracked s) (h : step l s = some s') : Watched s' := by
  cases step_cases h with
  | transfer hpc | wake hpc _ =>
    exact H.move (by simp [hpc]) (.inl rfl) (.inl ⟨rfl, fun h => by cases h⟩) (by simp) (by simp)
  | create hpc hmu _ => exact H.create hpc hmu
  | watch hpc hmu hmap => exact H.watch hpc hmu hmap (T.entry hmap).1
  | cancelled hpc _ =>
    refine H.move (by simp [hpc]) (.inr ⟨_, hpc, rfl⟩)
      (.inl ⟨rfl, fun _ => H.locked hpc rfl⟩) ?_ (by simp)
    rintro key t w (⟨⟨⟩⟩ | ⟨⟨⟩⟩)
    exact H.current (.inl hpc)
  | @returned c s t w key hpc hc =>
    refine H.move (by simp [hpc]) (.inr ⟨_, hpc, rfl⟩)
      (.inr ⟨rfl, H.locked hpc rfl, rfl⟩) (by simp) ?_
    -- The transfer is still in the map, so `Close` has not been called.
    have hf := (T.entry (H.current (.inl hpc))).2.2
    have hne : (s.xfer t).cleanup ≠ .exited := by
      intro he
      simp [finished, he] at hf
    rintro _ _ ⟨⟩
    exact ⟨hc, (H.notClosed hne).2⟩
  | releaseCancelled hpc => exact H.releaseCancelled hpc
  | unlock hpc =>
    exact H.move (by simp [hpc]) (.inl rfl) (.inr ⟨rfl, H.locked hpc rfl, rfl⟩) (by simp) (by simp)
  | release hpc _ => exact H.release hpc
  | setConcurrency =>
    exact H.congr rfl rfl rfl rfl rfl (fun _ => ⟨rfl, rfl, rfl, rfl, id⟩) fun _ => rfl
  | closeInactive | finish | broadcast => exact H.modify ⟨rfl, rfl, rfl, rfl, id⟩
  | receiveInactive _ hc | receiveDone _ hc =>
    exact H.modify ⟨rfl, rfl, rfl, rfl, fun _ => by simp [hc]⟩
  | @cleanupInactive t s _ _ hc =>
    obtain ⟨n, hx⟩ := s.inactivate_xfer t t
    exact (H.inactivate t).modify ⟨rfl, rfl, rfl, rfl, fun _ => by rw [hx]; simp [hc]⟩
  | @cleanupDone t s _ hmu hc =>
    obtain ⟨n, hx⟩ := s.inactivate_xfer t t
    exact (H.inactivate t).deleteEntry (by simpa using hmu) (by rw [hx]; simp [hc])
  | cleanupDoneNil _ hmu hc => exact H.deleteEntry hmu (by simp [hc])
  | close _ hc => exact H.close hc

end

theorem of_reachable (h : Reachable Xfer.step (newTransferManager limit) s) : Watched s := by
  have H : Tracked s ∧ Watched s :=
    h.inv (I := fun s => Tracked s ∧ Watched s) (fun H h => ⟨H.1.step h, H.2.step H.1 h⟩)
      ⟨.init limit, init limit⟩
  exact H.2

end Watched

/-- **A watched transfer stays alive.** Until the watcher that `Transfer` has returned is released,
the transfer is not cancelled and `released` is open; it is closed at most once. -/
theorem transfer_watched {s : State} {limit : Int}
    (h : Reachable step (newTransferManager limit) s) :
    (∀ c t w, s.pc c = some (.returned t w) → w ∉ s.releasedWatchers →
      (s.xfer t).cancelled = false ∧ (s.xfer t).releasedCloses = 0) ∧
    ∀ t, (s.xfer t).releasedCloses ≤ 1 :=
  ⟨fun _ _ _ hpc hr => (Watched.of_reachable h).alive hpc hr, (Watched.of_reachable h).once⟩

/-- The first client of a shared transfer releases its watcher; the second still watches. -/
theorem transfer_watched_shared : ∃ s, run step (sharedCalls ++ [.release 0])
    (newTransferManager 3) = some s ∧
      0 ∈ s.releasedWatchers ∧ s.pc 1 = some (.returned 0 1) ∧ 1 ∉ s.releasedWatchers ∧
      (s.xfer 0).cancelled = false ∧ (s.xfer 0).releasedCloses = 0 := by
  refine ⟨_, rfl, by decide, rfl, by decide, ?_⟩
  exact (@transfer_watched _ 3 ⟨sharedCalls ++ [.release 0], rfl⟩).1 1 0 1 rfl (by decide)

end Docker.Xfer
