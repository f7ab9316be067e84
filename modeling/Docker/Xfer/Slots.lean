import Docker.Lib.Count
import Docker.Xfer.Dedup

/-!
# Slot accounting

A slot is taken in `Transfer`, handed over to the first waiting transfer or given back in
`inactivate`, and the clean-up goroutine of a transfer executes `inactivate` at most once for it.
-/

namespace Docker.Xfer
open Transition Transfer State List Function

/-- Started, and the manager has dealt neither with its inactive signal nor with its end. -/
def Transfer.holdsSlot (x : Transfer) : Prop :=
  x.startCloses ≠ 0 ∧ x.inactivated = false ∧ x.finished = false

instance (x : Transfer) : Decidable x.holdsSlot := inferInstanceAs (Decidable (_ ∧ _))

/-- Nothing has been signalled, and the clean-up goroutine still waits. -/
def Transfer.untouched (x : Transfer) : Prop :=
  x.inactiveClosed = false ∧ x.progressClosed = false ∧ x.running = true ∧ x.cleanup = .select false

/-- Transfer functions neither close `inactive` nor finish before `start` is closed, and limits are
not negative. -/
def wellBehaved (s : State) : Label → Bool
  | .setConcurrency limit => decide (0 ≤ limit)
  | .closeInactive t | .finish t => decide ((s.xfer t).startCloses ≠ 0)
  | _ => true

/-- The part of the invariant about the limits, which only `SetConcurrency` changes. -/
structure Limits (s : State) : Prop where
  nonneg : 0 ≤ s.concurrencyLimit
  le_max : s.concurrencyLimit ≤ s.maxLimit
  unlimited : s.concurrencyLimit = 0 → s.unlimited = true

structure Slots (s : State) : Prop extends Limits s where
  active : s.activeTransfers = Nat.count (fun t => (s.xfer t).holdsSlot) s.next
  once : ∀ t, (s.xfer t).startCloses ≤ 1
  waiting : ∀ {t}, t ∈ s.waitingTransfers → t < s.next ∧ (s.xfer t).startCloses = 0
  nodup : s.waitingTransfers.Nodup
  unstarted : ∀ {t}, (s.xfer t).startCloses = 0 → (s.xfer t).untouched
  order : s.startLog ++ s.waitingTransfers = s.queueLog
  bound : s.unlimited = true ∨ s.activeTransfers ≤ s.maxLimit
  busy : s.waitingTransfers ≠ [] → 1 ≤ s.activeTransfers

namespace Slots

variable {s s' : State} {t : Nat}

theorem init {limit : Int} (h : 0 ≤ limit) : Slots (newTransferManager limit) where
  nonneg := h
  le_max := Int.le_refl _
  unlimited h := by simpa [newTransferManager] using h
  active := rfl
  once _ := Nat.zero_le _
  waiting h := nomatch h
  nodup := nodup_nil
  unstarted _ := ⟨rfl, rfl, rfl, rfl⟩
  order := rfl
  bound := .inr h
  busy h := (h rfl).elim

/-- Steps that leave the manager's fields alone and no slot changes hands. -/
theorem congr (H : Slots s) (hlimits : Limits s')
    (hx : ∀ t, (s'.xfer t).startCloses = (s.xfer t).startCloses ∧
      ((s'.xfer t).holdsSlot ↔ (s.xfer t).holdsSlot) ∧
      ((s.xfer t).startCloses = 0 → (s.xfer t).untouched → (s'.xfer t).untouched))
    (hbound : s.unlimited = true ∨ s.activeTransfers ≤ s.maxLimit →
      s'.unlimited = true ∨ s.activeTransfers ≤ s'.maxLimit := by exact id)
    (hact : s'.activeTransfers = s.activeTransfers := by rfl) (hn : s'.next = s.next := by rfl)
    (hwait : s'.waitingTransfers = s.waitingTransfers := by rfl)
      (hq : s'.queueLog = s.queueLog := by rfl)
    (hs : s'.startLog = s.startLog := by rfl) : Slots s' where
  toLimits := hlimits
  active := by
    rw [hact, H.active, hn]
    exact congrArg _ (Count.count_congr fun k _ => (hx k).2.1.symm)
  once t := by
    rw [(hx t).1]
    exact H.once t
  waiting h := by
    rw [hn, (hx _).1]
    exact H.waiting (hwait ▸ h)
  nodup := hwait ▸ H.nodup
  unstarted h := by
    have h0 := (hx _).1 ▸ h
    exact (hx _).2.2 h0 (H.unstarted h0)
  order := by rw [hwait, hq, hs, H.order]
  bound := by
    rw [hact]
    exact hbound H.bound
  busy := by
    rw [hwait, hact]
    exact H.busy

theorem modify (H : Slots s) (hf : (f (s.xfer t)).startCloses = (s.xfer t).startCloses ∧
      ((f (s.xfer t)).holdsSlot ↔ (s.xfer t).holdsSlot) ∧
      ((s.xfer t).startCloses = 0 → (s.xfer t).untouched → (f (s.xfer t)).untouched)) :
        Slots (s.modify t f) := by
  refine H.congr ⟨H.nonneg, H.le_max, H.unlimited⟩ fun u => ?_
  by_cases hu : u = t
  · subst hu
    simpa using hf
  · simp [hu]

/-- A signal or a move of the clean-up goroutine of a transfer that has been started. -/
theorem modify_started (H : Slots s) (h0 : (s.xfer t).startCloses ≠ 0)
    (hf : (f (s.xfer t)).startCloses = (s.xfer t).startCloses)
    (hi : (f (s.xfer t)).inactivated = (s.xfer t).inactivated := by rfl)
    (hd : (f (s.xfer t)).finished = (s.xfer t).finished := by rfl) : Slots (s.modify t f) :=
  H.modify ⟨hf, by simp only [holdsSlot, hf, hi, hd], fun h => (h0 h).elim⟩

theorem release (H : Slots s) (t w : Nat) : Slots (s.modify t (·.release w)) := by
  obtain ⟨c, r, h⟩ := (s.xfer t).release_eq w
  exact H.modify (by rw [h]; exact ⟨rfl, Iff.rfl, fun _ => id⟩)

/-- The clean-up goroutine goes on only after a signal, hence after the start. -/
theorem started (H : Slots s) (h : ¬(s.xfer t).untouched) : (s.xfer t).startCloses ≠ 0 :=
  fun h0 => h (H.unstarted h0)

section
variable (H : Slots s) (ht : t < s.next) (hslot : (s.xfer t).holdsSlot)
include H ht hslot

theorem giveBack (hempty : s.waitingTransfers = [])
    (hf : (f (s.xfer t)).startCloses = (s.xfer t).startCloses) (hgone : ¬(f (s.xfer t)).holdsSlot) :
    Slots ({ s with activeTransfers := s.activeTransfers - 1 }.modify t f) := by
  have hx : ∀ {u}, u ≠ t → (s.modify t f).xfer u = s.xfer u := by
    intro u hu
    rw [modify_xfer, update_of_ne hu]
  have hstart : ∀ u, ((s.modify t f).xfer u).startCloses = (s.xfer u).startCloses := by
    intro u
    by_cases hu : u = t
    · subst hu
      simpa using hf
    · rw [hx hu]
  constructor
  case toLimits => exact ⟨H.nonneg, H.le_max, H.unlimited⟩
  case active =>
    have hcount := Count.count_erase (q := fun u => ((s.modify t f).xfer u).holdsSlot) ht
      (fun k _ hk => by rw [hx hk]) hslot (by simpa using hgone)
    change s.activeTransfers - 1 = Nat.count (fun u => ((s.modify t f).xfer u).holdsSlot) s.next
    rw [H.active, ← hcount]
    omega
  case once =>
    intro u
    exact Nat.le_trans (Nat.le_of_eq (hstart u)) (H.once u)
  case waiting =>
    intro u hu
    exact nomatch hempty ▸ hu
  case nodup => exact H.nodup
  case unstarted =>
    intro u h
    have h0 : (s.xfer u).startCloses = 0 := (hstart u).symm.trans h
    have hu : u ≠ t := by
      rintro rfl
      exact hslot.1 h0
    change ((s.modify t f).xfer u).untouched
    rw [hx hu]
    exact H.unstarted h0
  case order => exact H.order
  case bound => exact H.bound.imp id fun h => Int.le_trans (Int.sub_le_self _ (by decide)) h
  case busy => exact fun h => (h hempty).elim

theorem handOver (hwait : s.waitingTransfers = w :: ws)
    (hf : (f (s.xfer t)).startCloses = (s.xfer t).startCloses) (hgone : ¬(f (s.xfer t)).holdsSlot) :
    Slots ({ s.modify w fun x => { x with startCloses := x.startCloses + 1 } with
      waitingTransfers := ws
      startLog := s.startLog ++ [w] }.modify t f) := by
  obtain ⟨hw, hw0⟩ := H.waiting (hwait ▸ mem_cons_self)
  have hnd := nodup_cons.1 (hwait ▸ H.nodup)
  have hwt : w ≠ t := by
    rintro rfl
    exact hslot.1 hw0
  -- The transfers in between: `w` started, `t` still as it was.
  let m := s.modify w fun x => { x with startCloses := x.startCloses + 1 }
  have hmt : m.xfer t = s.xfer t := by
    simp [m, hwt.symm]
  have hmw : m.xfer w = { s.xfer w with startCloses := 1 } := by
    simp [m, hw0]
  have hm : ∀ {u}, u ≠ w → m.xfer u = s.xfer u := by
    intro u hu
    simp [m, hu]
  have hx : ∀ {u}, u ≠ t → (m.modify t f).xfer u = m.xfer u := by
    intro u hu
    rw [modify_xfer, update_of_ne hu]
  have hxt : (m.modify t f).xfer t = f (s.xfer t) := by
    rw [modify_xfer, update_self, hmt]
  have hwslot : (m.xfer w).holdsSlot := by
    rw [hmw]
    refine ⟨Nat.one_ne_zero, ?_, ?_⟩ <;>
      simp [inactivated, finished, (H.unstarted hw0).2.2.2]
  constructor
  case toLimits => exact ⟨H.nonneg, H.le_max, H.unlimited⟩
  case active =>
    have h1 := Count.count_insert (p := fun u => (s.xfer u).holdsSlot)
      (q := fun u => (m.xfer u).holdsSlot) hw (fun k _ hk => by rw [hm hk])
        (fun h => h.1 hw0) hwslot
    have h2 := Count.count_erase
      (q := fun u => ((m.modify t f).xfer u).holdsSlot) ht (fun k _ hk => by rw [hx hk])
      (by rwa [hmt]) (by rwa [hxt])
    change s.activeTransfers = Nat.count (fun u => ((m.modify t f).xfer u).holdsSlot) s.next
    rw [H.active]
    omega
  case once =>
    intro u
    change ((m.modify t f).xfer u).startCloses ≤ 1
    by_cases hu : u = t
    · rw [hu, hxt, hf]
      exact H.once t
    · rw [hx hu]
      by_cases huw : u = w
      · rw [huw, hmw]
      · rw [hm huw]
        exact H.once u
  case waiting =>
    intro u hu
    have huw : u ≠ w := by
      rintro rfl
      exact hnd.1 hu
    obtain ⟨hlt, h0⟩ := H.waiting (hwait ▸ mem_cons_of_mem w hu)
    have hut : u ≠ t := by
      rintro rfl
      exact hslot.1 h0
    change u < s.next ∧ ((m.modify t f).xfer u).startCloses = 0
    rw [hx hut, hm huw]
    exact ⟨hlt, h0⟩
  case nodup => exact hnd.2
  case unstarted =>
    intro u h
    change ((m.modify t f).xfer u).startCloses = 0 at h
    change ((m.modify t f).xfer u).untouched
    have hut : u ≠ t := by
      rintro rfl
      rw [hxt, hf] at h
      exact hslot.1 h
    rw [hx hut] at h ⊢
    have huw : u ≠ w := by
      rintro rfl
      rw [hmw] at h
      cases h
    rw [hm huw] at h ⊢
    exact H.unstarted h
  case order =>
    change (s.startLog ++ [w]) ++ ws = s.queueLog
    rw [append_assoc, singleton_append, ← hwait]
    exact H.order
  case bound => exact H.bound
  case busy => exact fun _ => H.busy (hwait ▸ cons_ne_nil w ws)

/-- The section of the clean-up goroutine of a transfer that holds a slot. -/
theorem inactivate (hf : (f (s.xfer t)).startCloses = (s.xfer t).startCloses)
    (hgone : ¬(f (s.xfer t)).holdsSlot) :
    Slots ((s.inactivate t).modify t f) := by
  obtain ⟨h0, -⟩ | ⟨-, hwait, h⟩ | ⟨-, w, ws, hwait, h⟩ := s.inactivate_cases t
  · exact (hslot.1 h0).elim
  · rw [h]
    exact H.giveBack ht hslot hwait hf hgone
  · rw [h]
    exact H.handOver ht hslot hwait hf hgone

end

/-! A new transfer takes a slot or waits; the others are as they were. -/

theorem create_xfer_of_ne {key : String} (h : t ≠ s.next) : (s.create c key).xfer t = s.xfer t := by
  rw [create_xfer, update_of_ne h]

theorem create_count (s : State) (c : Nat) (key : String) :
    Nat.count (fun u => ((s.create c key).xfer u).holdsSlot) (s.create c key).next =
      Nat.count (fun u => (s.xfer u).holdsSlot) s.next + if s.hasSlot then 1 else 0 := by
  rw [create_next, Nat.count_succ]
  congr 1
  · exact Count.count_congr fun k hk => by rw [create_xfer_of_ne (Nat.ne_of_lt hk)]
  · cases hs : s.hasSlot <;> simp [hs, holdsSlot, inactivated, finished]

theorem create_once (H : Slots s) (c : Nat) (key : String) (u : Nat) :
    ((s.create c key).xfer u).startCloses ≤ 1 := by
  by_cases hu : u = s.next
  · subst hu
    cases hs : s.hasSlot <;> simp [hs]
  · rw [create_xfer_of_ne hu]
    exact H.once u

theorem create_unstarted (H : Slots s) {key : String}
    (h : ((s.create c key).xfer t).startCloses = 0) : ((s.create c key).xfer t).untouched := by
  by_cases hu : t = s.next
  · subst hu
    simp [untouched]
  · rw [create_xfer_of_ne hu] at h ⊢
    exact H.unstarted h

theorem create_waiting (H : Slots s) (c : Nat) (key : String) (h : t ∈ s.waitingTransfers) :
    t < (s.create c key).next ∧ ((s.create c key).xfer t).startCloses = 0 := by
  obtain ⟨hlt, h0⟩ := H.waiting h
  rw [create_xfer_of_ne (Nat.ne_of_lt hlt), create_next]
  exact ⟨Nat.lt_succ_of_lt hlt, h0⟩

theorem create_started (H : Slots s) (c : Nat) (key : String) (hs : s.hasSlot = true) :
    Slots (s.create c key) := by
  have hact : (s.create c key).activeTransfers = s.activeTransfers + 1 := by
    simp [create, hs]
  have hwait : (s.create c key).waitingTransfers = s.waitingTransfers := by
    simp [create, hs]
  constructor
  case toLimits => simpa [create, hs] using ⟨H.nonneg, H.le_max, H.unlimited⟩
  case active =>
    rw [hact, create_count, H.active, hs]
    rfl
  case once => exact H.create_once c key
  case waiting => exact fun h => H.create_waiting c key (hwait ▸ h)
  case nodup => exact hwait ▸ H.nodup
  case unstarted => exact H.create_unstarted
  case order => simpa [create, hs] using H.order
  case bound =>
    have hfree : s.concurrencyLimit = 0 ∨ s.activeTransfers < s.concurrencyLimit := by
      simpa [hasSlot] using hs
    rcases hfree with h0 | hlt
    · exact .inl (by simpa [create, hs] using H.unlimited h0)
    · refine .inr ?_
      simp only [create, hs, if_true]
      exact Int.le_trans hlt H.le_max
  case busy =>
    intro h
    rw [hact]
    exact Int.le_trans (H.busy (hwait ▸ h)) (Int.le_of_lt (Int.lt_succ _))

theorem create_queued (H : Slots s) (c : Nat) (key : String) (hs : s.hasSlot = false) :
    Slots (s.create c key) := by
  have hact : (s.create c key).activeTransfers = s.activeTransfers := by
    simp [create, hs]
  have hwait : (s.create c key).waitingTransfers = s.waitingTransfers ++ [s.next] := by
    simp [create, hs]
  have hfull : ¬s.concurrencyLimit = 0 ∧ s.concurrencyLimit ≤ s.activeTransfers := by
    simpa [hasSlot] using hs
  constructor
  case toLimits => simpa [create, hs] using ⟨H.nonneg, H.le_max, H.unlimited⟩
  case active =>
    rw [hact, create_count, H.active, hs]
    rfl
  case once => exact H.create_once c key
  case waiting =>
    intro u h
    rw [hwait, mem_append, mem_singleton] at h
    rcases h with h | rfl
    · exact H.create_waiting c key h
    · simp [hs]
  case nodup =>
    rw [hwait, nodup_append]
    refine ⟨H.nodup, nodup_singleton _, fun u hu v hv => ?_⟩
    obtain rfl := mem_singleton.1 hv
    exact Nat.ne_of_lt (H.waiting hu).1
  case unstarted => exact H.create_unstarted
  case order => simp [create, hs, ← H.order]
  case bound =>
    simpa [create, hs] using H.bound
  case busy =>
    intro _
    rw [hact]
    have h1 : 1 ≤ s.concurrencyLimit := lt_of_le_of_ne H.nonneg fun h => hfull.1 h.symm
    exact Int.le_trans h1 hfull.2

theorem step (H : Slots s) (hok : wellBehaved s l = true) (h : step l s = some s') : Slots s' := by
  cases step_cases h with
  | transfer | cancelled | returned | unlock | wake =>
    exact H.congr ⟨H.nonneg, H.le_max, H.unlimited⟩ fun _ => ⟨rfl, Iff.rfl, fun _ => id⟩
  | @create c s key =>
    cases hs : s.hasSlot with
    | true => exact H.create_started c key hs
    | false => exact H.create_queued c key hs
  | @watch t c s key =>
    have H' : Slots (s.modify t (·.watch s.nextWatcher)) := H.modify ⟨rfl, Iff.rfl, fun _ => id⟩
    exact H'.congr ⟨H.nonneg, H.le_max, H.unlimited⟩ fun _ => ⟨rfl, Iff.rfl, fun _ => id⟩
  | releaseCancelled | release =>
    exact (H.release _ _).congr ⟨H.nonneg, H.le_max, H.unlimited⟩ fun _ =>
      ⟨rfl, Iff.rfl, fun _ => id⟩
  | @setConcurrency limit s _ =>
    have hlimit : 0 ≤ limit := by simpa [wellBehaved] using hok
    refine H.congr ⟨hlimit, Int.le_max_right _ _, fun h0 => ?_⟩
      (fun _ => ⟨rfl, Iff.rfl, fun _ => id⟩) ?_
    · obtain rfl : limit = 0 := h0
      simp
    · rintro (hu | hle)
      · exact .inl (by simp [hu])
      · exact .inr (Int.le_trans hle (Int.le_max_left _ _))
  | closeInactive | finish =>
    exact H.modify_started (by simpa [wellBehaved] using hok) rfl
  | broadcast _ hp _ =>
    exact H.modify_started (H.started fun hu => by simp [hu.2.1] at hp) rfl
  | receiveInactive _ hc hi =>
    exact H.modify_started (H.started fun hu => by simp [hu.1] at hi) rfl
      (by simp [inactivated, hc]) (by simp [finished, hc])
  | receiveDone _ hc hr =>
    exact H.modify_started (H.started fun hu => by simp [hu.2.2.1] at hr) rfl
      (by simp [inactivated, hc]) (by simp [finished, hc])
  | @cleanupInactive t s ht _ hc =>
    refine H.inactivate ht ⟨H.started fun hu => ?_, ?_, ?_⟩ rfl fun h => by cases h.2.1
    · cases hc.symm.trans hu.2.2.2
    · simp [inactivated, hc]
    · simp [finished, hc]
  | @cleanupDone t s ht _ hc =>
    have H' : Slots ((s.inactivate t).modify t fun x => { x with cleanup := .closing }) := by
      refine H.inactivate ht ⟨H.started fun hu => ?_, ?_, ?_⟩ rfl fun h => by cases h.2.2
      · cases hc.symm.trans hu.2.2.2
      · simp [inactivated, hc]
      · simp [finished, hc]
    exact H'.congr ⟨H'.nonneg, H'.le_max, H'.unlimited⟩ fun _ => ⟨rfl, Iff.rfl, fun _ => id⟩
  | @cleanupDoneNil t s ht _ hc =>
    have H' : Slots (s.modify t fun x => { x with cleanup := .closing }) := by
      refine H.modify ⟨rfl, Iff.intro (fun h => by cases h.2.2) fun h => ?_, fun _ hu => ?_⟩
      · have hi := h.2.1
        simp [inactivated, hc] at hi
      · cases hc.symm.trans hu.2.2.2
    exact H'.congr ⟨H'.nonneg, H'.le_max, H'.unlimited⟩ fun _ => ⟨rfl, Iff.rfl, fun _ => id⟩
  | @close t s ht hc =>
    obtain ⟨r, hx⟩ := (s.xfer t).close_eq
    refine H.modify_started (H.started fun hu => ?_) (by rw [hx]) ?_ ?_
    · cases hc.symm.trans hu.2.2.2
    · simp [inactivated, hc]
    · simp [finished, hc]

theorem of_reachable (hlimit : 0 ≤ limit)
    (h : Reachable (restrict Xfer.step wellBehaved) (newTransferManager limit) s) : Slots s :=
  h.inv (fun H h => H.step (restrict_eq_some.1 h).1 (restrict_eq_some.1 h).2) (init hlimit)

end Slots

/-- **Slot accounting.** `activeTransfers` counts the started transfers whose inactive signal or end
is not dealt with, no `start` is closed twice, the active transfers stay below the largest limit,
the queue is first in, first out, and while a transfer waits another is active. -/
theorem transfer_slots {s : State} {limit : Int} (hlimit : 0 ≤ limit)
    (h : Reachable (restrict step wellBehaved) (newTransferManager limit) s) :
    s.activeTransfers = Nat.count (fun t => (s.xfer t).startCloses ≠ 0 ∧
      (s.xfer t).inactivated = false ∧ (s.xfer t).finished = false) s.next ∧
    (∀ t, (s.xfer t).startCloses ≤ 1) ∧
    (s.unlimited = true ∨ s.activeTransfers ≤ s.maxLimit) ∧
    s.startLog ++ s.waitingTransfers = s.queueLog ∧
    (s.waitingTransfers ≠ [] → 1 ≤ s.activeTransfers) := by
  have H := Slots.of_reachable hlimit h
  exact ⟨H.active, H.once, H.bound, H.order, H.busy⟩

/-- Three transfers with one slot: the second is started when the first becomes inactive. -/
def queuedCalls : List Label :=
  [.transfer 0 "a", .lookup 0, .transfer 1 "b", .lookup 1, .transfer 2 "c", .lookup 2,
    .closeInactive 0, .receiveInactive 0, .cleanup 0]

theorem transfer_slots_queued : ∃ s,
    run (restrict step wellBehaved) queuedCalls (newTransferManager 1) = some s ∧
      s.startLog = [1] ∧ s.waitingTransfers = [2] ∧ s.activeTransfers = 1 ∧ 1 ≤ s.activeTransfers :=
  ⟨_, rfl, rfl, rfl, rfl, (@transfer_slots _ 1 (by decide) ⟨queuedCalls, rfl⟩).2.2.2.2 (by decide)⟩

end Docker.Xfer
