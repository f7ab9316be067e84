import Docker.Lib.Count
import Docker.Lib.Transition

/-!
# Mounting the overlay

`Get` and `Put` in `daemon/graphdriver/overlay2/overlay.go` with the reference counter of
`graphdriver/counter.go`, for one layer with lower layers and any number of concurrent callers, each
of which gets the layer once and puts it once. The counter is atomic, and mounting and unmounting
are steps of their own. Mounts on one directory stack up.

A `Get` counts before it mounts, so a second one can return while the overlay is not mounted yet.
-/

namespace Docker.Overlay2

open Transition List Option

/-- `minfo`: the entry of the counter for the merged directory. -/
structure Minfo where
  check : Bool := false
  count : Int := 0
  deriving DecidableEq

/-- The first use of the counter looks whether the directory is mounted already. -/
def Minfo.checked (m : Minfo) (isMounted : Bool) : Minfo :=
  if m.check then m else { check := true, count := if isMounted then m.count + 1 else m.count }

def Minfo.increment (m : Minfo) (isMounted : Bool) : Minfo :=
  { m.checked isMounted with count := (m.checked isMounted).count + 1 }

def Minfo.decrement (m : Minfo) (isMounted : Bool) : Minfo :=
  { m.checked isMounted with count := (m.checked isMounted).count - 1 }

inductive Pc where
  /-- `Get`, before `Increment`. -/
  | getting
  /-- `Get` has counted to one, and is about to check the label and to mount. -/
  | mounting
  /-- `Get` has mounted, and is about to change the owner of the work directory. -/
  | chowning
  /-- `Get` fails, and is about to run the deferred function. -/
  | failing
  /-- `Get` has returned the merged directory, and `Put` has not counted yet. -/
  | holding
  /-- The counter is down to zero, and the overlay is about to be unmounted. -/
  | unmounting
  | returned
  deriving DecidableEq

def Pc.counted : Pc → Bool
  | .mounting | .chowning | .failing | .holding => true
  | _ => false

structure State where
  info : Minfo := {}
  /-- How many times the overlay is mounted on the merged directory. -/
  mounts : Nat := 0
  calls : List Pc := []
  deriving DecidableEq

def State.isMounted (s : State) : Bool := 0 < s.mounts

/-- Everybody is back, and every `Get` that succeeded was matched. -/
def State.quiescent (s : State) : Bool := s.calls.all (· == .returned)

def State.goto (s : State) (c : Nat) (pc : Pc) : State := { s with calls := s.calls.set c pc }

inductive Label where
  | get
  | increment (c : Nat)
  /-- `ok` is false if the label is too large or the mount fails. -/
  | mount (c : Nat) (ok : Bool)
  | chown (c : Nat) (ok : Bool)
  /-- The decrement of `Put`, or of the deferred function of `Get`. -/
  | decrement (c : Nat)
  | unmount (c : Nat)
  deriving DecidableEq

def step : Label → State → Option State
  | .get, s => some { s with calls := s.calls ++ [.getting] }
  | .increment c, s =>
    if s.calls[c]? = some .getting then
      let info := s.info.increment s.isMounted
      some ({ s with info := info }.goto c (if info.count > 1 then .holding else .mounting))
    else none
  | .mount c ok, s =>
    if s.calls[c]? = some .mounting then
      some (if ok then { s with mounts := s.mounts + 1 }.goto c .chowning else s.goto c .failing)
    else none
  | .chown c ok, s =>
    if s.calls[c]? = some .chowning then some (s.goto c (if ok then .holding else .failing))
      else none
  | .decrement c, s =>
    if s.calls[c]? = some .holding ∨ s.calls[c]? = some .failing then
      let info := s.info.decrement s.isMounted
      some ({ s with info := info }.goto c (if info.count > 0 then .returned else .unmounting))
    else none
  | .unmount c, s =>
    if s.calls[c]? = some .unmounting then some ({ s with mounts := s.mounts - 1 }.goto c .returned)
      else none

variable {s s' : State} {c : Nat}

/-! ## Counting -/

/-- How many callers are counted, about to mount and about to unmount, and how many mounts there
are. -/
@[ext]
structure Tally where
  counted : Nat
  mounting : Nat
  unmounting : Nat
  mounts : Nat

namespace Tally

/-- What a step does to the numbers; `ok` says that nobody counts while another is about to mount,
and that no mount fails. -/
inductive Step (ok : Bool) (t : Tally) : Tally → Prop where
  | same : Step ok t t
  | first (h : t.counted = 0) (hok : ok = true → t.mounting = 0) :
    Step ok t { t with counted := 1, mounting := t.mounting + 1 }
  | more (h : 0 < t.counted) (hok : ok = true → t.mounting = 0) :
    Step ok t { t with counted := t.counted + 1 }
  | mount (h : 0 < t.mounting) : Step ok t
    { t with mounting := t.mounting - 1, mounts := t.mounts + 1 }
  | mountFails (h : 0 < t.mounting) (hok : ok = false) :
    Step ok t { t with mounting := t.mounting - 1 }
  | fewer (h : 1 < t.counted) (hm : t.mounting < t.counted) :
    Step ok t { t with counted := t.counted - 1 }
  | last (h : t.counted = 1) (hm : t.mounting = 0) :
    Step ok t { t with counted := 0, unmounting := t.unmounting + 1 }
  | unmount (h : 0 < t.unmounting) : Step ok t
    { t with unmounting := t.unmounting - 1, mounts := t.mounts - 1 }

/-- Somebody is about to mount only if somebody is counted, and then one caller; each mount has an
unmount that is to come. -/
structure Bounded (t : Tally) : Prop where
  mounting_le : t.mounting ≤ min t.counted 1
  mounts_le : t.mounts + t.mounting ≤ min t.counted 1 + t.unmounting

/-- Whoever is about to mount is the only one; otherwise the overlay is mounted as long as somebody
is counted. -/
structure Held (t : Tally) : Prop where
  alone : 0 < t.mounting → t.counted = 1
  le_mounts : min t.counted 1 + t.unmounting ≤ t.mounts + t.mounting

theorem Bounded.step (h : Bounded t) (hs : Step ok t t') : Bounded t' := by
  obtain ⟨hle, hmounts⟩ := h
  cases hs with
  | same => exact ⟨hle, hmounts⟩
  | first | more | mount | mountFails | fewer | last | unmount =>
    exact ⟨by simp only; omega, by simp only; omega⟩

theorem Held.step (h : Held t) (hs : Step true t t') : Held t' := by
  obtain ⟨halone, hmounts⟩ := h
  cases hs with
  | same => exact ⟨halone, hmounts⟩
  | mountFails _ hok => cases hok
  | first _ hok =>
    have hm := hok rfl
    exact ⟨fun _ => rfl, by simp only; omega⟩
  | more _ hok =>
    have hm := hok rfl
    exact ⟨fun h => by simp only at h; omega, by simp only; omega⟩
  | mount | fewer | last | unmount =>
    exact ⟨fun h => by simp only at h ⊢; omega, by simp only; omega⟩

end Tally

/-! ## The callers and their numbers -/

def State.tally (s : State) : Tally where
  counted := s.calls.countP Pc.counted
  mounting := s.calls.countP (· == .mounting)
  unmounting := s.calls.countP (· == .unmounting)
  mounts := s.mounts

theorem toNat_le_countP (p : Pc → Bool) (hc : s.calls[c]? = some pc) :
    (p pc).toNat ≤ s.calls.countP p := by
  cases hp : p pc with
  | false => exact Nat.zero_le _
  | true => exact countP_pos_iff.2 ⟨pc, mem_of_getElem? hc, hp⟩

theorem counted_eq (calls : List Pc) :
    calls.countP Pc.counted = calls.countP (· == .mounting) + calls.countP fun pc =>
      pc.counted && pc != .mounting := by
  induction calls with
  | nil => rfl
  | cons pc calls ih =>
    simp only [countP_cons, ih]
    cases pc <;> simp [Pc.counted] <;> omega

/-- The numbers when a caller goes from `pc` to `pc'`. -/
structure Moved (t t' : Tally) (pc pc' : Pc) : Prop where
  counted : t'.counted + pc.counted.toNat = t.counted + pc'.counted.toNat
  mounting : t'.mounting + (pc == .mounting).toNat = t.mounting + (pc' == .mounting).toNat
  unmounting : t'.unmounting + (pc == .unmounting).toNat = t.unmounting + (pc' == .unmounting).toNat
  mounting_le : t.mounting + (pc.counted && pc != .mounting).toNat ≤ t.counted

theorem Moved.of_set (hc : s.calls[c]? = some pc) (h : s'.calls = s.calls.set c pc') :
    Moved s.tally s'.tally pc pc' where
  counted := by
    rw [State.tally, h]
    exact Count.countP_set _ hc
  mounting := by
    rw [State.tally, h]
    exact Count.countP_set (· == .mounting) hc
  unmounting := by
    rw [State.tally, h]
    exact Count.countP_set (· == .unmounting) hc
  mounting_le := by
    simp only [State.tally, counted_eq]
    exact Nat.add_le_add_left (toNat_le_countP (fun pc => pc.counted && pc != .mounting) hc) _

theorem Moved.of_release (hc : s.calls[c]? = some pc) (hpc : pc = .holding ∨ pc = .failing)
    (h : s'.calls = s.calls.set c pc') : Moved s.tally s'.tally .holding pc' := by
  obtain ⟨h₁, h₂, h₃, h₄⟩ := Moved.of_set hc h
  obtain rfl | rfl := hpc <;> exact ⟨h₁, h₂, h₃, h₄⟩

/-- The counter is the number of those who are counted, and was used before anything was mounted. -/
structure Agrees (s : State) : Prop where
  count : s.info.count = s.tally.counted
  check : s.info.check = false → s.tally.counted = 0 ∧ s.mounts = 0

/-- A `Get` counts only when no other one is about to mount, and mounts succeed. -/
def noRace (s : State) : Label → Bool
  | .increment _ => s.calls.all (· != .mounting)
  | .mount _ ok => ok
  | _ => true

namespace Agrees

theorem checked_count (h : Agrees s) : (s.info.checked s.isMounted).count = s.tally.counted := by
  unfold Minfo.checked
  split
  · exact h.count
  · next hcheck =>
    have hmounts := (h.check (by simpa using hcheck)).2
    simp [State.isMounted, hmounts, h.count]

theorem increment_count (h : Agrees s) :
    (s.info.increment s.isMounted).count = s.tally.counted + 1 := by
  rw [Minfo.increment, h.checked_count]

theorem decrement_count (h : Agrees s) :
    (s.info.decrement s.isMounted).count = s.tally.counted - 1 := by
  rw [Minfo.decrement, h.checked_count]

theorem check_checked (m : Minfo) (b : Bool) : (m.checked b).check = true := by
  unfold Minfo.checked
  split
  · assumption
  · rfl

theorem check_of_counted (h : Agrees s) (hc : s.calls[c]? = some pc) (hpc : pc.counted = true) :
    s.info.check = true := by
  cases hcheck : s.info.check with
  | true => rfl
  | false =>
    have hpos := toNat_le_countP Pc.counted hc
    rw [hpc] at hpos
    exact absurd (h.check hcheck).1 (Nat.ne_of_gt hpos)

theorem mounting_of_noRace (h : noRace s (.increment c) = true) : s.tally.mounting = 0 := by
  rw [noRace, List.all_eq_true] at h
  exact List.countP_eq_zero.2 fun pc hpc => by simpa using h pc hpc

theorem of_tally (htally : s'.tally = t) (hcount : s'.info.count = t.counted)
    (hcheck : s'.info.check = true) (hs : Tally.Step ok s.tally t) :
    Agrees s' ∧ Tally.Step ok s.tally s'.tally := by
  rw [htally]
  exact ⟨⟨htally ▸ hcount, fun hf => by rw [hcheck] at hf; cases hf⟩, hs⟩

section
variable (h : Agrees s)
include h

theorem increment (hc : s.calls[c]? = some .getting)
    (hs : State.goto { s with info := s.info.increment s.isMounted } c
      (if (s.info.increment s.isMounted).count > 1 then .holding else .mounting) = s') :
    Agrees s' ∧ Tally.Step (noRace s (.increment c)) s.tally s'.tally := by
  have hinc := h.increment_count
  split at hs
  · have hm : Moved s.tally s'.tally .getting .holding := .of_set hc (hs ▸ rfl)
    have htally : s'.tally = { s.tally with counted := s.tally.counted + 1 } :=
      Tally.ext hm.counted hm.mounting hm.unmounting (hs ▸ rfl)
    exact of_tally htally (hs ▸ hinc) (hs ▸ check_checked ..) (.more (by omega) mounting_of_noRace)
  · have hm : Moved s.tally s'.tally .getting .mounting := .of_set hc (hs ▸ rfl)
    have hzero : s.tally.counted = 0 := by omega
    have htally : s'.tally = { s.tally with counted := 1, mounting := s.tally.mounting + 1 } :=
      Tally.ext (hm.counted.trans (by rw [hzero]; rfl)) hm.mounting hm.unmounting (hs ▸ rfl)
    exact of_tally htally (hs ▸ hinc.trans (by rw [hzero]; rfl)) (hs ▸ check_checked ..)
      (.first hzero mounting_of_noRace)

theorem decrement (hc : s.calls[c]? = some pc) (hpc : pc = .holding ∨ pc = .failing)
    (hs : State.goto { s with info := s.info.decrement s.isMounted } c
      (if (s.info.decrement s.isMounted).count > 0 then .returned else .unmounting) = s') :
    Agrees s' ∧ Tally.Step (noRace s (.decrement c)) s.tally s'.tally := by
  have hdec := h.decrement_count
  split at hs
  · have hm : Moved s.tally s'.tally .holding .returned := .of_release hc hpc (hs ▸ rfl)
    have htally : s'.tally = { s.tally with counted := s.tally.counted - 1 } :=
      Tally.ext (Nat.eq_sub_of_add_eq hm.counted) hm.mounting hm.unmounting (hs ▸ rfl)
    exact of_tally htally (hs ▸ hdec.trans (by simp only; omega)) (hs ▸ check_checked ..)
      (.fewer (by omega) hm.mounting_le)
  · have hm : Moved s.tally s'.tally .holding .unmounting := .of_release hc hpc (hs ▸ rfl)
    have hle : s.tally.mounting + 1 ≤ s.tally.counted := hm.mounting_le
    have hone : s.tally.counted = 1 := by omega
    have htally : s'.tally = { s.tally with counted := 0, unmounting := s.tally.unmounting + 1 } :=
      Tally.ext (Nat.add_right_cancel (hm.counted.trans hone)) hm.mounting hm.unmounting (hs ▸ rfl)
    exact of_tally htally (hs ▸ hdec.trans (by rw [hone]; rfl)) (hs ▸ check_checked ..)
      (.last hone (by omega))

theorem step (hl : step l s = some s') : Agrees s' ∧ Tally.Step (noRace s l) s.tally s'.tally := by
  cases l with
  | get =>
    cases hl
    have htally : State.tally { s with calls := s.calls ++ [.getting] } = s.tally := by
      simp [State.tally, Pc.counted]
    rw [htally]
    exact ⟨⟨by rw [htally]; exact h.count, by rw [htally]; exact h.check⟩, .same⟩
  | increment c =>
    simp only [Overlay2.step, ite_none_right_eq_some, some_inj] at hl
    exact h.increment hl.1 hl.2
  | mount c ok =>
    simp only [Overlay2.step, ite_none_right_eq_some, some_inj] at hl
    obtain ⟨hc, hs⟩ := hl
    have hpos := toNat_le_countP (· == .mounting) hc
    have hcheck := h.check_of_counted hc rfl
    cases ok with
    | true =>
      have hm : Moved s.tally s'.tally .mounting .chowning := .of_set hc (hs ▸ rfl)
      have htally :
        s'.tally =
        { s.tally with mounting := s.tally.mounting - 1, mounts := s.tally.mounts + 1 } :=
        Tally.ext (Nat.add_right_cancel hm.counted)
          (Nat.eq_sub_of_add_eq hm.mounting) hm.unmounting (hs ▸ rfl)
      exact of_tally htally (hs ▸ h.count) (hs ▸ hcheck) (.mount hpos)
    | false =>
      have hm : Moved s.tally s'.tally .mounting .failing := .of_set hc (hs ▸ rfl)
      have htally : s'.tally = { s.tally with mounting := s.tally.mounting - 1 } :=
        Tally.ext (Nat.add_right_cancel hm.counted)
          (Nat.eq_sub_of_add_eq hm.mounting) hm.unmounting (hs ▸ rfl)
      exact of_tally htally (hs ▸ h.count) (hs ▸ hcheck) (.mountFails hpos rfl)
  | chown c ok =>
    simp only [Overlay2.step, ite_none_right_eq_some, some_inj] at hl
    obtain ⟨hc, hs⟩ := hl
    have htally : s'.tally = s.tally := by
      cases ok with
      | true =>
        have hm : Moved s.tally s'.tally .chowning .holding := .of_set hc (hs ▸ rfl)
        exact Tally.ext (Nat.add_right_cancel hm.counted) hm.mounting hm.unmounting (hs ▸ rfl)
      | false =>
        have hm : Moved s.tally s'.tally .chowning .failing := .of_set hc (hs ▸ rfl)
        exact Tally.ext (Nat.add_right_cancel hm.counted) hm.mounting hm.unmounting (hs ▸ rfl)
    exact of_tally htally (hs ▸ h.count) (hs ▸ h.check_of_counted hc rfl) .same
  | decrement c =>
    simp only [Overlay2.step, ite_none_right_eq_some, some_inj] at hl
    obtain ⟨hc | hc, hs⟩ := hl
    · exact h.decrement hc (.inl rfl) hs
    · exact h.decrement hc (.inr rfl) hs
  | unmount c =>
    simp only [Overlay2.step, ite_none_right_eq_some, some_inj] at hl
    obtain ⟨hc, hs⟩ := hl
    have hm : Moved s.tally s'.tally .unmounting .returned := .of_set hc (hs ▸ rfl)
    have hmounts : s'.mounts = s.mounts - 1 := hs ▸ rfl
    have htally : s'.tally =
      { s.tally with unmounting := s.tally.unmounting - 1, mounts := s.tally.mounts - 1 } :=
      Tally.ext hm.counted hm.mounting (Nat.eq_sub_of_add_eq hm.unmounting) hmounts
    refine ⟨⟨?_, fun hf => ?_⟩, ?_⟩
    · rw [htally, ← hs]
      exact h.count
    · rw [← hs] at hf
      obtain ⟨hzero, hnone⟩ := h.check hf
      rw [htally, hmounts, hnone]
      exact ⟨hzero, rfl⟩
    · rw [htally]
      exact .unmount (toNat_le_countP (· == .unmounting) hc)

end

end Agrees

/-! ## Every run -/

structure Inv (s : State) : Prop where
  agrees : Agrees s
  bounded : s.tally.Bounded

theorem Inv.init : Inv {} := ⟨⟨rfl, fun _ => ⟨rfl, rfl⟩⟩, ⟨Nat.le_refl _, Nat.le_refl _⟩⟩

theorem Inv.step (h : Inv s) (hl : step l s = some s') : Inv s' :=
  have hs := h.agrees.step hl
  ⟨hs.1, h.bounded.step hs.2⟩

theorem Inv.of_reachable (h : Reachable Overlay2.step {} s) : Inv s := h.inv Inv.step .init

theorem mounts_of_quiescent (h : Inv s) (hq : s.quiescent = true) : s.mounts = 0 := by
  have hreturned : ∀ pc ∈ s.calls, pc = .returned := by simpa [State.quiescent] using hq
  have hzero : ∀ p : Pc → Bool, p .returned = false → s.calls.countP p = 0 := fun p hp =>
    countP_eq_zero.2 fun pc hpc => by rw [hreturned pc hpc, hp]; exact Bool.false_ne_true
  have hcounted : s.tally.counted = 0 := hzero _ rfl
  have hunmounting : s.tally.unmounting = 0 := hzero _ rfl
  have hle := h.bounded.mounts_le
  rw [hcounted, hunmounting] at hle
  exact Nat.eq_zero_of_le_zero (Nat.le_trans (Nat.le_add_right ..) hle)

theorem held_of_noRace (h : Reachable (restrict step noRace) {} s) : Inv s ∧ s.tally.Held := by
  refine h.inv (I := fun s => Inv s ∧ s.tally.Held) (fun h hl => ?_) ⟨.init, ⟨nofun, Nat.le_refl _⟩⟩
  obtain ⟨hok, hl⟩ := restrict_eq_some.1 hl
  obtain ⟨hinv, hheld⟩ := h
  have hs := (hinv.agrees.step hl).2
  rw [hok] at hs
  exact ⟨hinv.step hl, hheld.step hs⟩

theorem isMounted_of_held (h : s.tally.Held) (hc : s.calls[c]? = some .holding) :
    s.isMounted = true := by
  have hm : Moved s.tally (s.goto c .returned).tally .holding .returned := .of_set hc rfl
  have hle : s.tally.mounting + 1 ≤ s.tally.counted := hm.mounting_le
  have halone := h.alone
  have hmounts := h.le_mounts
  have : 0 < s.mounts := by
    change 0 < s.tally.mounts
    omega
  exact decide_eq_true this

/-- Where no `Get` counts while another one is about to mount, and mounts succeed, the overlay is
mounted from the return of a `Get` until the `Put` for it counts. In every run, it is not mounted
when everybody is back. -/
theorem mounted_while_held (s : State) :
    (Reachable (restrict step noRace) {} s → ∀ c : Nat, s.calls[c]? = some .holding →
      s.isMounted = true) ∧
    (Reachable step {} s → s.quiescent = true → s.isMounted = false) := by
  refine ⟨fun h c hc => ?_, fun h hq => ?_⟩
  · exact isMounted_of_held (held_of_noRace h).2 hc
  · exact decide_eq_false (by rw [mounts_of_quiescent (.of_reachable h) hq]; exact Nat.lt_irrefl 0)

/-- Two callers, one after the other: the second finds the overlay mounted, and unmounts it. -/
theorem mounted_while_held_two :
    let get : List Label :=
  [.get, .get, .increment 0, .mount 0 true, .chown 0 true, .increment 1, .decrement 0]
    let put : List Label := [.decrement 1, .unmount 1]
    ∃ s s', run (restrict step noRace) get {} = some s ∧ s.calls[1]? = some .holding ∧
      s.isMounted = true ∧
      run step (get ++ put) {} = some s' ∧ s'.quiescent = true ∧ s'.isMounted = false := by
  intro get put
  have hget : run (restrict step noRace) get {} = some ⟨⟨true, 1⟩, 1, [.returned, .holding]⟩ := by
    decide
  have hput : run step (get ++ put) {} = some ⟨⟨true, 0⟩, 0, [.returned, .returned]⟩ := by decide
  exact ⟨_, _, hget, rfl, (mounted_while_held _).1 ⟨_, hget⟩ 1 rfl, hput, rfl,
    (mounted_while_held _).2 ⟨_, hput⟩ rfl⟩

/-- The first caller has counted and not mounted yet when the second one returns. -/
theorem held_not_mounted : ∃ s, run step [.get, .get, .increment 0, .increment 1] {} = some s ∧
    s.calls[1]? = some .holding ∧ s.isMounted = false := by
  decide +kernel

end Docker.Overlay2
