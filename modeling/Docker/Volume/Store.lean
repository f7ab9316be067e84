import Docker.Lib.Transition

/-!
# The volume store

`volume/store/store.go` on Unix, where all names are valid. Every call holds the lock of its name
from the beginning to the end; between two steps of a call, calls for other names can make theirs.
Any call of the drivers, the plugins and the database can fail.

A driver returns volumes with its own name and the name it was asked for, so `names[n]` is kept as
the driver of the volume. Labels, scopes and options are left out.
-/

namespace Docker.Volume

open Function Transition List Option

set_option linter.dupNamespace false

abbrev Name := String
abbrev Driver := String
abbrev Ref := String

def defaultDriverName : Driver := "local"

structure Volume where
  name : Name
  driverName : Driver
  deriving DecidableEq

inductive Error where
  /-- `conflict: volume name must be unique` -/
  | nameConflict
  /-- `no such volume` -/
  | noSuchVolume
  /-- `volume is in use`, with the references -/
  | volumeInUse (refs : List Ref)
  /-- An error of a driver, of the plugins or of the database. -/
  | driver
  deriving DecidableEq

inductive Op where
  | create (name : Name) (driverName : Driver)
  | createWithRef (name : Name) (driverName : Driver) (ref : Ref)
  | get (name : Name)
  | getWithRef (name : Name) (driverName : Driver) (ref : Ref)
  | remove (v : Volume)
  | dereference (v : Volume) (ref : Ref)
  deriving DecidableEq

inductive Pc where
  /-- It waits for the lock of its name. -/
  | lock
  /-- `create` looks the name up. -/
  | getNamed
  /-- `getVolume` looks the name up. -/
  | getVolume
  /-- `getVolume` asks the driver of the stored volume. -/
  | ask (d : Driver)
  /-- `getVolume` asks all drivers. -/
  | probe
  /-- The driver is asked for the volume, and `create` has it create one. -/
  | getDriver
  | setNamed (d : Driver)
  /-- `Remove` looks at the references. -/
  | checkRefs
  /-- `vd.Remove` -/
  | removeVolume
  | purge
  /-- `Dereference` drops the reference. -/
  | filterRefs
  | unlock (res : Except Error (Option Driver))
  | returned (res : Except Error (Option Driver))
  deriving DecidableEq

inductive Answer where
  | fails
  | succeeds
  /-- The first driver with the volume, of those that are asked in turn. -/
  | found (d : Driver)
  deriving DecidableEq

/-- `names[name]` and `refs[name]`, which is empty if there is no such entry. -/
structure Slot where
  volume : Option Driver := none
  refs : List Ref := []
  deriving DecidableEq

namespace Op

def name : Op → Name
  | create name _ | createWithRef name _ _ | get name | getWithRef name _ _ => name
  | remove v | dereference v _ => v.name

def driverName : Op → Driver
  | create _ d | createWithRef _ d _ | getWithRef _ d _ => d
  | remove v | dereference v _ => v.driverName
  | get _ => ""

/-- The driver that `GetDriver` returns. -/
def driver (op : Op) : Driver := if op.driverName = "" then defaultDriverName else op.driverName

/-- The reference that `setNamed` gets. -/
def ref : Op → Ref
  | createWithRef _ _ ref | getWithRef _ _ ref => ref
  | _ => ""

/-- The call returns a volume with a reference. -/
def withRef : Op → Bool
  | createWithRef .. | getWithRef .. => true
  | _ => false

def creates : Op → Bool
  | create .. | createWithRef .. => true
  | _ => false

/-- The volume is taken from the driver that was given, whatever is stored. -/
def overwrites : Op → Bool
  | getWithRef .. => true
  | _ => false

def entry : Op → Pc
  | create .. | createWithRef .. => .getNamed
  | get _ => .getVolume
  | getWithRef .. => .getDriver
  | remove _ => .checkRefs
  | dereference .. => .filterRefs

/-- Where the call goes on if `getVolume` fails: `create` asks the default driver. -/
def noVolume (op : Op) (e : Error) : Pc := if op.creates then .getDriver else .unlock (.error e)

/-- The steps of a call that holds the lock of its name. -/
def next (op : Op) (slot : Slot) : Pc → Answer → Option (Slot × Pc)
  | .getNamed, _ =>
    match slot.volume with
    | some d =>
      if d ≠ op.driverName ∧ op.driverName ≠ "" ∧ op.driverName ≠ defaultDriverName then
        some (slot, .unlock (.error .nameConflict))
      else some (slot, .setNamed d)
    | none => some (slot, if op.driverName = "" then .getVolume else .getDriver)
  | .getVolume, .fails => some (slot, op.noVolume .driver)
  | .getVolume, _ =>
    match slot.volume with
    | some d => some (slot, .ask d)
    | none => some (slot, .probe)
  | .ask d, .succeeds => some (slot, .setNamed d)
  | .ask _, _ => some (slot, op.noVolume .driver)
  | .probe, .found d => some (slot, .setNamed d)
  | .probe, .succeeds => some (slot, op.noVolume .noSuchVolume)
  | .probe, .fails => some (slot, op.noVolume .driver)
  | .getDriver, .succeeds => some (slot, .setNamed op.driver)
  | .getDriver, _ => some (slot, .unlock (.error .driver))
  | .setNamed d, _ =>
    some ({ volume := some d, refs := if op.ref ≠ "" then slot.refs ++ [op.ref] else slot.refs },
      .unlock (.ok (some d)))
  | .checkRefs, _ =>
    some (slot, if slot.refs ≠ [] then .unlock (.error (.volumeInUse slot.refs)) else .removeVolume)
  | .removeVolume, .succeeds => some (slot, .purge)
  | .removeVolume, _ => some (slot, .unlock (.error .driver))
  | .purge, _ => some ({}, .unlock (.ok none))
  | .filterRefs, _ =>
    match op with
    | .dereference _ ref =>
      some ({ slot with refs := slot.refs.filter (· ≠ ref) }, .unlock (.ok none))
    | _ => none
  | .lock, _ | .unlock _, _ | .returned _, _ => none

end Op

/-! ## Concurrent calls -/

/-- A reference that was given out with a volume. -/
structure Held where
  name : Name
  driver : Driver
  ref : Ref
  deriving DecidableEq

structure State where
  slots : Name → Slot := fun _ => {}
  locks : Name → Option Nat := fun _ => none
  /-- The calls in the order they were made. -/
  calls : List (Op × Pc) := []
  /-- The references that were given out and not dropped. -/
  held : List Held := []

inductive Label where
  | call (op : Op)
  | lock (c : Nat)
  | step (c : Nat) (answer : Answer)
  | unlock (c : Nat)
  deriving DecidableEq

def dropped : Op → Pc → Option Held
  | .dereference v ref, .filterRefs => some ⟨v.name, v.driverName, ref⟩
  | _, _ => none

/-- What a call gives out when it returns. -/
def given (op : Op) : Except Error (Option Driver) → List Held
  | .ok (some d) => if op.withRef then [⟨op.name, d, op.ref⟩] else []
  | _ => []

def step : Label → State → Option State
  | .call op, s => some { s with calls := s.calls ++ [(op, .lock)] }
  | .lock c, s =>
    match s.calls[c]? with
    | some (op, .lock) =>
      if s.locks op.name = none then
        some { s with
          locks := Function.update s.locks op.name (some c)
          calls := s.calls.set c (op, op.entry) }
      else none
    | _ => none
  | .step c answer, s =>
    match s.calls[c]? with
    | some (op, pc) =>
      (op.next (s.slots op.name) pc answer).map fun (slot, pc') =>
        { s with
          slots := Function.update s.slots op.name slot
          calls := s.calls.set c (op, pc')
          held := s.held.filter fun h => dropped op pc ≠ some h }
    | none => none
  | .unlock c, s =>
    match s.calls[c]? with
    | some (op, .unlock res) =>
      some { s with
        locks := Function.update s.locks op.name none
        calls := s.calls.set c (op, .returned res)
        held := given op res ++ s.held }
    | _ => none

/-- The volume of a reference is stored under its name, and no call is about to have its driver
remove it. -/
def Protected (s : State) (h : Held) : Prop :=
  (s.slots h.name).volume = some h.driver ∧
    ∀ (c : Nat) (v : Volume), s.calls[c]? = some (.remove v, .removeVolume) →
      ¬(v.name = h.name ∧ (Op.remove v).driver = h.driver)

/-- No call is given the empty reference, and neither `GetWithRef` nor `Dereference` is called for a
reference to the volume of another driver. -/
def considerate (s : State) : Label → Bool
  | .call op => !op.withRef || op.ref ≠ ""
  | .step c _ =>
    match s.calls[c]? with
    | some (.getWithRef name _ _, .setNamed d) => s.held.all fun h => h.name ≠ name || h.driver = d
    | some (.dereference v ref, .filterRefs) =>
      s.held.all fun h => h.name ≠ v.name || h.ref ≠ ref || h.driver = v.driverName
    | _ => true
  | _ => true

/-! ## What a call knows -/

/-- The call holds the lock of its name. -/
def Pc.inside : Pc → Bool
  | .lock | .returned _ => false
  | _ => true

/-- What is true of the slot of its name while a call holds the lock. -/
def Knows (op : Op) (slot : Slot) : Pc → Prop
  | .getVolume => op.creates = true → slot.volume = none
  | .ask d => slot.volume = some d ∧ op.creates = false
  | .probe => slot.volume = none
  | .getDriver => op.overwrites = true ∨ slot.volume = none
  | .setNamed d => op.overwrites = true ∨ slot.volume = none ∨ slot.volume = some d
  | .removeVolume | .purge => slot.refs = []
  | .unlock (.ok (some d)) =>
    op.withRef = true → slot.volume = some d ∧ (op.ref ≠ "" → op.ref ∈ slot.refs)
  | _ => True

section
variable {op : Op} {d : Driver}

theorem Knows.of_not_inside (h : pc.inside = false) : Knows op slot pc := by
  cases pc <;> trivial

theorem knows_entry : Knows op slot op.entry := by
  cases op with
  | getWithRef => exact .inl rfl
  | get => intro h; cases h
  | _ => trivial

theorem knows_noVolume (h : op.creates = true → slot.volume = none) :
    Knows op slot (op.noVolume e) := by
  unfold Op.noVolume
  split
  · next hc => exact .inr (h hc)
  · trivial

theorem Op.inside_of_next (h : op.next slot pc answer = some (slot', pc')) : pc.inside = true := by
  cases pc with
  | lock | returned => cases h
  | _ => rfl

theorem Knows.next (hk : Knows op slot pc) (h : op.next slot pc answer = some (slot', pc')) :
    Knows op slot' pc' := by
  cases pc with
  | lock => cases h
  | unlock => cases h
  | returned => cases h
  | getNamed =>
    simp only [Op.next] at h
    split at h
    · next d hd =>
      split at h <;> cases h
      · trivial
      · exact .inr (.inr hd)
    · next hnone =>
      cases h
      split
      · exact fun _ => hnone
      · exact .inr hnone
  | getVolume =>
    cases answer with
    | fails =>
      cases h
      exact knows_noVolume hk
    | _ =>
      simp only [Op.next] at h
      split at h
      · next d hd =>
        cases h
        refine ⟨hd, Bool.eq_false_iff.2 fun hc => ?_⟩
        rw [hk hc] at hd
        cases hd
      · next hnone =>
        cases h
        exact hnone
  | ask d =>
    cases answer with
    | succeeds =>
      cases h
      exact .inr (.inr hk.1)
    | _ =>
      cases h
      exact knows_noVolume fun hc => by rw [hk.2] at hc; cases hc
  | probe =>
    cases answer with
    | found d =>
      cases h
      exact .inr (.inl hk)
    | _ =>
      cases h
      exact knows_noVolume fun _ => hk
  | getDriver =>
    cases answer with
    | succeeds =>
      cases h
      exact hk.imp_right .inl
    | _ =>
      cases h
      trivial
  | setNamed d =>
    cases h
    refine fun _ => ⟨rfl, fun hr => ?_⟩
    simp [hr]
  | checkRefs =>
    cases h
    split
    · trivial
    · next hrefs => exact not_not.1 hrefs
  | removeVolume =>
    cases answer with
    | succeeds =>
      cases h
      exact hk
    | _ =>
      cases h
      trivial
  | purge =>
    cases h
    trivial
  | filterRefs =>
    cases op with
    | dereference =>
      cases h
      trivial
    | _ => cases h

theorem Knows.keeps (hk : Knows op slot pc) (h : op.next slot pc answer = some (slot', pc'))
    (hv : slot.volume = some d) (hr : r ∈ slot.refs)
    (hset : ∀ d', op.overwrites = true → pc = .setNamed d' → d' = d)
    (hdrop : ∀ v, op = .dereference v r → pc ≠ .filterRefs) :
    slot'.volume = some d ∧ r ∈ slot'.refs := by
  have hsame : ∀ {p : Pc}, some (slot, p) = some (slot', pc') → slot'.volume = some d ∧
      r ∈ slot'.refs := by
    intro p h
    cases h
    exact ⟨hv, hr⟩
  cases pc with
  | lock => cases h
  | unlock => cases h
  | returned => cases h
  | getNamed =>
    simp only [Op.next] at h
    split at h
    · split at h <;> exact hsame h
    · exact hsame h
  | getVolume =>
    cases answer with
    | fails => exact hsame h
    | _ =>
      simp only [Op.next] at h
      split at h <;> exact hsame h
  | ask | probe | getDriver | removeVolume => cases answer <;> exact hsame h
  | setNamed d' =>
    cases h
    have hd : d' = d := by
      obtain ho | hnone | hsome := hk
      · exact hset d' ho rfl
      · cases hv.symm.trans hnone
      · exact some_inj.1 (hsome.symm.trans hv)
    refine ⟨by rw [hd], ?_⟩
    split
    · exact mem_append_left _ hr
    · exact hr
  | checkRefs => exact hsame h
  | purge =>
    rw [hk] at hr
    cases hr
  | filterRefs =>
    cases op with
    | dereference v ref =>
      cases h
      refine ⟨hv, mem_filter.2 ⟨hr, ?_⟩⟩
      have hne : r ≠ ref := by
        rintro rfl
        exact hdrop v rfl rfl
      simpa using hne
    | _ => cases h

end

/-! ## Every reference protects its volume -/

structure Inv (s : State) : Prop where
  locked : ∀ (c : Nat) (op : Op) (pc : Pc), s.calls[c]? = some (op, pc) → pc.inside = true →
    s.locks op.name = some c
  knows : ∀ (c : Nat) (op : Op) (pc : Pc), s.calls[c]? = some (op, pc) →
    Knows op (s.slots op.name) pc
  refs : ∀ (c : Nat) (op : Op) (pc : Pc), s.calls[c]? = some (op, pc) →
    op.withRef = true → op.ref ≠ ""
  held : ∀ h ∈ s.held, (s.slots h.name).volume = some h.driver ∧ h.ref ∈ (s.slots h.name).refs

namespace Inv

variable {s s' : State} {c : Nat} {h : Held}

theorem init : Inv {} where
  locked c op pc hc := by cases hc
  knows c op pc hc := by cases hc
  refs c op pc hc := by cases hc
  held h hh := by cases hh

theorem protected_of_held (hinv : Inv s) (hh : h ∈ s.held) : Protected s h := by
  obtain ⟨hv, hr⟩ := hinv.held h hh
  refine ⟨hv, fun c v hc ⟨hname, _⟩ => ?_⟩
  have hnil : (s.slots v.name).refs = [] := hinv.knows c _ _ hc
  rw [hname] at hnil
  rw [hnil] at hr
  cases hr

theorem not_inside (hinv : Inv s) (hc : s.calls[c]? = some (op, pc)) (hin : pc.inside = true)
    (hc' : s.calls[c']? = some (op', pc')) (hne : c' ≠ c) (hname : op'.name = op.name) :
    pc'.inside = false := by
  refine Bool.eq_false_iff.2 fun hin' => hne ?_
  have hlock := hinv.locked c' op' pc' hc' hin'
  rw [hname, hinv.locked c op pc hc hin] at hlock
  exact (some_inj.1 hlock).symm

theorem call (hinv : Inv s) (hop : op.withRef = true → op.ref ≠ "") :
    Inv { s with calls := s.calls ++ [(op, .lock)] } where
  locked c op' pc hc hin := by
    obtain hc | ⟨-, he⟩ := getElem?_concat_cases hc
    · exact hinv.locked c op' pc hc hin
    · cases he
      cases hin
  knows c op' pc hc := by
    obtain hc | ⟨-, he⟩ := getElem?_concat_cases hc
    · exact hinv.knows c op' pc hc
    · cases he
      trivial
  refs c op' pc hc := by
    obtain hc | ⟨-, he⟩ := getElem?_concat_cases hc
    · exact hinv.refs c op' pc hc
    · cases he
      exact hop
  held := hinv.held

theorem refs_set (hinv : Inv s) (hc : s.calls[c]? = some (op, pc)) (c' : Nat) (op' : Op) (pc'' : Pc)
    (hc' : (s.calls.set c (op, pc'))[c']? = some (op', pc'')) :
    op'.withRef = true → op'.ref ≠ "" := by
  obtain ⟨rfl, he⟩ | ⟨hne, hc'⟩ := getElem?_set_cases hc'
  · cases he
    exact hinv.refs c' op pc hc
  · exact hinv.refs c' op' pc'' hc'

theorem lock (hinv : Inv s) (hc : s.calls[c]? = some (op, .lock)) (hfree : s.locks op.name = none) :
    Inv { s with locks := update s.locks op.name (some c), calls := s.calls.set c (op, op.entry) }
      where
  locked c' op' pc' hc' hin := by
    obtain ⟨rfl, he⟩ | ⟨hne, hc'⟩ := getElem?_set_cases hc'
    · cases he
      exact update_self ..
    · have hlock := hinv.locked c' op' pc' hc' hin
      have hname : op'.name ≠ op.name := by
        intro he
        rw [he, hfree] at hlock
        cases hlock
      rw [← hlock]
      exact update_of_ne hname ..
  knows c' op' pc' hc' := by
    obtain ⟨rfl, he⟩ | ⟨hne, hc'⟩ := getElem?_set_cases hc'
    · cases he
      exact knows_entry
    · exact hinv.knows c' op' pc' hc'
  refs := hinv.refs_set hc
  held := hinv.held

theorem unlock (hinv : Inv s) {res : Except Error (Option Driver)}
    (hc : s.calls[c]? = some (op, .unlock res)) :
    Inv { s with
      locks := update s.locks op.name none
      calls := s.calls.set c (op, .returned res)
      held := given op res ++ s.held } where
  locked c' op' pc' hc' hin := by
    obtain ⟨rfl, he⟩ | ⟨hne, hc'⟩ := getElem?_set_cases hc'
    · cases he
      cases hin
    · have hname : op'.name ≠ op.name := by
        intro he
        rw [hinv.not_inside hc rfl hc' hne he] at hin
        cases hin
      rw [← hinv.locked c' op' pc' hc' hin]
      exact update_of_ne hname ..
  knows c' op' pc' hc' := by
    obtain ⟨rfl, he⟩ | ⟨hne, hc'⟩ := getElem?_set_cases hc'
    · cases he
      trivial
    · exact hinv.knows c' op' pc' hc'
  refs := hinv.refs_set hc
  held h hh := by
    obtain hh | hh := mem_append.1 hh
    · have hk := hinv.knows c op _ hc
      unfold given at hh
      split at hh
      · split at hh
        · next hw =>
          rw [mem_singleton.1 hh]
          obtain ⟨hv, hr⟩ := hk hw
          exact ⟨hv, hr (hinv.refs c op _ hc hw)⟩
        · cases hh
      · cases hh
    · exact hinv.held h hh

/-- A step of a call that holds the lock changes only the slot of its name. -/
theorem next (hinv : Inv s) {slot' : Slot} {pc' : Pc} {answer : Answer}
    (hc : s.calls[c]? = some (op, pc))
    (hnext : op.next (s.slots op.name) pc answer = some (slot', pc'))
    (hset : ∀ d', op.overwrites = true → pc = .setNamed d' → ∀ h ∈ s.held, h.name = op.name →
      h.driver = d')
    (hdrop : ∀ v r, op = .dereference v r → pc = .filterRefs →
      ∀ h ∈ s.held, h.name = v.name → h.ref = r → h.driver = v.driverName) :
    Inv { s with
      slots := update s.slots op.name slot'
      calls := s.calls.set c (op, pc')
      held := s.held.filter fun h => dropped op pc ≠ some h } where
  locked c' op' pc'' hc' hin'' := by
    obtain ⟨rfl, he⟩ | ⟨hne, hc'⟩ := getElem?_set_cases hc'
    · cases he
      exact hinv.locked c' op pc hc (Op.inside_of_next hnext)
    · exact hinv.locked c' op' pc'' hc' hin''
  knows c' op' pc'' hc' := by
    obtain ⟨rfl, he⟩ | ⟨hne, hc'⟩ := getElem?_set_cases hc'
    · cases he
      dsimp only
      rw [update_self]
      exact (hinv.knows c' op pc hc).next hnext
    · by_cases hname : op'.name = op.name
      · exact .of_not_inside (hinv.not_inside hc (Op.inside_of_next hnext) hc' hne hname)
      · dsimp only
        rw [update_of_ne hname]
        exact hinv.knows c' op' pc'' hc'
  refs := hinv.refs_set hc
  held h hh := by
    obtain ⟨hmem, hkept⟩ := mem_filter.1 hh
    obtain ⟨hv, hr⟩ := hinv.held h hmem
    by_cases hname : h.name = op.name
    · dsimp only
      rw [hname] at hv hr ⊢
      rw [update_self]
      refine (hinv.knows c op pc hc).keeps hnext hv hr ?_ ?_
      · intro d' ho hpc
        exact (hset d' ho hpc h hmem hname).symm
      · -- the reference that is dropped would be the one of `h`
        rintro v rfl hpc
        have hd := hdrop v h.ref rfl hpc h hmem hname rfl
        refine of_decide_eq_true hkept ?_
        subst hpc
        obtain ⟨n, d, r⟩ := h
        cases hname
        cases hd
        rfl
    · dsimp only
      rw [update_of_ne hname]
      exact ⟨hv, hr⟩

protected theorem step (hinv : Inv s) (hok : considerate s l = true) (hstep : step l s = some s') :
    Inv s' := by
  cases l with
  | call op =>
    cases hstep
    refine hinv.call fun hw => ?_
    simpa [considerate, hw] using hok
  | lock c =>
    simp only [step] at hstep
    split at hstep
    · next op hc =>
      split at hstep
      · next hfree =>
        cases hstep
        exact hinv.lock hc hfree
      · cases hstep
    · cases hstep
  | step c answer =>
    simp only [step] at hstep
    split at hstep
    · next op pc hc =>
      obtain ⟨⟨slot', pc'⟩, hnext, rfl⟩ := Option.map_eq_some_iff.1 hstep
      refine hinv.next hc hnext ?_ ?_
      · rintro d ho rfl h hh hname
        cases op with
        | getWithRef name driverName ref =>
          simp only [considerate, hc, List.all_eq_true] at hok
          simpa [show h.name = name from hname] using hok h hh
        | _ => cases ho
      · rintro v r rfl rfl h hh hname href
        simp only [considerate, hc, List.all_eq_true] at hok
        simpa [hname, href] using hok h hh
    · cases hstep
  | unlock c =>
    simp only [step] at hstep
    split at hstep
    · next op res hc =>
      cases hstep
      exact hinv.unlock hc
    · cases hstep

theorem of_reachable (h : Reachable (restrict step considerate) {} s) : Inv s :=
  h.inv (fun hinv h => hinv.step (restrict_eq_some.1 h).1 (restrict_eq_some.1 h).2) init

end Inv

/-- In a run of considerate calls, the volume of a reference is stored and not removed from when it
is given out until it is dropped. -/
theorem protected_of_considerate {s : State} (hr : Reachable (restrict step considerate) {} s) :
    ∀ h ∈ s.held, Protected s h := by
  intro h hh
  exact (Inv.of_reachable hr).protected_of_held hh

/-- `CreateWithRef` of a new volume, which the driver creates. -/
def createLocal : List Label :=
  [.call (.createWithRef "data" "local" "web"), .lock 0, .step 0 .succeeds, .step 0 .succeeds,
    .step 0 .succeeds, .unlock 0]

/-- A `Remove` that waits for the lock of `CreateWithRef` is refused. -/
theorem protected_of_considerate_refused : ∃ s : State, (⟨"data", "local", "web"⟩ ∈ s.held) ∧
    (∀ h ∈ s.held, Protected s h) ∧
    s.calls[1]? = some (.remove ⟨"data", "local"⟩, .returned (.error (.volumeInUse ["web"]))) := by
  have hrun : (run (restrict step considerate)
      (.call (.createWithRef "data" "local" "web") :: .call (.remove ⟨"data", "local"⟩) ::
        createLocal.tail ++
        [.lock 1, .step 1 .succeeds, .unlock 1]) {}).map (fun s => (s.held, s.calls[1]?)) =
      some ([⟨"data", "local", "web"⟩],
        some (.remove ⟨"data", "local"⟩, .returned (.error (.volumeInUse ["web"])))) := by
    decide +kernel
  obtain ⟨s, hs, he⟩ := map_eq_some_iff.1 hrun
  obtain ⟨hheld, hcall⟩ := Prod.mk.inj he
  refine ⟨s, ?_, protected_of_considerate ⟨_, hs⟩, hcall⟩
  rw [hheld]
  exact mem_singleton_self _

/-- `GetWithRef` replaces the volume of a reference. `Dereference` of a volume of another driver
drops it, and then `Remove` removes the volume. -/
theorem reference_unprotected :
    (∃ s : State, Reachable step {} s ∧ ∃ h ∈ s.held, ∃ d, (s.slots h.name).volume = some d ∧
      d ≠ h.driver) ∧
    (∃ s : State, Reachable step {} s ∧ ∃ h ∈ s.held, ∃ c : Nat,
      s.calls[c]? = some (.remove ⟨h.name, h.driver⟩, .removeVolume)) := by
  have hget : (run step (createLocal ++
      [.call (.getWithRef "data" "nfs" "db"), .lock 1, .step 1 .succeeds, .step 1 .succeeds,
        .unlock 1]) {}).map
        (fun s => (s.held, (s.slots "data").volume)) =
      some ([⟨"data", "nfs", "db"⟩, ⟨"data", "local", "web"⟩], some "nfs") := by
    decide +kernel
  have hremove : (run step (createLocal ++
      [.call (.dereference ⟨"data", "nfs"⟩ "web"), .lock 1, .step 1 .succeeds, .unlock 1,
        .call (.remove ⟨"data", "local"⟩), .lock 2,
          .step 2 .succeeds]) {}).map (fun s => (s.held, s.calls[2]?)) =
      some ([⟨"data", "local", "web"⟩], some (.remove ⟨"data", "local"⟩, .removeVolume)) := by
    decide +kernel
  constructor
  · obtain ⟨s, hs, he⟩ := map_eq_some_iff.1 hget
    obtain ⟨hheld, hvolume⟩ := Prod.mk.inj he
    refine ⟨s, ⟨_, hs⟩, ⟨"data", "local", "web"⟩, ?_, "nfs", hvolume, by decide⟩
    rw [hheld]
    exact mem_cons_of_mem _ (mem_singleton_self _)
  · obtain ⟨s, hs, he⟩ := map_eq_some_iff.1 hremove
    obtain ⟨hheld, hcall⟩ := Prod.mk.inj he
    refine ⟨s, ⟨_, hs⟩, ⟨"data", "local", "web"⟩, ?_, 2, hcall⟩
    rw [hheld]
    exact mem_singleton_self _

end Docker.Volume
