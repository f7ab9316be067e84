import Docker.Lib.Transition

/-!
# The metadata of layers

`distribution/metadata/v2_metadata_service.go`. `Add` and `Remove` read the metadata of a layer from
the store and write it back, and the store locks only the single accesses.
-/

namespace Docker.Distribution.Metadata

open Transition Function List

abbrev DiffID := String

structure V2Metadata where
  digest : String
  sourceRepository : String
  deriving DecidableEq

def maxMetadata : Nat := 50

def added (oldMetadata : List V2Metadata) (metadata : V2Metadata) : List V2Metadata :=
  let newMetadata := oldMetadata.filter (· ≠ metadata) ++ [metadata]
  if newMetadata.length > maxMetadata then newMetadata.drop (newMetadata.length - maxMetadata)
    else newMetadata

inductive Call where
  | add (diffID : DiffID) (metadata : V2Metadata)
  | remove (metadata : V2Metadata)
  deriving DecidableEq

/-- What a call leaves for the layer when it has read this; nothing once the last entry is
removed. -/
def Call.write (old : Option (List V2Metadata)) : Call → Option (List V2Metadata)
  | add _ metadata => some (added (old.getD []) metadata)
  | remove metadata =>
    let newMetadata := (old.getD []).filter (· ≠ metadata)
    if newMetadata.length = 0 then none else some newMetadata

/-- Where a call is. It has returned for no layer when `Remove` does not know the digest. -/
inductive Pc where
  | start
  | resolved (diffID : DiffID)
  | read (diffID : DiffID) (old : Option (List V2Metadata))
  | written (diffID : DiffID)
  | returned (diffID : Option DiffID)
  deriving DecidableEq

/-- The layer whose metadata the call has written. -/
def Pc.wrote : Pc → Option DiffID
  | written diffID => diffID
  | returned diffID => diffID
  | _ => none

/-- The two namespaces of the store, and the calls. -/
structure State where
  metadata : DiffID → Option (List V2Metadata) := fun _ => none
  diffIDs : String → Option DiffID := fun _ => none
  pc : Nat → Pc := fun _ => .start

def State.setPc (s : State) (i : Nat) (pc : Pc) : State := { s with pc := update s.pc i pc }

/-- The next access of a call to the store. -/
def step (calls : Nat → Call) (i : Nat) (s : State) : Option State :=
  match s.pc i, calls i with
  | .start, .add d _ => some (s.setPc i (.read d (s.metadata d)))
  | .start, .remove m => some (s.setPc i ((s.diffIDs m.digest).elim (.returned none) .resolved))
  | .resolved d, _ => some (s.setPc i (.read d (s.metadata d)))
  | .read d old, .add d' m =>
    some ({ s with metadata := update s.metadata d ((Call.add d' m).write old) }.setPc
      i (.written d))
  | .read d old, .remove m =>
    some ({ s with metadata := update s.metadata d ((Call.remove m).write old) }.setPc i
      (.returned (some d)))
  | .written d, .add _ m =>
    some ({ s with diffIDs := update s.diffIDs m.digest (some d) }.setPc i (.returned (some d)))
  | _, _ => none

def twoAdds (i : Nat) : Call := .add "d" ⟨"a", if i = 0 then "r" else "q"⟩

/-- Two calls read before one of them writes, and the entry of the first is lost. -/
theorem add_lost : ∃ s, run (step twoAdds) [0, 1, 0, 1, 0, 1] {} = some s ∧
    s.pc 0 = .returned (some "d") ∧
    s.pc 1 = .returned (some "d") ∧ s.metadata "d" = some [⟨"a", "q"⟩] :=
  ⟨_, rfl, rfl, rfl, rfl⟩

/-- What a call writes is made from what is in the store then. -/
def undisturbed (s : State) (i : Nat) : Bool :=
  match s.pc i with
  | .read d old => s.metadata d = old
  | _ => true

section
variable {calls : Nat → Call} {s s' : State} {i : Nat} {d : DiffID}

/-- The metadata of the layer after the calls, one after another. -/
def serial (calls : Nat → Call) (m₀ : Option (List V2Metadata)) (order : List Nat) :
    Option (List V2Metadata) :=
  order.foldl (fun old i => (calls i).write old) m₀

theorem serial_concat : serial calls m₀ (order ++ [i]) = (calls i).write (serial calls m₀ order) :=
  foldl_append

/-- The metadata of a layer is that after the calls that have written it, in some order. -/
def Serial (calls : Nat → Call) (d : DiffID) (m₀ : Option (List V2Metadata)) (s : State) : Prop :=
  ∃ order : List Nat, order.Nodup ∧ (∀ i, i ∈ order ↔ (s.pc i).wrote = some d) ∧
    s.metadata d = serial calls m₀ order

theorem Serial.move (h : Serial calls d m₀ s) (hpc : pc.wrote = (s.pc i).wrote)
    (hs' : s'.pc = update s.pc i pc)
    (hm : s'.metadata d = s.metadata d := by rfl) : Serial calls d m₀ s' := by
  obtain ⟨order, hnodup, hmem, hserial⟩ := h
  refine ⟨order, hnodup, fun j => (hmem j).trans ?_, hm.trans hserial⟩
  by_cases hj : j = i <;> simp [hs', hj, hpc]

theorem Serial.write (h : Serial calls d m₀ s) (hi : s.pc i = .read d' old)
    (hok : s.metadata d' = old) (hpc : pc.wrote = some d') (hs' : s'.pc = update s.pc i pc)
    (hm : s'.metadata = update s.metadata d' ((calls i).write old)) : Serial calls d m₀ s' := by
  obtain ⟨order, hnodup, hmem, hserial⟩ := h
  have hnew : i ∉ order := by
    rw [hmem, hi]
    nofun
  by_cases hd : d = d'
  · subst hd
    refine ⟨order ++ [i], nodup_append_comm.2 (nodup_cons.2 ⟨hnew, hnodup⟩), fun j => ?_, ?_⟩
    · by_cases hj : j = i <;> simp [hs', hj, hpc, hmem]
    · rw [hm, update_self, serial_concat, ← hserial, hok]
  · refine ⟨order, hnodup, fun j => ?_, by rw [hm, update_of_ne hd, hserial]⟩
    by_cases hj : j = i
    · simpa [hs', hj, hpc, Ne.symm hd] using hnew
    · simp [hs', hj, hmem]

theorem Serial.step (h : Serial calls d m₀ s) (hok : undisturbed s i = true)
    (hl : step calls i s = some s') :
    Serial calls d m₀ s' := by
  unfold Metadata.step at hl
  split at hl <;> cases hl
  · next hpc _ => exact h.move (by rw [hpc]; rfl) rfl
  · next m hpc _ =>
    refine h.move ?_ rfl
    rw [hpc]
    cases s.diffIDs m.digest <;> rfl
  · next hpc => exact h.move (by rw [hpc]; rfl) rfl
  · next hpc hcall =>
      exact h.write hpc (by simpa [undisturbed, hpc] using hok) rfl rfl (hcall ▸ rfl)
  · next hpc hcall =>
      exact h.write hpc (by simpa [undisturbed, hpc] using hok) rfl rfl (hcall ▸ rfl)
  · next hpc _ => exact h.move (by rw [hpc]; rfl) rfl

/-- Calls of `Add` with few entries drop none. -/
theorem serial_add {entries : Finset V2Metadata} (hcard : entries.card ≤ maxMetadata)
    (hadd : ∀ i ∈ order, ∃ m ∈ entries, calls i = .add d m) :
    ((serial calls none order).getD []).Nodup ∧
      ∀ m, m ∈ (serial calls none order).getD [] ↔ ∃ i ∈ order, calls i = .add d m := by
  induction order using reverseRecOn with
  | nil => simp [serial]
  | append_singleton order i ih =>
    obtain ⟨hnodup, hmem⟩ := ih fun j hj => hadd j (mem_append_left _ hj)
    obtain ⟨m, hm, hi⟩ := hadd i (by simp)
    have hserial : serial calls none (order ++ [i]) =
        some (added ((serial calls none order).getD []) m) := by
      rw [serial_concat, hi, Call.write]
    generalize (serial calls none order).getD [] = old at *
    have hnew : (old.filter (· ≠ m) ++ [m]).Nodup := by
      simp [nodup_append, hnodup.filter]
    have hsub : (old.filter (· ≠ m) ++ [m]).toFinset ⊆ entries := by
      intro a ha
      simp only [mem_toFinset, mem_append, mem_filter, mem_singleton] at ha
      obtain ⟨ha, -⟩ | rfl := ha
      · obtain ⟨j, hj, hcall⟩ := (hmem a).1 ha
        obtain ⟨a', ha', hcall'⟩ := hadd j (mem_append_left _ hj)
        cases hcall.symm.trans hcall'
        exact ha'
      · exact hm
    have hlen : (old.filter (· ≠ m) ++ [m]).length ≤ maxMetadata := by
      rw [← toFinset_card_of_nodup hnew]
      exact (Finset.card_le_card hsub).trans hcard
    rw [hserial, added, if_neg (Nat.not_lt.2 hlen)]
    refine ⟨hnew, fun a => ?_⟩
    by_cases ha : a = m
    · simp [ha, hi]
    · simp [ha, hmem, or_and_right, exists_or, hi, Ne.symm ha]

/-- If no call writes between the reading and the writing of another one, the metadata is that after
the calls in some order, and up to fifty new entries are each there once. -/
theorem metadata_serial {diffIDs : String → Option DiffID}
    {metadata : DiffID → Option (List V2Metadata)}
    (h : Reachable (restrict (step calls) undisturbed) ⟨metadata, diffIDs, fun _ => .start⟩ s) :
    Serial calls d (metadata d) s ∧
      ∀ entries : Finset V2Metadata, metadata d = none → entries.card ≤ maxMetadata →
        (∀ i, (s.pc i).wrote = some d → ∃ m ∈ entries, calls i = .add d m) →
        ∀ i m, (s.pc i).wrote = some d → calls i = .add d m →
          ((s.metadata d).getD []).count m = 1 := by
  have hserial : Serial calls d (metadata d) s := h.inv (fun hs hl => by
    obtain ⟨hok, hl⟩ := restrict_eq_some.1 hl
    exact hs.step hok hl) ⟨[], nodup_nil, by simp [Pc.wrote], rfl⟩
  refine ⟨hserial, fun entries hnone hcard hadd i m hi hcall => ?_⟩
  obtain ⟨order, -, hmem, hs⟩ := hserial
  obtain ⟨hnodup, hmems⟩ := serial_add hcard fun i hi => hadd i ((hmem i).1 hi)
  rw [hs, hnone]
  exact count_eq_one_of_mem hnodup ((hmems m).2 ⟨i, (hmem i).2 hi, hcall⟩)

end

theorem metadata_serial_two : ∃ s, run (restrict (step twoAdds) undisturbed)
    [0, 0, 1, 1, 0, 1] {} = some s ∧
    Serial twoAdds "d" none s :=
  exists_run (fun _ => True) (by decide +kernel) fun _ hs _ => (metadata_serial ⟨_, hs⟩).1

end Docker.Distribution.Metadata
