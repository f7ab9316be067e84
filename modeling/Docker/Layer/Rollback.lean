import Docker.Layer.Calls
import Docker.Layer.RefCount

/-!
# What a failed call leaves behind
-/

namespace Docker.Layer.Calls

open Defer Std.Do Transition Registration List Option

set_option mvcgen.warning false

/-! ## The parent -/

/-- A failure puts everything back if it is `clean`. Otherwise the driver shows that it does not. -/
structure Undone (clean : Prop) (w w' : World) : Prop where
  layers : w'.state.layers = w.state.layers
  restored : clean → w' = w
  left : ¬clean → w'.state.driver ≠ w.state.driver

theorem Undone.of_clean (h : clean) : Undone clean w w := ⟨rfl, fun _ => rfl, absurd h⟩

theorem Undone.of_left (id : String) (h : ¬clean) (hlayers : w'.state.layers = w.state.layers)
    (hid : w.state.driver id = false) (hid' : w'.state.driver id = true) : Undone clean w w' := by
  refine ⟨hlayers, fun hclean => absurd hclean h, fun _ heq => ?_⟩
  rw [heq, hid] at hid'
  cases hid'

/-- There is no parent, or somebody else has it; and what is done with it is `clean`. -/
def Kept (w : World) (parent : ChainID) (clean : Option Nat → Prop) : Prop :=
  if parent = "" then clean none
  else ∀ p, w.state.layerMap parent = some p → 0 < (w.state.layers p).referenceCount ∧
    clean (some p)

section
variable {fromBytes : String → String} {fails : RegisterCall → Bool} {r : Registration} {w : World}
/-- The graph layer and the directory of a transaction have been added to `w`. -/
def Registration.Pending (r : Registration) (w w' : World) : Prop :=
  ∃ files,
    w' =
    { state := w.state.driverSet r.cacheID true
      tmp := Function.update w.tmp r.txRoot (some files) }

theorem Registration.Pending.cleanUp (h : r.Pending w w')
    (hdriver : w.state.driver r.cacheID = false)
    (htmp : w.tmp r.txRoot = none) : r.cleanUp w' = w := by
  obtain ⟨files, rfl⟩ := h
  simp [Registration.cleanUp, State.driverSet, ← hdriver, ← htmp]

theorem Registration.Pending.setFile (h : r.Pending w w') (write : LayerFiles → LayerFiles) :
    r.Pending w
      { w' with tmp := Function.update w'.tmp r.txRoot ((w'.tmp r.txRoot).map write) } := by
  obtain ⟨files, rfl⟩ := h
  exact ⟨write files, by simp⟩

theorem Registration.setFile_spec : ⦃fun w' => ⌜r.Pending w w'⌝⦄ r.setFile fails c write
    ⦃post⟨fun _ w' => ⌜r.Pending w w'⌝, fun _ w' => ⌜r.Pending w w'⌝⟩⦄ := by
  mvcgen [setFile, call]
  exact Registration.Pending.setFile ‹_› write

theorem Registration.applyTar_spec : ⦃fun w' => ⌜r.Pending w w'⌝⦄ r.applyTar fromBytes fails layer
    ⦃post⟨fun _ w' => ⌜r.Pending w w'⌝, fun _ w' => ⌜r.Pending w w'⌝⟩⦄ := by
  mvcgen [applyTar, call]

theorem Registration.storeLayer_spec : ⦃fun w' => ⌜r.Pending w w'⌝⦄ r.storeLayer fails layer
    ⦃post⟨fun _ w' => ⌜r.Pending w w'⌝, fun _ w' => ⌜r.Pending w w'⌝⟩⦄ := by
  have hset := @setFile_spec fails r w
  mvcgen [storeLayer, hset]

theorem Registration.fill_spec : ⦃fun w' => ⌜r.Pending w w'⌝⦄ r.fill fromBytes fails layer
    ⦃post⟨fun _ _ => ⌜True⌝, fun _ w' => ⌜r.Pending w w'⌝⟩⦄ := by
  have happly := @applyTar_spec fromBytes fails r w
  have hstore := @storeLayer_spec fails r w
  mvcgen [fill, happly, hstore, commit]

/-- A transaction that cannot be started is not reached. -/
def startsClean (fails : RegisterCall → Bool) (s : State) (p : Option Nat) : Prop :=
  fails .startTransaction = true → fails .driverCreate = true ∨
    p.any (maxLayerDepth ≤ s.depth ·) = true

theorem Registration.create_spec (hdriver : w.state.driver r.cacheID = false)
    (htmp : w.tmp r.txRoot = none) :
    ⦃fun w' => ⌜w' = w⌝⦄ r.create fromBytes fails p
    ⦃post⟨fun _ _ => ⌜True⌝, fun _ w' => ⌜Undone (startsClean fails w.state p) w w'⌝⟩⦄ := by
  have hfill layer : ⦃fun w' => ⌜r.Pending w w'⌝⦄ onError r.cleanUp (r.fill fromBytes fails layer)
      ⦃post⟨fun _ _ => ⌜True⌝, fun _ w' => ⌜w' = w⌝⟩⦄ := by
    have hfill := @fill_spec fromBytes fails r w
    refine onError_spec (Q := fun _ _ _ => True) ?_
    mvcgen [hfill]
    exact fun h => h.cleanUp hdriver htmp
  mvcgen [create, call, hfill]
  · obtain rfl := ‹_ = w›
    exact .of_clean fun _ => .inr ‹_›
  · obtain rfl := ‹_ = w›
    exact .of_clean fun _ => .inl ‹_›
  · obtain rfl := ‹_ = w›
    exact .of_left r.cacheID (fun hclean => (hclean ‹_›).elim ‹_› ‹_›) rfl hdriver
      (Function.update_self ..)
  · obtain rfl := ‹_ = w›
    exact ⟨{}, rfl⟩
  · rintro rfl
    exact .of_clean fun hstart => absurd hstart ‹_›

end

section
variable {fails : MountCall → Bool} {w : World} {name mountID : String} {init : Bool}
  {p : Option Nat}

end

/-! ## Restarts -/

section
variable {s s' : State} {name : String}

end

end Docker.Layer.Calls
