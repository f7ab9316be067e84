import Docker.Xfer.Download
import Docker.Xfer.Watch

/-!
# Downloads that share transfers

Any number of calls of `Download` run against one transfer manager and one layer store, which
answers `Get` in any way. The function of a transfer ends with an error at any time, or with a layer
on top of the one it was given. A transfer keeps the reference of its layer until its channel
`released` is closed.
-/

namespace Docker.Xfer.Download

open Function State
open Layer (DiffID)
open Transition (run)

inductive Code where
  | running (p : Prog Op Answer Outcome)
  /-- In the function that `Download` has returned. -/
  | releasing (p : Prog Op Answer Unit)

structure Client where
  layers : List Descriptor
  code : Code

/-- The transfer manager, the calls of `Transfer`, the transfers with their jobs and results, the
references that `Get` has returned, and the callers of `Download`. -/
structure System where
  tm : State
  nextCall : Nat := 0
  request : Nat → Option (String × Job) := fun _ => none
  job : Nat → Option Job := fun _ => none
  /-- `d.layer` and `d.err` of a transfer that has ended. -/
  result : Nat → Option (Except String Chain) := fun _ => none
  /-- The reference of the transfer's layer was released. -/
  letGo : Nat → Bool := fun _ => false
  chain : Nat → Option (List DiffID) := fun _ => none
  nextRef : Nat := 0
  releasedRefs : List Nat := []
  clients : Nat → Option Client := fun _ => none

/-- How the environment answers where it is free to. -/
structure Choice where
  diffID : Option DiffID := none
  found : Bool := false
  done : Bool := false

namespace System

def setClient (s : System) (n : Nat) (client : Client) : System :=
  { s with clients := fun m => if m = n then some client else s.clients m }

def perform (s : System) (choice : Choice) : (op : Op) → Option (Answer op × System)
  | .diffID _ => some (choice.diffID, s)
  | .get diffIDs =>
    if choice.found then
      some (some s.nextRef, { s with
        chain := fun ref => if ref = s.nextRef then some diffIDs else s.chain ref
        nextRef := s.nextRef + 1 })
    else some (none, s)
  | .releaseLayer ref => some ((), { s with releasedRefs := ref :: s.releasedRefs })
  | .transfer key job =>
    (Xfer.step (.transfer s.nextCall key) s.tm).map fun tm => (s.nextCall, { s with
      tm
      nextCall := s.nextCall + 1
      request := fun c => if c = s.nextCall then some (key, job) else s.request c })
  | .returned c =>
    match s.tm.pc c with
    | some (.returned t _) => some (t, s)
    | _ => none
  | .release t w =>
    match s.tm.pc w with
    | some (.returned t' _) =>
      if t' = t then (Xfer.step (.release w) s.tm).map fun tm => ((), { s with tm }) else none
    | _ => none
  | .select t =>
    if choice.done then if (s.tm.xfer t).running then none else some (true, s) else some (false, s)
  | .result t => some ((s.result t).getD (.ok []), s)

/-- The layer that a job registers its own on. -/
def parent (s : System) : Job → Option Chain
  | .download _ parentLayer => some parentLayer.reverse
  | .downloadOnto _ parentDownload =>
    match s.result parentDownload with
    | some (.ok l) => some l
    | _ => none
  | .fromDownload _ sourceDownload parentDownload =>
    match s.result parentDownload, s.result sourceDownload with
    | some (.ok l), some (.ok _) => some l
    | _, _ => none

end System

def releaseHold : Option Hold → Prog Op Answer Unit
  | some (.layer ref) => releaseLayer ref
  | some (.watcher t w) => release t w
  | _ => .ret ()

/-- The steps of the manager that no client or job takes. -/
def internal : Label → Bool
  | .transfer .. | .release _ | .finish _ => false
  | _ => true

inductive SystemLabel where
  | start (n : Nat) (layers : List Descriptor)
  | client (n : Nat) (choice : Choice)
  /-- The function that `Download` has returned is called. -/
  | release (n : Nat)
  | manager (l : Label)
  /-- The job of a transfer ends, with the DiffID of its layer. -/
  | finish (t : Nat) (outcome : Except String DiffID)
  /-- `<-d.Transfer.Released()` and the release of the layer. -/
  | letGo (t : Nat)

namespace System

/-- The job of a transfer that the step has created. -/
def jobs (s : System) (l : Label) (tm : State) (t : Nat) : Option Job :=
  match l with
  | .lookup c => if t = s.tm.next ∧ s.tm.next < tm.next then (s.request c).map Prod.snd else s.job t
  | _ => s.job t

def step : SystemLabel → System → Option System
  | .start n layers, s =>
    match s.clients n with
    | none => some (s.setClient n ⟨layers, .running (download layers)⟩)
    | some _ => none
  | .client n choice, s =>
    match s.clients n with
    | some ⟨layers, .running (.call op k)⟩ =>
      (s.perform choice op).map fun (answer, s') => s'.setClient n ⟨layers, .running (k answer)⟩
    | some ⟨layers, .releasing (.call op k)⟩ =>
      (s.perform choice op).map fun (answer, s') => s'.setClient n ⟨layers, .releasing (k answer)⟩
    | _ => none
  | .release n, s =>
    match s.clients n with
    | some ⟨layers, .running (.ret o)⟩ =>
      some (s.setClient n ⟨layers, .releasing (releaseHold o.release)⟩)
    | _ => none
  | .manager l, s =>
    if internal l then (Xfer.step l s.tm).map fun tm => { s with tm, job := s.jobs l tm } else none
  | .finish t outcome, s =>
    match Xfer.step (.finish t) s.tm with
    | none => none
    | some tm =>
      match outcome with
      | .error err =>
        some { s with tm, result := fun u => if u = t then some (.error err) else s.result u }
      | .ok diffID =>
        ((s.job t).bind s.parent).map fun l =>
          { s with tm, result := fun u => if u = t then some (.ok (diffID :: l)) else s.result u }
  | .letGo t, s =>
    match s.result t with
    | some (.ok _) =>
      if (s.tm.xfer t).releasedCloses ≠
        0 then some { s with letGo := fun u => u = t || s.letGo u } else none
    | _ => none

def init (limit : Int) : System := { tm := newTransferManager limit }

/-- What a caller of `Download` has got, until it calls the function it has got. -/
def returned (s : System) (n : Nat) : Option (List Descriptor × Outcome) :=
  match s.clients n with
  | some ⟨layers, .running (.ret o)⟩ => some (layers, o)
  | _ => none

def Referenced (s : System) (diffIDs : List DiffID) : Prop :=
  (∃ ref < s.nextRef, s.chain ref = some diffIDs ∧ ref ∉ s.releasedRefs) ∨
    ∃ t < s.tm.next, s.result t = some (.ok diffIDs.reverse) ∧ s.letGo t = false

instance (s : System) (diffIDs : List DiffID) : Decidable (s.Referenced diffIDs) :=
  inferInstanceAs (Decidable (_ ∨ _))

end System

/-! ## The transfer manager -/

section
variable {tm tm' : State}

structure Grows (x x' : Transfer) : Prop where
  key : x'.key = x.key
  progressClosed : x.progressClosed = true → x'.progressClosed = true
  released : x.releasedCloses ≤ x'.releasedCloses

namespace Grows

theorem refl (x : Transfer) : Grows x x := ⟨rfl, id, le_rfl⟩

theorem release (w : Nat) : Grows x (x.release w) := by
  simp only [Transfer.release]
  split
  · split
    · split
      · exact ⟨rfl, id, Nat.le_succ _⟩
      · exact ⟨rfl, id, le_rfl⟩
    · exact ⟨rfl, id, le_rfl⟩
  · exact ⟨rfl, id, le_rfl⟩

theorem close : Grows x x.close := by
  simp only [Transfer.close]
  split
  · exact ⟨rfl, id, Nat.le_succ _⟩
  · exact ⟨rfl, id, le_rfl⟩

theorem modify (hf : Grows (tm.xfer t) (f (tm.xfer t))) (u : Nat) :
    Grows (tm.xfer u) ((tm.modify t f).xfer u) := by
  rw [modify_xfer]
  by_cases hu : u = t
  · subst hu
    rwa [update_self]
  · rw [update_of_ne hu]
    exact .refl _

theorem inactivate (tm : State) (t u : Nat) : Grows (tm.xfer u) ((tm.inactivate t).xfer u) := by
  obtain ⟨n, hn⟩ := tm.inactivate_xfer t u
  rw [hn]
  exact ⟨rfl, id, le_rfl⟩

theorem deleteEntry (tm : State) (t u : Nat) : Grows (tm.xfer u) ((tm.deleteEntry t).xfer u) := by
  rw [deleteEntry_xfer]
  by_cases hu : u = t
  · subst hu
    rw [update_self]
    exact ⟨rfl, id, le_rfl⟩
  · rw [update_of_ne hu]
    exact .refl _

theorem trans (h : Grows x x') (h' : Grows x' x'') : Grows x x'' :=
  ⟨h'.key.trans h.key, fun hp => h'.progressClosed (h.progressClosed hp),
    h.released.trans h'.released⟩

theorem step (h : Xfer.step l tm = some tm') :
    tm.next ≤ tm'.next ∧ ∀ t < tm.next, Grows (tm.xfer t) (tm'.xfer t) := by
  cases step_cases h with
  | create =>
    refine ⟨by simp, fun t ht => ?_⟩
    rw [create_xfer, update_of_ne (Nat.ne_of_lt ht)]
    exact .refl _
  | watch | closeInactive | broadcast | receiveInactive | receiveDone =>
    exact ⟨le_rfl, fun t _ => modify ⟨rfl, id, le_rfl⟩ t⟩
  | releaseCancelled | release => exact ⟨le_rfl, fun t _ => modify (release _) t⟩
  | finish => exact ⟨le_rfl, fun t _ => modify ⟨rfl, fun _ => rfl, le_rfl⟩ t⟩
  | cleanupInactive =>
    exact ⟨by simp, fun t _ => (inactivate ..).trans (modify ⟨rfl, id, le_rfl⟩ t)⟩
  | cleanupDone => exact ⟨by simp, fun t _ => (inactivate ..).trans (deleteEntry ..)⟩
  | cleanupDoneNil => exact ⟨le_rfl, fun t _ => deleteEntry ..⟩
  | close =>
    exact ⟨le_rfl, fun t _ => modify (f := fun x => { x.close with cleanup := .exited })
      ⟨close.key, close.progressClosed, close.released⟩ t⟩
  | _ => exact ⟨le_rfl, fun t _ => .refl _⟩

end Grows

def KeyIs (tm : State) (key : String) : Pc → Prop
  | .call k | .watching k _ _ | .releasing k _ _ | .unlocking k _ | .waiting k _ => k = key
  | .returned t _ => t < tm.next ∧ (tm.xfer t).key = key

theorem KeyIs.step (h : Xfer.step l tm = some tm') (hp : KeyIs tm key p) : KeyIs tm' key p := by
  obtain ⟨hnext, hgrows⟩ := Grows.step h
  cases p with
  | returned t w => exact ⟨hp.1.trans_le hnext, (hgrows t hp.1).key.trans hp.2⟩
  | _ => exact hp

theorem keyIs_step (htracked : Tracked tm) (hwatched : Watched tm) (h : Xfer.step l tm = some tm')
    (hp : tm'.pc c = some p) :
    (∃ key, l = .transfer c key ∧ p = .call key) ∨ ∃ q, tm.pc c = some q ∧ ∀ key, KeyIs tm key q →
      KeyIs tm' key p := by
  -- a call that has moved
  have hmoved : ∀ {d : Nat} {q : Pc}, tm'.pc = update tm.pc d (some q) →
      (c = d → (∃ key, l = .transfer c key ∧ q = .call key) ∨ ∃ q', tm.pc c = some q' ∧ ∀ key,
        KeyIs tm key q' → KeyIs tm' key q) →
      (∃ key, l = .transfer c key ∧ p = .call key) ∨ ∃ q', tm.pc c = some q' ∧ ∀ key,
        KeyIs tm key q' → KeyIs tm' key p := by
    intro d q hpc hd
    by_cases hcd : c = d
    · rw [hpc, hcd, update_self] at hp
      cases hp
      exact hd hcd
    · rw [hpc, update_of_ne hcd] at hp
      exact .inr ⟨p, hp, fun key hk => hk.step h⟩
  cases step_cases h with
  | transfer => exact hmoved rfl fun hc => .inl ⟨_, hc ▸ rfl, rfl⟩
  | create hpc =>
    refine hmoved (create_pc ..) fun hc => .inr ⟨_, hc ▸ hpc, ?_⟩
    rintro _ rfl
    exact ⟨by simp, by simp⟩
  | watch hpc | cancelled hpc | releaseCancelled hpc | unlock hpc | wake hpc =>
    refine hmoved rfl fun hc => .inr ⟨_, hc ▸ hpc, ?_⟩
    exact fun _ hk => hk
  | returned hpc =>
    refine hmoved rfl fun hc => .inr ⟨_, hc ▸ hpc, ?_⟩
    rintro _ rfl
    obtain ⟨hnext, hkey, -⟩ := htracked.entry (hwatched.current (.inl hpc))
    exact ⟨hnext, hkey⟩
  | cleanupInactive | cleanupDone => exact .inr ⟨p, by simpa using hp, fun key hk => hk.step h⟩
  | _ => exact .inr ⟨p, hp, fun key hk => hk.step h⟩

theorem returned_step (h : Xfer.step l tm = some tm') (hp : tm.pc c = some (.returned t v)) :
    tm'.pc c = some (.returned t v) := by
  -- the call that moves is another one
  have hmoved : ∀ {d : Nat} {q q' : Pc}, tm'.pc = update tm.pc d (some q) → tm.pc d = some q' →
      (∀ t v, q' ≠ .returned t v) → tm'.pc c = some (.returned t v) := by
    intro d q q' hpc hd hq
    rw [hpc, update_of_ne, hp]
    rintro rfl
    rw [hp] at hd
    exact hq t v (Option.some.inj hd).symm
  cases step_cases h with
  | transfer hpc =>
    refine (update_of_ne ?_ _ _).trans hp
    rintro rfl
    rw [hp] at hpc
    cases hpc
  | create hpc => exact hmoved (create_pc ..) hpc nofun
  | watch hpc | cancelled hpc | returned hpc | releaseCancelled hpc | unlock hpc | wake hpc =>
    exact hmoved rfl hpc nofun
  | cleanupInactive | cleanupDone => simpa using hp
  | _ => exact hp

theorem releasedWatchers_step (h : Xfer.step l tm = some tm') (hl : ∀ c, l ≠ .release c) :
    tm'.releasedWatchers = tm.releasedWatchers := by
  cases step_cases h with
  | release => exact absurd rfl (hl _)
  | create | cleanupInactive | cleanupDone => simp
  | _ => rfl

end

/-! ## The invariant -/

theorem World.Covers.later {w w' : World} (h : w.Covers K t n) (hw : w ≤ w') : w'.Covers K t n := by
  obtain ⟨ks, hks, hkey, hn⟩ := h
  exact ⟨ks, hks, World.key_mono hw hkey, hn⟩

theorem Planned.later {w w' : World} (h : Planned K w key job) (hw : w ≤ w') :
    Planned K w' key job := by
  obtain ⟨ks, hks, hkey, hjob⟩ := h
  refine ⟨ks, hks, hkey, ?_⟩
  cases job with
  | download => exact hjob
  | downloadOnto | fromDownload =>
    obtain ⟨n, hn, hlen⟩ := hjob
    exact ⟨n, hn.later hw, hlen⟩

/-- What a hold is about: a reference or a call. -/
def Hold.subject : Hold → Nat ⊕ Nat
  | .layer ref => .inl ref
  | .call c | .watcher _ c => .inr c

namespace System

variable {s s' : System} {tm : State}

def world (s : System) : World where
  request c := (s.request c).map Prod.fst
  key t := if t < s.tm.next then some (s.tm.xfer t).key else none
  result := s.result
  chain := s.chain

theorem world_key : s.world.key t = some key ↔ t < s.tm.next ∧ (s.tm.xfer t).key = key := by
  simp [world]

/-- What holds of transfers, calls and references, whoever holds them. -/
structure Sound (K : Set String) (s : System) : Prop where
  tracked : Tracked s.tm
  watched : Watched s.tm
  fresh : ∀ c, s.nextCall ≤ c → s.tm.pc c = none ∧ s.request c = none
  keyed : ∀ c p, s.tm.pc c = some p → ∃ key job, s.request c = some (key, job) ∧ KeyIs s.tm key p
  planned : ∀ c key job, s.request c = some (key, job) → Planned K s.world key job
  jobs : ∀ t < s.tm.next, ∃ job, s.job t = some job ∧ Planned K s.world (s.tm.xfer t).key job
  ended : ∀ t res, s.result t = some res → t < s.tm.next ∧ (s.tm.xfer t).progressClosed = true
  length : ∀ t l, s.result t = some (.ok l) → ∀ n, s.world.Covers K t n → l.length = n
  refs : ∀ ref, s.nextRef ≤ ref → s.chain ref = none
  releasedRefs : ∀ ref ∈ s.releasedRefs, ref < s.nextRef
  letGo : ∀ t, s.letGo t = true → t < s.tm.next ∧ (s.tm.xfer t).releasedCloses ≠ 0

theorem world_le
    (hgrows : s.tm.next ≤ s'.tm.next ∧ ∀ t < s.tm.next, Grows (s.tm.xfer t) (s'.tm.xfer t))
    (hrequest : ∀ c r, s.request c = some r → s'.request c = some r)
    (hresult : ∀ t res, s.result t = some res → s'.result t = some res)
    (hchain : ∀ ref ds, s.chain ref = some ds → s'.chain ref = some ds) : s.world ≤ s'.world := by
  refine ⟨fun c key hkey => ?_, fun t key hkey => ?_, hresult, hchain⟩
  · obtain ⟨r, hr, rfl⟩ := Option.map_eq_some_iff.1 hkey
    exact Option.map_eq_some_iff.2 ⟨r, hrequest c r hr, rfl⟩
  · obtain ⟨ht, hkey⟩ := world_key.1 hkey
    exact world_key.2 ⟨ht.trans_le hgrows.1, (hgrows.2 t ht).key.trans hkey⟩

theorem covers_back (hgrows : ∀ t < s.tm.next, Grows (s.tm.xfer t) (s'.tm.xfer t))
    (ht : t < s.tm.next) (h : s'.world.Covers K t n) : s.world.Covers K t n := by
  obtain ⟨ks, hks, hkey, hn⟩ := h
  exact ⟨ks, hks, world_key.2 ⟨ht, (hgrows t ht).key.symm.trans (world_key.1 hkey).2⟩, hn⟩

theorem jobs_of_lt (ht : t < s.tm.next) : s.jobs l tm t = s.job t := by
  unfold jobs
  split
  · exact if_neg fun h => Nat.ne_of_lt ht h.1
  · rfl

namespace Sound

/-- The transfer that a step creates has the job that was asked for with its key. -/
theorem created (h : Sound K s) (htm : Xfer.step l s.tm = some tm) (ht : t < tm.next)
    (hnew : s.tm.next ≤ t) :
    ∃ job, s.jobs l tm t = some job ∧ Planned K s.world (tm.xfer t).key job := by
  generalize hs : s.tm = tm₀ at htm hnew
  cases step_cases htm with
  | create hpc =>
    subst hs
    rw [create_next] at ht
    obtain rfl : t = s.tm.next := by omega
    obtain ⟨key, job, hr, rfl⟩ := h.keyed _ _ hpc
    refine ⟨job, ?_, ?_⟩
    · rw [System.jobs, if_pos ⟨rfl, by simp⟩, hr]
      rfl
    · rw [create_xfer, update_self]
      exact h.planned _ _ _ hr
  | cleanupInactive | cleanupDone =>
    simp only [modify_next, inactivate_next, deleteEntry_next] at ht; omega
  | _ => exact absurd ht (Nat.not_lt.2 hnew)

/-- A step of the manager, with the job of a transfer that it creates and the request of a call that
it starts. -/
theorem advance (h : Sound K s) (htm : Xfer.step l s.tm = some tm) {nextCall : Nat}
    {request : Nat → Option (String × Job)}
    (hnew : ∀ c key, l = .transfer c key → ∃ job, request c = some (key, job))
    (hrequest : ∀ c r, s.request c = some r → request c = some r)
    (hplan : ∀ c key job, request c = some (key, job) → Planned K s.world key job)
    (hfresh : ∀ c, nextCall ≤ c → s.nextCall ≤ c ∧ request c = none ∧ ∀ key, l ≠ .transfer c key) :
    Sound K { s with tm, job := s.jobs l tm, nextCall, request } ∧
      s.world ≤ { s with tm, job := s.jobs l tm, nextCall, request }.world := by
  have hgrows := Grows.step htm
  have hle : s.world ≤ { s with tm, job := s.jobs l tm, nextCall, request }.world :=
    world_le hgrows hrequest (fun _ _ h => h) (fun _ _ h => h)
  refine ⟨?_, hle⟩
  constructor
  case tracked => exact h.tracked.step htm
  case watched => exact h.watched.step h.tracked htm
  case refs => exact h.refs
  case releasedRefs => exact h.releasedRefs
  case fresh =>
    intro c hc
    obtain ⟨hc, hnone, hl⟩ := hfresh c hc
    refine ⟨?_, hnone⟩
    cases hp : tm.pc c with
    | none => rfl
    | some p =>
      rcases keyIs_step h.tracked h.watched htm hp with ⟨key, he, -⟩ | ⟨q, hq, -⟩
      · exact absurd he (hl key)
      · rw [(h.fresh c hc).1] at hq
        cases hq
  case keyed =>
    intro c p hp
    rcases keyIs_step h.tracked h.watched htm hp with ⟨key, he, rfl⟩ | ⟨q, hq, hkey⟩
    · obtain ⟨job, hr⟩ := hnew c key he
      exact ⟨key, job, hr, rfl⟩
    · obtain ⟨key, job, hr, hk⟩ := h.keyed c q hq
      exact ⟨key, job, hrequest c _ hr, hkey key hk⟩
  case planned => exact fun c key job hr => (hplan c key job hr).later hle
  case jobs =>
    intro t ht
    rcases Nat.lt_or_ge t s.tm.next with hlt | hge
    · obtain ⟨job, hjob, hplan⟩ := h.jobs t hlt
      refine ⟨job, (jobs_of_lt hlt).trans hjob, ?_⟩
      rw [(hgrows.2 t hlt).key]
      exact hplan.later hle
    · obtain ⟨job, hjob, hplan⟩ := h.created htm ht hge
      exact ⟨job, hjob, hplan.later hle⟩
  case ended =>
    intro t res hres
    obtain ⟨ht, hp⟩ := h.ended t res hres
    exact ⟨ht.trans_le hgrows.1, (hgrows.2 t ht).progressClosed hp⟩
  case length =>
    intro t l hres n hn
    exact h.length t l hres n (covers_back hgrows.2 (h.ended t _ hres).1 hn)
  case letGo =>
    intro t ht
    obtain ⟨hlt, hne⟩ := h.letGo t ht
    have hreleased := (hgrows.2 t hlt).released
    exact ⟨hlt.trans_le hgrows.1, fun he => hne (Nat.le_zero.1 (he ▸ hreleased))⟩

theorem manager (h : Sound K s) (hl : ∀ c key, l ≠ .transfer c key)
    (htm : Xfer.step l s.tm = some tm) :
    Sound K { s with tm, job := s.jobs l tm } ∧ s.world ≤ { s with tm, job := s.jobs l tm }.world :=
  h.advance htm (fun c key he => absurd he (hl c key)) (fun _ _ h => h) h.planned
    fun c hc => ⟨hc, (h.fresh c hc).2, hl c⟩

theorem call (h : Sound K s) {job : Job} (hplan : Planned K s.world key job)
    (htm : Xfer.step (.transfer s.nextCall key) s.tm = some tm) {s' : System} (hs' : s' = { s with
      tm, nextCall :=
      s.nextCall + 1, request := fun c =>
        if c = s.nextCall then some (key, job) else s.request c }) :
    Sound K s' ∧ s.world ≤ s'.world := by
  subst hs'
  refine h.advance htm ?_ ?_ ?_ ?_
  · rintro c key' ⟨⟩
    exact ⟨job, if_pos rfl⟩
  · intro c r hr
    refine (if_neg ?_).trans hr
    rintro rfl
    rw [(h.fresh _ le_rfl).2] at hr
    cases hr
  · intro c key' job' hr
    split at hr
    · cases hr
      exact hplan
    · exact h.planned c key' job' hr
  · intro c hc
    have hne : c ≠ s.nextCall := by omega
    refine ⟨by omega, (if_neg hne).trans (h.fresh c (by omega)).2, ?_⟩
    rintro key' ⟨⟩
    exact hne rfl

theorem finish (h : Sound K s) (htm : Xfer.step (.finish t) s.tm = some tm)
    (hlength : ∀ l, res = .ok l → ∀ n, s.world.Covers K t n → l.length = n)
    (hs' : s' = { s with tm, result := fun u => if u = t then some res else s.result u }) :
    Sound K s' ∧ s.world ≤ s'.world := by
  subst hs'
  have hl : ∀ c key, Label.finish t ≠ .transfer c key := fun _ _ he => nomatch he
  obtain ⟨hsound, -⟩ := h.manager hl htm
  obtain ⟨ht, hopen, hclosed⟩ : t < s.tm.next ∧ (s.tm.xfer t).progressClosed = false ∧
    (tm.xfer t).progressClosed = true := by
    cases step_cases htm with
    | finish ht hopen => exact ⟨ht, hopen, by simp⟩
  have hresult : ∀ u r, s.result u = some r →
      (if u = t then some res else s.result u) = some r := by
    intro u r hr
    refine (if_neg ?_).trans hr
    rintro rfl
    rw [(h.ended u r hr).2] at hopen
    cases hopen
  have hle' :
    s.world ≤ { s with tm, result := fun u => if u = t then some res else s.result u }.world :=
    world_le (Grows.step htm) (fun _ _ h => h) hresult (fun _ _ h => h)
  refine ⟨{ hsound with planned := ?_, jobs := ?_, ended := ?_, length := ?_ }, hle'⟩
  · exact fun c key job hr => (h.planned c key job hr).later hle'
  · -- the keys of the transfers are as before
    exact fun u hu => hsound.jobs u hu
  · intro u r hr
    simp only [] at hr
    split at hr
    · next hu =>
      subst hu
      exact ⟨ht.trans_le (Grows.step htm).1, hclosed⟩
    · exact hsound.ended u r hr
  · intro u l hr n hn
    simp only [] at hr
    split at hr
    · next hu =>
      subst hu
      cases hr
      exact hlength l rfl n (covers_back (Grows.step htm).2 ht hn)
    · exact hsound.length u l hr n hn

/-- The layer that a job is to build on has one layer less than the key of its transfer covers. -/
theorem length_parent (h : Sound K s) (hK : Decodable K) {job : Job} {parent : Chain}
    (hjob : s.job t = some job) (hparent : s.parent job = some parent)
    (hcovers : s.world.Covers K t n) :
    parent.length + 1 = n := by
  obtain ⟨ks, hks, hkey, rfl⟩ := hcovers
  obtain ⟨ht, hkey⟩ := world_key.1 hkey
  obtain ⟨job', hjob', ks', hks', hkey', hplan⟩ := h.jobs t ht
  cases hjob.symm.trans hjob'
  rw [hK ks ks' hks hks' (hkey.symm.trans hkey')]
  unfold System.parent at hparent
  split at hparent
  · cases hparent
    rw [List.length_reverse]
    exact hplan
  · next parentDownload =>
    obtain ⟨m, hm, hlen⟩ := hplan
    split at hparent <;> cases hparent
    next hres => rw [h.length parentDownload _ hres m hm, hlen]
  · next sourceDownload parentDownload =>
    obtain ⟨m, hm, hlen⟩ := hplan
    split at hparent <;> cases hparent
    rw [h.length parentDownload parent ‹_› m hm, hlen]

end Sound

end System

end Docker.Xfer.Download
