import Docker.Xfer.Clients

/-!
# What a download returns stays referenced

Each reference and each watcher is held by one client at most, and is not released as long as it is
held. A transfer whose watcher is held keeps its layer. Transfers are shared by the concatenation of
the keys of all layers.
-/

namespace Docker.Xfer.Download

open Function List
open Layer (DiffID)
open Transition (run)

namespace System

variable {K : Set String} {s s' : System} {tm : State}

def Live (s : System) : Hold → Prop
  | .layer ref => ref < s.nextRef ∧ ref ∉ s.releasedRefs
  | .call c => c < s.nextCall ∧ ∀ t v, s.tm.pc c = some (.returned t v) → v ∉ s.tm.releasedWatchers
  | .watcher t c =>
    c < s.nextCall ∧ ∃ v, s.tm.pc c = some (.returned t v) ∧ v ∉ s.tm.releasedWatchers

structure Holding (s : System) (held : Nat → Multiset Hold) : Prop where
  nodup : ∀ n, (held n).Nodup
  live : ∀ n, ∀ a ∈ held n, s.Live a
  unique : ∀ n m, ∀ a ∈ held n, ∀ b ∈ held m, a.subject = b.subject → n = m ∧ a = b

namespace Holding

variable {n : Nat} {a : Hold}

theorem congr (h : Holding s held) (hlive : ∀ n, ∀ a ∈ held n, s.Live a → s'.Live a) :
    Holding s' held :=
  { h with live := fun n a ha => hlive n a ha (h.live n a ha) }

theorem erase (h : Holding s held) (n : Nat) (a : Hold) :
    Holding s (update held n ((held n).erase a)) := by
  have hsub : ∀ m, update held n ((held n).erase a) m ≤ held m := by
    intro m
    by_cases hm : m = n
    · subst hm
      rw [update_self]
      exact Multiset.erase_le a _
    · rw [update_of_ne hm]
  refine ⟨fun m => Multiset.nodup_of_le (hsub m) (h.nodup m), fun m b hb =>
    h.live m b (Multiset.mem_of_le (hsub m) hb), ?_⟩
  exact fun m m' b hb b' hb' => h.unique m m' b (Multiset.mem_of_le (hsub m) hb) b'
    (Multiset.mem_of_le (hsub m') hb')

theorem insert (h : Holding s held) (n : Nat) (hlive : s.Live a)
    (hnew : ∀ m, ∀ b ∈ held m, b.subject ≠ a.subject) :
    Holding s (update held n (a ::ₘ held n)) := by
  have hmem : ∀ m b, b ∈ update held n (a ::ₘ held n) m → m = n ∧ b = a ∨ b ∈ held m := by
    intro m b hb
    by_cases hm : m = n
    · subst hm
      rw [update_self, Multiset.mem_cons] at hb
      exact hb.imp_left fun he => ⟨rfl, he⟩
    · rw [update_of_ne hm] at hb
      exact .inr hb
  refine ⟨fun m => ?_, fun m b hb => ?_, fun m m' b hb b' hb' he => ?_⟩
  · by_cases hm : m = n
    · subst hm
      rw [update_self, Multiset.nodup_cons]
      exact ⟨fun ha => hnew m a ha rfl, h.nodup m⟩
    · rw [update_of_ne hm]
      exact h.nodup m
  · rcases hmem m b hb with ⟨-, rfl⟩ | hb
    · exact hlive
    · exact h.live m b hb
  · rcases hmem m b hb with ⟨rfl, rfl⟩ | hold
    · rcases hmem m' b' hb' with ⟨rfl, rfl⟩ | hold'
      · exact ⟨rfl, rfl⟩
      · exact absurd he.symm (hnew m' b' hold')
    · rcases hmem m' b' hb' with ⟨rfl, rfl⟩ | hold'
      · exact absurd he (hnew m b hold)
      · exact h.unique m m' b hold b' hold' he

/-- What is held after a client has given something up is about something else. -/
theorem subject_ne_of_mem_erase (h : Holding s held) (ha : a ∈ held n) {b : Hold}
    (hb : b ∈ update held n ((held n).erase a) m) : b.subject ≠ a.subject := by
  intro he
  by_cases hm : m = n
  · subst hm
    rw [update_self, (h.nodup m).mem_erase_iff] at hb
    exact hb.1 (h.unique m m b hb.2 a ha he).2
  · rw [update_of_ne hm] at hb
    exact hm (h.unique m n b hb a ha he).1

end Holding

theorem Live.manager (hs : Sound K s) (htm : Xfer.step l s.tm = some s'.tm)
    (hl : ∀ c, l ≠ .release c) (href : s'.nextRef = s.nextRef)
    (hreleased : s'.releasedRefs = s.releasedRefs) (hcall : s.nextCall ≤ s'.nextCall)
    (ha : s.Live a) : s'.Live a := by
  have hwatched : Watched s'.tm := hs.watched.step hs.tracked htm
  have hsame : s'.tm.releasedWatchers = s.tm.releasedWatchers := releasedWatchers_step htm hl
  cases a with
  | layer ref => exact ⟨href ▸ ha.1, hreleased ▸ ha.2⟩
  | call c =>
    refine ⟨ha.1.trans_le hcall, fun t v hpc hv => ?_⟩
    rw [hsame] at hv
    -- a watcher that was released belongs to a call that had returned
    obtain ⟨c', t', hpc'⟩ := hs.watched.released hv
    obtain rfl : c = c' := hwatched.unique hpc (returned_step htm hpc') rfl rfl
    exact ha.2 t' v hpc' hv
  | watcher t c =>
    obtain ⟨hc, v, hpc, hv⟩ := ha
    exact ⟨hc.trans_le hcall, v, returned_step htm hpc, hsame ▸ hv⟩

/-- What is known after a client's call. -/
structure Performed (K : Set String) (s : System) (held : Nat → Multiset Hold) (n : Nat) (op : Op)
    (answer : Answer op) (s' : System) : Prop where
  sound : Sound K s'
  later : s.world ≤ s'.world
  ok : (rules K True).ok op answer s'.world
  holding : Holding s' (Function.update held n (held n - cost op + gain op answer))
  clients : s'.clients = s.clients

theorem Holding.same (h : Holding s held) : Holding s (update held n (held n - 0 + 0)) := by
  rwa [hold_rest, update_eq_self]

section
variable {n : Nat} (hs : Sound K s) (hh : Holding s held)
include hs hh

theorem performed_get (ds : List DiffID) : Performed K s held n (.get ds) (some s.nextRef) { s with
    chain :=
  fun ref => if ref = s.nextRef then some ds else s.chain ref, nextRef := s.nextRef + 1 } := by
  have hle : s.world ≤ { s with
      chain := fun ref => if ref = s.nextRef then some ds else s.chain ref, nextRef :=
        s.nextRef + 1 }.world := by
    refine world_le ⟨le_rfl, fun _ _ => .refl _⟩ (fun _ _ h => h) (fun _ _ h => h)
      fun ref ds' hds => (if_neg ?_).trans hds
    rintro rfl
    rw [hs.refs _ le_rfl] at hds
    cases hds
  refine ⟨{ hs with planned := ?_, jobs := ?_, refs := ?_, releasedRefs := ?_ }, hle, ?_, ?_, rfl⟩
  · exact fun c key job hr => (hs.planned c key job hr).later hle
  · intro t ht
    obtain ⟨job, hjob, hplan⟩ := hs.jobs t ht
    exact ⟨job, hjob, hplan.later hle⟩
  · intro ref href
    have hne : ref ≠ s.nextRef := Nat.ne_of_gt href
    exact (if_neg hne).trans (hs.refs ref (Nat.le_of_lt href))
  · exact fun ref href => Nat.lt_succ_of_lt (hs.releasedRefs ref href)
  · rintro - ref ⟨⟩
    exact if_pos rfl
  · change Holding _ (update held n (held n - 0 + {.layer s.nextRef}))
    rw [hold_more]
    refine Holding.insert (hh.congr fun m a _ ha => ?_) n ?_ ?_
    · cases a with
      | layer ref => exact ⟨Nat.lt_succ_of_lt ha.1, ha.2⟩
      | call c => exact ha
      | watcher t c => exact ha
    · exact ⟨Nat.lt_succ_self _, fun href => Nat.lt_irrefl _ (hs.releasedRefs _ href)⟩
    · intro m b hb he
      cases b with
      | layer ref =>
        cases he
        exact Nat.lt_irrefl _ (hh.live m _ hb).1
      | call c => cases he
      | watcher t c => cases he

theorem performed_releaseLayer (hmem : .layer ref ∈ held n) :
    Performed K s held n (.releaseLayer ref) ()
      { s with releasedRefs := ref :: s.releasedRefs } := by
  refine ⟨{ hs with releasedRefs := ?_ }, le_rfl, trivial, ?_, rfl⟩
  · exact forall_mem_cons.2 ⟨(hh.live n _ hmem).1, hs.releasedRefs⟩
  · change Holding _ (update held n (held n - {.layer ref} + 0))
    rw [hold_less]
    refine (hh.erase n (.layer ref)).congr fun m a ha hlive => ?_
    cases a with
    | layer ref' =>
      have hne : ref' ≠ ref := fun he => hh.subject_ne_of_mem_erase hmem ha (congrArg Sum.inl he)
      exact ⟨hlive.1, fun href => hlive.2 ((mem_cons.1 href).resolve_left hne)⟩
    | call c => exact hlive
    | watcher t c => exact hlive

theorem performed_transfer {job : Job} (hplan : Planned K s.world key job)
    (htm : Xfer.step (.transfer s.nextCall key) s.tm = some tm) :
    Performed K s held n (.transfer key job) s.nextCall { s with
      tm, nextCall :=
      s.nextCall + 1, request := fun c =>
        if c = s.nextCall then some (key, job) else s.request c } := by
  obtain ⟨hsound, hle⟩ := hs.call hplan htm rfl
  refine ⟨hsound, hle, fun _ => ?_, ?_, rfl⟩
  · simp [world]
  · change Holding _ (update held n (held n - 0 + {.call s.nextCall}))
    rw [hold_more]
    refine Holding.insert (hh.congr fun m a _ ha => ?_) n ⟨Nat.lt_succ_self _, fun t v hpc => ?_⟩ ?_
    · exact ha.manager hs htm (by simp) rfl rfl (Nat.le_succ _)
    · -- the call has just begun
      cases step_cases htm with
      | transfer =>
        simp only [State.setPc_pc, update_self] at hpc
        cases hpc
    · intro m b hb he
      cases b with
      | layer ref => cases he
      | call c | watcher t c =>
        cases he
        exact Nat.lt_irrefl _ (hh.live m _ hb).1

theorem performed_returned (hmem : .call c ∈ held n) (hpc : s.tm.pc c = some (.returned t v)) :
    Performed K s held n (.returned c) t s := by
  refine ⟨hs, le_rfl, fun _ key hkey => ?_, ?_, rfl⟩
  · obtain ⟨key', job, hr, hk⟩ := hs.keyed c _ hpc
    have hsame : some key' = some key := (congrArg (Option.map Prod.fst) hr).symm.trans hkey
    cases hsame
    exact world_key.2 hk
  · change Holding _ (update held n (held n - {.call c} + {.watcher t c}))
    rw [Multiset.sub_singleton, add_comm, Multiset.singleton_add]
    have hlive := hh.live n _ hmem
    have hinsert := (hh.erase n (.call c)).insert n (a := .watcher t c)
      ⟨hlive.1, v, hpc, hlive.2 t v hpc⟩
      fun m b hb => hh.subject_ne_of_mem_erase hmem hb
    rwa [update_idem, update_self] at hinsert

theorem performed_release (hmem : .watcher t w ∈ held n) (hpc : s.tm.pc w = some (.returned t v))
    (htm : Xfer.step (.release w) s.tm = some tm) :
    Performed K s held n (.release t w) () { s with tm } := by
  obtain ⟨hsound, hle⟩ := hs.manager (by rintro _ _ ⟨⟩) htm
  refine ⟨hsound, hle, trivial, ?_, rfl⟩
  change Holding _ (update held n (held n - {.watcher t w} + 0))
  rw [hold_less]
  obtain ⟨hpcs, hreleased⟩ : tm.pc = s.tm.pc ∧
    tm.releasedWatchers = v :: s.tm.releasedWatchers := by
    generalize s.tm = tm₀ at htm hpc
    cases step_cases htm with
    | release hpc' =>
      cases hpc.symm.trans hpc'
      exact ⟨rfl, rfl⟩
  -- another call has another watcher
  have hother : ∀ c t' v', c ≠ w → s.tm.pc c = some (.returned t' v') → v' ≠ v := by
    rintro c t' v' hc hpc' rfl
    exact hc (hs.watched.unique hpc' hpc rfl rfl)
  refine (hh.erase n (.watcher t w)).congr fun m a ha hlive => ?_
  have hne := hh.subject_ne_of_mem_erase hmem ha
  cases a with
  | layer ref => exact hlive
  | call c =>
    refine ⟨hlive.1, fun t' v' hpc' => ?_⟩
    rw [hpcs] at hpc'
    rw [hreleased, mem_cons, not_or]
    exact ⟨hother c t' v' (fun hc => hne (congrArg Sum.inr hc)) hpc', hlive.2 t' v' hpc'⟩
  | watcher t' c =>
    obtain ⟨hlt, v', hpc', hv'⟩ := hlive
    refine ⟨hlt, v', hpcs ▸ hpc', ?_⟩
    rw [hreleased, mem_cons, not_or]
    exact ⟨hother c t' v' (fun hc => hne (congrArg Sum.inr hc)) hpc', hv'⟩

theorem performed (hpre : (rules K True).pre op s.world) (hcost : cost op ≤ held n)
    (hp : s.perform choice op = some (answer, s')) : Performed K s held n op answer s' := by
  cases op with
  | diffID d =>
    cases hp
    exact ⟨hs, le_rfl, trivial, hh.same, rfl⟩
  | get ds =>
    simp only [perform] at hp
    split at hp
    · cases hp
      exact performed_get hs hh ds
    · cases hp
      exact ⟨hs, le_rfl, fun _ ref he => (nomatch he), hh.same, rfl⟩
  | releaseLayer ref =>
    cases hp
    exact performed_releaseLayer hs hh (Multiset.singleton_le.1 hcost)
  | transfer key job =>
    obtain ⟨tm, htm, he⟩ := Option.map_eq_some_iff.1 hp
    cases he
    exact performed_transfer hs hh (hpre trivial) htm
  | returned c =>
    simp only [perform] at hp
    split at hp <;> cases hp
    exact performed_returned hs hh (Multiset.singleton_le.1 hcost) ‹_›
  | release t w =>
    simp only [perform] at hp
    split at hp
    · next t' v hpc =>
      split at hp
      · next ht =>
        subst ht
        obtain ⟨tm, htm, he⟩ := Option.map_eq_some_iff.1 hp
        cases he
        exact performed_release hs hh (Multiset.singleton_le.1 hcost) hpc htm
      · cases hp
    · cases hp
  | select t =>
    simp only [perform] at hp
    split at hp
    · split at hp <;> cases hp
      exact ⟨hs, le_rfl, trivial, hh.same, rfl⟩
    · cases hp
      exact ⟨hs, le_rfl, trivial, hh.same, rfl⟩
  | result t =>
    cases hp
    refine ⟨hs, le_rfl, fun _ l hl => ?_, hh.same, rfl⟩
    cases hres : s.result t with
    | none =>
      rw [hres] at hl
      cases hl
      exact .inl rfl
    | some res =>
      rw [hres] at hl
      subst hl
      exact .inr ⟨hres, hs.length t l hres⟩

end

end System

/-! ## Runs -/

/-- A client holds what its program is to give up, and at the end nothing. -/
def Client.Owned (K : Set String) (w : World) (h : Multiset Hold) (client : Client) : Prop :=
  match client.code with
  | .running p => Prog.Owns (rules K True) (Returns True client.layers.length) h w p
  | .releasing p => Prog.Owns (rules K True) (fun _ h _ => h = 0) h w p

section
variable {K : Set String}

theorem pre_later (hw : w ≤ w') (op : Op) (hpre : (rules K strict).pre op w) :
    (rules K strict).pre op w' := by
  cases op with
  | transfer key job => exact fun hs => (hpre hs).later hw
  | _ => trivial

theorem Client.Owned.later {client : Client} (hc : client.Owned K w h) (hw : w ≤ w') :
    client.Owned K w' h := by
  obtain ⟨layers, code⟩ := client
  cases code with
  | running p => exact Prog.Owns.later hc hw (pre_later hw) fun o h ho => Returns.later ho hw
  | releasing p => exact Prog.Owns.later hc hw (pre_later hw) fun _ _ h => h

theorem Returns.owns_releaseHold (ho : Returns True n o h w) :
    Prog.Owns (rules K True) (fun _ h _ => h = 0) h w (releaseHold o.release) := by
  obtain rfl := ho.holds
  cases hr : o.release with
  | none => exact rfl
  | some a =>
    cases a with
    | layer ref =>
      exact owns_releaseLayer (Multiset.mem_singleton_self _) fun _ _ => Multiset.erase_singleton _
    | watcher t v =>
      exact owns_release (Multiset.mem_singleton_self _) fun _ _ => Multiset.erase_singleton _
    | call c =>
      have herr : o.err = none := by
        by_contra hne
        cases hr.symm.trans (ho.failed hne)
      have hbacked := ho.backed trivial herr
      rw [Outcome.Backed, hr] at hbacked
      exact hbacked.elim

end

namespace System

variable {K : Set String} {s s' : System}

structure Inv (K : Set String) (s : System) (held : Nat → Multiset Hold) : Prop where
  sound : Sound K s
  holding : Holding s held
  idle : ∀ n, s.clients n = none → held n = 0
  clients : ∀ n client, s.clients n = some client → client.Owned K s.world (held n)

namespace Inv

theorem init (limit : Int) : Inv K (init limit) fun _ => 0 where
  sound :=
    { tracked := .init limit
      watched := .init limit
      fresh := fun _ _ => ⟨rfl, rfl⟩
      keyed := nofun
      planned := nofun
      jobs := nofun
      ended := nofun
      length := nofun
      refs := fun _ _ => rfl
      releasedRefs := nofun
      letGo := nofun }
  holding := ⟨fun _ => Multiset.nodup_zero, fun _ _ h => absurd h (Multiset.notMem_zero _),
    fun _ _ _ h => absurd h (Multiset.notMem_zero _)⟩
  idle _ _ := rfl
  clients := nofun

theorem congr (h : Inv K s held) (hsound : Sound K s') (hle : s.world ≤ s'.world)
    (hclients : s'.clients = s.clients) (hlive : ∀ a, s.Live a → s'.Live a) : Inv K s' held where
  sound := hsound
  holding := h.holding.congr fun _ a _ ha => hlive a ha
  idle n hn := h.idle n (hclients ▸ hn)
  clients n client hc := (h.clients n client (hclients ▸ hc)).later hle

theorem setClient {n : Nat} (h : Inv K s held) (hsound : Sound K s') (hle : s.world ≤ s'.world)
    (hclients : s'.clients = s.clients) (hholding : Holding s' (update held n a))
    (hclient : client.Owned K s'.world a) : Inv K (s'.setClient n client) (update held n a) where
  sound := { hsound with }
  holding := hholding.congr fun _ a _ ha => by cases a <;> exact ha
  idle m hm := by
    by_cases hmn : m = n
    · simp [System.setClient, hmn] at hm
    · rw [update_of_ne hmn]
      simp only [System.setClient, hmn, if_false, hclients] at hm
      exact h.idle m hm
  clients m client' hm := by
    by_cases hmn : m = n
    · subst hmn
      simp only [System.setClient, if_true] at hm
      cases hm
      rwa [update_self]
    · rw [update_of_ne hmn]
      simp only [System.setClient, hmn, if_false, hclients] at hm
      exact (h.clients m client' hm).later hle

theorem client {client : Client} (h : Inv K s held)
    (hpre : (rules K True).pre op s.world) (hcost : cost op ≤ held n)
    (hp : s.perform choice op = some (answer, s'))
    (hclient : ∀ w', s.world ≤ w' → (rules K True).ok op answer w' →
      client.Owned K w' (held n - cost op + gain op answer)) :
    ∃ held', Inv K (s'.setClient n client) held' := by
  have hperformed := performed h.sound h.holding hpre hcost hp
  exact ⟨_, h.setClient hperformed.sound hperformed.later hperformed.clients hperformed.holding
    (hclient _ hperformed.later hperformed.ok)⟩

theorem step (hK : Decodable K) (h : Inv K s held)
    (hl : ∀ n layers, l = .start n layers → ∀ d ∈ layers, d.key ∈ K) (hstep : step l s = some s') :
    ∃ held', Inv K s' held' := by
  cases l with
  | start n layers =>
    simp only [System.step] at hstep
    split at hstep <;> cases hstep
    next hnone =>
    refine ⟨_, h.setClient h.sound le_rfl rfl ?_ (owns_download layers fun _ => hl n layers rfl)⟩
    have hzero : update held n 0 = held := by rw [← h.idle n hnone, update_eq_self]
    rw [hzero]
    exact h.holding
  | client n choice =>
    simp only [System.step] at hstep
    split at hstep
    case h_3 => cases hstep
    all_goals
      next layers op k hc =>
      obtain ⟨⟨answer, s''⟩, hp, rfl⟩ := Option.map_eq_some_iff.1 hstep
      obtain ⟨hpre, hcost, hnext⟩ := h.clients n _ hc
      exact h.client hpre hcost hp fun w' hw hok => hnext w' hw answer hok
  | release n =>
    simp only [System.step] at hstep
    split at hstep <;> cases hstep
    next layers o hc =>
    refine ⟨_, h.setClient h.sound le_rfl rfl ?_ (Returns.owns_releaseHold (h.clients n _ hc))⟩
    rw [update_eq_self]
    exact h.holding
  | manager l =>
    simp only [System.step, Option.ite_none_right_eq_some] at hstep
    obtain ⟨hint, hstep⟩ := hstep
    obtain ⟨tm, htm, rfl⟩ := Option.map_eq_some_iff.1 hstep
    have hcall : ∀ c key, l ≠ .transfer c key := by
      rintro c key rfl
      cases hint
    have hrelease : ∀ c, l ≠ .release c := by
      rintro c rfl
      cases hint
    obtain ⟨hsound, hle⟩ := h.sound.manager hcall htm
    exact ⟨held, h.congr hsound hle rfl fun a ha => ha.manager h.sound htm hrelease rfl rfl le_rfl⟩
  | finish t outcome =>
    simp only [System.step] at hstep
    split at hstep
    · cases hstep
    · next tm htm =>
      -- the result has as many layers as the key covers
      have hinv : ∀ res, (∀ l, res = .ok l → ∀ n, s.world.Covers K t n → l.length = n) →
          s' = { s with tm, result := fun u => if u = t then some res else s.result u } → ∃ held',
            Inv K s' held' := by
        intro res hres hs'
        obtain ⟨hsound, hle⟩ := h.sound.finish htm hres hs'
        subst hs'
        exact ⟨held, h.congr hsound hle rfl fun a ha =>
          ha.manager h.sound htm (by rintro c ⟨⟩) rfl rfl le_rfl⟩
      split at hstep
      · next err =>
        cases hstep
        exact hinv (.error err) (fun l hl => nomatch hl) rfl
      · next diffID =>
        obtain ⟨parent, hparent, rfl⟩ := Option.map_eq_some_iff.1 hstep
        obtain ⟨job, hjob, hparent⟩ := Option.bind_eq_some_iff.1 hparent
        refine hinv (.ok (diffID :: parent)) ?_ rfl
        rintro _ ⟨⟩ n hn
        exact h.sound.length_parent hK hjob hparent hn
  | letGo t =>
    simp only [System.step] at hstep
    split at hstep
    · next hres =>
      rw [Option.ite_none_right_eq_some, Option.some.injEq] at hstep
      obtain ⟨hreleased, rfl⟩ := hstep
      refine ⟨held, h.congr { h.sound with letGo := ?_ } le_rfl rfl fun a
        ha => by cases a <;> exact ha⟩
      intro u hu
      rcases Bool.or_eq_true_iff.1 hu with hu | hu
      · obtain rfl := of_decide_eq_true hu
        exact ⟨(h.sound.ended u _ hres).1, hreleased⟩
      · exact h.sound.letGo u hu
    · cases hstep

theorem run (hK : Decodable K) (h : Inv K s held)
    (hls : ∀ n layers, .start n layers ∈ ls → ∀ d ∈ layers, d.key ∈ K)
    (hrun : Transition.run System.step ls s = some s') :
    ∃ held', Inv K s' held' := by
  refine Transition.run_inv_of_mem (I := fun s => ∃ held, Inv K s held) ?_ ⟨held, h⟩ hrun
  rintro l hl s₁ s₂ ⟨held₁, h₁⟩ hstep
  refine h₁.step hK ?_ hstep
  rintro n layers rfl
  exact hls n layers hl

theorem referenced (h : Inv K s held) (hreturned : s.returned n = some (layers, o))
    (herr : o.err = none) :
    o.diffIDs.length = layers.length ∧ (o.diffIDs = [] ∨ s.Referenced o.diffIDs) := by
  have hclient : s.clients n = some ⟨layers, .running (.ret o)⟩ := by
    unfold System.returned at hreturned
    split at hreturned <;> cases hreturned
    assumption
  have hreturns : Returns True layers.length o (held n) s.world := h.clients n _ hclient
  refine ⟨hreturns.length herr, ?_⟩
  have hbacked := hreturns.backed trivial herr
  have hholds := hreturns.holds
  unfold Outcome.Backed at hbacked
  split at hbacked
  · exact .inl hbacked
  · next ref hr =>
    have hlive : s.Live (.layer ref) := h.holding.live n _ (by simp [hholds, hr])
    exact .inr (.inl ⟨ref, hlive.1, hbacked, hlive.2⟩)
  · next t c hr =>
    -- the transfer is watched, so that it keeps its layer
    obtain ⟨-, v, hpc, hv⟩ : s.Live (.watcher t c) := h.holding.live n _ (by simp [hholds, hr])
    refine .inr (.inr ⟨t, (h.sound.ended t _ hbacked).1, hbacked,
      Bool.eq_false_iff.2 fun hgone => ?_⟩)
    exact (h.sound.letGo t hgone).2 (h.sound.watched.alive hpc hv).2
  · exact hbacked.elim

end Inv

end System

/-- A download releases what it has got, or returns the function that does, with one DiffID for each
layer. If the number of keys can be told from their concatenation, the returned DiffIDs name a layer
that is referenced until the function is called. -/
theorem download_balanced {K : Set String} (hK : Decodable K) :
    (∀ layers trace o, (download layers).Completes trace o →
      (trace.map fun e => gain e.1 e.2).sum = (trace.map fun e => cost e.1).sum +
        o.release.elim 0 (fun a => {a}) ∧
      (o.err ≠ none → o.release = none) ∧ (o.err = none → o.diffIDs.length = layers.length)) ∧
    ∀ limit ls s, (∀ n layers, .start n layers ∈ ls → ∀ d ∈ layers, d.key ∈ K) →
      run System.step ls (System.init limit) = some s →
      ∀ n layers o, s.returned n = some (layers, o) → o.err = none →
        o.diffIDs.length = layers.length ∧ (o.diffIDs = [] ∨ s.Referenced o.diffIDs) := by
  refine ⟨fun layers trace o hend => ?_, fun limit ls s hls hrun n layers o hreturned herr => ?_⟩
  · -- nothing is known of the world
    let w : World := ⟨fun _ => none, fun _ => none, fun _ => none, fun _ => none⟩
    have howns : Prog.Owns (rules ∅ False) (Returns False layers.length) 0 w (download layers) :=
      owns_download layers nofun
    have hok : ∀ op answer, (rules ∅ False).ok op answer w := by
      intro op answer
      cases op <;> first | trivial | exact nofun
    obtain ⟨h, hreturns, hbalance⟩ := howns.balance hok hend
    rw [zero_add] at hbalance
    exact ⟨hreturns.holds ▸ hbalance, hreturns.failed, hreturns.length⟩
  · obtain ⟨held, hinv⟩ := (System.Inv.init limit).run hK hls hrun
    exact hinv.referenced hreturned herr

/-- Keys of one length, as those of layers with digests of one algorithm. -/
theorem decodable_length (hm : 0 < m) : Decodable {k | k.length = m} := by
  have hlength : ∀ ks : List String, (∀ k ∈ ks, k ∈ {k : String | k.length = m}) →
      (String.join ks).length = m * ks.length := by
    intro ks hks
    induction ks with
    | nil => rfl
    | cons k ks ih =>
      obtain ⟨hk, hks⟩ := forall_mem_cons.1 hks
      rw [String.join_cons, String.length_append, ih hks, length_cons, hk,
        Nat.mul_succ, Nat.add_comm]
  intro ks ks' hks hks' hjoin
  have hmul : m * ks.length = m * ks'.length := by rw [← hlength ks hks, ← hlength ks' hks', hjoin]
  exact Nat.eq_of_mul_eq_mul_left hm hmul

/-! ## Two downloads -/

/-- A download of two layers, neither of which exists: both transfers are created. -/
def twoLayers : List SystemLabel :=
  [.start 0 [⟨"v2:sha256:1"⟩, ⟨"v2:sha256:2"⟩], .client 0 {}, .client 0 {},
    .manager (.lookup 0), .client 0 {},
    .client 0 {}, .manager (.lookup 1), .client 0 {}]

/-- The transfers end, one with a layer and the other with a layer on top of it. -/
def bothEnd : List SystemLabel :=
  [.finish 0 (.ok "sha256:a"), .finish 1 (.ok "sha256:b"), .manager (.broadcast 1)]

/-- A download of one layer whose key is the two keys in a row gets the transfer of the second
layer. -/
def oneLayer : List SystemLabel :=
  [.start 1 [⟨"v2:sha256:1v2:sha256:2"⟩], .client 1 {}, .client 1 {}, .manager (.lookup 2),
    .manager (.checkDone 2), .client 1 {}]

/-- It returns the DiffID of that layer only, and there is no layer with this DiffID alone. -/
theorem download_not_referenced : ∃ s,
    run System.step (twoLayers ++ oneLayer ++ bothEnd ++ [.client 1 { done := true }, .client 1 {}])
      (System.init 3) = some s ∧
    s.returned 1 = some ([⟨"v2:sha256:1v2:sha256:2"⟩], ⟨["sha256:b"], some (.watcher 1 2), none⟩) ∧
    ¬ s.Referenced ["sha256:b"] := by
  exact Transition.exists_run _ (by decide +kernel) fun _ _ h => h

theorem download_balanced_two : ∃ s,
    run System.step (twoLayers ++ bothEnd ++
      [.client 0 { done := true }, .client 0 {}, .client 0 {}]) (System.init 3) = some s ∧
    s.returned 0 = some ([⟨"v2:sha256:1"⟩, ⟨"v2:sha256:2"⟩],
      ⟨["sha256:a", "sha256:b"], some (.watcher 1 1), none⟩) ∧
    (["sha256:a", "sha256:b"] = [] ∨ s.Referenced ["sha256:a", "sha256:b"]) := by
  refine Transition.exists_run (fun s => s.returned 0 = some ([⟨"v2:sha256:1"⟩, ⟨"v2:sha256:2"⟩],
    ⟨["sha256:a", "sha256:b"], some (.watcher 1 1), none⟩)) (by decide +kernel)
      fun s hs hreturned => ?_
  have hkeys : ∀ n layers, SystemLabel.start n layers ∈ twoLayers ++ bothEnd ++
      [.client 0 { done := true }, .client 0 {}, .client 0 {}] → ∀ d ∈ layers,
        d.key ∈ {k : String | k.length = 11} := by
    intro n layers hmem
    simp only [twoLayers, bothEnd, mem_append, mem_cons, SystemLabel.start.injEq,
      reduceCtorEq, or_false,
      not_mem_nil] at hmem
    obtain ⟨-, rfl⟩ := hmem
    decide
  exact ⟨hreturned, ((download_balanced (decodable_length (by decide))).2 3 _ s hkeys hs 0 _ _
    hreturned rfl).2⟩

end Docker.Xfer.Download
