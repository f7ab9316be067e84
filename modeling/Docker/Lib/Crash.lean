import Docker.Lib.Prog

/-!
# Programs that can be stopped

A program of `Docker.Lib.Prog` whose calls act on a state that outlives it. An `Env` says which
answers a call can get in a state and what the state is afterwards. `Ends` relates the first state
to the result and the last one, and `Passes` to every state in which the program can be stopped.
`During` is the rule for both: the weakest precondition of a Hoare logic with crash conditions.
-/

universe u v

namespace Prog

/-- What the calls of a program do to a state. -/
structure Env (C : Type u) (R : C → Type u) (σ : Type v) where
  /-- Whether a call can be answered so. -/
  ok : (c : C) → R c → σ → Prop
  /-- The state after a call that was answered so. -/
  after : (c : C) → R c → σ → σ

variable {C : Type u} {R : C → Type u} {α β : Type u} {σ : Type v} {E : Env C R σ}
  {answer : (c : C) → σ → R c}

/-- The program can end with this result and in this state. -/
inductive Ends (E : Env C R σ) : Prog C R α → σ → α → σ → Prop
  | ret {a : α} {s : σ} : Ends E (ret a) s a s
  | call {c : C} {k : R c → Prog C R α} {r : R c} {s s' : σ} {a : α} : E.ok c r s →
    Ends E (k r) (E.after c r s) a s' → Ends E (call c k) s a s'

inductive Passes (E : Env C R σ) : Prog C R α → σ → σ → Prop
  | here {p : Prog C R α} {s : σ} : Passes E p s s
  | call {c : C} {k : R c → Prog C R α} {r : R c} {s s' : σ} : E.ok c r s →
    Passes E (k r) (E.after c r s) s' → Passes E (call c k) s s'

/-- `I` holds in every state passed through, and `Q` at the end. -/
def During (E : Env C R σ) (I : σ → Prop) (Q : α → σ → Prop) : Prog C R α → σ → Prop
  | ret a, s => I s ∧ Q a s
  | call c k, s => I s ∧ ∀ r, E.ok c r s → During E I Q (k r) (E.after c r s)

section During
variable {I I' : σ → Prop} {Q Q' : α → σ → Prop} {p : Prog C R α} {s : σ} {a : α}
  {f : α → Prog C R β}

theorem During.start (h : p.During E I Q s) : I s := by
  cases p with
  | ret a => exact h.1
  | call c k => exact h.1

theorem During.imp (h : p.During E I Q s) (hI : ∀ s, I s → I' s)
    (hQ : ∀ a s, I s → Q a s → Q' a s) :
    p.During E I' Q' s := by
  induction p generalizing s with
  | ret a => exact ⟨hI s h.1, hQ a s h.1 h.2⟩
  | call c k ih => exact ⟨hI s h.1, fun r hr => ih r (h.2 r hr)⟩

theorem During.mono (h : p.During E I Q s) (hQ : ∀ a s, I s → Q a s → Q' a s) : p.During E I Q' s :=
  h.imp (fun _ hs => hs) hQ

@[simp] theorem during_pure : (pure a : Prog C R α).During E I Q s ↔ I s ∧ Q a s := Iff.rfl

@[simp] theorem during_bind {Q : β → σ → Prop} :
    (p >>= f).During E I Q s ↔ p.During E I (fun a s' => (f a).During E I Q s') s := by
  induction p generalizing s with
  | ret a => exact ⟨fun h => ⟨h.start, h⟩, fun h => h.2⟩
  | call c k ih => exact and_congr Iff.rfl (forall_congr' fun r => imp_congr_right fun _ => ih r)

theorem During.andThen {Q' : β → σ → Prop} (h : p.During E I Q s)
    (hf : ∀ a s, I s → Q a s → (f a).During E I Q' s) : (p >>= f).During E I Q' s :=
  during_bind.2 (h.mono hf)

theorem During.of_passes (h : p.During E I Q s) (hp : p.Passes E s s') : I s' := by
  induction hp with
  | here => exact h.start
  | call hr _ ih => exact ih (h.2 _ hr)

theorem During.of_ends (h : p.During E I Q s) (hp : p.Ends E s a s') : Q a s' := by
  induction hp with
  | ret => exact h.2
  | call hr _ ih => exact ih (h.2 _ hr)

/-- What ends in an environment ends in one that admits more answers. -/
theorem Ends.of_ok (hok : ∀ c r s, E.ok c r s → E'.ok c r s)
    (hafter : ∀ c r s, E.after c r s = E'.after c r s) (h : p.Ends E s a s') :
    p.Ends E' s a s' := by
  induction h with
  | ret => exact .ret
  | call hr _ ih => exact .call (hok _ _ _ hr) (hafter _ _ _ ▸ ih)

def request (c : C) : Prog C R (R c) := call c ret

/-- The program leaves the state as it is. -/
def Leaves (E : Env C R σ) (p : Prog C R α) (s : σ) : Prop :=
  p.During E (· = s) (fun _ s' => s' = s) s

theorem Leaves.during (h : p.Leaves E s) (hI : I s) (hQ : ∀ a, Q a s) : p.During E I Q s :=
  During.imp h (fun _ hs => hs ▸ hI) fun a _ _ hs => hs ▸ hQ a

theorem Leaves.andThen {Q : β → σ → Prop} (h : p.Leaves E s) (hI : I s)
    (hf : ∀ a, (f a).During E I Q s) :
    (p >>= f).During E I Q s :=
  during_bind.2 (h.during hI hf)

theorem leaves_pure : (pure a : Prog C R α).Leaves E s := ⟨rfl, rfl⟩

theorem Leaves.bind (h : p.Leaves E s) (hf : ∀ a, (f a).Leaves E s) : (p >>= f).Leaves E s :=
  h.andThen rfl hf

theorem leaves_request (h : ∀ r, E.after c r s = s) : (request c).Leaves E s :=
  ⟨rfl, fun r _ => ⟨h r, h r⟩⟩

end During

/-! ## Executions -/

/-- The state after the first `n` calls. -/
def execFor (answer : (c : C) → σ → R c) (E : Env C R σ) : Nat → Prog C R α → σ → σ
  | 0, _, s => s
  | _ + 1, ret _, s => s
  | n + 1, call c k, s => execFor answer E n (k (answer c s)) (E.after c (answer c s) s)

theorem passes_execFor (ok : ∀ c s, E.ok c (answer c s) s) (n : Nat) (p : Prog C R α) (s : σ) :
    p.Passes E s (execFor answer E n p s) := by
  induction n generalizing p s with
  | zero => exact .here
  | succ n ih =>
    cases p with
    | ret a => exact .here
    | call c k => exact .call (ok c s) (ih _ _)

/-- The result and the state at the end, when every call is answered by `answer`. -/
def execAll (answer : (c : C) → σ → R c) (E : Env C R σ) : Prog C R α → σ → α × σ
  | ret a, s => (a, s)
  | call c k, s => execAll answer E (k (answer c s)) (E.after c (answer c s) s)

theorem ends_execAll (ok : ∀ c s, E.ok c (answer c s) s) (p : Prog C R α) (s : σ) :
    p.Ends E s (execAll answer E p s).1 (execAll answer E p s).2 := by
  induction p generalizing s with
  | ret a => exact .ret
  | call c k ih => exact .call (ok c s) (ih _ _)

end Prog
