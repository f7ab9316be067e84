import Mathlib

/-!
# Programs that make calls

A `Prog C R α` asks its environment questions from `C`, goes on with the answer of type `R c`, and
ends with a result in `α`. It is executed against an environment with a state (`Prog.exec`), or
followed through every answer that a condition on answers admits (`Prog.Makes`). `Prog.Always` is
the rule for the second: each call made is good, and each result satisfies the postcondition.
`Prog.AtMost` bounds how many calls of some kind are made.

Programs that can fail are written with `ExceptT`. For them `Safe` says that every call is good,
with a postcondition for the results that are not errors, and `Succeeds` that the execution ends
without an error.
-/

universe u

/-- A program with calls `c : C`, answered in `R c`, and a result in `α`. -/
inductive Prog (C : Type u) (R : C → Type u) (α : Type u) : Type u where
  | ret (a : α)
  | call (c : C) (k : R c → Prog C R α)

namespace Prog

open List

variable {C : Type u} {R : C → Type u} {α β ε σ : Type u}

def bind : Prog C R α → (α → Prog C R β) → Prog C R β
  | ret a, f => f a
  | call c k, f => call c fun r => (k r).bind f

instance : Monad (Prog C R) where
  pure := ret
  bind := bind

theorem bind_bind (p : Prog C R α) (f : α → Prog C R β) (g : β → Prog C R γ) :
    (p >>= f) >>= g = p >>= fun a => f a >>= g := by
  induction p with
  | ret a => rfl
  | call c k ih => exact congrArg (call c) (funext ih)

/-- Execute against an environment that keeps a state and answers every call. -/
def exec (answer : (c : C) → σ → R c × σ) : Prog C R α → σ → α × σ
  | ret a, s => (a, s)
  | call c k, s => exec answer (k (answer c s).1) (answer c s).2

/-- The calls some run has made at some point, when answers are as `ok` admits. -/
inductive Makes (ok : (c : C) → R c → Prop) : Prog C R α → List C → Prop
  | start (p : Prog C R α) : Makes ok p []
  | last (c : C) (k : R c → Prog C R α) : Makes ok (call c k) [c]
  | next {c : C} {k : R c → Prog C R α} {r : R c} {cs : List C} : ok c r → Makes ok (k r) cs →
    Makes ok (call c k) (c :: cs)

/-- Every call made is `good` and every result satisfies `Q`. -/
def Always (ok : (c : C) → R c → Prop) (good : C → Prop) (Q : α → Prop) : Prog C R α → Prop
  | ret a => Q a
  | call c k => good c ∧ ∀ r, ok c r → Always ok good Q (k r)

variable {ok : (c : C) → R c → Prop} {good : C → Prop} {Q Q' : α → Prop} {p : Prog C R α}
  {f : α → Prog C R β} {g : β → ExceptT ε (Prog C R) PUnit}

theorem Always.mono (h : p.Always ok good Q) (hQ : ∀ a, Q a → Q' a) : p.Always ok good Q' := by
  induction p with
  | ret a => exact hQ a h
  | call c k ih => exact ⟨h.1, fun r hr => ih r (h.2 r hr)⟩

theorem always_bind_iff {Q : β → Prop} :
    (p.bind f).Always ok good Q ↔ p.Always ok good fun a => (f a).Always ok good Q := by
  induction p with
  | ret a => rfl
  | call c k ih => exact and_congr Iff.rfl (forall_congr' fun r => imp_congr_right fun _ => ih r)

theorem Always.bind (h : p.Always ok good Q) (hf : ∀ a, Q a → (f a).Always ok good S) :
    (p.bind f).Always ok good S := always_bind_iff.2 (h.mono hf)

/-- The calls of all runs are good exactly when the program is followed with good calls. -/
theorem always_iff_makes : p.Always ok good (fun _ => True) ↔ ∀ cs, p.Makes ok cs →
    ∀ c ∈ cs, good c := by
  induction p with
  | ret a =>
    refine ⟨fun _ cs h => ?_, fun _ => trivial⟩
    cases h
    simp
  | call c k ih =>
    constructor
    · rintro ⟨hc, hk⟩ cs h
      cases h with
      | start => simp
      | last => simpa using hc
      | next hr h => simpa [hc] using (ih _).1 (hk _ hr) _ h
    · intro h
      refine ⟨h [c] (.last c k) c mem_cons_self, fun r hr => (ih r).2 fun cs hcs d hd => ?_⟩
      exact h (c :: cs) (.next hr hcs) d (mem_cons_of_mem _ hd)

/-- No run makes more than `n` calls that satisfy `P`. -/
def AtMost (P : C → Bool) : Nat → Prog C R α → Prop
  | _, ret _ => True
  | n, call c k => (P c).toNat ≤ n ∧ ∀ r, AtMost P (n - (P c).toNat) (k r)

section AtMost
variable {P : C → Bool} {m n : Nat} {cs : List C}

theorem AtMost.mono (h : p.AtMost P m) (hmn : m ≤ n) : p.AtMost P n := by
  induction p generalizing m n with
  | ret a => trivial
  | call c k ih => exact ⟨Nat.le_trans h.1 hmn, fun r => ih r (h.2 r) (Nat.sub_le_sub_right hmn _)⟩

theorem AtMost.bind (h : p.AtMost P m) (hf : ∀ a, (f a).AtMost P n) :
    (p.bind f).AtMost P (m + n) := by
  induction p generalizing m with
  | ret a => exact (hf a).mono (Nat.le_add_left n m)
  | call c k ih =>
    refine ⟨Nat.le_trans h.1 (Nat.le_add_right m n), fun r => ?_⟩
    rw [Nat.sub_add_comm h.1]
    exact ih r (h.2 r)

theorem AtMost.countP_le (h : p.AtMost P n) (hcs : p.Makes ok cs) : cs.countP P ≤ n := by
  induction hcs generalizing n with
  | start => exact n.zero_le
  | last c k =>
    have hc : [c].countP P = (P c).toNat := by cases hP : P c <;> simp [hP]
    exact hc ▸ h.1
  | @next c k r cs _ _ ih =>
    have hc : (c :: cs).countP P = cs.countP P + (P c).toNat := by cases hP : P c <;> simp [hP]
    have := ih (h.2 r)
    have := h.1
    omega

end AtMost

theorem Always.exec (answer : (c : C) → σ → R c × σ) (h : p.Always ok good Q)
    (hok : ∀ c s, ok c (answer c s).1) (s : σ) : Q (p.exec answer s).1 := by
  induction p generalizing s with
  | ret a => exact h
  | call c k ih => exact ih _ (h.2 _ (hok c s)) _

/-! ## Programs that can fail -/

def ask (c : C) : ExceptT ε (Prog C R) (R c) := ExceptT.mk (call c fun r => ret (.ok r))

theorem run_bind {x : ExceptT ε (Prog C R) α} {f : α → ExceptT ε (Prog C R) β} :
    (x >>= f).run = x.run.bind fun
      | .ok a => (f a).run
      | .error e => ret (.error e) := by
  refine congrArg (Prog.bind x.run) (funext fun r => ?_)
  cases r <;> rfl

/-- Every call made is `good`, and `Q` holds of every result that is not an error. -/
def Safe (ok : (c : C) → R c → Prop) (good : C → Prop) (x : ExceptT ε (Prog C R) α) (Q : α → Prop) :
    Prop :=
  x.run.Always ok good fun
    | .ok a => Q a
    | .error _ => True

section Safe
variable {x : ExceptT ε (Prog C R) α} {f : α → ExceptT ε (Prog C R) β} {a : α} {e : ε} {c : C}
  {S : β → Prop} {T : R c → Prop}

@[simp] theorem safe_pure : Safe ok good (pure a : ExceptT ε (Prog C R) α) Q ↔ Q a := Iff.rfl

@[simp] theorem safe_throw : Safe ok good (throw e : ExceptT ε (Prog C R) α) Q ↔ True := Iff.rfl

@[simp] theorem safe_ask : Safe ok good (ask c : ExceptT ε (Prog C R) (R c)) T ↔ good c ∧
    ∀ r, ok c r → T r :=
  Iff.rfl

theorem Safe.mono (h : Safe ok good x Q) (hQ : ∀ a, Q a → Q' a) : Safe ok good x Q' :=
  Always.mono h fun r hr => by
    cases r with
    | error e => trivial
    | ok a => exact hQ a hr

@[simp] theorem safe_bind : Safe ok good (x >>= f) S ↔ Safe ok good x fun a =>
    Safe ok good (f a) S := by
  rw [Safe, run_bind, always_bind_iff, Safe]
  constructor <;> refine fun h => Always.mono h fun r hr => ?_
  · cases r with
    | error e => trivial
    | ok a => exact hr
  · cases r with
    | error e => trivial
    | ok a => exact hr

/-- The postcondition of an execution that ends without an error. -/
theorem Safe.of_exec (h : Safe ok good x Q)
    (he : (x.run.exec answer s).1 = .ok a) (hok : ∀ c s, ok c (answer c s).1) : Q a := by
  have hres := Always.exec answer h hok s
  rwa [he] at hres

/-- The calls of all runs are good exactly when the program is safe. -/
theorem safe_iff_makes : Safe ok good x (fun _ => True) ↔ ∀ cs, x.run.Makes ok cs →
    ∀ c ∈ cs, good c := by
  refine Iff.trans ?_ always_iff_makes
  constructor <;> refine fun h => Always.mono h fun r _ => ?_
  · trivial
  · cases r <;> trivial

theorem safe_forM {l : List β} (h : ∀ b ∈ l, Safe ok good (g b) fun _ => True) :
    Safe ok good (l.forM g) fun _ => True := by
  induction l with
  | nil => exact trivial
  | cons b l ih =>
    change Safe ok good (g b >>= fun _ => l.forM g) _
    rw [safe_bind]
    exact (h b mem_cons_self).mono fun _ _ => ih fun b' hb' => h b' (mem_cons_of_mem _ hb')

end Safe

/-- The execution from `s` ends without an error, in a result and a state that satisfy `P`. -/
def Succeeds (answer : (c : C) → σ → R c × σ) (x : ExceptT ε (Prog C R) α) (s : σ)
    (P : α → σ → Prop) : Prop :=
  match exec answer x.run s with
  | (.ok a, s') => P a s'
  | (.error _, _) => False

section Succeeds
variable {answer : (c : C) → σ → R c × σ} {x : ExceptT ε (Prog C R) α}
  {f : α → ExceptT ε (Prog C R) β}
  {a : α} {s : σ} {c : C} {P P' : α → σ → Prop} {S : β → σ → Prop} {T : R c → σ → Prop}

theorem Succeeds.mono (h : Succeeds answer x s P) (hP : ∀ a s', P a s' → P' a s') :
    Succeeds answer x s P' := by
  unfold Succeeds at h ⊢
  split at h
  · exact hP _ _ h
  · exact h

theorem exec_bind {g : α → Prog C R β} :
    (p.bind g).exec answer s = (g (p.exec answer s).1).exec answer (p.exec answer s).2 := by
  induction p generalizing s with
  | ret a => rfl
  | call c k ih => exact ih _

@[simp] theorem succeeds_bind :
    Succeeds answer (x >>= f) s S ↔ Succeeds answer x s fun a s' => Succeeds answer (f a) s' S := by
  rw [Succeeds, run_bind, exec_bind]
  conv => rhs; unfold Succeeds
  cases x.run.exec answer s with
  | mk r s' => cases r <;> rfl

theorem succeeds_forM {I : σ → Prop} {l : List β}
    (h : ∀ b ∈ l, ∀ s, I s → Succeeds answer (g b) s fun _ s' => I s')
    (hs : I s) : Succeeds answer (l.forM g) s fun _ s' => I s' := by
  induction l generalizing s with
  | nil => exact hs
  | cons b l ih =>
    change Succeeds answer (g b >>= fun _ => l.forM g) s _
    rw [succeeds_bind]
    exact (h b mem_cons_self s hs).mono fun _ s' hs' =>
      ih (fun b' hb' => h b' (mem_cons_of_mem _ hb')) hs'

end Succeeds

end Prog
