import Mathlib.Algebra.Group.Nat.Defs
import Mathlib.Logic.Relation

/-!
# Firmware execution

A piece of firmware runs on a state `σ` of global variables and devices. It either returns a value,
or it stops for good: an `ASSERT` fails and the processor spins in `CpuDeadLoop`, it reaches outside
an array, after which C gives the run no meaning, or it is still inside a loop when the model stops
following it.

Loops are followed for a bounded number of iterations. A statement that holds for every bound is a
statement about every finite part of the run, and `wp_loop_total` gives the bound from which on the
loop is known to have ended.
-/

namespace Quark.Machine

/-- Why a run does not return. -/
inductive Stop where
  /-- An `ASSERT` failed and `DebugAssert` entered `CpuDeadLoop`. -/
  | deadLoop
  /-- An access outside an array. -/
  | outOfBounds
  /-- The loop bound of the model is used up. -/
  | unfinished
  deriving DecidableEq, Repr

/-- How a run ends, with the state it ends in. -/
inductive Outcome (σ α : Type) where
  | ret (a : α) (s : σ)
  | stop (w : Stop) (s : σ)

def Outcome.state {σ α : Type} : Outcome σ α → σ
  | .ret _ s => s
  | .stop _ s => s

def Outcome.value? {σ α : Type} : Outcome σ α → Option α
  | .ret a _ => some a
  | .stop _ _ => none

theorem Outcome.eq_ret {σ α : Type} {o : Outcome σ α} {a : α} (h : o.value? = some a) :
    o = .ret a o.state := by
  cases o with
  | ret b s =>
    injection h with h
    rw [h]
    rfl
  | stop w s => cases h

/-- Code that runs on a state `σ` and yields an `α`. -/
def Exec (σ α : Type) := σ → Outcome σ α

namespace Exec

variable {σ α β ρ ℓ : Type}

protected def pure (a : α) : Exec σ α := fun s => .ret a s

protected def bind (x : Exec σ α) (f : α → Exec σ β) : Exec σ β := fun s =>
  match x s with
  | .ret a s' => f a s'
  | .stop w s' => .stop w s'

instance : Monad (Exec σ) where
  pure := Exec.pure
  bind := Exec.bind

def get : Exec σ σ := fun s => .ret s s

def modify (f : σ → σ) : Exec σ Unit := fun s => .ret () (f s)

def halt (w : Stop) : Exec σ α := fun s => .stop w s

/-- `if (c) { … }`. -/
def when (c : Prop) [Decidable c] (x : Exec σ Unit) : Exec σ Unit := if c then x else pure ()

/-- A loop with locals `ℓ`: the body yields either the locals of the next iteration or the result of
the loop. At most `n` iterations are followed. -/
def loop : Nat → (ℓ → Exec σ (ℓ ⊕ ρ)) → ℓ → Exec σ ρ
  | 0, _, _ => halt .unfinished
  | n + 1, body, l => do
    match ← body l with
    | .inl l' => loop n body l'
    | .inr r => pure r

/-- One iteration of a loop that goes on: the locals and the state of the next loop head. -/
def Iterates (body : ℓ → Exec σ (ℓ ⊕ ρ)) (x y : ℓ × σ) : Prop :=
  body x.1 x.2 = .ret (.inl y.1) y.2

/-- The loop heads that a loop started at `x` comes by. -/
def Visits (body : ℓ → Exec σ (ℓ ⊕ ρ)) : ℓ × σ → ℓ × σ → Prop :=
  Relation.ReflTransGen (Iterates body)

/-- The code leaves `f` of the state as it is, however it ends. -/
def Keeps {γ : Type} (f : σ → γ) (x : Exec σ α) : Prop := ∀ s, f (x s).state = f s

def serve {ε : Type} (step : ε → Exec σ α) : List ε → Exec σ Unit
  | [] => pure ()
  | e :: es => do
    let _ ← step e
    serve step es

def answers {ε : Type} (step : ε → Exec σ α) : List ε → Exec σ (List α)
  | [] => pure []
  | e :: es => do
    let a ← step e
    let as ← answers step es
    pure (a :: as)

/-- Every request of a sequence is served in a state where `C` holds of it. -/
def EachMeets {ε : Type} (step : ε → Exec σ α) (C : ε → σ → Prop) : List ε → σ → Prop
  | [], _ => True
  | e :: es, s => C e s ∧ ∀ a s', step e s = .ret a s' → EachMeets step C es s'

/-- From `s` to `t` the goals of `D` are met, and no goal that was met is lost. -/
def Gains {δ : Type} (met : δ → σ → Prop) (D : δ → Prop) (s t : σ) : Prop :=
  (∀ d, D d → met d t) ∧ ∀ d, met d s → met d t

/-- The weakest precondition: started in `s`, the code returns into `Q` or stops into `E`. -/
def wp (x : Exec σ α) (Q : α → σ → Prop) (E : Stop → σ → Prop) (s : σ) : Prop :=
  match x s with
  | .ret a s' => Q a s'
  | .stop w s' => E w s'

/-! ## Rules -/

section Rules

variable {Q Q' : α → σ → Prop} {E E' : Stop → σ → Prop} {s : σ}

theorem Visits.head_or {body : ℓ → Exec σ (ℓ ⊕ ρ)} {x y : ℓ × σ} (h : Visits body x y) :
    y = x ∨ ∃ z, Iterates body x z ∧ Visits body z y := by
  rcases Relation.ReflTransGen.cases_head h with h | ⟨z, hz, hv⟩
  · exact .inl h.symm
  · exact .inr ⟨z, hz, hv⟩

theorem Visits.invariant {body : ℓ → Exec σ (ℓ ⊕ ρ)} {x y : ℓ × σ} (I : ℓ → σ → Prop)
    (hbody : ∀ l t, Visits body x (l, t) → I l t → wp (body l) (fun r t' => match r with
      | .inl l' => I l' t'
      | .inr _ => True) (fun _ _ => True) t)
    (hv : Visits body x y) (hx : I x.1 x.2) : I y.1 y.2 := by
  induction hv with
  | refl => exact hx
  | @tail y z hvy hstep ih =>
    have hb := hbody y.1 y.2 hvy ih
    have hret : body y.1 y.2 = .ret (.inl z.1) z.2 := hstep
    unfold wp at hb
    rw [hret] at hb
    exact hb

theorem wp_of_ret {x : Exec σ α} {a : α} {s' : σ} (h : wp x Q E s) (hx : x s = .ret a s') :
    Q a s' := by
  unfold wp at h
  rw [hx] at h
  exact h

theorem wp_of_stop {x : Exec σ α} {w : Stop} {s' : σ} (h : wp x Q E s) (hx : x s = .stop w s') :
    E w s' := by
  unfold wp at h
  rw [hx] at h
  exact h

theorem wp_of_eq_ret {x : Exec σ α} {a : α} {s' : σ} (hx : x s = .ret a s') (h : Q a s') :
    wp x Q E s := by
  unfold wp
  rw [hx]
  exact h

theorem wp_returns (x : Exec σ α) (s : σ) :
    wp x (fun a t => x s = .ret a t) (fun _ _ => True) s := by
  unfold wp
  cases hx : x s with
  | ret a t => rfl
  | stop w t => trivial

theorem returns_of_wp {x : Exec σ α} (h : wp x Q (fun _ _ => False) s) :
    ∃ a t, x s = .ret a t ∧ Q a t := by
  unfold wp at h
  cases hx : x s with
  | ret a t => rw [hx] at h; exact ⟨a, t, rfl, h⟩
  | stop w t => rw [hx] at h; exact h.elim

theorem wp_state {x : Exec σ α} {I : σ → Prop} (h : wp x (fun _ => I) (fun _ => I) s) :
    I (x s).state := by
  unfold wp at h
  cases hx : x s with
  | ret a s' => rw [hx] at h; exact h
  | stop w s' => rw [hx] at h; exact h

@[simp] theorem wp_pure (a : α) : wp (pure a : Exec σ α) Q E s ↔ Q a s := Iff.rfl

@[simp] theorem wp_bind (x : Exec σ β) (f : β → Exec σ α) :
    wp (x >>= f) Q E s ↔ wp x (fun b s' => wp (f b) Q E s') E s := by
  show wp (Exec.bind x f) Q E s ↔ _
  unfold wp Exec.bind
  cases x s <;> exact Iff.rfl

@[simp] theorem wp_get {Q : σ → σ → Prop} : wp get Q E s ↔ Q s s := Iff.rfl

@[simp] theorem wp_modify {Q : Unit → σ → Prop} (f : σ → σ) : wp (modify f) Q E s ↔ Q () (f s) :=
  Iff.rfl

@[simp] theorem wp_halt (w : Stop) : wp (halt w : Exec σ α) Q E s ↔ E w s := Iff.rfl

@[simp] theorem wp_ite (c : Prop) [Decidable c] (x y : Exec σ α) :
    wp (if c then x else y) Q E s ↔ (c → wp x Q E s) ∧ (¬ c → wp y Q E s) := by
  by_cases h : c <;> simp [h]

@[simp] theorem wp_when {Q : Unit → σ → Prop} (c : Prop) [Decidable c] (x : Exec σ Unit) :
    wp (when c x) Q E s ↔ (c → wp x Q E s) ∧ (¬ c → Q () s) :=
  wp_ite c x (pure ())

theorem wp_mono {x : Exec σ α} (h : wp x Q E s) (hQ : ∀ a s', Q a s' → Q' a s')
    (hE : ∀ w s', E w s' → E' w s') : wp x Q' E' s := by
  unfold wp at *
  cases hx : x s with
  | ret a s' => rw [hx] at h; exact hQ _ _ h
  | stop w s' => rw [hx] at h; exact hE _ _ h

theorem wp_and {x : Exec σ α} (h : wp x Q E s) (h' : wp x Q' E' s) :
    wp x (fun a t => Q a t ∧ Q' a t) (fun w t => E w t ∧ E' w t) s := by
  unfold wp at *
  cases hx : x s with
  | ret a s' => rw [hx] at h h'; exact ⟨h, h'⟩
  | stop w s' => rw [hx] at h h'; exact ⟨h, h'⟩

theorem not_wp_false {x : Exec σ α} : ¬ wp x (fun _ _ => False) (fun _ _ => False) s := by
  unfold wp
  cases x s with
  | ret a s' => exact id
  | stop w s' => exact id

theorem wp_loop_succ {R : ρ → σ → Prop} {body : ℓ → Exec σ (ℓ ⊕ ρ)} {n : Nat} {l : ℓ} :
    wp (loop (n + 1) body l) R E s ↔
      wp (body l) (fun r t => match r with
        | .inl l' => wp (loop n body l') R E t
        | .inr b => R b t) E s := by
  show wp (body l >>= _) R E s ↔ _
  rw [wp_bind]
  unfold wp
  cases body l s with
  | stop w t => exact Iff.rfl
  | ret r t => cases r <;> exact Iff.rfl

theorem bind_of_ret {x : Exec σ β} {k : β → Exec σ α} {s t : σ} {b : β} (h : x s = .ret b t) :
    (x >>= k) s = k b t := by
  show Exec.bind x k s = _
  unfold Exec.bind
  rw [h]

theorem bind_of_stop {x : Exec σ β} {k : β → Exec σ α} {s t : σ} {w : Stop} (h : x s = .stop w t) :
    (x >>= k) s = .stop w t := by
  show Exec.bind x k s = _
  unfold Exec.bind
  rw [h]

theorem ret_of_bind {x : Exec σ β} {k : β → Exec σ α} {s t : σ} {a : α}
    (h : (x >>= k) s = .ret a t) : ∃ b u, x s = .ret b u ∧ k b u = .ret a t := by
  change Exec.bind x k s = _ at h
  unfold Exec.bind at h
  cases hx : x s with
  | stop w u => rw [hx] at h; cases h
  | ret b u =>
    rw [hx] at h
    exact ⟨b, u, rfl, h⟩

theorem loop_of_inl {body : ℓ → Exec σ (ℓ ⊕ ρ)} {l l' : ℓ} {s t : σ}
    (h : body l s = .ret (.inl l') t) (n : Nat) : loop (n + 1) body l s = loop n body l' t := by
  show Exec.bind (body l) _ s = _
  unfold Exec.bind
  rw [h]

theorem loop_of_inr {body : ℓ → Exec σ (ℓ ⊕ ρ)} {l : ℓ} {r : ρ} {s t : σ}
    (h : body l s = .ret (.inr r) t) (n : Nat) : loop (n + 1) body l s = .ret r t := by
  show Exec.bind (body l) _ s = _
  unfold Exec.bind
  rw [h]
  rfl

theorem loop_mono {body : ℓ → Exec σ (ℓ ⊕ ρ)} {r : ρ} {t : σ} :
    ∀ {n m : Nat} {l : ℓ} {s : σ}, loop n body l s = .ret r t → n ≤ m →
      loop m body l s = .ret r t := by
  intro n
  induction n with
  | zero => intro m l s h; cases h
  | succ n ih =>
    intro m l s h hm
    obtain ⟨m, rfl⟩ : ∃ m', m = m' + 1 := ⟨m - 1, by omega⟩
    change Exec.bind (body l) _ s = _ at h
    show Exec.bind (body l) _ s = _
    unfold Exec.bind at h ⊢
    cases hb : body l s with
    | stop w u => rw [hb] at h; cases h
    | ret x u =>
      rw [hb] at h
      cases x with
      | inr b => exact h
      | inl l' => exact ih h (by omega)

theorem bind_mono {x x' : Exec σ β} {k : β → Exec σ α} {s t : σ} {a : α}
    (hx : ∀ b u, x s = .ret b u → x' s = .ret b u) (h : (x >>= k) s = .ret a t) :
    (x' >>= k) s = .ret a t := by
  change Exec.bind x k s = _ at h
  show Exec.bind x' k s = _
  unfold Exec.bind at h ⊢
  cases hb : x s with
  | stop w u => rw [hb] at h; cases h
  | ret b u =>
    rw [hb] at h
    rw [hx b u hb]
    exact h

theorem wp_loop_visits {R : ρ → σ → Prop} {body : ℓ → Exec σ (ℓ ⊕ ρ)} (I : ℓ → σ → Prop)
    (l₀ : ℓ) (s₀ : σ)
    (hbody : ∀ l t, Visits body (l₀, s₀) (l, t) → I l t →
      wp (body l) (fun r t' => match r with
        | .inl l' => I l' t'
        | .inr b => R b t') E t)
    (hE : ∀ l t, I l t → E .unfinished t) :
    ∀ n, I l₀ s₀ → wp (loop n body l₀) R E s₀ := by
  suffices key : ∀ n l t, Visits body (l₀, s₀) (l, t) → I l t → wp (loop n body l) R E t from
    fun n h => key n l₀ s₀ .refl h
  intro n
  induction n with
  | zero => intro l t _ h; exact hE l t h
  | succ n ih =>
    intro l t hv h
    have hb := hbody l t hv h
    show wp (body l >>= _) R E t
    rw [wp_bind]
    unfold wp at hb ⊢
    cases hx : body l t with
    | stop w t' => rw [hx] at hb; exact hb
    | ret r t' =>
      rw [hx] at hb
      cases r with
      | inr b => exact hb
      | inl l' => exact ih l' t' (hv.tail hx) hb

theorem wp_loop {R : ρ → σ → Prop} {body : ℓ → Exec σ (ℓ ⊕ ρ)} (I : ℓ → σ → Prop)
    (hbody : ∀ l t, I l t →
      wp (body l) (fun r t' => match r with
        | .inl l' => I l' t'
        | .inr b => R b t') E t)
    (hE : ∀ l t, I l t → E .unfinished t) (n : Nat) {l : ℓ} {s : σ} (h : I l s) :
    wp (loop n body l) R E s :=
  wp_loop_visits I l s (fun l' t _ => hbody l' t) hE n h

/-- A loop whose every iteration lowers the rank of its head ends within as many iterations. The body may
use that the head is one the loop really comes by. -/
theorem wp_loop_ranked {R : ρ → σ → Prop} {body : ℓ → Exec σ (ℓ ⊕ ρ)} (I : Nat → ℓ → σ → Prop)
    (l₀ : ℓ) (s₀ : σ)
    (hbody : ∀ k l t, Visits body (l₀, s₀) (l, t) → I k l t →
      wp (body l) (fun r t' => match r with
        | .inl l' => ∃ k' < k, I k' l' t'
        | .inr b => R b t') E t) {n k₀ : Nat} (hn : k₀ < n) (h₀ : I k₀ l₀ s₀) :
    wp (loop n body l₀) R E s₀ := by
  suffices key : ∀ n k l t, Visits body (l₀, s₀) (l, t) → k < n → I k l t →
      wp (loop n body l) R E t from key n k₀ l₀ s₀ .refl hn h₀
  intro n
  induction n with
  | zero => intro k l t _ hk _; exact absurd hk (Nat.not_lt_zero _)
  | succ n ih =>
    intro k l t hv hk h
    have hb := hbody k l t hv h
    show wp (body l >>= _) R E t
    rw [wp_bind]
    unfold wp at hb ⊢
    cases hx : body l t with
    | stop w t' => rw [hx] at hb; exact hb
    | ret r t' =>
      rw [hx] at hb
      cases r with
      | inr b => exact hb
      | inl l' =>
        obtain ⟨k', hk', h'⟩ := hb
        exact ih k' l' t' (hv.tail hx) (by omega) h'

theorem wp_loop_visits_total {R : ρ → σ → Prop} {body : ℓ → Exec σ (ℓ ⊕ ρ)} (I : ℓ → σ → Prop)
    (μ : ℓ → σ → Nat) (l₀ : ℓ) (s₀ : σ)
    (hbody : ∀ l t, Visits body (l₀, s₀) (l, t) → I l t →
      wp (body l) (fun r t' => match r with
        | .inl l' => I l' t' ∧ μ l' t' < μ l t
        | .inr b => R b t') E t) {n : Nat} (hn : μ l₀ s₀ < n) (h₀ : I l₀ s₀) :
    wp (loop n body l₀) R E s₀ := by
  refine wp_loop_ranked (fun k l t => I l t ∧ μ l t = k) l₀ s₀ ?_ hn ⟨h₀, rfl⟩
  rintro k l t hv ⟨h, rfl⟩
  refine wp_mono (hbody l t hv h) ?_ (fun _ _ he => he)
  rintro (l' | b) t' h'
  · exact ⟨μ l' t', h'.2, h'.1, rfl⟩
  · exact h'

theorem wp_loop_total {R : ρ → σ → Prop} {body : ℓ → Exec σ (ℓ ⊕ ρ)} (I : ℓ → σ → Prop)
    (μ : ℓ → σ → Nat)
    (hbody : ∀ l t, I l t →
      wp (body l) (fun r t' => match r with
        | .inl l' => I l' t' ∧ μ l' t' < μ l t
        | .inr b => R b t') E t) (n : Nat) (l : ℓ) (s : σ) (hn : μ l s < n) (h : I l s) :
    wp (loop n body l) R E s :=
  wp_loop_visits_total I μ l s (fun l' t _ => hbody l' t) hn h

theorem serve_cons_ret {ε : Type} {step : ε → Exec σ α} {e : ε} {es : List ε} {t : σ} :
    serve step (e :: es) s = .ret () t ↔
      ∃ a s', step e s = .ret a s' ∧ serve step es s' = .ret () t := by
  show Exec.bind (step e) _ s = _ ↔ _
  unfold Exec.bind
  cases hx : step e s with
  | stop w s' => simp
  | ret a s' =>
    refine ⟨fun h => ⟨a, s', rfl, h⟩, ?_⟩
    rintro ⟨a', s'', heq, h⟩
    injection heq with _ hs
    subst hs
    exact h

theorem eachMeets_cons {ε : Type} {step : ε → Exec σ α} {C : ε → σ → Prop} {e : ε} {es : List ε} :
    EachMeets step C (e :: es) s ↔ C e s ∧ match step e s with
      | .ret _ s' => EachMeets step C es s'
      | .stop _ _ => True := by
  refine and_congr_right fun _ => ?_
  cases hx : step e s with
  | stop w s' => simp
  | ret a s' =>
    refine ⟨fun h => h a s' rfl, fun h a' s'' heq => ?_⟩
    injection heq with _ hs
    exact hs ▸ h

theorem EachMeets.last {ε : Type} {step : ε → Exec σ α} {C : ε → σ → Prop} {e : ε} :
    ∀ {es : List ε} {s t : σ}, EachMeets step C (es ++ [e]) s → serve step es s = .ret () t → C e t := by
  intro es
  induction es with
  | nil =>
    intro s t h ht
    injection ht with _ ht
    exact ht ▸ h.1
  | cons x es ih =>
    intro s t h ht
    obtain ⟨a, s', hx, hrest⟩ := serve_cons_ret.mp ht
    exact ih (h.2 a s' hx) hrest

/-- Whether every request of a sequence is served in a state where `C` holds of it can be tested. -/
instance decidableEachMeets {ε : Type} (step : ε → Exec σ α) (C : ε → σ → Prop)
    [∀ e s, Decidable (C e s)] : ∀ es s, Decidable (EachMeets step C es s)
  | [], _ => isTrue trivial
  | e :: es, s =>
    have : Decidable (match step e s with
      | .ret _ s' => EachMeets step C es s'
      | .stop _ _ => True) :=
      match step e s with
      | .ret _ s' => decidableEachMeets step C es s'
      | .stop _ _ => isTrue trivial
    decidable_of_iff _ eachMeets_cons.symm

theorem wp_serve {ε : Type} {step : ε → Exec σ α} {C : ε → σ → Prop} {I : σ → Prop}
    (hstep : ∀ e s, I s → C e s → wp (step e) (fun _ => I) E s) :
    ∀ es s, EachMeets step C es s → I s → wp (serve step es) (fun _ => I) E s := by
  intro es
  induction es with
  | nil => intro s _ hI; exact hI
  | cons e es ih =>
    intro s hC hI
    have he := hstep e s hI hC.1
    show wp (step e >>= _) _ _ s
    rw [wp_bind]
    unfold wp at he ⊢
    cases hx : step e s with
    | stop w s' => rw [hx] at he; exact he
    | ret a s' =>
      rw [hx] at he
      exact ih s' (hC.2 a s' hx) he

theorem wp_serve_mem {ε : Type} {step : ε → Exec σ α} {I : σ → Prop} :
    ∀ {es : List ε}, (∀ e ∈ es, ∀ s, I s → wp (step e) (fun _ => I) E s) →
      ∀ s, I s → wp (serve step es) (fun _ => I) E s := by
  intro es
  induction es with
  | nil => intro _ s hI; exact hI
  | cons e es ih =>
    intro hstep s hI
    refine (wp_bind _ _).mpr (wp_mono (hstep e List.mem_cons_self s hI) ?_ fun _ _ h => h)
    exact fun _ t ht => ih (fun e' he' => hstep e' (List.mem_cons_of_mem e he')) t ht

theorem wp_answers {ε : Type} {step : ε → Exec σ α} {C : ε → σ → Prop}
    {I : List (ε × α) → σ → Prop}
    (hstep : ∀ h e s, I h s → C e s → wp (step e) (fun a => I (h ++ [(e, a)])) E s) :
    ∀ es h s, EachMeets step C es s → I h s →
      wp (answers step es) (fun as => I (h ++ es.zip as)) E s := by
  intro es
  induction es with
  | nil =>
    intro h s _ hI
    show I (h ++ []) s
    rw [List.append_nil]
    exact hI
  | cons e es ih =>
    intro h s hC hI
    have he := hstep h e s hI hC.1
    show wp (step e >>= _) _ _ s
    rw [wp_bind]
    unfold wp at he ⊢
    cases hx : step e s with
    | stop w s' => rw [hx] at he; exact he
    | ret a s' =>
      rw [hx] at he
      have hrest := ih _ s' (hC.2 a s' hx) he
      show wp (answers step es >>= fun as => pure (a :: as)) _ _ s'
      rw [wp_bind]
      refine wp_mono hrest ?_ (fun _ _ hE => hE)
      intro as t ht
      rw [wp_pure, List.zip_cons_cons, List.append_cons]
      exact ht

theorem EachMeets.of_invariant {ε : Type} {step : ε → Exec σ α} {C D : ε → σ → Prop} {I : σ → Prop}
    (hstep : ∀ e s, I s → C e s → wp (step e) (fun _ => I) E s)
    (hD : ∀ e s, I s → C e s → D e s) :
    ∀ es s, EachMeets step C es s → I s → EachMeets step D es s := by
  intro es
  induction es with
  | nil => intro s _ _; exact trivial
  | cons e es ih =>
    intro s hC hI
    refine ⟨hD e s hI hC.1, fun a s' hx => ih s' (hC.2 a s' hx) ?_⟩
    exact wp_of_ret (hstep e s hI hC.1) hx

/-- Two properties of requests that agree wherever a request is answered agree along a run that
returns. The invariant is kept, and may be used. -/
theorem EachMeets.congr_of_ret {ε : Type} {step : ε → Exec σ α} {C D : ε → σ → Prop} {I : σ → Prop}
    (hstep : ∀ e s a s', I s → step e s = .ret a s' → I s' ∧ (C e s ↔ D e s)) :
    ∀ es s t, I s → serve step es s = .ret () t →
      I t ∧ (EachMeets step C es s ↔ EachMeets step D es s) := by
  intro es
  induction es with
  | nil =>
    intro s t hI ht
    injection ht with _ ht
    exact ⟨ht ▸ hI, Iff.rfl⟩
  | cons e es ih =>
    intro s t hI ht
    obtain ⟨a, s', hx, hrest⟩ := serve_cons_ret.mp ht
    obtain ⟨hI', hCD⟩ := hstep e s a s' hI hx
    obtain ⟨hIt, hes⟩ := ih s' t hI' hrest
    refine ⟨hIt, ?_⟩
    rw [eachMeets_cons, eachMeets_cons, hx, hCD]
    exact and_congr_right fun _ => hes

/-! Code that works through goals, each step of which keeps what the others have reached. -/

theorem Gains.nothing {δ : Type} {met : δ → σ → Prop} : Gains met (fun _ => False) s s :=
  ⟨fun _ h => h.elim, fun _ h => h⟩

theorem Gains.trans {δ : Type} {met : δ → σ → Prop} {D D' : δ → Prop} {t u : σ}
    (h : Gains met D s t) (h' : Gains met D' t u) : Gains met (fun d => D d ∨ D' d) s u := by
  refine ⟨?_, fun d hd => h'.2 d (h.2 d hd)⟩
  rintro d (hd | hd)
  · exact h'.2 d (h.1 d hd)
  · exact h'.1 d hd

theorem Gains.mono {δ : Type} {met : δ → σ → Prop} {D D' : δ → Prop} {t : σ}
    (h : Gains met D s t) (hD : ∀ d, D' d → D d) : Gains met D' s t :=
  ⟨fun d hd => h.1 d (hD d hd), h.2⟩

theorem wp_gains_bind {δ : Type} {met : δ → σ → Prop} {D D' : δ → Prop} {x : Exec σ β}
    {k : β → Exec σ α} (hx : wp x (fun _ => Gains met D s) E s)
    (hk : ∀ b t, wp (k b) (fun _ => Gains met D' t) E t) :
    wp (x >>= k) (fun _ => Gains met (fun d => D d ∨ D' d) s) E s := by
  rw [wp_bind]
  refine wp_mono hx ?_ (fun _ _ h => h)
  intro b t ht
  exact wp_mono (hk b t) (fun _ _ hu => ht.trans hu) (fun _ _ h => h)

theorem wp_gains_serve {ε δ : Type} {met : δ → σ → Prop} {D : ε → δ → Prop} {step : ε → Exec σ α}
    (hstep : ∀ e t, wp (step e) (fun _ => Gains met (D e) t) E t) :
    ∀ es s, wp (serve step es) (fun _ => Gains met (fun d => ∃ e ∈ es, D e d) s) E s := by
  intro es
  induction es with
  | nil => intro s; exact Gains.nothing.mono (fun d ⟨e, he, _⟩ => by simp at he)
  | cons e es ih =>
    intro s
    refine wp_mono (wp_gains_bind (hstep e s) (fun _ => ih)) ?_ (fun _ _ h => h)
    intro _ t ht
    refine ht.mono ?_
    rintro d ⟨e', he', hd⟩
    rcases List.mem_cons.mp he' with rfl | he'
    · exact .inl hd
    · exact .inr ⟨e', he', hd⟩

end Rules

/-! ## Frames -/

namespace Keeps

variable {γ δ : Type} {f : σ → γ}

theorem pure (a : α) : Keeps f (Pure.pure a : Exec σ α) := fun _ => rfl

theorem get : Keeps f (Exec.get : Exec σ σ) := fun _ => rfl

theorem halt (w : Stop) : Keeps f (Exec.halt w : Exec σ α) := fun _ => rfl

theorem modify {g : σ → σ} (h : ∀ s, f (g s) = f s) : Keeps f (Exec.modify g) := h

theorem bind {x : Exec σ β} {k : β → Exec σ α} (hx : Keeps f x) (hk : ∀ b, Keeps f (k b)) :
    Keeps f (x >>= k) := by
  intro s
  have hs := hx s
  show f (Exec.bind x k s).state = f s
  unfold Exec.bind
  cases hxs : x s with
  | stop w s' => rw [hxs] at hs; exact hs
  | ret b s' =>
    rw [hxs] at hs
    exact (hk b s').trans hs

theorem ite {c : Prop} [Decidable c] {x y : Exec σ α} (hx : Keeps f x) (hy : Keeps f y) :
    Keeps f (if c then x else y) := by
  by_cases h : c
  · rw [if_pos h]; exact hx
  · rw [if_neg h]; exact hy

theorem when {c : Prop} [Decidable c] {x : Exec σ Unit} (hx : Keeps f x) :
    Keeps f (Exec.when c x) :=
  ite hx (pure ())

theorem loop {body : ℓ → Exec σ (ℓ ⊕ ρ)} (h : ∀ l, Keeps f (body l)) :
    ∀ n l, Keeps f (Exec.loop n body l) := by
  intro n
  induction n with
  | zero => intro l; exact halt _
  | succ n ih =>
    intro l
    refine bind (h l) fun r => ?_
    cases r with
    | inl l' => exact ih l'
    | inr b => exact pure b

theorem serve {ε : Type} {step : ε → Exec σ α} (h : ∀ e, Keeps f (step e)) :
    ∀ es, Keeps f (Exec.serve step es) := by
  intro es
  induction es with
  | nil => exact pure ()
  | cons e es ih => exact bind (h e) fun _ => ih

theorem visits {body : ℓ → Exec σ (ℓ ⊕ ρ)} (h : ∀ l, Keeps f (body l)) {x y : ℓ × σ}
    (hv : Visits body x y) : f y.2 = f x.2 := by
  induction hv with
  | refl => rfl
  | @tail y z _ hstep ih =>
    have hz := h y.1 y.2
    have hret : body y.1 y.2 = .ret (.inl z.1) z.2 := hstep
    rw [hret] at hz
    exact hz.trans ih

theorem of_comp {x : Exec σ α} (h : Keeps f x) (g : γ → δ) : Keeps (fun s => g (f s)) x :=
  fun s => congrArg g (h s)

theorem wp {x : Exec σ α} (h : Keeps f x) (s : σ) :
    x.wp (fun _ t => f t = f s) (fun _ t => f t = f s) s := by
  have hs := h s
  unfold Exec.wp
  cases hx : x s with
  | ret a t => rw [hx] at hs; exact hs
  | stop w t => rw [hx] at hs; exact hs

theorem wp_of {x : Exec σ α} (h : Keeps f x) {s : σ} {Q : α → σ → Prop} {E : Stop → σ → Prop}
    (hret : ∀ a t, x s = .ret a t → f t = f s → Q a t) (hstop : ∀ w t, f t = f s → E w t) :
    x.wp Q E s := by
  have hs := h s
  unfold Exec.wp
  cases hx : x s with
  | ret a t => rw [hx] at hs; exact hret a t hx hs
  | stop w t => rw [hx] at hs; exact hstop w t hs

theorem of_ret {x : Exec σ α} (h : Keeps f x) {s t : σ} {a : α} (hx : x s = .ret a t) :
    f t = f s := by
  have hs := h s
  rw [hx] at hs
  exact hs

theorem field {x : Exec σ α} (h : Keeps f x) (g : γ → δ) {s t : σ} {a : α} (hx : x s = .ret a t) :
    g (f t) = g (f s) :=
  congrArg g (h.of_ret hx)

end Keeps

end Exec

end Quark.Machine
