import RubyLint.Log

/-!
# Computations that write a log

A traced computation ends with a value or an error, and has written log entries on the way.  The
entries written before an error are kept.  What a computation ends with does not depend on the
log, so `outcome` carries the sequencing of traced computations to the sequencing of their
outcomes.
-/

namespace RubyLint

/-- A value or an error, with the log entries written on the way to it. -/
structure Traced (ε α : Type) where
  log : List Log.Entry
  outcome : Except ε α

namespace Traced

variable {ε ε' α β γ : Type}

protected def pure (a : α) : Traced ε α := ⟨[], .ok a⟩

/-- Goes on with `next` unless `x` has failed. -/
protected def bind (x : Traced ε α) (next : α → Traced ε β) : Traced ε β :=
  match x.outcome with
  | .error e => ⟨x.log, .error e⟩
  | .ok a =>
    let y := next a
    ⟨x.log ++ y.log, y.outcome⟩

instance : Monad (Traced ε) where
  pure := Traced.pure
  bind := Traced.bind

def fail (e : ε) : Traced ε α := ⟨[], .error e⟩

def write (level : Log.Level) (origin : Log.Origin) (message : String) : Traced ε Unit :=
  ⟨[⟨level, origin, message⟩], .ok ()⟩

/-- Ends as `result` does and writes nothing. -/
def ofExcept (result : Except ε α) : Traced ε α := ⟨[], result⟩

def mapError (f : ε → ε') (x : Traced ε α) : Traced ε' α := ⟨x.log, x.outcome.mapError f⟩

/-- Runs `f` on every element in order and collects the values. -/
def collect (f : α → Traced ε β) : List α → Traced ε (List β)
  | [] => pure []
  | a :: rest => do
    let b ← f a
    let bs ← collect f rest
    return b :: bs

@[simp] theorem outcome_pure (a : α) : (pure a : Traced ε α).outcome = .ok a := rfl

@[simp] theorem outcome_bind (x : Traced ε α) (next : α → Traced ε β) :
    (x >>= next).outcome = x.outcome.bind fun a => (next a).outcome := by
  show (Traced.bind x next).outcome = _
  unfold Traced.bind
  cases x.outcome <;> rfl

@[simp] theorem outcome_fail (e : ε) : (fail e : Traced ε α).outcome = .error e := rfl

@[simp] theorem outcome_write (level : Log.Level) (origin : Log.Origin) (message : String) :
    (write level origin message : Traced ε Unit).outcome = .ok () := rfl

@[simp] theorem outcome_ofExcept (result : Except ε α) : (ofExcept result).outcome = result := rfl

@[simp] theorem outcome_mapError (f : ε → ε') (x : Traced ε α) :
    (x.mapError f).outcome = x.outcome.mapError f := rfl

theorem ext_iff {x y : Traced ε α} : x = y ↔ x.log = y.log ∧ x.outcome = y.outcome := by
  cases x; cases y; simp

theorem bind_pure_eq (x : Traced ε α) : x >>= pure = x := by
  show Traced.bind x Traced.pure = x
  rcases x with ⟨log, _ | _⟩ <;> simp [Traced.bind, Traced.pure]

theorem pure_bind_eq (a : α) (next : α → Traced ε β) : (pure a >>= next) = next a := by
  show Traced.bind (Traced.pure a) next = next a
  simp [Traced.bind, Traced.pure]

theorem bind_assoc_eq (x : Traced ε α) (f : α → Traced ε β) (g : β → Traced ε γ) :
    x >>= f >>= g = x >>= fun a => f a >>= g := by
  show Traced.bind (Traced.bind x f) g = Traced.bind x fun a => Traced.bind (f a) g
  rcases x with ⟨log, e | a⟩
  · simp [Traced.bind]
  · cases h : (f a).outcome <;> simp [Traced.bind, h]

instance : LawfulMonad (Traced ε) :=
  LawfulMonad.mk' (Traced ε) bind_pure_eq pure_bind_eq bind_assoc_eq

end Traced

end RubyLint
