import SchemaCatalog.Event

/-!
# SchemaCatalog.Proofs.TwoRuns

Computations side by side.

Two computations are alike when they emit the same events and their values are related, whatever
the relation says about values (`Logged.Alike`). There is one rule for each way to put computations
together, so a relation that every step keeps is kept by the whole, and events need no account of
their own. Results that may be errors agree when they are the same error or both are there.
-/

namespace SchemaCatalog

variable {α β α' β' ε : Type}

/-- The same error, or two results that are related. -/
inductive Agree (R : α → α' → Prop) : Except ε α → Except ε α' → Prop where
  | error (e : ε) : Agree R (.error e) (.error e)
  | ok {a : α} {a' : α'} (related : R a a') : Agree R (.ok a) (.ok a')

theorem Agree.refl {R : α → α → Prop} (h : ∀ a, R a a) (x : Except ε α) : Agree R x x := by
  cases x with
  | error e => exact .error e
  | ok a => exact .ok (h a)

theorem Agree.toOption {R : α → α' → Prop} {x : Except ε α} {x' : Except ε α'} (h : Agree R x x') :
    Option.Rel R x.toOption x'.toOption := by
  cases h with
  | error e => exact .none
  | ok related => exact .some related

namespace Logged

/-- The same events, and values that are related. -/
structure Alike (R : α → α' → Prop) (m : Logged α) (m' : Logged α') : Prop where
  events : m'.events = m.events
  value : R m.value m'.value

variable {R : α → α' → Prop} {S : β → β' → Prop} {m : Logged α} {m' : Logged α'}

namespace Alike

theorem pure {a : α} {a' : α'} (h : R a a') : Alike R (Pure.pure a) (Pure.pure a') := ⟨rfl, h⟩

theorem refl {R : α → α → Prop} (h : ∀ a, R a a) (m : Logged α) : Alike R m m := ⟨rfl, h m.value⟩

theorem bind {f : α → Logged β} {f' : α' → Logged β'} (h : Alike R m m')
    (hf : ∀ a a', R a a' → Alike S (f a) (f' a')) : Alike S (m >>= f) (m' >>= f') := by
  have hnext := hf m.value m'.value h.value
  exact ⟨by rw [events_bind, events_bind, h.events, hnext.events], hnext.value⟩

/-- What is related are the values themselves. -/
theorem values (h : Alike R m m') :
    Alike (fun a a' => m.value = a ∧ m'.value = a' ∧ R a a') m m' :=
  ⟨h.events, rfl, rfl, h.value⟩

/-- The same step first. -/
theorem after (m : Logged α) {f : α → Logged β} {f' : α → Logged β'}
    (hf : ∀ a, Alike S (f a) (f' a)) : Alike S (m >>= f) (m >>= f') :=
  (refl (R := Eq) (fun _ => rfl) m).bind fun a _ h => h ▸ hf a

theorem andThen {m : Logged (Except ε α)} {m' : Logged (Except ε α')}
    {f : α → Logged (Except ε β)} {f' : α' → Logged (Except ε β')} (h : Alike (Agree R) m m')
    (hf : ∀ a a', R a a' → Alike (Agree S) (f a) (f' a')) :
    Alike (Agree S) (m.andThen f) (m'.andThen f') := by
  obtain ⟨value, events⟩ := m
  obtain ⟨value', events'⟩ := m'
  obtain ⟨hevents, hvalue⟩ := h
  obtain rfl : events' = events := hevents
  cases hvalue with
  | error e => exact ⟨rfl, .error e⟩
  | ok related =>
    have hnext := hf _ _ related
    exact ⟨congrArg (events' ++ ·) hnext.events, hnext.value⟩

end Alike

end Logged

end SchemaCatalog
