import Ferryman.Lib.Bytes

/-! Why a config, an upstream, a breaker or a list of trusted networks was
rejected. Errors of reading and parsing the file itself happen before anything
modelled here. -/

set_option autoImplicit false

namespace Ferryman.Core

inductive Error where
  | invalidConfig (key reason : Bytes)
  | invalidPrefix (routePrefix : Bytes)
  | nonCanonicalPrefix (routePrefix normal : Bytes)
  | duplicatePrefix (routePrefix : Bytes)
  | invalidUpstream (route upstream reason : Bytes) (source : Option Bytes)
  | invalidCooldown (route reason : Bytes)
  | conflictingCooldown (route upstream : Bytes) (cooldownSecs otherSecs : Nat)
  | invalidHealthPath (route path : Bytes)
  | conflictingHealth (route upstream setting value other : Bytes)
  | invalidCidr (entry reason : Bytes)
  | invalidBreakerConfig (reason : Bytes) (upstream : Option Bytes)
deriving DecidableEq

def reject (condition : Prop) [Decidable condition] (error : Error) : Except Error Unit :=
  if condition then .error error else .ok ()

@[simp] theorem reject_eq_ok {condition : Prop} [Decidable condition] {error : Error} {done : Unit} :
    reject condition error = .ok done ↔ ¬condition := by
  unfold reject
  split <;> simp [*]

theorem bind_eq_ok {α β : Type} {first : Except Error α} {rest : α → Except Error β} {result : β} :
    (first >>= rest) = .ok result ↔ ∃ value, first = .ok value ∧ rest value = .ok result := by
  cases first <;> simp [bind, Except.bind]

end Ferryman.Core
