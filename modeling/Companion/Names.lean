import Companion.Rows

/-!
# Enumerations as text

Statuses, directions and the state of the node are text in the database and in a query
string: the name of the variant, as serde writes it.  Reading them back goes through the
list of all variants.

## Main definitions

* `Named` — an enumeration with the names of its variants.
* `enumToStr`, `enumFromStr` — the two conversions.
* `enumFromStr_eq_ok` — reading back accepts the names and nothing else.
-/

set_option autoImplicit false

namespace Companion

/-- An enumeration whose variants serde writes out as their names. -/
class Named (α : Type) where
  /-- The variants, in the order they are declared. -/
  all : List α
  name : α → String
  mem_all : ∀ a, a ∈ all
  name_injective : Function.Injective name

instance : Named TransferStatus where
  all := [.initiated, .waitingCounterparty, .waitingSafeHeight, .waitingBroadcast,
    .waitingConfirmations, .settled, .failed]
  name
    | .initiated => "Initiated"
    | .waitingCounterparty => "WaitingCounterparty"
    | .waitingSafeHeight => "WaitingSafeHeight"
    | .waitingBroadcast => "WaitingBroadcast"
    | .waitingConfirmations => "WaitingConfirmations"
    | .settled => "Settled"
    | .failed => "Failed"
  mem_all a := by cases a <;> decide
  name_injective a b h := by cases a <;> cases b <;> first | rfl | simp at h

instance : Named PaymentStatus where
  all := [.pending, .succeeded, .failed, .claimable, .claiming, .cancelled]
  name
    | .pending => "Pending"
    | .succeeded => "Succeeded"
    | .failed => "Failed"
    | .claimable => "Claimable"
    | .claiming => "Claiming"
    | .cancelled => "Cancelled"
  mem_all a := by cases a <;> decide
  name_injective a b h := by cases a <;> cases b <;> first | rfl | simp at h

instance : Named PaymentDirection where
  all := [.inbound, .outbound]
  name
    | .inbound => "Inbound"
    | .outbound => "Outbound"
  mem_all a := by cases a <;> decide
  name_injective a b h := by cases a <;> cases b <;> first | rfl | simp at h

instance : Named NodeState where
  all := [.unknown, .locked, .unlocked, .down, .misconfigured]
  name
    | .unknown => "Unknown"
    | .locked => "Locked"
    | .unlocked => "Unlocked"
    | .down => "Down"
    | .misconfigured => "Misconfigured"
  mem_all a := by cases a <;> decide
  name_injective a b h := by cases a <;> cases b <;> first | rfl | simp at h

section Named
variable {α : Type} [Named α]

/-- The variant with this name. -/
def fromName (s : String) : Option α :=
  (Named.all : List α).find? fun a => Named.name a = s

theorem fromName_eq_some {s : String} {a : α} : fromName s = some a ↔ s = Named.name a := by
  constructor
  · intro h
    have hname : Named.name a = s := by simpa using List.find?_some h
    exact hname.symm
  · intro h
    have hsome : ((Named.all : List α).find? fun a => Named.name a = s).isSome := by
      rw [List.find?_isSome]
      exact ⟨a, Named.mem_all a, by simp [h]⟩
    obtain ⟨b, hb⟩ := Option.isSome_iff_exists.mp hsome
    have hname : Named.name b = s := by simpa using List.find?_some hb
    rw [fromName, hb, Named.name_injective (hname.trans h)]

@[simp] theorem fromName_name (a : α) : fromName (Named.name a) = some a :=
  fromName_eq_some.mpr rfl

/-- What serde says of a name it does not know. -/
def unknownVariant (s : String) : List String → String
  | [n] => s!"unknown variant `{s}`, expected `{n}`"
  | [n, m] => s!"unknown variant `{s}`, expected `{n}` or `{m}`"
  | names => s!"unknown variant `{s}`, expected one of " ++
      ", ".intercalate (names.map fun n => s!"`{n}`")

/-- `enum_to_str`; a unit variant is always written as a string. -/
def enumToStr (v : α) : Except StoreError String := .ok (Named.name v)

variable (α) in
/-- `enum_from_str`. -/
def enumFromStr (s : String) : Except StoreError α :=
  match fromName s with
  | some a => .ok a
  | none => .error (.corrupt (s ++ ": " ++ unknownVariant s ((Named.all : List α).map Named.name)))

theorem enumFromStr_eq_ok {s : String} {a : α} : enumFromStr α s = .ok a ↔ s = Named.name a := by
  rw [← fromName_eq_some, enumFromStr]
  cases fromName (α := α) s <;> simp

@[simp] theorem enumFromStr_name (a : α) : enumFromStr α (Named.name a) = .ok a :=
  enumFromStr_eq_ok.mpr rfl

theorem name_eq_iff {a b : α} : Named.name a = Named.name b ↔ a = b :=
  Named.name_injective.eq_iff

end Named
end Companion
