import PropertyFile.Layout.Basic
import PropertyFile.Value

/-!
# Mutations and who hears of them

Every change of a store is announced twice to its listeners: before it
happens and afterwards. Listeners are told in the order in which they
subscribed, and an event goes to those who were subscribed when it was
announced, whatever they do on hearing it. The same listener may
subscribe several times and then hears of everything as often; taking
back one subscription removes its earliest registration
(`Subscribers.unsubscribe`).

The layout of a store is kept in step by listening (`Layout.observe`).
-/

namespace PropertyFile

/-- The kinds of changes. -/
inductive MutationKind where
  /-- Values were added to a key. -/
  | addProperty
  /-- The values of a key were replaced. -/
  | setProperty
  /-- A key was removed. -/
  | clearProperty
  /-- All keys were removed. -/
  | clear
deriving DecidableEq, Repr

namespace MutationKind

/-- The word for a kind of change. -/
def name : MutationKind → String
  | .addProperty => "add_property"
  | .setProperty => "set_property"
  | .clearProperty => "clear_property"
  | .clear => "clear"

/-- All kinds of changes. -/
def all : List MutationKind := [.addProperty, .setProperty, .clearProperty, .clear]

/-- The kind of change that a word stands for. -/
def ofName? (word : String) : Option MutationKind := all.find? fun kind => kind.name == word

/-- What is said of a word that stands for no kind of change. -/
def unknownMessage (word : Text) : String := Text.quoted word ++ " is not a valid MutationKind"

end MutationKind

/-- The announcement of a change. -/
structure Event where
  /-- What changes. -/
  kind : MutationKind
  /-- The key it concerns, if any. -/
  key : Option Text
  /-- The value handed over, if any. -/
  value : Option Value
  /-- Whether the change is still to come. -/
  beforeUpdate : Bool
deriving DecidableEq, Repr

/-! ## Subscriptions -/

/-- The listeners of a store, in the order of delivery. -/
structure Subscribers (ℓ : Type) where
  /-- One occurrence for every registration. -/
  listeners : List ℓ := []
deriving DecidableEq, Repr

namespace Subscribers

variable {ℓ : Type} [DecidableEq ℓ]

/-- Registers a listener behind all others. -/
def subscribe (s : Subscribers ℓ) (listener : ℓ) : Subscribers ℓ :=
  ⟨s.listeners ++ [listener]⟩

/-- Removes the earliest registration of a listener, if there is one. -/
def unsubscribe (s : Subscribers ℓ) (listener : ℓ) : Subscribers ℓ :=
  ⟨s.listeners.erase listener⟩

/-- Whether a listener is registered. -/
def isSubscribed (s : Subscribers ℓ) (listener : ℓ) : Bool := s.listeners.contains listener

/-- Who hears an event, in order. -/
def deliveries (s : Subscribers ℓ) (e : Event) : List (ℓ × Event) :=
  s.listeners.map fun listener => (listener, e)

end Subscribers

/-- What a subscription leaves in the hands of the subscriber: the
listener, by which it can be taken back. -/
structure Subscription (ℓ : Type) where
  /-- The listener that was registered. -/
  listener : ℓ
deriving DecidableEq, Repr

namespace Subscription

variable {ℓ : Type} [DecidableEq ℓ]

/-- Takes back the earliest registration of the listener; nothing happens
if it has none left. -/
def cancel (h : Subscription ℓ) (s : Subscribers ℓ) : Subscribers ℓ := s.unsubscribe h.listener

/-- Whether the listener of the subscription is registered. -/
def isActive (h : Subscription ℓ) (s : Subscribers ℓ) : Bool := s.isSubscribed h.listener

end Subscription

/-! ## Keeping a layout in step -/

/-- **The layout after an event.** A new key gets a fresh entry at the
end. A key that is added to again is written on several lines from then
on; setting it leaves its entry as it is. A removed key loses its
entry, and with all keys go header and footer. Announcements before a
change, and everything during a load, are passed over. -/
def Layout.observe (l : Layout) (e : Event) : Layout :=
  if e.beforeUpdate || l.isLoading then l
  else
    match e.kind, e.key with
    | .clear, _ => l.clear
    | _, none => l
    | .addProperty, some key => l.setSingleLine key (!l.contains key)
    | .setProperty, some key => l.fetch key
    | .clearProperty, some key => l.remove key

end PropertyFile
