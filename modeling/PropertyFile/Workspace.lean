import PropertyFile.Settings.Basic
import PropertyFile.Store.File

/-!
# Stores that share layouts

A layout need not belong to one store alone: several stores can be
saved along the same one, a store can be given another layout, and a
text can be loaded into one layout and another one's store. A workspace
holds stores by name and layouts by number, and with each store those
who listen to its changes.

A store's layout follows the changes by listening like anyone else, by a
**synchronizer** that is subscribed when the store gets the layout.
Besides, **recorders** may be subscribed, whose findings the workspace
reports (`Heard`); on hearing an event, a recorder may take back a
subscription. An event goes to all who were subscribed when it was
announced.
-/

namespace PropertyFile

/-- The number of a layout in a workspace. -/
abbrev LayoutNumber := Nat

/-- Who listens to a store. No two subscriptions have the same serial
number, except where a recorder is subscribed again. -/
inductive Listener where
  /-- Keeps a layout in step. -/
  | synchronizer (serial : Nat) (layout : LayoutNumber)
  /-- Records what it hears under a name, and takes back the subscription
  of a name. -/
  | recorder (serial : Nat) (name : Text) (cancels : Option Text)
deriving DecidableEq, Repr

/-- What recorders and receivers have to report. -/
inductive Heard where
  /-- A recorder of a name heard an event. -/
  | event (name : Text) (e : Event)
  /-- A receiver was handed a property, with the open sources and the
  depth of the load. -/
  | loaded (key value : Text) (stack : List Text) (depth : Nat)
deriving DecidableEq, Repr

/-- Where a store finds what it includes. -/
inductive Supply where
  /-- Texts in memory, with aliases. -/
  | memory (held : Sources.Held) (aliases : List (Text × Text))
  /-- The files of the workspace. -/
  | files (o : Sources.FileOptions)

/-- The sources of a supply. -/
def Supply.sources (tree : FileTree) : Supply → Sources
  | .memory held aliases => .inMemory held aliases
  | .files o => .files tree o

/-- A store among others. -/
structure Member where
  /-- Its settings. -/
  options : StoreOptions
  /-- Its values. -/
  values : Values
  /-- Where it finds what it includes. -/
  supply : Supply
  /-- Its layout. -/
  layout : LayoutNumber
  /-- The listener that keeps its layout in step. -/
  synchronizer : Listener
  /-- Who listens to it. -/
  subscribers : Subscribers Listener

/-- Stores, layouts and files. -/
structure Workspace where
  /-- The layouts by number. -/
  layouts : List Layout := []
  /-- The stores by name. -/
  members : OrderedMap Member := .empty
  /-- Layouts that have a name. -/
  named : OrderedMap LayoutNumber := .empty
  /-- Subscriptions by name, each with the store it was made at. -/
  subscriptions : OrderedMap (Text × Subscription Listener) := .empty
  /-- The next serial number. -/
  serial : Nat := 0
  /-- The codecs that there are. -/
  codecs : Codecs
  /-- The files. -/
  tree : FileTree
  /-- Where relative paths start. -/
  current : Location

namespace Workspace

/-! ## Layouts and stores -/

/-- The layout of a number. -/
def layout (w : Workspace) (n : LayoutNumber) : Layout := w.layouts[n]?.getD {}

/-- The workspace with a layout replaced. -/
def setLayout (w : Workspace) (n : LayoutNumber) (l : Layout) : Workspace :=
  { w with layouts := w.layouts.set n l }

/-- The workspace with a further layout, and its number. -/
def addLayout (w : Workspace) (l : Layout) : Workspace × LayoutNumber :=
  ({ w with layouts := w.layouts ++ [l] }, w.layouts.length)

/-- The workspace with a name for a layout. -/
def nameLayout (w : Workspace) (name : Text) (n : LayoutNumber) : Workspace :=
  { w with named := w.named.insert name n }

/-- The workspace with one of its stores changed. -/
def modify (w : Workspace) (name : Text) (f : Member → Member) : Workspace :=
  match w.members.get? name with
  | none => w
  | some m => { w with members := w.members.insert name (f m) }

/-- A store with its layout. -/
def storeOf (w : Workspace) (m : Member) : Store :=
  { options := m.options, values := m.values, layout := w.layout m.layout }

/-- The store of a name with its layout. -/
def store? (w : Workspace) (name : Text) : Option Store := (w.members.get? name).map w.storeOf

/-- The workspace with the values of a store, and its layout, replaced. -/
def putStore (w : Workspace) (name : Text) (st : Store) : Workspace :=
  match w.members.get? name with
  | none => w
  | some m => (w.modify name fun m => { m with values := st.values }).setLayout m.layout st.layout

/-- The layout that a store is saved along from here on: its synchronizer
takes the place of the former one, behind all other listeners. -/
def attach (w : Workspace) (name : Text) (n : LayoutNumber) : Workspace :=
  let listener := Listener.synchronizer w.serial n
  { w.modify name fun m =>
      { m with
        layout := n
        synchronizer := listener
        subscribers := (m.subscribers.unsubscribe m.synchronizer).subscribe listener } with
    serial := w.serial + 1 }

/-- The workspace with a further store, without keys, along a layout. -/
def addStore (w : Workspace) (name : Text) (options : StoreOptions) (supply : Supply)
    (n : LayoutNumber) : Workspace :=
  let listener := Listener.synchronizer w.serial n
  { w with
    members := w.members.insert name
      { options, values := .empty, supply, layout := n, synchronizer := listener
        subscribers := ⟨[listener]⟩ }
    serial := w.serial + 1 }

/-! ## Listening -/

/-- The workspace with a recorder subscribed to a store. -/
def subscribe (w : Workspace) (store name : Text) (cancels : Option Text) : Workspace :=
  let listener := Listener.recorder w.serial name cancels
  { w.modify store fun m => { m with subscribers := m.subscribers.subscribe listener } with
    subscriptions := w.subscriptions.insert name (store, ⟨listener⟩)
    serial := w.serial + 1 }

/-- The workspace with the recorder of a name subscribed once more. -/
def subscribeAgain (w : Workspace) (store name : Text) : Workspace :=
  match w.subscriptions.get? name with
  | none => w
  | some (_, handle) =>
    w.modify store fun m => { m with subscribers := m.subscribers.subscribe handle.listener }

/-- The workspace with the subscription of a name taken back. -/
def cancel (w : Workspace) (name : Text) : Workspace :=
  match w.subscriptions.get? name with
  | none => w
  | some (store, handle) =>
    w.modify store fun m => { m with subscribers := handle.cancel m.subscribers }

/-- Whether the recorder of a name is subscribed. -/
def isActive (w : Workspace) (name : Text) : Bool :=
  match w.subscriptions.get? name with
  | none => false
  | some (store, handle) =>
    match w.members.get? store with
    | none => false
    | some m => handle.isActive m.subscribers

/-- What a listener does on hearing an event. -/
def hear (w : Workspace) (listener : Listener) (e : Event) : Workspace × List Heard :=
  match listener with
  | .synchronizer _ n => (w.setLayout n ((w.layout n).observe e), [])
  | .recorder _ name cancels =>
    ((cancels.map w.cancel).getD w, [.event name e])

/-- **An event delivered** to all who listen to a store. -/
def fire (w : Workspace) (store : Text) (e : Event) : Workspace × List Heard :=
  match w.members.get? store with
  | none => (w, [])
  | some m =>
    (m.subscribers.deliveries e).foldl (fun (w, heard) (listener, e) =>
      let (w, more) := w.hear listener e
      (w, heard ++ more)) (w, [])

/-- **A change of a store**, announced before and afterwards. -/
def mutate (w : Workspace) (store : Text) (m : Mutation) : Workspace × List Heard :=
  let (w, before) := w.fire store (m.event true)
  let w := w.modify store fun member =>
    { member with values := m.apply member.options.delimiter member.values }
  let (w, later) := w.fire store (m.event false)
  (w, before ++ later)

/-! ## Loading and saving -/

/-- A receiver that records every property it is handed. -/
structure Recording where
  /-- The keys of properties to be consumed. -/
  drop : List Text
  /-- Whether the other ones go to the store, and not just to the
  layout. -/
  keep : Bool
  /-- Events announced to the layout on each property. -/
  events : List (MutationKind × Option Text)

/-- The state of a load in a workspace, beside the layout that is
filled. -/
structure Progress where
  /-- The store. -/
  store : Store
  /-- What was noted. -/
  notices : List Notice := []
  /-- What was recorded. -/
  heard : List Heard := []

/-- The receiver of a load into a layout. If it is that of the store
itself, the store's layout is the one that is filled. -/
def receiver (src : Sources) (stack : List Text) (own : Bool) (recording : Option Recording) :
    Receiver Progress := fun p (l, s) =>
  let toStore (l : Layout) (s : Progress) : Except LoadError Bool × (Layout × Progress) :=
    let (result, (inner, loading)) := Store.receive s.store.options src stack p.key p.value
      (if own then l else s.store.layout, ⟨s.store.values, s.notices⟩)
    (result, (if own then inner else l,
      { s with
        store := { s.store with values := loading.values, layout := inner }
        notices := loading.notices }))
  match recording with
  | none => toStore l s
  | some r =>
    let s := { s with heard := s.heard ++ [.loaded p.key p.value stack l.loadDepth] }
    let l := r.events.foldl (fun l (kind, key) =>
      l.observe { kind, key, value := some (.one p.value), beforeUpdate := false }) l
    if r.drop.contains p.key then (.ok false, (l, s))
    else if r.keep then toStore l s
    else (.ok true, (l, s))

/-- What a load in a workspace comes to. -/
structure LoadResult where
  /-- Whether it came to its end. -/
  result : Except LoadError Unit
  /-- The workspace afterwards. -/
  workspace : Workspace
  /-- What was noted. -/
  notices : List Notice := []
  /-- What was recorded. -/
  heard : List Heard := []

/-- **Loading a text into a store and a layout**, which need not be the
layout of the store. -/
def load (w : Workspace) (store : Text) (n : LayoutNumber) (source : Option Text)
    (stack : List Text) (recording : Option Recording) (t : Text) : LoadResult :=
  match w.members.get? store with
  | none => { result := .ok (), workspace := w }
  | some m =>
    let src := m.supply.sources w.tree
    let own := m.layout == n
    let (result, (l, s)) := Layout.load (ListDelimiter.kept m.options.delimiter)
      (Store.sourceName source stack) (receiver src stack own recording) t
      (w.layout n, { store := w.storeOf m })
    let w := (w.putStore store s.store).setLayout n l
    { result, workspace := w, notices := s.notices, heard := s.heard }

/-- A load into a store of the workspace and its own layout. -/
def loadStore (w : Workspace) (store : Text)
    (f : Store → Sources → Except LoadError Unit × Store × List Notice) : LoadResult :=
  match w.members.get? store with
  | none => { result := .ok (), workspace := w }
  | some m =>
    let (result, st, notices) := f (w.storeOf m) (m.supply.sources w.tree)
    { result, workspace := w.putStore store st, notices }

/-- **Reading a text into a store.** -/
def read (w : Workspace) (store : Text) (source : Option Text) (t : Text) : LoadResult :=
  w.loadStore store fun st src => st.read src source t

/-- **Loading a file into a store.** -/
def loadFile (w : Workspace) (store : Text) (p : Path) : LoadResult :=
  w.loadStore store fun st src => st.loadFile w.codecs src w.tree w.current p

/-- Hands a property to a store, as a load does with the given sources
open. -/
def receive (w : Workspace) (store : Text) (stack : List Text) (key value : Text) :
    Except LoadError Bool × Workspace × List Notice :=
  match w.members.get? store with
  | none => (.ok true, w, [])
  | some m =>
    let st := w.storeOf m
    let (result, (l, loading)) := Store.receive m.options (m.supply.sources w.tree) stack key value
      (st.layout, ⟨st.values, []⟩)
    (result, w.putStore store { st with layout := l, values := loading.values }, loading.notices)

/-- **Saving a store to a file.** -/
def saveFile (w : Workspace) (store : Text) (p : Path) : Except SaveError Unit × Workspace :=
  match w.store? store with
  | none => (.ok (), w)
  | some st =>
    let (result, tree) := st.saveFile w.codecs w.tree w.current p
    (result, { w with tree })

end Workspace

end PropertyFile
