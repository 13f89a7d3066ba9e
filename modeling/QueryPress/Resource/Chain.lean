import QueryPress.Error
import QueryPress.Resource.Loader

/-!
# Resource/Chain — loaders asked one after the other

The first loader that has a name wins. A loader that fails ends the search, and the loaders asked
before it stay as their answers left them.
-/

namespace QueryPress

/-- Loaders in the order in which they are asked. -/
abbrev Chain := List Loader

namespace Chain

/-- The names of the loaders, in order. -/
def names (c : Chain) : List String := c.map Loader.name

/-- The first name that has occurred before. -/
def repeated? (seen : List String) : List String → Option String
  | [] => none
  | n :: ns => if n ∈ seen then some n else repeated? (n :: seen) ns

/-- **The chain of some loaders**, whose names have to differ. -/
def ofLoaders (loaders : List Loader) : Except ConfigError Chain :=
  match repeated? [] (names loaders) with
  | some name => .error (.duplicateLoader name)
  | none => .ok loaders

/-- Asks the loaders for a name. -/
def find (w : World) (name : String) : Chain → Except Error (Option Resource) × Chain
  | [] => (.ok none, [])
  | l :: ls =>
    match l.load w name with
    | (.error e, l) => (.error (.io e), l :: ls)
    | (.ok (some r), l) => (.ok (some r), l :: ls)
    | (.ok none, l) =>
      let (found, ls) := find w name ls
      (found, l :: ls)

/-- Asks for names in order until one is there. -/
def findFirst (w : World) : List String → Chain → Except Error (Option Resource) × Chain
  | [], c => (.ok none, c)
  | n :: ns, c =>
    match find w n c with
    | (.ok none, c) => findFirst w ns c
    | answer => answer

/-- **Asks for a name that has to be there.** -/
def resolve (w : World) (name : String) (c : Chain) : Except Error Resource × Chain :=
  match find w name c with
  | (.error e, c) => (.error e, c)
  | (.ok none, c) => (.error (.notFound name), c)
  | (.ok (some r), c) => (.ok r, c)

/-- Lets every loader forget a name. -/
def evict (c : Chain) (name : String) : Chain := c.map (·.evict name)

/-- Asks the loader of a resource for a later copy; a resource of no loader here has none. -/
def refresh (w : World) (r : Resource) : Chain → Except Error (Option Resource) × Chain
  | [] => (.ok none, [])
  | l :: ls =>
    if l.name = r.loader then
      match l.refresh w r with
      | (.error e, l) => (.error (.io e), l :: ls)
      | (.ok fresh, l) => (.ok fresh, l :: ls)
    else
      let (fresh, ls) := refresh w r ls
      (fresh, l :: ls)

/-- Asks for later copies of resources, in order. -/
def refreshAll (w : World) : List Resource → Chain → Except Error (List Resource) × Chain
  | [], c => (.ok [], c)
  | r :: rs, c =>
    match refresh w r c with
    | (.error e, c) => (.error e, c)
    | (.ok fresh, c) =>
      match refreshAll w rs c with
      | (.error e, c) => (.error e, c)
      | (.ok changed, c) => (.ok (fresh.toList ++ changed), c)

@[simp] theorem names_evict (c : Chain) (name : String) : (c.evict name).names = c.names := by
  simp [names, evict, Loader.name, Function.comp_def]

end Chain

end QueryPress
