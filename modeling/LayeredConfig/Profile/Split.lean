import LayeredConfig.Reference
import LayeredConfig.Tree.Loose
import LayeredConfig.Value.KeyOrder
/-!
# Profiles of a tree

The default profile is the root of a tree without its table of profiles. Every other profile overlays
its own table on the default one; a tombstone in its table hides what it would inherit, and a tombstone
in place of its table hides the profile. `profilesOf` computes the effective trees of all profiles,
none of which holds a tombstone.
-/
namespace LayeredConfig

/-- What a table of profiles holds under a name. -/
inductive ProfileBody (α : Type) where
  | hidden
  | table (entries : α)
  | other (typeName : String)

/-- The effective trees of declared profiles, given how a profile's table is laid over the default one. -/
def profilesFrom {α : Type} (overlay : α → Outcome Tree) :
    List (Key × ProfileBody α) → Outcome (List (String × Tree))
  | [] => .ok []
  | (key, body) :: rest =>
    if key = .text defaultProfile then .error (.reservedProfile defaultProfile)
    else
      match key.toRaw.profileName with
      | .error f => .error f
      | .ok name =>
        match body with
        | .hidden => profilesFrom overlay rest
        | .other t => .error (.profileNotTable name t)
        | .table entries =>
          match overlay entries with
          | .error f => .error f
          | .ok t => (profilesFrom overlay rest).map ((name, t) :: ·)

/-- What a stored value is as the table of a profile. -/
def Value.asBody : Value → ProfileBody Tree
  | .unset => .hidden
  | .map entries => .table entries
  | v => .other v.typeName

/-- What a raw value is as the table of a profile. -/
def Raw.asBody : Raw → ProfileBody RawMap
  | .unset => .hidden
  | .map entries => .table entries
  | v => .other v.typeName

/-- The effective tree of a profile with the given table over a default tree. -/
def effectiveTree (root body : Tree) : Tree := Tree.prune (Tree.merge root body)

/-- The named profiles that a tree declares. -/
def Tree.declaredProfiles (t root : Tree) : Outcome (List (String × Tree)) :=
  match t.get? profilesKey with
  | none => .ok []
  | some .unset => .ok []
  | some (.map declared) =>
    profilesFrom (fun body => .ok (effectiveTree root body))
      (declared.map fun e => (Key.text e.1, e.2.asBody))
  | some v => .error (.profilesNotTable v.typeName)

/-- The named profiles that a raw map declares. -/
def RawMap.declaredProfiles (m : RawMap) (root : Tree) : Outcome (List (String × Tree)) :=
  match m.get? profilesKey with
  | none => .ok []
  | some .null => .ok []
  | some .unset => .ok []
  | some (.map declared) => do
    let ordered ← orderedByKey declared
    profilesFrom
      (fun body => do
        let merged ← freezeTree "tree" (.map (RawMap.merge (Value.thawEntries root) body))
        .ok (Tree.prune merged))
      (ordered.map fun e => (e.1, e.2.asBody))
  | some v => .error (.profilesNotTable v.typeName)

/-- The effective trees of all profiles of a source's content, the default profile first. -/
def profilesOf (content : Content) : Outcome (List (String × Tree)) := do
  let root ← (content.erase profilesKey).pruned
  let named ← match content with
    | .tree t => t.declaredProfiles root
    | .loose m => m.declaredProfiles root
  .ok ((defaultProfile, root) :: named)

end LayeredConfig
