import LayeredConfig.Proofs.Tree.LateFreezing
import LayeredConfig.Proofs.Value.Reordering
/-!
# Writing to raw maps

A raw map that is written to at a path is read back like through a lens: what was written stands at the path, what
stands apart from it stays, and only maps stand on the way to it (`RawMap.lookup?_setAt_self`,
`RawMap.lookup?_setAt_apart`, `RawMap.exists_map_above`). A second write at the path absorbs the first
(`RawMap.setAt_setAt_self`), and two writes that stand apart may trade places; only the order of some keys shows which
came first (`RawMap.setAt_comm`), and that order does not show in what is read (`RawMap.Reordered.lookup?`). Scalars,
lists and tombstones on the way to a path are no exception: both writes replace them by the one map that they share. A
map is a value here: writing copies what it goes through, and no two places share a map.
-/
namespace LayeredConfig

/-! ## Up to the order of keys -/

theorem Raw.Reordered.cases {v w : Raw} (h : v.Reordered w) :
    (∃ m n, v = .map m ∧ w = .map n ∧ RawMap.Reordered m n) ∨ (∃ vs ws, v = .list vs ∧ w = .list ws) ∨ v = w := by
  cases v with
  | map m =>
    cases w with
    | map n => exact .inl ⟨m, n, rfl, rfl, h⟩
    | _ => exact .inr (.inr h)
  | list vs =>
    cases w with
    | list ws => exact .inr (.inl ⟨vs, ws, rfl, rfl⟩)
    | _ => exact .inr (.inr h)
  | _ => exact .inr (.inr h)

theorem Raw.Reordered.defined? {v w : Raw} (h : v.Reordered w) : Option.Rel Raw.Reordered v.defined? w.defined? := by
  obtain ⟨m, n, rfl, rfl, _⟩ | ⟨vs, ws, rfl, rfl⟩ | rfl := h.cases
  · exact .some h
  · exact .some h
  · cases v with
    | null => exact .none
    | unset => exact .none
    | _ => exact .some h

namespace RawMap

variable {m n : RawMap} {k l : Key} {v w : Raw} {key other : String} {place : List String}

theorem reordered_insert (m : RawMap) (k : Key) (h : v.Reordered w) : Reordered (m.insert k v) (m.insert k w) := by
  induction m with
  | nil => exact ⟨[], w, [], rfl, h, rfl⟩
  | cons e rest ih =>
    obtain ⟨l, u⟩ := e
    rw [insert, insert]
    split
    · exact ⟨[], w, rest, rfl, h, reordered_refl rest⟩
    · exact ⟨[], u, RawMap.insert rest k w, rfl, u.reordered_refl, ih⟩

theorem get?_append (m n : RawMap) (k : Key) : get? (m ++ n) k = (m.get? k).or (n.get? k) := by
  induction m with
  | nil => rfl
  | cons e rest ih =>
    obtain ⟨l, u⟩ := e
    rw [List.cons_append, get?, get?, ih]
    split <;> rfl

theorem Reordered.get? (hm : Distinct m) (h : Reordered m n) (k : Key) :
    Option.Rel Raw.Reordered (m.get? k) (n.get? k) := by
  induction m generalizing n with
  | nil =>
    rw [show n = [] from h]
    exact .none
  | cons d rest ih =>
    obtain ⟨l, v⟩ := d
    obtain ⟨hl, _, hrest⟩ := distinct_cons.mp hm
    obtain ⟨front, w, back, rfl, hvw, hothers⟩ := h
    have hbelow := ih hrest hothers
    rw [get?_append] at hbelow ⊢
    rw [RawMap.get?, RawMap.get?]
    by_cases hlk : l.same k
    · -- no other key is the same, be it listed before or behind
      have hfront : RawMap.get? front k = none := get?_eq_none fun e he hek => by
        obtain ⟨d, hd, hkey⟩ := hothers.exists_mem (List.mem_append_left back he)
        refine hl d hd (Key.same_trans hlk ?_)
        rw [hkey, Key.same_comm]
        exact hek
      rw [if_pos hlk, if_pos hlk, hfront]
      exact .some hvw
    · rw [if_neg hlk, if_neg hlk]
      exact hbelow

/-! ## Keys -/

theorem not_same_of_ne (h : key ≠ other) : ¬ (Key.text key).same (.text other) := by
  simpa [Key.same] using h

theorem get?_insert_self (m : RawMap) (k : Key) (v : Raw) : (m.insert k v).get? k = some v := by
  induction m with
  | nil => rw [insert, get?, if_pos (Key.same_self k)]
  | cons e rest ih =>
    obtain ⟨l, u⟩ := e
    rw [insert]
    split
    · rename_i hlk
      rw [get?, if_pos hlk]
    · rename_i hlk
      rw [get?, if_neg hlk, ih]

theorem insert_insert_self (m : RawMap) (k : Key) (v w : Raw) : (m.insert k w).insert k v = m.insert k v := by
  induction m with
  | nil => rw [insert, insert, insert, if_pos (Key.same_self k)]
  | cons e rest ih =>
    obtain ⟨l, u⟩ := e
    rw [insert, insert]
    split
    · rename_i hlk
      rw [insert, if_pos hlk]
    · rename_i hlk
      rw [insert, if_neg hlk, ih]

theorem insert_comm_perm (h : ¬ k.same l) (m : RawMap) (v w : Raw) :
    ((m.insert k v).insert l w).Perm ((m.insert l w).insert k v) := by
  have h' : ¬ l.same k := fun hlk => h (Key.same_comm l k ▸ hlk)
  induction m with
  | nil =>
    rw [insert, insert, insert, insert, insert, insert, if_neg h, if_neg h']
    exact List.Perm.swap _ _ _
  | cons e rest ih =>
    obtain ⟨n, u⟩ := e
    rw [insert, insert]
    by_cases hnk : n.same k
    · have hnl : ¬ n.same l := fun hnl => h (Key.same_trans (Key.same_comm n k ▸ hnk) hnl)
      rw [if_pos hnk, if_neg hnl, insert, insert, if_neg hnl, if_pos hnk]
    · rw [if_neg hnk, insert]
      by_cases hnl : n.same l
      · rw [if_pos hnl, if_pos hnl, insert, if_neg hnk]
      · rw [if_neg hnl, if_neg hnl, insert, if_neg hnk]
        exact ih.cons _

/-! ## One step of the way -/

@[simp] theorem setAt_singleton (m : RawMap) (key : String) (v : Raw) : m.setAt [key] v = m.insert key v := by
  rw [setAt]

theorem setAt_cons (h : place ≠ []) (m : RawMap) (key : String) (v : Raw) :
    m.setAt (key :: place) v = m.insert key (.map ((m.submap key).setAt place v)) := by
  rw [setAt]
  exact h

theorem exists_setAt_cons (m : RawMap) (key : String) (place : List String) (v : Raw) :
    ∃ u, m.setAt (key :: place) v = m.insert key u ∧
      ∀ other w, key ≠ other → (m.insert (.text other) w).setAt (key :: place) v =
        (m.insert (.text other) w).insert key u := by
  by_cases h : place = []
  · subst h
    exact ⟨v, setAt_singleton m key v, fun other w _ => setAt_singleton _ key v⟩
  · refine ⟨_, setAt_cons h m key v, fun other w hne => ?_⟩
    rw [setAt_cons h, submap, submap, get?_insert_of_not_same (not_same_of_ne hne.symm)]

theorem submap_insert_map (m : RawMap) (key : String) (below : RawMap) :
    (m.insert key (.map below)).submap key = below := by
  rw [submap, get?_insert_self]

theorem lookup?_nil (m : RawMap) : m.lookup? [] = some (.map m) := rfl

theorem lookup?_cons (h : place ≠ []) (m : RawMap) (key : String) :
    m.lookup? (key :: place) = (m.submap key).lookup? place := by
  obtain ⟨next, rest, rfl⟩ := List.exists_cons_of_ne_nil h
  have hnothing : RawMap.lookup? [] (next :: rest) = none := by cases rest <;> rfl
  rw [lookup?, submap]
  · split
    · rfl
    · exact hnothing.symm
  · exact List.cons_ne_nil _ _

theorem lookup?_congr (h : m.get? key = n.get? key) (place : List String) :
    m.lookup? (key :: place) = n.lookup? (key :: place) := by
  by_cases hplace : place = []
  · subst hplace
    rw [lookup?, lookup?, h]
  · rw [lookup?_cons hplace, lookup?_cons hplace, submap, submap, h]

theorem Reordered.submap (hm : Distinct m) (h : Reordered m n) (key : String) :
    Reordered (m.submap key) (n.submap key) ∧ Distinct (m.submap key) := by
  have hkey := h.get? hm key
  have hdistinct : ∀ v, m.get? key = some v → v.Distinct := fun v hv => hm.of_get? hv
  rw [RawMap.submap, RawMap.submap]
  generalize m.get? key = x, n.get? key = y at hkey hdistinct
  cases hkey with
  | none => exact ⟨rfl, distinct_nil⟩
  | @some v w hvw =>
    obtain ⟨below, below', rfl, rfl, hbelow⟩ | ⟨vs, ws, rfl, rfl⟩ | rfl := hvw.cases
    · exact ⟨hbelow, distinct_map.mp (hdistinct _ rfl)⟩
    · exact ⟨rfl, distinct_nil⟩
    · cases v with
      | map below => exact ⟨reordered_refl below, distinct_map.mp (hdistinct _ rfl)⟩
      | _ => exact ⟨rfl, distinct_nil⟩

/-- **The order of keys does not show.** Maps that differ in it only define the same places, and what they define
    there differs in it only. -/
theorem Reordered.lookup? (hm : Distinct m) (h : Reordered m n) (place : List String) :
    Option.Rel Raw.Reordered (m.lookup? place) (n.lookup? place) := by
  induction place generalizing m n with
  | nil => exact .some (by rw [Raw.Reordered]; exact h)
  | cons key place ih =>
    by_cases hplace : place = []
    · subst hplace
      rw [RawMap.lookup?, RawMap.lookup?]
      have hkey := h.get? hm key
      generalize m.get? key = x, n.get? key = y at hkey
      cases hkey with
      | none => exact .none
      | some hvw => exact hvw.defined?
    · rw [lookup?_cons hplace, lookup?_cons hplace]
      obtain ⟨hbelow, hdistinct⟩ := h.submap hm key
      exact ih hdistinct hbelow

/-! ## The laws -/

theorem lookup?_setAt_self (m : RawMap) (h : place ≠ []) (hv : v.defined? = some v) :
    (m.setAt place v).lookup? place = some v := by
  induction place generalizing m with
  | nil => exact absurd rfl h
  | cons key place ih =>
    by_cases hplace : place = []
    · subst hplace
      rw [setAt_singleton, lookup?, get?_insert_self, Option.bind_some, hv]
    · rw [lookup?_cons hplace, setAt_cons hplace, submap_insert_map]
      exact ih _ hplace

theorem exists_map_above (m : RawMap) (front : List String) {rest : List String} (h : rest ≠ []) (v : Raw) :
    ∃ below, (m.setAt (front ++ rest) v).lookup? front = some (.map below) := by
  induction front generalizing m with
  | nil => exact ⟨_, lookup?_nil _⟩
  | cons key front ih =>
    have hne : front ++ rest ≠ [] := List.append_ne_nil_of_right_ne_nil _ h
    rw [List.cons_append, setAt_cons hne]
    by_cases hfront : front = []
    · subst hfront
      rw [lookup?, get?_insert_self]
      exact ⟨_, rfl⟩
    · rw [lookup?_cons hfront, submap_insert_map]
      exact ih _

theorem apart_of_cons {front back : List String} (h : ¬ key :: front <+: key :: back) : ¬ front <+: back :=
  fun hpre => h ((List.prefix_cons_inj key).mpr hpre)

theorem lookup?_setAt_apart (m : RawMap) {other : List String} (h : ¬ place <+: other) (h' : ¬ other <+: place)
    (v : Raw) : (m.setAt place v).lookup? other = m.lookup? other := by
  induction place generalizing m other with
  | nil => exact absurd List.nil_prefix h
  | cons key place ih =>
    cases other with
    | nil => exact absurd List.nil_prefix h'
    | cons key' other =>
      by_cases hkey : key = key'
      · subst hkey
        have hapart := apart_of_cons h
        have hapart' := apart_of_cons h'
        have hplace : place ≠ [] := fun hnil => hapart (hnil ▸ List.nil_prefix)
        have hother : other ≠ [] := fun hnil => hapart' (hnil ▸ List.nil_prefix)
        rw [lookup?_cons hother, setAt_cons hplace, submap_insert_map, ih _ hapart hapart', lookup?_cons hother]
      · obtain ⟨u, hset, _⟩ := exists_setAt_cons m key place v
        rw [hset]
        exact lookup?_congr (get?_insert_of_not_same (not_same_of_ne hkey) m u) other

theorem setAt_setAt_self (m : RawMap) (place : List String) (v w : Raw) :
    (m.setAt place w).setAt place v = m.setAt place v := by
  induction place generalizing m with
  | nil => rfl
  | cons key place ih =>
    by_cases hplace : place = []
    · subst hplace
      rw [setAt_singleton, setAt_singleton, setAt_singleton, insert_insert_self]
    · rw [setAt_cons hplace, setAt_cons hplace, setAt_cons hplace, submap_insert_map, ih, insert_insert_self]

/-- Writes that stand apart may trade places. Where they part, each has a key of its own; above, both go on in the map
    under the key that they share. -/
theorem setAt_comm (m : RawMap) {other : List String} (h : ¬ place <+: other) (h' : ¬ other <+: place) (v w : Raw) :
    Reordered ((m.setAt place v).setAt other w) ((m.setAt other w).setAt place v) := by
  induction place generalizing m other with
  | nil => exact absurd List.nil_prefix h
  | cons key place ih =>
    cases other with
    | nil => exact absurd List.nil_prefix h'
    | cons key' other =>
      by_cases hkey : key = key'
      · subst hkey
        have hapart := apart_of_cons h
        have hapart' := apart_of_cons h'
        have hplace : place ≠ [] := fun hnil => hapart (hnil ▸ List.nil_prefix)
        have hother : other ≠ [] := fun hnil => hapart' (hnil ▸ List.nil_prefix)
        rw [setAt_cons hplace, setAt_cons hother, setAt_cons hother, setAt_cons hplace, submap_insert_map,
          submap_insert_map, insert_insert_self, insert_insert_self]
        have hbelow := ih (m.submap key) hapart hapart'
        exact reordered_insert m key (by rw [Raw.Reordered]; exact hbelow)
      · obtain ⟨u, hset, hset'⟩ := exists_setAt_cons m key place v
        obtain ⟨x, hother, hother'⟩ := exists_setAt_cons m key' other w
        rw [hset, hother, hother' key u (Ne.symm hkey), hset' key' x hkey]
        exact reordered_of_perm (insert_comm_perm (not_same_of_ne hkey) m u x)

/-- **Writing to a raw map obeys the laws of a lens.** Let a value that is neither absent nor a tombstone be written at
    a path. It is defined there then, and what is defined at paths apart from it is what was defined before; on the way
    to it stand maps, whatever stood there. A second write at the path absorbs the first, and a write apart from it may
    as well come before it, up to the order of keys. -/
theorem writes_obey_the_lens_laws (m : RawMap) (p : Path) (hnull : v ≠ .null) (hunset : v ≠ .unset) :
    (m.setAt p.segments v).lookup? p.segments = some v ∧
      (∀ q : Path, p.covers q = false → q.covers p = false →
        (m.setAt p.segments v).lookup? q.segments = m.lookup? q.segments) ∧
      (∀ front rest, p.segments = front ++ rest → rest ≠ [] →
        ∃ below, (m.setAt p.segments v).lookup? front = some (.map below)) ∧
      (∀ w, (m.setAt p.segments w).setAt p.segments v = m.setAt p.segments v) ∧
      ∀ (q : Path) w, p.covers q = false → q.covers p = false →
        Reordered ((m.setAt p.segments v).setAt q.segments w) ((m.setAt q.segments w).setAt p.segments v) := by
  have hapart {p q : Path} (h : p.covers q = false) : ¬ p.segments <+: q.segments := by
    rw [← List.isPrefixOf_iff_prefix]
    exact Bool.eq_false_iff.mp h
  have hdefined : v.defined? = some v := by
    cases v with
    | null => exact absurd rfl hnull
    | unset => exact absurd rfl hunset
    | _ => rfl
  refine ⟨lookup?_setAt_self m p.nonempty hdefined, ?_, ?_, fun w => setAt_setAt_self m p.segments v w, ?_⟩
  · intro q h h'
    exact lookup?_setAt_apart m (hapart h) (hapart h') v
  · intro front rest hsplit hrest
    rw [hsplit]
    exact exists_map_above m front hrest v
  · intro q w h h'
    exact setAt_comm m (hapart h) (hapart h') v w

/-- A scalar and a tombstone on the way to two paths that part beneath them: either write makes way for the other. -/
theorem entangled_writes_obey_the_lens_laws :
    let m : RawMap := [(.text "x", .scalar (.int 1)), (.int 3, .null), (.text "y", .map [(.text "z", .unset)])]
    let p : Path := ⟨["y", "z", "a"], by decide, by decide⟩
    let q : Path := ⟨["y", "z", "b"], by decide, by decide⟩
    let v : Raw := .scalar (.int 2)
    m.lookup? q.segments = none ∧ (m.setAt p.segments v).lookup? p.segments = some v ∧
      (m.setAt p.segments v).lookup? q.segments = none ∧
      (m.setAt p.segments v).setAt q.segments .unset ≠ (m.setAt q.segments .unset).setAt p.segments v ∧
      Reordered ((m.setAt p.segments v).setAt q.segments .unset) ((m.setAt q.segments .unset).setAt p.segments v) := by
  intro m p q v
  obtain ⟨hself, hapart, _, _, hcomm⟩ := writes_obey_the_lens_laws (v := v) m p nofun nofun
  refine ⟨rfl, hself, hapart q (by decide) (by decide), ?_, hcomm q .unset (by decide) (by decide)⟩
  -- the key of the write that came first stands first
  have hfirst : (m.setAt p.segments v).setAt q.segments .unset = [(.text "x", .scalar (.int 1)), (.int 3, .null),
      (.text "y", .map [(.text "z", .map [(.text "a", v), (.text "b", .unset)])])] := rfl
  have hsecond : (m.setAt q.segments .unset).setAt p.segments v = [(.text "x", .scalar (.int 1)), (.int 3, .null),
      (.text "y", .map [(.text "z", .map [(.text "b", .unset), (.text "a", v)])])] := rfl
  rw [hfirst, hsecond]
  simp

end RawMap

/-! ## Trees in raw form -/

theorem Tree.lookup?_cons {place : List String} (h : place ≠ []) (t : Tree) (key : String) :
    t.lookup? (key :: place) = (t.subtree key).lookup? place := by
  obtain ⟨next, rest, rfl⟩ := List.exists_cons_of_ne_nil h
  have hnothing : Tree.find? [] (next :: rest) = none := by cases rest <;> rfl
  have hfind : t.find? (key :: next :: rest) = (t.subtree key).find? (next :: rest) := by
    rw [find?, subtree]
    · split
      · rfl
      · exact hnothing.symm
    · exact List.cons_ne_nil _ _
  rw [lookup?, lookup?, hfind]

namespace RawMap

theorem submap_thawEntries (t : Tree) (key : String) :
    submap (Value.thawEntries t) key = Value.thawEntries (t.subtree key) := by
  rw [submap, Tree.get?_thawEntries, Tree.subtree]
  cases t.get? key with
  | none => rfl
  | some v => cases v <;> rfl

theorem lookup?_thawEntries (t : Tree) (place : List String) :
    lookup? (Value.thawEntries t) place = (t.lookup? place).map Value.thaw := by
  induction place generalizing t with
  | nil => rfl
  | cons key place ih =>
    by_cases h : place = []
    · subst h
      rw [lookup?, Tree.get?_thawEntries, Tree.lookup?, Tree.find?]
      cases t.get? key with
      | none => rfl
      | some v => cases v <;> rfl
    · rw [lookup?_cons h, submap_thawEntries, ih, ← Tree.lookup?_cons h]

end RawMap
end LayeredConfig
