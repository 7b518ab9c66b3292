import LayeredConfig.Proofs.Value.Frozen
import LayeredConfig.Tree.Basic
/-!
# Places in a tree

What a tree holds at a place, before and after a write. A write is seen at its own place and beneath it, makes a
map of every place above it, and leaves the places apart from it alone (`find?_setAt_append`,
`find?_setAt_above`, `find?_setAt_apart`). `Decides` says that the walk along a place ends at something: at a
value that stands there, or at a leaf on the way.
-/
namespace LayeredConfig

namespace Value

/-- Whether a value is a leaf: a tombstone, a scalar or a list, anything but a map. -/
def isLeaf : Value → Bool
  | map _ => false
  | _ => true

/-- What stands at a place beneath a value; at the empty place stands the value itself. -/
def find? : Value → List String → Option Value
  | map t, place => Tree.find? t place
  | v, [] => some v
  | _, _ :: _ => none

@[simp] theorem isLeaf_map (t : Tree) : (map t).isLeaf = false := rfl

@[simp] theorem find?_nil (v : Value) : v.find? [] = some v := by
  cases v <;> rfl

@[simp] theorem find?_map (t : Tree) (place : List String) : (map t).find? place = t.find? place := by
  rw [find?]

theorem find?_of_isLeaf {v : Value} (h : v.isLeaf) {place : List String} (hp : place ≠ []) :
    v.find? place = none := by
  obtain ⟨key, rest, rfl⟩ := List.exists_cons_of_ne_nil hp
  cases v with
  | map t => simp at h
  | _ => rfl

theorem find?_eq_some_iff_of_isLeaf {v w : Value} (h : v.isLeaf) {place : List String} :
    v.find? place = some w ↔ place = [] ∧ v = w := by
  cases place with
  | nil => simp
  | cons key rest => simp [find?_of_isLeaf h (List.cons_ne_nil key rest)]

theorem map_ne_of_isLeaf {v : Value} (h : v.isLeaf) (t : Tree) : map t ≠ v := by
  intro heq
  rw [← heq] at h
  simp at h

theorem eq_map_of_not_isLeaf {v : Value} (h : ¬ v.isLeaf) : ∃ t : Tree, v = map t := by
  cases v with
  | map t => exact ⟨t, rfl⟩
  | _ => exact absurd rfl h

end Value

namespace Tree

/-! ## Keys -/

theorem get?_eq_none_iff {t : Tree} {key : String} : t.get? key = none ↔ ∀ e ∈ t, e.1 ≠ key := by
  induction t with
  | nil => simp [get?]
  | cons e rest ih =>
    obtain ⟨k, v⟩ := e
    by_cases hk : k = key
    · simp [get?, hk]
    · simp [get?, hk, ih]

theorem mem_of_get? {t : Tree} {key : String} {v : Value} (h : t.get? key = some v) : (key, v) ∈ t := by
  induction t with
  | nil => simp [get?] at h
  | cons e rest ih =>
    obtain ⟨k, w⟩ := e
    rw [get?] at h
    split at h
    · rename_i hk
      cases h
      rw [hk]
      exact List.mem_cons_self
    · exact List.mem_cons_of_mem _ (ih h)

theorem get?_tail_of_frozen {k : String} {v : Value} {rest : Tree} (h : Frozen ((k, v) :: rest)) :
    Tree.get? rest k = none := by
  rw [get?_eq_none_iff]
  intro e he
  exact (ne_of_lt ((frozen_cons.mp h).2.1 e he)).symm

theorem get?_of_mem {t : Tree} (h : t.Frozen) {key : String} {v : Value} (he : (key, v) ∈ t) :
    t.get? key = some v := by
  induction t with
  | nil => simp at he
  | cons e rest ih =>
    obtain ⟨k, w⟩ := e
    obtain ⟨hk, hlt, hw, hrest⟩ := frozen_cons.mp h
    rcases List.mem_cons.mp he with he | he
    · cases he
      simp [get?]
    · have hne : k ≠ key := ne_of_lt (hlt _ he)
      rw [get?, if_neg hne]
      exact ih hrest he

theorem Frozen.isKey_of_get? {t : Tree} (h : t.Frozen) {key : String} {v : Value} (hg : t.get? key = some v) :
    IsKey key :=
  h.isKey_of_mem (mem_of_get? hg)

theorem Frozen.of_get? {t : Tree} (h : t.Frozen) {key : String} {v : Value} (hg : t.get? key = some v) :
    v.Frozen :=
  h.value_of_mem (mem_of_get? hg)

theorem Frozen.erase {t : Tree} (h : t.Frozen) (key : String) : (t.erase key).Frozen :=
  h.sublist List.filter_sublist

theorem get?_erase_self (t : Tree) (key : String) : (t.erase key).get? key = none := by
  rw [get?_eq_none_iff]
  intro e he heq
  simp [Tree.erase, heq] at he

theorem get?_erase {t : Tree} {key other : String} (h : other ≠ key) : (t.erase key).get? other = t.get? other := by
  induction t with
  | nil => rfl
  | cons e rest ih =>
    obtain ⟨k, v⟩ := e
    by_cases hk : k = key
    · have hne : k ≠ other := fun hc => h (hc.symm.trans hk)
      simp only [Tree.erase] at ih
      simp [Tree.erase, hk, get?, ← ih, h.symm]
    · simp only [Tree.erase] at ih
      by_cases ho : k = other
      · simp [Tree.erase, get?, ho, h]
      · simp [Tree.erase, hk, get?, ho, ← ih]

theorem exists_get?_eq_none (t : Tree) : ∃ key, IsKey key ∧ t.get? key = none := by
  have hlong : ∃ n, ∀ e ∈ t, e.1.toList.length < n := by
    induction t with
    | nil => exact ⟨0, by simp⟩
    | cons e rest ih =>
      obtain ⟨n, hn⟩ := ih
      refine ⟨n + e.1.toList.length + 1, List.forall_mem_cons.mpr ⟨by omega, ?_⟩⟩
      intro d hd
      have hd := hn d hd
      omega
  obtain ⟨n, hn⟩ := hlong
  refine ⟨String.ofList (List.replicate (n + 1) 'x'), ⟨?_, ?_⟩, ?_⟩
  · intro hempty
    have hlist := congrArg String.toList hempty
    simp at hlist
  · rw [String.toList_ofList]
    intro hdot
    have hx := List.eq_of_mem_replicate hdot
    simp at hx
  · rw [get?_eq_none_iff]
    intro e he heq
    have hlen := hn e he
    rw [heq, String.toList_ofList, List.length_replicate] at hlen
    omega

/-! ## Inserting under a key -/

theorem get?_insert (t : Tree) (key other : String) (v : Value) :
    (t.insert key v).get? other = if key = other then some v else t.get? other := by
  induction t with
  | nil => simp [insert, get?]
  | cons e rest ih =>
    obtain ⟨k, w⟩ := e
    rw [insert]
    split
    · simp only [get?]
    · split
      · rename_i hk
        simp only [get?, hk]
        split <;> rfl
      · rename_i hk
        simp only [get?, ih]
        by_cases ho : k = other
        · simp [ho, show key ≠ other from fun hc => hk (ho.trans hc.symm)]
        · simp [ho]

theorem insert_of_lt {t : Tree} {key : String} (h : ∀ e ∈ t, e.1 < key) (v : Value) :
    t.insert key v = t ++ [(key, v)] := by
  induction t with
  | nil => rfl
  | cons e rest ih =>
    obtain ⟨k, w⟩ := e
    obtain ⟨hk, hrest⟩ := List.forall_mem_cons.mp h
    rw [insert, if_neg (lt_asymm hk), if_neg (ne_of_lt hk), ih hrest, List.cons_append]

theorem mem_insert {t : Tree} {key : String} {v : Value} {e : String × Value} (h : e ∈ t.insert key v) :
    e = (key, v) ∨ e ∈ t := by
  induction t with
  | nil => simpa [insert] using h
  | cons d rest ih =>
    obtain ⟨k, w⟩ := d
    rw [insert] at h
    split at h
    · exact List.mem_cons.mp h
    · split at h
      · rcases List.mem_cons.mp h with h | h
        · exact .inl h
        · exact .inr (List.mem_cons_of_mem _ h)
      · rcases List.mem_cons.mp h with h | h
        · exact .inr (h ▸ List.mem_cons_self)
        · exact (ih h).imp id (List.mem_cons_of_mem _)

theorem Frozen.insert {t : Tree} (h : t.Frozen) {key : String} {v : Value} (hk : IsKey key) (hv : v.Frozen) :
    (t.insert key v).Frozen := by
  induction t with
  | nil => exact frozen_cons.mpr ⟨hk, by simp, hv, frozen_nil⟩
  | cons e rest ih =>
    obtain ⟨k, w⟩ := e
    obtain ⟨hkey, hlt, hw, hrest⟩ := frozen_cons.mp h
    rw [Tree.insert]
    split
    · rename_i hbefore
      refine frozen_cons.mpr ⟨hk, ?_, hv, h⟩
      intro d hd
      rcases List.mem_cons.mp hd with hd | hd
      · exact hd ▸ hbefore
      · exact lt_trans hbefore (hlt d hd)
    · split
      · rename_i hsame
        exact frozen_cons.mpr ⟨hk, hsame ▸ hlt, hv, hrest⟩
      · rename_i hnot hne
        refine frozen_cons.mpr ⟨hkey, ?_, hw, ih hrest⟩
        intro d hd
        rcases mem_insert hd with hd | hd
        · exact hd ▸ lt_of_le_of_ne (not_lt.mp hnot) hne
        · exact hlt d hd

/-! ## Walking along a place -/

@[simp] theorem find?_nil (t : Tree) : t.find? [] = some (.map t) := rfl

theorem find?_nil_ne {v : Value} (hv : v.isLeaf) (t : Tree) : t.find? [] ≠ some v := by
  intro h
  exact Value.map_ne_of_isLeaf hv t (Option.some.inj h)

theorem find?_cons (t : Tree) (key : String) (rest : List String) :
    t.find? (key :: rest) = (t.get? key).bind (·.find? rest) := by
  cases rest with
  | nil =>
    rw [find?]
    cases t.get? key <;> simp
  | cons next rest =>
    rw [find?]
    cases h : t.get? key with
    | none => rfl
    | some v => cases v <;> simp [Value.find?]
    exact List.cons_ne_nil _ _

theorem find?_erase {t : Tree} {key : String} {place : List String} (hne : place ≠ [])
    (h : place.head? ≠ some key) : (t.erase key).find? place = t.find? place := by
  obtain ⟨k, rest, rfl⟩ := List.exists_cons_of_ne_nil hne
  rw [find?_cons, find?_cons, get?_erase fun hk => h (by rw [List.head?_cons, hk])]

theorem find?_append (t : Tree) (front rest : List String) :
    t.find? (front ++ rest) = (t.find? front).bind (·.find? rest) := by
  induction front generalizing t with
  | nil => simp
  | cons key front ih =>
    rw [List.cons_append, find?_cons, find?_cons]
    cases t.get? key with
    | none => rfl
    | some v =>
      by_cases hv : v.isLeaf
      · cases front with
        | nil => simp
        | cons next front =>
          simp [Value.find?_of_isLeaf hv (List.cons_ne_nil next _)]
      · obtain ⟨below, rfl⟩ := Value.eq_map_of_not_isLeaf hv
        simpa using ih below

theorem exists_map_above {t : Tree} {place rest : List String} (hr : rest ≠ []) {v : Value}
    (h : t.find? (place ++ rest) = some v) : ∃ below, t.find? place = some (.map below) := by
  rw [find?_append] at h
  obtain ⟨w, hw, hrest⟩ := Option.bind_eq_some_iff.mp h
  by_cases hleaf : w.isLeaf
  · rw [Value.find?_of_isLeaf hleaf hr] at hrest
    cases hrest
  · obtain ⟨below, rfl⟩ := Value.eq_map_of_not_isLeaf hleaf
    exact ⟨below, hw⟩

theorem lookup?_of_find? {t : Tree} {place : List String} {v : Value} (h : t.find? place = some v) (hne : v ≠ .unset) :
    t.lookup? place = some v := by
  rw [lookup?, h]
  cases v with
  | unset => exact absurd rfl hne
  | _ => rfl

theorem Frozen.of_find? {t : Tree} (h : t.Frozen) {place : List String} {v : Value}
    (hf : t.find? place = some v) : v.Frozen ∧ ∀ key ∈ place, IsKey key := by
  induction place generalizing t with
  | nil =>
    rw [find?_nil] at hf
    cases hf
    exact ⟨frozen_map.mpr h, by simp⟩
  | cons key rest ih =>
    rw [find?_cons] at hf
    obtain ⟨w, hg, hw⟩ := Option.bind_eq_some_iff.mp hf
    have hkey := h.isKey_of_get? hg
    by_cases hl : w.isLeaf
    · cases rest with
      | nil =>
        rw [Value.find?_nil] at hw
        cases hw
        exact ⟨h.of_get? hg, by simpa using hkey⟩
      | cons next rest =>
        rw [Value.find?_of_isLeaf hl (List.cons_ne_nil _ _)] at hw
        cases hw
    · obtain ⟨below, rfl⟩ := Value.eq_map_of_not_isLeaf hl
      rw [Value.find?_map] at hw
      obtain ⟨hv, hkeys⟩ := ih (frozen_map.mp (h.of_get? hg)) hw
      exact ⟨hv, List.forall_mem_cons.mpr ⟨hkey, hkeys⟩⟩

/-- A tree decides a place when a value stands there, or when a leaf stands on the way to it. -/
def Decides (t : Tree) (place : List String) : Prop :=
  (∃ v, t.find? place = some v) ∨
    ∃ front rest v, place = front ++ rest ∧ rest ≠ [] ∧ t.find? front = some v ∧ v.isLeaf

theorem decides_of_find? {t : Tree} {place : List String} {v : Value} (h : t.find? place = some v) :
    t.Decides place :=
  .inl ⟨v, h⟩

theorem decides_beneath_leaf {t : Tree} {place : List String} {v : Value} (h : t.find? place = some v)
    (hv : v.isLeaf) (rest : List String) : t.Decides (place ++ rest) := by
  by_cases hr : rest = []
  · rw [hr, List.append_nil]
    exact decides_of_find? h
  · exact .inr ⟨place, rest, v, rfl, hr, h, hv⟩

theorem decides_nil (t : Tree) : t.Decides [] := decides_of_find? (find?_nil t)

/-- Whether a place is decided depends on what stands under its first key: a leaf decides it, a map passes the
question on. -/
theorem decides_cons {t : Tree} {key : String} {rest : List String} :
    t.Decides (key :: rest) ↔ ∃ v, t.get? key = some v ∧ ∀ below, v = .map below → Decides below rest := by
  constructor
  · intro h
    rcases h with ⟨v, hv⟩ | ⟨front, back, v, happ, hne, hv, hl⟩
    · rw [find?_cons] at hv
      obtain ⟨w, hg, hw⟩ := Option.bind_eq_some_iff.mp hv
      refine ⟨w, hg, ?_⟩
      intro below hbelow
      rw [hbelow, Value.find?_map] at hw
      exact decides_of_find? hw
    · cases front with
      | nil => exact absurd hv (find?_nil_ne hl t)
      | cons head front =>
        obtain ⟨rfl, rfl⟩ := List.cons.inj happ
        rw [find?_cons] at hv
        obtain ⟨w, hg, hw⟩ := Option.bind_eq_some_iff.mp hv
        refine ⟨w, hg, ?_⟩
        intro below hbelow
        rw [hbelow, Value.find?_map] at hw
        exact .inr ⟨front, back, v, rfl, hne, hw, hl⟩
  · intro h
    obtain ⟨v, hg, hbelow⟩ := h
    by_cases hl : v.isLeaf
    · have hone : t.find? [key] = some v := by simp [find?_cons, hg]
      exact decides_beneath_leaf hone hl rest
    · obtain ⟨below, rfl⟩ := Value.eq_map_of_not_isLeaf hl
      rcases hbelow below rfl with ⟨w, hw⟩ | ⟨front, back, w, rfl, hne, hw, hwl⟩
      · exact decides_of_find? (v := w) (by simp [find?_cons, hg, hw])
      · exact .inr ⟨key :: front, back, w, rfl, hne, by simp [find?_cons, hg, hw], hwl⟩

theorem decides_append {t below : Tree} {front : List String} (h : t.find? front = some (.map below))
    (rest : List String) : t.Decides (front ++ rest) ↔ below.Decides rest := by
  induction front generalizing t with
  | nil =>
    rw [find?_nil] at h
    cases h
    rfl
  | cons key front ih =>
    rw [find?_cons] at h
    obtain ⟨w, hg, hw⟩ := Option.bind_eq_some_iff.mp h
    have hmap : ¬ w.isLeaf := by
      intro hl
      obtain ⟨_, heq⟩ := (Value.find?_eq_some_iff_of_isLeaf hl).mp hw
      exact Value.map_ne_of_isLeaf hl below heq.symm
    obtain ⟨u, rfl⟩ := Value.eq_map_of_not_isLeaf hmap
    rw [Value.find?_map] at hw
    rw [List.cons_append, decides_cons, hg, ← ih hw]
    simp

/-! ## Writing at a place -/

theorem setAt_cons {t : Tree} {key : String} {rest : List String} (hr : rest ≠ []) (v : Value) :
    t.setAt (key :: rest) v = t.insert key (.map ((t.subtree key).setAt rest v)) := by
  cases rest with
  | nil => exact absurd rfl hr
  | cons next rest => rw [setAt]; exact List.cons_ne_nil _ _

@[simp] theorem setAt_singleton (t : Tree) (key : String) (v : Value) : t.setAt [key] v = t.insert key v := by
  rw [setAt]

theorem Frozen.subtree {t : Tree} (h : t.Frozen) (key : String) : (t.subtree key).Frozen := by
  rw [Tree.subtree]
  split
  · rename_i below hg
    exact frozen_map.mp (h.of_get? hg)
  · exact frozen_nil

theorem Frozen.setAt {t : Tree} (h : t.Frozen) {place : List String} (hk : ∀ key ∈ place, IsKey key) {v : Value}
    (hv : v.Frozen) : (t.setAt place v).Frozen := by
  induction place generalizing t with
  | nil => exact h
  | cons key rest ih =>
    obtain ⟨hkey, hrest⟩ := List.forall_mem_cons.mp hk
    by_cases hr : rest = []
    · subst hr
      rw [setAt_singleton]
      exact h.insert hkey hv
    · rw [setAt_cons hr]
      exact h.insert hkey (frozen_map.mpr (ih (h.subtree key) hrest))

/-- What is written at a place is found there, and what lies beneath it in the value lies beneath it now. -/
theorem find?_setAt_append (t : Tree) {place : List String} (hp : place ≠ []) (v : Value) (rest : List String) :
    (t.setAt place v).find? (place ++ rest) = v.find? rest := by
  induction place generalizing t with
  | nil => exact absurd rfl hp
  | cons key place ih =>
    by_cases hr : place = []
    · subst hr
      simp [find?_cons, get?_insert]
    · rw [List.cons_append, setAt_cons hr, find?_cons, get?_insert, if_pos rfl]
      simpa using ih (t.subtree key) hr

theorem find?_setAt_self (t : Tree) {place : List String} (hp : place ≠ []) (v : Value) :
    (t.setAt place v).find? place = some v := by
  simpa using find?_setAt_append t hp v []

theorem find?_setAt_above (t : Tree) (place : List String) {rest : List String} (hr : rest ≠ []) (v : Value) :
    ∃ below, (t.setAt (place ++ rest) v).find? place = some (.map below) := by
  induction place generalizing t with
  | nil => exact ⟨_, find?_nil _⟩
  | cons key place ih =>
    have hne : place ++ rest ≠ [] := List.append_ne_nil_of_right_ne_nil _ hr
    rw [List.cons_append, setAt_cons hne, find?_cons, get?_insert, if_pos rfl]
    simpa using ih (t.subtree key)

theorem find?_setAt_apart (t : Tree) {place other : List String} (h1 : ¬ place <+: other) (h2 : ¬ other <+: place)
    (v : Value) : (t.setAt place v).find? other = t.find? other := by
  induction place generalizing t other with
  | nil => exact absurd List.nil_prefix h1
  | cons key place ih =>
    cases other with
    | nil => exact absurd List.nil_prefix h2
    | cons key' other =>
      by_cases hk : key = key'
      · subst hk
        have h1' : ¬ place <+: other := fun hc => h1 (List.prefix_cons_inj key |>.mpr hc)
        have h2' : ¬ other <+: place := fun hc => h2 (List.prefix_cons_inj key |>.mpr hc)
        have hne : place ≠ [] := fun hc => h1' (hc ▸ List.nil_prefix)
        have hother : other ≠ [] := fun hc => h2' (hc ▸ List.nil_prefix)
        rw [setAt_cons hne, find?_cons, find?_cons, get?_insert, if_pos rfl, Option.bind_some, Value.find?_map,
          ih (t.subtree key) h1' h2', Tree.subtree]
        -- only a map under the key has anything beneath it, and it is what the write went on in
        split
        · rename_i below hg
          simp [hg]
        · rename_i hnot
          obtain ⟨next, other, rfl⟩ := List.exists_cons_of_ne_nil hother
          cases hg : t.get? key with
          | none => simp [find?_cons, get?]
          | some w =>
            have hl : w.isLeaf := by
              cases w with
              | map below => exact absurd hg (hnot below)
              | _ => rfl
            simp [find?_cons, get?, Value.find?_of_isLeaf hl (List.cons_ne_nil next other)]
      · by_cases hr : place = []
        · subst hr
          simp [find?_cons, get?_insert, hk]
        · simp [setAt_cons hr, find?_cons, get?_insert, hk]

/-- A leaf in a tree that was written to stands in what was written, or stood apart from it before. -/
theorem find?_setAt_leaf_iff {t : Tree} {place other : List String} (hp : place ≠ []) {v w : Value} (hw : w.isLeaf) :
    (t.setAt place v).find? other = some w ↔
      (∃ rest, other = place ++ rest ∧ v.find? rest = some w) ∨
        ¬ place <+: other ∧ ¬ other <+: place ∧ t.find? other = some w := by
  by_cases hbeneath : place <+: other
  · obtain ⟨rest, rfl⟩ := hbeneath
    rw [find?_setAt_append t hp]
    simp
  · have hnot : ¬ ∃ rest, other = place ++ rest ∧ v.find? rest = some w := by
      rintro ⟨rest, rfl, _⟩
      exact hbeneath (List.prefix_append place rest)
    rw [or_iff_right hnot]
    by_cases habove : other <+: place
    · obtain ⟨rest, rfl⟩ := habove
      have hr : rest ≠ [] := by
        rintro rfl
        rw [List.append_nil] at hbeneath
        exact hbeneath List.prefix_rfl
      obtain ⟨below, hbelow⟩ := find?_setAt_above t other hr v
      rw [hbelow, Option.some.injEq]
      exact iff_of_false (Value.map_ne_of_isLeaf hw below) fun h => h.2.1 (List.prefix_append other rest)
    · rw [find?_setAt_apart t hbeneath habove]
      simp [hbeneath, habove]

theorem get?_setAt_of_head_ne (t : Tree) {place : List String} (hp : place ≠ []) {key : String}
    (h : place.head? ≠ some key) (v : Value) : (t.setAt place v).get? key = t.get? key := by
  obtain ⟨head, rest, rfl⟩ := List.exists_cons_of_ne_nil hp
  have hne : head ≠ key := fun heq => h (by rw [List.head?_cons, heq])
  by_cases hr : rest = []
  · rw [hr, setAt_singleton, get?_insert, if_neg hne]
  · rw [setAt_cons hr, get?_insert, if_neg hne]

end Tree
end LayeredConfig
