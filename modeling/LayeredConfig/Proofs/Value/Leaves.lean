import LayeredConfig.Proofs.Tree.Leaves
import LayeredConfig.Proofs.Value.Clear
/-!
# Freezing keeps every leaf

The leaves of a raw map are what stands in it and is no map itself, each at the dotted path of its keys, in whichever
way dotted keys and maps in maps are mixed. They are the leaves of the outline of the map (`Raw.outline_leaves`), so
that the entries of the tree that a map freezes to are its leaves, each frozen, up to their order, and maps in which
two leaves have one path or one beneath the other's do not freeze (`freezing_keeps_every_leaf`). Why a value does not
freeze is a failure of the configuration, unless a whole number is too long to be written in a message
(`freeze_error`).
-/
namespace LayeredConfig

/-! ## The leaves of raw values -/

mutual

/-- The leaves of a raw value, each with the keys behind which it stands. -/
def Raw.leaves : Raw → List (List Key × Raw)
  | .map entries => RawMap.leaves entries
  | v => [([], v)]

def RawMap.leaves : List (Key × Raw) → List (List Key × Raw)
  | [] => []
  | (k, v) :: rest => v.leaves.map (fun l => (k :: l.1, l.2)) ++ RawMap.leaves rest

end

/-- The dotted path of what stands behind keys. -/
def dottedPath (keys : List Key) : String := joinDots (keys.map Key.plain)

/-- A leaf in frozen form, at its dotted path. -/
def frozenLeaf (l : List Key × Raw) : Outcome (String × Value) :=
  (freeze (dottedPath l.1) l.2).map fun v => (dottedPath l.1, v)

/-- Whether neither of two paths is the other or lies beneath it. -/
def Apart (p q : String) : Prop := p ≠ q ∧ (∀ rest, q ≠ p ++ "." ++ rest) ∧ ∀ rest, p ≠ q ++ "." ++ rest

mutual

/-- The leaves of a raw value are the leaves that its outline gives. -/
theorem Raw.outline_leaves : (v : Raw) →
    v.outline.leaves = ↑(v.leaves.map fun l => (l.1.flatMap Key.parts, l.2))
  | .map entries => by
    rw [Raw.outline_map, Raw.leaves]
    exact RawMap.outline_leaves entries
  | .null | .unset | .scalar _ | .list _ | .option _ | .foreign _ => by
    rw [Raw.outline_of_isLeaf rfl]
    rfl

theorem RawMap.outline_leaves : (m : List (Key × Raw)) →
    (RawMap.outline m).leaves = ↑((RawMap.leaves m).map fun l => (l.1.flatMap Key.parts, l.2))
  | [] => by
    rw [RawMap.outline_nil]
    rfl
  | (k, v) :: rest => by
    rw [RawMap.outline_cons, Outline.add_leaves, RawMap.outline_leaves rest, RawMap.leaves, List.map_append,
      List.map_map, ← Multiset.coe_add, Outline.under]
    dsimp only
    rw [Raw.outline_leaves v, Multiset.map_coe, List.map_map]
    rfl

end

/-! ## Their paths -/

theorem joinDots_flatMap_dottedPieces (texts : List String) :
    joinDots (texts.flatMap dottedPieces) = joinDots texts := by
  induction texts with
  | nil => rfl
  | cons s rest ih =>
    rw [List.flatMap_cons]
    cases rest with
    | nil => rw [List.flatMap_nil, List.append_nil, joinDots_dottedPieces, joinDots_singleton]
    | cons next more =>
      have hne : (next :: more).flatMap dottedPieces ≠ [] := by simp [dottedPieces_ne_nil]
      rw [joinDots_append (dottedPieces_ne_nil s) hne, ih, joinDots_dottedPieces,
        joinDots_cons s (List.cons_ne_nil next more)]

theorem exists_place_of_names {keys : List Key} (h : ∀ k ∈ keys.flatMap Key.parts, k.IsName) :
    ∃ place : List String, keys.flatMap Key.parts = place.map Key.text ∧ joinDots place = dottedPath keys := by
  have htexts : ∃ texts : List String, keys = texts.map Key.text := by
    induction keys with
    | nil => exact ⟨[], rfl⟩
    | cons k rest ih =>
      rw [List.flatMap_cons, List.forall_mem_append] at h
      obtain ⟨texts, rfl⟩ := ih h.2
      cases k with
      | text s => exact ⟨s :: texts, rfl⟩
      | _ =>
        obtain ⟨s, hs, _⟩ := h.1 _ List.mem_cons_self
        cases hs
  obtain ⟨texts, rfl⟩ := htexts
  refine ⟨texts.flatMap dottedPieces, ?_, ?_⟩
  · rw [List.flatMap_map, List.map_flatMap]
    rfl
  · rw [joinDots_flatMap_dottedPieces, dottedPath, List.map_map]
    congr 1
    exact (List.map_id texts).symm

/-! ## What becomes of them -/

variable {label : Key} {m : RawMap} {t : Tree}

/-- Whether a leaf of a raw map stands at a place of a tree, in frozen form. -/
structure FrozenAt (t : Tree) (l : List Key × Raw) (place : List String) (x : Value) : Prop where
  parts : l.1.flatMap Key.parts = place.map Key.text
  path : dottedPath l.1 = joinDots place
  pieces : dottedPieces (joinDots place) = place
  found : t.find? place = some x
  isLeaf : x.isLeaf
  frozen : frozenLeaf l = .ok (joinDots place, x)

/-- A leaf of a map stands in frozen form at its path in the tree that the map freezes to. -/
theorem exists_frozenAt (hm : m.Distinct) (h : freeze label (.map m) = .ok (.map t)) {l : List Key × Raw}
    (hl : l ∈ RawMap.leaves m) : ∃ place x, FrozenAt t l place x := by
  have hd : (Raw.map m).Distinct := RawMap.distinct_map.mpr hm
  have hfrozen : t.Frozen := Tree.frozen_map.mp (freeze_frozen _ hd h)
  have hclear := clear_of_freeze (.map m) hd h
  have hstands := stands_of_freeze (.map m) hd h
  rw [Raw.outline_map] at hclear hstands
  have hmem : (l.1.flatMap Key.parts, l.2) ∈ m.outline.leaves := by
    rw [RawMap.outline_leaves, Multiset.mem_coe]
    exact List.mem_map.mpr ⟨l, hl, rfl⟩
  obtain ⟨place, hplace, hpath⟩ := exists_place_of_names (hclear.names _ hmem)
  obtain ⟨other, x, hx⟩ := hclear.freezes _ hmem
  rw [hplace] at hmem
  obtain ⟨hfound, hleaf⟩ := (hstands.leaf place x).mpr ⟨l.2, hmem, other, hx⟩
  rw [Value.find?_map] at hfound
  have hne : place ≠ [] := fun hnil => Tree.find?_nil_ne hleaf t (hnil ▸ hfound)
  have hpieces := dottedPieces_place hne (hfrozen.of_find? hfound).2
  refine ⟨place, x, hplace, hpath.symm, hpieces, hfound, hleaf, ?_⟩
  rw [frozenLeaf, freeze_relabel l.2 (dottedPath l.1) hx, hpath]
  rfl

theorem exists_leaf_of_find? (hm : m.Distinct) (h : freeze label (.map m) = .ok (.map t)) {place : List String}
    {x : Value} (hx : t.find? place = some x) (hleaf : x.isLeaf) : ∃ l ∈ RawMap.leaves m, FrozenAt t l place x := by
  have hstands := stands_of_freeze (.map m) (RawMap.distinct_map.mpr hm) h
  rw [Raw.outline_map] at hstands
  obtain ⟨u, hu, _⟩ := (hstands.leaf place x).mp ⟨by rwa [Value.find?_map], hleaf⟩
  rw [RawMap.outline_leaves, Multiset.mem_coe] at hu
  obtain ⟨l, hl, heq⟩ := List.mem_map.mp hu
  obtain ⟨other, y, hat⟩ := exists_frozenAt hm h hl
  obtain rfl : other = place := Key.map_text_inj.mp (hat.parts.symm.trans (Prod.mk.inj heq).1)
  obtain rfl : y = x := Option.some.inj (hat.found.symm.trans hx)
  exact ⟨l, hl, hat⟩

theorem not_beneath_leaf {p q : String} {x y : Value} (hx : t.find? (dottedPieces p) = some x) (hleaf : x.isLeaf)
    (hy : t.find? (dottedPieces q) = some y) (rest : String) : q ≠ p ++ "." ++ rest := by
  rintro rfl
  rw [dottedPieces_append, Tree.find?_append, hx, Option.bind_some,
    Value.find?_of_isLeaf hleaf (dottedPieces_ne_nil rest)] at hy
  cases hy

/-- In a map that freezes no two leaves have one path, or one beneath the other's. -/
theorem leaves_apart (hm : m.Distinct) (h : freeze label (.map m) = .ok (.map t)) :
    (RawMap.leaves m).Pairwise fun a b => Apart (dottedPath a.1) (dottedPath b.1) := by
  have hnodup : ((RawMap.leaves m).map fun l => l.1.flatMap Key.parts).Nodup := by
    have houtline := (clear_of_freeze (.map m) (RawMap.distinct_map.mpr hm) h).nodup
    rw [Raw.outline_map, RawMap.outline_leaves, Multiset.map_coe, List.map_map, Multiset.coe_nodup] at houtline
    exact houtline
  refine (List.pairwise_map.mp hnodup).imp_of_mem ?_
  intro a b ha hb hne
  obtain ⟨p, x, hp⟩ := exists_frozenAt hm h ha
  obtain ⟨q, y, hq⟩ := exists_frozenAt hm h hb
  have hx : t.find? (dottedPieces (joinDots p)) = some x := hp.pieces.symm ▸ hp.found
  have hy : t.find? (dottedPieces (joinDots q)) = some y := hq.pieces.symm ▸ hq.found
  rw [hp.path, hq.path]
  refine ⟨?_, not_beneath_leaf hx hp.isLeaf hy, not_beneath_leaf hy hq.isLeaf hx⟩
  intro heq
  apply hne
  rw [hp.parts, hq.parts, ← hp.pieces, ← hq.pieces, heq]

theorem frozenLeaves_nodup (hm : m.Distinct) (h : freeze label (.map m) = .ok (.map t)) :
    ((RawMap.leaves m).map frozenLeaf).Nodup := by
  refine List.pairwise_map.mpr ((leaves_apart hm h).imp_of_mem ?_)
  intro a b ha hb hapart heq
  obtain ⟨p, x, hp⟩ := exists_frozenAt hm h ha
  obtain ⟨q, y, hq⟩ := exists_frozenAt hm h hb
  rw [hp.frozen, hq.frozen] at heq
  exact hapart.1 (by rw [hp.path, hq.path, (Prod.mk.inj (Except.ok.inj heq)).1])

theorem frozenLeaves_perm (hm : m.Distinct) (h : freeze label (.map m) = .ok (.map t)) :
    ((RawMap.leaves m).map frozenLeaf).Perm (t.flatten.map .ok) := by
  have hfrozen : t.Frozen := Tree.frozen_map.mp (freeze_frozen _ (RawMap.distinct_map.mpr hm) h)
  have hlisted : (t.flatten.map Except.ok : List (Outcome (String × Value))).Nodup :=
    (List.Nodup.of_map _ (Tree.flatten_nodup hfrozen)).map fun _ _ => Except.ok.inj
  rw [List.perm_ext_iff_of_nodup (frozenLeaves_nodup hm h) hlisted]
  intro e
  rw [List.mem_map, List.mem_map]
  constructor
  · intro hmem
    obtain ⟨l, hl, rfl⟩ := hmem
    obtain ⟨place, x, hat⟩ := exists_frozenAt hm h hl
    refine ⟨(joinDots place, x), (Tree.mem_flatten_iff hfrozen).mpr ⟨?_, hat.isLeaf⟩, hat.frozen.symm⟩
    rw [hat.pieces]
    exact hat.found
  · intro hmem
    obtain ⟨⟨path, x⟩, hentry, rfl⟩ := hmem
    obtain ⟨hx, hleaf⟩ := (Tree.mem_flatten_iff hfrozen).mp hentry
    obtain ⟨l, hl, hat⟩ := exists_leaf_of_find? hm h hx hleaf
    refine ⟨l, hl, ?_⟩
    rw [hat.frozen, joinDots_dottedPieces]

/-! ## Why a value does not freeze -/

mutual

/-- Whether a whole number that is too long to be written stands somewhere in a raw value. -/
def Raw.HasLong : Raw → Prop
  | .scalar (.int n) => Nat.pow 10 Failure.maxDigits ≤ n.natAbs
  | .list items => Raw.ItemsHaveLong items
  | .map entries => RawMap.HasLong entries
  | _ => False

def Raw.ItemsHaveLong : List Raw → Prop
  | [] => False
  | v :: rest => v.HasLong ∨ Raw.ItemsHaveLong rest

def RawMap.HasLong : List (Key × Raw) → Prop
  | [] => False
  | (_, v) :: rest => v.HasLong ∨ RawMap.HasLong rest

end

/-- A number that is too long to be written does not fit in 64 bits by far. -/
theorem Failure.pow_maxDigits_ge : 10 ^ 19 ≤ Nat.pow 10 maxDigits := by
  have hpow : ∀ digits, 19 ≤ digits → 10 ^ 19 ≤ Nat.pow 10 digits := fun _ h => Nat.pow_le_pow_right (by omega) h
  apply hpow
  rw [maxDigits]
  omega

theorem Raw.hasLong_of_mem_items {items : List Raw} {v : Raw} (hv : v ∈ items) (h : v.HasLong) :
    Raw.ItemsHaveLong items := by
  induction items with
  | nil => cases hv
  | cons w rest ih =>
    rw [Raw.ItemsHaveLong]
    rcases List.mem_cons.mp hv with rfl | hv
    · exact .inl h
    · exact .inr (ih hv)

mutual

theorem Raw.hasLong_iff : (v : Raw) → (v.HasLong ↔ ∃ l ∈ v.outline.leaves, l.2.HasLong)
  | .map entries => by
    rw [Raw.HasLong, Raw.outline_map]
    exact RawMap.hasLong_iff entries
  | .null | .unset | .scalar _ | .list _ | .option _ | .foreign _ => by
    rw [Raw.outline_of_isLeaf rfl]
    simp [Outline.leaf]

theorem RawMap.hasLong_iff : (m : List (Key × Raw)) →
    (RawMap.HasLong m ↔ ∃ l ∈ (RawMap.outline m).leaves, l.2.HasLong)
  | [] => by simp [RawMap.HasLong, Outline.empty]
  | (k, v) :: rest => by
    rw [RawMap.HasLong, Raw.hasLong_iff v, RawMap.hasLong_iff rest, RawMap.outline_cons, Outline.add_leaves]
    simp [or_and_right, exists_or, Outline.under]

end

mutual

theorem combine_error {label : Key} {a : Raw} {f : Failure} : (b : Raw) → combine label a b = .error f →
    ∃ l, f = .givenTwice l
  | .map entries, h => by
    rw [combine.eq_def] at h
    simp only at h
    split at h
    · exact combineEntries_error entries (Outcome.map_eq_error_iff.mp h)
    · cases h
      exact ⟨label, rfl⟩
  | .null, h | .unset, h | .scalar _, h | .list _, h | .option _, h | .foreign _, h => by
    rw [combine.eq_def] at h
    cases h
    exact ⟨label, rfl⟩

theorem combineEntries_error {label : Key} {out : RawMap} {f : Failure} : (entries : RawMap) →
    combineEntries label out entries = .error f → ∃ l, f = .givenTwice l
  | [], h => by
    rw [combineEntries] at h
    cases h
  | (k, v) :: rest, h => by
    rw [combineEntries] at h
    split at h
    · exact combineEntries_error rest h
    · split at h
      · rename_i g hg
        cases h
        exact combine_error v hg
      · exact combineEntries_error rest h

end

theorem RawMap.addAllNested_error {label : Key} {f : Failure} (entries : RawMap) {out : RawMap}
    (h : addAllNested label out entries = .error f) : ∃ l, f = .givenTwice l := by
  induction entries generalizing out with
  | nil =>
    rw [addAllNested] at h
    cases h
  | cons e rest ih =>
    rw [addAllNested] at h
    split at h
    · rename_i g hg
      cases h
      simp only [addNested] at hg
      split at hg
      · cases hg
      · exact combine_error _ (Outcome.map_eq_error_iff.mp hg)
    · exact ih h

theorem RawMap.nestDotted_error {label : Key} {m : RawMap} {f : Failure} (h : nestDotted label m = .error f) :
    ∃ l, f = .givenTwice l := by
  rw [nestDotted] at h
  split at h
  · exact addAllNested_error _ h
  · cases h

theorem freezeItems_error {label : Key} {i : Nat} {items : List Raw} {f : Failure}
    (h : freezeItems label i items = .error f) :
    (∃ j, f = .nullInList label j) ∨ ∃ v ∈ items, ∃ l, freeze l v = .error f := by
  induction items generalizing i with
  | nil =>
    rw [freezeItems] at h
    cases h
  | cons v rest ih =>
    rw [freezeItems] at h
    split at h
    · rename_i g hg
      cases h
      exact .inr ⟨v, List.mem_cons_self, _, hg⟩
    · cases h
      exact .inl ⟨i, rfl⟩
    · refine (ih (Outcome.map_eq_error_iff.mp h)).imp id ?_
      rintro ⟨w, hw, hfails⟩
      exact ⟨w, List.mem_cons_of_mem v hw, hfails⟩

theorem freezeEntries_error {label : Key} {entries : RawMap} {f : Failure}
    (h : freezeEntries label entries = .error f) :
    (∃ k, f = .badKey label k) ∨ ∃ e ∈ entries, ∃ l, freeze l e.2 = .error f := by
  induction entries with
  | nil =>
    rw [freezeEntries] at h
    cases h
  | cons e rest ih =>
    obtain ⟨k, v⟩ := e
    rw [freezeEntries.eq_def] at h
    simp only at h
    split at h
    · split at h
      · cases h
        exact .inl ⟨_, rfl⟩
      · split at h
        · rename_i g hg
          cases h
          exact .inr ⟨_, List.mem_cons_self, _, hg⟩
        · refine (ih (Outcome.map_eq_error_iff.mp h)).imp id ?_
          rintro ⟨d, hd, hfails⟩
          exact ⟨d, List.mem_cons_of_mem _ hd, hfails⟩
    · cases h
      exact .inl ⟨k, rfl⟩

/-- Whether a failure says what is wrong with a value that does not freeze. -/
def Failure.isOfFreezing : Failure → Bool
  | tooWide _ _ | nullInList _ _ | badKey _ _ | givenTwice _ | unsupported _ _ => true
  | _ => false

theorem Failure.isOfConfiguration_of_isOfFreezing {f : Failure} (h : f.isOfFreezing = true) :
    f.isOfConfiguration = true := by
  cases f <;> first | rfl | cases h

/-- A value that does not freeze is told what is wrong with it, or holds a number that is too long to say so. -/
theorem freeze_fails {label : Key} {f : Failure} : (v : Raw) → freeze label v = .error f →
    f.isOfFreezing = true ∨ f = .numberTooLong ∧ v.HasLong
  | .null, h | .unset, h => by
    rw [freeze] at h
    cases h
  | .scalar (.int n), h => by
    rw [freeze] at h
    split at h
    · cases h
    · obtain rfl : Failure.outOfRange label n = f := Except.error.inj h
      by_cases hlong : n.natAbs < Nat.pow 10 Failure.maxDigits
      · rw [Failure.outOfRange, if_pos hlong]
        exact .inl rfl
      · rw [Failure.outOfRange, if_neg hlong, Raw.HasLong]
        exact .inr ⟨rfl, not_lt.mp hlong⟩
  | .scalar (.bool _), h | .scalar (.double _), h | .scalar (.text _), h | .scalar (.duration _), h => by
    rw [freeze.eq_def] at h
    cases h
  | .list items, h => by
    rw [freeze] at h
    rcases freezeItems_error (Outcome.map_eq_error_iff.mp h) with ⟨j, rfl⟩ | ⟨v, hv, l, hfails⟩
    · exact .inl rfl
    · have hweight := Raw.weight_lt_of_mem_items hv
      refine (freeze_fails v hfails).imp id (And.imp id fun hlong => ?_)
      rw [Raw.HasLong]
      exact Raw.hasLong_of_mem_items hv hlong
  | .map m, h => by
    rw [freeze.eq_def] at h
    simp only at h
    split at h
    · rename_i g hg
      cases h
      obtain ⟨l, rfl⟩ := RawMap.nestDotted_error hg
      exact .inl rfl
    · rename_i r hr
      rcases freezeEntries_error (Outcome.map_eq_error_iff.mp h) with ⟨k, rfl⟩ | ⟨e, he, l, hfails⟩
      · exact .inl rfl
      · replace he := (sortOrdered_perm r).mem_iff.mp he
        have hweight := RawMap.weight_lt_of_nestDotted hr he
        refine (freeze_fails e.2 hfails).imp id (And.imp id fun hlong => ?_)
        -- nesting dotted keys moves leaves and makes none
        obtain ⟨leaf, hleaf, hlong⟩ := (Raw.hasLong_iff e.2).mp hlong
        rw [Raw.HasLong, RawMap.hasLong_iff, ← RawMap.outline_nestDotted hr]
        exact ⟨_, RawMap.mem_leaves_iff.mpr ⟨e, he, Outline.mem_under_of_mem hleaf⟩, hlong⟩
  | .option _, h | .foreign _, h => by
    rw [freeze] at h
    cases h
    exact .inl rfl
termination_by v => v.weight

/-- A value that does not freeze is wrong as configuration, or holds a number that is too long to say so. -/
theorem freeze_error {label : Key} {f : Failure} (v : Raw) (h : freeze label v = .error f) :
    f.isOfConfiguration = true ∨ f = .numberTooLong ∧ v.HasLong :=
  (freeze_fails v h).imp Failure.isOfConfiguration_of_isOfFreezing id

theorem freeze_long {n : Int} (h : Nat.pow 10 Failure.maxDigits ≤ n.natAbs) (label : Key) :
    freeze label (.scalar (.int n)) = .error .numberTooLong := by
  have hmany := Failure.pow_maxDigits_ge
  have hfits : ¬ (Scalar.int n).fits = true := by
    rw [Scalar.fits, Bool.and_eq_true, decide_eq_true_eq, decide_eq_true_eq]
    generalize Nat.pow 10 Failure.maxDigits = bound at h hmany
    omega
  rw [freeze, if_neg hfits, Failure.outOfRange, if_neg (not_lt.mpr h)]

/-! ## The leaves of a map are the entries of its tree -/

/-- **Freezing keeps every leaf.** The entries of the tree that a map freezes to are, up to their order, the leaves of
    the map, each at the path of its keys and in frozen form, an absent value as a tombstone; and freezing a map gives
    nothing but a tree. A map in which two leaves have one path, or one beneath the other's, does not freeze; why it
    does not is a failure of the configuration, or else the map holds a whole number that is too long to be
    written. -/
theorem freezing_keeps_every_leaf (hm : m.Distinct) (label : Key) :
    (∀ w, freeze label (.map m) = .ok w →
        ∃ t : Tree, w = .map t ∧ ((RawMap.leaves m).map frozenLeaf).Perm (t.flatten.map .ok)) ∧
      (¬ (RawMap.leaves m).Pairwise (fun a b => Apart (dottedPath a.1) (dottedPath b.1)) →
        ∃ f, freeze label (.map m) = .error f ∧
          (f.isOfConfiguration = true ∨ f = .numberTooLong ∧ RawMap.HasLong m)) := by
  constructor
  · intro w hw
    obtain ⟨_, t, _, _, rfl⟩ := freeze_map_eq_ok_iff.mp hw
    exact ⟨t, rfl, frozenLeaves_perm hm hw⟩
  · intro hmeet
    cases h : freeze label (.map m) with
    | error f =>
      refine ⟨f, rfl, ?_⟩
      have hwhy := freeze_error (.map m) h
      rwa [Raw.HasLong] at hwhy
    | ok w =>
      obtain ⟨_, t, _, _, rfl⟩ := freeze_map_eq_ok_iff.mp h
      exact absurd (leaves_apart hm h) hmeet

/-- A dotted key and a map with an absent value keep their leaves; a dotted key and a map that give one path do not
    freeze. -/
theorem mixed_spellings_keep_their_leaves :
    let m : RawMap := [(.text "a.b", .scalar (.int 1)), (.text "a", .map [(.text "c", .null)])]
    let twice : RawMap := [(.text "a.b", .scalar (.int 1)), (.text "a", .map [(.text "b", .scalar (.int 2))])]
    (∃ t : Tree, freeze "<value>" (.map m) = .ok (.map t) ∧
        ([.ok ("a.b", .scalar (.int 1)), .ok ("a.c", .unset)] : List (Outcome _)).Perm (t.flatten.map .ok)) ∧
      ∃ f, freeze "<value>" (.map twice) = .error f ∧ f.isOfConfiguration = true := by
  intro m twice
  have hm : m.Distinct := by simp [m, RawMap.Distinct, Raw.Distinct, Key.same]
  have htwice : twice.Distinct := by simp [twice, RawMap.Distinct, Raw.Distinct, Key.same]
  constructor
  · have hfreeze : freeze "<value>" (.map m) =
        .ok (.map [("a", .map [("b", .scalar (.int 1)), ("c", .unset)])]) := by
      rw [freeze_map_eq_ok_iff]
      refine ⟨[(.text "a", .map [(.text "c", .null), (.text "b", .scalar (.int 1))])], _, rfl, ?_, rfl⟩
      rw [freezeEntries_eq_ok_iff]
      refine .cons ⟨rfl, by decide, ?_⟩ .nil
      rw [freeze_map_eq_ok_iff]
      refine ⟨[(.text "c", .null), (.text "b", .scalar (.int 1))], _, rfl, ?_, rfl⟩
      rw [freezeEntries_eq_ok_iff]
      refine .cons ⟨rfl, by decide, ?_⟩ (.cons ⟨rfl, by decide, ?_⟩ .nil)
      · rw [freeze]
        rfl
      · rw [freeze]
    obtain ⟨t, ht, hperm⟩ := (freezing_keeps_every_leaf hm "<value>").1 _ hfreeze
    refine ⟨t, ht ▸ hfreeze, ?_⟩
    have hleaves : (RawMap.leaves m).map frozenLeaf =
        [.ok ("a.b", .scalar (.int 1)), .ok ("a.c", .unset)] := by
      show [frozenLeaf _, frozenLeaf _] = _
      rw [frozenLeaf, frozenLeaf, freeze, freeze]
      rfl
    rwa [hleaves] at hperm
  · have hmeet : ¬ (RawMap.leaves twice).Pairwise fun a b => Apart (dottedPath a.1) (dottedPath b.1) := by
      intro h
      exact (List.rel_of_pairwise_cons h List.mem_cons_self).1 rfl
    obtain ⟨f, hf, hwhy⟩ := (freezing_keeps_every_leaf htwice "<value>").2 hmeet
    refine ⟨f, hf, hwhy.resolve_right fun hlong => ?_⟩
    have hmany := Failure.pow_maxDigits_ge
    simp only [twice, RawMap.HasLong, Raw.HasLong, or_false] at hlong
    generalize Nat.pow 10 Failure.maxDigits = bound at hlong hmany
    omega

/-- A number that is too long, met before a path that is given twice, is a failure, and none of the configuration. -/
theorem long_number_beside_a_collision_is_no_failure_of_configuration :
    let m : RawMap := [(.text "a", .scalar (.int (Int.ofNat (Nat.pow 10 Failure.maxDigits)))),
      (.text "b", .map [(.text "c.d", .scalar (.int 1)), (.text "c", .map [(.text "d", .scalar (.int 2))])])]
    m.Distinct ∧ ¬ (RawMap.leaves m).Pairwise (fun a b => Apart (dottedPath a.1) (dottedPath b.1)) ∧
      freeze "<value>" (.map m) = .error .numberTooLong ∧ Failure.isOfConfiguration .numberTooLong = false := by
  intro m
  -- said of any number, so that the power is not computed
  have hpow : ∀ bound, bound ≤ (Int.ofNat bound).natAbs := fun _ => le_rfl
  refine ⟨?_, ?_, ?_, rfl⟩
  · simp [m, RawMap.Distinct, Raw.Distinct, Key.same]
  · intro h
    obtain ⟨_, h⟩ := List.pairwise_cons.mp h
    exact (List.rel_of_pairwise_cons h List.mem_cons_self).1 rfl
  · have hsorted : m.sortedByText = m := rfl
    rw [freeze_map_of_nested rfl, hsorted, freezeEntries, if_neg (by decide), freeze_long (hpow _)]
    rfl

end LayeredConfig
