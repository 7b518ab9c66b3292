import LayeredConfig.Proofs.Outcome
import LayeredConfig.Proofs.Value.Frozen
import LayeredConfig.Reference
/-!
# Dotted texts

Cutting a text at its dots and joining pieces with dots undo each other, as long as there are pieces and none of
them holds a dot (`dottedPieces_joinDots`, `joinDots_dottedPieces`). So a place whose keys hold no dots is known
by its dotted text, and a dotted text comes before the dotted texts of everything beneath it. A text spells a path when
it is joined from the segments of the path (`Path.parse_map_eq_ok_iff`) and is refused when it is joined from none
(`Path.parse_eq_error_iff`); one whose pieces are not empty spells a path as long as no piece of it is padded
(`Path.exists_parse_iff`). One path lies beneath another when its text goes on from the other's with a dot
(`Path.atOrBeneath_iff`).
-/
namespace LayeredConfig

/-- Cutting at every mark, with core's own function. -/
theorem Text.splitAt_eq_splitOn (mark : Char) (cs : List Char) : Text.splitAt mark cs = cs.splitOn mark := by
  induction cs with
  | nil => simp [splitAt]
  | cons c cs ih =>
    rw [splitAt, List.splitOn_cons_eq_if_modifyHead, ih]
    by_cases hc : c = mark
    · simp [hc]
    · rw [if_neg hc, if_neg (by simpa using hc)]
      cases h : cs.splitOn mark with
      | nil => exact absurd h (List.splitOn_ne_nil mark cs)
      | cons s ss => rfl

theorem Text.splitAt_append (mark : Char) (front behind : List Char) :
    splitAt mark (front ++ mark :: behind) = splitAt mark front ++ splitAt mark behind := by
  rw [splitAt_eq_splitOn, splitAt_eq_splitOn, splitAt_eq_splitOn]
  exact List.splitOnP_append_cons front behind (beq_self_eq_true mark)

theorem Text.splitAt_of_notMem {mark : Char} {cs : List Char} (h : mark ∉ cs) : splitAt mark cs = [cs] := by
  rw [splitAt_eq_splitOn, List.splitOn_eq_singleton h]

theorem Text.of_mem_splitAt {mark : Char} {cs piece : List Char} (h : piece ∈ splitAt mark cs) :
    mark ∉ piece ∧ piece ⊆ cs := by
  induction cs generalizing piece with
  | nil =>
    rw [splitAt, List.mem_singleton] at h
    subst h
    exact ⟨List.not_mem_nil, List.Subset.refl []⟩
  | cons c cs ih =>
    rw [splitAt] at h
    split at h
    · rcases List.mem_cons.mp h with rfl | h
      · exact ⟨List.not_mem_nil, List.nil_subset _⟩
      · exact ⟨(ih h).1, List.subset_cons_of_subset c (ih h).2⟩
    · rename_i hne
      split at h
      · rename_i hnil
        exact absurd hnil (splitAt_ne_nil mark cs)
      · rename_i first rest hsplit
        rw [hsplit] at ih
        rcases List.mem_cons.mp h with rfl | h
        · obtain ⟨hnot, hsub⟩ := ih List.mem_cons_self
          refine ⟨?_, List.cons_subset_cons c hsub⟩
          rw [List.mem_cons, not_or]
          exact ⟨Ne.symm hne, hnot⟩
        · obtain ⟨hnot, hsub⟩ := ih (List.mem_cons_of_mem first h)
          exact ⟨hnot, List.subset_cons_of_subset c hsub⟩

theorem dottedPieces_ne_nil (text : String) : dottedPieces text ≠ [] := by
  simp [dottedPieces, Text.splitAt_ne_nil]

theorem joinDots_dottedPieces (text : String) : joinDots (dottedPieces text) = text := by
  apply String.toList_inj.mp
  rw [joinDots, String.toList_intercalate, dottedPieces, List.map_map]
  have hid : String.toList ∘ String.ofList = id := by
    funext cs
    simp
  rw [hid, List.map_id]
  exact Text.intercalate_splitAt '.' text.toList

theorem dottedPieces_joinDots {pieces : List String} (hne : pieces ≠ []) (h : ∀ s ∈ pieces, '.' ∉ s.toList) :
    dottedPieces (joinDots pieces) = pieces := by
  have hdots : ∀ l ∈ pieces.map String.toList, '.' ∉ l := by simpa using h
  have hsplit : (joinDots pieces).toList.splitOn '.' = pieces.map String.toList := by
    rw [joinDots, String.toList_intercalate]
    exact List.splitOn_intercalate '.' hdots (by simpa using hne)
  rw [dottedPieces, Text.splitAt_eq_splitOn, hsplit, List.map_map]
  have hid : String.ofList ∘ String.toList = id := by
    funext s
    simp
  rw [hid, List.map_id]

theorem dottedPieces_place {place : List String} (hne : place ≠ []) (h : ∀ key ∈ place, IsKey key) :
    dottedPieces (joinDots place) = place :=
  dottedPieces_joinDots hne fun key hkey => (h key hkey).2

theorem joinDots_append {front rest : List String} (hf : front ≠ []) (hr : rest ≠ []) :
    joinDots (front ++ rest) = joinDots front ++ "." ++ joinDots rest :=
  String.intercalate_append_of_ne_nil hf hr

@[simp] theorem joinDots_singleton (key : String) : joinDots [key] = key := by
  simp [joinDots]

theorem joinDots_cons (key : String) {rest : List String} (hr : rest ≠ []) :
    joinDots (key :: rest) = key ++ "." ++ joinDots rest := by
  have h := joinDots_append (List.cons_ne_nil key []) hr
  rwa [joinDots_singleton] at h

theorem dottedPieces_append (front rest : String) :
    dottedPieces (front ++ "." ++ rest) = dottedPieces front ++ dottedPieces rest := by
  have hjoined : (front ++ "." ++ rest).toList = front.toList ++ '.' :: rest.toList := by simp
  rw [dottedPieces, hjoined, Text.splitAt_append, List.map_append]
  rfl

theorem joinDots_lt_append {front rest : List String} (hf : front ≠ []) (hr : rest ≠ []) :
    joinDots front < joinDots (front ++ rest) := by
  -- where the shorter text ends the longer one goes on with a dot
  have hdot : ([] : List Char) < ("." ++ joinDots rest).toList := by simp
  have hlt : (joinDots front).toList ++ [] < (joinDots front).toList ++ ("." ++ joinDots rest).toList :=
    List.append_left_lt hdot
  rwa [List.append_nil, ← String.toList_append, ← String.append_assoc, ← joinDots_append hf hr,
    ← String.lt_iff_toList_lt] at hlt

namespace Path

theorem eq_of_segments {p q : Path} (h : p.segments = q.segments) : p = q := by
  cases p
  cases q
  cases h
  rfl

theorem isKey (p : Path) : ∀ s ∈ p.segments, IsKey s := fun s hs => (p.checked s hs).isKey

theorem dottedPieces_text (p : Path) : dottedPieces p.text = p.segments :=
  dottedPieces_place p.nonempty p.isKey

theorem exists_append_of_prefix {p q : Path} (h : p.segments <+: q.segments) (hne : p ≠ q) :
    ∃ rest, rest ≠ [] ∧ q.segments = p.segments ++ rest := by
  obtain ⟨rest, hrest⟩ := h
  refine ⟨rest, ?_, hrest.symm⟩
  intro hnil
  apply hne
  rw [Path.mk.injEq, ← hrest, hnil, List.append_nil]

/-- A path comes before the paths beneath it. -/
theorem text_lt_of_prefix {p q : Path} (h : p.segments <+: q.segments) (hne : p ≠ q) : p.text < q.text := by
  obtain ⟨rest, hr, hq⟩ := exists_append_of_prefix h hne
  rw [Path.text, Path.text, hq]
  exact joinDots_lt_append p.nonempty hr

theorem text_inj {p q : Path} : p.text = q.text ↔ p = q := by
  constructor
  · intro h
    apply eq_of_segments
    rw [← p.dottedPieces_text, h, q.dottedPieces_text]
  · intro h
    rw [h]

/-! ## Reading them -/

theorem ofSegments?_eq_some_iff {segments : List String} {p : Path} :
    ofSegments? segments = some p ↔ p.segments = segments := by
  rw [ofSegments?]
  constructor
  · intro h
    split at h
    · cases h
      rfl
    · cases h
  · intro h
    subst h
    rw [dif_pos ⟨p.nonempty, p.checked⟩]

theorem parse_eq_ok_iff {text : String} {p : Path} : parse text = .ok p ↔ p.segments = dottedPieces text := by
  rw [← ofSegments?_eq_some_iff, parse, ofText?]
  cases ofSegments? (dottedPieces text) with
  | some q => simp
  | none =>
    simp only [reduceCtorEq, iff_false]
    split <;> nofun

theorem parse_text (p : Path) : parse p.text = .ok p := parse_eq_ok_iff.mpr p.dottedPieces_text.symm

theorem eq_text_of_parse {text : String} {p : Path} (h : parse text = .ok p) : text = p.text := by
  rw [Path.text, parse_eq_ok_iff.mp h, joinDots_dottedPieces]

/-- Whether texts can be the segments of a path, and a text is what they are when they are joined with dots. -/
def JoinTo (segments : List String) (text : String) : Prop :=
  segments ≠ [] ∧ (∀ s ∈ segments, IsSegment s) ∧ text = joinDots segments

theorem joinTo (p : Path) : JoinTo p.segments p.text := ⟨p.nonempty, p.checked, rfl⟩

theorem JoinTo.exists_path {segments : List String} {text : String} (h : JoinTo segments text) :
    ∃ p : Path, p.segments = segments ∧ p.text = text :=
  ⟨⟨segments, h.1, h.2.1⟩, rfl, h.2.2.symm⟩

theorem parse_map_eq_ok_iff {segments : List String} {text : String} :
    (parse text).map Path.segments = .ok segments ↔ JoinTo segments text := by
  rw [Outcome.map_eq_ok_iff]
  constructor
  · intro hspelled
    obtain ⟨p, hp, rfl⟩ := hspelled
    rw [eq_text_of_parse hp]
    exact p.joinTo
  · intro hjoin
    obtain ⟨p, rfl, rfl⟩ := hjoin.exists_path
    exact ⟨p, parse_text p, rfl⟩

def refusal (text : String) : Failure :=
  if text = "" then .invalidPath (.scalar (.text text)) else .paddedPath text

theorem isOfConfiguration_refusal (text : String) : (refusal text).isOfConfiguration = true := by
  rw [refusal]
  split <;> rfl

theorem parse_eq_error_iff {text : String} {f : Failure} :
    parse text = .error f ↔ (¬ ∃ segments, JoinTo segments text) ∧ f = refusal text := by
  have hjoin : (∃ segments, JoinTo segments text) ↔ ∃ p, ofText? text = some p := by
    simp only [← parse_map_eq_ok_iff, Outcome.map_eq_ok_iff, parse_eq_ok_iff, ofText?, ofSegments?_eq_some_iff]
    constructor
    · intro hspelled
      obtain ⟨_, p, hp, _⟩ := hspelled
      exact ⟨p, hp⟩
    · intro hread
      obtain ⟨p, hp⟩ := hread
      exact ⟨p.segments, p, hp, rfl⟩
  rw [hjoin, parse, refusal]
  cases ofText? text with
  | some p => simp
  | none =>
    simp only [← apply_ite Except.error, Except.error.injEq, reduceCtorEq, exists_false, not_false_eq_true, true_and]
    exact eq_comm

end Path

/-! ## Padded texts -/

/-- Whether a piece of a dotted text begins or ends with a blank. -/
def IsPadded (text : String) : Prop := ∃ s ∈ dottedPieces text, Text.strip s ≠ s

instance (text : String) : Decidable (IsPadded text) := inferInstanceAs (Decidable (∃ s ∈ _, _))

namespace Path

theorem exists_parse_of_not_padded {text : String} (hkeys : ∀ s ∈ dottedPieces text, IsKey s)
    (h : ¬ IsPadded text) : ∃ p, parse text = .ok p ∧ p.segments = dottedPieces text := by
  have hchecked : ∀ s ∈ dottedPieces text, IsSegment s := by
    intro s hs
    have hstrip : Text.strip s = s := not_not.mp fun hne => h ⟨s, hs, hne⟩
    exact ⟨(hkeys s hs).1, hstrip, (hkeys s hs).2⟩
  exact ⟨⟨_, dottedPieces_ne_nil text, hchecked⟩, parse_eq_ok_iff.mpr rfl, rfl⟩

theorem parse_of_padded {text : String} (h : IsPadded text) : parse text = .error (.paddedPath text) := by
  obtain ⟨s, hs, hstrip⟩ := h
  have hnot : ¬ ∃ segments, JoinTo segments text := by
    intro hjoined
    obtain ⟨_, hjoin⟩ := hjoined
    obtain ⟨p, _, rfl⟩ := hjoin.exists_path
    exact hstrip (p.checked s (p.dottedPieces_text ▸ hs)).2.1
  have hne : text ≠ "" := by
    rintro rfl
    rw [show dottedPieces "" = [""] from rfl, List.mem_singleton] at hs
    exact hstrip (hs ▸ rfl)
  exact parse_eq_error_iff.mpr ⟨hnot, (if_neg hne).symm⟩

/-- A name without empty pieces spells a path when it is not padded. -/
theorem exists_parse_iff {text : String} (hpieces : ∀ piece ∈ dottedPieces text, piece ≠ "") :
    (∃ p, parse text = .ok p) ↔ ¬ IsPadded text := by
  constructor
  · intro hparse hpadded
    obtain ⟨p, hp⟩ := hparse
    rw [parse_of_padded hpadded] at hp
    cases hp
  · intro h
    have hkeys : ∀ s ∈ dottedPieces text, IsKey s := by
      intro s hs
      obtain ⟨piece, hpiece, rfl⟩ := List.mem_map.mp hs
      refine ⟨hpieces _ hs, ?_⟩
      rw [String.toList_ofList]
      exact (Text.of_mem_splitAt hpiece).1
    obtain ⟨p, hp, _⟩ := exists_parse_of_not_padded hkeys h
    exact ⟨p, hp⟩

end Path

/-! ## One text beneath another -/

/-- Whether a dotted text is another one, or goes on from it with a dot. -/
def AtOrBeneath (top text : String) : Prop := text = top ∨ ∃ rest, text = top ++ "." ++ rest

theorem atOrBeneath_iff {top text : String} : AtOrBeneath top text ↔ dottedPieces top <+: dottedPieces text := by
  constructor
  · rintro (rfl | ⟨rest, rfl⟩)
    · exact List.prefix_rfl
    · rw [dottedPieces_append]
      exact List.prefix_append _ _
  · intro h
    obtain ⟨rest, hrest⟩ := h
    by_cases hnil : rest = []
    · left
      rw [← joinDots_dottedPieces text, ← hrest, hnil, List.append_nil, joinDots_dottedPieces]
    · right
      refine ⟨joinDots rest, ?_⟩
      rw [← joinDots_dottedPieces text, ← hrest, joinDots_append (dottedPieces_ne_nil top) hnil, joinDots_dottedPieces]

instance (top text : String) : Decidable (AtOrBeneath top text) := decidable_of_iff _ atOrBeneath_iff.symm

/-- One path lies at or beneath another when its segments go on from those of the other. -/
theorem Path.atOrBeneath_iff {p q : Path} : AtOrBeneath p.text q.text ↔ p.segments <+: q.segments := by
  rw [LayeredConfig.atOrBeneath_iff, p.dottedPieces_text, q.dottedPieces_text]

end LayeredConfig
