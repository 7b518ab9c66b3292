import LayeredConfig.Builder
import LayeredConfig.Proofs.Path
/-!
# What paths and names are spelled like

A text spells a path when it is joined from segments with dots, and any other text is refused
(`paths_are_joined_segments`). A profile name is a text that is one segment (`Raw.profileName_eq_ok_iff`). Every path has
a place inside every profile (`Path.inProfile_comes_out`), and the dotted form of the place tells which path it is, and
in which profile (`profilePath_inj`).
-/
namespace LayeredConfig

variable {name : Raw} {n n' text text' : String}

/-! ## Names of profiles -/

/-- A profile name is a text of one segment. -/
theorem Raw.profileName_eq_ok_iff : name.profileName = .ok n ↔ name = .scalar (.text n) ∧ IsSegment n := by
  constructor
  · intro h
    unfold Raw.profileName at h
    split at h
    · obtain ⟨p, hp, h⟩ := Outcome.bind_eq_ok_iff.mp h
      split at h
      · rename_i hlength
        cases h
        obtain ⟨key, hkey⟩ := List.length_eq_one_iff.mp hlength
        have htext : n = key := by rw [Path.eq_text_of_parse hp, Path.text, hkey, joinDots_singleton]
        rw [htext]
        exact ⟨rfl, p.checked key (hkey ▸ List.mem_singleton_self key)⟩
      · cases h
    · cases h
  · rintro ⟨rfl, hn⟩
    let p : Path := ⟨[n], List.cons_ne_nil n [], List.forall_mem_singleton.mpr hn⟩
    have hp : Path.parse n = .ok p := by
      have htext : p.text = n := joinDots_singleton n
      rw [← htext]
      exact Path.parse_text p
    rw [Raw.profileName, hp]
    rfl

/-! ## Places inside profiles -/

theorem joinDots_profilePlace (n : String) {segments : List String} (h : segments ≠ []) :
    joinDots (profilePlace n segments) = joinDots [profilesKey, n, joinDots segments] := by
  rw [profilePlace, joinDots_cons _ (List.cons_ne_nil n segments), joinDots_cons n h, joinDots_cons _ (by simp),
    joinDots_cons n (by simp), joinDots_singleton]

theorem Path.inProfile_comes_out {n : String} (hn : IsSegment n) (p : Path) :
    ∃ place : Path, p.inProfile n = .ok place ∧ place.text = joinDots [profilesKey, n, p.text] := by
  have hchecked : ∀ s ∈ profilePlace n p.segments, IsSegment s := by
    rw [profilePlace, List.forall_mem_cons, List.forall_mem_cons]
    exact ⟨by decide, hn, p.checked⟩
  have hplace : ∃ place : Path, place.segments = profilePlace n p.segments :=
    ⟨⟨_, List.cons_ne_nil _ _, hchecked⟩, rfl⟩
  obtain ⟨place, hsegments⟩ := hplace
  refine ⟨place, ?_, ?_⟩
  · rw [inProfile, ofSegments?_eq_some_iff.mpr hsegments]
  · rw [text, hsegments, joinDots_profilePlace n p.nonempty, text]

theorem Path.segments_of_inProfile {p place : Path} (h : p.inProfile n = .ok place) :
    place.segments = profilePlace n p.segments := by
  rw [inProfile] at h
  split at h
  · rename_i q hq
    cases h
    exact ofSegments?_eq_some_iff.mp hq
  · cases h

theorem profilePath_of_name (h : name.profileName = .ok n) (text : String) :
    profilePath name text = .ok (joinDots [profilesKey, n, text]) := by
  rw [profilePath, h]
  rfl

theorem dottedPieces_profilePath (hn : IsSegment n) (text : String) :
    dottedPieces (joinDots [profilesKey, n, text]) = profilePlace n (dottedPieces text) := by
  have hpieces : ∀ s ∈ profilePlace n (dottedPieces text), '.' ∉ s.toList := by
    rw [profilePlace, List.forall_mem_cons, List.forall_mem_cons]
    refine ⟨by decide, hn.2.2, fun s hs => ?_⟩
    obtain ⟨piece, hpiece, rfl⟩ := List.mem_map.mp hs
    rw [String.toList_ofList]
    exact (Text.of_mem_splitAt hpiece).1
  have hjoined := joinDots_profilePlace n (dottedPieces_ne_nil text)
  rw [joinDots_dottedPieces] at hjoined
  rw [← hjoined]
  exact dottedPieces_joinDots (List.cons_ne_nil _ _) hpieces

/-- Which text is meant and in which profile can be told from the path inside the profile. -/
theorem profilePath_inj (hn : IsSegment n) (hn' : IsSegment n')
    (h : joinDots [profilesKey, n, text] = joinDots [profilesKey, n', text']) : n = n' ∧ text = text' := by
  have hpieces := congrArg dottedPieces h
  rw [dottedPieces_profilePath hn, dottedPieces_profilePath hn', profilePlace, profilePlace, List.cons_inj_right,
    List.cons.injEq] at hpieces
  obtain ⟨hnames, htexts⟩ := hpieces
  exact ⟨hnames, by rw [← joinDots_dottedPieces text, htexts, joinDots_dottedPieces]⟩

/-- **How paths are spelled.** A text spells the path with given segments exactly when there are any, each of them is
    neither empty nor padded nor holds a dot, and the text is the segments joined with dots; every other text is
    refused, as a failure of the configuration. A profile name is a text of one segment. A path in a profile of such a
    name is a path again: its segments are those of the table of profiles, of the name and of the path. And other
    names or other texts have other paths. -/
theorem paths_are_joined_segments :
    (∀ text segments, (Path.parse text).map Path.segments = .ok segments ↔ Path.JoinTo segments text) ∧
      (∀ text, (¬ ∃ segments, Path.JoinTo segments text) →
        Path.parse text = .error (Path.refusal text) ∧ (Path.refusal text).isOfConfiguration = true) ∧
      (∀ (name : Raw) n, name.profileName = .ok n ↔ name = .scalar (.text n) ∧ IsSegment n) ∧
      (∀ (name : Raw) n text (p : Path), name.profileName = .ok n → Path.parse text = .ok p →
        ∃ place : Path, profilePath name text = .ok place.text ∧ Path.parse place.text = .ok place ∧
          p.inProfile n = .ok place ∧ place.segments = profilesKey :: n :: p.segments) ∧
      ∀ (name name' : Raw) n n' text text', name.profileName = .ok n → name'.profileName = .ok n' →
        (n, text) ≠ (n', text') → profilePath name text ≠ profilePath name' text' := by
  refine ⟨fun _ _ => Path.parse_map_eq_ok_iff, fun text h => ?_, fun _ _ => Raw.profileName_eq_ok_iff, ?_, ?_⟩
  · exact ⟨Path.parse_eq_error_iff.mpr ⟨h, rfl⟩, Path.isOfConfiguration_refusal text⟩
  · intro name n text p hname hp
    obtain ⟨place, hplace, htext⟩ := p.inProfile_comes_out (Raw.profileName_eq_ok_iff.mp hname).2
    refine ⟨place, ?_, place.parse_text, hplace, Path.segments_of_inProfile hplace⟩
    rw [profilePath_of_name hname, htext, ← Path.eq_text_of_parse hp]
  · intro name name' n n' text text' hname hname' hne h
    rw [profilePath_of_name hname, profilePath_of_name hname'] at h
    have hn : IsSegment n := (Raw.profileName_eq_ok_iff.mp hname).2
    have hn' : IsSegment n' := (Raw.profileName_eq_ok_iff.mp hname').2
    obtain ⟨hnames, htexts⟩ := profilePath_inj hn hn' (Except.ok.inj h)
    exact hne (Prod.ext hnames htexts)

/-- A path with blanks inside a segment, one with a wide blank at the start of a segment, and a path in two profiles,
    the name of the one being a segment of the path in the other. -/
theorem blanks_inside_segments_are_kept :
    (Path.parse "a b.c").map Path.segments = .ok ["a b", "c"] ∧
      Path.parse "a.\u2003b" = .error (.paddedPath "a.\u2003b") ∧
      (∃ place : Path, profilePath (.scalar (.text "slow")) "a b.c" = .ok place.text ∧
        place.segments = ["profiles", "slow", "a b", "c"]) ∧
      profilePath (.scalar (.text "slow")) "fast.c" ≠ profilePath (.scalar (.text "fast")) "slow.c" := by
  obtain ⟨hspelled, hrefused, _, hplaces, hdistinct⟩ := paths_are_joined_segments
  let p : Path := ⟨["a b", "c"], by decide, by decide⟩
  have hp : Path.parse "a b.c" = .ok p := rfl
  have hpadded : ¬ ∃ segments, Path.JoinTo segments "a.\u2003b" := by
    rintro ⟨segments, hjoin⟩
    obtain ⟨q, _, hq⟩ := hjoin.exists_path
    have hsegments : q.segments = ["a", "\u2003b"] := by rw [← q.dottedPieces_text, hq]; rfl
    have hsegment : IsSegment "\u2003b" := q.checked _ (by simp [hsegments])
    exact absurd hsegment (by decide)
  obtain ⟨place, hplace, _, _, hsegments⟩ := hplaces (.scalar (.text "slow")) "slow" "a b.c" p rfl hp
  refine ⟨(hspelled _ _).mpr ⟨by simp, by decide, rfl⟩, (hrefused _ hpadded).1, ⟨place, hplace, hsegments⟩, ?_⟩
  exact hdistinct _ _ "slow" "fast" _ _ rfl rfl (by decide)

end LayeredConfig
