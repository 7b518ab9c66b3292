import LayeredConfig.Proofs.Builder.Edits
/-!
# Prepared values in a profile

A builder takes the values that were prepared for a profile one after the other, in ascending order of their paths, and
stops at the first that it refuses. Nothing is taken back: what came before the refused value is in the entries
(`Builder.writeAll_laidIn`). So the entries stay as they were just when everything that came before stood there
already (`Builder.LaidIn.entries_eq_iff`). Values that were checked while they were prepared are never refused.
-/
namespace LayeredConfig

/-! ## The entries of writes -/

namespace Writes

variable {ws vs : Writes} {p q : Path} {v w : Value} {text : String}

theorem mem_put_iff (h : ws.Sound) : (q, w) ∈ ws.put p v ↔ (q = p ∧ w = v) ∨ ((q, w) ∈ ws ∧ q ≠ p) := by
  have hnodup := h.nodup
  clear h
  induction ws with
  | nil => simp [put]
  | cons e rest ih =>
    obtain ⟨p', u⟩ := e
    rw [List.map_cons, List.nodup_cons] at hnodup
    obtain ⟨hnot, hrest⟩ := hnodup
    rw [put]
    split
    · rename_i hp
      subst hp
      have hother : (q, w) ∈ rest → q ≠ p' := by
        intro hq heq
        exact hnot (List.mem_map.mpr ⟨(q, w), hq, heq⟩)
      simp only [List.mem_cons, Prod.mk.injEq]
      grind
    · rename_i hp
      simp only [List.mem_cons, Prod.mk.injEq, ih hrest]
      grind

theorem mem_entries : (text, w) ∈ ws.entries ↔ ∃ q, (q, w) ∈ ws ∧ q.text = text := by
  simp [entries, mem_ordered]

theorem mem_entries_put (h : ws.Sound) :
    (text, w) ∈ (ws.put p v).entries ↔ (text = p.text ∧ w = v) ∨ ((text, w) ∈ ws.entries ∧ text ≠ p.text) := by
  simp only [mem_entries, mem_put_iff h]
  constructor
  · rintro ⟨q, ⟨rfl, rfl⟩ | ⟨hq, hne⟩, rfl⟩
    · exact .inl ⟨rfl, rfl⟩
    · exact .inr ⟨⟨q, hq, rfl⟩, fun heq => hne (Path.text_inj.mp heq)⟩
  · rintro (⟨rfl, rfl⟩ | ⟨⟨q, hq, rfl⟩, hne⟩)
    · exact ⟨p, .inl ⟨rfl, rfl⟩, rfl⟩
    · exact ⟨q, .inr ⟨hq, fun heq => hne (heq ▸ rfl)⟩, rfl⟩

theorem Sound.entries_ascending (h : ws.Sound) : ws.entries.Pairwise fun a b => a.1 < b.1 :=
  List.pairwise_map.mpr h.ordered_ascending

theorem Sound.entry_unique (h : ws.Sound) (hv : (text, v) ∈ ws.entries) (hw : (text, w) ∈ ws.entries) : v = w := by
  obtain ⟨q, hq, rfl⟩ := mem_entries.mp hv
  obtain ⟨q', hq', heq⟩ := mem_entries.mp hw
  rw [Path.text_inj.mp heq] at hq'
  exact congrArg Prod.snd (List.inj_on_of_nodup_map h.nodup hq hq' rfl)

end Writes

/-! ## One prepared value -/

namespace Builder

variable {b b' : Builder} {n : String} {values : List (String × Raw)} {e : String × Raw} {w : Value} {f : Failure}

/-- The dotted form of the place that a prepared value has inside a profile. -/
def placeIn (n : String) (e : String × Raw) : String := joinDots [profilesKey, n, e.1]

/-- Whether a prepared value can be written inside a profile, and in which form: its path is one, and it freezes. -/
def Taken (n : String) (e : String × Raw) (w : Value) : Prop :=
  (∃ p, Path.parse e.1 = .ok p) ∧ freeze (placeIn n e) e.2 = .ok w

/-- Why a prepared value cannot be written inside a profile: its path is none, or it does not freeze. -/
def Refused (n : String) (e : String × Raw) (f : Failure) : Prop :=
  Path.parse e.1 = .error f ∨ (∃ p, Path.parse e.1 = .ok p) ∧ freeze (placeIn n e) e.2 = .error f

theorem Taken.not_refused (h : Taken n e w) : ¬ Refused n e f := by
  obtain ⟨⟨p, hp⟩, hw⟩ := h
  rintro (hf | ⟨_, hf⟩)
  · rw [hp] at hf
    cases hf
  · rw [hw] at hf
    cases hf

theorem Taken.unique {u : Value} (h : Taken n e w) (h' : Taken n e u) : w = u :=
  Except.ok.inj (h.2.symm.trans h'.2)

/-- The first of some prepared values is written at its place, or it is refused and nothing is written. -/
theorem writeAll_cons_cases (hn : IsSegment n) (b : Builder) (e : String × Raw) (rest : List (String × Raw)) :
    (∃ (place : Path) (w : Value), place.text = placeIn n e ∧ Taken n e w ∧
      b.writeAll n (e :: rest) = { b with writes := b.writes.put place w }.writeAll n rest) ∨
      ∃ f, Refused n e f ∧ b.writeAll n (e :: rest) = (.error f, b) := by
  obtain ⟨text, value⟩ := e
  cases hp : Path.parse text with
  | error f => exact .inr ⟨f, .inl hp, by rw [writeAll, hp]⟩
  | ok p =>
    obtain ⟨place, hplace, htext⟩ := p.inProfile_comes_out hn
    rw [← Path.eq_text_of_parse hp] at htext
    rw [writeAll, hp]
    simp only [writeInProfile_of_place hplace, write, htext]
    cases hw : freeze (joinDots [profilesKey, n, text]) value with
    | error f => exact .inr ⟨f, .inr ⟨⟨p, hp⟩, hw⟩, rfl⟩
    | ok w => exact .inl ⟨place, w, htext, ⟨⟨p, hp⟩, hw⟩, rfl⟩

/-! ## Any number of them -/

/-- Whether a builder holds what another one holds but for prepared values, all of which it took into a profile. -/
structure LaidIn (n : String) (values : List (String × Raw)) (b b' : Builder) : Prop where
  taken : ∀ e ∈ values, ∃ w, Taken n e w
  entries : ∀ text w, (text, w) ∈ b'.writes.entries ↔
    (∃ e ∈ values, text = placeIn n e ∧ Taken n e w) ∨
      ((text, w) ∈ b.writes.entries ∧ ∀ e ∈ values, text ≠ placeIn n e)

theorem LaidIn.refl (n : String) (b : Builder) : LaidIn n [] b b := ⟨by simp, by simp⟩

theorem placeIn_inj {n : String} {d e : String × Raw} (h : placeIn n d = placeIn n e) : d.1 = e.1 := by
  have hplace : ∀ c : String × Raw, placeIn n c = profilesKey ++ "." ++ (n ++ "." ++ c.1) := by
    intro c
    rw [placeIn, joinDots_cons _ (by simp), joinDots_cons n (by simp), joinDots_singleton]
  rw [hplace, hplace] at h
  exact String.append_right_inj _ |>.mp (String.append_right_inj _ |>.mp h)

theorem LaidIn.cons {place : Path} (hb : b.writes.Sound) (hplace : place.text = placeIn n e) (hw : Taken n e w)
    (hnot : ∀ d ∈ values, d.1 ≠ e.1) (h : LaidIn n values { b with writes := b.writes.put place w } b') :
    LaidIn n (e :: values) b b' := by
  have hapart : ∀ d ∈ values, placeIn n e ≠ placeIn n d := fun d hd heq => hnot d hd (placeIn_inj heq).symm
  refine ⟨List.forall_mem_cons.mpr ⟨⟨w, hw⟩, h.taken⟩, ?_⟩
  intro text u
  rw [h.entries, Writes.mem_entries_put hb, hplace]
  constructor
  · rintro (⟨d, hd, htext, hu⟩ | ⟨⟨rfl, rfl⟩ | ⟨hold, hne⟩, hrest⟩)
    · exact .inl ⟨d, List.mem_cons_of_mem e hd, htext, hu⟩
    · exact .inl ⟨e, List.mem_cons_self, rfl, hw⟩
    · exact .inr ⟨hold, List.forall_mem_cons.mpr ⟨hne, hrest⟩⟩
  · rintro (⟨d, hd, rfl, hu⟩ | ⟨hold, hrest⟩)
    · rcases List.mem_cons.mp hd with rfl | hd
      · exact .inr ⟨.inl ⟨rfl, hu.unique hw⟩, hapart⟩
      · exact .inl ⟨d, hd, rfl, hu⟩
    · obtain ⟨hne, hrest⟩ := List.forall_mem_cons.mp hrest
      exact .inr ⟨.inr ⟨hold, hne⟩, hrest⟩

/-- Prepared values are laid in one after the other, all of them or up to the first that is refused. -/
theorem writeAll_laidIn (hn : IsSegment n) (b : Builder) (hb : b.writes.Sound) {values : List (String × Raw)}
    (hkeys : (values.map (·.1)).Nodup) (hv : ∀ e ∈ values, e.2.Distinct) :
    (∃ b', b.writeAll n values = (.ok (), b') ∧ LaidIn n values b b') ∨
      ∃ before refused after f b', values = before ++ refused :: after ∧ Refused n refused f ∧
        b.writeAll n values = (.error f, b') ∧ LaidIn n before b b' := by
  induction values generalizing b with
  | nil => exact .inl ⟨b, rfl, .refl n b⟩
  | cons e rest ih =>
    rw [List.map_cons, List.nodup_cons] at hkeys
    obtain ⟨hnot, hkeys⟩ := hkeys
    obtain ⟨he, hrest⟩ := List.forall_mem_cons.mp hv
    have hapart : ∀ d ∈ rest, d.1 ≠ e.1 := fun d hd heq => hnot (heq ▸ List.mem_map_of_mem hd)
    rcases writeAll_cons_cases hn b e rest with ⟨place, w, hplace, hw, hwrite⟩ | ⟨f, hf, hwrite⟩
    · have hsound := hb.put place (freeze_frozen e.2 he hw.2)
      rcases ih { b with writes := b.writes.put place w } hsound hkeys hrest with
        ⟨b', hall, hlaid⟩ | ⟨before, refused, after, f, b', rfl, hf, hall, hlaid⟩
      · exact .inl ⟨b', hwrite.trans hall, hlaid.cons hb hplace hw hapart⟩
      · refine .inr ⟨e :: before, refused, after, f, b', rfl, hf, hwrite.trans hall, hlaid.cons hb hplace hw ?_⟩
        exact fun d hd => hapart d (List.mem_append_left _ hd)
    · exact .inr ⟨[], e, rest, f, b, rfl, hf, hwrite, .refl n b⟩

/-- The entries stay as they were just when everything that was laid in stood there already. -/
theorem LaidIn.entries_eq_iff (h : LaidIn n values b b') (hb : b.writes.Sound) (hb' : b'.writes.Sound) :
    b'.writes.entries = b.writes.entries ↔
      ∀ e ∈ values, ∀ w, Taken n e w → (placeIn n e, w) ∈ b.writes.entries := by
  constructor
  · intro heq e he w hw
    rw [← heq, h.entries]
    exact .inl ⟨e, he, rfl, hw⟩
  · intro hthere
    refine eq_of_ascending hb'.entries_ascending hb.entries_ascending ?_
    rintro ⟨text, w⟩
    rw [h.entries]
    constructor
    · rintro (⟨e, he, rfl, hw⟩ | ⟨hold, _⟩)
      · exact hthere e he w hw
      · exact hold
    · intro hold
      by_cases hplace : ∃ e ∈ values, text = placeIn n e
      · obtain ⟨e, he, rfl⟩ := hplace
        obtain ⟨u, hu⟩ := h.taken e he
        rw [hb.entry_unique hold (hthere e he u hu)]
        exact .inl ⟨e, he, rfl, hu⟩
      · exact .inr ⟨hold, fun e he heq => hplace ⟨e, he, heq⟩⟩

/-! ## A prepared profile -/

theorem LaidIn.perm {others : List (String × Raw)} (h : LaidIn n values b b') (hp : values.Perm others) :
    LaidIn n others b b' := by
  refine ⟨fun e he => h.taken e (hp.mem_iff.mpr he), ?_⟩
  intro text w
  rw [h.entries]
  simp only [hp.mem_iff]

theorem entries_perm (overrides : ProfileOverrides) : overrides.entries.Perm overrides := sortOrdered_perm overrides

theorem withProfile_of_name {name : Raw} (h : name.profileName = .ok n) (b : Builder) (overrides : ProfileOverrides) :
    b.withProfile name overrides = { b with declared := b.declared ++ [n] }.writeAll n overrides.entries := by
  rw [withProfile, declare, h]
  rfl

theorem taken_of_mem_prepare {ws : Writes} (hws : ws.Sound) (n : String) (he : e ∈ ws.prepare) : ∃ w, Taken n e w := by
  obtain ⟨⟨p, w⟩, hmem, rfl⟩ := List.mem_map.mp he
  exact ⟨w, ⟨p, Path.parse_text p⟩, freeze_thaw _ w (hws.frozen _ hmem)⟩

theorem prepare_texts_nodup {ws : Writes} (hws : ws.Sound) : (ws.prepare.map (·.1)).Nodup := by
  have htexts : ws.prepare.map (·.1) = (ws.map (·.1)).map Path.text := by simp [Writes.prepare]
  rw [htexts]
  exact hws.nodup.map fun _ _ heq => Path.text_inj.mp heq

theorem prepare_distinct {ws : Writes} (hws : ws.Sound) : ∀ e ∈ ws.prepare, e.2.Distinct := by
  intro e he
  obtain ⟨d, hmem, rfl⟩ := List.mem_map.mp he
  exact Value.Frozen.thaw_distinct d.2 (hws.frozen d hmem)

/-- What comes of a profile's prepared values: they are all laid in, or those before the first that is refused. -/
theorem withProfile_laidIn {name : Raw} (h : name.profileName = .ok n) (b : Builder) (hb : b.writes.Sound)
    {overrides : ProfileOverrides} (hkeys : (overrides.map (·.1)).Nodup) (hv : ∀ e ∈ overrides, e.2.Distinct) :
    (∃ b', b.withProfile name overrides = (.ok (), b') ∧ LaidIn n overrides b b') ∨
      ∃ before refused after f b', overrides.entries = before ++ refused :: after ∧ Refused n refused f ∧
        b.withProfile name overrides = (.error f, b') ∧ LaidIn n before b b' := by
  have hperm := entries_perm overrides
  rw [withProfile_of_name h]
  rcases writeAll_laidIn (Raw.profileName_eq_ok_iff.mp h).2 { b with declared := b.declared ++ [n] } hb
      ((hperm.map (·.1)).nodup_iff.mpr hkeys) (fun e he => hv e (hperm.mem_iff.mp he)) with
    ⟨b', hall, hlaid⟩ | ⟨before, refused, after, f, b', hsplit, hf, hall, hlaid⟩
  · exact .inl ⟨b', hall, LaidIn.perm ⟨hlaid.taken, hlaid.entries⟩ hperm⟩
  · exact .inr ⟨before, refused, after, f, b', hsplit, hf, hall, hlaid.taken, hlaid.entries⟩

/-- **Prepared values go in one by one.** Give a builder that was edited in any way values for a profile, each at a path
    of its own. A name that is none of a profile is a failure that changes nothing. With any other name either every
    value is laid in, or the values are laid in that come before some value in the order of the paths, and that one is
    refused; the failure is its own. The entries then stay as they were just when everything that came before it stood
    there already. Values that were checked when they were prepared are all laid in. -/
theorem prepared_values_go_in_one_by_one (base defaults : Option Source) (settings : Option Settings)
    {es : List Edit} (hes : ∀ e ∈ es, e.Distinct) (name : Raw) {overrides : ProfileOverrides}
    (hkeys : (overrides.map (·.1)).Nodup) (hv : ∀ e ∈ overrides, e.2.Distinct) :
    let b := (Builder.new base defaults settings).edits es
    (∀ f, name.profileName = .error f → b.withProfile name overrides = (.error f, b)) ∧
      ∀ n, name.profileName = .ok n →
        ((∃ b', b.withProfile name overrides = (.ok (), b') ∧ LaidIn n overrides b b') ∨
          ∃ before refused after f b', overrides.entries = before ++ refused :: after ∧ Refused n refused f ∧
            b.withProfile name overrides = (.error f, b') ∧ LaidIn n before b b' ∧
            (b'.writes.entries = b.writes.entries ↔
              ∀ e ∈ before, ∀ w, Taken n e w → (placeIn n e, w) ∈ b.writes.entries)) ∧
        ∀ ws : Writes, ws.Sound →
          ∃ b', b.withProfile name ws.prepare = (.ok (), b') ∧ LaidIn n ws.prepare b b' := by
  intro b
  have hb : b.writes.Sound := (extends_edits _ hes).sound Writes.sound_nil
  refine ⟨?_, ?_⟩
  · intro f hf
    rw [withProfile, declare, hf]
    rfl
  · intro n hn
    refine ⟨?_, ?_⟩
    · rcases withProfile_laidIn hn b hb hkeys hv with
        hall | ⟨before, refused, after, f, b', hsplit, hf, hresult, hlaid⟩
      · exact .inl hall
      · have hextends : b.Extends b' := by
          have h := extends_withProfile b name hv
          rwa [hresult] at h
        exact .inr ⟨before, refused, after, f, b', hsplit, hf, hresult, hlaid,
          hlaid.entries_eq_iff hb (hextends.sound hb)⟩
    · intro ws hws
      rcases withProfile_laidIn hn b hb (prepare_texts_nodup hws) (prepare_distinct hws) with
        hall | ⟨before, refused, after, f, b', hsplit, hf, _, _⟩
      · exact hall
      · have hmem : refused ∈ ws.prepare := (entries_perm ws.prepare).mem_iff.mp (by simp [hsplit])
        obtain ⟨w, hw⟩ := taken_of_mem_prepare hws n hmem
        exact absurd hf hw.not_refused

/-- A value at a path and another one at a text that is none, for the blank at its end. -/
def halfPrepared : ProfileOverrides := [("a", .scalar (.int 1)), ("b ", .scalar (.int 2))]

theorem entries_halfPrepared : halfPrepared.entries = halfPrepared := rfl

theorem withProfile_halfPrepared : (Builder.new none none none).withProfile (.scalar (.text "x")) halfPrepared =
    (.error (.paddedPath "b "),
      { base := none
        defaults := none
        settings := none
        writes := [(⟨["profiles", "x", "a"], by decide, by decide⟩, .scalar (.int 1))]
        declared := ["x"] }) := by
  have hfirst : ∀ path : Path, freeze path.text (.scalar (.int 1)) = .ok (.scalar (.int 1)) := by
    intro path
    rw [freeze, if_pos (by decide)]
  have hplace : Path.inProfile "x" ⟨["a"], by decide, by decide⟩ =
      .ok ⟨["profiles", "x", "a"], by decide, by decide⟩ := rfl
  have hwrite : ∀ b : Builder, b.writeInProfile "x" ⟨["a"], by decide, by decide⟩ (.scalar (.int 1)) =
      .ok { b with writes := b.writes.put ⟨["profiles", "x", "a"], by decide, by decide⟩ (.scalar (.int 1)) } := by
    intro b
    rw [writeInProfile, hplace]
    show b.write _ _ = _
    rw [write, hfirst]
    rfl
  have hpath : Path.parse "a" = .ok ⟨["a"], by decide, by decide⟩ := rfl
  have hpadded : Path.parse "b " = .error (.paddedPath "b ") := rfl
  have hname : (Raw.scalar (.text "x")).profileName = .ok "x" := rfl
  rw [withProfile_of_name hname, entries_halfPrepared, halfPrepared, writeAll, hpath]
  simp only [hwrite]
  rw [writeAll, hpadded]
  rfl

/-- The value at a path is laid in although the one at no path is refused, so the entries do not stay as they were. -/
theorem padded_path_stops_what_comes_after : ∃ before refused after f b',
    halfPrepared.entries = before ++ refused :: after ∧ Refused "x" refused f ∧
      (Builder.new none none none).withProfile (.scalar (.text "x")) halfPrepared = (.error f, b') ∧
      LaidIn "x" before (Builder.new none none none) b' ∧ b'.writes.entries ≠ [] := by
  have hnone : ∀ e ∈ ([] : List Edit), e.Distinct := by simp
  have hdistinct : ∀ e ∈ halfPrepared, e.2.Distinct := by simp [halfPrepared]
  have hkeys : (halfPrepared.map (·.1)).Nodup := by decide
  obtain ⟨hgiven, _⟩ :=
    (prepared_values_go_in_one_by_one none none none hnone (.scalar (.text "x")) hkeys hdistinct).2 "x" rfl
  rw [edits_nil] at hgiven
  rcases hgiven with ⟨b', hall, _⟩ | ⟨before, refused, after, f, b', hsplit, hf, hresult, hlaid, _⟩
  · rw [withProfile_halfPrepared] at hall
    cases hall
  · refine ⟨before, refused, after, f, b', hsplit, hf, hresult, hlaid, ?_⟩
    rw [withProfile_halfPrepared] at hresult
    cases hresult
    exact List.cons_ne_nil _ _

/-- A profile that is refused halfway leaves an entry that was not there before. -/
theorem refused_profile_leaves_an_entry :
    ∃ f b', (Builder.new none none none).withProfile (.scalar (.text "x")) halfPrepared = (.error f, b') ∧
      (Builder.new none none none).writes.entries = [] ∧
      b'.writes.entries = [("profiles.x.a", .scalar (.int 1))] :=
  ⟨_, _, withProfile_halfPrepared, rfl, rfl⟩

end Builder
end LayeredConfig
