import LayeredConfig.Proofs.Builder.Edits
import LayeredConfig.Proofs.Builder.Serving
import LayeredConfig.Proofs.Profile.Failures
import LayeredConfig.Proofs.Session.Sharing
import LayeredConfig.Proofs.Source.Grouping
/-!
# The reserved name

No profile but the default one goes by the name of the default one. A builder is refused when it was asked for a
profile of that name or holds something in the profile's place (`Builder.declaresReserved_iff`). The loader of a builder
that was not refused can fail for the name only if a source below the builder's writes holds something in that place
(`reserved_of_advance`).
-/
namespace LayeredConfig

/-! ## Something at a place -/

theorem Tree.find?_isSome_of_merge {lower higher : Tree} (hh : higher.Frozen) {place : List String}
    (h : ((Tree.merge lower higher).find? place).isSome) :
    (lower.find? place).isSome ∨ (higher.find? place).isSome := by
  have hface : ∀ t : Tree, (t.face? place).isSome = (t.find? place).isSome := fun t => Option.isSome_map
  rw [← hface] at h ⊢
  rw [← hface]
  by_cases hd : higher.Decides place
  · exact .inr ((face?_merge hh place).1 hd ▸ h)
  · exact .inl ((face?_merge hh place).2 hd ▸ h)

theorem Tree.exists_find?_isSome_of_foldl {trees : List Tree} (h : ∀ t ∈ trees, t.Frozen) {below : Tree}
    {place : List String} (hfound : ((trees.foldl Tree.merge below).find? place).isSome) :
    (below.find? place).isSome ∨ ∃ t ∈ trees, (t.find? place).isSome := by
  induction trees generalizing below with
  | nil => exact .inl hfound
  | cons t rest ih =>
    obtain ⟨ht, hrest⟩ := List.forall_mem_cons.mp h
    rcases ih hrest hfound with hfound | ⟨u, hu, hfound⟩
    · rcases Tree.find?_isSome_of_merge ht hfound with hbelow | hfound
      · exact .inl hbelow
      · exact .inr ⟨t, List.mem_cons_self, hfound⟩
    · exact .inr ⟨u, List.mem_cons_of_mem t hu, hfound⟩

/-- Something stands at a place of what writes spell if a write is at the place or beneath it, or if the longest of those
    above it holds something there. -/
theorem Writes.find?_tree_isSome_iff {ws : Writes} (h : ws.Sound) {place : List String} (hne : place ≠ []) :
    (ws.tree.find? place).isSome ↔
      (∃ d ∈ ws, place <+: d.1.segments) ∨
        ∃ d rest, ws.Governs d place ∧ place = d.1.segments ++ rest ∧ (d.2.find? rest).isSome := by
  by_cases hbeneath : ∃ d ∈ ws, place <+: d.1.segments ∧ d.1.segments ≠ place
  · obtain ⟨d, hd, hpre, hlong⟩ := hbeneath
    obtain ⟨below, hbelow⟩ := find?_tree_above h hd hpre hlong.symm
    exact ⟨fun _ => .inl ⟨d, hd, hpre⟩, fun _ => by rw [hbelow]; rfl⟩
  · have hat : ∀ e ∈ ws, place <+: e.1.segments → e.1.segments = place :=
      fun e he hpre => not_not.mp fun hlong => hbeneath ⟨e, he, hpre, hlong⟩
    constructor
    · intro hfound
      rcases governs_or_find?_tree_eq_none h hne hat with ⟨d, rest, hd, hplace, heq⟩ | hnone
      · exact .inr ⟨d, rest, hd, hplace, heq ▸ hfound⟩
      · rw [hnone] at hfound
        cases hfound
    · rintro (⟨d, hd, hpre⟩ | ⟨d, rest, hd, rfl, hfound⟩)
      · obtain ⟨p, v⟩ := d
        obtain rfl : p.segments = place := hat _ hd hpre
        rw [find?_tree_of_top h hd fun e he hpre' => Path.eq_of_segments (hat e he hpre')]
        rfl
      · rw [find?_tree_of_governs h hd hat]
        exact hfound

/-! ## What declares the reserved name -/

/-- Whether writes hold something in the place of a profile of the reserved name: an entry there or beneath, or a map
    with the name at the table of profiles. -/
def Writes.HoldReserved (ws : Writes) : Prop :=
  (∃ e ∈ ws, reservedPlace <+: e.1.segments) ∨
    ∃ e ∈ ws, e.1.segments = [profilesKey] ∧ ∃ declared : Tree, e.2 = .map declared ∧
      (declared.get? defaultProfile).isSome

theorem segments_above_reserved {p : Path} {rest : List String} (h : reservedPlace = p.segments ++ rest) :
    p.segments = [profilesKey] ∧ rest = [defaultProfile] ∨ p.segments = reservedPlace ∧ rest = [] := by
  obtain ⟨key, tail, hsegments⟩ := List.exists_cons_of_ne_nil p.nonempty
  rw [hsegments] at h ⊢
  cases tail with
  | nil =>
    obtain ⟨hkey, hrest⟩ := List.cons.inj h
    exact .inl ⟨by rw [← hkey], hrest.symm⟩
  | cons name tail =>
    obtain ⟨hkey, h⟩ := List.cons.inj h
    obtain ⟨hname, h⟩ := List.cons.inj h
    obtain ⟨rfl, rfl⟩ := List.append_eq_nil_iff.mp h.symm
    exact .inr ⟨by rw [← hkey, ← hname, reservedPlace], rfl⟩

theorem Writes.find?_tree_reserved_iff {ws : Writes} (h : ws.Sound) :
    (ws.tree.find? reservedPlace).isSome ↔ ws.HoldReserved := by
  rw [find?_tree_isSome_iff h (by simp [reservedPlace]), HoldReserved]
  constructor
  · rintro (hat | ⟨d, rest, hd, hplace, hfound⟩)
    · exact .inl hat
    · rcases segments_above_reserved hplace with ⟨hsegments, rfl⟩ | ⟨hsegments, rfl⟩
      · refine .inr ⟨d, hd.1, hsegments, ?_⟩
        cases hv : d.2 with
        | map declared => exact ⟨declared, rfl, by simpa [hv, Tree.find?] using hfound⟩
        | _ => simp [hv, Value.find?] at hfound
      · exact .inl ⟨d, hd.1, hsegments ▸ List.prefix_rfl⟩
  · rintro (hat | ⟨e, he, hsegments, declared, hv, hfound⟩)
    · exact .inl hat
    · by_cases hat : ∃ d ∈ ws, reservedPlace <+: d.1.segments
      · exact .inl hat
      · have hplace : reservedPlace = e.1.segments ++ [defaultProfile] := by rw [hsegments]; rfl
        refine .inr ⟨e, [defaultProfile], ⟨he, ⟨_, hplace.symm⟩, ?_⟩, hplace, by simpa [hv, Tree.find?] using hfound⟩
        -- of the writes above the place only the one at the table of profiles is left
        rintro d hd ⟨rest, hrest⟩
        rcases segments_above_reserved hrest.symm with ⟨hd', _⟩ | ⟨hd', _⟩
        · exact hd'.trans hsegments.symm ▸ List.prefix_rfl
        · exact absurd ⟨d, hd, hd' ▸ List.prefix_rfl⟩ hat

theorem Builder.declaresReserved_iff {t : Tree} : declaresReserved t = true ↔ (t.find? reservedPlace).isSome := by
  have hfind : ∀ declared : List (String × Value), (declared.find? (·.1 = defaultProfile)).isSome =
      (Tree.get? declared defaultProfile).isSome := by
    intro declared
    induction declared with
    | nil => rfl
    | cons e rest ih =>
      obtain ⟨key, v⟩ := e
      rw [List.find?_cons, Tree.get?]
      by_cases hkey : key = defaultProfile
      · simp [hkey]
      · simpa [hkey] using ih
  rw [declaresReserved, reservedPlace, Tree.find?_pair]
  split
  · rename_i declared hdeclared
    rw [hfind]
    simp [hdeclared]
  · rename_i hnot
    have hnone : ¬ ∃ below : Tree, t.get? profilesKey = some (.map below) ∧ (below.get? defaultProfile).isSome = true :=
      fun hdeclared => hnot hdeclared.choose hdeclared.choose_spec.1
    rw [iff_false_right hnone]
    exact Bool.false_ne_true

/-- Whether an edit gives a builder a name to write inside a profile of that name. -/
def Edit.Names (n : String) : Edit → Prop
  | .declare name => name = .scalar (.text n)
  | .prepared name _ => name = .scalar (.text n)
  | _ => False

namespace Builder

variable {b b' : Builder} {n : String}

theorem declared_write {path : Path} {v : Raw} (h : b.write path v = .ok b') : b'.declared = b.declared := by
  obtain ⟨w, _, rfl⟩ := Outcome.map_eq_ok_iff.mp h
  rfl

theorem declared_writeInProfile {path : Path} {v : Raw} (h : b.writeInProfile n path v = .ok b') :
    b'.declared = b.declared := by
  obtain ⟨_, _, h⟩ := Outcome.bind_eq_ok_iff.mp h
  exact declared_write h

theorem declared_writeAll (b : Builder) (n : String) (values : List (String × Raw)) :
    (b.writeAll n values).2.declared = b.declared := by
  induction values generalizing b with
  | nil => rfl
  | cons e rest ih =>
    rw [writeAll]
    split
    · rfl
    · split
      · rfl
      · rename_i hb
        rw [ih, declared_writeInProfile hb]

theorem declared_keep {result : Outcome Builder} (h : ∀ b', result = .ok b' → b'.declared = b.declared) :
    (b.keep result).declared = b.declared := by
  cases result with
  | error f => rfl
  | ok b' => exact h b' rfl

theorem mem_declared_edit (b : Builder) (e : Edit) :
    defaultProfile ∈ (b.edit e).declared ↔ defaultProfile ∈ b.declared ∨ e.Names defaultProfile := by
  have hdeclare : ∀ name : Raw, (name.profileName = .ok defaultProfile ↔ name = .scalar (.text defaultProfile)) :=
    fun name => Raw.profileName_eq_ok_iff.trans (and_iff_left (by decide))
  cases e with
  | write c =>
    have h : (b.edit (.write c)).declared = b.declared := declared_keep fun b' hb => by
      rw [call_eq] at hb
      obtain ⟨_, _, hb⟩ := Outcome.bind_eq_ok_iff.mp hb
      exact declared_write hb
    simp [h, Edit.Names]
  | writeIn name c =>
    have h : (b.edit (.writeIn name c)).declared = b.declared := declared_keep fun b' hb => by
      obtain ⟨_, _, hb⟩ := Outcome.bind_eq_ok_iff.mp hb
      exact declared_writeInProfile hb
    simp [h, Edit.Names]
  | declare name =>
    rw [edit, declare, Edit.Names, ← hdeclare name]
    cases name.profileName with
    | error f => simp [keep, Except.map, Except.toOption]
    | ok n => simp [keep, Except.map, Except.toOption, eq_comm]
  | prepared name overrides =>
    rw [edit, withProfile, declare, Edit.Names, ← hdeclare name]
    cases name.profileName with
    | error f => simp [Except.map]
    | ok n => simp [Except.map, declared_writeAll, eq_comm]

theorem mem_declared_edits (b : Builder) (es : List Edit) :
    defaultProfile ∈ (b.edits es).declared ↔ defaultProfile ∈ b.declared ∨ ∃ e ∈ es, e.Names defaultProfile := by
  induction es generalizing b with
  | nil => simp
  | cons e rest ih =>
    rw [edits_cons, ih, mem_declared_edit]
    simp [or_assoc]

theorem build_eq_error_iff {base : Source} (hbase : b.base = some base) (hb : b.writes.Sound) (w : World)
    {f : Failure} :
    (b.build w).1 = .error f ↔
      f = .reservedProfile defaultProfile ∧ (defaultProfile ∈ b.declared ∨ b.writes.HoldReserved) := by
  have hreserved : (b.declared.contains defaultProfile || declaresReserved b.writes.tree) = true ↔
      defaultProfile ∈ b.declared ∨ b.writes.HoldReserved := by
    rw [Bool.or_eq_true, declaresReserved_iff, Writes.find?_tree_reserved_iff hb, List.contains_iff_mem]
  rw [← hreserved, build, hbase]
  split
  · rename_i hyes
    exact ⟨fun h => ⟨(Except.error.inj h).symm, hyes⟩, fun h => congrArg Except.error h.1.symm⟩
  · rename_i hno
    refine ⟨?_, fun h => absurd h.2 hno⟩
    intro h
    cases hsettings : b.settings <;> rw [hsettings] at h <;> cases h

end Builder

/-! ## Passes -/

/-- A pass over layers that hand out frozen trees, with a tree on top that holds nothing in the place of the reserved
    name, fails for the name only if one of the trees below holds something there. -/
theorem reserved_of_advance {lower : List Source} (h : ∀ s ∈ lower, s.GivesTrees) {name : String} {top : Tree}
    (ht : top.Frozen) (htop : (top.find? reservedPlace).isSome = false) {c : Coordinator} {w : World} {f : Failure}
    (hpass : (c.advance (Source.layered (lower ++ [.fixed name top])).feed w).result = .error f)
    (hf : f.isReserved = true) :
    ∃ trees w', HandsOut lower w trees w' ∧ ∃ t ∈ trees, (t.find? reservedPlace).isSome := by
  rw [Coordinator.advance] at hpass
  cases hfetch : (Source.layered (lower ++ [.fixed name top])).fetch w with
  | mk fetched w1 =>
    have hfeed : (Source.layered (lower ++ [.fixed name top])).feed.fetch w = (fetched, w1) := hfetch
    rw [hfeed] at hpass
    cases fetched with
    | error g =>
      cases hpass
      rw [Source.fetch_not_reserved _ _ hfetch] at hf
      cases hf
    | ok content =>
      obtain ⟨below, w2, _, hlower, rfl⟩ := Source.fetch_fixed_on_top h hfetch
      have hresolve : Config.resolve (.tree (Tree.merge below top)) (c.generation + 1) = .error f := by
        simp only at hpass
        split at hpass
        · rename_i g hg
          cases hpass
          exact hg
        · cases hpass
      have hbelow : (below.find? reservedPlace).isSome := by
        rcases Tree.find?_isSome_of_merge ht ((Config.resolve_tree_fails hresolve).2 hf) with hbelow | hfound
        · exact hbelow
        · rw [htop] at hfound
          cases hfound
      rcases fetchLayers_cases h w with ⟨g, w', hfail⟩ | ⟨trees, w', hout, htrees, hgive⟩
      · rw [hfail] at hlower
        cases hlower
      · rw [hgive] at hlower
        cases hlower
        refine ⟨trees, _, hout, ?_⟩
        rcases Tree.exists_find?_isSome_of_foldl htrees hbelow with hnil | hfound
        · cases hnil
        · exact hfound

namespace Builder

/-- **The reserved name is caught exactly.** Take any base and defaults that hand out frozen trees, and any edits of a
    builder over them. Building fails just when the reserved name was given to write inside a profile, or when the
    writes hold something in the place of a profile of that name: an entry there or beneath, or a map with the name at
    the table of profiles. It then fails for the name, and for nothing else. A loader that was built fails for the name
    in a pass only if, in that pass, a tree that the defaults or the base hand out holds something in that place. -/
theorem reserved_name_is_caught {base : Source} {defaults : Option Source} (settings : Option Settings)
    {es : List Edit} (hes : ∀ e ∈ es, e.Distinct) (hbase : base.GivesTrees)
    (hdefaults : ∀ d ∈ defaults, d.GivesTrees) :
    let b := (Builder.new (some base) defaults settings).edits es
    (∀ w f, (b.build w).1 = .error f ↔
      f = .reservedProfile defaultProfile ∧ ((∃ e ∈ es, e.Names defaultProfile) ∨ b.writes.HoldReserved)) ∧
    ∀ w s source w', b.build w = (.ok (s, source), w') → ∀ (c : Coordinator) (v : World) (name : String),
      (c.advance source.feed v).result = .error (.reservedProfile name) →
        ∃ trees v', HandsOut (defaults.toList ++ [base]) v trees v' ∧ ∃ t ∈ trees, (t.find? reservedPlace).isSome := by
  intro b
  have hextends : (Builder.new (some base) defaults settings).Extends b := extends_edits _ hes
  have hsound : b.writes.Sound := hextends.sound Writes.sound_nil
  have hdeclared : defaultProfile ∈ b.declared ↔ ∃ e ∈ es, e.Names defaultProfile := by
    rw [mem_declared_edits]
    simp [Builder.new]
  have hbuild : ∀ w f, (b.build w).1 = .error f ↔
      f = .reservedProfile defaultProfile ∧ ((∃ e ∈ es, e.Names defaultProfile) ∨ b.writes.HoldReserved) := by
    intro w f
    rw [build_eq_error_iff hextends.base hsound, hdeclared]
  refine ⟨hbuild, ?_⟩
  intro w s source w' hbuilt c v name hpass
  have hnot : (b.writes.tree.find? reservedPlace).isSome = false := by
    rw [Bool.eq_false_iff, Ne, Writes.find?_tree_reserved_iff hsound]
    intro hholds
    have hfails := (hbuild w _).mpr ⟨rfl, .inr hholds⟩
    rw [hbuilt] at hfails
    cases hfails
  -- the overrides are the last layer, over the defaults and the base
  have hsource : source = .layered ((defaults.toList ++ [base]) ++ [.fixed "overrides" b.writes.tree]) := by
    rcases build_cases hextends.base w with ⟨f, hfails⟩ | ⟨s', hmade⟩
    · rw [hfails] at hbuilt
      cases hbuilt
    · rw [hmade, hextends.defaults] at hbuilt
      cases hbuilt
      simp [Builder.new]
  rw [hsource] at hpass
  have hlower : ∀ s ∈ defaults.toList ++ [base], s.GivesTrees := by
    intro s hs
    rcases List.mem_append.mp hs with hs | hs
    · exact hdefaults s (Option.mem_toList.mp hs)
    · exact List.mem_singleton.mp hs ▸ hbase
  exact reserved_of_advance hlower hsound.tree_frozen hnot hpass rfl

/-- A base that holds a table under the reserved name. -/
def reservedBase : Source := .fixed "mapping" [("profiles", .map [("default", .map [])])]

theorem givesTrees_reservedBase : reservedBase.GivesTrees := Source.givesTrees_fixed "mapping" (by decide)

/-- A tombstone beneath the place of the reserved name is caught when the loader is built, a table under the name in
    the base when the loader makes a pass. -/
theorem tombstone_beneath_the_reserved_name_is_caught :
    (((Builder.new (some reservedBase) none none).edits
        [.write (.unset (.scalar (.text "profiles.default.a")))]).build (.ofEnvironment [])).1 =
      .error (.reservedProfile defaultProfile) ∧
    ∃ trees v', HandsOut [reservedBase] (.ofEnvironment []) trees v' ∧
      ∃ t ∈ trees, (t.find? reservedPlace).isSome := by
  have hunset : ∀ e ∈ [Edit.write (.unset (.scalar (.text "profiles.default.a")))], e.Distinct := by
    simp [Edit.Distinct, Call.Distinct]
  have hnone : ∀ e ∈ ([] : List Edit), e.Distinct := by simp
  have hdefaults : ∀ d ∈ (none : Option Source), d.GivesTrees := by simp
  refine ⟨?_, ?_⟩
  · refine ((reserved_name_is_caught none hunset givesTrees_reservedBase hdefaults).1 _ _).mpr ⟨rfl, .inr (.inl ?_)⟩
    have hwrites : ((Builder.new (some reservedBase) none none).edits
        [.write (.unset (.scalar (.text "profiles.default.a")))]).writes =
          [(⟨["profiles", "default", "a"], by decide, by decide⟩, .unset)] := by
      have hpath : (Raw.scalar (.text "profiles.default.a")).referredPath =
          .ok ⟨["profiles", "default", "a"], by decide, by decide⟩ := rfl
      rw [edits_cons, edits_nil, edit, call, hpath]
      show (keep _ (write _ _ .unset)).writes = _
      rw [write, freeze]
      rfl
    rw [hwrites]
    exact ⟨_, List.mem_cons_self, ["a"], rfl⟩
  · exact (reserved_name_is_caught none hnone givesTrees_reservedBase hdefaults).2 (.ofEnvironment []) _ _ _ rfl
      .fresh (.ofEnvironment []) "default" rfl

end Builder
end LayeredConfig
