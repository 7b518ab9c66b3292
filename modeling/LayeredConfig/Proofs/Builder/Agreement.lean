import LayeredConfig.Proofs.Builder.Prepared
import LayeredConfig.Proofs.Builder.Reserved
import LayeredConfig.Proofs.Profile.Offered
/-!
# Two ways into a profile

Values get into a profile of a builder directly, each as it is written, or prepared apart and handed over together.
Call by call, what is prepared follows what is written directly: whenever the one is written to, so is the other, and
what is prepared so far is what has been laid into the profile so far (`run_writeEach`). So both ways leave the same
entries, whatever was written before them (`prepared_and_direct_writes_agree`), although neither the order of the writes
nor the labels of refused values are the same.
-/
namespace LayeredConfig

/-! ## Equal entries -/

theorem Writes.tree_eq_of_entries {ws vs : Writes} (h : ws.entries = vs.entries) : ws.tree = vs.tree := by
  have hinjective : Function.Injective fun e : Path × Value => (e.1.text, e.2) := by
    intro d e heq
    obtain ⟨htext, hvalue⟩ := Prod.mk.inj heq
    exact Prod.ext (Path.text_inj.mp htext) hvalue
  have hordered : ws.ordered = vs.ordered := (List.map_injective_iff.mpr hinjective) h
  rw [tree, tree, hordered]

namespace Builder

variable {b b₁ b₂ : Builder} {n text : String} {ws : Writes} {p place : Path} {v w : Value}

theorem build_of_tree_eq (hbase : b₁.base = b₂.base) (hdefaults : b₁.defaults = b₂.defaults)
    (hsettings : b₁.settings = b₂.settings) (hdeclared : b₁.declared = b₂.declared)
    (htree : b₁.writes.tree = b₂.writes.tree) (world : World) : b₁.build world = b₂.build world := by
  have hlayers : b₁.layers = b₂.layers := by
    funext lower
    rw [layers, layers, hdefaults, htree]
  rw [build, build, hbase, hsettings, hdeclared, htree, hlayers]

theorem LaidIn.entries_unique {values : List (String × Raw)} (h₁ : LaidIn n values b b₁) (h₂ : LaidIn n values b b₂)
    (hw₁ : b₁.writes.Sound) (hw₂ : b₂.writes.Sound) : b₁.writes.entries = b₂.writes.entries := by
  refine eq_of_ascending hw₁.entries_ascending hw₂.entries_ascending ?_
  rintro ⟨text, w⟩
  rw [h₁.entries, h₂.entries]

/-! ## Preparing one value more -/

theorem laidIn_prepare_iff (hws : ws.Sound) :
    LaidIn n ws.prepare b b₁ ↔ ∀ text w, (text, w) ∈ b₁.writes.entries ↔
      (∃ q, (q, w) ∈ ws ∧ text = joinDots [profilesKey, n, q.text]) ∨
        ((text, w) ∈ b.writes.entries ∧ ∀ q u, (q, u) ∈ ws → text ≠ joinDots [profilesKey, n, q.text]) := by
  have hgiven (text : String) (w : Value) : (∃ e ∈ ws.prepare, text = placeIn n e ∧ Taken n e w) ↔
      ∃ q, (q, w) ∈ ws ∧ text = joinDots [profilesKey, n, q.text] := by
    constructor
    · rintro ⟨e, he, htext, _, htaken⟩
      obtain ⟨⟨q, u⟩, hq, rfl⟩ := List.mem_map.mp he
      obtain rfl : u = w := Except.ok.inj ((freeze_thaw _ u (hws.frozen _ hq)).symm.trans htaken)
      exact ⟨q, hq, htext⟩
    · rintro ⟨q, hq, htext⟩
      exact ⟨_, List.mem_map_of_mem hq, htext, ⟨q, Path.parse_text q⟩, freeze_thaw _ w (hws.frozen _ hq)⟩
  have hapart (text : String) : (∀ e ∈ ws.prepare, text ≠ placeIn n e) ↔
      ∀ q u, (q, u) ∈ ws → text ≠ joinDots [profilesKey, n, q.text] := by
    constructor
    · intro h q u hq
      exact h _ (List.mem_map_of_mem hq)
    · intro h e he
      obtain ⟨⟨q, u⟩, hq, rfl⟩ := List.mem_map.mp he
      exact h q u hq
  constructor
  · intro h text w
    rw [h.entries, hgiven, hapart]
  · intro h
    refine ⟨fun e he => taken_of_mem_prepare hws n he, fun text w => ?_⟩
    rw [h, hgiven, hapart]

theorem LaidIn.put (hws : ws.Sound) (hw₁ : b₁.writes.Sound) (h : LaidIn n ws.prepare b b₁)
    (hplace : place.text = joinDots [profilesKey, n, p.text]) (hv : v.Frozen) :
    LaidIn n (ws.put p v).prepare b { b₁ with writes := b₁.writes.put place v } := by
  rw [laidIn_prepare_iff hws] at h
  rw [laidIn_prepare_iff (hws.put p hv)]
  -- the new path stands at its place at once; any other entry was prepared before, or stood in the builder
  have hself : (p, v) ∈ ws.put p v := (Writes.mem_put_iff hws).mpr (.inl ⟨rfl, rfl⟩)
  intro text w
  rw [Writes.mem_entries_put hw₁, h]
  constructor
  · rintro (⟨rfl, rfl⟩ | ⟨⟨q, hq, rfl⟩ | ⟨hold, hapart⟩, hne⟩)
    · exact .inl ⟨p, hself, hplace⟩
    · refine .inl ⟨q, (Writes.mem_put_iff hws).mpr (.inr ⟨hq, ?_⟩), rfl⟩
      rintro rfl
      exact hne hplace.symm
    · refine .inr ⟨hold, fun q u hq => ?_⟩
      rcases (Writes.mem_put_iff hws).mp hq with ⟨rfl, _⟩ | ⟨hq, _⟩
      · rw [← hplace]
        exact hne
      · exact hapart q u hq
  · rintro (⟨q, hq, rfl⟩ | ⟨hold, hapart⟩)
    · rcases (Writes.mem_put_iff hws).mp hq with ⟨rfl, rfl⟩ | ⟨hq, hne⟩
      · exact .inl ⟨hplace.symm, rfl⟩
      · refine .inr ⟨.inl ⟨q, hq, rfl⟩, fun heq => hne ?_⟩
        exact Path.text_inj.mp (placeIn_inj (d := (q.text, .null)) (e := (p.text, .null)) (heq.trans hplace))
    · refine .inr ⟨.inr ⟨hold, fun q u hq => ?_⟩, hplace ▸ hapart p v hself⟩
      by_cases hqp : q = p
      · rw [hqp]
        exact hapart p v hself
      · exact hapart q u ((Writes.mem_put_iff hws).mpr (.inr ⟨hq, hqp⟩))

end Builder

/-! ## Both ways in a session -/

namespace Session

variable {s s₁ s₂ : State} {i j : Nat} {b b₁ : Builder} {n : String} {ws : Writes}

/-- Calls to anything that values can be written to, one after the other, up to the first that is refused. -/
def writeEach (target : Target) : List Call → Act Unit
  | [] => pure ()
  | c :: rest => do
    let _ ← writeTo target c
    writeEach target rest

/-- Calls inside a profile of a builder. -/
def writeDirectly (i : Nat) (name : Raw) (calls : List Call) : Act Unit := do
  let n ← inProfile i name
  writeEach (.scope i n) calls

/-- The same calls to a prepared profile, which is handed to the builder then. -/
def writePrepared (i : Nat) (name : Raw) (calls : List Call) : Act Unit := do
  let j ← newDraft
  writeEach (.draft j) calls
  let ws ← draft j
  withProfile i name ws.prepare

theorem run_draft (hj : s.drafts[j]? = some ws) : (draft j).run s = (.ok ws, s) := by
  show ((Except.ok (s.drafts[j]?.getD []) : Outcome Writes), s) = _
  rw [hj]
  rfl

theorem run_writeTo_draft (hj : s.drafts[j]? = some ws) (c : Call) :
    (writeTo (.draft j) c).run s =
      match c.written with
      | .ok (path, v) => (.ok none, { s with drafts := s.drafts.set j (ws.put path v) })
      | .error f => (.error f, s) := by
  rw [run_writeTo]
  cases hgiven : c.given with
  | error f => rw [Call.written_of_given_error hgiven]
  | ok given =>
    obtain ⟨path, raw⟩ := given
    dsimp only
    rw [Call.written_of_given hgiven, writeAt, run_bind, run_draft hj]
    dsimp only
    rw [run_bind, run_done]
    cases freeze path.text raw <;> rfl

theorem run_writeTo_scope (hb : s.builders[i]? = some b) (hn : IsSegment n) (c : Call) :
    (∃ p v place, c.written = .ok (p, v) ∧ place.text = joinDots [profilesKey, n, p.text] ∧
      (writeTo (.scope i n) c).run s =
        (.ok none, { s with builders := s.builders.set i { b with writes := b.writes.put place v } })) ∨
      ∃ f g, c.written = .error f ∧ (writeTo (.scope i n) c).run s = (.error g, s) := by
  rw [run_writeTo]
  cases hgiven : c.given with
  | error f => exact .inr ⟨f, f, Call.written_of_given_error hgiven, rfl⟩
  | ok given =>
    obtain ⟨p, raw⟩ := given
    obtain ⟨place, hplace, htext⟩ := p.inProfile_comes_out hn
    dsimp only
    rw [Call.written_of_given hgiven, run_writeAt_scope hb, Builder.writeInProfile_of_place hplace, Builder.write]
    -- a value freezes under every label or under none
    cases hv : freeze p.text raw with
    | ok v =>
      rw [freeze_relabel raw place.text hv]
      exact .inl ⟨p, v, place, rfl, htext, rfl⟩
    | error f =>
      cases hw : freeze place.text raw with
      | ok w =>
        rw [freeze_relabel raw p.text hw] at hv
        cases hv
      | error g => exact .inr ⟨f, g, rfl, rfl⟩

/-- **Call by call both ways go together.** As long as what was prepared is what was laid in, the next call is refused
    on both ways, or it is prepared and laid in. -/
theorem run_writeEach (s₁ s₂ : State) (hn : IsSegment n) {calls : List Call} (hcalls : ∀ c ∈ calls, c.Distinct)
    (hb₁ : s₁.builders[i]? = some b₁) (hj : s₂.drafts[j]? = some ws) (hw₁ : b₁.writes.Sound) (hws : ws.Sound)
    (hlaid : Builder.LaidIn n ws.prepare b b₁) :
    (∃ vs us, (∀ c ∈ calls, ∃ e, c.written = .ok e) ∧ vs.Sound ∧ us.Sound ∧
      Builder.LaidIn n us.prepare b { b₁ with writes := vs } ∧
      (writeEach (.scope i n) calls).run s₁ =
        (.ok (), { s₁ with builders := s₁.builders.set i { b₁ with writes := vs } }) ∧
      (writeEach (.draft j) calls).run s₂ = (.ok (), { s₂ with drafts := s₂.drafts.set j us })) ∨
    (¬ ∀ c ∈ calls, ∃ e, c.written = .ok e) ∧ (∃ f t₁, (writeEach (.scope i n) calls).run s₁ = (.error f, t₁)) ∧
      ∃ g t₂, (writeEach (.draft j) calls).run s₂ = (.error g, t₂) := by
  -- `LaidIn` carries the induction: what has been prepared so far is what has been laid in so far
  induction calls generalizing s₁ s₂ b₁ ws with
  | nil =>
    refine .inl ⟨b₁.writes, ws, by simp, hw₁, hws, hlaid, ?_, ?_⟩
    · rw [set_builder_self hb₁]
      rfl
    · obtain ⟨hlength, rfl⟩ := List.getElem?_eq_some_iff.mp hj
      rw [List.set_getElem_self]
      rfl
  | cons c rest ih =>
    obtain ⟨hc, hrest⟩ := List.forall_mem_cons.mp hcalls
    have hdraft := run_writeTo_draft hj c
    obtain ⟨p, v, place, hwritten, hplace, hscope⟩ | ⟨f, g, hwritten, hscope⟩ := run_writeTo_scope hb₁ hn c
    · have hv : v.Frozen := Call.written_frozen hc hwritten
      have hi : i < s₁.builders.length := (List.getElem?_eq_some_iff.mp hb₁).1
      have hj' : j < s₂.drafts.length := (List.getElem?_eq_some_iff.mp hj).1
      rw [hwritten] at hdraft
      dsimp only at hdraft
      rw [writeEach, writeEach, run_bind, run_bind, hscope, hdraft]
      dsimp only
      obtain ⟨vs, us, hwrote, hvs, hus, hlaid, hdirect, hprepared⟩ | ⟨hnot, hdirect, hprepared⟩ :=
        ih { s₁ with builders := s₁.builders.set i { b₁ with writes := b₁.writes.put place v } }
          { s₂ with drafts := s₂.drafts.set j (ws.put p v) } hrest (List.getElem?_set_self hi)
          (List.getElem?_set_self hj') (hw₁.put place hv) (hws.put p hv) (hlaid.put hws hw₁ hplace hv)
      · refine .inl ⟨vs, us, List.forall_mem_cons.mpr ⟨⟨_, hwritten⟩, hwrote⟩, hvs, hus, hlaid, ?_, ?_⟩
        · rw [hdirect, List.set_set]
        · rw [hprepared, List.set_set]
      · exact .inr ⟨fun h => hnot (List.forall_mem_cons.mp h).2, hdirect, hprepared⟩
    · refine .inr ⟨?_, ?_, ?_⟩
      · intro h
        obtain ⟨e, he⟩ := h c List.mem_cons_self
        rw [hwritten] at he
        cases he
      · exact ⟨g, s₁, by rw [writeEach, run_bind, hscope]⟩
      · exact ⟨f, s₂, by rw [writeEach, run_bind, hdraft, hwritten]⟩

theorem run_writeDirectly (hb : s.builders[i]? = some b) {name : Raw} (hname : name.profileName = .ok n)
    (calls : List Call) :
    (writeDirectly i name calls).run s = (writeEach (.scope i n) calls).run
      { s with builders := s.builders.set i { b with declared := b.declared ++ [n] } } := by
  rw [writeDirectly, run_bind, run_inProfile hb, Builder.declare, hname]
  rfl

theorem run_newDraft (s : State) : newDraft.run s = (.ok s.drafts.length, { s with drafts := s.drafts ++ [[]] }) := rfl

/-- What a builder becomes when a prepared profile is handed to it: the values are laid in, and the profile is
    declared. -/
theorem exists_withProfile_prepare (hw : b.writes.Sound) {name : Raw} (hname : name.profileName = .ok n)
    (hws : ws.Sound) :
    ∃ vs, b.withProfile name ws.prepare = (.ok (), { b with writes := vs, declared := b.declared ++ [n] }) ∧
      vs.Sound ∧ Builder.LaidIn n ws.prepare b { b with writes := vs, declared := b.declared ++ [n] } := by
  have hdistinct := Builder.prepare_distinct hws
  have hextends := Builder.extends_withProfile b name hdistinct
  have hdeclared : (b.withProfile name ws.prepare).2.declared = b.declared ++ [n] := by
    rw [Builder.withProfile_of_name hname]
    exact Builder.declared_writeAll _ n _
  obtain ⟨b', hresult, hlaid⟩ | ⟨before, refused, after, f, b', hsplit, hf, _⟩ :=
    Builder.withProfile_laidIn hname b hw (Builder.prepare_texts_nodup hws) hdistinct
  · rw [hresult] at hextends hdeclared
    have hb' : b' = { b with writes := b'.writes, declared := b.declared ++ [n] } := by
      rw [← hextends.base, ← hextends.defaults, ← hextends.settings, ← hdeclared]
    exact ⟨b'.writes, hb' ▸ hresult, hextends.sound hw, hb' ▸ hlaid⟩
  · have hmem : refused ∈ ws.prepare := (Builder.entries_perm ws.prepare).mem_iff.mp (by simp [hsplit])
    obtain ⟨w, htaken⟩ := Builder.taken_of_mem_prepare hws n hmem
    exact absurd hf htaken.not_refused

/-- What comes of both ways: the same values are laid in on both, or both are refused. -/
theorem run_both_ways (hb : s.builders[i]? = some b) (hw : b.writes.Sound) {name : Raw}
    (hname : name.profileName = .ok n) {calls : List Call} (hcalls : ∀ c ∈ calls, c.Distinct) :
    (∃ vs vs' us, (∀ c ∈ calls, ∃ e, c.written = .ok e) ∧ vs.Sound ∧ vs'.Sound ∧
      Builder.LaidIn n us.prepare b { b with writes := vs, declared := b.declared ++ [n] } ∧
      Builder.LaidIn n us.prepare b { b with writes := vs', declared := b.declared ++ [n] } ∧
      (writeDirectly i name calls).run s = (.ok (),
        { s with builders := s.builders.set i { b with writes := vs, declared := b.declared ++ [n] } }) ∧
      (writePrepared i name calls).run s = (.ok (), { s with
        drafts := s.drafts ++ [us]
        builders := s.builders.set i { b with writes := vs', declared := b.declared ++ [n] } })) ∨
    (¬ ∀ c ∈ calls, ∃ e, c.written = .ok e) ∧ (∃ f t, (writeDirectly i name calls).run s = (.error f, t)) ∧
      ∃ g t, (writePrepared i name calls).run s = (.error g, t) := by
  have hi : i < s.builders.length := (List.getElem?_eq_some_iff.mp hb).1
  have hstart : Builder.LaidIn n (Writes.prepare []) b { b with declared := b.declared ++ [n] } :=
    ⟨by simp [Writes.prepare], by simp [Writes.prepare]⟩
  rw [run_writeDirectly hb hname, writePrepared, run_bind, run_newDraft]
  dsimp only
  rw [run_bind]
  obtain ⟨vs, us, hwritten, hvs, hus, hlaid, hscope, hdraft⟩ | ⟨hnot, ⟨f, t, hscope⟩, g, t', hdraft⟩ :=
    run_writeEach { s with builders := s.builders.set i { b with declared := b.declared ++ [n] } }
      { s with drafts := s.drafts ++ [[]] } (Raw.profileName_eq_ok_iff.mp hname).2 hcalls (List.getElem?_set_self hi)
      List.getElem?_concat_length hw Writes.sound_nil hstart
  · obtain ⟨vs', hresult, hvs', hlaid'⟩ := exists_withProfile_prepare hw hname hus
    refine .inl ⟨vs, vs', us, hwritten, hvs, hvs', hlaid, hlaid', ?_, ?_⟩
    · rw [hscope, List.set_set]
    · have hset : (s.drafts ++ [[]]).set s.drafts.length us = s.drafts ++ [us] := by simp
      rw [hdraft, hset]
      dsimp only
      rw [run_bind, run_draft List.getElem?_concat_length]
      dsimp only
      rw [run_withProfile (s := { s with drafts := s.drafts ++ [us] }) hb, hresult]
  · refine .inr ⟨hnot, ⟨f, t, hscope⟩, g, t', ?_⟩
    rw [hdraft]

/-- **Prepared and direct writes agree.** Let a builder that was edited in any way be written to inside a profile by any
    calls, or let the same calls prepare the profile first, and hand it over then. Both ways succeed just when none of
    the calls is refused. They leave the same entries: beneath the table of the profile what was prepared, and elsewhere
    what stood there before, whatever paths were written twice or stand above each other. So in any world both builders
    build loaders over the same sources, and the loaders serve the same profiles. -/
theorem prepared_and_direct_writes_agree {base defaults : Option Source} {settings : Option Settings} {es : List Edit}
    (hes : ∀ e ∈ es, e.Distinct) (hb : s.builders[i]? = some ((Builder.new base defaults settings).edits es))
    {name : Raw} (hname : name.profileName = .ok n) {calls : List Call} (hcalls : ∀ c ∈ calls, c.Distinct) :
    let b := (Builder.new base defaults settings).edits es
    ((∃ s₁, (writeDirectly i name calls).run s = (.ok (), s₁)) ↔ ∀ c ∈ calls, ∃ e, c.written = .ok e) ∧
      ((∃ s₂, (writePrepared i name calls).run s = (.ok (), s₂)) ↔ ∀ c ∈ calls, ∃ e, c.written = .ok e) ∧
      ∀ s₁ s₂, (writeDirectly i name calls).run s = (.ok (), s₁) → (writePrepared i name calls).run s = (.ok (), s₂) →
        ∃ b₁ b₂ ws, s₁ = { s with builders := s.builders.set i b₁ } ∧
          s₂ = { s with drafts := s.drafts ++ [ws], builders := s.builders.set i b₂ } ∧
          b₁.writes.entries = b₂.writes.entries ∧ Builder.LaidIn n ws.prepare b b₁ ∧
          (∀ w, b₁.build w = b₂.build w) ∧ ∀ w config, b₁.Serves w config ↔ b₂.Serves w config := by
  intro b
  have hw : b.writes.Sound := (Builder.extends_edits _ hes).sound Writes.sound_nil
  obtain ⟨vs, vs', us, hwritten, hvs, hvs', hlaid, hlaid', hdirect, hprepared⟩ |
    ⟨hnot, ⟨f, t, hdirect⟩, g, t', hprepared⟩ := run_both_ways hb hw hname hcalls
  · refine ⟨⟨fun _ => hwritten, fun _ => ⟨_, hdirect⟩⟩, ⟨fun _ => hwritten, fun _ => ⟨_, hprepared⟩⟩, ?_⟩
    intro s₁ s₂ h₁ h₂
    obtain ⟨_, rfl⟩ := Prod.mk.inj (hdirect.symm.trans h₁)
    obtain ⟨_, rfl⟩ := Prod.mk.inj (hprepared.symm.trans h₂)
    have hentries : vs.entries = vs'.entries := hlaid.entries_unique hlaid' hvs hvs'
    have hbuild : ∀ w, ({ b with writes := vs, declared := b.declared ++ [n] } : Builder).build w =
        ({ b with writes := vs', declared := b.declared ++ [n] } : Builder).build w :=
      Builder.build_of_tree_eq rfl rfl rfl rfl (Writes.tree_eq_of_entries hentries)
    refine ⟨_, _, us, rfl, rfl, hentries, hlaid, hbuild, fun w config => ?_⟩
    rw [Builder.Serves, Builder.Serves, hbuild]
  · refine ⟨?_, ?_, ?_⟩
    · rw [hdirect]
      exact iff_of_false (fun ⟨_, h⟩ => by cases h) hnot
    · rw [hprepared]
      exact iff_of_false (fun ⟨_, h⟩ => by cases h) hnot
    · intro s₁ _ h₁
      rw [hdirect] at h₁
      cases h₁

/-- A path that is written twice, one beneath it that is hidden, and entries that stood in the profile before. -/
theorem rewritten_paths_agree :
    let es : List Edit := [.write (.value (.scalar (.text "profiles.x.a")) (.scalar (.int 0))),
      .write (.value (.scalar (.text "profiles.x.d")) (.scalar (.int 7)))]
    let calls : List Call := [.value (.scalar (.text "b")) (.scalar (.int 1)), .unset (.scalar (.text "b.c")),
      .value (.scalar (.text "a")) (.scalar (.int 2)), .value (.scalar (.text "b")) (.scalar (.int 3))]
    let name : Raw := .scalar (.text "x")
    let s : State := { State.start [] with builders := [(Builder.new none none none).edits es] }
    ∃ b₁ b₂ ws, (writeDirectly 0 name calls).run s = (.ok (), { s with builders := [b₁] }) ∧
      (writePrepared 0 name calls).run s = (.ok (), { s with drafts := [ws], builders := [b₂] }) ∧
      b₁.writes.entries = b₂.writes.entries ∧ ∀ w, b₁.build w = b₂.build w := by
  intro es calls name s
  have hvalue (key : String) (n : Int) (path : Path) (h : (Raw.scalar (.text key)).referredPath = .ok path)
      (hn : (Scalar.int n).fits = true) :
      ∃ e, (Call.value (.scalar (.text key)) (.scalar (.int n))).written = .ok e := by
    have hgiven : (Call.value (.scalar (.text key)) (.scalar (.int n))).given = .ok (path, .scalar (.int n)) := by
      rw [Call.given, h]
      rfl
    rw [Call.written_of_given hgiven, freeze, if_pos hn]
    exact ⟨_, rfl⟩
  have hunset : ∃ e, (Call.unset (.scalar (.text "b.c"))).written = .ok e := by
    rw [Call.written_of_given rfl, freeze]
    exact ⟨_, rfl⟩
  have hwritten : ∀ c ∈ calls, ∃ e, c.written = .ok e := by
    simp only [calls, List.forall_mem_cons, List.not_mem_nil, false_imp_iff, implies_true, and_true]
    exact ⟨hvalue "b" 1 ⟨["b"], by decide, by decide⟩ rfl rfl, hunset,
      hvalue "a" 2 ⟨["a"], by decide, by decide⟩ rfl rfl, hvalue "b" 3 ⟨["b"], by decide, by decide⟩ rfl rfl⟩
  have hcalls : ∀ c ∈ calls, c.Distinct := by simp [calls, Call.Distinct, Raw.Distinct]
  have hes : ∀ e ∈ es, e.Distinct := by simp [es, Edit.Distinct, Call.Distinct, Raw.Distinct]
  have hb : s.builders[0]? = some ((Builder.new none none none).edits es) := rfl
  have hname : name.profileName = .ok "x" := rfl
  obtain ⟨hdirect, hprepared, hagree⟩ := prepared_and_direct_writes_agree hes hb hname hcalls
  obtain ⟨s₁, h₁⟩ := hdirect.mpr hwritten
  obtain ⟨s₂, h₂⟩ := hprepared.mpr hwritten
  obtain ⟨b₁, b₂, ws, rfl, rfl, hentries, _, hbuild, _⟩ := hagree s₁ s₂ h₁ h₂
  exact ⟨b₁, b₂, ws, h₁, h₂, hentries, hbuild⟩

end Session
end LayeredConfig
