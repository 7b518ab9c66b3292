import LayeredConfig.Proofs.Builder.Calls
import LayeredConfig.Proofs.Reference
/-!
# Edits of a builder

Until it builds, a builder is edited: it is written to, asked for a profile, written to inside a profile, or given what
was prepared for one. An edit that fails leaves the builder as it is, but for prepared values that were laid in before
the one that is refused. Any edits leave a builder over the sources it had, and its writes as a builder keeps them
(`extends_edits`). In a session a builder becomes by an edit what the edit makes of it (`Session.run_edit`).
-/
namespace LayeredConfig

/-- Something that is done to a builder before it builds. -/
inductive Edit where
  | write (c : Call)
  | declare (name : Raw)
  | writeIn (name : String) (c : Call)
  | prepared (name : Raw) (overrides : ProfileOverrides)

def Edit.Distinct : Edit → Prop
  | write c => c.Distinct
  | declare _ => True
  | writeIn _ c => c.Distinct
  | prepared _ overrides => ∀ e ∈ overrides, e.2.Distinct

namespace Builder

variable {b b' : Builder} {name : String} {path : Path} {v : Raw}

/-- The builder that comes of a step; a step that fails leaves the builder as it is. -/
def keep (b : Builder) (result : Outcome Builder) : Builder := result.toOption.getD b

def edit (b : Builder) : Edit → Builder
  | .write c => b.keep (b.call c)
  | .declare name => b.keep ((b.declare name).map (·.2))
  | .writeIn name c => b.keep (c.given >>= fun given => b.writeInProfile name given.1 given.2)
  | .prepared name overrides => (b.withProfile name overrides).2

def edits (b : Builder) (es : List Edit) : Builder := es.foldl edit b

@[simp] theorem edits_nil (b : Builder) : b.edits [] = b := rfl

@[simp] theorem edits_cons (b : Builder) (e : Edit) (es : List Edit) : b.edits (e :: es) = (b.edit e).edits es := rfl

theorem edits_append (b : Builder) (es more : List Edit) : b.edits (es ++ more) = (b.edits es).edits more :=
  List.foldl_append

/-! ## What edits keep -/

/-- Whether a builder comes of another one by edits, as far as its sources go and how it keeps its writes. -/
structure Extends (b b' : Builder) : Prop where
  base : b'.base = b.base
  defaults : b'.defaults = b.defaults
  settings : b'.settings = b.settings
  sound : b.writes.Sound → b'.writes.Sound

theorem Extends.refl (b : Builder) : b.Extends b := ⟨rfl, rfl, rfl, id⟩

theorem Extends.trans {b'' : Builder} (h : b.Extends b') (h' : b'.Extends b'') : b.Extends b'' :=
  ⟨h'.base.trans h.base, h'.defaults.trans h.defaults, h'.settings.trans h.settings, h'.sound ∘ h.sound⟩

theorem extends_put (b : Builder) (path : Path) {w : Value} (hw : w.Frozen) :
    b.Extends { b with writes := b.writes.put path w } :=
  ⟨rfl, rfl, rfl, fun h => h.put path hw⟩

theorem extends_declared (b : Builder) (names : List String) : b.Extends { b with declared := names } :=
  ⟨rfl, rfl, rfl, id⟩

theorem extends_keep {result : Outcome Builder} (h : ∀ b', result = .ok b' → b.Extends b') :
    b.Extends (b.keep result) := by
  cases result with
  | error f => exact .refl b
  | ok b' => exact h b' rfl

theorem writeInProfile_of_place {place : Path} (h : path.inProfile name = .ok place) (b : Builder) (v : Raw) :
    b.writeInProfile name path v = b.write place v := by
  rw [writeInProfile, h]
  rfl

theorem writeInProfile_eq_ok (hv : v.Distinct) (h : b.writeInProfile name path v = .ok b') :
    ∃ (place : Path) (w : Value), place.segments = profilePlace name path.segments ∧ w.Frozen ∧
      b' = { b with writes := b.writes.put place w } := by
  obtain ⟨place, hplace, h⟩ := Outcome.bind_eq_ok_iff.mp h
  obtain ⟨w, hw, hb⟩ := write_eq_ok hv h
  exact ⟨place, w, Path.segments_of_inProfile hplace, hw, hb⟩

theorem extends_writeAll (b : Builder) (name : String) {values : List (String × Raw)}
    (hv : ∀ e ∈ values, e.2.Distinct) : b.Extends (b.writeAll name values).2 := by
  induction values generalizing b with
  | nil => exact .refl b
  | cons e rest ih =>
    obtain ⟨text, v⟩ := e
    obtain ⟨hfirst, hrest⟩ := List.forall_mem_cons.mp hv
    rw [writeAll]
    split
    · exact .refl b
    · split
      · exact .refl b
      · rename_i path _ b' hb
        obtain ⟨place, w, _, hw, rfl⟩ := writeInProfile_eq_ok hfirst hb
        exact (extends_put b place hw).trans (ih _ hrest)

theorem extends_withProfile (b : Builder) (name : Raw) {overrides : ProfileOverrides}
    (hv : ∀ e ∈ overrides, e.2.Distinct) : b.Extends (b.withProfile name overrides).2 := by
  rw [withProfile]
  split
  · exact .refl b
  · rename_i n b' hdeclared
    obtain ⟨_, _, hb⟩ := Outcome.map_eq_ok_iff.mp hdeclared
    cases hb
    have hentries : ∀ e ∈ overrides.entries, e.2.Distinct := fun e he => hv e ((sortOrdered_perm _).mem_iff.mp he)
    exact (extends_declared b (b.declared ++ [n])).trans (extends_writeAll _ n hentries)

theorem extends_edit (b : Builder) {e : Edit} (he : e.Distinct) : b.Extends (b.edit e) := by
  cases e with
  | write c =>
    apply extends_keep
    intro b' hb
    obtain ⟨path, w, hw, rfl⟩ := call_eq_ok he hb
    exact extends_put b path hw
  | declare name =>
    apply extends_keep
    intro b' hb
    obtain ⟨⟨n, b''⟩, hdeclared, rfl⟩ := Outcome.map_eq_ok_iff.mp hb
    obtain ⟨_, _, hdeclared⟩ := Outcome.map_eq_ok_iff.mp hdeclared
    cases hdeclared
    exact extends_declared b _
  | writeIn name c =>
    apply extends_keep
    intro b' hb
    obtain ⟨given, hgiven, hb⟩ := Outcome.bind_eq_ok_iff.mp hb
    obtain ⟨place, w, _, hw, rfl⟩ := writeInProfile_eq_ok (Call.given_distinct he hgiven) hb
    exact extends_put b place hw
  | prepared name overrides => exact extends_withProfile b name he

/-- Edits leave a builder over its sources, with every path written once and every value in frozen form. -/
theorem extends_edits (b : Builder) {es : List Edit} (hes : ∀ e ∈ es, e.Distinct) : b.Extends (b.edits es) := by
  induction es generalizing b with
  | nil => exact .refl b
  | cons e rest ih =>
    obtain ⟨he, hrest⟩ := List.forall_mem_cons.mp hes
    exact (extends_edit b he).trans (ih (b.edit e) hrest)

theorem writes_edit_writeIn (b : Builder) (name : String) {c : Call} (hc : c.Distinct) :
    (b.edit (.writeIn name c)).writes = b.writes ∨
      ∃ (place : Path) (w : Value), [profilesKey, name] <+: place.segments ∧ w.Frozen ∧
        (b.edit (.writeIn name c)).writes = b.writes.put place w := by
  rw [edit]
  cases hresult : c.given >>= fun given => b.writeInProfile name given.1 given.2 with
  | error f => exact .inl rfl
  | ok b' =>
    obtain ⟨given, hgiven, hb⟩ := Outcome.bind_eq_ok_iff.mp hresult
    obtain ⟨place, w, hplace, hw, rfl⟩ := writeInProfile_eq_ok (Call.given_distinct hc hgiven) hb
    exact .inr ⟨place, w, hplace ▸ List.prefix_append [profilesKey, name] given.1.segments, hw, rfl⟩

theorem edit_writeIn_value (b : Builder) (name : String) {ref v : Raw} {path place : Path} {w : Value}
    (hpath : ref.referredPath = .ok path) (hplace : path.inProfile name = .ok place)
    (hw : freeze place.text v = .ok w) :
    b.edit (.writeIn name (.value ref v)) = { b with writes := b.writes.put place w } := by
  rw [edit, Call.given, hpath]
  show b.keep (b.writeInProfile name path v) = _
  rw [writeInProfile_of_place hplace, write, hw]
  rfl

theorem writes_edit_declare (b : Builder) (name : Raw) : (b.edit (.declare name)).writes = b.writes := by
  rw [edit, declare]
  cases name.profileName <;> rfl

end Builder

/-! ## Edits in a session -/

namespace Session

def edit (i : Nat) : Edit → Act Unit
  | .write c => do let _ ← writeTo (.builder i) c
  | .declare name => do let _ ← inProfile i name
  | .writeIn name c => do let _ ← writeTo (.scope i name) c
  | .prepared name overrides => withProfile i name overrides

variable {s : State} {i : Nat} {b : Builder}

theorem set_builder_self (hb : s.builders[i]? = some b) : { s with builders := s.builders.set i b } = s := by
  obtain ⟨hi, rfl⟩ := List.getElem?_eq_some_iff.mp hb
  rw [List.set_getElem_self]

theorem run_writeAt_scope (hb : s.builders[i]? = some b) (name : String) (path : Path) (v : Raw) :
    (writeAt (.scope i name) path v).run s =
      match b.writeInProfile name path v with
      | .ok b' => (.ok none, { s with builders := s.builders.set i b' })
      | .error f => (.error f, s) := by
  rw [writeAt, run_bind, run_builder hb]
  simp only
  rw [run_bind, run_done]
  cases b.writeInProfile name path v <;> rfl

theorem run_inProfile (hb : s.builders[i]? = some b) (name : Raw) :
    (inProfile i name).run s =
      match b.declare name with
      | .ok (n, b') => (.ok n, { s with builders := s.builders.set i b' })
      | .error f => (.error f, s) := by
  rw [inProfile, run_bind, run_builder hb]
  simp only
  rw [run_bind, run_done]
  cases b.declare name <;> rfl

/-- Handing prepared values to a builder; what was laid in before one is refused stays. -/
theorem run_withProfile (hb : s.builders[i]? = some b) (name : Raw) (overrides : ProfileOverrides) :
    (withProfile i name overrides).run s = ((b.withProfile name overrides).1,
      { s with builders := s.builders.set i (b.withProfile name overrides).2 }) := by
  rw [withProfile, run_bind, run_builder hb]
  dsimp only
  cases b.withProfile name overrides with
  | mk result b' =>
    rw [run_bind]
    show (done result).run { s with builders := s.builders.set i b' } = _
    rw [run_done]

theorem run_discard {α : Type} (x : Act α) (s : State) : ((do let _ ← x : Act Unit).run s).2 = (x.run s).2 := by
  rw [run_bind]
  cases hx : x.run s with
  | mk result s' => cases result <;> rfl

theorem run_edit (hb : s.builders[i]? = some b) (e : Edit) :
    ((edit i e).run s).2 = { s with builders := s.builders.set i (b.edit e) } := by
  cases e with
  | write c =>
    rw [edit, run_discard, ← act_eq, run_act hb, Builder.edit]
    cases b.call c with
    | error f => exact (set_builder_self hb).symm
    | ok b' => rfl
  | declare name =>
    rw [edit, run_discard, run_inProfile hb, Builder.edit]
    cases b.declare name with
    | error f => exact (set_builder_self hb).symm
    | ok declared => rfl
  | writeIn name c =>
    rw [edit, run_discard, run_writeTo, Builder.edit]
    cases c.given with
    | error f => exact (set_builder_self hb).symm
    | ok given =>
      show ((writeAt (.scope i name) given.1 given.2).run s).2 =
        { s with builders := s.builders.set i (b.keep (b.writeInProfile name given.1 given.2)) }
      rw [run_writeAt_scope hb]
      cases b.writeInProfile name given.1 given.2 with
      | error f => exact (set_builder_self hb).symm
      | ok b' => rfl
  | prepared name overrides => rw [edit, run_withProfile hb, Builder.edit]

end Session
end LayeredConfig
