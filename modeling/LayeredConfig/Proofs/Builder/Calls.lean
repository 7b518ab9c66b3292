import LayeredConfig.Proofs.Session.Requests
import LayeredConfig.Proofs.Tree.Loose
import LayeredConfig.Proofs.Value.Reading
import LayeredConfig.Proofs.Writes
import LayeredConfig.Session.Building
/-!
# Calls of a builder

A builder is written to by calls: a raw value, a value of a kind, or a tombstone, each at an option. A call that
fails leaves the builder as it was (`Session.run_act`). Whatever the calls are and in whatever order, no path is
written twice and what is stored is frozen (`Builder.sound_after`), and the calls change nothing but the writes.
-/
namespace LayeredConfig

/-- A call by which a builder is written to. -/
inductive Call where
  | value (ref value : Raw)
  | typed (kind : Kind) (ref value : Raw)
  | unset (ref : Raw)

/-- Whether the maps in the value of a call have each of their keys once, as maps do. -/
def Call.Distinct : Call → Prop
  | value _ v => v.Distinct
  | typed _ _ v => v.Distinct
  | unset _ => True

/-- The path and the raw value that a call hands on. -/
def Call.given : Call → Outcome (Path × Raw)
  | .value ref v => do
    let path ← ref.referredPath
    .ok (path, v)
  | .typed kind ref v => do
    let path ← ref.referredPath
    let w ← normalize kind path.text v
    .ok (path, w.thaw)
  | .unset ref => do
    let path ← ref.referredPath
    .ok (path, .unset)

/-- The maps in what a call hands on have each of their keys once; what is checked against a kind is frozen first. -/
theorem Call.given_distinct {c : Call} (hc : c.Distinct) {path : Path} {v : Raw} (h : c.given = .ok (path, v)) :
    v.Distinct := by
  cases c with
  | value ref w =>
    obtain ⟨_, _, h⟩ := Outcome.bind_eq_ok_iff.mp h
    cases h
    exact hc
  | typed kind ref w =>
    obtain ⟨_, _, h⟩ := Outcome.bind_eq_ok_iff.mp h
    obtain ⟨u, hu, h⟩ := Outcome.bind_eq_ok_iff.mp h
    cases h
    exact Value.Frozen.thaw_distinct u (normalize_frozen hc hu)
  | unset ref =>
    obtain ⟨_, _, h⟩ := Outcome.bind_eq_ok_iff.mp h
    cases h
    exact Raw.distinct_unset

namespace Builder

def call (b : Builder) : Call → Outcome Builder
  | .value ref v => do
    let path ← ref.referredPath
    b.write path v
  | .typed kind ref v => do
    let path ← ref.referredPath
    let w ← normalize kind path.text v
    b.write path w.thaw
  | .unset ref => do
    let path ← ref.referredPath
    b.write path .unset

/-- The builder after one call; a call that fails changes nothing. -/
def afterCall (b : Builder) (c : Call) : Builder :=
  match b.call c with
  | .ok b' => b'
  | .error _ => b

def after (b : Builder) (calls : List Call) : Builder := calls.foldl afterCall b

/-! ## What calls keep -/

theorem write_eq_ok {b b' : Builder} {path : Path} {v : Raw} (hv : v.Distinct) (h : b.write path v = .ok b') :
    ∃ w : Value, w.Frozen ∧ b' = { b with writes := b.writes.put path w } := by
  obtain ⟨w, hw, rfl⟩ := Outcome.map_eq_ok_iff.mp h
  exact ⟨w, freeze_frozen v hv hw, rfl⟩

theorem call_eq (b : Builder) (c : Call) : b.call c = c.given >>= fun given => b.write given.1 given.2 := by
  cases c with
  | value ref v =>
    rw [call, Call.given]
    cases ref.referredPath <;> rfl
  | typed kind ref v =>
    rw [call, Call.given]
    cases ref.referredPath with
    | error f => rfl
    | ok path =>
      show ((normalize kind path.text v).bind fun w => _) = ((normalize kind path.text v).bind fun w => _).bind _
      cases normalize kind path.text v <;> rfl
  | unset ref =>
    rw [call, Call.given]
    cases ref.referredPath <;> rfl

theorem call_eq_ok {b b' : Builder} {c : Call} (hc : c.Distinct) (h : b.call c = .ok b') :
    ∃ path v, v.Frozen ∧ b' = { b with writes := b.writes.put path v } := by
  rw [call_eq] at h
  obtain ⟨given, hgiven, h⟩ := Outcome.bind_eq_ok_iff.mp h
  obtain ⟨w, hw, rfl⟩ := write_eq_ok (Call.given_distinct hc hgiven) h
  exact ⟨given.1, w, hw, rfl⟩

theorem afterCall_value (b : Builder) {ref v : Raw} {path : Path} {w : Value} (hpath : ref.referredPath = .ok path)
    (hw : freeze path.text v = .ok w) :
    b.afterCall (.value ref v) = { b with writes := b.writes.put path w } := by
  rw [afterCall, call, hpath]
  show (match b.write path v with
    | .ok b' => b'
    | .error _ => b) = _
  rw [write, hw]
  rfl

theorem afterCall_unset (b : Builder) {ref : Raw} {path : Path} (hpath : ref.referredPath = .ok path) :
    b.afterCall (.unset ref) = { b with writes := b.writes.put path .unset } := by
  rw [afterCall, call, hpath]
  show (match b.write path .unset with
    | .ok b' => b'
    | .error _ => b) = _
  rw [write, freeze]
  rfl

theorem sound_afterCall {b : Builder} (h : b.writes.Sound) {c : Call} (hc : c.Distinct) :
    (b.afterCall c).writes.Sound := by
  unfold afterCall
  split
  · rename_i b' hb
    obtain ⟨path, v, hv, rfl⟩ := call_eq_ok hc hb
    exact h.put path hv
  · exact h

/-- After any calls every path is written once, and every value in frozen form. -/
theorem sound_after {b : Builder} (h : b.writes.Sound) {calls : List Call} (hc : ∀ c ∈ calls, c.Distinct) :
    (b.after calls).writes.Sound := by
  induction calls generalizing b with
  | nil => exact h
  | cons c rest ih =>
    obtain ⟨hc, hrest⟩ := List.forall_mem_cons.mp hc
    exact ih (sound_afterCall h hc) hrest

theorem call_with (b : Builder) (base defaults : Option Source) (settings : Option Settings) (c : Call) :
    ({ b with base := base, defaults := defaults, settings := settings } : Builder).call c =
      (b.call c).map fun b' => { b' with base := base, defaults := defaults, settings := settings } := by
  have hwrite : ∀ path v, ({ b with base := base, defaults := defaults, settings := settings } : Builder).write path v =
      (b.write path v).map fun b' => { b' with base := base, defaults := defaults, settings := settings } := by
    intro path v
    rw [write, write]
    cases freeze path.text v <;> rfl
  rw [call_eq, call_eq]
  cases c.given with
  | error f => rfl
  | ok given => exact hwrite given.1 given.2

theorem after_with (b : Builder) (base defaults : Option Source) (settings : Option Settings) (calls : List Call) :
    ({ b with base := base, defaults := defaults, settings := settings } : Builder).after calls =
      { b.after calls with base := base, defaults := defaults, settings := settings } := by
  induction calls generalizing b with
  | nil => rfl
  | cons c rest ih =>
    have hstep : ({ b with base := base, defaults := defaults, settings := settings } : Builder).afterCall c =
        { b.afterCall c with base := base, defaults := defaults, settings := settings } := by
      unfold afterCall
      rw [call_with]
      cases b.call c <;> rfl
    show after (afterCall _ c) rest = _
    rw [hstep, ih]
    rfl

end Builder

/-! ## Calls in a session -/

namespace Session

def act (i : Nat) : Call → Act (Option Nat)
  | .value ref v => writeRaw (.builder i) ref v
  | .typed kind ref v => writeTyped (.builder i) kind ref v
  | .unset ref => writeUnset (.builder i) ref

theorem run_builder {s : State} {i : Nat} {b : Builder} (hb : s.builders[i]? = some b) :
    (builder i).run s = (.ok b, s) := by
  have hget : (builder i).run s = (.ok (s.builders[i]?.getD (.new none none none)), s) := rfl
  rw [hget, hb]
  rfl

theorem run_writeAt {s : State} {i : Nat} {b : Builder} (hb : s.builders[i]? = some b) (path : Path) (v : Raw) :
    (writeAt (.builder i) path v).run s =
      match b.write path v with
      | .ok b' => (.ok none, { s with builders := s.builders.set i b' })
      | .error f => (.error f, s) := by
  rw [writeAt, run_bind, run_builder hb]
  simp only
  rw [run_bind, run_done]
  cases b.write path v <;> rfl

/-- A call to anything that values can be written to. -/
def writeTo (target : Target) : Call → Act (Option Nat)
  | .value ref v => writeRaw target ref v
  | .typed kind ref v => writeTyped target kind ref v
  | .unset ref => writeUnset target ref

theorem run_writeTo (target : Target) (c : Call) (s : State) :
    (writeTo target c).run s =
      match c.given with
      | .ok (path, value) => (writeAt target path value).run s
      | .error f => (.error f, s) := by
  cases c with
  | value ref v =>
    rw [writeTo, writeRaw, run_bind, run_done, Call.given]
    cases ref.referredPath <;> rfl
  | typed kind ref v =>
    rw [writeTo, writeTyped, run_bind, run_done, Call.given]
    cases ref.referredPath with
    | error f => rfl
    | ok path =>
      show ((done (normalize kind path.text v) >>= fun w => writeAt target path w.thaw).run s) =
        match ((normalize kind path.text v).bind fun w => .ok (path, w.thaw)) with
        | .ok (path, value) => _
        | .error f => _
      rw [run_bind, run_done]
      cases normalize kind path.text v <;> rfl
  | unset ref =>
    rw [writeTo, writeUnset, run_bind, run_done, Call.given]
    cases ref.referredPath <;> rfl

theorem act_eq (i : Nat) (c : Call) : act i c = writeTo (.builder i) c := by
  cases c <;> rfl

/-- A call in a session makes of its builder what the call makes of it, and changes nothing if it fails. -/
theorem run_act {s : State} {i : Nat} {b : Builder} (hb : s.builders[i]? = some b) (c : Call) :
    (act i c).run s =
      match b.call c with
      | .ok b' => (.ok none, { s with builders := s.builders.set i b' })
      | .error f => (.error f, s) := by
  rw [act_eq, run_writeTo, Builder.call_eq]
  cases c.given with
  | error f => rfl
  | ok given => exact run_writeAt hb given.1 given.2

end Session
end LayeredConfig
