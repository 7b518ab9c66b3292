import LayeredConfig.Proofs.Session.Derived
import LayeredConfig.Proofs.Session.Typed
import LayeredConfig.Proofs.Profile.Entries
import LayeredConfig.Proofs.Profile.Equality
import LayeredConfig.Proofs.Value.Duration
/-!
# Reading durations of a profile

An option of any profile reads as a duration that is exactly as long as what is stored for it, and so many nanoseconds
are counted for it; what is too long for a duration is a mismatch (`durations_are_exact`). Counting nanoseconds reads
the profile twice, first to ask whether the option is defined. A derived profile is computed of its parent when it is
read, and a parent may be resolved then for the first time; but what is read right after it is the same
(`effective_again`).
-/
namespace LayeredConfig

namespace Profile

variable {P : Profile} {path : Path} {v : Value}

theorem get_duration_of_lasts (hv : P.tree.lookup? path.segments = some v) {k : Int} (hk : v.Lasts k) :
    ∃ d : Duration, d.toMicros = k ∧ P.get (.scalar .duration) path = .ok (.scalar (.duration d)) ∧
      P.nanosIfDefined path = .ok (some (k * 1000)) := by
  obtain ⟨hdefined, hget⟩ := read_of_defined hv
  obtain ⟨d, hd, hread⟩ := Value.readDuration_of_lasts path.text hk
  have hd' : P.get (.scalar .duration) path = .ok (.scalar (.duration d)) := by
    rw [hget, Value.read_duration, hread]
    rfl
  refine ⟨d, hd, hd', ?_⟩
  rw [nanosIfDefined, getIfDefined, if_pos hdefined, hd', ← hd, ← Duration.toNanos_eq]
  rfl

theorem get_duration_of_not_lasts (hv : P.tree.lookup? path.segments = some v) (hnot : ∀ k, ¬ v.Lasts k) :
    P.get (.scalar .duration) path = .error (v.mismatch (.scalar .duration) path.text) ∧
      P.nanosIfDefined path = .error (v.mismatch (.scalar .duration) path.text) := by
  obtain ⟨hdefined, hget⟩ := read_of_defined hv
  have hfails : P.get (.scalar .duration) path = .error (v.mismatch (.scalar .duration) path.text) := by
    rw [hget, Value.read_duration, Value.readDuration_eq_error_iff.mpr ⟨hnot, rfl⟩]
    rfl
  refine ⟨hfails, ?_⟩
  rw [nanosIfDefined, getIfDefined, if_pos hdefined, hfails]
  rfl

theorem get_duration_cases (P : Profile) (path : Path) :
    (∃ d, P.get (.scalar .duration) path = .ok (.scalar (.duration d))) ∨
      ∃ f, P.get (.scalar .duration) path = .error f := by
  cases hv : P.tree.lookup? path.segments with
  | none => exact .inr ⟨_, (read_of_undefined hv).2 _⟩
  | some v =>
    by_cases hlasts : ∃ k, v.Lasts k
    · obtain ⟨k, hk⟩ := hlasts
      obtain ⟨d, _, hd, _⟩ := get_duration_of_lasts hv hk
      exact .inl ⟨d, hd⟩
    · exact .inr ⟨_, (get_duration_of_not_lasts hv fun k hk => hlasts ⟨k, hk⟩).1⟩

end Profile

namespace Session

variable {s s' t : State} {i j : Nat}

/-! ## Reading twice -/

theorem derived_current {result : Outcome Config} (h : (current i).run s = (result, s')) : s'.derived = s.derived := by
  rw [current, run_request] at h
  obtain ⟨_, rfl⟩ := Prod.mk.inj h
  rfl

theorem run_current_again {config : Config} (h : (current i).run s = (.ok config, s'))
    (ht : t.coordinators = s'.coordinators) : ∃ t', (current i).run t = (.ok config, t') := by
  rw [current, run_request] at h
  obtain ⟨hresult, rfl⟩ := Prod.mk.inj h
  by_cases hi : i < s.coordinators.length
  · have hlive : t.live i = some config := by
      rw [State.live, State.cellAt, ht, ← State.cellAt, ← State.live, State.live_set (s := s) (i := i) rfl,
        if_pos ⟨rfl, hi⟩]
      exact Coordinator.current_of_demand hresult
    exact ⟨t, run_current_of_live hlive⟩
  · -- a coordinator that is not in use serves nothing, and resolves the same every time
    have hidle : ∀ u : State, u.coordinators.length = s.coordinators.length → u.cellAt i = .idle := by
      intro u hu
      rw [State.cellAt, List.getElem?_eq_none (by omega)]
      rfl
    have hlength : t.coordinators.length = s.coordinators.length := by
      rw [ht, State.answered, List.length_set]
    rw [hidle s rfl] at hresult
    rw [current, run_request, hidle t hlength]
    exact ⟨_, Prod.ext hresult rfl⟩

theorem parentOf_cases {parent : Origin × Snapshot} (h : (parentOf j).run s = (.ok parent, s')) :
    (∃ number snapshot, (s.derivedAt j).parent = .pinned number snapshot ∧ parent = (.alone number, snapshot) ∧
      s' = s) ∨
    ∃ i config snapshot, (s.derivedAt j).parent = .live i ∧ (current i).run s = (.ok config, s') ∧
      config.profile (s.derivedAt j).derived.name = .ok snapshot ∧ parent = (.served i, snapshot) := by
  cases hline : (s.derivedAt j).parent with
  | pinned number snapshot =>
    rw [run_parentOf_pinned hline] at h
    cases h
    exact .inl ⟨number, snapshot, rfl, rfl, rfl⟩
  | live i =>
    refine .inr ?_
    cases hcurrent : (current i).run s with
    | mk result s₁ =>
      cases result with
      | error f =>
        rw [parentOf, run_bind, run_derivedAt] at h
        dsimp only at h
        rw [hline] at h
        dsimp only at h
        rw [run_bind, hcurrent] at h
        cases h
      | ok config =>
        rw [run_parentOf_live hline hcurrent] at h
        obtain ⟨hparent, rfl⟩ := Prod.mk.inj h
        obtain ⟨snapshot, hsnapshot, rfl⟩ := Outcome.map_eq_ok_iff.mp hparent
        exact ⟨i, config, snapshot, rfl, hcurrent, hsnapshot, rfl⟩

theorem derived_parentOf {parent : Origin × Snapshot} (h : (parentOf j).run s = (.ok parent, s')) :
    s'.derived = s.derived := by
  obtain ⟨_, _, _, _, rfl⟩ | ⟨_, _, _, _, hcurrent, _⟩ := parentOf_cases h
  · rfl
  · exact derived_current hcurrent

theorem run_parentOf_again {parent : Origin × Snapshot} (h : (parentOf j).run s = (.ok parent, s'))
    (ht : t.coordinators = s'.coordinators) (hline : (t.derivedAt j).parent = (s.derivedAt j).parent)
    (hname : (t.derivedAt j).derived.name = (s.derivedAt j).derived.name) :
    ∃ t', (parentOf j).run t = (.ok parent, t') := by
  obtain ⟨number, snapshot, hpinned, rfl, rfl⟩ | ⟨i, config, snapshot, hlive, hcurrent, hprofile, rfl⟩ :=
    parentOf_cases h
  · exact ⟨t, run_parentOf_pinned (hline.trans hpinned)⟩
  · obtain ⟨t', hagain⟩ := run_current_again hcurrent ht
    refine ⟨t', ?_⟩
    rw [run_parentOf_live (hline.trans hlive) hagain, hname, hprofile]
    rfl

/-- What a derived profile has computed of a parent it does not compute again. -/
theorem treeUnder_again (d : Derived) (parent : Snapshot) :
    (d.treeUnder parent).2.treeUnder parent = d.treeUnder parent ∧ (d.treeUnder parent).2.name = d.name := by
  by_cases hmemo : ∃ tree, d.memo = some (parent.generation, tree)
  · obtain ⟨tree, hmemo⟩ := hmemo
    rw [Derived.treeUnder_of_memo hmemo rfl]
    exact ⟨Derived.treeUnder_of_memo hmemo rfl, rfl⟩
  · rw [Derived.treeUnder_anew fun tree heq => hmemo ⟨tree, heq⟩]
    exact ⟨Derived.treeUnder_of_memo rfl rfl, rfl⟩

theorem derivedAt_set (s : State) (j : Nat) (c : DerivedCell) :
    State.derivedAt { s with derived := s.derived.set j c } j = c ∨
      State.derivedAt { s with derived := s.derived.set j c } j = s.derivedAt j := by
  by_cases hj : j < s.derived.length
  · refine .inl ?_
    rw [State.derivedAt, List.getElem?_set_self hj]
    rfl
  · refine .inr ?_
    rw [State.derivedAt, List.set_eq_of_length_le (not_lt.mp hj)]
    rfl

/-- A profile that is read again reads the same. -/
theorem effective_again {p : ProfileRef} {P : Profile} (h : (effective p).run s = (.ok P, s')) :
    ((effective p).run s').1 = .ok P := by
  cases p with
  | snapshot origin snapshot =>
    cases h
    rfl
  | derived j =>
    cases hparent : (parentOf j).run s with
    | mk result s₁ =>
      cases result with
      | error f =>
        rw [effective, run_bind, hparent] at h
        cases h
      | ok given =>
        obtain ⟨origin, parent⟩ := given
        rw [run_effective_over hparent] at h
        obtain ⟨hP, hs'⟩ := Prod.mk.inj h
        have hat : s₁.derivedAt j = s.derivedAt j := by
          rw [State.derivedAt, derived_parentOf hparent, ← State.derivedAt]
        have hkept : (s'.derivedAt j).parent = (s.derivedAt j).parent ∧
            (s'.derivedAt j).derived.treeUnder parent = (s₁.derivedAt j).derived.treeUnder parent ∧
            (s'.derivedAt j).derived.name = (s.derivedAt j).derived.name := by
          -- what was kept of the first reading is of the same parent, so it is taken and not computed anew
          obtain ⟨htree, hname⟩ := treeUnder_again (s₁.derivedAt j).derived parent
          have hset := derivedAt_set s₁ j
            { s₁.derivedAt j with derived := ((s₁.derivedAt j).derived.treeUnder parent).2 }
          rw [hs'] at hset
          rw [← hat]
          obtain hset | hset := hset
          · rw [hset]
            exact ⟨rfl, htree, hname⟩
          · rw [hset]
            exact ⟨rfl, rfl, rfl⟩
        obtain ⟨hline, htree, hname⟩ := hkept
        obtain ⟨t', hagain⟩ := run_parentOf_again hparent (t := s') (by rw [← hs']) hline hname
        have hat' : t'.derivedAt j = s'.derivedAt j := by
          rw [State.derivedAt, derived_parentOf hagain, ← State.derivedAt]
        rw [run_effective_over hagain, hat', htree]
        exact hP

/-! ## Durations -/

/-- Counting the nanoseconds of an option counts them in the profile that is read. -/
theorem run_nanos {p : ProfileRef} {P : Profile} {ref : Raw} {path : Path} (hp : ((effective p).run s).1 = .ok P)
    (hpath : ref.referredPath = .ok path) :
    ((ifDefined p ref (readNanos p ref)).run s).1 = P.nanosIfDefined path := by
  cases hfirst : (effective p).run s with
  | mk result s' =>
    obtain rfl : result = .ok P := by rw [← hp, hfirst]
    have hasked : (isDefined p ref).run s = (.ok (P.isDefined path), s') := by
      rw [run_isDefined hfirst, hpath]
      rfl
    have hread : ((read p (.scalar .duration) ref).run s').1 = P.get (.scalar .duration) path :=
      run_read (effective_again hfirst) _ hpath
    rw [ifDefined, run_bind, hasked, Profile.nanosIfDefined, Profile.getIfDefined]
    dsimp only
    cases P.isDefined path with
    | false => rfl
    | true =>
      rw [if_pos rfl, if_pos rfl, run_bind, readNanos, run_bind]
      cases hagain : (read p (.scalar .duration) ref).run s' with
      | mk reading s'' =>
        obtain rfl : reading = P.get (.scalar .duration) path := by rw [← hread, hagain]
        obtain ⟨d, hd⟩ | ⟨f, hf⟩ := P.get_duration_cases path
        · rw [hd]
          rfl
        · rw [hf]
          rfl

/-- **Durations are exact.** Let a profile be read, and let a value be stored at a path of it. A stored whole number
    reads as a duration exactly when so many milliseconds are one, and then it is exactly as long, and a million
    nanoseconds are counted for each millisecond; otherwise both reads are a mismatch. A stored duration is read as it
    is, and a thousand nanoseconds are counted for each of its microseconds, be they negative. The elements of a stored
    list read as durations that are as long as they last, and the first one that lasts no time is the mismatch. -/
theorem durations_are_exact {p : ProfileRef} {P : Profile} {ref : Raw} {path : Path} {v : Value}
    (hp : ((effective p).run s).1 = .ok P) (hpath : ref.referredPath = .ok path)
    (hv : P.tree.lookup? path.segments = some v) :
    (∀ n, v = .scalar (.int n) → -86399999913600000 ≤ n ∧ n ≤ 86399999999999999 →
        ∃ d : Duration, d.toMicros = n * 1000 ∧
          ((read p (.scalar .duration) ref).run s).1 = .ok (.scalar (.duration d)) ∧
          ((ifDefined p ref (readNanos p ref)).run s).1 = .ok (some (n * 1000000))) ∧
      (∀ n, v = .scalar (.int n) → ¬ (-86399999913600000 ≤ n ∧ n ≤ 86399999999999999) →
        ((read p (.scalar .duration) ref).run s).1 = .error (v.mismatch (.scalar .duration) path.text) ∧
          ((ifDefined p ref (readNanos p ref)).run s).1 = .error (v.mismatch (.scalar .duration) path.text)) ∧
      (∀ d, v = .scalar (.duration d) →
        ((read p (.scalar .duration) ref).run s).1 = .ok (.scalar (.duration d)) ∧
          ((ifDefined p ref (readNanos p ref)).run s).1 = .ok (some (d.toMicros * 1000))) ∧
      ∀ items, v = .list items →
        (∀ r, ((read p (.list .duration) ref).run s).1 = .ok r ↔
          ∃ rs, r = .list rs ∧ List.Forall₂ (fun u r => ∃ d, r = .duration d ∧ u.Lasts d.toMicros) items rs) ∧
        ∀ f, ((read p (.list .duration) ref).run s).1 = .error f ↔
          ∃ front u back, items = front ++ u :: back ∧ (∀ w ∈ front, ∃ k, w.Lasts k) ∧ (∀ k, ¬ u.Lasts k) ∧
            f = u.mismatch (.scalar .duration) (itemLabel path.text front.length) := by
  have hread (kind : Kind) : ((read p kind ref).run s).1 = P.get kind path := run_read hp kind hpath
  rw [hread, run_nanos hp hpath]
  refine ⟨?_, ?_, ?_, ?_⟩
  · intro n hn hrange
    subst hn
    obtain ⟨d, hd, hget, hnanos⟩ := Profile.get_duration_of_lasts hv (.millis hrange)
    refine ⟨d, hd, hget, hnanos.trans ?_⟩
    rw [Int.mul_assoc]
    rfl
  · intro n hn hrange
    subst hn
    refine Profile.get_duration_of_not_lasts hv fun k hk => ?_
    cases hk with
    | millis h => exact hrange h
  · intro d hd
    subst hd
    obtain ⟨d', hlength, hget, hnanos⟩ := Profile.get_duration_of_lasts hv (.duration d)
    exact ⟨by rw [← Duration.eq_of_toMicros hlength]; exact hget, hnanos⟩
  · intro items hitems
    subst hitems
    rw [hread, (Profile.read_of_defined hv).2]
    show (∀ r, (readItems (Value.readScalar .duration) path.text 0 items).map Reading.list = .ok r ↔ _) ∧
      ∀ f, (readItems (Value.readScalar .duration) path.text 0 items).map Reading.list = .error f ↔ _
    constructor
    · intro r
      simp only [Outcome.map_eq_ok_iff, Value.readDurations_eq_ok_iff, and_comm, @eq_comm _ r]
    · intro f
      rw [Outcome.map_eq_error_iff, Value.readDurations_eq_error_iff]

/-- The longest whole milliseconds, one more of them, a microsecond before zero, and a list that is too long at its
    second element. The profile hides what its parent has of the second. -/
theorem durations_at_the_limits :
    let past : Duration := ⟨-1, 86399, 999999, by decide, by decide, by decide, by decide⟩
    let most : Int := 86399999999999999
    let parent : Snapshot := ⟨⟨defaultProfile, [("l", .list [.scalar (.duration past), .scalar (.int (most + 1))]),
      ("most", .scalar (.int most)), ("over", .scalar (.int 0)), ("past", .scalar (.duration past))]⟩, 1⟩
    let overrides : Overrides := [(⟨["over"], by decide, by decide⟩, .scalar (.int (most + 1)))]
    let s : State := { State.start [] with derived := [⟨.fresh defaultProfile overrides, .pinned 0 parent⟩] }
    let nanos (key : String) := ((ifDefined (.derived 0) (.scalar (.text key))
      (readNanos (.derived 0) (.scalar (.text key)))).run s).1
    nanos "most" = .ok (some 86399999999999999000000) ∧
      nanos "over" = .error ((Value.scalar (.int (most + 1))).mismatch (.scalar .duration) "over") ∧
      nanos "past" = .ok (some (-1000)) ∧
      ((read (.derived 0) (.list .duration) (.scalar (.text "l"))).run s).1 =
        .error ((Value.scalar (.int (most + 1))).mismatch (.scalar .duration) "l[1]") := by
  intro past most parent overrides s nanos
  let P : Profile := ⟨defaultProfile, [("l", .list [.scalar (.duration past), .scalar (.int (most + 1))]),
    ("most", .scalar (.int most)), ("over", .scalar (.int (most + 1))), ("past", .scalar (.duration past))]⟩
  have hp : ((effective (.derived 0)).run s).1 = .ok P := rfl
  have hmost : (Raw.scalar (.text "most")).referredPath = .ok ⟨["most"], by decide, by decide⟩ := rfl
  have hover : (Raw.scalar (.text "over")).referredPath = .ok ⟨["over"], by decide, by decide⟩ := rfl
  have hpast : (Raw.scalar (.text "past")).referredPath = .ok ⟨["past"], by decide, by decide⟩ := rfl
  have hlist : (Raw.scalar (.text "l")).referredPath = .ok ⟨["l"], by decide, by decide⟩ := rfl
  have hmost := durations_are_exact hp hmost (v := .scalar (.int most)) rfl
  have hover := durations_are_exact hp hover (v := .scalar (.int (most + 1))) rfl
  have hpast := durations_are_exact hp hpast (v := .scalar (.duration past)) rfl
  have hlist := durations_are_exact hp hlist (v := .list [.scalar (.duration past), .scalar (.int (most + 1))]) rfl
  obtain ⟨d, _, _, hnanos⟩ := hmost.1 most rfl (by decide)
  refine ⟨hnanos, (hover.2.1 _ rfl (by decide)).2, (hpast.2.2.1 past rfl).2, ?_⟩
  have hlabel : itemLabel "l" 1 = "l[1]" := by decide +kernel
  rw [← hlabel]
  refine ((hlist.2.2.2 _ rfl).2 _).mpr ⟨[.scalar (.duration past)], _, [], rfl, ?_, ?_, rfl⟩
  · simp only [List.mem_singleton, forall_eq]
    exact ⟨_, .duration past⟩
  · intro k hk
    cases hk with
    | millis h => exact absurd h.2 (by decide)

end Session
end LayeredConfig
