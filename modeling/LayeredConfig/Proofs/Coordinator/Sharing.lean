import LayeredConfig.Proofs.Coordinator.Turns
/-!
# Concurrent callers share passes

Whatever turns any number of callers of one coordinator take, three things hold throughout the run (`Run.sound`). At
most one caller is between registering the key and removing it, the registration is its own, and its ticket is open until
the caller completes it (`State.Exclusive`). What is published is counted from one, and what is about to be published is
the next (`Counted`). And every ticket was issued to one caller, is completed by that caller with one outcome, and is
given out as it was completed (`Traced`).
-/
namespace LayeredConfig.Concurrent

/-- Whether a caller is between registering the key and removing it. -/
def Phase.isLeading : Phase → Bool
  | leading _ | publishing _ _ | completing _ _ | leaving _ => true
  | _ => false

/-- Whether a leader's phase fits its ticket: the ticket is open until the leader has completed it, and then holds the
    outcome that the leader leaves with. -/
inductive Phase.Holds (tickets : List (Option (Outcome Config))) (ticket : Nat) : Phase → Prop
  | leading (h : tickets[ticket]? = some none) : Holds tickets ticket (.leading ticket)
  | publishing {config : Config} (h : tickets[ticket]? = some none) : Holds tickets ticket (.publishing ticket config)
  | completing {outcome : Outcome Config} (h : tickets[ticket]? = some none) :
      Holds tickets ticket (.completing ticket outcome)
  | leaving {outcome : Outcome Config} (h : tickets[ticket]? = some (some outcome)) :
      Holds tickets ticket (.leaving outcome)

/-- Whether a caller holds the one registration there is, under a ticket that its phase fits, and nobody else is
    between registering and removing. -/
structure State.LedBy (s : State) (i ticket : Nat) (p : Phase) : Prop where
  registered : s.flights.registered = [((), ticket)]
  phase : s.phase? i = some p
  holds : p.Holds s.flights.tickets ticket
  alone : ∀ j q, s.phase? j = some q → q.isLeading = true → j = i

/-- Whether nothing is registered, and nobody between registering and removing. -/
structure State.Free (s : State) : Prop where
  registered : s.flights.registered = []
  nobody : ∀ j q, s.phase? j = some q → q.isLeading = false

/-- Whether at most one caller is between registering and removing, and holds the registration. -/
def State.Exclusive (s : State) : Prop := s.Free ∨ ∃ i ticket p, s.LedBy i ticket p

variable {given : Outcome Content} {s s' : State} {m : Move} {i ticket : Nat} {p : Phase}

theorem Phase.Holds.isLeading {tickets : List (Option (Outcome Config))} (h : p.Holds tickets ticket) :
    p.isLeading = true := by
  cases h <;> rfl

/-- A caller between registering and removing is the one that holds the registration. -/
theorem State.Exclusive.exists_ledBy (h : s.Exclusive) (hp : s.phase? i = some p) (hlead : p.isLeading = true) :
    ∃ ticket, s.LedBy i ticket p := by
  rcases h with h | ⟨j, ticket, q, h⟩
  · have := h.nobody i p hp
    simp [hlead] at this
  · obtain rfl := h.alone i p hp hlead
    obtain rfl : p = q := Option.some.inj (hp.symm.trans h.phase)
    exact ⟨ticket, h⟩

theorem State.Exclusive.eq_of_isLeading (h : s.Exclusive) {j : Nat} {q : Phase} (hp : s.phase? i = some p)
    (hq : s.phase? j = some q) (hplead : p.isLeading = true) (hqlead : q.isLeading = true) : i = j := by
  obtain ⟨ticket, hled⟩ := h.exists_ledBy hq hqlead
  exact hled.alone i p hp hplead

theorem State.Exclusive.pass (h : s.Exclusive) (hm : m.Shifts s s') (hflights : s'.flights = s.flights)
    (hsource : m.source.isLeading = false) (htarget : m.target.isLeading = false) : s'.Exclusive := by
  have hphase : ∀ {j q}, s'.phase? j = some q → q.isLeading = true → s.phase? j = some q := by
    intro j q hq hlead
    rcases hm.phase?_cases hq with ⟨_, rfl⟩ | ⟨_, hq⟩
    · simp [htarget] at hlead
    · exact hq
  rcases h with h | ⟨i, ticket, p, h⟩
  · refine .inl ⟨hflights ▸ h.registered, fun j q hq => Bool.eq_false_iff.mpr fun hlead => ?_⟩
    have := h.nobody j q (hphase hq hlead)
    simp [hlead] at this
  · refine .inr ⟨i, ticket, p, hflights ▸ h.registered, ?_, hflights ▸ h.holds, fun j q hq hlead =>
      h.alone j q (hphase hq hlead) hlead⟩
    rw [hm.phases, if_neg, h.phase]
    rintro rfl
    cases hm.source.symm.trans h.phase
    simp [h.holds.isLeading] at hsource

/-- A leader that goes on holds the registration as long as it stays there and its new phase fits the ticket. -/
theorem State.LedBy.go (h : s.LedBy m.who ticket m.source) (hm : m.Shifts s s')
    (hregistered : s'.flights.registered = s.flights.registered) (hholds : m.target.Holds s'.flights.tickets ticket) :
    s'.LedBy m.who ticket m.target where
  registered := hregistered.trans h.registered
  phase := hm.target
  holds := hholds
  alone j q hq hlead := by
    rcases hm.phase?_cases hq with ⟨hwho, _⟩ | ⟨_, hq⟩
    · exact hwho.symm
    · exact h.alone j q hq hlead

theorem Turn.exclusive (hturn : Turn given s m s') (h : s.Exclusive) : s'.Exclusive := by
  have hm := hturn.shifts
  have hled := fun hlead => h.exists_ledBy hm.source hlead
  cases hturn with
  | served | calls | joins | receives => exact h.pass hm rfl rfl rfl
  | registers hi hfree =>
    rcases h with h | ⟨_, _, _, h⟩
    · refine .inr ⟨_, _, _, rfl, hm.target, .leading (by simp), fun j q hq hlead => ?_⟩
      rcases hm.phase?_cases hq with ⟨hwho, _⟩ | ⟨_, hq⟩
      · exact hwho.symm
      · simp [h.nobody j q hq] at hlead
    · cases hfree.symm.trans h.registered
  | finds | fails =>
    obtain ⟨_, hled⟩ := hled rfl
    cases hled.holds with
    | leading hopen => exact .inr ⟨_, _, _, hled.go hm rfl (.completing hopen)⟩
  | resolves =>
    obtain ⟨_, hled⟩ := hled rfl
    cases hled.holds with
    | leading hopen => exact .inr ⟨_, _, _, hled.go hm rfl (.publishing hopen)⟩
  | publishes =>
    obtain ⟨_, hled⟩ := hled rfl
    cases hled.holds with
    | publishing hopen => exact .inr ⟨_, _, _, hled.go hm rfl (.completing hopen)⟩
  | completes =>
    obtain ⟨_, hled⟩ := hled rfl
    cases hled.holds with
    | completing hopen =>
      obtain ⟨hlt, _⟩ := List.getElem?_eq_some_iff.mp hopen
      exact .inr ⟨_, _, _, hled.go hm rfl (.leaving (by simp [Flights.complete, hlt]))⟩
  | leaves =>
    obtain ⟨_, hled⟩ := hled rfl
    refine .inl ⟨rfl, fun j q hq => Bool.eq_false_iff.mpr fun hlead => ?_⟩
    rcases hm.phase?_cases hq with ⟨_, rfl⟩ | ⟨hne, hq⟩
    · cases hlead
    · exact absurd (hled.alone j q hq hlead).symm hne

theorem State.phase?_start {live : Coordinator} {requests : List Request} (h : (start live requests).phase? i = some p) :
    p = .started := by
  rw [phase?, start, List.getElem?_map] at h
  cases hr : requests[i]? <;> simp [hr] at h
  exact h.symm

theorem State.exclusive_start (live : Coordinator) (requests : List Request) : (start live requests).Exclusive :=
  .inl ⟨rfl, fun _ _ hq => by rw [phase?_start hq]; rfl⟩

/-! ## What is published -/

def Phase.publication? : Phase → Option Config
  | publishing _ config => some config
  | _ => none

def published (moves : List Move) : List Config := moves.filterMap fun m => m.source.publication?

/-- Whether the configurations published so far are counted from one, the last one is served, and the one that is about
    to be published is the next. -/
structure Counted (moves : List Move) (s : State) : Prop where
  live : s.live.current = (published moves).getLast?
  generations : (published moves).map (·.generation) = (List.range (published moves).length).map fun k : Nat => (k : Int) + 1
  next : ∀ i ticket config, s.phase? i = some (.publishing ticket config) → config.generation = s.live.generation + 1

variable {moves : List Move}

theorem published_append (moves : List Move) (m : Move) :
    published (moves ++ [m]) = published moves ++ m.source.publication?.toList := by
  rw [published, List.filterMap_append, published]
  cases hm : m.source.publication? <;> simp [hm]

theorem Counted.generation (h : Counted moves s) : s.live.generation = (published moves).length := by
  rw [Coordinator.generation, h.live]
  rcases List.eq_nil_or_concat (published moves) with hnone | ⟨earlier, last, hlast⟩
  · simp [hnone]
  · have hgenerations := h.generations
    rw [hlast, List.length_concat, List.range_succ, List.map_append, List.concat_eq_append, List.map_append] at hgenerations
    have hlength := (List.append_inj hgenerations (by simp)).2
    simpa [hlast] using hlength

theorem Counted.pass (h : Counted moves s) (hm : m.Shifts s s') (hlive : s'.live = s.live)
    (hsource : m.source.publication? = none)
    (htarget : ∀ ticket config, m.target = .publishing ticket config → config.generation = s.live.generation + 1) :
    Counted (moves ++ [m]) s' := by
  have hsame : published (moves ++ [m]) = published moves := by simp [published_append, hsource]
  refine ⟨hsame ▸ hlive ▸ h.live, hsame ▸ h.generations, fun i ticket config hi => ?_⟩
  rw [hlive]
  rcases hm.phase?_cases hi with ⟨_, hi⟩ | ⟨_, hi⟩
  · exact htarget ticket config hi
  · exact h.next i ticket config hi

theorem Turn.counted (hturn : Turn given s m s') (hexclusive : s.Exclusive) (h : Counted moves s) :
    Counted (moves ++ [m]) s' := by
  have hm := hturn.shifts
  cases hturn with
  | resolves hi hneeds hpass =>
    refine h.pass hm rfl rfl fun ticket config htarget => ?_
    cases htarget
    exact Coordinator.generation_of_advance hpass
  | @publishes i ticket _ config hi =>
    have hnext : config.generation = s.live.generation + 1 := h.next i ticket config hm.source
    have hmore : published (moves ++ [⟨i, .publishing ticket config, .completing ticket (.ok config), given⟩]) =
        published moves ++ [config] := by simp [published_append, Phase.publication?]
    refine ⟨?_, ?_, fun j other config' hj => ?_⟩
    · simp [hmore]
    · rw [hmore, List.map_append, h.generations, List.length_append, List.length_singleton, List.range_succ,
        List.map_append, List.map_singleton, List.map_singleton, hnext, h.generation]
    · rcases hm.phase?_cases hj with ⟨_, hj⟩ | ⟨hne, hj⟩
      · cases hj
      · exact absurd (hexclusive.eq_of_isLeading hm.source hj rfl rfl) hne
  | _ => exact h.pass hm rfl rfl nofun

theorem counted_start (requests : List Request) : Counted [] (.start .fresh requests) :=
  ⟨rfl, rfl, fun _ _ _ hi => by cases State.phase?_start hi⟩

/-! ## What becomes of a ticket -/

/-- The ticket that a leader has not completed yet. -/
def Phase.ticket? : Phase → Option Nat
  | leading ticket => some ticket
  | publishing ticket _ => some ticket
  | completing ticket _ => some ticket
  | _ => none

/-- Whether a caller has come from one phase to another. -/
def Comes (moves : List Move) (i : Nat) (source target : Phase) : Prop :=
  ∃ m ∈ moves, m.who = i ∧ m.source = source ∧ m.target = target

/-- Whether a caller registered the key, and got a ticket for it. -/
def Registers (moves : List Move) (i ticket : Nat) : Prop := Comes moves i .entering (.leading ticket)

def Joins (moves : List Move) (i ticket : Nat) : Prop := Comes moves i .entering (.waiting ticket)

/-- Whether a caller goes on to complete a ticket with an outcome. -/
def Concludes (moves : List Move) (i ticket : Nat) (outcome : Outcome Config) : Prop :=
  ∃ m ∈ moves, m.who = i ∧ m.target = .completing ticket outcome

/-- Whether a caller that waited for a ticket was given an outcome. -/
def Receives (moves : List Move) (i ticket : Nat) (outcome : Outcome Config) : Prop :=
  Comes moves i (.waiting ticket) (.returned outcome)

/-- Whether tickets fare as the moves have it. -/
structure Traced (moves : List Move) (s : State) : Prop where
  issued : ∀ t, t < s.flights.tickets.length ↔ ∃ i, Registers moves i t
  once : ∀ i j t, Registers moves i t → Registers moves j t → i = j
  held : ∀ i p t, s.phase? i = some p → p.ticket? = some t → Registers moves i t
  concluded : ∀ i t outcome, Concludes moves i t outcome ↔ Registers moves i t ∧
    (s.flights.tickets[t]? = some (some outcome) ∨ s.phase? i = some (.completing t outcome))
  pending : ∀ t, s.flights.tickets[t]? = some none → ∃ i p, s.phase? i = some p ∧ p.ticket? = some t
  joined : ∀ i t, s.phase? i = some (.waiting t) → Joins moves i t
  awaited : ∀ i t, Joins moves i t → t < s.flights.tickets.length
  received : ∀ i t outcome, Receives moves i t outcome → Joins moves i t ∧ s.flights.tickets[t]? = some (some outcome)

theorem comes_append {source target : Phase} : Comes (moves ++ [m]) i source target ↔
    Comes moves i source target ∨ m.who = i ∧ m.source = source ∧ m.target = target := by
  simp only [Comes, List.mem_append, List.mem_singleton, or_and_right, exists_or, exists_eq_left]

theorem registers_append : Registers (moves ++ [m]) i ticket ↔
    Registers moves i ticket ∨ m.who = i ∧ m.source = .entering ∧ m.target = .leading ticket :=
  comes_append

theorem concludes_append {outcome : Outcome Config} : Concludes (moves ++ [m]) i ticket outcome ↔
    Concludes moves i ticket outcome ∨ m.who = i ∧ m.target = .completing ticket outcome := by
  simp only [Concludes, List.mem_append, List.mem_singleton, or_and_right, exists_or, exists_eq_left]

theorem Move.Shifts.phase?_iff (hm : m.Shifts s s') {q : Phase} (hsource : m.source ≠ q) (htarget : m.target ≠ q) :
    s'.phase? i = some q ↔ s.phase? i = some q := by
  rw [hm.phases]
  split
  · rename_i hi
    subst hi
    simp [hm.source, hsource, htarget]
  · exact Iff.rfl

theorem Phase.isLeading_of_ticket (h : p.ticket? = some ticket) : p.isLeading = true := by
  cases p <;> first | rfl | cases h

theorem Phase.Holds.lt {tickets : List (Option (Outcome Config))} (h : p.Holds tickets ticket) :
    ticket < tickets.length := by
  cases h <;> exact (List.getElem?_eq_some_iff.mp ‹_›).1

theorem State.Exclusive.isLeading_eq_false (h : s.Exclusive) (hfree : s.flights.registered = [])
    (hi : s.phase? i = some p) : p.isLeading = false := by
  rcases h with h | ⟨_, _, _, h⟩
  · exact h.nobody i p hi
  · cases hfree.symm.trans h.registered

theorem State.Exclusive.open_of_ticket (h : s.Exclusive) (hi : s.phase? i = some p) (hp : p.ticket? = some ticket) :
    s.flights.tickets[ticket]? = some none := by
  obtain ⟨_, hled⟩ := h.exists_ledBy hi (Phase.isLeading_of_ticket hp)
  cases hled.holds with
  | leading hopen => cases hp; exact hopen
  | publishing hopen => cases hp; exact hopen
  | completing hopen => cases hp; exact hopen
  | leaving hopen => cases hp

theorem getElem?_append_none {α : Type} {tickets : List (Option α)} {t : Nat} :
    (tickets ++ [none])[t]? = some none ↔ tickets[t]? = some none ∨ t = tickets.length := by
  grind

theorem getElem?_append_none_some {α : Type} {tickets : List (Option α)} {t : Nat} {a : α} :
    (tickets ++ [none])[t]? = some (some a) ↔ tickets[t]? = some (some a) := by
  grind

theorem Turn.complete (hturn : Turn given s m s') (hexclusive : s.Exclusive) {t : Nat} {outcome : Outcome Config}
    (h : s.flights.tickets[t]? = some (some outcome)) : s'.flights.tickets[t]? = some (some outcome) := by
  have hm := hturn.shifts
  cases hturn with
  | registers => exact getElem?_append_none_some.mpr h
  | @completes i ticket _ _ hi =>
    have hopen := hexclusive.open_of_ticket hm.source rfl
    have hne : ticket ≠ t := by
      rintro rfl
      cases h.symm.trans hopen
    exact (List.getElem?_set_ne hne).trans h
  | _ => exact h

/-- A leader that goes on keeps its ticket; who comes to hold one has registered it. -/
theorem Turn.source_ticket (hturn : Turn given s m s') {t : Nat} (h : m.target.ticket? = some t) :
    m.source.ticket? = some t ∨ m.source = .entering ∧ m.target = .leading t := by
  cases hturn with
  | registers => cases h; exact .inr ⟨rfl, rfl⟩
  | finds | fails | resolves | publishes => exact .inl h
  | _ => cases h

theorem Turn.length_of_registers (hturn : Turn given s m s') (hsource : m.source = .entering)
    (htarget : m.target = .leading ticket) : ticket = s.flights.tickets.length := by
  cases hturn with
  | registers => cases htarget; rfl
  | joins => cases htarget
  | _ => cases hsource

theorem Turn.length_le (hturn : Turn given s m s') : s.flights.tickets.length ≤ s'.flights.tickets.length := by
  cases hturn with
  | registers => simp
  | completes => simp [Flights.complete]
  | _ => exact le_rfl

namespace Traced

variable (h : Traced moves s)

include h

theorem issued_step (hturn : Turn given s m s') (t : Nat) :
    t < s'.flights.tickets.length ↔ ∃ i, Registers (moves ++ [m]) i t := by
  cases hturn with
  | registers =>
    simp only [registers_append, Phase.leading.injEq, true_and, exists_or, ← h.issued, exists_eq_left',
      State.goes_flights, List.length_append, List.length_singleton]
    omega
  | completes => simp [registers_append, Flights.complete, h.issued]
  | _ => simp [registers_append, h.issued]

theorem once_step (hturn : Turn given s m s') {i j t : Nat} (hi : Registers (moves ++ [m]) i t)
    (hj : Registers (moves ++ [m]) j t) : i = j := by
  -- the ticket of a registration is new
  have hnew : m.source = .entering ∧ m.target = .leading t → ∀ l, ¬ Registers moves l t := by
    intro hm l hl
    exact absurd ((h.issued t).mpr ⟨l, hl⟩) (by simp [hturn.length_of_registers hm.1 hm.2])
  rw [registers_append] at hi hj
  rcases hi with hi | hi
  · rcases hj with hj | hj
    · exact h.once i j t hi hj
    · exact absurd hi (hnew hj.2 i)
  · rcases hj with hj | hj
    · exact absurd hj (hnew hi.2 j)
    · exact hi.1.symm.trans hj.1

theorem held_step (hturn : Turn given s m s') (hp : s'.phase? i = some p) (ht : p.ticket? = some ticket) :
    Registers (moves ++ [m]) i ticket := by
  rw [registers_append]
  rcases hturn.shifts.phase?_cases hp with ⟨rfl, rfl⟩ | ⟨_, hp⟩
  · exact (hturn.source_ticket ht).imp (h.held _ _ _ hturn.shifts.source) fun hm => ⟨rfl, hm⟩
  · exact .inl (h.held _ _ _ hp ht)

theorem pending_step (hturn : Turn given s m s') (hexclusive : s.Exclusive) {t : Nat}
    (hopen : s'.flights.tickets[t]? = some none) : ∃ i p, s'.phase? i = some p ∧ p.ticket? = some t := by
  have hm := hturn.shifts
  -- whoever held the ticket still does, unless it is the one that moves
  have hstays : s.flights.tickets[t]? = some none → m.source.ticket? = m.target.ticket? →
      ∃ i p, s'.phase? i = some p ∧ p.ticket? = some t := by
    intro hopen hsame
    obtain ⟨i, p, hp, ht⟩ := h.pending t hopen
    by_cases hi : m.who = i
    · subst hi
      cases hm.source.symm.trans hp
      exact ⟨_, _, hm.target, hsame ▸ ht⟩
    · exact ⟨i, p, by rw [hm.phases, if_neg hi, hp], ht⟩
  cases hturn with
  | registers hi hfree =>
    -- no ticket was open before, for nobody was there to complete it
    refine ⟨_, _, hm.target, ?_⟩
    rcases getElem?_append_none.mp hopen with hopen | rfl
    · obtain ⟨j, q, hq, ht⟩ := h.pending t hopen
      have hlead := Phase.isLeading_of_ticket ht
      simp [hexclusive.isLeading_eq_false hfree hq] at hlead
    · rfl
  | @completes i ticket _ _ hi =>
    -- the only ticket that was open is the one completed
    by_cases hne : ticket = t
    · subst hne
      obtain ⟨hlt, hnone⟩ := List.getElem?_eq_some_iff.mp hopen
      simp [Flights.complete] at hnone
    · obtain ⟨j, q, hq, ht⟩ := h.pending t ((List.getElem?_set_ne hne).symm.trans hopen)
      obtain rfl := hexclusive.eq_of_isLeading hm.source hq rfl (Phase.isLeading_of_ticket ht)
      cases hm.source.symm.trans hq
      exact absurd (Option.some.inj ht) hne
  | _ => exact hstays hopen rfl

theorem awaited_step (hturn : Turn given s m s') (hexclusive : s.Exclusive) (hi : Joins (moves ++ [m]) i ticket) :
    ticket < s'.flights.tickets.length := by
  rcases comes_append.mp hi with hi | ⟨_, _, htarget⟩
  · exact (h.awaited i ticket hi).trans_le hturn.length_le
  · cases hturn with
    | joins hcaller hreg =>
      cases htarget
      rcases hexclusive with hfree | ⟨_, _, _, hled⟩
      · cases hreg.symm.trans hfree.registered
      · cases hreg.symm.trans hled.registered
        exact hled.holds.lt
    | _ => cases htarget

theorem joined_step (hturn : Turn given s m s') (hi : s'.phase? i = some (.waiting ticket)) :
    Joins (moves ++ [m]) i ticket := by
  rcases hturn.shifts.phase?_cases hi with ⟨hwho, htarget⟩ | ⟨_, hi⟩
  · refine comes_append.mpr (.inr ⟨hwho, ?_, htarget⟩)
    cases hturn <;> cases htarget
    rfl
  · exact comes_append.mpr (.inl (h.joined i ticket hi))

theorem received_step (hturn : Turn given s m s') (hexclusive : s.Exclusive) {outcome : Outcome Config}
    (hi : Receives (moves ++ [m]) i ticket outcome) :
    Joins (moves ++ [m]) i ticket ∧ s'.flights.tickets[ticket]? = some (some outcome) := by
  rcases comes_append.mp hi with hi | ⟨hwho, hsource, htarget⟩
  · obtain ⟨hjoins, hcomplete⟩ := h.received i ticket outcome hi
    exact ⟨comes_append.mpr (.inl hjoins), hturn.complete hexclusive hcomplete⟩
  · have hjoins := h.joined i ticket (hwho ▸ hsource ▸ hturn.shifts.source)
    refine ⟨comes_append.mpr (.inl hjoins), ?_⟩
    cases hturn with
    | receives hcaller hticket =>
      cases hsource
      cases htarget
      exact hticket
    | _ => cases hsource

theorem concluded_of_completing (hm : m.Shifts s s') (htickets : s'.flights.tickets = s.flights.tickets)
    {result : Outcome Config} (hticket : m.source.ticket? = some ticket) (hsource : ∀ t o, m.source ≠ .completing t o)
    (htarget : m.target = .completing ticket result) {t : Nat} {outcome : Outcome Config} :
    Concludes (moves ++ [m]) i t outcome ↔ Registers (moves ++ [m]) i t ∧
      (s'.flights.tickets[t]? = some (some outcome) ∨ s'.phase? i = some (.completing t outcome)) := by
  have hregisters := h.held _ _ _ hm.source hticket
  have hsame : Registers (moves ++ [m]) i t ↔ Registers moves i t := by
    rw [registers_append, or_iff_left]
    rintro ⟨_, _, hleading⟩
    cases hleading.symm.trans htarget
  rw [concludes_append, hsame, h.concluded, htickets, hm.phases, htarget, Phase.completing.injEq]
  by_cases hwho : m.who = i
  · subst hwho
    rw [if_pos rfl, hm.source, Option.some_inj, Option.some_inj, Phase.completing.injEq]
    simp only [hsource, or_false, true_and]
    rw [and_or_left]
    exact or_congr_right ⟨fun heq => ⟨heq.1 ▸ hregisters, heq⟩, And.right⟩
  · simp [hwho]

/-- The step that completes a ticket puts there what its leader came to. -/
theorem concluded_of_completed {j : Nat} {result : Outcome Config}
    (hm : Move.Shifts ⟨j, .completing ticket result, .leaving result, given⟩ s s')
    (htickets : s'.flights.tickets = s.flights.tickets.set ticket (some result)) (hexclusive : s.Exclusive) {t : Nat}
    {outcome : Outcome Config} :
    Concludes (moves ++ [⟨j, .completing ticket result, .leaving result, given⟩]) i t outcome ↔
      Registers (moves ++ [⟨j, .completing ticket result, .leaving result, given⟩]) i t ∧
        (s'.flights.tickets[t]? = some (some outcome) ∨ s'.phase? i = some (.completing t outcome)) := by
  have hregisters := h.held _ _ _ hm.source rfl
  have hopen := hexclusive.open_of_ticket hm.source rfl
  have hsame : Registers (moves ++ [⟨j, .completing ticket result, .leaving result, given⟩]) i t ↔ Registers moves i t := by
    simp [registers_append]
  have hproduces : Concludes (moves ++ [⟨j, .completing ticket result, .leaving result, given⟩]) i t outcome ↔
      Concludes moves i t outcome := by simp [concludes_append]
  rw [hproduces, hsame, h.concluded, htickets, hm.phases]
  refine and_congr_right fun hi => ?_
  by_cases ht : ticket = t
  · -- who registered the ticket is the one that completes it
    subst ht
    obtain rfl := h.once _ _ _ hregisters hi
    obtain ⟨hlt, _⟩ := List.getElem?_eq_some_iff.mp hopen
    rw [if_pos rfl, hm.source, hopen]
    simp [hlt]
  · rw [List.getElem?_set_ne ht]
    split
    · rename_i hwho
      subst hwho
      simp [hm.source, ht]
    · exact Iff.rfl

theorem concluded_of_registering (hm : Move.Shifts ⟨i, .entering, .leading s.flights.tickets.length, given⟩ s s')
    (htickets : s'.flights.tickets = s.flights.tickets ++ [none]) {j t : Nat} {outcome : Outcome Config} :
    Concludes (moves ++ [⟨i, .entering, .leading s.flights.tickets.length, given⟩]) j t outcome ↔
      Registers (moves ++ [⟨i, .entering, .leading s.flights.tickets.length, given⟩]) j t ∧
        (s'.flights.tickets[t]? = some (some outcome) ∨ s'.phase? j = some (.completing t outcome)) := by
  have hproduces : Concludes (moves ++ [⟨i, .entering, .leading s.flights.tickets.length, given⟩]) j t outcome ↔
      Concludes moves j t outcome := by simp [concludes_append]
  rw [hproduces, h.concluded, registers_append, hm.phase?_iff (q := .completing t outcome) nofun nofun, htickets,
    getElem?_append_none_some, or_and_right, iff_self_or]
  intro hnew
  obtain ⟨⟨rfl, _, hleading⟩, hticket⟩ := hnew
  cases hleading
  simp [hm.source] at hticket

theorem concluded_step (hturn : Turn given s m s') (hexclusive : s.Exclusive) {t : Nat} {outcome : Outcome Config} :
    Concludes (moves ++ [m]) i t outcome ↔ Registers (moves ++ [m]) i t ∧
      (s'.flights.tickets[t]? = some (some outcome) ∨ s'.phase? i = some (.completing t outcome)) := by
  have hm := hturn.shifts
  cases hturn with
  | registers => exact h.concluded_of_registering hm rfl
  | finds | fails | publishes => exact h.concluded_of_completing hm rfl rfl nofun rfl
  | completes => exact h.concluded_of_completed hm rfl hexclusive
  | _ =>
    rw [concludes_append, registers_append, h.concluded, hm.phase?_iff (q := .completing t outcome) nofun nofun]
    simp

theorem step (hturn : Turn given s m s') (hexclusive : s.Exclusive) : Traced (moves ++ [m]) s' where
  issued := h.issued_step hturn
  once _ _ _ := h.once_step hturn
  held _ _ _ := h.held_step hturn
  concluded _ _ _ := h.concluded_step hturn hexclusive
  pending _ := h.pending_step hturn hexclusive
  joined _ _ := h.joined_step hturn
  awaited _ _ := h.awaited_step hturn hexclusive
  received _ _ _ := h.received_step hturn hexclusive

end Traced

theorem traced_start (live : Coordinator) (requests : List Request) : Traced [] (.start live requests) where
  issued := by simp [State.start, Flights.empty, Registers, Comes]
  once := by simp [Registers, Comes]
  held _ _ _ hp ht := by
    rw [State.phase?_start hp] at ht
    cases ht
  concluded i t outcome := by simp [Concludes, Registers, Comes]
  pending := by simp [State.start, Flights.empty]
  joined _ _ hi := by cases State.phase?_start hi
  awaited := by simp [Joins, Comes]
  received := by simp [Receives, Comes]

/-! ## Runs -/

/-- What holds throughout every run of callers of a coordinator that has resolved nothing before. -/
structure Sound (moves : List Move) (s : State) : Prop where
  exclusive : s.Exclusive
  counted : Counted moves s
  traced : Traced moves s

theorem Run.sound {requests : List Request} (h : Run (.start .fresh requests) moves s) : Sound moves s := by
  induction h with
  | still => exact ⟨State.exclusive_start _ _, counted_start _, traced_start _ _⟩
  | moved _ hsource hstep htarget ih =>
    have hturn := turn_of_step hsource hstep htarget
    exact ⟨hturn.exclusive ih.exclusive, hturn.counted ih.exclusive ih.counted, ih.traced.step hturn ih.exclusive⟩

end LayeredConfig.Concurrent
