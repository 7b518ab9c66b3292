import LayeredConfig.Proofs.Coordinator.Sharing
/-!
# What a reload returns

A reload that comes back with a configuration got it from the pass it registered or joined. When it joins, that pass may
be over already, its configuration published, and the key not removed yet; or the pass may be that of a caller that asked
for the current configuration and finds one. Then the reload comes back with what was served when it joined
(`State.Settled`), and in every other case with the next generation. So what it returns is later than what was served
when it began exactly if the pass was not settled, or something was published in between
(`reload_returns_a_later_generation_iff`).
-/
namespace LayeredConfig.Concurrent

/-- Whether what a leader's pass comes to is what is served already: the pass is over, or it is one that only wants the
    current configuration, and there is one. -/
def Caller.Settled (live : Coordinator) : Caller → Prop
  | ⟨.current, .leading _⟩ => live.current ≠ none
  | ⟨_, .completing _ (.ok _)⟩ => True
  | ⟨_, .leaving (.ok _)⟩ => True
  | _ => False

/-- Whether whoever joins now is given what is served already. -/
def State.Settled (s : State) : Prop := ∃ (j : Nat) (c : Caller), s.callers[j]? = some c ∧ c.Settled s.live

def Phase.result? : Phase → Option Config
  | completing _ (.ok config) => some config
  | leaving (.ok config) => some config
  | _ => none

/-- Whether what passes have come to, and their leaders still hold, is what is served. -/
def State.Answered (s : State) : Prop :=
  ∀ j q config, s.phase? j = some q → q.result? = some config → s.live.current = some config

variable {fetched : Outcome Content} {s s' start : State} {m : Move} {moves : List Move} {i j ticket : Nat} {p q : Phase}
  {g : Int}

theorem Phase.isLeading_of_result {config : Config} (h : p.result? = some config) : p.isLeading = true := by
  cases p <;> first | rfl | cases h

theorem Turn.live_of_leading (hturn : Turn fetched s m s') (hexclusive : s.Exclusive) (hq : s.phase? j = some q)
    (hlead : q.isLeading = true) (hj : m.who ≠ j) : s'.live = s.live := by
  have hm := hturn.shifts
  cases hturn with
  | publishes => exact absurd (hexclusive.eq_of_isLeading hm.source hq rfl hlead) hj
  | _ => rfl

theorem Turn.answered (hturn : Turn fetched s m s') (hexclusive : s.Exclusive) (h : s.Answered) : s'.Answered := by
  intro j q config hq hresult
  have hm := hturn.shifts
  rcases hm.phase?_cases hq with ⟨_, rfl⟩ | ⟨hne, hq⟩
  · have hsource := h m.who m.source config hm.source
    cases hturn with
    | finds hi hlive => cases hresult; exact hlive
    | publishes => cases hresult; rfl
    | @completes _ _ _ outcome =>
      cases outcome <;> cases hresult
      exact hsource rfl
    | _ => cases hresult
  · rw [hturn.live_of_leading hexclusive hq (Phase.isLeading_of_result hresult) hne]
    exact h j q config hq hresult

/-! ## The generation of a pass -/

/-- Whether the configuration that a leader's pass comes to, if it comes to one, has a generation. -/
def Caller.Heads (live : Coordinator) (g : Int) : Caller → Prop
  | ⟨request, .leading _⟩ =>
    ((request = .current → live.current = none) → live.generation + 1 = g) ∧
      ∀ config, request = .current → live.current = some config → config.generation = g
  | ⟨_, .publishing _ config⟩ => config.generation = g
  | ⟨_, .completing _ (.ok config)⟩ => config.generation = g
  | _ => True

/-- Whether a caller waits for a ticket, or holds it, or has an outcome, and any configuration that the outcome is, has a
    generation. -/
def Phase.Gives (ticket : Nat) (g : Int) : Phase → Prop
  | started => False
  | entering => False
  | waiting t => t = ticket
  | leaving outcome => ∀ config, outcome = .ok config → config.generation = g
  | returned outcome => ∀ config, outcome = .ok config → config.generation = g
  | p => p.ticket? = some ticket

/-- Whether a caller will be given a configuration of one generation, if it is given any: the generation of what its
    ticket is completed with. -/
structure State.Heading (s : State) (i ticket : Nat) (g : Int) : Prop where
  issued : ticket < s.flights.tickets.length
  leader : ∀ (j : Nat) (c : Caller), s.callers[j]? = some c → c.phase.ticket? = some ticket → c.Heads s.live g
  complete : ∀ config, s.flights.tickets[ticket]? = some (some (.ok config)) → config.generation = g
  caller : ∃ p, s.phase? i = some p ∧ p.Gives ticket g

theorem Turn.heads (hturn : Turn fetched s m s') (hexclusive : s.Exclusive) (h : s.Heading i ticket g) {c : Caller}
    (hc : s'.callers[j]? = some c) (ht : c.phase.ticket? = some ticket) : c.Heads s'.live g := by
  rw [hturn.callers] at hc
  split at hc
  · rename_i hwho
    subst hwho
    obtain ⟨⟨request, phase⟩, hcaller, rfl⟩ := Option.map_eq_some_iff.mp hc
    have hheads := h.leader _ _ hcaller
    cases hturn with
    | registers =>
      -- the ticket registered is a new one
      cases ht
      exact absurd h.issued (lt_irrefl _)
    | finds hi hlive =>
      cases hi.symm.trans hcaller
      exact (hheads ht).2 _ rfl hlive
    | fails => trivial
    | resolves hi hneeds hpass =>
      cases hi.symm.trans hcaller
      exact (Coordinator.generation_of_advance hpass).trans ((hheads ht).1 hneeds)
    | publishes hi =>
      cases hi.symm.trans hcaller
      exact hheads ht
    | _ => cases ht
  · have hlead := Phase.isLeading_of_ticket ht
    rw [hturn.live_of_leading hexclusive (State.phase?_of_caller hc) hlead ‹_›]
    exact h.leader j c hc ht

theorem State.Heading.complete_step (h : s.Heading i ticket g) (hturn : Turn fetched s m s') {config : Config}
    (hticket : s'.flights.tickets[ticket]? = some (some (.ok config))) : config.generation = g := by
  cases hturn with
  | registers => exact h.complete config (getElem?_append_none_some.mp hticket)
  | @completes j t request outcome hj =>
    rw [State.goes_flights, Flights.complete, List.getElem?_set] at hticket
    split at hticket
    · rename_i heq
      subst heq
      obtain rfl : outcome = .ok config := And.right (by simpa using hticket)
      exact h.leader j _ hj rfl
    · exact h.complete config hticket
  | _ => exact h.complete config hticket

theorem State.Heading.caller_step (h : s.Heading i ticket g) (hturn : Turn fetched s m s') :
    ∃ p, s'.phase? i = some p ∧ p.Gives ticket g := by
  obtain ⟨p, hp, hgives⟩ := h.caller
  have hm := hturn.shifts
  by_cases hwho : m.who = i
  · subst hwho
    obtain rfl := Option.some.inj (hm.source.symm.trans hp)
    refine ⟨_, hm.target, ?_⟩
    cases hturn with
    | served | calls | registers | joins => cases hgives
    | finds | fails | resolves | publishes | leaves => exact hgives
    | @completes _ t _ outcome hj =>
      rintro config rfl
      exact h.leader _ _ hj hgives
    | receives hj hticket =>
      rintro config rfl
      exact h.complete config (hgives ▸ hticket)
  · exact ⟨p, by rw [hm.phases, if_neg hwho, hp], hgives⟩

theorem State.Heading.step (h : s.Heading i ticket g) (hturn : Turn fetched s m s') (hexclusive : s.Exclusive) :
    s'.Heading i ticket g where
  issued := h.issued.trans_le hturn.length_le
  leader _ _ := hturn.heads hexclusive h
  complete _ := h.complete_step hturn
  caller := h.caller_step hturn

/-! ## Joining -/

theorem Caller.isLeading_of_settled {live : Coordinator} {c : Caller} (h : c.Settled live) : c.phase.isLeading = true := by
  obtain ⟨request, phase⟩ := c
  cases phase <;> first | rfl | (cases request <;> cases h)

theorem State.Exclusive.settled_iff (h : s.Exclusive) {c : Caller} (hc : s.callers[j]? = some c)
    (hlead : c.phase.isLeading = true) : s.Settled ↔ c.Settled s.live := by
  refine ⟨fun hsettled => ?_, fun hsettled => ⟨j, c, hc, hsettled⟩⟩
  obtain ⟨k, d, hd, hsettled⟩ := hsettled
  obtain rfl := h.eq_of_isLeading (State.phase?_of_caller hd) (State.phase?_of_caller hc)
    (Caller.isLeading_of_settled hsettled) hlead
  cases hd.symm.trans hc
  exact hsettled

theorem Counted.heads (h : Counted moves s) (hanswered : s.Answered) {c : Caller} (hc : s.callers[j]? = some c)
    (hsettled : c.Settled s.live → g = s.live.generation) (hnot : ¬ c.Settled s.live → g = s.live.generation + 1) :
    c.Heads s.live g := by
  have hphase := State.phase?_of_caller hc
  obtain ⟨request, phase⟩ := c
  cases phase with
  | leading t =>
    refine ⟨fun hneeds => (hnot fun hs => ?_).symm, ?_⟩
    · cases request with
      | reload => cases hs
      | current => exact hs (hneeds rfl)
    · rintro config rfl hlive
      rw [hsettled (by simp [Caller.Settled, hlive]), Coordinator.generation, hlive]
  | publishing t config => exact (h.next j t config hphase).trans (hnot (by simp [Caller.Settled])).symm
  | completing t outcome =>
    cases outcome with
    | error f => trivial
    | ok config =>
      have hlive := hanswered j _ config hphase rfl
      show config.generation = g
      rw [hsettled (by simp [Caller.Settled]), Coordinator.generation, hlive]
  | _ => trivial

/-- Who registers the key for a reload does a pass, and so is given the next generation. -/
theorem heading_of_registering (hexclusive : s.Exclusive) (hfree : s.flights.registered = [])
    (hi : s.callers[i]? = some ⟨.reload, .entering⟩)
    (hturn : Turn fetched s ⟨i, .entering, .leading s.flights.tickets.length, fetched⟩ s') (hlive : s'.live = s.live)
    (htickets : s'.flights.tickets = s.flights.tickets ++ [none]) :
    s'.Heading i s.flights.tickets.length (s.live.generation + 1) where
  issued := by simp [htickets]
  leader j c hc ht := by
    rw [hturn.callers] at hc
    split at hc
    · rename_i hwho
      cases hwho
      rw [hi] at hc
      cases hc
      exact ⟨fun _ => by rw [hlive], nofun⟩
    · have hlead := Phase.isLeading_of_ticket ht
      simp [hexclusive.isLeading_eq_false hfree (State.phase?_of_caller hc)] at hlead
  complete config hticket := by
    rw [htickets, getElem?_append_none_some] at hticket
    simp at hticket
  caller := ⟨_, hturn.shifts.target, rfl⟩

theorem heading_of_joining {c : Caller} (hcounted : Counted moves s) (hanswered : s.Answered)
    (hled : s.LedBy j ticket c.phase) (hc : s.callers[j]? = some c)
    (hturn : Turn fetched s ⟨i, .entering, .waiting ticket, fetched⟩ s') (hlive : s'.live = s.live)
    (hflights : s'.flights = s.flights) (hsettled : c.Settled s.live → g = s.live.generation)
    (hnot : ¬ c.Settled s.live → g = s.live.generation + 1) : s'.Heading i ticket g where
  issued := hflights ▸ hled.holds.lt
  leader k d hd ht := by
    rw [hturn.callers] at hd
    split at hd
    · obtain ⟨_, _, rfl⟩ := Option.map_eq_some_iff.mp hd
      cases ht
    · obtain rfl := hled.alone k d.phase (State.phase?_of_caller hd) (Phase.isLeading_of_ticket ht)
      cases hd.symm.trans hc
      exact hlive ▸ hcounted.heads hanswered hc hsettled hnot
  complete config hticket := by
    -- a ticket that is complete is held by a leader that leaves
    rw [hflights] at hticket
    obtain ⟨request, phase⟩ := c
    cases hled.holds with
    | leaving h =>
      cases h.symm.trans hticket
      have hcurrent := hanswered j _ config hled.phase rfl
      rw [hsettled (by simp [Caller.Settled]), Coordinator.generation, hcurrent]
    | _ h => cases h.symm.trans hticket
  caller := ⟨_, hturn.shifts.target, rfl⟩

/-- A reload that joins or registers is given a configuration of the generation served if the pass is settled, and else
    one of the next generation. -/
theorem exists_heading (hexclusive : s.Exclusive) (hcounted : Counted moves s) (hanswered : s.Answered)
    (hi : s.callers[i]? = some ⟨.reload, .entering⟩) (hturn : Turn fetched s m s') (hwho : m.who = i) :
    ∃ ticket g, s'.Heading i ticket g ∧ (s.Settled → g = s.live.generation) ∧
      (¬ s.Settled → g = s.live.generation + 1) := by
  subst hwho
  have hsource := hturn.shifts.source.symm.trans (State.phase?_of_caller hi)
  have hturn' := hturn
  cases hturn with
  | registers _ hfree =>
    refine ⟨_, _, heading_of_registering hexclusive hfree hi hturn' rfl rfl, fun hsettled => ?_, fun _ => rfl⟩
    obtain ⟨j, c, hc, hsettled⟩ := hsettled
    have hlead := Caller.isLeading_of_settled hsettled
    simp [hexclusive.isLeading_eq_false hfree (State.phase?_of_caller hc)] at hlead
  | joins _ hreg =>
    rcases id hexclusive with hfree | ⟨j, _, _, hled⟩
    · cases hreg.symm.trans hfree.registered
    · cases hreg.symm.trans hled.registered
      obtain ⟨c, hc, rfl⟩ := Option.map_eq_some_iff.mp hled.phase
      have hsettled := hexclusive.settled_iff hc hled.holds.isLeading
      have hheading := fun g => heading_of_joining (g := g) hcounted hanswered hled hc hturn' rfl rfl
      by_cases hs : s.Settled
      · exact ⟨_, _, hheading _ (fun _ => rfl) fun hnot => absurd (hsettled.mp hs) hnot, fun _ => rfl,
          fun hnot => absurd hs hnot⟩
      · exact ⟨_, _, hheading _ (fun h => absurd (hsettled.mpr h) hs) fun _ => rfl, fun h => absurd h hs, fun _ => rfl⟩
  | _ => cases hsource

/-! ## Runs -/

theorem Run.trans {middle : State} {before after : List Move} (h : Run start before middle) (h' : Run middle after s) :
    Run start (before ++ after) s := by
  induction h' with
  | still => simpa using h
  | moved _ hsource hstep htarget ih => exact List.append_assoc .. ▸ ih.moved hsource hstep htarget

theorem Run.answered {requests : List Request} (h : Run (.start .fresh requests) moves s) : s.Answered := by
  induction h with
  | still =>
    intro j q config hq hresult
    rw [State.phase?_start hq] at hresult
    cases hresult
  | moved earlier hsource hstep htarget ih =>
    exact (turn_of_step hsource hstep htarget).answered earlier.sound.exclusive ih

theorem Run.generation_le {requests : List Request} {before : List Move} (earlier : Run (.start .fresh requests) before start)
    (h : Run start moves s) : start.live.generation ≤ s.live.generation := by
  have hmore : published (before ++ moves) = published before ++ published moves := List.filterMap_append
  rw [earlier.sound.counted.generation, (earlier.trans h).sound.counted.generation, hmore, List.length_append]
  omega

/-- A reload on its way has not joined yet, or is heading for the configuration of the pass that it joined. -/
theorem Run.entering_or_heading {requests : List Request} {before : List Move}
    (earlier : Run (.start .fresh requests) before start) (hi : start.callers[i]? = some ⟨.reload, .entering⟩)
    (h : Run start moves s) :
    s.callers[i]? = some ⟨.reload, .entering⟩ ∨ ∃ first m rest joined ticket g,
      moves = first ++ m :: rest ∧ Run start first joined ∧ m.who = i ∧ m.source = .entering ∧
        (joined.Settled → g = joined.live.generation) ∧ (¬ joined.Settled → g = joined.live.generation + 1) ∧
        s.Heading i ticket g := by
  induction h with
  | still => exact .inl hi
  | @moved moves s s' m sofar hsource hstep htarget ih =>
    have hturn := turn_of_step hsource hstep htarget
    have hsound := (earlier.trans sofar).sound
    rcases ih with hentering | ⟨first, join, rest, joined, ticket, g, rfl, hfirst, hwho, hjoin, hsettled, hnot, hheading⟩
    · by_cases hwho : m.who = i
      · obtain ⟨ticket, g, hheading, hsettled, hnot⟩ :=
          exists_heading hsound.exclusive hsound.counted (earlier.trans sofar).answered hentering hturn hwho
        have hjoin : m.source = .entering :=
          Option.some.inj (hsource.symm.trans (hwho ▸ State.phase?_of_caller hentering))
        exact .inr ⟨moves, m, [], s, ticket, g, rfl, sofar, hwho, hjoin, hsettled, hnot, hheading⟩
      · exact .inl (by rw [hturn.callers, if_neg hwho, hentering])
    · exact .inr ⟨first, join, rest ++ [m], joined, ticket, g, by simp, hfirst, hwho, hjoin, hsettled, hnot,
        hheading.step hturn hsound.exclusive⟩

/-- **What a reload returns.** Let callers of a coordinator that has resolved nothing before take any turns, a reload
    begin after some of them, and return a configuration after some more. In between it registered a pass or joined one.
    If that pass was settled, the reload returns the generation served when it joined, and if not, the next one. So the
    generation is greater than the one served when the reload began exactly if the pass was not settled, or a greater
    one was served already when the reload joined. -/
theorem reload_returns_a_later_generation_iff {requests : List Request} {before : List Move} {began : State}
    {config : Config} (earlier : Run (.start .fresh requests) before start)
    (hi : start.callers[i]? = some ⟨.reload, .started⟩) (hbegins : step fetched i start = some began)
    (h : Run began moves s) (hreturns : s.phase? i = some (.returned (.ok config))) :
    ∃ first m rest joined, moves = first ++ m :: rest ∧ Run began first joined ∧ m.who = i ∧ m.source = .entering ∧
      (joined.Settled → config.generation = joined.live.generation) ∧
      (¬ joined.Settled → config.generation = joined.live.generation + 1) ∧
      (start.live.generation < config.generation ↔
        ¬ joined.Settled ∨ start.live.generation < joined.live.generation) := by
  obtain ⟨m, rfl, hgiven, hturn⟩ := exists_turn hbegins
  rw [← hgiven] at hbegins
  have hbegan := earlier.moved hturn.shifts.source hbegins hturn.shifts.target
  have hbeginning := Run.still.moved hturn.shifts.source hbegins hturn.shifts.target
  have hentering : began.callers[m.who]? = some ⟨.reload, .entering⟩ := by
    have hsource := hturn.shifts.source.symm.trans (State.phase?_of_caller hi)
    rw [hturn.callers, if_pos rfl, hi]
    cases hturn with
    | served hcurrent => cases hcurrent.symm.trans hi
    | calls => rfl
    | _ => cases hsource
  obtain hstill | ⟨first, join, rest, joined, ticket, g, rfl, hfirst, hwho, hjoin, hsettled, hnot, hheading⟩ :=
    hbegan.entering_or_heading hentering h
  · cases hreturns.symm.trans (State.phase?_of_caller hstill)
  · obtain ⟨p, hp, hgives⟩ := hheading.caller
    cases hreturns.symm.trans hp
    obtain rfl : config.generation = g := hgives config rfl
    refine ⟨first, join, rest, joined, rfl, hfirst, hwho, hjoin, hsettled, hnot, ?_⟩
    have hle : start.live.generation ≤ joined.live.generation := earlier.generation_le (hbeginning.trans hfirst)
    by_cases hs : joined.Settled
    · simp [hs, hsettled hs]
    · have := hnot hs
      simp only [hs, not_false_eq_true, true_or, iff_true]
      omega

/-- Two reloads, the first of which has registered the key. -/
def underway : State := run (.ok (.tree [])) (.start .fresh [.reload, .reload]) [0, 0]

/-- The first reload has published its configuration and completed its ticket, and has not removed the key yet. -/
def passOver : State := run (.ok (.tree [])) underway [0, 0, 0]

/-- A reload that begins and joins while the first one has not done its pass returns a later generation. -/
theorem reload_joining_a_pass_underway_is_later :
    ∃ before moves began, Run (.start .fresh [.reload, .reload]) before underway ∧
      step (.ok (.tree [])) 1 underway = some began ∧
      ∃ joined, Run began moves joined ∧ (¬ joined.Settled ∨ underway.live.generation < joined.live.generation) := by
  have hstill : Run (.start .fresh [.reload, .reload]) [] _ := .still
  have hbefore : Run (.start .fresh [.reload, .reload]) _ underway := hstill.follow (.ok (.tree [])) [0, 0]
  have hbegins : step (.ok (.tree [])) 1 underway = some (run (.ok (.tree [])) underway [1]) := rfl
  have hbegan : Run (run (.ok (.tree [])) underway [1]) [] _ := .still
  have hmoves := hbegan.follow (.ok (.tree [])) [1, 0, 0, 0, 1]
  obtain ⟨first, _, _, joined, _, hfirst, _, _, _, _, hiff⟩ :=
    reload_returns_a_later_generation_iff (i := 1) hbefore rfl hbegins hmoves rfl
  exact ⟨_, first, _, hbefore, hbegins, joined, hfirst, hiff.mp (by decide)⟩

/-- A reload that begins when the first one has published its configuration, and joins it all the same, returns that
    configuration: what was served when it began. -/
theorem reload_joining_a_pass_that_is_over_is_no_later :
    ∃ before moves began config, Run (.start .fresh [.reload, .reload]) before passOver ∧
      passOver.callers[1]? = some ⟨.reload, .started⟩ ∧ step (.ok (.tree [])) 1 passOver = some began ∧
      Run began moves (run (.ok (.tree [])) began [1, 1]) ∧
      (run (.ok (.tree [])) began [1, 1]).phase? 1 = some (.returned (.ok config)) ∧
      ¬ passOver.live.generation < config.generation := by
  have hstill : Run (.start .fresh [.reload, .reload]) [] _ := .still
  have hbefore : Run _ _ underway := hstill.follow (.ok (.tree [])) [0, 0]
  have hpassed : Run _ _ passOver := hbefore.follow (.ok (.tree [])) [0, 0, 0]
  have hbegan : Run (run (.ok (.tree [])) passOver [1]) [] _ := .still
  exact ⟨_, _, _, _, hpassed, rfl, rfl, hbegan.follow (.ok (.tree [])) [1, 1], rfl, by decide⟩

end LayeredConfig.Concurrent
