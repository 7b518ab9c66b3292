import LayeredConfig.Failure.Chain
import Mathlib.Logic.Relation
/-!
# What a walk along errors lists

A walk takes one error after the other off a stack (`Ends`). Whatever the graph, cyclic or not, it comes to an end
after at most twice as many turns as there are errors, and one more (`exists_ends`). What one turn keeps then says what
a whole walk lists: no error twice (`Ends.nodup`), only what can be reached (`Ends.reaches`), all of it
(`Ends.complete`), and each error behind one that refers to it (`Ends.referred`).
-/
namespace LayeredConfig
namespace ErrorGraph

variable {g : ErrorGraph} {i j root turns : Nat} {seen stack listed : List Nat} {hint : String}

/-- Whether an error refers to another one, as its cause or as its context. -/
def Refers (g : ErrorGraph) (i j : Nat) : Prop :=
  ∃ e, g[i]? = some e ∧ (e.cause = some j ∨ e.context = some j)

/-- Whether an error is another one or can be reached from it through causes and contexts. -/
abbrev Reaches (g : ErrorGraph) : Nat → Nat → Prop := Relation.ReflTransGen g.Refers

/-- Whether every error that is referred to is in the graph. -/
def Closed (g : ErrorGraph) : Prop := ∀ e ∈ g, ∀ j ∈ e.context.toList ++ e.cause.toList, j < g.length

instance (g : ErrorGraph) : Decidable g.Closed := inferInstanceAs (Decidable (∀ e ∈ g, _))

/-- Whether an error has a hint, and one that is not empty. -/
def Hints (g : ErrorGraph) (i : Nat) (hint : String) : Prop :=
  ∃ e, g[i]? = some e ∧ e.hint = some hint ∧ hint ≠ ""

/-- The turns of a walk. With some errors seen and others on the stack it ends after so many turns, and lists so many
    errors on the way: every turn takes an error off the stack, which is passed over if it was seen, and otherwise
    listed, with what it refers to put on the stack. -/
inductive Ends (g : ErrorGraph) : (turns : Nat) → (seen stack listed : List Nat) → Prop
  | empty {seen : List Nat} : Ends g 0 seen [] []
  | pass {turns i : Nat} {seen rest listed : List Nat} (hi : i ∈ seen) (h : Ends g turns seen rest listed) :
      Ends g (turns + 1) seen (i :: rest) listed
  | list {turns i : Nat} {seen rest listed : List Nat} (hi : i ∉ seen)
      (h : Ends g turns (i :: seen) (g.next i ++ rest) listed) : Ends g (turns + 1) seen (i :: rest) (i :: listed)

/-! ## A walk comes to an end -/

theorem mem_next_iff : j ∈ g.next i ↔ g.Refers i j := by
  rw [next, Refers]
  cases g[i]? with
  | none => simp
  | some e => simp [or_comm]

theorem length_next_le (g : ErrorGraph) (i : Nat) : (g.next i).length ≤ 2 := by
  rw [next]
  cases g[i]? with
  | none => simp
  | some e => cases hcontext : e.context <;> cases hcause : e.cause <;> simp [hcontext, hcause]

theorem Closed.next_lt (hg : g.Closed) : ∀ j ∈ g.next i, j < g.length := by
  rw [next]
  cases hi : g[i]? with
  | none => simp
  | some e => exact hg e (List.mem_of_getElem? hi)

/-- An error that is listed puts at most two on the stack and is one less to list. -/
theorem exists_ends (hg : g.Closed) (seen : List Nat) (hstack : ∀ i ∈ stack, i < g.length) :
    ∃ turns ≤ stack.length + 2 * (g.unseen seen).length, g.Ends turns seen stack (g.walkFrom seen stack) := by
  induction seen, stack using walkFrom.induct g with
  | case1 seen =>
    rw [walkFrom]
    exact ⟨0, Nat.zero_le _, .empty⟩
  | case2 seen i rest hseen ih =>
    obtain ⟨turns, hle, h⟩ := ih (List.forall_mem_cons.mp hstack).2
    rw [walkFrom, dif_pos hseen]
    refine ⟨turns + 1, ?_, .pass (by simpa using hseen) h⟩
    rw [List.length_cons]
    omega
  | case3 seen i rest hseen hi ih =>
    have hnext : ∀ j ∈ g.next i ++ rest, j < g.length := by
      intro j hj
      rcases List.mem_append.mp hj with hj | hj
      · exact hg.next_lt j hj
      · exact hstack j (List.mem_cons_of_mem i hj)
    obtain ⟨turns, hle, h⟩ := ih hnext
    rw [walkFrom, dif_neg hseen, dif_pos hi]
    refine ⟨turns + 1, ?_, .list (by simpa using hseen) h⟩
    have hfewer := unseen_cons_lt hi (by simpa using hseen)
    have htwo := length_next_le g i
    rw [List.length_append] at hle
    rw [List.length_cons]
    omega
  | case4 seen i rest _ hi => exact absurd (hstack i List.mem_cons_self) hi

/-! ## What it lists -/

/-- Nothing is listed twice, and nothing that was seen before. -/
theorem Ends.nodup (h : g.Ends turns seen stack listed) : listed.Nodup ∧ ∀ i ∈ listed, i ∉ seen := by
  induction h with
  | empty => simp
  | pass _ _ ih => exact ih
  | @list _ i seen _ _ hi _ ih =>
    obtain ⟨hnodup, hnew⟩ := ih
    have hother : ∀ j ∈ _, j ≠ i ∧ j ∉ seen := fun j hj => not_or.mp (mt List.mem_cons.mpr (hnew j hj))
    refine ⟨List.nodup_cons.mpr ⟨fun hmem => (hother i hmem).1 rfl, hnodup⟩, ?_⟩
    exact List.forall_mem_cons.mpr ⟨hi, fun j hj => (hother j hj).2⟩

/-- Only what can be reached from the stack is listed. -/
theorem Ends.reaches (h : g.Ends turns seen stack listed) : ∀ j ∈ listed, ∃ i ∈ stack, g.Reaches i j := by
  induction h with
  | empty => simp
  | pass _ _ ih =>
    intro j hj
    obtain ⟨i, hi, hreach⟩ := ih j hj
    exact ⟨i, List.mem_cons_of_mem _ hi, hreach⟩
  | @list _ i _ rest _ _ _ ih =>
    intro j hj
    rcases List.mem_cons.mp hj with rfl | hj
    · exact ⟨j, List.mem_cons_self, .refl⟩
    · obtain ⟨k, hk, hreach⟩ := ih j hj
      rcases List.mem_append.mp hk with hk | hk
      · exact ⟨i, List.mem_cons_self, hreach.head (mem_next_iff.mp hk)⟩
      · exact ⟨k, List.mem_cons_of_mem i hk, hreach⟩

/-- If everything that a seen error refers to is seen or on the stack, then in the end everything that a seen or listed
    error refers to is seen or listed, and so is all that was on the stack. -/
theorem Ends.complete (h : g.Ends turns seen stack listed)
    (hseen : ∀ i ∈ seen, ∀ j, g.Refers i j → j ∈ seen ∨ j ∈ stack) :
    (∀ i ∈ stack, i ∈ seen ∨ i ∈ listed) ∧
      ∀ i, i ∈ seen ∨ i ∈ listed → ∀ j, g.Refers i j → j ∈ seen ∨ j ∈ listed := by
  induction h with
  | empty => simpa using hseen
  | @pass _ i seen rest listed hi _ ih =>
    have hrest : ∀ k ∈ seen, ∀ j, g.Refers k j → j ∈ seen ∨ j ∈ rest := by
      intro k hk j hj
      rcases hseen k hk j hj with hj | hj
      · exact .inl hj
      · rcases List.mem_cons.mp hj with rfl | hj
        · exact .inl hi
        · exact .inr hj
    obtain ⟨hstack, hclosed⟩ := ih hrest
    exact ⟨List.forall_mem_cons.mpr ⟨.inl hi, hstack⟩, hclosed⟩
  | @list _ i seen rest listed hi _ ih =>
    have hnext : ∀ k ∈ i :: seen, ∀ j, g.Refers k j → j ∈ i :: seen ∨ j ∈ g.next i ++ rest := by
      intro k hk j hj
      rcases List.mem_cons.mp hk with rfl | hk
      · exact .inr (List.mem_append_left rest (mem_next_iff.mpr hj))
      · rcases hseen k hk j hj with hj | hj
        · exact .inl (List.mem_cons_of_mem i hj)
        · rcases List.mem_cons.mp hj with rfl | hj
          · exact .inl List.mem_cons_self
          · exact .inr (List.mem_append_right _ hj)
    obtain ⟨hstack, hclosed⟩ := ih hnext
    -- the error that is listed counts as seen from the next turn on
    have hmoved : ∀ k, (k ∈ i :: seen ∨ k ∈ listed) ↔ (k ∈ seen ∨ k ∈ i :: listed) := by
      intro k
      rw [List.mem_cons, List.mem_cons, or_left_comm, or_assoc]
    refine ⟨?_, ?_⟩
    · refine List.forall_mem_cons.mpr ⟨.inr List.mem_cons_self, ?_⟩
      exact fun k hk => (hmoved k).mp (hstack k (List.mem_append_right _ hk))
    · exact fun k hk j hj => (hmoved j).mp (hclosed k ((hmoved k).mpr hk) j hj)

/-- What is listed was on the stack, or an error that was listed before refers to it. -/
theorem Ends.referred (h : g.Ends turns seen stack listed) :
    ∀ front i back, listed = front ++ i :: back → i ∈ stack ∨ ∃ j ∈ front, g.Refers j i := by
  induction h with
  | empty => simp
  | pass _ _ ih =>
    intro front i back heq
    exact (ih front i back heq).imp_left (List.mem_cons_of_mem _)
  | @list _ first _ rest _ _ _ ih =>
    intro front i back heq
    cases front with
    | nil =>
      obtain ⟨rfl, _⟩ := List.cons.inj heq
      exact .inl List.mem_cons_self
    | cons head front =>
      obtain ⟨rfl, hback⟩ := List.cons.inj heq
      rcases ih front i back hback with hi | ⟨j, hj, hrefers⟩
      · rcases List.mem_append.mp hi with hi | hi
        · exact .inr ⟨first, List.mem_cons_self, mem_next_iff.mp hi⟩
        · exact .inl (List.mem_cons_of_mem first hi)
      · exact .inr ⟨j, List.mem_cons_of_mem first hj, hrefers⟩

theorem walk_head (hroot : root < g.length) : ∃ rest, g.walk root = root :: rest := by
  rw [walk, walkFrom, dif_neg (by simp), dif_pos hroot]
  exact ⟨_, rfl⟩

theorem mem_walk_iff (hg : g.Closed) (hroot : root < g.length) : i ∈ g.walk root ↔ g.Reaches root i := by
  obtain ⟨_, _, h⟩ := exists_ends hg [] (List.forall_mem_singleton.mpr hroot)
  constructor
  · intro hi
    obtain ⟨start, hstart, hreach⟩ := h.reaches i hi
    rwa [List.mem_singleton.mp hstart] at hreach
  · intro hreach
    obtain ⟨hstack, hclosed⟩ := h.complete (by simp)
    induction hreach with
    | refl => exact (hstack root (List.mem_singleton_self root)).resolve_left List.not_mem_nil
    | tail _ hrefers ih => exact (hclosed _ (.inr ih) _ hrefers).resolve_left List.not_mem_nil

/-! ## Hints along it -/

theorem hint_eq_some_iff : ((g[i]?.bind (·.hint)).filter (· ≠ "")) = some hint ↔ g.Hints i hint := by
  rw [Hints, Option.filter_eq_some_iff, Option.bind_eq_some_iff]
  simp only [decide_eq_true_eq]
  constructor
  · rintro ⟨⟨e, he, hhint⟩, hne⟩
    exact ⟨e, he, hhint, hne⟩
  · rintro ⟨e, he, hhint, hne⟩
    exact ⟨⟨e, he, hhint⟩, hne⟩

theorem hint_eq_none_iff : ((g[i]?.bind (·.hint)).filter (· ≠ "")) = none ↔ ∀ hint, ¬ g.Hints i hint := by
  rw [Option.eq_none_iff_forall_ne_some]
  exact forall_congr' fun hint => not_congr hint_eq_some_iff

/-- **A walk lists what can be reached.** Take any errors that refer to each other in any way, cycles and shared ones
    included, and walk from one of them. The walk comes to an end, after at most twice as many turns as there are
    errors and one more. It lists the error that it starts from first, then every error that can be reached through
    causes and contexts, each once and nothing else, and each behind one that refers to it. The first hint is missing
    just when no error that can be reached has one that is not empty; otherwise it is that of the first error listed
    that has one. -/
theorem walk_lists_what_can_be_reached (hg : g.Closed) (hroot : root < g.length) :
    (∃ turns ≤ 2 * g.length + 1, g.Ends turns [] [root] (g.walk root)) ∧
      (∃ rest, g.walk root = root :: rest) ∧ (g.walk root).Nodup ∧ (∀ i, i ∈ g.walk root ↔ g.Reaches root i) ∧
      (∀ front i back, g.walk root = front ++ i :: back → i ≠ root → ∃ j ∈ front, g.Refers j i) ∧
      (g.firstHint root = none ↔ ∀ i, g.Reaches root i → ∀ hint, ¬ g.Hints i hint) ∧
      ∀ hint, g.firstHint root = some hint ↔ ∃ front i back, g.walk root = front ++ i :: back ∧ g.Hints i hint ∧
        ∀ j ∈ front, ∀ other, ¬ g.Hints j other := by
  obtain ⟨turns, hle, h⟩ := exists_ends hg [] (List.forall_mem_singleton.mpr hroot)
  have hall : (g.unseen []).length = g.length := by
    rw [unseen, List.filter_eq_self.mpr (by simp), List.length_range]
  have hturns : turns ≤ 2 * g.length + 1 := by
    rw [hall, List.length_singleton] at hle
    omega
  refine ⟨⟨turns, hturns, h⟩, walk_head hroot, h.nodup.1, fun i => mem_walk_iff hg hroot, ?_, ?_, ?_⟩
  · intro front i back heq hne
    exact (h.referred front i back heq).resolve_left fun hi => hne (List.mem_singleton.mp hi)
  · rw [firstHint, List.findSome?_eq_none_iff]
    simp only [hint_eq_none_iff, mem_walk_iff hg hroot]
  · intro hint
    rw [firstHint, List.findSome?_eq_some_iff]
    simp only [hint_eq_some_iff, hint_eq_none_iff]

/-- Four errors, two of them in a cycle and two of them shared, with an empty hint on the way, and a fifth that refers
    to the first but cannot be reached from it. -/
def entangled : ErrorGraph :=
  [⟨none, some 1, some 2⟩, ⟨some "too late", some 3, some 0⟩, ⟨some "", some 1, some 3⟩,
    ⟨some "look here", none, none⟩, ⟨some "apart", some 0, none⟩]

/-- The walk goes round the cycle once, passes over the empty hint, and leaves out the error apart. -/
theorem entangled_walk_lists_four :
    entangled.walk 0 = [0, 2, 3, 1] ∧ entangled.firstHint 0 = some "look here" ∧ ¬ entangled.Reaches 0 4 := by
  obtain ⟨_, _, _, hmem, _, _, hhint⟩ :=
    walk_lists_what_can_be_reached (show entangled.Closed by decide) (show 0 < entangled.length by decide)
  have hwalk : entangled.walk 0 = [0, 2, 3, 1] := by
    simp [walk, walkFrom, next, entangled]
  rw [hwalk] at hmem hhint
  refine ⟨hwalk, ?_, ?_⟩
  · have hbefore : ∀ j ∈ [0, 2], ∀ other, ¬ entangled.Hints j other := by
      simp [Hints, entangled]
    exact (hhint "look here").mpr ⟨[0, 2], 3, [1], rfl, ⟨_, rfl, rfl, by decide⟩, hbefore⟩
  · exact fun hreach => absurd ((hmem 4).mpr hreach) (by decide)

end ErrorGraph
end LayeredConfig
