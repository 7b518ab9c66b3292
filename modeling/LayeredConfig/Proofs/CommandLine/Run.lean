import LayeredConfig.CommandLine.Run
import LayeredConfig.Proofs.Coordinator.Passes
import LayeredConfig.Proofs.Profile.Resolution
import LayeredConfig.Proofs.Settings
import LayeredConfig.Proofs.Source.Changes
import LayeredConfig.Proofs.Source.Reading
/-!
# How a run of the program ends

A run over a configuration resolves it once: the settings are read, their file is handed out, and its tree is resolved
(`Invocation.config_eq`). Each of these steps can fail only with what is wrong with the configuration, and whatever is
resolved can be written, so that a run ends with its answer or with what is wrong. There is one exception, a profile's
name that the arguments emptied (`run_finishes_unless_the_name_is_emptied`).
-/
namespace LayeredConfig

variable {f : Failure}

theorem Coordinator.result_fresh_demand {σ : Type} (feed : Feed σ) (s : σ) :
    (fresh.demand feed s).result = ((feed.fetch s).1 >>= fun content => Config.resolve content 1) := by
  rw [demand_of_none (c := fresh) rfl]
  cases hf : feed.fetch s with
  | mk fetched s' =>
    cases fetched with
    | error failure => rw [advance_of_error hf]; rfl
    | ok content =>
      cases hr : Config.resolve content (fresh.generation + 1) with
      | error failure =>
        rw [advance_of_unresolved hf hr]
        exact hr.symm
      | ok config =>
        rw [advance_of_ok hf hr]
        exact hr.symm

/-- What the file of settings hands out in a world; settings without a file hand out an empty tree. -/
def Settings.handOut (s : Settings) (w : World) : Outcome Tree :=
  match s.configFile with
  | none => .ok []
  | some file =>
    FileSource.handOut ⟨plainName file, s.table, s.required, w.sightings.length⟩ (w.files.read (plainName file))

theorem Settings.fetch_source (s : Settings) (w : World) :
    ((s.source w).1.fetch (s.source w).2).1 = (s.handOut w).map .tree := by
  rw [source, handOut]
  cases s.configFile with
  | none => rfl
  | some file =>
    exact FileSource.fetch_fst ⟨plainName file, s.table, s.required, w.sightings.length⟩
      { w with sightings := w.sightings ++ [.never] }

theorem Settings.handOut_sound {s : Settings} {w : World} {t : Tree} (h : s.handOut w = .ok t) :
    t.Frozen ∧ ¬ t.HasTombstone := by
  rw [handOut] at h
  split at h
  · cases h
    exact ⟨Tree.frozen_nil, by simp [Tree.HasTombstone]⟩
  · exact FileSource.handOut_sound h

theorem Settings.handOut_fails {s : Settings} {w : World} (hname : ∀ file, s.configFile = some file → NulFree file)
    (hdigits : ∀ name bytes, w.files.read name = .content bytes → Toml.WithinDigits bytes)
    (h : s.handOut w = .error f) : f.isOfConfiguration = true := by
  rw [handOut] at h
  split at h
  · cases h
  · rename_i file hfile
    refine FileSource.handOut_fails ?_ (fun bytes => hdigits _ bytes) h
    exact fun hread => (hname file hfile).plainName (Directory.read_eq_unnameable_iff.mp hread)

namespace CommandLine

variable {i : Invocation} {w : World}

/-! ## The configuration of an invocation -/

theorem Invocation.config_eq (i : Invocation) (w : World) :
    i.config w = (do
      let settings ← i.settings w.environment
      let t ← settings.handOut w
      Config.resolve (.tree t) 1) := by
  rw [config]
  cases i.settings w.environment with
  | error failure => rfl
  | ok settings =>
    have hresult := Coordinator.result_fresh_demand (settings.source w).1.feed (settings.source w).2
    have hfetch : ((settings.source w).1.feed.fetch (settings.source w).2).1 = _ := settings.fetch_source w
    rw [hfetch] at hresult
    refine hresult.trans (?_ : _ = (settings.handOut w >>= fun t => Config.resolve (.tree t) 1))
    cases settings.handOut w <;> rfl

theorem Invocation.exists_of_config {c : Config} (h : i.config w = .ok c) :
    ∃ t : Tree, t.Frozen ∧ ¬ t.HasTombstone ∧ Config.resolve (.tree t) 1 = .ok c := by
  rw [config_eq] at h
  obtain ⟨settings, _, h⟩ := Outcome.bind_eq_ok_iff.mp h
  obtain ⟨t, ht, h⟩ := Outcome.bind_eq_ok_iff.mp h
  obtain ⟨hfrozen, hnone⟩ := Settings.handOut_sound ht
  exact ⟨t, hfrozen, hnone, h⟩

theorem Invocation.nulFree_of_settings (hfile : ∀ text, i.file = some (.text text) → NulFree text)
    (henvironment : ∀ e ∈ w.environment, NulFree e.2) {s : Settings} (h : i.settings w.environment = .ok s)
    {file : String} (hs : s.configFile = some file) : NulFree file := by
  refine Settings.nulFree_of_ofEnvironment henvironment ?_ h hs
  intro o ho hsame text htext
  rcases List.mem_pair.mp ho with rfl | rfl
  · apply hfile
    rw [givenRaw] at htext
    cases hgiven : i.file with
    | none =>
      rw [hgiven] at htext
      cases htext
    | some value =>
      rw [hgiven] at htext
      cases value <;> cases htext
      rfl
  · cases hsame

theorem Invocation.config_fails (hfile : ∀ text, i.file = some (.text text) → NulFree text)
    (henvironment : ∀ e ∈ w.environment, NulFree e.2)
    (hdigits : ∀ name bytes, w.files.read name = .content bytes → Toml.WithinDigits bytes)
    (h : i.config w = .error f) : f.isOfConfiguration = true := by
  rw [config_eq] at h
  rcases Outcome.bind_eq_error_iff.mp h with h | ⟨settings, hsettings, h⟩
  · exact Settings.ofEnvironment_fails h
  rcases Outcome.bind_eq_error_iff.mp h with h | ⟨t, _, h⟩
  · exact Settings.handOut_fails (fun _ => nulFree_of_settings hfile henvironment hsettings) hdigits h
  · exact (Config.resolve_tree_fails h).1

/-! ## The lines of a command -/

theorem mapM_comes_out {α β : Type} {g : α → Outcome β} {xs : List α} (h : ∀ x ∈ xs, ∃ b, g x = .ok b) :
    ∃ bs, xs.mapM g = .ok bs := by
  induction xs with
  | nil => exact ⟨[], rfl⟩
  | cons x rest ih =>
    obtain ⟨⟨b, hb⟩, hrest⟩ := List.forall_mem_cons.mp h
    obtain ⟨bs, hbs⟩ := ih hrest
    exact ⟨b :: bs, by rw [List.mapM_cons, hb]; simp [bind, Except.bind, hbs, pure, Except.pure]⟩

theorem Command.lines_cases {c : Config}
    (hentries : ∀ name p, c.profile name = .ok p → ∀ e ∈ p.entries, ∃ text, e.2.render = .ok text) {command : Command}
    (hcommand : command ≠ .show .emptied) :
    (∃ lines, command.lines c = .ok lines) ∨
      ∃ name g, command = .show (.text name) ∧ c.profile name = .error g ∧ command.lines c = .error g := by
  cases command with
  | «show» value =>
    cases value with
    | emptied => exact absurd rfl hcommand
    | text name =>
      rw [lines]
      cases hprofile : c.profile name with
      | error g => exact .inr ⟨name, g, rfl, hprofile, rfl⟩
      | ok p =>
        left
        refine mapM_comes_out ?_
        intro e he
        obtain ⟨text, htext⟩ := hentries name p hprofile e he
        exact ⟨e.1 ++ " = " ++ text, by rw [entryLine, htext]; rfl⟩
  | profiles => exact .inl ⟨_, rfl⟩
  | check => exact .inl ⟨_, rfl⟩
  | env => exact .inl ⟨_, rfl⟩

/-! ## Runs -/

theorem run_of_invocation {args : List String} (h : Invocation.ofArguments args = .ok i)
    (hcommand : i.command ≠ .env) : run args w =
      match i.config w >>= fun c => i.command.lines c with
      | .ok lines => .finished 0 (written lines)
      | .error g => if g.isOfConfiguration then .finished 1 (written (failureLines g)) else .broken g := by
  rewrite [run, h]
  obtain ⟨file, table, command⟩ := i
  cases command with
  | env => exact absurd rfl hcommand
  | «show» value => rfl
  | profiles => rfl
  | check => rfl

/-- Whether a run ends with the lines of its command, and with no others. -/
def Invocation.Answers (i : Invocation) (w : World) (ending : Ending) : Prop :=
  ∃ c lines, i.config w = .ok c ∧ i.command.lines c = .ok lines ∧ ending = .finished 0 (written lines)

/-- Whether a run ends with what is wrong with the configuration, or with the profile that there is not, and with no
    other lines. -/
def Invocation.Refuses (i : Invocation) (w : World) (ending : Ending) : Prop :=
  ∃ g, g.isOfConfiguration = true ∧
    (i.config w = .error g ∨
      ∃ c name, i.config w = .ok c ∧ i.command = .show (.text name) ∧ c.profile name = .error g) ∧
    ending = .finished 1 (written (failureLines g))

/-- **A run over a configuration finishes unless it looks for an emptied name.** Take arguments that are understood and
    ask for the profiles, a check or a profile, in a world where neither the file's name given nor a variable has NUL
    in it and no file holds a number of too many digits. Whatever stands at the place of the file, the run ends with
    status 0 and the lines of its command, or with status 1 and what is wrong, and writes nothing else. The exception
    is a profile's name that the arguments emptied: if the configuration resolves, looking for it breaks the run. Every
    entry of every profile of a configuration that resolves can be written. -/
theorem run_finishes_unless_the_name_is_emptied {args : List String} {i : Invocation}
    (h : Invocation.ofArguments args = .ok i) (hcommand : i.command ≠ .env) {w : World}
    (hfile : ∀ text, i.file = some (.text text) → NulFree text) (henvironment : ∀ e ∈ w.environment, NulFree e.2)
    (hdigits : ∀ name bytes, w.files.read name = .content bytes → Toml.WithinDigits bytes) :
    ((i.command = .show .emptied → ∀ c, i.config w ≠ .ok c) →
        i.Answers w (run args w) ∨ i.Refuses w (run args w)) ∧
      (i.command = .show .emptied → ∀ c, i.config w = .ok c → run args w = .broken (.unhashable "list")) ∧
      ∀ c name p, i.config w = .ok c → c.profile name = .ok p →
        ∀ e ∈ p.entries, ∃ text, e.2.render = .ok text := by
  have hentries : ∀ c, i.config w = .ok c → ∀ name p, c.profile name = .ok p →
      ∀ e ∈ p.entries, ∃ text, e.2.render = .ok text := by
    intro c hc name p hp e he
    obtain ⟨t, hfrozen, hnone, hresolve⟩ := Invocation.exists_of_config hc
    exact Config.entries_render hfrozen hnone hresolve hp he
  rw [run_of_invocation h hcommand]
  refine ⟨?_, ?_, fun c name p hc hp => hentries c hc name p hp⟩
  · intro hnamed
    cases hc : i.config w with
    | error g =>
      have hg := Invocation.config_fails hfile henvironment hdigits hc
      exact .inr ⟨g, hg, .inl hc, if_pos hg⟩
    | ok c =>
      have hcommand' : i.command ≠ .show .emptied := fun hemptied => hnamed hemptied c hc
      rcases Command.lines_cases (hentries c hc) hcommand' with ⟨lines, hlines⟩ | ⟨name, g, hshow, hprofile, hlines⟩
      · refine .inl ⟨c, lines, hc, hlines, ?_⟩
        simp only [bind, Except.bind, hlines]
      · have hg : g.isOfConfiguration = true := by rw [Config.profile_eq_error_iff.mp hprofile |>.2]; rfl
        refine .inr ⟨g, hg, .inr ⟨c, name, hc, hshow, hprofile⟩, ?_⟩
        simp only [bind, Except.bind, hlines, hg, if_true]
  · intro hemptied c hc
    rw [hc, hemptied]
    rfl

/-! ## A file with one entry -/

/-- A world with a file of one entry, and without variables. -/
def oneEntry : World := ⟨[(⟨.above 0, ["d.toml"]⟩, .file "a = 1\n".toUTF8)], [], [], []⟩

def servingOne : Config := ⟨1, [("a", .scalar (.int 1))], [(defaultProfile, [("a", .scalar (.int 1))])]⟩

theorem parseBytes_oneEntry : Toml.parseBytes "a = 1\n".toUTF8 = .ok [(.text "a", .scalar (.int 1))] := rfl

theorem withinDigits_oneEntry (name : String) (bytes : ByteArray) (h : oneEntry.files.read name = .content bytes) :
    Toml.WithinDigits bytes := by
  obtain ⟨place, hmem⟩ := Directory.exists_file_of_read h
  obtain ⟨_, hnode⟩ := Prod.mk.inj (List.mem_singleton.mp hmem)
  cases hnode
  refine ⟨fun digits => by rw [parseBytes_oneEntry]; nofun, fun m hm => ?_⟩
  obtain rfl : [(.text "a", .scalar (.int 1))] = m := Except.ok.inj (parseBytes_oneEntry.symm.trans hm)
  have hmany := Failure.pow_maxDigits_ge
  simp only [RawMap.HasLong, Raw.HasLong, or_false]
  generalize Nat.pow 10 Failure.maxDigits = bound at hmany
  omega

theorem config_oneEntry (command : Command) :
    (Invocation.mk (some (.text "d.toml")) none command).config oneEntry = .ok servingOne := by
  have hexpand : expand [(.text "a", .scalar (.int 1))] = .ok [("a", .scalar (.int 1))] := by
    have hordered : orderedByKey [(.text "a", Raw.scalar (.int 1))] = .ok [(.text "a", .scalar (.int 1))] := rfl
    have hfreeze : freeze (.text "a") (.scalar (.int 1)) = .ok (.scalar (.int 1)) := by
      rw [freeze]
      rfl
    refine Outcome.bind_eq_ok_iff.mpr ⟨_, hordered, ?_⟩
    rw [expandFrom, hfreeze]
    rfl
  have htree : FileSource.treeOfBytes ⟨"d.toml", none, true, 0⟩ "a = 1\n".toUTF8 =
      .ok (.ok [("a", .scalar (.int 1))]) := by
    rw [FileSource.treeOfBytes, parseBytes_oneEntry]
    exact congrArg Except.ok hexpand
  have hhandOut : Settings.handOut ⟨some "d.toml", none, Double.zero false, true⟩ oneEntry =
      .ok [("a", .scalar (.int 1))] := by
    have hread : oneEntry.files.read "d.toml" = .content "a = 1\n".toUTF8 := rfl
    show FileSource.handOut ⟨"d.toml", none, true, 0⟩ (oneEntry.files.read "d.toml") = _
    rw [hread, FileSource.handOut, htree]
  have hsettings : (Invocation.mk (some (.text "d.toml")) none command).settings oneEntry.environment =
      .ok ⟨some "d.toml", none, Double.zero false, true⟩ := rfl
  rw [Invocation.config_eq]
  exact Outcome.bind_eq_ok_iff.mpr ⟨_, hsettings, Outcome.bind_eq_ok_iff.mpr ⟨_, hhandOut, rfl⟩⟩

namespace Grammar

variable {g : Grammar} {arg spelling value : String} {c : Char} {rest : List Char}

theorem sense_of_known {flag : Flag} (hdash : arg.toList = '-' :: c :: rest) (hwhole : g.flag? arg = none)
    (hcut : cutAtEquals arg = (spelling, some value)) (hflag : g.flag? spelling = some flag) :
    g.sense arg = .ok (g.attached spelling flag value) := by
  simp only [sense, hdash, hwhole, hcut, hflag]

theorem sense_of_unknown (hdash : arg.toList = '-' :: c :: rest) (hwhole : g.flag? arg = none)
    (hcut : cutAtEquals arg = (spelling, some value)) (hflag : g.flag? spelling = none)
    (hcandidates : g.candidates arg = []) (hplain : (isNegativeNumber arg.toList || arg.toList.contains ' ') = false) :
    g.sense arg = .ok (.flags [.stray]) := by
  simp only [sense, hdash, hwhole, hcut, hflag, guess, hcandidates]
  rw [← hdash, hplain]
  rfl

end Grammar

theorem sense_file : mainGrammar.sense "--file=d.toml" = .ok (.flags [.flag .file (some (.text "d.toml"))]) := by
  have hdash : "--file=d.toml".toList = '-' :: '-' :: "file=d.toml".toList := by decide
  have hcut : cutAtEquals "--file=d.toml" = ("--file", some "d.toml") := by decide
  have hflag : mainGrammar.flag? "--file" = some .file := by decide
  have hattached : mainGrammar.attached "--file" .file "d.toml" = .flags [.flag .file (some (.text "d.toml"))] := rfl
  rw [Grammar.sense_of_known hdash (by decide) hcut hflag, hattached]

theorem ofArguments_check :
    Invocation.ofArguments ["--file=d.toml", "check"] = .ok ⟨some (.text "d.toml"), none, .check⟩ := by
  have htokens : mainGrammar.tokens ["--file=d.toml", "check"] =
      .ok [⟨"--file=d.toml", .flags [.flag .file (some (.text "d.toml"))]⟩, ⟨"check", .plain⟩] := by
    have hcheck : mainGrammar.sense "check" = .ok .plain := rfl
    simp only [Grammar.tokens, sense_file, hcheck]
    rfl
  have hmain : mainGrammar.read ["--file=d.toml", "check"] =
      .ok (⟨some (.text "d.toml"), none, none, false⟩, ["check"]) := by
    rw [Grammar.read, htokens]
    rfl
  rw [Invocation.ofArguments, hmain]
  rfl

theorem ofArguments_show_emptied :
    Invocation.ofArguments ["--file=d.toml", "show", "--profile=--"] =
      .ok ⟨some (.text "d.toml"), none, .show .emptied⟩ := by
  have hdash : "--profile=--".toList = '-' :: '-' :: "profile=--".toList := by decide
  have hcut : cutAtEquals "--profile=--" = ("--profile", some "--") := by decide
  have hmain : mainGrammar.read ["--file=d.toml", "show", "--profile=--"] =
      .ok (⟨some (.text "d.toml"), none, none, false⟩, ["show", "--profile=--"]) := by
    have hshow : mainGrammar.sense "show" = .ok .plain := rfl
    have hprofile : mainGrammar.sense "--profile=--" = .ok (.flags [.stray]) := by
      refine Grammar.sense_of_unknown hdash (by decide) hcut (by decide) ?_ (by decide)
      simp only [Grammar.candidates, hdash, hcut]
      rfl
    have htokens : mainGrammar.tokens ["--file=d.toml", "show", "--profile=--"] =
        .ok [⟨"--file=d.toml", .flags [.flag .file (some (.text "d.toml"))]⟩, ⟨"show", .plain⟩,
          ⟨"--profile=--", .flags [.stray]⟩] := by
      simp only [Grammar.tokens, sense_file, hshow, hprofile]
      rfl
    rw [Grammar.read, htokens]
    rfl
  have hown : showGrammar.read ["--profile=--"] = .ok (⟨none, none, some .emptied, false⟩, []) := by
    have hprofile : showGrammar.sense "--profile=--" = .ok (.flags [.flag .profile (some .emptied)]) := by
      have hflag : showGrammar.flag? "--profile" = some .profile := by decide
      have hattached : showGrammar.attached "--profile" .profile "--" = .flags [.flag .profile (some .emptied)] := rfl
      rw [Grammar.sense_of_known hdash (by decide) hcut hflag, hattached]
    have htokens : showGrammar.tokens ["--profile=--"] =
        .ok [⟨"--profile=--", .flags [.flag .profile (some .emptied)]⟩] := by
      simp only [Grammar.tokens, hprofile]
      rfl
    rw [Grammar.read, htokens]
    rfl
  have hcommand : command? "show" =
      some (showGrammar, fun given => .show (given.profile.getD (.text defaultProfile))) := rfl
  simp only [Invocation.ofArguments, hmain, bind, Except.bind, hcommand, hown]
  rfl

/-- A check of the file with one entry finishes and says so. -/
theorem check_of_one_entry_is_ok :
    run ["--file=d.toml", "check"] oneEntry = .finished 0 "OK: generation 1, 1 profile(s)\n" := by
  have hfile : ∀ text, some (FlagValue.text "d.toml") = some (.text text) → NulFree text := by
    intro text htext
    cases htext
    decide
  obtain ⟨hfinishes, _⟩ := run_finishes_unless_the_name_is_emptied ofArguments_check nofun hfile
    (fun _ he => absurd he List.not_mem_nil) withinDigits_oneEntry
  rcases hfinishes nofun with ⟨c, lines, hc, hlines, hends⟩ | ⟨g, _, hwrong | ⟨_, _, _, hshow, _⟩, _⟩
  · cases (config_oneEntry .check).symm.trans hc
    cases hlines
    rw [hends]
    rfl
  · cases (config_oneEntry .check).symm.trans hwrong
  · cases hshow

/-- Looking for an emptied name breaks a run over a configuration that resolves, while emptying the name of the file is
    told as what is wrong. -/
theorem emptied_name_breaks_a_run :
    (Invocation.mk (some (.text "d.toml")) none (.show .emptied)).config oneEntry = .ok servingOne ∧
      run ["--file=d.toml", "show", "--profile=--"] oneEntry = .broken (.unhashable "list") ∧
      Failure.isOfConfiguration (.unhashable "list") = false ∧
      (Invocation.mk (some .emptied) none .check).config oneEntry = .error (.badSetting "config_file" .notAPath) := by
  refine ⟨config_oneEntry _, ?_, rfl, rfl⟩
  rw [run_of_invocation ofArguments_show_emptied nofun, config_oneEntry]
  rfl

end CommandLine
end LayeredConfig
