import Mathlib.Data.List.Sort
import ScriptGraph.Proofs.Trials

/-!
What a run reports. Files are found whatever order they are listed in, every fixture is judged on
its own, and the options have no influence on the verdicts: one cuts the run short, the other makes
it print more.
-/

namespace ScriptGraph

theorem insertName_pairwise {name : String} {names : List String}
    (h : names.Pairwise (· < ·)) : (insertName name names).Pairwise (· < ·) := by
  fun_induction insertName name names with
  | case1 => exact List.pairwise_singleton _ _
  | case2 other names before =>
      refine List.pairwise_cons.mpr ⟨fun later mem => ?_, h⟩
      rcases List.mem_cons.mp mem with rfl | mem
      · exact before
      · exact String.lt_trans before ((List.pairwise_cons.mp h).1 later mem)
  | case3 names _ => exact h
  | case4 other names before different ih =>
      obtain ⟨first, rest⟩ := List.pairwise_cons.mp h
      refine List.pairwise_cons.mpr ⟨fun later mem => ?_, ih rest⟩
      rcases mem_insertName.mp mem with rfl | mem
      · -- The order is total, so what is neither before nor equal is after.
        by_contra notAfter
        exact different (String.le_antisymm (String.not_lt.mp notAfter) (String.not_lt.mp before))
      · exact first later mem

namespace Directory
variable {d d' : Directory} {options : RunOptions} {settings : Settings} {name stem : String}

theorem fixtures_pairwise (d : Directory) : d.fixtures.Pairwise (· < ·) := by
  unfold fixtures
  induction (d.files.map (·.name)).filter fun name => (stem? name).isSome with
  | nil => exact .nil
  | cons name names ih => exact insertName_pairwise ih

theorem fixtures_nodup (d : Directory) : d.fixtures.Nodup :=
  d.fixtures_pairwise.imp fun before => String.ne_of_lt before

theorem content?_isSome_iff : (d.content? name).isSome ↔ ∃ file ∈ d.files, file.name = name := by
  simp [content?]

theorem content?_eq_some_iff (distinct : (d.files.map (·.name)).Nodup) {content : Content} :
    d.content? name = some content ↔ ⟨name, content⟩ ∈ d.files := by
  constructor
  · intro found
    obtain ⟨file, listed, rfl⟩ := Option.map_eq_some_iff.mp found
    have named : file.name = name := by simpa using List.find?_some listed
    subst named
    exact List.mem_reverse.mp (List.mem_of_find?_eq_some listed)
  · intro mem
    obtain ⟨other, found⟩ := Option.isSome_iff_exists.mp
      (content?_isSome_iff.mpr ⟨_, mem, rfl⟩)
    obtain ⟨file, listed, rfl⟩ := Option.map_eq_some_iff.mp found
    have named : file.name = name := by simpa using List.find?_some listed
    have same := List.inj_on_of_nodup_map distinct
      (List.mem_reverse.mp (List.mem_of_find?_eq_some listed)) mem named
    rw [found, same]

/-- A name occurs once, so it does not matter in which order files are listed. -/
theorem content?_of_perm {files : List File} (perm : files.Perm d.files)
    (distinct : (d.files.map (·.name)).Nodup) (name : String) :
    content? ⟨d.location, files⟩ name = d.content? name := by
  have distinct' : (files.map (·.name)).Nodup := (perm.map _).nodup_iff.mpr distinct
  refine Option.ext fun content => ?_
  rw [content?_eq_some_iff distinct, content?_eq_some_iff distinct']
  exact perm.mem_iff

theorem fixtures_congr (same : ∀ name, (d'.content? name).isSome = (d.content? name).isSome) :
    d'.fixtures = d.fixtures := by
  have members (name : String) : name ∈ d'.fixtures ↔ name ∈ d.fixtures := by
    rw [mem_fixtures_iff, mem_fixtures_iff, ← content?_isSome_iff, ← content?_isSome_iff, same]
  refine List.Perm.eq_of_pairwise ?_ d'.fixtures_pairwise d.fixtures_pairwise
    ((List.perm_ext_iff_of_nodup d'.fixtures_nodup d.fixtures_nodup).mpr members)
  intro a b _ _ before after
  exact absurd after (String.lt_asymm before)

/-- A trial looks at two files and at where they are. -/
theorem trial_congr (location : d'.location = d.location) (build : d'.build? name = d.build? name)
    (expected : d'.data? (stem ++ ".expected.txt") = d.data? (stem ++ ".expected.txt")) :
    d'.trial options settings name stem = d.trial options settings name stem := by
  have reach : d'.isOutOfReach (stem ++ ".expected.txt") =
      d.isOutOfReach (stem ++ ".expected.txt") := by
    rw [isOutOfReach, isOutOfReach, location]
  simp only [trial, reach, location, build, expected]

theorem runUnder_congr (location : d'.location = d.location)
    (same : ∀ name, d'.content? name = d.content? name) :
    d'.runUnder settings options d'.location = d.runUnder settings options d.location := by
  have fixtures : d'.fixtures = d.fixtures := fixtures_congr fun name => by rw [same]
  have trial (settings : Settings) (name stem : String) :
      d'.trial options settings name stem = d.trial options settings name stem :=
    trial_congr location (by rw [build?, build?, same]) (by rw [data?, data?, same])
  have trials (settings : Settings) (names : List String) :
      d'.trials options settings names = d.trials options settings names := by
    induction names generalizing settings with
    | nil => rfl
    | cons name names ih => simp only [Directory.trials, trial, ih]
  cases long : d.location.isTooLong with
  | true => rw [runUnder_of_isTooLong (location ▸ long), runUnder_of_isTooLong long]
  | false =>
      have place : d'.place d'.location = .directory := place_location (location ▸ long)
      simp only [runUnder, place_location long, place, fixtures, trials]
      rw [location]

end Directory

/-- What a trial comes to, whatever the options: a verdict, and what the journal says of a trial
and of what went on in it. -/
structure Account where
  verdict : Verdict
  preface : List String
  notes : List Entry

/-- The text of a snapshot of one. -/
def Snapshot.written : Snapshot → String
  | text s => s
  | null | bool _ | int _ | real _ | list _ | node .. => ""

/-- What a verbose run prints ahead of a verdict. -/
def Verdict.dump (v : Verdict) : String :=
  if v.message = "Output mismatch" then
    "---- expected ----\n" ++ v.expected ++ "\n---- actual ----\n" ++ v.actual.written ++ "\n"
  else ""

/-- The messages about a missing file and about a failed build have a colon in them. -/
theorem Verdict.dump_of_colon {v : Verdict} (h : ':' ∈ v.message.toList) : v.dump = "" := by
  refine if_neg fun e => ?_
  rw [e] at h
  exact absurd h (by decide)

namespace Account

/-- The trial that the account is of, under settings that stay. -/
def trial (settings : Settings) (options : RunOptions) (account : Account) : Trial :=
  ⟨Directory.details options account.preface ++ account.notes,
    if options.verbose then account.verdict.dump else "", .ok account.verdict, settings⟩

/-- Nothing in it is for verbose runs only. -/
def IsQuiet (account : Account) : Prop :=
  ∀ entry ∈ account.notes, entry.level ≠ .debug

end Account

namespace Directory
variable {d : Directory} {options : RunOptions} {settings : Settings} {name stem : String}

/-- There are fixtures, and their expected files can be read if they are there. A build gives what
renders to a text, or raises what can be written out, and leaves the settings as they are. -/
structure IsRegular (d : Directory) (settings : Settings) : Prop where
  hasFixture : d.fixtures ≠ []
  reachable {name stem : String} : name ∈ d.fixtures → stem? name = some stem →
    d.isOutOfReach (stem ++ ".expected.txt") = false
  decodable {name stem : String} {data : ByteArray} : name ∈ d.fixtures →
    stem? name = some stem → d.data? (stem ++ ".expected.txt") = some data →
    (expected? data).isSome
  readable {name : String} {build : Build} {raised : Raised} : name ∈ d.fixtures →
    d.build? name = some build → (build settings).1.outcome = .error raised →
    ∃ text, raised.text = .ok text
  textual {name : String} {build : Build} {rendered : Rendered} : name ∈ d.fixtures →
    d.build? name = some build → (build settings).1.outcome = .ok rendered →
    ∃ text, rendered = .ofText text
  settled {name : String} {build : Build} : name ∈ d.fixtures → d.build? name = some build →
    (build settings).2 = settings

/-- The account is that of a fixture. -/
structure Recounts (d : Directory) (settings : Settings) (name stem : String)
    (account : Account) : Prop where
  named : account.verdict.name = stem
  quiet : account.IsQuiet
  trial (options : RunOptions) :
    d.trial options settings name stem = account.trial settings options

theorem filter_isQuiet (entries : List Entry) :
    ∀ entry ∈ entries.filter (·.level ≠ .debug), entry.level ≠ .debug := by
  intro entry mem
  simpa using (List.mem_filter.mp mem).2

namespace IsRegular
variable (h : d.IsRegular settings) (mem : name ∈ d.fixtures)
include h mem

/-- A fixture that does not say how to build leaves the settings alone as well. -/
theorem buildFixture_settings (stem : String) :
    (buildFixture stem settings (d.build? name)).2 = settings := by
  cases found : d.build? name with
  | none => rfl
  | some build => exact h.settled mem found

theorem exists_text_of_raised {raised : Raised}
    (failed : (buildFixture stem settings (d.build? name)).1.outcome = .error raised) :
    ∃ text, raised.text = .ok text := by
  cases found : d.build? name with
  | none =>
      rw [found] at failed
      cases failed
      exact ⟨_, rfl⟩
  | some build =>
      rw [found] at failed
      exact h.readable mem found failed

theorem exists_text_of_rendered {rendered : Rendered}
    (built : (buildFixture stem settings (d.build? name)).1.outcome = .ok rendered) :
    ∃ text, rendered = .ofText text := by
  cases found : d.build? name with
  | none =>
      rw [found] at built
      cases built
  | some build =>
      rw [found] at built
      exact h.textual mem found built

end IsRegular

/-- A rendering that is a text can be written out, so a verbose run comes to the same. -/
theorem exists_account_of_text {data : ByteArray} {expected text : String}
    (near : d.isOutOfReach (stem ++ ".expected.txt") = false)
    (found : d.data? (stem ++ ".expected.txt") = some data)
    (decoded : expected? data = some expected)
    (built : (buildFixture stem settings (d.build? name)).1.outcome = .ok (.ofText text))
    (settled : (buildFixture stem settings (d.build? name)).2 = settings) :
    ∃ account, d.Recounts settings name stem account := by
  by_cases same : text = expected
  · subst same
    refine ⟨⟨⟨stem, true, text, .text text, ""⟩, d.preface name stem, _⟩, rfl,
      filter_isQuiet (buildFixture stem settings (d.build? name)).1.journal, fun options => ?_⟩
    have other : "" ≠ "Output mismatch" := by decide
    have silent : Verdict.dump ⟨stem, true, text, .text text, ""⟩ = "" := if_neg other
    rw [trial_rendered near found decoded built, settled, compare_text_self, Account.trial, silent,
      ite_self]
  · refine ⟨⟨mismatch stem expected (.ofText text), d.preface name stem, _⟩, rfl,
      filter_isQuiet (buildFixture stem settings (d.build? name)).1.journal, fun options => ?_⟩
    rw [trial_rendered near found decoded built, settled, compare_text_of_ne same, Account.trial]
    rfl

/-- What a trial comes to does not depend on the options. -/
theorem exists_account (h : d.IsRegular settings) (mem : name ∈ d.fixtures)
    (fixture : stem? name = some stem) :
    ∃ account, d.Recounts settings name stem account := by
  have near := h.reachable mem fixture
  cases found : d.data? (stem ++ ".expected.txt") with
  | none =>
      refine ⟨⟨⟨stem, false, "", .text "",
        "Missing expected file: " ++ (d.location.child (stem ++ ".expected.txt")).text⟩,
        d.preface name stem, []⟩, rfl, nofun, fun options => ?_⟩
      rw [trial_missing near found, Account.trial, Verdict.dump_of_colon (by simp), ite_self,
        List.append_nil]
  | some data =>
      obtain ⟨expected, decoded⟩ := Option.isSome_iff_exists.mp (h.decodable mem fixture found)
      have settled := h.buildFixture_settings mem stem
      cases built : (buildFixture stem settings (d.build? name)).1.outcome with
      | error raised =>
          obtain ⟨text, read⟩ := h.exists_text_of_raised mem built
          refine ⟨⟨⟨stem, false, expected, .text "", raised.label ++ ": " ++ text⟩,
            d.preface name stem,
            (buildFixture stem settings (d.build? name)).1.journal.filter (·.level ≠ .debug) ++
              [⟨.error, "Building " ++ stem ++ " failed: " ++ text⟩]⟩, rfl,
            fun entry mem => ?_, fun options => ?_⟩
          · rcases List.mem_append.mp mem with mem | mem
            · exact filter_isQuiet _ entry mem
            · cases List.mem_singleton.mp mem
              simp
          · rw [trial_failed near found decoded built, settled, reject_readable read,
              Account.trial, Verdict.dump_of_colon (by simp), ite_self, List.append_assoc]
      | ok rendered =>
          obtain ⟨text, rfl⟩ := h.exists_text_of_rendered mem built
          exact exists_account_of_text near found decoded built settled

theorem exists_accounts (h : d.IsRegular settings) {names : List String}
    (fixtures : ∀ name ∈ names, name ∈ d.fixtures) :
    ∃ accounts : List Account, (∀ account ∈ accounts, account.IsQuiet) ∧
      ∀ options, List.Forall₂ (fun name => d.Yields options ⟨name, settings⟩) names
          (accounts.map (·.verdict)) ∧
        d.allTrials options (d.turns options settings names) =
          accounts.map (Account.trial settings options) := by
  induction names with
  | nil => exact ⟨[], nofun, fun options => ⟨.nil, rfl⟩⟩
  | cons name names ih =>
      obtain ⟨accounts, quiet, each⟩ := ih fun n hn => fixtures n (List.mem_cons_of_mem _ hn)
      have mem := fixtures name List.mem_cons_self
      obtain ⟨stem, fixture⟩ := Option.isSome_iff_exists.mp (mem_fixtures_iff.mp mem).2
      obtain ⟨account, rfl, still, same⟩ := exists_account h mem fixture
      refine ⟨account :: accounts, List.forall_mem_cons.mpr ⟨still, quiet⟩, fun options => ?_⟩
      refine ⟨.cons ⟨fixture, by rw [same]; rfl⟩ (each options).1, ?_⟩
      -- The fixtures that follow find the settings that this one found.
      have left : (d.trial options settings name account.verdict.name).settings = settings := by
        rw [same]
        rfl
      simp only [turns, fixture, left]
      rw [allTrials_cons ⟨name, settings⟩ fixture, same, (each options).2, List.map_cons]

end Directory

/-- What there is of a run that is to stop at the first failure, or of one that goes on. -/
def RunOptions.cut {α : Type} (options : RunOptions) (failed : α → Bool) (xs : List α) : List α :=
  if options.failFast then xs.take (xs.findIdx failed + 1) else xs

theorem RunOptions.map_cut {α β : Type} (options : RunOptions) (failed : β → Bool) (f : α → β)
    (xs : List α) : (options.cut (failed ∘ f) xs).map f = options.cut failed (xs.map f) := by
  unfold cut
  split
  · rw [List.map_take, List.findIdx_map]
  · rfl

theorem RunOptions.mem_of_mem_cut {α : Type} {options : RunOptions} {failed : α → Bool}
    {xs : List α} {x : α} (h : x ∈ options.cut failed xs) : x ∈ xs := by
  unfold cut at h
  split at h
  · exact List.mem_of_mem_take h
  · exact h

/-- There is a failure among the verdicts if there is one among those that a run comes to. -/
theorem RunOptions.all_cut (options : RunOptions) (verdicts : List Verdict) :
    (options.cut (!·.passed) verdicts).all (·.passed) = verdicts.all (·.passed) := by
  unfold cut
  split
  · induction verdicts with
    | nil => rfl
    | cons verdict verdicts ih =>
        rw [List.findIdx_cons]
        cases passed : verdict.passed with
        | true => simpa [passed] using ih
        | false => simp [passed]
  · rfl

theorem Directory.filter_details (options : RunOptions) (texts : List String) :
    (details options texts).filter (·.level ≠ .debug) = [] := by
  refine List.filter_eq_nil_iff.mpr fun entry mem => ?_
  unfold details at mem
  split at mem
  · obtain ⟨text, -, rfl⟩ := List.mem_map.mp mem
    simp
  · cases mem

namespace Account
variable {account : Account} {settings : Settings}

theorem stops_trial (options : RunOptions) (account : Account) :
    (account.trial settings options).stops options =
      (!account.verdict.passed && options.failFast) := rfl

theorem ends_trial (options : RunOptions) (account : Account) :
    (account.trial settings options).ends options = (!account.verdict.passed && options.failFast) :=
  Bool.or_false _

theorem printed_trial (options : RunOptions) (account : Account) :
    (account.trial settings options).printed =
      (if options.verbose then account.verdict.dump else "") ++ account.verdict.line ++ "\n" := rfl

theorem logged_trial (options : RunOptions) (account : Account) :
    (account.trial settings options).logged options =
      Directory.details options account.preface ++ account.notes ++
        if !account.verdict.passed && options.failFast then
          [⟨.info, "Fail-fast enabled, stopping after first failure"⟩]
        else [] := by
  unfold Trial.logged
  split
  case isTrue stops =>
    rw [stops_trial] at stops
    rw [if_pos stops]
    rfl
  case isFalse goesOn =>
    rw [stops_trial] at goesOn
    rw [if_neg goesOn, List.append_nil]
    rfl

/-- The journal of a verbose run says more, and otherwise the same. -/
theorem filter_logged (quiet : account.IsQuiet) (failFast : Bool) :
    ((account.trial settings ⟨true, failFast⟩).logged ⟨true, failFast⟩).filter (·.level ≠ .debug) =
      (account.trial settings ⟨false, failFast⟩).logged ⟨false, failFast⟩ := by
  have notes : account.notes.filter (·.level ≠ .debug) = account.notes :=
    List.filter_eq_self.mpr fun entry mem => by simpa using quiet entry mem
  rw [logged_trial, logged_trial, List.filter_append, List.filter_append, Directory.filter_details,
    notes]
  refine congrArg (account.notes ++ ·) ?_
  split <;> rfl

theorem take_trials (options : RunOptions) (accounts : List Account) :
    (accounts.map (trial settings options)).take
        ((accounts.map (trial settings options)).findIdx (Trial.ends options) + 1) =
      (options.cut (!·.verdict.passed) accounts).map (trial settings options) := by
  have ends : (Trial.ends options) ∘ trial settings options =
      fun account => !account.verdict.passed && options.failFast :=
    funext (ends_trial options)
  rw [List.findIdx_map, ends, ← List.map_take, RunOptions.cut]
  cases options.failFast with
  | true => simp
  | false =>
      congr 1
      exact take_findIdx_of_none fun account _ => Bool.and_false _

end Account

namespace Directory
variable {d : Directory} {settings : Settings} {options : RunOptions}

/-- All that a run reports, in terms of the verdicts on the fixtures one by one. -/
structure RunLaws (d : Directory) (settings : Settings) (verdicts : List Verdict) : Prop where
  found : ∀ name, name ∈ d.fixtures ↔ (∃ file ∈ d.files, file.name = name) ∧ (stem? name).isSome
  ascending : d.fixtures.Pairwise (· < ·)
  each : ∀ options,
    List.Forall₂ (fun name => d.Yields options ⟨name, settings⟩) d.fixtures verdicts
  /-- A verdict depends on where the fixtures are, and on its own two files. -/
  apart : ∀ (d' : Directory) (options : RunOptions) (name stem : String),
    d'.location = d.location → d'.build? name = d.build? name →
    d'.data? (stem ++ ".expected.txt") = d.data? (stem ++ ".expected.txt") →
    d'.trial options settings name stem = d.trial options settings name stem
  listing : ∀ files : List File, files.Perm d.files → (d.files.map (·.name)).Nodup →
    ∀ options, runUnder ⟨d.location, files⟩ settings options d.location =
      d.runUnder settings options d.location
  results : ∀ options, (d.runUnder settings options d.location).suite.verdicts =
    if options.failFast then verdicts.take (verdicts.findIdx (!·.passed) + 1) else verdicts
  exit : ∀ options, (d.runUnder settings options d.location).exit =
    .ok (if verdicts.all (·.passed) then 0 else 1)
  output : ∀ options, (d.runUnder settings options d.location).output =
    String.join ((d.runUnder settings options d.location).suite.verdicts.map fun verdict =>
      (if options.verbose then verdict.dump else "") ++ verdict.line ++ "\n") ++
    (d.runUnder settings options d.location).suite.summary
  log : ∀ failFast,
    (d.runUnder settings ⟨true, failFast⟩ d.location).log.filter (·.level ≠ .debug) =
      (d.runUnder settings ⟨false, failFast⟩ d.location).log

/-- The report of a run whose trials all come to a verdict. -/
theorem runUnder_of_accounts (short : d.location.isTooLong = false) (h : d.fixtures ≠ [])
    {accounts : List Account}
    (all : d.allTrials options (d.turns options settings d.fixtures) =
      accounts.map (Account.trial settings options)) :
    let tried := options.cut (!·.verdict.passed) accounts
    d.runUnder settings options d.location =
      ⟨.ok (if (accounts.map (·.verdict)).all (·.passed) then 0 else 1),
        String.join (tried.map fun account => (account.trial settings options).printed) ++
          Suite.summary ⟨tried.map (·.verdict)⟩,
        details options ["Discovered " ++ d.fixtures.length.repr ++ " fixture files"] ++
          tried.flatMap fun account => (account.trial settings options).logged options,
        ⟨tried.map (·.verdict)⟩⟩ := by
  intro tried
  have verdicts : (tried.map (Account.trial settings options)).map (·.verdict) =
      (tried.map (·.verdict)).map .ok := by
    rw [List.map_map, List.map_map]
    rfl
  have passed : (tried.map (·.verdict)).all (·.passed) =
      (accounts.map (·.verdict)).all (·.passed) := by
    rw [← options.all_cut (accounts.map (·.verdict)), ← RunOptions.map_cut]
    rfl
  rw [runUnder_eq_conclude short h, trials_eq_take, all, Account.take_trials,
    conclude_of_verdicts verdicts, passed, List.map_map, List.flatMap_map]
  rfl

theorem IsRegular.location_short (h : d.IsRegular settings) : d.location.isTooLong = false := by
  obtain ⟨name, mem⟩ := List.exists_mem_of_ne_nil _ h.hasFixture
  obtain ⟨stem, fixture⟩ := Option.isSome_iff_exists.mp (mem_fixtures_iff.mp mem).2
  refine Bool.eq_false_iff.mpr fun long => ?_
  have far : d.isOutOfReach (stem ++ ".expected.txt") := by
    rw [isOutOfReach, Path.isTooLong_child long, Bool.or_true]
  exact absurd (h.reachable mem fixture) (by simp [far])

theorem runLaws_of_isRegular (h : d.IsRegular settings) :
    ∃ verdicts, d.RunLaws settings verdicts := by
  obtain ⟨accounts, quiet, each⟩ := exists_accounts h fun _ mem => mem
  have report (options : RunOptions) :=
    runUnder_of_accounts h.location_short h.hasFixture (each options).2
  have verdicts (options : RunOptions) :
      (options.cut (!·.verdict.passed) accounts).map (·.verdict) =
        options.cut (!·.passed) (accounts.map (·.verdict)) :=
    options.map_cut (fun verdict : Verdict => !verdict.passed) _ _
  refine ⟨accounts.map (·.verdict), fun _ => mem_fixtures_iff, d.fixtures_pairwise,
    fun options => (each options).1, fun d' options name stem => trial_congr, ?listing, ?results,
    ?exit, ?output, ?log⟩
  case listing =>
    intro files perm distinct options
    exact runUnder_congr rfl (content?_of_perm perm distinct)
  case results =>
    intro options
    rw [report options]
    exact verdicts options
  case exit =>
    intro options
    rw [report options]
  case output =>
    intro options
    rw [report options]
    simp only [Account.printed_trial, List.map_map]
    rfl
  case log =>
    intro failFast
    rw [report ⟨true, failFast⟩, report ⟨false, failFast⟩]
    simp only [List.filter_append, filter_details, List.filter_flatMap]
    refine congrArg _ (List.flatMap_congr fun account mem => ?_)
    exact Account.filter_logged (quiet account (RunOptions.mem_of_mem_cut mem)) failFast

/-- A fixture that passes and one that nothing is expected of. -/
def mixed : Directory :=
  ⟨.ofString "/fixtures", [⟨"t2.py", emptyStatement⟩, ⟨"t1.py", emptyStatement⟩,
    ⟨"t1.expected.txt", .bytes ";\n".toUTF8⟩]⟩

theorem mixed_runLaws :
    mixed.fixtures = ["t1.py", "t2.py"] ∧ ∃ verdicts, mixed.RunLaws .default verdicts := by
  have either {name : String} (mem : name ∈ mixed.fixtures) : name = "t1.py" ∨ name = "t2.py" :=
    List.mem_pair.mp mem
  refine ⟨rfl, runLaws_of_isRegular
    ⟨by decide, ?reachable, ?decodable, ?readable, ?textual, ?settled⟩⟩
  case reachable =>
    intro name stem mem fixture
    rcases either mem with rfl | rfl <;> cases fixture <;> decide
  case decodable =>
    intro name stem data mem fixture found
    rcases either mem with rfl | rfl <;> cases fixture <;> cases found
    rfl
  case readable =>
    intro name build raised mem found failed
    rcases either mem with rfl | rfl <;> cases found <;> cases failed
  case textual =>
    intro name build rendered mem found built
    rcases either mem with rfl | rfl <;> cases found <;> cases built <;> exact ⟨_, rfl⟩
  case settled =>
    intro name build mem found
    rcases either mem with rfl | rfl <;> cases found <;> exact Build.ofAction_settings _ _

theorem stem?_ofList {cs : List Char} (h : cs.head? = some 't') :
    stem? (String.ofList (cs ++ ".py".toList)) = some (String.ofList cs) := by
  obtain ⟨rest, rfl⟩ := List.head?_eq_some_iff.mp h
  simp [stem?]

/-- A fixture with a name of some length. -/
def lengthy (n : Nat) : Directory :=
  ⟨.ofString "/fixtures",
    [⟨String.ofList ('t' :: List.replicate n 'n' ++ ".py".toList), emptyStatement⟩]⟩

theorem size_lengthy (n : Nat) (ending : String) :
    (String.ofList ('t' :: List.replicate n 'n' ++ ending.toList)).utf8ByteSize =
      n + 1 + ending.utf8ByteSize := by
  have size : (String.ofList (List.replicate n 'n')).utf8ByteSize = n := by
    induction n with
    | zero => rfl
    | succ n ih =>
        rw [List.replicate_succ', String.ofList_append, String.utf8ByteSize_append, ih]
        rfl
  rw [String.ofList_append, String.utf8ByteSize_append, String.ofList_toList, String.ofList_cons,
    String.utf8ByteSize_append, size, String.utf8ByteSize_singleton, Nat.add_comm n 1]
  rfl

/-- Its own name is not too long, but that of its expected file would be. -/
theorem lengthy_run_broken {n : Nat} (long : 242 ≤ n) (short : n ≤ 251) :
    (∀ file ∈ (lengthy n).files, Path.isOverlong file.name.toList = false) ∧
    (lengthy n).fixtures.length = 1 ∧
    (∃ fault, ((lengthy n).run ⟨false, false⟩ (lengthy n).location).exit = .error fault) ∧
    ((lengthy n).run ⟨false, false⟩ (lengthy n).location).suite.verdicts = [] := by
  have fixture : stem? (String.ofList ('t' :: List.replicate n 'n' ++ ".py".toList)) =
      some (String.ofList ('t' :: List.replicate n 'n')) := stem?_ofList rfl
  have fixtures : (lengthy n).fixtures =
      [String.ofList ('t' :: List.replicate n 'n' ++ ".py".toList)] := by
    simp only [Directory.fixtures, lengthy, List.map_cons, List.map_nil, List.filter_cons, fixture,
      Option.isSome_some, if_true, List.filter_nil, List.foldr_cons, List.foldr_nil, insertName]
  have overlong : Path.isOverlong
      (String.ofList ('t' :: List.replicate n 'n') ++ ".expected.txt").toList := by
    rw [String.toList_append, String.toList_ofList, Path.isOverlong, size_lengthy,
      decide_eq_true_iff]
    have ending : ".expected.txt".utf8ByteSize = 13 := rfl
    omega
  have patient : RunOptions.failFast ⟨false, false⟩ = false := rfl
  have split : (lengthy n).turns ⟨false, false⟩ .default (lengthy n).fixtures =
      [] ++ ⟨String.ofList ('t' :: List.replicate n 'n' ++ ".py".toList), .default⟩ :: [] := by
    simp only [fixtures, turns, fixture, List.nil_append]
  have far : (lengthy n).isOutOfReach
      (String.ofList ('t' :: List.replicate n 'n') ++ ".expected.txt") := by
    rw [isOutOfReach, overlong, Bool.true_or]
  obtain ⟨broken, none⟩ := run_of_obstructs patient split
    (fun _ mem => absurd mem List.not_mem_nil) (.outOfReach fixture far)
  refine ⟨fun file mem => ?_, by rw [fixtures]; rfl, broken, List.forall₂_nil_left_iff.mp none⟩
  obtain rfl := List.mem_singleton.mp mem
  rw [String.toList_ofList, Path.isOverlong, size_lengthy, decide_eq_false_iff_not]
  have ending : ".py".utf8ByteSize = 3 := rfl
  omega

theorem not_run_lengthy :
    (∀ file ∈ (lengthy 242).files, Path.isOverlong file.name.toList = false) ∧
    (lengthy 242).fixtures.length = 1 ∧
    (∃ fault, ((lengthy 242).run ⟨false, false⟩ (lengthy 242).location).exit = .error fault) ∧
    ((lengthy 242).run ⟨false, false⟩ (lengthy 242).location).suite.verdicts = [] :=
  lengthy_run_broken (Nat.le_refl _) (by decide)

end Directory
end ScriptGraph
