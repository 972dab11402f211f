import Mathlib.Data.List.Basic
import ScriptGraph.Fixture.Run

/-!
Trials, one by one and in a run. A trial ends with a verdict unless something keeps it from one: a
place out of reach, an encoding, or a failure while something is compared or written out. A run goes
through the trials of all fixtures up to the first that ends it.
-/

namespace ScriptGraph
namespace Directory
variable {d : Directory} {options : RunOptions} {settings : Settings} {name stem expected : String}
variable {data : ByteArray} {raised : Raised} {rendered : Rendered} {fault : Fault}

/-- What the journal of a verbose run says ahead of a trial. -/
def preface (d : Directory) (name stem : String) : List String :=
  ["Fixture file: " ++ (d.location.child name).text,
    "Expected file: " ++ (d.location.child (stem ++ ".expected.txt")).text]

theorem trial_outOfReach (far : d.isOutOfReach (stem ++ ".expected.txt")) :
    d.trial options settings name stem =
      ⟨details options (d.preface name stem), "", .error .pathTooLong, settings⟩ := by
  simp only [trial, far, if_true]
  rfl

section
variable (near : d.isOutOfReach (stem ++ ".expected.txt") = false)
include near

theorem trial_missing (absent : d.data? (stem ++ ".expected.txt") = none) :
    d.trial options settings name stem = ⟨details options (d.preface name stem), "",
      .ok ⟨stem, false, "", .text "",
        "Missing expected file: " ++ (d.location.child (stem ++ ".expected.txt")).text⟩,
      settings⟩ := by
  simp only [trial, near, absent, Bool.false_eq_true, if_false]
  rfl

variable (found : d.data? (stem ++ ".expected.txt") = some data)
include found

theorem trial_undecodable (undecoded : expected? data = none) :
    d.trial options settings name stem =
      ⟨details options (d.preface name stem), "", .error .undecodable, settings⟩ := by
  simp only [trial, near, found, undecoded, Bool.false_eq_true, if_false]
  rfl

variable (decoded : expected? data = some expected)
include decoded

theorem trial_failed
    (failed : (buildFixture stem settings (d.build? name)).1.outcome = .error raised) :
    d.trial options settings name stem =
      ⟨details options (d.preface name stem) ++
          (buildFixture stem settings (d.build? name)).1.journal.filter (·.level ≠ .debug) ++
          (reject stem expected raised).1, "", (reject stem expected raised).2,
        (buildFixture stem settings (d.build? name)).2⟩ := by
  simp only [trial, near, found, decoded, failed, Bool.false_eq_true, if_false]
  rfl

theorem trial_rendered
    (built : (buildFixture stem settings (d.build? name)).1.outcome = .ok rendered) :
    d.trial options settings name stem =
      ⟨details options (d.preface name stem) ++
          (buildFixture stem settings (d.build? name)).1.journal.filter (·.level ≠ .debug),
        (compare options stem expected rendered).1, (compare options stem expected rendered).2,
        (buildFixture stem settings (d.build? name)).2⟩ := by
  simp only [trial, near, found, decoded, built, Bool.false_eq_true, if_false]
  rfl

end

/-- A fixture of a run, with the settings that it finds. -/
structure Turn where
  name : String
  settings : Settings

/-- The expected text of a fixture can be read, and building the fixture comes to an outcome. -/
structure Tried (d : Directory) (turn : Turn) (stem expected : String)
    (outcome : Except Raised Rendered) : Prop where
  fixture : stem? turn.name = some stem
  reads : ∃ data, d.data? (stem ++ ".expected.txt") = some data ∧ expected? data = some expected
  built : (buildFixture stem turn.settings (d.build? turn.name)).1.outcome = outcome

/-- What keeps a fixture from a verdict. -/
inductive Obstructs (d : Directory) (options : RunOptions) (turn : Turn) : Prop
  /-- The expected file cannot be looked up: its name or its path is too long. -/
  | outOfReach {stem : String} (fixture : stem? turn.name = some stem)
      (far : d.isOutOfReach (stem ++ ".expected.txt"))
  | undecodable {stem : String} {data : ByteArray} (fixture : stem? turn.name = some stem)
      (found : d.data? (stem ++ ".expected.txt") = some data) (undecoded : expected? data = none)
  /-- The build fails, and the text of what it raised cannot be had. -/
  | unreadable {stem expected : String} {raised : Raised} {fault : Fault}
      (tried : d.Tried turn stem expected (.error raised)) (unread : raised.text = .error fault)
  | incomparable {stem expected : String} {rendered : Rendered} {fault : Fault}
      (tried : d.Tried turn stem expected (.ok rendered))
      (uncompared : rendered.equals expected = .error fault)
  /-- In a verbose run a rendering that does not match is written out. -/
  | unwritable {stem expected : String} {rendered : Rendered} {fault : Fault}
      (tried : d.Tried turn stem expected (.ok rendered))
      (differs : rendered.equals expected = .ok false) (verbose : options.verbose)
      (unwritten : rendered.written = .error fault)

theorem reject_readable {text : String} (read : raised.text = .ok text) :
    reject stem expected raised =
      ([⟨.error, "Building " ++ stem ++ " failed: " ++ text⟩],
        .ok ⟨stem, false, expected, .text "", raised.label ++ ": " ++ text⟩) := by
  simp only [reject, read]

theorem reject_unreadable (unread : raised.text = .error fault) :
    reject stem expected raised = ([], .error fault) := by
  simp only [reject, unread]

theorem compare_incomparable (uncompared : rendered.equals expected = .error fault) :
    compare options stem expected rendered = ("", .error fault) := by
  simp only [compare, uncompared]

theorem compare_matching (matching : rendered.equals expected = .ok true) :
    compare options stem expected rendered =
      ("", .ok ⟨stem, true, expected, rendered.snapshot, ""⟩) := by
  simp only [compare, matching]

/-- The verdict on a rendering that is not what was expected. -/
def mismatch (stem expected : String) (rendered : Rendered) : Verdict :=
  ⟨stem, false, expected, rendered.snapshot, "Output mismatch"⟩

section
variable (differs : rendered.equals expected = .ok false)
include differs

theorem compare_quiet (quiet : options.verbose = false) :
    compare options stem expected rendered = ("", .ok (mismatch stem expected rendered)) := by
  simp only [compare, differs, quiet, Bool.false_eq_true, if_false]
  rfl

variable (verbose : options.verbose)
include verbose

theorem compare_written {text : String} (written : rendered.written = .ok text) :
    compare options stem expected rendered =
      ("---- expected ----\n" ++ expected ++ "\n---- actual ----\n" ++ text ++ "\n",
        .ok (mismatch stem expected rendered)) := by
  simp only [compare, differs, verbose, written, if_true]
  rfl

theorem compare_unwritten (unwritten : rendered.written = .error fault) :
    compare options stem expected rendered =
      ("---- expected ----\n" ++ expected ++ "\n---- actual ----\n", .error fault) := by
  simp only [compare, differs, verbose, unwritten, if_true]

end

theorem compare_text_self (options : RunOptions) (stem expected : String) :
    compare options stem expected (.ofText expected) =
      ("", .ok ⟨stem, true, expected, .text expected, ""⟩) :=
  compare_matching (congrArg Except.ok (decide_eq_true rfl))

/-- A text can be compared and written out, so a mismatch is the same verdict in every run. -/
theorem compare_text_of_ne {actual : String} (differs : actual ≠ expected) :
    compare options stem expected (.ofText actual) =
      (if options.verbose then
        "---- expected ----\n" ++ expected ++ "\n---- actual ----\n" ++ actual ++ "\n"
      else "", .ok (mismatch stem expected (.ofText actual))) := by
  have other : (Rendered.ofText actual).equals expected = .ok false :=
    congrArg Except.ok (decide_eq_false differs)
  cases verbose : options.verbose with
  | true => exact compare_written other verbose rfl
  | false => exact compare_quiet other verbose

/-- A rendering gets a verdict under the name of its fixture, unless it cannot be compared or
cannot be written out where that is needed. -/
theorem compare_verdict (options : RunOptions) (stem expected : String) (rendered : Rendered) :
    (∃ verdict, (compare options stem expected rendered).2 = .ok verdict ∧ verdict.name = stem) ∨
    (∃ fault, rendered.equals expected = .error fault) ∨
    ∃ fault, rendered.equals expected = .ok false ∧ options.verbose ∧
      rendered.written = .error fault := by
  cases compared : rendered.equals expected with
  | error fault => exact .inr (.inl ⟨fault, rfl⟩)
  | ok same =>
      cases same with
      | true => exact .inl ⟨_, by rw [compare_matching compared], rfl⟩
      | false =>
          cases verbose : options.verbose with
          | false => exact .inl ⟨_, by rw [compare_quiet compared verbose], rfl⟩
          | true =>
              cases written : rendered.written with
              | ok text => exact .inl ⟨_, by rw [compare_written compared verbose written], rfl⟩
              | error fault => exact .inr (.inr ⟨fault, rfl, rfl, rfl⟩)

/-- A fixture gives a verdict under its own name unless something obstructs it. -/
theorem trial_verdict_of_not_obstructs (fixture : stem? name = some stem)
    (free : ¬ d.Obstructs options ⟨name, settings⟩) :
    ∃ verdict, (d.trial options settings name stem).verdict = .ok verdict ∧
      verdict.name = stem := by
  have near : d.isOutOfReach (stem ++ ".expected.txt") = false :=
    Bool.eq_false_iff.mpr fun far => free (.outOfReach fixture far)
  cases found : d.data? (stem ++ ".expected.txt") with
  | none => exact ⟨_, by rw [trial_missing near found], rfl⟩
  | some data =>
      cases decoded : expected? data with
      | none => exact absurd (.undecodable fixture found decoded) free
      | some expected =>
          cases built : (buildFixture stem settings (d.build? name)).1.outcome with
          | error raised =>
              have tried : d.Tried ⟨name, settings⟩ stem expected (.error raised) :=
                ⟨fixture, ⟨data, found, decoded⟩, built⟩
              rw [trial_failed near found decoded built]
              cases read : raised.text with
              | ok text => exact ⟨_, by rw [reject_readable read], rfl⟩
              | error fault => exact absurd (.unreadable tried read) free
          | ok rendered =>
              have tried : d.Tried ⟨name, settings⟩ stem expected (.ok rendered) :=
                ⟨fixture, ⟨data, found, decoded⟩, built⟩
              rw [trial_rendered near found decoded built]
              rcases compare_verdict options stem expected rendered with
                given | ⟨fault, uncompared⟩ | ⟨fault, differs, verbose, unwritten⟩
              · exact given
              · exact absurd (.incomparable tried uncompared) free
              · exact absurd (.unwritable tried differs verbose unwritten) free

theorem trial_fault_of_obstructs (fixture : stem? name = some stem)
    (h : d.Obstructs options ⟨name, settings⟩) :
    ∃ fault, (d.trial options settings name stem).verdict = .error fault := by
  by_cases far : d.isOutOfReach (stem ++ ".expected.txt")
  · exact ⟨_, by rw [trial_outOfReach far]⟩
  · have near := (Bool.not_eq_true _).mp far
    cases h with
    | outOfReach fixture' far' =>
        cases fixture.symm.trans fixture'
        exact absurd far' far
    | undecodable fixture' found undecoded =>
        cases fixture.symm.trans fixture'
        exact ⟨_, by rw [trial_undecodable near found undecoded]⟩
    | unreadable tried unread =>
        obtain ⟨fixture', ⟨data, found, decoded⟩, built⟩ := tried
        cases fixture.symm.trans fixture'
        exact ⟨_, by rw [trial_failed near found decoded built, reject_unreadable unread]⟩
    | incomparable tried uncompared =>
        obtain ⟨fixture', ⟨data, found, decoded⟩, built⟩ := tried
        cases fixture.symm.trans fixture'
        exact ⟨_, by rw [trial_rendered near found decoded built,
          compare_incomparable uncompared]⟩
    | unwritable tried differs verbose unwritten =>
        obtain ⟨fixture', ⟨data, found, decoded⟩, built⟩ := tried
        cases fixture.symm.trans fixture'
        exact ⟨_, by rw [trial_rendered near found decoded built,
          compare_unwritten differs verbose unwritten]⟩

/-- The verdict that a fixture gets. -/
def Yields (d : Directory) (options : RunOptions) (turn : Turn) (verdict : Verdict) : Prop :=
  stem? turn.name = some verdict.name ∧
    (d.trial options turn.settings turn.name verdict.name).verdict = .ok verdict

end Directory

section
variable {α : Type} {p : α → Bool} {xs ys : List α} {x : α}

theorem take_findIdx_of_none (h : ∀ x ∈ xs, p x = false) : xs.take (xs.findIdx p + 1) = xs := by
  rw [List.findIdx_eq_length.mpr h]
  exact List.take_of_length_le (Nat.le_succ _)

theorem take_findIdx_of_first (h : ∀ x ∈ xs, p x = false) (first : p x) :
    (xs ++ x :: ys).take ((xs ++ x :: ys).findIdx p + 1) = xs ++ [x] := by
  have position : (xs ++ x :: ys).findIdx p = xs.length := by
    rw [List.findIdx_append, List.findIdx_eq_length.mpr h, List.findIdx_cons, first]
    simp
  rw [position, List.take_length_add_append]
  rfl

end

theorem mem_insertName {name other : String} {names : List String} :
    other ∈ insertName name names ↔ other = name ∨ other ∈ names := by
  fun_induction insertName name names with
  | case1 => exact List.mem_cons
  | case2 head names _ => exact List.mem_cons
  | case3 names _ =>
      rw [List.mem_cons]
      tauto
  | case4 head names _ _ ih =>
      rw [List.mem_cons, ih, List.mem_cons]
      tauto

namespace Directory
variable {d : Directory} {options : RunOptions}

/-- The fixtures are the files whose names mark them as such. -/
theorem mem_fixtures_iff {name : String} :
    name ∈ d.fixtures ↔ (∃ file ∈ d.files, file.name = name) ∧ (stem? name).isSome := by
  have inserted (names : List String) : name ∈ names.foldr insertName [] ↔ name ∈ names := by
    induction names with
    | nil => rfl
    | cons head names ih => rw [List.foldr_cons, mem_insertName, ih, List.mem_cons]
  rw [fixtures, inserted, List.mem_filter, List.mem_map]

/-- The turns of fixtures one after another, with the settings that the first one finds. -/
def turns (d : Directory) (options : RunOptions) : Settings → List String → List Turn
  | _, [] => []
  | settings, name :: names =>
    match stem? name with
    | none => turns d options settings names
    | some stem =>
      ⟨name, settings⟩ :: turns d options (d.trial options settings name stem).settings names

/-- The trials that there would be if none ended the run. -/
def allTrials (d : Directory) (options : RunOptions) (turns : List Turn) : List Trial :=
  turns.filterMap fun turn => (stem? turn.name).map (d.trial options turn.settings turn.name)

end Directory

/-- Whether a run does not go on after a trial. -/
def Trial.ends (options : RunOptions) (t : Trial) : Bool :=
  t.stops options || t.fault?.isSome

theorem Path.isTooLong_child {p : Path} (long : p.isTooLong) (name : String) :
    (p.child name).isTooLong := by
  have size {short long : List Char} (h : short <+: long) :
      (String.ofList short).utf8ByteSize ≤ (String.ofList long).utf8ByteSize := by
    obtain ⟨rest, rfl⟩ := h
    rw [String.ofList_append, String.utf8ByteSize_append]
    exact Nat.le_add_right _ _
  rw [Path.isTooLong, decide_eq_true_iff] at long ⊢
  refine Nat.le_trans long ?_
  unfold Path.text Path.toChars
  split
  -- The path of no components is written as a dot, which is not long.
  case isTrue empty =>
    rw [Path.text, Path.toChars, if_pos empty] at long
    exact absurd long (by decide)
  case isFalse =>
    rw [if_neg (by simp [Path.child])]
    exact size ((List.prefix_append_right_inj _).mpr (Pieces.join_isPrefix_concat _ _ _))

namespace Directory
variable {d : Directory} {options : RunOptions} {settings : Settings} {name stem : String}
variable {names : List String} {turn : Turn}

/-- Each fixture has one turn. -/
theorem map_name_turns (d : Directory) (options : RunOptions) (settings : Settings)
    (fixtures : ∀ name ∈ names, (stem? name).isSome) :
    (d.turns options settings names).map (·.name) = names := by
  induction names generalizing settings with
  | nil => rfl
  | cons name names ih =>
      obtain ⟨stem, fixture⟩ := Option.isSome_iff_exists.mp (fixtures name List.mem_cons_self)
      simp only [turns, fixture, List.map_cons]
      rw [ih _ fun n hn => fixtures n (List.mem_cons_of_mem _ hn)]

theorem isSome_of_mem_turns (mem : turn ∈ d.turns options settings names) :
    (stem? turn.name).isSome := by
  fun_induction turns d options settings names with
  | case1 => cases mem
  | case2 settings name names _ ih => exact ih mem
  | case3 settings name names stem fixture ih =>
      rcases List.mem_cons.mp mem with rfl | mem
      · rw [fixture]
        rfl
      · exact ih mem

theorem allTrials_cons (turn : Turn) {turns : List Turn} (fixture : stem? turn.name = some stem) :
    d.allTrials options (turn :: turns) =
      d.trial options turn.settings turn.name stem :: d.allTrials options turns := by
  simp [allTrials, fixture]

theorem trials_cons (fixture : stem? name = some stem) :
    d.trials options settings (name :: names) =
      if (d.trial options settings name stem).ends options then [d.trial options settings name stem]
      else d.trial options settings name stem ::
        d.trials options (d.trial options settings name stem).settings names := by
  simp only [trials, fixture]
  rfl

/-- A run goes through all trials, up to the first after which it does not go on. -/
theorem trials_eq_take (d : Directory) (options : RunOptions) (settings : Settings)
    (names : List String) :
    d.trials options settings names =
      (d.allTrials options (d.turns options settings names)).take
        ((d.allTrials options (d.turns options settings names)).findIdx
          (Trial.ends options) + 1) := by
  induction names generalizing settings with
  | nil => rfl
  | cons name names ih =>
      cases fixture : stem? name with
      | none => simp only [trials, turns, fixture, ih]
      | some stem =>
          simp only [turns, fixture]
          rw [trials_cons fixture, allTrials_cons ⟨name, settings⟩ fixture, List.findIdx_cons]
          cases ended : (d.trial options settings name stem).ends options with
          | true => rfl
          | false => simp [ih]

theorem place_location (short : d.location.isTooLong = false) :
    d.place d.location = .directory := by
  simp only [place, short, Bool.false_eq_true, if_false, if_true]

theorem runUnder_eq_conclude (short : d.location.isTooLong = false) (h : d.fixtures ≠ []) :
    d.runUnder settings options d.location =
      conclude options d.fixtures.length (d.trials options settings d.fixtures) := by
  simp only [runUnder, place_location short]

theorem runUnder_of_isTooLong (long : d.location.isTooLong) :
    d.runUnder settings options d.location = .broken .pathTooLong := by
  simp only [runUnder, place, long, if_true]

/-- Nothing is found in a directory that is too far down itself. -/
theorem obstructs_of_isTooLong (long : d.location.isTooLong) (fixture : (stem? turn.name).isSome) :
    d.Obstructs options turn := by
  obtain ⟨stem, marked⟩ := Option.isSome_iff_exists.mp fixture
  refine .outOfReach marked ?_
  rw [isOutOfReach, Path.isTooLong_child long, Bool.or_true]

section
variable {count : Nat} {trials : List Trial} {verdicts : List Verdict}
  (h : trials.map (·.verdict) = verdicts.map .ok)
include h

theorem filterMap_verdict? : trials.filterMap Trial.verdict? = verdicts := by
  have toOption : trials.filterMap Trial.verdict? =
      (trials.map (·.verdict)).filterMap Except.toOption := by
    rw [List.filterMap_map]
    rfl
  rw [toOption, h, List.filterMap_map]
  exact List.filterMap_some

theorem fault?_of_mem {t : Trial} (mem : t ∈ trials) : t.fault? = none := by
  obtain ⟨verdict, -, given⟩ := List.mem_map.mp (h ▸ List.mem_map_of_mem mem)
  rw [Trial.fault?, ← given]

/-- Trials that all came to a verdict. -/
theorem conclude_of_verdicts :
    conclude options count trials =
      ⟨.ok (if verdicts.all (·.passed) then 0 else 1),
        String.join (trials.map Trial.printed) ++ Suite.summary ⟨verdicts⟩,
        details options ["Discovered " ++ count.repr ++ " fixture files"] ++
          trials.flatMap (Trial.logged options), ⟨verdicts⟩⟩ := by
  have free : trials.findSome? Trial.fault? = none :=
    List.findSome?_eq_none_iff.mpr fun t mem => fault?_of_mem h mem
  have code : Suite.failedCount ⟨verdicts⟩ = 0 ↔ verdicts.all (·.passed) := by
    simp [Suite.failedCount, List.countP_eq_zero]
  simp only [conclude, filterMap_verdict? h, free, code]

/-- A trial without a verdict after trials that came to one. -/
theorem conclude_of_fault (options : RunOptions) (count : Nat) {t : Trial} {fault : Fault}
    (failed : t.verdict = .error fault) :
    (conclude options count (trials ++ [t])).exit = .error fault ∧
      (conclude options count (trials ++ [t])).suite = ⟨verdicts⟩ := by
  have found : (trials ++ [t]).findSome? Trial.fault? = some fault := by
    rw [List.findSome?_append,
      List.findSome?_eq_none_iff.mpr fun t mem => fault?_of_mem h mem]
    simp [Trial.fault?, failed]
  have suite : (trials ++ [t]).filterMap Trial.verdict? = verdicts := by
    rw [List.filterMap_append, filterMap_verdict? h]
    simp [Trial.verdict?, failed, Except.toOption]
  simp only [conclude, found, suite, and_self]

end

/-- Fixtures that nothing obstructs come to a verdict each. -/
theorem verdicts_of_free {turns : List Turn} (fixtures : ∀ turn ∈ turns, (stem? turn.name).isSome)
    (free : ∀ turn ∈ turns, ¬ d.Obstructs options turn) :
    ∃ verdicts, List.Forall₂ (d.Yields options) turns verdicts ∧
      (d.allTrials options turns).map (·.verdict) = verdicts.map .ok := by
  induction turns with
  | nil => exact ⟨[], .nil, rfl⟩
  | cons turn turns ih =>
      obtain ⟨verdicts, yields, given⟩ := ih (fun t ht => fixtures t (List.mem_cons_of_mem _ ht))
        fun t ht => free t (List.mem_cons_of_mem _ ht)
      obtain ⟨stem, fixture⟩ := Option.isSome_iff_exists.mp (fixtures turn List.mem_cons_self)
      obtain ⟨verdict, reached, rfl⟩ :=
        trial_verdict_of_not_obstructs fixture (free turn List.mem_cons_self)
      refine ⟨verdict :: verdicts, .cons ⟨fixture, reached⟩ yields, ?_⟩
      rw [allTrials_cons turn fixture, List.map_cons, List.map_cons, reached, given]

/-- Without a stop at the first failure a run goes on as long as there are verdicts. -/
theorem ends_of_patient (patient : options.failFast = false) (t : Trial) :
    t.ends options = t.fault?.isSome := by
  have goesOn : t.stops options = false := by
    unfold Trial.stops
    split
    · rw [patient, Bool.and_false]
    · rfl
  rw [Trial.ends, goesOn, Bool.false_or]

section
variable (patient : options.failFast = false)
include patient

theorem ends_of_verdicts {trials : List Trial} {verdicts : List Verdict}
    (given : trials.map (·.verdict) = verdicts.map .ok) (t : Trial) (mem : t ∈ trials) :
    t.ends options = false := by
  rw [ends_of_patient patient, fault?_of_mem given mem]
  rfl

theorem run_of_free (h : d.fixtures ≠ [])
    (free : ∀ turn ∈ d.turns options settings d.fixtures, ¬ d.Obstructs options turn) :
    let report := d.runUnder settings options d.location
    report.exit = .ok (if report.suite.verdicts.all (·.passed) then 0 else 1) ∧
    (∃ printed, report.output = printed ++ report.suite.summary) ∧
    List.Forall₂ (d.Yields options) (d.turns options settings d.fixtures)
      report.suite.verdicts := by
  have short : d.location.isTooLong = false := by
    obtain ⟨name, names, fixtures⟩ := List.exists_cons_of_ne_nil h
    have marked : (stem? name).isSome :=
      (mem_fixtures_iff.mp (fixtures ▸ List.mem_cons_self)).2
    obtain ⟨stem, fixture⟩ := Option.isSome_iff_exists.mp marked
    refine Bool.eq_false_iff.mpr fun long => free ⟨name, settings⟩ ?_
      (obstructs_of_isTooLong long marked)
    simp only [fixtures, turns, fixture]
    exact List.mem_cons_self
  obtain ⟨verdicts, yields, given⟩ := verdicts_of_free (fun _ => isSome_of_mem_turns) free
  rw [runUnder_eq_conclude short h, trials_eq_take,
    take_findIdx_of_none (ends_of_verdicts patient given), conclude_of_verdicts given]
  exact ⟨rfl, ⟨_, rfl⟩, yields⟩

theorem run_of_obstructs {before after : List Turn}
    (split : d.turns options settings d.fixtures = before ++ turn :: after)
    (free : ∀ other ∈ before, ¬ d.Obstructs options other) (obstructs : d.Obstructs options turn) :
    (∃ fault, (d.runUnder settings options d.location).exit = .error fault) ∧
    List.Forall₂ (d.Yields options) before
      (d.runUnder settings options d.location).suite.verdicts := by
  have fixture {t : Turn} (mem : t ∈ before ++ turn :: after) : (stem? t.name).isSome :=
    isSome_of_mem_turns (split ▸ mem)
  cases long : d.location.isTooLong with
  | true =>
      -- Every fixture is obstructed then, so there is none before the one at hand.
      have first : before = [] := List.eq_nil_iff_forall_not_mem.mpr fun other mem =>
        free other mem (obstructs_of_isTooLong long (fixture (List.mem_append_left _ mem)))
      rw [runUnder_of_isTooLong long, first]
      exact ⟨⟨_, rfl⟩, .nil⟩
  | false =>
      obtain ⟨verdicts, yields, given⟩ :=
        verdicts_of_free (fun _ mem => fixture (List.mem_append_left _ mem)) free
      obtain ⟨stem, marked⟩ := Option.isSome_iff_exists.mp
        (fixture (List.mem_append_right _ List.mem_cons_self))
      obtain ⟨fault, failed⟩ := trial_fault_of_obstructs marked obstructs
      have ended : (d.trial options turn.settings turn.name stem).ends options := by
        rw [ends_of_patient patient, Trial.fault?, failed]
        rfl
      -- The fixtures after it are not tried, so nothing needs to be known about them.
      have all : d.allTrials options (d.turns options settings d.fixtures) =
          d.allTrials options before ++
            d.trial options turn.settings turn.name stem :: d.allTrials options after := by
        rw [← allTrials_cons turn marked, split]
        exact List.filterMap_append
      have found : d.fixtures ≠ [] := by
        intro none
        simp [none, turns] at split
      obtain ⟨exit, suite⟩ := conclude_of_fault given options d.fixtures.length failed
      rw [runUnder_eq_conclude long found, trials_eq_take, all,
        take_findIdx_of_first (ends_of_verdicts patient given) ended]
      exact ⟨⟨fault, exit⟩, by rw [suite]; exact yields⟩

end

/-- A run comes to its end, with a verdict on every fixture, unless some fixture obstructs it. Then
it is broken off, and has verdicts on the fixtures before. -/
theorem run_of_fixtures (h : d.fixtures ≠ []) (patient : options.failFast = false)
    (settings : Settings) :
    let report := d.runUnder settings options d.location
    let turns := d.turns options settings d.fixtures
    turns.map (·.name) = d.fixtures ∧
    ((∀ turn ∈ turns, ¬ d.Obstructs options turn) →
      report.exit = .ok (if report.suite.verdicts.all (·.passed) then 0 else 1) ∧
      (∃ printed, report.output = printed ++ report.suite.summary) ∧
      List.Forall₂ (d.Yields options) turns report.suite.verdicts) ∧
    ∀ before turn after, turns = before ++ turn :: after →
      (∀ other ∈ before, ¬ d.Obstructs options other) → d.Obstructs options turn →
      (∃ fault, report.exit = .error fault) ∧
      List.Forall₂ (d.Yields options) before report.suite.verdicts := by
  intro report turns
  refine ⟨map_name_turns d options settings fun _ mem => (mem_fixtures_iff.mp mem).2,
    fun free => run_of_free patient h free, fun before turn after split free obstructs => ?_⟩
  exact run_of_obstructs patient split free obstructs

/-- A fixture of one empty statement. -/
def emptyStatement : Content :=
  .builder ((Term.construct .empty [] [] []).eval .empty [])

/-- Two fixtures. What is expected of the second is not UTF-8. -/
def spoiled : Directory :=
  ⟨.ofString "/fixtures", [⟨"t1.py", emptyStatement⟩, ⟨"t1.expected.txt", .bytes ";\n".toUTF8⟩,
    ⟨"t2.py", emptyStatement⟩, ⟨"t2.expected.txt", .bytes ⟨#[255]⟩⟩]⟩

theorem spoiled_run_of_fixtures :
    (∃ fault, (spoiled.runUnder .default ⟨false, false⟩ spoiled.location).exit = .error fault) ∧
    List.Forall₂ (spoiled.Yields ⟨false, false⟩) [⟨"t1.py", .default⟩]
      (spoiled.runUnder .default ⟨false, false⟩ spoiled.location).suite.verdicts := by
  refine (run_of_fixtures (by decide) rfl .default).2.2 [⟨"t1.py", .default⟩] ⟨"t2.py", .default⟩
    [] (by rfl) ?_ (.undecodable rfl rfl rfl)
  intro other mem obstructs
  obtain rfl := List.mem_singleton.mp mem
  obtain ⟨fault, failed⟩ := trial_fault_of_obstructs (by rfl : stem? "t1.py" = some "t1") obstructs
  cases failed

/-- One fixture has stopped the run, and there is no verdict on it. -/
theorem spoiled_run_broken :
    (spoiled.run ⟨false, false⟩ spoiled.location).exit = .error .undecodable ∧
    (spoiled.run ⟨false, false⟩ spoiled.location).suite.verdicts.length <
      spoiled.fixtures.length :=
  ⟨rfl, by decide⟩

end Directory
end ScriptGraph
