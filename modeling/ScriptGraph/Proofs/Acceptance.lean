import ScriptGraph.Proofs.ExpectedText

/-!
Which files are accepted for a text. What is read from a file has no carriage returns, so a text
with one is never accepted; any other text is accepted from the files that hold it with a newline at
the end, in whatever way their lines end, and from those that hold just the text unless it ends in a
newline of its own.
-/

namespace ScriptGraph
namespace Newline

/-- Put one newline for each carriage return that a newline follows, and for that newline. -/
def replacePairs : List Char → List Char
  | [] => []
  | '\r' :: '\n' :: cs => '\n' :: replacePairs cs
  | c :: cs => c :: replacePairs cs

/-- Put a newline for each carriage return. -/
def replaceReturns (text : List Char) : List Char :=
  text.map fun c => if c = '\r' then '\n' else c

/-- Lines are unified in one go as in two: pairs first, and then what carriage returns are left. -/
theorem unify_eq_replace (text : List Char) : unify text = replaceReturns (replacePairs text) := by
  fun_induction unify text with
  | case1 => rfl
  | case2 cs ih =>
      rw [replacePairs, replaceReturns, List.map_cons, if_neg (by decide), ih]
      rfl
  | case3 c cs alone ih =>
      rw [replacePairs, replaceReturns, List.map_cons, ih]
      · rfl
      · exact alone

theorem dropFinal_eq_iff {text result : List Char} :
    dropFinal text = result ↔
      text = result ++ ['\n'] ∨ text = result ∧ result.getLast? ≠ some '\n' := by
  unfold dropFinal
  split
  case isTrue ends =>
    obtain ⟨init, rfl⟩ := List.getLast?_eq_some_iff.mp ends
    rw [List.dropLast_concat, List.append_cancel_right_eq]
    refine ⟨.inl, fun h => h.resolve_right ?_⟩
    rintro ⟨rfl, other⟩
    exact other ends
  case isFalse other =>
    constructor
    · rintro rfl
      exact .inr ⟨rfl, other⟩
    · rintro (rfl | ⟨rfl, -⟩)
      · exact absurd (by simp) other
      · rfl

end Newline

namespace Directory
variable {d : Directory} {name stem actual : String} {build : Build} {settings : Settings}
variable {options : RunOptions} {data : ByteArray}

/-- The trial of a fixture ends with a verdict, and it is in favour. -/
def Passes (d : Directory) (options : RunOptions) (settings : Settings) (name stem : String) :
    Prop :=
  ∃ verdict, (d.trial options settings name stem).verdict = .ok verdict ∧ verdict.passed

/-- The directory after a file was written, in the place of the one of that name if there is one. -/
def write (d : Directory) (name : String) (data : ByteArray) : Directory :=
  { d with files := d.files ++ [⟨name, .bytes data⟩] }

theorem data?_write_self (d : Directory) (name : String) (data : ByteArray) :
    (d.write name data).data? name = some data := by
  simp [write, data?, content?, Content.bytes]

theorem build?_write_of_ne (d : Directory) {name other : String} (data : ByteArray)
    (h : other ≠ name) : (d.write name data).build? other = d.build? other := by
  simp [write, build?, content?, h.symm]

/-- A fixture is never the file with the text expected of it. -/
theorem ne_of_stem? (fixture : stem? name = some stem) : name ≠ stem ++ ".expected.txt" := by
  rintro rfl
  simp [stem?] at fixture

/-- To pass, a text has to be the one that is read from a file that can be looked up. -/
theorem passes_iff_expected?
    (built : (buildFixture stem settings (d.build? name)).1.outcome = .ok (.ofText actual)) :
    d.Passes options settings name stem ↔ d.isOutOfReach (stem ++ ".expected.txt") = false ∧
      ∃ data, d.data? (stem ++ ".expected.txt") = some data ∧ expected? data = some actual := by
  unfold Passes
  cases near : d.isOutOfReach (stem ++ ".expected.txt") with
  | true =>
      rw [trial_outOfReach near]
      simp
  | false =>
      cases found : d.data? (stem ++ ".expected.txt") with
      | none =>
          rw [trial_missing near found]
          simp
      | some data =>
          cases decoded : expected? data with
          | none =>
              rw [trial_undecodable near found decoded]
              simp [decoded]
          | some expected =>
              rw [trial_rendered near found decoded built]
              by_cases same : actual = expected
              · subst same
                rw [compare_text_self]
                simp [decoded]
              · rw [compare_text_of_ne same]
                simp [decoded, Ne.symm same, mismatch]

theorem expected?_ne_of_return_mem (h : '\r' ∈ actual.toList) (data : ByteArray) :
    expected? data ≠ some actual := by
  intro expected
  obtain ⟨text, -, rfl⟩ := Option.map_eq_some_iff.mp expected
  rw [String.toList_ofList] at h
  exact Newline.return_not_mem_dropFinal_unify text.toList h

theorem expected?_eq_some_iff {text : String} (decodes : String.fromUTF8? data = some text) :
    expected? data = some actual ↔
      Newline.dropFinal (Newline.unify text.toList) = actual.toList := by
  simp only [expected?, decodes, Option.map_some, Option.some.injEq]
  rw [← String.toList_inj, String.toList_ofList]

theorem decodes_toUTF8 (text : String) : String.fromUTF8? text.toUTF8 = some text := by
  simp only [String.fromUTF8?, String.toUTF8_eq_toByteArray, dif_pos text.isValidUTF8]
  rfl

/-- The files that make a fixture pass. A text with a carriage return has none; every other text is
accepted up to how lines end and to a newline at the end, and from the file that holds it with such
a newline in any case. -/
theorem acceptable_files (fixture : stem? name = some stem) (builds : d.build? name = some build)
    (renders : (build settings).1.outcome = .ok (.ofText actual)) (options : RunOptions) :
    ('\r' ∈ actual.toList → ¬ d.Passes options settings name stem) ∧
    ('\r' ∉ actual.toList →
      (d.IsStorable → ∀ data text, d.data? (stem ++ ".expected.txt") = some data →
        String.fromUTF8? data = some text →
        (d.Passes options settings name stem ↔
          Newline.replaceReturns (Newline.replacePairs text.toList) = actual.toList ++ ['\n'] ∨
          Newline.replaceReturns (Newline.replacePairs text.toList) = actual.toList ∧
            actual.toList.getLast? ≠ some '\n')) ∧
      ((d.write (stem ++ ".expected.txt") (actual ++ "\n").toUTF8).IsStorable →
        (d.write (stem ++ ".expected.txt") (actual ++ "\n").toUTF8).Passes options settings name
          stem)) := by
  have built {d : Directory} (builds : d.build? name = some build) :
      (buildFixture stem settings (d.build? name)).1.outcome = .ok (.ofText actual) := by
    rw [builds]
    exact renders
  refine ⟨fun mem => ?_, fun free => ⟨fun storable data text found decodes => ?_,
    fun storable => ?_⟩⟩
  · rw [passes_iff_expected? (built builds)]
    rintro ⟨-, data, -, expected⟩
    exact expected?_ne_of_return_mem mem data expected
  · rw [passes_iff_expected? (built builds), isOutOfReach_of_data? storable found,
      ← Newline.unify_eq_replace, ← Newline.dropFinal_eq_iff, ← expected?_eq_some_iff decodes]
    simp [found]
  · have found := d.data?_write_self (stem ++ ".expected.txt") (actual ++ "\n").toUTF8
    have kept := d.build?_write_of_ne (actual ++ "\n").toUTF8 (ne_of_stem? fixture)
    rw [passes_iff_expected? (built (kept.trans builds))]
    refine ⟨isOutOfReach_of_data? storable found, _, found, ?_⟩
    rw [expected?_eq_some_iff (decodes_toUTF8 _),
      Newline.unify_of_return_not_mem (by simpa using free), Newline.dropFinal_eq_iff]
    exact .inl (by simp)

def strictProgram : Action Value :=
  (Term.construct .program [] [] []).eval .empty []

/-- A program of nothing but its opening, which ends in two newlines, and a file with just that. -/
def opening : Directory :=
  ⟨.ofString "/fixtures", [⟨"t1.py", .builder strictProgram⟩,
    ⟨"t1.expected.txt", .bytes "\"use strict\"\n\n".toUTF8⟩]⟩

/-- The newlines of the text do not make up for the one at the end of the file. -/
theorem opening_and_returning_acceptable :
    ¬ opening.Passes ⟨false, false⟩ .default "t1.py" "t1" ∧
      (opening.write "t1.expected.txt" "\"use strict\"\n\n\n".toUTF8).Passes
        ⟨false, false⟩ .default "t1.py" "t1" ∧
      ¬ returning.Passes ⟨false, false⟩ .default "t2.py" "t2" := by
  have strict : strictProgram.produce .default =
      (.ok (.text "\"use strict\"\n\n"), (strictProgram.produce .default).2) := rfl
  have returns : returningName.produce .default =
      (.ok (.text "a\r" (.own 0)), (returningName.produce .default).2) := rfl
  have first : stem? "t1.py" = some "t1" := rfl
  have second : stem? "t2.py" = some "t2" := rfl
  obtain ⟨accepts, written⟩ := (acceptable_files (d := opening) first rfl
    (Build.ofAction_text strict) ⟨false, false⟩).2 (by decide)
  refine ⟨?_, written (by decide), ?_⟩
  · rw [accepts (by decide) "\"use strict\"\n\n".toUTF8 _ rfl (decodes_toUTF8 _)]
    decide
  · exact (acceptable_files (d := returning) second rfl (Build.ofAction_text returns)
      ⟨false, false⟩).1 (by decide)

end Directory
end ScriptGraph
