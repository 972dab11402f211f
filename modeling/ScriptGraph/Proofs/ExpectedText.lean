import ScriptGraph.Proofs.Trials

/-!
What an expected file says about a text. A file without carriage returns is taken byte for byte,
except for one newline at its end. With a carriage return in it, a file never matches the very text
that it holds.
-/

namespace ScriptGraph

/-- A character of one byte is found where that byte is. -/
theorem mem_utf8EncodeChar_iff {b : UInt8} (single : b.toNat < 128) {c : Char} :
    b ∈ String.utf8EncodeChar c ↔ c.toNat = b.toNat := by
  have byte (n : Nat) : b = UInt8.ofNat n ↔ b.toNat = n % 256 := by
    rw [← UInt8.toNat_inj, UInt8.toNat_ofNat']
  have code : c.val.toNat = c.toNat := rfl
  unfold String.utf8EncodeChar
  simp only [code]
  split
  · simp only [List.mem_singleton, byte]
    omega
  · split
    · simp only [List.mem_cons, List.not_mem_nil, or_false, byte]
      omega
    · split
      · simp only [List.mem_cons, List.not_mem_nil, or_false, byte]
        omega
      · simp only [List.mem_cons, List.not_mem_nil, or_false, byte]
        omega

namespace Newline

def encode (text : List Char) : List UInt8 :=
  text.flatMap String.utf8EncodeChar

/-- Drop the last byte if it is that of a newline. -/
def dropFinalByte (bytes : List UInt8) : List UInt8 :=
  if bytes.getLast? = some 10 then bytes.dropLast else bytes

theorem mem_encode_iff {b : UInt8} (single : b.toNat < 128) {text : List Char} :
    b ∈ encode text ↔ ∃ c ∈ text, c.toNat = b.toNat := by
  simp only [encode, List.mem_flatMap, mem_utf8EncodeChar_iff single]

theorem return_mem_encode_iff {text : List Char} : 13 ∈ encode text ↔ '\r' ∈ text := by
  rw [mem_encode_iff (by decide)]
  constructor
  · rintro ⟨c, mem, code⟩
    obtain rfl : c = '\r' := Char.toNat_inj.mp code
    exact mem
  · intro mem
    exact ⟨'\r', mem, rfl⟩

/-- To drop the final newline of a text is to drop it from its bytes. -/
theorem dropFinalByte_encode (text : List Char) :
    dropFinalByte (encode text) = encode (dropFinal text) := by
  rcases List.eq_nil_or_concat text with rfl | ⟨init, c, rfl⟩
  · rfl
  · rw [List.concat_eq_append]
    have bytes : encode (init ++ [c]) = encode init ++ String.utf8EncodeChar c := by
      simp [encode]
    by_cases newline : c = '\n'
    · subst newline
      have last : String.utf8EncodeChar '\n' = [10] := by decide
      simp [dropFinal, dropFinalByte, bytes, last]
    · have last : (encode (init ++ [c])).getLast? ≠ some 10 := by
        intro found
        rw [bytes, List.getLast?_append, Option.or_eq_some_iff, List.getLast?_eq_none_iff] at found
        rcases found with found | ⟨none, -⟩
        · have code := (mem_utf8EncodeChar_iff (by decide)).mp (List.mem_of_getLast? found)
          exact newline (Char.toNat_inj.mp code)
        · exact String.utf8EncodeChar_ne_nil none
      rw [dropFinalByte, if_neg last, dropFinal, if_neg (by simpa using newline)]

theorem unify_of_return_not_mem {text : List Char} (h : '\r' ∉ text) : unify text = text := by
  fun_induction unify text with
  | case1 => rfl
  | case2 cs ih => simp at h
  | case3 c cs _ ih =>
      rw [List.mem_cons, not_or] at h
      rw [if_neg (Ne.symm h.1), ih h.2]

theorem return_mem_dropFinal {text : List Char} (h : '\r' ∈ text) : '\r' ∈ dropFinal text := by
  rcases List.eq_nil_or_concat text with rfl | ⟨init, c, rfl⟩
  · cases h
  · unfold dropFinal
    split
    · simp_all
    · exact h

theorem return_not_mem_dropFinal_unify (text : List Char) : '\r' ∉ dropFinal (unify text) := by
  intro mem
  unfold dropFinal at mem
  split at mem
  · exact return_not_mem_unify text (List.dropLast_subset _ mem)
  · exact return_not_mem_unify text mem

theorem encode_toList (text : String) : encode text.toList = text.toUTF8.data.toList := by
  rw [String.toUTF8_eq_toByteArray, ← String.utf8Encode_toList]
  exact List.toList_data_toByteArray.symm

theorem encode_inj {text : List Char} {other : String} :
    encode text = encode other.toList ↔ text = other.toList := by
  refine ⟨fun same => ?_, fun same => by rw [same]⟩
  have bytes : (String.ofList text).toUTF8.data.toList = other.toUTF8.data.toList := by
    rw [← encode_toList, String.toList_ofList, same, encode_toList]
  have equal : String.ofList text = other :=
    String.toByteArray_inj.mp (ByteArray.ext (Array.toList_inj.mp bytes))
  rw [← equal, String.toList_ofList]

/-- What a file decodes to encodes to what it holds. -/
theorem encode_of_decodes {data : ByteArray} {text : String}
    (h : String.fromUTF8? data = some text) : data.data.toList = encode text.toList := by
  unfold String.fromUTF8? at h
  split at h
  · cases h
    rw [encode_toList]
    rfl
  · cases h

end Newline

namespace Directory
variable {d : Directory} {name stem actual text : String} {build : Build} {data : ByteArray}
variable {settings : Settings}

/-- No file has a name that is too long for one, or a path that is too long to be looked up. -/
def IsStorable (d : Directory) : Prop :=
  ∀ file ∈ d.files, d.isOutOfReach file.name = false

instance (d : Directory) : Decidable d.IsStorable :=
  inferInstanceAs (Decidable (∀ file ∈ d.files, _))

theorem isOutOfReach_of_data? (storable : d.IsStorable) (found : d.data? name = some data) :
    d.isOutOfReach name = false := by
  obtain ⟨content, held, -⟩ := Option.map_eq_some_iff.mp found
  obtain ⟨file, listed, -⟩ := Option.map_eq_some_iff.mp held
  have named : file.name = name := by simpa using List.find?_some listed
  rw [← named]
  exact storable file (List.mem_reverse.mp (List.mem_of_find?_eq_some listed))

/-- A rendering that is a text is compared with the expected text, and that is all. -/
theorem trial_verdict_of_text {expected : String} (storable : d.IsStorable)
    (fixture : d.build? name = some build)
    (renders : (build settings).1.outcome = .ok (.ofText actual))
    (found : d.data? (stem ++ ".expected.txt") = some data)
    (decoded : expected? data = some expected) (options : RunOptions) :
    ∃ verdict, (d.trial options settings name stem).verdict = .ok verdict ∧
      (verdict.passed ↔ expected = actual) := by
  have built : (buildFixture stem settings (d.build? name)).1.outcome = .ok (.ofText actual) := by
    rw [fixture]
    exact renders
  rw [trial_rendered (isOutOfReach_of_data? storable found) found decoded built]
  by_cases same : actual = expected
  · subst same
    rw [compare_text_self]
    exact ⟨_, rfl, iff_of_true rfl rfl⟩
  · rw [compare_text_of_ne same]
    exact ⟨_, rfl, iff_of_false Bool.false_ne_true (Ne.symm same)⟩

/-- A fixture passes if its text is the expected one up to how lines end. For a file without
carriage returns this is a comparison of bytes; for a file with one it never is. -/
theorem trial_passed_iff (storable : d.IsStorable) (fixture : d.build? name = some build)
    (renders : (build settings).1.outcome = .ok (.ofText actual))
    (found : d.data? (stem ++ ".expected.txt") = some data)
    (decodes : String.fromUTF8? data = some text) (options : RunOptions) :
    ∃ verdict, (d.trial options settings name stem).verdict = .ok verdict ∧
      (verdict.passed ↔ Newline.dropFinal (Newline.unify text.toList) = actual.toList) ∧
      (13 ∉ data.data.toList → (verdict.passed ↔
        Newline.dropFinalByte data.data.toList = actual.toUTF8.data.toList)) ∧
      (13 ∈ data.data.toList → ¬ (verdict.passed ∧
        Newline.dropFinalByte data.data.toList = actual.toUTF8.data.toList)) := by
  have decoded : expected? data =
      some (String.ofList (Newline.dropFinal (Newline.unify text.toList))) := by
    simp only [expected?, decodes, Option.map_some]
  obtain ⟨verdict, reached, passed⟩ :=
    trial_verdict_of_text storable fixture renders found decoded options
  have passed : verdict.passed ↔
      Newline.dropFinal (Newline.unify text.toList) = actual.toList := by
    rw [passed, ← String.toList_inj, String.toList_ofList]
  have bytes : Newline.dropFinalByte data.data.toList = actual.toUTF8.data.toList ↔
      Newline.dropFinal text.toList = actual.toList := by
    rw [Newline.encode_of_decodes decodes, Newline.dropFinalByte_encode, ← Newline.encode_toList,
      Newline.encode_inj]
  rw [bytes, Newline.encode_of_decodes decodes, Newline.return_mem_encode_iff]
  refine ⟨verdict, reached, passed, fun absent => ?_, fun present => ?_⟩
  · rw [passed, Newline.unify_of_return_not_mem absent]
  · rintro ⟨pass, same⟩
    -- Equal bytes leave a carriage return in the text, and a pass says that there is none.
    have mem := Newline.return_mem_dropFinal present
    rw [same, ← passed.mp pass] at mem
    exact Newline.return_not_mem_dropFinal_unify text.toList mem

/-- A declarator without an initial value, whose name ends in a carriage return. -/
def returningName : Action Value :=
  (Term.construct .declarator [.text "a\r"] [] []).eval .empty []

/-- Two fixtures whose expected files have a carriage return in them. -/
def returning : Directory :=
  ⟨.ofString "/fixtures", [⟨"t1.py", emptyStatement⟩, ⟨"t1.expected.txt", .bytes ";\r\n".toUTF8⟩,
    ⟨"t2.py", .builder returningName⟩, ⟨"t2.expected.txt", .bytes "a\r".toUTF8⟩]⟩

/-- The second fixture renders to the bytes of its expected file, hence it does not pass. -/
theorem returning_not_passed : ∃ verdict,
    (returning.trial ⟨false, false⟩ .default "t2.py" "t2").verdict = .ok verdict ∧
      ¬ verdict.passed := by
  have renders : returningName.produce .default =
      (.ok (.text "a\r" (.own 0)), (returningName.produce .default).2) := rfl
  have found : returning.data? ("t2" ++ ".expected.txt") = some "a\r".toUTF8 := rfl
  obtain ⟨verdict, reached, -, -, excludes⟩ :=
    trial_passed_iff (by decide) (by rfl : returning.build? "t2.py" = _)
      (Build.ofAction_text renders) found rfl ⟨false, false⟩
  refine ⟨verdict, reached, fun passed => excludes (by decide) ⟨passed, ?_⟩⟩
  decide

/-- The first fixture passes although the bytes differ, the second does not although they are the
same. -/
theorem returning_not_bytewise :
    (∃ verdict, (returning.trial ⟨false, false⟩ .default "t1.py" "t1").verdict = .ok verdict ∧
      verdict.passed ∧ verdict.actual = .text ";" ∧
      Newline.dropFinalByte ";\r\n".toUTF8.data.toList ≠ ";".toUTF8.data.toList) ∧
    ∃ verdict, (returning.trial ⟨false, false⟩ .default "t2.py" "t2").verdict = .ok verdict ∧
      ¬ verdict.passed ∧ verdict.actual = .text "a\r" ∧
      Newline.dropFinalByte "a\r".toUTF8.data.toList = "a\r".toUTF8.data.toList :=
  ⟨⟨_, rfl, rfl, rfl, by decide⟩, _, rfl, Bool.false_ne_true, rfl, by decide⟩

end Directory
end ScriptGraph
